import TetraPhy.Codec.Sch
import TetraPhy.Lib.AirOrder
import TetraPhy.Lmac.FillerMailbox
import TetraPhy.Tx.ContinuousDownlink

/-!
# The filler banks on air

The operations of `tetra_voice_filler.c` through the filler mailbox to the burst builder: after
any sequence of them, which banks are valid and what goes out for their timeslots.

| operation | its timeslot |
|---|---|
| `tetra_voice_filler_write_ts`, `tetra_voice_filler_clear_ts` | the argument, 1 .. 4 |
| `tetra_voice_filler_clear` | all |
| `tetra_voice_filler_install` | TS2 by its comment and its message, TS4 by the word it commits |

`last` keeps beside the mailbox what the last operation on each timeslot was.
**`banks_faithful_iff`** says in which runs the banks are what they should be: those in which an
install finds its burst in the banks of TS2 and TS4 already.
-/

namespace TetraPhy.Tx

open AirOrder Codec Lmac Sw

theorem neZeroFiller : NeZero 4 := ⟨by decide⟩

attribute [local instance] neZeroFiller

/-! ## Operations -/

/-- `build_mac_resource_null_pdu`: a MAC-RESOURCE without a TM-SDU, length indication 62. -/
def buildMacResourceNullPdu (groupGssi : BitVec 24) : List Bool :=
  List.replicate 7 false ++ onAir (62 : BitVec 6) ++ onAir (0b001 : BitVec 3) ++
    onAir groupGssi ++ List.replicate 3 false ++ true :: List.replicate 224 false

/-- The burst of an install, `none` where the encoder fails; `regColour` and `regCfg1` are the
registers it reads. -/
def installBurst (groupGssi regColour regCfg1 : UInt32) : Option (ℕ → Bool) :=
  (schfEncode (buildMacResourceNullPdu (groupGssi.toBitVec.extractLsb' 0 24))
    (regColour &&& 0x3F).toUInt8 1 (regCfg1 &&& 0x3FF).toUInt16
    ((regCfg1 >>> 10) &&& 0x3FFF).toUInt16).map fun type5 i ↦ type5.getD i false

theorem length_buildMacResourceNullPdu (groupGssi : BitVec 24) :
    (buildMacResourceNullPdu groupGssi).length = 268 := by
  simp only [buildMacResourceNullPdu, List.length_append, List.length_cons, List.length_replicate,
    length_onAir]

/-- The encoder does not fail. -/
theorem isSome_installBurst (groupGssi regColour regCfg1 : UInt32) :
    (installBurst groupGssi regColour regCfg1).isSome = true := by
  have hlen := length_buildMacResourceNullPdu (groupGssi.toBitVec.extractLsb' 0 24)
  rw [installBurst, Option.isSome_map, schfEncode_eq hlen, Channel.encode_eq (c := schf) hlen]
  rfl

/-- `tetra_voice_filler_install`. -/
def voiceFillerInstall (groupGssi regColour regCfg1 : UInt32) : List RegWrite :=
  if groupGssi = 0 then []
  else match installBurst groupGssi regColour regCfg1 with
    | none => []
    | some type5 =>
        let words := packBitsMailbox type5
        (List.range 14).flatMap (fun i ↦ fillerWrite i.toUInt32 (words i)) ++
          fillerWrite 14 ((0x1 : UInt32) ||| ((0x4 : UInt32) <<< 1)) ++
          [⟨regVoiceFillerGo, 0x1⟩]

/-- A call of one of the functions; a timeslot is an `unsigned`. -/
inductive FillerOp
  | writeTs (type5 : ℕ → Bool) (targetTs : UInt32)
  | clearTs (targetTs : UInt32)
  | clear
  | install (groupGssi regColour regCfg1 : UInt32)

namespace FillerOp

/-- The register writes. -/
def writes : FillerOp → List RegWrite
  | writeTs type5 ts => if ts < 1 || ts > 4 then [] else voiceFillerWriteTs type5 ts.toUInt8
  | clearTs ts => if ts < 1 || ts > 4 then [] else voiceFillerClearTs ts.toUInt8
  | clear => voiceFillerClear
  | install groupGssi regColour regCfg1 => voiceFillerInstall groupGssi regColour regCfg1

/-- The burst that is installed. -/
def installed : FillerOp → Option (ℕ → Bool)
  | install groupGssi regColour regCfg1 =>
      if groupGssi = 0 then none else installBurst groupGssi regColour regCfg1
  | _ => none

/-- What was last done to each timeslot: `some` burst written, or nothing or a clear. -/
def record (op : FillerOp) (last : Fin 4 → Option (ℕ → Bool)) : Fin 4 → Option (ℕ → Bool) :=
  match op with
  | writeTs type5 ts =>
      if ts < 1 || ts > 4 then last
      else Function.update last (FillerMailbox.tsBank ts.toUInt8) (some type5)
  | clearTs ts =>
      if ts < 1 || ts > 4 then last
      else Function.update last (FillerMailbox.tsBank ts.toUInt8) none
  | clear => fun _ ↦ none
  | install .. =>
      match op.installed with
      | none => last
      | some type5 => Function.update last (FillerMailbox.tsBank 2) (some type5)

end FillerOp

/-! ## What is sent for a timeslot -/

/-- The banks as the dispatcher sees them. -/
def offered (m : FillerMailbox) (voiceActiveMask sdsFillActive : BitVec 4) : FillerIn where
  voiceActiveMask := voiceActiveMask
  sdsFillActive := sdsFillActive
  valid := ofAir 4 fun j ↦ m.valid (Fin.ofNat 4 (3 - j))
  blk1 k := ofAir 216 fun j ↦ m.bank k.toFin (215 - j)
  blk2 k := ofAir 216 fun j ↦ m.bank k.toFin (431 - j)

/-- The bits of a burst as its symbols bring them. -/
def airBits (burst : BitVec 510) : List Bool := (dibits burst).flatMap onAir

/-- The two blocks of a normal burst in the bits that are sent. -/
def airBlocks (bits : List Bool) : List Bool :=
  (bits.drop 14).take 216 ++ (bits.drop 282).take 216

/-- Whenever the dispatcher gives timeslot `t` to the filler, the blocks that go out are the 432
bits of `type5`. -/
def Sends (m : FillerMailbox) (t : Fin 4) (type5 : ℕ → Bool) : Prop :=
  ∀ (d : BurstDispatcher) (i : DispIn) (b : BurstBuilder) (symEn : Bool)
    (voiceActiveMask sdsFillActive : BitVec 4),
    i.filler = offered m voiceActiveMask sdsFillActive → i.slotPulse = true →
    i.slotNum = BitVec.ofFin t → i.filler.overrides i.fn i.slotNum = true → b.Settled →
    airBlocks (airBits (b.taken symEn (d.step i))) = (List.range 432).map type5

theorem map_range_two_mul {α : Type*} (f : ℕ → α) (n : ℕ) :
    (List.range n).flatMap (fun j ↦ [f (2 * j), f (2 * j + 1)]) = (List.range (2 * n)).map f := by
  induction n with
  | zero => rfl
  | succ n ih =>
      rw [List.range_succ, List.flatMap_append, ih, Nat.mul_succ, List.range_succ, List.range_succ]
      simp

/-- The symbols bring the bits of the burst, the highest first. -/
theorem airBits_eq (burst : BitVec 510) : airBits burst = onAir burst := by
  have hpair : ∀ j < 255, onAir (burst.extractLsb' (508 - 2 * j) 2) =
      [burst.getMsbD (2 * j), burst.getMsbD (2 * j + 1)] := by
    intro j hj
    have hhigh : 508 - 2 * j + 1 = 509 - 2 * j := by omega
    have hlow : 508 - 2 * j = 509 - (2 * j + 1) := by omega
    have hbits : ∀ x : BitVec 2, onAir x = [x.getLsbD 1, x.getLsbD 0] := by decide
    rw [hbits, BitVec.getLsbD_extractLsb', BitVec.getLsbD_extractLsb', BitVec.getMsbD_eq_getLsbD,
      BitVec.getMsbD_eq_getLsbD, hhigh, Nat.add_zero, hlow]
    simp only [show 2 * j < 510 by omega, show 2 * j + 1 < 510 by omega, Nat.add_one_sub_one,
      decide_true, Bool.true_and, Nat.lt_add_one, Nat.zero_lt_two]
  rw [airBits, dibits, List.flatMap_map, onAir, ← map_range_two_mul burst.getMsbD 255]
  exact List.flatMap_congr fun j hj ↦ hpair j (List.mem_range.1 hj)

/-- A part of a list, by the length of what is in front of it. -/
theorem take_drop_middle {α : Type*} (pre part post : List α) {n m : ℕ} (hn : pre.length = n)
    (hm : part.length = m) : ((pre ++ part ++ post).drop n).take m = part := by
  rw [List.append_assoc, List.drop_left' hn, List.take_left' hm]

/-- The two blocks of a normal burst are where they are looked for. -/
theorem airBlocks_ndbBurst (block1 block2 : BitVec 216) (bb : BitVec 30) (ndb2 : Bool) :
    airBlocks (onAir (ndbBurst block1 block2 bb ndb2)) = onAir block1 ++ onAir block2 := by
  rw [airBlocks]
  refine congrArg₂ (· ++ ·) ?_ ?_
  · rw [ndbBurst]
    simp only [onAir_append, List.append_assoc]
    rw [← List.append_assoc (onAir tail1), ← List.append_assoc (onAir tail1 ++ onAir padj)]
    exact take_drop_middle _ _ _ (by simp) (by simp)
  · rw [ndbBurst]
    simp only [onAir_append]
    rw [List.append_assoc _ (onAir padj)]
    exact take_drop_middle _ _ _ (by simp) (by simp)

/-! ## What a bank holds -/

section Banks

variable {m : FillerMailbox} {t : Fin 4} {type5 : ℕ → Bool}

/-- The blocks of a bank, in the order they are sent. -/
def bankBlocks (m : FillerMailbox) (t : Fin 4) : List Bool :=
  ((List.range 216).map fun j ↦ m.bank t (215 - j)) ++
    (List.range 216).map fun j ↦ m.bank t (431 - j)

theorem holds_iff : m.Holds t type5 ↔
    m.valid t = true ∧ bankBlocks m t = (List.range 432).map type5 := by
  have hsplit : (List.range 432).map type5 =
      (List.range 216).map type5 ++ (List.range 216).map fun j ↦ type5 (216 + j) := by
    rw [show 432 = 216 + 216 from rfl, List.range_add, List.map_append, List.map_map]
    rfl
  rw [FillerMailbox.Holds, bankBlocks, hsplit]
  refine and_congr_right fun _ ↦ ?_
  constructor
  · intro hbits
    refine congrArg₂ (· ++ ·) (List.map_congr_left fun i hi ↦ ?_)
      (List.map_congr_left fun i hi ↦ ?_)
    · exact (hbits i (List.mem_range.1 hi)).1
    · exact (hbits i (List.mem_range.1 hi)).2
  · intro hblocks i hi
    obtain ⟨hlow, hhigh⟩ := List.append_inj hblocks (by simp)
    exact ⟨List.map_inj_left.1 hlow i (List.mem_range.2 hi),
      List.map_inj_left.1 hhigh i (List.mem_range.2 hi)⟩

/-- The filler's burst is captured and taken by the builder. -/
theorem airBlocks_taken {i : DispIn} {b : BurstBuilder} {voiceActiveMask sdsFillActive : BitVec 4}
    (d : BurstDispatcher) (symEn : Bool)
    (hfiller : i.filler = offered m voiceActiveMask sdsFillActive) (hpulse : i.slotPulse = true)
    (hslot : i.slotNum = BitVec.ofFin t) (hover : i.filler.overrides i.fn i.slotNum = true)
    (hb : b.Settled) :
    airBlocks (airBits (b.taken symEn (d.step i))) = bankBlocks m t := by
  have hstep : (d.step i).burst =
      ndbBurst ((offered m voiceActiveMask sdsFillActive).blk1 i.slotNum)
        ((offered m voiceActiveMask sdsFillActive).blk2 i.slotNum) i.bb false := by
    rw [← hfiller]
    simp [BurstDispatcher.step, BurstDispatcher.burst, DispIn.select, hpulse, hover]
  have hreq : (d.step i).buildReq = true := by rw [BurstDispatcher.step, if_pos hpulse]
  rw [b.taken_eq symEn _ hb hreq, airBits_eq, hstep, airBlocks_ndbBurst, hslot]
  rw [offered, onAir_ofAir, onAir_ofAir]
  rfl

theorem valid_offered (m : FillerMailbox) (voiceActiveMask sdsFillActive : BitVec 4) (t : Fin 4) :
    (offered m voiceActiveMask sdsFillActive).valid.getLsbD t = m.valid t := by
  have hback : Fin.ofNat 4 (3 - (4 - 1 - t.val)) = t := by
    refine Fin.ext ?_
    rw [Fin.val_ofNat]
    omega
  rw [BitVec.getLsbD_eq_getMsbD, decide_eq_true t.isLt, Bool.true_and, offered,
    getMsbD_ofAir _ (by omega), hback]

/-- A valid bank is sent while every timeslot is marked for voice. -/
theorem overrides_offered (hvalid : m.valid t = true) :
    (offered m (BitVec.allOnes 4) 0).overrides 0 (BitVec.ofFin t) = true := by
  have hmask : (BitVec.allOnes 4).getLsbD t = true := by
    rw [BitVec.getLsbD_allOnes, decide_eq_true t.isLt]
  have hbank := (valid_offered m (BitVec.allOnes 4) 0 t).trans hvalid
  change (((BitVec.allOnes 4).getLsbD t || _) && (offered m (BitVec.allOnes 4) 0).valid.getLsbD t &&
    decide ((0 : BitVec 5) ≤ 16)) = true
  rw [hmask, hbank]
  rfl

/-- **A valid bank sends what it holds.** -/
theorem holds_iff_sends : m.Holds t type5 ↔ m.valid t = true ∧ Sends m t type5 := by
  rw [holds_iff]
  refine and_congr_right fun hvalid ↦ ?_
  constructor
  · intro hblocks d i b symEn voiceActiveMask sdsFillActive hfiller hpulse hslot hover hb
    rw [airBlocks_taken d symEn hfiller hpulse hslot hover hb, hblocks]
  · intro hsends
    -- some slot that the filler takes
    let i : DispIn :=
      { slotPulse := true, slotNum := BitVec.ofFin t, fn := 0,
        sched := fun _ ↦ ⟨0, 0, false, false⟩, entry := fun _ ↦ 0, banks := {},
        filler := offered m (BitVec.allOnes 4) 0, bb := 0, sb1 := 0 }
    have hover : i.filler.overrides i.fn i.slotNum = true := overrides_offered hvalid
    have hb : ({} : BurstBuilder).Settled := fun _ ↦ rfl
    rw [← hsends {} i {} false (BitVec.allOnes 4) 0 rfl rfl rfl hover hb]
    exact (airBlocks_taken {} false rfl rfl rfl hover hb).symm

end Banks

/-! ## Runs -/

/-- Two bursts are the same on air. -/
def SameBurst (type5 other : ℕ → Bool) : Prop := ∀ i < 432, type5 i = other i

/-- The mailbox, and what was last done to each timeslot. -/
structure FillerRun where
  mailbox : FillerMailbox := {}
  last : Fin 4 → Option (ℕ → Bool) := fun _ ↦ none

namespace FillerRun

/-- An operation, its GO completed. -/
def step (r : FillerRun) (op : FillerOp) : FillerRun where
  mailbox := r.mailbox.writes op.writes
  last := op.record r.last

/-- A bank is valid exactly if the last operation on its timeslot was a write, and then what is
sent is that burst. -/
def Faithful (r : FillerRun) : Prop :=
  ∀ t, (r.mailbox.valid t = true ↔ (r.last t).isSome) ∧
    ∀ type5, r.last t = some type5 → Sends r.mailbox t type5

/-- An install finds its burst in the banks of TS2 and of TS4. -/
def InstallAgrees (r : FillerRun) (op : FillerOp) : Prop :=
  ∀ type5, op.installed = some type5 →
    ∀ t, t = FillerMailbox.tsBank 2 ∨ t = FillerMailbox.tsBank 4 →
      ∃ other, r.last t = some other ∧ SameBurst type5 other

/-! ### The effect of an operation -/

/-- A bank is as the last operation on its timeslot left it. -/
def Agrees (m : FillerMailbox) (t : Fin 4) : Option (ℕ → Bool) → Prop
  | none => m.valid t = false
  | some type5 => m.Holds t type5

theorem faithful_iff_agrees (r : FillerRun) :
    r.Faithful ↔ ∀ t, Agrees r.mailbox t (r.last t) := by
  refine forall_congr' fun t ↦ ?_
  cases r.last t with
  | none => simp [Agrees]
  | some type5 =>
      rw [Agrees, holds_iff_sends]
      simp

theorem agrees_congr {m m' : FillerMailbox} {t : Fin 4} (h : m.SameBank m' t)
    (o : Option (ℕ → Bool)) : Agrees m' t o ↔ Agrees m t o := by
  cases o with
  | none => rw [Agrees, Agrees, h.2]
  | some type5 => exact h.holds_iff type5

theorem holds_congr {m : FillerMailbox} {t : Fin 4} {type5 other : ℕ → Bool}
    (h : SameBurst type5 other) : m.Holds t type5 ↔ m.Holds t other := by
  have hmap : (List.range 432).map type5 = (List.range 432).map other :=
    List.map_congr_left fun i hi ↦ h i (List.mem_range.1 hi)
  rw [holds_iff, holds_iff, hmap]

/-- One bank holds one burst. -/
theorem sameBurst_of_holds {m : FillerMailbox} {t : Fin 4} {type5 other : ℕ → Bool}
    (h : m.Holds t type5) (h' : m.Holds t other) : SameBurst type5 other := by
  have hmap := (holds_iff.1 h).2.symm.trans (holds_iff.1 h').2
  exact fun i hi ↦ List.map_inj_left.1 hmap i (List.mem_range.2 hi)

/-- A timeslot in range, as an `unsigned` and as an octet. -/
theorem toUInt8_mem {ts : UInt32} (h : ¬ (ts < 1 || ts > 4) = true) :
    1 ≤ ts.toUInt8 ∧ ts.toUInt8 ≤ 4 := by
  have hts : ts = 1 ∨ ts = 2 ∨ ts = 3 ∨ ts = 4 := by simp at h; grind
  rcases hts with rfl | rfl | rfl | rfl <;> decide

/-- Whatever changes one bank only keeps the others as they should be. -/
theorem agrees_update {m m' : FillerMailbox} {last : Fin 4 → Option (ℕ → Bool)} {b : Fin 4}
    {o : Option (ℕ → Bool)} (h : ∀ t, Agrees m t (last t)) (hb : Agrees m' b o)
    (hother : ∀ t ≠ b, m.SameBank m' t) (t : Fin 4) :
    Agrees m' t (Function.update last b o t) := by
  rcases eq_or_ne t b with rfl | hne
  · rw [Function.update_self]
    exact hb
  · rw [Function.update_of_ne hne]
    exact (agrees_congr (hother t hne) _).2 (h t)

variable {r : FillerRun}

theorem agrees_writeTs (h : ∀ t, Agrees r.mailbox t (r.last t)) (type5 : ℕ → Bool) (ts : UInt32) :
    ∀ t, Agrees (r.step (.writeTs type5 ts)).mailbox t ((r.step (.writeTs type5 ts)).last t) := by
  simp only [step, FillerOp.writes, FillerOp.record]
  split_ifs with hout
  · exact h
  · obtain ⟨hlo, hhi⟩ := toUInt8_mem hout
    obtain ⟨hholds, hother⟩ := r.mailbox.writes_voiceFillerWriteTs type5 hlo hhi
    exact agrees_update h hholds hother

theorem agrees_clearTs (h : ∀ t, Agrees r.mailbox t (r.last t)) (ts : UInt32) :
    ∀ t, Agrees (r.step (.clearTs ts)).mailbox t ((r.step (.clearTs ts)).last t) := by
  simp only [step, FillerOp.writes, FillerOp.record]
  split_ifs with hout
  · exact h
  · obtain ⟨hlo, hhi⟩ := toUInt8_mem hout
    have hin : ¬ (ts.toUInt8 < 1 || ts.toUInt8 > 4) = true := by simp; grind
    obtain ⟨hbank, hvalid⟩ := r.mailbox.writes_fillerInvalidate hlo hhi
    rw [voiceFillerClearTs, if_neg hin]
    refine agrees_update h ?_ fun t hne ↦ ⟨?_, ?_⟩
    · rw [Agrees, hvalid, Function.update_self]
    · rw [hbank]
    · rw [hvalid, Function.update_of_ne hne]

theorem agrees_clear (t : Fin 4) :
    Agrees (r.step .clear).mailbox t ((r.step .clear).last t) :=
  r.mailbox.writes_voiceFillerClear t

/-- An install is a write to TS4. -/
theorem writes_of_installed {op : FillerOp} {type5 : ℕ → Bool} (h : op.installed = some type5) :
    op.writes = voiceFillerWriteTs type5 4 := by
  cases op with
  | writeTs | clearTs | clear => exact absurd h (by simp [FillerOp.installed])
  | install groupGssi regColour regCfg1 =>
      rw [FillerOp.installed] at h
      split_ifs at h with hzero
      rw [FillerOp.writes, voiceFillerInstall, if_neg hzero, h]
      rfl

/-- An install that fails does nothing. -/
theorem step_install_none {groupGssi regColour regCfg1 : UInt32}
    (h : (FillerOp.install groupGssi regColour regCfg1).installed = none) :
    r.step (.install groupGssi regColour regCfg1) = r := by
  have hwrites : (FillerOp.install groupGssi regColour regCfg1).writes = [] := by
    rw [FillerOp.writes, voiceFillerInstall]
    split_ifs with hzero
    · rfl
    · rw [FillerOp.installed, if_neg hzero] at h
      rw [h]
  rw [step, hwrites, FillerOp.record, h]
  rfl

/-- But TS2 is what it is for. -/
theorem last_of_installed {op : FillerOp} {type5 : ℕ → Bool} (h : op.installed = some type5) :
    (r.step op).last = Function.update r.last (FillerMailbox.tsBank 2) (some type5) := by
  cases op with
  | writeTs | clearTs | clear => exact absurd h (by simp [FillerOp.installed])
  | install => simp only [step, FillerOp.record, h]

theorem sameBank_of_installed {op : FillerOp} {type5 : ℕ → Bool}
    (h : op.installed = some type5) {t : Fin 4} (ht : t ≠ FillerMailbox.tsBank 4) :
    r.mailbox.SameBank (r.step op).mailbox t := by
  rw [step, writes_of_installed h]
  exact (r.mailbox.writes_voiceFillerWriteTs type5 (by decide) (by decide)).2 t ht

theorem holds_of_installed {op : FillerOp} {type5 : ℕ → Bool} (h : op.installed = some type5) :
    (r.step op).mailbox.Holds (FillerMailbox.tsBank 4) type5 := by
  rw [step, writes_of_installed h]
  exact (r.mailbox.writes_voiceFillerWriteTs type5 (by decide) (by decide)).1

/-- After an install the two timeslots are as they should be if they were so before. -/
theorem agrees_install_iff (h : ∀ t, Agrees r.mailbox t (r.last t)) {op : FillerOp}
    {type5 : ℕ → Bool} (hop : op.installed = some type5) :
    (∀ t, Agrees (r.step op).mailbox t ((r.step op).last t)) ↔ r.InstallAgrees op := by
  have hlast := r.last_of_installed hop
  have hholds := r.holds_of_installed hop
  have hother : ∀ t ≠ FillerMailbox.tsBank 4, r.mailbox.SameBank (r.step op).mailbox t :=
    fun t ht ↦ r.sameBank_of_installed hop ht
  have hne : FillerMailbox.tsBank 2 ≠ FillerMailbox.tsBank 4 := by decide
  -- the burst a timeslot had is the installed one
  have hsame : ∀ t, (∃ other, r.last t = some other ∧ SameBurst type5 other) ↔
      r.mailbox.Holds t type5 := by
    intro t
    constructor
    · rintro ⟨other, hlast, heq⟩
      have hagree := h t
      rw [hlast] at hagree
      exact (holds_congr heq).2 hagree
    · intro hold
      have hagree := h t
      cases hlast : r.last t with
      | none =>
          rw [hlast] at hagree
          exact absurd (hagree.symm.trans hold.1) Bool.false_ne_true
      | some other =>
          rw [hlast] at hagree
          exact ⟨other, rfl, sameBurst_of_holds hold hagree⟩
  have hiff : r.InstallAgrees op ↔ r.mailbox.Holds (FillerMailbox.tsBank 2) type5 ∧
      ∃ other, r.last (FillerMailbox.tsBank 4) = some other ∧ SameBurst type5 other := by
    rw [← hsame]
    constructor
    · intro hagree
      exact ⟨hagree type5 hop _ (.inl rfl), hagree type5 hop _ (.inr rfl)⟩
    · rintro ⟨h2, h4⟩ other hother t ht
      rw [hop] at hother
      cases hother
      rcases ht with rfl | rfl
      · exact h2
      · exact h4
  rw [hiff, hlast]
  constructor
  · intro hall
    have h2 := hall (FillerMailbox.tsBank 2)
    have h4 := hall (FillerMailbox.tsBank 4)
    rw [Function.update_self] at h2
    rw [Function.update_of_ne hne.symm] at h4
    refine ⟨(hother _ hne).holds_iff type5 |>.1 h2, ?_⟩
    cases hlast4 : r.last (FillerMailbox.tsBank 4) with
    | none =>
        rw [hlast4] at h4
        exact absurd (h4.symm.trans hholds.1) Bool.false_ne_true
    | some other =>
        rw [hlast4] at h4
        exact ⟨other, rfl, sameBurst_of_holds hholds h4⟩
  · rintro ⟨h2, other, hlast4, heq⟩ t
    rcases eq_or_ne t (FillerMailbox.tsBank 2) with rfl | hne2
    · rw [Function.update_self]
      exact ((hother _ hne).holds_iff type5).2 h2
    · rw [Function.update_of_ne hne2]
      rcases eq_or_ne t (FillerMailbox.tsBank 4) with rfl | hne4
      · rw [hlast4]
        exact (holds_congr heq).1 hholds
      · exact (agrees_congr (hother t hne4) _).2 (h t)

theorem faithful_step_iff (r : FillerRun) (op : FillerOp) (h : r.Faithful) :
    (r.step op).Faithful ↔ r.InstallAgrees op := by
  rw [faithful_iff_agrees] at h ⊢
  have hkeeps : op.installed = none →
      (∀ t, Agrees (r.step op).mailbox t ((r.step op).last t)) →
      ((∀ t, Agrees (r.step op).mailbox t ((r.step op).last t)) ↔ r.InstallAgrees op) := by
    intro hnone hall
    refine iff_of_true hall fun type5 hsome ↦ ?_
    exact absurd (hnone.symm.trans hsome) (Option.some_ne_none _).symm
  cases op with
  | writeTs type5 ts => exact hkeeps rfl (agrees_writeTs h type5 ts)
  | clearTs ts => exact hkeeps rfl (agrees_clearTs h ts)
  | clear => exact hkeeps rfl agrees_clear
  | install groupGssi regColour regCfg1 =>
      cases hop : (FillerOp.install groupGssi regColour regCfg1).installed with
      | none => exact hkeeps hop (by rw [step_install_none hop]; exact h)
      | some type5 => exact agrees_install_iff h hop

/-- **In which runs every bank is what it should be**: those in which each install finds its burst
in the banks of TS2 and TS4 already. -/
theorem banks_faithful_iff (ops : List FillerOp) :
    Run.Throughout step Faithful {} ops ↔ Run.Along step InstallAgrees {} ops :=
  Run.throughout_iff_along step (I := fun _ ↦ True) (fun _ _ _ ↦ trivial)
    (fun r op _ h ↦ r.faithful_step_iff op h) trivial
    ((faithful_iff_agrees {}).2 fun _ ↦ rfl) ops

/-- A first install leaves the bank of TS2 invalid. -/
theorem install_not_faithful :
    ((step {} (.install 1 0 0)).last (FillerMailbox.tsBank 2)).isSome = true ∧
      (step {} (.install 1 0 0)).mailbox.valid (FillerMailbox.tsBank 2) = false ∧
      ¬ Run.Throughout step Faithful {} [.install 1 0 0] := by
  obtain ⟨type5, htype5⟩ := Option.isSome_iff_exists.1 (isSome_installBurst 1 0 0)
  have hop : (FillerOp.install 1 0 0).installed = some type5 := by
    rw [FillerOp.installed, if_neg (by decide), htype5]
  have hlast : ((step {} (.install 1 0 0)).last (FillerMailbox.tsBank 2)).isSome = true := by
    rw [last_of_installed hop, Function.update_self]
    rfl
  have hvalid : (step {} (.install 1 0 0)).mailbox.valid (FillerMailbox.tsBank 2) = false :=
    (sameBank_of_installed hop (by decide)).2
  refine ⟨hlast, hvalid, fun h ↦ ?_⟩
  have hboth := (h.2.head step (FillerMailbox.tsBank 2)).1.2 hlast
  exact absurd (hvalid.symm.trans hboth) Bool.false_ne_true

end FillerRun

end TetraPhy.Tx
