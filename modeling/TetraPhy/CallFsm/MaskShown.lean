import TetraPhy.CallFsm.SharedTick

/-!
# When the voice mask stays

`mask_write_cached` writes the mask register only if the mask computed is not the one written last.
Whether it is can be told before the step, from the slots, their time stamps and the clock readings
of the step: the mask written last has to show the timeslots of the calls that speak once the step
is done, and no other (`Fsm.Shows`).

| step                     | speaks afterwards                                                    |
|--------------------------|----------------------------------------------------------------------|
| U-TX-DEMAND              | its call, unless the clock runs away, and who spoke before            |
| U-RELEASE, U-DISCONNECT  | who spoke before, but its call                                        |
| tick                     | a call that its turn does not free, and that was heard or active last |
|                          | not long ago (`Fsm.SpeaksAfter`)                                      |

A U-SETUP or U-CONNECT that writes a mask clears the banks as well (`Fsm.clearsBanks`).
-/

namespace TetraPhy.CallFsm

open Sw

namespace Fsm

variable {st : Fsm}

/-! ## The bits of a mask -/

theorem getLsbD_tsToVoiceMaskBit (ts : UInt8) {k : ℕ} (hk : k < 4) :
    (tsToVoiceMaskBit ts).toBitVec.getLsbD k = true ↔ ts.toNat = k + 1 := by
  by_cases hin : 1 ≤ ts ∧ ts ≤ 4
  · have hts : ts = 1 ∨ ts = 2 ∨ ts = 3 ∨ ts = 4 := by grind
    rcases hts with rfl | rfl | rfl | rfl <;> revert k <;> decide
  · have hout : (ts < 1 || ts > 4) = true := by simp; grind
    rw [tsToVoiceMaskBit, if_pos hout]
    refine iff_of_false (by simp) fun hts ↦ hin ?_
    rw [UInt8.le_iff_toNat_le, UInt8.le_iff_toNat_le, hts]
    exact ⟨Nat.le_add_left 1 k, Nat.succ_le_of_lt hk⟩

/-- A bit of the voice mask is that of a speaking call. -/
theorem getLsbD_computeVoiceMask (g : SlotTable) (now : UInt32) {k : ℕ} (hk : k < 4) :
    (computeVoiceMask g now).toBitVec.getLsbD k = true ↔
      ∃ i, (g i).Speaking now ∧ (g i).voiceTs.toNat = k + 1 := by
  have hshare : ∀ i, (maskShare (g i) now).toBitVec.getLsbD k = true ↔
      (g i).Speaking now ∧ (g i).voiceTs.toNat = k + 1 := by
    intro i
    rw [maskShare]
    split_ifs with hsp
    · rw [getLsbD_tsToVoiceMaskBit _ hk, and_iff_right hsp]
    · exact iff_of_false (by simp) fun h ↦ hsp h.1
  have hfold : ∀ (l : List (Fin 8)) (m : UInt32),
      (l.foldl (fun m i ↦ m ||| maskShare (g i) now) m).toBitVec.getLsbD k = true ↔
        m.toBitVec.getLsbD k = true ∨ ∃ i ∈ l, (maskShare (g i) now).toBitVec.getLsbD k = true := by
    intro l
    induction l with
    | nil => simp
    | cons i l ih =>
        intro m
        rw [List.foldl_cons, ih, UInt32.toBitVec_or, BitVec.getLsbD_or, Bool.or_eq_true, or_assoc,
          List.exists_mem_cons_iff]
  rw [computeVoiceMask_eq, hfold]
  simp [hshare]

/-- The voice bits are all there is in a voice mask. -/
theorem eq_of_voiceBits {v w : UInt32} (hv : VoiceBits v) (hw : VoiceBits w)
    (h : ∀ k < 4, (v.toBitVec.getLsbD k = true ↔ w.toBitVec.getLsbD k = true)) : v = w := by
  have hhigh : ∀ {u : UInt32}, VoiceBits u → ∀ k, ¬ k < 4 → u.toBitVec.getLsbD k = false := by
    intro u hu k hk
    have hbit : (0xF : UInt32).toBitVec.getLsbD k = false := by
      have hlt : (0xF : UInt32).toBitVec.toNat < 2 ^ k :=
        Nat.lt_of_lt_of_le (by decide) (Nat.pow_le_pow_right (by decide) (Nat.not_lt.1 hk))
      exact Nat.testBit_lt_two_pow hlt
    rw [← hu, UInt32.toBitVec_and, BitVec.getLsbD_and, hbit, Bool.and_false]
  refine UInt32.toBitVec_inj.1 (BitVec.eq_of_getLsbD_eq fun k _ ↦ ?_)
  by_cases hk : k < 4
  · exact Bool.eq_iff_iff.2 (h k hk)
  · rw [hhigh hv k hk, hhigh hw k hk]

/-- A mask has been written, and the last one shows the timeslots of these calls and no others. -/
def Shows (st : Fsm) (speaks : Fin 8 → Prop) : Prop :=
  st.maskCached ≠ 0xFFFFFFFF ∧ ∀ k < 4,
    (st.maskCached.toBitVec.getLsbD k = true ↔ ∃ i, speaks i ∧ (st.slots i).voiceTs.toNat = k + 1)

instance {speaks : Fin 8 → Prop} [DecidablePred speaks] : Decidable (st.Shows speaks) :=
  inferInstanceAs (Decidable (_ ∧ _))

/-- The mask of a table in which these calls speak is the one written last. -/
theorem Shows.computeVoiceMask {speaks : Fin 8 → Prop} (h : st.Shows speaks) (hs : st.MaskSync)
    {g : SlotTable} {now : UInt32} (hspeaks : ∀ i, (g i).Speaking now ↔ speaks i)
    (hts : ∀ i, speaks i → (g i).voiceTs = (st.slots i).voiceTs) :
    computeVoiceMask g now = st.maskCached := by
  have hcached : VoiceBits st.maskCached := by
    have hsync := hs.resolve_left h.1
    rw [VoiceBits, ← hsync, UInt32.and_assoc, UInt32.and_self]
  refine eq_of_voiceBits (voiceBits_computeVoiceMask g now) hcached fun k hk ↦ ?_
  rw [getLsbD_computeVoiceMask g now hk, h.2 k hk]
  refine exists_congr fun i ↦ (and_congr_left' (hspeaks i)).trans (and_congr_right fun hi ↦ ?_)
  rw [hts i hi]

theorem maskCached_maskWriteCached {v : UInt32} (h : v = st.maskCached) :
    (st.maskWriteCached v).maskCached = st.maskCached := by
  rcases st.maskWriteCached_cases v with ⟨-, hst⟩ | ⟨hne, -⟩
  · rw [hst]
  · exact absurd h hne

/-! ## A handled PDU -/

/-- The mask written last shows who speaks once a PDU is handled that writes a mask and clears no
bank. -/
def KeepsMask (st : Fsm) (env : HandleEnv) (ssi : UInt32) (p : CmcePdu) : Prop :=
  match p.pduType with
  | .uTxDemand => ssi ≠ 0 → ∀ i, connectSlot ssi p st = some i → st.Shows fun j ↦
      if j = i then ¬ slotAge (env.now 0) (env.now 1) > voiceQuietMs
      else (st.slots j).Speaking (env.now 1)
  | .uRelease | .uDisconnect => ∀ i, findSlot st.slots ssi = some i → st.Shows fun j ↦
      j ≠ i ∧ (st.slots j).Speaking (env.now 0)
  | _ => True

variable {env : HandleEnv} {ssi : UInt32} {p : CmcePdu}

/-- The slot of a U-TX-DEMAND is the sender's own, or becomes it. -/
theorem demandSlot_cases (hssi : ssi ≠ 0) (p : CmcePdu) (st : Fsm) :
    demandSlot ssi p st = (st, none) ∨ ∃ st' i, demandSlot ssi p st = (st', some i) ∧
      connectSlot ssi p st = some i ∧ (∀ j, j ≠ i → st'.slots j = st.slots j) ∧
      (st'.slots i).Active ∧ (st'.slots i).voiceTs = (st.slots i).voiceTs := by
  unfold demandSlot connectSlot
  cases hown : findSlot st.slots ssi with
  | some i =>
      refine .inr ⟨st, i, rfl, rfl, fun _ _ ↦ rfl, ?_, rfl⟩
      rw [CallSlot.Active, (findSlot_eq_some hown).1]
      exact hssi
  | none =>
      cases hid : findSlotByCallId st.slots p.callIdentifier with
      | none => exact .inl rfl
      | some i =>
          refine .inr ⟨_, i, rfl, rfl, fun j hj ↦ ?_, ?_, ?_⟩
          · exact Function.update_of_ne hj ..
          · rw [slots_modify, Function.update_self]
            exact hssi
          · rw [slots_modify, Function.update_self]

theorem maskCached_handleTxDemand (hs : st.MaskSync) (hssi : ssi ≠ 0)
    (h : ∀ i, connectSlot ssi p st = some i → st.Shows fun j ↦
      if j = i then ¬ slotAge (env.now 0) (env.now 1) > voiceQuietMs
      else (st.slots j).Speaking (env.now 1)) :
    (handleTxDemand env ssi p st).1.maskCached = st.maskCached := by
  have hshared := sameShared_demandSlot ssi p st
  unfold handleTxDemand
  obtain hnone | ⟨st', i, hsome, hi, hother, hactive, hts⟩ := demandSlot_cases hssi p st
  · rw [hnone]
  · rw [hsome] at hshared ⊢
    refine (maskCached_maskWriteCached ?_).trans hshared.maskCached
    refine ((h i hi).computeVoiceMask hs (fun j ↦ ?_) fun j _ ↦ ?_).trans hshared.maskCached.symm
    · rcases eq_or_ne j i with rfl | hj
      · rw [if_pos rfl, slots_modify, Function.update_self, CallSlot.Speaking]
        simp only [stageDTxGranted, slots_submit, slots_modify, Function.update_self]
        exact ⟨fun hsp ↦ hsp.2.2.2.2, fun hage ↦ ⟨hactive, by decide, by decide, by decide, hage⟩⟩
      · rw [if_neg hj, slots_modify, Function.update_of_ne hj, stageDTxGranted, slots_submit,
          slots_modify, Function.update_of_ne hj, hother j hj]
    · rcases eq_or_ne j i with rfl | hj
      · simp only [stageDTxGranted, slots_submit, slots_modify, Function.update_self]
        exact hts
      · rw [slots_modify, Function.update_of_ne hj, stageDTxGranted, slots_submit, slots_modify,
          Function.update_of_ne hj, hother j hj]

theorem maskCached_handleRelease (hs : st.MaskSync)
    (h : ∀ i, findSlot st.slots ssi = some i → st.Shows fun j ↦
      j ≠ i ∧ (st.slots j).Speaking (env.now 0)) :
    (handleRelease env ssi p st).1.maskCached = st.maskCached := by
  unfold handleRelease
  cases hi : findSlot st.slots ssi with
  | none => rfl
  | some i =>
      have hcached := (sameShared_released (env.idle 0) i p.disconnectCause st).maskCached
      have hmask : computeVoiceMask (Function.update st.slots i {}) (env.now 0) =
          st.maskCached := by
        refine (h i hi).computeVoiceMask hs (fun j ↦ ?_) fun j hj ↦ ?_
        · rcases eq_or_ne j i with rfl | hj
          · rw [Function.update_self]
            exact iff_of_false (fun hsp ↦ not_active_default hsp.1) fun hne ↦ hne.1 rfl
          · rw [Function.update_of_ne hj, and_iff_right hj]
        · rw [Function.update_of_ne hj.1]
      have hkept := (maskCached_maskWriteCached (hmask.trans hcached.symm)).trans hcached
      dsimp only
      rw [slots_released]
      split_ifs
      · exact hkept
      · exact hkept

/-- **A handled PDU that clears no bank leaves the mask** if the one written last shows who speaks
then. -/
theorem maskCached_handle (hs : st.MaskSync) (hclear : st.clearsBanks env ssi p = false)
    (h : st.KeepsMask env ssi p) : (handle env ssi p st).1.maskCached = st.maskCached := by
  unfold handle
  by_cases hssi : ssi = 0
  · rw [if_pos (by simpa using hssi)]
  have hne : (ssi != 0) = true := by simpa using hssi
  unfold clearsBanks at hclear
  unfold KeepsMask at h
  rw [if_neg (by simpa using hssi)]
  revert hclear h
  rw [hne, Bool.true_and]
  cases p.pduType <;> intro hclear h <;> dsimp only at hclear h ⊢
  case uSetup => exact (sameShared_handleSetup env ssi p st hclear).maskCached
  case uTxDemand => exact maskCached_handleTxDemand hs hssi (h hssi)
  case uTxCeased => exact (sameShared_handleTxCeased env ssi st).maskCached
  case uConnect =>
    unfold handleConnect
    cases hi : connectSlot ssi p st with
    | none => rfl
    | some i =>
        rw [hi] at hclear
        cases hclear
  case uAlert =>
    unfold handleAlert
    cases connectSlot ssi p st <;> rfl
  case uRelease => exact maskCached_handleRelease hs h
  case uDisconnect => exact maskCached_handleRelease hs h

end Fsm

/-! ## The tick -/

/-- The slot after these bursts, of each of which the timeslot and a clock reading are known: its
call was active when its timeslot was heard last. -/
def CallSlot.hearing (s : CallSlot) (bursts : List (UInt8 × UInt32)) : CallSlot :=
  { s with
    lastActivityPollCnt := (bursts.filterMap fun b ↦
      if b.1 = s.voiceTs then some b.2 else none).getLastD s.lastActivityPollCnt }

namespace Fsm

variable {st : Fsm}

/-- The burst of the turn of slot `k`, after these bursts, if the slot serves the pipe then. -/
def hears (st : Fsm) (env : TickEnv) (bursts : List (UInt8 × UInt32)) (k : Fin 8) :
    List (UInt8 × UInt32) :=
  if ((st.slots k).hearing bursts).ServesPipe env.now then
    (env.burst k).toList.map fun b ↦ (deltaToEtsiTs b.delta, b.nowMs)
  else []

/-- The bursts of the first `n` turns.  They follow from the slots before the tick, and from the
bursts and the clock reading that it gets. -/
def heard (st : Fsm) (env : TickEnv) (n : ℕ) : List (UInt8 × UInt32) :=
  ((List.finRange 8).take n).foldl (fun bursts k ↦ bursts ++ st.hears env bursts k) []

/-- The call speaks after the loop: it does not expire by its turn, and it was active not long
ago. -/
def SpeaksAfter (st : Fsm) (env : TickEnv) (i : Fin 8) : Prop :=
  (st.slots i).Active ∧ (st.slots i).state ≠ .idle ∧ (st.slots i).state ≠ .releasing ∧
    (st.slots i).state ≠ .connecting ∧
    ¬ ((st.slots i).hearing (st.heard env i)).Expired env.now ∧
    ¬ slotAge ((st.slots i).hearing (st.heard env 8)).lastActivityPollCnt env.maskNow > voiceQuietMs

instance (env : TickEnv) (i : Fin 8) : Decidable (st.SpeaksAfter env i) :=
  inferInstanceAs (Decidable (_ ∧ _ ∧ _ ∧ _ ∧ _ ∧ _))

/-- The clock reading of a burst from timeslot `ts` that slot `k` relays now. -/
def relayed (st : Fsm) (env : TickEnv) (k : Fin 8) (ts : UInt8) : Option UInt32 :=
  if (st.slots k).ServesPipe env.now then
    (env.burst k).bind fun b ↦ if deltaToEtsiTs b.delta = ts then some b.nowMs else none
  else none

theorem lastActivity_notifyFirstNub (nowMs : UInt32) (st : Fsm) (i : Fin 8) :
    ((notifyFirstNub nowMs st).slots i).lastActivityPollCnt =
      (st.slots i).lastActivityPollCnt := by
  unfold notifyFirstNub
  split
  · rfl
  · rename_i j hj
    rw [slots_modify]
    rcases eq_or_ne i j with rfl | hij
    · rw [Function.update_self]
    · rw [Function.update_of_ne hij]

/-- A burst is heard by the call on its timeslot, of which there is one. -/
theorem lastActivity_voicePipeTick (hinv : st.table.Inv) {i : Fin 8} (hi : (st.slots i).Active)
    (burst : Option PipeBurst) : ((voicePipeTick burst st).slots i).lastActivityPollCnt =
      (burst.bind fun b ↦ if deltaToEtsiTs b.delta = (st.slots i).voiceTs then some b.nowMs
        else none).getD (st.slots i).lastActivityPollCnt := by
  cases burst with
  | none => rfl
  | some b =>
      have hnub : ((voicePipeTick (some b) st).slots i).lastActivityPollCnt =
          ((notifyUlBurst (deltaToEtsiTs b.delta) b.nowMs st).slots i).lastActivityPollCnt := by
        rw [slots_voicePipeTick_eq]
        split
        · rw [lastActivity_notifyFirstNub, slots_emit]
        · rw [slots_emit]
      rw [hnub, Option.bind_some]
      split_ifs with hts
      · obtain ⟨hlo, hhi⟩ := deltaToEtsiTs_range b.delta
        have hin : ¬ (deltaToEtsiTs b.delta < 1 || deltaToEtsiTs b.delta > 4) = true := by
          simp
          grind
        rw [notifyUlBurst, if_neg hin, Option.getD_some]
        split
        · rename_i hnone
          have hno := Fin.eq_false_of_find?_eq_none hnone i
          have hssi : ¬ (st.slots i).ssi = 0 := hi
          simp [hssi, hts] at hno
        · rename_i j hj
          have hfound := Fin.eq_true_of_find?_eq_some hj
          rw [Bool.and_eq_true, beq_iff_eq, bne_iff_ne] at hfound
          obtain rfl : i = j := hinv.timeslots.eq hi hfound.1 (hts.symm.trans hfound.2.symm)
          rw [slots_modify, Function.update_self]
      · rw [(slots_notifyUlBurst _ _ st i).2 (Ne.symm hts), Option.getD_none]

theorem lastActivity_superviseSlot (env : TickEnv) (hinv : st.table.Inv) {i k : Fin 8}
    (hi : (st.slots i).Active) (hk : (st.slots k).Active)
    (hlive : ¬ (st.slots k).Expired env.now) :
    ((superviseSlot env k st).slots i).lastActivityPollCnt =
      (st.relayed env k (st.slots i).voiceTs).getD (st.slots i).lastActivityPollCnt := by
  have hserves : (st.slots k).ServesPipe env.now ↔ (st.slots k).state ≠ .connecting ∧
      ((st.slots k).groupGssi ≠ 0 ∨ (st.slots k).targetIssi ≠ 0) :=
    ⟨fun h ↦ ⟨h.2.1, h.2.2.2⟩, fun h ↦ ⟨hk, h.1, hlive, h.2⟩⟩
  unfold superviseSlot
  dsimp only
  unfold CallSlot.Expired at hlive
  by_cases hring : (st.slots k).state = .connecting
  · rw [if_pos hring] at hlive
    rw [if_pos (by simpa using hring), if_neg hlive, relayed,
      if_neg fun hs ↦ (hserves.1 hs).1 hring, Option.getD_none]
  · rw [if_neg hring] at hlive
    rw [if_neg (by simpa using hring), if_neg (by simpa using hlive)]
    have hquiet : ∀ (c : Prop) [Decidable c], (if c then
        st.emit (voiceFillerClearTs (st.slots k).voiceTs) else st).table = st.table :=
      fun c ↦ table_emit_ite (writesOnly_voiceFillerClearTs _) (by decide) c
    have hslots : ∀ (c : Prop) [Decidable c], (if c then
        st.emit (voiceFillerClearTs (st.slots k).voiceTs) else st).slots = st.slots :=
      fun c ↦ congrArg Table.slots (hquiet c)
    by_cases htgt : (st.slots k).groupGssi ≠ 0 ∨ (st.slots k).targetIssi ≠ 0
    · have hset : ((if (st.slots k).groupGssi != 0 then (st.slots k).groupGssi
          else (st.slots k).targetIssi) != 0) = true := by
        by_cases hg : (st.slots k).groupGssi = 0 <;> simp_all
      rw [if_pos hset, relayed, if_pos (hserves.2 ⟨hring, htgt⟩), lastActivity_voicePipeTick]
      · rw [hslots]
      · rw [hquiet]
        exact hinv
      · rw [hslots]
        exact hi
    · have hunset : ¬ ((if (st.slots k).groupGssi != 0 then (st.slots k).groupGssi
          else (st.slots k).targetIssi) != 0) = true := by
        simp_all
      rw [if_neg hunset, hslots, relayed, if_neg fun hs ↦ htgt (hserves.1 hs).2, Option.getD_none]

/-- A turn refreshes the calls whose timeslot it hears. -/
theorem lastActivity_tickSlot (env : TickEnv) (hinv : st.table.Inv) {i : Fin 8}
    (hi : (st.slots i).Active) {k : Fin 8} (hlive : k = i → ¬ (st.slots i).Expired env.now) :
    ((tickSlot env st k).slots i).lastActivityPollCnt =
      (st.relayed env k (st.slots i).voiceTs).getD (st.slots i).lastActivityPollCnt := by
  by_cases hk : (st.slots k).Active
  · by_cases he : (st.slots k).Expired env.now
    · have hik : i ≠ k := fun h ↦ hlive h.symm (h ▸ he)
      have htable := table_tickSlot_of_expired env hk he
      rw [← Fsm.slots_table (tickSlot env st k), htable, Table.slots_close,
        Function.update_of_ne hik, relayed, if_neg fun hs ↦ hs.2.2.1 he, Option.getD_none]
      rfl
    · -- the set-up sequence comes first, and changes nothing that counts here
      have hfields : ∀ j, ∃ stage next, (setupSequencer (env.idle k 0) env.now k st).slots j =
          { st.slots j with setupStage := stage, setupNextMs := next } := by
        intro j
        rw [← Fsm.slots_table, table_setupSequencer, Table.slots_set, Fsm.slots_table]
        rcases eq_or_ne j k with rfl | hjk
        · rw [Function.update_self]
          exact (st.slots j).sequenced_eq env.now
        · rw [Function.update_of_ne hjk]
          exact ⟨_, _, rfl⟩
      have hinv' : (setupSequencer (env.idle k 0) env.now k st).table.Inv := by
        rw [table_setupSequencer]
        exact hinv.sequenced k env.now hk
      obtain ⟨_, _, hi'⟩ := hfields i
      obtain ⟨_, _, hk'⟩ := hfields k
      have hlast := lastActivity_superviseSlot (i := i) (k := k) env hinv' (by rw [hi']; exact hi)
        (by rw [hk']; exact hk) (by rw [hk']; exact he)
      unfold tickSlot
      rw [if_neg (by simpa [CallSlot.Active] using hk), hlast, hi', relayed, hk']
      rfl
  · unfold tickSlot
    rw [if_pos (by simpa [CallSlot.Active] using hk), relayed, if_neg fun hs ↦ hk hs.1,
      Option.getD_none]

theorem heard_succ (st : Fsm) (env : TickEnv) (k : Fin 8) :
    st.heard env (k + 1) = st.heard env k ++ st.hears env (st.heard env k) k := by
  rw [heard, take_finRange_succ, List.foldl_append]
  rfl

theorem filterMap_toList {β : Type} (o : Option β) (key : β → UInt8) (value : β → UInt32)
    (ts : UInt8) :
    (o.toList.map fun b ↦ (key b, value b)).filterMap (fun b ↦ if b.1 = ts then some b.2 else none) =
      (o.bind fun b ↦ if key b = ts then some (value b) else none).toList := by
  cases o with
  | none => rfl
  | some b =>
      by_cases hts : key b = ts
      · simp [hts]
      · simp [hts]

/-- What a slot that does not expire by its turn has kept after `n` turns, and when its call was
active last. -/
structure KeptSlot (st : Fsm) (env : TickEnv) (i : Fin 8) (n : ℕ) (st' : Fsm) : Prop where
  active : (st'.slots i).Active
  state : (st'.slots i).state = (st.slots i).state
  voiceTs : (st'.slots i).voiceTs = (st.slots i).voiceTs
  last : (st'.slots i).lastActivityPollCnt =
    ((st.slots i).hearing (st.heard env n)).lastActivityPollCnt

/-- The state after `n` turns. -/
structure Turned (st : Fsm) (env : TickEnv) (n : ℕ) (st' : Fsm) : Prop where
  inv : st'.table.Inv
  kept : ∀ i : Fin 8, (st.slots i).Active →
    (n ≤ i ∨ ¬ ((st.slots i).hearing (st.heard env i)).Expired env.now) → st.KeptSlot env i n st'

section Turned

variable {env : TickEnv} {k : Fin 8} (h : st.Turned env k (st.turn env k))
include h

/-- Its turn finds a slot as the bursts before have left it. -/
theorem Turned.own (hk : (st.slots k).Active) : ∃ nub logged, (st.turn env k).slots k =
    { (st.slots k).hearing (st.heard env k) with
      tFirstNubMs := nub, tFirstNubLogged := logged } := by
  obtain ⟨last, nub, logged, he⟩ := st.stamped_turn env k
  have hlast := (h.kept k hk (.inl le_rfl)).last
  rw [he] at hlast
  obtain rfl : last = ((st.slots k).hearing (st.heard env k)).lastActivityPollCnt := hlast
  exact ⟨nub, logged, he⟩

theorem Turned.servesPipe_iff : ((st.turn env k).slots k).ServesPipe env.now ↔
    ((st.slots k).hearing (st.heard env k)).ServesPipe env.now := by
  by_cases hk : (st.slots k).Active
  · obtain ⟨_, _, he⟩ := h.own hk
    rw [he]
    rfl
  · exact iff_of_false (fun hs ↦ hk ((st.stamped_turn env k).active_iff.1 hs.1)) fun hs ↦ hk hs.1

theorem Turned.expired_iff (hk : (st.slots k).Active) :
    ((st.turn env k).slots k).Expired env.now ↔
      ((st.slots k).hearing (st.heard env k)).Expired env.now := by
  obtain ⟨_, _, he⟩ := h.own hk
  rw [he]
  rfl

/-- A turn more is heard. -/
theorem Turned.hearing_succ (s : CallSlot) :
    (s.hearing (st.heard env (k + 1))).lastActivityPollCnt =
      ((st.turn env k).relayed env k s.voiceTs).getD
        (s.hearing (st.heard env k)).lastActivityPollCnt := by
  have hturn : (st.hears env (st.heard env k) k).filterMap
      (fun b ↦ if b.1 = s.voiceTs then some b.2 else none) =
        ((st.turn env k).relayed env k s.voiceTs).toList := by
    rw [hears, relayed]
    by_cases hs : ((st.slots k).hearing (st.heard env k)).ServesPipe env.now
    · rw [if_pos hs, if_pos (h.servesPipe_iff.2 hs), filterMap_toList]
    · rw [if_neg hs, if_neg (mt h.servesPipe_iff.1 hs), List.filterMap_nil, Option.toList_none]
  rw [heard_succ, CallSlot.hearing, CallSlot.hearing, List.filterMap_append, hturn]
  cases (st.turn env k).relayed env k s.voiceTs with
  | none => rw [Option.toList_none, List.append_nil, Option.getD_none]
  | some now => rw [Option.toList_some, List.getLastD_concat, Option.getD_some]

/-- **A turn more.** -/
theorem Turned.tickSlot : st.Turned env (k + 1) (tickSlot env (st.turn env k) k) := by
  refine ⟨inv_tickSlot env k h.inv, fun i hi hlive ↦ ?_⟩
  have hkept := h.kept i hi (hlive.imp_left fun hle ↦ (Nat.le_succ _).trans hle)
  have hown : k = i → ¬ ((st.turn env k).slots i).Expired env.now := by
    rintro rfl
    rw [h.expired_iff hi]
    exact hlive.resolve_left (Nat.not_succ_le_self _)
  have hlast := lastActivity_tickSlot (k := k) env h.inv hkept.active hown
  have hfields : ((CallFsm.tickSlot env (st.turn env k) k).slots i).Active ∧
      ((CallFsm.tickSlot env (st.turn env k) k).slots i).state = ((st.turn env k).slots i).state ∧
      ((CallFsm.tickSlot env (st.turn env k) k).slots i).voiceTs =
        ((st.turn env k).slots i).voiceTs := by
    rcases eq_or_ne i k with rfl | hik
    · have hs := (stamped_tickSlot_of_not_expired env hkept.active (hown rfl)).slots i
      rw [Table.slots_set, Function.update_self] at hs
      obtain ⟨_, _, hseq⟩ := ((st.turn env i).slots i).sequenced_eq env.now
      obtain ⟨_, _, _, he⟩ := hs
      rw [← Fsm.slots_table (CallFsm.tickSlot env _ i), he, hseq]
      exact ⟨hkept.active, rfl, rfl⟩
    · obtain ⟨_, _, _, he⟩ := stamped_tickSlot_of_ne env (st.turn env k) hik
      rw [he]
      exact ⟨hkept.active, rfl, rfl⟩
  refine ⟨hfields.1, hfields.2.1.trans hkept.state, hfields.2.2.trans hkept.voiceTs, ?_⟩
  rw [hlast, hkept.voiceTs, hkept.last, h.hearing_succ]

end Turned

theorem turned (env : TickEnv) (hinv : st.table.Inv) : ∀ n ≤ 8,
    st.Turned env n (((List.finRange 8).take n).foldl (CallFsm.tickSlot env) st) :=
  turns_induction env ⟨hinv, fun _ hi _ ↦ ⟨hi, rfl, rfl, rfl⟩⟩ fun _ h ↦ h.tickSlot

theorem turned_tick (env : TickEnv) (hinv : st.table.Inv) :
    st.Turned env 8 ((List.finRange 8).foldl (CallFsm.tickSlot env) st) :=
  turned env hinv 8 le_rfl

theorem KeptSlot.speaking_iff {env : TickEnv} {i : Fin 8} {st' : Fsm}
    (h : st.KeptSlot env i 8 st') (hi : (st.slots i).Active)
    (hlive : ¬ ((st.slots i).hearing (st.heard env i)).Expired env.now) :
    (st'.slots i).Speaking env.maskNow ↔ st.SpeaksAfter env i := by
  rw [CallSlot.Speaking, SpeaksAfter, h.state, h.last, and_iff_right h.active, and_iff_right hi,
    and_iff_right hlive]

/-- A slot that is free stays free. -/
theorem not_active_tick (env : TickEnv) {i : Fin 8} (hi : ¬ (st.slots i).Active) :
    ¬ (((List.finRange 8).foldl (tickSlot env) st).slots i).Active := by
  refine turn_induction (P := fun _ st' ↦ ¬ (st'.slots i).Active) env hi fun k h ↦ ?_
  rcases eq_or_ne i k with rfl | hik
  · rw [← Fsm.slots_table (tickSlot env _ i), table_tickSlot_of_not_active env h]
    exact h
  · rw [(stamped_tickSlot_of_ne env (st.turn env k) hik).active_iff]
    exact h

/-- **Who speaks after the loop**, by what is known before. -/
theorem speaking_tick_iff (env : TickEnv) (hinv : st.table.Inv) (i : Fin 8) :
    (((List.finRange 8).foldl (tickSlot env) st).slots i).Speaking env.maskNow ↔
      st.SpeaksAfter env i := by
  by_cases hi : (st.slots i).Active
  · by_cases he : ((st.slots i).hearing (st.heard env i)).Expired env.now
    · have hturn : st.Turned env i (st.turn env i) := turned env hinv i i.isLt.le
      have hfreed := (tick_frees_iff st env hi).2 ((hturn.expired_iff hi).2 he)
      rw [← Fsm.slots_table, table_tick, Fsm.slots_table] at hfreed
      exact iff_of_false (fun hsp ↦ hfreed hsp.1) fun hsp ↦ hsp.2.2.2.2.1 he
    · exact ((turned_tick env hinv).kept i hi (.inr he)).speaking_iff hi he
  · exact iff_of_false (fun hsp ↦ not_active_tick env hi hsp.1) fun hsp ↦ hi hsp.1

/-- **A tick leaves the mask** if the one written last shows who speaks after the loop. -/
theorem maskCached_tick (env : TickEnv) (hinv : st.table.Inv) (hs : st.MaskSync)
    (h : st.Shows (st.SpeaksAfter env)) : (tick env st).maskCached = st.maskCached := by
  have hcached := (ticked_tick env hinv).maskCached
  refine (maskCached_maskWriteCached ?_).trans hcached
  refine (h.computeVoiceMask hs (speaking_tick_iff env hinv) fun i hi ↦ ?_).trans hcached.symm
  exact ((turned_tick env hinv).kept i hi.1 (.inr hi.2.2.2.2.1)).voiceTs

end Fsm

end TetraPhy.CallFsm
