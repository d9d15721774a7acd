import TetraPhy.Lib.AirOrder
import TetraPhy.Lib.WordPack
import TetraPhy.Lmac.IndirectMailbox
import TetraPhy.Lmac.SignalPath

/-!
# The payload window of the broadcast

The D-NWRK-BROADCAST is 432 bits of type 5 that the software has encoded.  `push_d_nwrk_broadcast`
of `tetra_hal.c` writes them into fourteen words of `tetra_axi_lite_regs.v`, each by an index and a
data register, and `tetra_dl_nwrk_broadcast.v` pushes what the words are two clocks later, at its
own time.

| word | bits on air |
|---|---|
| 0 .. 12 | 32 each, the first highest |
| 13 | the last 16, in the upper half |

A payload is pushed as it stands in the window, and a rewrite takes 28 register writes.
**`untorn_iff`** says in which runs only whole blocks are pushed: those in which, two clocks before
each push, the words already rewritten and the others make a whole block.
-/

namespace TetraPhy.Lmac

open Sw AirOrder WordPack

/-! ## The software -/

/-- `REG_NWRK_BCAST_INDEX` .. `REG_NWRK_BCAST_PERIOD_MF`. -/
def regNwrkBcastIndex : UInt32 := 0x1D0
def regNwrkBcastData : UInt32 := 0x1D4
def regNwrkBcastTrigger : UInt32 := 0x1D8
def regNwrkBcastPeriodMf : UInt32 := 0x1E8

/-- A payload, one bit a byte. -/
abbrev NwrkPayload := ℕ → UInt8

namespace NwrkPayload

variable (payload432 : NwrkPayload)

/-- The block: bit `i` on air. -/
def air (i : ℕ) : Bool := payload432 i &&& 1 != 0

/-- `n` bits from `base` on, shifted into a word. -/
def shiftIn (base n : ℕ) : UInt32 :=
  (List.range n).foldl (fun w b ↦ (w <<< 1) ||| (payload432 (base + b) &&& 1).toUInt32) 0

/-- The array `words`. -/
def words : List UInt32 :=
  (List.range 13).map (fun wi ↦ payload432.shiftIn (wi * 32) 32) ++ [payload432.shiftIn 416 16 <<< 16]

/-- The write of the trigger. -/
def triggerWrites (fireTrigger : Bool) : List RegWrite :=
  if fireTrigger then [⟨regNwrkBcastTrigger, 1⟩] else []

/-- `push_d_nwrk_broadcast`. -/
def pushWrites (fireTrigger : Bool) : List RegWrite :=
  IndirectMailbox.staging regNwrkBcastIndex regNwrkBcastData 0 payload432.words ++
    triggerWrites fireTrigger

/-- A bit is shifted into a word. -/
theorem toBitVec_shl_or (w : UInt32) (x : UInt8) :
    ((w <<< 1) ||| (x &&& 1).toUInt32).toBitVec = w.toBitVec.shiftConcat (x &&& 1 != 0) := by
  have hbit : x &&& 1 = 0 ∨ x &&& 1 = 1 := by
    have hlt : (x &&& 1).toNat < 2 := by
      rw [UInt8.toNat_and]
      exact Nat.and_lt_two_pow _ (show 1 < 2 ^ 1 by decide)
    rcases (show (x &&& 1).toNat = 0 ∨ (x &&& 1).toNat = 1 by omega) with h | h
    · exact .inl (UInt8.toNat_inj.1 h)
    · exact .inr (UInt8.toNat_inj.1 h)
  refine BitVec.eq_of_getLsbD_eq fun i hi ↦ ?_
  rcases hbit with h | h
  · rw [h]
    cases i with
    | zero => simp
    | succ i => simp [hi]
  · rw [h]
    cases i with
    | zero => simp
    | succ i => simp [hi]

theorem toBitVec_shiftIn (base n : ℕ) :
    (payload432.shiftIn base n).toBitVec =
      shiftReg 32 ((List.range n).map fun b ↦ payload432.air (base + b)) := by
  induction n with
  | zero => rfl
  | succ n ih =>
      rw [List.range_succ, List.map_append, List.map_singleton, shiftReg_append, ← ih, shiftIn,
        List.range_succ, List.foldl_append]
      exact toBitVec_shl_or _ _

theorem length_words : payload432.words.length = 14 := by
  rw [words, List.length_append, List.length_map, List.length_range, List.length_singleton]

/-- The words hold the block. -/
theorem getMsbD_words {i : ℕ} (hi : i < 432) :
    (payload432.words.getD (i / 32) 0).toBitVec.getMsbD (i % 32) = payload432.air i := by
  have hmod : i % 32 < 32 := Nat.mod_lt i (by decide)
  have hdiv := Nat.div_add_mod i 32
  have hbits : ∀ base n, ((List.range n).map fun b ↦ payload432.air (base + b)).length = n := by
    intro base n
    rw [List.length_map, List.length_range]
  rcases Nat.lt_or_ge (i / 32) 13 with hlt | hge
  · have hword : payload432.words.getD (i / 32) 0 = payload432.shiftIn (i / 32 * 32) 32 := by
      rw [words, List.getD_append _ _ _ _ (by simpa using hlt),
        List.getD_eq_getElem _ _ (by simpa using hlt)]
      simp
    rw [hword, toBitVec_shiftIn, getMsbD_shiftReg (q := 0) (hbits _ _) hmod,
      List.getD_eq_getElem _ _ (by rw [hbits]; omega), List.getElem_map, List.getElem_range]
    exact congrArg _ (by omega)
  · have hq : i / 32 = 13 := by omega
    have hword : payload432.words.getD (i / 32) 0 = payload432.shiftIn 416 16 <<< 16 := by
      rw [hq]
      rfl
    have hshift : (payload432.shiftIn 416 16 <<< 16).toBitVec =
        (payload432.shiftIn 416 16).toBitVec <<< (32 - 16) := rfl
    rw [hword, hshift, toBitVec_shiftIn,
      getMsbD_shiftReg_shiftLeft (show _ = 32 * 0 + 16 from hbits 416 16) (by decide) hmod,
      List.getD_eq_getElem _ _ (by rw [hbits]; omega), List.getElem_map, List.getElem_range]
    exact congrArg _ (by omega)

/-- The writes from word `k` on. -/
theorem staging_drop {k : ℕ} (hk : k < 14) :
    IndirectMailbox.staging regNwrkBcastIndex regNwrkBcastData k (payload432.words.drop k) =
      ⟨regNwrkBcastIndex, UInt32.ofNat k⟩ :: ⟨regNwrkBcastData, payload432.words.getD k 0⟩ ::
        IndirectMailbox.staging regNwrkBcastIndex regNwrkBcastData (k + 1)
          (payload432.words.drop (k + 1)) := by
  have hlen : k < payload432.words.length := by rwa [length_words]
  rw [List.drop_eq_getElem_cons hlen, IndirectMailbox.staging, List.getD_eq_getElem _ _ hlen]
  rfl

theorem staging_drop_all :
    IndirectMailbox.staging regNwrkBcastIndex regNwrkBcastData (13 + 1)
      (payload432.words.drop (13 + 1)) = [] := by
  rw [List.drop_eq_nil_of_le (by rw [length_words])]
  rfl

end NwrkPayload

/-! ## The registers -/

/-- The registers of `tetra_axi_lite_regs.v`. -/
structure NwrkRegs where
  index : BitVec 4 := 0
  payload : ℕ → BitVec 32 := fun _ ↦ 0
  trigger : Bool := false
  periodMf : BitVec 5 := 10

namespace NwrkRegs

variable (r : NwrkRegs)

/-- A register write; there are fourteen words. -/
def write (w : RegWrite) : NwrkRegs :=
  if w.offset = regNwrkBcastIndex then { r with index := w.value.toBitVec.extractLsb' 0 4 }
  else if w.offset = regNwrkBcastData then
    if r.index.toNat < 14 then
      { r with payload := Function.update r.payload r.index.toNat w.value.toBitVec }
    else r
  else if w.offset = regNwrkBcastTrigger then
    if w.value.toBitVec.getLsbD 0 then { r with trigger := true } else r
  else if w.offset = regNwrkBcastPeriodMf then
    { r with periodMf := w.value.toBitVec.extractLsb' 0 5 }
  else r

/-- A clock: a write of the trigger goes before its consumption. -/
def clock (w : Option RegWrite) (consume : Bool) : NwrkRegs :=
  let r := if consume then { r with trigger := false } else r
  w.elim r r.write

/-- `nwrk_bcast_payload_axi`, from its highest bit on. -/
def payloadAxi : BitVec 432 := ofAir 432 fun i ↦ (r.payload (i / 32)).getMsbD (i % 32)

variable {r}

theorem getMsbD_payloadAxi (r : NwrkRegs) {i : ℕ} (hi : i < 432) :
    r.payloadAxi.getMsbD i = (r.payload (i / 32)).getMsbD (i % 32) :=
  getMsbD_ofAir _ hi

/-- The consumption of the trigger does not touch the window. -/
theorem clock_window (w : Option RegWrite) (consume : Bool) :
    (r.clock w consume).index = (w.elim r r.write).index ∧
      (r.clock w consume).payload = (w.elim r r.write).payload := by
  cases consume with
  | false => exact ⟨rfl, rfl⟩
  | true =>
      cases w with
      | none => exact ⟨rfl, rfl⟩
      | some w =>
          simp only [clock, if_true, Option.elim_some, write]
          split_ifs <;> exact ⟨rfl, rfl⟩

/-- Nor does a write of another register. -/
theorem write_of_ne {w : RegWrite} (hindex : w.offset ≠ regNwrkBcastIndex)
    (hdata : w.offset ≠ regNwrkBcastData) :
    (r.write w).index = r.index ∧ (r.write w).payload = r.payload := by
  simp only [write, if_neg hindex, if_neg hdata]
  split_ifs <;> exact ⟨rfl, rfl⟩

theorem write_index (k : ℕ) :
    r.write ⟨regNwrkBcastIndex, UInt32.ofNat k⟩ = { r with index := BitVec.ofNat 4 k } := by
  have hindex : (UInt32.ofNat k).toBitVec.extractLsb' 0 4 = BitVec.ofNat 4 k := by
    refine BitVec.eq_of_toNat_eq ?_
    rw [BitVec.extractLsb'_toNat, BitVec.toNat_ofNat, UInt32.toNat_toBitVec, UInt32.toNat_ofNat']
    omega
  rw [write, if_pos rfl, hindex]

theorem write_data {k : ℕ} (hk : k < 14) (hindex : r.index = BitVec.ofNat 4 k) (d : UInt32) :
    r.write ⟨regNwrkBcastData, d⟩ =
      { r with payload := Function.update r.payload k d.toBitVec } := by
  have hnat : r.index.toNat = k := by
    rw [hindex, BitVec.toNat_ofNat]
    exact Nat.mod_eq_of_lt (by omega)
  have hne : regNwrkBcastData ≠ regNwrkBcastIndex := by decide
  rw [write, if_neg hne, if_pos rfl, hnat, if_pos hk]

end NwrkRegs

/-! ## What the software has done -/

/-- The rewrites: those that are complete, the one that is under way or comes next, and how many
words of it are written. -/
structure NwrkShadow where
  complete : List NwrkPayload := []
  current : NwrkPayload := fun _ ↦ 0
  written : ℕ := 0

namespace NwrkShadow

variable (sh : NwrkShadow)

/-- The last complete one; before it, the words are zero. -/
def last : NwrkPayload := sh.complete.getLastD fun _ ↦ 0

/-- **The words already rewritten, and behind them those of the last complete rewrite.** -/
def mixture (i : ℕ) : Bool := if i / 32 < sh.written then sh.current.air i else sh.last.air i

/-- A word is written. -/
def word : NwrkShadow :=
  if sh.written + 1 = 14 then { sh with complete := sh.complete ++ [sh.current], written := 0 }
  else { sh with written := sh.written + 1 }

theorem complete_word : sh.complete <+: sh.word.complete := by
  rw [word]
  split_ifs
  · exact List.prefix_append _ _
  · exact List.prefix_refl _

theorem mixture_word {i : ℕ} (hi : i < 432) :
    sh.word.mixture i = if i / 32 ≤ sh.written then sh.current.air i else sh.last.air i := by
  rw [word]
  split_ifs with hall hle hle
  · rw [mixture, if_neg (Nat.not_lt_zero _), last, List.getLastD_concat]
  · exact absurd (show i / 32 ≤ sh.written by omega) hle
  · rw [mixture, if_pos (Nat.lt_succ_of_le hle)]
  · rw [mixture, if_neg (show ¬ i / 32 < sh.written + 1 by omega)]
    rfl

end NwrkShadow

/-! ## Software, registers and broadcast -/

/-- What is on the register bus in a clock: the next write of the rewrite, or one of the others. -/
inductive NwrkBus
  | idle
  | next
  | trigger
  | periodMf (value : UInt32)
deriving DecidableEq, Repr

/-- What happens next: the software takes up a rewrite, or a clock. -/
inductive NwrkEvent
  | rewrite (payload432 : NwrkPayload) (fireTrigger : Bool)
  | clock (bus : NwrkBus) (mfPulse : Bool)

/-- A payload that was pushed, and the rewrites that were complete then. -/
structure NwrkPush where
  coded : BitVec 432
  complete : List NwrkPayload

/-- The registers with their synchronisers, the broadcast and the writes the software has still to
make; and what an observer has written down: the rewrites, two clocks deep as the payload is, and
what was pushed. -/
structure NwrkSystem where
  regs : NwrkRegs := {}
  payloadR0 : BitVec 432 := 0
  payloadR1 : BitVec 432 := 0
  triggerR0 : Bool := false
  triggerR1 : Bool := false
  periodMfR0 : BitVec 5 := 10
  periodMfR1 : BitVec 5 := 10
  consumeR0 : Bool := false
  consumeR1 : Bool := false
  nwrk : NwrkBroadcast := {}
  todo : List RegWrite := []
  shadow : NwrkShadow := {}
  shadowR0 : NwrkShadow := {}
  shadowR1 : NwrkShadow := {}
  pushed : List NwrkPush := []

namespace NwrkSystem

/-- The inputs of the broadcast. -/
def nwrkIn (s : NwrkSystem) (mfPulse : Bool) : NwrkIn where
  payload := s.payloadR1
  trigger := s.triggerR1
  cfgPeriodMf := s.periodMfR1
  mfPulse := mfPulse

/-- The register write of a clock. -/
def busWrite (s : NwrkSystem) : NwrkBus → Option RegWrite
  | .idle => none
  | .next => s.todo.head?
  | .trigger => some ⟨regNwrkBcastTrigger, 1⟩
  | .periodMf value => some ⟨regNwrkBcastPeriodMf, value⟩

/-- A clock. -/
def clock (s : NwrkSystem) (bus : NwrkBus) (mfPulse : Bool) : NwrkSystem where
  regs := s.regs.clock (s.busWrite bus) s.consumeR1
  payloadR0 := s.regs.payloadAxi
  payloadR1 := s.payloadR0
  triggerR0 := s.regs.trigger
  triggerR1 := s.triggerR0
  periodMfR0 := s.regs.periodMf
  periodMfR1 := s.periodMfR0
  consumeR0 := s.nwrk.wrValid
  consumeR1 := s.consumeR0
  nwrk := s.nwrk.step (s.nwrkIn mfPulse)
  todo := if bus = .next then s.todo.tail else s.todo
  shadow :=
    if (s.busWrite bus).any fun w ↦ w.offset = regNwrkBcastData then s.shadow.word else s.shadow
  shadowR0 := s.shadow
  shadowR1 := s.shadowR0
  pushed :=
    let port := s.nwrk.wrPort (s.nwrkIn mfPulse)
    if port.valid then s.pushed ++ [⟨port.coded, s.shadow.complete⟩] else s.pushed

/-- The software takes up a rewrite when it has made the last one's writes. -/
def step (s : NwrkSystem) : NwrkEvent → NwrkSystem
  | .rewrite payload432 fireTrigger =>
      if s.todo = [] then
        { s with
          todo := payload432.pushWrites fireTrigger
          shadow := { s.shadow with current := payload432 } }
      else s
  | .clock bus mfPulse => s.clock bus mfPulse

/-- **Every payload pushed after the first complete rewrite is the block of one complete rewrite**,
in the order on air. -/
def Untorn (s : NwrkSystem) : Prop :=
  ∀ p ∈ s.pushed, p.complete ≠ [] → ∃ q ∈ p.complete, ∀ i < 432, p.coded.getMsbD i = q.air i

/-- When a payload is pushed, the words that were rewritten two clocks before and the others made a
complete block. -/
def Whole (s : NwrkSystem) : NwrkEvent → Prop
  | .clock _ _ => s.nwrk.wrValid = true → s.shadow.complete ≠ [] →
      ∃ q ∈ s.shadow.complete, ∀ i < 432, s.shadowR1.mixture i = q.air i
  | _ => True

/-! ### The invariant -/

/-- The writes the software has still to make, when `k` words are written. -/
inductive Pending (words : List UInt32) : ℕ → BitVec 4 → List RegWrite → Prop
  | done (index : BitVec 4) (fire : Bool) : Pending words 0 index (NwrkPayload.triggerWrites fire)
  | index {k : ℕ} (hk : k < 14) (index : BitVec 4) (fire : Bool) :
      Pending words k index
        (IndirectMailbox.staging regNwrkBcastIndex regNwrkBcastData k (words.drop k) ++
          NwrkPayload.triggerWrites fire)
  | data {k : ℕ} (hk : k < 14) (fire : Bool) :
      Pending words k (BitVec.ofNat 4 k)
        (⟨regNwrkBcastData, words.getD k 0⟩ ::
          IndirectMailbox.staging regNwrkBcastIndex regNwrkBcastData (k + 1) (words.drop (k + 1)) ++
          NwrkPayload.triggerWrites fire)

variable {s : NwrkSystem}

structure Inv (s : NwrkSystem) : Prop where
  window : ∀ i < 432, s.regs.payloadAxi.getMsbD i = s.shadow.mixture i
  windowR0 : ∀ i < 432, s.payloadR0.getMsbD i = s.shadowR0.mixture i
  windowR1 : ∀ i < 432, s.payloadR1.getMsbD i = s.shadowR1.mixture i
  pending : Pending s.shadow.current.words s.shadow.written s.regs.index s.todo
  completeR0 : s.shadowR0.complete <+: s.shadow.complete
  completeR1 : s.shadowR1.complete <+: s.shadowR0.complete

theorem inv_init : Inv {} := by
  have hzero : ∀ i, (0#432).getMsbD i = NwrkShadow.mixture {} i := by
    intro i
    rw [BitVec.getMsbD_zero, NwrkShadow.mixture, if_neg (Nat.not_lt_zero _)]
    show false = ((0 : UInt8) &&& 1 != 0)
    decide
  refine ⟨fun i hi ↦ ?_, fun i _ ↦ hzero i, fun i _ ↦ hzero i, Pending.done 0 false,
    List.prefix_refl _, List.prefix_refl _⟩
  rw [← hzero, BitVec.getMsbD_zero]
  exact (NwrkRegs.getMsbD_payloadAxi {} hi).trans BitVec.getMsbD_zero

/-! ### A step -/

theorem complete_clock (s : NwrkSystem) (bus : NwrkBus) (mfPulse : Bool) :
    s.shadow.complete <+: (s.clock bus mfPulse).shadow.complete := by
  have hshadow : (s.clock bus mfPulse).shadow =
      if (s.busWrite bus).any fun w ↦ w.offset = regNwrkBcastData then s.shadow.word
      else s.shadow := rfl
  rw [hshadow]
  split_ifs
  · exact s.shadow.complete_word
  · exact List.prefix_refl _

/-- What goes on outside the window. -/
theorem Inv.clock_of (h : s.Inv) (bus : NwrkBus) (mfPulse : Bool)
    (hwindow : ∀ i < 432, (s.clock bus mfPulse).regs.payloadAxi.getMsbD i =
      (s.clock bus mfPulse).shadow.mixture i)
    (hpending : Pending (s.clock bus mfPulse).shadow.current.words
      (s.clock bus mfPulse).shadow.written (s.clock bus mfPulse).regs.index
      (s.clock bus mfPulse).todo) : (s.clock bus mfPulse).Inv :=
  ⟨hwindow, h.window, h.windowR0, hpending, s.complete_clock bus mfPulse, h.completeR0⟩

/-- A clock without a write of index or data. -/
theorem Inv.clock_quiet (h : s.Inv) (bus : NwrkBus) (mfPulse : Bool)
    (hquiet : ∀ w, s.busWrite bus = some w →
      w.offset ≠ regNwrkBcastIndex ∧ w.offset ≠ regNwrkBcastData)
    (htodo : Pending s.shadow.current.words s.shadow.written s.regs.index
      (s.clock bus mfPulse).todo) : (s.clock bus mfPulse).Inv := by
  have hwrite : ((s.busWrite bus).elim s.regs s.regs.write).index = s.regs.index ∧
      ((s.busWrite bus).elim s.regs s.regs.write).payload = s.regs.payload := by
    cases hbus : s.busWrite bus with
    | none => exact ⟨rfl, rfl⟩
    | some w => exact NwrkRegs.write_of_ne (hquiet w hbus).1 (hquiet w hbus).2
  obtain ⟨hindex, hpayload⟩ := NwrkRegs.clock_window (r := s.regs) (s.busWrite bus) s.consumeR1
  have hshadow : (s.clock bus mfPulse).shadow = s.shadow := by
    refine if_neg ?_
    cases hbus : s.busWrite bus with
    | none => exact Bool.false_ne_true
    | some w => exact fun hdata ↦ (hquiet w hbus).2 (of_decide_eq_true hdata)
  refine h.clock_of bus mfPulse (fun i hi ↦ ?_) ?_
  · rw [hshadow, ← h.window i hi, NwrkRegs.getMsbD_payloadAxi _ hi, NwrkRegs.getMsbD_payloadAxi _ hi]
    exact congrArg (fun f ↦ (f (i / 32)).getMsbD (i % 32)) (hpayload.trans hwrite.2)
  · rw [hshadow]
    exact (hindex.trans hwrite.1).symm ▸ htodo

theorem Inv.clock_next (h : s.Inv) (mfPulse : Bool) : (s.clock .next mfPulse).Inv := by
  obtain ⟨hindex, hpayload⟩ := NwrkRegs.clock_window (r := s.regs) (s.busWrite .next) s.consumeR1
  have hpending := h.pending
  generalize hk : s.shadow.written = k at hpending
  generalize hidx : s.regs.index = idx at hpending
  generalize htodo : s.todo = todo at hpending
  cases hpending with
  | done index fire =>
      cases fire with
      | false =>
          have hnone : s.busWrite .next = none := congrArg List.head? htodo
          refine h.clock_quiet .next mfPulse (fun w hw ↦ ?_) ?_
          · exact absurd (hw.symm.trans hnone) (Option.some_ne_none w)
          · rw [hk, show (s.clock .next mfPulse).todo = [] from congrArg List.tail htodo]
            exact Pending.done _ false
      | true =>
          have hsome : s.busWrite .next = some ⟨regNwrkBcastTrigger, 1⟩ := congrArg List.head? htodo
          refine h.clock_quiet .next mfPulse (fun w hw ↦ ?_) ?_
          · rw [← Option.some.inj (hsome.symm.trans hw)]
            decide
          · rw [hk, show (s.clock .next mfPulse).todo = [] from congrArg List.tail htodo]
            exact Pending.done _ false
  | index hlt index fire =>
      rw [NwrkPayload.staging_drop _ hlt] at htodo
      have hsome : s.busWrite .next = some ⟨regNwrkBcastIndex, UInt32.ofNat k⟩ :=
        congrArg List.head? htodo
      rw [hsome, Option.elim_some, NwrkRegs.write_index] at hindex hpayload
      have hshadow : (s.clock .next mfPulse).shadow = s.shadow := by
        refine if_neg ?_
        rw [hsome]
        exact (by decide : ¬ decide (regNwrkBcastIndex = regNwrkBcastData) = true)
      have htail : (s.clock .next mfPulse).todo = _ := congrArg List.tail htodo
      refine h.clock_of .next mfPulse (fun i hi ↦ ?_) ?_
      · rw [hshadow, ← h.window i hi, NwrkRegs.getMsbD_payloadAxi _ hi,
          NwrkRegs.getMsbD_payloadAxi _ hi]
        refine congrArg (fun f ↦ (f (i / 32)).getMsbD (i % 32)) (Eq.trans ?_ hpayload)
        rw [clock, hsome]
      · rw [hshadow, hk, htail, show (s.clock .next mfPulse).regs.index = _ from ?_]
        · exact Pending.data hlt fire
        · rw [clock, hsome]
          exact hindex
  | data hlt fire =>
      have hsome : s.busWrite .next = some ⟨regNwrkBcastData, s.shadow.current.words.getD k 0⟩ :=
        congrArg List.head? htodo
      rw [hsome, Option.elim_some, NwrkRegs.write_data hlt hidx] at hindex hpayload
      have hshadow : (s.clock .next mfPulse).shadow = s.shadow.word := by
        refine if_pos ?_
        rw [hsome]
        exact (by decide : decide (regNwrkBcastData = regNwrkBcastData) = true)
      have htail : (s.clock .next mfPulse).todo = _ := congrArg List.tail htodo
      refine h.clock_of .next mfPulse (fun i hi ↦ ?_) ?_
      · have hregs : (s.clock .next mfPulse).regs.payload =
            Function.update s.regs.payload k (s.shadow.current.words.getD k 0).toBitVec := by
          rw [clock, hsome]
          exact hpayload
        rw [hshadow, s.shadow.mixture_word hi, NwrkRegs.getMsbD_payloadAxi _ hi, hregs, hk]
        have hwindow := h.window i hi
        rw [NwrkRegs.getMsbD_payloadAxi _ hi, NwrkShadow.mixture, hk] at hwindow
        rcases Nat.lt_trichotomy (i / 32) k with hik | hik | hik
        · rw [Function.update_of_ne hik.ne, hwindow, if_pos hik, if_pos hik.le]
        · rw [← hik, Function.update_self, s.shadow.current.getMsbD_words hi, if_pos le_rfl]
        · rw [Function.update_of_ne hik.ne', hwindow, if_neg hik.not_gt, if_neg hik.not_ge]
      · rw [hshadow, htail, NwrkShadow.word, hk]
        split_ifs with hall
        · obtain rfl : k = 13 := Nat.succ.inj hall
          rw [NwrkPayload.staging_drop_all]
          exact Pending.done _ fire
        · exact Pending.index (show k + 1 < 14 by omega) _ fire

/-- A new rewrite begins. -/
theorem Inv.rewrite (h : s.Inv) (htodo : s.todo = []) (payload432 : NwrkPayload) (fire : Bool) :
    Inv { s with
      todo := payload432.pushWrites fire
      shadow := { s.shadow with current := payload432 } } := by
  have hwritten : s.shadow.written = 0 := by
    have hpending := h.pending
    rw [htodo] at hpending
    generalize hk : s.shadow.written = k at hpending
    generalize s.regs.index = idx at hpending
    generalize htodo' : ([] : List RegWrite) = todo at hpending
    cases hpending with
    | done index fire => rfl
    | index hlt index fire =>
        rw [NwrkPayload.staging_drop _ hlt] at htodo'
        exact absurd htodo' (List.cons_ne_nil _ _).symm
    | data hlt fire => exact absurd htodo' (List.cons_ne_nil _ _).symm
  refine ⟨fun i hi ↦ (h.window i hi).trans ?_, h.windowR0, h.windowR1, ?_, h.completeR0,
    h.completeR1⟩
  · rw [NwrkShadow.mixture, NwrkShadow.mixture, hwritten, if_neg (Nat.not_lt_zero _),
      if_neg (Nat.not_lt_zero _)]
    rfl
  · rw [hwritten]
    exact Pending.index (by decide) _ fire

theorem Inv.step (h : s.Inv) (e : NwrkEvent) : (s.step e).Inv := by
  cases e with
  | rewrite payload432 fire =>
      rw [NwrkSystem.step]
      split_ifs with htodo
      · exact h.rewrite htodo payload432 fire
      · exact h
  | clock bus mfPulse =>
      cases bus with
      | idle => exact h.clock_quiet .idle mfPulse (fun w hw ↦ nomatch hw) h.pending
      | next => exact h.clock_next mfPulse
      | trigger =>
          refine h.clock_quiet .trigger mfPulse (fun w hw ↦ ?_) h.pending
          rw [← Option.some.inj hw]
          decide
      | periodMf value =>
          refine h.clock_quiet (.periodMf value) mfPulse (fun w hw ↦ ?_) h.pending
          rw [← Option.some.inj hw]
          exact ⟨(by decide : regNwrkBcastPeriodMf ≠ regNwrkBcastIndex),
            (by decide : regNwrkBcastPeriodMf ≠ regNwrkBcastData)⟩

/-! ### Runs -/

theorem untorn_init : Untorn {} := fun _ h ↦ absurd h List.not_mem_nil

/-- **A push keeps whole what is pushed exactly if the window of two clocks before was whole.** -/
theorem Inv.untorn_step_iff (h : s.Inv) (hs : s.Untorn) (e : NwrkEvent) :
    (s.step e).Untorn ↔ s.Whole e := by
  cases e with
  | rewrite payload432 fire =>
      refine iff_of_true ?_ trivial
      rw [NwrkSystem.step]
      split_ifs
      · exact hs
      · exact hs
  | clock bus mfPulse =>
      have hpushed : (s.step (.clock bus mfPulse)).pushed =
          if s.nwrk.wrValid then s.pushed ++ [⟨s.payloadR1, s.shadow.complete⟩] else s.pushed := rfl
      rw [Untorn, hpushed]
      split_ifs with hvalid
      · have hair : ∀ q : NwrkPayload, (∀ i < 432, s.payloadR1.getMsbD i = q.air i) ↔
            ∀ i < 432, s.shadowR1.mixture i = q.air i :=
          fun q ↦ forall₂_congr fun i hi ↦ by rw [h.windowR1 i hi]
        constructor
        · intro hall _ hne
          obtain ⟨q, hq, hcoded⟩ := hall _ (List.mem_append_right _ (List.mem_singleton_self _)) hne
          exact ⟨q, hq, (hair q).1 hcoded⟩
        · intro hwhole p hp hne
          rcases List.mem_append.1 hp with hp | hp
          · exact hs p hp hne
          · rw [List.mem_singleton.1 hp] at hne ⊢
            obtain ⟨q, hq, hmixture⟩ := hwhole hvalid hne
            exact ⟨q, hq, (hair q).2 hmixture⟩
      · exact iff_of_true hs fun hc ↦ absurd hc hvalid

/-- **Which runs push only whole blocks**: those in which, two clocks before each push, the words
already rewritten and the others made a complete block. -/
theorem untorn_iff (es : List NwrkEvent) :
    Run.Throughout step Untorn {} es ↔ Run.Along step Whole {} es :=
  Run.throughout_iff_along step (fun _ e h ↦ h.step e) (fun _ e h hs ↦ h.untorn_step_iff hs e)
    inv_init untorn_init es

/-- No harm is done by a push two clocks before which no rewrite was under way. -/
theorem Inv.whole_of_idle (h : s.Inv) (bus : NwrkBus) (mfPulse : Bool)
    (hidle : s.shadowR1.written = 0) (hne : s.shadowR1.complete ≠ []) :
    s.Whole (.clock bus mfPulse) := by
  intro _ _
  refine ⟨s.shadowR1.last, (h.completeR1.trans h.completeR0).subset ?_, fun i _ ↦ ?_⟩
  · rw [NwrkShadow.last, List.getLastD_eq_getLast?, List.getLast?_eq_some_getLast hne]
    exact List.getLast_mem hne
  · rw [NwrkShadow.mixture, hidle, if_neg (Nat.not_lt_zero _)]

/-- A block of ones is complete, seven words of one of zeros are written, and ten multiframes
begin. -/
def tornRun : List NwrkEvent :=
  .rewrite (fun _ ↦ 1) false :: List.replicate 28 (.clock .next false) ++
    .rewrite (fun _ ↦ 0) false :: List.replicate 14 (.clock .next false) ++
    List.replicate 11 (.clock .idle true)

/-- Half of the payload that is pushed is ones, half zeros. -/
theorem not_untorn_tornRun : ¬ Run.Throughout step Untorn {} tornRun := by
  intro h
  obtain ⟨p, hp, hne, hfirst, hones⟩ : ∃ p ∈ (Run.exec step {} tornRun).pushed,
      p.complete.length ≠ 0 ∧ p.coded.getMsbD 0 = false ∧ p.complete.all fun q ↦ q.air 0 := by
    decide +kernel
  obtain ⟨q, hq, hcoded⟩ := h.last step p hp fun hnil ↦ hne (congrArg List.length hnil)
  have hone : q.air 0 = true := List.all_eq_true.1 hones q hq
  exact Bool.noConfusion ((hfirst.symm.trans (hcoded 0 (by decide))).trans hone)

end NwrkSystem

end TetraPhy.Lmac
