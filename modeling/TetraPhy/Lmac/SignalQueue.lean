import Mathlib.Algebra.BigOperators.Fin
import TetraPhy.Lib.Ledger

/-!
# The downlink signalling queue

`tetra_dl_signal_queue.v`: four entries, three producer write ports of which at most
one is stored per clock cycle, one pop port.  A cycle is `SignalQueue.step`; its
combinational signals are functions of the registers and of the inputs of the cycle.

| Source                                | Here                          |
|---------------------------------------|-------------------------------|
| `entry_*[i]`, `entry_valid[i]`        | `entry i`, `entryValid i`     |
| the reverse scans of the `always @(*)` | `scan`                       |
| `have_free`, `free_idx`               | `freeIdx`                     |
| `hit_prio*`, `idx_prio*`              | `idxPrio`                     |
| `head_found`, `head_idx`              | `headIdx`                     |
| `write_accepted`                      | `acceptIdx`                   |
| `pop && head_valid`                   | `popIdx`                      |

Only `DEPTH = 4` is instantiated, and the module sums up exactly four valid bits.
Runs start from the reset state.
-/

namespace TetraPhy.Lmac

open Ledger

/-! ## Signals -/

/-- A producer's write port. -/
structure WrPort where
  valid : Bool := false
  coded : BitVec 432 := 0
  pduType : BitVec 2 := 0
  targetTn : BitVec 2 := 0
  aachPattern : BitVec 14 := 0
deriving DecidableEq

/-- The MLE write port also tells that a second PDU is concatenated. -/
structure MleWrPort extends WrPort where
  secondPduPresent : Bool := false
  secondPduNr : Bool := false
deriving DecidableEq

/-- The inputs of one cycle. -/
structure QueueIn where
  wrMle : MleWrPort := {}
  wrCmce : WrPort := {}
  wrSds : WrPort := {}
  pop : Bool := false

/-- One row of the register arrays. -/
structure Entry where
  coded : BitVec 432 := 0
  pduType : BitVec 2 := 0
  targetTn : BitVec 2 := 0
  prio : BitVec 2 := 0
  aachPattern : BitVec 14 := 0
  secondPduPresent : Bool := false
  secondPduNr : Bool := false
deriving DecidableEq

/-- The registers.  The initial values are those of the reset. -/
structure SignalQueue where
  entry : Fin 4 → Entry := fun _ ↦ {}
  entryValid : Fin 4 → Bool := fun _ ↦ false
  dropCnt : BitVec 16 := 0
  dropCntMle : BitVec 8 := 0
  dropCntCmce : BitVec 8 := 0
  dropCntSds : BitVec 8 := 0

/-! ## Write arbitration -/

namespace QueueIn

def arbWriteValid (io : QueueIn) : Bool := io.wrMle.valid || io.wrCmce.valid || io.wrSds.valid

def arbWritePrio (io : QueueIn) : BitVec 2 :=
  if io.wrMle.valid then 0 else if io.wrCmce.valid then 1 else 2

/-- The port that survives the arbitration. -/
def arbWritePort (io : QueueIn) : WrPort :=
  if io.wrMle.valid then io.wrMle.toWrPort else if io.wrCmce.valid then io.wrCmce else io.wrSds

/-- What the arbitration hands to the storage. -/
def arbWrite (io : QueueIn) : Entry where
  coded := io.arbWritePort.coded
  pduType := io.arbWritePort.pduType
  targetTn := io.arbWritePort.targetTn
  prio := io.arbWritePrio
  aachPattern := io.arbWritePort.aachPattern
  -- only the MLE port carries a second PDU
  secondPduPresent := if io.wrMle.valid then io.wrMle.secondPduPresent else false
  secondPduNr := if io.wrMle.valid then io.wrMle.secondPduNr else false

/-- The two-bit sum of the ports that try to write. -/
def writeAttempts (io : QueueIn) : BitVec 2 :=
  (BitVec.ofBool io.wrMle.valid).setWidth 2 + (BitVec.ofBool io.wrCmce.valid).setWidth 2
    + (BitVec.ofBool io.wrSds.valid).setWidth 2

end QueueIn

/-! ## Scans -/

/-- `for (i = DEPTH-1; i >= 0; i = i-1) if (p[i]) idx = i`: the last assignment wins. -/
def scan (p : Fin 4 → Bool) : Option (Fin 4) :=
  (List.finRange 4).reverse.foldl (fun hit i ↦ if p i then some i else hit) none

theorem scan_eq_find? (p : Fin 4 → Bool) : scan p = (List.finRange 4).find? p := by
  rw [scan, List.foldl_reverse]
  induction List.finRange 4 with
  | nil => rfl
  | cons i is ih =>
      rw [List.foldr_cons, ih]
      cases hp : p i <;> simp [hp]

/-- A scan finds the lowest index. -/
theorem scan_eq_some_iff {p : Fin 4 → Bool} {i : Fin 4} :
    scan p = some i ↔ p i = true ∧ ∀ j < i, p j = false := by
  rw [scan_eq_find?, List.find?_eq_some_iff_getElem]
  refine and_congr_right fun _ ↦ ⟨?_, ?_⟩
  · rintro ⟨n, hn, rfl, hlow⟩ j hj
    have := hlow j (by simpa [Fin.lt_def] using hj)
    simpa using this
  · intro hlow
    exact ⟨i, by simp, by simp, fun j hj ↦ by simpa using hlow ⟨j, by omega⟩ hj⟩

theorem scan_eq_none_iff {p : Fin 4 → Bool} : scan p = none ↔ ∀ i, p i = false := by
  simp [scan_eq_find?, List.find?_eq_none]

namespace SignalQueue

variable (q : SignalQueue) (io : QueueIn)

/-! ## The combinational outputs -/

/-- The lowest free slot. -/
def freeIdx : Option (Fin 4) := scan fun i ↦ !q.entryValid i

/-- The lowest occupied slot of a priority. -/
def idxPrio (prio : BitVec 2) : Option (Fin 4) :=
  scan fun i ↦ q.entryValid i && (q.entry i).prio == prio

/-- The slot at the head: strict priority, then slot index. -/
def headIdx : Option (Fin 4) :=
  (q.idxPrio 0).or ((q.idxPrio 1).or ((q.idxPrio 2).or (q.idxPrio 3)))

def headValid : Bool := q.headIdx.isSome

/-- The head outputs; without a head they show slot 0. -/
def head : Entry := q.entry (q.headIdx.getD 0)

def depthCount : BitVec 3 :=
  (BitVec.ofBool (q.entryValid 0)).setWidth 3 + (BitVec.ofBool (q.entryValid 1)).setWidth 3
    + (BitVec.ofBool (q.entryValid 2)).setWidth 3 + (BitVec.ofBool (q.entryValid 3)).setWidth 3

/-- The slot this cycle's write goes to, if one is accepted. -/
def acceptIdx : Option (Fin 4) := if io.arbWriteValid then q.freeIdx else none

/-- The slot this cycle's pop clears, if it does. -/
def popIdx : Option (Fin 4) := if io.pop then q.headIdx else none

def writeAccepted : Bool := (q.acceptIdx io).isSome

/-! ## Drop accounting -/

/-- How many drops the aggregate counter sees in this cycle. -/
def dropThis : BitVec 3 :=
  (if io.writeAttempts ≥ 2 then (io.writeAttempts - 1).setWidth 3 else 0)
    + (if io.arbWriteValid && !q.freeIdx.isSome then 1 else 0)

/-- A port drops if it writes and is not the one stored. -/
def portDrops (valid : Bool) (prio : BitVec 2) : Bool :=
  valid && !(q.writeAccepted io && io.arbWritePrio == prio)

/-- A saturating eight-bit counter. -/
def bump (drop : Bool) (cnt : BitVec 8) : BitVec 8 :=
  if drop && cnt != 0xFF then cnt + 1 else cnt

/-! ## The cycle -/

/-- One clock edge.  A pop clears its slot, an accepted write fills its own. -/
def step : SignalQueue where
  entryValid :=
    let popped := match q.popIdx io with
      | some i => Function.update q.entryValid i false
      | none => q.entryValid
    match q.acceptIdx io with
    | some j => Function.update popped j true
    | none => popped
  entry := match q.acceptIdx io with
    | some j => Function.update q.entry j io.arbWrite
    | none => q.entry
  dropCnt := if q.dropThis io != 0 && q.dropCnt != 0xFFFF then
    q.dropCnt + (q.dropThis io).setWidth 16 else q.dropCnt
  dropCntMle := bump (q.portDrops io io.wrMle.valid 0) q.dropCntMle
  dropCntCmce := bump (q.portDrops io io.wrCmce.valid 1) q.dropCntCmce
  dropCntSds := bump (q.portDrops io io.wrSds.valid 2) q.dropCntSds

/-- The reset state. -/
def init : SignalQueue := {}

/-! ## The queue as a slot store -/

/-- The slots, empty or with what they hold. -/
def occ (i : Fin 4) : Option Entry := if q.entryValid i then some (q.entry i) else none

variable {q io}

theorem occ_eq_some_iff {i : Fin 4} {e : Entry} :
    q.occ i = some e ↔ q.entryValid i = true ∧ q.entry i = e := by
  simp [occ]

theorem isSome_occ_iff {i : Fin 4} : (q.occ i).isSome ↔ q.entryValid i = true := by
  cases h : q.entryValid i <;> simp [occ, h]

theorem occ_eq_none_iff {i : Fin 4} : q.occ i = none ↔ q.entryValid i = false := by
  cases h : q.entryValid i <;> simp [occ, h]

/-! ### The arbiters -/

theorem idxPrio_eq_some_iff {prio : BitVec 2} {i : Fin 4} :
    q.idxPrio prio = some i ↔ (q.entryValid i = true ∧ (q.entry i).prio = prio) ∧
      ∀ j < i, q.entryValid j = true → (q.entry j).prio ≠ prio := by
  simp [idxPrio, scan_eq_some_iff]

theorem idxPrio_eq_none_iff {prio : BitVec 2} :
    q.idxPrio prio = none ↔ ∀ i, q.entryValid i = true → (q.entry i).prio ≠ prio := by
  simp [idxPrio, scan_eq_none_iff]

/-- The head is the lowest occupied slot of its priority, and no occupied slot has a
higher priority. -/
theorem headIdx_spec {i : Fin 4} (h : q.headIdx = some i) :
    q.idxPrio (q.entry i).prio = some i ∧
      ∀ j, q.entryValid j = true → (q.entry i).prio ≤ (q.entry j).prio := by
  have hle : ∀ x y : BitVec 2, (∀ z < x, y ≠ z) → x ≤ y := by decide
  have hfirst : ∀ prio, (∀ z < prio, q.idxPrio z = none) → q.idxPrio prio = some i →
      q.idxPrio (q.entry i).prio = some i ∧
        ∀ j, q.entryValid j = true → (q.entry i).prio ≤ (q.entry j).prio := by
    intro prio hz hi
    obtain ⟨-, rfl⟩ := (idxPrio_eq_some_iff.1 hi).1
    exact ⟨hi, fun j hj ↦ hle _ _ fun z hlt ↦ idxPrio_eq_none_iff.1 (hz z hlt) j hj⟩
  simp only [headIdx, Option.or_eq_some_iff] at h
  rcases h with h | ⟨h₀, h | ⟨h₁, h | ⟨h₂, h⟩⟩⟩
  · exact hfirst 0 (by simp) h
  · refine hfirst 1 (fun z hz ↦ ?_) h
    obtain rfl : z = 0 := by revert z; decide
    exact h₀
  · refine hfirst 2 (fun z hz ↦ ?_) h
    obtain rfl | rfl : z = 0 ∨ z = 1 := by revert z; decide
    exacts [h₀, h₁]
  · refine hfirst 3 (fun z hz ↦ ?_) h
    obtain rfl | rfl | rfl : z = 0 ∨ z = 1 ∨ z = 2 := by revert z; decide
    exacts [h₀, h₁, h₂]

theorem headIdx_eq_none_iff : q.headIdx = none ↔ ∀ i, q.entryValid i = false := by
  have hprio : ∀ x : BitVec 2, x = 0 ∨ x = 1 ∨ x = 2 ∨ x = 3 := by decide
  simp only [headIdx, Option.or_eq_none_iff, idxPrio_eq_none_iff]
  constructor
  · rintro ⟨h₀, h₁, h₂, h₃⟩ i
    by_contra hi
    rw [Bool.not_eq_false] at hi
    rcases hprio (q.entry i).prio with h | h | h | h
    exacts [h₀ i hi h, h₁ i hi h, h₂ i hi h, h₃ i hi h]
  · intro h
    simp [h]

theorem freeIdx_eq_some_iff {i : Fin 4} :
    q.freeIdx = some i ↔ q.entryValid i = false ∧ ∀ j < i, q.entryValid j = true := by
  simp [freeIdx, scan_eq_some_iff]

theorem freeIdx_eq_none_iff : q.freeIdx = none ↔ ∀ i, q.entryValid i = true := by
  simp [freeIdx, scan_eq_none_iff]

theorem acceptIdx_eq_some_iff {i : Fin 4} :
    q.acceptIdx io = some i ↔ io.arbWriteValid = true ∧ q.freeIdx = some i := by
  simp [acceptIdx]

theorem popIdx_eq_some_iff {i : Fin 4} :
    q.popIdx io = some i ↔ io.pop = true ∧ q.headIdx = some i := by
  simp [popIdx]

/-- A pop clears a slot if any is occupied. -/
theorem isSome_popIdx (hpop : io.pop = true) (h : ∃ i, (q.occ i).isSome) :
    (q.popIdx io).isSome := by
  obtain ⟨i, hi⟩ := h
  rw [popIdx, if_pos hpop, Option.isSome_iff_ne_none, ne_eq, headIdx_eq_none_iff]
  intro hnone
  exact absurd ((hnone i).symm.trans (isSome_occ_iff.1 hi)) Bool.false_ne_true

/-- A write is accepted if any slot is free. -/
theorem isSome_acceptIdx (hwrite : io.arbWriteValid = true) (h : ∃ i, q.occ i = none) :
    (q.acceptIdx io).isSome := by
  obtain ⟨i, hi⟩ := h
  rw [acceptIdx, if_pos hwrite, Option.isSome_iff_ne_none, ne_eq, freeIdx_eq_none_iff]
  intro hfull
  exact absurd ((occ_eq_none_iff.1 hi).symm.trans (hfull i)) Bool.false_ne_true

/-- A write is accepted into an empty slot. -/
theorem occ_of_acceptIdx {i : Fin 4} (h : q.acceptIdx io = some i) : q.occ i = none :=
  occ_eq_none_iff.2 (freeIdx_eq_some_iff.1 (acceptIdx_eq_some_iff.1 h).2).1

/-- A pop clears an occupied slot. -/
theorem occ_of_popIdx {i : Fin 4} (h : q.popIdx io = some i) : q.occ i = some (q.entry i) :=
  occ_eq_some_iff.2
    ⟨(idxPrio_eq_some_iff.1 (headIdx_spec (popIdx_eq_some_iff.1 h).2).1).1.1, rfl⟩

/-- **The cycle as a store sees it**: at most one entry is taken, at most one is put. -/
theorem occ_step (q : SignalQueue) (io : QueueIn) : (q.step io).occ =
    Ledger.cycle q.occ (q.popIdx io) ((q.acceptIdx io).map fun j ↦ (j, io.arbWrite)) := by
  have hupd : ∀ (v : Fin 4 → Bool) (e : Fin 4 → Entry) j a,
      (fun k ↦ if Function.update v j true k then some (Function.update e j a k) else none) =
        Function.update (fun k ↦ if v k then some (e k) else none) j (some a) := by
    intro v e j a
    funext k
    rcases eq_or_ne k j with rfl | hkj
    · simp
    · simp [hkj]
  have hclr : ∀ (v : Fin 4 → Bool) i, (fun k ↦ if Function.update v i false k then
      some (q.entry k) else none) = Function.update (fun k ↦ if v k then some (q.entry k) else none)
        i none := by
    intro v i
    funext k
    rcases eq_or_ne k i with rfl | hki
    · simp
    · simp [hki]
  change (fun k ↦ if (q.step io).entryValid k then some ((q.step io).entry k) else none) =
    Ledger.cycle (fun k ↦ if q.entryValid k then some (q.entry k) else none) _ _
  cases hp : q.popIdx io <;> cases ha : q.acceptIdx io <;>
    simp only [step, hp, ha, Ledger.cycle, Option.map_none, Option.map_some, hupd, hclr]

/-- An accepted write is in its slot. -/
theorem occ_step_of_acceptIdx {j : Fin 4} (h : q.acceptIdx io = some j) :
    (q.step io).occ j = some io.arbWrite := by
  rw [occ_step, h]
  simp [Ledger.cycle]

/-- Nothing else comes in. -/
theorem acceptIdx_of_occ_step {j : Fin 4} (h : q.occ j = none) (h' : (q.step io).occ j ≠ none) :
    q.acceptIdx io = some j := by
  have hpop : ∀ out : Option (Fin 4), Ledger.cycle q.occ out none j = none := by
    rintro (_ | i)
    · exact h
    · rcases eq_or_ne j i with rfl | hji
      · exact Function.update_self ..
      · exact (Function.update_of_ne hji ..).trans h
  rw [occ_step] at h'
  cases ha : q.acceptIdx io with
  | none =>
      rw [ha] at h'
      exact absurd (hpop _) h'
  | some k =>
      rcases eq_or_ne j k with rfl | hjk
      · rfl
      · rw [ha] at h'
        exact absurd ((Function.update_of_ne hjk ..).trans (hpop (q.popIdx io))) h'

/-- The drop counter counts the drops, as long as it has room for them. -/
theorem toNat_dropCnt_step (q : SignalQueue) (io : QueueIn) :
    (q.step io).dropCnt.toNat ≤ q.dropCnt.toNat + (q.dropThis io).toNat ∧
      ((q.step io).dropCnt.toNat = q.dropCnt.toNat + (q.dropThis io).toNat ↔
        q.dropCnt.toNat + (q.dropThis io).toNat ≤ 65535) := by
  have hlt := q.dropCnt.isLt
  have hd := (q.dropThis io).isLt
  simp only [step]
  split_ifs with h
  · rw [BitVec.toNat_add, BitVec.toNat_setWidth]
    omega
  · rw [Bool.and_eq_true, not_and_or, bne_iff_ne, bne_iff_ne, not_not, not_not] at h
    rcases h with h | h
    · rw [h, BitVec.ofNat_eq_ofNat, BitVec.toNat_ofNat, Nat.zero_mod]
      omega
    · have hfull : q.dropCnt.toNat = 65535 := by rw [h]; rfl
      omega

/-- The reported depth counts the occupied slots. -/
theorem toNat_depthCount (q : SignalQueue) : q.depthCount.toNat = Ledger.occupied q.occ := by
  have hbits : ∀ a b c d : Bool, ((BitVec.ofBool a).setWidth 3 + (BitVec.ofBool b).setWidth 3
      + (BitVec.ofBool c).setWidth 3 + (BitVec.ofBool d).setWidth 3).toNat =
        a.toNat + b.toNat + c.toNat + d.toNat := by decide
  rw [depthCount, hbits, occupied, Finset.card_filter, Fin.sum_univ_four]
  simp only [isSome_occ_iff, Bool.toNat, Bool.cond_eq_ite]

end SignalQueue

end TetraPhy.Lmac

/-!
# The downlink signalling scheduler

`tetra_dl_signal_scheduler.v`: the head of the queue is fanned out to the four timeslots, and
popped on the slot pulse of the timeslot it is meant for.  The per-timeslot outputs are one
definition each, with the timeslot as an argument.
-/

namespace TetraPhy.Lmac

/-- The inputs of one cycle. -/
structure SchedIn where
  tn : BitVec 2
  slotPulse : Bool
  headValid : Bool
  head : Entry
  nullPduBits : BitVec 216
  sigCompanion : BitVec 216

namespace SchedIn

variable (i : SchedIn)

def popTrigger : Bool := i.slotPulse && (i.headValid && i.head.targetTn == i.tn)

def isF : Bool := i.head.pduType == 0

def isHd : Bool := i.head.pduType == 1

/-- `tgt_tnK`, which is also `sched_active_sys[K]`. -/
def active (k : BitVec 2) : Bool := i.headValid && i.head.targetTn == k

/-- `sched_blk1_tnK_sys`. -/
def blk1 (k : BitVec 2) : BitVec 216 :=
  if i.active k then i.head.coded.extractLsb' 216 216 else i.nullPduBits

/-- `sched_blk2_tnK_sys`. -/
def blk2 (k : BitVec 2) : BitVec 216 :=
  if i.active k && i.isF then i.head.coded.extractLsb' 0 216 else i.sigCompanion

/-- `sched_ndb2_sys[K]`. -/
def ndb2 (k : BitVec 2) : Bool := if i.active k then i.isHd else true

end SchedIn

/-- The registers. -/
structure SignalScheduler where
  popCnt : BitVec 16 := 0
  overrideCnt : BitVec 16 := 0
  poppedSecondPduPresent : Bool := false
  poppedSecondPduNr : Bool := false

/-- One clock edge. -/
def SignalScheduler.step (s : SignalScheduler) (i : SchedIn) : SignalScheduler where
  popCnt := if i.popTrigger && s.popCnt != 0xFFFF then s.popCnt + 1 else s.popCnt
  overrideCnt := if i.popTrigger && s.overrideCnt != 0xFFFF then s.overrideCnt + 1 else s.overrideCnt
  poppedSecondPduPresent :=
    if i.popTrigger then i.head.secondPduPresent else s.poppedSecondPduPresent
  poppedSecondPduNr := if i.popTrigger then i.head.secondPduNr else s.poppedSecondPduNr

namespace SchedIn

variable {i : SchedIn}

/-- A pop is for the timeslot that begins. -/
theorem active_of_popTrigger (h : i.popTrigger = true) : i.active i.tn = true := by
  rw [popTrigger, Bool.and_eq_true] at h
  exact h.2

theorem slotPulse_of_popTrigger (h : i.popTrigger = true) : i.slotPulse = true := by
  rw [popTrigger, Bool.and_eq_true] at h
  exact h.1

/-- The head reaches its timeslot, block by block. -/
theorem fanOut_of_active {k : BitVec 2} (h : i.active k = true) :
    i.blk1 k = i.head.coded.extractLsb' 216 216 ∧
      (i.head.pduType = 0 → i.blk2 k = i.head.coded.extractLsb' 0 216) ∧
      i.ndb2 k = (i.head.pduType == 1) := by
  refine ⟨by rw [blk1, if_pos h], fun hf ↦ ?_, by rw [ndb2, if_pos h, isHd]⟩
  rw [blk2, h, isF, hf]
  rfl

end SchedIn

end TetraPhy.Lmac
