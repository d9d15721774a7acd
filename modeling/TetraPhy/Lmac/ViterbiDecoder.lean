import Mathlib.Data.BitVec
import Mathlib.Data.Fin.VecNotation
import TetraPhy.Lib.Run

/-!
# The Viterbi decoder of the lower MAC

`tetra_viterbi_decoder.v`: a quad of soft symbols a stage, 0 for a strong zero, 7 for a strong one
and 4 for an erasure.  The machine takes the stages of a block (`acs`), goes back from the best of
the sixteen states (`tbInit`, `traceback`), and sends all but the tail from a buffer (`output`).

Symbols that come in the last three states are lost.  `step_budget` is the account of the others:
whatever else a block of 144 stages has, 140 bits are sent for 144 stages.

`path_metric_min` is left out, which nothing here reads.
-/

namespace TetraPhy.Lmac

theorem neZeroMetric : NeZero 16 := ⟨by decide⟩

theorem neZeroBranch : NeZero 4 := ⟨by decide⟩

attribute [local instance] neZeroMetric neZeroBranch

/-- `S_IDLE` .. `S_OUTPUT`. -/
inductive ViterbiState
  | idle | acs | tbInit | traceback | output
deriving DecidableEq, Repr

/-- The inputs of a cycle. -/
structure ViterbiIn where
  soft : Fin 4 → BitVec 3
  inputValid : Bool
  numStages : BitVec 9

/-- A flat register of metrics. -/
abbrev PathMetrics := Vector (BitVec 16) 16

namespace ViterbiDecoder

/-! ## A stage -/

/-- `P0` and `P1`. -/
def predState (s : Fin 16) (b : Bool) : Fin 16 :=
  ⟨2 * (s.val % 8) + b.toNat, by have := Bool.toNat_le b; omega⟩

/-- `G1P0` .. `G4P0`. -/
def genP0 (s : Fin 16) : Fin 4 → Bool
  | 0 => s.val.testBit 3 ^^ s.val.testBit 0
  | 1 => s.val.testBit 3 ^^ s.val.testBit 2 ^^ s.val.testBit 1
  | 2 => s.val.testBit 3 ^^ s.val.testBit 1 ^^ s.val.testBit 0
  | 3 => s.val.testBit 3 ^^ s.val.testBit 2 ^^ s.val.testBit 0

section Stage

variable (pm : PathMetrics) (soft : Fin 4 → BitVec 3) (s : Fin 16)

/-- What a symbol is charged. -/
def genTerm (k : Fin 4) : BitVec 5 := (if genP0 s k then 7 - soft k else soft k).setWidth 5

/-- `bm0_w`. -/
def bm0W : BitVec 5 := genTerm soft s 0 + genTerm soft s 1 + genTerm soft s 2 + genTerm soft s 3

/-- `bm1_w`. -/
def bm1W : BitVec 5 := 28 - bm0W soft s

/-- `cost0_w`. -/
def cost0W : BitVec 17 := (pm.get (predState s false)).setWidth 17 + (bm0W soft s).setWidth 17

/-- `cost1_w`. -/
def cost1W : BitVec 17 := (pm.get (predState s true)).setWidth 17 + (bm1W soft s).setWidth 17

/-- `surv_w`. -/
def survW : Bool := cost1W pm soft s < cost0W pm soft s

/-- `raw_w`. -/
def rawW : BitVec 17 := if survW pm soft s then cost1W pm soft s else cost0W pm soft s

/-- `pm_raw_min_w`. -/
def pmRawMin : BitVec 17 :=
  (List.finRange 16).foldl (fun m s ↦ if m ≤ rawW pm soft s then m else rawW pm soft s)
    (rawW pm soft 0)

/-- `nm_w`. -/
def nmW : BitVec 16 :=
  let diff := rawW pm soft s - pmRawMin pm soft
  if diff.getLsbD 16 then 0xFFFF else diff.setWidth 16

/-- The metrics after a stage. -/
def pmNext : PathMetrics := Vector.ofFn fun s ↦ nmW pm soft s

end Stage

/-- The metrics at the start of a block. -/
def pmStart : PathMetrics := Vector.ofFn fun s ↦ if s = 0 then 0 else 0xFFFF

/-- `best_state_w`: of the states with the least metric the first. -/
def bestState (pm : PathMetrics) : Fin 16 :=
  (List.finRange 16).foldl (fun b s ↦ if pm.get b ≤ pm.get s then b else s) 0

/-! ## The machine -/

/-- A write to a register of `MAX_STAGES` bits; one past its end is lost. -/
def writeStage {α : Type} (reg : ℕ → α) (k : BitVec 9) (x : α) : ℕ → α :=
  if k < 436 then Function.update reg k.toNat x else reg

end ViterbiDecoder

/-- The registers; `surv` has a bit of each of the sixteen for each stage. -/
structure ViterbiDecoder where
  state : ViterbiState := .idle
  stageCnt : BitVec 9 := 0
  pm : PathMetrics := ViterbiDecoder.pmStart
  surv : ℕ → Fin 16 → Bool := fun _ _ ↦ false
  tbState : Fin 16 := 0
  outBuf : ℕ → Bool := fun _ ↦ false
  decodedBit : Bool := false
  decodedValid : Bool := false
  blockDone : Bool := false

namespace ViterbiDecoder

section

variable (v : ViterbiDecoder) (i : ViterbiIn)

/-- `acs_done_sys`. -/
def acsDone : Bool := v.state == .acs && i.inputValid && v.stageCnt == i.numStages - 1

/-- `tb_done_sys`. -/
def tbDone : Bool := v.state == .traceback && v.stageCnt == i.numStages - 1

/-- `out_done_sys`.  `TAIL` is an integer, so the comparison is one of 32 bits. -/
def outDone : Bool :=
  v.state == .output && v.stageCnt.setWidth 32 == i.numStages.setWidth 32 - 4 - 1

/-- A stage is taken. -/
def taking : Bool := (v.state == .idle || v.state == .acs) && i.inputValid

/-- `tb_stage_w`. -/
def tbStage : BitVec 9 := i.numStages - 1 - v.stageCnt

/-- `tb_surv_bit_w`. -/
def tbSurvBit : Bool := v.surv (v.tbStage i).toNat v.tbState

/-- A clock edge. -/
def step : ViterbiDecoder where
  state :=
    match v.state with
    | .idle => if i.inputValid then .acs else .idle
    | .acs => if v.acsDone i then .tbInit else .acs
    | .tbInit => .traceback
    | .traceback => if v.tbDone i then .output else .traceback
    | .output => if v.outDone i then .idle else .output
  stageCnt :=
    match v.state with
    | .idle => if i.inputValid then 1 else v.stageCnt
    | .acs => if i.inputValid then if v.acsDone i then 0 else v.stageCnt + 1 else v.stageCnt
    | .tbInit => 0
    | .traceback => if v.tbDone i then 0 else v.stageCnt + 1
    | .output => if v.outDone i then 0 else v.stageCnt + 1
  pm := if v.outDone i then pmStart else if v.taking i then pmNext v.pm i.soft else v.pm
  surv := if v.taking i then writeStage v.surv v.stageCnt (survW v.pm i.soft) else v.surv
  tbState :=
    match v.state with
    | .tbInit => bestState v.pm
    | .traceback => predState v.tbState (v.tbSurvBit i)
    | _ => v.tbState
  outBuf :=
    if v.state = .traceback then writeStage v.outBuf (v.tbStage i) (v.tbState.val.testBit 3)
    else v.outBuf
  decodedBit := if v.state = .output then v.outBuf v.stageCnt.toNat else v.decodedBit
  decodedValid := v.state == .output
  blockDone := v.outDone i

/-- The output port. -/
def sent : Option Bool := if v.decodedValid then some v.decodedBit else none

end

/-! ## The account -/

/-- The counter is where the state lets it be, with 144 stages a block. -/
def Counting (v : ViterbiDecoder) : Prop :=
  match v.state with
  | .idle => v.stageCnt = 0
  | .acs | .traceback => v.stageCnt.toNat ≤ 143
  | .tbInit => True
  | .output => v.stageCnt.toNat ≤ 139

/-- What is in store, 70 for a stage and 72 for a bit. -/
def budget (v : ViterbiDecoder) : ℕ :=
  match v.state with
  | .idle | .acs => 70 * v.stageCnt.toNat
  | .tbInit | .traceback => 72 * 140
  | .output => 72 * (140 - v.stageCnt.toNat)

section

variable {v : ViterbiDecoder} {i : ViterbiIn}

theorem sent_step_of_ne (hs : v.state ≠ .output) : (v.step i).sent = none := by
  have hvalid : (v.step i).decodedValid = false := beq_eq_false_iff_ne.2 hs
  rw [sent, hvalid]
  rfl

theorem sent_step_of_output (hs : v.state = .output) :
    (v.step i).sent = some (v.outBuf v.stageCnt.toNat) := by
  have hvalid : (v.step i).decodedValid = true := beq_iff_eq.2 hs
  have hbit : (v.step i).decodedBit = v.outBuf v.stageCnt.toNat := if_pos hs
  rw [sent, hvalid, hbit]
  rfl

/-- The last stage of a block, and its last bit. -/
theorem outDone_eq (hn : i.numStages = 144) :
    v.outDone i = (v.state == .output && v.stageCnt == 139) := by
  have hwide : (v.stageCnt.setWidth 32 == (144 : BitVec 9).setWidth 32 - 4 - 1) =
      (v.stageCnt == 139) := by
    have hlt := v.stageCnt.isLt
    rw [Bool.eq_iff_iff, beq_iff_eq, beq_iff_eq, ← BitVec.toNat_inj, ← BitVec.toNat_inj,
      BitVec.toNat_setWidth, Nat.mod_eq_of_lt (by omega)]
    rfl
  rw [outDone, hn, hwide]

/-- A counter below its last value counts on. -/
theorem toNat_add_one_le {x m : BitVec 9} (h : x.toNat ≤ m.toNat) (hne : x ≠ m) :
    (x + 1).toNat = x.toNat + 1 ∧ x.toNat + 1 ≤ m.toNat := by
  have hm := m.isLt
  have hlt : x.toNat ≠ m.toNat := fun h ↦ hne (BitVec.eq_of_toNat_eq h)
  refine ⟨?_, by omega⟩
  rw [BitVec.toNat_add, show (1 : BitVec 9).toNat = 1 from rfl, Nat.mod_eq_of_lt (by omega)]

/-- **The account of a cycle.** -/
theorem step_budget (hn : i.numStages = 144) (h : v.Counting) : (v.step i).Counting ∧
    72 * (v.step i).sent.toList.length + (v.step i).budget ≤
      v.budget + 70 * i.inputValid.toNat := by
  cases hs : v.state with
  | idle =>
      simp only [Counting, hs] at h
      rw [sent_step_of_ne (by rw [hs]; decide)]
      cases hi : i.inputValid <;> simp [Counting, budget, step, hs, hi, h]
  | acs =>
      simp only [Counting, hs] at h
      rw [sent_step_of_ne (by rw [hs]; decide)]
      cases hi : i.inputValid
      · simp [Counting, budget, step, acsDone, hs, hi, h]
      have hdone : v.acsDone i = (v.stageCnt == 143) := by rw [acsDone, hs, hi, hn]; rfl
      by_cases hd : v.stageCnt = 143
      · simp [Counting, budget, step, hdone, hs, hi, hd]
      · rw [beq_false_of_ne hd] at hdone
        obtain ⟨hcnt, hle⟩ := toNat_add_one_le (m := 143) h hd
        have hstate : (v.step i).state = .acs := by simp [step, hdone, hs, hi]
        have hnext : (v.step i).stageCnt = v.stageCnt + 1 := by simp [step, hdone, hs, hi]
        simp only [Counting, budget, hs, hstate, hnext, hcnt]
        refine ⟨hle, ?_⟩
        show 72 * 0 + 70 * (v.stageCnt.toNat + 1) ≤ 70 * v.stageCnt.toNat + 70 * 1
        omega
  | tbInit =>
      rw [sent_step_of_ne (by rw [hs]; decide)]
      simp [Counting, budget, step, hs]
  | traceback =>
      simp only [Counting, hs] at h
      rw [sent_step_of_ne (by rw [hs]; decide)]
      have hdone : v.tbDone i = (v.stageCnt == 143) := by rw [tbDone, hs, hn]; rfl
      by_cases hd : v.stageCnt = 143
      · simp [Counting, budget, step, hdone, hs, hd]
      · rw [beq_false_of_ne hd] at hdone
        obtain ⟨hcnt, hle⟩ := toNat_add_one_le (m := 143) h hd
        have hstate : (v.step i).state = .traceback := by simp [step, hdone, hs]
        have hnext : (v.step i).stageCnt = v.stageCnt + 1 := by simp [step, hdone, hs]
        simp only [Counting, budget, hs, hstate, hnext, hcnt]
        exact ⟨hle, Nat.le_add_right _ _⟩
  | output =>
      simp only [Counting, hs] at h
      rw [sent_step_of_output hs]
      have hdone : v.outDone i = (v.stageCnt == 139) := by rw [outDone_eq hn, hs]; rfl
      by_cases hd : v.stageCnt = 139
      · simp [Counting, budget, step, hdone, hs, hd]
      · rw [beq_false_of_ne hd] at hdone
        obtain ⟨hcnt, hle⟩ := toNat_add_one_le (m := 139) h hd
        have hstate : (v.step i).state = .output := by simp [step, hdone, hs]
        have hnext : (v.step i).stageCnt = v.stageCnt + 1 := by simp [step, hdone, hs]
        simp only [Counting, budget, hs, hstate, hnext, hcnt]
        refine ⟨hle, ?_⟩
        show 72 * 1 + 72 * (140 - (v.stageCnt.toNat + 1)) ≤ 72 * (140 - v.stageCnt.toNat) +
          70 * i.inputValid.toNat
        omega

end

end ViterbiDecoder

end TetraPhy.Lmac
