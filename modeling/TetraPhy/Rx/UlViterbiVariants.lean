import Mathlib.Data.BitVec
import TetraPhy.Lib.Emission
import TetraPhy.Rx.UlViterbi

/-!
# The two uplink Viterbi decoders

`tetra_ul_viterbi_r14.v` keeps the decisions of all stages in flops and goes back one stage a
cycle.  `tetra_ul_viterbi_r14_bram.v` keeps them in a memory that is read a cycle late, so that it
takes two cycles a stage: one to read and one to use what was read.

Both are one machine but for that, and for when the metrics are reset (`step_core`): outside the
traceback a cycle of the one is a cycle of the other, and in the traceback two are one
(`step_step_core`).  So what a block leaves in the memories is proved once, in four phases.  The
symbols come in (`Loading`), the machine turns round (`Loaded`), goes back (`Tracing`) and sends
(`Sending`).  What the memories held before is never read.
-/

namespace TetraPhy.Rx

open Codec Survivor Run

attribute [local instance] neZeroViterbi neZeroSymbols

/-- `S_IDLE` .. `S_OUTPUT`. -/
inductive UlViterbiState
  | idle | acs | tbInit | traceback | output
  deriving DecidableEq

/-- The inputs of a cycle. -/
structure UlViterbiIn (w : ℕ) where
  soft : Fin 4 → BitVec w
  inputValid : Bool
  numStages : BitVec 9

/-- A write to a memory; one past its end is lost. -/
def store {α : Type} (size : ℕ) (mem : ℕ → α) (k : ℕ) (x : α) : ℕ → α :=
  if k < size then Function.update mem k x else mem

/-! ## The flops -/

/-- `tetra_ul_viterbi_r14`. -/
structure UlViterbiR14 where
  state : UlViterbiState := .idle
  stageCnt : BitVec 9 := 0
  pm : Metrics := pmInit
  surv : ℕ → State → Bool := fun _ _ ↦ false
  tbState : State := 0
  outBuf : ℕ → Bool := fun _ ↦ false
  decodedBit : Bool := false
  decodedValid : Bool := false
  blockDone : Bool := false

namespace UlViterbiR14

variable {w : ℕ} (maxStages : ℕ) (d : UlViterbiR14) (i : UlViterbiIn w)

/-- `acs_done_sys`. -/
def acsDone : Bool := d.state == .acs && i.inputValid && d.stageCnt == i.numStages - 1

/-- `tb_done_sys`. -/
def tbDone : Bool := d.state == .traceback && d.stageCnt == i.numStages - 1

/-- `out_done_sys`.  `TAIL` is an integer, so the comparison is one of 32 bits. -/
def outDone : Bool :=
  d.state == .output && d.stageCnt.setWidth 32 == i.numStages.setWidth 32 - 4 - 1

/-- A symbol is taken. -/
def taking : Bool := (d.state == .idle || d.state == .acs) && i.inputValid

/-- `tb_stage_w`. -/
def tbStage : BitVec 9 := i.numStages - 1 - d.stageCnt

/-- `tb_surv_bit_w`. -/
def tbSurvBit : Bool := d.surv (d.tbStage i).toNat d.tbState

/-- A clock edge. -/
def step : UlViterbiR14 where
  state :=
    match d.state with
    | .idle => if i.inputValid then .acs else .idle
    | .acs => if d.acsDone i then .tbInit else .acs
    | .tbInit => .traceback
    | .traceback => if d.tbDone i then .output else .traceback
    | .output => if d.outDone i then .idle else .output
  stageCnt :=
    match d.state with
    | .idle => if i.inputValid then 1 else d.stageCnt
    | .acs => if i.inputValid then if d.acsDone i then 0 else d.stageCnt + 1 else d.stageCnt
    | .tbInit => 0
    | .traceback => if d.tbDone i then 0 else d.stageCnt + 1
    | .output => if d.outDone i then 0 else d.stageCnt + 1
  pm := if d.outDone i then pmInit else if d.taking i then pmNew d.pm i.soft else d.pm
  surv :=
    if d.taking i then store maxStages d.surv d.stageCnt.toNat (survW d.pm i.soft) else d.surv
  tbState :=
    match d.state with
    | .tbInit => 0
    | .traceback => r14.pred d.tbState (d.tbSurvBit i)
    | _ => d.tbState
  outBuf :=
    if d.state = .traceback then
      store maxStages d.outBuf (d.tbStage i).toNat (r14.newest d.tbState)
    else d.outBuf
  decodedBit := if d.state = .output then d.outBuf d.stageCnt.toNat else d.decodedBit
  decodedValid := d.state == .output
  blockDone := d.outDone i

/-- The output port. -/
def sent : Option Bool := if d.decodedValid then some d.decodedBit else none

end UlViterbiR14

/-! ## The memory -/

/-- `tetra_ul_viterbi_r14_bram`. -/
structure UlViterbiR14Bram extends UlViterbiR14 where
  tbPhase : Bool := false
  survRq : State → Bool := fun _ ↦ false

namespace UlViterbiR14Bram

variable {w : ℕ} (maxStages : ℕ) (b : UlViterbiR14Bram) (i : UlViterbiIn w)

/-- `tb_done_sys`. -/
def tbDone : Bool := b.state == .traceback && b.tbPhase && b.stageCnt == i.numStages - 1

/-- `tb_surv_bit_w`. -/
def tbSurvBit : Bool := b.survRq b.tbState

/-- A clock edge. -/
def step : UlViterbiR14Bram where
  state :=
    match b.state with
    | .idle => if i.inputValid then .acs else .idle
    | .acs => if b.acsDone i then .tbInit else .acs
    | .tbInit => .traceback
    | .traceback => if b.tbDone i then .output else .traceback
    | .output => if b.outDone i then .idle else .output
  tbPhase :=
    match b.state with
    | .tbInit => false
    | .traceback => !b.tbPhase
    | _ => b.tbPhase
  stageCnt :=
    match b.state with
    | .idle => if i.inputValid then 1 else b.stageCnt
    | .acs => if i.inputValid then if b.acsDone i then 0 else b.stageCnt + 1 else b.stageCnt
    | .tbInit => 0
    | .traceback => if b.tbPhase then if b.tbDone i then 0 else b.stageCnt + 1 else b.stageCnt
    | .output => if b.outDone i then 0 else b.stageCnt + 1
  pm :=
    if b.state = .tbInit then pmInit else if b.taking i then pmNew b.pm i.soft else b.pm
  surv :=
    if b.taking i then store maxStages b.surv b.stageCnt.toNat (survW b.pm i.soft) else b.surv
  survRq := b.surv (b.tbStage i).toNat
  tbState :=
    match b.state with
    | .tbInit => 0
    | .traceback => if b.tbPhase then r14.pred b.tbState b.tbSurvBit else b.tbState
    | _ => b.tbState
  outBuf :=
    if b.state = .traceback ∧ b.tbPhase = true then
      store maxStages b.outBuf (b.tbStage i).toNat (r14.newest b.tbState)
    else b.outBuf
  decodedBit := if b.state = .output then b.outBuf b.stageCnt.toNat else b.decodedBit
  decodedValid := b.state == .output
  blockDone := b.outDone i

/-- The output port. -/
abbrev sent : Option Bool := b.toUlViterbiR14.sent

variable {b i} {maxStages}

/-- **Outside the traceback** the two go together, but for the metrics. -/
theorem step_core (h : b.state ≠ .traceback) : (b.step maxStages i).toUlViterbiR14 =
    { b.toUlViterbiR14.step maxStages i with pm := (b.step maxStages i).pm } := by
  cases hs : b.state with
  | traceback => exact absurd hs h
  | _ => simp [step, UlViterbiR14.step, hs]

/-- While symbols come in, they go together. -/
theorem step_core_of_front (h : b.state = .idle ∨ b.state = .acs) :
    (b.step maxStages i).toUlViterbiR14 = b.toUlViterbiR14.step maxStages i := by
  obtain hs | hs := h <;> simp [step, UlViterbiR14.step, hs, UlViterbiR14.outDone]

/-- The cycle that reads. -/
theorem step_read (hs : b.state = .traceback) (hp : b.tbPhase = false) :
    b.step maxStages i = { b with
      tbPhase := true
      survRq := b.surv (b.tbStage i).toNat
      decodedValid := false
      blockDone := false } := by
  simp [step, hs, hp, tbDone, UlViterbiR14.taking, UlViterbiR14.outDone]

/-- **In the traceback two cycles are one.** -/
theorem step_step_core (hs : b.state = .traceback) (hp : b.tbPhase = false) {j : UlViterbiIn w}
    (hn : j.numStages = i.numStages) :
    ((b.step maxStages i).step maxStages j).toUlViterbiR14 = b.toUlViterbiR14.step maxStages j ∧
      ((b.step maxStages i).step maxStages j).tbPhase = false := by
  rw [step_read hs hp]
  simp [step, UlViterbiR14.step, hs, tbDone, UlViterbiR14.tbDone, UlViterbiR14.taking,
    UlViterbiR14.outDone, tbSurvBit, UlViterbiR14.tbSurvBit, UlViterbiR14.tbStage, hn]

end UlViterbiR14Bram

/-! ## Counters and memories -/

/-- The last stage of a block. -/
theorem beq_last {c v : BitVec 9} {k : ℕ} (hc : c.toNat = k) (hv : k < v.toNat) :
    (c == v - 1) = decide (k + 1 = v.toNat) := by
  have hsub : (v - 1).toNat = v.toNat - 1 :=
    BitVec.toNat_sub_of_le (by rw [BitVec.le_def]; change 1 ≤ v.toNat; omega)
  have hiff : c = v - 1 ↔ k + 1 = v.toNat := by
    rw [← BitVec.toNat_inj, hsub, hc]
    omega
  rw [beq_eq_decide]
  exact decide_eq_decide.2 hiff

/-- The last bit of a block. -/
theorem beq_sent {c v : BitVec 9} {k : ℕ} (hc : c.toNat = k) (hv : k + 4 < v.toNat) :
    (c.setWidth 32 == v.setWidth 32 - 4 - 1) = decide (k + 5 = v.toNat) := by
  have hwide : (v.setWidth 32).toNat = v.toNat := BitVec.toNat_setWidth_of_le (by decide)
  have hsub : (v.setWidth 32 - 4 - 1).toNat = v.toNat - 5 := by
    have hv' := v.isLt
    rw [BitVec.toNat_sub, BitVec.toNat_sub, hwide]
    change (2 ^ 32 - 1 + (2 ^ 32 - 4 + v.toNat) % 2 ^ 32) % 2 ^ 32 = _
    omega
  have hiff : c.setWidth 32 = v.setWidth 32 - 4 - 1 ↔ k + 5 = v.toNat := by
    rw [← BitVec.toNat_inj, hsub, BitVec.toNat_setWidth_of_le (by decide), hc]
    omega
  rw [beq_eq_decide]
  exact decide_eq_decide.2 hiff

theorem toNat_succ {c : BitVec 9} {k : ℕ} (hc : c.toNat = k) (hk : k + 1 < 512) :
    (c + 1).toNat = k + 1 := by
  rw [BitVec.toNat_add, hc]
  exact Nat.mod_eq_of_lt hk

/-- A memory filled from the front. -/
theorem map_range_store {α : Type} {size k : ℕ} (hk : k < size) (mem : ℕ → α) (x : α) :
    (List.range (k + 1)).map (store size mem k x) = (List.range k).map mem ++ [x] := by
  rw [store, if_pos hk, List.range_succ, List.map_append, List.map_singleton,
    Function.update_self]
  congr 1
  refine List.map_congr_left fun j hj ↦ Function.update_of_ne ?_ _ _
  exact (List.mem_range.1 hj).ne

/-- A memory filled from the back. -/
theorem map_range'_store {α : Type} {size k : ℕ} (hk : k < size) (mem : ℕ → α) (x : α) (n : ℕ) :
    (List.range' k (n + 1)).map (store size mem k x) = x :: (List.range' (k + 1) n).map mem := by
  rw [store, if_pos hk, List.range'_succ, List.map_cons, Function.update_self]
  congr 1
  refine List.map_congr_left fun j hj ↦ Function.update_of_ne ?_ _ _
  have := List.mem_range'_1.1 hj
  omega

/-- What a memory that holds a list says. -/
theorem eq_getElem_of_map_range {α : Type} {l : List α} {mem : ℕ → α}
    (h : (List.range l.length).map mem = l) {k : ℕ} (hk : k < l.length) : mem k = l[k] := by
  have hget : ((List.range l.length).map mem)[k]? = l[k]? := by rw [h]
  rw [List.getElem?_map, List.getElem?_range hk, List.getElem?_eq_getElem hk] at hget
  exact Option.some.inj hget

/-! ## Phases -/

namespace UlViterbiR14

variable {w maxStages : ℕ} {d : UlViterbiR14} {i : UlViterbiIn w}
  {softs : List (Fin 4 → BitVec w)}

/-- Between blocks. -/
structure AtRest (d : UlViterbiR14) : Prop where
  state : d.state = .idle
  cnt : d.stageCnt = 0
  pm : d.pm = pmInit

/-- The symbols that have come in. -/
structure Loading (softs : List (Fin 4 → BitVec w)) (d : UlViterbiR14) : Prop where
  state : d.state = if softs = [] then .idle else .acs
  cnt : d.stageCnt.toNat = softs.length
  pm : d.pm = softs.foldl pmNew pmInit
  surv : (List.range softs.length).map d.surv = decisions pmInit softs

/-- All of them have. -/
structure Loaded (ds : List (State → Bool)) (d : UlViterbiR14) : Prop where
  state : d.state = .tbInit
  surv : (List.range ds.length).map d.surv = ds

/-- There are `m` stages to go back. -/
structure Tracing (ds : List (State → Bool)) (m : ℕ) (d : UlViterbiR14) : Prop where
  le : m ≤ ds.length
  state : d.state = if m = 0 then .output else .traceback
  cnt : d.stageCnt.toNat = if m = 0 then 0 else ds.length - m
  surv : (List.range ds.length).map d.surv = ds
  tbState : d.tbState = (r14.traceback 0 (ds.drop m)).1
  outBuf : (List.range' m (ds.length - m)).map d.outBuf = (r14.traceback 0 (ds.drop m)).2

/-- The bits `xs` are still to be sent. -/
structure Sending (bits xs : List Bool) (d : UlViterbiR14) : Prop where
  state : d.state = if xs = [] then .idle else .output
  cnt : d.stageCnt.toNat = if xs = [] then 0 else bits.length - xs.length
  outBuf : (List.range bits.length).map d.outBuf = bits
  isSuffix : xs <:+ bits

theorem AtRest.loading (h : d.AtRest) : d.Loading ([] : List (Fin 4 → BitVec w)) where
  state := h.state
  cnt := by rw [h.cnt]; rfl
  pm := h.pm
  surv := rfl

theorem Loading.front (h : d.Loading softs) : d.state = .idle ∨ d.state = .acs := by
  rw [h.state]
  split
  · exact Or.inl rfl
  · exact Or.inr rfl

theorem Loading.state_ne (h : d.Loading softs) : d.state ≠ .output := by
  rw [h.state]
  split <;> exact UlViterbiState.noConfusion

/-- A cycle without a symbol. -/
theorem step_of_quiet (h : d.state = .idle ∨ d.state = .acs) (hv : i.inputValid = false) :
    d.step maxStages i = { d with decodedValid := false, blockDone := false } := by
  obtain hs | hs := h <;> simp [step, hs, hv, acsDone, outDone, taking]

/-- A cycle with one. -/
theorem step_of_taking (h : d.state = .idle ∨ d.state = .acs) (hv : i.inputValid = true)
    (hzero : d.state = .idle → d.stageCnt = 0) :
    d.step maxStages i = { d with
      state := if d.acsDone i then .tbInit else .acs
      stageCnt := if d.acsDone i then 0 else d.stageCnt + 1
      pm := pmNew d.pm i.soft
      surv := store maxStages d.surv d.stageCnt.toNat (survW d.pm i.soft)
      decodedValid := false
      blockDone := false } := by
  obtain hs | hs := h
  · simp [step, hs, hv, acsDone, outDone, taking, hzero hs]
  · simp [step, hs, hv, acsDone, outDone, taking]

theorem sent_of_front (h : d.state ≠ .output) : (d.step maxStages i).sent = none := by
  cases hs : d.state with
  | output => exact absurd hs h
  | _ => simp [sent, step, hs]

theorem Loading.step_quiet (h : d.Loading softs) (hv : i.inputValid = false) :
    (d.step maxStages i).Loading softs := by
  rw [step_of_quiet h.front hv]
  exact ⟨h.state, h.cnt, h.pm, h.surv⟩

theorem Loading.acsDone_eq (h : d.Loading softs) (hv : i.inputValid = true)
    (hlen : softs.length < i.numStages.toNat) :
    d.acsDone i = decide (softs ≠ [] ∧ softs.length + 1 = i.numStages.toNat) := by
  rw [acsDone, beq_last h.cnt hlen, hv, h.state, Bool.and_true, Bool.decide_and]
  split <;> simp [*]

theorem Loading.surv_step (h : d.Loading softs) (hlen : softs.length < maxStages) :
    (List.range (softs ++ [i.soft]).length).map
      (store maxStages d.surv d.stageCnt.toNat (survW d.pm i.soft)) =
        decisions pmInit (softs ++ [i.soft]) := by
  rw [List.length_append, List.length_singleton, h.cnt, map_range_store hlen, h.surv,
    decisions_concat, h.pm]

theorem Loading.step_eq (h : d.Loading softs) (hv : i.inputValid = true) :
    d.step maxStages i = { d with
      state := if d.acsDone i then .tbInit else .acs
      stageCnt := if d.acsDone i then 0 else d.stageCnt + 1
      pm := pmNew d.pm i.soft
      surv := store maxStages d.surv d.stageCnt.toNat (survW d.pm i.soft)
      decodedValid := false
      blockDone := false } := by
  refine step_of_taking h.front hv fun hs ↦ ?_
  have hnil : softs = [] := by
    by_contra hne
    rw [h.state, if_neg hne] at hs
    exact UlViterbiState.noConfusion hs
  have hcnt := h.cnt
  rw [hnil] at hcnt
  exact BitVec.eq_of_toNat_eq hcnt

/-- **A symbol comes in**, -/
theorem Loading.step_symbol (h : d.Loading softs) (hv : i.inputValid = true)
    (hn : softs.length + 1 < i.numStages.toNat) (hmax : i.numStages.toNat ≤ maxStages) :
    (d.step maxStages i).Loading (softs ++ [i.soft]) := by
  have hdone : d.acsDone i = false := by
    rw [h.acsDone_eq hv (by omega)]
    exact decide_eq_false fun hd ↦ hn.ne hd.2
  have hlt := i.numStages.isLt
  rw [h.step_eq hv, hdone]
  refine ⟨?_, ?_, ?_, h.surv_step (by omega)⟩
  · rw [if_neg (List.append_ne_nil_of_right_ne_nil _ (List.cons_ne_nil _ _))]
    rfl
  · rw [List.length_append]
    exact toNat_succ h.cnt (by omega)
  · rw [List.foldl_append, ← h.pm]
    rfl

/-- **and the last one.** -/
theorem Loading.step_last (h : d.Loading softs) (hv : i.inputValid = true) (hne : softs ≠ [])
    (hn : softs.length + 1 = i.numStages.toNat) (hmax : i.numStages.toNat ≤ maxStages) :
    (d.step maxStages i).Loaded (decisions pmInit (softs ++ [i.soft])) := by
  have hdone : d.acsDone i = true := by
    rw [h.acsDone_eq hv (by omega)]
    exact decide_eq_true ⟨hne, hn⟩
  rw [h.step_eq hv, hdone]
  refine ⟨rfl, ?_⟩
  rw [length_decisions]
  exact h.surv_step (by omega)

variable {ds : List (State → Bool)}

/-- **The machine turns round.** -/
theorem Loaded.step (h : d.Loaded ds) (hds : ds ≠ []) :
    (d.step maxStages i).Tracing ds ds.length := by
  have hlen : ds.length ≠ 0 := fun h0 ↦ hds (List.eq_nil_of_length_eq_zero h0)
  rw [UlViterbiR14.step, taking, h.state]
  refine ⟨le_rfl, ?_, ?_, h.surv, ?_, ?_⟩
  · rw [if_neg hlen]
  · rw [if_neg hlen, Nat.sub_self]
    rfl
  · rw [List.drop_length]
    rfl
  · rw [List.drop_length, Nat.sub_self]
    rfl

/-- **One stage back.** -/
theorem Tracing.step {m : ℕ} (h : d.Tracing ds (m + 1)) (hn : i.numStages.toNat = ds.length)
    (hmax : ds.length ≤ maxStages) : (d.step maxStages i).Tracing ds m := by
  have hm := h.le
  have hstate := h.state
  have hcnt := h.cnt
  rw [if_neg (Nat.succ_ne_zero m)] at hstate hcnt
  have hlt := i.numStages.isLt
  have hdone : d.tbDone i = decide (m = 0) := by
    rw [tbDone, hstate, beq_last hcnt (by omega)]
    exact decide_eq_decide.2 (by omega)
  have hstage : (d.tbStage i).toNat = m := by
    rw [tbStage, BitVec.toNat_sub, BitVec.toNat_sub, hcnt]
    change (2 ^ 9 - (ds.length - (m + 1)) + (2 ^ 9 - 1 + i.numStages.toNat) % 2 ^ 9) % 2 ^ 9 = m
    omega
  have hdrop : ds.drop m = d.surv m :: ds.drop (m + 1) := by
    rw [eq_getElem_of_map_range h.surv (Nat.lt_of_succ_le hm)]
    exact List.drop_eq_getElem_cons _
  rw [UlViterbiR14.step, taking, outDone, hstate, tbSurvBit, hstage, hdone]
  refine ⟨Nat.le_of_succ_le hm, ?_, ?_, h.surv, ?_, ?_⟩
  · by_cases h0 : m = 0
    · rw [decide_eq_true h0, if_pos h0]
      rfl
    · rw [decide_eq_false h0, if_neg h0]
      rfl
  · by_cases h0 : m = 0
    · rw [decide_eq_true h0, if_pos h0]
      rfl
    · rw [decide_eq_false h0, if_neg h0]
      exact (toNat_succ hcnt (by omega)).trans (by omega)
  · rw [hdrop, ShiftRegister.traceback_cons, ← h.tbState]
  · rw [hdrop, ShiftRegister.traceback_cons, ← h.tbState, ← h.outBuf, if_pos rfl,
      show ds.length - m = ds.length - (m + 1) + 1 by omega,
      map_range'_store (Nat.lt_of_lt_of_le hm hmax)]

/-- All stages are done. -/
theorem Tracing.sending (h : d.Tracing ds 0) (hlong : 4 < ds.length) :
    d.Sending ((r14.traceback 0 ds).2.take (ds.length - 4))
      ((r14.traceback 0 ds).2.take (ds.length - 4)) := by
  have hbuf := h.outBuf
  rw [List.drop_zero, Nat.sub_zero, ← List.range_eq_range'] at hbuf
  have hlen : ((r14.traceback 0 ds).2.take (ds.length - 4)).length = ds.length - 4 := by
    rw [← hbuf, List.length_take, List.length_map, List.length_range]
    omega
  have hne : (r14.traceback 0 ds).2.take (ds.length - 4) ≠ [] := by
    intro hnil
    rw [hnil, List.length_nil] at hlen
    omega
  refine ⟨?_, ?_, ?_, List.suffix_rfl⟩
  · rw [if_neg hne]
    exact h.state
  · rw [if_neg hne, Nat.sub_self]
    exact h.cnt
  · rw [hlen, ← hbuf, ← List.map_take, List.take_range]
    congr 2
    omega

/-- What has been sent. -/
theorem Sending.exists_append {bits xs : List Bool} {x : Bool} (h : d.Sending bits (x :: xs)) :
    ∃ ys, ys ++ x :: xs = bits ∧ d.stageCnt.toNat = ys.length ∧
      bits.length = ys.length + (xs.length + 1) := by
  obtain ⟨ys, hys⟩ := h.isSuffix
  have hlen : bits.length = ys.length + (xs.length + 1) := by
    rw [← hys, List.length_append, List.length_cons]
  have hcnt := h.cnt
  rw [if_neg (List.cons_ne_nil x xs), hlen, List.length_cons] at hcnt
  exact ⟨ys, hys, by omega, hlen⟩

/-- `block_done` comes with the last bit. -/
theorem Sending.outDone_eq {bits xs : List Bool} {x : Bool} (h : d.Sending bits (x :: xs))
    (hn : i.numStages.toNat = bits.length + 4) : d.outDone i = decide (xs = []) := by
  obtain ⟨ys, -, hcnt, hlen⟩ := h.exists_append
  have hstate := h.state
  rw [if_neg (List.cons_ne_nil x xs)] at hstate
  rw [outDone, hstate, beq_sent hcnt (by omega)]
  refine decide_eq_decide.2 (Iff.trans ?_ List.length_eq_zero_iff)
  omega

/-- **One bit out.** -/
theorem Sending.step {bits xs : List Bool} {x : Bool} (h : d.Sending bits (x :: xs))
    (hn : i.numStages.toNat = bits.length + 4) :
    (d.step maxStages i).Sending bits xs ∧ (d.step maxStages i).sent = some x ∧
      (xs = [] → (d.step maxStages i).pm = pmInit) := by
  obtain ⟨ys, hys, hcnt, hlen⟩ := h.exists_append
  have hdone := h.outDone_eq hn
  have hstate := h.state
  rw [if_neg (List.cons_ne_nil x xs)] at hstate
  have hlt := i.numStages.isLt
  have hbit : d.outBuf ys.length = x := by
    rw [eq_getElem_of_map_range h.outBuf (by omega)]
    simp [← hys]
  rw [sent, UlViterbiR14.step, taking, hstate, hdone, hcnt, hbit]
  refine ⟨⟨?_, ?_, h.outBuf, ⟨ys ++ [x], by rw [List.append_assoc]; exact hys⟩⟩, rfl, ?_⟩
  · by_cases h0 : xs = []
    · rw [decide_eq_true h0, if_pos h0]
      rfl
    · rw [decide_eq_false h0, if_neg h0]
      rfl
  · by_cases h0 : xs = []
    · rw [decide_eq_true h0, if_pos h0]
      rfl
    · rw [decide_eq_false h0, if_neg h0]
      exact (toNat_succ hcnt (by omega)).trans (by omega)
  · intro h0
    rw [decide_eq_true h0]
    rfl

end UlViterbiR14

end TetraPhy.Rx
