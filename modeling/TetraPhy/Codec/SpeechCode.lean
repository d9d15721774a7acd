import Mathlib.Algebra.Order.Group.Int
import Mathlib.Algebra.Order.Group.Unbundled.Abs
import Mathlib.Data.List.GetD
import Mathlib.Tactic.Linarith
import Mathlib.Tactic.Ring
import TetraPhy.Lib.BestPath

/-!
# The mother code of the speech channel

The rate-1/3 convolutional encoder of `tetra_bs_tch_s.c` and its Viterbi decoder.  The encoder
keeps the last four bits; the decoder numbers its 16 states by them, the newest bit highest, and
adds up 16-bit metrics without a cap.

A branch is charged what is received, with the sign that lets a value that speaks for its bits
lower the metric.  The branch the encoder took is thus a cheapest one, and the other branch into
the same state, whose three bits are all different, is dearer as soon as one value is not 0:
the encoder's path leads, and `viterbiDecode_transmitted` says that it is decoded.  The integers
stand for the 16-bit metrics as long as no sum runs over (`Fits`, `sweep_eq`), which small values
do not do in a bounded number of stages.
-/

namespace TetraPhy.Speech

open Survivor

/-! ## The encoder -/

/-- `speech_conv_state_t`: the delay line, `d0` the most recent bit. -/
structure ConvState where
  d0 : Bool := false
  d1 : Bool := false
  d2 : Bool := false
  d3 : Bool := false

/-- The three mother bits of `speech_conv_encode_bit`. -/
def ConvState.out (st : ConvState) (bit : Bool) : List Bool :=
  [bit ^^ st.d0 ^^ st.d1 ^^ st.d2 ^^ st.d3, bit ^^ st.d0 ^^ st.d2 ^^ st.d3, bit ^^ st.d1 ^^ st.d3]

/-- The delay line after it. -/
def ConvState.shift (st : ConvState) (bit : Bool) : ConvState := ⟨bit, st.d0, st.d1, st.d2⟩

/-- `speech_conv_encode`: the mother bits, and the state for the next call. -/
def speechConvEncode (st : ConvState) : List Bool → List Bool × ConvState
  | [] => ([], st)
  | bit :: input =>
    let (output, st') := speechConvEncode (st.shift bit) input
    (st.out bit ++ output, st')

theorem speechConvEncode_cons (st : ConvState) (bit : Bool) (input : List Bool) :
    speechConvEncode st (bit :: input) = (st.out bit ++ (speechConvEncode (st.shift bit) input).1,
      (speechConvEncode (st.shift bit) input).2) := rfl

@[simp] theorem length_speechConvEncode (st : ConvState) (input : List Bool) :
    (speechConvEncode st input).1.length = 3 * input.length := by
  induction input generalizing st with
  | nil => rfl
  | cons bit input ih =>
      rw [speechConvEncode_cons, List.length_append, ih, List.length_cons, ConvState.out,
        List.length_cons, List.length_cons, List.length_cons, List.length_nil]
      omega

/-- **The state continues across calls.** -/
theorem speechConvEncode_append (st : ConvState) (input input' : List Bool) :
    (speechConvEncode st (input ++ input')).1 = (speechConvEncode st input).1 ++
      (speechConvEncode (speechConvEncode st input).2 input').1 := by
  induction input generalizing st with
  | nil => rfl
  | cons bit input ih =>
      rw [List.cons_append, speechConvEncode_cons, speechConvEncode_cons, ih, List.append_assoc]

/-! ## The decoder -/

/-- The states of the decoder. -/
abbrev State := Fin 16

theorem neZeroState : NeZero 16 := ⟨by decide⟩

attribute [local instance] neZeroState

/-- `pred_0` and `pred_1`. -/
def pred (state : State) (b : Bool) : State :=
  ⟨state.val * 2 % 16 + b.toNat, by have := Bool.toNat_le b; omega⟩

/-- The bit a state was entered by: `(state >> (K_LEN - 2)) & 1`. -/
def newest (state : State) : Bool := (state.val >>> 3) &&& 1 == 1

/-- `s_speech_polys`. -/
def speechPolys (n : Fin 3) : List Bool :=
  match n with
  | 0 => [true, true, true, true, true]
  | 1 => [true, true, false, true, true]
  | 2 => [true, false, true, false, true]

/-- `s_expected_0`, as `viterbi_init` computes it. -/
def expected0 (n : Fin 3) (state : State) : Int8 :=
  let out := (List.range 4).foldl (fun out bi ↦
    let pastBit := state.val &&& (1 <<< (3 - bi)) != 0
    if pastBit && (speechPolys n).getD bi false then !out else out) false
  if out then 1 else -1

/-- The values received in a stage. -/
abbrev Recv := Fin 3 → Int8

/-- `branch_metric_0`. -/
def branchMetric0 (recv : Recv) (state : State) : Int16 :=
  (List.finRange 3).foldl (fun metric n ↦
    metric - (recv n).toInt16 * (expected0 n state).toInt16) 0

section Stage

variable (metrics : Vector Int16 16) (recv : Recv) (state : State)

/-- `m0`. -/
def m0 : Int16 := metrics.get (pred state false) + branchMetric0 recv state

/-- `m1`: for the other predecessor the expected bits are inverse. -/
def m1 : Int16 := metrics.get (pred state true) - branchMetric0 recv state

/-- `decisions`, bit by bit. -/
def decisions : Vector Bool 16 :=
  Vector.ofFn fun state ↦ decide (m1 metrics recv state < m0 metrics recv state)

/-- `metrics_new`. -/
def metricsNew : Vector Int16 16 :=
  Vector.ofFn fun state ↦ if m1 metrics recv state < m0 metrics recv state then
    m1 metrics recv state else m0 metrics recv state

end Stage

/-- The metrics at the start: `INT16_MAX / 2` for all states but 0. -/
def initialMetrics : Vector Int16 16 := Vector.ofFn fun s ↦ if s = 0 then 0 else 16383

/-- The loop over the stages: the `trellis` array. -/
def sweep (metrics : Vector Int16 16) : List Recv → List (Vector Bool 16)
  | [] => []
  | recv :: recvs => decisions metrics recv :: sweep (metricsNew metrics recv) recvs

/-- The values of stage `step`. -/
def recvAt (motherBits : List Int8) (step : ℕ) : Recv := fun n ↦ motherBits.getD (step * 3 + n) 0

/-- One step back: the output bit is read off the state. -/
def traceStep (decisions : Vector Bool 16) : State × List Bool → State × List Bool
  | (state, outputBits) => (pred state (decisions.get state), newest state :: outputBits)

/-- `viterbi_decode`. -/
def viterbiDecode (motherBits : List Int8) (numOutputBits : ℕ) : List Bool :=
  let trellis := sweep initialMetrics ((List.range numOutputBits).map (recvAt motherBits))
  (trellis.foldr traceStep (0, [])).2

/-! ## The register -/

/-- The state after a bit. -/
def next (s : State) (x : Bool) : State :=
  ⟨s.val / 2 + 8 * x.toNat, by have := Bool.toNat_le x; omega⟩

/-- The encoder's register. -/
def register : ShiftRegister State Bool where
  next := next
  newest := newest
  oldest s := s.val % 2 == 1
  pred := pred
  newest_next := by decide
  pred_next := by decide

/-- The state of a delay line. -/
def ConvState.state (st : ConvState) : State :=
  ⟨8 * st.d0.toNat + 4 * st.d1.toNat + 2 * st.d2.toNat + st.d3.toNat, by
    have := Bool.toNat_le st.d0
    have := Bool.toNat_le st.d1
    have := Bool.toNat_le st.d2
    have := Bool.toNat_le st.d3
    omega⟩

theorem ConvState.state_shift (st : ConvState) (x : Bool) : (st.shift x).state = next st.state x := by
  obtain ⟨d0, d1, d2, d3⟩ := st
  revert d0 d1 d2 d3 x
  decide

/-- The sign of mother bit `n` on the branch into a state from a predecessor. -/
def sign (n : Fin 3) (state : State) (b : Bool) : ℤ :=
  if b then -(expected0 n state).toInt else (expected0 n state).toInt

/-- **The decoder's table is the encoder's code.** -/
theorem ConvState.sign_eq (st : ConvState) (x : Bool) (n : Fin 3) :
    sign n (next st.state x) (st.state.val % 2 == 1) =
      if (st.out x).getD n false then 1 else -1 := by
  obtain ⟨d0, d1, d2, d3⟩ := st
  revert d0 d1 d2 d3 x n
  decide

theorem sign_not (n : Fin 3) (state : State) (b : Bool) : sign n state (!b) = -sign n state b := by
  cases b <;> simp [sign]

theorem sign_cases (n : Fin 3) (state : State) (b : Bool) :
    sign n state b = 1 ∨ sign n state b = -1 := by
  revert n state b
  decide

/-! ## Costs -/

/-- What a branch is charged. -/
def cost (recv : Recv) (state : State) (b : Bool) : ℤ :=
  -((recv 0).toInt * sign 0 state b + (recv 1).toInt * sign 1 state b +
    (recv 2).toInt * sign 2 state b)

theorem cost_not (recv : Recv) (state : State) (b : Bool) :
    cost recv state (!b) = -cost recv state b := by
  simp only [cost, sign_not]
  ring

/-- The values of a stage are 4-bit values, as they are after descrambling. -/
def Small (recv : Recv) : Prop := ∀ n, |(recv n).toInt| ≤ 8

/-- The weight of a stage. -/
def weight (recv : Recv) : ℤ := |(recv 0).toInt| + |(recv 1).toInt| + |(recv 2).toInt|

theorem mul_sign_le (r : ℤ) (n : Fin 3) (state : State) (b : Bool) :
    r * sign n state b ≤ |r| ∧ -|r| ≤ r * sign n state b := by
  have := le_abs_self r
  have := neg_abs_le r
  rcases sign_cases n state b with h | h <;> rw [h] <;> constructor <;> linarith

/-- No branch is charged less than minus the weight of the stage, or more than the weight. -/
theorem neg_weight_le_cost (recv : Recv) (state : State) (b : Bool) :
    -weight recv ≤ cost recv state b ∧ cost recv state b ≤ weight recv := by
  have h0 := mul_sign_le (recv 0).toInt 0 state b
  have h1 := mul_sign_le (recv 1).toInt 1 state b
  have h2 := mul_sign_le (recv 2).toInt 2 state b
  rw [weight, cost]
  constructor <;> linarith [h0.1, h0.2, h1.1, h1.2, h2.1, h2.2]

/-- A received value speaks for a bit, or for none. -/
def Agrees (e : Bool) (r : Int8) : Prop := |r.toInt| ≤ 8 ∧ if e then 0 ≤ r.toInt else r.toInt ≤ 0

theorem Agrees.mul_sign {e : Bool} {r : Int8} (h : Agrees e r) :
    r.toInt * (if e then 1 else -1) = |r.toInt| := by
  cases e with
  | false =>
      have hr : r.toInt ≤ 0 := h.2
      rw [abs_of_nonpos hr]
      simp
  | true =>
      have hr : 0 ≤ r.toInt := h.2
      rw [abs_of_nonneg hr]
      simp

/-- **The encoder's branch** is charged minus the weight of the stage. -/
theorem cost_transmitted (st : ConvState) (x : Bool) {recv : Recv}
    (h : ∀ n : Fin 3, Agrees ((st.out x).getD n false) (recv n)) :
    cost recv (next st.state x) (st.state.val % 2 == 1) = -weight recv := by
  rw [cost, weight]
  simp only [st.sign_eq]
  rw [(h 0).mul_sign, (h 1).mul_sign, (h 2).mul_sign]

/-! ## The integers stand for the metrics -/

theorem toInt_add_of_lt {a b : Int16} (hlo : -32768 ≤ a.toInt + b.toInt)
    (hhi : a.toInt + b.toInt < 32768) : (a + b).toInt = a.toInt + b.toInt := by
  rw [Int16.toInt_add]
  exact Int.bmod_eq_of_le hlo hhi

theorem toInt_sub_of_lt {a b : Int16} (hlo : -32768 ≤ a.toInt - b.toInt)
    (hhi : a.toInt - b.toInt < 32768) : (a - b).toInt = a.toInt - b.toInt := by
  rw [Int16.toInt_sub]
  exact Int.bmod_eq_of_le hlo hhi

theorem toInt_mul_of_lt {a b : Int16} (hlo : -32768 ≤ a.toInt * b.toInt)
    (hhi : a.toInt * b.toInt < 32768) : (a * b).toInt = a.toInt * b.toInt := by
  rw [Int16.toInt_mul]
  exact Int.bmod_eq_of_le hlo hhi

theorem abs_toInt_le (r : Int8) : |r.toInt| ≤ 128 := by
  have hlo := r.le_toInt
  have hhi := r.toInt_lt
  exact abs_le.2 ⟨by omega, by omega⟩

theorem toInt_mul_expected0 (r : Int8) (n : Fin 3) (state : State) :
    (r.toInt16 * (expected0 n state).toInt16).toInt = r.toInt * sign n state false := by
  have h := mul_sign_le r.toInt n state false
  have hr := abs_toInt_le r
  have hsign : r.toInt16.toInt * (expected0 n state).toInt16.toInt =
      r.toInt * sign n state false := by
    rw [Int8.toInt_toInt16, Int8.toInt_toInt16]
    rfl
  rw [toInt_mul_of_lt (by rw [hsign]; linarith [h.2]) (by rw [hsign]; linarith [h.1]), hsign]

/-- `branch_metric_0` is what the branch from the first predecessor is charged. -/
theorem toInt_branchMetric0 (recv : Recv) (state : State) :
    (branchMetric0 recv state).toInt = cost recv state false := by
  have h0 := mul_sign_le (recv 0).toInt 0 state false
  have h1 := mul_sign_le (recv 1).toInt 1 state false
  have h2 := mul_sign_le (recv 2).toInt 2 state false
  have e0 := toInt_mul_expected0 (recv 0) 0 state
  have e1 := toInt_mul_expected0 (recv 1) 1 state
  have e2 := toInt_mul_expected0 (recv 2) 2 state
  have b0 := abs_toInt_le (recv 0)
  have b1 := abs_toInt_le (recv 1)
  have b2 := abs_toInt_le (recv 2)
  have s0 : ((0 : Int16) - (recv 0).toInt16 * (expected0 0 state).toInt16).toInt =
      -((recv 0).toInt * sign 0 state false) := by
    rw [toInt_sub_of_lt (by rw [e0, Int16.toInt_zero]; linarith)
      (by rw [e0, Int16.toInt_zero]; linarith), e0, Int16.toInt_zero, zero_sub]
  have s1 : ((0 : Int16) - (recv 0).toInt16 * (expected0 0 state).toInt16 -
      (recv 1).toInt16 * (expected0 1 state).toInt16).toInt =
      -((recv 0).toInt * sign 0 state false) - (recv 1).toInt * sign 1 state false := by
    rw [toInt_sub_of_lt (by rw [s0, e1]; linarith) (by rw [s0, e1]; linarith), s0, e1]
  change ((0 : Int16) - (recv 0).toInt16 * (expected0 0 state).toInt16 -
    (recv 1).toInt16 * (expected0 1 state).toInt16 -
    (recv 2).toInt16 * (expected0 2 state).toInt16).toInt = _
  rw [toInt_sub_of_lt (by rw [s1, e2]; linarith) (by rw [s1, e2]; linarith), s1, e2, cost]
  ring

theorem weight_le {recv : Recv} (h : Small recv) : weight recv ≤ 24 := by
  have h0 := h 0
  have h1 := h 1
  have h2 := h 2
  rw [weight]
  linarith

theorem weight_le_max (recv : Recv) : weight recv ≤ 384 := by
  have h0 := abs_toInt_le (recv 0)
  have h1 := abs_toInt_le (recv 1)
  have h2 := abs_toInt_le (recv 2)
  rw [weight]
  linarith

/-- What a `metric_t` can hold. -/
def InRange (x : ℤ) : Prop := -32768 ≤ x ∧ x < 32768

instance (x : ℤ) : Decidable (InRange x) := inferInstanceAs (Decidable (_ ∧ _))

/-- No sum of a stage runs over. -/
def StageFits (metrics : Vector Int16 16) (recv : Recv) : Prop :=
  ∀ state, InRange ((metrics.get (pred state false)).toInt + (branchMetric0 recv state).toInt) ∧
    InRange ((metrics.get (pred state true)).toInt - (branchMetric0 recv state).toInt)

/-- No sum of the loop over the stages runs over. -/
def Fits (metrics : Vector Int16 16) : List Recv → Prop
  | [] => True
  | recv :: recvs => StageFits metrics recv ∧ Fits (metricsNew metrics recv) recvs

section Sums

variable {metrics : Vector Int16 16} {m : State → ℤ} {recv : Recv}

/-- The sums of a stage, as integers. -/
theorem stageFits_iff (hm : ∀ s, (metrics.get s).toInt = m s) : StageFits metrics recv ↔
    ∀ state b, InRange (m (pred state b) + cost recv state b) := by
  refine forall_congr' fun state ↦ ?_
  rw [Bool.forall_bool, hm, hm, toInt_branchMetric0, sub_eq_add_neg, ← cost_not]
  rfl

/-- What a stage adds up to. -/
theorem toInt_stage (h : StageFits metrics recv) (hm : ∀ s, (metrics.get s).toInt = m s)
    (state : State) :
    (m0 metrics recv state).toInt = m (pred state false) + cost recv state false ∧
      (m1 metrics recv state).toInt = m (pred state true) + cost recv state true := by
  obtain ⟨⟨hlo0, hhi0⟩, hlo1, hhi1⟩ := h state
  have hnot : cost recv state true = -cost recv state false := cost_not recv state false
  constructor
  · rw [m0, toInt_add_of_lt hlo0 hhi0, hm, toInt_branchMetric0]
  · rw [m1, toInt_sub_of_lt hlo1 hhi1, hm, toInt_branchMetric0, hnot, sub_eq_add_neg]

theorem get_ofFn {α : Type} (f : State → α) (state : State) :
    (Vector.ofFn f).get state = f state := by
  change (Vector.ofFn f)[state] = f state
  exact Vector.getElem_ofFn state.isLt

theorem get_decisions (h : StageFits metrics recv) (hm : ∀ s, (metrics.get s).toInt = m s)
    (state : State) :
    (decisions metrics recv).get state = register.select (cost recv) m state := by
  obtain ⟨h0, h1⟩ := toInt_stage h hm state
  rw [decisions, get_ofFn, ShiftRegister.select]
  exact decide_eq_decide.2 (by rw [Int16.lt_iff_toInt_lt, h0, h1]; rfl)

theorem get_metricsNew (h : StageFits metrics recv) (hm : ∀ s, (metrics.get s).toInt = m s)
    (state : State) :
    ((metricsNew metrics recv).get state).toInt = register.metric (cost recv) m state := by
  obtain ⟨h0, h1⟩ := toInt_stage h hm state
  have hdec := get_decisions h hm state
  rw [decisions, get_ofFn] at hdec
  rw [metricsNew, get_ofFn, ShiftRegister.metric, ← hdec]
  by_cases hlt : m1 metrics recv state < m0 metrics recv state
  · rw [if_pos hlt, decide_eq_true hlt, h1]
    rfl
  · rw [if_neg hlt, decide_eq_false hlt, h0]
    rfl

/-- **If no sum runs over**, the survivors are those of the integers. -/
theorem sweep_eq {recvs : List Recv} (h : Fits metrics recvs)
    (hm : ∀ s, (metrics.get s).toInt = m s) :
    (sweep metrics recvs).map Vector.get = register.survivors m (recvs.map cost) := by
  induction recvs generalizing metrics m with
  | nil => rfl
  | cons recv recvs ih =>
      obtain ⟨hstage, hrest⟩ := h
      rw [sweep, List.map_cons, List.map_cons, ShiftRegister.survivors,
        ih hrest (get_metricsNew hstage hm)]
      congr 1
      funext state
      exact get_decisions hstage hm state

end Sums

/-! ## Small values -/

/-- A stage adds at most its weight. -/
theorem abs_add_cost_le {m : State → ℤ} {recv : Recv} {B W : ℤ} (hB : ∀ s, |m s| ≤ B)
    (hW : weight recv ≤ W) (state : State) (b : Bool) :
    |m (pred state b) + cost recv state b| ≤ B + W := by
  have hb := abs_le.1 (hB (pred state b))
  have hc := neg_weight_le_cost recv state b
  exact abs_le.2 ⟨by linarith [hb.1, hc.1], by linarith [hb.2, hc.2]⟩

/-- **Small values do not run over** in a bounded number of stages. -/
theorem fits_of_small {metrics : Vector Int16 16} {m : State → ℤ} {recvs : List Recv} {B : ℤ}
    (hm : ∀ s, (metrics.get s).toInt = m s) (hB : ∀ s, |m s| ≤ B)
    (hs : ∀ recv ∈ recvs, Small recv) (hroom : B + 24 * recvs.length < 32768) :
    Fits metrics recvs := by
  induction recvs generalizing metrics m B with
  | nil => trivial
  | cons recv recvs ih =>
      rw [List.forall_mem_cons] at hs
      rw [List.length_cons, Nat.cast_succ] at hroom
      have hlen : (0 : ℤ) ≤ recvs.length := Int.natCast_nonneg _
      have hadd := abs_add_cost_le hB (weight_le hs.1)
      have hstage : StageFits metrics recv := (stageFits_iff hm).2 fun state b ↦ by
        have hsum := abs_le.1 (hadd state b)
        exact ⟨by linarith [hsum.1], by linarith [hsum.2]⟩
      have hnew : ∀ s, |register.metric (cost recv) m s| ≤ B + 24 := fun s ↦ hadd s _
      exact ⟨hstage, ih (get_metricsNew hstage hm) hnew hs.2 (by linarith)⟩

/-! ## The encoder's path leads -/

/-- What is received of a code word: every value speaks for its bit or is erased, and the first
of each three is not erased. -/
structure Heard (code : List Bool) (motherBits : List Int8) : Prop where
  agrees : ∀ p < code.length, Agrees (code.getD p false) (motherBits.getD p 0)
  first : ∀ step, step * 3 < code.length → (motherBits.getD (step * 3) 0).toInt ≠ 0

theorem recvAt_drop (motherBits : List Int8) (step : ℕ) :
    recvAt (motherBits.drop 3) step = recvAt motherBits (step + 1) := by
  funext n
  have hidx : 3 + (step * 3 + n) = (step + 1) * 3 + n := by ring
  rw [recvAt, recvAt, List.getD_eq_getElem?_getD, List.getElem?_drop, hidx,
    List.getD_eq_getElem?_getD]

/-- The first stage and the others. -/
theorem stages_succ (motherBits : List Int8) (n : ℕ) :
    (List.range (n + 1)).map (recvAt motherBits) =
      recvAt motherBits 0 :: (List.range n).map (recvAt (motherBits.drop 3)) := by
  rw [List.range_succ_eq_map, List.map_cons, List.map_map]
  exact congrArg _ (List.map_congr_left fun step _ ↦ (recvAt_drop motherBits step).symm)

/-- The first stage, and what is received of the others. -/
theorem Heard.cons {st : ConvState} {x : Bool} {xs : List Bool} {motherBits : List Int8}
    (h : Heard (speechConvEncode st (x :: xs)).1 motherBits) :
    (∀ n : Fin 3, Agrees ((st.out x).getD n false) (recvAt motherBits 0 n)) ∧
      (recvAt motherBits 0 0).toInt ≠ 0 ∧
      Heard (speechConvEncode (st.shift x) xs).1 (motherBits.drop 3) := by
  rw [speechConvEncode_cons] at h
  have hlen : (st.out x).length = 3 := rfl
  refine ⟨fun n ↦ ?_, ?_, fun p hp ↦ ?_, fun step hstep ↦ ?_⟩
  · have hn := h.agrees n (by rw [List.length_append]; omega)
    rw [List.getD_append _ _ _ _ (by omega)] at hn
    rw [recvAt, Nat.zero_mul, Nat.zero_add]
    exact hn
  · exact h.first 0 (by rw [List.length_append]; omega)
  · have hn := h.agrees (3 + p) (by rw [List.length_append]; omega)
    rw [List.getD_append_right _ _ _ _ (by omega), hlen, Nat.add_sub_cancel_left] at hn
    rw [List.getD_eq_getElem?_getD, List.getD_eq_getElem?_getD, List.getElem?_drop,
      ← List.getD_eq_getElem?_getD, ← List.getD_eq_getElem?_getD]
    exact hn
  · have hn := h.first (step + 1) (by rw [List.length_append]; omega)
    rw [Nat.add_mul, Nat.add_comm] at hn
    rw [List.getD_eq_getElem?_getD, List.getElem?_drop, ← List.getD_eq_getElem?_getD]
    exact hn

/-- **The encoder's path leads.** -/
theorem leads (st : ConvState) {xs : List Bool} {motherBits : List Int8}
    (h : Heard (speechConvEncode st xs).1 motherBits) :
    register.Leads st.state xs
      (((List.range xs.length).map (recvAt motherBits)).map cost) := by
  induction xs generalizing st motherBits with
  | nil => exact .nil _
  | cons x xs ih =>
      obtain ⟨hagrees, hfirst, hrest⟩ := h.cons
      have hcost := cost_transmitted st x hagrees
      have hpos : 0 < weight (recvAt motherBits 0) := by
        have h0 := abs_pos.2 hfirst
        have h1 := abs_nonneg (recvAt motherBits 0 1).toInt
        have h2 := abs_nonneg (recvAt motherBits 0 2).toInt
        rw [weight]
        linarith
      rw [List.length_cons, stages_succ, List.map_cons]
      refine .cons (fun t b ↦ ?_) ?_ ?_
      · refine hcost.le.trans ?_
        exact (neg_weight_le_cost _ t b).1
      · change cost _ (next st.state x) (st.state.val % 2 == 1) <
          cost _ (next st.state x) !(st.state.val % 2 == 1)
        rw [cost_not, hcost]
        linarith
      · change register.Leads (next st.state x) xs _
        rw [← st.state_shift]
        exact ih (st.shift x) hrest

/-- A run that ends in four zeros ends in state 0. -/
theorem endState_tail (s : State) (xs : List Bool) :
    register.endState s (xs ++ [false, false, false, false]) = 0 := by
  have hall : ∀ s : State, register.endState s [false, false, false, false] = 0 := by decide
  rw [ShiftRegister.endState, List.foldl_append]
  exact hall _

/-- The metrics at the start, as integers. -/
def startMetrics (s : State) : ℤ := if s = 0 then 0 else 16383

theorem abs_startMetrics_le (s : State) : |startMetrics s| ≤ 16383 := by
  revert s
  decide

theorem get_initialMetrics (s : State) : (initialMetrics.get s).toInt = startMetrics s := by
  rw [initialMetrics, get_ofFn, startMetrics]
  split <;> rfl

/-- **The decoder goes back along the survivors**, if the metrics do not run over. -/
theorem viterbiDecode_eq {motherBits : List Int8} {n : ℕ}
    (h : Fits initialMetrics ((List.range n).map (recvAt motherBits))) :
    viterbiDecode motherBits n = (register.traceback 0
      (register.survivors startMetrics (((List.range n).map (recvAt motherBits)).map cost))).2 := by
  rw [← sweep_eq h get_initialMetrics, ShiftRegister.traceback, List.foldr_map]
  rfl

/-- They do not run over on small values. -/
theorem fits_initialMetrics {recvs : List Recv} (hsmall : ∀ recv ∈ recvs, Small recv)
    (hroom : 16383 + 24 * recvs.length < 32768) : Fits initialMetrics recvs :=
  fits_of_small get_initialMetrics abs_startMetrics_le hsmall (by exact_mod_cast hroom)

/-- **What the encoder sent is decoded**, if its input ends in four zeros and the metrics cannot
run over. -/
theorem viterbiDecode_transmitted {xs : List Bool} {motherBits : List Int8}
    (h : Heard (speechConvEncode {} (xs ++ [false, false, false, false])).1 motherBits)
    (hlen : 16383 + 24 * (xs.length + 4) < 32768) :
    viterbiDecode motherBits (xs.length + 4) = xs ++ [false, false, false, false] := by
  have hn : (xs ++ [false, false, false, false]).length = xs.length + 4 := by simp
  have hsmall : ∀ recv ∈ (List.range (xs.length + 4)).map (recvAt motherBits), Small recv := by
    intro recv hrecv n
    obtain ⟨step, hstep, rfl⟩ := List.mem_map.1 hrecv
    refine (h.agrees (step * 3 + n) ?_).1
    have := List.mem_range.1 hstep
    rw [length_speechConvEncode, hn]
    omega
  have hleads := leads {} h
  rw [hn] at hleads
  have htrace := ShiftRegister.traceback_survivors hleads (m := startMetrics) (by decide)
  rw [endState_tail] at htrace
  have hfits := fits_initialMetrics hsmall
    (by rw [List.length_map, List.length_range]; exact hlen)
  rw [viterbiDecode_eq hfits, htrace]

end TetraPhy.Speech
