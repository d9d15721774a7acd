import TetraPhy.Lib.BestPath
import TetraPhy.Codec.SpeechCode

/-!
# The best word of the mother code

What `viterbi_decode` of `tetra_bs_tch_s.c` finds, whatever it is given: of the words that end in
four zeros the one whose code word correlates best with the received values, and of equally good
ones the one that comes first, read from the last bit back (`viterbiDecode_eq_iff`).  The metrics
must not run over for that; with unbounded metrics there is no condition at all
(`unboundedDecode_eq_iff`), since where a path starts is forgotten after four stages.
-/

namespace TetraPhy.Speech

open Survivor

attribute [local instance] neZeroState

/-! ## The register -/

theorem covers_register : register.Covers where
  next_pred := by decide
  oldest_pred := by decide

/-- The last four bits, the oldest first. -/
def held (s : State) : List Bool :=
  [s.val.testBit 0, s.val.testBit 1, s.val.testBit 2, s.val.testBit 3]

theorem delays_register : register.Delays held where
  shifts := by decide

/-- A word of `n` bits that ends in four zeros. -/
def Terminated (n : ℕ) (xs : List Bool) : Prop :=
  xs.length = n ∧ ∃ ys, xs = ys ++ [false, false, false, false]

/-- It leads from state 0 back to it. -/
theorem terminated_iff {n : ℕ} (hn : 4 ≤ n) {xs : List Bool} :
    Terminated n xs ↔ register.Reaches n 0 (0, xs) := by
  constructor
  · rintro ⟨hlen, ys, rfl⟩
    exact ⟨hlen, endState_tail 0 ys⟩
  · rintro ⟨hlen, hend⟩
    change xs.length = n at hlen
    change register.endState 0 xs = 0 at hend
    have hlong : (held 0).length ≤ xs.length := hlen ▸ hn
    obtain ⟨ys, hys⟩ := delays_register.exists_append hlong
    rw [hend] at hys
    exact ⟨hlen, ys, hys⟩

/-! ## The correlation -/

/-- The correlation of the received values with a code word. -/
def correlation (motherBits : List Int8) (code : List Bool) : ℤ :=
  (List.zipWith (fun e (s : Int8) ↦ if e then s.toInt else -s.toInt) code motherBits).sum

/-- **A path costs what its code word fails to correlate.** -/
theorem pathCost_eq (st : ConvState) {xs : List Bool} {motherBits : List Int8}
    (h : motherBits.length = 3 * xs.length) :
    register.pathCost st.state xs (((List.range xs.length).map (recvAt motherBits)).map cost) =
      -correlation motherBits (speechConvEncode st xs).1 := by
  induction xs generalizing st motherBits with
  | nil =>
      rw [List.eq_nil_of_length_eq_zero h]
      rfl
  | cons x xs ih =>
      obtain ⟨a, motherBits, rfl⟩ := List.exists_cons_of_length_eq_add_one (n := 3 * xs.length + 2)
        (l := motherBits) (by rw [h, List.length_cons]; ring)
      obtain ⟨b, motherBits, rfl⟩ := List.exists_cons_of_length_eq_add_one (n := 3 * xs.length + 1)
        (l := motherBits) (by rw [List.length_cons, List.length_cons] at h; omega)
      obtain ⟨c, motherBits, rfl⟩ := List.exists_cons_of_length_eq_add_one (n := 3 * xs.length)
        (l := motherBits) (by simp only [List.length_cons] at h; omega)
      have hlen : motherBits.length = 3 * xs.length := by simp only [List.length_cons] at h; omega
      rw [List.length_cons, stages_succ, List.map_cons, ShiftRegister.pathCost, speechConvEncode_cons]
      have hrest : register.pathCost (register.next st.state x) xs
          (((List.range xs.length).map (recvAt ((a :: b :: c :: motherBits).drop 3))).map cost) =
            -correlation motherBits (speechConvEncode (st.shift x) xs).1 := by
        have hnext : register.next st.state x = (st.shift x).state := (st.state_shift x).symm
        rw [hnext]
        exact ih (st.shift x) hlen
      have hstage : cost (recvAt (a :: b :: c :: motherBits) 0) (register.next st.state x)
          (register.oldest st.state) = -correlation [a, b, c] (st.out x) := by
        change cost _ (next st.state x) (st.state.val % 2 == 1) = _
        rw [cost, st.sign_eq, st.sign_eq, st.sign_eq]
        simp [correlation, ConvState.out, recvAt, mul_ite, add_assoc]
      rw [hrest, hstage, ← neg_add]
      congr 1
      simp [correlation, ConvState.out, add_assoc]

/-! ## The decoder -/

/-- The word whose code word correlates best; of equally good ones the one that comes first, read
from the last bit back. -/
def BestWord (motherBits : List Int8) (n : ℕ) (xs : List Bool) : Prop :=
  Terminated n xs ∧ ∀ ys, Terminated n ys →
    correlation motherBits (speechConvEncode {} ys).1 <
        correlation motherBits (speechConvEncode {} xs).1 ∨
      correlation motherBits (speechConvEncode {} ys).1 =
          correlation motherBits (speechConvEncode {} xs).1 ∧ xs.reverse ≤ ys.reverse

theorem bestWord_iff {motherBits : List Int8} {n : ℕ} (hn : 4 ≤ n) (hlen : motherBits.length = 3 * n)
    {xs : List Bool} : BestWord motherBits n xs ↔
      register.IsFirst (((List.range n).map (recvAt motherBits)).map cost) 0 0 xs := by
  have hcost : ∀ {ys : List Bool}, Terminated n ys →
      register.pathCost 0 ys (((List.range n).map (recvAt motherBits)).map cost) =
        -correlation motherBits (speechConvEncode {} ys).1 := fun hys ↦ by
    obtain ⟨rfl, -⟩ := hys
    exact pathCost_eq {} hlen
  have hrank : ∀ {ys}, Terminated n xs → Terminated n ys →
      (toLex (register.pathCost 0 xs (((List.range n).map (recvAt motherBits)).map cost),
          xs.reverse) ≤
        toLex (register.pathCost 0 ys (((List.range n).map (recvAt motherBits)).map cost),
          ys.reverse) ↔
      correlation motherBits (speechConvEncode {} ys).1 <
          correlation motherBits (speechConvEncode {} xs).1 ∨
        correlation motherBits (speechConvEncode {} ys).1 =
            correlation motherBits (speechConvEncode {} xs).1 ∧ xs.reverse ≤ ys.reverse) :=
    fun hxs hys ↦ by
      rw [Prod.Lex.toLex_le_toLex, hcost hxs, hcost hys, neg_lt_neg_iff, neg_inj]
      exact or_congr Iff.rfl (and_congr eq_comm Iff.rfl)
  have hstages : (((List.range n).map (recvAt motherBits)).map cost).length = n := by
    rw [List.length_map, List.length_map, List.length_range]
  constructor
  · rintro ⟨hxs, hbest⟩
    refine ⟨by rw [hstages]; exact (terminated_iff hn).1 hxs, fun ys hys ↦ ?_⟩
    rw [hstages] at hys
    exact (hrank hxs ((terminated_iff hn).2 hys)).2 (hbest ys ((terminated_iff hn).2 hys))
  · rintro ⟨hreach, hleast⟩
    rw [hstages] at hreach hleast
    have hxs := (terminated_iff hn).2 hreach
    exact ⟨hxs, fun ys hys ↦ (hrank hxs hys).1 (hleast ys ((terminated_iff hn).1 hys))⟩

/-! ## The start -/

/-- A path costs at most the weight of its stages. -/
theorem abs_pathCost_le {recvs : List Recv} {W : ℤ} (h : ∀ recv ∈ recvs, weight recv ≤ W)
    (hW : 0 ≤ W) (s : State) (xs : List Bool) :
    |register.pathCost s xs (recvs.map cost)| ≤ W * recvs.length := by
  induction recvs generalizing s xs with
  | nil =>
      have hnil : register.pathCost s xs (([] : List Recv).map cost) = 0 := by cases xs <;> rfl
      rw [hnil, abs_zero, List.length_nil, Nat.cast_zero, mul_zero]
  | cons recv recvs ih =>
      rw [List.forall_mem_cons] at h
      cases xs with
      | nil =>
          change |(0 : ℤ)| ≤ _
          rw [abs_zero]
          positivity
      | cons x xs =>
          rw [List.map_cons, ShiftRegister.pathCost, List.length_cons]
          have hrest := abs_le.1 (ih h.2 (register.next s x) xs)
          have hc := neg_weight_le_cost recv (register.next s x) (register.oldest s)
          push_cast
          exact abs_le.2 ⟨by linarith [hrest.1, hc.1], by linarith [hrest.2, hc.2]⟩

/-- Four bits fill the register. -/
theorem endState_eq {xs : List Bool} (h : 4 ≤ xs.length) (s s' : State) :
    register.endState s xs = register.endState s' xs := by
  have hinj : ∀ t t', held t = held t' → t = t' := by decide
  have hlen : ∀ t, (held t).length ≤ xs.length := fun _ ↦ h
  obtain ⟨ys, hys⟩ := delays_register.exists_append (hlen s)
  obtain ⟨ys', hys'⟩ := delays_register.exists_append (hlen s')
  exact hinj _ _ (List.append_inj_right' (hys.symm.trans hys') rfl)

/-- **Where a path starts makes less of a difference than the metrics at the start do.** -/
theorem pathCost_lt {s : State} (hs : s ≠ 0) {xs : List Bool} {recvs : List Recv}
    (hlen : xs.length = recvs.length) :
    register.pathCost 0 xs (recvs.map cost) <
      startMetrics s + register.pathCost s xs (recvs.map cost) := by
  have hstart : startMetrics s = 16383 := if_neg hs
  have hfew : ∀ (s : State) (xs : List Bool) {recvs : List Recv}, recvs.length ≤ 4 →
      |register.pathCost s xs (recvs.map cost)| ≤ 1536 := fun s xs {recvs} hle ↦ by
    have hweight : ∀ recv ∈ recvs, weight recv ≤ 384 := fun recv _ ↦ weight_le_max recv
    have hcost := abs_pathCost_le hweight (by decide) s xs
    have hle : (recvs.length : ℤ) ≤ 4 := by exact_mod_cast hle
    linarith
  rw [hstart]
  obtain hshort | hlong := Nat.lt_or_ge recvs.length 4
  · have h0 := abs_le.1 (hfew 0 xs hshort.le)
    have hs := abs_le.1 (hfew s xs hshort.le)
    linarith [h0.2, hs.1]
  · -- the register has forgotten the start after four stages
    have htake : (xs.take 4).length = ((recvs.take 4).map cost).length := by
      rw [List.length_take, List.length_map, List.length_take, hlen]
    have hfour : (recvs.take 4).length ≤ 4 := List.length_take_le _ _
    have hlen4 : 4 ≤ (xs.take 4).length := by
      rw [List.length_take]
      omega
    have hend := endState_eq hlen4 0 s
    have h0 := abs_le.1 (hfew 0 (xs.take 4) hfour)
    have hs := abs_le.1 (hfew s (xs.take 4) hfour)
    rw [← List.take_append_drop 4 xs, ← List.take_append_drop 4 recvs, List.map_append,
      register.pathCost_append htake, register.pathCost_append htake, hend]
    linarith [h0.2, hs.1]

/-! ## The decoder finds the best word -/

/-- `viterbi_decode` with unbounded metrics. -/
def unboundedDecode (motherBits : List Int8) (numOutputBits : ℕ) : List Bool :=
  (register.traceback 0 (register.survivors startMetrics
    (((List.range numOutputBits).map (recvAt motherBits)).map cost))).2

/-- **With unbounded metrics the best word is found**, whatever is received. -/
theorem unboundedDecode_eq_iff {motherBits : List Int8} {n : ℕ} (hn : 4 ≤ n)
    (hlen : motherBits.length = 3 * n) (xs : List Bool) :
    unboundedDecode motherBits n = xs ↔ BestWord motherBits n xs := by
  have hstages : (((List.range n).map (recvAt motherBits)).map cost).length = n := by
    rw [List.length_map, List.length_map, List.length_range]
  have hstart : startMetrics 0 = 0 := rfl
  -- a path from elsewhere loses to that of the same bits from state 0
  have hzero : ∀ {s : State} {ys : List Bool}, s ≠ 0 → register.Reaches n 0 (s, ys) →
      register.Reaches n 0 (0, ys) ∧
        register.pathCost 0 ys (((List.range n).map (recvAt motherBits)).map cost) <
          startMetrics s +
            register.pathCost s ys (((List.range n).map (recvAt motherBits)).map cost) := by
    rintro s ys hs ⟨hys, hend⟩
    change ys.length = n at hys
    change register.endState s ys = 0 at hend
    exact ⟨⟨hys, (endState_eq (hys ▸ hn) 0 s).trans hend⟩,
      pathCost_lt hs (by rw [hys, List.length_map, List.length_range])⟩
  rw [bestWord_iff hn hlen, unboundedDecode]
  constructor
  · intro hdec
    obtain ⟨hbest, -⟩ := ShiftRegister.isBest_traceback covers_register startMetrics
      (((List.range n).map (recvAt motherBits)).map cost) 0
    generalize register.traceback 0 (register.survivors startMetrics
      (((List.range n).map (recvAt motherBits)).map cost)) = p at hdec hbest
    obtain ⟨s, ys⟩ := p
    obtain rfl : ys = xs := hdec
    by_cases hs : s = 0
    · rw [hs] at hbest
      exact hbest.isFirst delays_register
    · have hreaches := hbest.reaches
      rw [hstages] at hreaches
      obtain ⟨hreach, hlt⟩ := hzero hs hreaches
      have hle := hbest.metric_le (hstages.symm ▸ hreach)
      rw [hstart, zero_add] at hle
      exact absurd hlt (not_lt.2 hle)
  · intro hfirst
    rw [hfirst.traceback covers_register delays_register]
    rintro ⟨s, ys⟩ hreaches hs
    rw [hstages] at hreaches
    obtain ⟨hreach, hlt⟩ := hzero hs hreaches
    rw [hstart, zero_add]
    have hle := (Prod.Lex.toLex_le_toLex'.1 (hfirst.least ys (hstages.symm ▸ hreach))).1
    exact hle.trans_lt hlt

/-- **The decoder finds the best word**, if the metrics do not run over. -/
theorem viterbiDecode_eq_iff {motherBits : List Int8} {n : ℕ} (hn : 4 ≤ n)
    (hlen : motherBits.length = 3 * n)
    (h : Fits initialMetrics ((List.range n).map (recvAt motherBits))) (xs : List Bool) :
    viterbiDecode motherBits n = xs ↔ BestWord motherBits n xs := by
  rw [viterbiDecode_eq h]
  exact unboundedDecode_eq_iff hn hlen xs

/-- The stages of small values. -/
theorem small_stages {motherBits : List Int8} (h : ∀ s ∈ motherBits, |s.toInt| ≤ 8) (n : ℕ) :
    ∀ recv ∈ (List.range n).map (recvAt motherBits), Small recv := by
  intro recv hrecv k
  obtain ⟨step, -, rfl⟩ := List.mem_map.1 hrecv
  rw [recvAt, List.getD_eq_getElem?_getD]
  cases hget : motherBits[step * 3 + k]? with
  | none => decide
  | some s => exact h s (List.mem_of_getElem? hget)

/-- On small values they do not. -/
theorem fits_of_small_softs {motherBits : List Int8} (h : ∀ s ∈ motherBits, |s.toInt| ≤ 8) {n : ℕ}
    (hroom : 16383 + 24 * n < 32768) :
    Fits initialMetrics ((List.range n).map (recvAt motherBits)) :=
  fits_initialMetrics (small_stages h n) (by rw [List.length_map, List.length_range]; exact hroom)

end TetraPhy.Speech
