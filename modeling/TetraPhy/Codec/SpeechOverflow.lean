import Mathlib.Algebra.Order.BigOperators.Group.List
import TetraPhy.Codec.SpeechBest

/-!
# The range of the metrics

`metric_t` is a 16-bit integer, and `viterbi_decode` of `tetra_bs_tch_s.c` neither normalises its
metrics nor stops them at a cap.  They cannot run over at the top: what one branch into a state
costs the other one gains, so that no metric is ever above `INT16_MAX / 2` (`metric_le_start`).  At
the bottom they can.  The metric of a path is the correlation that its code word has, negated, and
a path that correlates well never has to give anything back: the least metric is that of a whole
word.  `fits_initialMetrics_iff` says that no sum runs over exactly if no code word correlates with
the received values by more than 32768.
-/

namespace TetraPhy.Speech

open Survivor

attribute [local instance] neZeroState

/-! ## The top -/

/-- **No metric exceeds those at the start.** -/
theorem metric_le_start {m : State → ℤ} (recv : Recv) {B : ℤ} (hm : ∀ s, m s ≤ B) (state : State) :
    register.metric (cost recv) m state ≤ B :=
  ShiftRegister.metric_le_of_opposite hm (cost_not recv state false)

theorem startMetrics_le (s : State) : startMetrics s ≤ 16383 := (abs_le.1 (abs_startMetrics_le s)).2

/-! ## The bottom -/

/-- Of the two branches out of a state one costs nothing: every mother bit has the input bit in
it. -/
theorem exists_cost_nonpos (recv : Recv) (s : State) :
    ∃ x, cost recv (register.next s x) (register.oldest s) ≤ 0 := by
  have hsign : ∀ (s : State) (n : Fin 3), sign n (register.next s true) (register.oldest s) =
      -sign n (register.next s false) (register.oldest s) := by decide
  have hcost : cost recv (register.next s true) (register.oldest s) =
      -cost recv (register.next s false) (register.oldest s) := by
    rw [cost, cost, hsign, hsign, hsign]
    ring
  obtain hneg | hpos := le_total (cost recv (register.next s false) (register.oldest s)) 0
  · exact ⟨false, hneg⟩
  · exact ⟨true, by rw [hcost]; exact neg_nonpos.2 hpos⟩

/-- **If all metrics of the integers are in range**, no sum runs over. -/
theorem fits_of_metrics {metrics : Vector Int16 16} {m : State → ℤ} {recvs : List Recv}
    (hm : ∀ s, (metrics.get s).toInt = m s) (htop : ∀ s, m s ≤ 16383)
    (h : ∀ pre, pre <+: recvs → ∀ s, -32768 ≤ register.metrics m (pre.map cost) s) :
    Fits metrics recvs := by
  induction recvs generalizing metrics m with
  | nil => trivial
  | cons recv recvs ih =>
      have hstage : StageFits metrics recv := (stageFits_iff hm).2 fun state b ↦ by
        have hbottom := (h [recv] (List.prefix_append [recv] recvs) state).trans
          (ShiftRegister.metric_le (cost recv) m state b)
        have hc := (neg_weight_le_cost recv state b).2
        exact ⟨hbottom, by linarith [htop (pred state b), weight_le_max recv]⟩
      refine ⟨hstage, ih (get_metricsNew hstage hm) (metric_le_start recv htop) fun pre hpre ↦ ?_⟩
      exact h (recv :: pre) ((List.prefix_cons_inj recv).2 hpre)

/-- **If no sum runs over**, all metrics are in range in the end. -/
theorem Fits.neg_le_metrics {metrics : Vector Int16 16} {m : State → ℤ} {recvs : List Recv}
    (h : Fits metrics recvs) (hm : ∀ s, (metrics.get s).toInt = m s) (s : State) :
    -32768 ≤ register.metrics m (recvs.map cost) s := by
  induction recvs generalizing metrics m with
  | nil =>
      change -32768 ≤ m s
      rw [← hm]
      exact (metrics.get s).le_toInt
  | cons recv recvs ih => exact ih h.2 (get_metricsNew h.1 hm)

/-- No path from elsewhere has a smaller metric than the path of the same bits from state 0. -/
theorem pathCost_le (s : State) {xs : List Bool} {recvs : List Recv}
    (hlen : xs.length = recvs.length) :
    register.pathCost 0 xs (recvs.map cost) ≤
      startMetrics s + register.pathCost s xs (recvs.map cost) := by
  by_cases hs : s = 0
  · have hstart : startMetrics 0 = 0 := rfl
    rw [hs, hstart, zero_add]
  · exact (pathCost_lt hs hlen).le

/-- **When a sum runs over**: exactly if a path of all stages from state 0 costs less than the least
16-bit integer. -/
theorem fits_initialMetrics_iff_pathCost (recvs : List Recv) : Fits initialMetrics recvs ↔
    ∀ xs : List Bool, xs.length = recvs.length →
      -32768 ≤ register.pathCost 0 xs (recvs.map cost) := by
  constructor
  · intro h xs hxs
    have hreach : register.Reaches (recvs.map cost).length (register.endState 0 xs) (0, xs) :=
      ⟨by rw [List.length_map]; exact hxs, rfl⟩
    have hstart : startMetrics 0 = 0 := rfl
    have hle := ShiftRegister.metrics_le covers_register startMetrics hreach
    rw [hstart, zero_add] at hle
    exact (h.neg_le_metrics get_initialMetrics _).trans hle
  · intro h
    refine fits_of_metrics get_initialMetrics startMetrics_le ?_
    rintro pre ⟨post, rfl⟩ s
    obtain ⟨⟨q, xs⟩, hreach, hmetric⟩ :=
      ShiftRegister.exists_metrics_eq covers_register startMetrics (pre.map cost) s
    -- the path goes on to the last stage, at no cost
    have hfree : ∀ c ∈ post.map cost, ∀ s, ∃ x, c (register.next s x) (register.oldest s) ≤ 0 := by
      intro c hc s
      obtain ⟨recv, -, rfl⟩ := List.mem_map.1 hc
      exact exists_cost_nonpos recv s
    obtain ⟨ys, hys, hcost⟩ :=
      ShiftRegister.exists_pathCost_append_le hfree (s := q) hreach.length
    have hlen : (xs ++ ys).length = (pre ++ post).length := by
      have hxs := hreach.length
      rw [List.length_map] at hxs hys
      rw [List.length_append, List.length_append, hys]
      exact congrArg (· + post.length) hxs
    have hzero := pathCost_le q hlen
    rw [List.map_append] at hzero
    calc -32768 ≤ register.pathCost 0 (xs ++ ys) ((pre ++ post).map cost) := h _ hlen
      _ ≤ startMetrics q + register.pathCost q (xs ++ ys) (pre.map cost ++ post.map cost) := by
          rw [List.map_append]
          exact hzero
      _ ≤ startMetrics q + register.pathCost q xs (pre.map cost) := by linarith
      _ = register.metrics startMetrics (pre.map cost) s := hmetric

/-- No code word of so many bits correlates by more than a metric can hold. -/
def Moderate (motherBits : List Int8) (numOutputBits : ℕ) : Prop :=
  ∀ xs : List Bool, xs.length = numOutputBits →
    correlation motherBits (speechConvEncode {} xs).1 ≤ 32768

/-- **When the metrics stay in range.** -/
theorem fits_initialMetrics_iff {motherBits : List Int8} {n : ℕ}
    (hlen : motherBits.length = 3 * n) :
    Fits initialMetrics ((List.range n).map (recvAt motherBits)) ↔ Moderate motherBits n := by
  rw [fits_initialMetrics_iff_pathCost, List.length_map, List.length_range]
  refine forall_congr' fun xs ↦ forall_congr' fun hxs ↦ ?_
  subst hxs
  have hcost := pathCost_eq {} hlen
  change register.pathCost 0 xs _ = _ at hcost
  rw [hcost]
  exact neg_le_neg_iff

/-! ## Enough for it -/

/-- A code word correlates by at most the sum of all magnitudes. -/
theorem correlation_le (motherBits : List Int8) (code : List Bool) :
    correlation motherBits code ≤ (motherBits.map fun s ↦ |s.toInt|).sum := by
  induction motherBits generalizing code with
  | nil =>
      rw [correlation, List.zipWith_nil_right]
      exact le_rfl
  | cons s motherBits ih =>
      cases code with
      | nil => exact List.sum_nonneg (by simp)
      | cons e code =>
          have hrest := ih code
          rw [correlation] at hrest
          rw [correlation, List.zipWith_cons_cons, List.sum_cons, List.map_cons, List.sum_cons]
          refine add_le_add ?_ hrest
          cases e with
          | false => exact neg_le_abs _
          | true => exact le_abs_self _

end TetraPhy.Speech
