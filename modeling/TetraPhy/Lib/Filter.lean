import Mathlib.Algebra.BigOperators.Ring.Finset
import Mathlib.Algebra.Order.BigOperators.Group.Finset
import Mathlib.Algebra.Order.Ring.Abs
import Mathlib.Data.List.GetD
import Mathlib.Tactic.Positivity
import Mathlib.Tactic.Ring

/-!
# Filters

A filter weighs the newest value of a stream with `h 0`, the one before it with `h 1`, and so on.
Streams are listed oldest first, and what a filter has seen of one newest first.

* `filtered_stuff` — a filter behind a stage that puts zeros between the values needs only every
  `L`-th weight at a time: it is `L` filters that take turns;
* `mac_eq_fir` — a filter with finitely many weights as a running sum, which is what a serial
  machine computes, and `abs_mac_le` how large the sum can get;
* `toInt_saturate` — words that are cut down with saturation.
-/

namespace TetraPhy.Filter

variable (h : ℕ → ℤ)

/-- The filter on what it has seen, newest first. -/
def fir (h : ℕ → ℤ) : List ℤ → ℤ
  | [] => 0
  | x :: xs => h 0 * x + fir (fun k ↦ h (k + 1)) xs

/-- What the filter gives out over a stream, behind what it has seen. -/
def filtered (past : List ℤ) : List ℤ → List ℤ
  | [] => []
  | x :: xs => fir h (x :: past) :: filtered (x :: past) xs

theorem filtered_append (past xs ys : List ℤ) :
    filtered h past (xs ++ ys) =
      filtered h past xs ++ filtered h (xs.reverse ++ past) ys := by
  induction xs generalizing past with
  | nil => rfl
  | cons x xs ih =>
      rw [List.cons_append, filtered, ih, filtered, List.reverse_cons, List.append_assoc]
      rfl

/-! ## Zeros between the values -/

section Stuffing

variable (L : ℕ)

/-- A stream with zeros behind each of its values. -/
def stuff (xs : List ℤ) : List ℤ := xs.flatMap fun x ↦ x :: List.replicate (L - 1) 0

/-- The same of what was seen. -/
def stuffPast (past : List ℤ) : List ℤ := past.flatMap fun x ↦ List.replicate (L - 1) 0 ++ [x]

/-- Every `L`-th weight, from the `p`-th on. -/
def phase (p : ℕ) (k : ℕ) : ℤ := h (p + L * k)

/-- The `L` filters take turns on each value. -/
def takeTurns (past : List ℤ) : List ℤ → List ℤ
  | [] => []
  | x :: xs =>
    (List.range L).map (fun p ↦ fir (phase h L p) (x :: past)) ++ takeTurns (x :: past) xs

theorem fir_replicate_zero (p : ℕ) (xs : List ℤ) :
    fir h (List.replicate p 0 ++ xs) = fir (fun k ↦ h (p + k)) xs := by
  induction p generalizing h with
  | zero => simp
  | succ p ih =>
      rw [List.replicate_succ, List.cons_append, fir, mul_zero, zero_add, ih]
      simp only [Nat.add_right_comm]

variable {L}

@[simp] theorem stuffPast_nil (L : ℕ) : stuffPast L [] = [] := rfl

@[simp] theorem phase_zero (p : ℕ) : phase h L p 0 = h p := rfl

/-- Among zeros, the values are weighed with every `L`-th weight. -/
theorem fir_stuffPast (hL : 0 < L) (p : ℕ) (x : ℤ) (past : List ℤ) :
    fir h (List.replicate p 0 ++ x :: stuffPast L past) = fir (phase h L p) (x :: past) := by
  induction past generalizing h p x with
  | nil =>
      rw [fir_replicate_zero, fir, fir, phase_zero]
      rfl
  | cons y past ih =>
      have hnext : phase (fun k ↦ h (p + (k + 1))) L (L - 1) =
          fun k ↦ phase h L p (k + 1) := by
        funext k
        simp only [phase]
        congr 1
        rw [Nat.mul_succ]
        omega
      rw [fir_replicate_zero, fir, stuffPast, List.flatMap_cons, List.append_assoc,
        List.singleton_append, ← stuffPast, ih, hnext]
      conv_rhs => rw [fir, phase_zero]
      rfl

theorem filtered_replicate_zero (hL : 0 < L) (p n : ℕ) (x : ℤ) (past : List ℤ) :
    filtered h (List.replicate p 0 ++ x :: stuffPast L past) (List.replicate n 0) =
      (List.range n).map fun j ↦ fir (phase h L (p + 1 + j)) (x :: past) := by
  induction n generalizing p with
  | zero => rfl
  | succ n ih =>
      rw [List.replicate_succ, filtered, ← List.cons_append, ← List.replicate_succ,
        fir_stuffPast h hL, ih, List.range_succ_eq_map, List.map_cons, List.map_map, Nat.add_zero]
      simp only [Function.comp_def, Nat.succ_eq_add_one, Nat.add_assoc, Nat.add_comm 1]

/-- **Interpolation by turns.**  The filter behind the stage that puts in the zeros is `L` filters
that take turns on the values themselves. -/
theorem filtered_stuff (hL : 0 < L) (past xs : List ℤ) :
    filtered h (stuffPast L past) (stuff L xs) = takeTurns h L past xs := by
  induction xs generalizing past with
  | nil => rfl
  | cons x xs ih =>
      have hpast : (x :: List.replicate (L - 1) 0).reverse ++ stuffPast L past =
          stuffPast L (x :: past) := by
        rw [List.reverse_cons, List.reverse_replicate]
        rfl
      obtain ⟨n, rfl⟩ : ∃ n, L = n + 1 := ⟨L - 1, by omega⟩
      have hfirst := fir_stuffPast h hL 0 x past
      have hrest := filtered_replicate_zero h hL 0 n x past
      rw [List.replicate_zero, List.nil_append] at hfirst hrest
      rw [stuff, List.flatMap_cons, ← stuff, filtered_append, hpast, ih, takeTurns, filtered,
        Nat.add_sub_cancel, hfirst, hrest, List.range_succ_eq_map, List.map_cons, List.map_map]
      simp only [Function.comp_def, Nat.succ_eq_add_one, Nat.zero_add, Nat.add_comm 1]

end Stuffing

/-! ## Multiply and accumulate -/

/-- The sum over the first `n` weights. -/
def mac (xs : List ℤ) (n : ℕ) : ℤ := ∑ k ∈ Finset.range n, h k * xs.getD k 0

theorem mac_succ (xs : List ℤ) (n : ℕ) : mac h xs (n + 1) = mac h xs n + h n * xs.getD n 0 :=
  Finset.sum_range_succ _ n

/-- **A filter with `n` weights is a sum.** -/
theorem mac_eq_fir {n : ℕ} (hn : ∀ k, n ≤ k → h k = 0) (xs : List ℤ) : mac h xs n = fir h xs := by
  induction xs generalizing h n with
  | nil => simp [mac, fir]
  | cons x xs ih =>
      cases n with
      | zero =>
          have hzero : ∀ (h : ℕ → ℤ), (∀ k, h k = 0) → ∀ ys, fir h ys = 0 := by
            intro h hh ys
            induction ys generalizing h with
            | nil => rfl
            | cons y ys ih => rw [fir, hh, zero_mul, zero_add, ih _ fun k ↦ hh (k + 1)]
          rw [hzero h fun k ↦ hn k (Nat.zero_le k)]
          rfl
      | succ n =>
          rw [mac, Finset.sum_range_succ', fir, add_comm]
          exact congrArg₂ _ rfl (ih (fun k ↦ h (k + 1)) fun k hk ↦ hn (k + 1) (by omega))

/-- How large the sum can get. -/
theorem abs_mac_le {xs : List ℤ} {B : ℤ} (hB : 0 ≤ B) (hxs : ∀ x ∈ xs, |x| ≤ B) (n : ℕ) :
    |mac h xs n| ≤ (∑ k ∈ Finset.range n, |h k|) * B := by
  rw [Finset.sum_mul]
  refine (Finset.abs_sum_le_sum_abs _ _).trans (Finset.sum_le_sum fun k _ ↦ ?_)
  rw [abs_mul]
  refine mul_le_mul_of_nonneg_left ?_ (abs_nonneg _)
  rcases Nat.lt_or_ge k xs.length with hk | hk
  · rw [List.getD_eq_getElem _ _ hk]
    exact hxs _ (List.getElem_mem hk)
  · rw [List.getD_eq_default _ _ hk, abs_zero]
    exact hB

/-! ## Words that are cut down -/

/-- The nearest number of `n + 1` bits. -/
def clip (n : ℕ) (v : ℤ) : ℤ := max (-2 ^ n) (min (2 ^ n - 1) v)

variable {w : ℕ}

/-- The bits of a word from `n` up are not all the same. -/
def overflows (n : ℕ) (v : BitVec w) : Bool :=
  v.extractLsb' n (w - n) != BitVec.allOnes (w - n) && v.extractLsb' n (w - n) != 0

/-- A word cut down to `n + 1` bits, or what is nearest. -/
def saturate (n : ℕ) (v : BitVec w) : BitVec (n + 1) :=
  if overflows n v then if v.msb then BitVec.intMin (n + 1) else BitVec.intMax (n + 1)
  else v.setWidth (n + 1)

/-- The bits from `n` up, as a number. -/
theorem toInt_extractLsb'_top {n : ℕ} (hn : n < w) (v : BitVec w) :
    (v.extractLsb' n (w - n)).toInt = v.toInt / 2 ^ n := by
  obtain ⟨m, rfl⟩ : ∃ m, w = n + (m + 1) := ⟨w - n - 1, by omega⟩
  rw [Nat.add_sub_cancel_left]
  have hpos : (0 : ℤ) < 2 ^ n := by positivity
  have hsplit : (2 : ℤ) ^ (n + (m + 1)) = 2 ^ (m + 1) * 2 ^ n := by rw [pow_add, mul_comm]
  have hhalf : (2 : ℤ) ^ (n + (m + 1) - 1) = 2 ^ m * 2 ^ n := by
    rw [← pow_add]
    congr 1
    omega
  -- a number and its word differ by whole turns, and so do their upper parts
  have hcongr : (((v.toNat >>> n : ℕ) : ℤ)).bmod (2 ^ (m + 1)) =
      (v.toInt / 2 ^ n).bmod (2 ^ (m + 1)) := by
    rw [Nat.shiftRight_eq_div_pow]
    push_cast
    rw [BitVec.toInt_eq_toNat_cond]
    split
    · rfl
    · have hturn := Int.sub_bmod_right ((v.toNat : ℤ) / 2 ^ n) (2 ^ (m + 1))
      push_cast at hturn ⊢
      rw [hsplit, Int.sub_mul_ediv_right _ _ hpos.ne', hturn]
  have hlo : -(2 ^ m * 2 ^ n) ≤ v.toInt := hhalf ▸ BitVec.le_toInt v
  have hhi : v.toInt < 2 ^ m * 2 ^ n := hhalf ▸ BitVec.toInt_lt
  rw [BitVec.toInt_extractLsb', hcongr]
  have hlo' : -2 ^ m ≤ v.toInt / 2 ^ n := by
    rw [Int.le_ediv_iff_mul_le hpos, neg_mul]
    exact hlo
  have hhi' : v.toInt / 2 ^ n < 2 ^ m := (Int.ediv_lt_iff_lt_mul hpos).2 hhi
  have hpow : ((2 ^ (m + 1) : ℕ) : ℤ) = 2 * 2 ^ m := by
    push_cast
    rw [pow_succ, mul_comm]
  exact Int.bmod_eq_of_le (by rw [hpow]; omega) (by rw [hpow]; omega)

/-- **A word overflows if its number has no place in `n + 1` bits.** -/
theorem overflows_eq_false_iff {n : ℕ} (hn : n < w) (v : BitVec w) :
    overflows n v = false ↔ -2 ^ n ≤ v.toInt ∧ v.toInt < 2 ^ n := by
  have hpos : (0 : ℤ) < 2 ^ n := by positivity
  have htop := toInt_extractLsb'_top hn v
  have hones : v.extractLsb' n (w - n) = BitVec.allOnes (w - n) ↔ v.toInt / 2 ^ n = -1 := by
    rw [← htop, ← BitVec.toInt_inj, BitVec.toInt_allOnes, if_pos (by omega)]
  have hzero : v.extractLsb' n (w - n) = 0 ↔ v.toInt / 2 ^ n = 0 := by
    rw [← htop, ← BitVec.toInt_inj]
    simp
  have hrange : v.toInt / 2 ^ n = -1 ∨ v.toInt / 2 ^ n = 0 ↔ -2 ^ n ≤ v.toInt ∧ v.toInt < 2 ^ n := by
    have hlo := Int.le_ediv_iff_mul_le (a := -1) (b := v.toInt) hpos
    have hhi := Int.ediv_lt_iff_lt_mul (a := v.toInt) (b := 1) hpos
    rw [neg_one_mul] at hlo
    rw [one_mul] at hhi
    rw [← hlo, ← hhi]
    omega
  rw [overflows, Bool.and_eq_false_iff, bne_eq_false_iff_eq, bne_eq_false_iff_eq, hones, hzero,
    hrange]

/-- **Saturation clips.** -/
theorem toInt_saturate {n : ℕ} (hn : n < w) (v : BitVec w) :
    (saturate n v).toInt = clip n v.toInt := by
  have hpos : (0 : ℤ) < 2 ^ n := by positivity
  have hover := overflows_eq_false_iff hn v
  have hpow : ((2 ^ (n + 1) : ℕ) : ℤ) = 2 * 2 ^ n := by
    push_cast
    rw [pow_succ, mul_comm]
  rw [saturate, clip]
  cases h : overflows n v with
  | false =>
      obtain ⟨hlo, hhi⟩ := hover.1 h
      rw [if_neg Bool.false_ne_true, ← BitVec.signExtend_eq_setWidth_of_le _ (by omega),
        BitVec.toInt_signExtend_eq_toInt_bmod_of_le _ (by omega),
        Int.bmod_eq_of_le (by rw [hpow]; omega) (by rw [hpow]; omega)]
      omega
  | true =>
      have hout : ¬(-2 ^ n ≤ v.toInt ∧ v.toInt < 2 ^ n) := fun hin ↦ by simp [hover.2 hin] at h
      rw [if_pos rfl, BitVec.msb_eq_toInt]
      by_cases hneg : v.toInt < 0
      · rw [if_pos (decide_eq_true hneg), BitVec.toInt_intMin_of_pos (Nat.add_one_pos n),
          Nat.add_sub_cancel]
        omega
      · rw [if_neg (by simpa using hneg), BitVec.toInt_intMax, Nat.add_sub_cancel]
        omega

end TetraPhy.Filter
