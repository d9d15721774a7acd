import Mathlib.Algebra.BigOperators.Intervals
import Mathlib.Algebra.BigOperators.Ring.Finset
import Mathlib.Algebra.Order.BigOperators.Group.Finset
import Mathlib.Data.BitVec
import Mathlib.Logic.Function.Iterate
import Mathlib.Tactic.Linarith
import Mathlib.Tactic.Positivity

/-!
# Integrators and combs

A cascade of integrators at a high rate and of combs, differences, at a low rate computes sums over
moving windows without ever looking at a window: the integrators run on for ever and the combs take
the difference of what they were at the two ends of it.  It does not matter that the integrators
overflow, if the result fits.

Sequences start at 0 and are 0 before that.  `sum` and `diff R` commute and together are a window of
length `R` (`diff_sum`), so a cascade is as many windows, one behind the other (`diff_iterate_sum`).
A comb at the low rate is one of distance `R` at the high rate, whether the rate is lowered before it
(`diff_decimate`) or raised behind it (`upsample_diff`).  The registers of a machine hold the values
of such sequences at one step (`integrate_sums`, `combs_delays`, `pipe_stages`).

What a cascade of windows comes to is bounded by `R ^ n` (`window_iterate_mem`), or by a factor `R`
less on a sequence that was raised in its rate (`window_upsample`); words that wrap have it right if
they are wide enough for that (`toInt_window_iterate`).
-/

namespace TetraPhy.IntegratorComb

universe u

variable {G : Type u} [AddCommGroup G]

/-- The running sum, a step late. -/
def sum (f : ℕ → G) (n : ℕ) : G := ∑ i ∈ Finset.range n, f i

/-- The sequence `R` steps late. -/
def delay (R : ℕ) (f : ℕ → G) (n : ℕ) : G := if R ≤ n then f (n - R) else 0

/-- The difference to what was `R` steps earlier. -/
def diff (R : ℕ) (f : ℕ → G) (n : ℕ) : G := f n - delay R f n

/-- The sum over the `R` steps before. -/
def window (R : ℕ) (f : ℕ → G) (n : ℕ) : G := ∑ i ∈ Finset.Ico (n - R) n, f i

/-- One out of `R` values. -/
def decimate (R : ℕ) (f : ℕ → G) (n : ℕ) : G := f (R * n)

/-- `R - 1` zeros between the values. -/
def upsample (R : ℕ) (f : ℕ → G) (n : ℕ) : G := if R ∣ n then f (n / R) else 0

variable {R : ℕ} {f : ℕ → G}

theorem sum_succ (f : ℕ → G) (n : ℕ) : sum f (n + 1) = sum f n + f n := Finset.sum_range_succ f n

@[simp] theorem sum_zero (f : ℕ → G) : sum f 0 = 0 := Finset.sum_range_zero f

theorem delay_of_lt {n : ℕ} (h : n < R) : delay R f n = 0 := if_neg (Nat.not_le.2 h)

theorem delay_add (f : ℕ → G) (n : ℕ) : delay R f (n + R) = f n := by
  rw [delay, if_pos (Nat.le_add_left R n), Nat.add_sub_cancel]

theorem sum_delay (R : ℕ) (f : ℕ → G) : sum (delay R f) = delay R (sum f) := by
  funext n
  induction n with
  | zero => simp [delay]
  | succ n ih =>
      rw [sum_succ, ih]
      rcases Nat.lt_trichotomy (n + 1) R with hlt | heq | hgt
      · rw [delay_of_lt hlt, delay_of_lt (by omega), delay_of_lt (by omega), add_zero]
      · subst heq
        rw [delay_of_lt (Nat.lt_succ_self n), delay_of_lt (Nat.lt_succ_self n), delay, if_pos le_rfl,
          Nat.sub_self, sum_zero, add_zero]
      · obtain ⟨m, rfl⟩ : ∃ m, n = m + R := ⟨n - R, by omega⟩
        rw [delay_add, delay_add, Nat.add_right_comm, delay_add, sum_succ]

theorem sum_sub (f g : ℕ → G) : sum (fun n ↦ f n - g n) = fun n ↦ sum f n - sum g n := by
  funext n
  exact Finset.sum_sub_distrib _ _

/-- **Summing and taking differences commute.** -/
theorem commute_diff_sum (R : ℕ) : Function.Commute (diff R (G := G)) sum := by
  intro f
  have h : sum (diff R f) = fun n ↦ sum f n - sum (delay R f) n := sum_sub f (delay R f)
  rw [h, sum_delay]
  rfl

/-- **The difference of the running sum is a window.** -/
theorem diff_sum (R : ℕ) (f : ℕ → G) : diff R (sum f) = window R f := by
  funext n
  rw [diff, window, Finset.sum_Ico_eq_sub f (Nat.sub_le n R)]
  rcases Nat.lt_or_ge n R with h | h
  · rw [delay_of_lt h, Nat.sub_eq_zero_of_le h.le, Finset.sum_range_zero]
    rfl
  · rw [delay, if_pos h]
    rfl

/-- **A cascade of combs behind as many integrators is as many windows.** -/
theorem diff_iterate_sum (R n : ℕ) (f : ℕ → G) :
    (diff R)^[n] (sum^[n] f) = (window R)^[n] f := by
  have h := (commute_diff_sum (G := G) R).comp_iterate n
  have hcomp : diff R ∘ sum = window R (G := G) := funext fun f ↦ diff_sum R f
  rw [hcomp] at h
  exact (congrFun h f).symm

/-! ## Change of rate -/

/-- **A comb at the low rate, behind.** -/
theorem diff_decimate (f : ℕ → G) (h0 : f 0 = 0) :
    diff 1 (decimate R f) = decimate R (diff R f) := by
  funext n
  cases n with
  | zero => simp [diff, delay, decimate, h0]
  | succ n =>
      have hle : R ≤ R * (n + 1) := Nat.le_mul_of_pos_right R (Nat.succ_pos n)
      rw [diff, delay_add, decimate, decimate, decimate, diff, delay, if_pos hle, Nat.mul_succ,
        Nat.add_sub_cancel]

theorem diff_iterate_zero (R : ℕ) {f : ℕ → G} (h0 : f 0 = 0) (n : ℕ) : ((diff R)^[n] f) 0 = 0 := by
  induction n generalizing f with
  | zero => exact h0
  | succ n ih =>
      rw [Function.iterate_succ_apply]
      refine ih ?_
      rw [diff, delay, Nat.zero_sub, h0, ite_self, sub_zero]

/-- Combs at the low rate, behind. -/
theorem diff_iterate_decimate (n : ℕ) {f : ℕ → G} (h0 : f 0 = 0) :
    (diff 1)^[n] (decimate R f) = decimate R ((diff R)^[n] f) := by
  induction n with
  | zero => rfl
  | succ n ih =>
      rw [Function.iterate_succ_apply', Function.iterate_succ_apply', ih,
        diff_decimate _ (diff_iterate_zero R h0 n)]

/-- **A comb at the low rate, before.** -/
theorem upsample_diff (hR : 0 < R) (f : ℕ → G) : upsample R (diff 1 f) = diff R (upsample R f) := by
  funext n
  by_cases hdvd : R ∣ n
  · obtain ⟨m, rfl⟩ := hdvd
    rw [upsample, if_pos (Nat.dvd_mul_right R m), Nat.mul_div_cancel_left m hR, diff, diff, upsample,
      if_pos (Nat.dvd_mul_right R m), Nat.mul_div_cancel_left m hR]
    cases m with
    | zero => rw [delay_of_lt (Nat.zero_lt_one), delay_of_lt (by simpa using hR)]
    | succ m =>
        rw [Nat.mul_succ, delay_add, delay_add, upsample, if_pos (Nat.dvd_mul_right R m),
          Nat.mul_div_cancel_left m hR]
  · have hdelay : delay R (upsample R f) n = 0 := by
      rw [delay]
      split
      · rename_i hle
        refine if_neg fun hd ↦ hdvd ?_
        rw [← Nat.sub_add_cancel hle]
        exact (Nat.dvd_add_self_right).2 hd
      · rfl
    rw [diff, hdelay, upsample, upsample, if_neg hdvd, if_neg hdvd, sub_zero]

/-- Combs at the low rate, before. -/
theorem upsample_diff_iterate (hR : 0 < R) (n : ℕ) (f : ℕ → G) :
    upsample R ((diff 1)^[n] f) = (diff R)^[n] (upsample R f) := by
  induction n with
  | zero => rfl
  | succ n ih => rw [Function.iterate_succ_apply', Function.iterate_succ_apply', upsample_diff hR, ih]

/-- Each value for `R` steps, a step late. -/
def hold (R : ℕ) (f : ℕ → G) (n : ℕ) : G := if n = 0 then 0 else f ((n - 1) / R)

/-- **A window on zeros holds the value between them.** -/
theorem window_upsample (hR : 0 < R) (f : ℕ → G) : window R (upsample R f) = hold R f := by
  funext n
  cases n with
  | zero => simp [window, hold]
  | succ n =>
      have hmem : R * (n / R) ∈ Finset.Ico (n + 1 - R) (n + 1) := by
        have hdiv := Nat.div_add_mod n R
        have hmod := Nat.mod_lt n hR
        rw [Finset.mem_Ico]
        omega
      rw [window, Finset.sum_eq_single_of_mem _ hmem, upsample, if_pos (Nat.dvd_mul_right R _),
        Nat.mul_div_cancel_left _ hR, hold, if_neg (Nat.succ_ne_zero n), Nat.add_sub_cancel]
      intro i hi hne
      rw [Finset.mem_Ico] at hi
      refine if_neg fun ⟨m, hm⟩ ↦ hne ?_
      -- a multiple among the `R` values up to `n` is the last one
      have hm' : m = n / R := by
        rw [hm] at hi
        refine (Nat.div_eq_of_lt_le ?_ ?_).symm
        · rw [Nat.mul_comm]
          omega
        · rw [Nat.succ_mul, Nat.mul_comm]
          omega
      rw [hm, hm']

/-! ## Registers -/

section Registers

/-- Integrators, each of which adds what the one before it held. -/
def integrate : List G → G → List G
  | [], _ => []
  | r :: rs, x => (r + x) :: integrate rs r

/-- `k` integrators behind a sequence, before its step `n`. -/
def sums : ℕ → (ℕ → G) → ℕ → List G
  | 0, _, _ => []
  | k + 1, f, n => sum f n :: sums k (sum f) n

theorem integrate_sums (k : ℕ) (f : ℕ → G) (n : ℕ) :
    integrate (sums k f n) (f n) = sums k f (n + 1) := by
  induction k generalizing f with
  | zero => rfl
  | succ k ih => rw [sums, integrate, ih, sums, sum_succ]

@[simp] theorem sums_zero_right (k : ℕ) (f : ℕ → G) : sums k f 0 = List.replicate k 0 := by
  induction k generalizing f with
  | zero => rfl
  | succ k ih => rw [sums, ih, sum_zero, List.replicate_succ]

theorem getD_sums {k j : ℕ} (hj : j < k) (f : ℕ → G) (n : ℕ) :
    (sums k f n).getD j 0 = sum^[j + 1] f n := by
  induction k generalizing j f with
  | zero => exact absurd hj (Nat.not_lt_zero j)
  | succ k ih =>
      cases j with
      | zero => rfl
      | succ j => exact ih (Nat.lt_of_succ_lt_succ hj) (sum f)

/-- Combs without registers between them: what each keeps for the next step, and what comes out. -/
def combs : List G → G → List G × G
  | [], x => ([], x)
  | z :: zs, x => (x :: (combs zs (x - z)).1, (combs zs (x - z)).2)

/-- What `k` combs behind a sequence keep before its step `n`. -/
def delays : ℕ → (ℕ → G) → ℕ → List G
  | 0, _, _ => []
  | k + 1, f, n => delay 1 f n :: delays k (diff 1 f) n

theorem combs_delays (k : ℕ) (f : ℕ → G) (n : ℕ) :
    combs (delays k f n) (f n) = (delays k f (n + 1), (diff 1)^[k] f n) := by
  induction k generalizing f with
  | zero => rfl
  | succ k ih =>
      have hdiff : f n - delay 1 f n = diff 1 f n := rfl
      rw [delays, combs, hdiff, ih, delays, delay_add]
      rfl

@[simp] theorem delays_zero_right (k : ℕ) (f : ℕ → G) : delays k f 0 = List.replicate k 0 := by
  induction k generalizing f with
  | zero => rfl
  | succ k ih => rw [delays, ih, delay_of_lt Nat.zero_lt_one, List.replicate_succ]

/-- Combs that have seen a zero keep zeros. -/
theorem delays_one {k : ℕ} {f : ℕ → G} (h0 : f 0 = 0) : delays k f 1 = List.replicate k 0 := by
  induction k generalizing f with
  | zero => rfl
  | succ k ih =>
      have hfst : delay 1 f 1 = 0 := (delay_add f 0).trans h0
      have hdiff : diff 1 f 0 = 0 := by rw [diff, h0, delay_of_lt Nat.zero_lt_one, sub_zero]
      rw [delays, hfst, ih hdiff, List.replicate_succ]

/-- Combs with a register behind each: what each of them keeps, and what it gives to the next. -/
def pipe : List (G × G) → G → List (G × G)
  | [], _ => []
  | (d, y) :: cs, x => (x, x - d) :: pipe cs y

/-- A comb and its register. -/
def stage (f : ℕ → G) : ℕ → G := delay 1 (diff 1 f)

/-- The registers of `k` combs behind a sequence, before its step `n`. -/
def stages : ℕ → (ℕ → G) → ℕ → List (G × G)
  | 0, _, _ => []
  | k + 1, f, n => (delay 1 f n, stage f n) :: stages k (stage f) n

theorem pipe_stages (k : ℕ) (f : ℕ → G) (n : ℕ) :
    pipe (stages k f n) (f n) = stages k f (n + 1) := by
  induction k generalizing f with
  | zero => rfl
  | succ k ih =>
      have hdiff : f n - delay 1 f n = diff 1 f n := rfl
      rw [stages, pipe, ih, hdiff, stages, delay_add, stage, delay_add]

@[simp] theorem stages_zero_right (k : ℕ) (f : ℕ → G) :
    stages k f 0 = List.replicate k (0, 0) := by
  induction k generalizing f with
  | zero => rfl
  | succ k ih =>
      rw [stages, ih, stage, delay_of_lt Nat.zero_lt_one, delay_of_lt Nat.zero_lt_one,
        List.replicate_succ]

theorem getD_stages {k j : ℕ} (hj : j < k) (f : ℕ → G) (n : ℕ) :
    ((stages k f n).getD j (0, 0)).2 = stage^[j + 1] f n := by
  induction k generalizing j f with
  | zero => exact absurd hj (Nat.not_lt_zero j)
  | succ k ih =>
      cases j with
      | zero => rfl
      | succ j => exact ih (Nat.lt_of_succ_lt_succ hj) (stage f)

theorem delay_delay (P R : ℕ) (f : ℕ → G) : delay P (delay R f) = delay (P + R) f := by
  funext n
  rw [delay, delay, delay]
  split_ifs with h1 h2 h3 h4
  · rw [Nat.sub_sub]
  · omega
  · omega
  · rfl
  · omega
  · rfl

theorem delay_iterate (k : ℕ) (f : ℕ → G) : (delay 1)^[k] f = delay k f := by
  induction k with
  | zero =>
      funext n
      simp [delay]
  | succ k ih => rw [Function.iterate_succ_apply', ih, delay_delay, Nat.add_comm]

theorem commute_delay_diff (P R : ℕ) : Function.Commute (delay P (G := G)) (diff R) := by
  intro f
  have h : delay P (diff R f) = fun n ↦ delay P f n - delay P (delay R f) n := by
    funext n
    rw [delay, delay, delay, diff]
    split_ifs
    · rfl
    · rw [sub_zero]
  rw [h, delay_delay, Nat.add_comm, ← delay_delay]
  rfl

/-- Registers behind combs only make them late. -/
theorem stage_iterate (k : ℕ) (f : ℕ → G) : stage^[k] f = (diff 1)^[k] (delay k f) := by
  have h := (commute_delay_diff (G := G) 1 1).comp_iterate k
  have hcomp : delay 1 ∘ diff 1 = stage (G := G) := rfl
  rw [hcomp] at h
  rw [h, Function.comp_apply, ((commute_delay_diff 1 1).iterate_iterate k k).eq, delay_iterate]

/-- **A decimator**: integrators, the lower rate, combs. -/
theorem diff_decimate_sum (R k : ℕ) (f : ℕ → G) :
    (diff 1)^[k] (decimate R (sum^[k] f)) = decimate R ((window R)^[k] f) := by
  cases k with
  | zero => rfl
  | succ k =>
      have h0 : (sum^[k + 1] f) 0 = 0 := by rw [Function.iterate_succ_apply', sum_zero]
      rw [diff_iterate_decimate _ h0, diff_iterate_sum]

/-- **An interpolator**: combs, the higher rate, integrators.  The values are held, and smoothed by a
window less than there are integrators. -/
theorem sum_upsample_stage (hR : 0 < R) (k : ℕ) (f : ℕ → G) :
    sum^[k + 1] (upsample R (stage^[k + 1] f)) = (window R)^[k] (hold R (delay (k + 1) f)) := by
  have hcomm := ((commute_diff_sum (G := G) R).iterate_iterate (k + 1) (k + 1)).eq
    (upsample R (delay (k + 1) f))
  rw [stage_iterate, upsample_diff_iterate hR, ← hcomm, diff_iterate_sum, Function.iterate_succ_apply,
    window_upsample hR]

end Registers

/-! ## How large the windows get -/

section Bounds

variable {f : ℕ → ℤ} {lo hi : ℤ}

theorem window_mem (hlo : lo ≤ 0) (hhi : 0 ≤ hi) (hf : ∀ n, lo ≤ f n ∧ f n ≤ hi) (n : ℕ) :
    R * lo ≤ window R f n ∧ window R f n ≤ R * hi := by
  have hcard : (Finset.Ico (n - R) n).card ≤ R := by
    rw [Nat.card_Ico]
    omega
  have hcard' : ((Finset.Ico (n - R) n).card : ℤ) ≤ R := by exact_mod_cast hcard
  have hmin := Finset.card_nsmul_le_sum (Finset.Ico (n - R) n) f lo fun i _ ↦ (hf i).1
  have hmax := Finset.sum_le_card_nsmul (Finset.Ico (n - R) n) f hi fun i _ ↦ (hf i).2
  rw [nsmul_eq_mul] at hmin hmax
  exact ⟨(mul_le_mul_of_nonpos_right hcard' hlo).trans hmin,
    hmax.trans (mul_le_mul_of_nonneg_right hcard' hhi)⟩

/-- **`k` windows of length `R` come to at most `R ^ k` times the values.** -/
theorem window_iterate_mem (hlo : lo ≤ 0) (hhi : 0 ≤ hi) (hf : ∀ n, lo ≤ f n ∧ f n ≤ hi)
    (k n : ℕ) : R ^ k * lo ≤ (window R)^[k] f n ∧ (window R)^[k] f n ≤ R ^ k * hi := by
  induction k generalizing n with
  | zero => simpa using hf n
  | succ k ih =>
      have hpow : (0 : ℤ) ≤ R ^ k := by positivity
      have hstep := window_mem (R := R) (mul_nonpos_of_nonneg_of_nonpos hpow hlo)
        (mul_nonneg hpow hhi) ih n
      rw [Function.iterate_succ_apply', pow_succ']
      constructor <;> linarith [hstep.1, hstep.2]

theorem hold_mem (hlo : lo ≤ 0) (hhi : 0 ≤ hi) (hf : ∀ n, lo ≤ f n ∧ f n ≤ hi) (n : ℕ) :
    lo ≤ hold R f n ∧ hold R f n ≤ hi := by
  rw [hold]
  split
  · exact ⟨hlo, hhi⟩
  · exact hf _

end Bounds

/-! ## Words -/

variable {H : Type*} [AddCommGroup H]

theorem map_delay (φ : G →+ H) (R : ℕ) (f : ℕ → G) (n : ℕ) :
    delay R (fun i ↦ φ (f i)) n = φ (delay R f n) := by
  rw [delay, delay, apply_ite φ, map_zero]

theorem map_hold (φ : G →+ H) (R : ℕ) (f : ℕ → G) (n : ℕ) :
    hold R (fun i ↦ φ (f i)) n = φ (hold R f n) := by
  rw [hold, hold, apply_ite φ, map_zero]

/-- Windows are the same in any group. -/
theorem map_window_iterate (φ : G →+ H) (R k : ℕ) (f : ℕ → G) (n : ℕ) :
    (window R)^[k] (fun i ↦ φ (f i)) n = φ ((window R)^[k] f n) := by
  induction k generalizing n with
  | zero => rfl
  | succ k ih =>
      rw [Function.iterate_succ_apply', Function.iterate_succ_apply', window, window, map_sum]
      exact Finset.sum_congr rfl fun i _ ↦ ih i

/-- Integers as words. -/
def word (w : ℕ) : ℤ →+ BitVec w := Int.castAddHom (BitVec w)

theorem word_apply (w : ℕ) (v : ℤ) : word w v = BitVec.ofInt w v := rfl

/-- **Words that wrap on the way have the windows right** if these fit. -/
theorem toInt_window_iterate {w : ℕ} {f : ℕ → ℤ} {lo hi : ℤ} (hlo : lo ≤ 0) (hhi : 0 ≤ hi)
    (hf : ∀ n, lo ≤ f n ∧ f n ≤ hi) {R k : ℕ} (hmin : -2 ^ w ≤ R ^ k * lo)
    (hmax : R ^ k * hi < 2 ^ w) (n : ℕ) :
    ((window R)^[k] (fun i ↦ word (w + 1) (f i)) n).toInt = (window R)^[k] f n := by
  obtain ⟨hl, hh⟩ := window_iterate_mem hlo hhi hf k n (R := R)
  have hpow : ((2 ^ (w + 1) : ℕ) : ℤ) = 2 * 2 ^ w := by
    push_cast
    rw [pow_succ, mul_comm]
  rw [map_window_iterate, word_apply, BitVec.toInt_ofInt]
  exact Int.bmod_eq_of_le (by rw [hpow]; omega) (by rw [hpow]; omega)

end TetraPhy.IntegratorComb
