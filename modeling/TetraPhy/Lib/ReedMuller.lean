import Mathlib.Algebra.Order.Ring.Nat
import Mathlib.Tactic.Ring

/-!
# Reed–Muller codes

A word of length `2 ^ m` is given by its bits `f 0, f 1, …`.  The codes are built by the
`(u | u + v)` construction: a word of length `2 ^ (m + 1)` is in a code if its first half is in
the code of half the length and the sum of its halves in the one of the next lower order.
`IsWord m k` is the code of order `k - 1`; `IsWord m 0` has the zero word only.

**`IsWord.le_weight`** is the minimum distance `2 ^ (m - r)` of the code of order `r`, and
`isWord_xor` that the codes are linear.
-/

namespace TetraPhy.ReedMuller

/-! ## Weights -/

/-- How many of `f 0, …, f (n - 1)` are set. -/
def weight (f : ℕ → Bool) : ℕ → ℕ
  | 0 => 0
  | n + 1 => weight f n + (f n).toNat

variable {f g : ℕ → Bool} {n : ℕ}

theorem weight_congr (h : ∀ i < n, f i = g i) : weight f n = weight g n := by
  induction n with
  | zero => rfl
  | succ n ih =>
      rw [weight, weight, ih fun i hi ↦ h i (Nat.lt_succ_of_lt hi), h n (Nat.lt_succ_self n)]

theorem weight_add (f : ℕ → Bool) (n k : ℕ) :
    weight f (n + k) = weight f n + weight (fun i ↦ f (n + i)) k := by
  induction k with
  | zero => rfl
  | succ k ih => rw [← Nat.add_assoc, weight, ih, weight, Nat.add_assoc]

theorem weight_le (f : ℕ → Bool) (n : ℕ) : weight f n ≤ n := by
  induction n with
  | zero => exact Nat.le_refl 0
  | succ n ih => exact Nat.add_le_add ih (Bool.toNat_le (f n))

/-- The weight of a sum. -/
theorem weight_xor_le (f g : ℕ → Bool) (n : ℕ) :
    weight (fun i ↦ f i ^^ g i) n ≤ weight f n + weight g n := by
  induction n with
  | zero => exact Nat.le_refl 0
  | succ n ih =>
      have hbit : (f n ^^ g n).toNat ≤ (f n).toNat + (g n).toNat := by
        cases f n <;> cases g n <;> decide
      rw [weight, weight, weight]
      omega

theorem weight_pos {i : ℕ} (hi : i < n) (h : f i = true) : 0 < weight f n := by
  induction n with
  | zero => exact absurd hi (Nat.not_lt_zero i)
  | succ n ih =>
      rw [weight]
      rcases Nat.lt_succ_iff_lt_or_eq.1 hi with hlt | rfl
      · exact Nat.add_pos_left (ih hlt) _
      · rw [h]
        exact Nat.add_pos_right _ (by decide)

/-! ## The codes -/

/-- The word of length `2 ^ m` is in the code of order `k - 1`. -/
def IsWord : ℕ → ℕ → (ℕ → Bool) → Prop
  | 0, k, f => k = 0 → f 0 = false
  | m + 1, k, f => IsWord m k f ∧ IsWord m (k - 1) fun i ↦ f i ^^ f (2 ^ m + i)

instance decidableIsWord : ∀ m k f, Decidable (IsWord m k f)
  | 0, k, f => inferInstanceAs (Decidable (k = 0 → f 0 = false))
  | m + 1, k, f =>
      have := decidableIsWord m k f
      have := decidableIsWord m (k - 1) fun i ↦ f i ^^ f (2 ^ m + i)
      inferInstanceAs (Decidable (_ ∧ _))

variable {m k : ℕ}

theorem isWord_congr (h : ∀ i, f i = g i) : IsWord m k f ↔ IsWord m k g := by
  rw [show f = g from funext h]

theorem isWord_false (m k : ℕ) : IsWord m k fun _ ↦ false := by
  induction m generalizing k with
  | zero => exact fun _ ↦ rfl
  | succ m ih => exact ⟨ih k, ih (k - 1)⟩

/-- **The codes are linear.** -/
theorem isWord_xor (hf : IsWord m k f) (hg : IsWord m k g) :
    IsWord m k fun i ↦ f i ^^ g i := by
  induction m generalizing k f g with
  | zero =>
      intro hk
      change (f 0 ^^ g 0) = false
      rw [hf hk, hg hk, Bool.xor_self]
  | succ m ih =>
      refine ⟨ih hf.1 hg.1, (isWord_congr fun i ↦ ?_).1 (ih hf.2 hg.2)⟩
      simp only [Bool.xor_assoc, Bool.xor_left_comm]

theorem weight_halves (f : ℕ → Bool) (m : ℕ) : weight f (2 ^ (m + 1)) =
    weight f (2 ^ m) + weight (fun i ↦ f (2 ^ m + i)) (2 ^ m) := by
  rw [pow_succ, Nat.mul_two, weight_add]

theorem IsWord.eq_false (h : IsWord m 0 f) {i : ℕ} (hi : i < 2 ^ m) : f i = false := by
  induction m generalizing f i with
  | zero =>
      obtain rfl : i = 0 := Nat.lt_one_iff.1 hi
      exact h rfl
  | succ m ih =>
      rcases Nat.lt_or_ge i (2 ^ m) with hlt | hge
      · exact ih h.1 hlt
      · obtain ⟨j, rfl⟩ := Nat.exists_eq_add_of_le hge
        have hj : j < 2 ^ m := by
          rw [pow_succ] at hi
          omega
        have hsum := ih h.2 hj
        rwa [ih h.1 hj, Bool.false_xor] at hsum

/-- **The minimum distance**: a word that is not 0 has a weight of at least `2 ^ (m + 1 - k)`. -/
theorem IsWord.le_weight (h : IsWord m k f) (hf : ∃ i < 2 ^ m, f i = true) :
    2 ^ (m + 1) ≤ weight f (2 ^ m) * 2 ^ k := by
  induction m generalizing k f with
  | zero =>
      obtain ⟨i, hi, hset⟩ := hf
      have hpos := weight_pos hi hset
      have hk : k ≠ 0 := by
        rintro rfl
        exact absurd ((h.eq_false hi).symm.trans hset) Bool.false_ne_true
      have hpow : 2 ^ 1 ≤ 2 ^ k := Nat.pow_le_pow_right (by decide) (Nat.pos_of_ne_zero hk)
      exact hpow.trans (Nat.le_mul_of_pos_left _ hpos)
  | succ m ih =>
      rw [weight_halves]
      by_cases hsum : ∃ i < 2 ^ m, (f i ^^ f (2 ^ m + i)) = true
      · -- the halves differ: their sum is a word of the next lower order
        have hle := ih h.2 hsum
        have hweight := weight_xor_le f (fun i ↦ f (2 ^ m + i)) (2 ^ m)
        have hk : k ≠ 0 := by
          rintro rfl
          obtain ⟨i, hi, hset⟩ := hsum
          exact absurd ((h.2.eq_false hi).symm.trans hset) Bool.false_ne_true
        obtain ⟨k, rfl⟩ := Nat.exists_eq_succ_of_ne_zero hk
        calc 2 ^ (m + 1 + 1) = 2 ^ (m + 1) * 2 := pow_succ 2 (m + 1)
          _ ≤ weight (fun i ↦ f i ^^ f (2 ^ m + i)) (2 ^ m) * 2 ^ k * 2 :=
              Nat.mul_le_mul_right 2 hle
          _ ≤ (weight f (2 ^ m) + weight (fun i ↦ f (2 ^ m + i)) (2 ^ m)) * 2 ^ k * 2 :=
              Nat.mul_le_mul_right 2 (Nat.mul_le_mul_right _ hweight)
          _ = (weight f (2 ^ m) + weight (fun i ↦ f (2 ^ m + i)) (2 ^ m)) * 2 ^ (k + 1) := by
              rw [Nat.mul_assoc, ← pow_succ]
      · -- the halves are the same
        have hsame : ∀ i < 2 ^ m, f (2 ^ m + i) = f i := by
          intro i hi
          have hbit : ¬ (f i ^^ f (2 ^ m + i)) = true := fun hset ↦ hsum ⟨i, hi, hset⟩
          revert hbit
          cases f i <;> cases f (2 ^ m + i) <;> decide
        have hfirst : ∃ i < 2 ^ m, f i = true := by
          obtain ⟨i, hi, hset⟩ := hf
          rcases Nat.lt_or_ge i (2 ^ m) with hlt | hge
          · exact ⟨i, hlt, hset⟩
          · obtain ⟨j, rfl⟩ := Nat.exists_eq_add_of_le hge
            have hj : j < 2 ^ m := by
              rw [pow_succ] at hi
              omega
            exact ⟨j, hj, (hsame j hj).symm.trans hset⟩
        rw [weight_congr hsame]
        calc 2 ^ (m + 1 + 1) = 2 ^ (m + 1) * 2 := pow_succ 2 (m + 1)
          _ ≤ weight f (2 ^ m) * 2 ^ k * 2 := Nat.mul_le_mul_right 2 (ih h.1 hfirst)
          _ = (weight f (2 ^ m) + weight f (2 ^ m)) * 2 ^ k := by ring

end TetraPhy.ReedMuller
