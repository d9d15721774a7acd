import Mathlib.Data.List.Basic
import Mathlib.Logic.Function.Iterate
import Mathlib.Algebra.Ring.Nat
import Mathlib.Data.Int.Notation

/-!
# Deadlines on a wrapping clock

A 32-bit millisecond clock wraps, so a program compares a deadline with the time by the sign
of their difference.  `passed_iff` says when that is right: for a span shorter than half the
range, looked at less than half the range after it ended.
-/

namespace TetraPhy.Deadline

/-- The difference of the time and the deadline, as a signed word, is not negative. -/
def passed (now deadline : UInt32) : Bool := decide (0 ≤ (now - deadline).toInt32)

theorem passed_eq (now deadline : UInt32) :
    passed now deadline = decide ((now - deadline).toNat < 2 ^ 31) := by
  rw [passed]
  refine decide_eq_decide.2 ?_
  rw [Int32.le_iff_toInt_le]
  have hcast : (now - deadline).toInt32.toInt = ((now - deadline).toNat : ℤ).bmod (2 ^ 32) := by
    rw [Int32.toInt, UInt32.toBitVec_toInt32, BitVec.toInt_eq_toNat_bmod, UInt32.toNat_toBitVec]
  have hlt : (now - deadline).toNat < 2 ^ 32 := (now - deadline).toNat_lt
  rw [hcast, Int.bmod_def, Int.emod_eq_of_lt (by omega) (by omega)]
  change (0 : ℤ) ≤ _ ↔ _
  split <;> omega

/-- **A deadline set `T` ahead of the time `start` has passed at `start + k` exactly from
`k = T` on.** -/
theorem passed_iff {start k T : ℕ} (hT : T < 2 ^ 31) (hk : k < T + 2 ^ 31) :
    passed (UInt32.ofNat (start + k)) (UInt32.ofNat start + UInt32.ofNat T) ↔ T ≤ k := by
  rw [passed_eq, decide_eq_true_iff]
  have hsub : (UInt32.ofNat (start + k) - (UInt32.ofNat start + UInt32.ofNat T)).toNat =
      ((2 ^ 32 - (start % 2 ^ 32 + T % 2 ^ 32) % 2 ^ 32) + (start + k) % 2 ^ 32) % 2 ^ 32 := by
    simp only [UInt32.toNat_sub, UInt32.toNat_add, UInt32.toNat_ofNat']
  rw [hsub]
  omega

end TetraPhy.Deadline

/-!
# Odometers

A cascade of counters, each of which moves on when the one below it wraps, counts in mixed
radix.  Digits and radices are listed lowest first, and the highest digit wraps without a
successor:

* `digits_value`, `legal_digits` — legal digits are those of a number;
* `advance_digits` — one step of the cascade adds one;
* `iterate_advance` — `n` steps add `n`.
-/

namespace TetraPhy.Odometer

/-- The number that digits stand for. -/
def value : List ℕ → List ℕ → ℕ
  | r :: rs, d :: ds => d + r * value rs ds
  | _, _ => 0

/-- The digits of a number, modulo the product of the radices. -/
def digits : List ℕ → ℕ → List ℕ
  | [], _ => []
  | r :: rs, n => n % r :: digits rs (n / r)

/-- Every digit is below its radix. -/
def Legal (rs ds : List ℕ) : Prop := List.Forall₂ (fun r d ↦ d < r) rs ds

/-- One step of the cascade: a digit that wraps carries. -/
def advance : List ℕ → List ℕ → List ℕ
  | r :: rs, d :: ds => if d + 1 = r then 0 :: advance rs ds else (d + 1) :: ds
  | _, _ => []

variable {rs ds : List ℕ}

theorem digits_value (h : Legal rs ds) : digits rs (value rs ds) = ds := by
  induction h with
  | nil => rfl
  | @cons r d rs ds hd _ ih =>
      have hr : 0 < r := Nat.zero_lt_of_lt hd
      rw [value, digits, Nat.add_mul_mod_self_left, Nat.mod_eq_of_lt hd,
        Nat.add_mul_div_left _ _ hr, Nat.div_eq_of_lt hd, Nat.zero_add, ih]

theorem legal_digits (hrs : ∀ r ∈ rs, 0 < r) (n : ℕ) : Legal rs (digits rs n) := by
  induction rs generalizing n with
  | nil => exact .nil
  | cons r rs ih =>
      rw [List.forall_mem_cons] at hrs
      exact .cons (Nat.mod_lt n hrs.1) (ih hrs.2 _)

/-- **One step of the cascade adds one.** -/
theorem advance_digits (hrs : ∀ r ∈ rs, 0 < r) (n : ℕ) :
    advance rs (digits rs n) = digits rs (n + 1) := by
  induction rs generalizing n with
  | nil => rfl
  | cons r rs ih =>
      rw [List.forall_mem_cons] at hrs
      have hsplit : (n % r + 1) + r * (n / r) = n + 1 := by
        rw [Nat.add_right_comm, Nat.mod_add_div]
      rw [digits, digits, advance, ← hsplit, Nat.add_mul_mod_self_left,
        Nat.add_mul_div_left _ _ hrs.1]
      by_cases hwrap : n % r + 1 = r
      · rw [if_pos hwrap, hwrap, Nat.mod_self, Nat.div_self hrs.1, ih hrs.2, Nat.add_comm 1]
      · have hlt : n % r + 1 < r := Nat.lt_of_le_of_ne (Nat.mod_lt n hrs.1) hwrap
        rw [if_neg hwrap, Nat.mod_eq_of_lt hlt, Nat.div_eq_of_lt hlt, Nat.zero_add]

theorem Legal.pos (h : Legal rs ds) : ∀ r ∈ rs, 0 < r := by
  induction h with
  | nil => exact fun _ hr ↦ absurd hr List.not_mem_nil
  | cons hd _ ih => exact List.forall_mem_cons.2 ⟨Nat.zero_lt_of_lt hd, ih⟩

theorem Legal.advance_eq (h : Legal rs ds) : advance rs ds = digits rs (value rs ds + 1) := by
  rw [← advance_digits h.pos, digits_value h]

/-- The cascade keeps its digits legal. -/
theorem Legal.advance (h : Legal rs ds) : Legal rs (advance rs ds) := by
  rw [h.advance_eq]
  exact legal_digits h.pos _

/-- **`n` steps of the cascade add `n`.** -/
theorem iterate_advance (h : Legal rs ds) (n : ℕ) :
    (advance rs)^[n] ds = digits rs (value rs ds + n) := by
  induction n with
  | zero => exact (digits_value h).symm
  | succ n ih => rw [Function.iterate_succ_apply', ih, advance_digits h.pos, Nat.add_assoc]

end TetraPhy.Odometer
