import Mathlib.Algebra.Ring.Nat

/-!
# Bit fields

Hardware assembles a word by laying its fields next to each other, and takes it apart
by slicing.  `place n lo x` is the field `x` at bits `lo, lo + 1, …` of an `n`-bit word
that is 0 elsewhere; a word is the bitwise or of its fields.  A slice of such a word is
computed field by field:

* `slice_place_self` — the slice a field was placed at is the field;
* `slice_place_apart` — a slice that does not meet it reads 0 from it
  (slicing distributes over the fields by `BitVec.extractLsb'_or`).

`put word lo x` overwrites the field at bit `lo`, with the same two rules.
-/

namespace TetraPhy.BitField

/-- The field `x` at bit `lo` of an `n`-bit word. -/
def place (n lo : ℕ) {w : ℕ} (x : BitVec w) : BitVec n := x.setWidth n <<< lo

theorem getLsbD_place {n lo w : ℕ} (x : BitVec w) (i : ℕ) :
    (place n lo x).getLsbD i = (decide (i < n) && decide (lo ≤ i) && x.getLsbD (i - lo)) := by
  rw [place, BitVec.getLsbD_shiftLeft, BitVec.getLsbD_setWidth]
  rcases Nat.lt_or_ge i n with hi | hi
  · have hsub : i - lo < n := Nat.lt_of_le_of_lt (Nat.sub_le ..) hi
    rcases Nat.lt_or_ge i lo with hlo | hlo
    · simp [hi, hlo, Nat.not_le.2 hlo]
    · simp [hi, hlo, hsub, Nat.not_lt.2 hlo]
  · simp [Nat.not_lt.2 hi]

theorem getLsbD_place_apart {n lo w : ℕ} (x : BitVec w) {i : ℕ} (h : i < lo ∨ lo + w ≤ i) :
    (place n lo x).getLsbD i = false := by
  rw [getLsbD_place]
  rcases h with h | h
  · simp [Nat.not_le.2 h]
  · simp [BitVec.getLsbD_of_ge x (i - lo) (by omega)]

theorem slice_place_self {n lo w : ℕ} (x : BitVec w) (h : lo + w ≤ n) :
    (place n lo x).extractLsb' lo w = x := by
  refine BitVec.eq_of_getLsbD_eq fun i hi ↦ ?_
  have hin : lo + i < n := by omega
  rw [BitVec.getLsbD_extractLsb', getLsbD_place, Nat.add_sub_cancel_left]
  simp only [hi, hin, Nat.le_add_right, decide_true, Bool.true_and]

theorem slice_place_apart {n lo w : ℕ} (x : BitVec w) {k v : ℕ}
    (h : k + v ≤ lo ∨ lo + w ≤ k) : (place n lo x).extractLsb' k v = 0#v := by
  refine BitVec.eq_of_getLsbD_eq fun i hi ↦ ?_
  rw [BitVec.getLsbD_extractLsb', getLsbD_place_apart x (by omega), BitVec.getLsbD_zero,
    Bool.and_false]

/-- A slice of a slice. -/
theorem slice_slice {n w v : ℕ} (x : BitVec n) (lo k : ℕ) (h : k + v ≤ w) :
    (x.extractLsb' lo w).extractLsb' k v = x.extractLsb' (lo + k) v := by
  refine BitVec.eq_of_getLsbD_eq fun i hi ↦ ?_
  have hlt : k + i < w := by omega
  rw [BitVec.getLsbD_extractLsb', BitVec.getLsbD_extractLsb', BitVec.getLsbD_extractLsb',
    decide_eq_true hlt, Bool.true_and, Nat.add_assoc]
/-- A widened field is all within the mask of its width. -/
theorem setWidth_and_mask {n w : ℕ} (x : BitVec w) (h : w ≤ n) :
    x.setWidth n &&& BitVec.ofNat n (2 ^ w - 1) = x.setWidth n := by
  refine BitVec.eq_of_toNat_eq ?_
  have hx : x.toNat < 2 ^ w := x.isLt
  have hpow : 2 ^ w ≤ 2 ^ n := Nat.pow_le_pow_right Nat.zero_lt_two h
  rw [BitVec.toNat_and, BitVec.toNat_setWidth, BitVec.toNat_ofNat,
    Nat.mod_eq_of_lt (Nat.lt_of_lt_of_le hx hpow), Nat.mod_eq_of_lt (by omega),
    Nat.and_two_pow_sub_one_eq_mod, Nat.mod_eq_of_lt hx]

/-! ## Fields of 32-bit words -/

theorem toNat_and_mask (v m : UInt32) {k : ℕ} (h : m.toNat = 2 ^ k - 1) :
    (v &&& m).toNat = v.toNat % 2 ^ k := by
  rw [UInt32.toNat_and, h, Nat.and_two_pow_sub_one_eq_mod]

/-- Shifting and masking reads a field. -/
theorem toNat_shr_and_mask (v s m : UInt32) {lo k : ℕ} (hs : s.toNat % 32 = lo)
    (h : m.toNat = 2 ^ k - 1) :
    ((v >>> s) &&& m).toNat = (v.toBitVec.extractLsb' lo k).toNat := by
  rw [toNat_and_mask _ m h, UInt32.toNat_shiftRight, hs, BitVec.extractLsb'_toNat]
  rfl

/-- A flag that was read is the flag. -/
theorem flag_ne_zero {x : UInt32} {b : Bool} (h : x.toNat = b.toNat) : (x != 0) = b := by
  have hzero : x = 0 ↔ x.toNat = 0 := UInt32.toNat_inj.symm
  rw [h] at hzero
  cases b with
  | false => simpa using hzero
  | true => simpa using hzero

/-! ## Fields of fields -/

@[simp] theorem place_zero {n lo w : ℕ} : place n lo (0#w) = 0#n := by
  refine BitVec.eq_of_getLsbD_eq fun i hi ↦ ?_
  simp [getLsbD_place]

theorem place_or {n lo w : ℕ} (x y : BitVec w) :
    place n lo (x ||| y) = place n lo x ||| place n lo y := by
  refine BitVec.eq_of_getLsbD_eq fun i hi ↦ ?_
  rw [BitVec.getLsbD_or, getLsbD_place, getLsbD_place, getLsbD_place, BitVec.getLsbD_or]
  cases decide (i < n) <;> cases decide (lo ≤ i) <;> simp

/-- A field of a field, if nothing of it is cut off. -/
theorem place_place {n lo m k w : ℕ} (x : BitVec w) (h : k + w ≤ m) :
    place n lo (place m k x) = place n (lo + k) x := by
  refine BitVec.eq_of_getLsbD_eq fun i hi ↦ ?_
  rw [getLsbD_place, getLsbD_place, getLsbD_place]
  rcases Nat.lt_or_ge i lo with hlo | hlo
  · have hlo' : ¬ lo + k ≤ i := by omega
    simp [Nat.not_le.2 hlo, hlo']
  have hsub : i - lo - k = i - (lo + k) := by omega
  rcases Nat.lt_or_ge (i - lo) m with hm | hm
  · have hiff : k ≤ i - lo ↔ lo + k ≤ i := by omega
    simp [hlo, hm, hsub, hiff, Bool.and_assoc]
  · have hout : x.getLsbD (i - (lo + k)) = false := BitVec.getLsbD_of_ge _ _ (by omega)
    simp [hsub, hout]

/-! ## Overwriting -/

/-- Bits `lo, lo + 1, …` are overwritten by the field `x`. -/
def put {n w : ℕ} (word : BitVec n) (lo : ℕ) (x : BitVec w) : BitVec n :=
  word &&& ~~~place n lo (BitVec.allOnes w) ||| place n lo x

theorem slice_put_self {n lo w : ℕ} (word : BitVec n) (x : BitVec w) (h : lo + w ≤ n) :
    (put word lo x).extractLsb' lo w = x := by
  have hones : (~~~place n lo (BitVec.allOnes w)).extractLsb' lo w = 0#w := by
    refine BitVec.eq_of_getLsbD_eq fun i hi ↦ ?_
    have hin : lo + i < n := by omega
    rw [BitVec.getLsbD_extractLsb', BitVec.getLsbD_not, getLsbD_place, Nat.add_sub_cancel_left,
      BitVec.getLsbD_zero]
    simp [hi, hin]
  rw [put, BitVec.extractLsb'_or, BitVec.extractLsb'_and, hones, slice_place_self x h,
    BitVec.and_zero, BitVec.zero_or]

theorem slice_put_apart {n lo w : ℕ} (word : BitVec n) (x : BitVec w) {k v : ℕ}
    (h : k + v ≤ lo ∨ lo + w ≤ k) : (put word lo x).extractLsb' k v = word.extractLsb' k v := by
  refine BitVec.eq_of_getLsbD_eq fun i hi ↦ ?_
  have hapart : k + i < lo ∨ lo + w ≤ k + i := by omega
  rw [BitVec.getLsbD_extractLsb', BitVec.getLsbD_extractLsb', put, BitVec.getLsbD_or,
    BitVec.getLsbD_and, BitVec.getLsbD_not, getLsbD_place_apart _ hapart,
    getLsbD_place_apart _ hapart, Bool.not_false, Bool.and_true, Bool.or_false]
  by_cases hin : k + i < n
  · rw [decide_eq_true hin, Bool.and_true]
  · rw [BitVec.getLsbD_of_ge word _ (Nat.le_of_not_lt hin), Bool.false_and]

end TetraPhy.BitField
