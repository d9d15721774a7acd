import Mathlib.Algebra.Ring.Nat
import Mathlib.Data.List.Basic
import TetraPhy.Lib.AirOrder

/-!
# Reading fields and fill bits

A receiver reads a block field by field.  `readField n` takes the next `n` bits as a number, the
first bit highest, and `expect n v` demands that this number is `v`.

A block that is not full is closed with fill bits, a one and then zeros; `unfill` takes them off.

A buffer that is addressed by bit numbers is read through its windows: `window b k m` are the `m`
bits from bit `k` on.

* `readField_append` — what was written at the head of a block is read from it;
* `unfill_append` — the fill bits are taken off, and nothing else;
* `written_append` — fields that follow one another are each in the buffer, at their own bits;
* `of_readField_window`, `of_expect_window` — a field that was read from a window is the window of
  its length, and leaves the window behind it;
* `readField_word` — a field of a word that was sent is a slice of it;
* `readWord_append`, `readFlagged_some` — the same for fields that are read as words, and for
  those that follow a flag.
-/

namespace TetraPhy.FieldReader

/-- The number a field stands for. -/
def number : List Bool → ℕ
  | [] => 0
  | b :: bs => b.toNat * 2 ^ bs.length + number bs

/-- Read a field of `n` bits. -/
def readField (n : ℕ) (bits : List Bool) : Option (ℕ × List Bool) :=
  if n ≤ bits.length then some (number (bits.take n), bits.drop n) else none

/-- Read a field of `n` bits that must be `v`. -/
def expect (n v : ℕ) (bits : List Bool) : Option (List Bool) :=
  (readField n bits).bind fun (x, rest) ↦ if x = v then some rest else none

theorem readField_append {n : ℕ} {a : List Bool} (h : a.length = n) (b : List Bool) :
    readField n (a ++ b) = some (number a, b) := by
  subst h
  rw [readField, if_pos (by simp), List.take_left, List.drop_left]

theorem expect_append {n v : ℕ} {a : List Bool} (h : a.length = n) (hv : number a = v)
    (b : List Bool) : expect n v (a ++ b) = some b := by
  rw [expect, readField_append h, Option.bind_some]
  exact if_pos hv

/-! ## Fill bits -/

/-- The bits without the zeros at their end and the one before these. -/
def unfill (bits : List Bool) : List Bool := (bits.reverse.dropWhile (!·)).tail.reverse

theorem dropWhile_replicate_false (k : ℕ) (xs : List Bool) :
    (List.replicate k false ++ xs).dropWhile (!·) = xs.dropWhile (!·) := by
  induction k with
  | zero => rfl
  | succ k ih => exact ih

/-- The fill bits are taken off, and nothing else. -/
theorem unfill_append (xs : List Bool) (k : ℕ) :
    unfill (xs ++ true :: List.replicate k false) = xs := by
  rw [unfill, List.reverse_append, List.reverse_cons, List.reverse_replicate, List.append_assoc,
    dropWhile_replicate_false]
  exact List.reverse_reverse xs

/-! ## Windows -/

/-- The `m` bits of a buffer from bit `k` on. -/
def window (b : ℕ → Bool) (k m : ℕ) : List Bool := (List.range' k m).map b

variable (b : ℕ → Bool)

@[simp] theorem length_window (k m : ℕ) : (window b k m).length = m := by
  rw [window, List.length_map, List.length_range']

theorem window_add (k m n : ℕ) : window b k (m + n) = window b k m ++ window b (k + m) n := by
  rw [window, window, window, ← List.map_append, List.range'_append_1]

theorem take_window {k n m : ℕ} (h : n ≤ m) : (window b k m).take n = window b k n := by
  obtain ⟨r, rfl⟩ := Nat.exists_eq_add_of_le h
  rw [window_add, List.take_left' (length_window b k n)]

theorem drop_window {k n m : ℕ} (h : n ≤ m) : (window b k m).drop n = window b (k + n) (m - n) := by
  obtain ⟨r, rfl⟩ := Nat.exists_eq_add_of_le h
  rw [window_add, List.drop_left' (length_window b k n), Nat.add_sub_cancel_left]

theorem of_readField_window {n k m x : ℕ} {rest : List Bool}
    (h : readField n (window b k m) = some (x, rest)) :
    n ≤ m ∧ number (window b k n) = x ∧ rest = window b (k + n) (m - n) := by
  rw [readField, length_window] at h
  split_ifs at h with hn
  obtain ⟨hx, hrest⟩ := Prod.mk.inj (Option.some.inj h)
  exact ⟨hn, by rw [← hx, take_window b hn], by rw [← hrest, drop_window b hn]⟩

theorem of_expect_window {n k m v : ℕ} {rest : List Bool}
    (h : expect n v (window b k m) = some rest) :
    n ≤ m ∧ number (window b k n) = v ∧ rest = window b (k + n) (m - n) := by
  obtain ⟨⟨x, rest'⟩, hread, hif⟩ := Option.bind_eq_some_iff.1 h
  obtain ⟨hn, hx, hrest⟩ := of_readField_window b hread
  dsimp only at hif
  split_ifs at hif with hv
  exact ⟨hn, hx.trans hv, (Option.some.inj hif).symm.trans hrest⟩

theorem number_append (xs ys : List Bool) :
    number (xs ++ ys) = number xs * 2 ^ ys.length + number ys := by
  induction xs with
  | nil => rw [List.nil_append, number, Nat.zero_mul, Nat.zero_add]
  | cons x xs ih =>
      rw [List.cons_append, number, number, ih, List.length_append, Nat.pow_add, Nat.add_mul,
        Nat.mul_assoc, Nat.add_assoc]

theorem number_lt (xs : List Bool) : number xs < 2 ^ xs.length := by
  induction xs with
  | nil => exact Nat.one_pos
  | cons x xs ih =>
      have hbit : x.toNat * 2 ^ xs.length ≤ 1 * 2 ^ xs.length :=
        Nat.mul_le_mul_right _ x.toNat_le
      rw [number, List.length_cons, Nat.pow_succ]
      omega

theorem number_inj {xs ys : List Bool} (hlen : xs.length = ys.length)
    (h : number xs = number ys) : xs = ys := by
  induction xs generalizing ys with
  | nil => exact (List.eq_nil_of_length_eq_zero hlen.symm).symm
  | cons x xs ih =>
      cases ys with
      | nil => cases hlen
      | cons y ys =>
          have htail : xs.length = ys.length := Nat.succ.inj hlen
          have hx := number_lt xs
          have hy := number_lt ys
          rw [number, number, htail] at h
          rw [htail] at hx
          have hhead : x = y := by
            cases x <;> cases y <;> simp only [Bool.toNat_true, Bool.toNat_false] at h ⊢ <;> omega
          subst hhead
          rw [ih htail (Nat.add_left_cancel h)]

/-- The bits are in the buffer from bit `k` on. -/
def Written (k : ℕ) (bits : List Bool) : Prop := window b k bits.length = bits

instance (k : ℕ) (bits : List Bool) : Decidable (Written b k bits) :=
  inferInstanceAs (Decidable (_ = _))

variable {b} in
/-- Fields that follow one another. -/
theorem written_append {k : ℕ} {xs ys : List Bool} :
    Written b k (xs ++ ys) ↔ Written b k xs ∧ Written b (k + xs.length) ys := by
  rw [Written, List.length_append, window_add]
  constructor
  · exact fun h ↦ List.append_inj h (length_window _ _ _)
  · exact fun ⟨hx, hy⟩ ↦ congrArg₂ (· ++ ·) hx hy

/-- Windows of `w` bits that follow one another. -/
theorem flatMap_window (k w n : ℕ) :
    ((List.range n).flatMap fun j ↦ window b (k + j * w) w) = window b k (n * w) := by
  induction n with
  | zero => rw [Nat.zero_mul]; rfl
  | succ n ih =>
      rw [List.range_succ, List.flatMap_append, ih, List.flatMap_singleton, ← window_add,
        Nat.succ_mul]

/-- Bits that are shifted into a word one after another are a field of it. -/
theorem toNat_shiftIn {k : ℕ} {acc : ℕ → UInt32} (h0 : acc 0 = 0)
    (hs : ∀ n, acc (n + 1) = (acc n <<< 1) ||| (b (k + n)).toNat.toUInt32) {n : ℕ} (h : n ≤ 32) :
    (acc n).toNat = number (window b k n) := by
  induction n with
  | zero =>
      rw [h0]
      rfl
  | succ n ih =>
      have hv := ih (by omega)
      have hlt : (acc n).toNat < 2 ^ n := by
        rw [hv]
        exact (number_lt _).trans_eq (by rw [length_window])
      have hpow : 2 ^ n ≤ 2 ^ 31 := Nat.pow_le_pow_right Nat.zero_lt_two (by omega)
      have hshift : (acc n <<< 1).toNat = 2 ^ 1 * (acc n).toNat := by
        rw [UInt32.toNat_shiftLeft, Nat.shiftLeft_eq]
        change _ * 2 ^ 1 % 2 ^ 32 = _
        omega
      have hbit : (b (k + n)).toNat.toUInt32.toNat = (b (k + n)).toNat := by
        cases b (k + n) <;> rfl
      have hone : (b (k + n)).toNat < 2 ^ 1 := Nat.lt_succ_of_le (Bool.toNat_le _)
      rw [hs, UInt32.toNat_or, hshift, hbit, ← Nat.two_pow_add_eq_or_of_lt hone, hv, window_add,
        number_append, length_window]
      change 2 ^ 1 * _ + _ = _ * 2 ^ 1 + ((b (k + n)).toNat * 2 ^ 0 + 0)
      omega

/-! ## Words -/

open AirOrder

theorem onAir_cons {n : ℕ} (a : Bool) (x : BitVec n) :
    onAir (BitVec.cons a x) = a :: onAir x := by
  rw [onAir, onAir, List.range_succ_eq_map, List.map_cons, List.map_map, BitVec.getMsbD_cons_zero]
  exact congrArg (a :: ·) (List.map_congr_left fun i _ ↦ BitVec.getMsbD_cons_succ)

theorem number_onAir {n : ℕ} (x : BitVec n) : number (onAir x) = x.toNat := by
  induction n with
  | zero => rw [BitVec.eq_nil x]; rfl
  | succ n ih =>
      rw [← BitVec.cons_msb_setWidth x, onAir_cons, number, ih, length_onAir, BitVec.toNat_cons',
        Nat.shiftLeft_eq]

/-- A window of a word is a slice of it. -/
theorem window_getMsbD {n k m : ℕ} (x : BitVec n) (h : k + m ≤ n) :
    window x.getMsbD k m = onAir (x.extractLsb' (n - (k + m)) m) := by
  refine List.ext_getElem (by rw [length_window, length_onAir]) fun i hi _ ↦ ?_
  have him : i < m := by rwa [length_window] at hi
  have hlt : k + i < n := by omega
  have hlt' : m - 1 - i < m := by omega
  rw [getElem_onAir, BitVec.getMsbD_eq_getLsbD, BitVec.getLsbD_extractLsb']
  simp only [window, List.getElem_map, List.getElem_range', BitVec.getMsbD_eq_getLsbD, Nat.one_mul,
    hlt, him, hlt', decide_true, Bool.true_and]
  exact congrArg x.getLsbD (by omega)

/-- Reading on in a word. -/
theorem readField_word {α : Type*} {n k m w : ℕ} (x : BitVec n) (h : w ≤ m) (hn : k + w ≤ n)
    (f : ℕ × List Bool → Option α) :
    (readField w (window x.getMsbD k m)).bind f =
      f ((x.extractLsb' (n - (k + w)) w).toNat, window x.getMsbD (k + w) (m - w)) := by
  rw [readField, if_pos (by rwa [length_window]), Option.bind_some, take_window _ h,
    drop_window _ h, window_getMsbD x hn, number_onAir]

theorem expect_word {α : Type*} {n k m w v : ℕ} (x : BitVec n) (h : w ≤ m) (hn : k + w ≤ n)
    (hv : (x.extractLsb' (n - (k + w)) w).toNat = v) (f : List Bool → Option α) :
    (expect w v (window x.getMsbD k m)).bind f = f (window x.getMsbD (k + w) (m - w)) := by
  rw [expect, readField_word x h hn]
  dsimp only
  rw [if_pos hv, Option.bind_some]

/-! ## Fields that may be left out -/

/-- Read a field of `w` bits as a word. -/
def readWord (w : ℕ) (bits : List Bool) : Option (BitVec w × List Bool) :=
  (readField w bits).bind fun (v, rest) ↦ some (BitVec.ofNat w v, rest)

theorem readWord_append {w : ℕ} (x : BitVec w) (rest : List Bool) :
    readWord w (onAir x ++ rest) = some (x, rest) := by
  rw [readWord, readField_append (length_onAir x), Option.bind_some]
  dsimp only
  rw [number_onAir, BitVec.ofNat_toNat, BitVec.setWidth_eq]

/-- Read one bit. -/
def readFlag : List Bool → Option (Bool × List Bool)
  | [] => none
  | b :: bits => some (b, bits)

theorem readFlag_cons (b : Bool) (bits : List Bool) : readFlag (b :: bits) = some (b, bits) := rfl

variable {α : Type*} {read : List Bool → Option (α × List Bool)}

/-- Read what is there if `c` holds. -/
def readIf (c : Bool) (read : List Bool → Option (α × List Bool)) (bits : List Bool) :
    Option (Option α × List Bool) :=
  if c then (read bits).bind fun (x, rest) ↦ some (some x, rest) else some (none, bits)

theorem readIf_false (bits : List Bool) : readIf false read bits = some (none, bits) := rfl

theorem readIf_true {bits rest : List Bool} {x : α} (h : read bits = some (x, rest)) :
    readIf true read bits = some (some x, rest) := by
  rw [readIf, if_pos rfl, h, Option.bind_some]

/-- A flag, and what follows it if it is set. -/
def readFlagged (read : List Bool → Option (α × List Bool)) (bits : List Bool) :
    Option (Option α × List Bool) :=
  (readFlag bits).bind fun (p, bits) ↦ readIf p read bits

theorem readFlagged_none (bits : List Bool) :
    readFlagged read (false :: bits) = some (none, bits) := rfl

theorem readFlagged_some {bits rest : List Bool} {x : α} (h : read bits = some (x, rest)) :
    readFlagged read (true :: bits) = some (some x, rest) :=
  readIf_true h

end TetraPhy.FieldReader
