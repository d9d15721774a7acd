import Mathlib.Data.List.GetD
import Mathlib.Data.Nat.Notation
import Mathlib.Order.Basic

/-!
# Words in transmission order

Of a word that is sent with its highest bit first, `onAir` is the list of the bits sent, and
`setAir` writes the bit at a position of that list.  Writes at consecutive positions are how
serial hardware builds a word:

* `onAir_setAir` — a write is a write in the list;
* `take_onAir_setAir` — a write behind the bits already there appends one;
* `onAir_extractLsb'_zero` — the low bits are the last ones sent;
* `onAir_xor`, `onAir_append`, `onAir_injective` — words are combined and compared bit by bit;
* `onAir_ofAir` — `ofAir` is the word that sends given bits.
-/

namespace TetraPhy.AirOrder

variable {n m : ℕ}

/-- The bits of a word, the highest first. -/
def onAir (x : BitVec n) : List Bool := (List.range n).map x.getMsbD

/-- Write the bit that is sent after `j` others; there is no such bit from `n` on. -/
def setAir (x : BitVec n) (j : ℕ) (b : Bool) : BitVec n :=
  if j < n then
    if b then x ||| 1#n <<< (n - 1 - j) else x &&& ~~~(1#n <<< (n - 1 - j))
  else x

/-- The word that sends the bits `f 0, f 1, …`. -/
def ofAir : (n : ℕ) → (ℕ → Bool) → BitVec n
  | 0, _ => 0#0
  | n + 1, f => (ofAir n f).concat (f n)

@[simp] theorem length_onAir (x : BitVec n) : (onAir x).length = n := by simp [onAir]

@[simp] theorem getElem_onAir (x : BitVec n) (j : ℕ) (h : j < (onAir x).length) :
    (onAir x)[j] = x.getMsbD j := by
  simp [onAir]

theorem getD_onAir (x : BitVec n) (j : ℕ) : (onAir x).getD j false = x.getMsbD j := by
  rcases Nat.lt_or_ge j n with hj | hj
  · rw [List.getD_eq_getElem _ _ (by simpa using hj), getElem_onAir]
  · rw [List.getD_eq_default _ _ (by simpa using hj), BitVec.getMsbD_of_ge _ _ hj]

theorem getMsbD_setAir (x : BitVec n) (j : ℕ) (b : Bool) {k : ℕ} (hk : k < n) :
    (setAir x j b).getMsbD k = if k = j then b else x.getMsbD k := by
  have hbit : (1#n <<< (n - 1 - j)).getMsbD k = decide (n - 1 - k = n - 1 - j) := by
    rw [BitVec.getMsbD_eq_getLsbD, decide_eq_true hk, Bool.true_and, BitVec.getLsbD_shiftLeft,
      BitVec.getLsbD_one]
    have hlt : n - 1 - k < n := by omega
    have hpos : 0 < n := by omega
    rw [decide_eq_true hlt, decide_eq_true hpos, Bool.true_and, Bool.true_and, ← decide_not,
      ← Bool.decide_and]
    exact decide_eq_decide.2 (by omega)
  rw [setAir]
  rcases Nat.lt_or_ge j n with hj | hj
  · rw [if_pos hj]
    have hiff : (n - 1 - k = n - 1 - j) ↔ k = j := by omega
    cases b with
    | true =>
        rw [if_pos rfl, BitVec.getMsbD_or, hbit]
        by_cases hkj : k = j <;> simp [hiff, hkj]
    | false =>
        rw [if_neg Bool.false_ne_true, BitVec.getMsbD_and, BitVec.getMsbD_not, hbit]
        by_cases hkj : k = j
        · simp [hkj]
        · simp [hiff, hkj, hk]
  · rw [if_neg (by omega), if_neg (by omega)]

/-- A write is a write in the list. -/
theorem onAir_setAir (x : BitVec n) (j : ℕ) (b : Bool) :
    onAir (setAir x j b) = (onAir x).set j b := by
  refine List.ext_getElem (by simp) fun k hk _ ↦ ?_
  have hkn : k < n := by simpa using hk
  rw [getElem_onAir, getMsbD_setAir x j b hkn, List.getElem_set, getElem_onAir]
  by_cases hkj : k = j
  · rw [if_pos hkj, if_pos hkj.symm]
  · rw [if_neg hkj, if_neg (Ne.symm hkj)]

/-- A write at the first position that is not yet used appends a bit. -/
theorem take_onAir_setAir (x : BitVec n) {j : ℕ} (b : Bool) (hj : j < n) :
    (onAir (setAir x j b)).take (j + 1) = (onAir x).take j ++ [b] := by
  have hlen : j < ((onAir x).set j b).length := by simpa using hj
  rw [onAir_setAir, List.take_succ_eq_append_getElem hlen, List.take_set_of_le (Nat.le_refl j),
    List.getElem_set_self]

theorem take_onAir (x : BitVec n) : (onAir x).take n = onAir x :=
  List.take_of_length_le (Nat.le_of_eq (length_onAir x))

theorem onAir_injective {x y : BitVec n} (h : onAir x = onAir y) : x = y := by
  refine BitVec.eq_of_getMsbD_eq fun j hj ↦ ?_
  rw [← getD_onAir, ← getD_onAir, h]

theorem getMsbD_ofAir (f : ℕ → Bool) {j : ℕ} (hj : j < n) : (ofAir n f).getMsbD j = f j := by
  induction n with
  | zero => exact absurd hj (Nat.not_lt_zero j)
  | succ n ih =>
      rw [ofAir, BitVec.getMsbD_concat]
      by_cases hlt : j < n
      · rw [if_pos hlt, ih hlt]
      · have heq : j = n := by omega
        rw [if_neg hlt, decide_eq_true heq, Bool.true_and, heq]

theorem onAir_ofAir (f : ℕ → Bool) : onAir (ofAir n f) = (List.range n).map f := by
  refine List.ext_getElem (by simp) fun j hj _ ↦ ?_
  rw [getElem_onAir, List.getElem_map, List.getElem_range, getMsbD_ofAir f (by simpa using hj)]

theorem onAir_zero : onAir (0#n) = List.replicate n false := by
  refine List.ext_getElem (by simp) fun k _ _ ↦ ?_
  rw [getElem_onAir, List.getElem_replicate, BitVec.getMsbD_zero]

theorem onAir_xor (x y : BitVec n) :
    onAir (x ^^^ y) = List.zipWith xor (onAir x) (onAir y) := by
  refine List.ext_getElem (by simp) fun k hk _ ↦ ?_
  rw [getElem_onAir, List.getElem_zipWith, getElem_onAir, getElem_onAir, BitVec.getMsbD_xor]

theorem onAir_append (x : BitVec n) (y : BitVec m) : onAir (x ++ y) = onAir x ++ onAir y := by
  refine List.ext_getElem (by simp) fun k hk _ ↦ ?_
  rw [getElem_onAir, BitVec.getMsbD_append, List.getElem_append]
  by_cases hkn : k < n
  · simp [hkn, Nat.not_le.2 hkn]
  · simp [hkn, Nat.le_of_not_lt hkn]

/-- The low bits of a word are the last ones sent. -/
theorem onAir_extractLsb'_zero (x : BitVec n) (h : m ≤ n) :
    onAir (x.extractLsb' 0 m) = (onAir x).drop (n - m) := by
  refine List.ext_getElem (by simp; omega) fun k hk _ ↦ ?_
  have hkm : k < m := by simpa using hk
  rw [getElem_onAir, List.getElem_drop, getElem_onAir, BitVec.getMsbD_eq_getLsbD,
    BitVec.getMsbD_eq_getLsbD, BitVec.getLsbD_extractLsb']
  have hidx : 0 + (m - 1 - k) = n - 1 - (n - m + k) := by omega
  have hlt : m - 1 - k < m := by omega
  have hlt' : n - m + k < n := by omega
  simp only [hkm, hlt, hlt', hidx, decide_true, Bool.true_and]

/-- The bit a serial reader is at, and those that follow. -/
theorem drop_onAir (x : BitVec n) {j : ℕ} (hj : j < n) :
    (onAir x).drop j = x.getMsbD j :: (onAir x).drop (j + 1) := by
  rw [List.drop_eq_getElem_cons (by simpa using hj), getElem_onAir]

end TetraPhy.AirOrder
