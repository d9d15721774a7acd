import Mathlib.Algebra.Ring.Nat
import Mathlib.Data.List.GetD
import Mathlib.Data.List.Induction
import Mathlib.Logic.Function.Basic

/-!
# Packing a stream of bits into words

A stream is packed with its first bit highest: bit `k` of the stream is bit `k % w`, counted from
the top, of word `k / w`.  Serial hardware shifts the stream through one word, `shiftReg`, stores
it whenever it has taken in `w` bits, and shifts what is left at the end up to the top.

* `Packed mem bs n` — the memory has the first `n` bits of the stream, and zeros behind its end;
* `Packed.word` — storing the register after every `w` bits packs them;
* `Packed.flush` — storing it shifted up at the end packs the rest.
-/

namespace TetraPhy.WordPack

variable {w : ℕ}

/-- A word that the stream was shifted through. -/
def shiftReg (w : ℕ) (bs : List Bool) : BitVec w := bs.foldl BitVec.shiftConcat 0#w

theorem shiftReg_append (bs : List Bool) (b : Bool) :
    shiftReg w (bs ++ [b]) = (shiftReg w bs).shiftConcat b :=
  List.foldl_append

/-- The last bit is lowest. -/
theorem getLsbD_shiftReg (bs : List Bool) (k : ℕ) :
    (shiftReg w bs).getLsbD k = (decide (k < w) && bs.reverse.getD k false) := by
  induction bs using List.reverseRecOn generalizing k with
  | nil => simp [shiftReg]
  | append_singleton bs b ih =>
      rw [shiftReg_append, BitVec.getLsbD_shiftConcat, List.reverse_append]
      cases k with
      | zero => rfl
      | succ k =>
          rw [if_neg (Nat.succ_ne_zero k), Nat.add_sub_cancel, ih]
          by_cases hk : k + 1 < w
          · have hk' : k < w := by omega
            simp [hk, hk']
          · simp [hk]

/-- From the top, the register is a window of the stream. -/
theorem getMsbD_shiftReg {bs : List Bool} {q : ℕ} (hlen : bs.length = w * q + w) {j : ℕ}
    (hj : j < w) : (shiftReg w bs).getMsbD j = bs.getD (w * q + j) false := by
  rw [BitVec.getMsbD_eq_getLsbD, getLsbD_shiftReg, decide_eq_true hj,
    decide_eq_true (by omega : w - 1 - j < w), Bool.true_and, Bool.true_and]
  rw [List.getD_eq_getElem _ _ (by rw [List.length_reverse]; omega), List.getElem_reverse,
    List.getD_eq_getElem _ _ (by omega)]
  congr 1
  omega

/-- Shifted up, the register is the rest of the stream. -/
theorem getMsbD_shiftReg_shiftLeft {bs : List Bool} {q c : ℕ} (hlen : bs.length = w * q + c)
    (hc : c < w) {j : ℕ} (hj : j < w) :
    (shiftReg w bs <<< (w - c)).getMsbD j = bs.getD (w * q + j) false := by
  rw [BitVec.getMsbD_eq_getLsbD, BitVec.getLsbD_shiftLeft, getLsbD_shiftReg, decide_eq_true hj,
    decide_eq_true (by omega : w - 1 - j < w), Bool.true_and, Bool.true_and]
  rcases Nat.lt_or_ge j c with hjc | hjc
  · have hlow : ¬w - 1 - j < w - c := by omega
    have hidx : w - 1 - j - (w - c) < w := by omega
    rw [decide_eq_false hlow, decide_eq_true hidx, Bool.not_false, Bool.true_and, Bool.true_and,
      List.getD_eq_getElem _ _ (by rw [List.length_reverse]; omega), List.getElem_reverse,
      List.getD_eq_getElem _ _ (by omega)]
    congr 1
    omega
  · have hlow : w - 1 - j < w - c := by omega
    have hnone : bs.getD (w * q + j) false = false := List.getD_eq_default _ _ (by omega)
    rw [decide_eq_true hlow, hnone]
    rfl

/-- The words of a memory hold the first `n` bits of a stream. -/
def Packed (mem : ℕ → BitVec w) (bs : List Bool) (n : ℕ) : Prop :=
  ∀ k < n, (mem (k / w)).getMsbD (k % w) = bs.getD k false

theorem packed_zero (mem : ℕ → BitVec w) (bs : List Bool) : Packed mem bs 0 :=
  fun k hk ↦ absurd hk (Nat.not_lt_zero k)

theorem Packed.append {mem : ℕ → BitVec w} {bs : List Bool} {n : ℕ} (h : Packed mem bs n)
    (hn : n ≤ bs.length) (cs : List Bool) : Packed mem (bs ++ cs) n := by
  intro k hk
  rw [h k hk, List.getD_append _ _ _ _ (by omega)]

/-- A word behind those that are packed may be stored. -/
theorem Packed.update {mem : ℕ → BitVec w} {bs : List Bool} {q : ℕ} (h : Packed mem bs (w * q))
    (x : BitVec w) : Packed (Function.update mem q x) bs (w * q) := by
  intro k hk
  have hne : k / w ≠ q := Nat.ne_of_lt (Nat.div_lt_of_lt_mul hk)
  rw [Function.update_of_ne hne, h k hk]

/-- Storing a word packs it. -/
theorem Packed.store {mem : ℕ → BitVec w} {bs : List Bool} {q : ℕ} (h : Packed mem bs (w * q))
    {x : BitVec w} (hx : ∀ j < w, x.getMsbD j = bs.getD (w * q + j) false) :
    Packed (Function.update mem q x) bs (w * (q + 1)) := by
  intro k hk
  have hw : 0 < w := Nat.pos_of_ne_zero fun h0 ↦ by simp [h0] at hk
  rw [Nat.mul_add, Nat.mul_one] at hk
  rcases Nat.lt_or_ge k (w * q) with hlt | hge
  · exact h.update x k hlt
  · have hdiv : k / w = q := by
      rw [Nat.div_eq_iff hw]
      constructor
      · rwa [Nat.mul_comm]
      · rw [Nat.mul_comm]
        omega
    have hmod := Nat.div_add_mod k w
    rw [hdiv] at hmod
    rw [hdiv, Function.update_self, hx _ (Nat.mod_lt k hw), hmod]

/-- **A register that is stored after every `w` bits packs them.** -/
theorem Packed.word {mem : ℕ → BitVec w} {bs : List Bool} {q : ℕ} (h : Packed mem bs (w * q))
    (hlen : bs.length = w * q + w) :
    Packed (Function.update mem q (shiftReg w bs)) bs (w * (q + 1)) :=
  h.store fun _ hj ↦ getMsbD_shiftReg hlen hj

/-- **A register that is shifted up and stored packs the rest.** -/
theorem Packed.flush {mem : ℕ → BitVec w} {bs : List Bool} {q c : ℕ} (h : Packed mem bs (w * q))
    (hlen : bs.length = w * q + c) (hc : c < w) :
    Packed (Function.update mem q (shiftReg w bs <<< (w - c))) bs (w * (q + 1)) :=
  h.store fun _ hj ↦ getMsbD_shiftReg_shiftLeft hlen hc hj

end TetraPhy.WordPack
