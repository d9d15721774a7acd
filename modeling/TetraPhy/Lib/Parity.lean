import TetraPhy.Lib.AirOrder

/-!
# Parity checks of linear circuits

Serial hardware made of shifts and exclusive ors is linear: of two inputs added bit by bit it
makes the sum of the outputs.  A *check* of its output is the parity of some of the bits, and a
linear function of the input; it is the same for every input if it is 0 on the unit words.

* `check ps xs` — the parity of the bits of `xs` at the positions `ps`;
* `IsLinear.eq_false` — a linear check that is 0 on the unit words is 0.
-/

namespace TetraPhy.Parity

variable {n : ℕ}

/-- The parity of the bits at some positions. -/
def check (ps : List ℕ) (xs : List Bool) : Bool := ps.foldr (fun p c ↦ xs.getD p false ^^ c) false

theorem getD_zipWith {xs ys : List Bool} (h : xs.length = ys.length) (k : ℕ) :
    (List.zipWith xor xs ys).getD k false = (xs.getD k false ^^ ys.getD k false) := by
  rcases Nat.lt_or_ge k xs.length with hk | hk
  · rw [List.getD_eq_getElem _ _ (by rw [List.length_zipWith]; omega),
      List.getD_eq_getElem _ _ hk, List.getD_eq_getElem _ _ (by omega), List.getElem_zipWith]
  · rw [List.getD_eq_default _ _ (by rw [List.length_zipWith]; omega),
      List.getD_eq_default _ _ hk, List.getD_eq_default _ _ (by omega), Bool.xor_self]

/-- A check of a sum is the sum of the checks. -/
theorem check_zipWith (ps : List ℕ) {xs ys : List Bool} (h : xs.length = ys.length) :
    check ps (List.zipWith xor xs ys) = (check ps xs ^^ check ps ys) := by
  induction ps with
  | nil => rfl
  | cons p ps ih =>
      simp only [check, List.foldr_cons] at ih ⊢
      rw [ih, getD_zipWith h]
      simp only [Bool.xor_assoc, Bool.xor_left_comm]

/-- An empty block passes every check. -/
theorem check_replicate (ps : List ℕ) (k : ℕ) : check ps (List.replicate k false) = false := by
  induction ps with
  | nil => rfl
  | cons p ps ih =>
      simp only [check, List.foldr_cons] at ih ⊢
      rw [ih, List.getD_eq_getElem?_getD, List.getElem?_getD_replicate_default_eq, Bool.xor_self]

/-- A check of a list whose bits are elsewhere in another one. -/
theorem check_map {σ : ℕ → ℕ} {xs ys : List Bool} {ps : List ℕ}
    (h : ∀ p ∈ ps, xs.getD (σ p) false = ys.getD p false) :
    check (ps.map σ) xs = check ps ys := by
  induction ps with
  | nil => rfl
  | cons p ps ih =>
      rw [List.forall_mem_cons] at h
      have ih := ih h.2
      simp only [check, List.map_cons, List.foldr_cons] at ih ⊢
      rw [ih, h.1]

theorem check_cons (p : ℕ) (ps : List ℕ) (xs : List Bool) :
    check (p :: ps) xs = (xs.getD p false ^^ check ps xs) := rfl

/-- The order of the positions does not matter, -/
theorem check_perm {ps qs : List ℕ} (h : ps.Perm qs) (xs : List Bool) : check ps xs = check qs xs := by
  induction h with
  | nil => rfl
  | cons p _ ih => rw [check_cons, check_cons, ih]
  | swap p q ps =>
      simp only [check_cons]
      exact Bool.xor_left_comm _ _ _
  | trans _ _ ih ih' => exact ih.trans ih'

/-- Put a position in, or take it out. -/
def toggle (p : ℕ) (ps : List ℕ) : List ℕ := if p ∈ ps then ps.erase p else p :: ps

/-- and one that is there twice is not there. -/
theorem check_toggle (p : ℕ) (ps : List ℕ) (xs : List Bool) :
    check (toggle p ps) xs = (xs.getD p false ^^ check ps xs) := by
  rw [toggle]
  split
  · rename_i hp
    rw [check_perm (List.perm_cons_erase hp) xs, check_cons, ← Bool.xor_assoc, Bool.xor_self,
      Bool.false_xor]
  · rfl

theorem check_foldr_toggle (ps qs : List ℕ) (xs : List Bool) :
    check (ps.foldr toggle qs) xs = (check ps xs ^^ check qs xs) := by
  induction ps with
  | nil => exact (Bool.false_xor _).symm
  | cons p ps ih => rw [List.foldr_cons, check_toggle, ih, check_cons, Bool.xor_assoc]

/-- A function of a word that is compatible with exclusive or. -/
def IsLinear (f : BitVec n → Bool) : Prop := ∀ x y, f (x ^^^ y) = (f x ^^ f y)

theorem IsLinear.zero {f : BitVec n → Bool} (h : IsLinear f) : f 0#n = false := by
  have h0 := h 0#n 0#n
  rw [BitVec.xor_self, Bool.xor_self] at h0
  exact h0

/-- The low bits of a word, and the next one. -/
theorem setWidth_succ (x : BitVec n) (k : ℕ) : (x.setWidth (k + 1)).setWidth n =
    (x.setWidth k).setWidth n ^^^ (if x.getLsbD k then 1#n <<< k else 0#n) := by
  refine BitVec.eq_of_getLsbD_eq fun i hi ↦ ?_
  simp only [BitVec.getLsbD_xor, BitVec.getLsbD_setWidth, hi, decide_true, Bool.true_and]
  have hunit : (1#n <<< k).getLsbD i = decide (i = k) := by
    have hn : 0 < n := by omega
    have hsub : i - k < n := by omega
    rw [BitVec.getLsbD_shiftLeft, BitVec.getLsbD_one, decide_eq_true hi, decide_eq_true hn,
      Bool.true_and, Bool.true_and, ← decide_not, ← Bool.decide_and]
    exact decide_eq_decide.2 (by omega)
  rcases Nat.lt_trichotomy i k with hik | rfl | hik
  · have hne : i ≠ k := by omega
    have hle : i < k + 1 := by omega
    cases x.getLsbD k <;> simp [hunit, hik, hne, hle]
  · cases hx : x.getLsbD i <;> simp [hunit]
  · have hne : i ≠ k := by omega
    have hge : ¬ i < k := by omega
    have hge' : ¬ i < k + 1 := by omega
    cases x.getLsbD k <;> simp [hunit, hne, hge, hge']

/-- **A linear function that is 0 on the unit words is 0.** -/
theorem IsLinear.eq_false {f : BitVec n → Bool} (h : IsLinear f)
    (hunit : ∀ k < n, f (1#n <<< k) = false) (x : BitVec n) : f x = false := by
  have hlow : ∀ k ≤ n, f ((x.setWidth k).setWidth n) = false := by
    intro k
    induction k with
    | zero =>
        intro _
        have hz : (x.setWidth 0).setWidth n = 0#n := by
          rw [BitVec.eq_nil (x.setWidth 0)]
          exact BitVec.setWidth_zero n 0
        rw [hz, h.zero]
    | succ k ih =>
        intro hk
        rw [setWidth_succ, h, ih (by omega), Bool.false_xor]
        split_ifs
        · exact hunit k (by omega)
        · exact h.zero
  have hn := hlow n (Nat.le_refl n)
  rwa [BitVec.setWidth_eq, BitVec.setWidth_eq] at hn

/-- The taps of a register, added up from a first one on. -/
theorem foldl_taps_xor (x y : BitVec n) (ts : List ℕ) (a b : Bool) :
    ts.foldl (fun p t ↦ p ^^ (x ^^^ y).getLsbD t) (a ^^ b) =
      (ts.foldl (fun p t ↦ p ^^ x.getLsbD t) a ^^ ts.foldl (fun p t ↦ p ^^ y.getLsbD t) b) := by
  induction ts generalizing a b with
  | nil => rfl
  | cons t ts ih =>
      rw [List.foldl_cons, List.foldl_cons, List.foldl_cons, ← ih, BitVec.getLsbD_xor]
      simp only [Bool.xor_assoc, Bool.xor_left_comm]

end TetraPhy.Parity
