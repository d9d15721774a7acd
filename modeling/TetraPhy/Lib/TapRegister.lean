import Mathlib.Algebra.Ring.Nat
import Mathlib.Logic.Function.Iterate

/-!
# Linear feedback shift registers

A register that shifts to the right, delivers the parity of the bits under `tap` and, if that is
1, adds `word` to itself.  The two usual forms are both of this kind:

| form | `tap` | `word` |
|---|---|---|
| Fibonacci | the taps of the polynomial | the highest bit |
| Galois | the lowest bit | the feedback mask |

What such a register delivers is linear in its seed: the `k`-th bit is the parity of the seed
under `check k` (`dot_step_iterate`), where the checks are what the dual register, which shifts
to the left and has `tap` and `word` exchanged, goes through.  So two registers deliver the same
bits from a seed exactly if the seed is even under the sums of their checks (`bits_eq_iff`).
-/

namespace TetraPhy

variable {n : ℕ}

namespace TapRegister

/-! ## Parities -/

/-- The parity of `f 0, …, f (n - 1)`. -/
def parity (f : ℕ → Bool) : ℕ → Bool
  | 0 => false
  | n + 1 => parity f n ^^ f n

theorem parity_congr {f g : ℕ → Bool} (h : ∀ i < n, f i = g i) : parity f n = parity g n := by
  induction n with
  | zero => rfl
  | succ n ih =>
      rw [parity, parity, ih fun i hi ↦ h i (Nat.lt_succ_of_lt hi), h n (Nat.lt_succ_self n)]

theorem parity_xor (f g : ℕ → Bool) (n : ℕ) :
    parity (fun i ↦ f i ^^ g i) n = (parity f n ^^ parity g n) := by
  induction n with
  | zero => rfl
  | succ n ih =>
      rw [parity, parity, parity, ih]
      simp only [Bool.xor_assoc, Bool.xor_left_comm]

theorem parity_false (n : ℕ) : parity (fun _ ↦ false) n = false := by
  induction n with
  | zero => rfl
  | succ n ih => rw [parity, ih, Bool.xor_self]

/-- The first bit apart. -/
theorem parity_succ_left (f : ℕ → Bool) (n : ℕ) :
    parity f (n + 1) = (f 0 ^^ parity (fun i ↦ f (i + 1)) n) := by
  induction n with
  | zero => rw [parity, parity, parity, Bool.false_xor, Bool.xor_false]
  | succ n ih => rw [parity, ih, parity, Bool.xor_assoc]

/-- One bit only. -/
theorem parity_single (f : ℕ → Bool) {k : ℕ} (hk : k < n) :
    parity (fun i ↦ f i && decide (i = k)) n = f k := by
  induction n with
  | zero => exact absurd hk (Nat.not_lt_zero k)
  | succ n ih =>
      rw [parity]
      rcases Nat.lt_succ_iff_lt_or_eq.1 hk with hlt | rfl
      · have hne : n ≠ k := by omega
        rw [ih hlt, decide_eq_false hne, Bool.and_false, Bool.xor_false]
      · have hzero : parity (fun i ↦ f i && decide (i = k)) k = false := by
          refine (parity_congr fun i hi ↦ ?_).trans (parity_false k)
          rw [decide_eq_false (Nat.ne_of_lt hi), Bool.and_false]
        rw [hzero, decide_eq_true rfl, Bool.and_true, Bool.false_xor]

/-- The parity of a word under a mask. -/
def dot (x y : BitVec n) : Bool := parity (fun i ↦ x.getLsbD i && y.getLsbD i) n

theorem dot_comm (x y : BitVec n) : dot x y = dot y x :=
  parity_congr fun _ _ ↦ Bool.and_comm _ _

theorem dot_xor (x y z : BitVec n) : dot x (y ^^^ z) = (dot x y ^^ dot x z) := by
  rw [dot, dot, dot, ← parity_xor]
  refine parity_congr fun i _ ↦ ?_
  rw [BitVec.getLsbD_xor, Bool.and_xor_distrib_left]

theorem xor_dot (x y z : BitVec n) : dot (x ^^^ y) z = (dot x z ^^ dot y z) := by
  rw [dot_comm, dot_xor, dot_comm z x, dot_comm z y]

theorem dot_zero (x : BitVec n) : dot x 0#n = false := by
  refine (parity_congr fun i _ ↦ ?_).trans (parity_false n)
  rw [BitVec.getLsbD_zero, Bool.and_false]

theorem dot_ite (x y : BitVec n) (b : Bool) : dot x (if b then y else 0#n) = (b && dot x y) := by
  cases b with
  | true => rw [if_pos rfl, Bool.true_and]
  | false => rw [if_neg Bool.false_ne_true, dot_zero, Bool.false_and]

theorem ite_dot (x y : BitVec n) (b : Bool) : dot (if b then x else 0#n) y = (b && dot x y) := by
  rw [dot_comm, dot_ite, dot_comm]

/-- A mask of one bit. -/
theorem dot_unit (x : BitVec n) {k : ℕ} (hk : k < n) : dot x (1#n <<< k) = x.getLsbD k := by
  rw [dot, ← parity_single (fun i ↦ x.getLsbD i) hk]
  refine parity_congr fun i hi ↦ congrArg (x.getLsbD i && ·) ?_
  rw [BitVec.getLsbD_shiftLeft, BitVec.getLsbD_one, decide_eq_true hi, Bool.true_and]
  by_cases hik : i = k
  · subst hik
    simp
    omega
  · have hor : i < k ∨ i - k ≠ 0 := by omega
    rcases hor with hlt | hne
    · simp [hlt, hik]
    · simp [hne, hik]

/-- Shifting the word is shifting the mask the other way. -/
theorem dot_ushiftRight (x y : BitVec n) : dot (x >>> 1) y = dot x (y <<< 1) := by
  cases n with
  | zero => rfl
  | succ n =>
      rw [dot, dot, parity, parity_succ_left]
      have hlast : (x >>> 1).getLsbD n = false := by
        rw [BitVec.getLsbD_ushiftRight]
        exact BitVec.getLsbD_of_ge x _ (by omega)
      have hfirst : (y <<< 1).getLsbD 0 = false := by simp
      rw [hlast, hfirst, Bool.false_and, Bool.and_false, Bool.xor_false, Bool.false_xor]
      refine parity_congr fun i hi ↦ ?_
      rw [BitVec.getLsbD_ushiftRight, BitVec.getLsbD_shiftLeft, Nat.add_comm 1 i]
      have hlt : i + 1 < n + 1 := by omega
      simp [hlt]

/-! ## Registers -/

end TapRegister

/-- A register by its taps and its feedback word. -/
structure TapRegister (n : ℕ) where
  tap : BitVec n
  word : BitVec n

namespace TapRegister

variable (r r' : TapRegister n) (s : BitVec n)

/-- The bit that is delivered. -/
def out : Bool := dot s r.tap

/-- One shift. -/
def step : BitVec n := s >>> 1 ^^^ (if r.out s then r.word else 0#n)

/-- The first `k` bits. -/
def bits (s : BitVec n) : ℕ → List Bool
  | 0 => []
  | k + 1 => r.out s :: bits (r.step s) k

/-- The dual register. -/
def dual (m : BitVec n) : BitVec n := m <<< 1 ^^^ (if dot m r.word then r.tap else 0#n)

/-- The mask of the seed that the `k`-th bit is the parity under. -/
def check (k : ℕ) : BitVec n := r.dual^[k] r.tap

theorem dot_step (m : BitVec n) : dot (r.step s) m = dot s (r.dual m) := by
  rw [step, dual, xor_dot, dot_xor, dot_ushiftRight, ite_dot, dot_ite, out, Bool.and_comm,
    dot_comm r.word]

theorem dot_step_iterate (k : ℕ) (m : BitVec n) : dot (r.step^[k] s) m = dot s (r.dual^[k] m) := by
  induction k generalizing s with
  | zero => rfl
  | succ k ih => rw [Function.iterate_succ_apply, ih, dot_step, Function.iterate_succ_apply']

theorem bits_eq_map (k : ℕ) :
    r.bits s k = (List.range k).map fun j ↦ dot s (r.check j) := by
  have hbits : r.bits s k = (List.range k).map fun j ↦ r.out (r.step^[j] s) := by
    induction k generalizing s with
    | zero => rfl
    | succ k ih =>
        rw [bits, ih, List.range_succ_eq_map, List.map_cons, List.map_map]
        rfl
  rw [hbits]
  exact List.map_congr_left fun j _ ↦ r.dot_step_iterate s j r.tap

/-- **Two registers deliver the same bits from the seeds that are even under the sums of their
checks.** -/
theorem bits_eq_iff (k : ℕ) :
    r.bits s k = r'.bits s k ↔ ∀ j < k, dot s (r.check j ^^^ r'.check j) = false := by
  rw [bits_eq_map, bits_eq_map, List.map_inj_left]
  refine forall_congr' fun j ↦ ?_
  rw [List.mem_range, dot_xor]
  refine forall_congr' fun _ ↦ ?_
  cases dot s (r.check j) <;> cases dot s (r'.check j) <;> decide

/-! ## Enough checks -/

/-- The sum of the masks a word selects. -/
def select (sel : ℕ → Bool) (masks : List (BitVec n)) : BitVec n :=
  match masks with
  | [] => 0#n
  | m :: ms => (if sel 0 then m else 0#n) ^^^ select (fun j ↦ sel (j + 1)) ms

/-- The selected sum is linear in the selection. -/
theorem select_xor (f g : ℕ → Bool) (masks : List (BitVec n)) :
    select (fun j ↦ f j ^^ g j) masks = select f masks ^^^ select g masks := by
  induction masks generalizing f g with
  | nil => exact (BitVec.xor_self (x := 0#n)).symm
  | cons m ms ih =>
      have hbit : (if f 0 ^^ g 0 then m else 0#n) =
          (if f 0 then m else 0#n) ^^^ (if g 0 then m else 0#n) := by
        cases f 0 <;> cases g 0 <;> simp
      rw [select, select, select, ih, hbit]
      ac_rfl

/-- The selected sum depends on the selection of the masks only. -/
theorem select_congr {f g : ℕ → Bool} {masks : List (BitVec n)}
    (h : ∀ j < masks.length, f j = g j) : select f masks = select g masks := by
  induction masks generalizing f g with
  | nil => rfl
  | cons m ms ih =>
      rw [select, select, h 0 (Nat.succ_pos _), ih fun j hj ↦ h (j + 1) (Nat.succ_lt_succ hj)]

/-- A loop over the masks computes the selected sum. -/
theorem foldl_select (sel : ℕ → Bool) (masks : List (BitVec n)) (v : BitVec n) :
    (List.range masks.length).foldl
        (fun v j ↦ if sel j then v ^^^ masks.getD j 0#n else v) v = v ^^^ select sel masks := by
  induction masks generalizing sel v with
  | nil => exact BitVec.xor_zero.symm
  | cons m ms ih =>
      have hadd : (if sel 0 then v ^^^ m else v) = v ^^^ (if sel 0 then m else 0#n) := by
        split_ifs
        · rfl
        · exact BitVec.xor_zero.symm
      rw [List.length_cons, List.range_succ_eq_map, List.foldl_cons, List.foldl_map, select,
        ← BitVec.xor_assoc, ← hadd]
      exact ih (fun j ↦ sel (j + 1)) _

/-- Selecting commutes with a change of width. -/
theorem select_setWidth (sel : ℕ → Bool) (masks : List (BitVec n)) (k : ℕ) :
    select sel (masks.map (·.setWidth k)) = (select sel masks).setWidth k := by
  induction masks generalizing sel with
  | nil => exact (BitVec.setWidth_zero k n).symm
  | cons m ms ih =>
      rw [List.map_cons, select, select, ih, BitVec.setWidth_xor]
      refine congrArg (· ^^^ _) ?_
      split_ifs
      · rfl
      · exact (BitVec.setWidth_zero k n).symm

/-- A parity of a selected sum. -/
theorem select_dot (sel : ℕ → Bool) (masks : List (BitVec n)) (y : BitVec n) :
    dot (select sel masks) y =
      parity (fun j ↦ sel j && dot (masks.getD j 0#n) y) masks.length := by
  induction masks generalizing sel with
  | nil => rw [select, dot_comm, dot_zero, List.length_nil, parity]
  | cons m ms ih =>
      rw [select, xor_dot, ite_dot, ih, List.length_cons, parity_succ_left]
      rfl

theorem dot_select {masks : List (BitVec n)} (h : ∀ m ∈ masks, dot s m = false) (sel : ℕ → Bool) :
    dot s (select sel masks) = false := by
  induction masks generalizing sel with
  | nil => exact dot_zero s
  | cons m ms ih =>
      rw [List.forall_mem_cons] at h
      rw [select, dot_xor, dot_ite, h.1, ih h.2, Bool.and_false, Bool.xor_false]

/-- **Masks that generate every unit word let only the zero seed pass.** -/
theorem eq_zero_of_generates {masks : List (BitVec n)} (h : ∀ m ∈ masks, dot s m = false)
    (hgen : ∀ k < n, ∃ sel, select sel masks = 1#n <<< k) : s = 0#n := by
  refine BitVec.eq_of_getLsbD_eq fun k hk ↦ ?_
  obtain ⟨sel, hsel⟩ := hgen k hk
  rw [← dot_unit s hk, ← hsel, dot_select s h, BitVec.getLsbD_zero]

end TapRegister

end TetraPhy
