import Mathlib.Data.List.Basic
import Mathlib.Data.List.ReduceOption
import Mathlib.Data.BitVec
import Mathlib.Data.Nat.Notation
import Mathlib.Logic.Function.Basic

/-!
# Rings that a stream is written to

A ring of `2 ^ w` cells with the place that is written next.  A value of the stream can be read at
its number modulo `2 ^ w` until `2 ^ w` further ones were written, and a cell that no value came to
holds what it did:

* `wrote_nil`, `Wrote.write` — what the ring holds after a stream, kept by every write;
* `Wrote.read` — a value that is still there.
-/

namespace TetraPhy

universe u

/-- A ring of cells. -/
structure Ring (w : ℕ) (α : Type u) where
  cell : BitVec w → α
  wp : BitVec w := 0

namespace Ring

variable {w : ℕ} {α : Type u}

/-- Write a value, and move on. -/
def write (r : Ring w α) (x : α) : Ring w α where
  cell := Function.update r.cell r.wp x
  wp := r.wp + 1

/-- After the stream `xs` was written to a ring that held `init`. -/
structure Wrote (init : BitVec w → α) (r : Ring w α) (xs : List α) : Prop where
  wp : r.wp = BitVec.ofNat w xs.length
  cell : ∀ m x, xs[m]? = some x → xs.length ≤ m + 2 ^ w → r.cell (BitVec.ofNat w m) = x
  rest : ∀ m, xs.length ≤ m → m < 2 ^ w → r.cell (BitVec.ofNat w m) = init (BitVec.ofNat w m)

variable {init : BitVec w → α} {r : Ring w α} {xs : List α}

theorem wrote_nil : Wrote init { cell := init } [] :=
  ⟨rfl, fun _ _ hx ↦ absurd hx (by simp), fun _ _ _ ↦ rfl⟩

/-- Two numbers that share a place are a whole turn apart. -/
theorem place_inj {m n : ℕ} (h : m < n) (hn : n < m + 2 ^ w) :
    BitVec.ofNat w m ≠ BitVec.ofNat w n := by
  intro heq
  have hmod : m % 2 ^ w = n % 2 ^ w := by simpa using congrArg BitVec.toNat heq
  have hdvd : 2 ^ w ∣ n - m := (Nat.modEq_iff_dvd' (Nat.le_of_lt h)).1 hmod
  have hle := Nat.le_of_dvd (by omega) hdvd
  omega

/-- **A write keeps what is not a whole turn old.** -/
theorem Wrote.write (h : Wrote init r xs) (x : α) : Wrote init (r.write x) (xs ++ [x]) := by
  refine ⟨?_, fun m y hy hm ↦ ?_, fun m hm hlt ↦ ?_⟩
  · show r.wp + 1 = _
    rw [h.wp, List.length_append, List.length_singleton, BitVec.ofNat_add]
    rfl
  · rw [List.length_append, List.length_singleton] at hm
    show Function.update r.cell r.wp x _ = y
    rw [h.wp]
    rcases Nat.lt_trichotomy m xs.length with hlt | heq | hgt
    · have hne : BitVec.ofNat w m ≠ BitVec.ofNat w xs.length := place_inj hlt (by omega)
      rw [Function.update_of_ne hne]
      rw [List.getElem?_append_left hlt] at hy
      exact h.cell m y hy (by omega)
    · subst heq
      rw [Function.update_self]
      simpa using hy
    · rw [List.getElem?_eq_none (by simp; omega)] at hy
      exact absurd hy (by simp)
  · rw [List.length_append, List.length_singleton] at hm
    show Function.update r.cell r.wp x _ = _
    have hne : BitVec.ofNat w xs.length ≠ BitVec.ofNat w m := place_inj hm (by omega)
    rw [h.wp, Function.update_of_ne hne.symm]
    exact h.rest m (by omega) hlt

/-- A value that is still there. -/
theorem Wrote.read (h : Wrote init r xs) {m : ℕ} (hm : m < xs.length) (hle : xs.length ≤ m + 2 ^ w) :
    r.cell (BitVec.ofNat w m) = xs[m] :=
  h.cell m _ (List.getElem?_eq_getElem hm) hle

end Ring

end TetraPhy

/-!
# Block buffers

A buffer that takes a block of `n` elements and then sends it, permuted by `π`, one element in each
step.  Elements may come with any pauses between them; one that comes while a block is sent is lost.

`sends_block` is what becomes of one block, and `sends_blocks` of any number of them, if `n` steps
without an element come behind each.
-/

namespace TetraPhy

universe u

/-- A part of a block, or what is still to be sent of one. -/
inductive BlockBuffer (α : Type u)
  | filling (xs : List α)
  | draining (ys : List α)

namespace BlockBuffer

variable {α : Type u} (n : ℕ) (π : List α → List α)

/-- The state after an element was sent. -/
def sent : List α → BlockBuffer α
  | [] => filling []
  | y :: ys => draining (y :: ys)

theorem sent_of_ne_nil {ys : List α} (h : ys ≠ []) : sent ys = draining ys := by
  obtain ⟨y, ys, rfl⟩ := List.exists_cons_of_ne_nil h
  rfl

/-- One step, with an element that comes, if any. -/
def step : BlockBuffer α → Option α → BlockBuffer α
  | filling xs, none => filling xs
  | filling xs, some x =>
    if xs.length + 1 = n then draining (π (xs ++ [x])) else filling (xs ++ [x])
  | draining ys, _ => sent ys.tail

/-- What is sent. -/
def out : BlockBuffer α → Option α
  | filling _ => none
  | draining ys => ys.head?

/-- What is sent over some steps. -/
def sends : BlockBuffer α → List (Option α) → List α
  | _, [] => []
  | b, e :: es => b.out.toList ++ sends (step n π b e) es

/-- The state after some steps. -/
def after (b : BlockBuffer α) (es : List (Option α)) : BlockBuffer α := es.foldl (step n π) b

theorem sends_append (b : BlockBuffer α) (es fs : List (Option α)) :
    sends n π b (es ++ fs) = sends n π b es ++ sends n π (after n π b es) fs := by
  induction es generalizing b with
  | nil => rfl
  | cons e es ih =>
      rw [List.cons_append, sends, sends, ih, List.append_assoc]
      rfl

variable {n π}

/-- Without elements nothing happens. -/
theorem sends_none {xs : List α} {es : List (Option α)} (hes : es.reduceOption = []) :
    sends n π (filling xs) es = [] ∧ after n π (filling xs) es = filling xs := by
  induction es with
  | nil => exact ⟨rfl, rfl⟩
  | cons e es ih =>
      cases e with
      | none => exact ih hes
      | some x => exact absurd hes (List.cons_ne_nil x _)

/-- What is left of a block is sent. -/
theorem sends_draining {ys : List α} (hys : ys ≠ []) {es : List (Option α)}
    (hes : es.reduceOption = []) (hlen : ys.length ≤ es.length) :
    sends n π (draining ys) es = ys ∧ after n π (draining ys) es = filling [] := by
  induction ys generalizing es with
  | nil => exact absurd rfl hys
  | cons y ys ih =>
      match es with
      | [] => exact absurd hlen (Nat.not_succ_le_zero _)
      | some x :: es => exact absurd hes (List.cons_ne_nil x _)
      | none :: es =>
          have hrest : sends n π (sent ys) es = ys ∧ after n π (sent ys) es = filling [] := by
            cases ys with
            | nil => exact sends_none hes
            | cons z zs => exact ih (List.cons_ne_nil z zs) hes (Nat.le_of_succ_le_succ hlen)
          exact ⟨congrArg (y :: ·) hrest.1, hrest.2⟩

/-- **One block**, of which `xs` is there already. -/
theorem sends_block (hπ : ∀ xs, xs.length = n → (π xs).length = n) {xs : List α}
    (hxs : xs.length < n) {es : List (Option α)} (hlen : xs.length + es.reduceOption.length = n)
    {m : ℕ} (hm : n ≤ m) :
    let fs := es ++ List.replicate m none
    sends n π (filling xs) fs = π (xs ++ es.reduceOption) ∧
      after n π (filling xs) fs = filling [] := by
  induction es generalizing xs with
  | nil => exact absurd hlen (Nat.ne_of_lt hxs)
  | cons e es ih =>
      cases e with
      | none => exact ih hxs hlen
      | some x =>
          rw [List.reduceOption_cons_of_some, List.length_cons] at hlen
          rw [List.reduceOption_cons_of_some]
          dsimp only
          rw [List.cons_append]
          by_cases hlast : xs.length + 1 = n
          · have hstep : step n π (filling xs) (some x) = draining (π (xs ++ [x])) := if_pos hlast
            have hblock : (π (xs ++ [x])).length = n :=
              hπ _ (by rw [List.length_append, List.length_singleton, hlast])
            have hnil : (es ++ List.replicate m none).reduceOption = [] := by
              rw [List.reduceOption_append, List.reduceOption_replicate_none, List.append_nil]
              exact List.eq_nil_of_length_eq_zero (by omega)
            have hempty : es.reduceOption = [] := List.eq_nil_of_length_eq_zero (by omega)
            have hne : π (xs ++ [x]) ≠ [] := List.ne_nil_of_length_pos (by omega)
            have hle : (π (xs ++ [x])).length ≤ (es ++ List.replicate m none).length := by
              rw [hblock, List.length_append, List.length_replicate]
              omega
            obtain ⟨hsends, hafter⟩ := sends_draining (n := n) (π := π) hne hnil hle
            rw [sends, hstep, hempty, hsends, after, List.foldl_cons, hstep]
            exact ⟨rfl, hafter⟩
          · have hstep : step n π (filling xs) (some x) = filling (xs ++ [x]) := if_neg hlast
            have hlt : (xs ++ [x]).length < n := by
              rw [List.length_append, List.length_singleton]
              omega
            obtain ⟨hsends, hafter⟩ := ih hlt (by
              rw [List.length_append, List.length_singleton]
              omega)
            rw [List.append_assoc] at hsends
            rw [sends, hstep, after, List.foldl_cons, hstep]
            exact ⟨hsends, hafter⟩

/-- **Any number of blocks**, with `n` steps without an element behind each. -/
theorem sends_blocks (hπ : ∀ xs, xs.length = n → (π xs).length = n) (hn : 0 < n)
    {blocks : List (List (Option α))} (hlen : ∀ es ∈ blocks, es.reduceOption.length = n) :
    sends n π (filling []) (blocks.flatMap (· ++ List.replicate n none)) =
      blocks.flatMap fun es ↦ π es.reduceOption := by
  induction blocks with
  | nil => rfl
  | cons es blocks ih =>
      rw [List.forall_mem_cons] at hlen
      have hnil : ([] : List α).length < n := hn
      obtain ⟨hsends, hafter⟩ :=
        sends_block hπ hnil ((Nat.zero_add _).trans hlen.1) (Nat.le_refl n)
      rw [List.flatMap_cons, sends_append, hsends, hafter, ih hlen.2]
      rfl

end BlockBuffer

end TetraPhy
