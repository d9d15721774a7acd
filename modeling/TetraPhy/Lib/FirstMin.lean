import Mathlib.Algebra.Order.Group.Int
import Mathlib.Data.Prod.Lex

/-!
# The first of the least

Of the candidates of least weight, the one whose key is least.  There is only one if keys tell
candidates apart (`IsFirstMin.unique`).

A search that weighs its candidates by another scale has the same one if the scale keeps their
order (`isFirstMin_congr`).  If the scale takes a bonus off each weight, a candidate is the one
exactly if none makes up its disadvantage (`isFirstMin_sub_iff`), and so the one that was first
before stays it if the disadvantage of each other one exceeds what it can gain
(`IsFirstMin.sub_of_lt`).
-/

namespace TetraPhy

universe u v w

variable {α : Type u} {μ : Type v} {κ : Type w} [LinearOrder μ] [LinearOrder κ]

/-- The first of the candidates of least weight. -/
structure IsFirstMin (S : α → Prop) (weight : α → μ) (key : α → κ) (a : α) : Prop where
  mem : S a
  least : ∀ b, S b → toLex (weight a, key a) ≤ toLex (weight b, key b)

variable {S : α → Prop} {weight : α → μ} {key : α → κ} {a b : α}

/-- There is only one. -/
theorem IsFirstMin.unique (hkey : Function.Injective key) (ha : IsFirstMin S weight key a)
    (hb : IsFirstMin S weight key b) : a = b := by
  have heq := le_antisymm (ha.least b hb.mem) (hb.least a ha.mem)
  exact hkey (congrArg (fun r ↦ (ofLex r).2) heq)

/-- None is lighter. -/
theorem IsFirstMin.weight_le (ha : IsFirstMin S weight key a) (hb : S b) : weight a ≤ weight b :=
  (Prod.Lex.toLex_le_toLex'.1 (ha.least b hb)).1

/-- **Only the order of the weights counts.** -/
theorem isFirstMin_congr {ν : Type*} [LinearOrder ν] {weight' : α → ν}
    (h : ∀ a b, S a → S b → (weight a < weight b ↔ weight' a < weight' b)) :
    IsFirstMin S weight key a ↔ IsFirstMin S weight' key a := by
  have hlex : ∀ b, S a → S b → (toLex (weight a, key a) ≤ toLex (weight b, key b) ↔
      toLex (weight' a, key a) ≤ toLex (weight' b, key b)) := by
    intro b ha hb
    have hlt := h a b ha hb
    have hgt := h b a hb ha
    have heq : weight a = weight b ↔ weight' a = weight' b := by
      rw [eq_iff_le_not_lt, eq_iff_le_not_lt, ← not_lt, ← not_lt, hlt, hgt]
    rw [Prod.Lex.toLex_le_toLex, Prod.Lex.toLex_le_toLex, hlt, heq]
  constructor
  · rintro ⟨hmem, hleast⟩
    exact ⟨hmem, fun b hb ↦ (hlex b hmem hb).1 (hleast b hb)⟩
  · rintro ⟨hmem, hleast⟩
    exact ⟨hmem, fun b hb ↦ (hlex b hmem hb).2 (hleast b hb)⟩

/-! ## A bonus -/

section Bonus

variable {cost bonus : α → ℤ}

/-- **With a bonus it is the one whose disadvantage no other makes up.** -/
theorem isFirstMin_sub_iff : IsFirstMin S (fun b ↦ cost b - bonus b) key a ↔
    S a ∧ ∀ b, S b → toLex (bonus b - bonus a, key a) ≤ toLex (cost b - cost a, key b) := by
  have hlex : ∀ b, toLex (cost a - bonus a, key a) ≤ toLex (cost b - bonus b, key b) ↔
      toLex (bonus b - bonus a, key a) ≤ toLex (cost b - cost a, key b) := by
    intro b
    rw [Prod.Lex.toLex_le_toLex, Prod.Lex.toLex_le_toLex]
    refine or_congr ?_ (and_congr_left' ?_)
    · constructor <;> intro h <;> dsimp only at h ⊢ <;> omega
    · constructor <;> intro h <;> dsimp only at h ⊢ <;> omega
  constructor
  · rintro ⟨hmem, hleast⟩
    exact ⟨hmem, fun b hb ↦ (hlex b).1 (hleast b hb)⟩
  · rintro ⟨hmem, hleast⟩
    exact ⟨hmem, fun b hb ↦ (hlex b).2 (hleast b hb)⟩

/-- A lead that no other makes up. -/
theorem IsFirstMin.sub_of_lt (ha : S a)
    (h : ∀ b, S b → b ≠ a → bonus b - bonus a < cost b - cost a) :
    IsFirstMin S (fun b ↦ cost b - bonus b) key a := by
  refine isFirstMin_sub_iff.2 ⟨ha, fun b hb ↦ ?_⟩
  by_cases hne : b = a
  · rw [hne, sub_self, sub_self]
  · exact Prod.Lex.toLex_le_toLex.2 (Or.inl (h b hb hne))

end Bonus

end TetraPhy
