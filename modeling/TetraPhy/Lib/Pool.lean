import Mathlib.Algebra.Ring.Nat
import Mathlib.Data.Finset.Card
import Mathlib.Logic.Function.Basic

/-!
# Pools of slots

A pool is a family of records `g : ι → α`, some of which are `live`.  A relation `R`
between records says that two of them clash, and a pool is `Apart` if no two of its
live records do.

`apart_update_iff` reduces the question whether an update keeps a pool apart to the
new record alone: it must not clash with what is live elsewhere.  The rules after it
are its common cases.  Pools of two slots are indexed by `Fin 2`.
-/

namespace TetraPhy.Pool

universe u v w

variable {ι : Type u} {α : Type v} {live : α → Prop} {R : α → α → Prop}

/-- No two live records clash. -/
def Apart (live : α → Prop) (R : α → α → Prop) (g : ι → α) : Prop :=
  ∀ i j, i ≠ j → live (g i) → live (g j) → ¬ R (g i) (g j)

/-- Two live records that clash are the same one. -/
theorem Apart.eq {g : ι → α} (h : Apart live R g) {i j : ι} (hi : live (g i)) (hj : live (g j))
    (hR : R (g i) (g j)) : i = j := by
  by_contra hij
  exact h i j hij hi hj hR

/-- A pool of dead records is apart. -/
theorem apart_of_dead {g : ι → α} (h : ∀ i, ¬ live (g i)) : Apart live R g :=
  fun i _ _ hi ↦ absurd hi (h i)

/-- Records may change without notice if that revives none and adds no clash. -/
theorem Apart.mono {g g' : ι → α} (h : Apart live R g) (hlive : ∀ i, live (g' i) → live (g i))
    (hR : ∀ i j, R (g' i) (g' j) → R (g i) (g j)) : Apart live R g' :=
  fun i j hij hi hj hc ↦ h i j hij (hlive i hi) (hlive j hj) (hR i j hc)

section Update

variable [DecidableEq ι]

/-- **The update rule.**  Storing a record keeps a pool apart exactly when the record
does not clash with what is live elsewhere. -/
theorem apart_update_iff {g : ι → α} (h : Apart live R g) (hR : ∀ {a b}, R a b → R b a) (i : ι)
    (a : α) : Apart live R (Function.update g i a) ↔
      (live a → ∀ j, j ≠ i → live (g j) → ¬ R (g j) a) := by
  constructor
  · intro h' ha j hj hl hc
    refine h' j i hj ?_ ?_ ?_
    · rwa [Function.update_of_ne hj]
    · rwa [Function.update_self]
    · rwa [Function.update_of_ne hj, Function.update_self]
  · intro hnew j k hjk hj hk hc
    by_cases hji : j = i <;> by_cases hki : k = i
    · exact hjk (hji.trans hki.symm)
    · subst hji
      rw [Function.update_self] at hj hc
      rw [Function.update_of_ne hki] at hk hc
      exact hnew hj k hki hk (hR hc)
    · subst hki
      rw [Function.update_of_ne hji] at hj hc
      rw [Function.update_self] at hk hc
      exact hnew hk j hji hj hc
    · rw [Function.update_of_ne hji] at hj hc
      rw [Function.update_of_ne hki] at hk hc
      exact h j k hjk hj hk hc

/-- A dead record clashes with nothing. -/
theorem Apart.update_dead {g : ι → α} (h : Apart live R g) (hR : ∀ {a b}, R a b → R b a) (i : ι)
    {a : α} (ha : ¬ live a) : Apart live R (Function.update g i a) :=
  (apart_update_iff h hR i a).2 fun hl ↦ absurd hl ha

/-- A live record may be rewritten if what clashes with the new one clashed with the
old one. -/
theorem Apart.update_live {g : ι → α} (h : Apart live R g) (hR : ∀ {a b}, R a b → R b a) {i : ι}
    {a : α} (hi : live (g i)) (ha : ∀ b, R b a → R b (g i)) :
    Apart live R (Function.update g i a) :=
  (apart_update_iff h hR i a).2 fun _ j hj hl hc ↦ h j i hj hl hi (ha _ hc)

end Update

/-- If live records with the same key clash, and the keys of live records come from
`ks`, then there are at most `ks.card` of them. -/
theorem Apart.card_le {κ : Type w} [Fintype ι] [DecidablePred live] {g : ι → α} {k : α → κ}
    {ks : Finset κ} (h : Apart live (fun a b ↦ k a = k b) g)
    (hks : ∀ i, live (g i) → k (g i) ∈ ks) :
    (Finset.univ.filter fun i ↦ live (g i)).card ≤ ks.card := by
  refine Finset.card_le_card_of_injOn (fun i ↦ k (g i)) (fun i hi ↦ ?_) fun i hi j hj he ↦ ?_
  · exact hks i (by simpa using hi)
  · exact h.eq (by simpa using hi) (by simpa using hj) he

/-! ## Two slots -/

theorem neZeroTwo : NeZero 2 := ⟨by decide⟩

attribute [scoped instance] neZeroTwo

end TetraPhy.Pool
