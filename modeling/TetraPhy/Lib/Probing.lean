import Mathlib.Data.Fintype.Card
import Mathlib.Data.Finset.Card
import Mathlib.Logic.Function.Basic

/-!
# Tables with open addressing

A table has slots, each free or held under a key.  The slots of a key are tried in an order of its
own, `probe k 0, probe k 1, …`, up to the first one that is free or its own (`seek`); entries are
overwritten and never removed.

* `Probed` — no key is held twice, and none behind a free slot;
* `seek_held`, `seek_fresh`, `seek_full` — where a search ends in such a table;
* `Probed.put` — an entry that is put where the search ended keeps it so;
* `exists_free_iff` — there is a free slot as long as there are fewer keys than slots.
-/

namespace TetraPhy.Probing

universe u v w

variable {ι : Type u} {σ : Type v} {κ : Type w}
  (key : σ → Option κ) (probe : κ → ℕ → ι)

/-- The first of `fuel` slots, from the probe `d` on, that is free or held under the key. -/
def seek [DecidableEq κ] (t : ι → σ) (k : κ) : ℕ → ℕ → Option ι
  | 0, _ => none
  | fuel + 1, d =>
    if key (t (probe k d)) = none ∨ key (t (probe k d)) = some k then some (probe k d)
    else seek t k fuel (d + 1)

/-- The key is held in some slot. -/
def Held (t : ι → σ) (k : κ) : Prop := ∃ s, key (t s) = some k

/-- No key is held twice, and none behind a free slot. -/
structure Probed (n : ℕ) (t : ι → σ) : Prop where
  unique : ∀ s s', key (t s) ≠ none → key (t s) = key (t s') → s = s'
  reach : ∀ s k, key (t s) = some k →
    ∃ d < n, probe k d = s ∧ ∀ e < d, key (t (probe k e)) ≠ none

variable {key probe} {t : ι → σ} {k : κ} {n fuel d : ℕ} {s : ι}

/-- A table of free slots. -/
theorem probed_of_free (h : ∀ s, key (t s) = none) : Probed key probe n t :=
  ⟨fun s _ hs ↦ absurd (h s) hs, fun s k hs ↦ absurd ((h s).symm.trans hs) (by simp)⟩

section Search

variable [DecidableEq κ]

/-- Where a search ends, what it was looking for is there, and behind it there is none. -/
theorem seek_eq_some (h : seek key probe t k fuel d = some s) :
    (key (t s) = none ∨ key (t s) = some k) ∧ ∃ e, d ≤ e ∧ e < d + fuel ∧ s = probe k e ∧
      ∀ e', d ≤ e' → e' < e → key (t (probe k e')) ≠ none := by
  induction fuel generalizing d with
  | zero => cases h
  | succ fuel ih =>
      rw [seek] at h
      split_ifs at h with hstop
      · obtain rfl := Option.some.inj h
        exact ⟨hstop, d, Nat.le_refl d, by omega, rfl, fun e' hle hlt ↦ absurd hlt (by omega)⟩
      · obtain ⟨hs, e, hle, hlt, hse, hbefore⟩ := ih h
        refine ⟨hs, e, by omega, by omega, hse, fun e' hle' hlt' ↦ ?_⟩
        rcases Nat.eq_or_lt_of_le hle' with rfl | hlt''
        · exact fun hnone ↦ hstop (.inl hnone)
        · exact hbefore e' hlt'' hlt'

/-- A search goes past slots that are held under other keys. -/
theorem seek_of_stop {e : ℕ} (hde : d ≤ e) (he : e < d + fuel)
    (hstop : key (t (probe k e)) = none ∨ key (t (probe k e)) = some k)
    (hbefore : ∀ e', d ≤ e' → e' < e →
      key (t (probe k e')) ≠ none ∧ key (t (probe k e')) ≠ some k) :
    seek key probe t k fuel d = some (probe k e) := by
  induction fuel generalizing d with
  | zero => exact absurd he (by omega)
  | succ fuel ih =>
      rw [seek]
      rcases Nat.eq_or_lt_of_le hde with rfl | hlt
      · rw [if_pos hstop]
      · obtain ⟨hfree, hother⟩ := hbefore d (Nat.le_refl d) hlt
        rw [if_neg (not_or.2 ⟨hfree, hother⟩)]
        exact ih hlt (by omega) fun e' hle ↦ hbefore e' (by omega)

/-- In a full table there is nothing to be found. -/
theorem seek_full (hk : ¬ Held key t k) (hfull : ∀ s, key (t s) ≠ none) :
    seek key probe t k fuel d = none := by
  cases h : seek key probe t k fuel d with
  | none => rfl
  | some s =>
      obtain ⟨hnone | hsome, -⟩ := seek_eq_some h
      · exact absurd hnone (hfull s)
      · exact absurd ⟨s, hsome⟩ hk

/-- **A key that is held is found.** -/
theorem seek_held (h : Probed key probe n t) (hs : key (t s) = some k) :
    seek key probe t k n 0 = some s := by
  obtain ⟨d, hd, rfl, hbefore⟩ := h.reach s k hs
  -- the search ends where the key is first met, which is the one place it is at
  have hex : ∃ e, key (t (probe k e)) = some k := ⟨d, hs⟩
  classical
  have hle : Nat.find hex ≤ d := Nat.find_min' hex hs
  have hfirst := Nat.find_spec hex
  have hsame : probe k (Nat.find hex) = probe k d :=
    h.unique _ _ (by rw [hfirst]; exact Option.some_ne_none k) (hfirst.trans hs.symm)
  rw [← hsame]
  refine seek_of_stop (Nat.zero_le _) (by omega) (.inr hfirst) fun e _ hlt ↦ ?_
  exact ⟨hbefore e (by omega), Nat.find_min hex hlt⟩

/-- **A key that is not held comes to a free slot**, if there is one. -/
theorem seek_fresh (hcovers : ∀ k s, ∃ d < n, probe k d = s) (hk : ¬ Held key t k)
    (hs : key (t s) = none) : ∃ s', seek key probe t k n 0 = some s' ∧ key (t s') = none := by
  obtain ⟨d, hd, rfl⟩ := hcovers k s
  have hex : ∃ e, key (t (probe k e)) = none := ⟨d, hs⟩
  classical
  have hle : Nat.find hex ≤ d := Nat.find_min' hex hs
  have hfirst := Nat.find_spec hex
  refine ⟨_, seek_of_stop (Nat.zero_le _) (by omega) (.inl hfirst) fun e _ hlt ↦ ?_, hfirst⟩
  exact ⟨Nat.find_min hex hlt, fun hsome ↦ hk ⟨_, hsome⟩⟩

end Search

/-- **There is a free slot as long as there are fewer keys than slots.** -/
theorem exists_free_iff [Fintype ι] (h : Probed key probe n t) {K : Finset κ}
    (hK : ∀ k, Held key t k ↔ k ∈ K) :
    (∃ s, key (t s) = none) ↔ K.card < Fintype.card ι := by
  classical
  have himage : (Finset.univ.filter fun s ↦ key (t s) ≠ none).image (fun s ↦ key (t s)) =
      K.map ⟨some, Option.some_injective κ⟩ := by
    ext o
    simp only [Finset.mem_image, Finset.mem_filter, Finset.mem_univ, true_and, Finset.mem_map,
      Function.Embedding.coeFn_mk]
    constructor
    · rintro ⟨s, hs, rfl⟩
      obtain ⟨k, hk⟩ := Option.ne_none_iff_exists.1 hs
      exact ⟨k, (hK k).1 ⟨s, hk.symm⟩, hk⟩
    · rintro ⟨k, hk, rfl⟩
      obtain ⟨s, hs⟩ := (hK k).2 hk
      exact ⟨s, by rw [hs]; exact Option.some_ne_none k, hs⟩
  have hcard : (Finset.univ.filter fun s ↦ key (t s) ≠ none).card = K.card := by
    rw [← Finset.card_map ⟨some, Option.some_injective κ⟩, ← himage, Finset.card_image_of_injOn]
    exact fun s hs s' _ heq ↦ h.unique s s' (Finset.mem_filter.1 hs).2 heq
  rw [← hcard, Finset.card_lt_iff_ne_univ, Ne, Finset.filter_eq_self, not_forall]
  simp only [Finset.mem_univ, true_imp_iff, not_not]

/-! ## Putting an entry -/

variable [DecidableEq ι] {w : σ}

/-- **An entry is put where the search for its key ended.** -/
theorem Probed.put [DecidableEq κ] (h : Probed key probe n t)
    (hseek : seek key probe t k n 0 = some s) (hw : key w = some k) :
    Probed key probe n (Function.update t s w) := by
  obtain ⟨-, d, -, hd, hs, hbefore⟩ := seek_eq_some hseek
  have hput : key (Function.update t s w s) = some k := by rw [Function.update_self, hw]
  have hkeep : ∀ {s'}, s' ≠ s → Function.update t s w s' = t s' :=
    fun hne ↦ Function.update_of_ne hne _ _
  have hfree : ∀ {s'}, key (t s') ≠ none → key (Function.update t s w s') ≠ none := by
    intro s' hs'
    rcases eq_or_ne s' s with rfl | hne
    · rw [hput]
      exact Option.some_ne_none k
    · rwa [hkeep hne]
  -- a slot that holds the key is the one the search ended at
  have hother : ∀ {s'}, s' ≠ s → key (t s') ≠ some k :=
    fun hne hs' ↦ hne (Option.some.inj ((seek_held h hs').symm.trans hseek))
  constructor
  · intro s₁ s₂ h₁ heq
    rcases eq_or_ne s₁ s with rfl | hne₁
    · rcases eq_or_ne s₂ s₁ with rfl | hne₂
      · rfl
      · rw [hput, hkeep hne₂] at heq
        exact absurd heq.symm (hother hne₂)
    · rcases eq_or_ne s₂ s with rfl | hne₂
      · rw [hput, hkeep hne₁] at heq
        exact absurd heq (hother hne₁)
      · rw [hkeep hne₁, hkeep hne₂] at heq
        rw [hkeep hne₁] at h₁
        exact h.unique s₁ s₂ h₁ heq
  · intro s' k' hs'
    rcases eq_or_ne s' s with rfl | hne
    · obtain rfl := Option.some.inj (hput.symm.trans hs')
      exact ⟨d, by omega, hs.symm, fun e he ↦ hfree (hbefore e (Nat.zero_le e) he)⟩
    · rw [hkeep hne] at hs'
      obtain ⟨d', hd', hs'', hbefore'⟩ := h.reach s' k' hs'
      exact ⟨d', hd', hs'', fun e he ↦ hfree (hbefore' e he)⟩

/-- The keys that are held then. -/
theorem held_put (hstop : key (t s) = none ∨ key (t s) = some k) (hw : key w = some k) {k' : κ} :
    Held key (Function.update t s w) k' ↔ k' = k ∨ Held key t k' := by
  constructor
  · rintro ⟨s', hs'⟩
    rcases eq_or_ne s' s with rfl | hne
    · rw [Function.update_self, hw] at hs'
      exact .inl (Option.some.inj hs').symm
    · rw [Function.update_of_ne hne] at hs'
      exact .inr ⟨s', hs'⟩
  · rintro (rfl | ⟨s', hs'⟩)
    · exact ⟨s, by rw [Function.update_self, hw]⟩
    · rcases eq_or_ne s' s with rfl | hne
      · rcases hstop with hnone | hsome
        · exact absurd (hnone.symm.trans hs') (by simp)
        · obtain rfl := Option.some.inj (hsome.symm.trans hs')
          exact ⟨s', by rw [Function.update_self, hw]⟩
      · exact ⟨s', by rw [Function.update_of_ne hne, hs']⟩

end TetraPhy.Probing
