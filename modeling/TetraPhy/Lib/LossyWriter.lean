import Mathlib.Data.List.Basic

/-!
# Writing with losses

A buffered writer appends chunk after chunk.  A step that fails may lose data: of all that was
written so far, the chunk of the step included, some of it stays, in its order (`Loss`).

What was lost does not come back, so the writer ends up with all of its chunks exactly if every
failing step happens to keep what is there (`run_eq_iff`).
-/

namespace TetraPhy.LossyWriter

universe u

variable {α : Type u}

/-- What a failing step leaves of the data written so far. -/
structure Loss (α : Type u) where
  keep : List α → List α
  sublist : ∀ l, (keep l).Sublist l

/-- The loss of everything. -/
def Loss.all (α : Type u) : Loss α := ⟨fun _ ↦ [], fun _ ↦ List.nil_sublist _⟩

/-- What a step leaves; `none` is success. -/
def stored : Option (Loss α) → List α → List α
  | none, l => l
  | some loss, l => loss.keep l

/-- The data after some steps, each with its chunk. -/
def run : List α → List (List α × Option (Loss α)) → List α
  | content, [] => content
  | content, (chunk, o) :: steps => run (stored o (content ++ chunk)) steps

/-- Every step keeps what should be there. -/
def Keeps : List α → List (List α × Option (Loss α)) → Prop
  | _, [] => True
  | content, (chunk, o) :: steps =>
      stored o (content ++ chunk) = content ++ chunk ∧ Keeps (content ++ chunk) steps

/-- What is meant to be there in the end. -/
def meant (steps : List (List α × Option (Loss α))) : List α := (steps.map Prod.fst).flatten

variable {content : List α} {steps : List (List α × Option (Loss α))}

theorem stored_sublist (o : Option (Loss α)) (l : List α) : (stored o l).Sublist l := by
  cases o with
  | none => exact List.Sublist.refl l
  | some loss => exact loss.sublist l

theorem run_append (steps steps' : List (List α × Option (Loss α))) :
    run content (steps ++ steps') = run (run content steps) steps' := by
  induction steps generalizing content with
  | nil => rfl
  | cons step steps ih => exact ih

/-- Steps that succeed keep everything. -/
theorem keeps_of_none (h : ∀ step ∈ steps, step.2 = none) : Keeps content steps := by
  induction steps generalizing content with
  | nil => trivial
  | cons step steps ih =>
      obtain ⟨chunk, o⟩ := step
      obtain ⟨rfl, hrest⟩ := List.forall_mem_cons.1 h
      exact ⟨rfl, ih hrest⟩

theorem run_sublist (content : List α) (steps : List (List α × Option (Loss α))) :
    (run content steps).Sublist (content ++ meant steps) := by
  induction steps generalizing content with
  | nil => exact List.sublist_append_left _ _
  | cons step steps ih =>
      obtain ⟨chunk, o⟩ := step
      have hstored := (stored_sublist o (content ++ chunk)).append_right (meant steps)
      rw [List.append_assoc] at hstored
      exact (ih _).trans hstored

/-- **Nothing is lost exactly if every step keeps what is there.** -/
theorem run_eq_iff : run content steps = content ++ meant steps ↔ Keeps content steps := by
  induction steps generalizing content with
  | nil => exact iff_of_true (List.append_nil content).symm trivial
  | cons step steps ih =>
      obtain ⟨chunk, o⟩ := step
      have hmeant : content ++ meant ((chunk, o) :: steps) = content ++ chunk ++ meant steps :=
        (List.append_assoc ..).symm
      rw [run, Keeps, hmeant, ← ih]
      constructor
      · intro h
        have hlen : (content ++ chunk ++ meant steps).length ≤
            (stored o (content ++ chunk) ++ meant steps).length :=
          h ▸ (run_sublist (stored o (content ++ chunk)) steps).length_le
        have hkeep : stored o (content ++ chunk) = content ++ chunk := by
          refine (stored_sublist o _).eq_of_length_le ?_
          simp only [List.length_append] at hlen ⊢
          omega
        exact ⟨hkeep, by rw [← h, hkeep]⟩
      · rintro ⟨hkeep, hrest⟩
        rw [hkeep, hrest]

end TetraPhy.LossyWriter
