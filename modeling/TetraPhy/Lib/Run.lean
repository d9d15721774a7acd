import Mathlib.Data.List.Basic

/-!
# Runs of a deterministic machine

A machine is a step function `step : S → E → S`.  A run is the list of events it
handles, oldest first.  Three notions are all that a safety argument about such
a machine needs:

* `exec` — the state a run ends in;
* `Throughout` — a state predicate holds in *every* state the run visits, the
  first and the last included;
* `Along` — a condition on (state, event) pairs holds at every step the run takes.

`throughout_iff_along` is the rule the conditional invariants go through: if one
step keeps `P` exactly when its condition `C` is met, then a whole run stays
within `P` exactly when each of its steps meets `C`.  `exists_response` and `of_progress` are the
rules for what a run comes to.
-/

namespace TetraPhy.Run

universe u v

variable {S : Type u} {E : Type v} (step : S → E → S)

/-- The state after a run. -/
def exec (s : S) (es : List E) : S := es.foldl step s

@[simp] theorem exec_nil (s : S) : exec step s [] = s := rfl

@[simp] theorem exec_cons (s : S) (e : E) (es : List E) :
    exec step s (e :: es) = exec step (step s e) es := rfl

theorem exec_append (s : S) (es fs : List E) :
    exec step s (es ++ fs) = exec step (exec step s es) fs := List.foldl_append

/-- What holds at the start and survives every step holds at the end of every run. -/
theorem exec_induction {P : S → Prop} (hstep : ∀ s e, P s → P (step s e))
    {s : S} (h : P s) (es : List E) : P (exec step s es) := by
  induction es generalizing s with
  | nil => exact h
  | cons e es ih => exact ih (hstep s e h)

/-- `Throughout P s es`: every state the run `es` visits from `s` satisfies `P`. -/
def Throughout (P : S → Prop) : S → List E → Prop
  | s, [] => P s
  | s, e :: es => P s ∧ Throughout P (step s e) es

/-- `Along C s es`: every event of the run `es` meets `C` in the state it is
handled in. -/
def Along (C : S → E → Prop) : S → List E → Prop
  | _, [] => True
  | s, e :: es => C s e ∧ Along C (step s e) es

instance decidableAlong {C : S → E → Prop} [∀ s e, Decidable (C s e)] (s : S) :
    ∀ es, Decidable (Along step C s es)
  | [] => inferInstanceAs (Decidable True)
  | e :: es =>
      have := decidableAlong (C := C) (step s e) es
      inferInstanceAs (Decidable (C s e ∧ Along step C (step s e) es))

theorem along_append {C : S → E → Prop} {s : S} (es fs : List E) :
    Along step C s (es ++ fs) ↔ Along step C s es ∧ Along step C (exec step s es) fs := by
  induction es generalizing s with
  | nil => exact ⟨fun h ↦ ⟨trivial, h⟩, fun h ↦ h.2⟩
  | cons e es ih => exact (and_congr_right fun _ ↦ ih).trans and_assoc.symm

theorem along_and {C D : S → E → Prop} {s : S} {es : List E} :
    Along step (fun s e ↦ C s e ∧ D s e) s es ↔ Along step C s es ∧ Along step D s es := by
  induction es generalizing s with
  | nil => exact (and_self_iff (a := True)).symm
  | cons e es ih => exact (and_congr_right fun _ ↦ ih).trans and_and_and_comm

theorem Throughout.head {P : S → Prop} {s : S} {es : List E} (h : Throughout step P s es) :
    P s := by
  cases es with
  | nil => exact h
  | cons e es => exact h.1

/-- The last state of a run is one of those it visits. -/
theorem Throughout.last {P : S → Prop} {s : S} {es : List E} (h : Throughout step P s es) :
    P (exec step s es) := by
  induction es generalizing s with
  | nil => exact h
  | cons e es ih => exact ih h.2

/-- What holds at the start and survives every step holds throughout every run. -/
theorem throughout_of_step {P : S → Prop} (hstep : ∀ s e, P s → P (step s e)) {s : S} (h : P s)
    (es : List E) : Throughout step P s es := by
  induction es generalizing s with
  | nil => exact h
  | cons e es ih => exact ⟨h, ih (hstep s e h)⟩

/-- What every step that meets a condition keeps holds throughout a run of such steps. -/
theorem Along.throughout {P : S → Prop} {C : S → E → Prop}
    (hstep : ∀ s e, P s → C s e → P (step s e)) {s : S} (h : P s) {es : List E}
    (hC : Along step C s es) : Throughout step P s es := by
  induction es generalizing s with
  | nil => exact h
  | cons e es ih => exact ⟨h, ih (hstep s e h hC.1) hC.2⟩

theorem Throughout.imp {P Q : S → Prop} (h : ∀ s, P s → Q s) {s : S} {es : List E}
    (hP : Throughout step P s es) : Throughout step Q s es := by
  induction es generalizing s with
  | nil => exact h s hP
  | cons e es ih => exact ⟨h s hP.1, ih hP.2⟩

/-- A condition along a run can be replaced by one that agrees with it in every
state satisfying an invariant. -/
theorem along_congr {I : S → Prop} {C D : S → E → Prop} (hI : ∀ s e, I s → I (step s e))
    (h : ∀ s e, I s → (C s e ↔ D s e)) {s : S} (hs : I s) (es : List E) :
    Along step C s es ↔ Along step D s es := by
  induction es generalizing s with
  | nil => exact Iff.rfl
  | cons e es ih => exact and_congr (h s e hs) (ih (hI s e hs))

/-- Two predicates that agree on the states of an invariant hold throughout the same
runs. -/
theorem throughout_congr {I P Q : S → Prop} (hI : ∀ s e, I s → I (step s e))
    (h : ∀ s, I s → (P s ↔ Q s)) {s : S} (hs : I s) (es : List E) :
    Throughout step P s es ↔ Throughout step Q s es := by
  induction es generalizing s with
  | nil => exact h s hs
  | cons e es ih => exact and_congr (h s hs) (ih (hI s e hs))

/-- The rule of conditional invariants, along a run whose steps meet `D` anyway: the
invariant `I` and the exactness of the condition `C` may rest on it. -/
theorem throughout_iff_along_of {I P : S → Prop} {C D : S → E → Prop}
    (hI : ∀ s e, I s → D s e → I (step s e))
    (hP : ∀ s e, I s → D s e → P s → (P (step s e) ↔ C s e))
    {s : S} (hIs : I s) (hPs : P s) {es : List E} (hD : Along step D s es) :
    Throughout step P s es ↔ Along step C s es := by
  induction es generalizing s with
  | nil => exact ⟨fun _ ↦ trivial, fun _ ↦ hPs⟩
  | cons e es ih =>
      constructor
      · intro h
        have hP' : P (step s e) := Throughout.head step h.2
        exact ⟨(hP s e hIs hD.1 hPs).1 hP', (ih (hI s e hIs hD.1) hP' hD.2).1 h.2⟩
      · intro h
        have hP' : P (step s e) := (hP s e hIs hD.1 hPs).2 h.1
        exact ⟨hPs, (ih (hI s e hIs hD.1) hP' hD.2).2 h.2⟩

theorem along_true (s : S) (es : List E) : Along step (fun _ _ ↦ True) s es := by
  induction es generalizing s with
  | nil => trivial
  | cons e es ih => exact ⟨trivial, ih (step s e)⟩

/-- **The rule of conditional invariants.**  Let `I` hold of every state, and let
one step from a state in `P` stay in `P` exactly when it meets `C`.  Then a run
from a state in `P` stays in `P` throughout exactly when all its steps meet `C`. -/
theorem throughout_iff_along {I P : S → Prop} {C : S → E → Prop}
    (hI : ∀ s e, I s → I (step s e))
    (hP : ∀ s e, I s → P s → (P (step s e) ↔ C s e))
    {s : S} (hIs : I s) (hPs : P s) (es : List E) :
    Throughout step P s es ↔ Along step C s es :=
  throughout_iff_along_of step (fun s e h _ ↦ hI s e h) (fun s e h _ ↦ hP s e h) hIs hPs
    (along_true step s es)

/-- The same with one direction only, for a condition that also yields something about
each step: along a run whose steps meet `C`, every state satisfies `P` and every step `D`. -/
theorem Along.throughout_and {I P : S → Prop} {C D : S → E → Prop}
    (hI : ∀ s e, I s → I (step s e))
    (h : ∀ s e, I s → P s → C s e → P (step s e) ∧ D s e)
    {s : S} (hIs : I s) (hPs : P s) {es : List E} (hC : Along step C s es) :
    Throughout step P s es ∧ Along step D s es := by
  induction es generalizing s with
  | nil => exact ⟨hPs, trivial⟩
  | cons e es ih =>
      obtain ⟨hP', hD⟩ := h s e hIs hPs hC.1
      obtain ⟨hrest, halong⟩ := ih (hI s e hIs) hP' hC.2
      exact ⟨⟨hPs, hrest⟩, hD, halong⟩

/-- **The rule of bounded response.**  While `W` holds and `D` does not, each step that meets `C`
keeps `W` and comes nearer to `D`; then a run of `n` such steps comes to `D`, if `D` is no further
than `n`. -/
theorem exists_response {W D : S → Prop} {C : S → E → Prop} {m : S → ℕ}
    (hstep : ∀ s e, W s → ¬ D s → C s e → W (step s e) ∧ m (step s e) < m s)
    (hzero : ∀ s, W s → m s = 0 → D s) {n : ℕ} {s : S} (hW : W s) (hm : m s ≤ n) {es : List E}
    (hlen : n ≤ es.length) (hC : Along step C s es) :
    ∃ k ≤ n, W (exec step s (es.take k)) ∧ D (exec step s (es.take k)) := by
  by_cases hD : D s
  · exact ⟨0, Nat.zero_le n, hW, hD⟩
  induction n generalizing s es with
  | zero => exact absurd (hzero s hW (Nat.le_zero.1 hm)) hD
  | succ n ih =>
      cases es with
      | nil => exact absurd hlen (Nat.not_succ_le_zero n)
      | cons e es =>
          obtain ⟨hW', hlt⟩ := hstep s e hW hD hC.1
          by_cases hD' : D (step s e)
          · exact ⟨1, Nat.succ_le_succ (Nat.zero_le n), hW', hD'⟩
          · obtain ⟨k, hk, hres⟩ := ih hW' (Nat.le_of_lt_succ (Nat.lt_of_lt_of_le hlt hm))
              (Nat.le_of_succ_le_succ hlen) hC.2 hD'
            exact ⟨k + 1, Nat.succ_le_succ hk, hres⟩

/-- **Response to enough progress.**  Only the events in `p` bring the run nearer to `D`, and the
others do not lead it away; then it comes to `D` once there were more of them than `m` counts. -/
theorem of_progress {W D : S → Prop} {C : S → E → Prop} {m : S → ℕ} (p : E → Bool)
    (hstep : ∀ s e, W s → C s e →
      D (step s e) ∨ W (step s e) ∧ m (step s e) + (if p e then 1 else 0) ≤ m s)
    (hD : ∀ s e, D s → D (step s e)) {s : S} (hW : W s) {es : List E} (hC : Along step C s es)
    (hlen : m s < es.countP p) : D (exec step s es) := by
  induction es generalizing s with
  | nil => exact absurd hlen (Nat.not_lt_zero _)
  | cons e es ih =>
      rw [List.countP_cons] at hlen
      rcases hstep s e hW hC.1 with hd | ⟨hW', hle⟩
      · exact exec_induction step hD hd es
      · exact ih hW' hC.2 (by omega)

end TetraPhy.Run

/-!
# Accounts of a run

A machine has dues and pays them, and it may take a while: `due` counts what came up, `paid` what
was settled or is about to be.  What comes up in a step and is never going to be paid is the step's
loss.  Losses are not made good, so a run has paid all its dues exactly if no step of it has a loss
(`paid_up_iff`).
-/

namespace TetraPhy.Arrears

open Run

universe u v

variable {S : Type u} {E : Type v} (step : S → E → S)

/-- The losses of a run. -/
def losses (loss : S → E → ℕ) : S → List E → ℕ
  | _, [] => 0
  | s, e :: es => loss s e + losses loss (step s e) es

section

variable {loss : S → E → ℕ} {D : S → E → Prop} {s : S}

/-- A run without losses is one of steps without. -/
theorem losses_eq_zero_iff (es : List E) :
    losses step loss s es = 0 ↔ Along step (fun s e ↦ loss s e = 0) s es := by
  induction es generalizing s with
  | nil => exact iff_of_true rfl trivial
  | cons e es ih => exact Nat.add_eq_zero_iff.trans (and_congr_right fun _ ↦ ih)

variable (due paid : S → ℕ)

/-- **The account of a run**: what came up was paid or lost. -/
theorem account
    (h : ∀ s e, D s e → due (step s e) + paid s = due s + (paid (step s e) + loss s e))
    {es : List E} (hD : Along step D s es) :
    due (exec step s es) + paid s =
      due s + (paid (exec step s es) + losses step loss s es) := by
  induction es generalizing s with
  | nil => rfl
  | cons e es ih =>
      have hstep := h s e hD.1
      have hrest := ih hD.2
      rw [exec_cons, losses]
      omega

/-- **All dues are paid exactly if nothing is lost.** -/
theorem paid_up_iff
    (h : ∀ s e, D s e → due (step s e) + paid s = due s + (paid (step s e) + loss s e))
    (h0 : due s = paid s) {es : List E} (hD : Along step D s es) :
    due (exec step s es) = paid (exec step s es) ↔
      Along step (fun s e ↦ loss s e = 0) s es := by
  have haccount := account step due paid h hD
  rw [← losses_eq_zero_iff]
  omega

end

/-- What a step cannot bring about, and the end of a run shows, every step of the run ends in. -/
theorem along_of_last {U : S → Prop} (hback : ∀ s e, U (step s e) → U s) {s : S} {es : List E}
    (h : U (exec step s es)) : U s ∧ Along step (fun s e ↦ U (step s e)) s es := by
  induction es generalizing s with
  | nil => exact ⟨h, trivial⟩
  | cons e es ih =>
      obtain ⟨hnext, hrest⟩ := ih h
      exact ⟨hback s e hnext, hnext, hrest⟩

end TetraPhy.Arrears
