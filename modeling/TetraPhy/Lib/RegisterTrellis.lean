import TetraPhy.Lib.BestPath
import TetraPhy.Lib.Trellis

/-!
# A shift register as a trellis

A decoder over a trellis looks at the branches of a stage in the order of a list, and keeps a
branch if it beats what its end has so far.  A decoder over a shift register compares the two
branches into each state, and keeps the second one if it is strictly better.

Where the list has the branches into each state in the order of the register (`Lists`), the two
are one: the cell of a state only sees its own two branches (`cell_foldl_relax`), metrics and
survivors are those of the register with a cap (`sweep_eq`, `traceback_sweep`), and so the decoder
over the trellis finds the first of the cheapest paths (`IsFirst.decode`).
-/

namespace TetraPhy.Survivor.ShiftRegister

open Trellis

universe u v

variable {σ : Type u} {ι : Type v} (R : ShiftRegister σ ι)

/-- The branch into a state from one of its predecessors. -/
def entry (t : σ) (b : Bool) : σ × ι := (R.pred t b, R.newest t)

/-- The cost of a branch, told by its end. -/
def entryCost (c : σ → ι → ℕ) (t : σ) (b : Bool) : ℕ := c (R.entry t b).1 (R.entry t b).2

/-- **A path costs the same**, told by its branches' ends. -/
theorem pathCost_map_entryCost (s : σ) (xs : List ι) (cs : List (σ → ι → ℕ)) :
    R.pathCost s xs (cs.map R.entryCost) = Trellis.pathCost R.next s xs cs := by
  induction xs generalizing s cs with
  | nil => cases cs <;> rfl
  | cons x xs ih =>
      cases cs with
      | nil => rfl
      | cons c cs =>
          rw [List.map_cons, pathCost, ih, Trellis.pathCost_cons, entryCost, entry, R.pred_next,
            R.newest_next]

variable {inf : ℕ} {c : σ → ι → ℕ} {pm : σ → ℕ}

/-- What a branch makes of the cell of its end. -/
def relaxCell (inf : ℕ) (c : σ → ι → ℕ) (pm : σ → ℕ) (x : ℕ × Option (σ × ι)) (e : σ × ι) :
    ℕ × Option (σ × ι) :=
  if inf ≤ pm e.1 then x
  else if pm e.1 + c e.1 e.2 < x.1 then (pm e.1 + c e.1 e.2, some e) else x

/-- The cell that one branch has made. -/
def offer (inf : ℕ) (c : σ → ι → ℕ) (pm : σ → ℕ) (e : σ × ι) : ℕ × Option (σ × ι) :=
  (min inf (pm e.1 + c e.1 e.2), if pm e.1 + c e.1 e.2 < inf then some e else none)

theorem relaxCell_none (e : σ × ι) : relaxCell inf c pm (inf, none) e = offer inf c pm e := by
  rw [relaxCell, offer]
  by_cases hlt : pm e.1 + c e.1 e.2 < inf
  · rw [if_neg (by omega), if_pos hlt, if_pos hlt, Nat.min_eq_right hlt.le]
  · rw [if_neg hlt, if_neg hlt, Nat.min_eq_left (not_lt.1 hlt)]
    exact ite_self _

/-- **The second branch is kept if it is strictly better.** -/
theorem relaxCell_offer (e e' : σ × ι) : relaxCell inf c pm (offer inf c pm e) e' =
    if pm e'.1 + c e'.1 e'.2 < pm e.1 + c e.1 e.2 then offer inf c pm e' else offer inf c pm e := by
  by_cases hinf : pm e'.1 + c e'.1 e'.2 < inf
  · have hreached : ¬ inf ≤ pm e'.1 := by omega
    have hbeats : pm e'.1 + c e'.1 e'.2 < (offer inf c pm e).1 ↔
        pm e'.1 + c e'.1 e'.2 < pm e.1 + c e.1 e.2 := by
      rw [offer, lt_min_iff]
      exact and_iff_right hinf
    have hoffer : offer inf c pm e' = (pm e'.1 + c e'.1 e'.2, some e') := by
      rw [offer, Nat.min_eq_right hinf.le, if_pos hinf]
    rw [relaxCell, if_neg hreached, if_congr hbeats hoffer.symm rfl]
  · have hkept : relaxCell inf c pm (offer inf c pm e) e' = offer inf c pm e := by
      have hnot : ¬ pm e'.1 + c e'.1 e'.2 < (offer inf c pm e).1 := by
        rw [offer, lt_min_iff]
        exact fun h ↦ hinf h.1
      rw [relaxCell, if_neg hnot]
      exact ite_self _
    rw [hkept]
    split
    · -- neither of them reaches the state
      rw [offer, offer, if_neg hinf, if_neg (by omega), Nat.min_eq_left (by omega),
        Nat.min_eq_left (by omega)]
    · rfl

variable [DecidableEq σ] {edges : List (σ × ι)}

/-- The branches into each state are listed in the order of its predecessors. -/
structure Lists (edges : List (σ × ι)) : Prop where
  filter_eq : ∀ t, edges.filter (fun e ↦ R.next e.1 e.2 = t) = [R.entry t false, R.entry t true]

/-! ## The cell of a state -/

/-- The cell of a state. -/
def cell (f : Front σ ι) (t : σ) : ℕ × Option (σ × ι) := (f.metric t, f.survivor t)

variable {R}

theorem cell_relax_self (f : Front σ ι) (e : σ × ι) :
    cell (relax R.next inf c pm f e) (R.next e.1 e.2) =
      relaxCell inf c pm (cell f (R.next e.1 e.2)) e := by
  rw [relax, relaxCell]
  split
  · rfl
  · by_cases hlt : pm e.1 + c e.1 e.2 < f.metric (R.next e.1 e.2)
    · rw [if_pos hlt]
      refine Eq.trans ?_ (if_pos hlt).symm
      exact congrArg₂ Prod.mk (Function.update_self ..) (Function.update_self ..)
    · rw [if_neg hlt]
      exact (if_neg hlt).symm

theorem cell_relax_of_ne (f : Front σ ι) {e : σ × ι} {t : σ} (h : R.next e.1 e.2 ≠ t) :
    cell (relax R.next inf c pm f e) t = cell f t := by
  rw [relax]
  split
  · rfl
  · split
    · exact congrArg₂ Prod.mk (Function.update_of_ne h.symm ..) (Function.update_of_ne h.symm ..)
    · rfl

/-- **Only the branches into it count.** -/
theorem cell_foldl_relax (l : List (σ × ι)) (f : Front σ ι) (t : σ) :
    cell (l.foldl (relax R.next inf c pm) f) t =
      (l.filter fun e ↦ R.next e.1 e.2 = t).foldl (relaxCell inf c pm) (cell f t) := by
  induction l generalizing f with
  | nil => rfl
  | cons e l ih =>
      rw [List.foldl_cons, ih]
      by_cases he : R.next e.1 e.2 = t
      · rw [List.filter_cons_of_pos (by simpa using he), List.foldl_cons, ← he, cell_relax_self]
      · rw [List.filter_cons_of_neg (by simpa using he), cell_relax_of_ne f he]

/-- **A stage of the trellis is a stage of the register**, with a cap. -/
theorem cell_acs (h : R.Lists edges) (t : σ) : cell (acs R.next edges inf c pm) t =
    (min inf (R.metric (R.entryCost c) pm t),
      if R.metric (R.entryCost c) pm t < inf then
        some (R.entry t (R.select (R.entryCost c) pm t)) else none) := by
  rw [acs, cell_foldl_relax, h.filter_eq, List.foldl_cons, List.foldl_cons, List.foldl_nil, cell,
    relaxCell_none, relaxCell_offer]
  by_cases hlt : pm (R.pred t true) + R.entryCost c t true <
      pm (R.pred t false) + R.entryCost c t false
  · have hsel : R.select (R.entryCost c) pm t = true := decide_eq_true hlt
    rw [metric, hsel]
    exact if_pos hlt
  · have hsel : R.select (R.entryCost c) pm t = false := decide_eq_false hlt
    rw [metric, hsel]
    exact if_neg hlt

/-! ## All stages -/

/-- The metrics of all stages, -/
theorem sweep_eq (h : R.Lists edges) (s : σ) (cs : List (σ → ι → ℕ)) :
    (sweep R.next edges inf s cs).1 =
      R.cappedMetrics inf (startMetrics inf s) (cs.map R.entryCost) := by
  induction cs using List.reverseRecOn with
  | nil => rfl
  | append_singleton cs c ih =>
      rw [sweep_concat, List.map_append, List.map_singleton, cappedMetrics_concat, ih]
      exact funext fun t ↦ congrArg Prod.fst (cell_acs h t)

/-- and the way back, from a state that was reached. -/
theorem traceback_sweep (h : R.Lists edges) (s : σ) (cs : List (σ → ι → ℕ)) {t : σ}
    (ht : R.cappedMetrics inf (startMetrics inf s) (cs.map R.entryCost) t < inf) (acc : List ι) :
    Trellis.traceback (sweep R.next edges inf s cs).2 t acc = some ((R.traceback t
      (R.cappedSurvivors inf (startMetrics inf s) (cs.map R.entryCost))).2 ++ acc) := by
  induction cs using List.reverseRecOn generalizing t acc with
  | nil => rfl
  | append_singleton cs c ih =>
      rw [List.map_append, List.map_singleton, cappedMetrics_concat] at ht
      rw [List.map_append, List.map_singleton, cappedSurvivors_concat, traceback_concat,
        sweep_concat, sweep_eq h]
      generalize hpm : R.cappedMetrics inf (startMetrics inf s) (cs.map R.entryCost) = pm at ht ih
      have hlt : R.metric (R.entryCost c) pm t < inf := by
        rw [min_lt_iff] at ht
        exact ht.resolve_left (lt_irrefl inf)
      have hsurv : (acs R.next edges inf c pm).survivor t =
          some (R.entry t (R.select (R.entryCost c) pm t)) :=
        (congrArg Prod.snd (cell_acs h t)).trans (if_pos hlt)
      have hpred : pm (R.pred t (R.select (R.entryCost c) pm t)) < inf :=
        (Nat.le_add_right _ _).trans_lt hlt
      rw [Trellis.traceback, hsurv]
      exact (ih hpred (R.newest t :: acc)).trans (by rw [List.append_assoc]; rfl)

variable {R : ShiftRegister σ Bool} {held : σ → List Bool} {edges : List (σ × Bool)}

/-- **The first of the cheapest paths is decoded**, if it costs less than the cap. -/
theorem IsFirst.decode (hR : R.Covers) (hd : R.Delays held) (h : R.Lists edges)
    {cs : List (σ → Bool → ℕ)} {s t : σ} {xs : List Bool}
    (hxs : R.IsFirst (cs.map R.entryCost) s t xs)
    (hcost : R.pathCost s xs (cs.map R.entryCost) < inf) :
    Trellis.decode R.next edges inf s t cs = some xs := by
  have hs : startMetrics inf s s = 0 := if_pos rfl
  have hle := metrics_le hR (startMetrics inf s) hxs.reaches
  rw [hs, Nat.zero_add] at hle
  have hcap : ∀ u, startMetrics inf s u = min inf (startMetrics inf s u) := fun u ↦ by
    rw [startMetrics]
    split <;> omega
  have ht : R.cappedMetrics inf (startMetrics inf s) (cs.map R.entryCost) t < inf := by
    rw [cappedMetrics_eq hcap]
    exact min_lt_of_right_lt (hle.trans_lt hcost)
  rw [Trellis.decode, traceback_sweep h s cs ht, hxs.traceback_capped hR hd hcost, List.append_nil]

end TetraPhy.Survivor.ShiftRegister
