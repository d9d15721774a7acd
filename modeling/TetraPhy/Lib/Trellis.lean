import Mathlib.Algebra.Order.Group.Nat
import Mathlib.Data.List.Induction
import Mathlib.Logic.Function.Basic

/-!
# Add–compare–select on a trellis

A trellis is a state machine `next : σ → ι → σ`.  Each stage gives every branch a
cost; the cost of a path is the sum of the costs of its branches.  The Viterbi
algorithm keeps, for each state, the metric of the best path that ends there and the
branch it came by, and reads the inputs of the best path off those survivors.

Metrics are *capped*: a metric of at least `inf` means "no path", such states are
skipped, and a state no branch reached has no survivor.  The traceback is therefore
partial.  The results are:

* `sweep_attained` — a metric below the cap is the cost of a path, and that path is
  what the traceback returns;
* `sweep_le` — a metric is at most the cost of any path, if that is below the cap;
* `decode_optimal` — if some path to the target costs less than the cap, then the
  decoder returns one, and no path to the target is cheaper.

Nothing is assumed about how ties are broken.
-/

namespace TetraPhy.Trellis

universe u v

variable {σ : Type u} {ι : Type v}

/-! ## Paths -/

section Paths

variable (next : σ → ι → σ)

/-- The state a path ends in. -/
def endState (s : σ) (is : List ι) : σ := is.foldl next s

/-- The cost of a path from `s` over the stages `cs`. -/
def pathCost (s : σ) : List ι → List (σ → ι → ℕ) → ℕ
  | i :: is, c :: cs => c s i + pathCost (next s i) is cs
  | _, _ => 0

@[simp] theorem endState_nil (s : σ) : endState next s [] = s := rfl

@[simp] theorem endState_cons (s : σ) (i : ι) (is : List ι) :
    endState next s (i :: is) = endState next (next s i) is := rfl

theorem endState_append (s : σ) (is js : List ι) :
    endState next s (is ++ js) = endState next (endState next s is) js := List.foldl_append

@[simp] theorem pathCost_cons (s : σ) (i : ι) (is : List ι) (c : σ → ι → ℕ)
    (cs : List (σ → ι → ℕ)) :
    pathCost next s (i :: is) (c :: cs) = c s i + pathCost next (next s i) is cs := rfl

@[simp] theorem pathCost_nil (s : σ) (cs : List (σ → ι → ℕ)) : pathCost next s [] cs = 0 := by
  cases cs <;> rfl

/-- Costs add up along concatenated paths. -/
theorem pathCost_append {s : σ} {is js : List ι} {cs ds : List (σ → ι → ℕ)}
    (h : is.length = cs.length) :
    pathCost next s (is ++ js) (cs ++ ds) =
      pathCost next s is cs + pathCost next (endState next s is) js ds := by
  induction is generalizing s cs with
  | nil =>
      rw [List.eq_nil_of_length_eq_zero h.symm]
      simp
  | cons i is ih =>
      cases cs with
      | nil => simp at h
      | cons c cs =>
          simp only [List.cons_append, pathCost_cons, endState_cons]
          rw [ih (by simpa using h), Nat.add_assoc]

end Paths

/-! ## The algorithm -/

section Algorithm

variable [DecidableEq σ] (next : σ → ι → σ) (edges : List (σ × ι)) (inf : ℕ)

/-- The metrics of one stage and the branch by which each was reached. -/
structure Front (σ : Type u) (ι : Type v) where
  metric : σ → ℕ
  survivor : σ → Option (σ × ι)

/-- Consider one branch: skip it if its origin was not reached, and let it survive if it
beats what its end has so far. -/
def relax (c : σ → ι → ℕ) (pm : σ → ℕ) (f : Front σ ι) (e : σ × ι) : Front σ ι :=
  if inf ≤ pm e.1 then f
  else if pm e.1 + c e.1 e.2 < f.metric (next e.1 e.2) then
    { metric := Function.update f.metric (next e.1 e.2) (pm e.1 + c e.1 e.2)
      survivor := Function.update f.survivor (next e.1 e.2) (some e) }
  else f

/-- One stage: consider the branches in order, starting with no state reached. -/
def acs (c : σ → ι → ℕ) (pm : σ → ℕ) : Front σ ι :=
  edges.foldl (relax next inf c pm) { metric := fun _ ↦ inf, survivor := fun _ ↦ none }

/-- All stages: the final metrics, and the survivors of each stage, last stage first. -/
def sweep (s₀ : σ) (cs : List (σ → ι → ℕ)) : (σ → ℕ) × List (σ → Option (σ × ι)) :=
  cs.foldl (fun (pm, tb) c ↦
      let f := acs next edges inf c pm
      (f.metric, f.survivor :: tb))
    (fun s ↦ if s = s₀ then 0 else inf, [])

/-- Follow the survivors back from `s`, collecting inputs in front of `acc`. -/
def traceback : List (σ → Option (σ × ι)) → σ → List ι → Option (List ι)
  | [], _, acc => some acc
  | col :: cols, s, acc =>
    match col s with
    | none => none
    | some (s', i) => traceback cols s' (i :: acc)

/-- The inputs of the surviving path from `s₀` to `target`. -/
def decode (s₀ target : σ) (cs : List (σ → ι → ℕ)) : Option (List ι) :=
  traceback (sweep next edges inf s₀ cs).2 target []

/-! ## One stage -/

variable {next edges inf}

/-- Considering a branch lowers metrics only. -/
theorem metric_relax_le (c : σ → ι → ℕ) (pm : σ → ℕ) (f : Front σ ι) (e : σ × ι) (t : σ) :
    (relax next inf c pm f e).metric t ≤ f.metric t := by
  unfold relax
  split
  · rfl
  · split
    · dsimp only
      by_cases ht : t = next e.1 e.2
      · subst ht
        rw [Function.update_self]
        omega
      · rw [Function.update_of_ne ht]
    · rfl

/-- A branch from a reached state has been taken into account. -/
theorem metric_relax_self_le {c : σ → ι → ℕ} {pm : σ → ℕ} (f : Front σ ι) {e : σ × ι}
    (h : pm e.1 < inf) :
    (relax next inf c pm f e).metric (next e.1 e.2) ≤ pm e.1 + c e.1 e.2 := by
  unfold relax
  rw [if_neg (by omega)]
  split
  · dsimp only
    rw [Function.update_self]
  · omega

theorem metric_foldl_relax_le (c : σ → ι → ℕ) (pm : σ → ℕ) (l : List (σ × ι)) (f : Front σ ι)
    (t : σ) : (l.foldl (relax next inf c pm) f).metric t ≤ f.metric t := by
  induction l generalizing f with
  | nil => rfl
  | cons e l ih => exact (ih _).trans (metric_relax_le c pm f e t)

/-- The metrics of a stage take every branch into account. -/
theorem metric_acs_le {c : σ → ι → ℕ} {pm : σ → ℕ} {s : σ} {i : ι} (he : (s, i) ∈ edges)
    (h : pm s < inf) : (acs next edges inf c pm).metric (next s i) ≤ pm s + c s i := by
  unfold acs
  obtain ⟨l, r, rfl⟩ := List.append_of_mem he
  rw [List.foldl_append, List.foldl_cons]
  exact (metric_foldl_relax_le c pm r _ _).trans (metric_relax_self_le _ h)

/-- A reached state has a survivor, which accounts for its metric. -/
def Front.Supported (next : σ → ι → σ) (inf : ℕ) (c : σ → ι → ℕ) (pm : σ → ℕ) (f : Front σ ι) :
    Prop :=
  ∀ t, f.metric t < inf → ∃ s i, f.survivor t = some (s, i) ∧ next s i = t ∧ pm s < inf ∧
    f.metric t = pm s + c s i

theorem Front.Supported.relax {c : σ → ι → ℕ} {pm : σ → ℕ} {f : Front σ ι}
    (h : f.Supported next inf c pm) (e : σ × ι) :
    (relax next inf c pm f e).Supported next inf c pm := by
  unfold Trellis.relax
  split
  · exact h
  · split
    · intro t ht
      by_cases hte : t = next e.1 e.2
      · subst hte
        exact ⟨e.1, e.2, Function.update_self .., rfl, by omega, Function.update_self ..⟩
      · dsimp only at ht ⊢
        rw [Function.update_of_ne hte] at ht ⊢
        rw [Function.update_of_ne hte]
        exact h t ht
    · exact h

theorem supported_acs (c : σ → ι → ℕ) (pm : σ → ℕ) :
    (acs next edges inf c pm).Supported next inf c pm := by
  unfold acs
  refine List.foldlRecOn edges _ (fun t ht ↦ absurd ht (lt_irrefl inf)) fun f h e _ ↦ h.relax e

/-! ## All stages -/

theorem sweep_nil (s₀ : σ) :
    sweep next edges inf s₀ [] = (fun s ↦ if s = s₀ then 0 else inf, []) := rfl

theorem sweep_concat (s₀ : σ) (cs : List (σ → ι → ℕ)) (c : σ → ι → ℕ) :
    sweep next edges inf s₀ (cs ++ [c]) =
      ((acs next edges inf c (sweep next edges inf s₀ cs).1).metric,
        (acs next edges inf c (sweep next edges inf s₀ cs).1).survivor ::
          (sweep next edges inf s₀ cs).2) := by
  simp only [sweep, List.foldl_append, List.foldl_cons, List.foldl_nil]

/-- **A metric below the cap is attained**, by the path the traceback returns. -/
theorem sweep_attained {s₀ : σ} (cs : List (σ → ι → ℕ)) {s : σ}
    (h : (sweep next edges inf s₀ cs).1 s < inf) :
    ∃ is : List ι, is.length = cs.length ∧ endState next s₀ is = s ∧
      pathCost next s₀ is cs = (sweep next edges inf s₀ cs).1 s ∧
      ∀ acc, traceback (sweep next edges inf s₀ cs).2 s acc = some (is ++ acc) := by
  induction cs using List.reverseRecOn generalizing s with
  | nil =>
      rw [sweep_nil] at h ⊢
      dsimp only at h ⊢
      by_cases hs : s = s₀
      · exact ⟨[], rfl, hs.symm, by rw [if_pos hs]; rfl, fun _ ↦ rfl⟩
      · rw [if_neg hs] at h
        exact absurd h (lt_irrefl inf)
  | append_singleton cs c ih =>
      rw [sweep_concat] at h ⊢
      obtain ⟨s', i, hsurv, rfl, hpm, hmetric⟩ := supported_acs c _ s h
      obtain ⟨is, hlen, hend, hcost, htrace⟩ := ih hpm
      refine ⟨is ++ [i], by simp [hlen], ?_, ?_, fun acc ↦ ?_⟩
      · rw [endState_append, hend]
        rfl
      · rw [pathCost_append next hlen, hend, hcost]
        exact hmetric.symm
      · rw [traceback, hsurv]
        dsimp only
        rw [htrace, List.append_assoc]
        rfl

/-- **No path is cheaper than the metric of its end**, below the cap. -/
theorem sweep_le (hedges : ∀ s i, (s, i) ∈ edges) {s₀ : σ} (cs : List (σ → ι → ℕ)) {is : List ι}
    (hlen : is.length = cs.length) (hcost : pathCost next s₀ is cs < inf) :
    (sweep next edges inf s₀ cs).1 (endState next s₀ is) ≤ pathCost next s₀ is cs := by
  induction cs using List.reverseRecOn generalizing is with
  | nil =>
      rw [List.eq_nil_of_length_eq_zero hlen, sweep_nil]
      simp
  | append_singleton cs c ih =>
      rcases List.eq_nil_or_concat is with rfl | ⟨is, i, rfl⟩
      · simp at hlen
      · rw [List.concat_eq_append] at hlen hcost ⊢
        have hlen' : is.length = cs.length := by simpa using hlen
        rw [pathCost_append next hlen'] at hcost ⊢
        rw [endState_append, sweep_concat]
        have hpm := ih hlen' (by omega)
        exact (metric_acs_le (hedges _ i) (by omega)).trans (Nat.add_le_add_right hpm _)

/-- **The decoder finds a cheapest path to its target**, provided some path to it costs
less than the cap. -/
theorem decode_optimal (hedges : ∀ s i, (s, i) ∈ edges) {s₀ target : σ}
    {cs : List (σ → ι → ℕ)} {is : List ι} (hlen : is.length = cs.length)
    (hend : endState next s₀ is = target) (hcost : pathCost next s₀ is cs < inf) :
    ∃ best, decode next edges inf s₀ target cs = some best ∧ best.length = cs.length ∧
      endState next s₀ best = target ∧
      ∀ js : List ι, js.length = cs.length → endState next s₀ js = target →
        pathCost next s₀ best cs ≤ pathCost next s₀ js cs := by
  have hle := sweep_le hedges cs hlen hcost
  rw [hend] at hle
  obtain ⟨best, hblen, hbend, hbcost, htrace⟩ := sweep_attained cs (hle.trans_lt hcost)
  refine ⟨best, ?_, hblen, hbend, fun js hjlen hjend ↦ ?_⟩
  · rw [decode, htrace, List.append_nil]
  · by_cases hj : pathCost next s₀ js cs < inf
    · rw [hbcost, ← hjend]
      exact sweep_le hedges cs hjlen hj
    · omega

end Algorithm

end TetraPhy.Trellis
