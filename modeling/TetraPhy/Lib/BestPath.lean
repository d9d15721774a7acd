import Mathlib.Algebra.GroupWithZero.Nat
import Mathlib.Algebra.Order.Group.Nat
import Mathlib.Algebra.Order.Group.Unbundled.Basic
import Mathlib.Data.List.Induction
import Mathlib.Data.List.Lex
import Mathlib.Data.Prod.Lex
import Mathlib.Algebra.Order.Monoid.Defs
import Mathlib.Algebra.Order.Monoid.Unbundled.Basic
import Mathlib.Data.List.Basic

/-!
# The survivors of a shift register

The state of a convolutional encoder is a shift register: an input enters at one end and a bit
drops out at the other, so that a state has two predecessors, told apart by the bit that dropped
out.  A Viterbi decoder for it keeps a metric for each state and, stage by stage, one bit for
each state, which says what predecessor its survivor came from.  The traceback reads the inputs
off the states themselves.

* `ShiftRegister` — the register, with the two laws that make the traceback work;
* `survivors`, `traceback` — the decoder, metrics in any ordered cancellative monoid, no caps;
* `traceback_survivors` — if the transmitted path `Leads`, the decoder returns its inputs.

A path leads if it starts in a state of least metric and at each stage its branch is a cheapest
one and cheaper than the other branch into its end.
-/

namespace TetraPhy.Survivor

universe u v w

/-- A shift register: `oldest` is the bit the next input drives out. -/
structure ShiftRegister (σ : Type u) (ι : Type v) where
  next : σ → ι → σ
  newest : σ → ι
  oldest : σ → Bool
  pred : σ → Bool → σ
  newest_next : ∀ s x, newest (next s x) = x
  pred_next : ∀ s x, pred (next s x) (oldest s) = s

namespace ShiftRegister

variable {σ : Type u} {ι : Type v} {μ : Type w} (R : ShiftRegister σ ι)

/-- The state after some inputs. -/
def endState (s : σ) (xs : List ι) : σ := xs.foldl R.next s

/-! ## The decoder -/

section Decoder

variable [Add μ] [LinearOrder μ]

/-- The predecessor that survives: the second one if it is strictly better. -/
def select (c : σ → Bool → μ) (m : σ → μ) (t : σ) : Bool :=
  decide (m (R.pred t true) + c t true < m (R.pred t false) + c t false)

/-- The metric of a state, that of its survivor. -/
def metric (c : σ → Bool → μ) (m : σ → μ) (t : σ) : μ :=
  m (R.pred t (R.select c m t)) + c t (R.select c m t)

/-- The survivors of each stage. -/
def survivors : (σ → μ) → List (σ → Bool → μ) → List (σ → Bool)
  | _, [] => []
  | m, c :: cs => R.select c m :: survivors (R.metric c m) cs

end Decoder

/-- Go back from `t`, the last stage first, and collect the inputs. -/
def traceback (t : σ) (ds : List (σ → Bool)) : σ × List ι :=
  ds.foldr (fun d (u, xs) ↦ (R.pred u (d u), R.newest u :: xs)) (t, [])

@[simp] theorem traceback_nil (t : σ) : R.traceback t [] = (t, []) := rfl

theorem traceback_cons (t : σ) (d : σ → Bool) (ds : List (σ → Bool)) :
    R.traceback t (d :: ds) = (R.pred (R.traceback t ds).1 (d (R.traceback t ds).1),
      R.newest (R.traceback t ds).1 :: (R.traceback t ds).2) := rfl

/-! ## The transmitted path -/

variable [AddCommMonoid μ] [LinearOrder μ] [IsOrderedCancelAddMonoid μ]

/-- The path of the inputs `xs` from `s` leads: each of its branches is a cheapest one of the
stage, and cheaper than its rival. -/
inductive Leads : σ → List ι → List (σ → Bool → μ) → Prop
  | nil (s : σ) : Leads s [] []
  | cons {s : σ} {x : ι} {xs : List ι} {c : σ → Bool → μ} {cs : List (σ → Bool → μ)}
      (least : ∀ t b, c (R.next s x) (R.oldest s) ≤ c t b)
      (rival : c (R.next s x) (R.oldest s) < c (R.next s x) (!R.oldest s))
      (rest : Leads (R.next s x) xs cs) : Leads s (x :: xs) (c :: cs)

variable {R} {m : σ → μ} {c : σ → Bool → μ} {s : σ} {x : ι}

/-- The leading branch survives. -/
theorem select_next (hm : ∀ t, m s ≤ m t)
    (rival : c (R.next s x) (R.oldest s) < c (R.next s x) (!R.oldest s)) :
    R.select c m (R.next s x) = R.oldest s := by
  have hpred := R.pred_next s x
  rw [select]
  cases ho : R.oldest s with
  | false =>
      rw [ho] at hpred rival
      rw [hpred]
      exact decide_eq_false (not_lt.2 (add_le_add (hm _) rival.le))
  | true =>
      rw [ho] at hpred rival
      rw [hpred]
      exact decide_eq_true (add_lt_add_of_le_of_lt (hm _) rival)

/-- Its end has the least metric again. -/
theorem metric_next_le (hm : ∀ t, m s ≤ m t)
    (least : ∀ t b, c (R.next s x) (R.oldest s) ≤ c t b)
    (rival : c (R.next s x) (R.oldest s) < c (R.next s x) (!R.oldest s)) (t : σ) :
    R.metric c m (R.next s x) ≤ R.metric c m t := by
  rw [metric, select_next hm rival, R.pred_next, metric]
  exact add_le_add (hm _) (least _ _)

/-- **The transmitted path is decoded.** -/
theorem traceback_survivors {xs : List ι} {cs : List (σ → Bool → μ)} (h : R.Leads s xs cs)
    (hm : ∀ t, m s ≤ m t) : R.traceback (R.endState s xs) (R.survivors m cs) = (s, xs) := by
  induction h generalizing m with
  | nil s => rfl
  | cons least rival _ ih =>
      have hrest := ih (metric_next_le hm least rival)
      rw [endState] at hrest ⊢
      rw [survivors, traceback_cons, List.foldl_cons, hrest, select_next hm rival, R.pred_next,
        R.newest_next]

end ShiftRegister

end TetraPhy.Survivor

/-!
# The best path of a shift register

What the survivors of a shift register are, whatever was received.  A path is a state and the
inputs from there on; it costs what its branches cost, and it drops one bit in each stage.  The
paths to one state are told apart by the bits they drop.

The decoder takes the second predecessor only if it is strictly better.  Of the paths of least
metric it thus keeps the one whose dropped bits come first, read from the last stage back:
`isBest_traceback` says that it finds the path of least `rank`, and `IsBest.eq_traceback` that
there is only one.

A register of bits that drops what came in a fixed time ago is `Delays`.  Of two paths between
the same states the dropped bits come first exactly if the inputs do.

A decoder whose metrics stop at a cap (`cappedMetric`) finds the same path, as long as that path
stays below the cap.
-/

namespace TetraPhy.Survivor.ShiftRegister

universe u v w

variable {σ : Type u} {ι : Type v} {μ : Type w} (R : ShiftRegister σ ι)

/-! ## Paths -/

/-- The bits that a path drops. -/
def dropped (s : σ) : List ι → List Bool
  | [] => []
  | x :: xs => R.oldest s :: dropped (R.next s x) xs

/-- What a path costs. -/
def pathCost [Add μ] [Zero μ] (s : σ) : List ι → List (σ → Bool → μ) → μ
  | x :: xs, c :: cs => c (R.next s x) (R.oldest s) + pathCost (R.next s x) xs cs
  | _, _ => 0

@[simp] theorem endState_nil (s : σ) : R.endState s [] = s := rfl

@[simp] theorem endState_cons (s : σ) (x : ι) (xs : List ι) :
    R.endState s (x :: xs) = R.endState (R.next s x) xs := rfl

theorem endState_concat (s : σ) (xs : List ι) (x : ι) :
    R.endState s (xs ++ [x]) = R.next (R.endState s xs) x := by
  rw [endState, List.foldl_append]
  rfl

@[simp] theorem length_dropped (s : σ) (xs : List ι) : (R.dropped s xs).length = xs.length := by
  induction xs generalizing s with
  | nil => rfl
  | cons x xs ih => rw [dropped, List.length_cons, ih, List.length_cons]

theorem dropped_concat (s : σ) (xs : List ι) (x : ι) :
    R.dropped s (xs ++ [x]) = R.dropped s xs ++ [R.oldest (R.endState s xs)] := by
  induction xs generalizing s with
  | nil => rfl
  | cons y xs ih => rw [List.cons_append, dropped, ih, dropped, List.cons_append, endState_cons]

theorem endState_append (s : σ) (xs ys : List ι) :
    R.endState s (xs ++ ys) = R.endState (R.endState s xs) ys := List.foldl_append

theorem pathCost_append [AddMonoid μ] {s : σ} {xs : List ι} {cs : List (σ → Bool → μ)}
    (h : xs.length = cs.length) (ys : List ι) (ds : List (σ → Bool → μ)) :
    R.pathCost s (xs ++ ys) (cs ++ ds) =
      R.pathCost s xs cs + R.pathCost (R.endState s xs) ys ds := by
  induction xs generalizing s cs with
  | nil =>
      rw [List.eq_nil_of_length_eq_zero h.symm]
      simp [pathCost]
  | cons y xs ih =>
      cases cs with
      | nil => exact absurd h (Nat.succ_ne_zero _)
      | cons d cs =>
          rw [List.cons_append, List.cons_append, pathCost, ih (Nat.succ.inj h), pathCost,
            endState_cons, add_assoc]

theorem pathCost_concat [AddMonoid μ] {s : σ} {xs : List ι} {cs : List (σ → Bool → μ)}
    (h : xs.length = cs.length) (x : ι) (c : σ → Bool → μ) :
    R.pathCost s (xs ++ [x]) (cs ++ [c]) =
      R.pathCost s xs cs + c (R.next (R.endState s xs) x) (R.oldest (R.endState s xs)) := by
  rw [R.pathCost_append h]
  exact congrArg (R.pathCost s xs cs + ·) (add_zero _)

/-- **The dropped bits and the end are the whole path.** -/
theorem eq_of_dropped {s s' : σ} {xs xs' : List ι} (hend : R.endState s xs = R.endState s' xs')
    (hdrop : R.dropped s xs = R.dropped s' xs') : (s, xs) = (s', xs') := by
  induction xs using List.reverseRecOn generalizing xs' with
  | nil =>
      have hlen := congrArg List.length hdrop
      rw [length_dropped, length_dropped, List.length_nil] at hlen
      obtain rfl := List.eq_nil_of_length_eq_zero hlen.symm
      rw [endState_nil, endState_nil] at hend
      rw [hend]
  | append_singleton xs x ih =>
      obtain rfl | ⟨ys, y, rfl⟩ := List.eq_nil_or_concat xs'
      · have hlen := congrArg List.length hdrop
        rw [length_dropped, length_dropped, List.length_append] at hlen
        exact absurd hlen (Nat.succ_ne_zero _)
      · rw [List.concat_eq_append] at hend hdrop ⊢
        rw [endState_concat, endState_concat] at hend
        rw [dropped_concat, dropped_concat] at hdrop
        obtain ⟨hinit, hlast⟩ := List.append_inj' hdrop rfl
        have hx : x = y := by rw [← R.newest_next (R.endState s xs) x, hend, R.newest_next]
        have hprev : R.endState s xs = R.endState s' ys := by
          rw [← R.pred_next (R.endState s xs) x, hend, List.singleton_inj.1 hlast, R.pred_next]
        obtain ⟨rfl, rfl⟩ := Prod.mk.inj (ih hprev hinit)
        rw [hx]

/-! ## The metrics of all stages -/

section Metrics

variable [Add μ] [LinearOrder μ]

/-- The metrics after some stages. -/
def metrics (m : σ → μ) (cs : List (σ → Bool → μ)) : σ → μ := cs.foldl (fun m c ↦ R.metric c m) m

theorem metrics_concat (m : σ → μ) (cs : List (σ → Bool → μ)) (c : σ → Bool → μ) :
    R.metrics m (cs ++ [c]) = R.metric c (R.metrics m cs) := List.foldl_append

theorem survivors_concat (m : σ → μ) (cs : List (σ → Bool → μ)) (c : σ → Bool → μ) :
    R.survivors m (cs ++ [c]) = R.survivors m cs ++ [R.select c (R.metrics m cs)] := by
  induction cs generalizing m with
  | nil => rfl
  | cons d cs ih => rw [List.cons_append, survivors, ih, survivors, List.cons_append]; rfl

end Metrics

theorem foldr_traceback (t : σ) (zs : List ι) (ds : List (σ → Bool)) :
    ds.foldr (fun d (u, xs) ↦ (R.pred u (d u), R.newest u :: xs)) (t, zs) =
      ((R.traceback t ds).1, (R.traceback t ds).2 ++ zs) := by
  induction ds with
  | nil => rfl
  | cons d ds ih => rw [List.foldr_cons, ih, traceback_cons]; rfl

theorem traceback_concat (t : σ) (ds : List (σ → Bool)) (d : σ → Bool) :
    R.traceback t (ds ++ [d]) = ((R.traceback (R.pred t (d t)) ds).1,
      (R.traceback (R.pred t (d t)) ds).2 ++ [R.newest t]) := by
  rw [traceback, List.foldr_append]
  exact R.foldr_traceback _ _ _

/-! ## The best path -/

/-- Every state comes from each of its predecessors. -/
structure Covers : Prop where
  next_pred : ∀ t b, R.next (R.pred t b) (R.newest t) = t
  oldest_pred : ∀ t b, R.oldest (R.pred t b) = b

section Best

variable [AddCommMonoid μ]

/-- What paths are compared by: the metric at the end, then the dropped bits from the last stage
back. -/
def rank (m : σ → μ) (cs : List (σ → Bool → μ)) (p : σ × List ι) : μ ×ₗ List Bool :=
  toLex (m p.1 + R.pathCost p.1 p.2 cs, (R.dropped p.1 p.2).reverse)

/-- A path through `n` stages to `t`. -/
structure Reaches (n : ℕ) (t : σ) (p : σ × List ι) : Prop where
  length : p.2.length = n
  ends : R.endState p.1 p.2 = t

variable {R}

/-- The rank of a path with one more stage. -/
theorem rank_concat {m : σ → μ} {cs : List (σ → Bool → μ)} {p : σ × List ι} {u : σ}
    (h : R.Reaches cs.length u p) (c : σ → Bool → μ) (x : ι) :
    R.rank m (cs ++ [c]) (p.1, p.2 ++ [x]) =
      toLex (m p.1 + R.pathCost p.1 p.2 cs + c (R.next u x) (R.oldest u),
        R.oldest u :: (R.dropped p.1 p.2).reverse) := by
  rw [rank, R.pathCost_concat h.length, R.dropped_concat, h.ends, List.reverse_append, ← add_assoc]
  rfl

variable [LinearOrder μ]

/-- The best path to `t`. -/
structure IsBest (R : ShiftRegister σ ι) (m : σ → μ) (cs : List (σ → Bool → μ)) (t : σ) (p : σ × List ι) : Prop where
  reaches : R.Reaches cs.length t p
  least : ∀ q, R.Reaches cs.length t q → R.rank m cs p ≤ R.rank m cs q

/-- There is only one best path. -/
theorem IsBest.unique {m : σ → μ} {cs : List (σ → Bool → μ)} {t : σ} {p q : σ × List ι}
    (hp : R.IsBest m cs t p) (hq : R.IsBest m cs t q) : p = q := by
  have hrank := le_antisymm (hp.least q hq.reaches) (hq.least p hp.reaches)
  have hdrop := List.reverse_injective (congrArg (fun r ↦ (ofLex r).2) hrank)
  exact R.eq_of_dropped (hp.reaches.ends.trans hq.reaches.ends.symm) hdrop

/-- No path is cheaper than the best one. -/
theorem IsBest.metric_le {m : σ → μ} {cs : List (σ → Bool → μ)} {t : σ} {p q : σ × List ι}
    (hp : R.IsBest m cs t p) (hq : R.Reaches cs.length t q) :
    m p.1 + R.pathCost p.1 p.2 cs ≤ m q.1 + R.pathCost q.1 q.2 cs :=
  (Prod.Lex.toLex_le_toLex'.1 (hp.least q hq)).1

/-- A path goes on, -/
theorem Reaches.concat {n : ℕ} {u : σ} {p : σ × List ι} (h : R.Reaches n u p) (x : ι) :
    R.Reaches (n + 1) (R.next u x) (p.1, p.2 ++ [x]) where
  length := by rw [List.length_append, h.length]; rfl
  ends := by rw [R.endState_concat, h.ends]

/-- and comes over a predecessor of its end. -/
theorem Reaches.exists_init {n : ℕ} {t : σ} {q : σ × List ι} (h : R.Reaches (n + 1) t q) :
    ∃ b p, R.Reaches n (R.pred t b) p ∧ q = (p.1, p.2 ++ [R.newest t]) := by
  obtain ⟨s, ys⟩ := q
  obtain ⟨hlen, hend⟩ := h
  obtain rfl | ⟨xs, x, rfl⟩ := List.eq_nil_or_concat ys
  · exact absurd hlen.symm (Nat.succ_ne_zero n)
  · change (xs.concat x).length = n + 1 at hlen
    change R.endState s (xs.concat x) = t at hend
    rw [List.length_concat] at hlen
    rw [List.concat_eq_append, R.endState_concat] at hend
    subst hend
    refine ⟨R.oldest (R.endState s xs), (s, xs), ⟨Nat.succ.inj hlen, ?_⟩, ?_⟩
    · exact (R.pred_next _ _).symm
    · rw [R.newest_next, List.concat_eq_append]

variable [IsOrderedCancelAddMonoid μ]

/-- **One stage.**  The best of the paths to the predecessor that survives, with the last branch,
is the best of the paths to a state. -/
theorem IsBest.concat (hR : R.Covers) {m : σ → μ} {cs : List (σ → Bool → μ)} {t : σ}
    {best : Bool → σ × List ι} (h : ∀ b, R.IsBest m cs (R.pred t b) (best b))
    (hm : ∀ b, m (best b).1 + R.pathCost (best b).1 (best b).2 cs = R.metrics m cs (R.pred t b))
    (c : σ → Bool → μ) :
    R.IsBest m (cs ++ [c]) t ((best (R.select c (R.metrics m cs) t)).1,
      (best (R.select c (R.metrics m cs) t)).2 ++ [R.newest t]) := by
  have hnext : ∀ b, R.next (R.pred t b) (R.newest t) = t := hR.next_pred t
  refine ⟨?_, fun q hq ↦ ?_⟩
  · have hreach := (h (R.select c (R.metrics m cs) t)).reaches.concat (R.newest t)
    rw [hnext] at hreach
    rwa [List.length_append]
  · rw [List.length_append] at hq
    obtain ⟨b, p, hp, rfl⟩ := hq.exists_init
    have hle : m (best b).1 + R.pathCost (best b).1 (best b).2 cs + c t b ≤
        m p.1 + R.pathCost p.1 p.2 cs + c t b := add_le_add_left ((h b).metric_le hp) _
    have hrank : ∀ {b p}, R.Reaches cs.length (R.pred t b) p →
        R.rank m (cs ++ [c]) (p.1, p.2 ++ [R.newest t]) =
          toLex (m p.1 + R.pathCost p.1 p.2 cs + c t b, b :: (R.dropped p.1 p.2).reverse) :=
      fun hp ↦ by rw [rank_concat hp, hnext, hR.oldest_pred]
    rw [hrank (h _).reaches, hrank hp]
    by_cases hsel : R.select c (R.metrics m cs) t = b
    · -- over the same predecessor
      rw [hsel]
      obtain hlt | ⟨heq, hdrop⟩ := Prod.Lex.toLex_le_toLex.1 ((h b).least p hp)
      · exact Prod.Lex.toLex_le_toLex.2 (Or.inl (add_lt_add_left hlt _))
      · exact Prod.Lex.toLex_le_toLex.2
          (Or.inr ⟨congrArg (· + c t b) heq, List.cons_le_cons _ hdrop⟩)
    · -- over the other one
      cases b with
      | false =>
          rw [Bool.not_eq_false] at hsel
          have hlt := of_decide_eq_true hsel
          rw [← hm, ← hm] at hlt
          rw [hsel]
          exact Prod.Lex.toLex_le_toLex.2 (Or.inl (hlt.trans_le hle))
      | true =>
          rw [Bool.not_eq_true] at hsel
          have hge := not_lt.1 (of_decide_eq_false hsel)
          rw [← hm, ← hm] at hge
          rw [hsel]
          obtain hlt | heq := (hge.trans hle).lt_or_eq
          · exact Prod.Lex.toLex_le_toLex.2 (Or.inl hlt)
          · exact Prod.Lex.toLex_le_toLex.2
              (Or.inr ⟨heq, le_of_lt (List.Lex.rel (by decide))⟩)

/-- **The survivors lead back along the best path.** -/
theorem isBest_traceback (hR : R.Covers) (m : σ → μ) (cs : List (σ → Bool → μ)) (t : σ) :
    R.IsBest m cs t (R.traceback t (R.survivors m cs)) ∧
      m (R.traceback t (R.survivors m cs)).1 +
        R.pathCost (R.traceback t (R.survivors m cs)).1 (R.traceback t (R.survivors m cs)).2 cs =
          R.metrics m cs t := by
  induction cs using List.reverseRecOn generalizing t with
  | nil =>
      refine ⟨⟨⟨rfl, rfl⟩, ?_⟩, add_zero _⟩
      rintro ⟨s, xs⟩ ⟨hlen, hend⟩
      obtain rfl := List.eq_nil_of_length_eq_zero hlen
      obtain rfl : s = t := hend
      exact le_rfl
  | append_singleton cs c ih =>
      have hbest := IsBest.concat hR (fun b ↦ (ih (R.pred t b)).1) (fun b ↦ (ih (R.pred t b)).2) c
      rw [survivors_concat, traceback_concat]
      refine ⟨hbest, ?_⟩
      obtain ⟨hb, hm⟩ := ih (R.pred t (R.select c (R.metrics m cs) t))
      rw [R.pathCost_concat hb.reaches.length, ← add_assoc, hm, hb.reaches.ends, hR.next_pred,
        hR.oldest_pred, metrics_concat, metric]

/-- **The metric of a state** is what a path to it costs, -/
theorem exists_metrics_eq (hR : R.Covers) (m : σ → μ) (cs : List (σ → Bool → μ)) (t : σ) :
    ∃ p, R.Reaches cs.length t p ∧ m p.1 + R.pathCost p.1 p.2 cs = R.metrics m cs t := by
  obtain ⟨hbest, hm⟩ := isBest_traceback hR m cs t
  exact ⟨_, hbest.reaches, hm⟩

/-- and no path to it costs less. -/
theorem metrics_le (hR : R.Covers) (m : σ → μ) {cs : List (σ → Bool → μ)} {t : σ}
    {q : σ × List ι} (hq : R.Reaches cs.length t q) :
    R.metrics m cs t ≤ m q.1 + R.pathCost q.1 q.2 cs := by
  obtain ⟨hbest, hm⟩ := isBest_traceback hR m cs t
  rw [← hm]
  exact hbest.metric_le hq

/-- So the best path is what the decoder finds. -/
theorem IsBest.eq_traceback (hR : R.Covers) {m : σ → μ} {cs : List (σ → Bool → μ)} {t : σ}
    {p : σ × List ι} (h : R.IsBest m cs t p) : R.traceback t (R.survivors m cs) = p :=
  (isBest_traceback hR m cs t).1.unique h

/-- If no state has only branches that cost something, a path can go on at no cost. -/
theorem exists_pathCost_append_le {ds : List (σ → Bool → μ)}
    (h : ∀ c ∈ ds, ∀ s, ∃ x, c (R.next s x) (R.oldest s) ≤ 0) {s : σ} {xs : List ι}
    {cs : List (σ → Bool → μ)} (hlen : xs.length = cs.length) :
    ∃ ys, ys.length = ds.length ∧
      R.pathCost s (xs ++ ys) (cs ++ ds) ≤ R.pathCost s xs cs := by
  have hfree : ∀ s, ∃ ys, ys.length = ds.length ∧ R.pathCost s ys ds ≤ 0 := by
    clear hlen
    induction ds with
    | nil => exact fun s ↦ ⟨[], rfl, le_rfl⟩
    | cons d ds ih =>
        intro s
        rw [List.forall_mem_cons] at h
        obtain ⟨x, hx⟩ := h.1 s
        obtain ⟨ys, hys, hcost⟩ := ih h.2 (R.next s x)
        exact ⟨x :: ys, congrArg (· + 1) hys, add_nonpos hx hcost⟩
  obtain ⟨ys, hys, hcost⟩ := hfree (R.endState s xs)
  refine ⟨ys, hys, ?_⟩
  rw [R.pathCost_append hlen]
  exact add_le_of_nonpos_right hcost

end Best

/-! ## Opposite branches -/

section Opposite

variable {R}

/-- The metric of a state is no more than what either branch into it adds up to. -/
theorem metric_le [Add μ] [LinearOrder μ] (c : σ → Bool → μ) (m : σ → μ) (t : σ) (b : Bool) :
    R.metric c m t ≤ m (R.pred t b) + c t b := by
  rw [metric, select]
  by_cases hlt : m (R.pred t true) + c t true < m (R.pred t false) + c t false
  · rw [decide_eq_true hlt]
    cases b with
    | false => exact hlt.le
    | true => exact le_rfl
  · rw [decide_eq_false hlt]
    cases b with
    | false => exact le_rfl
    | true => exact not_lt.1 hlt

/-- **Metrics do not grow** if what one branch into a state costs the other one gains. -/
theorem metric_le_of_opposite [AddCommGroup μ] [LinearOrder μ] [IsOrderedAddMonoid μ]
    {c : σ → Bool → μ} {m : σ → μ} {t : σ} {B : μ} (hm : ∀ s, m s ≤ B)
    (hc : c t true = -c t false) : R.metric c m t ≤ B := by
  obtain hneg | hpos := le_total (c t false) 0
  · exact (metric_le c m t false).trans (add_le_of_le_of_nonpos (hm _) hneg)
  · have htrue : c t true ≤ 0 := by
      rw [hc]
      exact neg_nonpos.2 hpos
    exact (metric_le c m t true).trans (add_le_of_le_of_nonpos (hm _) htrue)

end Opposite

/-! ## Registers of bits -/

section Bits

/-- The register holds bits, the one it drops next first. -/
structure Delays (R : ShiftRegister σ Bool) (held : σ → List Bool) : Prop where
  shifts : ∀ s x, R.oldest s :: held (R.next s x) = held s ++ [x]

variable {R : ShiftRegister σ Bool} {held : σ → List Bool}

/-- What is dropped and what is held is what was held and what came in. -/
theorem Delays.dropped_append (h : R.Delays held) (s : σ) (xs : List Bool) :
    R.dropped s xs ++ held (R.endState s xs) = held s ++ xs := by
  induction xs generalizing s with
  | nil => rw [dropped, endState_nil, List.nil_append, List.append_nil]
  | cons x xs ih =>
      rw [dropped, endState_cons, List.cons_append, ih, ← List.cons_append, h.shifts,
        List.append_assoc]
      rfl

/-- Inputs that fill the register are what it holds in the end. -/
theorem Delays.exists_append (h : R.Delays held) {s : σ} {xs : List Bool}
    (hlen : (held s).length ≤ xs.length) : ∃ ys, xs = ys ++ held (R.endState s xs) := by
  obtain ⟨zs, hs, ht⟩ | ⟨ys, -, hxs⟩ := List.append_eq_append_iff.1 (h.dropped_append s xs)
  · have hzs : zs = [] := by
      have := congrArg List.length hs
      rw [List.length_append, length_dropped] at this
      exact List.eq_nil_of_length_eq_zero (by omega)
    exact ⟨[], by rw [ht, hzs]; rfl⟩
  · exact ⟨ys, hxs⟩

theorem cons_le_cons_iff {x y : Bool} {xs ys : List Bool} :
    x :: xs ≤ y :: ys ↔ x < y ∨ x = y ∧ xs ≤ ys := by
  constructor
  · intro h
    obtain hlt | rfl | hgt := lt_trichotomy x y
    · exact Or.inl hlt
    · exact Or.inr ⟨rfl, not_lt.1 fun hlt ↦ not_le.2 (List.Lex.cons hlt) h⟩
    · exact absurd h (not_le.2 (List.Lex.rel hgt))
  · rintro (hlt | ⟨rfl, hle⟩)
    · exact le_of_lt (List.Lex.rel hlt)
    · exact List.cons_le_cons x hle

theorem append_le_append_left_iff (zs xs ys : List Bool) : zs ++ xs ≤ zs ++ ys ↔ xs ≤ ys := by
  induction zs with
  | nil => exact Iff.rfl
  | cons z zs ih => simp [cons_le_cons_iff, ih]

theorem append_le_append_right_iff {xs ys : List Bool} (hlen : xs.length = ys.length)
    (zs : List Bool) : xs ++ zs ≤ ys ++ zs ↔ xs ≤ ys := by
  induction xs generalizing ys with
  | nil =>
      rw [List.eq_nil_of_length_eq_zero hlen.symm]
      exact ⟨fun _ ↦ le_rfl, fun _ ↦ le_rfl⟩
  | cons x xs ih =>
      cases ys with
      | nil => exact absurd hlen (Nat.succ_ne_zero _)
      | cons y ys =>
          rw [List.cons_append, List.cons_append, cons_le_cons_iff, cons_le_cons_iff,
            ih (Nat.succ.inj hlen)]

/-- **The order of the paths between two states is that of their inputs**, read from the last
one back. -/
theorem Delays.dropped_reverse_le_iff (h : R.Delays held) {s : σ} {xs ys : List Bool}
    (hend : R.endState s xs = R.endState s ys) (hlen : xs.length = ys.length) :
    (R.dropped s xs).reverse ≤ (R.dropped s ys).reverse ↔ xs.reverse ≤ ys.reverse := by
  have hrev : ∀ zs, (held (R.endState s zs)).reverse ++ (R.dropped s zs).reverse =
      zs.reverse ++ (held s).reverse := fun zs ↦ by
    rw [← List.reverse_append, h.dropped_append, List.reverse_append]
  rw [← append_le_append_left_iff (held (R.endState s xs)).reverse, hrev xs, hend, hrev ys,
    append_le_append_right_iff (by rw [List.length_reverse, List.length_reverse, hlen])]

/-- The inputs of the best path from `s` to `t`. -/
structure IsFirst [AddCommMonoid μ] [LinearOrder μ] (R : ShiftRegister σ Bool)
    (cs : List (σ → Bool → μ)) (s t : σ) (xs : List Bool) : Prop where
  reaches : R.Reaches cs.length t (s, xs)
  least : ∀ ys, R.Reaches cs.length t (s, ys) →
    toLex (R.pathCost s xs cs, xs.reverse) ≤ toLex (R.pathCost s ys cs, ys.reverse)

variable [AddCommMonoid μ] [LinearOrder μ] [IsOrderedCancelAddMonoid μ] {m : σ → μ}
  {cs : List (σ → Bool → μ)} {s t : σ} {xs : List Bool}

/-- No other way over a stretch of a first path is cheaper. -/
theorem IsFirst.pathCost_le {as bs cs : List (σ → Bool → μ)} {xs ys zs : List Bool}
    (h : R.IsFirst (as ++ bs ++ cs) s t (xs ++ ys ++ zs)) (hxs : xs.length = as.length)
    (hys : ys.length = bs.length) {ys' : List Bool} (hys' : ys'.length = bs.length)
    (hend : R.endState (R.endState s xs) ys' = R.endState (R.endState s xs) ys) :
    R.pathCost (R.endState s xs) ys bs ≤ R.pathCost (R.endState s xs) ys' bs := by
  have hsame : R.endState s (xs ++ ys') = R.endState s (xs ++ ys) := by
    rw [endState_append, endState_append, hend]
  have hlen : ∀ {l : List Bool}, l.length = bs.length → (xs ++ l).length = (as ++ bs).length :=
    fun hl ↦ by rw [List.length_append, List.length_append, hxs, hl]
  have hcost : ∀ {l : List Bool}, l.length = bs.length →
      R.pathCost s (xs ++ l ++ zs) (as ++ bs ++ cs) = R.pathCost s xs as +
        R.pathCost (R.endState s xs) l bs + R.pathCost (R.endState s (xs ++ l)) zs cs := fun hl ↦ by
    rw [R.pathCost_append (hlen hl), R.pathCost_append hxs]
  have hother : R.Reaches (as ++ bs ++ cs).length t (s, xs ++ ys' ++ zs) := by
    obtain ⟨hlength, hends⟩ := h.reaches
    have htail : ∀ l : List Bool, (l ++ zs).length = l.length + zs.length :=
      fun l ↦ List.length_append
    refine ⟨?_, ?_⟩
    · rw [← hlength, htail, htail, hlen hys, hlen hys']
    · rw [endState_append, hsame, ← endState_append]
      exact hends
  have hle := (Prod.Lex.toLex_le_toLex'.1 (h.least _ hother)).1
  rw [hcost hys, hcost hys', hsame] at hle
  exact le_of_add_le_add_left (le_of_add_le_add_right hle)

/-- The best path is the best one from where it starts. -/
theorem IsBest.isFirst (hd : R.Delays held) (h : R.IsBest m cs t (s, xs)) :
    R.IsFirst cs s t xs := by
  refine ⟨h.reaches, fun ys hys ↦ ?_⟩
  have hends := h.reaches.ends.trans hys.ends.symm
  have hlens := h.reaches.length.trans hys.length.symm
  obtain hlt | ⟨heq, hrev⟩ := Prod.Lex.toLex_le_toLex.1 (h.least _ hys)
  · exact Prod.Lex.toLex_le_toLex.2 (Or.inl (lt_of_add_lt_add_left hlt))
  · exact Prod.Lex.toLex_le_toLex.2
      (Or.inr ⟨add_left_cancel heq, (hd.dropped_reverse_le_iff hends hlens).1 hrev⟩)

/-- **The best path from a state is decoded**, if all paths from elsewhere cost more. -/
theorem IsFirst.traceback (hR : R.Covers) (hd : R.Delays held) (hxs : R.IsFirst cs s t xs)
    (hm : ∀ q : σ × List Bool, R.Reaches cs.length t q → q.1 ≠ s →
      m s + R.pathCost s xs cs < m q.1 + R.pathCost q.1 q.2 cs) :
    R.traceback t (R.survivors m cs) = (s, xs) := by
  refine IsBest.eq_traceback hR ⟨hxs.reaches, fun q hq ↦ ?_⟩
  by_cases hs : q.1 = s
  · obtain ⟨s', ys⟩ := q
    obtain rfl : s' = s := hs
    have hends := hxs.reaches.ends.trans hq.ends.symm
    have hlens := hxs.reaches.length.trans hq.length.symm
    obtain hlt | ⟨heq, hrev⟩ := Prod.Lex.toLex_le_toLex.1 (hxs.least ys hq)
    · exact Prod.Lex.toLex_le_toLex.2 (Or.inl (add_lt_add_right hlt _))
    · exact Prod.Lex.toLex_le_toLex.2
        (Or.inr ⟨congrArg (m s' + ·) heq, (hd.dropped_reverse_le_iff hends hlens).2 hrev⟩)
  · exact Prod.Lex.toLex_le_toLex.2 (Or.inl (hm q hq hs))

end Bits

/-! ## Metrics with a cap -/

section Capped

variable (inf : ℕ)

/-- The survivors if a metric is stored as the cap when it exceeds it. -/
def cappedSurvivors : (σ → ℕ) → List (σ → Bool → ℕ) → List (σ → Bool)
  | _, [] => []
  | m, c :: cs => R.select c m :: cappedSurvivors (fun t ↦ min inf (R.metric c m t)) cs

/-- The metrics it stores. -/
def cappedMetrics (m : σ → ℕ) (cs : List (σ → Bool → ℕ)) : σ → ℕ :=
  cs.foldl (fun m c t ↦ min inf (R.metric c m t)) m

theorem cappedMetrics_concat (m : σ → ℕ) (cs : List (σ → Bool → ℕ)) (c : σ → Bool → ℕ) :
    R.cappedMetrics inf m (cs ++ [c]) = fun t ↦ min inf (R.metric c (R.cappedMetrics inf m cs) t) :=
  List.foldl_append

theorem cappedSurvivors_concat (m : σ → ℕ) (cs : List (σ → Bool → ℕ)) (c : σ → Bool → ℕ) :
    R.cappedSurvivors inf m (cs ++ [c]) =
      R.cappedSurvivors inf m cs ++ [R.select c (R.cappedMetrics inf m cs)] := by
  induction cs generalizing m with
  | nil => rfl
  | cons d cs ih =>
      rw [List.cons_append, cappedSurvivors, ih, cappedSurvivors, List.cons_append]
      rfl

variable {R inf} {m m' : σ → ℕ}

/-- The branch from a predecessor adds up to the same, below the cap. -/
theorem capped_branch (hm : ∀ t, m' t = min inf (m t)) (c : σ → Bool → ℕ) (t : σ) (b : Bool) :
    min inf (m' (R.pred t b) + c t b) = min inf (m (R.pred t b) + c t b) := by
  rw [hm]
  omega

/-- **One stage**: below the cap the same predecessor survives, -/
theorem select_capped (hm : ∀ t, m' t = min inf (m t)) {c : σ → Bool → ℕ} {t : σ}
    (h : R.metric c m t < inf) : R.select c m' t = R.select c m t := by
  have hfalse := capped_branch (R := R) hm c t false
  have htrue := capped_branch (R := R) hm c t true
  rw [metric] at h
  rw [select] at h ⊢
  rw [select]
  by_cases hlt : m (R.pred t true) + c t true < m (R.pred t false) + c t false
  · rw [decide_eq_true hlt] at h ⊢
    exact decide_eq_true (by omega)
  · rw [decide_eq_false hlt] at h ⊢
    exact decide_eq_false (by omega)

/-- and the metric is the same up to the cap. -/
theorem metric_capped (hm : ∀ t, m' t = min inf (m t)) (c : σ → Bool → ℕ) (t : σ) :
    min inf (R.metric c m' t) = min inf (R.metric c m t) := by
  have hfalse := capped_branch (R := R) hm c t false
  have htrue := capped_branch (R := R) hm c t true
  have hmin : ∀ m : σ → ℕ, R.metric c m t =
      min (m (R.pred t true) + c t true) (m (R.pred t false) + c t false) := fun m ↦ by
    rw [metric, select]
    by_cases hlt : m (R.pred t true) + c t true < m (R.pred t false) + c t false
    · rw [decide_eq_true hlt, min_eq_left hlt.le]
    · rw [decide_eq_false hlt, min_eq_right (not_lt.1 hlt)]
  rw [hmin, hmin]
  omega

theorem cappedMetrics_eq (hm : ∀ t, m' t = min inf (m t)) (cs : List (σ → Bool → ℕ)) (t : σ) :
    R.cappedMetrics inf m' cs t = min inf (R.metrics m cs t) := by
  induction cs using List.reverseRecOn generalizing t with
  | nil => exact hm t
  | append_singleton cs c ih =>
      rw [cappedMetrics_concat, metrics_concat]
      exact metric_capped ih c t

/-- **A decoder with a cap finds the same path**, if it ends below the cap. -/
theorem traceback_cappedSurvivors (hm : ∀ t, m' t = min inf (m t)) {cs : List (σ → Bool → ℕ)}
    {t : σ} (h : R.metrics m cs t < inf) :
    R.traceback t (R.cappedSurvivors inf m' cs) = R.traceback t (R.survivors m cs) := by
  induction cs using List.reverseRecOn generalizing t with
  | nil => rfl
  | append_singleton cs c ih =>
      rw [metrics_concat] at h
      have hpred : R.metrics m cs (R.pred t (R.select c (R.metrics m cs) t)) < inf :=
        (Nat.le_add_right _ _).trans_lt h
      rw [cappedSurvivors_concat, survivors_concat, traceback_concat, traceback_concat,
        select_capped (cappedMetrics_eq hm cs) h, ih hpred]

variable {R : ShiftRegister σ Bool} {held : σ → List Bool} [DecidableEq σ]

/-- The metrics at the start: the cap stands for "no path". -/
def startMetrics (inf : ℕ) (s : σ) : σ → ℕ := fun u ↦ if u = s then 0 else inf

/-- **The best path from a state is decoded**, if it costs less than the cap. -/
theorem IsFirst.traceback_capped (hR : R.Covers) (hd : R.Delays held)
    {cs : List (σ → Bool → ℕ)} {s t : σ} {xs : List Bool} (hxs : R.IsFirst cs s t xs)
    (hcost : R.pathCost s xs cs < inf) :
    R.traceback t (R.cappedSurvivors inf (startMetrics inf s) cs) = (s, xs) := by
  have hs : startMetrics inf s s = 0 := if_pos rfl
  have hback : R.traceback t (R.survivors (startMetrics inf s) cs) = (s, xs) := by
    refine hxs.traceback hR hd fun q _ hq ↦ ?_
    rw [hs, Nat.zero_add, startMetrics, if_neg hq]
    exact hcost.trans_le (Nat.le_add_right _ _)
  have hmetric := (isBest_traceback hR (startMetrics inf s) cs t).2
  rw [hback, hs, Nat.zero_add] at hmetric
  rw [traceback_cappedSurvivors (m := startMetrics inf s) (fun u ↦ ?_) (hmetric ▸ hcost), hback]
  rw [startMetrics]
  split <;> omega

/-- **If a path costs less than the cap**, there is a best one. -/
theorem exists_isFirst (hR : R.Covers) (hd : R.Delays held) {cs : List (σ → Bool → ℕ)} {s t : σ}
    {ys : List Bool} (hys : R.Reaches cs.length t (s, ys)) (hcost : R.pathCost s ys cs < inf) :
    ∃ xs, R.IsFirst cs s t xs ∧ R.pathCost s xs cs ≤ R.pathCost s ys cs := by
  obtain ⟨hbest, -⟩ := isBest_traceback hR (startMetrics inf s) cs t
  generalize R.traceback t (R.survivors (startMetrics inf s) cs) = p at hbest
  obtain ⟨s', xs⟩ := p
  have hs : startMetrics inf s s = 0 := if_pos rfl
  have hle := hbest.metric_le hys
  rw [hs, Nat.zero_add] at hle
  obtain rfl : s' = s := by
    by_contra hne
    rw [startMetrics, if_neg hne] at hle
    exact absurd (hle.trans_lt hcost) (not_lt.2 (Nat.le_add_right _ _))
  rw [hs, Nat.zero_add] at hle
  exact ⟨xs, hbest.isFirst hd, hle⟩

end Capped

end TetraPhy.Survivor.ShiftRegister
