import TetraPhy.Tx.TdmaTimebase

/-!
# One load, one restart

A strobe asks `tetra_tdma_timebase.v` for one restart of the counters.  The time base as it is
meant is the time base itself with nothing pending: from the first symbol enable on, the strobe's
own cycle included, the counters go on like those of `loaded w`.

`sync_commit_sys` serves a strobe in the cycle of a symbol enable at once, while the block of the
shadow register looks at the strobe first and raises the pending flag all the same.  So the next
symbol enable sets the counters back once more, unless a later strobe has come by then.
-/

namespace TetraPhy.Tx

namespace TdmaTimebase

/-- The time base that a load has just restarted. -/
def loaded (w : SyncWord) : TdmaTimebase := { tn := w.tn, fn := w.fn, mn := w.mn, hn := w.hn }

/-- No strobe comes. -/
def Unstrobed (es : List TimebaseIn) : Prop := ∀ i ∈ es, i.syncLoadStrobe = false

/-- No symbol ends. -/
def WithinSymbol (es : List TimebaseIn) : Prop := ∀ i ∈ es, i.symEn = false

/-- **Every strobe restarts the counters once.**  Up to the next strobe the counters wait for a
symbol enable, and from there on they count like those of a time base that has nothing pending. -/
def RestartsOnce (t : TdmaTimebase) (es : List TimebaseIn) : Prop :=
  ∀ pre i seg post, es = pre ++ i :: seg ++ post → i.syncLoadStrobe = true → Unstrobed seg →
    (WithinSymbol (i :: seg) →
      (Run.exec step t (pre ++ i :: seg)).tuple = (Run.exec step t pre).tuple) ∧
    ∀ wait j rest, i :: seg = wait ++ j :: rest → WithinSymbol wait → j.symEn = true →
      (Run.exec step t (pre ++ i :: seg)).tuple = (Run.exec step (loaded i.syncIn) rest).tuple

/-- After a strobe in the cycle of a symbol enable, the next symbol enable brings another strobe,
or one has come before it. -/
def Superseded (es : List TimebaseIn) : Prop :=
  ∀ pre i wait j post, es = pre ++ i :: wait ++ j :: post →
    i.syncLoadStrobe = true → i.symEn = true →
    Unstrobed wait → WithinSymbol wait → j.symEn = true → j.syncLoadStrobe = true

variable {t s : TdmaTimebase} {i j : TimebaseIn} {es wait rest seg : List TimebaseIn}

theorem Unstrobed.append (h : Unstrobed (wait ++ rest)) : Unstrobed wait ∧ Unstrobed rest :=
  List.forall_mem_append.1 h

/-! ### One step -/

/-- Without a commit, what the counters show decides what they show next. -/
theorem tuple_step_congr (h : t.tuple = s.tuple) (ht : t.syncCommit i = false)
    (hs : s.syncCommit i = false) : (t.step i).tuple = (s.step i).tuple := by
  have hkeep : (t.shadowBlock i t).tuple = (s.shadowBlock i s).tuple := by
    rw [tuple_shadowBlock, tuple_shadowBlock, h]
  have hfields {t s : TdmaTimebase} (h : t.tuple = s.tuple) : t.symCnt = s.symCnt ∧
      t.tn = s.tn ∧ t.fn = s.fn ∧ t.mn = s.mn ∧ t.hn = s.hn := by
    simpa [tuple, BitVec.toNat_inj] using h
  obtain ⟨hsym, htn, hfn, hmn, hhn⟩ := hfields h
  obtain ⟨-, htn', hfn', hmn', hhn'⟩ := hfields hkeep
  change (t.counterBlock i (t.shadowBlock i t)).tuple =
    (s.counterBlock i (s.shadowBlock i s)).tuple
  rw [counterBlock, counterBlock, ht, hs, if_neg Bool.false_ne_true, if_neg Bool.false_ne_true,
    slotEdge, slotEdge, hsym, htn, hfn, hmn, hhn]
  split_ifs
  all_goals first | exact hkeep | simp only [tuple, htn', hfn', hmn', hhn']

/-- Between two symbol enables the counters rest. -/
theorem tuple_step_rest (h : i.symEn = false) : (t.step i).tuple = t.tuple := by
  change (t.counterBlock i (t.shadowBlock i t)).tuple = _
  rw [counterBlock, syncCommit, h, Bool.false_and, if_neg Bool.false_ne_true,
    if_neg Bool.false_ne_true]
  exact tuple_shadowBlock

/-- A commit shows the counters of `loaded`. -/
theorem tuple_step_loaded (h : t.syncCommit i = true) : (t.step i).tuple =
    (loaded (if i.syncLoadStrobe then i.syncIn else t.syncShadow)).tuple := step_commit h

/-! ### Runs without a strobe -/

/-- **Two time bases that show the same and have nothing pending go on alike.** -/
theorem tuple_exec_congr (h : t.tuple = s.tuple) (ht : t.Unloaded es) (hs : s.Unloaded es) :
    (Run.exec step t es).tuple = (Run.exec step s es).tuple := by
  induction es generalizing t s with
  | nil => exact h
  | cons i es ih => exact ih (tuple_step_congr h ht.commit hs.commit) ht.tail hs.tail

theorem Unloaded.exec (h : t.Unloaded (wait ++ rest)) : (Run.exec step t wait).Unloaded rest := by
  induction wait generalizing t with
  | nil => exact h
  | cons i wait ih => exact ih h.tail

theorem tuple_exec_rest (hes : WithinSymbol es) : (Run.exec step t es).tuple = t.tuple := by
  induction es generalizing t with
  | nil => rfl
  | cons i es ih =>
      obtain ⟨hi, hes⟩ := List.forall_mem_cons.1 hes
      rw [Run.exec_cons, ih hes, tuple_step_rest hi]

/-- A load that is pending stays so until a symbol ends. -/
theorem pending_exec (ht : t.syncLoadPending = true) (hes : Unstrobed es)
    (hen : WithinSymbol es) : (Run.exec step t es).syncLoadPending = true ∧
      (Run.exec step t es).syncShadow = t.syncShadow := by
  induction es generalizing t with
  | nil => exact ⟨ht, rfl⟩
  | cons i es ih =>
      obtain ⟨hi, hes⟩ := List.forall_mem_cons.1 hes
      obtain ⟨hsym, hen⟩ := List.forall_mem_cons.1 hen
      have hpend : (t.step i).syncLoadPending = true := by
        rw [step_pending, ht, hsym]
        exact Bool.or_true _
      have hshadow : (t.step i).syncShadow = t.syncShadow := by rw [step_shadow, hi]; rfl
      obtain ⟨hp, hw⟩ := ih hpend hes hen
      exact ⟨hp, hw.trans hshadow⟩

/-- **A pending load restarts the counters at the next symbol enable**, and nothing is pending
after it. -/
theorem tuple_exec_pending (ht : t.syncLoadPending = true) (hes : Unstrobed (wait ++ j :: rest))
    (hen : WithinSymbol wait) (hj : j.symEn = true) :
    (Run.exec step t (wait ++ j :: rest)).tuple =
      (Run.exec step (loaded t.syncShadow) rest).tuple := by
  obtain ⟨hwait, hrest⟩ := hes.append
  obtain ⟨hjs, hrest⟩ := List.forall_mem_cons.1 hrest
  obtain ⟨hp, hw⟩ := pending_exec ht hwait hen
  have hcommit : (Run.exec step t wait).syncCommit j = true := by
    rw [syncCommit, hj, hp]
    rfl
  rw [Run.exec_append, Run.exec_cons]
  apply tuple_exec_congr _ ⟨_, hrest⟩ ⟨rfl, hrest⟩
  · rw [tuple_step_loaded hcommit, hjs, hw]
    rfl
  · rw [step_pending, hjs, hj, Bool.not_true, Bool.and_false]
    rfl

/-! ### Runs -/

/-- A strobe leaves its load pending, in the cycle of a symbol enable too. -/
theorem step_strobe (h : i.syncLoadStrobe = true) :
    (t.step i).syncLoadPending = true ∧ (t.step i).syncShadow = i.syncIn := by
  rw [step_pending, step_shadow, h]
  exact ⟨rfl, rfl⟩

/-- A strobe between two symbol enables restarts the counters once. -/
theorem tuple_exec_strobe (h : i.syncLoadStrobe = true) (hi : i.symEn = false)
    (hseg : Unstrobed seg) (hsplit : i :: seg = wait ++ j :: rest) (hen : WithinSymbol wait)
    (hj : j.symEn = true) :
    (Run.exec step t (i :: seg)).tuple = (Run.exec step (loaded i.syncIn) rest).tuple := by
  obtain ⟨hp, hw⟩ := step_strobe (t := t) h
  cases wait with
  | nil =>
      obtain ⟨rfl, -⟩ := List.cons.inj hsplit
      exact absurd (hi.symm.trans hj) (by decide)
  | cons k wait =>
      obtain ⟨rfl, rfl⟩ := List.cons.inj hsplit
      rw [Run.exec_cons, ← hw]
      exact tuple_exec_pending hp hseg (List.forall_mem_cons.1 hen).2 hj

/-- A strobe in the cycle of a symbol enable restarts the counters there, and they rest until the
next one. -/
theorem tuple_exec_coincident (h : i.syncLoadStrobe = true) (hi : i.symEn = true)
    (hen : WithinSymbol seg) :
    (Run.exec step t (i :: seg)).tuple = (Run.exec step (loaded i.syncIn) seg).tuple := by
  have hcommit : t.syncCommit i = true := by
    rw [syncCommit, hi, h]
    exact Bool.or_true _
  rw [Run.exec_cons, tuple_exec_rest hen, tuple_exec_rest hen, tuple_step_loaded hcommit, h]
  rfl

/-- The next symbol enable restarts them once more. -/
theorem tuple_exec_again (h : i.syncLoadStrobe = true) (hwait : Unstrobed wait)
    (hen : WithinSymbol wait) (hjs : j.syncLoadStrobe = false) (hj : j.symEn = true) :
    (Run.exec step t (i :: (wait ++ [j]))).tuple = (loaded i.syncIn).tuple := by
  obtain ⟨hp, hw⟩ := step_strobe (t := t) h
  have hseg : Unstrobed (wait ++ [j]) :=
    List.forall_mem_append.2 ⟨hwait, List.forall_mem_singleton.2 hjs⟩
  rw [Run.exec_cons, tuple_exec_pending hp hseg hen hj, hw]
  rfl

/-- The time base that has nothing pending counts there. -/
theorem tuple_exec_counts (w : SyncWord) (hwait : Unstrobed wait) (hen : WithinSymbol wait)
    (hjs : j.syncLoadStrobe = false) (hj : j.symEn = true) :
    (Run.exec step (loaded w) (wait ++ [j])).tuple = 1 :: (loaded w).tuple.tail := by
  have hun : (loaded w).Unloaded (wait ++ [j]) :=
    ⟨rfl, List.forall_mem_append.2 ⟨hwait, List.forall_mem_singleton.2 hjs⟩⟩
  have hcount : ((loaded w).step j).tuple = 1 :: (loaded w).tuple.tail := by
    simp [loaded, step, counterBlock, shadowBlock, syncCommit, slotEdge, tuple, hj, hjs]
  have hone : (loaded w).syncCommit j = false := by
    rw [syncCommit, hjs, hj]
    rfl
  rw [Run.exec_append, ← hcount]
  exact tuple_step_congr (tuple_exec_rest hen) hun.exec.commit hone

/-- The first symbol enable of a run. -/
theorem withinSymbol_or (es : List TimebaseIn) : WithinSymbol es ∨
    ∃ wait j rest, es = wait ++ j :: rest ∧ WithinSymbol wait ∧ j.symEn = true := by
  cases hfind : es.find? (·.symEn) with
  | none => exact .inl fun i hi ↦ Bool.eq_false_iff.2 (List.find?_eq_none.1 hfind i hi)
  | some j =>
      obtain ⟨hj, wait, rest, hsplit, hwait⟩ := List.find?_eq_some_iff_append.1 hfind
      exact .inr ⟨wait, j, rest, hsplit, fun i hi ↦ by simpa using hwait i hi, hj⟩

theorem RestartsOnce.superseded (h : RestartsOnce t es) : Superseded es := by
  intro pre i wait j post hes hi hsym hwait hen hj
  by_contra hjs
  rw [Bool.not_eq_true] at hjs
  have hseg : Unstrobed (wait ++ [j]) :=
    List.forall_mem_append.2 ⟨hwait, List.forall_mem_singleton.2 hjs⟩
  have honce := (h pre i (wait ++ [j]) post (by simp [hes]) hi hseg).2 [] i (wait ++ [j]) rfl
    (List.forall_mem_nil _) hsym
  rw [Run.exec_append, tuple_exec_again hi hwait hen hjs hj,
    tuple_exec_counts i.syncIn hwait hen hjs hj] at honce
  exact absurd (List.cons.inj honce).1 Nat.zero_ne_one

/-- After a strobe in the cycle of a symbol enable, no symbol ends before the next strobe. -/
theorem Superseded.withinSymbol {pre post : List TimebaseIn} (h : Superseded es)
    (hes : es = pre ++ i :: seg ++ post) (hi : i.syncLoadStrobe = true) (hsym : i.symEn = true)
    (hseg : Unstrobed seg) : WithinSymbol seg := by
  refine (withinSymbol_or seg).resolve_right fun hagain ↦ ?_
  obtain ⟨wait, j, late, rfl, hwait, hj⟩ := hagain
  obtain ⟨hun, hjs⟩ := hseg.append
  have hstrobe := h pre i wait j (late ++ post) (by simp [hes]) hi hsym hun hwait hj
  exact absurd (hstrobe.symm.trans (hjs j List.mem_cons_self)) Bool.false_ne_true.symm

theorem Superseded.restartsOnce (h : Superseded es) : RestartsOnce t es := by
  intro pre i seg post hes hi hseg
  refine ⟨fun hen ↦ ?_, fun wait j rest hsplit hen hj ↦ ?_⟩
  · rw [Run.exec_append, tuple_exec_rest hen]
  · rw [Run.exec_append]
    cases hsym : i.symEn with
    | false => exact tuple_exec_strobe hi hsym hseg hsplit hen hj
    | true =>
        have hrest : WithinSymbol seg := h.withinSymbol hes hi hsym hseg
        cases wait with
        | nil =>
            obtain ⟨rfl, rfl⟩ := List.cons.inj hsplit
            exact tuple_exec_coincident hi hsym hrest
        | cons k wait =>
            obtain ⟨rfl, -⟩ := List.cons.inj hsplit
            exact absurd (hsym.symm.trans (hen i List.mem_cons_self)) Bool.false_ne_true.symm

/-- **The runs in which every strobe restarts the counters once.** -/
theorem restartsOnce_iff_superseded (t : TdmaTimebase) (es : List TimebaseIn) :
    RestartsOnce t es ↔ Superseded es := ⟨RestartsOnce.superseded, Superseded.restartsOnce⟩

/-- A load comes in the last cycle of a symbol, and the next symbol ends `n` idle cycles later. -/
def coincidence (w : SyncWord) (n : ℕ) : List TimebaseIn :=
  ⟨true, true, w⟩ :: (List.replicate n (⟨false, false, {}⟩ : TimebaseIn) ++ [⟨true, false, {}⟩])

theorem not_restartsOnce (t : TdmaTimebase) (w : SyncWord) (n : ℕ) :
    ¬ RestartsOnce t (coincidence w n) := by
  intro h
  have hun : Unstrobed (List.replicate n (⟨false, false, {}⟩ : TimebaseIn)) := fun i hi ↦ by
    rw [List.eq_of_mem_replicate hi]
  have hidle : WithinSymbol (List.replicate n (⟨false, false, {}⟩ : TimebaseIn)) := fun i hi ↦ by
    rw [List.eq_of_mem_replicate hi]
  have hstrobe := h.superseded [] ⟨true, true, w⟩ _ ⟨true, false, {}⟩ []
    (by simp [coincidence]) rfl rfl hun hidle rfl
  exact absurd hstrobe Bool.false_ne_true

/-- With 5556 cycles to a symbol: slot 2 of frame 17 starts, and a symbol later it starts again. -/
theorem not_restartsOnce_coincidence :
    ¬ RestartsOnce {} (coincidence ⟨2, 17, 59, 5⟩ 5555) := not_restartsOnce _ _ _

end TdmaTimebase

end TetraPhy.Tx
