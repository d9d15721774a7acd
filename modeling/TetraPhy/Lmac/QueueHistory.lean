import TetraPhy.Lib.Run
import TetraPhy.Lmac.SignalQueue

/-!
# What the signalling queue keeps, and in which order it gives it back

A run of the queue is the list of the inputs of its clock cycles, from reset on: any
combination of writes and pops in every cycle.  `Observed` runs the queue beside the
ledger of what was accepted and popped; the ledger never feeds back into the queue.

* **Safety** (`signalQueue_safe`): what was accepted is popped at most once and until
  then sits unchanged in exactly one slot; a pop returns an entry of the highest
  priority present.
* **Order** (`drainsInOrder_iff`): entries of one priority and target timeslot come out
  in the order they went in exactly as long as none is stored below one that waits.
  A write takes the *lowest* free slot and a pop the *lowest* slot of its priority, so
  a slot freed below a waiting entry and filled again overtakes it.
-/

namespace TetraPhy.Lmac

open Ledger Run SignalQueue

/-- A queue and the ledger of its run. -/
structure Observed where
  queue : SignalQueue
  book : Book (Fin 4) Entry

namespace Observed

/-- A cycle: the queue steps, the ledger records what was popped and accepted. -/
def step (o : Observed) (io : QueueIn) : Observed where
  queue := o.queue.step io
  book := o.book.cycle (o.queue.popIdx io) ((o.queue.acceptIdx io).map fun j ↦ (j, io.arbWrite))

def init : Observed := { queue := SignalQueue.init, book := Book.init }

/-- The queue after a run. -/
@[simp] theorem queue_exec (o : Observed) (ios : List QueueIn) :
    (exec step o ios).queue = exec SignalQueue.step o.queue ios := by
  induction ios generalizing o with
  | nil => rfl
  | cons io ios ih => exact ih (o.step io)

/-! ## Safety -/

/-- Ledger and queue agree, and the counts balance. -/
structure Inv (o : Observed) : Prop where
  sound : Sound o.queue.occ o.book
  balanced : Balanced o.queue.occ o.book

theorem occ_init : SignalQueue.init.occ = fun _ ↦ none := rfl

theorem inv_init : Inv init := by
  refine ⟨?_, ?_⟩
  · change Sound SignalQueue.init.occ Book.init
    exact occ_init ▸ sound_init
  · change Balanced SignalQueue.init.occ Book.init
    exact occ_init ▸ balanced_init

/-- The queue pops occupied slots and writes to empty ones. -/
theorem fits (q : SignalQueue) (io : QueueIn) :
    Fits q.occ (q.popIdx io) ((q.acceptIdx io).map fun j ↦ (j, io.arbWrite)) := by
  refine ⟨fun i hi ↦ ?_, fun j a hj ↦ ?_⟩
  · simp [occ_of_popIdx hi]
  · obtain ⟨k, hk, he⟩ := Option.map_eq_some_iff.1 hj
    cases he
    exact occ_of_acceptIdx hk

theorem Inv.step {o : Observed} (h : Inv o) (io : QueueIn) : Inv (o.step io) := by
  refine ⟨?_, ?_⟩
  · change Sound (o.queue.step io).occ _
    exact occ_step o.queue io ▸ h.sound.cycle (fits o.queue io)
  · change Balanced (o.queue.step io).occ _
    exact occ_step o.queue io ▸ h.balanced.cycle (fits o.queue io)

theorem inv_exec (ios : List QueueIn) : Inv (exec step init ios) :=
  exec_induction step (fun _ io h ↦ h.step io) inv_init ios

/-- **The queue is safe.**  After any run, in the next cycle `io`:

* no ticket was taken twice;
* whatever was accepted and not yet popped is unchanged in exactly one slot;
* a pop clears a slot if any is occupied, and a write is accepted if any is free;
* a pop returns the entry its ticket stands for, and no occupied slot holds one of a
  higher priority;
* a write accepted in the same cycle goes to another slot;
* the reported depth and what was popped add up to what was accepted. -/
theorem signalQueue_safe (ios : List QueueIn) (io : QueueIn) :
    let o := exec step init ios
    o.book.taken.Nodup ∧
    (∀ t e, o.book.accepted[t]? = some e → t ∉ o.book.taken →
      ∃! i, o.book.ticket i = t ∧ o.queue.occ i = some e) ∧
    (io.pop = true → (∃ i, (o.queue.occ i).isSome) → (o.queue.popIdx io).isSome) ∧
    (io.arbWriteValid = true → (∃ i, o.queue.occ i = none) → (o.queue.acceptIdx io).isSome) ∧
    (∀ i, o.queue.popIdx io = some i →
      o.queue.occ i = some o.queue.head ∧
      o.book.accepted[o.book.ticket i]? = some o.queue.head ∧
      ∀ j e, o.queue.occ j = some e → o.queue.head.prio ≤ e.prio) ∧
    (∀ i j, o.queue.popIdx io = some i → o.queue.acceptIdx io = some j → i ≠ j) ∧
    o.queue.depthCount.toNat + o.book.taken.length = o.book.accepted.length := by
  intro o
  have hinv : Inv o := inv_exec ios
  have hhead : ∀ i, o.queue.popIdx io = some i → o.queue.head = o.queue.entry i := by
    intro i hi
    rw [SignalQueue.head, (popIdx_eq_some_iff.1 hi).2, Option.getD_some]
  refine ⟨hinv.sound.once, ?_, isSome_popIdx, isSome_acceptIdx, ?_, ?_, ?_⟩
  · intro t e ht hw
    exact hinv.sound.existsUnique ht hw
  · intro i hi
    rw [hhead i hi]
    refine ⟨occ_of_popIdx hi, hinv.sound.held i _ (occ_of_popIdx hi), ?_⟩
    intro j e hj
    obtain ⟨hv, rfl⟩ := occ_eq_some_iff.1 hj
    exact (headIdx_spec (popIdx_eq_some_iff.1 hi).2).2 j hv
  · rintro i j hi hj rfl
    have hocc := occ_of_popIdx hi
    rw [occ_of_acceptIdx hj] at hocc
    simp at hocc
  · rw [toNat_depthCount]
    exact hinv.balanced

/-- Two SDS bodies and an MLE reply wait when the next cycle pops and writes: the reply leaves its
slot, the second body stays in its own, and the new one goes to the fourth. -/
theorem signalQueue_safe_pop :
    let o := exec step init [{ wrSds := { valid := true, coded := 1 } },
      { wrSds := { valid := true, coded := 2 } }, { wrMle := { valid := true, coded := 3 } }]
    let io : QueueIn := { wrCmce := { valid := true, coded := 4 }, pop := true }
    (o.queue.popIdx io).isSome ∧ (o.queue.acceptIdx io).isSome ∧
      o.queue.occ 2 = some o.queue.head ∧
      (∃! i, o.book.ticket i = 1 ∧ o.queue.occ i = some { coded := 2, prio := 2 }) ∧
      (2 : Fin 4) ≠ 3 ∧ o.queue.depthCount.toNat + o.book.taken.length = 3 := by
  intro o io
  obtain ⟨-, hkept, hpop, hwrite, hhead, hapart, hdepth⟩ := signalQueue_safe
    [{ wrSds := { valid := true, coded := 1 } }, { wrSds := { valid := true, coded := 2 } },
      { wrMle := { valid := true, coded := 3 } }] io
  exact ⟨hpop rfl ⟨0, by decide⟩, hwrite rfl ⟨3, by decide⟩, (hhead 2 (by decide)).1,
    hkept 1 { coded := 2, prio := 2 } rfl (by decide), hapart 2 3 (by decide) (by decide), hdepth⟩

/-! ## Order -/

/-- The entries whose order matters to each other: one priority, one target timeslot. -/
def orderClass (e : Entry) : BitVec 2 × BitVec 2 := (e.prio, e.targetTn)

/-- The write of this cycle, if stored, goes above every entry of its class that is
still waiting after the cycle's pop. -/
def NoOvertake (o : Observed) (io : QueueIn) : Prop :=
  ∀ j, o.queue.acceptIdx io = some j → ∀ i e, o.queue.occ i = some e →
    o.queue.popIdx io ≠ some i → orderClass e = orderClass io.arbWrite → i < j

/-- The slots are in order, and so was everything popped. -/
def Ordered (o : Observed) : Prop := Ledger.Ordered orderClass o.queue.occ o.book

theorem ordered_init : Ordered init := by
  refine ⟨?_, orderKept_init⟩
  change InOrder orderClass SignalQueue.init.occ Book.init
  exact occ_init ▸ inOrder_init

/-- The head is the lowest slot of its class. -/
theorem head_le {q : SignalQueue} {io : QueueIn} {i : Fin 4} (hi : q.popIdx io = some i) (j : Fin 4)
    (e : Entry) (hj : q.occ j = some e) (hc : orderClass e = orderClass (q.entry i)) : i ≤ j := by
  obtain ⟨hv, rfl⟩ := occ_eq_some_iff.1 hj
  by_contra hlt
  have hfirst := (idxPrio_eq_some_iff.1 (headIdx_spec (popIdx_eq_some_iff.1 hi).2).1).2
  exact hfirst j (not_le.1 hlt) hv (congrArg Prod.fst hc)

/-- **One cycle keeps the order exactly when its write overtakes nothing.** -/
theorem ordered_step_iff {o : Observed} (hinv : Inv o) (h : Ordered o) (io : QueueIn) :
    Ordered (o.step io) ↔ NoOvertake o io := by
  have hlow : ∀ i e, o.queue.popIdx io = some i → o.queue.occ i = some e →
      ∀ j e', o.queue.occ j = some e' → orderClass e' = orderClass e → i ≤ j := by
    intro i e hi he j e' hj hc
    obtain ⟨-, rfl⟩ := occ_eq_some_iff.1 he
    exact head_le hi j e' hj hc
  change Ledger.Ordered orderClass (o.queue.step io).occ _ ↔ _
  rw [occ_step]
  refine (Ledger.Ordered.cycle_iff hinv.sound h (fits o.queue io) hlow).trans ?_
  constructor
  · intro hb j hj i e hi hp hc
    exact hb j _ (by rw [hj, Option.map_some]) i e hi hp hc
  · intro hb j a hj i e hi hp hc
    obtain ⟨k, hk, he⟩ := Option.map_eq_some_iff.1 hj
    cases he
    exact hb j hk i e hi hp hc

/-! ### Draining

Whether the slots are in order shows once the queue is emptied. -/

/-- A cycle that only pops. -/
def popOnly : QueueIn := { pop := true }

/-- If nothing more were written, everything would come out in order. -/
def DrainsInOrder (o : Observed) : Prop :=
  ∀ n, OrderKept orderClass (exec step o (List.replicate n popOnly)).book

theorem acceptIdx_popOnly (q : SignalQueue) : q.acceptIdx popOnly = none := rfl

theorem popIdx_popOnly (q : SignalQueue) : q.popIdx popOnly = q.headIdx := rfl

theorem Ordered.drains {o : Observed} (hinv : Inv o) (h : Ordered o) : DrainsInOrder o := by
  intro n
  have hrun : Inv (exec step o (List.replicate n popOnly)) ∧
      Ordered (exec step o (List.replicate n popOnly)) := by
    induction n generalizing o with
    | zero => exact ⟨hinv, h⟩
    | succ n ih =>
        refine ih (hinv.step popOnly) ((ordered_step_iff hinv h popOnly).2 ?_)
        intro j hj
        simp [acceptIdx_popOnly] at hj
  exact hrun.2.kept

theorem DrainsInOrder.step {o : Observed} (h : DrainsInOrder o) : DrainsInOrder (o.step popOnly) :=
  fun n ↦ h (n + 1)

/-- What a pop leaves behind. -/
theorem step_popOnly {o : Observed} {k : Fin 4} (hk : o.queue.headIdx = some k) :
    (o.step popOnly).queue.occ = Function.update o.queue.occ k none ∧
      (o.step popOnly).book = o.book.take k := by
  refine ⟨?_, ?_⟩
  · change (o.queue.step popOnly).occ = _
    rw [occ_step, popIdx_popOnly, acceptIdx_popOnly, hk]
    rfl
  · rw [step, popIdx_popOnly, acceptIdx_popOnly, hk]
    rfl

/-- Two entries of one class whose slots are the wrong way round come out the wrong way
round. -/
theorem not_drains_of_swapped {o : Observed} (hinv : Inv o) {i j : Fin 4} {a b : Entry}
    (hi : o.queue.occ i = some a) (hj : o.queue.occ j = some b)
    (hc : orderClass a = orderClass b) (ht : o.book.ticket i < o.book.ticket j) (hji : j < i) :
    ¬ DrainsInOrder o := by
  -- induction on what is in the queue: a pop takes the later one first, or neither
  induction hn : occupied o.queue.occ generalizing o with
  | zero =>
      have hmem : i ∈ Finset.univ.filter fun k ↦ (o.queue.occ k).isSome := by simp [hi]
      rw [Finset.card_eq_zero.1 hn] at hmem
      simp at hmem
  | succ n ih =>
      intro hd
      obtain ⟨k, hk⟩ : ∃ k, o.queue.headIdx = some k := by
        rw [← Option.ne_none_iff_exists', ne_eq, headIdx_eq_none_iff]
        intro hnone
        simp [occ, hnone] at hi
      have hpop : o.queue.popIdx popOnly = some k := hk
      obtain ⟨hocc, hbook⟩ := step_popOnly hk
      have hki : k ≠ i := by
        rintro rfl
        obtain ⟨-, rfl⟩ := occ_eq_some_iff.1 hi
        exact absurd (head_le hpop j b hj hc.symm) (not_le.2 hji)
      rcases eq_or_ne k j with rfl | hkj
      · have hkept := hd 1 (o.book.ticket i) (o.book.ticket k) a b ht
        simp only [List.replicate_one, exec_cons, exec_nil, hbook, Book.take] at hkept
        have hlt := hkept (hinv.sound.held i a hi) (hinv.sound.held k b hj) hc (by simp)
        have hmem := List.idxOf_lt_length_iff.1 (hlt.trans_le List.idxOf_le_length)
        rcases List.mem_append.1 hmem with hmem | hmem
        · exact hinv.sound.untaken i (by simp [hi]) hmem
        · exact ht.ne (List.mem_singleton.1 hmem)
      · refine ih (hinv.step popOnly) ?_ ?_ ?_ ?_ hd.step
        · rw [hocc, Function.update_of_ne hki.symm, hi]
        · rw [hocc, Function.update_of_ne hkj.symm, hj]
        · rw [hbook]
          exact ht
        · have htake := occupied_take ((fits o.queue popOnly).out k hpop)
          rw [hocc]
          omega

theorem drainsInOrder_iff_ordered {o : Observed} (hinv : Inv o) : DrainsInOrder o ↔ Ordered o := by
  refine ⟨fun hd ↦ ⟨?_, hd 0⟩, Ordered.drains hinv⟩
  intro i j a b hi hj hc ht
  rcases lt_trichotomy i j with hij | rfl | hji
  · exact hij
  · exact absurd ht (lt_irrefl _)
  · exact absurd hd (not_drains_of_swapped hinv hi hj hc ht hji)

/-- **Order is kept for exactly as long as no write overtakes.**  At every point of a run
what was popped, and what draining the queue from there would pop, comes in the order of
acceptance within each class, if and only if no write of the run was stored below a
waiting entry of its class. -/
theorem drainsInOrder_iff (ios : List QueueIn) :
    Throughout step DrainsInOrder init ios ↔ Along step NoOvertake init ios := by
  have hinv : ∀ o io, Inv o → Inv (o.step io) := fun _ io h ↦ h.step io
  have hordered : Throughout step DrainsInOrder init ios ↔ Throughout step Ordered init ios :=
    throughout_congr step hinv (fun _ ↦ drainsInOrder_iff_ordered) inv_init ios
  rw [hordered]
  exact throughout_iff_along step hinv (fun _ io hI h ↦ ordered_step_iff hI h io) inv_init
    ordered_init ios

/-- Three MLE replies for one timeslot, of which the first is popped before the third is
written. -/
def overtakingRun : List QueueIn :=
  [{ wrMle := { valid := true, coded := 1 } }, { wrMle := { valid := true, coded := 2 } },
    { pop := true }, { wrMle := { valid := true, coded := 3 } }, { pop := true }]

/-- The third reply takes the slot of the first and leaves before the second. -/
theorem overtakingRun_swaps : ¬ OrderKept orderClass (exec step init overtakingRun).book := by
  intro hkept
  have hlt := hkept 1 2 { coded := 2 } { coded := 3 } (by decide) rfl rfl rfl (by decide)
  exact absurd hlt (by decide)

end Observed

end TetraPhy.Lmac
