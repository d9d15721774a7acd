import TetraPhy.Lib.Run
import TetraPhy.Lmac.SignalQueue

/-!
# The drop counter of the signalling queue

`drop_cnt` of `tetra_dl_signal_queue.v` saturates: it does not count on from 65535.  But up to three
writes are refused in a cycle, and the comparison is one of the old value, so that the counter can
go past 65535 in one cycle, and then starts again near 0.

**`exact_dropCnt_iff`** says for which runs it is exact: those in which the refused writes, on their
way past 65535, come to 65535 itself.
-/

namespace TetraPhy.Lmac

open Run

namespace SignalQueue

variable (q : SignalQueue) (io : QueueIn)

/-- The writes of a cycle that are refused: a producer writes and is not the one stored. -/
def refused : ℕ :=
  (q.portDrops io io.wrMle.valid 0).toNat + (q.portDrops io io.wrCmce.valid 1).toNat +
    (q.portDrops io io.wrSds.valid 2).toNat

theorem refused_le : q.refused io ≤ 3 := by
  have hmle := Bool.toNat_le (q.portDrops io io.wrMle.valid 0)
  have hcmce := Bool.toNat_le (q.portDrops io io.wrCmce.valid 1)
  have hsds := Bool.toNat_le (q.portDrops io io.wrSds.valid 2)
  rw [refused]
  omega

theorem writeAccepted_eq :
    q.writeAccepted io = (io.arbWriteValid && q.freeIdx.isSome) := by
  rw [writeAccepted, acceptIdx]
  cases io.arbWriteValid <;> rfl

/-- The counter is told of each. -/
theorem toNat_dropThis_eq_refused : (q.dropThis io).toNat = q.refused io := by
  have hports : ∀ free mle cmce sds : Bool,
      ((if (BitVec.ofBool mle).setWidth 2 + (BitVec.ofBool cmce).setWidth 2 +
            (BitVec.ofBool sds).setWidth 2 ≥ 2 then
          ((BitVec.ofBool mle).setWidth 2 + (BitVec.ofBool cmce).setWidth 2 +
            (BitVec.ofBool sds).setWidth 2 - 1).setWidth 3
        else 0) + (if (mle || cmce || sds) && !free then 1 else 0) : BitVec 3).toNat =
      (mle && !((mle || cmce || sds) && free &&
          (if mle then 0 else if cmce then 1 else 2 : BitVec 2) == 0)).toNat +
        (cmce && !((mle || cmce || sds) && free &&
          (if mle then 0 else if cmce then 1 else 2 : BitVec 2) == 1)).toNat +
        (sds && !((mle || cmce || sds) && free &&
          (if mle then 0 else if cmce then 1 else 2 : BitVec 2) == 2)).toNat := by
    decide
  simp only [dropThis, refused, portDrops, writeAccepted_eq]
  exact hports _ _ _ _

/-- What the counter does. -/
theorem toNat_dropCnt_step_eq : (q.step io).dropCnt.toNat =
    if q.dropCnt.toNat = 65535 then 65535
    else (q.dropCnt.toNat + q.refused io) % 65536 := by
  have hlt := q.dropCnt.isLt
  have hdrops := q.toNat_dropThis_eq_refused io
  have hfull : q.dropCnt = 0xFFFF ↔ q.dropCnt.toNat = 65535 := by
    rw [← BitVec.toNat_inj]
    rfl
  simp only [step, ← hfull]
  by_cases hcnt : q.dropCnt = 0xFFFF
  · rw [hcnt, if_pos rfl, bne_self_eq_false, Bool.and_false]
    rfl
  · have hroom : (q.dropCnt != 0xFFFF) = true := bne_iff_ne.2 hcnt
    rw [if_neg hcnt, hroom, Bool.and_true]
    split_ifs with hany
    · rw [BitVec.toNat_add, BitVec.toNat_setWidth, hdrops]
      have hle := q.refused_le io
      omega
    · have hzero : q.dropThis io = 0 := by simpa using hany
      rw [← hdrops, hzero]
      exact (Nat.mod_eq_of_lt hlt).symm

end SignalQueue

/-! ## Counting along -/

/-- The queue, and how many writes were refused so far. -/
structure CountedQueue where
  queue : SignalQueue := {}
  refused : ℕ := 0

namespace CountedQueue

def step (s : CountedQueue) (io : QueueIn) : CountedQueue where
  queue := s.queue.step io
  refused := s.refused + s.queue.refused io

/-- The counter shows the refused writes, up to saturation. -/
def Exact (s : CountedQueue) : Prop := s.queue.dropCnt.toNat = min s.refused 65535

/-- It does not fall. -/
def Rises (s : CountedQueue) (io : QueueIn) : Prop :=
  s.queue.dropCnt.toNat ≤ (s.queue.step io).dropCnt.toNat

/-- The refused writes do not go past 65535 from below it. -/
def Lands (s : CountedQueue) (io : QueueIn) : Prop :=
  s.refused < 65535 → s.refused + s.queue.refused io ≤ 65535

variable {s : CountedQueue} {io : QueueIn}

theorem exact_init : Exact {} := rfl

/-- **A cycle keeps the counter exact** if it lands, and only then. -/
theorem exact_step_iff (h : s.Exact) : (s.step io).Exact ↔ s.Lands io := by
  have hle := s.queue.refused_le io
  simp only [Exact] at h
  simp only [Exact, Lands, step, SignalQueue.toNat_dropCnt_step_eq, h]
  split_ifs with hfull
  · omega
  · omega

/-- Then it does not fall either. -/
theorem exact_step_of_lands (h : s.Exact) (hlands : s.Lands io) :
    (s.step io).Exact ∧ s.Rises io := by
  have hnext := (exact_step_iff h).2 hlands
  refine ⟨hnext, ?_⟩
  simp only [Exact, step] at h hnext
  rw [Rises, h, hnext]
  omega

/-- **The runs in which it is exact**, and never falls. -/
theorem exact_dropCnt_iff (es : List QueueIn) :
    (Throughout step Exact {} es ∧ Along step Rises {} es) ↔ Along step Lands {} es := by
  have hexact : Throughout step Exact {} es ↔ Along step Lands {} es :=
    throughout_iff_along step (I := fun _ ↦ True) (fun _ _ _ ↦ trivial)
      (fun s io _ h ↦ exact_step_iff h) trivial exact_init es
  refine ⟨fun h ↦ hexact.1 h.1, fun h ↦ ⟨hexact.2 h, ?_⟩⟩
  exact (Along.throughout_and step (I := fun _ ↦ True) (fun _ _ _ ↦ trivial)
    (fun s io _ (hs : s.Exact) (hl : s.Lands io) ↦ exact_step_of_lands hs hl) trivial exact_init h).2

/-! ## Past the end

A full queue that nobody reads, and two writers in each cycle. -/

/-- One writer. -/
def oneWrite : QueueIn := { wrMle := { valid := true } }

/-- Two writers. -/
def twoWrites : QueueIn := { wrMle := { valid := true }, wrCmce := { valid := true } }

/-- The queue is filled, 65534 writes are refused, and then two more. -/
def overrun : List QueueIn :=
  List.replicate 4 oneWrite ++ List.replicate 32767 twoWrites ++ [twoWrites]

/-- No slot is free. -/
def Full (s : CountedQueue) : Prop := ∀ i, s.queue.entryValid i = true

theorem full_fill : (exec step {} (List.replicate 4 oneWrite)).Full ∧
    (exec step {} (List.replicate 4 oneWrite)).refused = 0 ∧
    (exec step {} (List.replicate 4 oneWrite)).queue.dropCnt = 0 := by
  refine ⟨?_, ?_, ?_⟩
  · intro i
    revert i
    decide
  · decide
  · decide

/-- It stays full, and refuses both. -/
theorem full_step (h : s.Full) :
    (s.step twoWrites).Full ∧ (s.step twoWrites).refused = s.refused + 2 := by
  have hfree : s.queue.freeIdx = none := SignalQueue.freeIdx_eq_none_iff.2 h
  have haccept : s.queue.acceptIdx twoWrites = none := by
    rw [SignalQueue.acceptIdx, hfree, ite_self]
  have hpop : s.queue.popIdx twoWrites = none := rfl
  constructor
  · intro i
    simp only [CountedQueue.step, SignalQueue.step, haccept, hpop]
    exact h i
  · simp only [CountedQueue.step, SignalQueue.refused, SignalQueue.portDrops,
      SignalQueue.writeAccepted, haccept]
    rfl

theorem full_exec (h : s.Full) (n : ℕ) : (exec step s (List.replicate n twoWrites)).Full ∧
    (exec step s (List.replicate n twoWrites)).refused = s.refused + 2 * n := by
  induction n generalizing s with
  | zero => exact ⟨h, rfl⟩
  | succ n ih =>
      obtain ⟨hfull, hrefused⟩ := full_step h
      obtain ⟨hend, hcount⟩ := ih hfull
      rw [List.replicate_succ, exec_cons]
      exact ⟨hend, by rw [hcount, hrefused]; omega⟩

/-- Below 65534 a cycle lands. -/
theorem lands_of_full (hfull : s.Full) (h : s.refused + 2 ≤ 65535) : s.Lands twoWrites := by
  intro _
  have hstep := (full_step hfull).2
  simp only [CountedQueue.step] at hstep
  omega

theorem exact_exec_full (hfull : s.Full) (h : s.Exact) {n : ℕ}
    (hn : s.refused + 2 * n ≤ 65535) : (exec step s (List.replicate n twoWrites)).Exact := by
  induction n generalizing s with
  | zero => exact h
  | succ n ih =>
      obtain ⟨hnext, hrefused⟩ := full_step hfull
      rw [List.replicate_succ, exec_cons]
      exact ih hnext ((exact_step_iff h).2 (lands_of_full hfull (by omega)))
        (by rw [hrefused]; omega)

/-- From 65534 it goes past its end. -/
theorem dropCnt_past (hfull : s.Full) (h : s.Exact) {n : ℕ} (hn : s.refused + 2 * n = 65534) :
    ((Run.exec step s (List.replicate n twoWrites)).step twoWrites).refused = 65536 ∧
      ((Run.exec step s (List.replicate n twoWrites)).step twoWrites).queue.dropCnt = 0 := by
  have hlast := exact_exec_full hfull h (n := n) (by omega)
  obtain ⟨hstill, hcount⟩ := full_exec hfull n
  obtain ⟨-, hrefused⟩ := full_step hstill
  rw [hcount, hn] at hrefused
  refine ⟨hrefused, ?_⟩
  have htwo : (Run.exec step s (List.replicate n twoWrites)).queue.refused twoWrites = 2 := by
    simp only [CountedQueue.step, hcount] at hrefused
    omega
  rw [Exact, hcount, hn] at hlast
  rw [← BitVec.toNat_inj, step, SignalQueue.toNat_dropCnt_step_eq, htwo, hlast]
  rfl

theorem dropCnt_overrun :
    (Run.exec step {} overrun).refused = 65536 ∧ (Run.exec step {} overrun).queue.dropCnt = 0 := by
  obtain ⟨hfull, hzero, hcnt⟩ := full_fill
  have hexact : (Run.exec step {} (List.replicate 4 oneWrite)).Exact := by
    rw [Exact, hcnt, hzero]
    rfl
  rw [overrun, exec_append, exec_append, exec_cons, exec_nil]
  exact dropCnt_past hfull hexact (by rw [hzero])

theorem not_exact_overrun : ¬ (Run.exec step {} overrun).Exact := by
  obtain ⟨hrefused, hcnt⟩ := dropCnt_overrun
  rw [Exact, hrefused, hcnt]
  decide

end CountedQueue

end TetraPhy.Lmac
