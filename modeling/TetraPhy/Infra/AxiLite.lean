import Mathlib.Data.List.Infix
import TetraPhy.Lib.Emission

/-!
# The bus of the registers

`tetra_axi_lite_regs.v` as a slave on AXI-Lite, with the schedule memory behind it
(`tetra_slot_schedule.v`).  Addresses and data are latched as they come, on three channels; a write
is performed once address and data are there and the response before was taken, a read once its
address is there, and its data stay until they are taken.

| word address   | behind it           |
|----------------|---------------------|
| 0x100 .. 0x18F | the schedule memory |
| others         | the registers       |

The schedule memory has one address for both ways, so a read that is performed in the same cycle as
a write is one of the word that is written.  A master that waits for a write before it reads, and
the other way round, does not see this.

* `transactions` — no request is lost or answered twice, whatever the master does;
* `requests_answered` — every request is answered;
* `sequential` — for a master that waits, the schedule is a memory;
* `reads_of_wrEnSched` — for one that does not, it is none.
-/

namespace TetraPhy.Infra

/-! ## The schedule memory -/

/-- Port A, and the two banks. -/
structure SlotSchedule where
  memLo : BitVec 8 → BitVec 16 := fun _ ↦ 0
  memHi : BitVec 8 → BitVec 16 := fun _ ↦ 0
  axiRdLo : BitVec 16 := 0
  axiRdHi : BitVec 16 := 0

namespace SlotSchedule

variable (m : SlotSchedule)

def axiRdata : BitVec 32 := m.axiRdHi ++ m.axiRdLo

/-- A cycle at port A.  Any strobe of a half writes the half. -/
def step (we : Bool) (addr : BitVec 8) (wdata : BitVec 32) (wstrb : BitVec 4) (re : Bool) :
    SlotSchedule where
  memLo := if we && wstrb.extractLsb' 0 2 != 0 then
    Function.update m.memLo addr (wdata.extractLsb' 0 16) else m.memLo
  memHi := if we && wstrb.extractLsb' 2 2 != 0 then
    Function.update m.memHi addr (wdata.extractLsb' 16 16) else m.memHi
  axiRdLo := if re then m.memLo addr else m.axiRdLo
  axiRdHi := if re then m.memHi addr else m.axiRdHi

/-- What port B reads. -/
def scheduleEntry (idx : BitVec 9) : BitVec 16 :=
  if idx.getLsbD 0 then m.memHi (idx.extractLsb' 1 8) else m.memLo (idx.extractLsb' 1 8)

end SlotSchedule

/-! ## The slave -/

/-- What the master shows in a cycle. -/
structure AxiIn where
  awaddr : Option (BitVec 32) := none
  wdata : Option (BitVec 32 × BitVec 4) := none
  bready : Bool := false
  araddr : Option (BitVec 32) := none
  rready : Bool := false
deriving DecidableEq, Repr

/-- A write as it is performed. -/
structure AxiWrite where
  addr : BitVec 11
  data : BitVec 32
  strb : BitVec 4
deriving DecidableEq, Repr

/-- The registers: what becomes of them in a cycle, and `rdata_mux_axi`. -/
structure RegisterBank (σ ι : Type*) where
  next : σ → ι → Option AxiWrite → σ
  rdataMux : σ → ι → BitVec 11 → BitVec 32

/-- The state of the bus, and what is behind it. -/
structure AxiLite (σ : Type*) where
  awLatched : Bool := false
  wrAddr : BitVec 11 := 0
  wLatched : Bool := false
  wrData : BitVec 32 := 0
  wrStrb : BitVec 4 := 0
  bvalid : Bool := false
  arLatched : Bool := false
  rdAddr : BitVec 11 := 0
  arPendingSched : Bool := false
  rvalid : Bool := false
  rdata : BitVec 32 := 0
  sched : SlotSchedule := {}
  regs : σ

def wordIdx (addr : BitVec 11) : BitVec 9 := addr.extractLsb' 2 9

/-- The address is in the window of the schedule. -/
def inSchedule (addr : BitVec 11) : Bool := 0x100 ≤ wordIdx addr && wordIdx addr < 0x190

/-- The row of the memory. -/
def row (addr : BitVec 11) : BitVec 8 := (wordIdx addr).setWidth 8

namespace AxiLite

variable {σ ι : Type*} (bank : RegisterBank σ ι) (s : AxiLite σ) (e : AxiIn × ι)

def wrHandshake : Bool := s.awLatched && s.wLatched && !s.bvalid

def wrEnSched : Bool := s.wrHandshake && inSchedule s.wrAddr

def arEn : Bool := s.arLatched && !s.rvalid && !s.arPendingSched

def scheduleRe : Bool := s.arEn && inSchedule s.rdAddr

def scheduleAddr : BitVec 8 := if s.wrEnSched then row s.wrAddr else row s.rdAddr

def rdataCommit : Bool := (s.arEn && !inSchedule s.rdAddr) || s.arPendingSched

/-- The address that is taken. -/
def awTakes : Option (BitVec 11) := if s.awLatched then none else e.1.awaddr.map (·.setWidth 11)

/-- The data that are taken. -/
def wTakes : Option (BitVec 32 × BitVec 4) := if s.wLatched then none else e.1.wdata

/-- The address that is taken for a read. -/
def arTakes : Option (BitVec 11) := if s.arLatched then none else e.1.araddr.map (·.setWidth 11)

/-- The write that is performed. -/
def writes : Option AxiWrite :=
  if s.wrHandshake then some ⟨s.wrAddr, s.wrData, s.wrStrb⟩ else none

/-- A cycle. -/
def step : AxiLite σ where
  awLatched := (s.awTakes e).isSome || (s.awLatched && !s.wrHandshake)
  wrAddr := (s.awTakes e).getD s.wrAddr
  wLatched := (s.wTakes e).isSome || (s.wLatched && !s.wrHandshake)
  wrData := ((s.wTakes e).map (·.1)).getD s.wrData
  wrStrb := ((s.wTakes e).map (·.2)).getD s.wrStrb
  bvalid := s.wrHandshake || (s.bvalid && !e.1.bready)
  arLatched := (s.arTakes e).isSome || (s.arLatched && !(s.rvalid && e.1.rready))
  rdAddr := (s.arTakes e).getD s.rdAddr
  arPendingSched := s.scheduleRe
  rvalid := s.rdataCommit || (s.rvalid && !e.1.rready)
  rdata :=
    if s.arPendingSched then s.sched.axiRdata
    else if s.arEn && !inSchedule s.rdAddr then bank.rdataMux s.regs e.2 s.rdAddr
    else s.rdata
  sched := s.sched.step s.wrEnSched s.scheduleAddr s.wrData s.wrStrb s.scheduleRe
  regs := bank.next s.regs e.2 s.writes

/-! ## Transactions -/

/-- The write response that is taken. -/
def bGives : Option Unit := if s.bvalid && e.1.bready then some () else none

/-- The read data that are taken, with their address. -/
def rGives : Option (BitVec 11 × BitVec 32) :=
  if s.rvalid && e.1.rready then some (s.rdAddr, s.rdata) else none

/-- What is under an address. -/
def value (i : ι) (addr : BitVec 11) : BitVec 32 :=
  if inSchedule addr then s.sched.memHi s.scheduleAddr ++ s.sched.memLo s.scheduleAddr
  else bank.rdataMux s.regs i addr

/-- The read that is performed, and what it finds. -/
def reads : Option (BitVec 11 × BitVec 32) :=
  if s.arEn then some (s.rdAddr, s.value bank e.2 s.rdAddr) else none

/-! ## The write channels -/

/-- The addresses and the data that were taken, the responses that were, and the writes that were
performed. -/
structure Writing (aw : List (BitVec 11)) (w : List (BitVec 32 × BitVec 4)) (b : List Unit)
    (ws : List AxiWrite) (s : AxiLite σ) : Prop where
  aw : aw = ws.map (·.addr) ++ if s.awLatched then [s.wrAddr] else []
  w : w = ws.map (fun w ↦ (w.data, w.strb)) ++ if s.wLatched then [(s.wrData, s.wrStrb)] else []
  b : ws.length = b.length + if s.bvalid then 1 else 0

section Writing

variable {bank s e} {aw : List (BitVec 11)} {w : List (BitVec 32 × BitVec 4)} {b : List Unit}
variable {ws : List AxiWrite}

theorem Writing.step (h : Writing aw w b ws s) :
    Writing (aw ++ (s.awTakes e).toList) (w ++ (s.wTakes e).toList) (b ++ (s.bGives e).toList)
      (ws ++ s.writes.toList) (s.step bank e) := by
  obtain ⟨haw, hw, hb⟩ := h
  refine ⟨?_, ?_, ?_⟩
  · rw [haw]
    cases hl : s.awLatched with
    | false =>
        have hno : s.wrHandshake = false := by simp [wrHandshake, hl]
        cases he : s.awTakes e <;> simp [AxiLite.step, writes, hno, hl, he]
    | true =>
        have hno : s.awTakes e = none := if_pos hl
        cases hd : s.wrHandshake <;> simp [AxiLite.step, writes, hno, hl, hd]
  · rw [hw]
    cases hl : s.wLatched with
    | false =>
        have hno : s.wrHandshake = false := by simp [wrHandshake, hl]
        cases he : s.wTakes e <;> simp [AxiLite.step, writes, hno, hl, he]
    | true =>
        have hno : s.wTakes e = none := if_pos hl
        cases hd : s.wrHandshake <;> simp [AxiLite.step, writes, hno, hl, hd]
  · cases hl : s.bvalid with
    | false =>
        cases hd : s.wrHandshake <;> simp [AxiLite.step, writes, bGives, hl, hd, hb]
    | true =>
        have hno : s.wrHandshake = false := by simp [wrHandshake, hl]
        cases hr : e.1.bready <;> simp [AxiLite.step, writes, bGives, hl, hno, hb, hr]

end Writing

/-! ## The read channels -/

/-- The read that was performed and waits to be taken. -/
def pendingRead : List (BitVec 11 × BitVec 32) :=
  if s.rvalid then [(s.rdAddr, s.rdata)]
  else if s.arPendingSched then [(s.rdAddr, s.sched.axiRdata)]
  else []

/-- The addresses that were taken, the data that were, and the reads that were performed. -/
structure Reading (ar : List (BitVec 11)) (r rs : List (BitVec 11 × BitVec 32))
    (s : AxiLite σ) : Prop where
  ar : ar = rs.map (·.1) ++ if s.arEn then [s.rdAddr] else []
  r : rs = r ++ s.pendingRead
  rvalid : s.rvalid = true → s.arLatched = true ∧ s.arPendingSched = false
  pending : s.arPendingSched = true → s.arLatched = true

section Reading

variable {bank s e} {ar : List (BitVec 11)} {r rs : List (BitVec 11 × BitVec 32)}

theorem Reading.step (h : Reading ar r rs s) :
    Reading (ar ++ (s.arTakes e).toList) (r ++ (s.rGives e).toList)
      (rs ++ (s.reads bank e).toList) (s.step bank e) := by
  obtain ⟨har, hr, hrvalid, hpending⟩ := h
  cases hl : s.arLatched with
  | false =>
      have hv : s.rvalid = false := by
        by_contra hv
        exact absurd (hrvalid (eq_true_of_ne_false hv)).1 (by simp [hl])
      have hp : s.arPendingSched = false := by
        by_contra hp
        exact absurd (hpending (eq_true_of_ne_false hp)) (by simp [hl])
      have hen : s.arEn = false := by simp [arEn, hl]
      rw [hen] at har
      rw [pendingRead, hv, hp] at hr
      refine ⟨?_, ?_, ?_, ?_⟩
      · rw [har]
        cases he : s.arTakes e <;> simp [AxiLite.step, reads, arEn, rdataCommit, scheduleRe, hl, hv,
          hp, he]
      · rw [hr]
        simp [pendingRead, AxiLite.step, reads, rGives, rdataCommit, scheduleRe, hen, hv, hp]
      · simp [AxiLite.step, rdataCommit, hen, hv, hp]
      · simp [AxiLite.step, scheduleRe, hen]
  | true =>
      have hno : s.arTakes e = none := if_pos hl
      cases hv : s.rvalid with
      | true =>
          -- the data are there
          have hp := (hrvalid hv).2
          have hen : s.arEn = false := by simp [arEn, hv]
          rw [hen] at har
          rw [pendingRead, hv] at hr
          cases hready : e.1.rready <;>
            refine ⟨?_, ?_, ?_, ?_⟩ <;>
            simp [AxiLite.step, reads, arEn, rGives, rdataCommit, scheduleRe, pendingRead, hl, hv,
              hp, hno, hready, har, hr]
      | false =>
          cases hp : s.arPendingSched with
          | true =>
              -- the schedule memory has read
              have hen : s.arEn = false := by simp [arEn, hp]
              rw [hen] at har
              rw [pendingRead, hv, hp] at hr
              refine ⟨?_, ?_, ?_, ?_⟩ <;>
                simp [AxiLite.step, reads, arEn, rGives, rdataCommit, scheduleRe, pendingRead, hl,
                  hv, hp, hno, har, hr]
          | false =>
              -- the read is performed
              have hen : s.arEn = true := by simp [arEn, hl, hv, hp]
              rw [hen] at har
              rw [pendingRead, hv, hp] at hr
              cases hin : inSchedule s.rdAddr <;>
                refine ⟨?_, ?_, ?_, ?_⟩ <;>
                simp [AxiLite.step, reads, arEn, rGives, rdataCommit, scheduleRe, pendingRead,
                  value, SlotSchedule.step, SlotSchedule.axiRdata, hl, hv, hp, hno, hin, har, hr]

end Reading

/-! ## Runs -/

section Runs

variable (regs : σ) (es : List (AxiIn × ι))

/-- The state after a run. -/
def after : AxiLite σ := Run.exec (step bank) { regs := regs } es

/-- What was taken, performed and answered in a run. -/
def awTaken : List (BitVec 11) := Run.taken (step bank) awTakes { regs := regs } es

def wTaken : List (BitVec 32 × BitVec 4) := Run.taken (step bank) wTakes { regs := regs } es

def arTaken : List (BitVec 11) := Run.taken (step bank) arTakes { regs := regs } es

def bTaken : List Unit := Run.taken (step bank) bGives { regs := regs } es

def rTaken : List (BitVec 11 × BitVec 32) := Run.taken (step bank) rGives { regs := regs } es

def written : List AxiWrite := Run.taken (step bank) (fun s _ ↦ s.writes) { regs := regs } es

def found : List (BitVec 11 × BitVec 32) := Run.taken (step bank) (reads bank) { regs := regs } es

theorem writing_run : Writing (awTaken bank regs es) (wTaken bank regs es) (bTaken bank regs es)
    (written bank regs es) (after bank regs es) := by
  induction es using List.reverseRecOn with
  | nil => exact ⟨rfl, rfl, rfl⟩
  | append_singleton es e ih =>
      rw [awTaken, wTaken, bTaken, written, after, Run.taken_concat, Run.taken_concat,
        Run.taken_concat, Run.taken_concat, Run.exec_append]
      exact ih.step

theorem reading_run : Reading (arTaken bank regs es) (rTaken bank regs es) (found bank regs es)
    (after bank regs es) := by
  induction es using List.reverseRecOn with
  | nil => exact ⟨rfl, rfl, fun h ↦ Bool.noConfusion h, fun h ↦ Bool.noConfusion h⟩
  | append_singleton es e ih =>
      rw [arTaken, rTaken, found, after, Run.taken_concat, Run.taken_concat, Run.taken_concat,
        Run.exec_append]
      exact ih.step

end Runs

/-- **No request is lost, and none is answered twice.**  Whatever the master does: the writes that
are performed are the addresses that were taken with the data that were, in order, the reads are
those of the addresses that were taken, each write is answered once, and the data that are taken are
what the reads found; of each there is at most one on its way. -/
theorem transactions (regs : σ) (es : List (AxiIn × ι)) :
    ((written bank regs es).map (·.addr) <+: awTaken bank regs es ∧
      (awTaken bank regs es).length ≤ (written bank regs es).length + 1) ∧
    ((written bank regs es).map (fun w ↦ (w.data, w.strb)) <+: wTaken bank regs es ∧
      (wTaken bank regs es).length ≤ (written bank regs es).length + 1) ∧
    ((bTaken bank regs es).length ≤ (written bank regs es).length ∧
      (written bank regs es).length ≤ (bTaken bank regs es).length + 1) ∧
    ((found bank regs es).map (·.1) <+: arTaken bank regs es ∧
      rTaken bank regs es <+: found bank regs es ∧
      (arTaken bank regs es).length ≤ (rTaken bank regs es).length + 1) := by
  have hw := writing_run bank regs es
  have hr := reading_run bank regs es
  have hone : ∀ {α : Type _} (c : Bool) (x : α), (if c then [x] else []).length ≤ 1 := by
    intro α c x
    cases c <;> simp
  refine ⟨⟨?_, ?_⟩, ⟨?_, ?_⟩, ⟨?_, ?_⟩, ?_, ?_, ?_⟩
  · rw [hw.aw]
    exact List.prefix_append _ _
  · rw [hw.aw, List.length_append, List.length_map]
    exact Nat.add_le_add_left (hone _ _) _
  · rw [hw.w]
    exact List.prefix_append _ _
  · rw [hw.w, List.length_append, List.length_map]
    exact Nat.add_le_add_left (hone _ _) _
  · rw [hw.b]
    exact Nat.le_add_right _ _
  · rw [hw.b]
    split <;> omega
  · rw [hr.ar]
    exact List.prefix_append _ _
  · exact ⟨_, hr.r.symm⟩
  · have hlen := congrArg List.length hr.r
    rw [List.length_append] at hlen
    rw [hr.ar, List.length_append, List.length_map, hlen, Nat.add_assoc]
    refine Nat.add_le_add_left ?_ _
    rw [pendingRead]
    cases hv : (after bank regs es).rvalid <;> cases hp : (after bank regs es).arPendingSched <;>
      simp [arEn, hv, hp]
    exact hone _ _

/-! ## Every request is answered -/

/-- The master offers nothing, and takes what it is given. -/
structure Idle (e : AxiIn × ι) : Prop where
  awaddr : e.1.awaddr = none
  wdata : e.1.wdata = none
  araddr : e.1.araddr = none
  bready : e.1.bready = true
  rready : e.1.rready = true

/-- How many cycles a write may still take. -/
def writeWait : ℕ := (if s.awLatched && s.wLatched then 2 else 0) + if s.bvalid then 1 else 0

/-- How many cycles a read may still take. -/
def readWait : ℕ :=
  if s.arPendingSched then 2 else if s.rvalid then 1 else if s.arLatched then 3 else 0

section Idle

variable {s e}

theorem writeWait_step (h : Idle e) : (s.step bank e).writeWait = s.writeWait - 1 := by
  cases haw : s.awLatched <;> cases hw : s.wLatched <;> cases hb : s.bvalid <;>
    simp [writeWait, AxiLite.step, awTakes, wTakes, wrHandshake, h.awaddr, h.wdata, h.bready, haw,
      hw, hb]

theorem readWait_step (h : Idle e) : (s.step bank e).readWait ≤ s.readWait - 1 := by
  cases hp : s.arPendingSched <;> cases hv : s.rvalid <;> cases hl : s.arLatched <;>
    cases hin : inSchedule s.rdAddr <;>
    simp [readWait, AxiLite.step, arTakes, arEn, rdataCommit, scheduleRe, h.araddr, h.rready, hp,
      hv, hl, hin]

theorem wait_exec {es : List (AxiIn × ι)} (h : ∀ e ∈ es, Idle e) :
    (Run.exec (step bank) s es).writeWait ≤ s.writeWait - es.length ∧
      (Run.exec (step bank) s es).readWait ≤ s.readWait - es.length := by
  induction es generalizing s with
  | nil => exact ⟨Nat.le_refl _, Nat.le_refl _⟩
  | cons e es ih =>
      rw [List.forall_mem_cons] at h
      obtain ⟨hwrite, hread⟩ := ih (s := s.step bank e) h.2
      have h1 := writeWait_step bank (s := s) h.1
      have h2 := readWait_step bank (s := s) h.1
      rw [Run.exec_cons, List.length_cons]
      omega

end Idle

/-- **Every request is answered.**  Three cycles after the master stops, each write that it gave an
address and data for was performed and answered, and each read was. -/
theorem requests_answered (regs : σ) (es idle : List (AxiIn × ι)) (hidle : ∀ e ∈ idle, Idle e)
    (hlen : 3 ≤ idle.length) :
    (written bank regs (es ++ idle)).length =
        min (awTaken bank regs (es ++ idle)).length (wTaken bank regs (es ++ idle)).length ∧
      (bTaken bank regs (es ++ idle)).length = (written bank regs (es ++ idle)).length ∧
      (rTaken bank regs (es ++ idle)).map (·.1) = arTaken bank regs (es ++ idle) := by
  have hw := writing_run bank regs (es ++ idle)
  have hr := reading_run bank regs (es ++ idle)
  obtain ⟨hwrite, hread⟩ := wait_exec bank (s := after bank regs es) hidle
  rw [after, ← Run.exec_append] at hwrite hread
  have hwzero : (after bank regs (es ++ idle)).writeWait = 0 := by
    refine Nat.le_zero.1 (hwrite.trans (Nat.le_of_eq (Nat.sub_eq_zero_of_le (le_trans ?_ hlen))))
    rw [writeWait]
    split <;> split <;> omega
  have hrzero : (after bank regs (es ++ idle)).readWait = 0 := by
    refine Nat.le_zero.1 (hread.trans (Nat.le_of_eq (Nat.sub_eq_zero_of_le (le_trans ?_ hlen))))
    rw [readWait]
    split_ifs <;> omega
  generalize after bank regs (es ++ idle) = s at hw hr hwzero hrzero
  have hb : s.bvalid = false := by
    by_contra hb
    simp [writeWait, eq_true_of_ne_false hb] at hwzero
  have hnot : ¬(s.awLatched = true ∧ s.wLatched = true) := by
    rintro ⟨haw, hwl⟩
    simp [writeWait, haw, hwl] at hwzero
  have hp : s.arPendingSched = false := by
    by_contra hp
    simp [readWait, eq_true_of_ne_false hp] at hrzero
  have hv : s.rvalid = false := by
    by_contra hv
    simp [readWait, hp, eq_true_of_ne_false hv] at hrzero
  have hl : s.arLatched = false := by
    by_contra hl
    simp [readWait, hp, hv, eq_true_of_ne_false hl] at hrzero
  refine ⟨?_, ?_, ?_⟩
  · rw [hw.aw, hw.w, List.length_append, List.length_append, List.length_map, List.length_map]
    cases haw : s.awLatched <;> cases hwl : s.wLatched <;> simp_all
  · rw [hw.b, hb]
    rfl
  · have hdone := hr.r
    rw [pendingRead, hv, hp] at hdone
    rw [hr.ar, hdone, arEn, hl]
    simp

/-! ## The schedule as a memory -/

/-- What a write leaves. -/
def store (mem : BitVec 9 → BitVec 16) (w : AxiWrite) : BitVec 9 → BitVec 16 := fun idx ↦
  if inSchedule w.addr ∧ idx.extractLsb' 1 8 = row w.addr then
    if idx.getLsbD 0 then
      if w.strb.extractLsb' 2 2 ≠ 0 then w.data.extractLsb' 16 16 else mem idx
    else
      if w.strb.extractLsb' 0 2 ≠ 0 then w.data.extractLsb' 0 16 else mem idx
  else mem idx

/-- The word under an address. -/
def load (mem : BitVec 9 → BitVec 16) (addr : BitVec 11) : BitVec 32 :=
  mem (row addr ++ 1#1) ++ mem (row addr ++ 0#1)

theorem load_scheduleEntry (m : SlotSchedule) (addr : BitVec 11) :
    load m.scheduleEntry addr = m.memHi (row addr) ++ m.memLo (row addr) := by
  have hodd : (row addr ++ 1#1).getLsbD 0 = true := by rw [BitVec.getLsbD_append]; rfl
  have heven : (row addr ++ 0#1).getLsbD 0 = false := by rw [BitVec.getLsbD_append]; rfl
  have hrow : ∀ b : BitVec 1, (row addr ++ b).extractLsb' 1 8 = row addr := by
    intro b
    ext k hk
    rw [BitVec.getElem_extractLsb', BitVec.getLsbD_append, Nat.add_comm 1 k,
      if_neg (Nat.not_lt_of_le (Nat.le_add_left 1 k)), Nat.add_sub_cancel,
      BitVec.getLsbD_eq_getElem hk]
  rw [load, SlotSchedule.scheduleEntry, SlotSchedule.scheduleEntry, if_pos hodd,
    if_neg (Bool.eq_false_iff.1 heven), hrow, hrow]

/-- **The writes that are performed are stores**, whatever is read. -/
theorem scheduleEntry_step : (s.step bank e).sched.scheduleEntry =
    s.writes.toList.foldl store s.sched.scheduleEntry := by
  cases hd : s.wrHandshake with
  | false =>
      have hno : s.wrEnSched = false := by rw [wrEnSched, hd, Bool.false_and]
      simp only [writes, hd, AxiLite.step, SlotSchedule.step, hno]
      rfl
  | true =>
      rw [writes, if_pos hd]
      funext idx
      cases hin : inSchedule s.wrAddr with
      | false =>
          have hno : s.wrEnSched = false := by rw [wrEnSched, hin, Bool.and_false]
          simp [AxiLite.step, SlotSchedule.step, SlotSchedule.scheduleEntry, store, hno, hin]
      | true =>
          have hyes : s.wrEnSched = true := by rw [wrEnSched, hd, hin, Bool.and_self]
          by_cases hrow : idx.extractLsb' 1 8 = row s.wrAddr <;>
            cases hbit : idx[0] <;>
            by_cases hhi : s.wrStrb.extractLsb' 2 2 = 0#2 <;>
            by_cases hlo : s.wrStrb.extractLsb' 0 2 = 0#2 <;>
            simp [AxiLite.step, SlotSchedule.step, SlotSchedule.scheduleEntry, store, scheduleAddr,
              hyes, hin, hrow, hbit, hhi, hlo]

/-- The master waits: no address for a read while a write is under way, and no write while a read
is. -/
def Serial (s : AxiLite σ) (e : AxiIn × ι) : Prop :=
  (e.1.araddr.isSome → s.awLatched = false ∧ s.wLatched = false ∧ e.1.awaddr = none ∧
      e.1.wdata = none) ∧
    (s.arLatched = true → e.1.awaddr = none ∧ e.1.wdata = none)

/-- No write is under way while a read is, and what the read found is still there. -/
structure Settled (s : AxiLite σ) : Prop where
  apart : s.arLatched = true → s.awLatched = false ∧ s.wLatched = false
  fresh : ∀ p ∈ s.pendingRead, inSchedule p.1 = true → p.2 = load s.sched.scheduleEntry p.1

section Serial

variable {bank s e} {ar : List (BitVec 11)} {r rs : List (BitVec 11 × BitVec 32)}

instance decidableSerial : Decidable (Serial s e) := inferInstanceAs (Decidable (_ ∧ _))

theorem Settled.step (h : Settled s) (hr : Reading ar r rs s) (he : Serial s e) :
    Settled (s.step bank e) := by
  obtain ⟨hread, hwrite⟩ := he
  refine ⟨fun hl' ↦ ?_, fun p hp hin ↦ ?_⟩
  · have hnone : s.awLatched = false ∧ s.wLatched = false ∧ e.1.awaddr = none ∧
        e.1.wdata = none := by
      cases hl : s.arLatched with
      | false =>
          refine hread ?_
          simpa [AxiLite.step, arTakes, hl] using hl'
      | true => exact ⟨(h.apart hl).1, (h.apart hl).2, hwrite hl⟩
    obtain ⟨haw, hw, haddr, hdata⟩ := hnone
    simp [AxiLite.step, awTakes, wTakes, haw, hw, haddr, hdata]
  · cases hl : s.arLatched with
    | false =>
        -- nothing is being read
        have hv : s.rvalid = false := by
          by_contra hv
          exact absurd (hr.rvalid (eq_true_of_ne_false hv)).1 (by simp [hl])
        have hpend : s.arPendingSched = false := by
          by_contra hpend
          exact absurd (hr.pending (eq_true_of_ne_false hpend)) (by simp [hl])
        simp [pendingRead, AxiLite.step, rdataCommit, scheduleRe, arEn, hl, hv, hpend] at hp
    | true =>
        obtain ⟨haw, -⟩ := h.apart hl
        have hno : s.wrHandshake = false := by simp [wrHandshake, haw]
        have hsched : (s.step bank e).sched.scheduleEntry = s.sched.scheduleEntry := by
          rw [scheduleEntry_step, writes, hno]
          rfl
        have haddr : (s.step bank e).rdAddr = s.rdAddr := by simp [AxiLite.step, arTakes, hl]
        rw [hsched]
        cases hv : s.rvalid with
        | true =>
            -- the data stay
            have hpend := (hr.rvalid hv).2
            have hkept : p ∈ s.pendingRead := by
              rw [pendingRead, haddr] at hp
              rw [pendingRead, hv]
              simp [AxiLite.step, rdataCommit, scheduleRe, arEn, hl, hv, hpend] at hp ⊢
              exact hp.2
            exact h.fresh p hkept hin
        | false =>
            cases hpend : s.arPendingSched with
            | true =>
                -- the data of the memory are taken over
                have hkept : p ∈ s.pendingRead := by
                  rw [pendingRead, haddr] at hp
                  rw [pendingRead, hv, hpend]
                  simpa [AxiLite.step, rdataCommit, scheduleRe, arEn, hl, hv, hpend] using hp
                exact h.fresh p hkept hin
            | false =>
                -- the read is performed
                have hen : s.arEn = true := by simp [arEn, hl, hv, hpend]
                rw [pendingRead, haddr] at hp
                cases hsel : inSchedule s.rdAddr with
                | false =>
                    simp [AxiLite.step, rdataCommit, hen, hsel] at hp
                    rw [hp, hsel] at hin
                    exact Bool.noConfusion hin
                | true =>
                    simp [AxiLite.step, rdataCommit, scheduleRe, hen, hsel, hv, hpend] at hp
                    rw [hp, load_scheduleEntry]
                    simp [SlotSchedule.axiRdata, SlotSchedule.step, scheduleAddr, wrEnSched, hno]

theorem settled_run {regs : σ} {es : List (AxiIn × ι)}
    (hs : Run.Along (AxiLite.step bank) Serial { regs := regs } es) :
    Settled (after bank regs es) := by
  induction es using List.reverseRecOn with
  | nil => exact ⟨fun h ↦ Bool.noConfusion h, fun p hp ↦ absurd hp List.not_mem_nil⟩
  | append_singleton es e ih =>
      obtain ⟨hes, he, -⟩ := (Run.along_append _ _ _).1 hs
      rw [after, Run.exec_append]
      exact (ih hes).step (reading_run bank regs es) he

/-- The content of the memory is what the writes have left, in any run. -/
theorem scheduleEntry_run (regs : σ) (es : List (AxiIn × ι)) :
    (after bank regs es).sched.scheduleEntry = (written bank regs es).foldl store fun _ ↦ 0 := by
  induction es using List.reverseRecOn with
  | nil => funext idx; simp [after, written, SlotSchedule.scheduleEntry]
  | append_singleton es e ih =>
      rw [after, written, Run.taken_concat, Run.exec_append, List.foldl_append]
      exact (scheduleEntry_step bank _ e).trans (congrArg (fun mem ↦ List.foldl store mem _) ih)

end Serial

/-- The writes of the addresses and data that were taken. -/
def issue (addr : BitVec 11) (d : BitVec 32 × BitVec 4) : AxiWrite := ⟨addr, d.1, d.2⟩

/-- **For a master that waits the schedule is a memory.**  Whenever data from its window are taken,
they are what the writes taken before have left there, in order. -/
theorem sequential (regs : σ) (es : List (AxiIn × ι)) (e : AxiIn × ι) (addr : BitVec 11)
    (data : BitVec 32) (hs : Run.Along (step bank) Serial { regs := regs } es)
    (hr : (after bank regs es).rGives e = some (addr, data)) (ha : inSchedule addr = true) :
    data = load ((List.zipWith issue (awTaken bank regs es) (wTaken bank regs es)).foldl store
      fun _ ↦ 0) addr := by
  have hsettled := settled_run hs
  have hread := reading_run bank regs es
  have hwrite := writing_run bank regs es
  have hv : (after bank regs es).rvalid = true ∧
      (addr, data) = ((after bank regs es).rdAddr, (after bank regs es).rdata) := by
    rw [rGives] at hr
    split at hr
    · rename_i hv
      rw [Bool.and_eq_true] at hv
      exact ⟨hv.1, (Option.some.inj hr).symm⟩
    · cases hr
  obtain ⟨haw, hw⟩ := hsettled.apart (hread.rvalid hv.1).1
  have hmem : (addr, data) ∈ (after bank regs es).pendingRead := by
    rw [pendingRead, if_pos hv.1, hv.2]
    exact List.mem_singleton_self _
  have hzip : List.zipWith issue (awTaken bank regs es) (wTaken bank regs es) =
      written bank regs es := by
    rw [hwrite.aw, hwrite.w, haw, hw]
    simp [List.zipWith_map, List.zipWith_self, issue]
  rw [hzip, ← scheduleEntry_run]
  exact hsettled.fresh _ hmem ha

/-- **For one that does not it is none**: a read that is performed in the cycle of a write finds the
word at the address of the write, as the writes before have left it. -/
theorem reads_of_wrEnSched (regs : σ) (es : List (AxiIn × ι)) (e : AxiIn × ι)
    (hw : (after bank regs es).wrEnSched = true) (hr : (after bank regs es).arEn = true)
    (ha : inSchedule (after bank regs es).rdAddr = true) :
    (after bank regs es).reads bank e = some ((after bank regs es).rdAddr,
      load ((written bank regs es).foldl store fun _ ↦ 0) (after bank regs es).wrAddr) := by
  rw [reads, if_pos hr, value, if_pos ha, scheduleAddr, if_pos hw, ← scheduleEntry_run,
    load_scheduleEntry]

/-- A bus with nothing but the schedule. -/
def noRegisters : RegisterBank Unit Unit := ⟨fun _ _ _ ↦ (), fun _ _ _ ↦ 0⟩

/-- A word is written, data first, and read back. -/
def readBack : List (AxiIn × Unit) :=
  [({ wdata := some (0x00D6100C, 0xF) }, ()), ({ awaddr := some 0x43C00404 }, ()), ({}, ()),
    ({ bready := true }, ()), ({ araddr := some 0x43C00404 }, ()), ({}, ()), ({}, ())]

theorem sequential_readBack : (0x00D6100C : BitVec 32) =
    load ((List.zipWith issue (awTaken noRegisters () readBack)
      (wTaken noRegisters () readBack)).foldl store fun _ ↦ 0) 0x404 :=
  sequential noRegisters () readBack ({ rready := true }, ()) 0x404 0x00D6100C (by decide)
    (by decide) (by decide)

/-- The data are taken while the master does nothing else. -/
theorem requests_answered_readBack :
    (rTaken noRegisters () (readBack ++ List.replicate 3
        ({ bready := true, rready := true }, ()))).map (·.1) =
      arTaken noRegisters () (readBack ++ List.replicate 3
        ({ bready := true, rready := true }, ())) :=
  (requests_answered noRegisters () readBack _ (fun e he ↦ by
    rw [List.eq_of_mem_replicate he]
    exact ⟨rfl, rfl, rfl, rfl, rfl⟩) (by decide)).2.2

/-- Both ways at once, after it: a write, and a read of the next word. -/
def bothWays : List (AxiIn × Unit) :=
  [({ rready := true }, ()),
    ({ awaddr := some 0x43C00404, wdata := some (0, 0xF), araddr := some 0x43C00408 }, ()),
    ({}, ()), ({}, ()), ({ rready := true }, ())]

/-- A master that does not wait reads the word of the write. -/
example : rTaken noRegisters () (readBack ++ bothWays) =
    [(0x404, 0x00D6100C), (0x408, 0x00D6100C)] := by
  decide

end AxiLite

end TetraPhy.Infra
