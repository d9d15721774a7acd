import TetraPhy.Lib.Run
import TetraPhy.Lmac.HalfSlotReplies

/-!
# The account of the slot grants

The slot grant of `tetra_pre_reply_slotgrant.v` takes two kinds of triggers, first fragments and
requests of the software, each by its edge.  An edge is to become a slot grant for the SSI that
stands at the port in its cycle, or is to be counted as dropped.  What the FSM makes of it depends
on its state:

| State          | first fragment                            | request of the software |
|----------------|-------------------------------------------|-------------------------|
| `idle`         | granted, or dropped for its PDU type, or  | granted                 |
|                | **lost** if a request comes with it       |                         |
| `build`, `enc` | dropped                                   | **lost**                |
| `push`         | **lost**                                  | **lost**                |

`GrantAudit` runs the slot grant beside a record of the edges and of the grants, and
`GrantAudit.edges_accounted_iff` says which runs balance.
-/

namespace TetraPhy.Lmac

open Run

/-- The edge a slot grant answers. -/
structure GrantOrigin where
  software : Bool := false
  ssi : BitVec 24 := 0
deriving DecidableEq

/-- A slot grant that was pushed: its edge, the PDU that the encoder was given and the block it gave
back, and the write. -/
structure PushedGrant where
  origin : GrantOrigin
  info : BitVec 124
  coded : BitVec 216
  port : WrPort

/-- It is for the terminal of its edge, and carries the encoder's block. -/
structure PushedGrant.Right (g : PushedGrant) : Prop where
  addressed : g.info.extractLsb' 84 24 = g.origin.ssi
  carried : g.port.coded = g.coded ++ 0#216

/-- The slot grant and its record: the edges that have come, the edge it is at work for, the last
job of the encoder, and the grants pushed. -/
structure GrantAudit where
  slotgrant : PreReplySlotgrant := {}
  fragEdges : ℕ := 0
  swEdges : ℕ := 0
  origin : GrantOrigin := {}
  job : BitVec 124 × BitVec 216 := (0, 0)
  pushed : List PushedGrant := []

namespace GrantAudit

variable (o : GrantAudit) (i : SlotgrantIn)

/-- The edge an idle slot grant would take: the software's request has precedence. -/
def taken : GrantOrigin :=
  if o.slotgrant.swGrantEdge i then ⟨true, i.swGrantSsi⟩ else ⟨false, i.ulSsi⟩

/-- One clock edge. -/
def step : GrantAudit where
  slotgrant := o.slotgrant.step i
  fragEdges := o.fragEdges + (o.slotgrant.frag1Edge i).toNat
  swEdges := o.swEdges + (o.slotgrant.swGrantEdge i).toNat
  origin := if o.slotgrant.fsm.state = .idle then o.taken i else o.origin
  job := if o.slotgrant.fsm.state = .enc ∧ i.encDone then
    (o.slotgrant.builder.pduBits, i.encCoded) else o.job
  pushed := if (o.slotgrant.step i).fsm.wrValid then
    o.pushed ++ [⟨o.origin, o.job.1, o.job.2, (o.slotgrant.step i).wrPort⟩] else o.pushed

/-- The slot grants pushed for requests of the software, and for first fragments. -/
def pushedFor (software : Bool) : ℕ := o.pushed.countP (·.origin.software == software)

/-- **The account is settled**: no edge is missing. -/
structure Accounted : Prop where
  frag : o.fragEdges = o.pushedFor false + o.slotgrant.fsm.dropCnt.toNat
  software : o.swEdges = o.pushedFor true
  right : ∀ g ∈ o.pushed, g.Right

/-- No edge of the cycle is lost: the software requests while the slot grant is idle and no first
fragment comes, and no first fragment comes at a push. -/
def Lossless : Prop :=
  (o.slotgrant.swGrantEdge i = true →
    o.slotgrant.fsm.state = .idle ∧ o.slotgrant.frag1Edge i = false) ∧
  (o.slotgrant.frag1Edge i = true → o.slotgrant.fsm.state ≠ .push)

instance : Decidable (o.Lossless i) := inferInstanceAs (Decidable (_ ∧ _))

/-! ## What a cycle does -/

variable {i}

section

variable {s : PreReplySlotgrant}

/-- A trigger is the software's, or that of a first fragment that comes alone. -/
theorem of_trigger {l : SlotgrantLat} (h : s.trigger i = some l) :
    s.swGrantEdge i = true ∧ l.ssi = i.swGrantSsi ∨
      s.swGrantEdge i = false ∧ s.frag1Edge i = true ∧ l.ssi = i.ulSsi := by
  rw [PreReplySlotgrant.trigger] at h
  by_cases hsw : s.swGrantEdge i = true
  · rw [if_pos hsw] at h
    cases h
    exact .inl ⟨hsw, rfl⟩
  · rw [if_neg hsw] at h
    by_cases hfrag : (s.frag1Edge i && i.mmAccept) = true
    · rw [if_pos hfrag] at h
      cases h
      exact .inr ⟨Bool.eq_false_of_not_eq_true hsw, (Bool.and_eq_true_iff.1 hfrag).1, rfl⟩
    · rw [if_neg hfrag] at h
      nomatch h

variable (s i)

/-- **A cycle of the FSM**: a trigger is taken, or the slot grant stays idle, or it is at work, or
it pushes. -/
theorem step_cases :
    (s.fsm.state = .idle ∧ ∃ l, s.trigger i = some l ∧ (s.step i).fsm =
      { s.fsm with lat := l, builderStart := true, wrValid := false, state := .build }) ∨
    (s.fsm.state = .idle ∧ s.trigger i = none ∧ (s.step i).fsm = { s.fsm with
      builderStart := false, wrValid := false, dropCnt := count (s.frag1Edge i) s.fsm.dropCnt }) ∨
    ((s.fsm.state = .build ∨ s.fsm.state = .enc) ∧ (s.step i).fsm.state ≠ .idle ∧
      ((s.step i).fsm.state = .push →
        s.fsm.state = .enc ∧ i.encDone = true ∧ (s.step i).fsm.latCoded = i.encCoded) ∧
      (s.step i).fsm.lat = s.fsm.lat ∧ (s.step i).fsm.wrValid = false ∧
      (s.step i).fsm.dropCnt = count (s.frag1Edge i) s.fsm.dropCnt) ∨
    (s.fsm.state = .push ∧ (s.step i).fsm = { s.fsm with
      builderStart := false, wrValid := true, pushCnt := count true s.fsm.pushCnt,
      state := .idle }) := by
  rcases hs : s.fsm.state with _ | _ | _ | _
  · rcases ht : s.trigger i with _ | l
    · refine .inr (.inl ⟨rfl, rfl, ?_⟩)
      simp [PreReplySlotgrant.step, ReplyFsm.step, PreReplySlotgrant.replyIn, hs, ht]
    · refine .inl ⟨rfl, l, rfl, ?_⟩
      simp [PreReplySlotgrant.step, ReplyFsm.step, PreReplySlotgrant.replyIn, hs, ht]
  · refine .inr (.inr (.inl ⟨.inl rfl, ?_⟩))
    cases hb : s.builder.valid <;>
      simp [PreReplySlotgrant.step, ReplyFsm.step, PreReplySlotgrant.replyIn, hs, hb]
  · refine .inr (.inr (.inl ⟨.inr rfl, ?_⟩))
    cases hd : i.encDone <;>
      simp [PreReplySlotgrant.step, ReplyFsm.step, PreReplySlotgrant.replyIn, hs, hd]
  · refine .inr (.inr (.inr ⟨rfl, ?_⟩))
    simp [PreReplySlotgrant.step, ReplyFsm.step, hs]

end

/-! ## The invariant -/

/-- The edge it is at work for, if it is for one of this kind. -/
def pending (software : Bool) : ℕ :=
  if o.slotgrant.fsm.state ≠ .idle ∧ o.origin.software = software then 1 else 0

/-- What the FSM is at work for is what it took. -/
structure Inv : Prop where
  built : Watched.Built o.slotgrant
  taken : o.slotgrant.fsm.state ≠ .idle → o.slotgrant.fsm.lat.ssi = o.origin.ssi
  job : o.slotgrant.fsm.state = .push →
    o.job = (o.slotgrant.fsm.lat.pdu, o.slotgrant.fsm.latCoded)
  right : ∀ g ∈ o.pushed, g.Right

variable {o}

theorem inv_init : Inv {} where
  built := ⟨rfl, rfl, rfl, rfl⟩
  taken h := absurd rfl h
  job h := nomatch h
  right _ hg := absurd hg List.not_mem_nil

/-- What it works for next. -/
theorem step_origin : (o.step i).origin =
    if o.slotgrant.fsm.state = .idle then o.taken i else o.origin := rfl

theorem step_pushed : (o.step i).pushed = if (o.slotgrant.step i).fsm.wrValid then
    o.pushed ++ [⟨o.origin, o.job.1, o.job.2, (o.slotgrant.step i).wrPort⟩] else o.pushed := rfl

theorem step_job : (o.step i).job = if o.slotgrant.fsm.state = .enc ∧ i.encDone then
    (o.slotgrant.builder.pduBits, i.encCoded) else o.job := rfl

/-- A trigger is latched with the SSI of its edge. -/
theorem taken_of_trigger {l : SlotgrantLat} (h : o.slotgrant.trigger i = some l) :
    l.ssi = (o.taken i).ssi := by
  rcases of_trigger h with ⟨hsw, hssi⟩ | ⟨hsw, -, hssi⟩
  · rw [taken, if_pos hsw, hssi]
  · rw [taken, hsw, hssi]
    rfl

/-- A push is right. -/
theorem Inv.right_push (h : Inv o) (hs : o.slotgrant.fsm.state = .push) :
    PushedGrant.Right ⟨o.origin, o.job.1, o.job.2, (o.slotgrant.step i).wrPort⟩ := by
  have hjob := h.job hs
  have hcoded : (o.slotgrant.step i).fsm.latCoded = o.slotgrant.fsm.latCoded := by
    simp [PreReplySlotgrant.step, ReplyFsm.step, hs]
  constructor
  · rw [hjob, o.slotgrant.fsm.lat.addressed.2.1, h.taken (by rw [hs]; decide)]
  · rw [PreReplySlotgrant.wrPort, hcoded, hjob]

theorem Inv.taken_step (h : Inv o) (hs' : (o.slotgrant.step i).fsm.state ≠ .idle) :
    (o.slotgrant.step i).fsm.lat.ssi = (o.step i).origin.ssi := by
  rcases step_cases i o.slotgrant with ⟨hs, l, ht, hf⟩ | ⟨hs, ht, hf⟩ |
    ⟨hs, -, -, hlat, -, -⟩ | ⟨hs, hf⟩
  · rw [step_origin, if_pos hs, ← taken_of_trigger ht, hf]
  · rw [hf] at hs'
    exact absurd hs hs'
  · have hne : o.slotgrant.fsm.state ≠ .idle := by rcases hs with hs | hs <;> simp [hs]
    rw [step_origin, if_neg hne, hlat, h.taken hne]
  · rw [hf] at hs'
    exact absurd rfl hs'

theorem Inv.job_step (h : Inv o) (hs' : (o.slotgrant.step i).fsm.state = .push) :
    (o.step i).job =
      ((o.slotgrant.step i).fsm.lat.pdu, (o.slotgrant.step i).fsm.latCoded) := by
  rcases step_cases i o.slotgrant with ⟨hs, l, ht, hf⟩ | ⟨hs, ht, hf⟩ |
    ⟨hs, -, hpush, hlat, -, -⟩ | ⟨hs, hf⟩
  · rw [hf] at hs'
    cases hs'
  · rw [hf] at hs'
    cases hs.symm.trans hs'
  · obtain ⟨henc, hdone, hcoded⟩ := hpush hs'
    have hbuilt := h.built
    simp only [Watched.Built, henc] at hbuilt
    rw [step_job, if_pos ⟨henc, hdone⟩, hlat, hcoded, hbuilt.2.2.2.2]
  · rw [hf] at hs'
    cases hs'

theorem wrValid_step : (o.slotgrant.step i).fsm.wrValid = true ↔ o.slotgrant.fsm.state = .push :=
  ReplyFsm.wrValid_step

theorem Inv.right_step (h : Inv o) (i : SlotgrantIn) : ∀ g ∈ (o.step i).pushed, g.Right := by
  intro g hg
  rw [step_pushed] at hg
  split_ifs at hg with hw
  · rcases List.mem_append.1 hg with hg | hg
    · exact h.right g hg
    · rw [List.mem_singleton.1 hg]
      exact h.right_push (wrValid_step.1 hw)
  · exact h.right g hg

theorem Inv.step (h : Inv o) (i : SlotgrantIn) : Inv (o.step i) :=
  ⟨h.built.step i, h.taken_step, h.job_step, h.right_step i⟩

/-! ## The accounts -/

/-- The grants of one kind, those at work included. -/
def settled (o : GrantAudit) (software : Bool) : ℕ := o.pushedFor software + o.pending software

/-- A cycle in which a trigger of one kind is taken. -/
def takes (o : GrantAudit) (i : SlotgrantIn) (software : Bool) : Bool :=
  o.slotgrant.fsm.state == .idle && (o.slotgrant.trigger i).isSome &&
    (o.taken i).software == software

theorem pushedFor_step (software : Bool) : (o.step i).pushedFor software = o.pushedFor software +
    if o.slotgrant.fsm.state = .push ∧ o.origin.software = software then 1 else 0 := by
  rw [pushedFor, step_pushed]
  by_cases hs : o.slotgrant.fsm.state = .push
  · rw [if_pos (wrValid_step.2 hs), List.countP_append, List.countP_singleton]
    simp [pushedFor, hs]
  · rw [if_neg (mt wrValid_step.1 hs), if_neg fun h ↦ hs h.1]
    rfl

/-- **Taking a trigger is all that settles an edge**: at the push it only changes the side. -/
theorem settled_step (software : Bool) :
    (o.step i).settled software = o.settled software + (o.takes i software).toNat := by
  rw [settled, settled, pushedFor_step, pending, pending, step_origin, takes]
  change _ + (if (o.slotgrant.step i).fsm.state ≠ _ ∧ _ then _ else _) = _
  rcases step_cases i o.slotgrant with ⟨hs, l, ht, hf⟩ | ⟨hs, ht, hf⟩ | ⟨hs, hbusy, -⟩ | ⟨hs, hf⟩
  · by_cases hk : (o.taken i).software = software <;> simp [hs, ht, hf, hk]
  · simp [hs, ht, hf]
  · have hne : o.slotgrant.fsm.state ≠ .idle := by rcases hs with hs | hs <;> simp [hs]
    have hpush : o.slotgrant.fsm.state ≠ .push := by rcases hs with hs | hs <;> simp [hs]
    simp [hne, hpush, hbusy]
  · simp [hs, hf]

/-- The drop counter is not saturated. -/
def Counting (o : GrantAudit) : Prop := o.slotgrant.fsm.dropCnt ≠ 0xFFFF

/-- The first fragments that are counted as dropped. -/
def drops (o : GrantAudit) (i : SlotgrantIn) : Bool :=
  o.slotgrant.frag1Edge i && match o.slotgrant.fsm.state with
    | .idle => (o.slotgrant.trigger i).isNone
    | .build | .enc => true
    | .push => false

theorem dropCnt_step : (o.step i).slotgrant.fsm.dropCnt =
    count (o.drops i) o.slotgrant.fsm.dropCnt := by
  change (o.slotgrant.step i).fsm.dropCnt = _
  rw [drops]
  rcases step_cases i o.slotgrant with ⟨hs, l, ht, hf⟩ | ⟨hs, ht, hf⟩ |
    ⟨hs, -, -, -, -, hdrop⟩ | ⟨hs, hf⟩
  · simp [hs, ht, hf, count]
  · simp [hs, ht, hf]
  · rcases hs with hs | hs <;> simp [hs, hdrop]
  · simp [hs, hf, count]

/-- Below saturation a count is exact. -/
theorem of_count_ne {e : Bool} {c : BitVec 16} (h : count e c ≠ 0xFFFF) :
    c ≠ 0xFFFF ∧ (count e c).toNat = c.toNat + e.toNat := by
  have hc : c ≠ 0xFFFF := by
    rintro rfl
    cases e <;> exact h rfl
  refine ⟨hc, ?_⟩
  have hne : c.toNat ≠ 65535 := fun hn ↦ hc (BitVec.eq_of_toNat_eq hn)
  have hlt := c.isLt
  cases e with
  | false => rfl
  | true =>
      rw [count, if_pos (by simpa using hc), BitVec.toNat_add_of_lt]
      · rfl
      · change c.toNat + 1 < _
        omega

theorem Counting.of_step (h : (o.step i).Counting) : o.Counting := by
  rw [Counting, dropCnt_step] at h
  exact (of_count_ne h).1

/-- A first fragment's edge that is lost. -/
def fragLoss (o : GrantAudit) (i : SlotgrantIn) : ℕ :=
  (o.slotgrant.frag1Edge i && (o.slotgrant.fsm.state == .push ||
    o.slotgrant.fsm.state == .idle && o.slotgrant.swGrantEdge i)).toNat

/-- A request of the software that is lost. -/
def swLoss (o : GrantAudit) (i : SlotgrantIn) : ℕ :=
  (o.slotgrant.swGrantEdge i && o.slotgrant.fsm.state != .idle).toNat

theorem isSome_trigger (s : PreReplySlotgrant) : (s.trigger i).isSome =
    (s.swGrantEdge i || s.frag1Edge i && i.mmAccept) := by
  rw [PreReplySlotgrant.trigger]
  cases s.swGrantEdge i with
  | true => rfl
  | false => cases s.frag1Edge i && i.mmAccept <;> rfl

theorem software_taken : (o.taken i).software = o.slotgrant.swGrantEdge i := by
  rw [taken]
  cases o.slotgrant.swGrantEdge i <;> rfl

/-- **A request** is taken or lost. -/
theorem sw_account :
    (o.step i).swEdges + o.settled true = o.swEdges + ((o.step i).settled true + o.swLoss i) := by
  have hkind : (o.slotgrant.swGrantEdge i).toNat = (o.takes i true).toNat + o.swLoss i := by
    rw [takes, swLoss, isSome_trigger, software_taken]
    cases o.slotgrant.swGrantEdge i with
    | false => simp
    | true => cases o.slotgrant.fsm.state <;> rfl
  rw [settled_step]
  change o.swEdges + _ + _ = _
  omega

/-- What has become of the first fragments. -/
def fragPaid (o : GrantAudit) : ℕ := o.settled false + o.slotgrant.fsm.dropCnt.toNat

/-- **A first fragment** is taken, counted as dropped, or lost. -/
theorem frag_account (hc : (o.step i).Counting) : (o.step i).fragEdges + o.fragPaid =
    o.fragEdges + ((o.step i).fragPaid + o.fragLoss i) := by
  have hkind : (o.slotgrant.frag1Edge i).toNat =
      (o.takes i false).toNat + (o.drops i).toNat + o.fragLoss i := by
    rw [takes, drops, fragLoss, ← Option.not_isSome, isSome_trigger, software_taken]
    cases o.slotgrant.frag1Edge i with
    | false => cases o.slotgrant.swGrantEdge i <;> simp
    | true =>
        cases o.slotgrant.fsm.state with
        | idle => cases o.slotgrant.swGrantEdge i <;> cases i.mmAccept <;> rfl
        | build | enc | push => rfl
  rw [Counting, dropCnt_step] at hc
  rw [fragPaid, fragPaid, settled_step, dropCnt_step, (of_count_ne hc).2]
  change o.fragEdges + _ + _ = _
  omega

/-- A cycle is lossless if neither kind has a loss. -/
theorem noLoss_iff : o.Lossless i ↔ o.fragLoss i = 0 ∧ o.swLoss i = 0 := by
  rw [Lossless, fragLoss, swLoss, Bool.toNat_eq_zero, Bool.toNat_eq_zero]
  cases o.slotgrant.fsm.state <;> cases o.slotgrant.swGrantEdge i <;>
    cases o.slotgrant.frag1Edge i <;> decide

/-! ## The result -/

/-- An idle slot grant is at work for nothing. -/
theorem settled_of_idle (h : o.slotgrant.fsm.state = .idle) (software : Bool) :
    o.settled software = o.pushedFor software := by
  rw [settled, pending, if_neg fun hs ↦ hs.1 h]
  rfl

/-- **The account of the slot grants.**  Whenever the slot grant is idle and the drop counter is not
saturated, the account is settled exactly if no edge of the run was lost. -/
theorem edges_accounted_iff (is : List SlotgrantIn)
    (hidle : (exec step {} is).slotgrant.fsm.state = .idle)
    (hcnt : (exec step {} is).slotgrant.fsm.dropCnt ≠ 0xFFFF) :
    (exec step {} is).Accounted ↔ Along step Lossless {} is := by
  have hcounting := (Arrears.along_of_last step (U := Counting) (fun _ _ ↦ Counting.of_step) hcnt).2
  have hfrag := Arrears.paid_up_iff step fragEdges fragPaid (fun _ _ ↦ frag_account) rfl hcounting
  have hsw := Arrears.paid_up_iff step swEdges (settled · true) (fun _ _ _ ↦ sw_account) rfl
    hcounting
  have hinv : Inv (exec step {} is) := exec_induction step (fun _ i h ↦ h.step i) inv_init is
  have hlossless : Along step Lossless {} is ↔ Along step (fun o i ↦ o.fragLoss i = 0) {} is ∧
      Along step (fun o i ↦ o.swLoss i = 0) {} is := by
    rw [← along_and]
    exact along_congr step (I := fun _ ↦ True) (fun _ _ _ ↦ trivial) (fun _ _ _ ↦ noLoss_iff)
      trivial is
  rw [hlossless, ← hfrag, ← hsw, fragPaid, settled_of_idle hidle, settled_of_idle hidle]
  exact ⟨fun h ↦ ⟨h.frag, h.software⟩, fun h ↦ ⟨h.1, h.2, hinv.right⟩⟩

/-! ## Runs of ten cycles -/

/-- A trigger, another event `k` cycles later, and the encoder's answer in the ninth cycle: the
slot grant pushes in the tenth. -/
def tenCycles (first later : SlotgrantIn) (k : ℕ) : List SlotgrantIn :=
  first :: (List.range 9).map fun n ↦ if n + 1 = k then later else { encDone := n = 7 }

/-- A first fragment of the terminal `ssi`, and a request of the software. -/
def fragment (ssi : BitVec 24) : SlotgrantIn :=
  { frag1Pulse := true, mmPduType := 2, ulSsi := ssi }

def request (ssi : BitVec 24) : SlotgrantIn := { swGrantPulse := true, swGrantSsi := ssi }

/-- A fragment during `build` is counted, and a request after the push is granted. -/
theorem busyRun_accounted : (exec step {} (tenCycles (fragment 5) (fragment 6) 4 ++
    tenCycles (request 9) {} 1)).Accounted :=
  (edges_accounted_iff _ (by decide +kernel) (by decide +kernel)).2 (by decide +kernel)

/-- The slot grant is idle with its counters below saturation, and the account is not settled. -/
def Unsettled (is : List SlotgrantIn) : Prop :=
  (exec step {} is).slotgrant.fsm.state = .idle ∧ (exec step {} is).slotgrant.fsm.dropCnt = 0 ∧
    (exec step {} is).slotgrant.fsm.pushCnt = 1 ∧ ¬ (exec step {} is).Accounted

/-- **Edges are lost**: a fragment that comes with a request, a request during `build`, and a
fragment at the push. -/
theorem edges_lost :
    Unsettled (tenCycles { fragment 5 with swGrantPulse := true, swGrantSsi := 9 } {} 1) ∧
      Unsettled (tenCycles (fragment 5) (request 9) 4) ∧
      Unsettled (tenCycles (fragment 5) (fragment 6) 9) := by
  refine ⟨⟨?_, ?_, ?_, fun h ↦ ?_⟩, ⟨?_, ?_, ?_, fun h ↦ ?_⟩, ⟨?_, ?_, ?_, fun h ↦ ?_⟩⟩
  case refine_4 => exact absurd h.frag (by decide +kernel)
  case refine_8 => exact absurd h.software (by decide +kernel)
  case refine_12 => exact absurd h.frag (by decide +kernel)
  all_goals decide +kernel

end GrantAudit

end TetraPhy.Lmac
