import TetraPhy.Lib.Run
import TetraPhy.Lmac.PreReply
import TetraPhy.Lmac.SchHdShared

/-!
# From the producers to the signalling queue

Four producers write downlink PDUs: the MLE registration FSM, the slot grant, the broadcast
(`tetra_dl_nwrk_broadcast.v`) and the acknowledgement.  The queue has three write ports, so
`tetra_zynq_top.v` merges the first two in front of it:

| Producer    | Write strobe            | Port of the queue                     |
|-------------|-------------------------|---------------------------------------|
| `mle`       | `req_valid`             | MLE, with precedence                  |
| `slotgrant` | `wr_slotgrant_valid_sys` | MLE, if the MLE FSM does not write    |
| `nwrk`      | `wr_cmce_valid_sys`     | CMCE                                  |
| `blck`      | `wr_blck_valid_sys`     | SDS                                   |

`SignalPath` is the composition, and `SignalPath.accounted_iff` what becomes of the PDUs the
producers have counted as pushed: in every cycle each of them is in one slot or in the drop
counter, unless the merge lost one or the counter has run over.
-/

namespace TetraPhy.Lmac

open Run SignalQueue

/-! ## The broadcast (`tetra_dl_nwrk_broadcast.v`) -/

/-- The inputs of one cycle. -/
structure NwrkIn where
  payload : BitVec 432 := 0
  trigger : Bool := false
  cfgMcchTn : BitVec 2 := 0
  cfgPeriodMf : BitVec 5 := 0
  mfPulse : Bool := false

/-- The registers. -/
structure NwrkBroadcast where
  triggerQ : Bool := false
  wrValid : Bool := false
  pushCnt : BitVec 16 := 0
  mfCount : BitVec 5 := 0

namespace NwrkBroadcast

variable (s : NwrkBroadcast) (i : NwrkIn)

/-- `fire_v`: an edge of the trigger, or, with a period, every so many multiframes. -/
def fire : Bool :=
  i.cfgPeriodMf == 0 && (i.trigger && !s.triggerQ) ||
    i.cfgPeriodMf != 0 && i.mfPulse && i.cfgPeriodMf ≤ s.mfCount + 1

/-- One clock edge. -/
def step : NwrkBroadcast where
  triggerQ := i.trigger
  wrValid := s.fire i
  pushCnt := count (s.fire i) s.pushCnt
  mfCount :=
    if i.cfgPeriodMf == 0 then 0
    else if i.mfPulse then (if i.cfgPeriodMf ≤ s.mfCount + 1 then 0 else s.mfCount + 1)
    else s.mfCount

/-- The write port: payload and timeslot are those of the cycle. -/
def wrPort : WrPort where
  valid := s.wrValid
  coded := i.payload
  pduType := 0
  targetTn := i.cfgMcchTn
  aachPattern := 0x0249

end NwrkBroadcast

/-- The write port of the MLE registration FSM. -/
def MleFsm.wrPort (s : MleFsm) : MleWrPort where
  valid := s.reqValid
  coded := s.reqCodedBits
  pduType := s.reqPduType
  targetTn := s.reqTargetTn
  aachPattern := s.aachPattern
  secondPduPresent := s.reqSecondPduPresent
  secondPduNr := s.reqSecondPduNr

/-! ## The ports -/

/-- The producers. -/
inductive Producer
  | mle | slotgrant | nwrk | blck
deriving DecidableEq, Repr

instance : Fintype Producer where
  elems := {.mle, .slotgrant, .nwrk, .blck}
  complete p := by cases p <;> decide

/-- What the producers put on their ports in a cycle. -/
structure Ports where
  mle : MleWrPort
  slotgrant : WrPort
  nwrk : WrPort
  blck : WrPort

namespace Ports

variable (w : Ports)

/-- The port of a producer. -/
def port : Producer → WrPort
  | .mle => w.mle.toWrPort
  | .slotgrant => w.slotgrant
  | .nwrk => w.nwrk
  | .blck => w.blck

/-- `mle_slot_wr_*`: the MLE FSM if it writes, else the slot grant. -/
def mleSlotWr : MleWrPort :=
  if w.mle.valid then w.mle
  else { w.slotgrant with secondPduPresent := false, secondPduNr := false }

/-- What the queue sees. -/
def queueIn (pop : Bool) : QueueIn where
  wrMle := w.mleSlotWr
  wrCmce := w.nwrk
  wrSds := w.blck
  pop := pop

/-- The producers that write. -/
def writers : Finset Producer := Finset.univ.filter fun p ↦ (w.port p).valid = true

/-- How many PDUs there is no room for: of those written, one is stored if a slot is free. -/
def excess (q : SignalQueue) : ℕ := w.writers.card - if q.freeIdx.isSome then 1 else 0

end Ports

/-! ## The path -/

/-- The inputs of one cycle: those of the MLE FSM, with the reply mailbox and the cell's
configuration, what the uplink parser and the reassembly deliver, the broadcast's staging
registers and the scheduler's pop. -/
structure PathIn where
  mle : MleIn := {}
  frag1Pulse : Bool := false
  ulIssi : BitVec 24 := 0
  frag1MmType : BitVec 4 := 0
  reassValid : Bool := false
  reassSsi : BitVec 24 := 0
  reassMeta : BitVec 13 := 0
  nwrkPayload : BitVec 432 := 0
  nwrkTrigger : Bool := false
  nwrkPeriodMf : BitVec 5 := 0
  mfPulse : Bool := false
  pop : Bool := false

/-- The registers. -/
structure SignalPath where
  mle : MleFsm := {}
  slotgrant : PreReplySlotgrant := {}
  blck : PreReplyBlck := {}
  shared : SchHdShared := {}
  nwrk : NwrkBroadcast := {}
  queue : SignalQueue := {}

namespace PathIn

variable (i : PathIn)

/-- `reass_mm_type_sys`. -/
def reassMmType : BitVec 4 := i.reassMeta.extractLsb' 9 4

/-- The trigger of the acknowledgement: a reassembled attach or group PDU of MM. -/
def demand : Bool :=
  i.reassValid && (i.reassMeta.extractLsb' 6 3 == 0b001) &&
    (i.reassMmType == 2 || i.reassMmType == 7)

/-- The broadcast's inputs. -/
def nwrk : NwrkIn where
  payload := i.nwrkPayload
  trigger := i.nwrkTrigger
  cfgMcchTn := i.mle.cfgMcchTn
  cfgPeriodMf := i.nwrkPeriodMf
  mfPulse := i.mfPulse

end PathIn

namespace SignalPath

variable (s : SignalPath) (i : PathIn)

/-- The slot grant's inputs: the software asks for one by a GO of the reply mailbox. -/
def slotgrantIn : SlotgrantIn where
  frag1Pulse := i.frag1Pulse
  ulSsi := i.ulIssi
  mmPduType := i.frag1MmType
  swGrantPulse := i.mle.goPulse && i.mle.mb.rawSlotgrant
  swGrantSsi := i.mle.mb.ssi
  cfgMcchTn := i.mle.cfgMcchTn
  cfgScrambleInit := i.mle.cfgScrambleInit
  encDone := s.shared.ch0Done
  encCoded := s.shared.ch0Coded

/-- The acknowledgement's inputs: the address is that of the uplink parser. -/
def blckIn : BlckIn where
  triggerValid := i.demand
  ulSsi := i.ulIssi
  cfgMcchTn := i.mle.cfgMcchTn
  encDone := s.shared.ch1Done
  encCoded := s.shared.ch1Coded

/-- The slot grant's request to the shared encoder. -/
def sgEnc : EncReq := ⟨s.slotgrant.fsm.encReq, s.slotgrant.builder.pduBits,
  s.slotgrant.fsm.lat.scrambleInit⟩

/-- The acknowledgement's request. -/
def blckEnc : EncReq := ⟨s.blck.fsm.encReq, s.blck.builder.pduBits, i.mle.cfgScrambleInit⟩

/-- The producers' ports. -/
def ports : Ports where
  mle := s.mle.wrPort
  slotgrant := s.slotgrant.wrPort
  nwrk := s.nwrk.wrPort i.nwrk
  blck := s.blck.wrPort

/-- One clock edge. -/
def step : SignalPath where
  mle := s.mle.step i.mle
  slotgrant := s.slotgrant.step (s.slotgrantIn i)
  blck := s.blck.step (s.blckIn i)
  shared := s.shared.step s.sgEnc (s.blckEnc i)
  nwrk := s.nwrk.step i.nwrk
  queue := s.queue.step ((s.ports i).queueIn i.pop)

/-- The reset state. -/
def init : SignalPath := {}

end SignalPath

/-! ## What one cycle of the queue does with the PDUs -/

/-- An entry is a producer's PDU. -/
def Carries (e : Entry) (p : WrPort) : Prop :=
  e.coded = p.coded ∧ e.pduType = p.pduType ∧ e.targetTn = p.targetTn

/-- **Nothing is lost silently in a cycle**: of the PDUs written, each is given a slot that was
empty and now holds it, no two the same one, and those that are not are added to the drop
counter; nothing else comes in. -/
def Accounted (w : Ports) (q q' : SignalQueue) : Prop :=
  ∃ slot : Producer → Option (Fin 4),
    (∀ p j, slot p = some j → (w.port p).valid = true ∧ q.occ j = none ∧
      ∃ e, q'.occ j = some e ∧ Carries e (w.port p)) ∧
    (∀ p p' j, slot p = some j → slot p' = some j → p = p') ∧
    (∀ j, q.occ j = none → q'.occ j ≠ none → ∃ p, slot p = some j) ∧
    q'.dropCnt.toNat = q.dropCnt.toNat + (w.writers.filter fun p ↦ slot p = none).card

namespace Ports

variable {w : Ports} {q : SignalQueue} {pop : Bool}

theorem card_writers (w : Ports) : w.writers.card =
    w.mle.valid.toNat + w.slotgrant.valid.toNat + w.nwrk.valid.toNat + w.blck.valid.toNat := by
  have huniv : (Finset.univ : Finset Producer) = {.mle, .slotgrant, .nwrk, .blck} := rfl
  have hbit : ∀ b : Bool, (if b = true then 1 else 0) = b.toNat := by decide
  rw [writers, Finset.card_filter, huniv]
  simp only [hbit]
  rw [Finset.sum_insert (by decide), Finset.sum_insert (by decide), Finset.sum_insert (by decide),
    Finset.sum_singleton, ← Nat.add_assoc, ← Nat.add_assoc]
  rfl

theorem valid_mleSlotWr (w : Ports) : w.mleSlotWr.valid = (w.mle.valid || w.slotgrant.valid) := by
  cases h : w.mle.valid <;> simp [mleSlotWr, h]

/-- The producer whose PDU the queue gets to store. -/
def winner (w : Ports) : Producer :=
  if w.mle.valid then .mle else if w.slotgrant.valid then .slotgrant
  else if w.nwrk.valid then .nwrk else .blck

theorem carries_arbWrite (w : Ports) (pop : Bool) :
    Carries (w.queueIn pop).arbWrite (w.port w.winner) := by
  have hval : (w.queueIn pop).wrMle.valid = (w.mle.valid || w.slotgrant.valid) := w.valid_mleSlotWr
  rw [Carries, QueueIn.arbWrite, QueueIn.arbWritePort, hval, winner]
  cases hm : w.mle.valid with
  | true => simp [queueIn, mleSlotWr, hm, port]
  | false =>
      cases hs : w.slotgrant.valid with
      | true => simp [queueIn, mleSlotWr, hm, port]
      | false =>
          cases hn : w.nwrk.valid with
          | true => simp [queueIn, hn, port]
          | false => simp [queueIn, hn, port]

theorem valid_winner (h : (w.queueIn pop).arbWriteValid = true) :
    (w.port w.winner).valid = true := by
  have hval : (w.queueIn pop).wrMle.valid = (w.mle.valid || w.slotgrant.valid) := w.valid_mleSlotWr
  rw [QueueIn.arbWriteValid, hval] at h
  rw [winner]
  cases hm : w.mle.valid with
  | true => simp [port, hm]
  | false =>
      cases hs : w.slotgrant.valid with
      | true => simp [port, hs]
      | false =>
          cases hn : w.nwrk.valid with
          | true => simp [port, hn]
          | false => simpa [queueIn, hm, hs, hn, port] using h

/-- **The drops the queue counts fall short of those there are by the PDU the merge loses.** -/
theorem toNat_dropThis (w : Ports) (q : SignalQueue) (pop : Bool) :
    (q.dropThis (w.queueIn pop)).toNat + (w.mle.valid && w.slotgrant.valid).toNat =
      w.excess q := by
  have hall : ∀ m s n b f : Bool,
      ((if (BitVec.ofBool (m || s)).setWidth 2 + (BitVec.ofBool n).setWidth 2
          + (BitVec.ofBool b).setWidth 2 ≥ (2 : BitVec 2) then
        ((BitVec.ofBool (m || s)).setWidth 2 + (BitVec.ofBool n).setWidth 2
          + (BitVec.ofBool b).setWidth 2 - 1).setWidth 3 else (0 : BitVec 3))
        + (if (m || s || n || b) && !f then 1 else 0)).toNat + (m && s).toNat =
      m.toNat + s.toNat + n.toNat + b.toNat - if f then 1 else 0 := by decide
  have hval : (w.queueIn pop).wrMle.valid = (w.mle.valid || w.slotgrant.valid) := w.valid_mleSlotWr
  rw [excess, card_writers, ← hall, dropThis, QueueIn.writeAttempts, QueueIn.arbWriteValid, hval]
  rfl

/-- The slot the code gives each producer: the winner gets the accepted one. -/
def slotOf (w : Ports) (q : SignalQueue) (pop : Bool) (p : Producer) : Option (Fin 4) :=
  if p = w.winner then q.acceptIdx (w.queueIn pop) else none

/-- Of the PDUs written, one is stored or none. -/
theorem card_writers_eq (w : Ports) (q : SignalQueue) (pop : Bool) : w.writers.card =
    (if q.writeAccepted (w.queueIn pop) then 1 else 0) + w.excess q := by
  rw [writeAccepted, excess]
  cases ha : q.acceptIdx (w.queueIn pop) with
  | some j =>
      obtain ⟨hwr, hfree⟩ := acceptIdx_eq_some_iff.1 ha
      have hpos : 0 < w.writers.card :=
        Finset.card_pos.2 ⟨w.winner, Finset.mem_filter.2 ⟨Finset.mem_univ _, valid_winner hwr⟩⟩
      simp only [hfree, Option.isSome_some, if_true]
      omega
  | none =>
      rw [acceptIdx] at ha
      split_ifs at ha with hwr
      · simp [ha]
      · have hval : (w.queueIn pop).wrMle.valid = (w.mle.valid || w.slotgrant.valid) :=
          w.valid_mleSlotWr
        rw [QueueIn.arbWriteValid, hval] at hwr
        simp only [Bool.not_eq_true, Bool.or_eq_false_iff] at hwr
        obtain ⟨⟨⟨hm, hs⟩, hn⟩, hb⟩ := hwr
        have hn' : w.nwrk.valid = false := hn
        have hb' : w.blck.valid = false := hb
        simp [card_writers, hm, hs, hn', hb']

/-- The others are not stored. -/
theorem card_not_stored (w : Ports) (q : SignalQueue) (pop : Bool) :
    (w.writers.filter fun p ↦ w.slotOf q pop p = none).card = w.excess q := by
  have hcard := w.card_writers_eq q pop
  rw [writeAccepted] at hcard
  cases ha : q.acceptIdx (w.queueIn pop) with
  | some j =>
      have hmem : w.winner ∈ w.writers := Finset.mem_filter.2
        ⟨Finset.mem_univ _, valid_winner (acceptIdx_eq_some_iff.1 ha).1⟩
      have hset : (w.writers.filter fun p ↦ w.slotOf q pop p = none) =
          w.writers.erase w.winner := by
        ext p
        simp [slotOf, ha, and_comm]
      rw [hset, Finset.card_erase_of_mem hmem, hcard, ha]
      exact Nat.add_sub_cancel_left ..
  | none =>
      have hset : (w.writers.filter fun p ↦ w.slotOf q pop p = none) = w.writers :=
        Finset.filter_true_of_mem fun p _ ↦ by simp [slotOf, ha]
      rw [hset, hcard, ha]
      exact Nat.zero_add _

/-- No assignment of slots stores more. -/
theorem excess_le {slot : Producer → Option (Fin 4)}
    (hslot : ∀ p j, slot p = some j → q.acceptIdx (w.queueIn pop) = some j)
    (hinj : ∀ p p' j, slot p = some j → slot p' = some j → p = p') :
    w.excess q ≤ (w.writers.filter fun p ↦ slot p = none).card := by
  have hsplit := Finset.card_filter_add_card_filter_not (s := w.writers) fun p ↦ slot p = none
  have hone : (w.writers.filter fun p ↦ ¬ slot p = none).card ≤
      if q.freeIdx.isSome then 1 else 0 := by
    split_ifs with hf
    · refine Finset.card_le_one.2 fun p hp p' hp' ↦ ?_
      obtain ⟨j, hj⟩ := Option.ne_none_iff_exists'.1 (Finset.mem_filter.1 hp).2
      obtain ⟨j', hj'⟩ := Option.ne_none_iff_exists'.1 (Finset.mem_filter.1 hp').2
      have he : some j = some j' := (hslot p j hj).symm.trans (hslot p' j' hj')
      cases he
      exact hinj p p' j hj hj'
    · rw [Nat.le_zero, Finset.card_eq_zero, Finset.filter_eq_empty_iff]
      intro p _ hp
      obtain ⟨j, hj⟩ := Option.ne_none_iff_exists'.1 hp
      rw [(acceptIdx_eq_some_iff.1 (hslot p j hj)).2] at hf
      exact hf rfl
  rw [excess]
  omega

/-- The drop counter shows them exactly when the merge has one writer at most and the counter
has room. -/
theorem dropCnt_step_iff (w : Ports) (q : SignalQueue) (pop : Bool) :
    (q.step (w.queueIn pop)).dropCnt.toNat = q.dropCnt.toNat + w.excess q ↔
      ¬ (w.mle.valid = true ∧ w.slotgrant.valid = true) ∧
        q.dropCnt.toNat + w.excess q ≤ 65535 := by
  have hdrop := w.toNat_dropThis q pop
  obtain ⟨hle, hiff⟩ := toNat_dropCnt_step q (w.queueIn pop)
  have hboth : ¬ (w.mle.valid = true ∧ w.slotgrant.valid = true) ↔
      (w.mle.valid && w.slotgrant.valid).toNat = 0 := by
    cases w.mle.valid <;> cases w.slotgrant.valid <;> decide
  rw [hboth]
  omega

end Ports

/-- **One cycle loses nothing silently exactly when the merge has one writer at most and the
drop counter has room.** -/
theorem accounted_iff (w : Ports) (q : SignalQueue) (pop : Bool) :
    Accounted w q (q.step (w.queueIn pop)) ↔
      ¬ (w.mle.valid = true ∧ w.slotgrant.valid = true) ∧
        q.dropCnt.toNat + w.excess q ≤ 65535 := by
  rw [← w.dropCnt_step_iff q pop]
  constructor
  · rintro ⟨slot, hstored, hinj, -, hcnt⟩
    have hslot : ∀ p j, slot p = some j → q.acceptIdx (w.queueIn pop) = some j := by
      intro p j hj
      obtain ⟨-, hfree, e, he, -⟩ := hstored p j hj
      exact acceptIdx_of_occ_step hfree (by simp [he])
    have hexc := Ports.excess_le hslot hinj
    have hle := (toNat_dropCnt_step q (w.queueIn pop)).1
    have hdrop := w.toNat_dropThis q pop
    omega
  · intro hcnt
    refine ⟨w.slotOf q pop, ?_, ?_, ?_, ?_⟩
    · intro p j hj
      rw [Ports.slotOf] at hj
      split_ifs at hj with hp
      have hwr := (acceptIdx_eq_some_iff.1 hj).1
      subst hp
      exact ⟨Ports.valid_winner hwr, occ_of_acceptIdx hj, _, occ_step_of_acceptIdx hj,
        w.carries_arbWrite pop⟩
    · intro p p' j hp hp'
      rw [Ports.slotOf] at hp hp'
      split_ifs at hp hp' with h h'
      rw [h, h']
    · intro j hfree hin
      exact ⟨w.winner, by rw [Ports.slotOf, if_pos rfl, acceptIdx_of_occ_step hfree hin]⟩
    · rw [w.card_not_stored q pop]
      exact hcnt

/-! ## Runs -/

namespace SignalPath

/-- **A push is counted once.**  The producers with a counter raise their write strobe for one
cycle with each count. -/
theorem counted_step (s : SignalPath) (i : PathIn) :
    (s.step i).slotgrant.fsm.pushCnt =
        count (s.step i).slotgrant.fsm.wrValid s.slotgrant.fsm.pushCnt ∧
      (s.step i).blck.fsm.pushCnt = count (s.step i).blck.fsm.wrValid s.blck.fsm.pushCnt ∧
      (s.step i).nwrk.pushCnt = count (s.step i).nwrk.wrValid s.nwrk.pushCnt :=
  ⟨ReplyFsm.pushCnt_step, ReplyFsm.pushCnt_step, rfl⟩

/-- Nothing is lost silently in this cycle. -/
def Lossless (s : SignalPath) (i : PathIn) : Prop :=
  Accounted (s.ports i) s.queue (s.step i).queue

/-- The MLE FSM and the slot grant do not write in one cycle, and the drop counter has room for
the PDUs that cannot be stored. -/
def Apart (s : SignalPath) (i : PathIn) : Prop :=
  ¬ (s.mle.reqValid = true ∧ s.slotgrant.fsm.wrValid = true) ∧
    s.queue.dropCnt.toNat + (s.ports i).excess s.queue ≤ 65535

/-- **From the producers to the queue nothing is lost silently**, in any run, exactly as long as
the two producers that share a port stay apart and the drop counter does not run over. -/
theorem lossless_iff (is : List PathIn) :
    Along step Lossless init is ↔ Along step Apart init is :=
  along_congr step (I := fun _ ↦ True) (fun _ _ _ ↦ trivial)
    (fun s i _ ↦ accounted_iff (s.ports i) s.queue i.pop) trivial is

/-! ### The balance of a run -/

/-- A path, with the number of PDUs pushed and of those stored so far. -/
structure Audited where
  path : SignalPath
  pushed : ℕ
  stored : ℕ

namespace Audited

/-- One clock edge. -/
def step (o : Audited) (i : PathIn) : Audited where
  path := o.path.step i
  pushed := o.pushed + (o.path.ports i).writers.card
  stored := o.stored + if o.path.queue.writeAccepted ((o.path.ports i).queueIn i.pop) then 1 else 0

def init : Audited := ⟨SignalPath.init, 0, 0⟩

/-- What was pushed was stored or dropped with a count. -/
def Balanced (o : Audited) : Prop := o.pushed = o.stored + o.path.queue.dropCnt.toNat

theorem balanced_init : Balanced init := rfl

/-- One cycle keeps the balance exactly when it loses nothing. -/
theorem balanced_step_iff {o : Audited} (h : o.Balanced) (i : PathIn) :
    (o.step i).Balanced ↔ o.path.Apart i := by
  have hcard := (o.path.ports i).card_writers_eq o.path.queue i.pop
  refine Iff.trans ?_ ((o.path.ports i).dropCnt_step_iff o.path.queue i.pop)
  rw [Balanced] at h ⊢
  simp only [step, SignalPath.step]
  omega

/-- **The balance of a run**: what the producers pushed is what the queue stored and what its
drop counter shows, exactly as long as the run loses nothing. -/
theorem balanced_iff (is : List PathIn) :
    Throughout step Balanced init is ↔ Along step (fun o i ↦ o.path.Apart i) init is :=
  throughout_iff_along step (I := fun _ ↦ True) (P := Balanced) (fun _ _ _ ↦ trivial)
    (fun _ i _ h ↦ balanced_step_iff h i) trivial balanced_init is

end Audited

/-! ### Two replies in one cycle -/

/-- The merge loses the slot grant. -/
theorem not_lossless {s : SignalPath} {i : PathIn} (hm : s.mle.reqValid = true)
    (hs : s.slotgrant.fsm.wrValid = true) : ¬ s.Lossless i :=
  fun h ↦ ((accounted_iff (s.ports i) s.queue i.pop).1 h).1 ⟨hm, hs⟩

/-- A cycle in which nothing comes in. -/
def quiet : PathIn := {}

/-- A reply of the software, which is built and coded in a thousand cycles, and a first fragment
half way through. -/
def coincidence : List PathIn :=
  { mle := { goPulse := true } } :: List.replicate 506 quiet ++
    { frag1Pulse := true, frag1MmType := 2, ulIssi := 1 } :: List.replicate 496 quiet ++
    [{ mle := { acceptBuildDone := true } }, quiet]

/-- The slot grant is pushed, and neither stored nor counted. -/
theorem coincidence_loses :
    (exec step init coincidence).mle.reqValid = true ∧
      (exec step init coincidence).slotgrant.fsm.wrValid = true ∧
      (exec step init coincidence).slotgrant.fsm.pushCnt = 1 ∧
      ((exec step init coincidence).step quiet).queue.dropCnt = 0 ∧
      ¬ Along step Lossless init (coincidence ++ [quiet]) := by
  have hrun : (exec step init coincidence).mle.reqValid = true ∧
      (exec step init coincidence).slotgrant.fsm.wrValid = true ∧
      (exec step init coincidence).slotgrant.fsm.pushCnt = 1 ∧
      ((exec step init coincidence).step quiet).queue.dropCnt = 0 := by decide +kernel
  obtain ⟨hmle, hsg, hpush, hdrop⟩ := hrun
  refine ⟨hmle, hsg, hpush, hdrop, fun hrun ↦ ?_⟩
  have hlast := ((along_append step coincidence [quiet]).1 hrun).2.1
  exact not_lossless hmle hsg hlast

end SignalPath

end TetraPhy.Lmac
