import TetraPhy.Lmac.BlAckBlock
import TetraPhy.Lmac.SignalPath
import TetraPhy.Lmac.SignalQueue

/-!
# The half-slot replies

A slot grant and an acknowledgement are SCH/HD blocks of 216 bits in a queue entry of 432, and
block 1 of the timeslot is the upper half of the entry.  Two things must come together for a
reply to be right: the entry must carry the block where the scheduler reads it, and the block
must be that of the PDU for the terminal that triggered it.

* A slot grant's entry carries it in the upper half, and it is the right block, unless the grant
  asks the shared encoder while that still repeats the job before (`Fresh`).
* An acknowledgement's entry carries it in the lower half, so that block 1 is empty, which no
  acknowledgement's block is.

`Watched` runs the path beside what triggered the replies; `Watched.right_iff` is the result.
-/

namespace TetraPhy.Lmac

open AirOrder BitField Codec Run

/-! ## What the replies are to be -/

/-- What the slot grant is built for. -/
def SlotgrantLat.pdu (g : SlotgrantLat) : BitVec 124 := g.macResIn.pdu 124 16

/-- What stands in it. -/
theorem SlotgrantLat.pdu_eq (g : SlotgrantLat) : g.pdu =
    place 124 121 1#1 ||| place 124 117 1#1 ||| place 124 111 7#6 ||| place 124 108 1#3 |||
      place 124 84 g.ssi ||| place 124 82 1#1 ||| place 124 74 g.sgElement ||| place 124 69 8#4 |||
      place 124 68 1#1 := by
  have hllc : (place 16 12 8#4).setWidth 124 >>> 12 <<< 69 = place 124 69 8#4 := by decide
  rw [← hllc]
  simp [pdu, MacResIn.pdu, MacResIn.header, macResIn, MacResIn.fillBitInd, MacResIn.macTotalBits,
    MacResIn.macHdrBits, MacResIn.baseHdr, MacResIn.pcLen, MacResIn.sgLen, MacResIn.caLen,
    MacResIn.llcCovLen, MacResIn.llcLens, MacResIn.lengthInd, MacResIn.tmSdu, MacResIn.pad,
    MacResIn.llcBuf, shlSub, shrSub]

/-- A slot grant is addressed to the terminal that triggered it, by its SSI. -/
theorem SlotgrantLat.addressed (g : SlotgrantLat) :
    g.pdu.extractLsb' 108 3 = 1 ∧ g.pdu.extractLsb' 84 24 = g.ssi ∧
      g.pdu.extractLsb' 74 8 = g.sgElement := by
  rw [g.pdu_eq]
  refine ⟨?_, ?_, ?_⟩ <;>
    simp (disch := omega) only [BitVec.extractLsb'_or, slice_place_self, slice_place_apart,
      BitVec.or_zero, BitVec.zero_or]
  rfl

/-- The block of a slot grant. -/
def SlotgrantLat.block (g : SlotgrantLat) : List Bool :=
  schhdEncode (onAir g.pdu) (UInt32.ofBitVec g.scrambleInit)

/-- A reassembled demand, as far as its acknowledgement goes. -/
structure Demand where
  ssi : BitVec 24 := 0
  ns : Bool := false
  targetTn : BitVec 2 := 0
  scrambleInit : BitVec 32 := 0
deriving DecidableEq

/-- The demand the reassembly delivers in a cycle; the N(S) is bit 1 of its metadata. -/
def PathIn.reassembled (i : PathIn) : Demand where
  ssi := i.reassSsi
  ns := i.reassMeta.getLsbD 1
  targetTn := i.mle.cfgMcchTn
  scrambleInit := i.mle.cfgScrambleInit

/-- The acknowledgement of a demand: for its SSI, with N(R) equal to its N(S). -/
def Demand.pdu (d : Demand) : BitVec 124 :=
  ({ ssi := d.ssi, addrType := 1, nr := d.ns } : BlAckIn).pdu

/-- Its block. -/
def Demand.block (d : Demand) : List Bool :=
  schhdEncode (onAir d.pdu) (UInt32.ofBitVec d.scrambleInit)

/-- Whenever a port's PDU is at the head of the queue, the scheduler puts this block 1 on the
timeslot. -/
def BlockOne (p : WrPort) (k : BitVec 2) (block : List Bool) : Prop :=
  p.targetTn = k ∧ ∀ i : SchedIn, i.headValid = true → i.head.coded = p.coded →
    i.head.targetTn = p.targetTn → onAir (i.blk1 k) = block

/-- Block 1 is the upper half of the entry. -/
theorem blockOne_iff {p : WrPort} {k : BitVec 2} {block : List Bool} :
    BlockOne p k block ↔ p.targetTn = k ∧ onAir (p.coded.extractLsb' 216 216) = block := by
  refine and_congr_right fun hk ↦ ⟨fun h ↦ ?_, fun h i hv hc ht ↦ ?_⟩
  · subst hk
    let i : SchedIn := { tn := 0, slotPulse := false, headValid := true
                         head := { coded := p.coded, targetTn := p.targetTn }
                         nullPduBits := 0, sigCompanion := 0 }
    have hact : i.active p.targetTn = true := by simp [SchedIn.active, i]
    rw [← h i rfl rfl rfl, (SchedIn.fanOut_of_active hact).1]
  · have hact : i.active k = true := by simp [SchedIn.active, hv, ht, hk]
    rw [(SchedIn.fanOut_of_active hact).1, hc, h]

/-! ## The path and its triggers -/

/-- A path, the trigger its slot grant has taken last and the demand its acknowledgement has. -/
structure Watched where
  path : SignalPath
  grant : SlotgrantLat
  demand : Demand

namespace Watched

variable (o : Watched) (i : PathIn)

/-- One clock edge.  An FSM takes a trigger if it is idle. -/
def step : Watched where
  path := o.path.step i
  grant := if o.path.slotgrant.fsm.state = .idle then
    (o.path.slotgrant.trigger (o.path.slotgrantIn i)).getD o.grant else o.grant
  demand := if o.path.blck.fsm.state = .idle ∧ o.path.blck.triggerPulse (o.path.blckIn i) = true
    then i.reassembled else o.demand

def init : Watched := ⟨SignalPath.init, {}, {}⟩

/-- **The replies are right**: a slot grant that is pushed becomes the block of the trigger's
PDU on the trigger's timeslot, and an acknowledgement that of the demand's. -/
def Right : Prop :=
  (o.path.slotgrant.fsm.wrValid = true →
    BlockOne o.path.slotgrant.wrPort o.grant.targetTn o.grant.block) ∧
  (o.path.blck.fsm.wrValid = true →
    BlockOne o.path.blck.wrPort o.demand.targetTn o.demand.block)

/-- If the slot grant is about to raise its request, the encoder does not repeat another job of
its channel. -/
def Fresh (o : Watched) (_ : PathIn) : Prop :=
  o.path.slotgrant.fsm.state = .build → o.path.slotgrant.builder.valid = true →
    o.path.shared.state = .ch0Busy →
      o.path.shared.encInfoBits = o.path.slotgrant.builder.pduBits ∧
        o.path.shared.encScrambleInit = o.path.slotgrant.fsm.lat.scrambleInit

/-- No acknowledgement is pushed. -/
def NoAck (o : Watched) (_ : PathIn) : Prop := o.path.blck.fsm.state ≠ .push

/-! ## The slot grant's way -/

/-- The slot grant's builder, state by state of the FSM. -/
def Built (s : PreReplySlotgrant) : Prop :=
  match s.fsm.state with
  | .idle | .push => s.builder.state = .idle ∧ s.builder.valid = false ∧
      s.fsm.builderStart = false ∧ s.fsm.encReq = false
  | .build => s.fsm.encReq = false ∧
      (s.fsm.builderStart = true ∧ s.builder.state = .idle ∧ s.builder.valid = false ∨
        s.fsm.builderStart = false ∧ s.builder.state ≠ .idle ∧ s.builder.valid = false ∧
          s.builder.lat = s.fsm.lat.macResIn ∨
        s.fsm.builderStart = false ∧ s.builder.state = .idle ∧ s.builder.valid = true ∧
          s.builder.pduBits = s.fsm.lat.pdu)
  | .enc => s.builder.state = .idle ∧ s.builder.valid = false ∧ s.fsm.builderStart = false ∧
      s.fsm.encReq = true ∧ s.builder.pduBits = s.fsm.lat.pdu

/-- What holds in every run: the arbiter serves, and the registers follow the triggers. -/
structure Serves (o : Watched) : Prop where
  serving : o.path.shared.Serving
  grant : o.path.slotgrant.fsm.lat = o.grant

/-- **The invariant.**  While the slot grant waits for the encoder, what its channel is served
or told to be done is its own PDU. -/
structure Inv (o : Watched) : Prop extends Serves o where
  built : Built o.path.slotgrant
  served : o.path.slotgrant.fsm.state = .enc →
    o.path.shared.state = .ch0Busy ∨ o.path.shared.ch0Done = true →
      o.path.shared.block = o.grant.block
  coded : o.path.slotgrant.fsm.state = .push ∨ o.path.slotgrant.fsm.wrValid = true →
    onAir o.path.slotgrant.fsm.latCoded = o.grant.block

/-- The builder's step, seen from the FSM. -/
theorem Built.step {s : PreReplySlotgrant} (h : Built s) (i : SlotgrantIn) : Built (s.step i) := by
  rcases hs : s.fsm.state with _ | _ | _ | _
  · simp only [Built, hs] at h
    obtain ⟨hidle, hval, hstart, hreq⟩ := h
    cases ht : s.trigger i <;>
      simp [Built, PreReplySlotgrant.step, ReplyFsm.step, PreReplySlotgrant.replyIn, hs, ht,
        MacResBuilder.step, hidle, hstart, hreq]
  · simp only [Built, hs] at h
    obtain ⟨hreq, ⟨hstart, hidle, hval⟩ | ⟨hstart, hrun, hval, hlat⟩ |
      ⟨hstart, hidle, hval, hpdu⟩⟩ := h
    · simp [Built, PreReplySlotgrant.step, ReplyFsm.step, PreReplySlotgrant.replyIn, hs,
        MacResBuilder.step, hidle, hstart, hval, hreq]
    · rcases hb : s.builder.state with _ | _ | _ | _ | _ | _
      · exact absurd hb hrun
      all_goals
        simp [Built, PreReplySlotgrant.step, ReplyFsm.step, PreReplySlotgrant.replyIn, hs,
          MacResBuilder.step, hb, hval, hreq, hlat, SlotgrantLat.pdu]
    · simp [Built, PreReplySlotgrant.step, ReplyFsm.step, PreReplySlotgrant.replyIn, hs,
        MacResBuilder.step, hidle, hstart, hval, hpdu]
  · simp only [Built, hs] at h
    obtain ⟨hidle, hval, hstart, hreq, hpdu⟩ := h
    cases hd : i.encDone <;>
      simp [Built, PreReplySlotgrant.step, ReplyFsm.step, PreReplySlotgrant.replyIn, hs, hd,
        MacResBuilder.step, hidle, hstart, hreq, hpdu]
  · simp only [Built, hs] at h
    obtain ⟨hidle, hval, hstart, hreq⟩ := h
    simp [Built, PreReplySlotgrant.step, ReplyFsm.step, hs, MacResBuilder.step, hidle, hstart, hreq]

variable {o i}

theorem serves_init : Serves init := ⟨SchHdShared.serving_init, rfl⟩

theorem inv_init : Inv init where
  toServes := serves_init
  built := ⟨rfl, rfl, rfl, rfl⟩
  served h := nomatch h
  coded h := by rcases h with h | h <;> nomatch h

/-- The registers follow the triggers. -/
theorem Serves.step (h : Serves o) (i : PathIn) : Serves (o.step i) := by
  refine ⟨h.serving.step _ _, ?_⟩
  have hlat := h.grant
  change (o.path.slotgrant.fsm.step _).lat = if _ then _ else _
  rcases hs : o.path.slotgrant.fsm.state with _ | _ | _ | _
  · cases ht : o.path.slotgrant.trigger (o.path.slotgrantIn i) <;>
      simp [ReplyFsm.step, PreReplySlotgrant.replyIn, hs, ht, hlat]
  · cases hb : o.path.slotgrant.builder.valid <;>
      simp [ReplyFsm.step, PreReplySlotgrant.replyIn, hs, hb, hlat]
  · cases hd : (o.path.slotgrantIn i).encDone <;>
      simp [ReplyFsm.step, PreReplySlotgrant.replyIn, hs, hd, hlat]
  · simp [ReplyFsm.step, hs, hlat]

/-- The grant that is waited for stays. -/
theorem step_grant (hs : o.path.slotgrant.fsm.state ≠ .idle) : (o.step i).grant = o.grant :=
  if_neg hs

/-- Whom the encoder serves while the slot grant waits: the slot grant. -/
theorem Inv.served_step (h : Inv o) (hf : Fresh o i)
    (hs : (o.step i).path.slotgrant.fsm.state = .enc)
    (hd : (o.step i).path.shared.state = .ch0Busy ∨ (o.step i).path.shared.ch0Done = true) :
    (o.step i).path.shared.block = (o.step i).grant.block := by
  have hbuilt := h.built
  change (o.path.slotgrant.fsm.step _).state = _ at hs
  rcases hst : o.path.slotgrant.fsm.state with _ | _ | _ | _
  · -- a trigger leads to `build`
    cases ht : o.path.slotgrant.trigger (o.path.slotgrantIn i) <;>
      simp [ReplyFsm.step, PreReplySlotgrant.replyIn, hst, ht] at hs
  · -- the request is not up yet: if channel 0 is served, it is another job's turn
    rw [step_grant (by rw [hst]; decide)]
    simp only [Built, hst] at hbuilt
    have hv : o.path.slotgrant.builder.valid = true := by
      by_contra hv
      simp [ReplyFsm.step, PreReplySlotgrant.replyIn, hst, hv] at hs
    have hpdu : o.path.slotgrant.builder.pduBits = o.path.slotgrant.fsm.lat.pdu := by
      rcases hbuilt with ⟨-, ⟨-, -, hn⟩ | ⟨-, -, hn, -⟩ | ⟨-, -, -, hpdu⟩⟩
      · exact absurd (hn.symm.trans hv) Bool.false_ne_true
      · exact absurd (hn.symm.trans hv) Bool.false_ne_true
      · exact hpdu
    rcases SchHdShared.ch0_step hd with ⟨-, hreq, -⟩ | ⟨hbusy, hinfo, hinit⟩
    · exact absurd (hbuilt.1.symm.trans hreq) Bool.false_ne_true
    · obtain ⟨hinfo', hinit'⟩ := hf hst hv hbusy
      rw [SchHdShared.block, SlotgrantLat.block, ← h.grant, ← hpdu, ← hinfo', ← hinit', ← hinfo,
        ← hinit]
      rfl
  · -- the request is up: it is taken now, or has been taken
    rw [step_grant (by rw [hst]; decide)]
    simp only [Built, hst] at hbuilt
    rcases SchHdShared.ch0_step hd with ⟨-, -, hinfo, hinit⟩ | ⟨hbusy, hinfo, hinit⟩
    · rw [SlotgrantLat.block, ← h.grant, ← hbuilt.2.2.2.2]
      change schhdEncode (onAir (SchHdShared.step _ _ _).encInfoBits)
        (UInt32.ofBitVec (SchHdShared.step _ _ _).encScrambleInit) = _
      rw [hinfo, hinit]
      rfl
    · rw [← h.served hst (Or.inl hbusy), SchHdShared.block, SchHdShared.block, ← hinfo, ← hinit]
      rfl
  · simp [ReplyFsm.step, hst] at hs

/-- What the slot grant latches is what it waited for. -/
theorem Inv.coded_step (h : Inv o) (i : PathIn)
    (hs : (o.step i).path.slotgrant.fsm.state = .push ∨
      (o.step i).path.slotgrant.fsm.wrValid = true) :
    onAir (o.step i).path.slotgrant.fsm.latCoded = (o.step i).grant.block := by
  change (o.path.slotgrant.fsm.step _).state = _ ∨
    (o.path.slotgrant.fsm.step _).wrValid = true at hs
  change onAir (o.path.slotgrant.fsm.step _).latCoded = _
  rcases hst : o.path.slotgrant.fsm.state with _ | _ | _ | _
  · cases ht : o.path.slotgrant.trigger (o.path.slotgrantIn i) <;>
      simp [ReplyFsm.step, PreReplySlotgrant.replyIn, hst, ht] at hs
  · cases hb : o.path.slotgrant.builder.valid <;>
      simp [ReplyFsm.step, PreReplySlotgrant.replyIn, hst, hb] at hs
  · have hdone : o.path.shared.ch0Done = true := by
      by_contra hd
      simp [ReplyFsm.step, PreReplySlotgrant.replyIn, SignalPath.slotgrantIn, hst, hd] at hs
    have hcoded := (h.serving.done0 hdone).2
    rw [h.served hst (Or.inr hdone)] at hcoded
    rw [step_grant (by rw [hst]; decide), ← hcoded]
    simp [ReplyFsm.step, PreReplySlotgrant.replyIn, SignalPath.slotgrantIn, hst, hdone]
  · rw [step_grant (by rw [hst]; decide), ← h.coded (Or.inl hst)]
    simp [ReplyFsm.step, hst]

/-- **The invariant is kept**, if the encoder does not repeat another job. -/
theorem Inv.step (h : Inv o) (hf : Fresh o i) : Inv (o.step i) where
  toServes := h.toServes.step i
  built := h.built.step _
  served := h.served_step hf
  coded := h.coded_step i

/-! ## What is right -/

/-- A slot grant's block is in the upper half. -/
theorem upper_wrPort (s : PreReplySlotgrant) :
    s.wrPort.coded.extractLsb' 216 216 = s.fsm.latCoded := by
  rw [PreReplySlotgrant.wrPort]
  exact BitVec.extractLsb'_append_eq_left

/-- An acknowledgement is not: block 1 is empty. -/
theorem not_right_of_ack (h : o.path.blck.fsm.wrValid = true) : ¬ Right o := by
  intro hr
  have hblk := (blockOne_iff.1 (hr.2 h)).2
  have hempty : o.path.blck.wrPort.coded.extractLsb' 216 216 = 0#216 := by
    rw [PreReplyBlck.wrPort]
    exact BitVec.extractLsb'_append_eq_left
  rw [hempty, onAir_zero, Demand.block, Demand.pdu] at hblk
  exact schhdEncode_blAck_ne _ _ _ hblk.symm

/-- With the invariant, nothing else can go wrong. -/
theorem Inv.right_iff_wrValid (h : Inv o) : Right o ↔ o.path.blck.fsm.wrValid = false := by
  constructor
  · intro hr
    by_contra hw
    exact not_right_of_ack (by simpa using hw) hr
  · intro hw
    refine ⟨fun hs ↦ blockOne_iff.2 ⟨?_, ?_⟩, fun ha ↦ ?_⟩
    · rw [PreReplySlotgrant.wrPort, h.grant]
    · rw [upper_wrPort]
      exact h.coded (Or.inr hs)
    · rw [hw] at ha
      nomatch ha

/-- **The half-slot replies are right throughout a run exactly when it pushes no
acknowledgement**, if no slot grant comes upon the encoder while it repeats another job. -/
theorem right_iff (is : List PathIn) (hfresh : Along step Fresh init is) :
    Throughout step Right init is ↔ Along step NoAck init is := by
  refine throughout_iff_along_of step (I := Inv) (fun o i h hf ↦ h.step hf) (fun o i h hf _ ↦ ?_)
    inv_init (inv_init.right_iff_wrValid.2 rfl) hfresh
  rw [(h.step hf).right_iff_wrValid, NoAck, ← Bool.not_eq_true]
  exact not_congr ReplyFsm.wrValid_step

instance (o : Watched) (i : PathIn) : Decidable (o.Fresh i) := by
  unfold Fresh
  infer_instance

instance (o : Watched) (i : PathIn) : Decidable (o.NoAck i) := by
  unfold NoAck
  infer_instance

/-- A first fragment, and the cycles until its slot grant is pushed. -/
def grantRun : List PathIn :=
  { frag1Pulse := true, frag1MmType := 2, ulIssi := 1 } :: List.replicate 498 SignalPath.quiet

/-- It is pushed, and right. -/
theorem grantRun_right : (exec step init grantRun).path.slotgrant.fsm.wrValid = true ∧
    Throughout step Right init grantRun :=
  ⟨by decide +kernel, (right_iff grantRun (by decide +kernel)).2 (by decide +kernel)⟩

/-! ## The defects -/

/-- A demand of the terminal 2 with N(S) = 1, reassembled while the parser shows the address 1,
and the cycles until it is acknowledged. -/
def demandRun : List PathIn :=
  { reassValid := true, reassSsi := 2, reassMeta := 0x442, ulIssi := 1 } ::
    List.replicate 495 SignalPath.quiet

/-- **The acknowledgement is lost**: block 1 is not its block.  Nor is the block that of the
demand's PDU: it is addressed to the terminal 1, with N(R) = 0. -/
theorem demandRun_wrong : Along step Fresh init demandRun ∧
    (exec step init demandRun).path.blck.fsm.wrValid = true ∧
    (exec step init demandRun).demand = { ssi := 2, ns := true } ∧
    (exec step init demandRun).path.blck.builder.lat = { ssi := 1, addrType := 1 } ∧
    ¬ Throughout step Right init demandRun := by
  have hack : (exec step init demandRun).path.blck.fsm.wrValid = true := by decide +kernel
  refine ⟨by decide +kernel, hack, by decide +kernel, by decide +kernel, fun hr ↦ ?_⟩
  exact not_right_of_ack hack (Throughout.last step hr)

/-- A slot grant that is told `done` for another job is pushed with that job's block. -/
theorem not_right_of_stale (hserv : o.path.shared.Serving)
    (hs : o.path.slotgrant.fsm.state = .enc)
    (hd : o.path.shared.ch0Done = true) (hblk : o.path.shared.block ≠ o.grant.block)
    (i j : PathIn) : ¬ Right ((o.step i).step j) := by
  have hpush : (o.step i).path.slotgrant.fsm.state = .push := by
    change (o.path.slotgrant.fsm.step _).state = _
    simp [ReplyFsm.step, PreReplySlotgrant.replyIn, SignalPath.slotgrantIn, hs, hd]
  have hcoded : (o.step i).path.slotgrant.fsm.latCoded = o.path.shared.ch0Coded := by
    change (o.path.slotgrant.fsm.step _).latCoded = _
    simp [ReplyFsm.step, PreReplySlotgrant.replyIn, SignalPath.slotgrantIn, hs, hd]
  have hwr : ((o.step i).step j).path.slotgrant.fsm.wrValid = true := ReplyFsm.wrValid_step.2 hpush
  have hlat : ((o.step i).step j).path.slotgrant.fsm.latCoded = o.path.shared.ch0Coded := by
    change ((o.step i).path.slotgrant.fsm.step _).latCoded = _
    simp [ReplyFsm.step, hpush, hcoded]
  have hsame : ((o.step i).step j).grant = o.grant := by
    rw [step_grant (by rw [hpush]; decide), step_grant (by rw [hs]; decide)]
  intro hr
  have hone := (blockOne_iff.1 (hr.1 hwr)).2
  rw [upper_wrPort, hlat, hsame, (hserv.done0 hd).2] at hone
  exact hblk hone

/-- The software's request of a slot grant for the terminal 3. -/
def goGrant : PathIn :=
  { mle := { goPulse := true
             mb := { word := fun k ↦ if k = 0 then 3 else if k = 9 then 0x4000 else 0 } } }

/-- It comes while the encoder repeats the slot grant for the terminal 1. -/
def staleRun : List PathIn :=
  { frag1Pulse := true, frag1MmType := 2, ulIssi := 1 } :: List.replicate 520 SignalPath.quiet ++
    goGrant :: List.replicate 464 SignalPath.quiet

/-- **The terminal 3 is not answered**: it is told `done` for the repetition, and the slot grant
of the terminal 1 is pushed twice. -/
theorem staleRun_wrong : Along step NoAck init staleRun ∧
    (exec step init staleRun).grant.ssi = 3 ∧
    (exec step init staleRun).path.shared.encInfoBits = ({ ssi := 1 } : SlotgrantLat).pdu ∧
    ∀ i j, ¬ Right (((exec step init staleRun).step i).step j) := by
  have hrun : Serves (exec step init staleRun) :=
    exec_induction step (fun _ i h ↦ h.step i) serves_init staleRun
  have hstate : (exec step init staleRun).path.slotgrant.fsm.state = .enc ∧
      (exec step init staleRun).path.shared.ch0Done = true ∧
      (exec step init staleRun).path.slotgrant.fsm.lat = { ssi := 3 } ∧
      (exec step init staleRun).path.shared.encInfoBits = ({ ssi := 1 } : SlotgrantLat).pdu ∧
      (exec step init staleRun).path.shared.encScrambleInit = 0 := by decide +kernel
  obtain ⟨henc, hdone, hlat, hinfo, hinit⟩ := hstate
  have hgrant := hrun.grant.symm.trans hlat
  refine ⟨by decide +kernel, by rw [hgrant], hinfo, fun i j ↦ ?_⟩
  refine not_right_of_stale hrun.serving henc hdone ?_ i j
  have hne : ({ ssi := 1 } : SlotgrantLat).block ≠ ({ ssi := 3 } : SlotgrantLat).block := by
    decide +kernel
  rw [hgrant, SchHdShared.block, hinfo, hinit]
  exact hne

end Watched

end TetraPhy.Lmac
