import TetraPhy.Lmac.MacResource
import TetraPhy.Lmac.SignalQueue

/-!
# The pre-replies

Two small FSMs answer the uplink without the software: `tetra_pre_reply_slotgrant.v` grants a
slot after a first fragment, or when the software asks for it, and `tetra_pre_reply_blck.v`
acknowledges a reassembled demand.  Both go the same way, which is `ReplyFsm`:

| State   | What it waits for                  | What it does                                |
|---------|------------------------------------|---------------------------------------------|
| `idle`  | a trigger                          | latches it and starts the builder           |
| `build` | the builder                        | requests an encoding                        |
| `enc`   | the shared SCH/HD encoder          | latches the coded block                     |
| `push`  | nothing                            | raises the write strobe of the queue        |

The members differ in their triggers, in what these latch, in the builder and in the packing of
the 216 coded bits in the 432 bits of a queue entry.
-/

namespace TetraPhy.Lmac

open BitField

/-! ## The builders -/

/-- The builder as the slot grant instantiates it.  The registers between the latches and the
output are functions of the latches, which `MacResIn.pdu` evaluates. -/
structure MacResBuilder where
  state : MacResState := .idle
  lat : MacResIn := { addrType := 0, llcPduType := 1 }
  pduBits : BitVec 124 := 0
  valid : Bool := false

/-- One clock edge. -/
def MacResBuilder.step (b : MacResBuilder) (start : Bool) (i : MacResIn) : MacResBuilder :=
  let b := { b with valid := false }
  match b.state with
  | .idle => if start then { b with lat := i, state := .assembleInner } else b
  | .assembleInner => { b with state := .llcHead }
  | .llcHead => { b with state := .macHead }
  | .macHead => { b with state := .pad }
  | .pad => { b with state := .done }
  | .done => { b with pduBits := b.lat.pdu 124 16, valid := true, state := .idle }

/-- The inputs of `tetra_mac_resource_bl_ack_builder.v`. -/
structure BlAckIn where
  ssi : BitVec 24 := 0
  addrType : BitVec 3 := 0
  randomAccessFlag : Bool := false
  nr : Bool := false
deriving DecidableEq

/-- `pdu_bits_c`: a MAC header of six octets and the five bits of a BL-ACK. -/
def BlAckIn.pdu (i : BlAckIn) : BitVec 124 :=
  place 124 117 (BitVec.ofBool i.randomAccessFlag) ||| place 124 111 6#6 |||
    place 124 108 i.addrType ||| place 124 84 i.ssi ||| place 124 77 0b11#2 |||
    place 124 76 (BitVec.ofBool i.nr)

/-- The states of `tetra_mac_resource_bl_ack_builder.v`. -/
inductive BlAckState
  | idle | pack | done
deriving DecidableEq, Repr

/-- The BL-ACK builder. -/
structure BlAckBuilder where
  state : BlAckState := .idle
  lat : BlAckIn := {}
  pduBits : BitVec 124 := 0
  valid : Bool := false

/-- One clock edge. -/
def BlAckBuilder.step (b : BlAckBuilder) (start : Bool) (i : BlAckIn) : BlAckBuilder :=
  let b := { b with valid := false }
  match b.state with
  | .idle => if start then { b with lat := i, state := .pack } else b
  | .pack => { b with pduBits := b.lat.pdu, state := .done }
  | .done => { b with valid := true, state := .idle }

/-! ## The common FSM -/

/-- The states of both FSMs. -/
inductive ReplyState
  | idle | build | enc | push
deriving DecidableEq, Repr

/-- A saturating sixteen-bit counter. -/
def count (event : Bool) (cnt : BitVec 16) : BitVec 16 :=
  if event && cnt != 0xFFFF then cnt + 1 else cnt

/-- The registers both FSMs have; `lat` is what a trigger latches. -/
structure ReplyFsm (Lat : Type) where
  state : ReplyState := .idle
  lat : Lat
  latCoded : BitVec 216 := 0
  builderStart : Bool := false
  encReq : Bool := false
  wrValid : Bool := false
  pushCnt : BitVec 16 := 0
  dropCnt : BitVec 16 := 0

/-- What an FSM sees in a cycle: its trigger, the triggers it only counts while it is idle or
busy, and the strobes of the builder and of the encoder. -/
structure ReplyIn (Lat : Type) where
  trigger : Option Lat
  idleDrop : Bool
  busyDrop : Bool
  builderValid : Bool
  encDone : Bool
  encCoded : BitVec 216

namespace ReplyFsm

variable {Lat : Type} (f : ReplyFsm Lat) (i : ReplyIn Lat)

/-- One clock edge. -/
def step : ReplyFsm Lat :=
  let f := { f with builderStart := false, wrValid := false }
  match f.state with
  | .idle =>
      match i.trigger with
      | some lat => { f with lat := lat, builderStart := true, state := .build }
      | none => { f with dropCnt := count i.idleDrop f.dropCnt }
  | .build =>
      let f := { f with dropCnt := count i.busyDrop f.dropCnt }
      if i.builderValid then { f with encReq := true, state := .enc } else f
  | .enc =>
      let f := { f with dropCnt := count i.busyDrop f.dropCnt }
      if i.encDone then { f with latCoded := i.encCoded, encReq := false, state := .push } else f
  | .push => { f with wrValid := true, pushCnt := count true f.pushCnt, state := .idle }

variable {f i}

/-- **A push is one write strobe and one count.** -/
theorem wrValid_step : (f.step i).wrValid = true ↔ f.state = .push := by
  rcases hs : f.state with _ | _ | _ | _
  · cases ht : i.trigger <;> simp [step, hs, ht]
  · cases hb : i.builderValid <;> simp [step, hs, hb]
  · cases hd : i.encDone <;> simp [step, hs, hd]
  · simp [step, hs]

theorem pushCnt_step : (f.step i).pushCnt = count (f.step i).wrValid f.pushCnt := by
  rcases hs : f.state with _ | _ | _ | _
  · cases ht : i.trigger <;> simp [step, hs, ht, count]
  · cases hb : i.builderValid <;> simp [step, hs, hb, count]
  · cases hd : i.encDone <;> simp [step, hs, hd, count]
  · simp [step, hs]

end ReplyFsm

/-! ## The slot grant (`tetra_pre_reply_slotgrant.v`) -/

/-- What the slot grant latches. -/
structure SlotgrantLat where
  ssi : BitVec 24 := 0
  targetTn : BitVec 2 := 0
  scrambleInit : BitVec 32 := 0
  sgElement : BitVec 8 := 0
deriving DecidableEq

/-- The inputs of one cycle, those of the encoder's port included. -/
structure SlotgrantIn where
  frag1Pulse : Bool := false
  ulSsi : BitVec 24 := 0
  mmPduType : BitVec 4 := 0
  swGrantPulse : Bool := false
  swGrantSsi : BitVec 24 := 0
  cfgMcchTn : BitVec 2 := 0
  cfgScrambleInit : BitVec 32 := 0
  encDone : Bool := false
  encCoded : BitVec 216 := 0

/-- `mm_accept_w`. -/
def SlotgrantIn.mmAccept (i : SlotgrantIn) : Bool := i.mmPduType == 2 || i.mmPduType == 7

/-- The registers. -/
structure PreReplySlotgrant where
  frag1PulseQ : Bool := false
  swGrantPulseQ : Bool := false
  builder : MacResBuilder := {}
  fsm : ReplyFsm SlotgrantLat := { lat := {} }
  resvPulse : Bool := false
  resvFrames : BitVec 4 := 0

/-- What the slot grant's builder is given. -/
def SlotgrantLat.macResIn (l : SlotgrantLat) : MacResIn where
  ssi := l.ssi
  addrType := 1
  llcPduType := 8
  randomAccessFlag := true
  slotGrantingFlag := true
  slotGrantingElement := l.sgElement

namespace PreReplySlotgrant

variable (s : PreReplySlotgrant) (i : SlotgrantIn)

/-- `frag1_edge_w`. -/
def frag1Edge : Bool := i.frag1Pulse && !s.frag1PulseQ

/-- `sw_grant_edge_w`. -/
def swGrantEdge : Bool := i.swGrantPulse && !s.swGrantPulseQ

/-- What a cycle latches, if the FSM is idle: the software's request has precedence, and a
first fragment must carry an attach or a group PDU. -/
def trigger : Option SlotgrantLat :=
  if s.swGrantEdge i then
    some { ssi := i.swGrantSsi, targetTn := i.cfgMcchTn, scrambleInit := i.cfgScrambleInit
           sgElement := 0x00 }
  else if s.frag1Edge i && i.mmAccept then
    some { ssi := i.ulSsi, targetTn := i.cfgMcchTn, scrambleInit := i.cfgScrambleInit
           sgElement := if i.mmPduType == 2 then 0x00 else 0x30 }
  else none

/-- What the common FSM sees. -/
def replyIn : ReplyIn SlotgrantLat where
  trigger := s.trigger i
  idleDrop := s.frag1Edge i
  busyDrop := s.frag1Edge i
  builderValid := s.builder.valid
  encDone := i.encDone
  encCoded := i.encCoded

/-- One clock edge. -/
def step : PreReplySlotgrant where
  frag1PulseQ := i.frag1Pulse
  swGrantPulseQ := i.swGrantPulse
  builder := s.builder.step s.fsm.builderStart s.fsm.lat.macResIn
  fsm := s.fsm.step (s.replyIn i)
  -- the uplink slots of a grant with a capacity are reserved
  resvPulse := s.fsm.state == .push && s.fsm.lat.sgElement.extractLsb' 4 4 != 0
  resvFrames := if s.fsm.state == .push && s.fsm.lat.sgElement.extractLsb' 4 4 != 0 then
    s.fsm.lat.sgElement.extractLsb' 4 4 else s.resvFrames

/-- The write port: the coded block in the upper half.  The AACH pattern is tagged at the top. -/
def wrPort : WrPort where
  valid := s.fsm.wrValid
  coded := s.fsm.latCoded ++ 0#216
  pduType := 1
  targetTn := s.fsm.lat.targetTn
  aachPattern := 0x0009

end PreReplySlotgrant

/-! ## The acknowledgement (`tetra_pre_reply_blck.v`) -/

/-- What the acknowledgement latches. -/
structure BlckLat where
  ssi : BitVec 24 := 0
  targetTn : BitVec 2 := 0

/-- The inputs of one cycle. -/
structure BlckIn where
  triggerValid : Bool := false
  ulSsi : BitVec 24 := 0
  cfgMcchTn : BitVec 2 := 0
  encDone : Bool := false
  encCoded : BitVec 216 := 0

/-- The registers. -/
structure PreReplyBlck where
  triggerValidQ : Bool := false
  builder : BlAckBuilder := {}
  fsm : ReplyFsm BlckLat := { lat := {} }

/-- What the acknowledgement's builder is given: N(R) is tied to 0. -/
def BlckLat.blAckIn (l : BlckLat) : BlAckIn where
  ssi := l.ssi
  addrType := 1

namespace PreReplyBlck

variable (s : PreReplyBlck) (i : BlckIn)

/-- `trigger_pulse_w`. -/
def triggerPulse : Bool := i.triggerValid && !s.triggerValidQ

/-- What the common FSM sees. -/
def replyIn : ReplyIn BlckLat where
  trigger := if s.triggerPulse i then some { ssi := i.ulSsi, targetTn := i.cfgMcchTn } else none
  idleDrop := false
  busyDrop := s.triggerPulse i
  builderValid := s.builder.valid
  encDone := i.encDone
  encCoded := i.encCoded

/-- One clock edge. -/
def step : PreReplyBlck where
  triggerValidQ := i.triggerValid
  builder := s.builder.step s.fsm.builderStart s.fsm.lat.blAckIn
  fsm := s.fsm.step (s.replyIn i)

/-- The write port: the coded block in the lower half. -/
def wrPort : WrPort where
  valid := s.fsm.wrValid
  coded := 0#216 ++ s.fsm.latCoded
  pduType := 1
  targetTn := s.fsm.lat.targetTn
  aachPattern := 0x0249

end PreReplyBlck

end TetraPhy.Lmac
