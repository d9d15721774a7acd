import TetraPhy.Lib.BitField
import TetraPhy.Lmac.IndirectMailbox
import TetraPhy.Sw.TxTransport

/-!
# The MLE registration FSM

`tetra_mle_registration_fsm.v`: waits for the GO of the reply mailbox, asks the
downlink PDU builder for the staged PDU and hands the coded result to the signalling
queue.  The fields of the request come from three places: address, usage marker and
everything of a raw reply from registers latched at the GO, the body of any other reply
from the D-LOCATION-UPDATE encoder, which reads the mailbox as it is *now*, and the rest
is fixed.

`MleFsm.resultKept_iff` is what becomes of the `result` field on this way: the encoder's
`pdu_reject` is tied to 0, so a reply that is not raw leaves as an accept.
-/

namespace TetraPhy.Lmac

open Sw BitField

/-! ## The D-LOCATION-UPDATE encoder (`tetra_d_location_update_encoder.v`) -/

/-- The 58 bits of the group identity element. -/
def gilaPayload (gssi : BitVec 24) (cls : BitVec 3) (lifetime : BitVec 2) : BitVec 58 :=
  place 58 55 0b001#3 ||| place 58 54 1#1 ||| place 58 50 7#4 ||| place 58 39 38#11 |||
    place 58 33 1#6 ||| place 58 32 0#1 ||| place 58 30 lifetime ||| place 58 27 cls |||
    place 58 25 0b00#2 ||| place 58 1 gssi ||| place 58 0 0#1

/-- The MM body, the first bit on air at bit 127, and its length. -/
def dLocationUpdate (pduReject : Bool) (energySavingInfo : BitVec 14) (locAccType : BitVec 3)
    (gssi : BitVec 24) (cls : BitVec 3) (lifetime : BitVec 2) (gilaPresent : Bool) :
    BitVec 128 × BitVec 8 :=
  let pduType : BitVec 4 := if pduReject then 0b0111 else 0b0101
  let head : BitVec 128 :=
    place 128 124 pduType ||| place 128 121 locAccType ||| place 128 120 1#1 |||
      place 128 116 1#1 ||| place 128 102 energySavingInfo
  if gilaPresent then
    (head ||| place 128 100 1#1 ||| place 128 96 5#4 ||| place 128 85 58#11 |||
      place 128 27 (gilaPayload gssi cls lifetime), 102)
  else (head, 36)

/-! ## Registers, inputs, outputs -/

/-- The states of the FSM. -/
inductive MleState
  | idle | detachNoop | buildAcceptReq | buildAcceptWait | deliverAccept
deriving DecidableEq, Repr

/-- The inputs of one cycle; those the FSM ignores are left out.  `goPulse` is the
mailbox's own pulse, which the top level masks with `raw_slotgrant`. -/
structure MleIn where
  ulDetachValid : Bool := false
  mb : ReplyMailbox := {}
  goPulse : Bool := false
  acceptBuildDone : Bool := false
  acceptBuildCoded : BitVec 432 := 0
  cfgMcchTn : BitVec 2 := 0
  cfgScrambleInit : BitVec 32 := 0
  cfgEnergySavingInfo : BitVec 14 := 0

/-- `mb_go_pulse_sys_w & ~mb_raw_slotgrant_sys_w`. -/
def MleIn.mbGoPulse (i : MleIn) : Bool := i.goPulse && !i.mb.rawSlotgrant

/-- The registers.  The strobes that are tied to 0 are left out, as is `lat_detach_ssi`,
which nothing reads. -/
structure MleFsm where
  state : MleState := .idle
  latAddrType : BitVec 3 := 0
  latUsageMarker : BitVec 6 := 0
  latChanAllocTsBitmap : BitVec 4 := 0
  latSsi : BitVec 24 := 0
  latRawModeFlag : Bool := false
  latRawMmBits : BitVec 128 := 0
  latRawMlePd : BitVec 3 := 0b001
  latRawMmLen : BitVec 8 := 0
  latRawNs : Bool := false
  latRawNr : Bool := false
  latRawLlcBlAck : Bool := false
  acceptBuildReq : Bool := false
  reqValid : Bool := false
  reqCodedBits : BitVec 432 := 0
  reqPduType : BitVec 2 := 0
  reqTargetTn : BitVec 2 := 0
  reqSecondPduPresent : Bool := false
  reqSecondPduNr : Bool := false
  busy : Bool := false
  acceptPulse : Bool := false
  detachPulse : Bool := false

/-- A build request: the `accept_build_*` field plane. -/
structure BuildReq where
  ssi : BitVec 24
  addrType : BitVec 3
  usageMarker : BitVec 6
  chanAllocTsBitmap : BitVec 4
  llcPduType : BitVec 4
  randomAccessFlag : Bool
  mmPduBits : BitVec 128
  mmPduLenBits : BitVec 8
  scrambleInit : BitVec 32
  mlePd : BitVec 3
  ns : Bool
  nr : Bool

namespace MleFsm

variable (s : MleFsm) (i : MleIn)

def blAckPath : Bool := s.latRawModeFlag && s.latRawLlcBlAck

def cmcePath : Bool := s.latRawModeFlag && s.latRawMlePd == 0b010 && !s.latRawLlcBlAck

/-- `u_dloc`, as the FSM instantiates it: never a reject. -/
def dloc : BitVec 128 × BitVec 8 :=
  dLocationUpdate false i.cfgEnergySavingInfo i.mb.locAccType i.mb.gilaGssi i.mb.gilaClass
    i.mb.gilaLifetime i.mb.gilaPresent

/-- The field plane in a cycle. -/
def acceptBuild : BuildReq where
  ssi := s.latSsi
  addrType := if s.blAckPath then 1 else if s.cmcePath then 6 else s.latAddrType
  usageMarker := s.latUsageMarker
  chanAllocTsBitmap := s.latChanAllocTsBitmap
  llcPduType := if s.blAckPath then 3 else if s.cmcePath then 2 else 0
  randomAccessFlag := false
  mmPduBits := if s.latRawModeFlag then s.latRawMmBits else (dloc i).1
  mmPduLenBits :=
    if s.blAckPath then 0 else if s.latRawModeFlag then s.latRawMmLen else (dloc i).2
  scrambleInit := i.cfgScrambleInit
  mlePd := if s.latRawModeFlag then s.latRawMlePd else 0b001
  ns := if s.latRawModeFlag then s.latRawNs else false
  nr := if s.latRawModeFlag then s.latRawNr else false

/-- `accept_build_aach_pattern`. -/
def aachPattern : BitVec 14 := if s.cmcePath then 0x0249 else 0x0009

/-- One clock edge. -/
def step : MleFsm :=
  -- the strobes fall unless a state raises them
  let s := { s with acceptBuildReq := false, reqValid := false, acceptPulse := false
                    detachPulse := false }
  match s.state with
  | .idle =>
      if i.ulDetachValid then { s with busy := true, state := .detachNoop }
      else if i.mbGoPulse then
        { s with
          latSsi := i.mb.ssi
          latAddrType := i.mb.addrType
          latUsageMarker := i.mb.usageMarker
          latChanAllocTsBitmap := i.mb.chanAllocTsBitmap
          latRawModeFlag := i.mb.rawModeFlag
          latRawMmBits := i.mb.rawMmBits
          latRawMlePd := if i.mb.rawMlePd == 0b000 then 0b001 else i.mb.rawMlePd
          latRawMmLen := i.mb.rawMmLen
          latRawNs := i.mb.rawNs
          latRawNr := i.mb.rawNr
          latRawLlcBlAck := i.mb.rawLlcBlAck
          busy := true
          state := .buildAcceptReq }
      else { s with busy := false }
  | .detachNoop => { s with detachPulse := true, state := .idle }
  | .buildAcceptReq => { s with acceptBuildReq := true, state := .buildAcceptWait }
  | .buildAcceptWait =>
      if i.acceptBuildDone then
        { s with
          reqCodedBits := i.acceptBuildCoded
          reqPduType := 0
          reqTargetTn := i.cfgMcchTn
          reqSecondPduPresent := false
          reqSecondPduNr := false
          state := .deliverAccept }
      else s
  | .deliverAccept => { s with reqValid := true, acceptPulse := true, state := .idle }

/-- The reset state. -/
def init : MleFsm := {}

/-- A GO is accepted: the FSM is idle and no detach takes precedence. -/
def GoAccepted : Prop :=
  s.state = .idle ∧ i.ulDetachValid = false ∧ i.mbGoPulse = true

instance : Decidable (s.GoAccepted i) := inferInstanceAs (Decidable (_ ∧ _ ∧ _))

end MleFsm

/-! ## Which PDU is asked for -/

namespace BuildReq

/-- The type of the MM PDU in a request, if there is one: the protocol discriminator is
that of MM, the LLC PDU has a body and the body is not cut off. -/
def mmPduType (r : BuildReq) : Option (BitVec 4) :=
  if r.mlePd = 0b001 ∧ r.llcPduType ≠ 3 ∧ 4 ≤ r.mmPduLenBits.toNat then
    some (r.mmPduBits.extractLsb' 124 4)
  else none

/-- D-LOCATION-UPDATE-ACCEPT. -/
def LocAccept (r : BuildReq) : Prop := r.mmPduType = some 0b0101

/-- D-LOCATION-UPDATE-REJECT. -/
def LocReject (r : BuildReq) : Prop := r.mmPduType = some 0b0111

instance (r : BuildReq) : Decidable r.LocAccept :=
  inferInstanceAs (Decidable (r.mmPduType = some 0b0101))

instance (r : BuildReq) : Decidable r.LocReject :=
  inferInstanceAs (Decidable (r.mmPduType = some 0b0111))

end BuildReq

/-- The request honours the mailbox: it is an accept only if the result says so, and
otherwise a reject for the same SSI. -/
def ResultKept (m : ReplyMailbox) (r : BuildReq) : Prop :=
  (r.LocAccept → m.result = 0) ∧ (m.result ≠ 0 → r.LocReject ∧ r.ssi = m.ssi)

instance (m : ReplyMailbox) (r : BuildReq) : Decidable (ResultKept m r) :=
  inferInstanceAs (Decidable (_ ∧ _))

/-- The software built the reject itself and staged it as a raw MM body. -/
def ReplyMailbox.RawReject (m : ReplyMailbox) : Prop :=
  m.rawModeFlag = true ∧ m.rawLlcBlAck = false ∧ (m.rawMlePd = 0b000 ∨ m.rawMlePd = 0b001) ∧
    4 ≤ m.rawMmLen.toNat ∧ m.rawMmBits.extractLsb' 124 4 = 0b0111

/-- The encoder's PDU type is the one its `pdu_reject` input selects. -/
theorem dLocationUpdate_pduType (rej : Bool) (esi : BitVec 14) (loc cls : BitVec 3)
    (gssi : BitVec 24) (lt : BitVec 2) (gila : Bool) :
    (dLocationUpdate rej esi loc gssi cls lt gila).1.extractLsb' 124 4 =
        (if rej then 0b0111 else 0b0101) ∧
      4 ≤ (dLocationUpdate rej esi loc gssi cls lt gila).2.toNat := by
  cases gila with
  | true =>
      refine ⟨?_, by simp [dLocationUpdate]⟩
      simp (disch := omega) only [dLocationUpdate, if_true, BitVec.extractLsb'_or,
        slice_place_self, slice_place_apart, BitVec.or_zero]
  | false =>
      refine ⟨?_, by simp [dLocationUpdate]⟩
      simp (disch := omega) only [dLocationUpdate, Bool.false_eq_true, if_false,
        BitVec.extractLsb'_or, slice_place_self, slice_place_apart, BitVec.or_zero]

/-! ## The way of the result -/

namespace MleFsm

variable {s : MleFsm} {i₀ : MleIn}

/-- The registers hold the mailbox a GO found. -/
structure Latched (s : MleFsm) (m : ReplyMailbox) : Prop where
  ssi : s.latSsi = m.ssi
  addrType : s.latAddrType = m.addrType
  usageMarker : s.latUsageMarker = m.usageMarker
  chanAllocTsBitmap : s.latChanAllocTsBitmap = m.chanAllocTsBitmap
  rawModeFlag : s.latRawModeFlag = m.rawModeFlag
  rawMmBits : s.latRawMmBits = m.rawMmBits
  rawMlePd : s.latRawMlePd = if m.rawMlePd == 0b000 then 0b001 else m.rawMlePd
  rawMmLen : s.latRawMmLen = m.rawMmLen
  rawNs : s.latRawNs = m.rawNs
  rawNr : s.latRawNr = m.rawNr
  rawLlcBlAck : s.latRawLlcBlAck = m.rawLlcBlAck

/-- **An accepted GO latches the mailbox, and two cycles later the builder is asked.** -/
theorem latched_of_goAccepted (h : s.GoAccepted i₀) (i₁ : MleIn) :
    ((s.step i₀).step i₁).acceptBuildReq = true ∧
      ((s.step i₀).step i₁).state = .buildAcceptWait ∧ ((s.step i₀).step i₁).Latched i₀.mb := by
  obtain ⟨hidle, hdet, hgo⟩ := h
  refine ⟨?_, ?_, ?_⟩
  · simp [step, hidle, hdet, hgo]
  · simp [step, hidle, hdet, hgo]
  · constructor <;> simp [step, hidle, hdet, hgo]

/-- Which MM PDU is asked for: of a raw reply the staged one, else always an accept. -/
theorem Latched.mmPduType {m : ReplyMailbox} (h : s.Latched m) (i : MleIn) :
    (s.acceptBuild i).mmPduType =
      if m.rawModeFlag then
        if m.rawLlcBlAck = false ∧ (m.rawMlePd = 0b000 ∨ m.rawMlePd = 0b001) ∧
          4 ≤ m.rawMmLen.toNat then some (m.rawMmBits.extractLsb' 124 4) else none
      else some 0b0101 := by
  have hbody := dLocationUpdate_pduType false i.cfgEnergySavingInfo i.mb.locAccType
    i.mb.gilaClass i.mb.gilaGssi i.mb.gilaLifetime i.mb.gilaPresent
  rw [if_neg (by decide)] at hbody
  have hmm : ∀ x : BitVec 3, (if x == 0b000 then 0b001 else x) = 0b001 ↔
      x = 0b000 ∨ x = 0b001 := by decide
  have hllc : ∀ c : Bool, (if c then (2 : BitVec 4) else 0) ≠ 3 := by decide
  cases hraw : m.rawModeFlag with
  | false => simp [BuildReq.mmPduType, acceptBuild, blAckPath, cmcePath, dloc, h.rawModeFlag, hraw,
      hbody]
  | true =>
      cases hack : m.rawLlcBlAck with
      | true => simp [BuildReq.mmPduType, acceptBuild, blAckPath, h.rawModeFlag, h.rawLlcBlAck,
          hraw, hack]
      | false =>
          have hno : s.blAckPath = false := by simp [blAckPath, h.rawLlcBlAck, hack]
          simp only [BuildReq.mmPduType, acceptBuild, hno, h.rawModeFlag, hraw, h.rawMlePd,
            h.rawMmLen, h.rawMmBits, if_true, Bool.false_eq_true, if_false, hmm, ne_eq, hllc,
            not_false_eq_true, true_and]

/-- **The result field is honoured exactly when it says accept, or when the software built
the reject itself.**  The other replies of a mailbox whose result is not accept leave as
an accept, or as the raw PDU that was staged. -/
theorem resultKept_iff (h : s.GoAccepted i₀) (i₁ i₂ : MleIn) :
    ((s.step i₀).step i₁).acceptBuildReq = true ∧
      (ResultKept i₀.mb (((s.step i₀).step i₁).acceptBuild i₂) ↔
        i₀.mb.result = 0 ∨ i₀.mb.RawReject) := by
  obtain ⟨hreq, -, hlat⟩ := latched_of_goAccepted h i₁
  refine ⟨hreq, ?_⟩
  have hssi : (((s.step i₀).step i₁).acceptBuild i₂).ssi = i₀.mb.ssi := hlat.ssi
  simp only [ResultKept, BuildReq.LocAccept, BuildReq.LocReject, hssi, hlat.mmPduType, and_true]
  by_cases hres : i₀.mb.result = 0
  · simp [hres]
  cases hraw : i₀.mb.rawModeFlag with
  | false => simp [ReplyMailbox.RawReject, hraw]
  | true =>
      rw [or_iff_right hres]
      simp only [ReplyMailbox.RawReject, hraw, if_true, true_and]
      constructor
      · rintro ⟨-, hrej⟩
        have hrej := hrej hres
        split_ifs at hrej with hbody
        exact ⟨hbody.1, hbody.2.1, hbody.2.2, Option.some.inj hrej⟩
      · rintro ⟨hack, hpd, hlen, htype⟩
        rw [if_pos ⟨hack, hpd, hlen⟩, htype]
        exact ⟨fun hacc ↦ absurd hacc (by decide), fun _ ↦ rfl⟩

end MleFsm

/-! ### From the software on -/

/-- The reject the daemon submits for an unknown terminal. -/
def luRejectMeta : TxPduMeta := { targetSsi := 4711, result := 1, locAccType := 3 }

/-- The cycle in which its GO arrives. -/
def luRejectGo : MleIn :=
  { mb := ReplyMailbox.writes {} (txSubmit true .luReject luRejectMeta).1, goPulse := true }

/-- A submitted reject leaves as an accept. -/
theorem luReject_leaves_as_accept :
    MleFsm.init.GoAccepted luRejectGo ∧ luRejectGo.mb.result = 1 ∧
      (((MleFsm.init.step luRejectGo).step luRejectGo).acceptBuild luRejectGo).LocAccept ∧
      ¬ ResultKept luRejectGo.mb
        (((MleFsm.init.step luRejectGo).step luRejectGo).acceptBuild luRejectGo) := by
  decide

/-- A mailbox whose result is reject and whose raw body is one. -/
def rawRejectGo : MleIn :=
  { mb := ReplyMailbox.writes {}
      ((stageRawMm true 4711 [false, true, true, true] 0 0 1 0 0 0).1 ++ replyWrite 3 1)
    goPulse := true }

theorem rawReject_kept : rawRejectGo.mb.result = 1 ∧ ResultKept rawRejectGo.mb
    (((MleFsm.init.step rawRejectGo).step rawRejectGo).acceptBuild rawRejectGo) := by
  refine ⟨by decide, (MleFsm.resultKept_iff (by decide) rawRejectGo rawRejectGo).2.2 (Or.inr ?_)⟩
  unfold ReplyMailbox.RawReject
  decide

end TetraPhy.Lmac
