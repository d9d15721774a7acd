import TetraPhy.Lib.FieldReader

/-!
# Parsed uplink call-control PDUs

`cmce_pdu_t` of `tetra_cmce_parser.h`, with the fields the call FSM reads.
-/

namespace TetraPhy.Sw

/-- `cmce_pdu_type_t`. -/
inductive CmcePduType
  | none | uAlert | uConnect | uDisconnect | uInfo | uRelease | uSetup | uStatus
  | uTxCeased | uTxDemand | uSdsData | unsupported
deriving DecidableEq, Repr

/-- The PDU types that act on a call there is. -/
def CmcePduType.ActsOnCall (t : CmcePduType) : Prop :=
  t ∈ [.uConnect, .uTxDemand, .uTxCeased, .uRelease, .uDisconnect]

/-- The PDU types that end one. -/
def CmcePduType.EndsCall (t : CmcePduType) : Prop := t = .uRelease ∨ t = .uDisconnect

instance (t : CmcePduType) : Decidable t.ActsOnCall :=
  inferInstanceAs (Decidable (t ∈ [.uConnect, .uTxDemand, .uTxCeased, .uRelease, .uDisconnect]))

instance (t : CmcePduType) : Decidable t.EndsCall :=
  inferInstanceAs (Decidable (t = .uRelease ∨ t = .uDisconnect))

/-- `cmce_pdu_t`.  The parser zeroes the record first, so zero is every field's
default. -/
structure CmcePdu where
  pduType : CmcePduType := .none
  callIdentifier : UInt16 := 0
  hookMethodSelection : UInt8 := 0
  simplexDuplexSelection : UInt8 := 0
  bsiCommunicationType : UInt8 := 0
  calledPartyTypeIdentifier : UInt8 := 0
  calledPartySsi : UInt32 := 0
  disconnectCause : UInt8 := 0
deriving DecidableEq, Repr

end TetraPhy.Sw

/-!
# The parser of uplink call-control PDUs

`tetra_cmce_parser.c`: a bit cursor, a branch for each PDU type, and a record that is zeroed first.
The fields behind the o-bit are left alone.

A `UPdu` is a PDU as EN 300 392-2 clause 14.7 lays it out, up to the o-bit (`UPdu.encode`).

**`tetraCmceParse_encode`**: the parser gets it back, but for a U-CONNECT, of which it surfaces
the PDU type and the call identifier.
-/

namespace TetraPhy.Sw

open FieldReader AirOrder

/-! ## The parser -/

/-- `cmce_pdu_t` with all its fields. -/
structure CmceRecord extends CmcePdu where
  areaSelection : UInt8 := 0
  bsiCircuitModeType : UInt8 := 0
  bsiEncryptionFlag : UInt8 := 0
  bsiSpeechService : UInt8 := 0
  bsiSlotsPerFrame : UInt8 := 0
  requestToTransmitSendData : UInt8 := 0
  callPriority : UInt8 := 0
  clirControl : UInt8 := 0
  calledPartySna : UInt8 := 0
  calledPartyExtension : UInt32 := 0
  txDemandPriority : UInt8 := 0
  encryptionControl : UInt8 := 0
  reserved : UInt8 := 0
  shortDataTypeIdentifier : UInt8 := 0
  sdsLengthIndicator : UInt16 := 0
  sdsProtocolId : UInt8 := 0
  sdsUserData : UInt32 := 0
  sdsUserDataBits : UInt8 := 0
  sdsTruncated : UInt8 := 0
  preCodedStatus : UInt16 := 0
  oBit : UInt8 := 0
deriving DecidableEq, Repr

/-- Bit `p` of a buffer, the first one the highest of octet 0. -/
def srcBit (src : ℕ → UInt8) (p : ℕ) : Bool :=
  (src (p >>> 3) >>> (7 - (p &&& 0x7)).toUInt8) &&& 0x1 == 1

/-- `get_bits`; the caller moves the cursor. -/
def getBits (src : ℕ → UInt8) (pos : ℕ) : ℕ → UInt32
  | 0 => 0
  | n + 1 => (getBits src pos n <<< 1) ||| (srcBit src (pos + n)).toNat.toUInt32

/-- `map_pdu_type`. -/
def mapPduType (raw : UInt32) : CmcePduType :=
  match raw.toNat with
  | 0 => .uAlert
  | 2 => .uConnect
  | 4 => .uDisconnect
  | 5 => .uInfo
  | 6 => .uRelease
  | 7 => .uSetup
  | 8 => .uStatus
  | 9 => .uTxCeased
  | 10 => .uTxDemand
  | 15 => .uSdsData
  | _ => .unsupported

section Parser

variable (src : ℕ → UInt8) (nBits pos : ℕ) (out : CmceRecord)

/-- `parse_bsi`, for eight bits that are there. -/
def parseBsi : CmceRecord :=
  let out := { out with
    bsiCircuitModeType := (getBits src pos 3).toUInt8
    bsiEncryptionFlag := (getBits src (pos + 3) 1).toUInt8
    bsiCommunicationType := (getBits src (pos + 4) 2).toUInt8 }
  if out.bsiCircuitModeType == 0 then
    { out with bsiSpeechService := (getBits src (pos + 6) 2).toUInt8 }
  else { out with bsiSlotsPerFrame := (getBits src (pos + 6) 2).toUInt8 }

/-- The called party, whose type identifier was read: the record and the cursor, and nothing where
it does not fit. -/
def parseCalledParty : Option (CmceRecord × ℕ) :=
  match out.calledPartyTypeIdentifier.toNat with
  | 0 => if pos + 8 > nBits then none
      else some ({ out with calledPartySna := (getBits src pos 8).toUInt8 }, pos + 8)
  | 1 => if pos + 24 > nBits then none
      else some ({ out with calledPartySsi := getBits src pos 24 }, pos + 24)
  | 2 => if pos + 48 > nBits then none
      else some ({ out with
        calledPartySsi := getBits src pos 24
        calledPartyExtension := getBits src (pos + 24) 24 }, pos + 24 + 24)
  | _ => some (out, pos)

/-- The o-bit, if it is there. -/
def parseOBit : CmceRecord :=
  if pos + 1 ≤ nBits then { out with oBit := (getBits src pos 1).toUInt8 } else out

/-- A `CMCE_U_SETUP` behind the basic service information. -/
def parseSetupCall : CmceRecord × Int :=
  let out := { out with
    requestToTransmitSendData := (getBits src pos 1).toUInt8
    callPriority := (getBits src (pos + 1) 4).toUInt8
    clirControl := (getBits src (pos + 1 + 4) 2).toUInt8
    calledPartyTypeIdentifier := (getBits src (pos + 1 + 4 + 2) 2).toUInt8 }
  match parseCalledParty src nBits (pos + 1 + 4 + 2 + 2) out with
  | none => (out, -1)
  | some (out, pos) => (parseOBit src nBits pos out, 0)

/-- `CMCE_U_SETUP`. -/
def parseSetup : CmceRecord × Int :=
  if pos + 5 + 1 + 1 + 8 + 1 + 4 + 2 + 2 > nBits then (out, -1)
  else
    let out := { out with
      areaSelection := (getBits src pos 4).toUInt8
      hookMethodSelection := (getBits src (pos + 4) 1).toUInt8
      simplexDuplexSelection := (getBits src (pos + 4 + 1) 1).toUInt8 }
    parseSetupCall src nBits (pos + 4 + 1 + 1 + 8) (parseBsi src (pos + 4 + 1 + 1) out)

/-- `CMCE_U_TX_DEMAND`. -/
def parseTxDemand : CmceRecord × Int :=
  if pos + 14 + 2 + 1 + 1 > nBits then (out, -1)
  else
    let out := { out with
      callIdentifier := (getBits src pos 14).toUInt16
      txDemandPriority := (getBits src (pos + 14) 2).toUInt8
      encryptionControl := (getBits src (pos + 14 + 2) 1).toUInt8
      reserved := (getBits src (pos + 14 + 2 + 1) 1).toUInt8 }
    (parseOBit src nBits (pos + 14 + 2 + 1 + 1) out, 0)

/-- `CMCE_U_TX_CEASED`. -/
def parseTxCeased : CmceRecord × Int :=
  if pos + 14 > nBits then (out, -1)
  else
    let out := { out with callIdentifier := (getBits src pos 14).toUInt16 }
    (parseOBit src nBits (pos + 14) out, 0)

/-- `CMCE_U_RELEASE` and `CMCE_U_DISCONNECT`. -/
def parseRelease : CmceRecord × Int :=
  if pos + 14 + 5 > nBits then (out, -1)
  else
    let out := { out with
      callIdentifier := (getBits src pos 14).toUInt16
      disconnectCause := (getBits src (pos + 14) 5).toUInt8 }
    (parseOBit src nBits (pos + 14 + 5) out, 0)

/-- The user data of a `CMCE_U_SDS_DATA`. -/
def parseSdsUserData : CmceRecord × Int :=
  if out.shortDataTypeIdentifier == 3 then
    if pos + 11 > nBits then ({ out with sdsTruncated := 1 }, 0)
    else
      let out := { out with sdsLengthIndicator := (getBits src pos 11).toUInt16 }
      let pos := pos + 11
      let out := if pos + 8 ≤ nBits then
        { out with sdsProtocolId := (getBits src pos 8).toUInt8 } else out
      ({ out with sdsTruncated := 1 }, 0)
  else
    let want := if out.shortDataTypeIdentifier == 0 then 16
      else if out.shortDataTypeIdentifier == 1 then 32 else 64
    -- one call of `get_bits` reads 32 bits at most
    let take := min (min (nBits - pos) want) 32
    let out := if take > 0 then { out with sdsUserData := getBits src pos take } else out
    let out := { out with sdsUserDataBits := take.toUInt8 }
    let out := if take < want then { out with sdsTruncated := 1 } else out
    (parseOBit src nBits (pos + take) out, 0)

/-- `CMCE_U_SDS_DATA`: what there is of it. -/
def parseSdsData : CmceRecord × Int :=
  if pos + 4 + 2 > nBits then (out, -1)
  else
    let out := { out with
      areaSelection := (getBits src pos 4).toUInt8
      calledPartyTypeIdentifier := (getBits src (pos + 4) 2).toUInt8 }
    match parseCalledParty src nBits (pos + 4 + 2) out with
    | none => ({ out with sdsTruncated := 1 }, 0)
    | some (out, pos) =>
      if pos + 2 > nBits then ({ out with sdsTruncated := 1 }, 0)
      else
        parseSdsUserData src nBits (pos + 2)
          { out with shortDataTypeIdentifier := (getBits src pos 2).toUInt8 }

/-- `CMCE_U_STATUS`. -/
def parseStatus : CmceRecord × Int :=
  if pos + 4 + 2 > nBits then (out, -1)
  else
    let out := { out with
      areaSelection := (getBits src pos 4).toUInt8
      calledPartyTypeIdentifier := (getBits src (pos + 4) 2).toUInt8 }
    match parseCalledParty src nBits (pos + 4 + 2) out with
    | none => (out, -1)
    | some (out, pos) =>
      if pos + 16 > nBits then (out, -1)
      else
        let out := { out with preCodedStatus := (getBits src pos 16).toUInt16 }
        (parseOBit src nBits (pos + 16) out, 0)

/-- The other PDU types: the call identifier, if it is there. -/
def parseCallIdentifier : CmceRecord × Int :=
  if pos + 14 ≤ nBits then ({ out with callIdentifier := (getBits src pos 14).toUInt16 }, 0)
  else (out, 0)

end Parser

/-- `tetra_cmce_parse`: the record and the result. -/
def tetraCmceParse (src : ℕ → UInt8) (nBits : ℕ) : CmceRecord × Int :=
  if nBits < 5 then ({}, -1)
  else
    let out : CmceRecord := { pduType := mapPduType (getBits src 0 5) }
    match out.pduType with
    | .unsupported => (out, -2)
    | .uSetup => parseSetup src nBits 5 out
    | .uTxDemand => parseTxDemand src nBits 5 out
    | .uTxCeased => parseTxCeased src nBits 5 out
    | .uRelease | .uDisconnect => parseRelease src nBits 5 out
    | .uSdsData => parseSdsData src nBits 5 out
    | .uStatus => parseStatus src nBits 5 out
    | _ => parseCallIdentifier src nBits 5 out

/-! ## The PDUs -/

/-- The basic service information; the last field is the speech service of a TCH/S, and the slots
per frame otherwise. -/
structure BasicService where
  circuitModeType : BitVec 3
  encryptionFlag : BitVec 1
  communicationType : BitVec 2
  service : BitVec 2
deriving DecidableEq, Repr

/-- The called party: a short number, an SSI, or an SSI with its extension. -/
inductive CalledParty
  | sna (sna : BitVec 8)
  | ssi (ssi : BitVec 24)
  | tsi (ssi extension : BitVec 24)
deriving DecidableEq, Repr

/-- An uplink PDU up to its o-bit. -/
inductive UPdu
  | setup (area : BitVec 4) (hook simplex : BitVec 1) (bsi : BasicService) (request : BitVec 1)
    (priority : BitVec 4) (clir : BitVec 2) (called : CalledParty)
  | txDemand (callId : BitVec 14) (priority : BitVec 2) (encryption reserved : BitVec 1)
  | txCeased (callId : BitVec 14)
  | connect (callId : BitVec 14) (hook simplex : BitVec 1)
  | release (callId : BitVec 14) (cause : BitVec 5)
  | disconnect (callId : BitVec 14) (cause : BitVec 5)
  | status (area : BitVec 4) (called : CalledParty) (code : BitVec 16)
deriving DecidableEq, Repr

def BasicService.encode (s : BasicService) : List Bool :=
  onAir s.circuitModeType ++ (onAir s.encryptionFlag ++ (onAir s.communicationType ++
    onAir s.service))

/-- The called party type identifier. -/
def CalledParty.typeIdentifier : CalledParty → BitVec 2
  | sna _ => 0
  | ssi _ => 1
  | tsi _ _ => 2

def CalledParty.address : CalledParty → List Bool
  | sna n => onAir n
  | ssi s => onAir s
  | tsi s e => onAir s ++ onAir e

namespace UPdu

/-- The PDU type. -/
def pduType : UPdu → CmcePduType
  | setup .. => .uSetup
  | txDemand .. => .uTxDemand
  | txCeased .. => .uTxCeased
  | connect .. => .uConnect
  | release .. => .uRelease
  | disconnect .. => .uDisconnect
  | status .. => .uStatus

/-- Its code. -/
def typeCode : UPdu → BitVec 5
  | setup .. => 7
  | txDemand .. => 10
  | txCeased .. => 9
  | connect .. => 2
  | release .. => 6
  | disconnect .. => 4
  | status .. => 8

/-- The fields between the PDU type and the o-bit. -/
def fields : UPdu → List Bool
  | setup area hook simplex bsi request priority clir called =>
      onAir area ++ (onAir hook ++ (onAir simplex ++ (bsi.encode ++ (onAir request ++
        (onAir priority ++ (onAir clir ++ (onAir called.typeIdentifier ++ called.address)))))))
  | txDemand callId priority encryption reserved =>
      onAir callId ++ (onAir priority ++ (onAir encryption ++ onAir reserved))
  | txCeased callId => onAir callId
  | connect callId hook simplex => onAir callId ++ (onAir hook ++ onAir simplex)
  | release callId cause => onAir callId ++ onAir cause
  | disconnect callId cause => onAir callId ++ onAir cause
  | status area called code =>
      onAir area ++ (onAir called.typeIdentifier ++ (called.address ++ onAir code))

/-- The PDU with its o-bit. -/
def encode (p : UPdu) (o : BitVec 1) : List Bool := onAir p.typeCode ++ (p.fields ++ onAir o)

end UPdu

/-! ### What they are in the record -/

def BasicService.record (s : BasicService) (out : CmceRecord) : CmceRecord :=
  let out := { out with
    bsiCircuitModeType := s.circuitModeType.toNat.toUInt8
    bsiEncryptionFlag := s.encryptionFlag.toNat.toUInt8
    bsiCommunicationType := s.communicationType.toNat.toUInt8 }
  if s.circuitModeType = 0 then { out with bsiSpeechService := s.service.toNat.toUInt8 }
  else { out with bsiSlotsPerFrame := s.service.toNat.toUInt8 }

def CalledParty.record (c : CalledParty) (out : CmceRecord) : CmceRecord :=
  match c with
  | sna n => { out with calledPartySna := n.toNat.toUInt8 }
  | ssi s => { out with calledPartySsi := s.toNat.toUInt32 }
  | tsi s e => { out with
      calledPartySsi := s.toNat.toUInt32
      calledPartyExtension := e.toNat.toUInt32 }

/-- The PDU with all its fields up to the o-bit. -/
def UPdu.body : UPdu → CmceRecord
  | setup area hook simplex bsi request priority clir called =>
      called.record { bsi.record
        { pduType := .uSetup
          areaSelection := area.toNat.toUInt8
          hookMethodSelection := hook.toNat.toUInt8
          simplexDuplexSelection := simplex.toNat.toUInt8 } with
        requestToTransmitSendData := request.toNat.toUInt8
        callPriority := priority.toNat.toUInt8
        clirControl := clir.toNat.toUInt8
        calledPartyTypeIdentifier := called.typeIdentifier.toNat.toUInt8 }
  | txDemand callId priority encryption reserved =>
    { pduType := .uTxDemand
      callIdentifier := callId.toNat.toUInt16
      txDemandPriority := priority.toNat.toUInt8
      encryptionControl := encryption.toNat.toUInt8
      reserved := reserved.toNat.toUInt8 }
  | txCeased callId => { pduType := .uTxCeased, callIdentifier := callId.toNat.toUInt16 }
  | connect callId hook simplex =>
    { pduType := .uConnect
      callIdentifier := callId.toNat.toUInt16
      hookMethodSelection := hook.toNat.toUInt8
      simplexDuplexSelection := simplex.toNat.toUInt8 }
  | release callId cause =>
    { pduType := .uRelease
      callIdentifier := callId.toNat.toUInt16
      disconnectCause := cause.toNat.toUInt8 }
  | disconnect callId cause =>
    { pduType := .uDisconnect
      callIdentifier := callId.toNat.toUInt16
      disconnectCause := cause.toNat.toUInt8 }
  | status area called code =>
    { called.record
      { pduType := .uStatus
        areaSelection := area.toNat.toUInt8
        calledPartyTypeIdentifier := called.typeIdentifier.toNat.toUInt8 } with
      preCodedStatus := code.toNat.toUInt16 }

/-- The PDU with all its fields, and its o-bit. -/
def UPdu.record (p : UPdu) (o : BitVec 1) : CmceRecord := { p.body with oBit := o.toNat.toUInt8 }

/-- What the parser surfaces of it. -/
def UPdu.surfaced (p : UPdu) (o : BitVec 1) : CmceRecord :=
  match p with
  | connect callId _ _ => { pduType := .uConnect, callIdentifier := callId.toNat.toUInt16 }
  | p => p.record o

/-! ## Reading fields that were written -/

variable {src : ℕ → UInt8} {nBits pos : ℕ} {out : CmceRecord} {w : ℕ} {x : BitVec w}

theorem toNat_getBits (hw : w ≤ 32) (h : Written (srcBit src) pos (onAir x)) :
    (getBits src pos w).toNat = x.toNat := by
  rw [Written, length_onAir] at h
  rw [toNat_shiftIn (srcBit src) (k := pos) rfl (fun _ ↦ rfl) hw, h, number_onAir]

theorem getBits_eq (hw : w ≤ 32) (h : Written (srcBit src) pos (onAir x)) :
    getBits src pos w = x.toNat.toUInt32 := by
  have hpow : 2 ^ w ≤ 2 ^ 32 := Nat.pow_le_pow_right Nat.zero_lt_two hw
  refine UInt32.toNat_inj.1 ((toNat_getBits hw h).trans ?_)
  rw [Nat.toUInt32, UInt32.toNat_ofNat', Nat.mod_eq_of_lt (x.isLt.trans_le hpow)]

theorem getBits_toUInt16 (hw : w ≤ 32) (h : Written (srcBit src) pos (onAir x)) :
    (getBits src pos w).toUInt16 = x.toNat.toUInt16 := by
  refine UInt16.toNat_inj.1 ?_
  rw [UInt32.toNat_toUInt16, toNat_getBits hw h, Nat.toUInt16, UInt16.toNat_ofNat']

theorem getBits_toUInt8 (hw : w ≤ 32) (h : Written (srcBit src) pos (onAir x)) :
    (getBits src pos w).toUInt8 = x.toNat.toUInt8 := by
  refine UInt8.toNat_inj.1 ?_
  rw [UInt32.toNat_toUInt8, toNat_getBits hw h, Nat.toUInt8, UInt8.toNat_ofNat']

theorem parseOBit_eq {o : BitVec 1} (h : Written (srcBit src) pos (onAir o))
    (hn : pos + 1 ≤ nBits) :
    parseOBit src nBits pos out = { out with oBit := o.toNat.toUInt8 } := by
  rw [parseOBit, if_pos hn, getBits_toUInt8 (by decide) h]

theorem parseBsi_eq {s : BasicService} (h : Written (srcBit src) pos s.encode) :
    parseBsi src pos out = s.record out := by
  simp only [BasicService.encode, written_append, length_onAir] at h
  obtain ⟨hmode, hflag, htype, hservice⟩ := h
  have hzero : (s.circuitModeType.toNat.toUInt8 == 0) = decide (s.circuitModeType = 0) := by
    generalize s.circuitModeType = m
    revert m
    decide
  rw [parseBsi, BasicService.record, getBits_toUInt8 (by decide) hmode,
    getBits_toUInt8 (by decide) hflag, getBits_toUInt8 (by decide) htype,
    getBits_toUInt8 (by decide) hservice]
  dsimp only
  rw [hzero]
  by_cases h0 : s.circuitModeType = 0
  · rw [if_pos h0, if_pos (decide_eq_true h0)]
  · rw [if_neg h0, if_neg (by simpa using h0)]

theorem parseCalledParty_eq {c : CalledParty}
    (hc : out.calledPartyTypeIdentifier = c.typeIdentifier.toNat.toUInt8)
    (h : Written (srcBit src) pos c.address) (hn : pos + c.address.length ≤ nBits) :
    parseCalledParty src nBits pos out = some (c.record out, pos + c.address.length) := by
  have hcode : out.calledPartyTypeIdentifier.toNat = c.typeIdentifier.toNat := by
    rw [hc]
    cases c <;> rfl
  rw [parseCalledParty, hcode]
  cases c with
  | sna n =>
      change pos + 8 ≤ nBits at hn
      rw [getBits_toUInt8 (by decide) h]
      exact if_neg (Nat.not_lt.2 hn)
  | ssi s =>
      change pos + 24 ≤ nBits at hn
      rw [getBits_eq (by decide) h]
      exact if_neg (Nat.not_lt.2 hn)
  | tsi s e =>
      obtain ⟨hs, he⟩ := written_append.1 h
      rw [length_onAir] at he
      change pos + 48 ≤ nBits at hn
      rw [getBits_eq (by decide) hs, getBits_eq (by decide) he]
      exact if_neg (Nat.not_lt.2 hn)

/-! ## The parser gets back what was encoded -/

section Encode

variable {o : BitVec 1}

theorem mapPduType_encode {p : UPdu} (h : Written (srcBit src) 0 (onAir p.typeCode)) :
    mapPduType (getBits src 0 5) = p.pduType := by
  rw [mapPduType, toNat_getBits (by decide) h]
  cases p <;> rfl

/-- The PDU is in the buffer, and its fields are in it behind the PDU type. -/
structure InBuffer (src : ℕ → UInt8) (nBits : ℕ) (p : UPdu) (o : BitVec 1) : Prop where
  written : Written (srcBit src) 0 (p.encode o)
  le : (p.encode o).length ≤ nBits

namespace InBuffer

variable {p : UPdu} (h : InBuffer src nBits p o)
include h

theorem fields : Written (srcBit src) 5 p.fields ∧ Written (srcBit src) (5 + p.fields.length)
    (onAir o) := by
  have hw := h.written
  rw [UPdu.encode, written_append, written_append, length_onAir] at hw
  exact hw.2

theorem length_le : 5 + p.fields.length + 1 ≤ nBits := by
  have hle := h.le
  simp only [UPdu.encode, List.length_append, length_onAir] at hle
  omega

/-- The parser comes to the branch of the PDU. -/
theorem tetraCmceParse_eq : tetraCmceParse src nBits =
    match p.pduType with
    | .unsupported => ({ pduType := p.pduType }, -2)
    | .uSetup => parseSetup src nBits 5 { pduType := p.pduType }
    | .uTxDemand => parseTxDemand src nBits 5 { pduType := p.pduType }
    | .uTxCeased => parseTxCeased src nBits 5 { pduType := p.pduType }
    | .uRelease | .uDisconnect => parseRelease src nBits 5 { pduType := p.pduType }
    | .uSdsData => parseSdsData src nBits 5 { pduType := p.pduType }
    | .uStatus => parseStatus src nBits 5 { pduType := p.pduType }
    | _ => parseCallIdentifier src nBits 5 { pduType := p.pduType } := by
  have hle := h.length_le
  have hw := h.written
  rw [UPdu.encode, written_append] at hw
  rw [tetraCmceParse, if_neg (by omega), mapPduType_encode hw.1]

end InBuffer

@[simp] theorem BasicService.length_encode (s : BasicService) : s.encode.length = 8 := by
  simp only [encode, List.length_append, length_onAir]

theorem parseSetupCall_eq {request : BitVec 1} {priority : BitVec 4} {clir : BitVec 2}
    {called : CalledParty}
    (h : Written (srcBit src) pos (onAir request ++ (onAir priority ++ (onAir clir ++
      (onAir called.typeIdentifier ++ (called.address ++ onAir o))))))
    (hle : pos + 1 + 4 + 2 + 2 + called.address.length + 1 ≤ nBits) :
    parseSetupCall src nBits pos out =
      ({ called.record { out with
          requestToTransmitSendData := request.toNat.toUInt8
          callPriority := priority.toNat.toUInt8
          clirControl := clir.toNat.toUInt8
          calledPartyTypeIdentifier := called.typeIdentifier.toNat.toUInt8 } with
        oBit := o.toNat.toUInt8 }, 0) := by
  simp only [written_append, length_onAir] at h
  obtain ⟨hreq, hprio, hclir, hcpti, haddr, ho⟩ := h
  rw [parseSetupCall, getBits_toUInt8 (by decide) hreq, getBits_toUInt8 (by decide) hprio,
    getBits_toUInt8 (by decide) hclir, getBits_toUInt8 (by decide) hcpti]
  dsimp only
  rw [parseCalledParty_eq (c := called) rfl haddr (by omega)]
  dsimp only
  rw [parseOBit_eq ho hle]

theorem parseSetup_eq {area : BitVec 4} {hook simplex : BitVec 1} {bsi : BasicService}
    {request : BitVec 1} {priority : BitVec 4} {clir : BitVec 2} {called : CalledParty}
    (h : InBuffer src nBits (.setup area hook simplex bsi request priority clir called) o) :
    parseSetup src nBits 5 { pduType := .uSetup } =
      ((UPdu.setup area hook simplex bsi request priority clir called).record o, 0) := by
  have hw := written_append.2 h.fields
  have hle := h.length_le
  simp only [UPdu.fields, List.length_append, length_onAir, BasicService.length_encode] at hle
  simp only [UPdu.fields, List.append_assoc] at hw
  obtain ⟨harea, hw⟩ := written_append.1 hw
  obtain ⟨hhook, hw⟩ := written_append.1 hw
  obtain ⟨hsimplex, hw⟩ := written_append.1 hw
  obtain ⟨hbsi, hw⟩ := written_append.1 hw
  simp only [length_onAir, BasicService.length_encode] at hhook hsimplex hbsi hw
  rw [parseSetup, if_neg (by omega), getBits_toUInt8 (by decide) harea,
    getBits_toUInt8 (by decide) hhook, getBits_toUInt8 (by decide) hsimplex]
  dsimp only
  rw [parseBsi_eq hbsi, parseSetupCall_eq hw (by omega)]
  rfl

theorem parseTxDemand_eq {callId : BitVec 14} {priority : BitVec 2} {encryption reserved : BitVec 1}
    (h : InBuffer src nBits (.txDemand callId priority encryption reserved) o) :
    parseTxDemand src nBits 5 { pduType := .uTxDemand } =
      ((UPdu.txDemand callId priority encryption reserved).record o, 0) := by
  obtain ⟨hfields, ho⟩ := h.fields
  have hle := h.length_le
  simp only [UPdu.fields, List.length_append, length_onAir] at ho hle
  simp only [UPdu.fields, written_append, length_onAir] at hfields
  obtain ⟨hid, hprio, henc, hres⟩ := hfields
  rw [parseTxDemand, if_neg (by omega)]
  dsimp only
  rw [getBits_toUInt16 (by decide) hid, getBits_toUInt8 (by decide) hprio,
    getBits_toUInt8 (by decide) henc, getBits_toUInt8 (by decide) hres,
    parseOBit_eq ho (by omega)]
  rfl

theorem parseTxCeased_eq {callId : BitVec 14} (h : InBuffer src nBits (.txCeased callId) o) :
    parseTxCeased src nBits 5 { pduType := .uTxCeased } =
      ((UPdu.txCeased callId).record o, 0) := by
  obtain ⟨hid, ho⟩ := h.fields
  have hle := h.length_le
  simp only [UPdu.fields, length_onAir] at hid ho hle
  rw [parseTxCeased, if_neg (by omega)]
  dsimp only
  rw [getBits_toUInt16 (by decide) hid, parseOBit_eq ho (by omega)]
  rfl

/-- The fields of a U-RELEASE and of a U-DISCONNECT. -/
theorem parseRelease_eq {callId : BitVec 14} {cause : BitVec 5} {t : CmcePduType}
    (hfields : Written (srcBit src) 5 (onAir callId ++ onAir cause))
    (ho : Written (srcBit src) (5 + 14 + 5) (onAir o)) (hle : 5 + 14 + 5 + 1 ≤ nBits) :
    parseRelease src nBits 5 { pduType := t } =
      ({ pduType := t
         callIdentifier := callId.toNat.toUInt16
         disconnectCause := cause.toNat.toUInt8
         oBit := o.toNat.toUInt8 }, 0) := by
  rw [written_append, length_onAir] at hfields
  rw [parseRelease, if_neg (by omega)]
  dsimp only
  rw [getBits_toUInt16 (by decide) hfields.1, getBits_toUInt8 (by decide) hfields.2,
    parseOBit_eq ho hle]

theorem parseStatus_eq {area : BitVec 4} {called : CalledParty} {code : BitVec 16}
    (h : InBuffer src nBits (.status area called code) o) :
    parseStatus src nBits 5 { pduType := .uStatus } =
      ((UPdu.status area called code).record o, 0) := by
  obtain ⟨hfields, ho⟩ := h.fields
  have hle := h.length_le
  simp only [UPdu.fields, List.length_append, length_onAir] at ho hle
  simp only [UPdu.fields, written_append, length_onAir] at hfields
  obtain ⟨harea, hcpti, haddr, hcode⟩ := hfields
  rw [parseStatus, if_neg (by omega)]
  dsimp only
  rw [getBits_toUInt8 (by decide) harea, getBits_toUInt8 (by decide) hcpti,
    parseCalledParty_eq (c := called) rfl haddr (by omega)]
  dsimp only
  rw [if_neg (by omega), getBits_toUInt16 (by decide) hcode,
    parseOBit_eq (by convert ho using 1; omega) (by omega)]
  refine Prod.ext ?_ rfl
  cases called <;> rfl

theorem parseCallIdentifier_eq {callId : BitVec 14} {hook simplex : BitVec 1}
    (h : InBuffer src nBits (.connect callId hook simplex) o) :
    parseCallIdentifier src nBits 5 { pduType := .uConnect } =
      ((UPdu.connect callId hook simplex).surfaced o, 0) := by
  obtain ⟨hfields, -⟩ := h.fields
  have hle := h.length_le
  simp only [UPdu.fields, List.length_append, length_onAir] at hle
  rw [UPdu.fields, written_append] at hfields
  rw [parseCallIdentifier, if_pos (by omega), getBits_toUInt16 (by decide) hfields.1]
  rfl

/-- **The parser gets back what was encoded**, but for the fields of a U-CONNECT behind the call
identifier.  There may be more bits behind the o-bit. -/
theorem tetraCmceParse_encode {p : UPdu} (h : InBuffer src nBits p o) :
    tetraCmceParse src nBits = (p.surfaced o, 0) := by
  rw [h.tetraCmceParse_eq]
  cases p with
  | setup => exact parseSetup_eq h
  | txDemand => exact parseTxDemand_eq h
  | txCeased => exact parseTxCeased_eq h
  | connect => exact parseCallIdentifier_eq h
  | release => exact parseRelease_eq h.fields.1 h.fields.2 h.length_le
  | disconnect => exact parseRelease_eq h.fields.1 h.fields.2 h.length_le
  | status => exact parseStatus_eq h

end Encode

/-! ### PDUs -/

/-- A buffer with these octets. -/
def octetBuffer (octets : List UInt8) (i : ℕ) : UInt8 := octets.getD i 0

/-- A U-SETUP to a TSI with an optional element behind it. -/
def tsiSetup : UPdu :=
  .setup 0 0 1 ⟨0, 0, 1, 0⟩ 1 3 0 (.tsi 2633617 1064961)

theorem tetraCmceParse_tsiSetup :
    tetraCmceParse (octetBuffer [0x38, 0x20, 0x93, 0x22, 0x82, 0xf9, 0x11, 0x04, 0x00, 0x18]) 80 =
      (tsiSetup.record 1, 0) :=
  tetraCmceParse_encode (p := tsiSetup) ⟨by decide, by decide⟩

/-- Of a U-CONNECT with hook signalling the hook method selection is lost. -/
theorem tetraCmceParse_connect :
    InBuffer (octetBuffer [0x10, 0x00, 0xb0]) 22 (.connect 5 1 0) 0 ∧
      (tetraCmceParse (octetBuffer [0x10, 0x00, 0xb0]) 22).1.hookMethodSelection = 0 ∧
      ((UPdu.connect 5 1 0).record 0).hookMethodSelection = 1 ∧
      tetraCmceParse (octetBuffer [0x10, 0x00, 0xb0]) 22 ≠ ((UPdu.connect 5 1 0).record 0, 0) :=
  ⟨⟨by decide, by decide⟩, by decide, by decide, by decide⟩

end TetraPhy.Sw
