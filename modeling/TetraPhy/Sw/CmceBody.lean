import Mathlib.Data.List.Basic

/-!
# Downlink PDU bodies

The ten CMCE body builders of `tetra_cmce_body.c` and the group-attach
acknowledgement builder of `tetra_grpack_body.c`.  Both files write an MSB-first
byte stream through the same `put_bits` helper, beginning at bit 0; here a body
is the list of its bits, so that the returned bit length is the list's length
and "returns 0" is the empty list.

Pointers are never null in the daemon, so the builders' null checks are left out.
-/

namespace TetraPhy.Sw

/-- `put_bits`: the low `nbits` bits of `value`, most significant first. -/
def putBits (value : UInt32) : Nat → List Bool
  | 0 => []
  | i + 1 => ((value >>> i.toUInt32) &&& 1 == 1) :: putBits value i

/-! ## CMCE bodies -/

/-- `cmce_meta_t`.  `memset` to zero is the default of every field. -/
structure CmceMeta where
  callIdentifier : UInt16 := 0
  callingPartySsi : UInt32 := 0
  callTimeOut : UInt8 := 0
  callTimeOutSetupPhase : UInt8 := 0
  hookMethodSelection : UInt8 := 0
  simplexDuplexSelection : UInt8 := 0
  transmissionGrant : UInt8 := 0
  transmissionRequestPermission : UInt8 := 0
  callPriority : UInt8 := 0
  callOwnership : UInt8 := 0
  encryptionControl : UInt8 := 0
  txReserved : UInt8 := 0
  disconnectCause : UInt8 := 0
  bsiCircuitModeType : UInt8 := 0
  bsiEncryptionFlag : UInt8 := 0
  bsiCommunicationType : UInt8 := 0
  bsiSpeechService : UInt8 := 0
  bsiSlotsPerFrame : UInt8 := 0
  sdsUdd : Fin 32 → UInt8 := fun _ ↦ 0
  sdsUddLen : UInt16 := 0
  preCodedStatus : UInt16 := 0

/-- `CMCE_TG_GRANTED`. -/
def cmceTgGranted : UInt8 := 0

def writeBsi (m : CmceMeta) : List Bool :=
  putBits (m.bsiCircuitModeType &&& 0x07).toUInt32 3 ++
  putBits (m.bsiEncryptionFlag &&& 0x01).toUInt32 1 ++
  putBits (m.bsiCommunicationType &&& 0x03).toUInt32 2 ++
  if m.bsiCircuitModeType &&& 0x07 == 0 then putBits (m.bsiSpeechService &&& 0x03).toUInt32 2
  else putBits (m.bsiSlotsPerFrame &&& 0x03).toUInt32 2

/-- The head all call-control bodies share: the PDU type and the call identifier. -/
def callHead (pduType : UInt32) (m : CmceMeta) : List Bool :=
  putBits pduType 5 ++ putBits (m.callIdentifier &&& 0x3FFF).toUInt32 14

def buildDSetup (m : CmceMeta) : List Bool :=
  callHead 7 m ++
  putBits (m.callTimeOut &&& 0x0F).toUInt32 4 ++
  putBits (m.hookMethodSelection &&& 0x01).toUInt32 1 ++
  putBits (m.simplexDuplexSelection &&& 0x01).toUInt32 1 ++
  writeBsi m ++
  putBits (m.transmissionGrant &&& 0x03).toUInt32 2 ++
  putBits (m.transmissionRequestPermission &&& 0x01).toUInt32 1 ++
  putBits (m.callPriority &&& 0x0F).toUInt32 4 ++
  if m.callingPartySsi != 0 then
    -- the calling party as a type-2 element, closed by the m-bit
    putBits 1 1 ++ putBits 0 1 ++ putBits 0 1 ++ putBits 1 1 ++ putBits 1 2 ++
    putBits (m.callingPartySsi &&& 0x00FFFFFF) 24 ++ putBits 0 1
  else putBits 0 1

def buildDCallProceeding (m : CmceMeta) : List Bool :=
  callHead 1 m ++
  putBits (m.callTimeOutSetupPhase &&& 0x07).toUInt32 3 ++
  putBits (m.hookMethodSelection &&& 0x01).toUInt32 1 ++
  putBits (m.simplexDuplexSelection &&& 0x01).toUInt32 1 ++
  putBits 0 1

def buildDConnect (m : CmceMeta) : List Bool :=
  callHead 2 m ++
  putBits (m.callTimeOut &&& 0x0F).toUInt32 4 ++
  putBits (m.hookMethodSelection &&& 0x01).toUInt32 1 ++
  putBits (m.simplexDuplexSelection &&& 0x01).toUInt32 1 ++
  putBits (m.transmissionGrant &&& 0x03).toUInt32 2 ++
  putBits (m.transmissionRequestPermission &&& 0x01).toUInt32 1 ++
  putBits (m.callOwnership &&& 0x01).toUInt32 1 ++
  -- o-bit, the call priority as the one type-2 element present, m-bit
  putBits 1 1 ++ putBits 1 1 ++ putBits (m.callPriority &&& 0x0F).toUInt32 4 ++
  putBits 0 1 ++ putBits 0 1 ++ putBits 0 1 ++ putBits 0 1

def buildDTxGranted (m : CmceMeta) : List Bool :=
  callHead 11 m ++
  putBits (m.transmissionGrant &&& 0x03).toUInt32 2 ++
  putBits (m.transmissionRequestPermission &&& 0x01).toUInt32 1 ++
  putBits (m.encryptionControl &&& 0x01).toUInt32 1 ++
  putBits (m.txReserved &&& 0x01).toUInt32 1 ++
  putBits 0 1

def buildDTxCeased (m : CmceMeta) : List Bool :=
  callHead 9 m ++ putBits (m.transmissionRequestPermission &&& 0x01).toUInt32 1 ++ putBits 0 1

def buildDRelease (m : CmceMeta) : List Bool :=
  callHead 6 m ++ putBits (m.disconnectCause &&& 0x1F).toUInt32 5 ++ putBits 0 1

def buildDConnectAck (m : CmceMeta) : List Bool :=
  callHead 3 m ++
  putBits (m.callTimeOut &&& 0x0F).toUInt32 4 ++
  putBits (m.transmissionGrant &&& 0x03).toUInt32 2 ++
  putBits (m.transmissionRequestPermission &&& 0x01).toUInt32 1 ++
  putBits 0 1

def buildDAlert (m : CmceMeta) : List Bool :=
  callHead 0 m ++
  putBits (m.callTimeOutSetupPhase &&& 0x07).toUInt32 3 ++
  putBits 1 1 ++
  putBits (m.simplexDuplexSelection &&& 0x01).toUInt32 1 ++
  putBits 0 1 ++ putBits 0 1

def buildDSdsData (m : CmceMeta) : List Bool :=
  if m.sdsUddLen == 0 || m.sdsUddLen > 24 then []
  else
    putBits 15 5 ++ putBits 1 2 ++
    putBits (m.callingPartySsi &&& 0x00FFFFFF) 24 ++
    putBits 3 2 ++
    putBits ((m.sdsUddLen.toUInt32 * 8) &&& 0x7FF) 11 ++
    ((List.range m.sdsUddLen.toNat).flatMap fun i ↦
      putBits (m.sdsUdd (Fin.ofNat 32 i)).toUInt32 8) ++
    putBits 0 1

def buildDStatus (m : CmceMeta) : List Bool :=
  putBits 8 5 ++ putBits 1 2 ++
  putBits (m.callingPartySsi &&& 0x00FFFFFF) 24 ++
  putBits m.preCodedStatus.toUInt32 16 ++
  putBits 0 1

/-! ## The group-attach acknowledgement body -/

/-- One record of `grpack_meta_t`. -/
structure GrpackRecord where
  atd : UInt8
  lifetime : UInt8
  classOfUsage : UInt8
  addrType : UInt8
  gssi : UInt32

def grpackRecord (r : GrpackRecord) : List Bool :=
  putBits (r.atd &&& 0x1).toUInt32 1 ++
  putBits (r.lifetime &&& 0x3).toUInt32 2 ++
  putBits (r.classOfUsage &&& 0x7).toUInt32 3 ++
  putBits (r.addrType &&& 0x3).toUInt32 2 ++
  putBits (r.gssi &&& 0x00FFFFFF) 24

/-- `tetra_grpack_build`: `records` are the `num_records` records in use. -/
def grpackBuild (acceptReject : UInt8) (records : List GrpackRecord) : List Bool :=
  if records.length > 3 then []
  else
    putBits 0xB 4 ++ putBits (acceptReject &&& 0x1).toUInt32 1 ++ putBits 0 1 ++
    if records.length = 0 then putBits 0 1 ++ putBits 0 1
    else
      putBits 1 1 ++ putBits 1 1 ++ putBits 0x7 4 ++
      putBits (6 + 32 * records.length.toUInt32) 11 ++
      putBits records.length.toUInt32 6 ++
      records.flatMap grpackRecord ++
      putBits 0 1

end TetraPhy.Sw
