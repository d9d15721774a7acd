import TetraPhy.Lib.OptionalParts
import TetraPhy.Sw.BodyWriter
import TetraPhy.Sw.CmceParser

/-!
# Downlink CMCE PDUs

The ten PDUs of `tetra_cmce_body.c` as a terminal reads them: the mandatory fields, the o-bit, and
where that is set the type-2 elements of the PDU, each with its p-bit, and the elements behind them.

| PDU               | type | type-2 elements, in order                                              |
|-------------------|------|------------------------------------------------------------------------|
| D-ALERT           | 0    | basic service information, notification indicator                      |
| D-CALL PROCEEDING | 1    | basic service information, call status, notification indicator         |
| D-CONNECT         | 2    | call priority, basic service information, temporary address,           |
|                   |      | notification indicator                                                 |
| D-CONNECT ACK     | 3    | notification indicator                                                 |
| D-RELEASE         | 6    | notification indicator                                                 |
| D-SETUP           | 7    | notification indicator, temporary address, calling party               |
| D-STATUS          | 8    |                                                                        |
| D-TX CEASED       | 9    | notification indicator                                                 |
| D-TX GRANTED      | 11   | notification indicator, transmitting party                             |
| D-SDS-DATA        | 15   |                                                                        |
-/

namespace TetraPhy.Sw

open AirOrder FieldReader OptionalParts

/-- A calling or a transmitting party: an SSI, or an SSI with its extension. -/
inductive CallingParty
  | ssi (ssi : BitVec 24)
  | tsi (ssi extension : BitVec 24)
deriving DecidableEq, Repr

/-- The user data of a short data message, by its type. -/
inductive ShortData
  | one (data : BitVec 16)
  | two (data : BitVec 32)
  | three (data : BitVec 64)
  | four (data : List Bool)
deriving DecidableEq, Repr

/-- A downlink PDU. -/
inductive DPdu
  | alert (callId : BitVec 14) (setupTimeOut : BitVec 3) (reserved simplex queued : BitVec 1)
    (bsi : Option BasicService) (notification : Option (BitVec 6)) (others : List Element)
  | callProceeding (callId : BitVec 14) (setupTimeOut : BitVec 3) (hook simplex : BitVec 1)
    (bsi : Option BasicService) (callStatus : Option (BitVec 3))
    (notification : Option (BitVec 6)) (others : List Element)
  | connect (callId : BitVec 14) (timeOut : BitVec 4) (hook simplex : BitVec 1)
    (grant : BitVec 2) (permission ownership : BitVec 1) (priority : Option (BitVec 4))
    (bsi : Option BasicService) (temporaryAddress : Option (BitVec 24))
    (notification : Option (BitVec 6)) (others : List Element)
  | connectAck (callId : BitVec 14) (timeOut : BitVec 4) (grant : BitVec 2) (permission : BitVec 1)
    (notification : Option (BitVec 6)) (others : List Element)
  | release (callId : BitVec 14) (cause : BitVec 5) (notification : Option (BitVec 6))
    (others : List Element)
  | setup (callId : BitVec 14) (timeOut : BitVec 4) (hook simplex : BitVec 1) (bsi : BasicService)
    (grant : BitVec 2) (permission : BitVec 1) (priority : BitVec 4)
    (notification : Option (BitVec 6)) (temporaryAddress : Option (BitVec 24))
    (calling : Option CallingParty) (others : List Element)
  | status (calling : CallingParty) (code : BitVec 16) (others : List Element)
  | txCeased (callId : BitVec 14) (permission : BitVec 1) (notification : Option (BitVec 6))
    (others : List Element)
  | txGranted (callId : BitVec 14) (grant : BitVec 2) (permission encryption reserved : BitVec 1)
    (notification : Option (BitVec 6)) (transmitting : Option CallingParty) (others : List Element)
  | sdsData (calling : CallingParty) (data : ShortData) (others : List Element)
deriving DecidableEq, Repr

/-! ## Reading -/

def readBasicService (bits : List Bool) : Option (BasicService × List Bool) := do
  let (circuitModeType, bits) ← readWord 3 bits
  let (encryptionFlag, bits) ← readWord 1 bits
  let (communicationType, bits) ← readWord 2 bits
  let (service, bits) ← readWord 2 bits
  some ({ circuitModeType, encryptionFlag, communicationType, service }, bits)

/-- A party behind its type identifier, of which two values are reserved. -/
def readCallingParty (bits : List Bool) : Option (CallingParty × List Bool) := do
  let (typeIdentifier, bits) ← readWord 2 bits
  if typeIdentifier = 1 then
    let (ssi, bits) ← readWord 24 bits
    some (.ssi ssi, bits)
  else if typeIdentifier = 2 then
    let (ssi, bits) ← readWord 24 bits
    let (extension, bits) ← readWord 24 bits
    some (.tsi ssi extension, bits)
  else none

/-- User data behind its type identifier. -/
def readShortData (bits : List Bool) : Option (ShortData × List Bool) := do
  let (typeIdentifier, bits) ← readWord 2 bits
  if typeIdentifier = 0 then
    let (data, bits) ← readWord 16 bits
    some (.one data, bits)
  else if typeIdentifier = 1 then
    let (data, bits) ← readWord 32 bits
    some (.two data, bits)
  else if typeIdentifier = 2 then
    let (data, bits) ← readWord 64 bits
    some (.three data, bits)
  else
    let (n, bits) ← readField 11 bits
    if n ≤ bits.length then some (.four (bits.take n), bits.drop n) else none

/-- The type-2 elements of a PDU that has a notification indicator only. -/
def readNotification : List Bool → Option (Option (BitVec 6) × List Bool) :=
  readFlagged (readWord 6)

/-- PDUs without type-2 elements. -/
def readNone (bits : List Bool) : Option (Unit × List Bool) := some ((), bits)

namespace DPdu

def readAlert (bits : List Bool) : Option (DPdu × List Bool) := do
  let (callId, bits) ← readWord 14 bits
  let (setupTimeOut, bits) ← readWord 3 bits
  let (reserved, bits) ← readWord 1 bits
  let (simplex, bits) ← readWord 1 bits
  let (queued, bits) ← readWord 1 bits
  let (((bsi, notification), others), bits) ← readOptionals (none, none) (fun bits ↦ do
    let (bsi, bits) ← readFlagged readBasicService bits
    let (notification, bits) ← readNotification bits
    some ((bsi, notification), bits)) bits
  some (.alert callId setupTimeOut reserved simplex queued bsi notification others, bits)

def readCallProceeding (bits : List Bool) : Option (DPdu × List Bool) := do
  let (callId, bits) ← readWord 14 bits
  let (setupTimeOut, bits) ← readWord 3 bits
  let (hook, bits) ← readWord 1 bits
  let (simplex, bits) ← readWord 1 bits
  let (((bsi, callStatus, notification), others), bits) ←
    readOptionals (none, none, none) (fun bits ↦ do
      let (bsi, bits) ← readFlagged readBasicService bits
      let (callStatus, bits) ← readFlagged (readWord 3) bits
      let (notification, bits) ← readNotification bits
      some ((bsi, callStatus, notification), bits)) bits
  some (.callProceeding callId setupTimeOut hook simplex bsi callStatus notification others, bits)

/-- The type-2 elements of a D-CONNECT. -/
def readConnectType2 (bits : List Bool) :
    Option ((Option (BitVec 4) × Option BasicService × Option (BitVec 24) × Option (BitVec 6)) ×
      List Bool) := do
  let (priority, bits) ← readFlagged (readWord 4) bits
  let (bsi, bits) ← readFlagged readBasicService bits
  let (address, bits) ← readFlagged (readWord 24) bits
  let (notification, bits) ← readNotification bits
  some ((priority, bsi, address, notification), bits)

def readConnect (bits : List Bool) : Option (DPdu × List Bool) := do
  let (callId, bits) ← readWord 14 bits
  let (timeOut, bits) ← readWord 4 bits
  let (hook, bits) ← readWord 1 bits
  let (simplex, bits) ← readWord 1 bits
  let (grant, bits) ← readWord 2 bits
  let (permission, bits) ← readWord 1 bits
  let (ownership, bits) ← readWord 1 bits
  let (((priority, bsi, address, notification), others), bits) ←
    readOptionals (none, none, none, none) readConnectType2 bits
  some (.connect callId timeOut hook simplex grant permission ownership priority bsi address
    notification others, bits)

def readConnectAck (bits : List Bool) : Option (DPdu × List Bool) := do
  let (callId, bits) ← readWord 14 bits
  let (timeOut, bits) ← readWord 4 bits
  let (grant, bits) ← readWord 2 bits
  let (permission, bits) ← readWord 1 bits
  let ((notification, others), bits) ← readOptionals none readNotification bits
  some (.connectAck callId timeOut grant permission notification others, bits)

def readRelease (bits : List Bool) : Option (DPdu × List Bool) := do
  let (callId, bits) ← readWord 14 bits
  let (cause, bits) ← readWord 5 bits
  let ((notification, others), bits) ← readOptionals none readNotification bits
  some (.release callId cause notification others, bits)

/-- The type-2 elements of a D-SETUP. -/
def readSetupType2 (bits : List Bool) :
    Option ((Option (BitVec 6) × Option (BitVec 24) × Option CallingParty) × List Bool) := do
  let (notification, bits) ← readNotification bits
  let (address, bits) ← readFlagged (readWord 24) bits
  let (calling, bits) ← readFlagged readCallingParty bits
  some ((notification, address, calling), bits)

def readSetup (bits : List Bool) : Option (DPdu × List Bool) := do
  let (callId, bits) ← readWord 14 bits
  let (timeOut, bits) ← readWord 4 bits
  let (hook, bits) ← readWord 1 bits
  let (simplex, bits) ← readWord 1 bits
  let (bsi, bits) ← readBasicService bits
  let (grant, bits) ← readWord 2 bits
  let (permission, bits) ← readWord 1 bits
  let (priority, bits) ← readWord 4 bits
  let (((notification, address, calling), others), bits) ←
    readOptionals (none, none, none) readSetupType2 bits
  some (.setup callId timeOut hook simplex bsi grant permission priority notification address
    calling others, bits)

def readStatus (bits : List Bool) : Option (DPdu × List Bool) := do
  let (calling, bits) ← readCallingParty bits
  let (code, bits) ← readWord 16 bits
  let ((_, others), bits) ← readOptionals () readNone bits
  some (.status calling code others, bits)

def readTxCeased (bits : List Bool) : Option (DPdu × List Bool) := do
  let (callId, bits) ← readWord 14 bits
  let (permission, bits) ← readWord 1 bits
  let ((notification, others), bits) ← readOptionals none readNotification bits
  some (.txCeased callId permission notification others, bits)

def readTxGranted (bits : List Bool) : Option (DPdu × List Bool) := do
  let (callId, bits) ← readWord 14 bits
  let (grant, bits) ← readWord 2 bits
  let (permission, bits) ← readWord 1 bits
  let (encryption, bits) ← readWord 1 bits
  let (reserved, bits) ← readWord 1 bits
  let (((notification, transmitting), others), bits) ← readOptionals (none, none) (fun bits ↦ do
    let (notification, bits) ← readNotification bits
    let (transmitting, bits) ← readFlagged readCallingParty bits
    some ((notification, transmitting), bits)) bits
  some (.txGranted callId grant permission encryption reserved notification transmitting others,
    bits)

def readSdsData (bits : List Bool) : Option (DPdu × List Bool) := do
  let (calling, bits) ← readCallingParty bits
  let (data, bits) ← readShortData bits
  let ((_, others), bits) ← readOptionals () readNone bits
  some (.sdsData calling data others, bits)

/-- A PDU, and the bits behind it. -/
def read (bits : List Bool) : Option (DPdu × List Bool) := do
  let (pduType, bits) ← readField 5 bits
  match pduType with
  | 0 => readAlert bits
  | 1 => readCallProceeding bits
  | 2 => readConnect bits
  | 3 => readConnectAck bits
  | 6 => readRelease bits
  | 7 => readSetup bits
  | 8 => readStatus bits
  | 9 => readTxCeased bits
  | 11 => readTxGranted bits
  | 15 => readSdsData bits
  | _ => none

end DPdu

end TetraPhy.Sw
