import Mathlib.Data.Nat.Notation
import Mathlib.Order.Basic

/-!
# The uplink block parser

`tetra_ul_mac_access_parser.v`: the fields of a decoded SCH/HU block as registers.  Bit `i` of
`info` is the bit `i` on air; a field is read with its first bit on air highest.

A MAC-ACCESS pulses `pdu_valid` and a MAC-END-HU pulses `ul_continuation_valid`, which leaves
the MAC-ACCESS fields alone.  The END carries no address: `ul_continuation_ssi` is that of the
last fragmented MAC-ACCESS.
-/

namespace TetraPhy.Rx

/-- The field of `n` bits from bit `start` of a block. -/
def field (info : BitVec 92) (start n : ℕ) : BitVec n := (info.extractLsb' start n).reverse

/-- The registers of `tetra_ul_mac_access_parser`, as reset leaves them. -/
structure MacAccessParser where
  pduType : Bool := false
  fillBit : Bool := false
  encryptionMode : Bool := false
  ulAddrType : BitVec 2 := 0#2
  ulIssi : BitVec 24 := 0#24
  ulEventLabel : BitVec 10 := 0#10
  optionalFieldFlag : Bool := false
  ulFragFlag : Bool := false
  ulReservationReq : BitVec 4 := 0#4
  ulLengthInd : BitVec 5 := 0#5
  mmPduType : BitVec 4 := 0#4
  locUpdType : BitVec 3 := 0#3
  rawInfoBits : BitVec 92 := 0#92
  pduValid : Bool := false
  pduCount : BitVec 16 := 0#16
  blAckValid : Bool := false
  blAckNr : Bool := false
  blAckCount : BitVec 16 := 0#16
  ulLlcIsBlData : Bool := false
  ulLlcIsBlAck : Bool := false
  ulLlcHasFcs : Bool := false
  ulLlcNsValid : Bool := false
  ulLlcNs : Bool := false
  ulLlcNrValid : Bool := false
  ulLlcNr : Bool := false
  ulLlcIsMleMm : Bool := false
  ulLlcMmPduType : BitVec 4 := 0#4
  ulLlcMmLocUpdType : BitVec 3 := 0#3
  ulLlcPduType : BitVec 4 := 0#4
  ulMleDisc : BitVec 3 := 0#3
  ulPduIsContinuation : Bool := false
  ulContinuationValid : Bool := false
  ulContinuationBits : BitVec 85 := 0#85
  ulContinuationSsi : BitVec 24 := 0#24
  ulContinuationCount : BitVec 16 := 0#16
deriving DecidableEq, Repr

/-- The input ports. -/
structure ParserPorts where
  infoBits : BitVec 92 := 0#92
  infoValid : Bool := false
  crcOk : Bool := false
deriving DecidableEq, Repr

namespace MacAccessParser

section Fields

variable (info : BitVec 92)

def fPduType : Bool := info.getLsbD 0

def fAddrType : BitVec 2 := field info 3 2

def fIssi : BitVec 24 := field info 5 24

def fOptFlag : Bool := info.getLsbD 29

def fLengthOrCap : Bool := info.getLsbD 30

def fFragFlag : Bool := info.getLsbD 31

def tlSduStart : ℕ := if fOptFlag info then 36 else 30

def fLlcLinkType : Bool := info.getLsbD (tlSduStart info)

def fLlcHasFcs : Bool := info.getLsbD (tlSduStart info + 1)

def fLlcBlPduType : BitVec 2 := field info (tlSduStart info + 2) 2

def fIsBlAck : Bool := !fLlcLinkType info && fLlcBlPduType info == 3#2

def fIsBlAdata : Bool := !fLlcLinkType info && fLlcBlPduType info == 0#2

def fIsBlData : Bool := !fLlcLinkType info && fLlcBlPduType info == 1#2

def fNsBit : Bool := info.getLsbD (tlSduStart info + 4)

def fNrBit : Bool :=
  if fIsBlAdata info then info.getLsbD (tlSduStart info + 5) else info.getLsbD (tlSduStart info + 4)

def llcPayloadStart : ℕ :=
  tlSduStart info + if fIsBlAdata info then 6 else if fIsBlData info then 5 else 4

def fLlcMlePd : BitVec 3 := field info (llcPayloadStart info) 3

/-- A start whose continuation is awaited: fragmented, and with an SSI for its address. -/
def fragmented : Bool := fOptFlag info && fLengthOrCap info && fFragFlag info

end Fields

/-- A MAC-ACCESS. -/
def access (r : MacAccessParser) (info : BitVec 92) : MacAccessParser :=
  { r with
    fillBit := info.getLsbD 1
    encryptionMode := info.getLsbD 2
    ulAddrType := fAddrType info
    ulIssi := fIssi info
    ulEventLabel := field info 5 10
    optionalFieldFlag := fOptFlag info
    ulFragFlag := fragmented info
    ulReservationReq := if fOptFlag info && fLengthOrCap info then field info 32 4 else 0#4
    ulLengthInd := if fOptFlag info && !fLengthOrCap info then field info 31 5 else 0#5
    mmPduType := field info (tlSduStart info) 4
    locUpdType := field info (tlSduStart info + 4) 3
    pduValid := true
    pduCount := r.pduCount + 1#16
    blAckValid := fIsBlAck info
    blAckNr := if fIsBlAck info then fNrBit info else r.blAckNr
    blAckCount := if fIsBlAck info then r.blAckCount + 1#16 else r.blAckCount
    ulLlcHasFcs := fLlcHasFcs info
    ulLlcIsBlData := fIsBlData info || fIsBlAdata info
    ulLlcIsBlAck := fIsBlAck info
    ulLlcNsValid := fIsBlAdata info || fIsBlData info
    ulLlcNs := fNsBit info
    ulLlcNrValid := fIsBlAdata info || fIsBlAck info
    ulLlcNr := fNrBit info
    ulLlcIsMleMm := (fIsBlData info || fIsBlAdata info) && fLlcMlePd info == 1#3
    ulLlcMmPduType := field info (llcPayloadStart info + 3) 4
    ulLlcMmLocUpdType := field info (llcPayloadStart info + 7) 3
    ulLlcPduType := field info (tlSduStart info) 4
    ulMleDisc := fLlcMlePd info
    ulContinuationSsi :=
      if fragmented info && fAddrType info != 1#2 then fIssi info else r.ulContinuationSsi }

/-- A MAC-END-HU. -/
def endHu (r : MacAccessParser) (info : BitVec 92) : MacAccessParser :=
  { r with
    ulContinuationValid := true
    ulContinuationBits := field info 7 85
    ulContinuationCount := r.ulContinuationCount + 1#16 }

/-- The strobes fall. -/
def idle (r : MacAccessParser) : MacAccessParser :=
  { r with
    pduValid := false
    blAckValid := false
    ulLlcIsBlData := false
    ulLlcIsBlAck := false
    ulLlcNsValid := false
    ulLlcNrValid := false
    ulLlcIsMleMm := false
    ulContinuationValid := false }

/-- A block with a right CRC. -/
def parse (r : MacAccessParser) (info : BitVec 92) : MacAccessParser :=
  let r' :=
    { r.idle with
      pduType := fPduType info
      ulPduIsContinuation := fPduType info
      rawInfoBits := info }
  if fPduType info then r'.endHu info else r'.access info

/-- One edge of `clk_sys`. -/
def clock (r : MacAccessParser) (p : ParserPorts) : MacAccessParser :=
  if p.infoValid && p.crcOk then r.parse p.infoBits else r.idle

end MacAccessParser

end TetraPhy.Rx
