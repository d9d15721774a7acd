import TetraPhy.Lib.BitWalk
import TetraPhy.Sw.CmceParser

/-!
# The walkers of uplink MM demands

`tetra_mm_demand_parser.c` walks over the 129 bits of an MM body: `walk_mm2` over a
U-LOCATION-UPDATE-DEMAND, `walk_mm7` over a U-ATTACH/DETACH-GROUP-IDENTITY.

| PDU  | mandatory                   | optional, behind the o-bit                                  |
|------|-----------------------------|-------------------------------------------------------------|
| mm=2 | type, LA request, ciphering | five type-2 elements, then type-3 elements up to an m-bit 0 |
| mm=7 | report, mode                | a group report response, then a group identity uplink       |

A type-3 element is an identifier, a length and that many bits; the length is what moves the cursor
on.  The loop over them has fuel, of which it does not run out, as each round reads a bit.
-/

namespace TetraPhy.Sw

open BitWalk

/-- A record of `gid_records`. -/
structure GidRecord where
  attachDetach : UInt8 := 0
  classOfUsage : UInt8 := 0
  addressType : UInt8 := 0
  gssi : UInt32 := 0
deriving DecidableEq, Repr

/-- `tetra_mm_demand_parsed_t`; the array of records is read and written at any index. -/
structure MmDemandParsed where
  parseOk : UInt8 := 0
  mmPduType : UInt8 := 0
  pduSsi : UInt32 := 0
  locationUpdateType : UInt8 := 0
  requestToAppendLa : UInt8 := 0
  cipherControl : UInt8 := 0
  classOfMs : UInt32 := 0
  classOfMsValid : UInt8 := 0
  energySavingMode : UInt8 := 0
  energySavingModeValid : UInt8 := 0
  laInformation : UInt16 := 0
  laInformationValid : UInt8 := 0
  ssiField : UInt32 := 0
  ssiFieldValid : UInt8 := 0
  addressExt : UInt32 := 0
  addressExtValid : UInt8 := 0
  gildValid : UInt8 := 0
  gildGssi : UInt32 := 0
  gildClassOfUsage : UInt8 := 0
  gildAddressType : UInt8 := 0
  gidAttachDetachMode : UInt8 := 0
  gidGroupIdentityReport : UInt8 := 0
  gidCount : UInt8 := 0
  gidRecords : ℕ → GidRecord := fun _ ↦ {}

namespace MmDemand

/-- `BODY_BITS`. -/
def bodyBits : ℕ := 129

/-- A walk over a body. -/
abbrev MmWalk := Walk MmDemandParsed

section

variable (body : ℕ → UInt8)

/-- `read_bits`, and the bits are taken off `remain`. -/
def readBits (n : ℕ) : MmWalk UInt32 := Walk.field (srcBit body) bodyBits n

/-- `peek_bit`, and `read_bits` with a cursor of its own. -/
def peekBits (pos n : ℕ) : MmWalk UInt32 := Walk.peekAt (srcBit body) bodyBits pos n

/-- Four bits of the body, with no look at its end. -/
def peekId (pos : ℕ) : MmWalk UInt32 := fun c ↦
  .go (bitsAt (srcBit body) pos 4) { c with reads := (pos, 4) :: c.reads }

/-! ## `walk_mm2` -/

/-- A type-2 element: its p-bit, and its `w` bits if that is set. -/
def type2 (w : ℕ) (store : UInt32 → MmDemandParsed → MmDemandParsed) : MmWalk Unit := do
  Walk.stopWhen (· = 0) (-1)
  let p ← readBits body 1
  if p ≠ 0 then
    Walk.stopWhen (· < w) (-1)
    let x ← readBits body w
    Walk.write (store x)

def storeClassOfMs (x : UInt32) (out : MmDemandParsed) : MmDemandParsed :=
  { out with classOfMs := x, classOfMsValid := 1 }

def storeEnergySavingMode (x : UInt32) (out : MmDemandParsed) : MmDemandParsed :=
  { out with energySavingMode := x.toUInt8, energySavingModeValid := 1 }

/-- 15 bits, of which the last is dropped. -/
def storeLaInformation (la15 : UInt32) (out : MmDemandParsed) : MmDemandParsed :=
  { out with laInformation := (la15 >>> 1).toUInt16, laInformationValid := 1 }

def storeSsiField (x : UInt32) (out : MmDemandParsed) : MmDemandParsed :=
  { out with ssiField := x, ssiFieldValid := 1 }

def storeAddressExt (x : UInt32) (out : MmDemandParsed) : MmDemandParsed :=
  { out with addressExt := x, addressExtValid := 1 }

def storeGild (gssi cou adrType : UInt32) (out : MmDemandParsed) : MmDemandParsed :=
  { out with gildGssi := gssi, gildClassOfUsage := cou.toUInt8, gildAddressType := adrType.toUInt8
             gildValid := 1 }

/-- The group identity location demand with a payload of `g` bits at `gp`: its first group, if that
is attached and has a GSSI. -/
def gild (gp g : ℕ) : MmWalk Unit := do
  if g ≥ 3 then
    let obitGild ← peekBits body (gp + 2) 1
    if obitGild ≠ 0 ∧ g ≥ 29 then
      let mb ← peekBits body (gp + 3) 1
      let subId ← peekBits body (gp + 4) 4
      let subLen ← peekBits body (gp + 4 + 4) 11
      if mb = 1 ∧ subId = 8 ∧ subLen ≥ 6 ∧ g ≥ 32 then
        let numElem ← peekBits body (gp + 19) 6
        if numElem ≥ 1 then
          let adi ← peekBits body (gp + 25) 1
          if adi = 0 ∧ g ≥ 56 then
            let cou ← peekBits body (gp + 26) 3
            let adrType ← peekBits body (gp + 26 + 3) 2
            if adrType = 0 ∨ adrType = 1 then
              let gssi ← peekBits body (gp + 31) 24
              Walk.write (storeGild gssi cou adrType)

/-- The code for a walk that is out of fuel. -/
def outOfFuel : ℤ := 1

/-- The type-3 elements, each with its m-bit. -/
def type3 : ℕ → MmWalk Unit
  | 0 => Walk.stop outOfFuel
  | fuel + 1 => do
    let c ← Walk.cursor
    if c.remain > 0 then
      let mbit ← readBits body 1
      if mbit = 0 then Walk.stop 0
      else
        Walk.stopWhen (· < 15) (-1)
        let elemId ← readBits body 4
        let elemLen ← readBits body 11
        Walk.stopWhen (elemLen.toNat > ·) (-1)
        let c ← Walk.cursor
        if elemId = 3 ∧ elemLen > 0 then gild body c.pos elemLen.toNat
        Walk.skip elemLen.toNat
        type3 fuel

/-- The optional elements of a U-LOCATION-UPDATE-DEMAND. -/
def optionalMm2 : MmWalk Unit := do
  type2 body 24 storeClassOfMs
  type2 body 3 storeEnergySavingMode
  type2 body 15 storeLaInformation
  type2 body 24 storeSsiField
  type2 body 24 storeAddressExt
  type3 body (bodyBits + 1)

/-- `walk_mm2`. -/
def walkMm2 : MmWalk Unit := do
  Walk.stopWhen (· < 5) (-1)
  let lut ← readBits body 3
  Walk.write fun out ↦ { out with locationUpdateType := lut.toUInt8 }
  let ra ← readBits body 1
  Walk.write fun out ↦ { out with requestToAppendLa := ra.toUInt8 }
  let cc ← readBits body 1
  Walk.write fun out ↦ { out with cipherControl := cc.toUInt8 }
  if cc ≠ 0 then
    Walk.stopWhen (· < 10) (-1)
    let _ ← readBits body 10
  Walk.stopWhen (· = 0) 0
  let obit ← readBits body 1
  if obit = 0 then Walk.stop 0 else optionalMm2 body

/-! ## `walk_mm7` -/

/-- The group report response is skipped, with the m-bit before it; an m-bit 0 is taken for its
absence, and an m-bit of another element is left alone. -/
def groupReport : MmWalk Unit := do
  let c ← Walk.cursor
  let mRep ← peekBits body c.pos 1
  if mRep = 0 then Walk.skip 1
  else if c.remain ≥ 5 then
    let id ← peekId body (c.pos + 1)
    if id ≠ 4 then pure ()
    else if c.remain ≥ 16 then
      Walk.skip 1
      let _ ← readBits body 4
      let skipLen ← readBits body 11
      Walk.stopWhen (skipLen.toNat > ·) (-1)
      Walk.skip skipLen.toNat
    else Walk.stop (-1)
  else Walk.stop (-1)

/-- A record is cut short: those before it are kept. -/
def giveUp {α : Type} (r : ℕ) : MmWalk α := do
  Walk.write fun out ↦ { out with gidCount := r.toUInt8 }
  Walk.stop (if r = 0 then -1 else 0)

def storeRecord (r : ℕ) (adi cou adrType gssi : UInt32) (out : MmDemandParsed) : MmDemandParsed :=
  { out with
    gidRecords := Function.update out.gidRecords r ⟨adi.toUInt8, cou.toUInt8, adrType.toUInt8, gssi⟩
    gidCount := (r + 1).toUInt8 }

/-- The header of a record: its class of usage, its address type, and what is left. -/
def recordHeader (r : ℕ) (adi : UInt32) (giuRemain : ℤ) : MmWalk (UInt32 × UInt32 × ℤ) := do
  if adi = 0 then
    if giuRemain < 5 then giveUp r
    else
      let cou ← readBits body 3
      let adrType ← readBits body 2
      pure (cou, adrType, giuRemain - 5)
  else
    if giuRemain < 4 then giveUp r
    else
      let _ ← readBits body 2
      let adrType ← readBits body 2
      pure (0, adrType, giuRemain - 4)

/-- The address of a record, and what is left. -/
def recordAddress (r : ℕ) (adrType : UInt32) (giuRemain : ℤ) : MmWalk (UInt32 × ℤ) := do
  if adrType = 0 ∨ adrType = 1 ∨ adrType = 2 then
    if giuRemain < 24 then giveUp r
    else
      let gssi ← readBits body 24
      if adrType = 1 then
        if giuRemain - 24 < 24 then giveUp r
        else
          let _ ← readBits body 24
          pure (gssi, giuRemain - 24 - 24)
      else pure (gssi, giuRemain - 24)
  else pure (0, giuRemain)

/-- The loop over the records, with the rounds that the array has room for. -/
def records (numElem : ℕ) : ℕ → ℕ → ℤ → MmWalk Unit
  | 0, _, _ => pure ()
  | rounds + 1, r, giuRemain =>
    if r < numElem then do
      if giuRemain < 1 then giveUp r
      else
        let adi ← readBits body 1
        let (cou, adrType, giuRemain) ← recordHeader body r adi (giuRemain - 1)
        let (gssi, giuRemain) ← recordAddress body r adrType giuRemain
        Walk.write (storeRecord r adi cou adrType gssi)
        records numElem rounds (r + 1) giuRemain
    else pure ()

/-- The group identity uplink. -/
def groupIdentityUplink : MmWalk Unit := do
  Walk.stopWhen (· = 0) 0
  let mGiu ← readBits body 1
  if mGiu = 0 then Walk.stop 0
  else
    Walk.stopWhen (· < 15) (-1)
    let giuId ← readBits body 4
    let giuLen ← readBits body 11
    let c ← Walk.cursor
    if giuId ≠ 8 ∨ giuLen.toNat > c.remain then Walk.stop (-1)
    else if giuLen < 6 then Walk.stop (-1)
    else
      let numElem ← readBits body 6
      if numElem = 0 then Walk.stop 0
      else records body numElem.toNat 3 0 (giuLen.toNat - 6)

/-- `walk_mm7`. -/
def walkMm7 : MmWalk Unit := do
  Walk.stopWhen (· < 2) (-1)
  let gir ← readBits body 1
  Walk.write fun out ↦ { out with gidGroupIdentityReport := gir.toUInt8 }
  let mode ← readBits body 1
  Walk.write fun out ↦ { out with gidAttachDetachMode := mode.toUInt8 }
  Walk.stopWhen (· = 0) 0
  let obit ← readBits body 1
  if obit = 0 then Walk.stop 0
  else
    Walk.stopWhen (· = 0) (-1)
    groupReport body
    groupIdentityUplink body

/-! ## `tetra_mm_demand_parser_parse` -/

/-- What a walk comes to; at its end it returns 0. -/
def run (walk : MmWalk Unit) (out : MmDemandParsed) : ℤ × Cursor MmDemandParsed :=
  match walk { pos := 0, remain := bodyBits, out } with
  | .go _ c => (0, c)
  | .stop rc c => (rc, c)

/-- `tetra_mm_demand_parser_parse`: the result, the record, and the ranges of bits asked for. -/
def parse (mmPduType : UInt8) (pduSsi : UInt32) : ℤ × MmDemandParsed × List (ℕ × ℕ) :=
  let out : MmDemandParsed := { mmPduType, pduSsi }
  if mmPduType = 2 ∨ mmPduType = 7 then
    let (rc, c) := run (if mmPduType = 2 then walkMm2 body else walkMm7 body) out
    (rc, if rc = 0 then { c.out with parseOk := 1 } else c.out, c.reads)
  else (-1, out, [])

end

end MmDemand

end TetraPhy.Sw
