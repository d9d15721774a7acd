import TetraPhy.Sw.MmDemandParser

/-!
# Uplink MM demands on the air

The two PDUs that the walkers read, field by field, and the record that each of them is.  Optional
elements stand behind an o-bit, which is set if there is one; a type-2 element has a flag of its
own, and a type-3 or type-4 element is an m-bit, an identifier, a length, and as many bits.  An
m-bit 0 closes the elements.
-/

namespace TetraPhy.Sw.MmDemand

open AirOrder

/-! ## Elements -/

/-- A field behind a flag. -/
def flagged {n : ℕ} : Option (BitVec n) → List Bool
  | none => onAir 0#1
  | some x => onAir 1#1 ++ onAir x

/-- A type-3 or type-4 element. -/
def element (id : BitVec 4) (payload : List Bool) : List Bool :=
  onAir 1#1 ++ (onAir id ++ (onAir (BitVec.ofNat 11 payload.length) ++ payload))

/-- Elements behind an o-bit, with the m-bit that closes them. -/
def optionals (present : Bool) (elements : List Bool) : List Bool :=
  if present then onAir 1#1 ++ (elements ++ onAir 0#1) else onAir 0#1

/-! ## Groups -/

/-- The address of a group. -/
inductive GroupAddress
  | gssi (gssi : BitVec 24)
  | gtsi (gssi extension : BitVec 24)
  | vgssi (vgssi : BitVec 24)
  | gtsiVgssi (gssi extension vgssi : BitVec 24)

namespace GroupAddress

def addressType : GroupAddress → BitVec 2
  | gssi _ => 0
  | gtsi _ _ => 1
  | vgssi _ => 2
  | gtsiVgssi _ _ _ => 3

def bits : GroupAddress → List Bool
  | gssi g => onAir g
  | gtsi g e => onAir g ++ onAir e
  | vgssi v => onAir v
  | gtsiVgssi g e v => onAir g ++ (onAir e ++ onAir v)

/-- The short identity of the group. -/
def identity : GroupAddress → BitVec 24
  | gssi g | gtsi g _ | vgssi g | gtsiVgssi g _ _ => g

end GroupAddress

/-- A group in an uplink demand. -/
inductive GroupIdentity
  | attach (classOfUsage : BitVec 3) (address : GroupAddress)
  | detach (reason : BitVec 2) (address : GroupAddress)

namespace GroupIdentity

def address : GroupIdentity → GroupAddress
  | attach _ a | detach _ a => a

def encode : GroupIdentity → List Bool
  | attach cou a => onAir 0#1 ++ (onAir cou ++ (onAir a.addressType ++ a.bits))
  | detach why a => onAir 1#1 ++ (onAir why ++ (onAir a.addressType ++ a.bits))

/-- The group in the record, under an identity. -/
def recordAs (identity : BitVec 24) : GroupIdentity → GidRecord
  | attach cou a => ⟨0, cou.toNat.toUInt8, a.addressType.toNat.toUInt8, identity.toNat.toUInt32⟩
  | detach _ a => ⟨1, 0, a.addressType.toNat.toUInt8, identity.toNat.toUInt32⟩

/-- The group in the record. -/
def record (g : GroupIdentity) : GidRecord := g.recordAs g.address.identity

end GroupIdentity

/-- The number of groups, and the groups. -/
def groupList (groups : List GroupIdentity) : List Bool :=
  onAir (BitVec.ofNat 6 groups.length) ++ groups.flatMap GroupIdentity.encode

/-! ## U-LOCATION-UPDATE-DEMAND -/

/-- A group identity location demand. -/
structure GroupLocationDemand where
  mode : BitVec 1
  groups : List GroupIdentity

namespace GroupLocationDemand

variable (g : GroupLocationDemand)

/-- The groups are optional in it. -/
def payload : List Bool :=
  onAir 0#1 ++ (onAir g.mode ++ optionals (!g.groups.isEmpty) (element 8 (groupList g.groups)))

/-- **The summary of it in the record**: its first group, if that is attached under a GSSI. -/
def summary (out : MmDemandParsed) : MmDemandParsed :=
  match g.groups with
  | .attach cou a :: _ =>
    if a.addressType < 2 then { out with
      gildGssi := a.identity.toNat.toUInt32
      gildClassOfUsage := cou.toNat.toUInt8
      gildAddressType := a.addressType.toNat.toUInt8
      gildValid := 1 }
    else out
  | _ => out

end GroupLocationDemand

/-- An element that the walker skips. -/
structure OtherElement where
  id : BitVec 4
  payload : List Bool
  other : id ≠ 3

/-- A U-LOCATION-UPDATE-DEMAND behind its PDU type. -/
structure LocationUpdateDemand where
  locationUpdateType : BitVec 3
  requestToAppendLa : BitVec 1
  cipher : Option (BitVec 10)
  classOfMs : Option (BitVec 24)
  energySavingMode : Option (BitVec 3)
  laInformation : Option (BitVec 14)
  ssiField : Option (BitVec 24)
  addressExt : Option (BitVec 24)
  groups : Option GroupLocationDemand
  others : List OtherElement

namespace LocationUpdateDemand

variable (p : LocationUpdateDemand)

/-- There is an optional element. -/
def present : Bool :=
  p.classOfMs.isSome || p.energySavingMode.isSome || p.laInformation.isSome ||
    p.ssiField.isSome || p.addressExt.isSome || p.groups.isSome || !p.others.isEmpty

/-- The location area is sent with a zero behind it. -/
def elements : List Bool :=
  flagged p.classOfMs ++ (flagged p.energySavingMode ++ (flagged (p.laInformation.map (· ++ 0#1)) ++
    (flagged p.ssiField ++ (flagged p.addressExt ++
      ((p.groups.elim [] fun g ↦ element 3 g.payload) ++
        p.others.flatMap fun e ↦ element e.id e.payload)))))

def encode : List Bool :=
  onAir p.locationUpdateType ++ (onAir p.requestToAppendLa ++ (flagged p.cipher ++
    optionals p.present p.elements))

/-- The demand in the record, without its groups. -/
def fields (pduSsi : UInt32) : MmDemandParsed :=
  { mmPduType := 2
    pduSsi
    locationUpdateType := p.locationUpdateType.toNat.toUInt8
    requestToAppendLa := p.requestToAppendLa.toNat.toUInt8
    cipherControl := p.cipher.isSome.toNat.toUInt8
    classOfMs := p.classOfMs.elim 0 (·.toNat.toUInt32)
    classOfMsValid := p.classOfMs.isSome.toNat.toUInt8
    energySavingMode := p.energySavingMode.elim 0 (·.toNat.toUInt8)
    energySavingModeValid := p.energySavingMode.isSome.toNat.toUInt8
    laInformation := p.laInformation.elim 0 (·.toNat.toUInt16)
    laInformationValid := p.laInformation.isSome.toNat.toUInt8
    ssiField := p.ssiField.elim 0 (·.toNat.toUInt32)
    ssiFieldValid := p.ssiField.isSome.toNat.toUInt8
    addressExt := p.addressExt.elim 0 (·.toNat.toUInt32)
    addressExtValid := p.addressExt.isSome.toNat.toUInt8 }

/-- **The record of the demand.** -/
def record (pduSsi : UInt32) : MmDemandParsed :=
  { p.groups.elim (p.fields pduSsi) (·.summary (p.fields pduSsi)) with parseOk := 1 }

end LocationUpdateDemand

/-! ## U-ATTACH/DETACH-GROUP-IDENTITY -/

/-- A U-ATTACH/DETACH-GROUP-IDENTITY behind its PDU type. -/
structure GroupIdentityDemand where
  report : BitVec 1
  mode : BitVec 1
  reportResponse : Option (List Bool)
  uplink : Option (List GroupIdentity)
  proprietary : Option (List Bool)

namespace GroupIdentityDemand

variable (p : GroupIdentityDemand)

/-- There is an optional element. -/
def present : Bool := p.reportResponse.isSome || p.uplink.isSome || p.proprietary.isSome

def elements : List Bool :=
  p.reportResponse.elim [] (element 4) ++ ((p.uplink.elim [] fun gs ↦ element 8 (groupList gs)) ++
    p.proprietary.elim [] (element 15))

def encode : List Bool :=
  onAir p.report ++ (onAir p.mode ++ optionals p.present p.elements)

/-- The groups. -/
def groups : List GroupIdentity := p.uplink.getD []

/-- **The record of the demand**, with each group under what stands for its identity. -/
def recordAs (identity : GroupAddress → BitVec 24) (pduSsi : UInt32) : MmDemandParsed :=
  { parseOk := 1
    mmPduType := 7
    pduSsi
    gidGroupIdentityReport := p.report.toNat.toUInt8
    gidAttachDetachMode := p.mode.toNat.toUInt8
    gidCount := p.groups.length.toUInt8
    gidRecords := fun i ↦ (p.groups.map fun g ↦ g.recordAs (identity g.address)).getD i {} }

/-- **The record of the demand.** -/
def record (pduSsi : UInt32) : MmDemandParsed := p.recordAs GroupAddress.identity pduSsi

end GroupIdentityDemand

end TetraPhy.Sw.MmDemand
