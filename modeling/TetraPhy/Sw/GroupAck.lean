import TetraPhy.Lib.OptionalParts
import TetraPhy.Sw.BodyWriter
import TetraPhy.Sw.MmDemandPdu

/-!
# The acknowledgement of a group attachment

A D-ATTACH/DETACH GROUP IDENTITY ACKNOWLEDGEMENT as a terminal reads it.  The groups stand in a
type-4 element with the identifier 7; the length of each follows from its address type.

| address type | address                      | bits |
|--------------|------------------------------|------|
| 0            | GSSI                         | 24   |
| 1            | GSSI and address extension   | 48   |
| 2            | V-GSSI                       | 24   |
| 3            | all three                    | 72   |

`tetra_grpack_build` writes the address type it is given, and always a GSSI alone behind it.
-/

namespace TetraPhy.Sw.GroupAck

open AirOrder FieldReader OptionalParts MmDemand

deriving instance DecidableEq for GroupAddress

/-- A group in the acknowledgement. -/
inductive GroupIdentityDownlink
  | attach (lifetime : BitVec 2) (classOfUsage : BitVec 3) (address : GroupAddress)
  | detach (detachment : BitVec 2) (address : GroupAddress)
deriving DecidableEq

/-- The acknowledgement. -/
structure GroupIdentityAck where
  reject : Bool
  groups : List GroupIdentityDownlink
deriving DecidableEq

/-! ## Reading -/

/-- An address behind its type. -/
def readAddress (bits : List Bool) : Option (GroupAddress × List Bool) := do
  let (addressType, bits) ← readWord 2 bits
  if addressType = 0 then
    let (gssi, bits) ← readWord 24 bits
    some (.gssi gssi, bits)
  else if addressType = 1 then
    let (gssi, bits) ← readWord 24 bits
    let (extension, bits) ← readWord 24 bits
    some (.gtsi gssi extension, bits)
  else if addressType = 2 then
    let (vgssi, bits) ← readWord 24 bits
    some (.vgssi vgssi, bits)
  else
    let (gssi, bits) ← readWord 24 bits
    let (extension, bits) ← readWord 24 bits
    let (vgssi, bits) ← readWord 24 bits
    some (.gtsiVgssi gssi extension vgssi, bits)

/-- A group, behind the bit that tells an attachment from a detachment. -/
def readGroup (bits : List Bool) : Option (GroupIdentityDownlink × List Bool) := do
  let (detached, bits) ← readFlag bits
  if detached then
    let (detachment, bits) ← readWord 2 bits
    let (address, bits) ← readAddress bits
    some (.detach detachment address, bits)
  else
    let (lifetime, bits) ← readWord 2 bits
    let (classOfUsage, bits) ← readWord 3 bits
    let (address, bits) ← readAddress bits
    some (.attach lifetime classOfUsage address, bits)

/-- The element with the groups: their number, and the groups, which take all of it. -/
def readGroups (content : List Bool) : Option (List GroupIdentityDownlink) := do
  let (n, bits) ← readField 6 content
  let (groups, rest) ← readParts readGroup n bits
  if rest = [] then some groups else none

/-- The groups among the elements. -/
def groupsIn (elements : List Element) : Option (List GroupIdentityDownlink) :=
  (elements.find? (·.id = 7)).elim (some []) fun e ↦ readGroups e.content

/-- The acknowledgement, and the bits behind it. -/
def readGroupAck (bits : List Bool) : Option (GroupIdentityAck × List Bool) := do
  let bits ← expect 4 11 bits
  let (reject, bits) ← readFlag bits
  let (_reserved, bits) ← readFlag bits
  let ((_, elements), bits) ← readOptionals () (fun bits ↦ some ((), bits)) bits
  let groups ← groupsIn elements
  some (⟨reject, groups⟩, bits)

/-! ## What is read of a record -/

theorem grpackRecord_eq (r : GrpackRecord) : grpackRecord r =
    onAir (r.atd.toBitVec.setWidth 1) ++ (onAir (r.lifetime.toBitVec.setWidth 2) ++
      (onAir (r.classOfUsage.toBitVec.setWidth 3) ++ (onAir (r.addrType.toBitVec.setWidth 2) ++
        onAir (r.gssi.toBitVec.setWidth 24)))) := by
  simp (disch := decide) only [grpackRecord, List.append_assoc, putBits_and_uInt8,
    putBits_and_uInt32]

theorem length_grpackRecord (r : GrpackRecord) : (grpackRecord r).length = 32 := by
  simp only [grpackRecord, List.length_append, length_putBits]

/-- The group in a record, if its address is a GSSI. -/
def attached (r : GrpackRecord) : GroupIdentityDownlink :=
  .attach (r.lifetime.toBitVec.setWidth 2) (r.classOfUsage.toBitVec.setWidth 3)
    (.gssi (r.gssi.toBitVec.setWidth 24))

theorem readAddress_gssi (gssi : BitVec 24) (rest : List Bool) :
    readAddress (onAir (0 : BitVec 2) ++ (onAir gssi ++ rest)) = some (.gssi gssi, rest) := by
  simp only [readAddress, readWord_append, Option.bind_eq_bind, Option.bind_some]
  exact if_pos trivial

theorem of_readAddress_gssi {addressType : BitVec 2} {gssi gssi' : BitVec 24}
    {rest rest' : List Bool}
    (h : readAddress (onAir addressType ++ (onAir gssi ++ rest)) = some (.gssi gssi', rest')) :
    addressType = 0 ∧ rest' = rest := by
  simp only [readAddress, readWord_append, Option.bind_eq_bind, Option.bind_some] at h
  split_ifs at h with h0 h1 h2
  · cases h
    exact ⟨h0, rfl⟩
  · obtain ⟨_, -, h⟩ := Option.bind_eq_some_iff.1 h
    cases h
  · cases h
  · obtain ⟨_, -, h⟩ := Option.bind_eq_some_iff.1 h
    obtain ⟨_, -, h⟩ := Option.bind_eq_some_iff.1 h
    cases h

variable {r : GrpackRecord} {rest rest' : List Bool}

theorem readGroup_grpackRecord (r : GrpackRecord) (hatd : r.atd.toBitVec.setWidth 1 = 0)
    (rest : List Bool) : readGroup (grpackRecord r ++ rest) =
      (readAddress (onAir (r.addrType.toBitVec.setWidth 2) ++
        (onAir (r.gssi.toBitVec.setWidth 24) ++ rest))).bind fun (address, rest) ↦
          some (.attach (r.lifetime.toBitVec.setWidth 2) (r.classOfUsage.toBitVec.setWidth 3)
            address, rest) := by
  have hzero : onAir (0 : BitVec 1) = [false] := rfl
  rw [grpackRecord_eq, hatd, hzero]
  simp only [List.append_assoc, List.cons_append, List.nil_append, readGroup, readFlag_cons,
    readWord_append, Option.bind_eq_bind, Option.bind_some, Bool.false_eq_true, if_false]

theorem readGroup_gssi (hatd : r.atd.toBitVec.setWidth 1 = 0)
    (hat : r.addrType.toBitVec.setWidth 2 = 0) (rest : List Bool) :
    readGroup (grpackRecord r ++ rest) = some (attached r, rest) := by
  rw [readGroup_grpackRecord r hatd, hat, readAddress_gssi, Option.bind_some]
  rfl

/-- An attachment under a GSSI. -/
def GroupIdentityDownlink.ByGssi (g : GroupIdentityDownlink) : Prop :=
  ∃ lifetime classOfUsage gssi, g = .attach lifetime classOfUsage (.gssi gssi)

theorem of_readGroup (hatd : r.atd.toBitVec.setWidth 1 = 0) {g : GroupIdentityDownlink}
    (hg : g.ByGssi) (h : readGroup (grpackRecord r ++ rest) = some (g, rest')) :
    r.addrType.toBitVec.setWidth 2 = 0 ∧ rest' = rest := by
  obtain ⟨lifetime, classOfUsage, gssi, rfl⟩ := hg
  rw [readGroup_grpackRecord r hatd] at h
  obtain ⟨⟨address, rest''⟩, haddress, h⟩ := Option.bind_eq_some_iff.1 h
  cases h
  exact of_readAddress_gssi haddress

/-- **Records are read as attachments under a GSSI only if that is their address type.** -/
theorem readParts_records_iff {records : List GrpackRecord}
    (hatd : ∀ r ∈ records, r.atd.toBitVec.setWidth 1 = 0) {groups : List GroupIdentityDownlink}
    (hgroups : ∀ g ∈ groups, g.ByGssi) :
    readParts readGroup records.length (records.flatMap grpackRecord) = some (groups, []) ↔
      (∀ r ∈ records, r.addrType.toBitVec.setWidth 2 = 0) ∧ groups = records.map attached := by
  have hread (hat : ∀ r ∈ records, r.addrType.toBitVec.setWidth 2 = 0) :
      readParts readGroup records.length (records.flatMap grpackRecord) =
        some (records.map attached, []) := by
    have hall : readParts readGroup records.length (records.flatMap grpackRecord ++ []) =
        some (records.map attached, []) := readParts_flatMap records
      (fun r hr rest ↦ readGroup_gssi (hatd r hr) (hat r hr) rest) []
    rwa [List.append_nil] at hall
  have hgssi : readParts readGroup records.length (records.flatMap grpackRecord) =
      some (groups, []) → ∀ r ∈ records, r.addrType.toBitVec.setWidth 2 = 0 := by
    clear hread
    intro h
    induction records generalizing groups with
    | nil => exact List.forall_mem_nil _
    | cons r records ih =>
        rw [List.length_cons, List.flatMap_cons] at h
        obtain ⟨g, groups', bits', hg, hrest, rfl⟩ := of_readParts_succ h
        obtain ⟨hat, rfl⟩ := of_readGroup (hatd r List.mem_cons_self)
          (hgroups g List.mem_cons_self) hg
        exact List.forall_mem_cons.2 ⟨hat, ih (List.forall_mem_cons.1 hatd).2
          (List.forall_mem_cons.1 hgroups).2 hrest⟩
  constructor
  · intro h
    have hat := hgssi h
    rw [hread hat] at h
    cases h
    exact ⟨hat, rfl⟩
  · rintro ⟨hat, rfl⟩
    exact hread hat

/-! ## What is read of the body -/

/-- The element with the records. -/
def groupContent (records : List GrpackRecord) : List Bool :=
  onAir (BitVec.ofNat 6 records.length) ++ records.flatMap grpackRecord

theorem length_flatMap_grpackRecord (records : List GrpackRecord) :
    (records.flatMap grpackRecord).length = 32 * records.length := by
  induction records with
  | nil => rfl
  | cons r records ih =>
      rw [List.flatMap_cons, List.length_append, length_grpackRecord, ih, List.length_cons]
      omega

theorem length_groupContent (records : List GrpackRecord) :
    (groupContent records).length = 6 + 32 * records.length := by
  rw [groupContent, List.length_append, length_onAir, length_flatMap_grpackRecord]

variable {records : List GrpackRecord}

/-- **What is read of the element.** -/
theorem readGroups_iff (hlen : records.length ≤ 3)
    (hatd : ∀ r ∈ records, r.atd.toBitVec.setWidth 1 = 0) {groups : List GroupIdentityDownlink}
    (hgroups : ∀ g ∈ groups, g.ByGssi) :
    readGroups (groupContent records) = some groups ↔
      (∀ r ∈ records, r.addrType.toBitVec.setWidth 2 = 0) ∧ groups = records.map attached := by
  have hnumber : number (onAir (BitVec.ofNat 6 records.length)) = records.length := by
    rw [number_onAir, BitVec.toNat_ofNat]
    omega
  rw [← readParts_records_iff hatd hgroups, readGroups, groupContent,
    readField_append (length_onAir _), hnumber, Option.bind_eq_bind, Option.bind_some]
  dsimp only
  constructor
  · intro h
    obtain ⟨⟨groups', rest⟩, hparts, h⟩ := Option.bind_eq_some_iff.1 h
    dsimp only at h
    split_ifs at h with hrest
    cases h
    rw [hparts, hrest]
  · intro h
    rw [h]
    rfl

theorem grpackBuild_eq (acceptReject : UInt8) (hpos : 0 < records.length)
    (hlen : records.length ≤ 3) : grpackBuild acceptReject records =
      onAir 0xB#4 ++ (onAir (acceptReject.toBitVec.setWidth 1) ++ (false :: true :: true ::
        (onAir 7#4 ++ (onAir (BitVec.ofNat 11 (groupContent records).length) ++
          (groupContent records ++ [false]))))) := by
  have hlength : 6 + 32 * records.length.toUInt32 = (groupContent records).length.toUInt32 := by
    rw [length_groupContent]
    change _ = UInt32.ofNat (6 + 32 * records.length)
    rw [UInt32.ofNat_add, UInt32.ofNat_mul]
    rfl
  rw [grpackBuild, if_neg (by omega), if_neg (by omega), hlength, putBits_toUInt32 _ (by decide),
    putBits_toUInt32 _ (by decide), putBits_and_uInt8 _ _ (by decide) (by decide), groupContent]
  simp only [List.append_assoc]
  rfl

theorem length_grpackBuild (acceptReject : UInt8) (hpos : 0 < records.length)
    (hlen : records.length ≤ 3) :
    (grpackBuild acceptReject records).length = 30 + 32 * records.length := by
  rw [grpackBuild_eq acceptReject hpos hlen]
  simp only [List.length_append, List.length_cons, List.length_nil, length_onAir,
    length_groupContent]
  omega

/-- **What a terminal reads of the body**: nothing is left over, and the groups are what it reads of
the element. -/
theorem readGroupAck_grpackBuild (acceptReject : UInt8) (hpos : 0 < records.length)
    (hlen : records.length ≤ 3) : readGroupAck (grpackBuild acceptReject records) =
      (readGroups (groupContent records)).map fun groups ↦
        (⟨acceptReject.toBitVec.getLsbD 0, groups⟩, []) := by
  have hflag : onAir (acceptReject.toBitVec.setWidth 1) = [acceptReject.toBitVec.getLsbD 0] := by
    rw [BitVec.setWidth_one]
    cases acceptReject.toBitVec.getLsbD 0 <;> rfl
  have hcontent : (groupContent records).length =
      (BitVec.ofNat 11 (groupContent records).length).toNat := by
    rw [BitVec.toNat_ofNat, length_groupContent]
    omega
  have helements : readOptionals () (fun bits ↦ some ((), bits)) (true :: true ::
      (onAir 7#4 ++ (onAir (BitVec.ofNat 11 (groupContent records).length) ++
        (groupContent records ++ [false])))) = some (((), [⟨7, groupContent records⟩]), []) := by
    refine readOptionals_true rfl (readElements_true (readElement_append 7#4 hcontent [false]) ?_)
    exact readElements_false _ []
  have htype (rest : List Bool) : expect 4 11 (onAir 0xB#4 ++ rest) = some rest :=
    expect_append (length_onAir _) rfl rest
  have hgroups : groupsIn [⟨7, groupContent records⟩] = readGroups (groupContent records) := rfl
  rw [grpackBuild_eq acceptReject hpos hlen, hflag, readGroupAck, htype]
  simp only [List.cons_append, List.nil_append, Option.bind_eq_bind, Option.bind_some,
    readFlag_cons, helements, hgroups]
  exact (Option.map_eq_bind ..).symm

end TetraPhy.Sw.GroupAck
