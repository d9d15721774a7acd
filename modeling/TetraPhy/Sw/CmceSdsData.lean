import TetraPhy.Sw.CmceParser

/-!
# U-SDS-DATA

The user data of a U-SDS-DATA follows the called party and the short data type.  The record has 32
bits for it, and for UDD-4 the length indicator and the protocol identifier only; what it has no
room for it marks as truncated, as it marks a PDU that goes on in another fragment.

| type  | user data      | in the record                          | o-bit                |
|-------|----------------|----------------------------------------|----------------------|
| UDD-1 | 16 bits        | all                                    | read behind the data |
| UDD-2 | 32 bits        | all                                    | read behind the data |
| UDD-3 | 64 bits        | the first 32, truncated                | bit 32 of the data   |
| UDD-4 | length, octets | length and first octet, truncated      | not read             |

The cursor of UDD-3 stays behind the first 32 bits, where the parser takes the next bit for the
o-bit.
-/

namespace TetraPhy.Sw

open FieldReader AirOrder

/-! ## The PDU -/

/-- The user data, by the short data type. -/
inductive UserData
  | udd1 (x : BitVec 16)
  | udd2 (x : BitVec 32)
  | udd3 (x : BitVec 64)
  | udd4 (length : BitVec 11) (data : Vector Bool length.toNat)

namespace UserData

/-- The short data type identifier. -/
def typeIdentifier : UserData → BitVec 2
  | udd1 _ => 0
  | udd2 _ => 1
  | udd3 _ => 2
  | udd4 _ _ => 3

/-- The user data bits. -/
def bits : UserData → List Bool
  | udd1 x => onAir x
  | udd2 x => onAir x
  | udd3 x => onAir x
  | udd4 _ data => data.toList

/-- The length indicator stands before the data of a UDD-4. -/
def encode : UserData → List Bool
  | udd4 length data => onAir length ++ data.toList
  | x => x.bits

end UserData

/-- A U-SDS-DATA up to its o-bit. -/
structure SdsData where
  area : BitVec 4
  called : CalledParty
  data : UserData

namespace SdsData

variable (d : SdsData)

/-- The fields between the PDU type and the user data. -/
def header : List Bool :=
  onAir d.area ++ (onAir d.called.typeIdentifier ++ (d.called.address ++
    onAir d.data.typeIdentifier))

/-- The PDU with its o-bit. -/
def encode (o : BitVec 1) : List Bool :=
  onAir 15#5 ++ (d.header ++ (d.data.encode ++ onAir o))

/-- The fields up to the called party identifier in the record. -/
def started : CmceRecord :=
  { pduType := .uSdsData
    areaSelection := d.area.toNat.toUInt8
    calledPartyTypeIdentifier := d.called.typeIdentifier.toNat.toUInt8 }

/-- The header in the record. -/
def opened : CmceRecord :=
  { d.called.record d.started with
    shortDataTypeIdentifier := d.data.typeIdentifier.toNat.toUInt8 }

/-- **The record is the PDU**: its address, all of its user data in order, and its o-bit. -/
def Recovered (o : BitVec 1) (out : CmceRecord) : Prop :=
  out.calledPartyTypeIdentifier = d.opened.calledPartyTypeIdentifier ∧
    out.calledPartySna = d.opened.calledPartySna ∧
    out.calledPartySsi = d.opened.calledPartySsi ∧
    out.calledPartyExtension = d.opened.calledPartyExtension ∧
    out.sdsUserDataBits.toNat = d.data.bits.length ∧
    out.sdsUserData.toNat = number d.data.bits ∧
    out.oBit = o.toNat.toUInt8

/-- The record of a whole PDU, with the bit that was taken for the o-bit and, of a UDD-4, with the
octet that was taken for the protocol identifier. -/
def record (o pid : UInt8) : CmceRecord :=
  match d.data with
  | .udd4 length _ => { d.opened with
      sdsLengthIndicator := length.toNat.toUInt16
      sdsProtocolId := pid
      sdsTruncated := 1 }
  | x => { d.opened with
      sdsUserData := (number (x.bits.take 32)).toUInt32
      sdsUserDataBits := (min x.bits.length 32).toUInt8
      sdsTruncated := if x.bits.length ≤ 32 then 0 else 1
      oBit := o }

end SdsData

variable {src : ℕ → UInt8} {nBits pos : ℕ} {out : CmceRecord} {d : SdsData} {o : BitVec 1}

/-! ## The header -/

theorem parseCalledParty_cursor {c : CalledParty}
    (hc : out.calledPartyTypeIdentifier = c.typeIdentifier.toNat.toUInt8) :
    (∃ out', parseCalledParty src nBits pos out = some (out', pos + c.address.length)) ∨
      parseCalledParty src nBits pos out = none := by
  have hcode : out.calledPartyTypeIdentifier.toNat = c.typeIdentifier.toNat := by
    rw [hc]
    cases c <;> rfl
  rw [parseCalledParty, hcode]
  cases c with
  | sna n =>
      by_cases hn : pos + 8 > nBits
      · exact .inr (if_pos hn)
      · exact .inl ⟨_, if_neg hn⟩
  | ssi s =>
      by_cases hn : pos + 24 > nBits
      · exact .inr (if_pos hn)
      · exact .inl ⟨_, if_neg hn⟩
  | tsi s e =>
      by_cases hn : pos + 48 > nBits
      · exact .inr (if_pos hn)
      · exact .inl ⟨_, if_neg hn⟩

/-- The parser comes to the called party. -/
theorem tetraCmceParse_sdsData (hn : 11 ≤ nBits)
    (h : Written (srcBit src) 0 (onAir 15#5 ++ (onAir d.area ++ onAir d.called.typeIdentifier))) :
    tetraCmceParse src nBits =
      match parseCalledParty src nBits 11 d.started with
      | none => ({ d.started with sdsTruncated := 1 }, 0)
      | some (out, pos) =>
        if pos + 2 > nBits then ({ out with sdsTruncated := 1 }, 0)
        else parseSdsUserData src nBits (pos + 2)
          { out with shortDataTypeIdentifier := (getBits src pos 2).toUInt8 } := by
  simp only [written_append, length_onAir, Nat.zero_add] at h
  obtain ⟨htype, harea, hcpti⟩ := h
  have hmap : mapPduType (getBits src 0 5) = .uSdsData := by
    rw [mapPduType, toNat_getBits (by decide) htype]
    rfl
  rw [tetraCmceParse, if_neg (by omega), hmap]
  dsimp only
  rw [parseSdsData, if_neg (by omega), getBits_toUInt8 (by decide) harea,
    getBits_toUInt8 (by decide) hcpti]
  rfl

theorem length_header (d : SdsData) : d.header.length = 8 + d.called.address.length := by
  simp only [SdsData.header, List.length_append, length_onAir]
  omega

/-- The parser comes to the user data. -/
theorem tetraCmceParse_header (h : Written (srcBit src) 0 (onAir 15#5 ++ d.header))
    (hn : 5 + d.header.length ≤ nBits) : tetraCmceParse src nBits =
      parseSdsUserData src nBits (5 + d.header.length) d.opened := by
  have hlen := length_header d
  have hall := h
  simp only [SdsData.header, written_append, length_onAir, Nat.zero_add] at hall
  obtain ⟨htype, harea, hcpti, haddr, hsdti⟩ := hall
  have hstart : Written (srcBit src) 0
      (onAir 15#5 ++ (onAir d.area ++ onAir d.called.typeIdentifier)) := by
    simp only [written_append, length_onAir, Nat.zero_add]
    exact ⟨htype, harea, hcpti⟩
  rw [tetraCmceParse_sdsData (by omega) hstart,
    parseCalledParty_eq (c := d.called) rfl haddr (by omega)]
  dsimp only
  rw [if_neg (by omega), getBits_toUInt8 (by decide) hsdti, hlen]
  congr 1
  omega

/-! ## The user data -/

theorem getBits_number {bits : List Bool} (hlen : bits.length ≤ 32)
    (h : Written (srcBit src) pos bits) :
    getBits src pos bits.length = (number bits).toUInt32 := by
  have hlt := number_lt bits
  have hpow : 2 ^ bits.length ≤ 2 ^ 32 := Nat.pow_le_pow_right Nat.zero_lt_two hlen
  refine UInt32.toNat_inj.1 ?_
  rw [toNat_shiftIn (srcBit src) (k := pos) rfl (fun _ ↦ rfl) hlen, h, Nat.toUInt32,
    UInt32.toNat_ofNat', Nat.mod_eq_of_lt (hlt.trans_le hpow)]

/-- User data of `want` bits, by the short data type, that is all there: its first 32 bits are in
the record, and the cursor is behind them. -/
theorem parseSdsUserData_fixed {bits : List Bool} (h3 : (out.shortDataTypeIdentifier == 3) = false)
    (hwant : (if out.shortDataTypeIdentifier == 0 then 16
      else if out.shortDataTypeIdentifier == 1 then 32 else 64) = bits.length)
    (h : Written (srcBit src) pos bits) (hn : pos + bits.length ≤ nBits)
    (hzero : out.sdsTruncated = 0) :
    parseSdsUserData src nBits pos out =
      (parseOBit src nBits (pos + min bits.length 32) { out with
        sdsUserData := (number (bits.take 32)).toUInt32
        sdsUserDataBits := (min bits.length 32).toUInt8
        sdsTruncated := if bits.length ≤ 32 then 0 else 1 }, 0) := by
  have hpos : 0 < bits.length := by
    rw [← hwant]
    split_ifs <;> decide
  have htake : min (min (nBits - pos) bits.length) 32 = min bits.length 32 := by omega
  have hsome : min bits.length 32 > 0 := by omega
  have hfirst : getBits src pos (min bits.length 32) = (number (bits.take 32)).toUInt32 := by
    rw [← List.take_append_drop 32 bits, written_append] at h
    have hget := getBits_number (List.length_take_le 32 bits) h.1
    rwa [List.length_take, Nat.min_comm] at hget
  rw [parseSdsUserData, h3, if_neg Bool.false_ne_true]
  dsimp only
  rw [hwant, htake, if_pos hsome, hfirst]
  by_cases hle : bits.length ≤ 32
  · have hall : ¬ min bits.length 32 < bits.length := by omega
    rw [if_neg hall, if_pos hle, ← hzero]
  · have hcut : min bits.length 32 < bits.length := by omega
    rw [if_pos hcut, if_neg hle]

theorem parseOBit_sdsTruncated :
    (parseOBit src nBits pos out).sdsTruncated = out.sdsTruncated := by
  rw [parseOBit]
  split_ifs <;> rfl

/-- User data of a fixed length that is not all there. -/
theorem parseSdsUserData_cut {want : ℕ} (h3 : (out.shortDataTypeIdentifier == 3) = false)
    (hwant : (if out.shortDataTypeIdentifier == 0 then 16
      else if out.shortDataTypeIdentifier == 1 then 32 else 64) = want)
    (hn : nBits < pos + want) : (parseSdsUserData src nBits pos out).2 = 0 ∧
      (parseSdsUserData src nBits pos out).1.sdsTruncated = 1 := by
  have hcut : min (min (nBits - pos) want) 32 < want := by
    have hpos : 0 < want := by
      rw [← hwant]
      split_ifs <;> decide
    omega
  rw [parseSdsUserData, h3, if_neg Bool.false_ne_true]
  dsimp only
  rw [hwant, if_pos hcut]
  exact ⟨rfl, parseOBit_sdsTruncated⟩

/-- A UDD-4 is always marked. -/
theorem parseSdsUserData_udd4 (h3 : (out.shortDataTypeIdentifier == 3) = true) :
    (parseSdsUserData src nBits pos out).2 = 0 ∧
      (parseSdsUserData src nBits pos out).1.sdsTruncated = 1 := by
  rw [parseSdsUserData, if_pos h3]
  split_ifs <;> exact ⟨rfl, rfl⟩

/-- **Where not all of the user data is there, it is marked as truncated.** -/
theorem parseSdsUserData_truncated {x : UserData} (hn : nBits < pos + x.encode.length)
    (hout : out.shortDataTypeIdentifier = x.typeIdentifier.toNat.toUInt8) :
    (parseSdsUserData src nBits pos out).2 = 0 ∧
      (parseSdsUserData src nBits pos out).1.sdsTruncated = 1 := by
  cases x with
  | udd1 x =>
      exact parseSdsUserData_cut (by rw [hout]; rfl) (by rw [hout]; rfl)
        (hn.trans_eq (congrArg (pos + ·) (length_onAir x)))
  | udd2 x =>
      exact parseSdsUserData_cut (by rw [hout]; rfl) (by rw [hout]; rfl)
        (hn.trans_eq (congrArg (pos + ·) (length_onAir x)))
  | udd3 x =>
      exact parseSdsUserData_cut (by rw [hout]; rfl) (by rw [hout]; rfl)
        (hn.trans_eq (congrArg (pos + ·) (length_onAir x)))
  | udd4 length data => exact parseSdsUserData_udd4 (by rw [hout]; rfl)

/-! ## The PDU -/

/-- What comes first in a buffer that holds the beginning of a PDU. -/
theorem written_of_take {xs ys : List Bool} (h : Written (srcBit src) 0 ((xs ++ ys).take nBits))
    (hn : xs.length ≤ nBits) : Written (srcBit src) 0 xs := by
  obtain ⟨k, rfl⟩ := Nat.exists_eq_add_of_le hn
  rw [List.take_length_add_append, written_append] at h
  exact h.1

theorem opened_shortDataTypeIdentifier (d : SdsData) :
    d.opened.shortDataTypeIdentifier = d.data.typeIdentifier.toNat.toUInt8 := rfl

/-- What is cut in its first 11 bits is refused. -/
theorem tetraCmceParse_short (h : Written (srcBit src) 0 ((d.encode o).take nBits))
    (hn : nBits < 11) : (tetraCmceParse src nBits).2 = -1 := by
  rw [tetraCmceParse]
  split_ifs with h5
  · rfl
  · have htype := written_of_take h (by rw [length_onAir]; omega)
    have hmap : mapPduType (getBits src 0 5) = .uSdsData := by
      rw [mapPduType, toNat_getBits (by decide) htype]
      rfl
    rw [hmap]
    dsimp only
    rw [parseSdsData, if_pos (by omega)]

/-- **What is cut in its user data, or in the address before it, is marked.** -/
theorem tetraCmceParse_cut (h : Written (srcBit src) 0 ((d.encode o).take nBits))
    (hn : nBits < 5 + d.header.length + d.data.encode.length) (h11 : 11 ≤ nBits) :
    (tetraCmceParse src nBits).2 = 0 ∧ (tetraCmceParse src nBits).1.sdsTruncated = 1 := by
  by_cases hhead : 5 + d.header.length ≤ nBits
  · have hw : Written (srcBit src) 0 (onAir 15#5 ++ d.header) := by
      rw [SdsData.encode, ← List.append_assoc] at h
      exact written_of_take h (by rw [List.length_append, length_onAir]; exact hhead)
    rw [tetraCmceParse_header hw hhead]
    exact parseSdsUserData_truncated hn (opened_shortDataTypeIdentifier d)
  · have hw : Written (srcBit src) 0
        (onAir 15#5 ++ (onAir d.area ++ onAir d.called.typeIdentifier)) := by
      have hsplit : d.encode o = onAir 15#5 ++ (onAir d.area ++ onAir d.called.typeIdentifier) ++
          (d.called.address ++ (onAir d.data.typeIdentifier ++ (d.data.encode ++ onAir o))) := by
        simp only [SdsData.encode, SdsData.header, List.append_assoc]
      rw [hsplit] at h
      exact written_of_take h (by simp only [List.length_append, length_onAir]; omega)
    rw [length_header] at hhead
    rw [tetraCmceParse_sdsData h11 hw]
    have hcursor : (∃ out', parseCalledParty src nBits 11 d.started =
        some (out', 11 + d.called.address.length)) ∨
          parseCalledParty src nBits 11 d.started = none := parseCalledParty_cursor rfl
    rcases hcursor with ⟨out, hparse⟩ | hparse
    · rw [hparse]
      dsimp only
      rw [if_pos (by omega)]
      exact ⟨rfl, rfl⟩
    · rw [hparse]
      exact ⟨rfl, rfl⟩

/-- User data of a fixed length, whole and with its o-bit. -/
theorem tetraCmceParse_fixed (h : Written (srcBit src) 0 (d.encode o))
    (hn : (d.encode o).length ≤ nBits) (hdata : d.data.encode = d.data.bits)
    (h3 : (d.opened.shortDataTypeIdentifier == 3) = false)
    (hwant : (if d.opened.shortDataTypeIdentifier == 0 then 16
      else if d.opened.shortDataTypeIdentifier == 1 then 32 else 64) = d.data.bits.length) :
    ∃ b, tetraCmceParse src nBits = ({ d.opened with
        sdsUserData := (number (d.data.bits.take 32)).toUInt32
        sdsUserDataBits := (min d.data.bits.length 32).toUInt8
        sdsTruncated := if d.data.bits.length ≤ 32 then 0 else 1
        oBit := b }, 0) ∧
      (d.data.bits.length ≤ 32 → b = o.toNat.toUInt8) := by
  rw [SdsData.encode, ← List.append_assoc, hdata] at h hn
  obtain ⟨hhead, hrest⟩ := written_append.1 h
  obtain ⟨hbits, ho⟩ := written_append.1 hrest
  simp only [List.length_append, length_onAir, Nat.zero_add] at hbits ho hn
  have hzero : d.opened.sdsTruncated = 0 := by
    rw [SdsData.opened]
    cases d.called <;> rfl
  rw [tetraCmceParse_header hhead (by omega),
    parseSdsUserData_fixed h3 hwant hbits (by omega) hzero, parseOBit, if_pos (by omega)]
  refine ⟨_, rfl, fun hle ↦ ?_⟩
  rw [Nat.min_eq_left hle]
  exact getBits_toUInt8 (by decide) ho

/-- A whole UDD-4. -/
theorem tetraCmceParse_udd4 {length : BitVec 11} {data : Vector Bool length.toNat}
    (h : Written (srcBit src) 0 (d.encode o)) (hn : (d.encode o).length ≤ nBits)
    (hd : d.data = .udd4 length data) :
    ∃ pid, tetraCmceParse src nBits = ({ d.opened with
        sdsLengthIndicator := length.toNat.toUInt16
        sdsProtocolId := pid
        sdsTruncated := 1 }, 0) ∧
      (8 ≤ length.toNat → pid = (number (data.toList.take 8)).toUInt8) := by
  have h3 : (d.opened.shortDataTypeIdentifier == 3) = true := by
    rw [opened_shortDataTypeIdentifier, hd]
    rfl
  rw [SdsData.encode, ← List.append_assoc, hd, UserData.encode] at h hn
  obtain ⟨hhead, hrest⟩ := written_append.1 h
  obtain ⟨hlength, hdata⟩ := written_append.1 (written_append.1 hrest).1
  simp only [List.length_append, length_onAir, Nat.zero_add, Vector.length_toList]
    at hlength hdata hn
  have hopen : 5 + d.header.length ≤ nBits := by omega
  have hlen : ¬ 5 + d.header.length + 11 > nBits := by omega
  rw [tetraCmceParse_header hhead hopen, parseSdsUserData, if_pos h3, if_neg hlen]
  dsimp only
  rw [getBits_toUInt16 (by decide) hlength]
  by_cases hpid : 5 + d.header.length + 11 + 8 ≤ nBits
  · rw [if_pos hpid]
    refine ⟨_, rfl, fun hle ↦ ?_⟩
    rw [← List.take_append_drop 8 data.toList, written_append] at hdata
    have hlen8 : (data.toList.take 8).length = 8 :=
      List.length_take_of_le (by rwa [Vector.length_toList])
    have hget := getBits_number (by rw [hlen8]; decide) hdata.1
    rw [hlen8] at hget
    rw [hget]
    refine UInt8.toNat_inj.1 ?_
    rw [UInt32.toNat_toUInt8, Nat.toUInt32, UInt32.toNat_ofNat', Nat.toUInt8, UInt8.toNat_ofNat']
    exact Nat.mod_mod_of_dvd _ (by decide)
  · rw [if_neg hpid]
    exact ⟨_, rfl, fun hle ↦ absurd hn (by omega)⟩

/-- User data that has room in the record is all there. -/
theorem recovered_fixed (hle : d.data.bits.length ≤ 32) : d.Recovered o { d.opened with
    sdsUserData := (number (d.data.bits.take 32)).toUInt32
    sdsUserDataBits := (min d.data.bits.length 32).toUInt8
    sdsTruncated := if d.data.bits.length ≤ 32 then 0 else 1
    oBit := o.toNat.toUInt8 } := by
  have hpow : 2 ^ d.data.bits.length ≤ 2 ^ 32 := Nat.pow_le_pow_right Nat.zero_lt_two hle
  have hlt := (number_lt d.data.bits).trans_le hpow
  refine ⟨rfl, rfl, rfl, rfl, ?_, ?_, rfl⟩
  · change (min d.data.bits.length 32).toUInt8.toNat = _
    rw [Nat.min_eq_left hle, Nat.toUInt8, UInt8.toNat_ofNat', Nat.mod_eq_of_lt (by omega)]
  · change (number (d.data.bits.take 32)).toUInt32.toNat = _
    rw [List.take_of_length_le hle, Nat.toUInt32, UInt32.toNat_ofNat', Nat.mod_eq_of_lt hlt]

/-- **What the parser gets back of a U-SDS-DATA.** -/
theorem sdsData_parsed (d : SdsData) (o : BitVec 1) {src : ℕ → UInt8} {nBits : ℕ}
    (h : Written (srcBit src) 0 ((d.encode o).take nBits)) :
    ((d.encode o).length ≤ nBits → ∃ b pid, tetraCmceParse src nBits = (d.record b pid, 0) ∧
      (d.data.typeIdentifier < 2 → d.Recovered o (d.record b pid)) ∧
      (d.data.typeIdentifier = 3 → 8 ≤ d.data.bits.length →
        pid = (number (d.data.bits.take 8)).toUInt8)) ∧
    (nBits < 5 + d.header.length + d.data.encode.length →
      if nBits < 11 then (tetraCmceParse src nBits).2 = -1
      else (tetraCmceParse src nBits).2 = 0 ∧ (tetraCmceParse src nBits).1.sdsTruncated = 1) := by
  constructor
  · intro hn
    rw [List.take_of_length_le hn] at h
    obtain ⟨area, called, data⟩ := d
    cases data with
    | udd1 x =>
        obtain ⟨b, hparse, ho⟩ := tetraCmceParse_fixed h hn rfl rfl (length_onAir x).symm
        obtain rfl := ho (by simp [UserData.bits])
        exact ⟨_, 0, hparse, fun _ ↦ recovered_fixed (by simp [UserData.bits]),
          fun h3 ↦ absurd h3 (by decide : ¬ (0#2 = 3#2))⟩
    | udd2 x =>
        obtain ⟨b, hparse, ho⟩ := tetraCmceParse_fixed h hn rfl rfl (length_onAir x).symm
        obtain rfl := ho (by simp [UserData.bits])
        exact ⟨_, 0, hparse, fun _ ↦ recovered_fixed (by simp [UserData.bits]),
          fun h3 ↦ absurd h3 (by decide : ¬ (1#2 = 3#2))⟩
    | udd3 x =>
        obtain ⟨b, hparse, -⟩ := tetraCmceParse_fixed h hn rfl rfl (length_onAir x).symm
        exact ⟨b, 0, hparse, fun h2 ↦ absurd h2 (by decide : ¬ (2#2 < 2#2)),
          fun h3 ↦ absurd h3 (by decide : ¬ (2#2 = 3#2))⟩
    | udd4 length data =>
        obtain ⟨pid, hparse, hpid⟩ := tetraCmceParse_udd4 h hn rfl
        refine ⟨0, pid, hparse, fun h2 ↦ absurd h2 (by decide : ¬ (3#2 < 2#2)),
          fun _ hle ↦ hpid ?_⟩
        rwa [UserData.bits, Vector.length_toList] at hle
  · intro hn
    split_ifs with h11
    · exact tetraCmceParse_short h h11
    · exact tetraCmceParse_cut h hn (Nat.not_lt.1 h11)

/-! ### PDUs -/

/-- A UDD-1 to an SSI, with an optional element behind it. -/
def wholeUdd1 : ℕ → UInt8 := octetBuffer [0x78, 0x25, 0x05, 0xf2, 0x25, 0xf7, 0x7c]

/-- A UDD-3 to the same SSI, with nothing behind it. -/
def wholeUdd3 : ℕ → UInt8 := octetBuffer
  [0x78, 0x25, 0x05, 0xf2, 0x30, 0x09, 0x1a, 0x2b, 0x3c, 0x4d, 0x5e, 0x6f, 0x78]

/-- The UDD-1, whole and cut after its address. -/
theorem sdsData_parsed_udd1 :
    (SdsData.mk 0 (.ssi 2633617) (.udd1 0xBEEF)).Recovered 1 (tetraCmceParse wholeUdd1 54).1 ∧
      (tetraCmceParse wholeUdd1 40).1.sdsTruncated = 1 := by
  have hwhole : Written (srcBit wholeUdd1) 0
      (((SdsData.mk 0 (.ssi 2633617) (.udd1 0xBEEF)).encode 1).take 54) := by decide
  have hcut : Written (srcBit wholeUdd1) 0
      (((SdsData.mk 0 (.ssi 2633617) (.udd1 0xBEEF)).encode 1).take 40) := by decide
  obtain ⟨b, pid, hparse, hrecovered, -⟩ := (sdsData_parsed _ _ hwhole).1 (by decide)
  constructor
  · rw [hparse]
    exact hrecovered (by decide)
  · exact ((sdsData_parsed _ _ hcut).2 (by decide)).2

/-- Half of the UDD-3 is lost. -/
theorem not_recovered_udd3 :
    Written (srcBit wholeUdd3) 0
      ((SdsData.mk 0 (.ssi 2633617) (.udd3 0x0123456789ABCDEF)).encode 0) ∧
    ¬ (SdsData.mk 0 (.ssi 2633617) (.udd3 0x0123456789ABCDEF)).Recovered 0
      (tetraCmceParse wholeUdd3 102).1 := by
  refine ⟨by decide, fun h ↦ ?_⟩
  exact absurd h.2.2.2.2.1 (by decide)

end TetraPhy.Sw
