import TetraPhy.Lib.Layout
import TetraPhy.Lmac.MacResource
import TetraPhy.Lib.FieldReader

/-!
# Reading a MAC-RESOURCE

The receiving side of EN 300 392-2, as `decode_pdu.py` has it: `decode_mac_resource` with
`decode_channel_allocation`, `decode_llc` and `decode_mle`.  The length indication says how many
octets of the block are the PDU, and with the fill bit indication the PDU ends before the last one
in them; what is left behind the headers is the TM-SDU.
-/

namespace TetraPhy.Lmac

open AirOrder FieldReader

/-- `decode_channel_allocation`: `ca`. -/
structure ChanAlloc where
  allocationType : BitVec 2
  timeslotAssigned : BitVec 4
  uplinkDownlinkAssigned : BitVec 2
  clchPermission : Bool
  cellChangeFlag : Bool
  carrierNumber : BitVec 12
  /-- Frequency band, offset, duplex spacing and reverse operation. -/
  extendedCarrier : Option (BitVec 4 × BitVec 2 × BitVec 3 × Bool) := none
  monitoringPattern : BitVec 2
  frame18MonitoringPattern : Option (BitVec 2) := none
deriving DecidableEq, Repr

/-- The address: which of its parts there are is told by its type. -/
structure MacAddress where
  addressType : BitVec 3
  ssi : Option (BitVec 24) := none
  eventLabel : Option (BitVec 10) := none
  smi : Option (BitVec 48) := none
  usageMarker : Option (BitVec 6) := none
deriving DecidableEq, Repr

/-- `decode_llc`: the LLC header. -/
structure LlcHeader where
  llcType : BitVec 4
  nr : Option Bool := none
  ns : Option Bool := none
deriving DecidableEq, Repr

/-- A MAC-RESOURCE. -/
structure MacResource where
  positionOfGrant : Bool
  encryptionMode : BitVec 2
  randomAccessFlag : Bool
  lengthIndicator : BitVec 6
  address : MacAddress
  powerControlElement : Option (BitVec 4)
  slotGranting : Option (BitVec 8)
  channelAllocation : Option ChanAlloc
  llc : LlcHeader
  /-- The MLE protocol discriminator, of the PDU types that carry one. -/
  discriminator : Option (BitVec 3)
  sdu : List Bool
deriving DecidableEq, Repr

/-- `ext`: the extended carrier numbering. -/
def readExtendedCarrier (bits : List Bool) :
    Option ((BitVec 4 × BitVec 2 × BitVec 3 × Bool) × List Bool) :=
  (readWord 4 bits).bind fun (band, bits) ↦
    (readWord 2 bits).bind fun (offset, bits) ↦
      (readWord 3 bits).bind fun (duplex, bits) ↦
        (readFlag bits).bind fun (rev, bits) ↦ some ((band, offset, duplex, rev), bits)

/-- `decode_channel_allocation`. -/
def readChanAlloc (bits : List Bool) : Option (ChanAlloc × List Bool) :=
  (readWord 2 bits).bind fun (allocationType, bits) ↦
    (readWord 4 bits).bind fun (timeslotAssigned, bits) ↦
      (readWord 2 bits).bind fun (uplinkDownlinkAssigned, bits) ↦
        (readFlag bits).bind fun (clchPermission, bits) ↦
          (readFlag bits).bind fun (cellChangeFlag, bits) ↦
            (readWord 12 bits).bind fun (carrierNumber, bits) ↦
              (readFlagged readExtendedCarrier bits).bind fun (extendedCarrier, bits) ↦
                (readWord 2 bits).bind fun (monitoringPattern, bits) ↦
                  (readIf (monitoringPattern == 0) (readWord 2) bits).bind
                    fun (frame18MonitoringPattern, bits) ↦
                      some (⟨allocationType, timeslotAssigned, uplinkDownlinkAssigned,
                        clchPermission, cellChangeFlag, carrierNumber, extendedCarrier,
                        monitoringPattern, frame18MonitoringPattern⟩, bits)

/-- The address block. -/
def readAddress (bits : List Bool) : Option (MacAddress × List Bool) :=
  (readWord 3 bits).bind fun (t, bits) ↦
    (readIf (t == 1 || t == 3 || t == 5 || t == 6) (readWord 24) bits).bind fun (ssi, bits) ↦
      (readIf (t == 4 || t == 7) (readWord 48) bits).bind fun (smi, bits) ↦
        (readIf (t == 2 || t == 5 || t == 7) (readWord 10) bits).bind fun (eventLabel, bits) ↦
          (readIf (t == 6) (readWord 6) bits).bind fun (usageMarker, bits) ↦
            some (⟨t, ssi, eventLabel, smi, usageMarker⟩, bits)

/-- `decode_llc`. -/
def readLlc (bits : List Bool) : Option (LlcHeader × List Bool) :=
  (readWord 4 bits).bind fun (t, bits) ↦
    (readIf (t == 0 || t == 4 || t == 3 || t == 7) readFlag bits).bind fun (nr, bits) ↦
      (readIf (t == 0 || t == 4 || t == 1 || t == 5) readFlag bits).bind fun (ns, bits) ↦
        some (⟨t, nr, ns⟩, bits)

/-- The PDU in a block, without what is behind it, and without its fill bits. -/
def readPdu (block : List Bool) : Option (List Bool) :=
  (expect 2 0 block).bind fun bits ↦
    (readFlag bits).bind fun (fillBit, bits) ↦
      (readFlag bits).bind fun (_grant, bits) ↦
        (readWord 2 bits).bind fun (_encryption, bits) ↦
          (readFlag bits).bind fun (_access, bits) ↦
            (readWord 6 bits).bind fun (lengthIndicator, _) ↦
              let pdu := block.take (8 * lengthIndicator.toNat)
              some (if fillBit then unfill pdu else pdu)

/-- `decode_mac_resource`, `decode_llc` and `decode_mle` of a PDU.  A PDU to nobody has nothing
behind its address. -/
def readMacResource (bits : List Bool) : Option MacResource :=
  (expect 2 0 bits).bind fun bits ↦
    (readFlag bits).bind fun (_fillBit, bits) ↦
      (readFlag bits).bind fun (positionOfGrant, bits) ↦
        (readWord 2 bits).bind fun (encryptionMode, bits) ↦
          (readFlag bits).bind fun (randomAccessFlag, bits) ↦
            (readWord 6 bits).bind fun (lengthIndicator, bits) ↦
              (readAddress bits).bind fun (address, bits) ↦
                if address.addressType = 0 then none
                else (readFlagged (readWord 4) bits).bind fun (powerControlElement, bits) ↦
                  (readFlagged (readWord 8) bits).bind fun (slotGranting, bits) ↦
                    (readFlagged readChanAlloc bits).bind fun (channelAllocation, bits) ↦
                      (readLlc bits).bind fun (llc, bits) ↦
                        (readIf (llc.llcType == 0 || llc.llcType == 1 || llc.llcType == 2)
                          (readWord 3) bits).bind fun (discriminator, sdu) ↦
                            some ⟨positionOfGrant, encryptionMode, randomAccessFlag,
                              lengthIndicator, address, powerControlElement, slotGranting,
                              channelAllocation, llc, discriminator, sdu⟩

/-- A terminal that receives a block. -/
def decodeMacResource (block : List Bool) : Option MacResource :=
  (readPdu block).bind readMacResource

end TetraPhy.Lmac

/-!
# What a MAC-RESOURCE carries

The block that the builder puts out is, in the order on air, its header, the LLC PDU and the fill
bits (`MacResIn.onAir_pdu`).  `MacResIn.fields` says what a terminal should read in it, for the
address types, the LLC PDU types and the block sizes that the builder supports (`Supported`).

**`MacResIn.decode_pdu`**: the terminal reads every field and exactly the bits of the TM-SDU, and
the length indication is the length of the PDU in octets, which the block always has.
-/

namespace TetraPhy.Lmac

open AirOrder BitField FieldReader Layout

/-! ## The channel allocation on air -/

namespace ChanAlloc

variable (ca : ChanAlloc)

/-- The extended carrier numbering on air. -/
def extendedBits : List Bool :=
  match ca.extendedCarrier with
  | none => [false]
  | some (band, offset, duplex, rev) =>
    true :: (onAir band ++ (onAir offset ++ (onAir duplex ++ [rev])))

/-- The element on air. -/
def bits : List Bool :=
  onAir ca.allocationType ++ (onAir ca.timeslotAssigned ++ (onAir ca.uplinkDownlinkAssigned ++
    (ca.clchPermission :: ca.cellChangeFlag :: (onAir ca.carrierNumber ++
      (ca.extendedBits ++ (onAir ca.monitoringPattern ++
        (ca.frame18MonitoringPattern.map onAir).getD []))))))

/-- The pattern for frame 18 is there if there is no other one. -/
def WellFormed : Prop := ca.frame18MonitoringPattern.isSome = (ca.monitoringPattern == 0)

variable {ca}

theorem readFlagged_extendedBits (rest : List Bool) :
    readFlagged readExtendedCarrier (ca.extendedBits ++ rest) = some (ca.extendedCarrier, rest) := by
  rw [extendedBits]
  cases hext : ca.extendedCarrier with
  | none => exact readFlagged_none rest
  | some ext =>
      obtain ⟨band, offset, duplex, rev⟩ := ext
      rw [List.cons_append]
      refine readFlagged_some ?_
      simp only [readExtendedCarrier, List.append_assoc, readWord_append, Option.bind_some]
      rfl

theorem readChanAlloc_bits (h : ca.WellFormed) (rest : List Bool) :
    readChanAlloc (ca.bits ++ rest) = some (ca, rest) := by
  have h18 : readIf (ca.monitoringPattern == 0) (readWord 2)
      ((ca.frame18MonitoringPattern.map onAir).getD [] ++ rest) =
        some (ca.frame18MonitoringPattern, rest) := by
    rw [← h]
    cases ca.frame18MonitoringPattern with
    | none => exact readIf_false rest
    | some x => exact readIf_true (readWord_append x rest)
  simp only [readChanAlloc, bits, List.append_assoc, List.cons_append, readWord_append,
    Option.bind_some, readFlag_cons, readFlagged_extendedBits, h18]

end ChanAlloc

/-- The word a list of bits is the number of. -/
theorem onAir_ofNat_number (bs : List Bool) : onAir (BitVec.ofNat bs.length (number bs)) = bs := by
  refine number_inj (length_onAir _) ?_
  rw [number_onAir, BitVec.toNat_ofNat, Nat.mod_eq_of_lt (number_lt bs)]

namespace MacResIn

variable (i : MacResIn)

/-! ## What stands in the block -/

/-- A flag, and what follows it if it is set. -/
def flagged (c : Bool) (bs : List Bool) : List Bool := c :: if c then bs else []

/-- The address block. -/
def addressBits : List Bool :=
  onAir i.addrType ++ (onAir i.ssi ++ if i.addrType = 6 then onAir i.usageMarker else [])

/-- The header. -/
def headBits (ca : Option ChanAlloc) : List Bool :=
  false :: false :: i.fillBitInd :: false :: false :: false :: i.randomAccessFlag ::
    (onAir i.lengthInd ++ (i.addressBits ++
      (flagged i.powerControlFlag (onAir i.powerControlElement) ++
        (flagged i.slotGrantingFlag (onAir i.slotGrantingElement) ++
          flagged ca.isSome ((ca.map ChanAlloc.bits).getD [])))))

/-- The TM-SDU behind the LLC and MLE headers. -/
def sduBits : List Bool :=
  if i.llcPduType = 8 ∨ i.llcPduType = 3 then [] else (onAir i.mmPduBits).take i.mmPduLenBits.toNat

/-- The LLC PDU. -/
def llcBits : List Bool :=
  onAir i.llcPduType ++
    (if i.llcPduType = 0 then [i.nr, i.ns]
      else if i.llcPduType = 1 then [i.ns] else if i.llcPduType = 3 then [i.nr] else []) ++
    (if i.llcPduType = 0 ∨ i.llcPduType = 1 ∨ i.llcPduType = 2 then onAir i.latMlePd else []) ++
    i.sduBits

/-- The builder is given the channel allocation `ca`. -/
structure Carries (ca : Option ChanAlloc) : Prop where
  flag : i.chanAllocFlag = ca.isSome
  wellFormed : ∀ x ∈ ca, x.WellFormed
  /-- The element is right-aligned, and its length fits the port. -/
  element : ∀ x ∈ ca, i.chanAllocElement.toNat = number x.bits
  len : ∀ x ∈ ca, i.chanAllocElementLen = x.bits.length
  fits : i.chanAllocElementLen < 32

/-- The builder with blocks of `n` bits and a buffer of `m` bits for the LLC PDU: the one for full
slots, or the one for half slots, which has no room for a TM-SDU. -/
inductive Sized : ℕ → ℕ → BitVec 4 → Prop
  | full {t : BitVec 4} (h : t = 0 ∨ t = 1 ∨ t = 2 ∨ t = 3 ∨ t = 8 ∨ t = 14) : Sized 268 144 t
  | half {t : BitVec 4} (h : t = 3 ∨ t = 8) : Sized 124 16 t

theorem Sized.llcPduType {n m : ℕ} {t : BitVec 4} (h : Sized n m t) :
    t = 0 ∨ t = 1 ∨ t = 2 ∨ t = 3 ∨ t = 8 ∨ t = 14 := by
  cases h with
  | full h => exact h
  | half h => rcases h with rfl | rfl <;> decide

/-- What the builder supports. -/
structure Supported (n m : ℕ) (ca : Option ChanAlloc) : Prop where
  addrType : i.addrType = 1 ∨ i.addrType = 3 ∨ i.addrType = 6
  sized : Sized n m i.llcPduType
  len : i.mmPduLenBits.toNat ≤ 128
  carries : i.Carries ca

/-- What a terminal should read. -/
def fields (ca : Option ChanAlloc) : MacResource where
  positionOfGrant := false
  encryptionMode := 0
  randomAccessFlag := i.randomAccessFlag
  lengthIndicator := i.lengthInd
  address := {
    addressType := i.addrType
    ssi := some i.ssi
    usageMarker := if i.addrType = 6 then some i.usageMarker else none }
  powerControlElement := if i.powerControlFlag then some i.powerControlElement else none
  slotGranting := if i.slotGrantingFlag then some i.slotGrantingElement else none
  channelAllocation := ca
  llc := {
    llcType := i.llcPduType
    nr := if i.llcPduType = 0 ∨ i.llcPduType = 3 then some i.nr else none
    ns := if i.llcPduType = 0 ∨ i.llcPduType = 1 then some i.ns else none }
  discriminator :=
    if i.llcPduType = 0 ∨ i.llcPduType = 1 ∨ i.llcPduType = 2 then some i.latMlePd else none
  sdu := i.sduBits

variable {i} {n m : ℕ} {ca : Option ChanAlloc}

/-! ## Lengths -/

theorem length_mmBits (h : i.Supported n m ca) :
    ((onAir i.mmPduBits).take i.mmPduLenBits.toNat).length = i.mmPduLenBits.toNat := by
  rw [List.length_take, length_onAir]
  exact Nat.min_eq_left h.len

theorem length_llcBits (h : i.Supported n m ca) : i.llcBits.length = i.llcCovLen := by
  have hmm := length_mmBits h
  have ht := h.sized.llcPduType
  rcases ht with ht | ht | ht | ht | ht | ht <;>
    simp [llcBits, sduBits, llcCovLen, llcLens, ht, hmm] <;> omega

/-! ## Layout -/

/-- The channel allocation, which is right-aligned, goes where its bits end. -/
theorem place_chanAlloc (h : i.Carries ca) {x : ChanAlloc} (hx : ca = some x) (lo : ℕ) :
    place n lo i.chanAllocElement =
      place n lo (BitVec.ofNat x.bits.length (number x.bits)) := by
  have hlen := h.len x hx
  have hfits := h.fits
  have helem : i.chanAllocElement = (BitVec.ofNat x.bits.length (number x.bits)).setWidth 32 := by
    have hlt := number_lt x.bits
    have hpow : 2 ^ x.bits.length ≤ 2 ^ 32 := Nat.pow_le_pow_right Nat.zero_lt_two (by omega)
    refine BitVec.eq_of_toNat_eq ?_
    rw [h.element x hx, BitVec.toNat_setWidth, BitVec.toNat_ofNat, Nat.mod_eq_of_lt hlt,
      Nat.mod_eq_of_lt (Nat.lt_of_lt_of_le hlt hpow)]
  rw [helem, place_setWidth _ (by omega)]

/-- **The header is laid out field by field.** -/
theorem laidOut_header (h : i.Carries ca) (hn : i.macHdrBits ≤ n) :
    LaidOut (i.header n) (i.headBits ca) i.macHdrBits := by
  have hbase : i.baseHdr = 40 + if i.addrType = 6 then 6 else 0 := by
    rw [baseHdr]
    split_ifs <;> rfl
  have hge : 40 ≤ i.baseHdr := by omega
  rw [macHdrBits] at hn
  have h1 : LaidOut (place n (n - 3) (BitVec.ofBool i.fillBitInd) |||
      place n (n - 7) (BitVec.ofBool i.randomAccessFlag) |||
      place n (n - 13) i.lengthInd ||| place n (n - 16) i.addrType ||| place n (n - 40) i.ssi)
      ([] ++ List.replicate 2 false ++ onAir (BitVec.ofBool i.fillBitInd) ++
        List.replicate 3 false ++ onAir (BitVec.ofBool i.randomAccessFlag) ++ onAir i.lengthInd ++
        onAir i.addrType ++ onAir i.ssi) 40 := by
    rw [← BitVec.zero_or (x := place n (n - 3) _)]
    exact (((((((laidOut_zero.gap (by omega)).place _ (by omega) (by omega)).gap
      (by omega)).place _ (by omega) (by omega)).place _ (by omega) (by omega)).place _
        (by omega) (by omega)).place _ (by omega) (by omega))
  have h2 := h1.place_if i.usageMarker (i.addrType = 6)
    (fun h6 ↦ by rw [if_pos h6] at hbase; omega) (fun _ ↦ show n - 46 = n - (40 + 6) from rfl)
  rw [← hbase] at h2
  have h3 := h2.place (BitVec.ofBool i.powerControlFlag) (by omega)
    (show n - 1 - i.baseHdr = n - (i.baseHdr + 1) by omega)
  have h4 : LaidOut _ _ (i.baseHdr + 1 + i.pcLen) :=
    h3.place_if i.powerControlElement (i.powerControlFlag = true)
      (fun hc ↦ by rw [pcLen, if_pos hc] at hn; omega)
      (fun _ ↦ show n - 1 - 4 - i.baseHdr = n - (i.baseHdr + 1 + 4) by omega)
  have h5 := h4.place (BitVec.ofBool i.slotGrantingFlag) (by omega)
    (show n - 1 - 1 - i.baseHdr - i.pcLen = n - (i.baseHdr + 1 + i.pcLen + 1) by omega)
  have h6 : LaidOut _ _ (i.baseHdr + 1 + i.pcLen + 1 + i.sgLen) :=
    h5.place_if i.slotGrantingElement (i.slotGrantingFlag = true)
      (fun hc ↦ by rw [sgLen, if_pos hc] at hn; omega)
      (fun _ ↦ show n - 2 - 8 - i.baseHdr - i.pcLen = n - (i.baseHdr + 1 + i.pcLen + 1 + 8) by omega)
  have h7 := h6.place (BitVec.ofBool i.chanAllocFlag) (by omega)
    (show n - 2 - 1 - i.baseHdr - i.pcLen - i.sgLen =
      n - (i.baseHdr + 1 + i.pcLen + 1 + i.sgLen + 1) by omega)
  have hflag := h.flag
  cases ca with
  | none =>
      have hf : i.chanAllocFlag = false := hflag
      refine h7.cast ?_ ?_ ?_
      · rw [header, hf, if_neg Bool.false_ne_true, BitVec.or_zero]
      · rw [onAir_ofBool i.chanAllocFlag, hf]
        simp [headBits, addressBits, flagged, onAir_ofBool]
      · rw [macHdrBits, caLen, hf, if_neg Bool.false_ne_true]
        omega
  | some x =>
      have hf : i.chanAllocFlag = true := hflag
      have hlen := h.len x rfl
      have hfull : i.baseHdr + 1 + i.pcLen + 1 + i.sgLen + 1 + x.bits.length ≤ n := by
        rw [caLen, hf, if_pos rfl, hlen] at hn
        omega
      have h8 := h7.place (BitVec.ofNat x.bits.length (number x.bits)) hfull
        (show n - 3 - i.baseHdr - i.pcLen - i.sgLen - x.bits.length = _ by omega)
      refine h8.cast ?_ ?_ ?_
      · rw [header, hf, if_pos rfl, hlen, place_chanAlloc h rfl]
      · rw [onAir_ofBool i.chanAllocFlag, hf, onAir_ofNat_number]
        simp [headBits, addressBits, flagged, onAir_ofBool]
      · rw [macHdrBits, caLen, hf, if_pos rfl, hlen]
        omega

/-- The bits of the LLC PDU at the top of its buffer. -/
def TopBits (i : MacResIn) (m : ℕ) : Prop :=
  i.llcCovLen ≤ m ∧ onAir ((i.llcBuf m).extractLsb' (m - i.llcCovLen) i.llcCovLen) = i.llcBits

/-- An LLC PDU with a TM-SDU, of which only some bits count. -/
theorem topBits_sdu (h : i.Supported n m ca) {hd : List Bool} {k : ℕ}
    (hbuf : LaidOut (i.llcBuf m) (hd ++ onAir i.mmPduBits) k)
    (hbits : i.llcBits = hd ++ (onAir i.mmPduBits).take i.mmPduLenBits.toNat) : i.TopBits m := by
  have hlen := h.len
  have hcov := (length_llcBits h).symm
  have hk := hbuf.length
  have hfits := hbuf.fits
  rw [hbits, List.length_append, length_mmBits h] at hcov
  rw [List.length_append, length_onAir] at hk
  refine ⟨by omega, ?_⟩
  rw [onAir_top hbuf (by omega), hcov, hbits, List.take_length_add_append]

/-- An LLC PDU that is all header. -/
theorem topBits_head (h : i.Supported n m ca) {k : ℕ} (hbuf : LaidOut (i.llcBuf m) i.llcBits k) :
    i.TopBits m := by
  have hcov := (length_llcBits h).symm.trans hbuf.length
  refine ⟨hcov ▸ hbuf.fits, ?_⟩
  rw [onAir_top hbuf hcov.le, ← length_llcBits h, List.take_length]

/-- **The buffer of the LLC PDU begins with it.** -/
theorem topBits (h : i.Supported n m ca) : i.TopBits m := by
  have hack : 5 ≤ m → i.llcPduType = 3 → i.TopBits m := by
    intro hm ht
    refine topBits_head h (((laidOut_place 3#4 (by omega) rfl).place (BitVec.ofBool i.nr) (by omega)
      (show m - 5 = m - (4 + 1) from rfl)).cast ?_ ?_ rfl)
    · simp [llcBuf, ht]
    · simp [llcBits, sduBits, ht, onAir_ofBool]
  have hsetup : 5 ≤ m → i.llcPduType = 8 → i.TopBits m := by
    intro hm ht
    refine topBits_head h ((laidOut_place 8#4 (by omega) rfl).cast ?_ ?_ rfl)
    · simp [llcBuf, ht]
    · simp [llcBits, sduBits, ht]
  have hsized := h.sized
  generalize ht : i.llcPduType = t at hsized
  cases hsized with
  | full ht' =>
      rcases ht' with rfl | rfl | rfl | rfl | rfl | rfl
      · refine topBits_sdu h ((((((laidOut_place 0#4 (by decide) rfl).place
          (BitVec.ofBool i.nr) (by decide) rfl).place (BitVec.ofBool i.ns) (by decide) rfl).place
            i.latMlePd (by decide) rfl).place i.mmPduBits (by decide) rfl).cast ?_ rfl rfl) ?_
        · simp [llcBuf, ht]
        · simp [llcBits, sduBits, ht, onAir_ofBool]
      · refine topBits_sdu h (((((laidOut_place 1#4 (by decide) rfl).place
          (BitVec.ofBool i.ns) (by decide) rfl).place i.latMlePd (by decide) rfl).place
            i.mmPduBits (by decide) rfl).cast ?_ rfl rfl) ?_
        · simp [llcBuf, ht]
        · simp [llcBits, sduBits, ht, onAir_ofBool]
      · refine topBits_sdu h ((((laidOut_place 2#4 (by decide) rfl).place i.latMlePd
          (by decide) rfl).place i.mmPduBits (by decide) rfl).cast ?_ rfl rfl) ?_
        · simp [llcBuf, ht]
        · simp [llcBits, sduBits, ht]
      · exact hack (by decide) ht
      · exact hsetup (by decide) ht
      · refine topBits_sdu h (((laidOut_place 14#4 (by decide) rfl).place i.mmPduBits (by decide)
          rfl).cast ?_ rfl rfl) ?_
        · simp [llcBuf, ht]
        · simp [llcBits, sduBits, ht]
  | half ht' =>
      rcases ht' with rfl | rfl
      · exact hack (by decide) ht
      · exact hsetup (by decide) ht

/-- The LLC PDU goes behind the header. -/
theorem tmSdu_eq (h : i.Supported n m ca) (hm : m ≤ n) (hn : i.macTotalBits ≤ n) :
    ∃ y : BitVec i.llcCovLen,
      onAir y = i.llcBits ∧ i.tmSdu n m = place n (n - i.macTotalBits) y := by
  obtain ⟨hle, htop⟩ := topBits h
  have htotal : i.macTotalBits = i.macHdrBits + i.llcCovLen := rfl
  refine ⟨_, htop, ?_⟩
  rw [tmSdu, shlSub, if_pos (by omega), shrSub, if_pos hle, shift_eq_place _ hle hm, htotal]

/-- **The block on air.** -/
theorem onAir_pdu (h : i.Supported n m ca) (hm : m ≤ n) (hn : i.macTotalBits ≤ n) :
    onAir (i.pdu n m) = i.headBits ca ++ i.llcBits ++
      ((if i.macTotalBits < n then [true] else []) ++
        List.replicate (n - i.macTotalBits - 1) false) := by
  have htotal : i.macTotalBits = i.macHdrBits + i.llcCovLen := rfl
  obtain ⟨y, hy, hsdu⟩ := tmSdu_eq h hm hn
  have hhead := laidOut_header h.carries (Nat.le_trans (Nat.le_add_right _ _) (htotal ▸ hn))
  have hllc := hhead.place y (by omega) (show n - i.macTotalBits = _ by rw [htotal])
  have hpad := hllc.place_if 1#1 (i.macTotalBits < n) (fun hlt ↦ by omega)
    (fun _ ↦ show n - 1 - i.macTotalBits = n - (i.macHdrBits + i.llcCovLen + 1) by omega)
  have hair := hpad.onAir_eq
  rw [hy, ← hsdu, List.append_assoc] at hair
  rw [pdu, pad]
  refine hair.trans ?_
  rw [← htotal]
  congr 2
  split_ifs <;> simp <;> omega

/-! ## What a terminal reads -/

theorem expect_two (bits : List Bool) : expect 2 0 (false :: false :: bits) = some bits :=
  expect_append (a := [false, false]) rfl rfl bits

theorem readWord_two (bits : List Bool) : readWord 2 (false :: false :: bits) = some (0#2, bits) :=
  readWord_append 0#2 bits

theorem readFlagged_flagged {w : ℕ} (c : Bool) (x : BitVec w) (rest : List Bool) :
    readFlagged (readWord w) (flagged c (onAir x) ++ rest) =
      some (if c then some x else none, rest) := by
  cases c with
  | false => exact readFlagged_none rest
  | true => exact readFlagged_some (readWord_append x rest)

theorem readFlagged_chanAlloc (h : i.Carries ca) (rest : List Bool) :
    readFlagged readChanAlloc (flagged ca.isSome ((ca.map ChanAlloc.bits).getD []) ++ rest) =
      some (ca, rest) := by
  cases ca with
  | none => exact readFlagged_none rest
  | some x => exact readFlagged_some (ChanAlloc.readChanAlloc_bits (h.wellFormed x rfl) rest)

theorem readAddress_addressBits (ca : Option ChanAlloc) (h : i.addrType = 1 ∨ i.addrType = 3 ∨ i.addrType = 6)
    (rest : List Bool) : readAddress (i.addressBits ++ rest) = some ((i.fields ca).address, rest) := by
  rcases h with h | h | h <;>
    simp [readAddress, addressBits, fields, h, readWord_append, readIf]

/-- The LLC PDU behind its header. -/
def tlBits (i : MacResIn) : List Bool :=
  (if i.llcPduType = 0 ∨ i.llcPduType = 1 ∨ i.llcPduType = 2 then onAir i.latMlePd else []) ++
    i.sduBits

theorem readLlc_llcBits (h : i.Supported n m ca) :
    readLlc i.llcBits = some ((i.fields ca).llc, i.tlBits) := by
  rcases h.sized.llcPduType with ht | ht | ht | ht | ht | ht <;>
    simp [readLlc, llcBits, tlBits, fields, ht, readWord_append, readIf, readFlag]

theorem readIf_tlBits (h : i.Supported n m ca) :
    readIf (i.llcPduType == 0 || i.llcPduType == 1 || i.llcPduType == 2) (readWord 3) i.tlBits =
      some ((i.fields ca).discriminator, i.sduBits) := by
  rcases h.sized.llcPduType with ht | ht | ht | ht | ht | ht <;>
    simp [tlBits, fields, ht, readWord_append, readIf]

/-- **The fields are read back.** -/
theorem readMacResource_bits (h : i.Supported n m ca) :
    readMacResource (i.headBits ca ++ i.llcBits) = some (i.fields ca) := by
  have hne : (i.fields ca).address.addressType ≠ 0 := by
    change i.addrType ≠ 0
    rcases h.addrType with h | h | h <;> rw [h] <;> decide
  have htl : readIf ((i.fields ca).llc.llcType == 0 || (i.fields ca).llc.llcType == 1 ||
      (i.fields ca).llc.llcType == 2) (readWord 3) i.tlBits = _ := readIf_tlBits h
  rw [readMacResource, headBits]
  simp only [List.cons_append, List.append_assoc, expect_two, readFlag_cons, readWord_two,
    Option.bind_some, readWord_append, readAddress_addressBits ca h.addrType,
    readFlagged_flagged, readFlagged_chanAlloc h.carries, readLlc_llcBits h]
  rw [if_neg hne, htl]
  rfl

theorem total_le (h : i.Supported n m ca) : i.macTotalBits ≤ 229 ∧
    8 * ((i.macTotalBits + 7) / 8) ≤ n ∧ m ≤ n := by
  have hlen := h.len
  have hca : i.caLen ≤ 31 := by
    have := h.carries.fits
    rw [caLen]
    split_ifs <;> omega
  have hhdr : i.macHdrBits ≤ 92 := by
    rw [macHdrBits, baseHdr, pcLen, sgLen]
    split_ifs <;> omega
  have htotal : i.macTotalBits = i.macHdrBits + i.llcCovLen := rfl
  have hsized := h.sized
  generalize ht : i.llcPduType = t at hsized
  cases hsized with
  | full ht' =>
      have hcov : i.llcCovLen ≤ 137 := by
        rcases ht' with rfl | rfl | rfl | rfl | rfl | rfl <;> simp [llcCovLen, llcLens, ht] <;> omega
      omega
  | half ht' =>
      have hcov : i.llcCovLen ≤ 5 := by
        rcases ht' with rfl | rfl <;> simp [llcCovLen, llcLens, ht]
      omega

/-- The length indication is the length in octets. -/
theorem toNat_lengthInd (h : i.Supported n m ca) :
    i.lengthInd.toNat = (i.macTotalBits + 7) / 8 := by
  have htotal := (total_le h).1
  rw [lengthInd, BitVec.toNat_ofNat]
  exact Nat.mod_eq_of_lt (by omega)

/-- **The PDU is cut out of the block.** -/
theorem readPdu_pdu (h : i.Supported n m ca) :
    readPdu (onAir (i.pdu n m)) = some (i.headBits ca ++ i.llcBits) := by
  obtain ⟨htotal, hfits, hm⟩ := total_le h
  have hair := onAir_pdu h hm (by omega)
  have hlen : (i.headBits ca ++ i.llcBits).length = i.macTotalBits := by
    rw [List.length_append, length_llcBits h,
      (laidOut_header h.carries (n := i.macHdrBits) (Nat.le_refl _)).length]
    rfl
  have hread : readPdu (onAir (i.pdu n m)) =
      let pdu := (onAir (i.pdu n m)).take (8 * i.lengthInd.toNat)
      some (if i.fillBitInd then unfill pdu else pdu) := by
    rw [readPdu, hair, headBits]
    simp only [List.cons_append, List.append_assoc, expect_two, readFlag_cons, readWord_two,
      Option.bind_some, readWord_append]
  rw [hread, toNat_lengthInd h, hair]
  dsimp only
  rw [← hlen] at hfits ⊢
  cases hfill : i.fillBitInd with
  | false =>
      have hmod : i.macTotalBits % 8 = 0 := by
        rw [fillBitInd] at hfill
        simpa using hfill
      have hoct : 8 * (((i.headBits ca ++ i.llcBits).length + 7) / 8) =
          (i.headBits ca ++ i.llcBits).length := by omega
      rw [if_neg Bool.false_ne_true, hoct, List.take_left]
  | true =>
      have hmod : i.macTotalBits % 8 ≠ 0 := by
        rw [fillBitInd] at hfill
        simpa using hfill
      have hlt : (i.headBits ca ++ i.llcBits).length < n := by omega
      obtain ⟨k, hk⟩ : ∃ k, 8 * (((i.headBits ca ++ i.llcBits).length + 7) / 8) =
          (i.headBits ca ++ i.llcBits).length + (k + 1) :=
        ⟨8 * (((i.headBits ca ++ i.llcBits).length + 7) / 8) -
          (i.headBits ca ++ i.llcBits).length - 1, by omega⟩
      have hkn : k ≤ n - (i.headBits ca ++ i.llcBits).length - 1 := by omega
      rw [if_pos rfl, if_pos hlt, hk, List.take_length_add_append, List.singleton_append,
        List.take_succ_cons, List.take_replicate, Nat.min_eq_left hkn, unfill_append]

/-- **A MAC-RESOURCE is read back.**  The terminal reads every field and exactly the bits of the
TM-SDU; the length indication is the length of header and TM-SDU in octets, rounded up, and the
block has that many octets. -/
theorem decode_pdu (h : i.Supported n m ca) :
    decodeMacResource (onAir (i.pdu n m)) = some (i.fields ca) ∧
      i.macTotalBits ≤ 8 * i.lengthInd.toNat ∧ 8 * i.lengthInd.toNat < i.macTotalBits + 8 ∧
      8 * i.lengthInd.toNat ≤ n := by
  obtain ⟨htotal, hfits, -⟩ := total_le h
  rw [decodeMacResource, readPdu_pdu h, Option.bind_some, toNat_lengthInd h]
  exact ⟨readMacResource_bits h, by omega, by omega, hfits⟩

end MacResIn

end TetraPhy.Lmac
