import TetraPhy.Lmac.MleFsm

/-!
# The MAC-RESOURCE builder

`tetra_mac_resource_dl_builder.v` lays out a downlink MAC-RESOURCE in a block of `n`
bits, the first bit on air at bit `n - 1`; `tetra_dl_pdu_builder.v` feeds it from a
build request.  All the builder's lengths fit its nine-bit registers, so they are
natural numbers here.  The second, concatenated PDU is left out: no instance enables it.

| Bits from the top | Field                                                        |
|-------------------|--------------------------------------------------------------|
| 0 .. 39           | PDU type, fill bit, …, length, address type, SSI             |
| 40 .. 45          | usage marker, for address type 6 only                        |
| then              | power control, slot granting and channel allocation, each a flag and, if it is set, an element |
| then              | the LLC PDU, and a fill bit                                  |

`MacHeader` reads such a header back, the way a receiver does.
-/

namespace TetraPhy.Lmac

open Sw BitField

/-! ## The builder -/

/-- The builder's inputs. -/
structure MacResIn where
  ssi : BitVec 24 := 0
  addrType : BitVec 3 := 1
  usageMarker : BitVec 6 := 0
  ns : Bool := false
  nr : Bool := false
  llcPduType : BitVec 4 := 0
  randomAccessFlag : Bool := false
  powerControlFlag : Bool := false
  powerControlElement : BitVec 4 := 0
  slotGrantingFlag : Bool := false
  slotGrantingElement : BitVec 8 := 0
  chanAllocFlag : Bool := false
  chanAllocElement : BitVec 32 := 0
  chanAllocElementLen : ℕ := 0
  mmPduBits : BitVec 128 := 0
  mmPduLenBits : BitVec 8 := 0
  mlePd : BitVec 3 := 0b001

/-- A left shift by `a - b`: as the difference is a 32-bit one, nothing is left when it
goes below zero. -/
def shlSub {n : ℕ} (x : BitVec n) (a b : ℕ) : BitVec n := if b ≤ a then x <<< (a - b) else 0

/-- A right shift by `a - b`. -/
def shrSub {n : ℕ} (x : BitVec n) (a b : ℕ) : BitVec n := if b ≤ a then x >>> (a - b) else 0

namespace MacResIn

variable (i : MacResIn)

/-- `lat_mle_pd`: 0 stands for MM. -/
def latMlePd : BitVec 3 := if i.mlePd == 0b000 then 0b001 else i.mlePd

/-- `tl_sdu_len_c` and `llc_hdr_bits_c`. -/
def llcLens : ℕ × ℕ :=
  if i.llcPduType = 14 then (i.mmPduLenBits.toNat, 4)
  else if i.llcPduType = 8 then (0, 4)
  else if i.llcPduType = 0 then (3 + i.mmPduLenBits.toNat, 6)
  else if i.llcPduType = 2 then (3 + i.mmPduLenBits.toNat, 4)
  else if i.llcPduType = 3 then (0, 5)
  else (3 + i.mmPduLenBits.toNat, 5)

/-- `llc_cov_len_c`. -/
def llcCovLen : ℕ := i.llcLens.2 + i.llcLens.1

/-- The address block: 46 bits with a usage marker, else 40. -/
def baseHdr : ℕ := if i.addrType = 6 then 46 else 40

def pcLen : ℕ := if i.powerControlFlag then 4 else 0

def sgLen : ℕ := if i.slotGrantingFlag then 8 else 0

def caLen : ℕ := if i.chanAllocFlag then i.chanAllocElementLen else 0

/-- `mac_hdr_bits_c`. -/
def macHdrBits : ℕ := i.baseHdr + 3 + i.pcLen + i.sgLen + i.caLen

/-- `mac_total_bits_c`. -/
def macTotalBits : ℕ := i.macHdrBits + i.llcCovLen

/-- `length_ind`: octets, rounded up. -/
def lengthInd : BitVec 6 := BitVec.ofNat 6 ((i.macTotalBits + 7) / 8)

/-- `fill_bit_ind`: the PDU does not end on an octet. -/
def fillBitInd : Bool := i.macTotalBits % 8 != 0

/-- `llc_buf`, top-aligned in `m` bits. -/
def llcBuf (m : ℕ) : BitVec m :=
  if i.llcPduType = 14 then (place 144 140 14#4 ||| place 144 12 i.mmPduBits).setWidth m
  else if i.llcPduType = 8 then place m (m - 4) 8#4
  else if i.llcPduType = 0 then
    (place 144 140 0b0000#4 ||| place 144 139 (BitVec.ofBool i.nr) |||
      place 144 138 (BitVec.ofBool i.ns) ||| place 144 135 i.latMlePd |||
      place 144 7 i.mmPduBits).setWidth m
  else if i.llcPduType = 2 then
    (place 144 140 0b0010#4 ||| place 144 137 i.latMlePd ||| place 144 9 i.mmPduBits).setWidth m
  else if i.llcPduType = 3 then place m (m - 4) 0b0011#4 ||| place m (m - 5) (BitVec.ofBool i.nr)
  else
    (place 144 140 0b0001#4 ||| place 144 139 (BitVec.ofBool i.ns) |||
      place 144 136 i.latMlePd ||| place 144 8 i.mmPduBits).setWidth m

/-- `S_MAC_HEAD`, steps 1 to 7: the header. -/
def header (n : ℕ) : BitVec n :=
  place n (n - 3) (BitVec.ofBool i.fillBitInd) |||
    place n (n - 7) (BitVec.ofBool i.randomAccessFlag) |||
    place n (n - 13) i.lengthInd ||| place n (n - 16) i.addrType ||| place n (n - 40) i.ssi |||
    (if i.addrType = 6 then place n (n - 46) i.usageMarker else 0#n) |||
    place n (n - 1 - i.baseHdr) (BitVec.ofBool i.powerControlFlag) |||
    (if i.powerControlFlag then place n (n - 1 - 4 - i.baseHdr) i.powerControlElement else 0#n) |||
    place n (n - 1 - 1 - i.baseHdr - i.pcLen) (BitVec.ofBool i.slotGrantingFlag) |||
    (if i.slotGrantingFlag then place n (n - 2 - 8 - i.baseHdr - i.pcLen) i.slotGrantingElement
      else 0#n) |||
    place n (n - 2 - 1 - i.baseHdr - i.pcLen - i.sgLen) (BitVec.ofBool i.chanAllocFlag) |||
    (if i.chanAllocFlag then
      place n (n - 3 - i.baseHdr - i.pcLen - i.sgLen - i.chanAllocElementLen) i.chanAllocElement
      else 0#n)

/-- `S_MAC_HEAD`, step 8: the LLC PDU behind the header. -/
def tmSdu (n m : ℕ) : BitVec n :=
  shlSub (shrSub ((i.llcBuf m).setWidth n) m i.llcCovLen) n (i.macHdrBits + i.llcCovLen)

/-- `S_PAD`: the first bit behind the PDU, if there is one, is set. -/
def pad (n : ℕ) : BitVec n :=
  if i.macTotalBits < n then place n (n - 1 - i.macTotalBits) 1#1 else 0

/-- The block the builder puts out. -/
def pdu (n m : ℕ) : BitVec n := i.header n ||| i.tmSdu n m ||| i.pad n

end MacResIn

/-- The states of `tetra_mac_resource_dl_builder.v`. -/
inductive MacResState
  | idle | assembleInner | llcHead | macHead | pad | done
deriving DecidableEq, Repr

/-! ## The downlink PDU builder's request (`tetra_dl_pdu_builder.v`) -/

/-- The channel allocation element: replace, the timeslots, both directions, our carrier. -/
def chanAllocElement (tsBitmap : BitVec 4) : BitVec 32 :=
  place 32 23 0b00#2 |||
    place 32 19 (if tsBitmap ≠ 0b0000 then tsBitmap else 0b0100) |||
    place 32 17 0b11#2 ||| place 32 16 1#1 ||| place 32 15 0#1 ||| place 32 3 0x5FA#12 |||
    place 32 2 0#1 ||| place 32 0 0b11#2

namespace BuildReq

variable (r : BuildReq)

/-- `lat_mle_pd` of the downlink PDU builder. -/
def latMlePd : BitVec 3 := if r.mlePd == 0b000 then 0b001 else r.mlePd

/-- `blk_bl_ack_w`. -/
def blAck : Bool := r.llcPduType == 3

/-- A CMCE PDU that is not an acknowledgement carries a channel allocation. -/
def cmce : Bool := !r.blAck && r.latMlePd == 0b010

/-- What `u_mac_res` is given. -/
def macResIn : MacResIn where
  ssi := r.ssi
  addrType := r.addrType
  usageMarker := if r.addrType = 6 then r.usageMarker else 0
  ns := r.ns
  nr := r.nr
  llcPduType := r.llcPduType
  randomAccessFlag := r.randomAccessFlag
  slotGrantingFlag := !(r.blAck || r.latMlePd == 0b010)
  slotGrantingElement := 0
  chanAllocFlag := r.cmce
  chanAllocElement := if r.cmce then Lmac.chanAllocElement r.chanAllocTsBitmap else 0
  chanAllocElementLen := if r.cmce then 25 else 0
  mmPduBits := r.mmPduBits
  mmPduLenBits := r.mmPduLenBits
  mlePd := r.latMlePd

/-- The MAC-RESOURCE a request becomes. -/
def macPdu : BitVec 268 := r.macResIn.pdu 268 144

end BuildReq

/-! ## Reading a header back -/

namespace MacHeader

variable (p : BitVec 268)

/-- The flag at bit `j` from the top. -/
def flag (j : ℕ) : Bool := p.extractLsb' (267 - j) 1 == 1#1

def addrType : BitVec 3 := p.extractLsb' 252 3

/-- Where the flags start: a usage marker makes the address longer. -/
def base : ℕ := if addrType p = 6 then 46 else 40

def pcEnd : ℕ := base p + 1 + if flag p (base p) then 4 else 0

def sgEnd : ℕ := pcEnd p + 1 + if flag p (pcEnd p) then 8 else 0

def chanAllocFlag : Bool := flag p (sgEnd p)

/-- The timeslots a channel allocation names, behind its two-bit type. -/
def tsAssigned : BitVec 4 := p.extractLsb' (268 - (sgEnd p + 1 + 2 + 4)) 4

end MacHeader

/-! ## What stands in the header -/

namespace MacResIn

variable {i : MacResIn}

/-- Of the LLC buffer only the first `llcCovLen` bits are used. -/
theorem getLsbD_shrSub_llcBuf {n m c k : ℕ} (hk : i.llcCovLen ≤ k) (hc : c = i.llcCovLen) :
    (shrSub ((i.llcBuf m).setWidth n) m c).getLsbD k = false := by
  subst hc
  rw [shrSub]
  split_ifs with hle
  · rw [BitVec.getLsbD_ushiftRight, BitVec.getLsbD_setWidth,
      BitVec.getLsbD_of_ge (i.llcBuf m) _ (by omega), Bool.and_false]
  · exact BitVec.getLsbD_zero

/-- The LLC PDU and the fill bit lie behind the header. -/
theorem slice_pdu (h : i.macTotalBits ≤ 268) {lo w : ℕ} (hlo : 268 - i.macHdrBits ≤ lo) :
    (i.pdu 268 144).extractLsb' lo w = (i.header 268).extractLsb' lo w := by
  have hsum : i.macTotalBits = i.macHdrBits + i.llcCovLen := rfl
  have hsdu : (i.tmSdu 268 144).extractLsb' lo w = 0#w := by
    refine BitVec.eq_of_getLsbD_eq fun k hk ↦ ?_
    rw [BitVec.getLsbD_extractLsb', tmSdu, shlSub, if_pos (by omega), BitVec.getLsbD_shiftLeft,
      getLsbD_shrSub_llcBuf (by omega) rfl]
    simp
  have hpad : (i.pad 268).extractLsb' lo w = 0#w := by
    rw [pad]
    split_ifs with hlt
    · exact slice_place_apart _ (Or.inr (by omega))
    · simp
  rw [pdu, BitVec.extractLsb'_or, BitVec.extractLsb'_or, hsdu, hpad, BitVec.or_zero,
    BitVec.or_zero]

end MacResIn

/-! ### CMCE PDUs -/

namespace BuildReq

variable {r : BuildReq}

/-- The request of the CMCE path: address with usage marker, unacknowledged data. -/
structure CmcePath (r : BuildReq) : Prop where
  addrType : r.addrType = 6
  llcPduType : r.llcPduType = 2
  mlePd : r.mlePd = 0b010
  len : r.mmPduLenBits.toNat ≤ 128

theorem CmcePath.header (h : r.CmcePath) {lo w : ℕ} (hlo : 194 ≤ lo) :
    r.macPdu.extractLsb' lo w = (r.macResIn.header 268).extractLsb' lo w := by
  have hhdr : r.macResIn.macHdrBits = 74 := by
    simp [MacResIn.macHdrBits, MacResIn.baseHdr, MacResIn.pcLen, MacResIn.sgLen, MacResIn.caLen,
      macResIn, cmce, blAck, latMlePd, h.addrType, h.llcPduType, h.mlePd]
  have hcov : r.macResIn.llcCovLen = 7 + r.mmPduLenBits.toNat := by
    simp [MacResIn.llcCovLen, MacResIn.llcLens, macResIn, h.llcPduType]
    omega
  have hlen := h.len
  have htot : r.macResIn.macTotalBits = r.macResIn.macHdrBits + r.macResIn.llcCovLen := rfl
  exact MacResIn.slice_pdu (by omega) (by omega)

/-- The timeslots a channel allocation is built for. -/
def allocTs (tsBitmap : BitVec 4) : BitVec 4 := if tsBitmap ≠ 0b0000 then tsBitmap else 0b0100

theorem CmcePath.header_eq (h : r.CmcePath) : r.macResIn.header 268 =
    place 268 265 (BitVec.ofBool r.macResIn.fillBitInd) |||
      place 268 261 (BitVec.ofBool r.randomAccessFlag) |||
      place 268 255 r.macResIn.lengthInd ||| place 268 252 6#3 ||| place 268 228 r.ssi |||
      place 268 222 r.usageMarker ||| place 268 219 1#1 |||
      (place 268 213 (allocTs r.chanAllocTsBitmap) ||| place 268 211 3#2 ||| place 268 210 1#1 |||
        place 268 197 0x5FA#12 ||| place 268 194 3#2) := by
  have hcmce : r.cmce = true := by simp [cmce, blAck, latMlePd, h.llcPduType, h.mlePd]
  have hsg : r.macResIn.slotGrantingFlag = false := by simp [macResIn, latMlePd, h.mlePd]
  have hbase : r.macResIn.baseHdr = 46 := by simp [MacResIn.baseHdr, macResIn, h.addrType]
  have hpc : r.macResIn.pcLen = 0 := rfl
  have hsgLen : r.macResIn.sgLen = 0 := by rw [MacResIn.sgLen, hsg]; rfl
  have hca : r.macResIn.chanAllocFlag = true := hcmce
  have hlen : r.macResIn.chanAllocElementLen = 25 := by simp [macResIn, hcmce]
  have helem : r.macResIn.chanAllocElement = Lmac.chanAllocElement r.chanAllocTsBitmap := by
    simp [macResIn, hcmce]
  have humt : r.macResIn.usageMarker = r.usageMarker := by simp [macResIn, h.addrType]
  have haddr : r.macResIn.addrType = 6 := h.addrType
  have hpcf : r.macResIn.powerControlFlag = false := rfl
  have hra : r.macResIn.randomAccessFlag = r.randomAccessFlag := rfl
  have hssi : r.macResIn.ssi = r.ssi := rfl
  have hoff : BitVec.ofBool false = 0#1 := rfl
  have hon : BitVec.ofBool true = 1#1 := rfl
  rw [MacResIn.header, hbase, hpc, hsgLen, hsg, hca, hlen, helem, humt, haddr, hpcf, hra, hssi]
  simp (disch := omega) only [if_true, Bool.false_eq_true, if_false, Lmac.chanAllocElement,
    place_or, place_place, hoff, hon, place_zero, BitVec.or_zero, BitVec.zero_or,
    Nat.reduceSub, Nat.reduceAdd, allocTs]
  rfl

/-- **What a receiver reads in a CMCE PDU**: an address with usage marker and a channel
allocation, for the timeslots of the request or, if it names none, for timeslot 2. -/
theorem CmcePath.read (h : r.CmcePath) :
    MacHeader.addrType r.macPdu = 6 ∧ MacHeader.chanAllocFlag r.macPdu = true ∧
      MacHeader.tsAssigned r.macPdu = allocTs r.chanAllocTsBitmap := by
  have haddr : MacHeader.addrType r.macPdu = 6 := by
    rw [MacHeader.addrType, h.header (by omega), h.header_eq]
    simp (disch := omega) only [BitVec.extractLsb'_or, slice_place_self, slice_place_apart,
      BitVec.or_zero, BitVec.zero_or]
    rfl
  have hbase : MacHeader.base r.macPdu = 46 := by rw [MacHeader.base, if_pos haddr]
  have hflag : ∀ j, j ≤ 50 → MacHeader.flag r.macPdu j =
      ((r.macResIn.header 268).extractLsb' (267 - j) 1 == 1#1) := by
    intro j hj
    rw [MacHeader.flag, h.header (by omega)]
  have hpc : MacHeader.pcEnd r.macPdu = 47 := by
    rw [MacHeader.pcEnd, hbase, hflag 46 (by omega), h.header_eq]
    simp (disch := omega) only [BitVec.extractLsb'_or, slice_place_apart, BitVec.or_zero]
    rfl
  have hsg : MacHeader.sgEnd r.macPdu = 48 := by
    rw [MacHeader.sgEnd, hpc, hflag 47 (by omega), h.header_eq]
    simp (disch := omega) only [BitVec.extractLsb'_or, slice_place_apart, BitVec.or_zero]
    rfl
  refine ⟨haddr, ?_, ?_⟩
  · rw [MacHeader.chanAllocFlag, hsg, hflag 48 (by omega), h.header_eq]
    simp (disch := omega) only [BitVec.extractLsb'_or, slice_place_self, slice_place_apart,
      BitVec.or_zero, BitVec.zero_or]
    rfl
  · rw [MacHeader.tsAssigned, hsg, h.header (by omega), h.header_eq]
    simp (disch := omega) only [BitVec.extractLsb'_or, slice_place_self, slice_place_apart,
      BitVec.or_zero, BitVec.zero_or]

end BuildReq

end TetraPhy.Lmac
