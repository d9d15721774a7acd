import TetraPhy.Lib.BitField
import TetraPhy.Rx.UplinkParser
import Mathlib.Data.List.GetD

/-!
# The mailbox of reassembled demands

`tetra_ul_demand_body_mailbox.v` keeps one reassembled TM-SDU for the software, behind the flag and
the drop counter of `tetra_indirect_mailbox.v`.  A body that comes while one is pending is dropped
and counted.

| word | contents |
|---|---|
| 0 | the magic `A5`, and the 13 meta bits |
| 1 | the SSI |
| 2 .. 6 | the 147 bits of the body, the first on air highest |
| 7 | the drop counter |
-/

namespace TetraPhy.Rx

open BitField

/-! ## `tetra_indirect_mailbox` -/

/-- The flag and the counter. -/
structure IndirectMailbox where
  pending : Bool := false
  dropCnt : BitVec 16 := 0
deriving DecidableEq, Repr

namespace IndirectMailbox

variable (m : IndirectMailbox)

/-- A clock: an accepted push goes before an acknowledgement. -/
def clock (pushValid pushDrop ackPulse : Bool) : IndirectMailbox where
  pending := if pushValid && !m.pending then true else if ackPulse then false else m.pending
  dropCnt := if pushDrop && m.dropCnt != 0xFFFF then m.dropCnt + 1 else m.dropCnt

/-- `data_out_sys`. -/
def dataOut (dataWords : List (BitVec 32)) (index : BitVec 4) : BitVec 32 :=
  dataWords.getD index.toNat 0

/-- The status as the software reads it. -/
def status : UInt32 := .ofBitVec (place 32 16 m.dropCnt ||| place 32 0 (BitVec.ofBool m.pending))

/-- Bit 0 of the status is the flag. -/
theorem status_and_one : (m.status &&& (1 : UInt32) != 0) = m.pending := by
  refine flag_ne_zero ?_
  have hshift : m.status = m.status >>> (0 : UInt32) := UInt32.shiftRight_zero.symm
  rw [hshift, toNat_shr_and_mask m.status 0 1 (show _ = 0 from rfl) (k := 1) rfl, status]
  simp (disch := omega) only [BitVec.extractLsb'_or, slice_place_self, slice_place_apart,
    BitVec.zero_or, BitVec.toNat_ofBool]

end IndirectMailbox

/-! ## `tetra_ul_demand_body_mailbox` -/

/-- What is latched. -/
structure DemandBody where
  body : BitVec 147 := 0
  ssi : BitVec 24 := 0
  metaBits : BitVec 13 := 0
deriving DecidableEq, Repr

/-- Words 0 to 6. -/
def DemandBody.words (b : DemandBody) : List (BitVec 32) :=
  [place 32 24 0xA5#8 ||| place 32 0 b.metaBits, b.ssi.setWidth 32,
    b.body.extractLsb' 115 32, b.body.extractLsb' 83 32, b.body.extractLsb' 51 32,
    b.body.extractLsb' 19 32, (b.body.extractLsb' 0 19).setWidth 32]

structure DemandBodyMailbox where
  lat : DemandBody := {}
  indirect : IndirectMailbox := {}
deriving DecidableEq, Repr

namespace DemandBodyMailbox

variable (m : DemandBodyMailbox)

/-- The word array `words_flat_w`. -/
def words : List (BitVec 32) :=
  m.lat.words ++ m.indirect.dropCnt.setWidth 32 :: List.replicate 8 0

def dataWord (index : BitVec 4) : UInt32 :=
  .ofBitVec (IndirectMailbox.dataOut m.words index)

/-- A clock: `push` is what the reassembly presents with `reass_valid`. -/
def clock (push : Option DemandBody) (ackConsumedPulse : Bool) : DemandBodyMailbox where
  lat := if push.isSome && !m.indirect.pending then push.getD m.lat else m.lat
  indirect := m.indirect.clock (push.isSome && !m.indirect.pending)
    (push.isSome && m.indirect.pending) ackConsumedPulse

/-- The first seven words are those of the body. -/
theorem dataWord_of_lt {n : ℕ} (hn : n < 7) :
    m.dataWord (BitVec.ofNat 4 n) = .ofBitVec (m.lat.words.getD n 0) := by
  have hindex : (BitVec.ofNat 4 n).toNat = n := by
    rw [BitVec.toNat_ofNat]
    exact Nat.mod_eq_of_lt (by omega)
  rw [dataWord, IndirectMailbox.dataOut, hindex, words, List.getD_append _ _ _ _ hn]

/-! ### What a clock does -/

section Clock

variable {m}

theorem clock_none (ack : Bool) :
    m.clock none ack = { m with indirect.pending := m.indirect.pending && !ack } := by
  cases hp : m.indirect.pending <;> cases ack <;> simp [clock, IndirectMailbox.clock, hp]

/-- A free mailbox takes a body, acknowledged or not. -/
theorem clock_accept (h : m.indirect.pending = false) (b : DemandBody) (ack : Bool) :
    m.clock (some b) ack = { lat := b, indirect.pending := true,
                             indirect.dropCnt := m.indirect.dropCnt } := by
  simp [clock, IndirectMailbox.clock, h]

/-- One that is taken drops it. -/
theorem clock_drop (h : m.indirect.pending = true) (b : DemandBody) (ack : Bool) :
    m.clock (some b) ack = { m with
      indirect.pending := !ack
      indirect.dropCnt := if m.indirect.dropCnt != 0xFFFF then m.indirect.dropCnt + 1
        else m.indirect.dropCnt } := by
  cases ack <;> simp [clock, IndirectMailbox.clock, h]

end Clock

end DemandBodyMailbox

/-- A saturating counter counts up to its top. -/
theorem toNat_saturate {x : BitVec 16} {n : ℕ} (h : x.toNat = min n 65535) :
    (if x != 0xFFFF then x + 1 else x).toNat = min (n + 1) 65535 := by
  have hlt : x.toNat < 65536 := x.isLt
  have htop : x = 0xFFFF ↔ x.toNat = 65535 := BitVec.toNat_inj.symm
  split_ifs with hx
  · have hne : x.toNat ≠ 65535 := fun hc ↦ by simp [htop.2 hc] at hx
    rw [BitVec.toNat_add, show (1 : BitVec 16).toNat = 1 from rfl]
    omega
  · have heq : x.toNat = 65535 := htop.1 (by simpa using hx)
    omega

end TetraPhy.Rx

/-!
# The mailbox of single-burst PDUs

`tetra_axi_lite_regs.v` keeps the last MAC-ACCESS in registers for the software.  They are
overwritten by every `ul_pdu_valid`, whether the software has read them or not; the sticky bit
VALID is all that a write to `REG_UL_PDU_CTRL` clears.

| Register | Fields |
|---|---|
| `REG_UL_PDU_STATUS` | count 31:16, reservation 11:8, flags and address type 7:1, VALID 0 |
| `REG_UL_PDU_STATUS_2` | LLC type 11:8, MLE discriminator 6:4, MM type 3:0 |
| `REG_UL_PDU_SSI` | ISSI 23:0 |
| `REG_UL_PDU_RAW_0` .. `_2` | the 92 bits of the block, the first on air lowest |
-/

namespace TetraPhy.Rx

open BitField

/-- The latched fields of a PDU. -/
structure UlPdu where
  pduType : Bool := false
  fillBit : Bool := false
  encryptionMode : Bool := false
  addrType : BitVec 2 := 0
  issi : BitVec 24 := 0
  optionalFieldFlag : Bool := false
  fragFlag : Bool := false
  reservationReq : BitVec 4 := 0
  rawInfoBits : BitVec 92 := 0
  pduCount : BitVec 16 := 0
  llcPduType : BitVec 4 := 0
  mleDisc : BitVec 3 := 0
  mmPduType : BitVec 4 := 0
deriving DecidableEq, Repr

/-- What the parser presents. -/
def MacAccessParser.ulPdu (r : MacAccessParser) : UlPdu where
  pduType := r.pduType
  fillBit := r.fillBit
  encryptionMode := r.encryptionMode
  addrType := r.ulAddrType
  issi := r.ulIssi
  optionalFieldFlag := r.optionalFieldFlag
  fragFlag := r.ulFragFlag
  reservationReq := r.ulReservationReq
  rawInfoBits := r.rawInfoBits
  pduCount := r.pduCount
  llcPduType := r.ulLlcPduType
  mleDisc := r.ulMleDisc
  mmPduType := r.ulLlcMmPduType

/-- The mailbox: `lat` are the registers `ul_*_lat_axi`. -/
structure UlPduMailbox where
  lat : UlPdu := {}
  validSticky : Bool := false
deriving DecidableEq, Repr

namespace UlPduMailbox

/-- `ul_pdu_valid_axi`. -/
def latch (_ : UlPduMailbox) (p : UlPdu) : UlPduMailbox := { lat := p, validSticky := true }

/-- A write of 1 to `REG_UL_PDU_CTRL`. -/
def swClear (m : UlPduMailbox) : UlPduMailbox := { m with validSticky := false }

/-! ## The registers the software reads -/

section Registers

variable (m : UlPduMailbox)

/-- `REG_UL_PDU_STATUS`. -/
def status : UInt32 :=
  .ofBitVec (place 32 16 m.lat.pduCount ||| place 32 8 m.lat.reservationReq |||
    place 32 7 (BitVec.ofBool m.lat.fragFlag) |||
    place 32 6 (BitVec.ofBool m.lat.optionalFieldFlag) ||| place 32 4 m.lat.addrType |||
    place 32 3 (BitVec.ofBool m.lat.encryptionMode) |||
    place 32 2 (BitVec.ofBool m.lat.fillBit) ||| place 32 1 (BitVec.ofBool m.lat.pduType) |||
    place 32 0 (BitVec.ofBool m.validSticky))

/-- `REG_UL_PDU_STATUS_2`. -/
def status2 : UInt32 :=
  .ofBitVec (place 32 8 m.lat.llcPduType ||| place 32 4 m.lat.mleDisc |||
    place 32 0 m.lat.mmPduType)

/-- `REG_UL_PDU_SSI`. -/
def ssi : UInt32 := .ofBitVec (m.lat.issi.setWidth 32)

/-- `REG_UL_PDU_RAW_0`. -/
def raw0 : UInt32 := .ofBitVec (m.lat.rawInfoBits.extractLsb' 0 32)

/-- `REG_UL_PDU_RAW_1`. -/
def raw1 : UInt32 := .ofBitVec (m.lat.rawInfoBits.extractLsb' 32 32)

/-- `REG_UL_PDU_RAW_2`. -/
def raw2 : UInt32 := .ofBitVec ((m.lat.rawInfoBits.extractLsb' 64 28).setWidth 32)

end Registers

end UlPduMailbox

/-! ## Field macros (`tetra_hal.h`) -/

def ulStatusValid (x : UInt32) : UInt32 := (x >>> 0) &&& 0x1

def ulStatusPduType (x : UInt32) : UInt32 := (x >>> 1) &&& 0x1

def ulStatusOptFlag (x : UInt32) : UInt32 := (x >>> 6) &&& 0x1

def ulStatusFragFlag (x : UInt32) : UInt32 := (x >>> 7) &&& 0x1

def ulStatusPduCount (x : UInt32) : UInt32 := (x >>> 16) &&& 0xFFFF

def ulStatus2LlcType (x : UInt32) : UInt32 := (x >>> 8) &&& 0xF

def ulStatus2MleDisc (x : UInt32) : UInt32 := (x >>> 4) &&& 0x7

namespace UlPduMailbox

variable (m : UlPduMailbox)

theorem toNat_optFlag : (ulStatusOptFlag m.status).toNat = m.lat.optionalFieldFlag.toNat := by
  rw [ulStatusOptFlag, toNat_shr_and_mask m.status 6 0x1 (show _ = 6 from rfl) (k := 1) rfl,
    status]
  simp (disch := omega) only [BitVec.extractLsb'_or, slice_place_self, slice_place_apart,
    BitVec.or_zero, BitVec.zero_or, BitVec.toNat_ofBool]

theorem toNat_fragFlag : (ulStatusFragFlag m.status).toNat = m.lat.fragFlag.toNat := by
  rw [ulStatusFragFlag, toNat_shr_and_mask m.status 7 0x1 (show _ = 7 from rfl) (k := 1) rfl,
    status]
  simp (disch := omega) only [BitVec.extractLsb'_or, slice_place_self, slice_place_apart,
    BitVec.or_zero, BitVec.zero_or, BitVec.toNat_ofBool]

theorem toNat_pduCount : (ulStatusPduCount m.status).toNat = m.lat.pduCount.toNat := by
  rw [ulStatusPduCount, toNat_shr_and_mask m.status 16 0xFFFF (show _ = 16 from rfl) (k := 16) rfl,
    status]
  simp (disch := omega) only [BitVec.extractLsb'_or, slice_place_self, slice_place_apart,
    BitVec.or_zero]

theorem toNat_llcType : (ulStatus2LlcType m.status2).toNat = m.lat.llcPduType.toNat := by
  rw [ulStatus2LlcType, toNat_shr_and_mask m.status2 8 0xF (show _ = 8 from rfl) (k := 4) rfl,
    status2]
  simp (disch := omega) only [BitVec.extractLsb'_or, slice_place_self, slice_place_apart,
    BitVec.or_zero]

end UlPduMailbox

end TetraPhy.Rx
