import TetraPhy.Lib.FieldReader
import TetraPhy.Lib.Run
import TetraPhy.Tx.Sb1Encoder

/-!
# The two encoders of the BSCH

Before the FPGA had its own `tetra_sb1_encoder.v`, `tetra_write_sysinfo` of `tetra_hal.c` coded the
SYNC PDU into the registers.  The software puts the fields one after another into an array of bits,
and codes the array; the hardware concatenates them into a word, and shifts it through its loops.

| stage      | software                                  | hardware                  |
|------------|-------------------------------------------|---------------------------|
| fields     | `build_sysinfo_pdu`                       | `pdu_sys`                 |
| CRC, tail  | `tetra_crc16`                             | `S_CRC`, `S_BUILD`        |
| code       | `conv_encode_r14`, then `puncture_r23`    | `S_RCPC`, kept bits only  |
| interleave | `tetra_interleave_perm`                   | `bsch_interleave`         |
| scramble   | `next_lfsr_bit` from 3 on                 | `SCRAMBLE_MASK`           |

`parse_sysinfo` of `decode_sb.py` takes the fields out again.
-/

namespace TetraPhy.Tx

open AirOrder Codec FieldReader

/-! ## The software's block -/

/-- The fields of `tetra_sysinfo_t` that the SYNC PDU has. -/
structure Sysinfo where
  systemCode : ℕ
  colourCode : ℕ
  timeslotAssigned : ℕ
  frame : ℕ
  multiframe : ℕ
  sharingMode : ℕ
  tsReservedFrames : ℕ
  uPlane : ℕ
  frame18Extension : ℕ
  mcc : ℕ
  mnc : ℕ
  neighbourCellBroadcast : ℕ
  cellServiceLevel : ℕ
  lateEntryInfo : ℕ
deriving DecidableEq, Repr

/-- `pack_bits`: what it writes. -/
def packBits (value nbits : ℕ) : List Bool := (List.range nbits).reverse.map value.testBit

/-- `build_sysinfo_pdu`. -/
def buildSysinfoPdu (info : Sysinfo) : List Bool :=
  packBits info.systemCode 4 ++
  packBits info.colourCode 6 ++
  packBits info.timeslotAssigned 2 ++
  packBits info.frame 5 ++
  packBits info.multiframe 6 ++
  packBits info.sharingMode 2 ++
  packBits info.tsReservedFrames 3 ++
  packBits info.uPlane 1 ++
  packBits info.frame18Extension 1 ++
  packBits 0 1 ++
  packBits info.mcc 10 ++
  packBits info.mnc 14 ++
  packBits info.neighbourCellBroadcast 2 ++
  packBits info.cellServiceLevel 2 ++
  packBits info.lateEntryInfo 1

/-- `tetra_scramble_bsch`. -/
def scrambleBsch (bits : List Bool) : List Bool := scrambleWith Bool.not 3 bits

/-- The BSCH stages of `tetra_write_sysinfo`; `none` is its error return. -/
def writeSysinfoSb1 (info : Sysinfo) : Option (List Bool) :=
  let type1 := buildSysinfoPdu info
  let type3 := crc16 type1 ++ List.replicate 4 false
  let mother := convR14 type3
  match punctureR23 mother with
  | none => none
  | some type4 =>
    if mother.length ≠ 80 * 4 ∨ type4.length ≠ 120 then none
    else some (scrambleBsch (interleavePerm type4 120 11))

/-- `extract` of `parse_sysinfo`. -/
def extract (b : List Bool) (start nbits : ℕ) : ℕ :=
  (List.range nbits).foldl (fun val i ↦ val <<< 1 ||| (b.getD (start + i) false).toNat) 0

/-- `parse_sysinfo`, with the reserved bit. -/
def parseSysinfo (bits : List Bool) : Option (Sysinfo × ℕ) :=
  if bits.length < 60 then none
  else some
    ({ systemCode := extract bits 0 4
       colourCode := extract bits 4 6
       timeslotAssigned := extract bits 10 2
       frame := extract bits 12 5
       multiframe := extract bits 17 6
       sharingMode := extract bits 23 2
       tsReservedFrames := extract bits 25 3
       uPlane := extract bits 28 1
       frame18Extension := extract bits 29 1
       mcc := extract bits 31 10
       mnc := extract bits 41 14
       neighbourCellBroadcast := extract bits 55 2
       cellServiceLevel := extract bits 57 2
       lateEntryInfo := extract bits 59 1 }, extract bits 30 1)

/-- The stages of the block inverted: the trellis decoder of the channels finds the code word next
to the block, and the fields are those of a word with a right CRC. -/
def readBsch (block : List Bool) : Option (Sysinfo × ℕ) :=
  (bsch.decode (crc16CheckN · 60) block 0 0 0 0).bind fun (type1, crc) ↦
    if crc = 0 then parseSysinfo type1 else none

namespace Sysinfo

/-- The values are within the widths of the fields. -/
structure InWidth (info : Sysinfo) : Prop where
  systemCode : info.systemCode < 2 ^ 4
  colourCode : info.colourCode < 2 ^ 6
  timeslotAssigned : info.timeslotAssigned < 2 ^ 2
  frame : info.frame < 2 ^ 5
  multiframe : info.multiframe < 2 ^ 6
  sharingMode : info.sharingMode < 2 ^ 2
  tsReservedFrames : info.tsReservedFrames < 2 ^ 3
  uPlane : info.uPlane < 2 ^ 1
  frame18Extension : info.frame18Extension < 2 ^ 1
  mcc : info.mcc < 2 ^ 10
  mnc : info.mnc < 2 ^ 14
  neighbourCellBroadcast : info.neighbourCellBroadcast < 2 ^ 2
  cellServiceLevel : info.cellServiceLevel < 2 ^ 2
  lateEntryInfo : info.lateEntryInfo < 2 ^ 1

variable (info : Sysinfo)

/-- The same values at the ports of the hardware. -/
def config : SyncConfig where
  systemCode := .ofNat 4 info.systemCode
  colourCode := .ofNat 6 info.colourCode
  sharingMode := .ofNat 2 info.sharingMode
  tsReservedFrames := .ofNat 3 info.tsReservedFrames
  uPlane := info.uPlane.testBit 0
  frame18Ext := info.frame18Extension.testBit 0
  mcc := .ofNat 10 info.mcc
  mnc := .ofNat 14 info.mnc
  neighbourCellBroadcast := .ofNat 2 info.neighbourCellBroadcast
  cellServiceLevel := .ofNat 2 info.cellServiceLevel
  lateEntryInfo := info.lateEntryInfo.testBit 0

/-- Those of them that change from slot to slot. -/
def slotTime : SlotTime where
  slot := .ofNat 2 info.timeslotAssigned
  frameNum := .ofNat 5 info.frame
  multiframeNum := .ofNat 6 info.multiframe

end Sysinfo

/-! ## The PDU -/

@[simp] theorem length_packBits (value nbits : ℕ) : (packBits value nbits).length = nbits := by
  simp [packBits]

theorem packBits_eq (value nbits : ℕ) : packBits value nbits = onAir (BitVec.ofNat nbits value) := by
  refine List.ext_getElem (by simp) fun j hj _ ↦ ?_
  have hn : j < nbits := by simpa using hj
  have hlt : nbits - 1 - j < nbits := by omega
  rw [getElem_onAir, BitVec.getMsbD_eq_getLsbD, BitVec.getLsbD_ofNat]
  simp only [packBits, List.getElem_map, List.getElem_reverse, List.getElem_range,
    List.length_range, hn, hlt, decide_true, Bool.true_and]

theorem packBits_one (value : ℕ) : packBits value 1 = onAir (BitVec.ofBool (value.testBit 0)) := by
  cases h : value.testBit 0 <;> simp [packBits, onAir, h]

/-- A field that is within its width is read back. -/
theorem number_packBits {value nbits : ℕ} (h : value < 2 ^ nbits) :
    number (packBits value nbits) = value := by
  rw [packBits_eq, number_onAir, BitVec.toNat_ofNat, Nat.mod_eq_of_lt h]

/-- **Both put the same PDU together.** -/
theorem buildSysinfoPdu_eq (info : Sysinfo) :
    buildSysinfoPdu info = onAir (syncPdu info.config info.slotTime) := by
  simp only [buildSysinfoPdu, syncPdu, onAir_append, Sysinfo.config, Sysinfo.slotTime, packBits_one]
  simp only [packBits_eq]
  rfl

theorem length_buildSysinfoPdu (info : Sysinfo) : (buildSysinfoPdu info).length = 60 := by
  rw [buildSysinfoPdu_eq, length_onAir]

theorem extract_eq (b : List Bool) (start nbits : ℕ) :
    extract b start nbits = number (window (b.getD · false) start nbits) := by
  induction nbits with
  | zero => rfl
  | succ n ih =>
      have hone : (b.getD (start + n) false).toNat < 2 ^ 1 := Nat.lt_succ_of_le (Bool.toNat_le _)
      have hstep : extract b start (n + 1) =
          extract b start n <<< 1 ||| (b.getD (start + n) false).toNat := by
        rw [extract, List.range_succ, List.foldl_append]
        rfl
      rw [hstep, ih, Nat.shiftLeft_eq, Nat.mul_comm, ← Nat.two_pow_add_eq_or_of_lt hone, window_add,
        number_append, length_window]
      change 2 ^ 1 * _ + _ = _ * 2 ^ 1 + ((b.getD (start + n) false).toNat * 2 ^ 0 + 0)
      omega

/-- A field is extracted from where it was packed. -/
theorem extract_packed {b : List Bool} {start value nbits : ℕ} (h : value < 2 ^ nbits)
    (hw : Written (b.getD · false) start (packBits value nbits)) :
    extract b start nbits = value := by
  rw [Written, length_packBits] at hw
  rw [extract_eq, hw, number_packBits h]

theorem written_self (bits : List Bool) : Written (bits.getD · false) 0 bits := by
  refine List.ext_getElem (length_window ..) fun k hk hk' ↦ ?_
  simp only [window, List.getElem_map, List.getElem_range', Nat.zero_add, Nat.one_mul,
    List.getD_eq_getElem _ _ hk']

/-- **The fields are parsed back.** -/
theorem parseSysinfo_build {info : Sysinfo} (h : info.InWidth) :
    parseSysinfo (buildSysinfoPdu info) = some (info, 0) := by
  have hlen : ¬ (buildSysinfoPdu info).length < 60 := by rw [length_buildSysinfoPdu]; decide
  have hzero : 0 < 2 ^ 1 := by decide
  generalize hbits : buildSysinfoPdu info = bits at hlen ⊢
  have hall : Written (bits.getD · false) 0 (buildSysinfoPdu info) := by
    rw [hbits]
    exact written_self bits
  simp only [buildSysinfoPdu, written_append, List.length_append, length_packBits, Nat.zero_add,
    Nat.reduceAdd] at hall
  obtain ⟨⟨⟨⟨⟨⟨⟨⟨⟨⟨⟨⟨⟨⟨hsystem, hcolour⟩, hslot⟩, hframe⟩, hmultiframe⟩, hsharing⟩, hreserved⟩,
    huPlane⟩, hframe18⟩, hspare⟩, hmcc⟩, hmnc⟩, hneighbour⟩, hservice⟩, hlate⟩ := hall
  rw [parseSysinfo, if_neg hlen, extract_packed h.systemCode hsystem,
    extract_packed h.colourCode hcolour, extract_packed h.timeslotAssigned hslot,
    extract_packed h.frame hframe, extract_packed h.multiframe hmultiframe,
    extract_packed h.sharingMode hsharing, extract_packed h.tsReservedFrames hreserved,
    extract_packed h.uPlane huPlane, extract_packed h.frame18Extension hframe18,
    extract_packed h.mcc hmcc, extract_packed h.mnc hmnc,
    extract_packed h.neighbourCellBroadcast hneighbour,
    extract_packed h.cellServiceLevel hservice, extract_packed h.lateEntryInfo hlate,
    extract_packed hzero hspare]

/-! ## The block -/

theorem scrambleInit_zero : scrambleInit 0 0 0 = 3 := by decide

/-- The length checks of the software never fire. -/
theorem writeSysinfoSb1_eq (info : Sysinfo) :
    writeSysinfoSb1 info = some (bsch.encodeFrom (buildSysinfoPdu info) 3) := by
  have hmother : (convR14 (crc16 (buildSysinfoPdu info) ++ List.replicate 4 false)).length =
      8 * 40 := by
    rw [convR14, length_convR14From, List.length_append, length_crc16, List.length_replicate,
      length_buildSysinfoPdu]
  have hpunct : punctureR23 (convR14 (crc16 (buildSysinfoPdu info) ++ List.replicate 4 false)) =
      some (keptBits (convR14 (crc16 (buildSysinfoPdu info) ++ List.replicate 4 false))) := by
    rw [punctureR23, if_neg (by rw [hmother]; decide)]
  rw [writeSysinfoSb1, hpunct]
  dsimp only
  rw [if_neg (by rw [length_keptBits hmother, hmother]; decide)]
  rfl

/-- **The block is decodable.** -/
theorem readBsch_encodeFrom {info : Sysinfo} (h : info.InWidth) :
    readBsch (bsch.encodeFrom (buildSysinfoPdu info) 3) = some (info, 0) := by
  have hlen : (buildSysinfoPdu info).length = bsch.info := length_buildSysinfoPdu info
  obtain ⟨block, hblock, -, hdecode⟩ := bsch.decode_encode hlen 0 0 0 0 0
  rw [bsch.encode_eq_encodeFrom hlen, scrambleInit_zero] at hblock
  obtain rfl := Option.some.inj hblock
  have hread : bsch.decode (crc16CheckN · 60) (bsch.encodeFrom (buildSysinfoPdu info) 3) 0 0 0 0 =
      some (buildSysinfoPdu info, 0) := hdecode
  rw [readBsch, hread, Option.bind_some]
  dsimp only
  rw [if_pos rfl, parseSysinfo_build h]

/-! ## The hardware's block -/

/-- The inputs of a cycle. -/
structure Sb1In where
  encodeStart : Bool := false
  cfg : SyncConfig := {}
  time : SlotTime := {}
deriving DecidableEq, Repr

namespace Sb1Encoder

/-- One edge of `clk_sys`. -/
def clock (e : Sb1Encoder) (i : Sb1In) : Sb1Encoder := e.step i.encodeStart i.cfg i.time

variable {e : Sb1Encoder} {info : BitVec 60} {n : ℕ}

/-- A block that is there is valid. -/
def Delivers (e : Sb1Encoder) : Prop := e.state = .idle → e.sb1Valid = true

theorem delivers_clock (hidle : e.state ≠ .idle) (i : Sb1In) : (e.clock i).Delivers := by
  rcases hs : e.state with _ | _ | _ | _ | _
  · exact absurd hs hidle
  · by_cases hlast : e.cnt = 59 <;> simp [Delivers, clock, step, hs, hlast]
  · simp [Delivers, clock, step, hs]
  · by_cases hlast : e.cnt = 79 <;> simp [Delivers, clock, step, hs, hlast]
  · simp [Delivers, clock, step, hs]

/-- The cycles that are left are enough. -/
theorem Working.exec (h : e.Working info) (hvalid : e.Delivers) {ins : List Sb1In}
    (hlen : ins.length = e.left) : onAir (Run.exec clock e ins).sb1Coded =
      bsch.encodeFrom (onAir info) 3 ∧ (Run.exec clock e ins).sb1Valid = true := by
  induction ins generalizing e with
  | nil =>
      have hidle : e.state = .idle := left_eq_zero.1 hlen.symm
      rw [Working, if_pos hidle] at h
      exact ⟨h, hvalid hidle⟩
  | cons i ins ih =>
      have hidle : e.state ≠ .idle := fun hidle ↦ by
        rw [left_eq_zero.2 hidle] at hlen
        exact Nat.succ_ne_zero _ hlen
      have hleft := h.left_step hidle i.encodeStart i.cfg i.time
      rw [List.length_cons, ← hleft] at hlen
      exact ih (h.step hidle i.encodeStart i.cfg i.time) (delivers_clock hidle i)
        (Nat.succ.inj hlen)

/-- **142 cycles after a start** the block is there. -/
theorem exec_start (h : e.state = .idle) (cfg : SyncConfig) (t : SlotTime)
    (ins : Vector Sb1In 142) :
    onAir (Run.exec clock (e.step true cfg t) ins.toList).sb1Coded =
        bsch.encodeFrom (onAir (syncPdu cfg t)) 3 ∧
      (Run.exec clock (e.step true cfg t) ins.toList).sb1Valid = true := by
  obtain ⟨hwork, hleft⟩ := working_start h cfg t
  refine hwork.exec (fun hidle ↦ ?_) (by rw [hleft, Vector.length_toList])
  rw [left_eq_zero.2 hidle] at hleft
  exact absurd hleft (by decide)

end Sb1Encoder

/-- **The encoders of the BSCH agree, and their block is decodable.**  For all values within the
widths of the fields, and whatever an idle encoder did before, 142 cycles after its start the
hardware holds the 120 bits that the software computes, in their order; and from these bits the
inverted stages give the values back, and a reserved bit that is 0. -/
theorem bsch_agrees {info : Sysinfo} (h : info.InWidth) {e : Sb1Encoder} (hidle : e.state = .idle)
    (ins : Vector Sb1In 142) : ∃ block, writeSysinfoSb1 info = some block ∧ block.length = 120 ∧
      (let done := Run.exec Sb1Encoder.clock (e.step true info.config info.slotTime) ins.toList
       onAir done.sb1Coded = block ∧ done.sb1Valid = true) ∧
      readBsch block = some (info, 0) := by
  refine ⟨_, writeSysinfoSb1_eq info, ?_, ?_, readBsch_encodeFrom h⟩
  · rw [Channel.encodeFrom, length_scrambleWith, interleavePerm, Permute.length_scatter]
    rfl
  · rw [buildSysinfoPdu_eq]
    exact Sb1Encoder.exec_start hidle _ _ ins

/-- A cell, and an encoder that has another slot's block in its registers. -/
theorem bsch_agrees_cell :
    let info : Sysinfo := ⟨0, 1, 0, 18, 60, 0, 0, 0, 0, 262, 1010, 3, 1, 0⟩
    ∃ block, writeSysinfoSb1 info = some block ∧ block.length = 120 ∧
      (let e : Sb1Encoder := { crc := 0x1D0F, rcpcIdx := 120, sb1Valid := true }
       let done := Run.exec Sb1Encoder.clock (e.step true info.config info.slotTime)
        (Vector.replicate 142 { encodeStart := true }).toList
       onAir done.sb1Coded = block ∧ done.sb1Valid = true) ∧
      readBsch block = some (info, 0) :=
  bsch_agrees ⟨by decide, by decide, by decide, by decide, by decide, by decide, by decide,
    by decide, by decide, by decide, by decide, by decide, by decide, by decide⟩ rfl _

end TetraPhy.Tx
