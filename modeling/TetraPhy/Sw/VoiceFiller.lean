import TetraPhy.Sw.Regs

/-!
# Timeslots and the resources behind them

`tetra_ts_map.h`: the conversions from an ETSI timeslot number (1 .. 4, TS1 the
control channel, TS2 .. TS4 voice) to the hardware resources of that slot, and
back from a measured uplink delay to the timeslot.
-/

namespace TetraPhy.Sw

/-- `tetra_ts_to_chan_alloc_bitmap`: MSB-first `[TS1, TS2, TS3, TS4]`. -/
def tsToChanAllocBitmap (ts : UInt8) : UInt8 :=
  if ts < 1 || ts > 4 then 0 else (1 : UInt8) <<< (4 - ts)

/-- `tetra_ts_to_voice_mask_bit`. -/
def tsToVoiceMaskBit (ts : UInt8) : UInt32 :=
  if ts < 1 || ts > 4 then 0 else (1 : UInt32) <<< (ts - 1).toUInt32

/-- `tetra_ts_to_aach_reg`; 0 when there is no such timeslot. -/
def tsToAachReg (ts : UInt8) : UInt32 :=
  if ts = 1 then regSlotAachTs1
  else if ts = 2 then regSlotAachTs2
  else if ts = 3 then regSlotAachTs3
  else if ts = 4 then regSlotAachTs4
  else 0

/-- `tetra_delta_to_etsi_ts`: the timeslot whose nominal delay is nearest, in
32-bit arithmetic as the source computes it. -/
def deltaToEtsiTs (deltaCyc : UInt32) : UInt8 :=
  let cyclesPerTs : UInt32 := 1416700
  let frame : UInt32 := 4 * cyclesPerTs
  let rel := (deltaCyc + frame - 834000 % frame) % frame
  let tsIdx := (rel + cyclesPerTs / 2) / cyclesPerTs
  let tsIdx := if tsIdx ≥ 4 then 0 else tsIdx
  (tsIdx + 1).toUInt8

/-- The voice timeslots, lowest first: `TETRA_VOICE_TS_MIN .. TETRA_VOICE_TS_MAX`. -/
def voiceTimeslots : List UInt8 := [2, 3, 4]

theorem mem_voiceTimeslots {ts : UInt8} : ts ∈ voiceTimeslots ↔ 2 ≤ ts ∧ ts ≤ 4 := by
  simp only [voiceTimeslots, List.mem_cons, List.not_mem_nil, or_false]
  grind

theorem tsToAachReg_ne_zero {ts : UInt8} (h : 1 ≤ ts) (h' : ts ≤ 4) : tsToAachReg ts ≠ 0 := by
  have : ts = 1 ∨ ts = 2 ∨ ts = 3 ∨ ts = 4 := by grind
  rcases this with rfl | rfl | rfl | rfl <;> decide

/-- Different timeslots have different AACH registers. -/
theorem tsToAachReg_inj {ts ts' : UInt8} (h : 1 ≤ ts) (h' : ts ≤ 4)
    (he : tsToAachReg ts = tsToAachReg ts') : ts = ts' := by
  have hts : ts = 1 ∨ ts = 2 ∨ ts = 3 ∨ ts = 4 := by grind
  unfold tsToAachReg at he
  rcases hts with rfl | rfl | rfl | rfl <;> split_ifs at he <;> grind [regSlotAachTs1,
    regSlotAachTs2, regSlotAachTs3, regSlotAachTs4]

end TetraPhy.Sw

/-!
# The voice filler mailbox

The part of `tetra_voice_filler.c` the call control uses: writing a coded burst
into the filler bank of one timeslot, clearing one bank, and clearing all four.
Each is a sequence of index/data register pairs closed by a GO pulse; word 14
carries the valid flag and the target timeslot.
-/

namespace TetraPhy.Sw

/-- `pack_bits_mailbox`: both 216-bit halves of the burst are stored with their
first bit at the highest position of the half. -/
def packBitsMailbox (type5 : Nat → Bool) : Nat → UInt32 :=
  let setBit (words : Nat → UInt32) (dst : Nat) : Nat → UInt32 :=
    Function.update words (dst / 32) (words (dst / 32) ||| ((1 : UInt32) <<< (dst % 32).toUInt32))
  let bkn1 := (List.range 216).foldl
    (fun words i ↦ if type5 i then setBit words (215 - i) else words) fun _ ↦ 0
  (List.range 216).foldl
    (fun words i ↦ if type5 (216 + i) then setBit words (431 - i) else words) bkn1

/-- One indexed write into the filler mailbox. -/
def fillerWrite (idx data : UInt32) : List RegWrite :=
  [⟨regVoiceFillerIndex, idx⟩, ⟨regVoiceFillerData, data⟩]

/-- `tetra_voice_filler_write_ts`. -/
def voiceFillerWriteTs (type5 : Nat → Bool) (targetTs : UInt8) : List RegWrite :=
  if targetTs < 1 || targetTs > 4 then []
  else
    let words := packBitsMailbox type5
    (List.range 14).flatMap (fun i ↦ fillerWrite i.toUInt32 (words i)) ++
      fillerWrite 14 ((0x1 : UInt32) ||| ((targetTs &&& 0x7).toUInt32 <<< 1)) ++
      [⟨regVoiceFillerGo, 0x1⟩]

/-- Commit word 14 with the valid flag clear. -/
def fillerInvalidate (ts : UInt8) : List RegWrite :=
  fillerWrite 14 ((ts &&& 0x7).toUInt32 <<< 1) ++ [⟨regVoiceFillerGo, 0x1⟩]

/-- `tetra_voice_filler_clear_ts`. -/
def voiceFillerClearTs (targetTs : UInt8) : List RegWrite :=
  if targetTs < 1 || targetTs > 4 then [] else fillerInvalidate targetTs

/-- `tetra_voice_filler_clear`: all four banks. -/
def voiceFillerClear : List RegWrite := [1, 2, 3, 4].flatMap fillerInvalidate

/-- The three registers of the filler mailbox. -/
def fillerRegs : List UInt32 := [regVoiceFillerIndex, regVoiceFillerData, regVoiceFillerGo]

theorem writesOnly_fillerWrite (idx data : UInt32) :
    WritesOnly fillerRegs (fillerWrite idx data) := by
  intro w hw
  simp only [fillerWrite, List.mem_cons, List.not_mem_nil, or_false] at hw
  rcases hw with rfl | rfl <;> simp [fillerRegs]

theorem writesOnly_fillerGo : WritesOnly fillerRegs [⟨regVoiceFillerGo, 0x1⟩] := by
  intro w hw
  rw [List.mem_singleton.mp hw]
  simp [fillerRegs]

theorem writesOnly_voiceFillerWriteTs (type5 : Nat → Bool) (ts : UInt8) :
    WritesOnly fillerRegs (voiceFillerWriteTs type5 ts) := by
  unfold voiceFillerWriteTs
  split
  · exact writesOnly_nil _
  · exact ((WritesOnly.flatMap fun i ↦ writesOnly_fillerWrite _ _).append
      (writesOnly_fillerWrite _ _)).append writesOnly_fillerGo

theorem writesOnly_fillerInvalidate (ts : UInt8) : WritesOnly fillerRegs (fillerInvalidate ts) :=
  (writesOnly_fillerWrite _ _).append writesOnly_fillerGo

theorem writesOnly_voiceFillerClearTs (ts : UInt8) :
    WritesOnly fillerRegs (voiceFillerClearTs ts) := by
  unfold voiceFillerClearTs
  split
  · exact writesOnly_nil _
  · exact writesOnly_fillerInvalidate ts

theorem writesOnly_voiceFillerClear : WritesOnly fillerRegs voiceFillerClear :=
  WritesOnly.flatMap writesOnly_fillerInvalidate

end TetraPhy.Sw
