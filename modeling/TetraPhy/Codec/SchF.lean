import Mathlib.Data.Nat.Bits
import TetraPhy.Codec.Sch

/-!
# The HAL's SCH/F encoders

`tetra_hal.c` codes a SCH/F block in two ways.  `tetra_schf_encode` has its own copies of the
codec's primitives, the same text under other names; `encode_sch_f_c`, which codes the broadcast
PDU, was written anew, and every stage of it differs in form:

| stage | `tetra_channel_codec.c` | `encode_sch_f_c` |
|---|---|---|
| CRC | the feedback is a bit | it is bit 15 of a word |
| code | all mother bits, then punctured | only the kept ones are computed |
| interleaver | any length and factor | 432 and 103 |
| scrambler | seeded with the cell identity | with any word, all ones in place of zero |

`encodeSchFC_eq` is that both compute the same block.
-/

namespace TetraPhy.Codec

open Permute

/-! ## `tetra_schf_encode` -/

/-- `tetra_schf_encode` of the HAL. -/
def tetraSchfEncode (infoBits : List Bool) (colourCode _slotNum : UInt8) (mcc mnc : UInt16) :
    Option (List Bool) :=
  let type3 := crc16 infoBits ++ List.replicate 4 false
  let mother := convR14 type3
  match punctureR23 mother with
  | none => none
  | some type4 =>
    if mother.length ≠ 288 * 4 ∨ type4.length ≠ 432 then none
    else
      let type4i := interleavePerm type4 432 103
      some (scrambleWith Bool.not (scrambleInit colourCode mcc mnc) type4i)

/-- It is the codec's. -/
theorem tetraSchfEncode_eq : tetraSchfEncode = schfEncode := rfl

/-! ## `encode_sch_f_c` -/

/-- One bit in the CRC of `crc16_append`. -/
def crcAppendStep (crc : UInt16) (b : Bool) : UInt16 :=
  let fb := (b.toNat.toUInt16 <<< 15) ^^^ (crc &&& 0x8000)
  let crc := crc <<< 1
  if fb ≠ 0 then crc ^^^ 0x1021 else crc

/-- `crc16_append`. -/
def crc16Append (bits : List Bool) : List Bool :=
  let crc := ~~~bits.foldl crcAppendStep 0xFFFF
  bits ++ (List.range 16).map fun i ↦ (crc >>> (15 - i).toUInt16) &&& 1 == 1

/-- `__builtin_parity`: whether an odd number of bits is set. -/
def builtinParity (x : ℕ) : Bool := x.bits.foldr xor false

/-- `conv_punc_r23`, from a register value on. -/
def convPuncR23From (sr : ℕ) : List Bool → List Bool
  | [] => []
  | [b0] =>
    let sr := ((sr <<< 1) ||| b0.toNat) &&& 0x1F
    [builtinParity (sr &&& 0x13), builtinParity (sr &&& 0x1D)]
  | b0 :: b1 :: bits =>
    let sr := ((sr <<< 1) ||| b0.toNat) &&& 0x1F
    let sr' := ((sr <<< 1) ||| b1.toNat) &&& 0x1F
    builtinParity (sr &&& 0x13) :: builtinParity (sr &&& 0x1D) ::
      builtinParity (sr' &&& 0x13) :: convPuncR23From sr' bits

/-- `conv_punc_r23`. -/
def convPuncR23 (bits : List Bool) : List Bool := convPuncR23From 0 bits

/-- `interleave_sch_f_c`. -/
def interleaveSchFC (bits : List Bool) : List Bool := interleavePerm bits 432 103

/-- The loop of `scramble_with_init_c`. -/
def scrambleFrom (lfsr : UInt32) : List Bool → List Bool
  | [] => []
  | b :: bits =>
    let fb := ((lfsr >>> 0) ^^^ (lfsr >>> 6) ^^^ (lfsr >>> 9) ^^^ (lfsr >>> 10) ^^^
      (lfsr >>> 16) ^^^ (lfsr >>> 20) ^^^ (lfsr >>> 21) ^^^ (lfsr >>> 22) ^^^
      (lfsr >>> 24) ^^^ (lfsr >>> 25) ^^^ (lfsr >>> 27) ^^^ (lfsr >>> 28) ^^^
      (lfsr >>> 30) ^^^ (lfsr >>> 31)) &&& 1
    (b ^^ (fb == 1)) :: scrambleFrom ((fb <<< 31) ||| (lfsr >>> 1)) bits

/-- `scramble_with_init_c`. -/
def scrambleWithInitC (bits : List Bool) (init : UInt32) : List Bool :=
  scrambleFrom (if init ≠ 0 then init else 0xFFFFFFFF) bits

/-- `encode_sch_f_c`. -/
def encodeSchFC (info : List Bool) (scrambInit : UInt32) : List Bool :=
  let buf := crc16Append info ++ List.replicate 4 false
  scrambleWithInitC (interleaveSchFC (convPuncR23 buf)) scrambInit

/-! ### Stage by stage -/

/-- Bit 15 of a CRC, in place. -/
theorem and_top_eq (crc : UInt16) : crc &&& 0x8000 = if crcBit crc 0 then 0x8000 else 0 := by
  rw [crcBit_eq crc (by decide), ← UInt16.toBitVec_inj, UInt16.toBitVec_and]
  have h := BitVec.and_twoPow crc.toBitVec 15
  have htop : crc.toBitVec.getMsbD 0 = crc.toBitVec.getLsbD 15 := rfl
  rw [htop]
  cases hb : crc.toBitVec.getLsbD 15 <;> rw [hb] at h <;> exact h

theorem crcAppendStep_eq (crc : UInt16) (b : Bool) : crcAppendStep crc b = crcStep crc b := by
  have hstep : crcStep crc b = if b ^^ crcBit crc 0 then crc <<< 1 ^^^ 0x1021 else crc <<< 1 := rfl
  rw [crcAppendStep, and_top_eq, hstep]
  cases b <;> cases crcBit crc 0 <;> rfl

theorem crc16Append_eq (bits : List Bool) : crc16Append bits = crc16 bits := by
  have hstep : crcAppendStep = crcStep := by
    funext crc b
    exact crcAppendStep_eq crc b
  have hnot : ∀ crc : UInt16, ~~~crc = crc ^^^ 0xFFFF := fun crc ↦ by
    rw [← UInt16.toBitVec_inj]
    exact BitVec.xor_allOnes.symm
  rw [crc16Append, hstep, hnot]
  rfl

theorem builtinParity_eq {x : ℕ} (h : x < 32) : builtinParity x = parity5 x := by
  revert x
  decide

theorem and_lt_of_shiftIn (sr : ℕ) (b : Bool) (g : ℕ) : shiftIn sr b &&& g < 32 :=
  Nat.lt_of_le_of_lt Nat.and_le_left (shiftIn_lt sr b)

/-- Of each pair of inputs the three parities are computed that puncturing keeps. -/
theorem convPuncR23From_eq (n sr : ℕ) {bits : List Bool} (h : bits.length = 2 * n) :
    convPuncR23From sr bits = keptBits (convR14From sr bits) := by
  induction n generalizing sr bits with
  | zero =>
      rw [List.eq_nil_of_length_eq_zero h]
      rfl
  | succ n ih =>
      obtain ⟨b0, b1, bits, rfl⟩ : ∃ b0 b1 bits', bits = b0 :: b1 :: bits' := by
        rcases bits with _ | ⟨b0, _ | ⟨b1, bits⟩⟩
        case cons.cons => exact ⟨b0, b1, bits, rfl⟩
        all_goals simp only [List.length_cons, List.length_nil] at h; omega
      simp only [List.length_cons] at h
      have hrest := @ih (shiftIn (shiftIn sr b0) b1) bits (by omega)
      have hpar := fun g ↦ builtinParity_eq (and_lt_of_shiftIn sr b0 g)
      have hpar' := fun g ↦ builtinParity_eq (and_lt_of_shiftIn (shiftIn sr b0) b1 g)
      have hleft : convPuncR23From sr (b0 :: b1 :: bits) =
          builtinParity (shiftIn sr b0 &&& 0x13) :: builtinParity (shiftIn sr b0 &&& 0x1D) ::
            builtinParity (shiftIn (shiftIn sr b0) b1 &&& 0x13) ::
              convPuncR23From (shiftIn (shiftIn sr b0) b1) bits := rfl
      rw [hleft, hpar, hpar, hpar', hrest]
      rfl

/-- The two read the same taps of the register. -/
theorem scrambleFrom_eq (lfsr : UInt32) (bits : List Bool) :
    scrambleFrom lfsr bits = scrambleWith Bool.not lfsr bits := by
  induction bits generalizing lfsr with
  | nil => rfl
  | cons b bits ih =>
      have hbit : ∀ x : Bool, (b ^^ x) = if x then !b else b := by
        cases b <;> decide
      rw [scrambleFrom, ih, hbit, scrambleWith, nextLfsrBit, UInt32.or_comm]
      rfl

/-- **The broadcast encoder codes SCH/F**, with all ones in place of the seed zero. -/
theorem encodeSchFC_eq {info : List Bool} (h : info.length = 268) (scrambInit : UInt32) :
    encodeSchFC info scrambInit =
      schf.encodeFrom info (if scrambInit ≠ 0 then scrambInit else 0xFFFFFFFF) := by
  have hlen : (crc16 info ++ List.replicate 4 false).length = 2 * 144 := by
    rw [List.length_append, length_crc16, List.length_replicate, h]
  rw [encodeSchFC, crc16Append_eq, convPuncR23, convPuncR23From_eq 144 0 hlen, scrambleWithInitC,
    scrambleFrom_eq]
  rfl

/-- Of the seeds that a cell has, zero is none. -/
theorem scrambleInit_ne_zero (colourCode : UInt8) (mcc mnc : UInt16) :
    scrambleInit colourCode mcc mnc ≠ 0 := by
  have hguard : ∀ lfsr : UInt32, (if lfsr == 0 then 0xFFFFFFFF else lfsr) ≠ 0 := by
    intro lfsr
    split
    · decide
    · rename_i h
      exact fun h0 ↦ h (beq_iff_eq.2 h0)
  exact hguard _

/-- A register of zeros and one of ones differ in the second bit they deliver. -/
theorem scrambleWith_zero_ne {xs : List Bool} (h : 2 ≤ xs.length) :
    scrambleWith Bool.not 0 xs ≠ scrambleWith Bool.not 0xFFFFFFFF xs := by
  rcases xs with _ | ⟨x, _ | ⟨y, xs⟩⟩
  case cons.cons =>
    intro heq
    have hsecond : y = !y := congrArg (fun l ↦ l.getD 1 false) heq
    cases y <;> exact absurd hsecond (by decide)
  all_goals simp at h

theorem encodeFrom_zero_ne (info : List Bool) :
    schf.encodeFrom info 0 ≠ schf.encodeFrom info 0xFFFFFFFF := by
  refine scrambleWith_zero_ne ?_
  rw [interleavePerm, length_scatter]
  decide

/-- **The encoders of the two modules code SCH/F**, from the seed of the cell. -/
theorem schfEncode_eq_encodeFrom {info : List Bool} (h : info.length = 268)
    (colourCode slotNum : UInt8) (mcc mnc : UInt16) :
    schfEncode info colourCode slotNum mcc mnc =
      some (schf.encodeFrom info (scrambleInit colourCode mcc mnc)) := by
  rw [schfEncode_eq h, Channel.encode_eq_encodeFrom (c := schf) h]

end TetraPhy.Codec
