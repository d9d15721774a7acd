import TetraPhy.Codec.SchF
import TetraPhy.Lmac.SerialEncoder

/-!
# The SCH/F encoder

`tetra_sch_f_encoder.v`, the serial encoder at the dimensions of SCH/F: a PDU of 268 bits becomes
a block of 432, in 990 cycles after the start.

The same block is computed in software, by `tetra_codec_schf_encode`, by the HAL's
`tetra_schf_encode` and by its `encode_sch_f_c`.  In an array of the software the bits stand in
the order of transmission, in a register of the hardware the first is the highest, so that a block
of the one is `onAir` of the other.  From the seed of a cell all four agree.  A raw seed is given
to the last and to the hardware only, and zero is where they part: the software takes all ones in
its place, the hardware's register stays zero and nothing is scrambled.
-/

namespace TetraPhy.Lmac

open AirOrder Codec

/-- `tetra_sch_f_encoder`. -/
abbrev SchFEncoder := SerialEncoder schf

namespace SchFEncoder

open SerialEncoder

/-- The encoder a number of cycles after a start. -/
def after (e : SchFEncoder) (info : BitVec 268) (seed : BitVec 32) (ports : List (Port schf)) :
    SchFEncoder :=
  Run.exec edge (e.step true info seed) ports

/-- **Hardware and broadcast encoder agree on every seed but zero.** -/
theorem encodeFrom_eq_encodeSchFC_iff (info : BitVec 268) (seed : BitVec 32) :
    schf.encodeFrom (onAir info) (UInt32.ofBitVec seed) =
      encodeSchFC (onAir info) (UInt32.ofBitVec seed) ↔ seed ≠ 0 := by
  rw [encodeSchFC_eq (length_onAir info)]
  by_cases h : seed = 0
  · subst h
    exact iff_of_false (encodeFrom_zero_ne _) (fun hne ↦ hne rfl)
  · have hne : UInt32.ofBitVec seed ≠ 0 := fun h0 ↦ h (congrArg UInt32.toBitVec h0)
    rw [if_pos hne]
    exact iff_of_true rfl h

/-- **All SCH/F encoders agree.**  Whatever an idle encoder's registers hold and whatever its
inputs are after the start, the block of the PDU is valid in the 990th cycle, and not before.  It
is the block of `encode_sch_f_c` for every seed but zero; and for the seed of a cell it is that of
all the software's encoders. -/
theorem schfEncoders_agree {e : SchFEncoder} (h : e.state = .idle) (info : BitVec 268)
    (seed : BitVec 32) {ports : List (Port schf)} (hlen : ports.length ≤ 990) :
    ((e.after info seed ports).codedValid = true ↔ ports.length = 990) ∧
      (ports.length = 990 →
        (onAir (e.after info seed ports).codedBits =
          encodeSchFC (onAir info) (UInt32.ofBitVec seed) ↔ seed ≠ 0) ∧
        ∀ (colourCode slotNum : UInt8) (mcc mnc : UInt16),
          UInt32.ofBitVec seed = scrambleInit colourCode mcc mnc →
          schfEncode (onAir info) colourCode slotNum mcc mnc =
              some (onAir (e.after info seed ports).codedBits) ∧
            tetraSchfEncode (onAir info) colourCode slotNum mcc mnc =
              some (onAir (e.after info seed ports).codedBits) ∧
            encodeSchFC (onAir info) (scrambleInit colourCode mcc mnc) =
              onAir (e.after info seed ports).codedBits) := by
  obtain ⟨hvalid, hblock⟩ := exec_start (c := schf) (by decide) h info seed hlen
  refine ⟨hvalid, fun hend ↦ ?_⟩
  have hhw : onAir (e.after info seed ports).codedBits =
      schf.encodeFrom (onAir info) (UInt32.ofBitVec seed) := hblock hend
  rw [hhw]
  refine ⟨encodeFrom_eq_encodeSchFC_iff info seed, ?_⟩
  intro colourCode slotNum mcc mnc hseed
  have hsoft := schfEncode_eq_encodeFrom (length_onAir info) colourCode slotNum mcc mnc
  rw [tetraSchfEncode_eq, hseed]
  refine ⟨hsoft, hsoft, ?_⟩
  rw [encodeSchFC_eq (length_onAir info), if_pos (scrambleInit_ne_zero colourCode mcc mnc)]

/-- The inputs at rest, as long as a job takes. -/
def quietJob : List (Port schf) := List.replicate 990 ⟨false, 0, 0⟩

/-- The all-zero word from reset, with the seed of the cell whose identity is zero. -/
theorem schfEncoders_agree_zeros :
    (SchFEncoder.after {} 0 3 quietJob).codedValid = true ∧
      tetraSchfEncode (onAir 0#268) 0 1 0 0 =
        some (onAir (SchFEncoder.after {} 0 3 quietJob).codedBits) ∧
      encodeSchFC (onAir 0#268) 3 = onAir (SchFEncoder.after {} 0 3 quietJob).codedBits := by
  have hlen : quietJob.length = 990 := List.length_replicate
  obtain ⟨hvalid, hblock⟩ := schfEncoders_agree (e := {}) rfl 0 3 hlen.le
  obtain ⟨-, hcell⟩ := hblock hlen
  obtain ⟨-, htetra, hbcast⟩ := hcell 0 1 0 0 (by decide)
  exact ⟨hvalid.2 hlen, htetra, hbcast⟩

/-- Without a seed the hardware does not scramble. -/
theorem schfEncoders_differ_unseeded :
    onAir (SchFEncoder.after {} 0 0 quietJob).codedBits ≠ encodeSchFC (onAir 0#268) 0 := by
  have hlen : quietJob.length = 990 := List.length_replicate
  have hblock := (exec_start (c := schf) (e := {}) (by decide) rfl 0 0 hlen.le).2 hlen
  intro heq
  have hagree := hblock.symm.trans heq
  exact (encodeFrom_eq_encodeSchFC_iff 0 0).1 hagree rfl

end SchFEncoder

end TetraPhy.Lmac
