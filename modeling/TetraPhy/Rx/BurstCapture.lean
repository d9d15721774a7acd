import Mathlib.Data.Int.Notation
import Mathlib.Tactic.Linarith
import TetraPhy.Lib.Buffer

/-!
# Samples, and the ring they are captured in

What the uplink blocks behind the receive filter share: the differential product of two samples,
as `tetra_ul_sync_detect_os4.v`, `tetra_ul_nub_capture.v` and `tetra_ul_pi4dqpsk_demod.v` compute
it, and the ring with the write pointer and the phase counter of the two capture machines.
-/

namespace TetraPhy.Rx

/-- A sample, both parts signed. -/
structure Iq where
  i : BitVec 16
  q : BitVec 16
deriving DecidableEq, Repr

/-- The inputs of a cycle that all the blocks see. -/
structure IqIn where
  iq : Iq := ⟨0, 0⟩
  valid : Bool := false
deriving DecidableEq, Repr

/-! ## The differential product -/

/-- A signed product, at twice the width. -/
def mulS (x y : BitVec 16) : BitVec 32 := x.signExtend 32 * y.signExtend 32

/-- `mul_ii + mul_qq`. -/
def sumS (x y : BitVec 32) : BitVec 33 := x.signExtend 33 + y.signExtend 33

/-- `mul_qi - mul_iq`. -/
def diffS (x y : BitVec 32) : BitVec 33 := x.signExtend 33 - y.signExtend 33

/-- **No product overflows.** -/
theorem toInt_mulS (x y : BitVec 16) : (mulS x y).toInt = x.toInt * y.toInt := by
  have hx : -2 ^ 15 ≤ x.toInt ∧ x.toInt < 2 ^ 15 := ⟨x.le_toInt, x.toInt_lt⟩
  have hy : -2 ^ 15 ≤ y.toInt ∧ y.toInt < 2 ^ 15 := ⟨y.le_toInt, y.toInt_lt⟩
  rw [mulS, BitVec.toInt_mul, BitVec.toInt_signExtend_of_le (by decide),
    BitVec.toInt_signExtend_of_le (by decide)]
  exact Int.bmod_eq_of_le (by norm_num; nlinarith) (by norm_num; nlinarith)

theorem toInt_sumS (x y : BitVec 32) : (sumS x y).toInt = x.toInt + y.toInt := by
  have hx : -2 ^ 31 ≤ x.toInt ∧ x.toInt < 2 ^ 31 := ⟨x.le_toInt, x.toInt_lt⟩
  have hy : -2 ^ 31 ≤ y.toInt ∧ y.toInt < 2 ^ 31 := ⟨y.le_toInt, y.toInt_lt⟩
  rw [sumS, BitVec.toInt_add, BitVec.toInt_signExtend_of_le (by decide),
    BitVec.toInt_signExtend_of_le (by decide)]
  exact Int.bmod_eq_of_le (by omega) (by omega)

theorem toInt_diffS (x y : BitVec 32) : (diffS x y).toInt = x.toInt - y.toInt := by
  have hx : -2 ^ 31 ≤ x.toInt ∧ x.toInt < 2 ^ 31 := ⟨x.le_toInt, x.toInt_lt⟩
  have hy : -2 ^ 31 ≤ y.toInt ∧ y.toInt < 2 ^ 31 := ⟨y.le_toInt, y.toInt_lt⟩
  rw [diffS, BitVec.toInt_sub, BitVec.toInt_signExtend_of_le (by decide),
    BitVec.toInt_signExtend_of_le (by decide)]
  exact Int.bmod_eq_of_le (by omega) (by omega)

/-! ## The ring -/

/-- The ring of a capture machine, and its copy of the phase counter. -/
structure CaptureRing (w : ℕ) where
  ring : Ring w Iq
  phaseCnt : BitVec 2 := 0

namespace CaptureRing

variable {w : ℕ} (r : CaptureRing w)

/-- One clock edge. -/
def step (i : IqIn) : CaptureRing w where
  ring := if i.valid then r.ring.write i.iq else r.ring
  phaseCnt := if i.valid then r.phaseCnt + 1 else r.phaseCnt

/-- `delta_w`. -/
def delta (bestPhase : BitVec 2) : BitVec 2 := r.phaseCnt + 3 - bestPhase

/-- `anchor_calc_w`. -/
def anchorCalc (bestPhase : BitVec 2) : BitVec w :=
  r.ring.wp - (r.delta bestPhase).setWidth w - 1

end CaptureRing

end TetraPhy.Rx

/-!
# The capture machine of the control bursts

`tetra_ul_burst_capture.v`: at a sync the anchor is kept, the place of the last sample of the
training sequence; once 172 further samples came, two times 43 samples, one a symbol, are read
from the ring and streamed out.

| half | first sample                     | samples                     |
|------|----------------------------------|-----------------------------|
| cb1  | 57 symbols before the anchor     | a reference, then 42 symbols |
| cb2  | the anchor                       | a reference, then 42 symbols |
-/

namespace TetraPhy.Rx

/-- What a capture machine is told by the detector. -/
structure CaptureIn where
  sample : IqIn := {}
  syncFound : Bool := false
  bestPhase : BitVec 2 := 0
deriving DecidableEq, Repr

/-- The states. -/
inductive BurstState
  | idle | waitPost | streamCb1 | streamCb2
deriving DecidableEq, Repr

/-- What is streamed to the demodulator; the sample itself is not reset. -/
structure IqStream where
  iq : Iq
  valid : Bool := false
  first : Bool := false
  last : Bool := false
  half : Bool := false
deriving DecidableEq, Repr

/-- The registers, as reset leaves them; the memory is not reset. -/
structure BurstCapture where
  ring : CaptureRing 9
  state : BurstState := .idle
  anchorIdx : BitVec 9 := 0
  cb1Base : BitVec 9 := 0
  postCnt : BitVec 9 := 0
  streamIdx : BitVec 6 := 0
  rdEn : Bool := false
  rdFirst : Bool := false
  rdLast : Bool := false
  rdHalf : Bool := false
  rdAddr : BitVec 9 := 0
  out : IqStream
  burstsCaptured : BitVec 16 := 0

namespace BurstCapture

variable (c : BurstCapture) (i : CaptureIn)

/-- The FSM in `S_IDLE`. -/
def stepIdle (n : BurstCapture) : BurstCapture :=
  if i.syncFound then
    { n with
      anchorIdx := c.ring.anchorCalc i.bestPhase
      cb1Base := c.ring.anchorCalc i.bestPhase - 228
      postCnt := 172
      state := .waitPost }
  else n

/-- The FSM in `S_WAIT_POST`. -/
def stepWait (n : BurstCapture) : BurstCapture :=
  if i.sample.valid then
    if c.postCnt ≤ 1 then { n with streamIdx := 0, state := .streamCb1 }
    else { n with postCnt := c.postCnt - 1 }
  else n

/-- The FSM in `S_STREAM_CB1`. -/
def stepCb1 (n : BurstCapture) : BurstCapture :=
  { n with
    rdAddr := c.cb1Base + c.streamIdx.setWidth 9 * 4
    rdEn := true
    rdFirst := c.streamIdx == 0
    rdHalf := false
    streamIdx := if c.streamIdx = 42 then 0 else c.streamIdx + 1
    state := if c.streamIdx = 42 then .streamCb2 else .streamCb1 }

/-- The FSM in `S_STREAM_CB2`. -/
def stepCb2 (n : BurstCapture) : BurstCapture :=
  { n with
    rdAddr := c.anchorIdx + c.streamIdx.setWidth 9 * 4
    rdEn := true
    rdFirst := c.streamIdx == 0
    rdLast := c.streamIdx == 42
    rdHalf := true
    streamIdx := if c.streamIdx = 42 then c.streamIdx else c.streamIdx + 1
    burstsCaptured := if c.streamIdx = 42 then c.burstsCaptured + 1 else c.burstsCaptured
    state := if c.streamIdx = 42 then .idle else .streamCb2 }

/-- The blocks of the ring and of the read port. -/
def stepRing : BurstCapture :=
  { c with
    ring := c.ring.step i.sample
    rdEn := false
    rdFirst := false
    rdLast := false
    out :=
      { iq := if c.rdEn then c.ring.ring.cell c.rdAddr else c.out.iq
        valid := c.rdEn
        first := c.rdFirst
        last := c.rdLast
        half := c.rdHalf } }

/-- One clock edge. -/
def step : BurstCapture :=
  match c.state with
  | .idle => c.stepIdle i (c.stepRing i)
  | .waitPost => c.stepWait i (c.stepRing i)
  | .streamCb1 => c.stepCb1 (c.stepRing i)
  | .streamCb2 => c.stepCb2 (c.stepRing i)

variable {c i}

/-- No state touches the ring. -/
theorem ring_step : (c.step i).ring = c.ring.step i.sample := by
  unfold step stepIdle stepWait
  cases c.state <;> dsimp only <;> repeat' split
  all_goals rfl

/-- The samples follow the read port. -/
theorem out_step : (c.step i).out.valid = c.rdEn ∧ (c.step i).out.first = c.rdFirst ∧
    (c.step i).out.last = c.rdLast ∧ (c.step i).out.half = c.rdHalf := by
  unfold step stepIdle stepWait
  cases c.state <;> dsimp only <;> repeat' split
  all_goals exact ⟨rfl, rfl, rfl, rfl⟩

/-- The anchor is taken at a sync in the idle state. -/
theorem anchorIdx_step : (c.step i).anchorIdx =
    if c.state == .idle && i.syncFound then c.ring.anchorCalc i.bestPhase else c.anchorIdx := by
  unfold step stepIdle stepWait
  cases hs : c.state <;> cases hf : i.syncFound <;> dsimp only <;> repeat' split
  all_goals first | rfl | contradiction

end BurstCapture

end TetraPhy.Rx

/-!
# The demodulator of the control bursts

`tetra_ul_pi4dqpsk_demod.v`: of each sample and the one before it the product with the conjugate,
normalised by its magnitude and saturated to eight bits.  Four stages run behind the input, and with
each product run the marks that say which one of the burst it is.
-/

namespace TetraPhy.Rx

/-- The marks of a product: the first one of a half, the last one of the burst, and the half. -/
structure SoftTag where
  valid : Bool := false
  first : Bool := false
  last : Bool := false
  half : Bool := false
deriving DecidableEq, Repr

/-- The registers, as reset leaves them. -/
structure UlDemod where
  prev : Iq := ⟨0, 0⟩
  hasPrev : Bool := false
  pendingFirst : Bool := false
  mulIi : BitVec 32 := 0
  mulQq : BitVec 32 := 0
  mulQi : BitVec 32 := 0
  mulIq : BitVec 32 := 0
  tagS1 : SoftTag := {}
  reZS2 : BitVec 33 := 0
  imZS2 : BitVec 33 := 0
  tagS2 : SoftTag := {}
  reZS2b : BitVec 33 := 0
  imZS2b : BitVec 33 := 0
  normShS2b : BitVec 6 := 0
  tagS2b : SoftTag := {}
  softBit0 : BitVec 8 := 0
  softBit1 : BitVec 8 := 0
  soft : SoftTag := {}
deriving DecidableEq, Repr

namespace UlDemod

/-- `re_abs_s2` and `im_abs_s2`. -/
def absZ (z : BitVec 33) : BitVec 33 := if z.msb then -z else z

/-- `mag_l1_s2`. -/
def magL1 (re im : BitVec 33) : BitVec 34 :=
  (absZ re).signExtend 34 + (absZ im).signExtend 34

/-- `msb_pos_s2`: the leading one, or 0. -/
def msbPos (mag : BitVec 34) : BitVec 6 :=
  (List.range 34).foldl (fun pos mi ↦ if mag.getLsbD mi then BitVec.ofNat 6 mi else pos) 0

/-- `norm_sh_w`, with `NORM_TGT` 5. -/
def normSh (re im : BitVec 33) : BitVec 6 :=
  let pos := msbPos (magL1 re im)
  if 5 < pos then pos - 5 else 0

/-- `sat_soft`. -/
def satSoft (v : BitVec 33) : BitVec 8 :=
  if 127 < v.toInt then 127 else if v.toInt < -128 then -128 else v.setWidth 8

variable (d : UlDemod) (i : IqStream)

/-- `emit_s0_w`. -/
def emitS0 : Bool := i.valid && !i.first && d.hasPrev

/-- One clock edge. -/
def step : UlDemod where
  prev := if i.valid then i.iq else d.prev
  hasPrev := if i.valid && i.first then true else d.hasPrev
  pendingFirst :=
    if i.valid then if i.first then true else if d.hasPrev then false else d.pendingFirst
    else d.pendingFirst
  mulIi := mulS i.iq.i d.prev.i
  mulQq := mulS i.iq.q d.prev.q
  mulQi := mulS i.iq.q d.prev.i
  mulIq := mulS i.iq.i d.prev.q
  tagS1 :=
    { valid := d.emitS0 i
      first := d.emitS0 i && d.pendingFirst
      last := d.emitS0 i && i.last
      half := i.half }
  reZS2 := sumS d.mulIi d.mulQq
  imZS2 := diffS d.mulQi d.mulIq
  tagS2 := d.tagS1
  reZS2b := d.reZS2
  imZS2b := d.imZS2
  normShS2b := normSh d.reZS2 d.imZS2
  tagS2b := d.tagS2
  softBit0 := satSoft (d.reZS2b.sshiftRight d.normShS2b.toNat)
  softBit1 := satSoft (d.imZS2b.sshiftRight d.normShS2b.toNat)
  soft := d.tagS2b

end UlDemod

end TetraPhy.Rx
