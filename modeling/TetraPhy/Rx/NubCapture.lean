import TetraPhy.Rx.BurstCapture

/-!
# The capture machine of the normal bursts

`tetra_ul_nub_capture.v`: at a sync the anchor is kept, and once 480 further samples came, the two
blocks are read from the ring and demodulated, 109 samples each.

| block | first sample               |
|-------|----------------------------|
| bkn1  | 476 samples before anchor  |
| bkn2  | the anchor                 |

A sample that was read is multiplied with the one before it, the products are added, and the sums
saturated, each in a cycle of its own; so a pair of soft values is shifted in two cycles after its
sample came from the memory.
-/

namespace TetraPhy.Rx

/-- The states. -/
inductive NubState
  | idle | waitPost | readBkn1Pre | readBkn1Ref | readBkn1Run | readBkn2Pre | readBkn2Ref
  | readBkn2Run | done
deriving DecidableEq, Repr

/-- The multiplier's registers, which are not reset. -/
structure NubProducts where
  mulIi : BitVec 32
  mulQq : BitVec 32
  mulQi : BitVec 32
  mulIq : BitVec 32
  iProd : BitVec 33
  qProd : BitVec 33
deriving DecidableEq, Repr

/-- One clock edge of the multiplier. -/
def NubProducts.step (m : NubProducts) (rd prev : Iq) : NubProducts where
  mulIi := mulS rd.i prev.i
  mulQq := mulS rd.q prev.q
  mulQi := mulS rd.q prev.i
  mulIq := mulS rd.i prev.q
  iProd := sumS m.mulIi m.mulQq
  qProd := diffS m.mulQi m.mulIq

/-- `soft_i_w`, `soft_q_w`: the negated product, shifted by `SOFT_SHIFT` and saturated. -/
def softOf (prod : BitVec 33) : BitVec 4 :=
  let shifted := (-prod).sshiftRight 24
  let upper := shifted.extractLsb' 3 30
  if upper = 0 ∨ upper = BitVec.allOnes 30 then shifted.extractLsb' 0 4
  else if shifted.msb then 0b1000#4 else 0b0111#4

/-- `dibit_softs_w`. -/
def NubProducts.dibitSofts (m : NubProducts) : BitVec 8 := softOf m.qProd ++ softOf m.iProd

/-- The registers, as reset leaves them; the memory and its read port are not reset.  Of
`coded_softs_sys` the halves stand apart, `BKN1` in bits 1727 .. 864. -/
structure NubCapture where
  ring : CaptureRing 10
  state : NubState := .idle
  anchorIdx : BitVec 10 := 0
  bkn1Base : BitVec 10 := 0
  bkn2Base : BitVec 10 := 0
  postCnt : BitVec 9 := 0
  symIdx : BitVec 7 := 0
  prev : Iq := ⟨0, 0⟩
  rdEn : Bool := false
  rdAddr : BitVec 10 := 0
  rd : Iq
  products : NubProducts
  bkn1Softs : BitVec 864 := 0
  bkn2Softs : BitVec 864 := 0
  codedValid : Bool := false
  burstsCaptured : BitVec 16 := 0

namespace NubCapture

variable (c : NubCapture) (i : CaptureIn)

/-- `coded_softs_sys`. -/
def codedSofts : BitVec 1728 := c.bkn1Softs ++ c.bkn2Softs

/-- Shift a pair in. -/
def shiftSofts (softs : BitVec 864) : BitVec 864 := softs.extractLsb' 0 856 ++ c.products.dibitSofts

/-- The FSM in `S_IDLE`. -/
def stepIdle (n : NubCapture) : NubCapture :=
  if i.syncFound then
    { n with
      anchorIdx := c.ring.anchorCalc i.bestPhase
      bkn1Base := c.ring.anchorCalc i.bestPhase - 476
      bkn2Base := c.ring.anchorCalc i.bestPhase + 0
      postCnt := 480
      state := .waitPost }
  else n

/-- The FSM in `S_WAIT_POST`. -/
def stepWait (n : NubCapture) : NubCapture :=
  if i.sample.valid then
    if c.postCnt ≤ 1 then
      { n with rdEn := true, rdAddr := c.bkn1Base, symIdx := 0, state := .readBkn1Pre }
    else { n with postCnt := c.postCnt - 1 }
  else n

/-- The FSM in `S_READ_BKN1_PRE` and `S_READ_BKN2_PRE`. -/
def stepPre (base : BitVec 10) (next : NubState) (n : NubCapture) : NubCapture :=
  { n with rdEn := true, rdAddr := base + 4, state := next }

/-- The FSM in `S_READ_BKN1_REF` and `S_READ_BKN2_REF`. -/
def stepRef (base : BitVec 10) (next : NubState) (n : NubCapture) : NubCapture :=
  { n with prev := c.rd, rdEn := true, rdAddr := base + 2 * 4, symIdx := 0, state := next }

/-- What `S_READ_BKN1_RUN` and `S_READ_BKN2_RUN` do until their last cycle. -/
def stepRun (base : BitVec 10) (n : NubCapture) : NubCapture :=
  { n with
    prev := if c.symIdx < 108 then c.rd else c.prev
    rdEn := decide (c.symIdx < 106)
    rdAddr := if c.symIdx < 106 then base + (c.symIdx + 3).setWidth 10 * 4 else c.rdAddr
    symIdx := c.symIdx + 1 }

/-- The FSM in `S_READ_BKN1_RUN`. -/
def stepBkn1 (n : NubCapture) : NubCapture :=
  let n := { n with bkn1Softs := if 2 ≤ c.symIdx then c.shiftSofts c.bkn1Softs else c.bkn1Softs }
  if c.symIdx = 109 then
    { n with
      prev := if c.symIdx < 108 then c.rd else c.prev
      rdEn := true
      rdAddr := c.bkn2Base
      symIdx := 0
      state := .readBkn2Pre }
  else c.stepRun c.bkn1Base n

/-- The FSM in `S_READ_BKN2_RUN`. -/
def stepBkn2 (n : NubCapture) : NubCapture :=
  let n := { n with bkn2Softs := if 2 ≤ c.symIdx then c.shiftSofts c.bkn2Softs else c.bkn2Softs }
  if c.symIdx = 109 then
    { n with prev := if c.symIdx < 108 then c.rd else c.prev, state := .done }
  else c.stepRun c.bkn2Base n

/-- The FSM in `S_DONE`. -/
def stepDone (n : NubCapture) : NubCapture :=
  { n with codedValid := true, burstsCaptured := c.burstsCaptured + 1, state := .idle }

/-- The blocks of the ring, of the read port and of the multiplier. -/
def stepRing : NubCapture :=
  { c with
    ring := c.ring.step i.sample
    rd := if c.rdEn then c.ring.ring.cell c.rdAddr else c.rd
    products := c.products.step c.rd c.prev
    rdEn := false
    codedValid := false }

/-- One clock edge. -/
def step : NubCapture :=
  let n := c.stepRing i
  match c.state with
  | .idle => c.stepIdle i n
  | .waitPost => c.stepWait i n
  | .readBkn1Pre => stepPre c.bkn1Base .readBkn1Ref n
  | .readBkn1Ref => c.stepRef c.bkn1Base .readBkn1Run n
  | .readBkn1Run => c.stepBkn1 n
  | .readBkn2Pre => stepPre c.bkn2Base .readBkn2Ref n
  | .readBkn2Ref => c.stepRef c.bkn2Base .readBkn2Run n
  | .readBkn2Run => c.stepBkn2 n
  | .done => c.stepDone n

variable {c i}

/-- No state touches the ring. -/
theorem ring_step : (c.step i).ring = c.ring.step i.sample := by
  unfold step stepIdle stepWait stepBkn1 stepBkn2
  cases c.state <;> dsimp only <;> repeat' split
  all_goals rfl

/-- The anchor is taken at a sync in the idle state. -/
theorem anchorIdx_step : (c.step i).anchorIdx =
    if c.state == .idle && i.syncFound then c.ring.anchorCalc i.bestPhase else c.anchorIdx := by
  unfold step stepIdle stepWait stepBkn1 stepBkn2
  cases hs : c.state <;> cases hf : i.syncFound <;> dsimp only <;> repeat' split
  all_goals first | rfl | contradiction

/-- So are the places of the blocks. -/
theorem bases_step (h : (c.state == .idle && i.syncFound) = false) :
    (c.step i).bkn1Base = c.bkn1Base ∧ (c.step i).bkn2Base = c.bkn2Base := by
  unfold step stepIdle stepWait stepBkn1 stepBkn2
  cases hs : c.state <;> cases hf : i.syncFound <;> dsimp only <;> repeat' split
  all_goals first | exact ⟨rfl, rfl⟩ | (rw [hs, hf] at h; contradiction)

end NubCapture

end TetraPhy.Rx
