import TetraPhy.Rx.UlSoft
import TetraPhy.Rx.UlViterbiBlocks

/-!
# The SCH/F decoder of the uplink

`tetra_ul_sch_f_decoder.v`, with the scrambler, the two buffers, `tetra_ul_viterbi_r14_bram.v` and
`tetra_crc16.v` as parts of it that all step in every cycle (`clock`), and the FSM, which adds to
that what its state says.

| State     | What is done                                                             |
|-----------|--------------------------------------------------------------------------|
| `collect` | two values a cycle go into the first buffer                              |
| `waitScr` | the scrambler comes to its end                                           |
| `deint`   | each value is read, descrambled, and written where the code has it       |
| `feed`    | eight cycles a stage: each symbol is read in one and passed on in another |
| `drain`   | the decoded bits are collected                                           |
| `feedCrc` | they go through the CRC                                                  |
| `done`    | back                                                                     |

A write to a buffer is registered: it is in the memory a cycle after its port shows it.  A read is
registered too.  Counters are numbers; none of them gets near its width.
-/

namespace TetraPhy.Rx

open Codec

attribute [local instance] neZeroViterbi neZeroSymbols

/-! ## The parts -/

/-- The registered write port of a buffer. -/
structure WritePort (α : Type) where
  we : Bool
  waddr : ℕ
  wdata : α

/-- A buffer with a registered read. -/
structure Bram (α : Type) where
  mem : ℕ → α
  rq : α

/-- What a write leaves in the memory. -/
def WritePort.settle {α : Type} (p : WritePort α) (size : ℕ) (mem : ℕ → α) : ℕ → α :=
  if p.we then store size mem p.waddr p.wdata else mem

/-- A cycle of a buffer. -/
def Bram.step {α : Type} (b : Bram α) (size : ℕ) (p : WritePort α) (raddr : ℕ) : Bram α where
  mem := p.settle size b.mem
  rq := b.mem raddr

/-- The scrambler. -/
structure UlScrambler where
  lfsr : BitVec 32 := BitVec.allOnes 32
  cnt : ℕ := 0
  running : Bool := false
  seq : ℕ → Bool := fun _ ↦ false

/-- A cycle of the scrambler, `n` bits long. -/
def UlScrambler.step (s : UlScrambler) (n : ℕ) : UlScrambler :=
  if s.running = true ∧ s.cnt < n then
    { s with
      lfsr := Lmac.lfsrNext s.lfsr
      cnt := s.cnt + 1
      seq := store n s.seq s.cnt (Lmac.lfsrFb s.lfsr) }
  else s

/-- `tetra_crc16`. -/
structure TetraCrc16 where
  crcOut : BitVec 16 := 0xFFFF
  crcValid : Bool := false
  crcOk : Bool := false

/-- The inputs of `tetra_crc16`, registered by its users. -/
structure CrcPort where
  init : Bool := false
  doneIn : Bool := false
  dataIn : Bool := false
  dataValid : Bool := false

/-- A cycle of `tetra_crc16`. -/
def TetraCrc16.step (c : TetraCrc16) (p : CrcPort) : TetraCrc16 where
  crcOut :=
    if p.init then 0xFFFF
    else if p.dataValid then Lmac.crcNext c.crcOut p.dataIn else c.crcOut
  crcValid := p.doneIn
  crcOk :=
    if p.doneIn then
      (if p.dataValid then Lmac.crcNext c.crcOut p.dataIn else c.crcOut) == crcResidue
    else false

/-! ## The decoder -/

/-- `S_IDLE` .. `S_DONE`. -/
inductive UlSchFState
  | idle | collect | waitScr | deint | feed | drain | feedCrc | done
  deriving DecidableEq

/-- The inputs of a cycle; `soft_first` and `soft_last` are not used. -/
structure SoftDibit where
  softBit0 : BitVec 8
  softBit1 : BitVec 8
  softValid : Bool
  scrambInit : BitVec 32

/-- `tetra_ul_sch_f_decoder`. -/
structure UlSchFDecoder where
  state : UlSchFState := .idle
  collectWord : ℕ := 0
  deintAddr : ℕ := 0
  deintI : ℕ := 0
  deintWr : ℕ := 0
  vitStage : ℕ := 0
  vitG : Fin 4 := 0
  vitKeptIdx : ℕ := 0
  feedPhase : Bool := false
  diV : Bool := false
  diI : ℕ := 0
  diAddrLsb : Bool := false
  diScr : Bool := false
  bsoft : Bram (BitVec 16) := ⟨fun _ ↦ 0, 0⟩
  bsoftPort : WritePort (BitVec 16) := ⟨false, 0, 0⟩
  bdeint : Bram (BitVec 8) := ⟨fun _ ↦ 0, 0⟩
  bdeintPort : WritePort (BitVec 8) := ⟨false, 0, 0⟩
  scr : UlScrambler := {}
  vit : UlViterbiR14Bram := {}
  vitSoft : Fin 4 → BitVec 5 := fun _ ↦ 0
  vitInputValid : Bool := false
  vitOutBuf : ℕ → Bool := fun _ ↦ false
  vitOutCnt : ℕ := 0
  crc : TetraCrc16 := {}
  crcPort : CrcPort := {}
  crcFedCnt : ℕ := 0
  infoBits : Fin 268 → Bool := fun _ ↦ false
  infoValid : Bool := false
  crcOk : Bool := false
  decodesAttempted : BitVec 16 := 0
  decodesOk : BitVec 16 := 0

namespace UlSchFDecoder

variable (d : UlSchFDecoder) (i : SoftDibit)

/-- `vit_is_kept_w`. -/
def vitIsKept : Bool := isKept (d.vitStage % 2 == 1) d.vitG

/-- `vit_soft_active_w`. -/
def vitSoftActive : BitVec 5 := if d.vitIsKept then toVitSoft d.bdeint.rq else vitCenter

/-- `di_byte_w`. -/
def diByte : BitVec 8 :=
  if d.diAddrLsb then d.bsoft.rq.extractLsb' 8 8 else d.bsoft.rq.extractLsb' 0 8

/-- `di_soft_w`. -/
def diSoft : BitVec 8 := if d.diScr then -d.diByte else d.diByte

/-- What every cycle does: the parts step, and the pulses go low. -/
def clock : UlSchFDecoder :=
  { d with
    bsoft := d.bsoft.step 216 d.bsoftPort (d.deintAddr / 2 % 256)
    bsoftPort := { d.bsoftPort with we := false }
    bdeint := d.bdeint.step 432 d.bdeintPort d.vitKeptIdx
    bdeintPort := { d.bdeintPort with we := false }
    scr := d.scr.step 432
    vit := d.vit.step 288 ⟨d.vitSoft, d.vitInputValid, 288⟩
    vitInputValid := false
    crc := d.crc.step d.crcPort
    crcPort := { d.crcPort with init := false, dataValid := false, doneIn := false }
    infoValid := false }

/-- `S_IDLE`. -/
def stepIdle : UlSchFDecoder :=
  if i.softValid then
    { d.clock with
      scr :=
        { (d.scr.step 432) with
          lfsr := ulSeed i.scrambInit
          cnt := 0
          running := true }
      decodesAttempted := d.decodesAttempted + 1
      bsoftPort := ⟨true, 0, i.softBit0 ++ i.softBit1⟩
      collectWord := 1
      state := .collect }
  else d.clock

/-- `S_COLLECT`. -/
def stepCollect : UlSchFDecoder :=
  if i.softValid then
    { d.clock with
      bsoftPort := ⟨true, d.collectWord, i.softBit0 ++ i.softBit1⟩
      state := if 216 ≤ d.collectWord + 1 then .waitScr else .collect
      collectWord := if 216 ≤ d.collectWord + 1 then d.collectWord else d.collectWord + 1 }
  else d.clock

/-- `S_WAIT_SCR`. -/
def stepWaitScr : UlSchFDecoder :=
  if 432 ≤ d.scr.cnt then
    { d.clock with
      deintAddr := 103
      deintI := 0
      deintWr := 0
      diV := false
      state := .deint }
  else d.clock

/-- `S_DEINT`: what was read is written back, and the next value is read. -/
def stepDeint : UlSchFDecoder :=
  let d' : UlSchFDecoder :=
    { d.clock with
      bdeintPort := if d.diV then ⟨true, d.diI, d.diSoft⟩ else { d.bdeintPort with we := false }
      deintWr := if d.diV then d.deintWr + 1 else d.deintWr
      diV := decide (d.deintI < 432) }
  let d'' : UlSchFDecoder :=
    if d.deintI < 432 then
      { d' with
        diI := d.deintI
        diAddrLsb := d.deintAddr % 2 == 1
        diScr := d.scr.seq d.deintAddr
        deintI := d.deintI + 1
        deintAddr :=
          if 432 ≤ d.deintAddr + 103 then d.deintAddr + 103 - 432 else d.deintAddr + 103 }
    else d'
  if 432 ≤ d.deintWr + (if d.diV then 1 else 0) then
    { d'' with
      state := .feed
      vitStage := 0
      vitG := 0
      vitKeptIdx := 0
      feedPhase := false }
  else d''

/-- `S_FEED`. -/
def stepFeed : UlSchFDecoder :=
  if d.feedPhase then
    { d.clock with
      vitSoft := Function.update d.vitSoft d.vitG d.vitSoftActive
      vitKeptIdx := if d.vitIsKept then d.vitKeptIdx + 1 else d.vitKeptIdx
      feedPhase := false
      vitInputValid := d.vitG == 3
      vitG := d.vitG + 1
      state := if d.vitG = 3 ∧ 288 ≤ d.vitStage + 1 then .drain else .feed
      vitOutCnt := if d.vitG = 3 ∧ 288 ≤ d.vitStage + 1 then 0 else d.vitOutCnt
      vitStage := if d.vitG = 3 ∧ d.vitStage + 1 < 288 then d.vitStage + 1 else d.vitStage }
  else { d.clock with feedPhase := true }

/-- `S_DRAIN`. -/
def stepDrain : UlSchFDecoder :=
  let d' : UlSchFDecoder :=
    if d.vit.decodedValid = true ∧ d.vitOutCnt < 284 then
      { d.clock with
        vitOutBuf := store 284 d.vitOutBuf d.vitOutCnt d.vit.decodedBit
        vitOutCnt := d.vitOutCnt + 1 }
    else d.clock
  if d.vit.blockDone = true ∨ 284 ≤ d.vitOutCnt ∧ d.vit.decodedValid = false then
    { d' with
      state := .feedCrc
      crcPort := { d'.crcPort with init := true }
      crcFedCnt := 0 }
  else d'

/-- `S_FEED_CRC`. -/
def stepFeedCrc : UlSchFDecoder :=
  if d.crcFedCnt < 284 then
    { d.clock with
      crcPort :=
        { init := false
          doneIn := d.crcFedCnt == 283
          dataIn := d.vitOutBuf d.crcFedCnt
          dataValid := true }
      crcFedCnt := d.crcFedCnt + 1 }
  else if d.crc.crcValid then
    { d.clock with
      crcOk := d.crc.crcOk
      infoBits := fun j ↦ d.vitOutBuf j
      infoValid := true
      decodesOk := if d.crc.crcOk then d.decodesOk + 1 else d.decodesOk
      state := .done }
  else d.clock

/-- `S_DONE`. -/
def stepDone : UlSchFDecoder :=
  { d.clock with
    scr := { (d.scr.step 432) with running := false }
    state := .idle }

/-- A clock edge. -/
def step : UlSchFDecoder :=
  match d.state with
  | .idle => d.stepIdle i
  | .collect => d.stepCollect i
  | .waitScr => d.stepWaitScr
  | .deint => d.stepDeint
  | .feed => d.stepFeed
  | .drain => d.stepDrain
  | .feedCrc => d.stepFeedCrc
  | .done => d.stepDone

/-- The output port: the word and the verdict. -/
def result : Option (List Bool × Bool) :=
  if d.infoValid then some (List.ofFn d.infoBits, d.crcOk) else none

end UlSchFDecoder

end TetraPhy.Rx
