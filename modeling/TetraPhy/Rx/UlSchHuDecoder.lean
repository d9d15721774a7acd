import TetraPhy.Rx.UlSchFDecoder

/-!
# The SCH/HU decoder of the uplink

`tetra_ul_sch_hu_decoder.v`, with the scrambler, `tetra_ul_viterbi_r14.v` and `tetra_crc16.v` as
parts of it that all step in every cycle (`clock`), and the FSM.  It does what the SCH/F decoder
does, with the buffers in flops:

| State          | What is done                                               |
|----------------|------------------------------------------------------------|
| `collect`      | two values go into the first buffer when they come         |
| `descramble`   | a value a cycle is descrambled in place                    |
| `deinterleave` | a value a cycle is moved to where the code has it          |
| `feed`         | four cycles a stage, one for each symbol                   |
| `drain`        | the decoded bits are collected                             |
| `feedCrc`      | they go through the CRC                                    |
| `done`         | back                                                       |

The values may come with any number of cycles between them.  Counters are numbers; none of them
gets near its width.
-/

namespace TetraPhy.Rx

open Codec

attribute [local instance] neZeroViterbi neZeroSymbols

/-- `S_IDLE` .. `S_DONE`. -/
inductive UlSchHuState
  | idle | collect | descramble | deinterleave | feed | drain | feedCrc | done
  deriving DecidableEq

/-- `tetra_ul_sch_hu_decoder`. -/
structure UlSchHuDecoder where
  state : UlSchHuState := .idle
  collectCnt : ℕ := 0
  stepCnt : ℕ := 0
  deintAddr : ℕ := 0
  vitStage : ℕ := 0
  vitG : Fin 4 := 0
  vitKeptIdx : ℕ := 0
  bufSoft : ℕ → BitVec 8 := fun _ ↦ 0
  bufDeint : ℕ → BitVec 8 := fun _ ↦ 0
  scr : UlScrambler := {}
  vit : UlViterbiR14 := {}
  vitSoft : Fin 4 → BitVec 5 := fun _ ↦ 0
  vitInputValid : Bool := false
  vitOutBuf : ℕ → Bool := fun _ ↦ false
  vitOutCnt : ℕ := 0
  crc : TetraCrc16 := {}
  crcPort : CrcPort := {}
  crcFedCnt : ℕ := 0
  infoBits : Fin 92 → Bool := fun _ ↦ false
  infoValid : Bool := false
  crcOk : Bool := false
  decodesAttempted : BitVec 16 := 0
  decodesOk : BitVec 16 := 0

namespace UlSchHuDecoder

variable (d : UlSchHuDecoder) (i : SoftDibit)

/-- `vit_is_kept_w`. -/
def vitIsKept : Bool := isKept (d.vitStage % 2 == 1) d.vitG

/-- `vit_soft_active_w`. -/
def vitSoftActive : BitVec 5 :=
  if d.vitIsKept then toVitSoft (d.bufDeint d.vitKeptIdx) else vitCenter

/-- What every cycle does: the parts step, and the pulses go low. -/
def clock : UlSchHuDecoder :=
  { d with
    scr := d.scr.step 168
    vit := d.vit.step 112 ⟨d.vitSoft, d.vitInputValid, 112⟩
    vitInputValid := false
    crc := d.crc.step d.crcPort
    crcPort := { d.crcPort with init := false, dataValid := false, doneIn := false }
    infoValid := false }

/-- `S_IDLE`. -/
def stepIdle : UlSchHuDecoder :=
  if i.softValid then
    { d.clock with
      scr :=
        { (d.scr.step 168) with
          lfsr := ulSeed i.scrambInit
          cnt := 0
          running := true }
      decodesAttempted := d.decodesAttempted + 1
      bufSoft := store 168 (store 168 d.bufSoft 0 i.softBit1) 1 i.softBit0
      collectCnt := 2
      state := .collect }
  else d.clock

/-- `S_COLLECT`. -/
def stepCollect : UlSchHuDecoder :=
  if i.softValid then
    { d.clock with
      bufSoft :=
        store 168 (store 168 d.bufSoft d.collectCnt i.softBit1) (d.collectCnt + 1) i.softBit0
      state := if 168 ≤ d.collectCnt + 2 then .descramble else .collect
      stepCnt := if 168 ≤ d.collectCnt + 2 then 0 else d.stepCnt
      collectCnt := if 168 ≤ d.collectCnt + 2 then 0 else d.collectCnt + 2 }
  else d.clock

/-- `S_DESCRAMBLE`: a value waits for its scrambling bit. -/
def stepDescramble : UlSchHuDecoder :=
  if d.stepCnt < d.scr.cnt then
    { d.clock with
      bufSoft :=
        if d.scr.seq d.stepCnt then store 168 d.bufSoft d.stepCnt (-d.bufSoft d.stepCnt)
        else d.bufSoft
      state := if 168 ≤ d.stepCnt + 1 then .deinterleave else .descramble
      stepCnt := if 168 ≤ d.stepCnt + 1 then 0 else d.stepCnt + 1
      deintAddr := if 168 ≤ d.stepCnt + 1 then 13 else d.deintAddr }
  else d.clock

/-- `S_DEINTERLEAVE`. -/
def stepDeinterleave : UlSchHuDecoder :=
  let d' : UlSchHuDecoder :=
    { d.clock with bufDeint := store 168 d.bufDeint d.stepCnt (d.bufSoft d.deintAddr) }
  if 168 ≤ d.stepCnt + 1 then
    { d' with
      state := .feed
      stepCnt := 0
      vitStage := 0
      vitG := 0
      vitKeptIdx := 0 }
  else
    { d' with
      stepCnt := d.stepCnt + 1
      deintAddr :=
        if 168 ≤ d.deintAddr + 13 then d.deintAddr + 13 - 168 else d.deintAddr + 13 }

/-- `S_FEED_VIT`. -/
def stepFeed : UlSchHuDecoder :=
  { d.clock with
    vitSoft := Function.update d.vitSoft d.vitG d.vitSoftActive
    vitKeptIdx := if d.vitIsKept then d.vitKeptIdx + 1 else d.vitKeptIdx
    vitInputValid := d.vitG == 3
    vitG := d.vitG + 1
    state := if d.vitG = 3 ∧ 112 ≤ d.vitStage + 1 then .drain else .feed
    vitOutCnt := if d.vitG = 3 ∧ 112 ≤ d.vitStage + 1 then 0 else d.vitOutCnt
    vitStage := if d.vitG = 3 ∧ d.vitStage + 1 < 112 then d.vitStage + 1 else d.vitStage }

/-- `S_DRAIN_VIT`. -/
def stepDrain : UlSchHuDecoder :=
  let d' : UlSchHuDecoder :=
    if d.vit.decodedValid = true ∧ d.vitOutCnt < 108 then
      { d.clock with
        vitOutBuf := store 108 d.vitOutBuf d.vitOutCnt d.vit.decodedBit
        vitOutCnt := d.vitOutCnt + 1 }
    else d.clock
  if d.vit.blockDone = true ∨ 108 ≤ d.vitOutCnt ∧ d.vit.decodedValid = false then
    { d' with
      state := .feedCrc
      crcPort := { d'.crcPort with init := true }
      crcFedCnt := 0 }
  else d'

/-- `S_FEED_CRC`. -/
def stepFeedCrc : UlSchHuDecoder :=
  if d.crcFedCnt < 108 then
    { d.clock with
      crcPort :=
        { init := false
          doneIn := d.crcFedCnt == 107
          dataIn := d.vitOutBuf d.crcFedCnt
          dataValid := true }
      crcFedCnt := d.crcFedCnt + 1 }
  else if d.crc.crcValid then
    { d.clock with
      crcOk := d.crc.crcOk
      infoBits := fun j ↦ d.vitOutBuf j
      infoValid := true
      decodesOk := if d.crc.crcOk then d.decodesOk + 1 else d.decodesOk
      state := .done }
  else d.clock

/-- `S_DONE`. -/
def stepDone : UlSchHuDecoder :=
  { d.clock with
    scr := { (d.scr.step 168) with running := false }
    state := .idle }

/-- A clock edge. -/
def step : UlSchHuDecoder :=
  match d.state with
  | .idle => d.stepIdle i
  | .collect => d.stepCollect i
  | .descramble => d.stepDescramble
  | .deinterleave => d.stepDeinterleave
  | .feed => d.stepFeed
  | .drain => d.stepDrain
  | .feedCrc => d.stepFeedCrc
  | .done => d.stepDone

/-- The output port: the word and the verdict. -/
def result : Option (List Bool × Bool) :=
  if d.infoValid then some (List.ofFn d.infoBits, d.crcOk) else none

end UlSchHuDecoder

end TetraPhy.Rx
