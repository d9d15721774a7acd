import Mathlib.Data.Nat.Notation
import Mathlib.Logic.Function.Basic

/-!
# Long-SDS reassembly in logic

`tetra_ul_schf_reassembly.v`: one chain at a time, of a first fragment, MAC-FRAG blocks and a
MAC-END.  Its bits are shifted through an accumulator and stored word by word, and the software
reads words and status through an index.

| State     | Leaves it when                                                        |
|-----------|-----------------------------------------------------------------------|
| `S_IDLE`  | a first fragment comes                                                |
| `S_START` | its 62 bits are written                                               |
| `S_WAIT`  | a block comes, or another first fragment, or the time is up           |
| `S_WRITE` | the bits of the block are written, or the memory is full              |
| `S_FLUSH` | the last word, which is not full, is stored                           |
| `S_EMIT`  | the length and the terminal are latched, and the chain is counted     |

The memory has no reset.  The bits of a fragment are taken from the input ports while they are
written, one a cycle.
-/

namespace TetraPhy.Rx

/-- `state_sys`. -/
inductive LongState where
  | idle
  | start
  | wait
  | write
  | flush
  | emit
deriving DecidableEq, Repr

/-- The input ports. -/
structure LongPorts where
  t0Frames : BitVec 4 := 4#4
  frameTick : Bool := false
  frag1Pulse : Bool := false
  frag1Ssi : BitVec 24 := 0#24
  frag1Bits : BitVec 62 := 0#62
  frag1OptFlag : Bool := false
  schfValid : Bool := false
  schfCrcOk : Bool := false
  schfInfo : BitVec 268 := 0#268
  index : BitVec 9 := 0#9
  ackPulse : Bool := false

/-- The memory and its read port. -/
structure WordMem where
  wordMem : BitVec 8 → BitVec 32
  wordRdQ : BitVec 32
  rdIndexQ : BitVec 9

/-- The registers that a bit is written through. -/
structure BitWriter where
  wptr : BitVec 14 := 0#14
  bitAcc : BitVec 32 := 0#32
  bitCnt : BitVec 6 := 0#6
  wordWptr : BitVec 8 := 0#8

/-- What is latched of a chain that is complete. -/
structure DoneRegs where
  reassCnt : BitVec 16 := 0#16
  validR : Bool := false
  doneSsi : BitVec 24 := 0#24
  doneLen : BitVec 14 := 0#14
  doneOpt : Bool := false

/-- The registers and the memory of `tetra_ul_schf_reassembly`. -/
structure LongReassembly extends WordMem, BitWriter, DoneRegs where
  state : LongState := .idle
  curSsi : BitVec 24 := 0#24
  curOpt : Bool := false
  fragSrcIdx : BitVec 9 := 0#9
  fragSrcEnd : BitVec 9 := 0#9
  fragIsEnd : Bool := false
  f1Idx : BitVec 7 := 0#7
  t0Left : BitVec 4 := 0#4
  reassValidPulse : Bool := false
  dropCnt : BitVec 16 := 0#16

/-- `WPTR_MAX`. -/
def wptrMax : BitVec 14 := 8191#14

/-- `NWORDS`. -/
def nWords : BitVec 9 := 256#9

/-- `t0_init_w`. -/
def t0Init (t0Frames : BitVec 4) : BitVec 4 := if t0Frames == 0#4 then 4#4 else t0Frames

namespace LongReassembly

variable (r : LongReassembly) (p : LongPorts)

/-! ## Combinational signals -/

/-- `wr_en`. -/
def wrEn : Bool :=
  match r.state with
  | .start => true
  | .write => decide (r.fragSrcIdx < r.fragSrcEnd) && decide (r.wptr < wptrMax)
  | _ => false

/-- `wr_bit`. -/
def wrBit : Bool :=
  match r.state with
  | .start => p.frag1Bits.getLsbD (61 - r.f1Idx.toNat)
  | .write => r.wrEn && p.schfInfo.getLsbD r.fragSrcIdx.toNat
  | _ => false

/-- `acc_next_w`. -/
def accNext : BitVec 32 := r.bitAcc.shiftConcat (r.wrBit p)

/-- `word_we`. -/
def wordWe : Bool := r.wrEn && r.bitCnt == 31#6 || r.state == .flush

/-- `word_wdata`. -/
def wordWdata : BitVec 32 :=
  if r.wrEn && r.bitCnt == 31#6 then r.accNext p
  else if r.state == .flush then r.bitAcc <<< (32#6 - r.bitCnt)
  else r.accNext p

/-- A MAC-FRAG or a MAC-END that passed its check. -/
def isBlock (p : LongPorts) : Bool :=
  p.schfValid && p.schfCrcOk && p.schfInfo.getLsbD 0 == false && p.schfInfo.getLsbD 1 == true

/-- `rdata_sys`. -/
def rdata : BitVec 32 :=
  if r.rdIndexQ < nWords then r.wordRdQ
  else if r.rdIndexQ == nWords then 0#31 ++ BitVec.ofBool r.validR
  else if r.rdIndexQ == nWords + 1#9 then 0#8 ++ r.doneSsi
  else if r.rdIndexQ == nWords + 2#9 then 0#15 ++ BitVec.ofBool r.doneOpt ++ (0#2 ++ r.doneLen)
  else if r.rdIndexQ == nWords + 3#9 then 0#16 ++ r.reassCnt
  else 0#32

/-! ## Clocked blocks -/

/-- The block of the memory. -/
def memBlock : WordMem where
  wordMem := if r.wordWe then Function.update r.wordMem r.wordWptr (r.wordWdata p) else r.wordMem
  wordRdQ := r.wordMem (p.index.setWidth 8)
  rdIndexQ := p.index

/-- The write of a bit. -/
def writeBlock : BitWriter :=
  if r.wrEn then
    { wptr := r.wptr + 1#14
      bitAcc := r.accNext p
      bitCnt := if r.bitCnt == 31#6 then 0#6 else r.bitCnt + 1#6
      wordWptr := if r.bitCnt == 31#6 then r.wordWptr + 1#8 else r.wordWptr }
  else r.toBitWriter

/-- The block under `frame_tick_sys`. -/
def tickBlock (n : LongReassembly) : LongReassembly :=
  if p.frameTick && r.state == .wait && r.t0Left != 0#4 then { n with t0Left := r.t0Left - 1#4 }
  else n

/-- A chain is started. -/
def startChain (n : LongReassembly) : LongReassembly :=
  { n with
    toBitWriter := {}, curSsi := p.frag1Ssi, curOpt := p.frag1OptFlag, f1Idx := 0#7
    state := .start }

/-- A block is taken on. -/
def takeBlock (n : LongReassembly) : LongReassembly :=
  { n with
    fragIsEnd := p.schfInfo.getLsbD 2
    fragSrcIdx := if p.schfInfo.getLsbD 2 then 10#9 else 4#9
    fragSrcEnd := 268#9
    t0Left := t0Init p.t0Frames
    state := .write }

/-- `case (state_sys)`. -/
def fsmBlock (n : LongReassembly) : LongReassembly :=
  match r.state with
  | .idle => if p.frag1Pulse then startChain p n else n
  | .start =>
    if r.f1Idx == 61#7 then { n with state := .wait, t0Left := t0Init p.t0Frames }
    else { n with f1Idx := r.f1Idx + 1#7 }
  | .wait =>
    if p.frag1Pulse then startChain p n
    else if isBlock p then takeBlock p n
    else if r.t0Left == 0#4 && !p.frameTick then
      { n with dropCnt := r.dropCnt + 1#16, state := .idle }
    else n
  | .write =>
    let n := { n with fragSrcIdx := r.fragSrcIdx + 1#9 }
    if !(decide (r.fragSrcIdx < r.fragSrcEnd) && decide (r.wptr < wptrMax)) then
      if r.fragIsEnd then { n with state := if r.bitCnt != 0#6 then .flush else .emit }
      else { n with state := .wait }
    else n
  | .flush => { n with state := .emit }
  | .emit =>
    { n with
      reassValidPulse := true, validR := true, doneSsi := r.curSsi, doneLen := r.wptr
      doneOpt := r.curOpt, reassCnt := r.reassCnt + 1#16, state := .idle }

/-- What is assigned before the state machine. -/
def dataBlock : LongReassembly :=
  tickBlock r p
    { r with
      toWordMem := memBlock r p
      toBitWriter := writeBlock r p
      reassValidPulse := false
      validR := if p.ackPulse then false else r.validR }

/-- One edge of `clk_sys`. -/
def clock : LongReassembly := fsmBlock r p (dataBlock r p)

end LongReassembly

end TetraPhy.Rx
