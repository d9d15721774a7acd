import Mathlib.Data.BitVec

/-!
# The schedule prefetch

`tetra_slot_content_mux.v`, with the read register of the schedule memory behind it
(`tetra_slot_schedule.v`, port B): during the last timeslot of a frame the four schedule
entries of the next frame are read into registers.

| entry bits | |
|---|---|
| 15 .. 12 | class, 1 for signalling |
| 11 .. 6 | index of the static content |
| 5 .. 4 | burst type, 1 for SDB |
| 3 | NDB2 |
| 2 | enable |
-/

namespace TetraPhy.Tx

/-- The states of the refresh FSM. -/
inductive MuxState
  | idle | rd0 | rd1 | rd2 | rd3 | cap3
deriving DecidableEq, Repr

/-- The timebase of one cycle, and the schedule memory. -/
structure MuxIn where
  tn : BitVec 2
  fn : BitVec 5
  mn : BitVec 6
  slotPulse : Bool
  schedule : BitVec 9 → BitVec 16

/-- The registers, the read register of the memory included. -/
structure SlotContentMux where
  state : MuxState := .idle
  refreshFn : BitVec 5 := 0
  refreshMnLow2 : BitVec 2 := 0
  firstRefreshPending : Bool := true
  entry : BitVec 2 → BitVec 16 := fun _ ↦ 0
  schedData : BitVec 16 := 0

/-! ## Schedule entries -/

/-- The fields of an entry (`bus_*` of the dispatcher). -/
def entryIsSignal (ent : BitVec 16) : Bool := ent.extractLsb' 12 4 == 1

def entryIdx (ent : BitVec 16) : BitVec 6 := ent.extractLsb' 6 6

def entryIsSdb (ent : BitVec 16) : Bool := ent.extractLsb' 4 2 == 1

def entryIsNdb2 (ent : BitVec 16) : Bool := ent.getLsbD 3

def entryIsEnable (ent : BitVec 16) : Bool := ent.getLsbD 2

namespace SlotContentMux

variable (s : SlotContentMux) (i : MuxIn)

def fnWrap : Bool := i.fn == 17

def fnNext : BitVec 5 := if fnWrap i then 0 else i.fn + 1

def mnNextLow2 : BitVec 2 :=
  if fnWrap i then i.mn.extractLsb' 0 2 + 1 else i.mn.extractLsb' 0 2

def refreshTrigger : Bool := i.slotPulse && (s.firstRefreshPending || i.tn == 3)

def nextState : MuxState :=
  match s.state with
  | .idle => if s.refreshTrigger i then .rd0 else .idle
  | .rd0 => .rd1
  | .rd1 => .rd2
  | .rd2 => .rd3
  | .rd3 => .cap3
  | .cap3 => .idle

/-- A refresh begins. -/
def starts : Bool := s.state == .idle && s.refreshTrigger i

/-- The frame whose entries are read: the current one right after reset, else the next. -/
def effFn : BitVec 5 :=
  if s.starts i then if s.firstRefreshPending then i.fn else fnNext i else s.refreshFn

def effMnLow2 : BitVec 2 :=
  if s.starts i then
    if s.firstRefreshPending then i.mn.extractLsb' 0 2 else mnNextLow2 i
  else s.refreshMnLow2

def tnForAddr : BitVec 9 :=
  match s.nextState i with
  | .rd1 => 1
  | .rd2 => 2
  | .rd3 => 3
  | _ => 0

/-- `sched_addr_sys`: 72 entries a multiframe, 4 a frame. -/
def schedAddr : BitVec 9 :=
  ((s.effMnLow2 i).setWidth 9 <<< 6) + ((s.effMnLow2 i).setWidth 9 <<< 3) +
    ((s.effFn i).setWidth 9 <<< 2) + s.tnForAddr i

/-- One clock edge. -/
def step : SlotContentMux where
  state := s.nextState i
  refreshFn := s.effFn i
  refreshMnLow2 := s.effMnLow2 i
  firstRefreshPending := if s.starts i then false else s.firstRefreshPending
  entry :=
    match s.state with
    | .rd0 => Function.update s.entry 0 s.schedData
    | .rd1 => Function.update s.entry 1 s.schedData
    | .rd2 => Function.update s.entry 2 s.schedData
    | .rd3 => Function.update s.entry 3 s.schedData
    | _ => s.entry
  schedData := i.schedule (s.schedAddr i)

end SlotContentMux

end TetraPhy.Tx
