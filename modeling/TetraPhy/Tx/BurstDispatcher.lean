import TetraPhy.Tx.SlotContentMux

/-!
# The burst dispatcher

`tetra_burst_dispatcher.v`: on each slot pulse the content of the timeslot that begins is
selected, in this order, and captured for the burst builder:

1. the voice filler, if the timeslot is marked for voice or for an SDS, its bank is valid and
   the frame is not frame 18;
2. the scheduler's blocks, if a signalling PDU is there or the schedule entry says signalling;
3. the static content of the schedule entry.

The four branches of the `case` on the timeslot are one selection with the timeslot as an
argument; `vfill_blk1_per_ts_sys` and `vfill_blk2_per_ts_sys` are given by their slices.
-/

namespace TetraPhy.Tx

/-- The software's payload banks. -/
structure SwBanks where
  ndbBlock1 : BitVec 216 := 0
  ndbBlock2 : BitVec 216 := 0
  mcchBlock1 : BitVec 216 := 0
  mcchBlock2 : BitVec 216 := 0
  bnchBlock1 : BitVec 216 := 0
  bnchBlock2 : BitVec 216 := 0
  sbBkn2 : BitVec 216 := 0

/-- The voice filler: which timeslots use it, and its banks. -/
structure FillerIn where
  voiceActiveMask : BitVec 4 := 0
  sdsFillActive : BitVec 4 := 0
  valid : BitVec 4 := 0
  blk1 : BitVec 2 → BitVec 216 := fun _ ↦ 0
  blk2 : BitVec 2 → BitVec 216 := fun _ ↦ 0

/-- What the scheduler presents for a timeslot. -/
structure SchedBundle where
  blk1 : BitVec 216
  blk2 : BitVec 216
  ndb2 : Bool
  active : Bool

/-- The inputs of one cycle. -/
structure DispIn where
  slotPulse : Bool
  slotNum : BitVec 2
  fn : BitVec 5
  sched : BitVec 2 → SchedBundle
  entry : BitVec 2 → BitVec 16
  banks : SwBanks
  filler : FillerIn
  bb : BitVec 30
  sb1 : BitVec 120

/-- What is selected for a timeslot. -/
structure Selection where
  blk1 : BitVec 216
  blk2 : BitVec 216
  burstType : Bool
  ndb2 : Bool
  enable : Bool

/-- The registers, which are the outputs to the burst builder. -/
structure BurstDispatcher where
  buildBlock1 : BitVec 216 := 0
  buildBlock2 : BitVec 216 := 0
  buildBb : BitVec 30 := 0
  buildSb1 : BitVec 120 := 0
  buildBurstType : Bool := false
  buildNdb2 : Bool := false
  buildReq : Bool := false

/-- `static_blk1_for`. -/
def SwBanks.staticBlk1 (b : SwBanks) (idx : BitVec 6) : BitVec 216 :=
  if idx = 0 then b.ndbBlock1
  else if idx = 1 then b.mcchBlock1
  else if idx = 2 then b.bnchBlock1
  else if idx = 3 then 0
  else if idx = 4 then b.ndbBlock1
  else if idx = 7 then 0
  else b.ndbBlock1

/-- `static_blk2_for`. -/
def SwBanks.staticBlk2 (b : SwBanks) (idx : BitVec 6) : BitVec 216 :=
  if idx = 0 then b.ndbBlock2
  else if idx = 1 then b.mcchBlock2
  else if idx = 2 then b.bnchBlock2
  else if idx = 3 then b.sbBkn2
  else if idx = 4 then b.bnchBlock2
  else if idx = 7 then 0
  else b.ndbBlock2

/-- The filler takes timeslot `k`. -/
def FillerIn.overrides (f : FillerIn) (fn : BitVec 5) (k : BitVec 2) : Bool :=
  (f.voiceActiveMask.getLsbD k.toNat || f.sdsFillActive.getLsbD k.toNat) &&
    f.valid.getLsbD k.toNat && fn ≤ 16

namespace DispIn

variable (i : DispIn)

/-- The selection for timeslot `k`. -/
def select (k : BitVec 2) : Selection :=
  let burstType := entryIsSdb (i.entry k)
  let enable := entryIsEnable (i.entry k)
  if i.filler.overrides i.fn k then
    ⟨i.filler.blk1 k, i.filler.blk2 k, false, false, true⟩
  else if (i.sched k).active || entryIsSignal (i.entry k) then
    ⟨(i.sched k).blk1, (i.sched k).blk2, burstType, (i.sched k).ndb2, enable⟩
  else
    ⟨i.banks.staticBlk1 (entryIdx (i.entry k)), i.banks.staticBlk2 (entryIdx (i.entry k)),
      burstType, entryIsNdb2 (i.entry k), enable⟩

end DispIn

/-- One clock edge. -/
def BurstDispatcher.step (d : BurstDispatcher) (i : DispIn) : BurstDispatcher :=
  let sel := i.select i.slotNum
  if i.slotPulse then
    { buildBlock1 := if sel.enable then sel.blk1 else 0
      buildBlock2 := if sel.enable then sel.blk2 else 0
      buildSb1 := if sel.enable then i.sb1 else 0
      buildBb := i.bb
      buildBurstType := sel.burstType
      buildNdb2 := sel.ndb2
      buildReq := true }
  else { d with buildReq := false }

end TetraPhy.Tx
