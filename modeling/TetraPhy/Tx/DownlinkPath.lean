import TetraPhy.Lib.Run
import TetraPhy.Lmac.SignalQueue
import TetraPhy.Tx.BurstBuilder

/-!
# From the queue to the burst

The signalling queue, the scheduler that pops it, the schedule prefetch, the dispatcher that
selects the content of a timeslot, and the burst builder, wired as in `tetra_zynq_top.v`: one
timebase drives scheduler and dispatcher, so a pop and the selection for its timeslot fall
into one cycle, and the request to the builder into the next.

`Traced` keeps beside the path which PDU was popped for which burst.  `conserved_iff` says
which slot boundaries a popped PDU survives: the scheduler pops by the queue alone, the
dispatcher selects by filler and schedule as well.
-/

namespace TetraPhy.Tx

open Lmac Run

/-! ## The path -/

/-- The inputs of one cycle. -/
structure DlIn where
  wrMle : MleWrPort := {}
  wrCmce : WrPort := {}
  wrSds : WrPort := {}
  tn : BitVec 2 := 0
  fn : BitVec 5 := 0
  mn : BitVec 6 := 0
  slotPulse : Bool := false
  schedule : BitVec 9 → BitVec 16 := fun _ ↦ 0
  banks : SwBanks := {}
  filler : FillerIn := {}
  nullPduBits : BitVec 216 := 0
  bb : BitVec 30 := 0
  sb1 : BitVec 120 := 0
  symEn : Bool := false

/-- The registers. -/
structure DownlinkPath where
  queue : SignalQueue := {}
  scheduler : SignalScheduler := {}
  mux : SlotContentMux := {}
  dispatcher : BurstDispatcher := {}
  builder : BurstBuilder := {}

namespace DownlinkPath

variable (p : DownlinkPath) (i : DlIn)

/-- What the scheduler sees; the companion half of an SCH/HD slot is the second NDB bank. -/
def schedIn : SchedIn where
  tn := i.tn
  slotPulse := i.slotPulse
  headValid := p.queue.headValid
  head := p.queue.head
  nullPduBits := i.nullPduBits
  sigCompanion := i.banks.ndbBlock2

/-- The PDU popped in this cycle. -/
def popped : Option Entry := if (p.schedIn i).popTrigger then some p.queue.head else none

/-- What the dispatcher sees. -/
def dispIn : DispIn where
  slotPulse := i.slotPulse
  slotNum := i.tn
  fn := i.fn
  sched k := ⟨(p.schedIn i).blk1 k, (p.schedIn i).blk2 k, (p.schedIn i).ndb2 k,
    (p.schedIn i).active k⟩
  entry := p.mux.entry
  banks := i.banks
  filler := i.filler
  bb := i.bb
  sb1 := i.sb1

/-- One clock edge. -/
def step : DownlinkPath where
  queue := p.queue.step
    { wrMle := i.wrMle, wrCmce := i.wrCmce, wrSds := i.wrSds, pop := (p.schedIn i).popTrigger }
  scheduler := p.scheduler.step (p.schedIn i)
  mux := p.mux.step
    { tn := i.tn, fn := i.fn, mn := i.mn, slotPulse := i.slotPulse, schedule := i.schedule }
  dispatcher := p.dispatcher.step (p.dispIn i)
  builder := p.builder.step i.symEn p.dispatcher

end DownlinkPath

/-! ## What a burst owes to a PDU -/

/-- A burst carries a PDU: it is a normal burst with the training sequence of the PDU's
channel, with the PDU in block 1, and for SCH/F in block 2. -/
structure Carries (e : Entry) (burst : BitVec 510) : Prop where
  training : burstTraining burst = if e.pduType == 1 then nts2Ref else nts1Ref
  block1 : burstBlock1 burst = e.coded.extractLsb' 216 216
  block2 : e.pduType = 0 → burstBlock2 burst = e.coded.extractLsb' 0 216

/-- A slot is clear for a PDU: the filler does not take it, and its schedule entry is an enabled
normal burst.  What would be sent in its place may by chance be the same bits: a filler burst
in place of an SCH/F block, and no bits in place of zeros. -/
def SlotClear (e : Entry) (ent : BitVec 16) (f : FillerIn) (fn : BitVec 5) (k : BitVec 2) : Prop :=
  if f.overrides fn k then
    e.pduType ≠ 1 ∧ f.blk1 k = e.coded.extractLsb' 216 216 ∧
      (e.pduType = 0 → f.blk2 k = e.coded.extractLsb' 0 216)
  else
    entryIsSdb ent = false ∧
      (entryIsEnable ent = true ∨ e.coded.extractLsb' 216 216 = 0 ∧
        (e.pduType = 0 → e.coded.extractLsb' 0 216 = 0))

theorem carries_ndbBurst_iff {e : Entry} {block1 block2 : BitVec 216} {bb : BitVec 30}
    {ndb2 : Bool} : Carries e (ndbBurst block1 block2 bb ndb2) ↔
      ndb2 = (e.pduType == 1) ∧ block1 = e.coded.extractLsb' 216 216 ∧
        (e.pduType = 0 → block2 = e.coded.extractLsb' 0 216) := by
  obtain ⟨h1, ht, h2⟩ := fields_ndbBurst block1 block2 bb ndb2
  have hnts : ∀ a b : Bool, (if a then nts2Ref else nts1Ref) = (if b then nts2Ref else nts1Ref) →
      a = b := by decide
  constructor
  · intro h
    exact ⟨hnts _ _ (ht.symm.trans h.training), h1.symm.trans h.block1,
      fun hf ↦ h2.symm.trans (h.block2 hf)⟩
  · rintro ⟨rfl, rfl, hblock2⟩
    exact ⟨ht, h1, fun hf ↦ h2.trans (hblock2 hf)⟩

namespace DownlinkPath

variable {p : DownlinkPath} {i : DlIn} {e : Entry}

theorem popped_eq_some (h : p.popped i = some e) :
    (p.schedIn i).popTrigger = true ∧ p.queue.head = e := by
  rw [popped] at h
  split_ifs at h with htrigger
  exact ⟨htrigger, Option.some.inj h⟩

/-- After a pop the dispatcher requests a burst. -/
theorem buildReq_of_popped (h : p.popped i = some e) : (p.step i).dispatcher.buildReq = true := by
  have hpulse : i.slotPulse = true := SchedIn.slotPulse_of_popTrigger (popped_eq_some h).1
  change (p.dispatcher.step (p.dispIn i)).buildReq = true
  rw [BurstDispatcher.step, dispIn, hpulse]
  rfl

/-- **The captured burst carries the popped PDU exactly when the slot is clear for it.** -/
theorem carries_iff (h : p.popped i = some e) :
    Carries e (p.step i).dispatcher.burst ↔
      SlotClear e (p.mux.entry i.tn) i.filler i.fn i.tn := by
  obtain ⟨htrigger, rfl⟩ := popped_eq_some h
  have hpulse : i.slotPulse = true := SchedIn.slotPulse_of_popTrigger htrigger
  have hactive : (p.schedIn i).active i.tn = true := SchedIn.active_of_popTrigger htrigger
  obtain ⟨hblk1, hblk2, hndb2⟩ := SchedIn.fanOut_of_active hactive
  change Carries _ (p.dispatcher.step (p.dispIn i)).burst ↔ _
  by_cases hover : i.filler.overrides i.fn i.tn = true
  · have hburst : (p.dispatcher.step (p.dispIn i)).burst =
        ndbBurst (i.filler.blk1 i.tn) (i.filler.blk2 i.tn) i.bb false := by
      simp [BurstDispatcher.step, BurstDispatcher.burst, DispIn.select, dispIn, hpulse, hover]
    rw [hburst, carries_ndbBurst_iff, SlotClear, if_pos hover]
    refine and_congr_left fun _ ↦ ?_
    simp
  · have hsel : (p.dispIn i).select i.tn =
        ⟨(p.schedIn i).blk1 i.tn, (p.schedIn i).blk2 i.tn, entryIsSdb (p.mux.entry i.tn),
          (p.schedIn i).ndb2 i.tn, entryIsEnable (p.mux.entry i.tn)⟩ := by
      simp [DispIn.select, dispIn, hover, hactive]
    have hburst : (p.dispatcher.step (p.dispIn i)).burst =
        if entryIsSdb (p.mux.entry i.tn) then
          sdbBurst (if entryIsEnable (p.mux.entry i.tn) then i.sb1 else 0)
            (if entryIsEnable (p.mux.entry i.tn) then (p.schedIn i).blk2 i.tn else 0) i.bb
        else
          ndbBurst (if entryIsEnable (p.mux.entry i.tn) then (p.schedIn i).blk1 i.tn else 0)
            (if entryIsEnable (p.mux.entry i.tn) then (p.schedIn i).blk2 i.tn else 0) i.bb
            ((p.schedIn i).ndb2 i.tn) := by
      have hnum : (p.dispIn i).slotNum = i.tn := rfl
      have hp : (p.dispIn i).slotPulse = true := hpulse
      rw [BurstDispatcher.step, hnum, hsel, hp]
      rfl
    rw [hburst, SlotClear, if_neg hover]
    cases hsdb : entryIsSdb (p.mux.entry i.tn) with
    | true =>
        refine iff_of_false (fun hc ↦ ?_) (fun hc ↦ absurd hc.1 (by decide))
        exact training_sdbBurst_ne _ _ _ _ hc.training
    | false =>
        rw [if_neg Bool.false_ne_true, carries_ndbBurst_iff, hndb2]
        cases hen : entryIsEnable (p.mux.entry i.tn) with
        | true => exact iff_of_true ⟨rfl, hblk1, hblk2⟩ ⟨rfl, .inl rfl⟩
        | false =>
            rw [if_neg Bool.false_ne_true, if_neg Bool.false_ne_true]
            constructor
            · rintro ⟨-, h1, h2⟩
              exact ⟨rfl, .inr ⟨h1.symm, fun hf ↦ (h2 hf).symm⟩⟩
            · rintro ⟨-, hen' | ⟨h1, h2⟩⟩
              · exact absurd hen' Bool.false_ne_true
              · exact ⟨rfl, h1.symm, fun hf ↦ (h2 hf).symm⟩

end DownlinkPath

/-! ## Runs -/

/-- The path, the PDU whose timeslot has just begun, and which PDU was popped for which burst
the builder took. -/
structure Traced where
  path : DownlinkPath := {}
  inSlot : Option Entry := none
  sent : List (Entry × BitVec 510) := []

namespace Traced

/-- A cycle.  The burst requested for the timeslot of `inSlot` is taken in it. -/
def step (t : Traced) (i : DlIn) : Traced where
  path := t.path.step i
  inSlot := t.path.popped i
  sent := t.sent ++
    (t.inSlot.map fun e ↦ (e, t.path.builder.taken i.symEn t.path.dispatcher)).toList

def init : Traced := {}

/-- What holds of every reachable state. -/
structure Inv (t : Traced) : Prop where
  settled : t.path.builder.Settled
  request : ∀ e, t.inSlot = some e → t.path.dispatcher.buildReq = true

theorem inv_init : Inv init := ⟨fun _ ↦ rfl, fun _ h ↦ absurd h (by simp [init])⟩

theorem inv_step (t : Traced) (i : DlIn) (h : Inv t) : Inv (t.step i) :=
  ⟨t.path.builder.settled_step i.symEn t.path.dispatcher h.settled,
    fun _ he ↦ DownlinkPath.buildReq_of_popped he⟩

/-- Every popped PDU is carried by the burst of its timeslot: the burst the builder took, or,
in the cycle after the pop, the one it is asked for. -/
structure Conserved (t : Traced) : Prop where
  sent : ∀ s ∈ t.sent, Carries s.1 s.2
  inSlot : ∀ e, t.inSlot = some e → Carries e t.path.dispatcher.burst

/-- In this cycle no PDU is popped for a timeslot that is not clear. -/
def PopsClear (t : Traced) (i : DlIn) : Prop :=
  ∀ e, t.path.popped i = some e → SlotClear e (t.path.mux.entry i.tn) i.filler i.fn i.tn

theorem conserved_step_iff (t : Traced) (i : DlIn) (hinv : Inv t) (h : Conserved t) :
    Conserved (t.step i) ↔ PopsClear t i := by
  have hsent : ∀ s ∈ (t.step i).sent, Carries s.1 s.2 := by
    intro s hs
    rcases List.mem_append.1 hs with hs | hs
    · exact h.sent s hs
    · rw [Option.mem_toList, Option.map_eq_some_iff] at hs
      obtain ⟨e, he, rfl⟩ := hs
      rw [BurstBuilder.taken_eq _ _ _ hinv.settled (hinv.request e he)]
      exact h.inSlot e he
  constructor
  · intro hc e he
    exact (DownlinkPath.carries_iff he).1 (hc.inSlot e he)
  · intro hclear
    exact ⟨hsent, fun e he ↦ (DownlinkPath.carries_iff he).2 (hclear e he)⟩

/-- **A run conserves the popped PDUs exactly when each is popped for a clear slot.**  The run is
any order of queue writes, slot boundaries, filler states, schedule contents and symbol strobes,
from reset. -/
theorem conserved_iff (is : List DlIn) :
    Throughout step Conserved init is ↔ Along step PopsClear init is :=
  throughout_iff_along step inv_step conserved_step_iff inv_init
    ⟨fun _ hs ↦ absurd hs List.not_mem_nil, fun _ he ↦ absurd he (by simp [init])⟩ is

/-- A signalling PDU for the second timeslot, and a slot pulse there while a call speaks. -/
def voiceRun : List DlIn :=
  [{ wrMle := { valid := true, coded := 1#216 ++ 0#216, targetTn := 1 } },
    { tn := 1, slotPulse := true, filler := { voiceActiveMask := 0b10, valid := 0b10 } }, {}]

/-- The PDU is popped, and the burst of its timeslot is the filler's. -/
theorem voiceRun_loses : (exec step init voiceRun).sent.map (·.1) =
      [{ coded := 1#216 ++ 0#216, targetTn := 1 }] ∧
    ¬ Conserved (exec step init voiceRun) := by
  refine ⟨by decide, fun hc ↦ ?_⟩
  have hsent := (hc.sent _ (List.mem_of_getElem? (i := 0) rfl)).block1
  revert hsent
  decide

end Traced

end TetraPhy.Tx
