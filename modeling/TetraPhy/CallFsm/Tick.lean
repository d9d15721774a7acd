import TetraPhy.CallFsm.Handle

/-!
# The watchdog tick and the notification hooks

`tetra_call_fsm_tick`, the voice pipe it drives (`tetra_voice_pipe_tick`), and the
three `tetra_call_fsm_notify_*` hooks.

The TCH/S decoding and re-encoding of an uplink burst reaches the call FSM through
two values only — the bad-frame verdict and the 432 bits put into the filler bank —
so a burst is modelled by what the mailbox and the speech codec deliver for it.
-/

namespace TetraPhy.CallFsm

open Sw

/-! ## The hooks -/

/-- `tetra_call_fsm_notify_ul_burst`. -/
def notifyUlBurst (ulAirTs : UInt8) (nowMs : UInt32) (st : Fsm) : Fsm :=
  if ulAirTs < 1 || ulAirTs > 4 then st
  else
    match Fin.find? fun i ↦ (st.slots i).ssi != 0 && (st.slots i).voiceTs == ulAirTs with
    | none => st
    | some i => st.modify i fun s ↦ { s with lastActivityPollCnt := nowMs }

/-- `tetra_call_fsm_notify_first_nub`. -/
def notifyFirstNub (nowMs : UInt32) (st : Fsm) : Fsm :=
  match Fin.find? fun i ↦
    let s := st.slots i
    s.ssi != 0 && s.tFirstNubLogged == 0 && s.tSetupArrivedMs != 0 &&
      !(decide (nowMs - s.tSetupArrivedMs > 10000)) with
  | none => st
  | some i => st.modify i fun s ↦ { s with tFirstNubMs := nowMs, tFirstNubLogged := 1 }

/-- `tetra_call_fsm_notify_late_entry`; `idle i` is the mailbox wait for slot `i`. -/
def notifyLateEntry (idle : Fin 8 → Bool) (gssi : UInt32) (st : Fsm) : Fsm × Nat :=
  if gssi == 0 then (st, 0)
  else
    (List.finRange 8).foldl (fun (st, n) i ↦
      let s := st.slots i
      if s.ssi == 0 || s.groupGssi != gssi then (st, n)
      else if s.state != .connected && s.state != .talker then (st, n)
      else ((stageDSetup (idle i) i st).1, n + 1)) (st, 0)

/-- What staging a D-SETUP keeps, late entry keeps. -/
theorem notifyLateEntry_induction {P : Fsm → Prop} {st : Fsm} (h : P st)
    (hstage : ∀ (idle : Bool) (i : Fin 8) (st : Fsm), P st → P (stageDSetup idle i st).1)
    (idle : Fin 8 → Bool) (gssi : UInt32) : P (notifyLateEntry idle gssi st).1 := by
  unfold notifyLateEntry
  split
  · exact h
  · refine List.foldlRecOn (motive := fun r : Fsm × ℕ ↦ P r.1) _ _ h fun r hr i _ ↦ ?_
    dsimp only
    split_ifs
    · exact hr
    · exact hr
    · exact hstage (idle i) i r.1 hr

/-! ## The voice pipe -/

/-- An uplink burst waiting in the NUB mailbox, with the clock readings made while
it is served and what the speech codec makes of it. -/
structure PipeBurst where
  delta : UInt32
  nowMs : UInt32
  badFrame : Bool
  nubMs : UInt32
  type5Out : Nat → Bool

/-- `tetra_voice_pipe_tick`; `none` when no burst is pending. -/
def voicePipeTick (burst : Option PipeBurst) (st : Fsm) : Fsm :=
  match burst with
  | none => st
  | some b =>
    let ulAirTs := deltaToEtsiTs b.delta
    let st := notifyUlBurst ulAirTs b.nowMs st
    let st := st.emit ((List.range 54).map fun w ↦ ⟨regVoiceNubReadIndex, w.toUInt32⟩)
    let st := if !b.badFrame then notifyFirstNub b.nubMs st else st
    let st := if ulAirTs ≥ 1 && ulAirTs ≤ 4 then st.emit (voiceFillerWriteTs b.type5Out ulAirTs)
      else st
    st.emit [⟨regVoiceNubReadAck, 0x1⟩]

/-! ## The tick -/

/-- The outside of one `tetra_call_fsm_tick`: the clock at its start and for the
final mask, and for each slot's turn the outcomes of the mailbox waits (`0` for the
set-up sequence, `1` for a release) and the burst then pending. -/
structure TickEnv where
  now : UInt32
  maskNow : UInt32
  idle : Fin 8 → Nat → Bool
  burst : Fin 8 → Option PipeBurst

/-- The delayed part of the U-SETUP reply: due when the signed difference
`now - setup_next_ms` is not negative. -/
def setupSequencer (idle : Bool) (now : UInt32) (i : Fin 8) (st : Fsm) : Fsm :=
  let s := st.slots i
  if s.setupStage > 0 && 0 ≤ (now - s.setupNextMs).toInt32 then
    if s.setupStage == 1 then
      let st := (stageDConnect idle i st).1
      st.modify i fun s ↦ { s with setupStage := 2, setupNextMs := now + 113 }
    else if s.setupStage == 2 then
      let st := if s.groupGssi != 0 || s.targetIssi != 0 then (stageDSetup idle i st).1 else st
      st.modify i fun s ↦ { s with setupStage := 0 }
    else if s.setupStage == 11 then
      let st := (stageDSetup idle i st).1
      st.modify i fun s ↦ { s with setupStage := 0 }
    else st
  else st

/-- The ringing time of a slot, saturating at 0. -/
def ringAge (arrived now : UInt32) : UInt32 := if now > arrived then now - arrived else 0

/-- The supervision of one active slot: ring time-out, stale time-out, quiet
channel, voice pipe. -/
def superviseSlot (env : TickEnv) (i : Fin 8) (st : Fsm) : Fsm :=
  let s := st.slots i
  let age := slotAge s.lastActivityPollCnt env.now
  if s.state == .connecting then
    if ringAge s.tSetupArrivedMs env.now > alertTimeoutMs then
      freeSlot i (stageDRelease (env.idle i 1) i 0 st).1
    else st
  else if s.state != .idle && age > callStaleMs then
    let st := if s.voiceTs ≥ 1 && s.voiceTs ≤ 4 then st.emit (voiceFillerClearTs s.voiceTs) else st
    freeSlot i st
  else
    let st := if age > voiceQuietMs && s.voiceTs ≥ 1 && s.voiceTs ≤ 4 then
      st.emit (voiceFillerClearTs s.voiceTs) else st
    let voiceTgt := if s.groupGssi != 0 then s.groupGssi else s.targetIssi
    if voiceTgt != 0 then voicePipeTick (env.burst i) st else st

/-- One turn of the tick's loop. -/
def tickSlot (env : TickEnv) (st : Fsm) (i : Fin 8) : Fsm :=
  if (st.slots i).ssi == 0 then st
  else superviseSlot env i (setupSequencer (env.idle i 0) env.now i st)

/-- `tetra_call_fsm_tick`. -/
def tick (env : TickEnv) (st : Fsm) : Fsm :=
  let st := (List.finRange 8).foldl (tickSlot env) st
  st.maskWriteCached (computeVoiceMask st.slots env.maskNow)

end TetraPhy.CallFsm
