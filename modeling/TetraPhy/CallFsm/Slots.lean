import Mathlib.Data.Fintype.Basic
import Mathlib.Logic.Function.Basic
import TetraPhy.Sw.TxTransport
import TetraPhy.Sw.VoiceFiller

/-!
# The call-slot table

The file-level state of `tetra_call_fsm.c` — the table `g_slots`, the two
round-robin counters, the cached voice mask — together with the helpers that
look slots up, allocate them and free them.

## Honest boundary

* Log output is not modelled, nor are the variables that only feed it (the
  heartbeat and NUB counters of the tick).
* Every value `mono_ms_lo` returns is an input: the millisecond clock is an
  arbitrary 32-bit number each time it is read.
* The hardware handle is never null in the daemon; the null checks are left out.
-/

namespace TetraPhy.CallFsm

open Sw

/-- `CALL_FSM_VOICE_QUIET_MS`. -/
def voiceQuietMs : UInt32 := 300

/-- `CALL_FSM_CALL_STALE_MS`. -/
def callStaleMs : UInt32 := 5000

/-- `CALL_FSM_ALERT_TIMEOUT_MS`. -/
def alertTimeoutMs : UInt32 := 20000

/-- `call_state_t`. -/
inductive CallState
  | idle | connecting | connected | talker | releasing
deriving DecidableEq, Repr

/-- `call_slot_t`.  The all-zero record of `memset` is the default. -/
structure CallSlot where
  ssi : UInt32 := 0
  groupGssi : UInt32 := 0
  targetIssi : UInt32 := 0
  callId : UInt16 := 0
  umt : UInt8 := 0
  voiceTs : UInt8 := 0
  state : CallState := .idle
  ns : UInt8 := 0
  nr : UInt8 := 0
  hookMethod : UInt8 := 0
  simplexDuplex : UInt8 := 0
  lastActivityPollCnt : UInt32 := 0
  setupStage : UInt8 := 0
  setupNextMs : UInt32 := 0
  tSetupArrivedMs : UInt32 := 0
  tFirstNubMs : UInt32 := 0
  tCeasedMs : UInt32 := 0
  tFirstNubLogged : UInt8 := 0
deriving DecidableEq, Repr

/-- A slot is in use when it has an owner. -/
def CallSlot.Active (s : CallSlot) : Prop := s.ssi ≠ 0

instance (s : CallSlot) : Decidable s.Active := inferInstanceAs (Decidable (s.ssi ≠ 0))

@[simp] theorem not_active_default : ¬ (({} : CallSlot).Active) := fun h ↦ h rfl

/-- `g_slots`, with `CALL_FSM_MAX_CALLS = 8` entries. -/
abbrev SlotTable := Fin 8 → CallSlot

/-- The state of the call FSM and the register writes it has issued so far. -/
structure Fsm where
  slots : SlotTable := fun _ ↦ {}
  nextCallId : UInt16 := 1
  nextUmt : UInt8 := 4
  maskCached : UInt32 := 0xFFFFFFFF
  hal : List RegWrite := []

/-! ## Looking slots up -/

/-- `find_slot`. -/
def findSlot (g : SlotTable) (ssi : UInt32) : Option (Fin 8) :=
  Fin.find? fun i ↦ (g i).ssi == ssi && ssi != 0

/-- `find_slot_by_call_id`. -/
def findSlotByCallId (g : SlotTable) (callId : UInt16) : Option (Fin 8) :=
  if callId == 0 then none
  else Fin.find? fun i ↦ (g i).ssi != 0 && (g i).callId == callId

/-- `find_slot_by_gssi`. -/
def findSlotByGssi (g : SlotTable) (gssi : UInt32) : Option (Fin 8) :=
  if gssi == 0 then none
  else Fin.find? fun i ↦ (g i).ssi != 0 && (g i).groupGssi == gssi

theorem findSlot_eq_some {g : SlotTable} {ssi : UInt32} {i : Fin 8}
    (h : findSlot g ssi = some i) : (g i).ssi = ssi ∧ ssi ≠ 0 := by
  simpa using Fin.eq_true_of_find?_eq_some h

theorem findSlot_eq_none {g : SlotTable} {ssi : UInt32} (hssi : ssi ≠ 0)
    (h : findSlot g ssi = none) (i : Fin 8) : (g i).ssi ≠ ssi := by
  have := Fin.eq_false_of_find?_eq_none h i
  simpa [hssi] using this

theorem findSlotByCallId_eq_some {g : SlotTable} {c : UInt16} {i : Fin 8}
    (h : findSlotByCallId g c = some i) : (g i).Active ∧ (g i).callId = c := by
  unfold findSlotByCallId at h
  split at h
  · cases h
  · simpa [CallSlot.Active] using Fin.eq_true_of_find?_eq_some h

theorem findSlotByGssi_eq_some {g : SlotTable} {gssi : UInt32} {i : Fin 8}
    (h : findSlotByGssi g gssi = some i) : (g i).Active ∧ (g i).groupGssi = gssi := by
  unfold findSlotByGssi at h
  split at h
  · cases h
  · simpa [CallSlot.Active] using Fin.eq_true_of_find?_eq_some h

theorem findSlotByGssi_eq_none {g : SlotTable} {gssi : UInt32} (hg : gssi ≠ 0)
    (h : findSlotByGssi g gssi = none) (i : Fin 8) (hi : (g i).Active) :
    (g i).groupGssi ≠ gssi := by
  unfold findSlotByGssi at h
  rw [if_neg (by simpa using hg)] at h
  have := Fin.eq_false_of_find?_eq_none h i
  simp only [CallSlot.Active] at hi
  simpa [hi] using this

/-! ## Elementary state changes -/

namespace Fsm

/-- Write fields of slot `i`. -/
def modify (st : Fsm) (i : Fin 8) (f : CallSlot → CallSlot) : Fsm :=
  { st with slots := Function.update st.slots i (f (st.slots i)) }

/-- Issue register writes. -/
def emit (st : Fsm) (ws : List RegWrite) : Fsm := { st with hal := st.hal ++ ws }

/-- `tetra_tx_submit`, threading the state. -/
def submit (st : Fsm) (idle : Bool) (cls : TxPduClass) (m : TxPduMeta) : Fsm × Int :=
  (st.emit (txSubmit idle cls m).1, (txSubmit idle cls m).2)

/-- `aach_write`. -/
def aachWrite (st : Fsm) (ts : UInt8) (info : UInt32) : Fsm :=
  let reg := tsToAachReg ts
  if reg == 0 then st else st.emit [⟨reg, info &&& 0x3FFF⟩]

/-- `mask_write_cached`. -/
def maskWriteCached (st : Fsm) (v : UInt32) : Fsm :=
  if v == st.maskCached then st
  else { st.emit [⟨regVoiceActiveMask, v⟩] with maskCached := v }

end Fsm

/-! ## Ages and the voice mask -/

/-- The saturating age of a time stamp, as computed in `compute_voice_mask` and in
the tick. -/
def slotAge (last now : UInt32) : UInt32 := if last > now then 0 else now - last

/-- `compute_voice_mask`. -/
def computeVoiceMask (g : SlotTable) (now : UInt32) : UInt32 :=
  (List.finRange 8).foldl (fun m i ↦
    let s := g i
    if s.ssi == 0 then m
    else if s.state == .idle || s.state == .releasing || s.state == .connecting then m
    else if slotAge s.lastActivityPollCnt now > voiceQuietMs then m
    else m ||| tsToVoiceMaskBit s.voiceTs) 0

/-! ## Allocation -/

/-- `alloc_umt`: the usage markers 4 .. 63 in turn. -/
def bumpUmt (v : UInt8) : UInt8 := if v + 1 > 63 then 4 else v + 1

/-- The advance of `g_next_call_id`. -/
def bumpCallId (v : UInt16) : UInt16 := if (v + 1) &&& 0x3FFF == 0 then 1 else v + 1

/-- `alloc_voice_ts`: the lowest voice timeslot no active slot uses, 0 if there is
none. -/
def allocVoiceTs (g : SlotTable) : UInt8 :=
  (voiceTimeslots.find? fun cand ↦
    !((List.finRange 8).any fun i ↦ (g i).ssi != 0 && (g i).voiceTs == cand)).getD 0

/-- `alloc_slot`. -/
def allocSlot (ssi : UInt32) (st : Fsm) : Fsm × Option (Fin 8) :=
  match Fin.find? fun i ↦ (st.slots i).ssi == 0 with
  | none => (st, none)
  | some i =>
    let fresh : CallSlot :=
      { ssi := ssi, callId := st.nextCallId, state := .idle, ns := 0, nr := 1, umt := st.nextUmt }
    let st := { st.modify i fun _ ↦ fresh with
      nextCallId := bumpCallId st.nextCallId, nextUmt := bumpUmt st.nextUmt }
    let ts := allocVoiceTs st.slots
    if ts == 0 then (st.modify i fun _ ↦ {}, none)
    else
      let st := st.modify i fun s ↦ { s with voiceTs := ts }
      (st.aachWrite ts (aachVoiceUmt (st.slots i).umt), some i)

/-- `free_slot`. -/
def freeSlot (i : Fin 8) (st : Fsm) : Fsm :=
  let ts := (st.slots i).voiceTs
  let st := if ts ≥ 1 && ts ≤ 4 then st.aachWrite ts aachIdle else st
  st.modify i fun _ ↦ {}

end TetraPhy.CallFsm
