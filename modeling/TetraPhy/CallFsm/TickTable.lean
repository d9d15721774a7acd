import TetraPhy.CallFsm.Table
import TetraPhy.CallFsm.Tick

/-!
# What the tick does to the table

A turn of the tick's loop either frees its slot or leaves every call as it was but
for time stamps.  Which of the two happens is `CallSlot.Expired`, read off the slot
the turn starts with (`table_tickSlot_of_expired`, `table_tickSlot_of_not_expired`).

The voice pipe may run in any slot's turn and refreshes the time stamp of whatever
slot owns the burst's timeslot; `Table.Stamped` is the relation "equal but for time
stamps" that absorbs it.
-/

namespace TetraPhy.CallFsm

open Sw

/-! ## Equal but for time stamps -/

/-- `s'` is `s` with other activity and first-burst time stamps. -/
def CallSlot.Stamped (s s' : CallSlot) : Prop :=
  ∃ last nub logged,
    s' = { s with lastActivityPollCnt := last, tFirstNubMs := nub, tFirstNubLogged := logged }

theorem CallSlot.Stamped.refl (s : CallSlot) : s.Stamped s := ⟨_, _, _, rfl⟩

theorem CallSlot.Stamped.trans {s s' s'' : CallSlot} (h : s.Stamped s') (h' : s'.Stamped s'') :
    s.Stamped s'' := by
  obtain ⟨_, _, _, rfl⟩ := h
  obtain ⟨_, _, _, rfl⟩ := h'
  exact ⟨_, _, _, rfl⟩

/-- `T'` is `T` with other time stamps. -/
structure Table.Stamped (T T' : Table) : Prop where
  slots : ∀ i, (T.slots i).Stamped (T'.slots i)
  nextCallId : T'.nextCallId = T.nextCallId
  nextUmt : T'.nextUmt = T.nextUmt
  aach : T'.aach = T.aach

namespace Table.Stamped

theorem refl (T : Table) : T.Stamped T := ⟨fun _ ↦ .refl _, rfl, rfl, rfl⟩

theorem of_eq {T T' : Table} (h : T' = T) : T.Stamped T' := h ▸ refl T

theorem trans {T T' T'' : Table} (h : T.Stamped T') (h' : T'.Stamped T'') : T.Stamped T'' where
  slots i := (h.slots i).trans (h'.slots i)
  nextCallId := h'.nextCallId.trans h.nextCallId
  nextUmt := h'.nextUmt.trans h.nextUmt
  aach := h'.aach.trans h.aach

theorem set {T : Table} {i : Fin 8} {s : CallSlot} (h : (T.slots i).Stamped s) :
    T.Stamped (T.set i s) where
  slots j := by
    by_cases hj : j = i
    · subst hj
      simpa using h
    · simpa [Function.update_of_ne hj] using CallSlot.Stamped.refl _
  nextCallId := rfl
  nextUmt := rfl
  aach := rfl

/-- A stamped table agrees on every field of a slot that is not a time stamp. -/
theorem field_eq {T T' : Table} (h : T.Stamped T') (i : Fin 8) :
    (T'.slots i).ssi = (T.slots i).ssi ∧ (T'.slots i).groupGssi = (T.slots i).groupGssi ∧
    (T'.slots i).targetIssi = (T.slots i).targetIssi ∧ (T'.slots i).callId = (T.slots i).callId ∧
    (T'.slots i).umt = (T.slots i).umt ∧ (T'.slots i).voiceTs = (T.slots i).voiceTs ∧
    (T'.slots i).state = (T.slots i).state ∧
    (T'.slots i).tSetupArrivedMs = (T.slots i).tSetupArrivedMs := by
  obtain ⟨_, _, _, he⟩ := h.slots i
  rw [he]
  exact ⟨rfl, rfl, rfl, rfl, rfl, rfl, rfl, rfl⟩

end Table.Stamped

/-! ## The hooks -/

theorem stamped_notifyUlBurst (ts : UInt8) (nowMs : UInt32) (st : Fsm) :
    st.table.Stamped (notifyUlBurst ts nowMs st).table := by
  unfold notifyUlBurst
  split
  · exact .refl _
  · split
    · exact .refl _
    · exact .set ⟨_, _, _, rfl⟩

theorem stamped_notifyFirstNub (nowMs : UInt32) (st : Fsm) :
    st.table.Stamped (notifyFirstNub nowMs st).table := by
  unfold notifyFirstNub
  split
  · exact .refl _
  · exact .set ⟨_, _, _, rfl⟩

/-- The late-entry announcement only stages PDUs. -/
theorem table_notifyLateEntry (idle : Fin 8 → Bool) (gssi : UInt32) (st : Fsm) :
    (notifyLateEntry idle gssi st).1.table = st.table := by
  refine notifyLateEntry_induction (P := fun r ↦ r.table = st.table) rfl (fun idle i r hr ↦ ?_) _ _
  exact (table_submit r idle .dSetup (dSetupMeta (r.slots i))).trans hr

/-! ## The voice pipe -/

theorem stamped_voicePipeTick (burst : Option PipeBurst) (st : Fsm) :
    st.table.Stamped (voicePipeTick burst st).table := by
  cases burst with
  | none => exact .refl _
  | some b =>
      have hread : WritesOnly otherRegs
          ((List.range 54).map fun w ↦ ⟨regVoiceNubReadIndex, w.toUInt32⟩) := fun w hw ↦ by
        obtain ⟨k, -, rfl⟩ := List.mem_map.mp hw
        change regVoiceNubReadIndex ∈ otherRegs
        decide
      have hack : WritesOnly otherRegs [⟨regVoiceNubReadAck, 0x1⟩] := fun w hw ↦ by
        rw [List.mem_singleton.mp hw]
        decide
      have hnub : ∀ st : Fsm, st.table.Stamped
          (if (!b.badFrame) = true then notifyFirstNub b.nubMs st else st).table := fun st ↦ by
        split
        · exact stamped_notifyFirstNub _ _
        · exact .refl _
      unfold voicePipeTick
      dsimp only
      rw [table_emit hack, table_emit_ite (writesOnly_voiceFillerWriteTs _ _) (by decide)]
      refine (stamped_notifyUlBurst (deltaToEtsiTs b.delta) b.nowMs st).trans ?_
      exact .trans (.of_eq (table_emit hread)) (hnub _)

/-! ## One turn of the loop -/

/-- A slot after the delayed part of its set-up reply. -/
def CallSlot.sequenced (s : CallSlot) (now : UInt32) : CallSlot :=
  if s.setupStage > 0 && 0 ≤ (now - s.setupNextMs).toInt32 then
    if s.setupStage == 1 then { s with setupStage := 2, setupNextMs := now + 113 }
    else if s.setupStage == 2 then { s with setupStage := 0 }
    else if s.setupStage == 11 then { s with setupStage := 0 }
    else s
  else s

/-- The set-up sequence writes its own two fields only. -/
theorem CallSlot.sequenced_eq (s : CallSlot) (now : UInt32) :
    ∃ stage next, s.sequenced now = { s with setupStage := stage, setupNextMs := next } := by
  unfold CallSlot.sequenced
  split_ifs <;> exact ⟨_, _, rfl⟩

theorem table_setupSequencer (idle : Bool) (now : UInt32) (i : Fin 8) (st : Fsm) :
    (setupSequencer idle now i st).table = st.table.set i ((st.slots i).sequenced now) := by
  have hself : st.table = st.table.set i (st.slots i) := by
    simp [Table.set, Fsm.table]
  unfold setupSequencer CallSlot.sequenced
  dsimp only
  split_ifs with hdue h1 h2 hgrp h11
  · simp [stageDConnect]
  · simp [stageDSetup]
  · simp
  · simp [stageDSetup]
  · exact hself
  · exact hself

/-- The slot's time is up: a ringing slot's ring time-out, any other live slot's
stale time-out, both by the tick's own saturating ages. -/
def CallSlot.Expired (s : CallSlot) (now : UInt32) : Prop :=
  if s.state = .connecting then ringAge s.tSetupArrivedMs now > alertTimeoutMs
  else s.state ≠ .idle ∧ slotAge s.lastActivityPollCnt now > callStaleMs

instance (s : CallSlot) (now : UInt32) : Decidable (s.Expired now) :=
  inferInstanceAs (Decidable (if s.state = .connecting then
    ringAge s.tSetupArrivedMs now > alertTimeoutMs
  else s.state ≠ .idle ∧ slotAge s.lastActivityPollCnt now > callStaleMs))

theorem CallSlot.expired_sequenced (s : CallSlot) (now t : UInt32) :
    (s.sequenced t).Expired now ↔ s.Expired now := by
  obtain ⟨_, _, h⟩ := s.sequenced_eq t
  rw [h]
  rfl

theorem table_superviseSlot_of_expired (env : TickEnv) (i : Fin 8) (st : Fsm)
    (h : (st.slots i).Expired env.now) : (superviseSlot env i st).table = st.table.close i := by
  unfold superviseSlot
  dsimp only
  unfold CallSlot.Expired at h
  split at h
  · rename_i hstate
    rw [if_pos (by simpa using hstate), if_pos h, table_freeSlot]
    simp [stageDRelease]
  · rename_i hstate
    rw [if_neg (by simpa using hstate), if_pos (by simpa using h), table_freeSlot]
    split <;> simp

theorem stamped_superviseSlot_of_not_expired (env : TickEnv) (i : Fin 8) (st : Fsm)
    (h : ¬ (st.slots i).Expired env.now) :
    st.table.Stamped (superviseSlot env i st).table := by
  unfold superviseSlot
  dsimp only
  unfold CallSlot.Expired at h
  split at h
  · rename_i hstate
    rw [if_pos (by simpa using hstate), if_neg h]
    exact .refl _
  · rename_i hstate
    rw [if_neg (by simpa using hstate), if_neg (by simpa using h)]
    have hquiet : ∀ (c : Prop) [Decidable c], (if c then
        st.emit (voiceFillerClearTs (st.slots i).voiceTs) else st).table = st.table :=
      fun c ↦ table_emit_ite (writesOnly_voiceFillerClearTs _) (by decide) c
    by_cases htgt : ((if (st.slots i).groupGssi != 0 then (st.slots i).groupGssi
        else (st.slots i).targetIssi) != 0) = true
    · rw [if_pos htgt]
      exact .trans (.of_eq (hquiet _)) (stamped_voicePipeTick _ _)
    · rw [if_neg htgt]
      exact .of_eq (hquiet _)

theorem table_tickSlot_of_not_active (env : TickEnv) {i : Fin 8} {st : Fsm}
    (h : ¬ (st.slots i).Active) : (tickSlot env st i).table = st.table := by
  unfold tickSlot
  rw [if_pos (by simpa [CallSlot.Active] using h)]

theorem table_tickSlot_of_expired (env : TickEnv) {i : Fin 8} {st : Fsm}
    (ha : (st.slots i).Active) (h : (st.slots i).Expired env.now) :
    (tickSlot env st i).table = st.table.close i := by
  have hseq := table_setupSequencer (env.idle i 0) env.now i st
  have hslot : (setupSequencer (env.idle i 0) env.now i st).slots i =
      (st.slots i).sequenced env.now := by
    simpa using congrFun (congrArg Table.slots hseq) i
  unfold tickSlot
  rw [if_neg (by simpa [CallSlot.Active] using ha), table_superviseSlot_of_expired, hseq]
  · refine Table.close_set ?_
    obtain ⟨_, _, he⟩ := (st.slots i).sequenced_eq env.now
    rw [he]
    rfl
  · rw [hslot, CallSlot.expired_sequenced]
    exact h

theorem stamped_tickSlot_of_not_expired (env : TickEnv) {i : Fin 8} {st : Fsm}
    (ha : (st.slots i).Active) (h : ¬ (st.slots i).Expired env.now) :
    (st.table.set i ((st.slots i).sequenced env.now)).Stamped (tickSlot env st i).table := by
  have hseq := table_setupSequencer (env.idle i 0) env.now i st
  have hslot : (setupSequencer (env.idle i 0) env.now i st).slots i =
      (st.slots i).sequenced env.now := by
    simpa using congrFun (congrArg Table.slots hseq) i
  unfold tickSlot
  rw [if_neg (by simpa [CallSlot.Active] using ha), ← hseq]
  refine stamped_superviseSlot_of_not_expired env i _ ?_
  rw [hslot, CallSlot.expired_sequenced]
  exact h

end TetraPhy.CallFsm
