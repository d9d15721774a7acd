import TetraPhy.CallFsm.Machine
import TetraPhy.Lib.Pool

/-!
# The slot-table invariant

Every slot is found by its owner, its call identifier or its group, and each of
those finders takes the *first* match; the timeslot a call speaks on is named by its
slot alone.  So the table makes sense only if owners and timeslots are not shared.
`Table.Inv` says this, together with the ranges of the identifiers, and is kept by
every step.

That at most three calls are ever up, although there are eight slots, is then a
matter of counting: an active slot is determined by its timeslot, and there are
three of those.
-/

namespace TetraPhy.CallFsm

open Sw Run Pool

/-- The record of a call: a voice timeslot, identifiers in range, a call state. -/
structure CallSlot.Ok (s : CallSlot) : Prop where
  voiceTs : 2 ≤ s.voiceTs ∧ s.voiceTs ≤ 4
  umt : 4 ≤ s.umt ∧ s.umt ≤ 63
  callId : 1 ≤ s.callId ∧ s.callId ≤ 16383
  state : s.state ≠ .idle

/-- Two calls of one terminal. -/
def CallSlot.SameOwner (a b : CallSlot) : Prop := a.ssi = b.ssi

/-- Two calls on one timeslot. -/
def CallSlot.SameTimeslot (a b : CallSlot) : Prop := a.voiceTs = b.voiceTs

/-- The slot-table invariant. -/
structure Table.Inv (T : Table) : Prop where
  ok : ∀ i, (T.slots i).Active → (T.slots i).Ok
  target : ∀ i, (T.slots i).groupGssi = 0 ∨ (T.slots i).targetIssi = 0
  owners : Apart CallSlot.Active CallSlot.SameOwner T.slots
  timeslots : Apart CallSlot.Active CallSlot.SameTimeslot T.slots
  nextUmt : 4 ≤ T.nextUmt ∧ T.nextUmt ≤ 63
  nextCallId : 1 ≤ T.nextCallId ∧ T.nextCallId ≤ 16383

theorem bumpUmt_range {v : UInt8} (h : 4 ≤ v ∧ v ≤ 63) : 4 ≤ bumpUmt v ∧ bumpUmt v ≤ 63 := by
  unfold bumpUmt
  split <;> grind

theorem bumpCallId_range {v : UInt16} (h : 1 ≤ v ∧ v ≤ 16383) :
    1 ≤ bumpCallId v ∧ bumpCallId v ≤ 16383 := by
  unfold bumpCallId
  by_cases hv : v = 16383
  · subst hv
    decide
  · split <;> grind

/-! ## Records -/

/-- The identifiers of a call, which no PDU changes while it lasts. -/
def CallSlot.SameCall (s s' : CallSlot) : Prop :=
  s'.voiceTs = s.voiceTs ∧ s'.umt = s.umt ∧ s'.callId = s.callId

theorem CallSlot.Ok.sameCall {s s' : CallSlot} (h : s.Ok) (hs : s.SameCall s')
    (hstate : s'.state ≠ .idle) : s'.Ok := by
  obtain ⟨hts, humt, hcid⟩ := hs
  exact ⟨hts ▸ h.voiceTs, humt ▸ h.umt, hcid ▸ h.callId, hstate⟩

namespace CallSlot

variable (s : CallSlot) (env : HandleEnv) (p : CmcePdu) (ssi : UInt32)

theorem sameCall_afterSetup : s.SameCall (s.afterSetup env p) := ⟨rfl, rfl, rfl⟩

theorem sameCall_takeFloor_afterSetup : s.SameCall ((s.takeFloor ssi).afterSetup env p) :=
  ⟨rfl, rfl, rfl⟩

theorem sameCall_afterDemand : s.SameCall (s.afterDemand env) := ⟨rfl, rfl, rfl⟩

theorem sameCall_takeFloor_afterDemand : s.SameCall ((s.takeFloor ssi).afterDemand env) :=
  ⟨rfl, rfl, rfl⟩

theorem sameCall_afterCeased : s.SameCall (s.afterCeased env) := ⟨rfl, rfl, rfl⟩

theorem sameCall_afterConnect : s.SameCall (s.afterConnect env) := ⟨rfl, rfl, rfl⟩

/-- After a U-SETUP a call is ringing or connected. -/
theorem afterSetup_state :
    (s.afterSetup env p).state = if calledIsGroup env p then .connected else .connecting := rfl

theorem afterSetup_state_ne_idle : (s.afterSetup env p).state ≠ .idle := by
  rw [afterSetup_state]
  split <;> exact CallState.noConfusion

/-- A U-SETUP calls a group or a party, not both. -/
theorem afterSetup_target :
    (s.afterSetup env p).groupGssi = 0 ∨ (s.afterSetup env p).targetIssi = 0 := by
  cases hg : calledIsGroup env p with
  | true => exact .inr (by simp [afterSetup, enterSetup, hg])
  | false => exact .inl (by simp [afterSetup, enterSetup, hg])

theorem sequenced_fields (now : UInt32) :
    (s.sequenced now).ssi = s.ssi ∧ (s.sequenced now).groupGssi = s.groupGssi ∧
    (s.sequenced now).targetIssi = s.targetIssi ∧ (s.sequenced now).state = s.state ∧
    s.SameCall (s.sequenced now) := by
  obtain ⟨_, _, he⟩ := s.sequenced_eq now
  rw [he]
  exact ⟨rfl, rfl, rfl, rfl, rfl, rfl, rfl⟩

end CallSlot

/-! ## Table operations -/

namespace Table

/-- The invariant does not see the registers, and of the counters only the range. -/
theorem Inv.of_slots {T T' : Table} (h : T.Inv) (hs : T'.slots = T.slots)
    (hu : 4 ≤ T'.nextUmt ∧ T'.nextUmt ≤ 63) (hc : 1 ≤ T'.nextCallId ∧ T'.nextCallId ≤ 16383) :
    T'.Inv where
  ok := hs ▸ h.ok
  target := hs ▸ h.target
  owners := hs ▸ h.owners
  timeslots := hs ▸ h.timeslots
  nextUmt := hu
  nextCallId := hc

theorem Inv.burn {T : Table} (h : T.Inv) : T.burn.Inv :=
  h.of_slots rfl (bumpUmt_range h.nextUmt) (bumpCallId_range h.nextCallId)

/-- A record may be stored in slot `i` if it is free, or is well formed and shares
neither its owner nor its timeslot with another active slot. -/
theorem Inv.set {T : Table} (h : T.Inv) {i : Fin 8} {s : CallSlot}
    (hok : s.Active → s.Ok) (htgt : s.groupGssi = 0 ∨ s.targetIssi = 0)
    (hssi : s.Active → ∀ j, j ≠ i → (T.slots j).Active → ¬ (T.slots j).SameOwner s)
    (hts : s.Active → ∀ j, j ≠ i → (T.slots j).Active → ¬ (T.slots j).SameTimeslot s) :
    (T.set i s).Inv where
  ok j hj := by
    by_cases hji : j = i
    · subst hji
      simpa using hok (by simpa using hj)
    · simp only [slots_set, Function.update_of_ne hji] at hj ⊢
      exact h.ok j hj
  target j := by
    by_cases hji : j = i
    · subst hji
      simpa using htgt
    · simp only [slots_set, Function.update_of_ne hji]
      exact h.target j
  owners := (apart_update_iff h.owners Eq.symm i s).2 hssi
  timeslots := (apart_update_iff h.timeslots Eq.symm i s).2 hts
  nextUmt := h.nextUmt
  nextCallId := h.nextCallId

/-- Clearing a slot keeps the invariant: there is less to say. -/
theorem Inv.set_free {T : Table} (h : T.Inv) (i : Fin 8) : (T.set i {}).Inv :=
  h.set (fun hi ↦ absurd hi not_active_default) (.inl rfl)
    (fun hi ↦ absurd hi not_active_default) fun hi ↦ absurd hi not_active_default

theorem Inv.close {T : Table} (h : T.Inv) (i : Fin 8) : (T.close i).Inv :=
  (h.set_free i).of_slots rfl h.nextUmt h.nextCallId

/-- An active slot may be rewritten within its call by its owner, or by a terminal
that has no slot. -/
theorem Inv.set_sameCall {T : Table} (h : T.Inv) {i : Fin 8} {s : CallSlot}
    (ha : (T.slots i).Active) (hs : (T.slots i).SameCall s) (hstate : s.state ≠ .idle)
    (htgt : s.groupGssi = 0 ∨ s.targetIssi = 0)
    (hssi : s.ssi = (T.slots i).ssi ∨ ∀ j, (T.slots j).ssi ≠ s.ssi) : (T.set i s).Inv := by
  refine h.set (fun _ ↦ (h.ok i ha).sameCall hs hstate) htgt (fun _ j hj hja he ↦ ?_)
    fun _ j hj hja he ↦ ?_
  · rcases hssi with hssi | hssi
    · exact h.owners j i hj hja ha (he.trans hssi)
    · exact hssi j he
  · exact h.timeslots j i hj hja ha (he.trans hs.1)

/-- Time stamps are not constrained. -/
theorem Inv.stamped {T T' : Table} (h : T.Inv) (hs : T.Stamped T') : T'.Inv := by
  have hact : ∀ i, (T'.slots i).Active → (T.slots i).Active := fun i hi ↦ by
    rwa [CallSlot.Active, ← (hs.field_eq i).1]
  refine ⟨fun i hi ↦ ?_, fun i ↦ ?_, h.owners.mono hact fun i j he ↦ ?_,
    h.timeslots.mono hact fun i j he ↦ ?_, ?_, ?_⟩
  · obtain ⟨-, -, -, hcid, humt, hts, hstate, -⟩ := hs.field_eq i
    have hok := h.ok i (hact i hi)
    exact hok.sameCall ⟨hts, humt, hcid⟩ (hstate ▸ hok.state)
  · obtain ⟨-, hg, ht, -⟩ := hs.field_eq i
    rw [hg, ht]
    exact h.target i
  · rwa [CallSlot.SameOwner, ← (hs.field_eq i).1, ← (hs.field_eq j).1]
  · obtain ⟨-, -, -, -, -, hi, -⟩ := hs.field_eq i
    obtain ⟨-, -, -, -, -, hj, -⟩ := hs.field_eq j
    rwa [CallSlot.SameTimeslot, ← hi, ← hj]
  · exact hs.nextUmt ▸ h.nextUmt
  · exact hs.nextCallId ▸ h.nextCallId

/-! ## Handled PDUs -/

/-- Opening a slot: new identifiers, a free timeslot, an owner without a slot. -/
theorem Inv.openSlot {T : Table} (h : T.Inv) {env : HandleEnv} {ssi : UInt32} {p : CmcePdu}
    {i : Fin 8} (ho : T.OpensAt env ssi p i) : (T.openSlot env ssi p i).Inv := by
  obtain ⟨hrange, hfree⟩ := allocVoiceTs_spec ho.freeTs
  have hset : (T.burn.set i ((T.freshSlot ssi (allocVoiceTs T.slots)).afterSetup env p)).Inv := by
    refine h.burn.set (fun _ ↦ ?_) (CallSlot.afterSetup_target _ env p) (fun _ j _ ↦ ?_)
      fun _ j _ hj ↦ ?_
    · exact ⟨hrange, h.nextUmt, h.nextCallId, CallSlot.afterSetup_state_ne_idle _ env p⟩
    · exact fun _ ↦ findSlot_eq_none ho.sender ho.noSlot j
    · exact hfree j hj
  exact hset.of_slots (by simp [Table.openSlot]) hset.nextUmt hset.nextCallId

/-- **Every effect of a handled PDU keeps the invariant.** -/
theorem Inv.effect {T T' : Table} {env : HandleEnv} {ssi : UInt32} {p : CmcePdu} (h : T.Inv)
    (he : T.Effect env ssi p T') : T'.Inv := by
  cases he with
  | none => exact h
  | @reSetup i hp hi =>
      exact h.set_sameCall (findSlot_active hi) (CallSlot.sameCall_afterSetup _ env p)
        (CallSlot.afterSetup_state_ne_idle _ env p) (CallSlot.afterSetup_target _ env p) (.inl rfl)
  | @joinSetup i hp hssi hn hgrp hi =>
      exact h.set_sameCall (findSlotByGssi_eq_some hi).1
        (CallSlot.sameCall_takeFloor_afterSetup _ env p ssi)
        (CallSlot.afterSetup_state_ne_idle _ env p) (CallSlot.afterSetup_target _ env p)
        (.inr (findSlot_eq_none hssi hn))
  | noTimeslot hp hi => exact h.burn.set_free _
  | openSlot ho => exact h.openSlot ho
  | @demand i hp hi =>
      exact h.set_sameCall (findSlot_active hi) (CallSlot.sameCall_afterDemand _ env)
        CallState.noConfusion (h.target i) (.inl rfl)
  | @takeover i hp hssi hn hi =>
      exact h.set_sameCall (findSlotByCallId_eq_some hi).1
        (CallSlot.sameCall_takeFloor_afterDemand _ env ssi)
        CallState.noConfusion (h.target i) (.inr (findSlot_eq_none hssi hn))
  | @ceased i hp hi =>
      exact h.set_sameCall (findSlot_active hi) (CallSlot.sameCall_afterCeased _ env)
        CallState.noConfusion (h.target i) (.inl rfl)
  | @connect i hp hssi hi =>
      exact h.set_sameCall (Table.connectSlot_active hi) (CallSlot.sameCall_afterConnect _ env)
        CallState.noConfusion (h.target i) (.inl rfl)
  | release hp hi => exact h.close _

theorem Inv.sequenced {T : Table} (h : T.Inv) (i : Fin 8) (now : UInt32)
    (ha : (T.slots i).Active) : (T.set i ((T.slots i).sequenced now)).Inv := by
  obtain ⟨hssi, hg, ht, hstate, hsame⟩ := (T.slots i).sequenced_fields now
  exact h.set_sameCall ha hsame (hstate ▸ (h.ok i ha).state) (by rw [hg, ht]; exact h.target i)
    (.inl hssi)

end Table

/-! ## Every reachable state -/

/-- **One step keeps the invariant**, whatever the event. -/
theorem Fsm.step_inv (st : Fsm) (e : Event) (h : st.table.Inv) : (st.step e).table.Inv :=
  step_induction (fun T env ssi p h ↦ h.effect (T.effect_afterHandle env ssi p))
    (fun _ i _ h _ _ ↦ h.close i) (fun _ i now h ha ↦ h.sequenced i now ha)
    (fun _ _ h hs ↦ h.stamped hs) st e h

theorem Fsm.init_inv : Fsm.init.table.Inv where
  ok _ hi := absurd hi not_active_default
  target _ := .inl rfl
  owners := apart_of_dead fun _ ↦ not_active_default
  timeslots := apart_of_dead fun _ ↦ not_active_default
  nextUmt := by decide
  nextCallId := by decide

theorem Fsm.Reachable.inv {st : Fsm} (h : st.Reachable) : st.table.Inv :=
  h.induction Fsm.init_inv Fsm.step_inv

/-- A terminal's slot is the one it owns. -/
theorem Table.Inv.findSlot_iff {T : Table} (h : T.Inv) {ssi : UInt32} (hssi : ssi ≠ 0)
    {i : Fin 8} : findSlot T.slots ssi = some i ↔ (T.slots i).ssi = ssi := by
  refine ⟨fun hi ↦ (findSlot_eq_some hi).1, fun hi ↦ ?_⟩
  cases hf : findSlot T.slots ssi with
  | none => exact absurd hi (findSlot_eq_none hssi hf i)
  | some j =>
      have hj := (findSlot_eq_some hf).1
      rw [h.owners.eq (findSlot_active hf) (by rwa [CallSlot.Active, hi]) (hj.trans hi.symm)]

/-- The slots in use. -/
def activeSlots (g : SlotTable) : Finset (Fin 8) := {i | (g i).Active}

/-- There are no more calls than voice timeslots. -/
theorem Table.Inv.card_activeSlots {T : Table} (h : T.Inv) : (activeSlots T.slots).card ≤ 3 :=
  calc (activeSlots T.slots).card
      ≤ voiceTimeslots.toFinset.card :=
        Apart.card_le (k := CallSlot.voiceTs) h.timeslots fun i hi ↦
          List.mem_toFinset.mpr (mem_voiceTimeslots.mpr (h.ok i hi).voiceTs)
    _ = 3 := by decide

/-- `alloc_voice_ts` returns no timeslot in use; its 0 for failure is none. -/
theorem Table.Inv.allocVoiceTs_ne {T : Table} (h : T.Inv) {j : Fin 8} (hj : (T.slots j).Active) :
    (T.slots j).voiceTs ≠ allocVoiceTs T.slots := by
  by_cases hts : allocVoiceTs T.slots = 0
  · obtain ⟨h2, -⟩ := (h.ok j hj).voiceTs
    rw [hts]
    intro h0
    rw [h0] at h2
    exact absurd h2 (by decide)
  · exact (allocVoiceTs_spec hts).2 j hj

/-- A slot handed out by `alloc_slot` is on a timeslot that no active slot used. -/
theorem allocSlot_voiceTs {st : Fsm} {ssi : UInt32} {i : Fin 8}
    (h : (allocSlot ssi st).2 = some i) (j : Fin 8) (hj : (st.slots j).Active) :
    (st.slots j).voiceTs ≠ ((allocSlot ssi st).1.slots i).voiceTs := by
  have htable := allocSlot_table ssi st
  rw [h, Table.alloc, Fsm.slots_table] at htable
  cases hf : Fin.find? fun i ↦ (st.slots i).ssi == 0 with
  | none => simp [hf] at htable
  | some k =>
      rw [hf] at htable
      dsimp only at htable
      by_cases hts : allocVoiceTs st.slots = 0
      · simp [hts] at htable
      · rw [if_neg hts, Prod.mk.injEq, Option.some.injEq] at htable
        obtain ⟨htab, rfl⟩ := htable
        have hslot := congrArg (fun T : Table ↦ (T.slots i).voiceTs) htab
        simp only [Fsm.slots_table, Table.slots_opened, Function.update_self,
          Table.freshSlot] at hslot
        rw [hslot]
        exact (allocVoiceTs_spec hts).2 j hj

/-- **The slot table is well formed in every reachable state.**  Active slots differ
in owner and timeslot; each is on a voice timeslot with identifiers in range and is
not idle; no slot has both a group and a called party; at most three are active; and
the allocator hands out free timeslots only. -/
theorem slot_table_wellFormed (es : List Event) :
    let st := exec Fsm.step Fsm.init es
    (∀ i j, i ≠ j → (st.slots i).Active → (st.slots j).Active →
      (st.slots i).ssi ≠ (st.slots j).ssi ∧ (st.slots i).voiceTs ≠ (st.slots j).voiceTs) ∧
    (∀ i, (st.slots i).Active →
      (st.slots i).voiceTs ∈ [2, 3, 4] ∧ (4 ≤ (st.slots i).umt ∧ (st.slots i).umt ≤ 63) ∧
      (1 ≤ (st.slots i).callId ∧ (st.slots i).callId ≤ 16383) ∧ (st.slots i).state ≠ .idle) ∧
    (∀ i, (st.slots i).groupGssi = 0 ∨ (st.slots i).targetIssi = 0) ∧
    (activeSlots st.slots).card ≤ 3 ∧
    (∀ j, (st.slots j).Active → (st.slots j).voiceTs ≠ allocVoiceTs st.slots) ∧
    (∀ ssi i, (allocSlot ssi st).2 = some i → ∀ j, (st.slots j).Active →
      (st.slots j).voiceTs ≠ ((allocSlot ssi st).1.slots i).voiceTs) := by
  intro st
  have h : st.table.Inv := Fsm.Reachable.inv ⟨es, rfl⟩
  refine ⟨fun i j hij hi hj ↦ ⟨h.owners i j hij hi hj, h.timeslots i j hij hi hj⟩, fun i hi ↦ ?_,
    h.target, h.card_activeSlots, fun j hj ↦ h.allocVoiceTs_ne hj,
    fun ssi i hi j hj ↦ allocSlot_voiceTs hi j hj⟩
  have hok := h.ok i hi
  exact ⟨mem_voiceTimeslots.mpr hok.voiceTs, hok.umt, hok.callId, hok.state⟩

end TetraPhy.CallFsm
