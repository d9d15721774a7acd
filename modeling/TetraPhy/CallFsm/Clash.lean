import TetraPhy.CallFsm.Invariant

/-!
# Clashing calls

Owners and timeslots are kept apart by the table itself (`Invariant.lean`).  Three
further identifiers are meant to tell simultaneous calls apart and are *not* guarded
in the same way:

* the usage marker and the call identifier come from round-robin counters that never
  look at the live slots;
* the group of a call is looked up only for a terminal that has no slot yet, so the
  owner of one call can move it to a group that already has another.

For both, this file gives the exact condition on a run under which no two calls ever
clash, and a run that violates it.
-/

namespace TetraPhy.CallFsm

open Sw Run Pool

/-! ## What leaves a clash relation alone

A relation that reads usage marker, call identifier and group only is not affected by
the tick, the hooks, or a PDU that rewrites a call without moving it. -/

/-- The identifiers by which calls may clash. -/
def CallSlot.SameIds (s s' : CallSlot) : Prop :=
  s'.umt = s.umt ∧ s'.callId = s.callId ∧ s'.groupGssi = s.groupGssi

/-- A symmetric relation that reads only those identifiers. -/
structure IdRelation (R : CallSlot → CallSlot → Prop) : Prop where
  symm : ∀ {a b}, R a b → R b a
  sameIds : ∀ {a b b'}, b.SameIds b' → R a b' → R a b

theorem IdRelation.sameIds₂ {R : CallSlot → CallSlot → Prop} (hR : IdRelation R)
    {a a' b b' : CallSlot} (ha : a.SameIds a') (hb : b.SameIds b') (h : R a' b') : R a b :=
  hR.symm (hR.sameIds ha (hR.symm (hR.sameIds hb h)))

namespace Table

variable {R : CallSlot → CallSlot → Prop}

theorem apart_close {T : Table} (hR : IdRelation R) (h : Apart CallSlot.Active R T.slots)
    (i : Fin 8) : Apart CallSlot.Active R (T.close i).slots :=
  h.update_dead hR.symm i not_active_default

theorem apart_set_sameIds {T : Table} (hR : IdRelation R) (h : Apart CallSlot.Active R T.slots)
    {i : Fin 8} {s : CallSlot} (ha : (T.slots i).Active) (hs : (T.slots i).SameIds s) :
    Apart CallSlot.Active R (T.set i s).slots :=
  h.update_live hR.symm ha fun _ ↦ hR.sameIds hs

theorem apart_stamped {T T' : Table} (hR : IdRelation R) (h : Apart CallSlot.Active R T.slots)
    (hs : T.Stamped T') : Apart CallSlot.Active R T'.slots := by
  have hids : ∀ i, (T.slots i).SameIds (T'.slots i) := fun i ↦ by
    obtain ⟨-, hg, -, hc, hu, -⟩ := hs.field_eq i
    exact ⟨hu, hc, hg⟩
  refine h.mono (fun i hi ↦ ?_) fun i j ↦ hR.sameIds₂ (hids i) (hids j)
  rwa [CallSlot.Active, ← (hs.field_eq i).1]

end Table

/-- Only a handled PDU can make calls clash. -/
theorem Fsm.apart_step {R : CallSlot → CallSlot → Prop} (hR : IdRelation R) (st : Fsm) {e : Event}
    (he : ∀ env ssi p, e ≠ .handle env ssi p) (h : Apart CallSlot.Active R st.slots) :
    Apart CallSlot.Active R (st.step e).slots := by
  cases e with
  | handle env ssi p => exact absurd rfl (he env ssi p)
  | tick env =>
      rw [Fsm.step_tick, ← Fsm.slots_table]
      refine tick_induction (P := fun T ↦ Apart CallSlot.Active R T.slots) env
        (fun T i h _ _ ↦ T.apart_close hR h i) (fun T i h ha ↦ ?_)
        (fun T T' h hs ↦ Table.apart_stamped hR h hs) h
      obtain ⟨_, hg, -, -, -, hu, hc⟩ := (T.slots i).sequenced_fields env.now
      exact T.apart_set_sameIds hR h ha ⟨hu, hc, hg⟩
  | notifyUlBurst ts nowMs => exact Table.apart_stamped hR h (stamped_notifyUlBurst ts nowMs st)
  | notifyFirstNub nowMs => exact Table.apart_stamped hR h (stamped_notifyFirstNub nowMs st)
  | notifyLateEntry idle gssi =>
      rw [← Fsm.slots_table, Fsm.table_step_lateEntry]
      exact h

/-! ## Usage markers and call identifiers -/

/-- Two calls that share a usage marker or a call identifier. -/
def CallSlot.SharesMarker (a b : CallSlot) : Prop := a.umt = b.umt ∨ a.callId = b.callId

theorem idRelation_sharesMarker : IdRelation CallSlot.SharesMarker where
  symm h := h.imp Eq.symm Eq.symm
  sameIds := by
    rintro a b b' ⟨hu, hc, -⟩ (h | h)
    · exact .inl (h.trans hu)
    · exact .inr (h.trans hc)

/-- All active slots have different usage markers and different call identifiers. -/
def Fsm.DistinctMarkers (st : Fsm) : Prop :=
  ∀ i j, i ≠ j → (st.slots i).Active → (st.slots j).Active →
    (st.slots i).umt ≠ (st.slots j).umt ∧ (st.slots i).callId ≠ (st.slots j).callId

theorem Fsm.distinctMarkers_iff (st : Fsm) :
    st.DistinctMarkers ↔ Apart CallSlot.Active CallSlot.SharesMarker st.slots := by
  simp only [DistinctMarkers, Apart, CallSlot.SharesMarker, not_or, ne_eq]

/-- If the event is a U-SETUP that opens a slot, the next usage marker and the next
call identifier are not in use. -/
def Fsm.MarkersFree (st : Fsm) : Event → Prop
  | .handle env ssi p => ∀ i, st.table.OpensAt env ssi p i → ∀ j, (st.slots j).Active →
      (st.slots j).umt ≠ st.nextUmt ∧ (st.slots j).callId ≠ st.nextCallId
  | _ => True

/-- Opening a slot keeps markers apart exactly when the counters' values are free. -/
theorem Table.apart_openSlot_iff {T : Table} {env : HandleEnv} {ssi : UInt32} {p : CmcePdu}
    {i : Fin 8} (h : Apart CallSlot.Active CallSlot.SharesMarker T.slots)
    (ho : T.OpensAt env ssi p i) :
    Apart CallSlot.Active CallSlot.SharesMarker (T.openSlot env ssi p i).slots ↔
      ∀ j, (T.slots j).Active →
        (T.slots j).umt ≠ T.nextUmt ∧ (T.slots j).callId ≠ T.nextCallId := by
  simp only [Table.openSlot, slots_set, slots_opened, Function.update_idem]
  rw [apart_update_iff h idRelation_sharesMarker.symm]
  constructor
  · intro hnew j hj
    have hji : j ≠ i := by
      rintro rfl
      exact ho.not_active hj
    exact not_or.mp (hnew ho.sender j hji hj)
  · intro hfree _ j _ hj
    exact not_or.mpr (hfree j hj)

/-- Every other effect of a PDU keeps the markers of the calls there are. -/
theorem Table.apart_sharesMarker_effect {T T' : Table} {env : HandleEnv} {ssi : UInt32}
    {p : CmcePdu} (h : Apart CallSlot.Active CallSlot.SharesMarker T.slots)
    (he : T.Effect env ssi p T') (hno : ∀ i, ¬ T.OpensAt env ssi p i) :
    Apart CallSlot.Active CallSlot.SharesMarker T'.slots := by
  have hlive : ∀ {i : Fin 8} {s : CallSlot}, (T.slots i).Active → (T.slots i).SameCall s →
      Apart CallSlot.Active CallSlot.SharesMarker (T.set i s).slots := fun ha hs ↦
    h.update_live idRelation_sharesMarker.symm ha fun _ hb ↦
      hb.imp (·.trans hs.2.1) (·.trans hs.2.2)
  cases he with
  | none => exact h
  | reSetup hp hi => exact hlive (findSlot_active hi) (CallSlot.sameCall_afterSetup _ env p)
  | joinSetup hp hssi hn hgrp hi =>
      exact hlive (findSlotByGssi_eq_some hi).1 (CallSlot.sameCall_takeFloor_afterSetup _ env p ssi)
  | noTimeslot hp hi => exact h.update_dead idRelation_sharesMarker.symm _ not_active_default
  | openSlot ho => exact absurd ho (hno _)
  | demand hp hi => exact hlive (findSlot_active hi) (CallSlot.sameCall_afterDemand _ env)
  | takeover hp hssi hn hi =>
      exact hlive (findSlotByCallId_eq_some hi).1 (CallSlot.sameCall_takeFloor_afterDemand _ env ssi)
  | ceased hp hi => exact hlive (findSlot_active hi) (CallSlot.sameCall_afterCeased _ env)
  | connect hp hssi hi =>
      exact hlive (Table.connectSlot_active hi) (CallSlot.sameCall_afterConnect _ env)
  | release hp hi => exact T.apart_close idRelation_sharesMarker h _

theorem Fsm.distinctMarkers_step_iff (st : Fsm) (e : Event) (h : st.DistinctMarkers) :
    (st.step e).DistinctMarkers ↔ st.MarkersFree e := by
  rw [distinctMarkers_iff] at h ⊢
  cases e with
  | handle env ssi p =>
      rw [← Fsm.slots_table, Fsm.table_step_handle]
      by_cases ho : ∃ i, st.table.OpensAt env ssi p i
      · obtain ⟨i, ho⟩ := ho
        rw [Table.afterHandle_openSlot ho, Table.apart_openSlot_iff h ho]
        exact ⟨fun hfree _ _ ↦ hfree, fun hfree ↦ hfree i ho⟩
      · have hno := not_exists.mp ho
        exact iff_of_true
          (Table.apart_sharesMarker_effect h (Table.effect_afterHandle _ env ssi p) hno)
          fun i hi ↦ absurd hi (hno i)
  | tick | notifyUlBurst | notifyFirstNub | notifyLateEntry =>
      exact iff_of_true (st.apart_step idRelation_sharesMarker (by simp) h) trivial

/-- **Usage markers and call identifiers stay distinct throughout a run exactly when
no slot is opened while a live call still has the next marker or identifier.** -/
theorem distinctMarkers_throughout_iff (es : List Event) :
    Throughout Fsm.step Fsm.DistinctMarkers Fsm.init es ↔
      Along Fsm.step Fsm.MarkersFree Fsm.init es :=
  throughout_iff_along Fsm.step (I := fun _ ↦ True) (fun _ _ _ ↦ trivial)
    (fun st e _ h ↦ st.distinctMarkers_step_iff e h) trivial
    (fun _ _ _ hi ↦ absurd hi not_active_default) es

/-! ### A call that outlives a period of the counter

Terminal 1 holds a group call with usage marker 4.  Terminal 2 makes 59 short calls,
which use the markers 5 to 63; the next slot opened gets marker 4 again. -/

/-- A call set up by terminal 2 and released by it. -/
def shortCall : List Event :=
  [.handle (.at 0) 2 (setupTo 3), .handle (.at 0) 2 { pduType := .uRelease }]

/-- The group call of terminal 1, 59 short calls, and one more set-up. -/
def outlivingRun : List Event :=
  .handle (.at 0) 1 (setupTo 100) :: (List.replicate 59 shortCall).flatten ++
    [.handle (.at 0) 2 (setupTo 3)]

/-- The table with only the group call of terminal 1 in it. -/
def heldSlots : SlotTable := (Fsm.init.step (.handle (.at 0) 1 (setupTo 100))).slots

/-- In such a table terminal 2 can open slot 1. -/
theorem opensAt_heldSlots {T : Table} (h : T.slots = heldSlots) :
    T.OpensAt (.at 0) 2 (setupTo 3) 1 where
  sender := by decide
  setup := rfl
  noSlot := by rw [h]; decide
  noGroupCall hgrp := absurd hgrp (by decide)
  firstFree := by rw [h]; decide
  freeTs := by rw [h]; decide

/-- A short call leaves nothing behind but the advanced counters. -/
theorem exec_shortCall {st : Fsm} (hinv : st.table.Inv) (h : st.slots = heldSlots) :
    (exec Fsm.step st shortCall).slots = heldSlots ∧
      (exec Fsm.step st shortCall).nextUmt = bumpUmt st.nextUmt := by
  have ho := opensAt_heldSlots (T := st.table) h
  have hfind : findSlot (st.table.openSlot (.at 0) 2 (setupTo 3) 1).slots 2 = some 1 := by
    rw [(hinv.openSlot ho).findSlot_iff (by decide)]
    simp [Table.openSlot, CallSlot.afterSetup, CallSlot.enterSetup, Table.freshSlot]
  have htable : (exec Fsm.step st shortCall).table =
      (st.table.openSlot (.at 0) 2 (setupTo 3) 1).close 1 := by
    simp only [shortCall, exec_cons, exec_nil, Fsm.table_step_handle,
      Table.afterHandle_openSlot ho]
    have hclose := Table.afterHandle_owner (.at 0) (p := { pduType := .uRelease }) (by decide) hfind
    rwa [if_pos (by decide)] at hclose
  have hfree : heldSlots 1 = {} := by decide
  constructor
  · rw [← Fsm.slots_table, htable]
    simp [Table.openSlot, h, ← hfree]
  · rw [← Fsm.nextUmt_table, htable]
    rfl

theorem exec_shortCalls (n : Nat) {st : Fsm} (hinv : st.table.Inv) (h : st.slots = heldSlots) :
    (exec Fsm.step st (List.replicate n shortCall).flatten).slots = heldSlots ∧
      (exec Fsm.step st (List.replicate n shortCall).flatten).nextUmt =
        bumpUmt^[n] st.nextUmt := by
  induction n generalizing st with
  | zero => exact ⟨h, rfl⟩
  | succ n ih =>
      obtain ⟨hslots, humt⟩ := exec_shortCall hinv h
      have hinv' : (exec Fsm.step st shortCall).table.Inv :=
        exec_induction (P := fun st : Fsm ↦ st.table.Inv) Fsm.step Fsm.step_inv hinv _
      rw [List.replicate_succ, List.flatten_cons, exec_append, Function.iterate_succ_apply, ← humt]
      exact ih hinv' hslots

/-- After the run slots 0 and 1 hold calls with usage marker 4. -/
theorem not_distinctMarkers_outlivingRun :
    ¬ (exec Fsm.step Fsm.init outlivingRun).DistinctMarkers := by
  have hinv : (Fsm.init.step (.handle (.at 0) 1 (setupTo 100))).table.Inv :=
    Fsm.step_inv _ _ Fsm.init_inv
  obtain ⟨hslots, humt⟩ := exec_shortCalls 59 hinv rfl
  rw [outlivingRun, List.cons_append, exec_cons, exec_append]
  generalize exec Fsm.step _ (List.replicate 59 shortCall).flatten = st at hslots humt ⊢
  have ho := opensAt_heldSlots (T := st.table) hslots
  have hopen : (exec Fsm.step st [.handle (.at 0) 2 (setupTo 3)]).slots =
      (st.table.openSlot (.at 0) 2 (setupTo 3) 1).slots := by
    rw [← Table.afterHandle_openSlot ho, ← Fsm.table_step_handle]
    rfl
  have humt' : st.nextUmt = 4 := humt.trans (by decide +kernel)
  intro hd
  have h01 := hd 0 1 (by decide)
  rw [hopen] at h01
  simp [Table.openSlot, hslots, Table.freshSlot, CallSlot.afterSetup, CallSlot.enterSetup,
    CallSlot.Active, humt'] at h01
  exact (h01 (by decide)).1 (by decide)

/-! ## Groups -/

/-- Two calls to one group. -/
def CallSlot.SharesGroup (a b : CallSlot) : Prop :=
  a.groupGssi ≠ 0 ∧ a.groupGssi = b.groupGssi

theorem idRelation_sharesGroup : IdRelation CallSlot.SharesGroup where
  symm h := ⟨h.2 ▸ h.1, h.2.symm⟩
  sameIds := by
    rintro a b b' ⟨-, -, hg⟩ h
    exact ⟨h.1, h.2.trans hg⟩

/-- No group has two calls. -/
def Fsm.OneCallPerGroup (st : Fsm) : Prop :=
  ∀ gssi, gssi ≠ 0 → ∀ i j, (st.slots i).Active → (st.slots j).Active →
    (st.slots i).groupGssi = gssi → (st.slots j).groupGssi = gssi → i = j

theorem Fsm.oneCallPerGroup_iff (st : Fsm) :
    st.OneCallPerGroup ↔ Apart CallSlot.Active CallSlot.SharesGroup st.slots := by
  constructor
  · intro h i j hij hi hj ⟨h0, he⟩
    exact hij (h _ h0 i j hi hj rfl he.symm)
  · intro h gssi h0 i j hi hj hgi hgj
    exact h.eq hi hj ⟨hgi ▸ h0, hgi.trans hgj.symm⟩

/-- If the event is a U-SETUP to a group from the owner of a slot, no other active
slot is that group's. -/
def Fsm.GroupFree (st : Fsm) : Event → Prop
  | .handle env ssi p => p.pduType = .uSetup → calledIsGroup env p = true →
      ∀ i, findSlot st.slots ssi = some i → ∀ j, j ≠ i → (st.slots j).Active →
        (st.slots j).groupGssi ≠ calledSsi p
  | _ => True

theorem CallSlot.afterSetup_groupGssi (s : CallSlot) (env : HandleEnv) (p : CmcePdu) :
    (s.afterSetup env p).groupGssi = if calledIsGroup env p then calledSsi p else 0 := rfl

/-- What shares its group with a slot that a U-SETUP was handled for. -/
theorem CallSlot.sharesGroup_afterSetup {a s : CallSlot} {env : HandleEnv} {p : CmcePdu} :
    a.SharesGroup (s.afterSetup env p) ↔
      calledIsGroup env p = true ∧ a.groupGssi = calledSsi p := by
  rw [SharesGroup, afterSetup_groupGssi]
  by_cases hg : calledIsGroup env p = true
  · rw [if_pos hg]
    exact ⟨fun h ↦ ⟨hg, h.2⟩, fun h ↦ ⟨h.2 ▸ calledSsi_ne_zero hg, h.2⟩⟩
  · rw [if_neg hg]
    exact ⟨fun h ↦ absurd h.2 h.1, fun h ↦ absurd h.1 hg⟩

/-- A re-setup keeps groups apart exactly when no other call is the group's. -/
theorem Table.apart_reSetup_iff {T : Table} (env : HandleEnv) (p : CmcePdu) {i : Fin 8}
    (h : Apart CallSlot.Active CallSlot.SharesGroup T.slots) (hi : (T.slots i).Active) :
    Apart CallSlot.Active CallSlot.SharesGroup (T.set i ((T.slots i).afterSetup env p)).slots ↔
      (calledIsGroup env p = true → ∀ j, j ≠ i → (T.slots j).Active →
        (T.slots j).groupGssi ≠ calledSsi p) := by
  rw [slots_set, apart_update_iff h idRelation_sharesGroup.symm]
  simp only [CallSlot.sharesGroup_afterSetup, not_and]
  exact ⟨fun hnew hg j hji hj ↦ hnew hi j hji hj hg, fun hfree _ j hji hj hg ↦ hfree hg j hji hj⟩

/-- Every other effect of a PDU keeps groups apart: a terminal without a slot joins
the call its group has. -/
theorem Table.apart_sharesGroup_effect {T T' : Table} {env : HandleEnv} {ssi : UInt32}
    {p : CmcePdu} (h : Apart CallSlot.Active CallSlot.SharesGroup T.slots)
    (he : T.Effect env ssi p T') (hno : p.pduType = .uSetup → findSlot T.slots ssi = none) :
    Apart CallSlot.Active CallSlot.SharesGroup T'.slots := by
  have hlive : ∀ {i : Fin 8} {s : CallSlot}, (T.slots i).Active →
      s.groupGssi = (T.slots i).groupGssi →
      Apart CallSlot.Active CallSlot.SharesGroup (T.set i s).slots := fun ha hs ↦
    h.update_live idRelation_sharesGroup.symm ha fun _ hb ↦ ⟨hb.1, hb.2.trans hs⟩
  cases he with
  | none => exact h
  | reSetup hp hi => exact absurd (hno hp) (by simp [hi])
  | @joinSetup i hp hssi hn hgrp hi =>
      obtain ⟨ha, hg⟩ := findSlotByGssi_eq_some hi
      refine hlive ha ?_
      rw [CallSlot.afterSetup_groupGssi, if_pos hgrp, hg]
  | noTimeslot hp hi => exact h.update_dead idRelation_sharesGroup.symm _ not_active_default
  | @openSlot i ho =>
      simp only [Table.openSlot, slots_set, slots_opened, Function.update_idem]
      rw [apart_update_iff h idRelation_sharesGroup.symm]
      intro _ j _ hj hc
      obtain ⟨hgrp, hg⟩ := CallSlot.sharesGroup_afterSetup.mp hc
      exact findSlotByGssi_eq_none (calledSsi_ne_zero hgrp) (ho.noGroupCall hgrp) j hj hg
  | demand hp hi => exact hlive (findSlot_active hi) rfl
  | takeover hp hssi hn hi => exact hlive (findSlotByCallId_eq_some hi).1 rfl
  | ceased hp hi => exact hlive (findSlot_active hi) rfl
  | connect hp hssi hi => exact hlive (Table.connectSlot_active hi) rfl
  | release hp hi => exact T.apart_close idRelation_sharesGroup h _

theorem Fsm.oneCallPerGroup_step_iff (st : Fsm) (e : Event) (h : st.OneCallPerGroup) :
    (st.step e).OneCallPerGroup ↔ st.GroupFree e := by
  rw [oneCallPerGroup_iff] at h ⊢
  cases e with
  | handle env ssi p =>
      rw [← Fsm.slots_table, Fsm.table_step_handle]
      by_cases hre : ∃ i, p.pduType = .uSetup ∧ findSlot st.slots ssi = some i
      · obtain ⟨i, hp, hi⟩ := hre
        rw [Table.afterHandle_reSetup (T := st.table) hp hi,
          Table.apart_reSetup_iff (T := st.table) env p h (findSlot_active hi)]
        simp [GroupFree, hp, hi]
      · have hno : p.pduType = .uSetup → findSlot st.slots ssi = none := fun hp ↦
          Option.eq_none_iff_forall_ne_some.mpr fun i hi ↦ hre ⟨i, hp, hi⟩
        exact iff_of_true
          (Table.apart_sharesGroup_effect h (Table.effect_afterHandle _ env ssi p) hno)
          fun hp _ i hi ↦ absurd ⟨i, hp, hi⟩ hre
  | tick | notifyUlBurst | notifyFirstNub | notifyLateEntry =>
      exact iff_of_true (st.apart_step idRelation_sharesGroup (by simp) h) trivial

/-- **No group ever has two calls exactly when no owner of a slot sets up a call to a
group that has a call on another slot.** -/
theorem oneCallPerGroup_throughout_iff (es : List Event) :
    Throughout Fsm.step Fsm.OneCallPerGroup Fsm.init es ↔
      Along Fsm.step Fsm.GroupFree Fsm.init es :=
  throughout_iff_along Fsm.step (I := fun _ ↦ True) (fun _ _ _ ↦ trivial)
    (fun st e _ h ↦ st.oneCallPerGroup_step_iff e h) trivial
    (fun _ _ _ _ hi ↦ absurd hi not_active_default) es

/-- Terminal 1 calls a party, terminal 2 calls group 100, and terminal 1 then calls
that group from the slot it owns. -/
def secondGroupCallRun : List Event :=
  [.handle (.at 0) 1 (setupTo 3), .handle (.at 0) 2 (setupTo 100),
    .handle (.at 0) 1 (setupTo 100)]

/-- After the run slots 0 and 1 both hold calls to group 100. -/
theorem not_oneCallPerGroup_secondGroupCallRun :
    ¬ (exec Fsm.step Fsm.init secondGroupCallRun).OneCallPerGroup := by
  intro h
  have h01 := h 100 (by decide) 0 1
  exact absurd (h01 (by decide) (by decide) (by decide) (by decide)) (by decide)

end TetraPhy.CallFsm
