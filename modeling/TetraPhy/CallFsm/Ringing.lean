import TetraPhy.CallFsm.Invariant

/-!
# Ringing calls

An individual call rings, in state `connecting`, until the called party accepts it.
The traffic channel must not open before that.  The handlers of U-TX-DEMAND,
U-TX-CEASED and U-CONNECT, and a group U-SETUP from the owner, all write the state of
the slot their lookup yields without asking whether it still rings, and U-CONNECT does
not ask who sends it.

`Table.PutsThrough` says which slot a PDU connects, by the lookups alone;
`open_afterHandle_iff` that nothing else ever connects a ringing one.  Hence the exact
condition for runs, `opensOnAccept_along_iff`.
-/

namespace TetraPhy.CallFsm

open Sw Run Pool

/-- An individual call that has not been answered. -/
def CallSlot.Ringing (s : CallSlot) : Prop :=
  s.Active ∧ s.state = .connecting ∧ s.targetIssi ≠ 0

/-- A call whose traffic channel is open. -/
def CallSlot.Open (s : CallSlot) : Prop := s.state = .connected ∨ s.state = .talker

/-- The event is the acceptance of the call in slot `s` by its called party. -/
def Event.Accepts (s : CallSlot) : Event → Prop
  | .handle _ ssi p => ssi = s.targetIssi ∧ p.pduType = .uConnect ∧ p.callIdentifier = s.callId
  | _ => False

/-- The step opens no ringing call but the one it accepts. -/
def Fsm.OpensOnAccept (st : Fsm) (e : Event) : Prop :=
  ∀ i, (st.slots i).Ringing → ((st.step e).slots i).Open → e.Accepts (st.slots i)

/-- The PDU connects slot `i`, whatever its state: for a group U-SETUP and a U-TX-CEASED
that is the sender's own slot, for a U-TX-DEMAND and a U-CONNECT also the one with the
call identifier. -/
def Table.PutsThrough (T : Table) (env : HandleEnv) (ssi : UInt32) (p : CmcePdu) (i : Fin 8) :
    Prop :=
  ssi ≠ 0 ∧
    match p.pduType with
    | .uSetup => calledIsGroup env p = true ∧ findSlot T.slots ssi = some i
    | .uTxCeased => findSlot T.slots ssi = some i
    | .uTxDemand | .uConnect => T.connectSlot ssi p = some i
    | _ => False

/-- A PDU that puts a ringing call through is its acceptance. -/
def Fsm.RingsUntilAccepted (st : Fsm) : Event → Prop
  | .handle env ssi p => ∀ i, (st.slots i).Ringing → st.table.PutsThrough env ssi p i →
      (Event.handle env ssi p).Accepts (st.slots i)
  | _ => True

/-! ## What opens a ringing call -/

theorem CallSlot.Ringing.not_open {s : CallSlot} (h : s.Ringing) : ¬ s.Open := by
  obtain ⟨-, hs, -⟩ := h
  simp [Open, hs]

theorem CallSlot.not_open_default : ¬ (({} : CallSlot).Open) := by
  simp [Open]

/-- An update opens a ringing slot only if it is that slot's and stores an open record. -/
theorem open_update {g : SlotTable} {i j : Fin 8} {s : CallSlot} (hr : (g i).Ringing)
    (ho : (Function.update g j s i).Open) : i = j ∧ s.Open := by
  by_cases hij : i = j
  · subst hij
    exact ⟨rfl, by simpa using ho⟩
  · rw [Function.update_of_ne hij] at ho
    exact absurd ho hr.not_open

/-- A ringing slot is opened only by a PDU that puts it through. -/
theorem Table.putsThrough_of_open {T : Table} (h : T.Inv) {env : HandleEnv} {ssi : UInt32}
    {p : CmcePdu} {i : Fin 8} (hr : (T.slots i).Ringing)
    (ho : ((T.afterHandle env ssi p).slots i).Open) : T.PutsThrough env ssi p i := by
  have heff := T.effect_afterHandle env ssi p
  generalize T.afterHandle env ssi p = T' at heff ho
  unfold PutsThrough
  cases heff with
  | none => exact absurd ho hr.not_open
  | reSetup hp hi =>
      obtain ⟨rfl, hs⟩ := open_update hr ho
      rw [hp]
      refine ⟨(findSlot_eq_some hi).2, ?_, hi⟩
      by_contra hg
      simp [CallSlot.Open, CallSlot.afterSetup_state, hg] at hs
  | joinSetup hp hssi hn hgrp hi =>
      obtain ⟨rfl, -⟩ := open_update hr ho
      -- a call with a group has no called party, so it does not ring
      have hg := (findSlotByGssi_eq_some hi).2
      rcases h.target i with h0 | h0
      · exact absurd (hg.symm.trans h0) (calledSsi_ne_zero hgrp)
      · exact absurd h0 hr.2.2
  | noTimeslot hp hi => exact absurd (open_update hr ho).2 CallSlot.not_open_default
  | openSlot hopen =>
      simp only [openSlot, slots_set, slots_opened, Function.update_idem] at ho
      obtain ⟨rfl, -⟩ := open_update hr ho
      exact absurd hr.1 hopen.not_active
  | demand hp hi =>
      obtain ⟨rfl, -⟩ := open_update hr ho
      rw [hp]
      exact ⟨(findSlot_eq_some hi).2, connectSlot_owner hi⟩
  | takeover hp hssi hn hi =>
      obtain ⟨rfl, -⟩ := open_update hr ho
      rw [hp]
      exact ⟨hssi, (connectSlot_callId hn).trans hi⟩
  | ceased hp hi =>
      obtain ⟨rfl, -⟩ := open_update hr ho
      rw [hp]
      exact ⟨(findSlot_eq_some hi).2, hi⟩
  | connect hp hssi hi =>
      obtain ⟨rfl, -⟩ := open_update hr ho
      rw [hp]
      exact ⟨hssi, hi⟩
  | release hp hi => exact absurd (open_update hr ho).2 CallSlot.not_open_default

/-- A PDU that puts a slot through leaves it open. -/
theorem Table.open_of_putsThrough {T : Table} {env : HandleEnv} {ssi : UInt32} {p : CmcePdu}
    {i : Fin 8} (hput : T.PutsThrough env ssi p i) :
    ((T.afterHandle env ssi p).slots i).Open := by
  have hset : ∀ {s : CallSlot}, s.Open → ((T.set i s).slots i).Open := fun hs ↦ by
    simpa using hs
  obtain ⟨hssi, hput⟩ := hput
  unfold afterHandle
  rw [if_neg hssi]
  cases hp : p.pduType with
  | uSetup =>
      rw [hp] at hput
      dsimp only
      rw [afterSetup_owner hput.2]
      exact hset (.inl (by rw [CallSlot.afterSetup_state, if_pos hput.1]))
  | uTxCeased =>
      rw [hp] at hput
      dsimp only
      rw [afterCeased_owner hput]
      exact hset (.inl rfl)
  | uTxDemand =>
      rw [hp] at hput
      dsimp only at hput ⊢
      cases hn : findSlot T.slots ssi with
      | some j =>
          obtain rfl : j = i := Option.some.inj ((connectSlot_owner hn).symm.trans hput)
          rw [afterDemand_owner hn]
          exact hset (.inr rfl)
      | none =>
          rw [connectSlot_callId hn] at hput
          rw [afterDemand_takeover hn hput]
          exact hset (.inr rfl)
  | uConnect =>
      rw [hp] at hput
      dsimp only
      rw [afterConnect_some hput]
      exact hset (.inl rfl)
  | none | uAlert | uDisconnect | uInfo | uRelease | uStatus | uSdsData | unsupported =>
      rw [hp] at hput
      exact hput.elim

/-- **A handled PDU opens a ringing slot exactly if it puts it through.** -/
theorem Table.open_afterHandle_iff {T : Table} (h : T.Inv) (env : HandleEnv) (ssi : UInt32)
    (p : CmcePdu) {i : Fin 8} (hr : (T.slots i).Ringing) :
    ((T.afterHandle env ssi p).slots i).Open ↔ T.PutsThrough env ssi p i :=
  ⟨putsThrough_of_open h hr, open_of_putsThrough⟩

/-- The tick and the hooks open nothing. -/
theorem Fsm.not_open_step {st : Fsm} {e : Event} (he : ∀ env ssi p, e ≠ .handle env ssi p)
    {i : Fin 8} (h : ¬ (st.slots i).Open) : ¬ ((st.step e).slots i).Open := by
  have hstamp : ∀ T T' : Table, ¬ (T.slots i).Open → T.Stamped T' → ¬ (T'.slots i).Open := by
    intro T T' h hs
    obtain ⟨-, -, -, -, -, -, hstate, -⟩ := hs.field_eq i
    rwa [CallSlot.Open, hstate]
  have hupd : ∀ (T : Table) j (s : CallSlot), ¬ (T.slots i).Open → (j = i → ¬ s.Open) →
      ¬ (Function.update T.slots j s i).Open := by
    intro T j s h hs
    by_cases hij : i = j
    · subst hij
      simpa using hs rfl
    · rwa [Function.update_of_ne hij]
  cases e with
  | handle env ssi p => exact absurd rfl (he env ssi p)
  | tick env =>
      rw [Fsm.step_tick, ← Fsm.slots_table]
      refine tick_induction (P := fun T ↦ ¬ (T.slots i).Open) env
        (fun T j h _ _ ↦ hupd T j _ h fun _ ↦ CallSlot.not_open_default)
        (fun T j h _ ↦ hupd T j _ h ?_) hstamp h
      rintro rfl
      obtain ⟨-, -, -, hstate, -⟩ := (T.slots j).sequenced_fields env.now
      rwa [CallSlot.Open, hstate]
  | notifyUlBurst ts nowMs => exact hstamp st.table _ h (stamped_notifyUlBurst ts nowMs st)
  | notifyFirstNub nowMs => exact hstamp st.table _ h (stamped_notifyFirstNub nowMs st)
  | notifyLateEntry idle gssi =>
      rw [← Fsm.slots_table, Fsm.table_step_lateEntry]
      exact h

/-! ## Runs -/

theorem Fsm.opensOnAccept_iff {st : Fsm} (h : st.table.Inv) (e : Event) :
    st.OpensOnAccept e ↔ st.RingsUntilAccepted e := by
  cases e with
  | handle env ssi p =>
      refine forall₂_congr fun i hr ↦ ?_
      rw [← Fsm.slots_table (st.step _), Fsm.table_step_handle,
        Table.open_afterHandle_iff h env ssi p hr]
  | tick | notifyUlBurst | notifyFirstNub | notifyLateEntry =>
      exact iff_of_true
        (fun i hr ho ↦ absurd ho (Fsm.not_open_step (by simp) hr.not_open)) trivial

/-- **In a run every ringing call is opened by its acceptance only, exactly when each PDU
that puts a ringing call through is its acceptance.** -/
theorem opensOnAccept_along_iff (es : List Event) :
    Along Fsm.step Fsm.OpensOnAccept Fsm.init es ↔
      Along Fsm.step Fsm.RingsUntilAccepted Fsm.init es :=
  along_congr Fsm.step (I := fun st ↦ st.table.Inv) Fsm.step_inv
    (fun _ e h ↦ Fsm.opensOnAccept_iff h e) Fsm.init_inv es

/-- Terminal 1 calls terminal 2, and terminal 9 demands the floor of that call. -/
def demandWhileRingingRun : List Event :=
  [.handle (.at 0) 1 (setupTo 2), .handle (.at 0) 9 { pduType := .uTxDemand, callIdentifier := 1 }]

/-- The demand opens the traffic channel of the call, which terminal 2 has not accepted. -/
theorem not_opensOnAccept_demandWhileRinging :
    ¬ Along Fsm.step Fsm.OpensOnAccept Fsm.init demandWhileRingingRun := by
  rintro ⟨-, h, -⟩
  exact absurd (h 0 ⟨by decide, by decide, by decide⟩ (.inr (by decide))).1 (by decide)

end TetraPhy.CallFsm
