import TetraPhy.CallFsm.Invariant

/-!
# The AACH mirror

The access-assignment channel of each voice timeslot tells every terminal in the cell
whose traffic is on it.  Its register is written at two places only, when a slot is
opened and when it is freed, so between the two nothing may move a call to another
timeslot or give it another usage marker.  `Table.Mirrors` couples the registers to
the slot table; it needs the slot-table invariant, because freeing one call must not
blank the timeslot of another.
-/

namespace TetraPhy.CallFsm

open Sw Run Pool

/-- Each timeslot shows the usage marker of the call on it, or idle. -/
structure Table.Mirrors (T : Table) : Prop where
  voice : ∀ i, (T.slots i).Active → T.aach (T.slots i).voiceTs = aachVoiceUmt (T.slots i).umt
  idle : ∀ ts, 2 ≤ ts → ts ≤ 4 → (∀ i, (T.slots i).Active → (T.slots i).voiceTs ≠ ts) →
    T.aach ts = aachIdle

/-- The codewords fit the 14 bits that are written. -/
theorem aachVoiceUmt_mask (n : UInt8) : aachVoiceUmt n &&& 0x3FFF = aachVoiceUmt n := by
  have h : ∀ k : Fin 256, aachVoiceUmt (.ofFin k) &&& 0x3FFF = aachVoiceUmt (.ofFin k) := by
    decide +kernel
  exact h n.toFin

namespace Table

/-- A slot may be rewritten within its call. -/
theorem Mirrors.set {T : Table} (h : T.Mirrors) {i : Fin 8} {s : CallSlot}
    (ha : s.Active ↔ (T.slots i).Active) (hs : s.Active → (T.slots i).SameCall s) :
    (T.set i s).Mirrors := by
  have hcall : ∀ j, ((T.set i s).slots j).Active → (T.slots j).Active ∧
      (T.slots j).SameCall ((T.set i s).slots j) := by
    intro j hj
    by_cases hji : j = i
    · subst hji
      rw [slots_set, Function.update_self] at hj ⊢
      exact ⟨ha.1 hj, hs hj⟩
    · rw [slots_set, Function.update_of_ne hji] at hj ⊢
      exact ⟨hj, rfl, rfl, rfl⟩
  constructor
  · intro j hj
    obtain ⟨hj', hts, humt, -⟩ := hcall j hj
    rw [hts, humt]
    exact h.voice j hj'
  · intro ts h2 h4 hfree
    refine h.idle ts h2 h4 fun j hj he ↦ ?_
    have hj' : ((T.set i s).slots j).Active := by
      by_cases hji : j = i
      · subst hji
        simpa using ha.2 hj
      · simpa [Function.update_of_ne hji] using hj
    exact hfree j hj' ((hcall j hj').2.1.trans he)

/-- Freeing a slot blanks its own timeslot and no other. -/
theorem Mirrors.close {T : Table} (h : T.Mirrors) (hinv : T.Inv) {i : Fin 8}
    (hi : (T.slots i).Active) : (T.close i).Mirrors := by
  obtain ⟨h2, h4⟩ := (hinv.ok i hi).voiceTs
  have haach : (T.close i).aach = Function.update T.aach (T.slots i).voiceTs aachIdle := by
    simp only [Table.close]
    rw [if_pos ⟨by grind, h4⟩]
    rfl
  constructor
  · intro j hj
    have hji : j ≠ i := by
      rintro rfl
      simp at hj
    rw [slots_close, Function.update_of_ne hji] at hj ⊢
    rw [haach, Function.update_of_ne (hinv.timeslots j i hji hj hi)]
    exact h.voice j hj
  · intro ts ht2 ht4 hfree
    rw [haach]
    by_cases hts : ts = (T.slots i).voiceTs
    · rw [hts, Function.update_self]
    · rw [Function.update_of_ne hts]
      refine h.idle ts ht2 ht4 fun j hj he ↦ ?_
      have hji : j ≠ i := by
        rintro rfl
        exact hts he.symm
      refine hfree j ?_ ?_ <;> rwa [slots_close, Function.update_of_ne hji]

/-- Opening a slot puts its marker on a timeslot that showed idle. -/
theorem Mirrors.openSlot {T : Table} (h : T.Mirrors) {env : HandleEnv} {ssi : UInt32}
    {p : CmcePdu} {i : Fin 8} (ho : T.OpensAt env ssi p i) :
    (T.openSlot env ssi p i).Mirrors := by
  obtain ⟨-, hfree⟩ := allocVoiceTs_spec ho.freeTs
  have hslots : (T.openSlot env ssi p i).slots = Function.update T.slots i
      ((T.freshSlot ssi (allocVoiceTs T.slots)).afterSetup env p) := by
    simp [Table.openSlot]
  have haach : (T.openSlot env ssi p i).aach =
      Function.update T.aach (allocVoiceTs T.slots) (aachVoiceUmt T.nextUmt) := by
    rw [← aachVoiceUmt_mask]
    rfl
  constructor
  · intro j hj
    rw [hslots] at hj ⊢
    rw [haach]
    by_cases hji : j = i
    · subst hji
      rw [Function.update_self]
      exact Function.update_self _ _ _
    · rw [Function.update_of_ne hji] at hj ⊢
      rw [Function.update_of_ne (hfree j hj)]
      exact h.voice j hj
  · intro ts h2 h4 hts
    have hne : allocVoiceTs T.slots ≠ ts := by
      have := hts i
      rw [hslots, Function.update_self] at this
      exact this ho.sender
    rw [haach, Function.update_of_ne hne.symm]
    refine h.idle ts h2 h4 fun j hj he ↦ ?_
    have hji : j ≠ i := by
      rintro rfl
      exact ho.not_active hj
    refine hts j ?_ ?_ <;> rwa [hslots, Function.update_of_ne hji]

/-- Time stamps do not show. -/
theorem Mirrors.stamped {T T' : Table} (h : T.Mirrors) (hs : T.Stamped T') : T'.Mirrors := by
  have hact : ∀ i, (T'.slots i).Active ↔ (T.slots i).Active := fun i ↦ by
    rw [CallSlot.Active, CallSlot.Active, (hs.field_eq i).1]
  constructor
  · intro i hi
    obtain ⟨-, -, -, -, humt, hts, -⟩ := hs.field_eq i
    rw [hs.aach, hts, humt]
    exact h.voice i ((hact i).1 hi)
  · intro ts h2 h4 hfree
    rw [hs.aach]
    refine h.idle ts h2 h4 fun i hi he ↦ ?_
    obtain ⟨-, -, -, -, -, hts, -⟩ := hs.field_eq i
    exact hfree i ((hact i).2 hi) (hts.trans he)

/-- **Every effect of a handled PDU keeps the registers in step.** -/
theorem Mirrors.effect {T T' : Table} {env : HandleEnv} {ssi : UInt32} {p : CmcePdu}
    (h : T.Mirrors) (hinv : T.Inv) (he : T.Effect env ssi p T') : T'.Mirrors := by
  -- a live slot rewritten by its owner, or by a sender
  have hown : ∀ {i : Fin 8} {s : CallSlot}, (T.slots i).Active → (T.slots i).SameCall s →
      s.ssi = (T.slots i).ssi → (T.set i s).Mirrors := fun ha hs hssi ↦
    h.set (iff_of_true (by rwa [CallSlot.Active, hssi]) ha) fun _ ↦ hs
  have hsender : ∀ {i : Fin 8} {s : CallSlot}, (T.slots i).Active → (T.slots i).SameCall s →
      s.ssi = ssi → ssi ≠ 0 → (T.set i s).Mirrors := fun ha hs hssi h0 ↦
    h.set (iff_of_true (by rwa [CallSlot.Active, hssi]) ha) fun _ ↦ hs
  cases he with
  | none => exact h
  | reSetup hp hi => exact hown (findSlot_active hi) (CallSlot.sameCall_afterSetup _ env p) rfl
  | joinSetup hp hssi hn hgrp hi =>
      exact hsender (findSlotByGssi_eq_some hi).1
        (CallSlot.sameCall_takeFloor_afterSetup _ env p ssi) rfl hssi
  | noTimeslot hp hi =>
      have hset : (T.set _ {}).Mirrors :=
        h.set (iff_of_false not_active_default hi) fun ha ↦ absurd ha not_active_default
      exact ⟨hset.voice, hset.idle⟩
  | openSlot ho => exact h.openSlot ho
  | demand hp hi => exact hown (findSlot_active hi) (CallSlot.sameCall_afterDemand _ env) rfl
  | takeover hp hssi hn hi =>
      exact hsender (findSlotByCallId_eq_some hi).1
        (CallSlot.sameCall_takeFloor_afterDemand _ env ssi) rfl hssi
  | ceased hp hi => exact hown (findSlot_active hi) (CallSlot.sameCall_afterCeased _ env) rfl
  | connect hp hssi hi =>
      exact hown (connectSlot_active hi) (CallSlot.sameCall_afterConnect _ env) rfl
  | release hp hi => exact h.close hinv (findSlot_active hi)

theorem Mirrors.sequenced {T : Table} (h : T.Mirrors) {i : Fin 8} (ha : (T.slots i).Active)
    (now : UInt32) : (T.set i ((T.slots i).sequenced now)).Mirrors := by
  obtain ⟨hssi, -, -, -, hsame⟩ := (T.slots i).sequenced_fields now
  exact h.set (iff_of_true (by rwa [CallSlot.Active, hssi]) ha) fun _ ↦ hsame

end Table

/-- One step keeps the registers in step with the slot table. -/
theorem Fsm.step_mirrors (st : Fsm) (e : Event) (h : st.table.Inv ∧ st.table.Mirrors) :
    (st.step e).table.Inv ∧ (st.step e).table.Mirrors := by
  refine step_induction (P := fun T ↦ T.Inv ∧ T.Mirrors) (fun T env ssi p h ↦ ?_)
    (fun T i _ h ha _ ↦ ⟨h.1.close i, h.2.close h.1 ha⟩)
    (fun T i now h ha ↦ ⟨h.1.sequenced i now ha, h.2.sequenced ha now⟩)
    (fun T T' h hs ↦ ⟨h.1.stamped hs, h.2.stamped hs⟩) st e h
  have he := T.effect_afterHandle env ssi p
  exact ⟨h.1.effect he, h.2.effect h.1 he⟩

theorem Fsm.init_mirrors : Fsm.init.table.Mirrors where
  voice _ hi := absurd hi not_active_default
  idle _ _ _ _ := rfl

/-- **The AACH mirror.**  After every run from idle registers, the last value written to
the AACH register of a voice timeslot is the codeword of the usage marker of the call on
that timeslot, and the idle codeword if there is none. -/
theorem aach_mirror (es : List Event) (ts : UInt8) (hts : ts ∈ voiceTimeslots) :
    let st := exec Fsm.step Fsm.init es
    (∀ i, (st.slots i).Active → (st.slots i).voiceTs = ts →
      (lastWritten (tsToAachReg ts) st.hal).getD aachIdle = aachVoiceUmt (st.slots i).umt) ∧
    ((∀ i, (st.slots i).Active → (st.slots i).voiceTs ≠ ts) →
      (lastWritten (tsToAachReg ts) st.hal).getD aachIdle = aachIdle) := by
  intro st
  have h : st.table.Mirrors :=
    (Fsm.Reachable.induction (P := fun T ↦ T.Inv ∧ T.Mirrors)
      ⟨Fsm.init_inv, Fsm.init_mirrors⟩ Fsm.step_mirrors ⟨es, rfl⟩).2
  obtain ⟨h2, h4⟩ := mem_voiceTimeslots.mp hts
  refine ⟨fun i hi he ↦ ?_, h.idle ts h2 h4⟩
  subst he
  exact h.voice i hi

/-- A group call by terminal 1 is shown on TS2. -/
theorem aach_mirror_groupCall :
    let st := exec Fsm.step Fsm.init [.handle (.at 0) 1 (setupTo 100)]
    (lastWritten (tsToAachReg 2) st.hal).getD aachIdle = aachVoiceUmt (st.slots 0).umt :=
  (aach_mirror [.handle (.at 0) 1 (setupTo 100)] 2 (by decide)).1 0 (by decide) (by decide)

end TetraPhy.CallFsm
