import TetraPhy.CallFsm.HandleTable

/-!
# The effects of a handled PDU

`Table.Effect` lists, once, everything a handled PDU can do to the table, together
with the lookups that lead there:

| effect | PDU | slot |
|---|---|---|
| `none` | any | — |
| `reSetup` | U-SETUP | the sender's own |
| `joinSetup` | U-SETUP to a group that has a call | that call's |
| `noTimeslot` | U-SETUP with every timeslot taken | the first free one, untouched |
| `openSlot` | U-SETUP | the first free one |
| `demand` | U-TX-DEMAND | the sender's own |
| `takeover` | U-TX-DEMAND from another terminal | the one with the call identifier |
| `ceased` | U-TX-CEASED | the sender's own |
| `connect` | U-CONNECT | the sender's own, else the one with the call identifier |
| `release` | U-RELEASE, U-DISCONNECT | the sender's own |

An invariant of the table is checked against these ten cases and never against the
handlers.
-/

namespace TetraPhy.CallFsm

open Sw

/-- A U-SETUP that opens slot `i`: its sender has no slot, no call of the group
called can be joined, `i` is the first free slot, and a timeslot is free. -/
structure Table.OpensAt (T : Table) (env : HandleEnv) (ssi : UInt32) (p : CmcePdu) (i : Fin 8) :
    Prop where
  sender : ssi ≠ 0
  setup : p.pduType = .uSetup
  noSlot : findSlot T.slots ssi = none
  noGroupCall : calledIsGroup env p = true → findSlotByGssi T.slots (calledSsi p) = none
  firstFree : (Fin.find? fun i ↦ (T.slots i).ssi == 0) = some i
  freeTs : allocVoiceTs T.slots ≠ 0

/-- The table after a U-SETUP that opens slot `i`. -/
def Table.openSlot (T : Table) (env : HandleEnv) (ssi : UInt32) (p : CmcePdu) (i : Fin 8) :
    Table :=
  (T.opened i ssi (allocVoiceTs T.slots)).set i
    ((T.freshSlot ssi (allocVoiceTs T.slots)).afterSetup env p)

/-- What a handled PDU can do to the table. -/
inductive Table.Effect (T : Table) (env : HandleEnv) (ssi : UInt32) (p : CmcePdu) : Table → Prop
  | none : Effect T env ssi p T
  | reSetup {i : Fin 8} (hp : p.pduType = .uSetup) (hi : findSlot T.slots ssi = some i) :
      Effect T env ssi p (T.set i ((T.slots i).afterSetup env p))
  | joinSetup {i : Fin 8} (hp : p.pduType = .uSetup) (hssi : ssi ≠ 0)
      (hn : findSlot T.slots ssi = none) (hgrp : calledIsGroup env p = true)
      (hi : findSlotByGssi T.slots (calledSsi p) = some i) :
      Effect T env ssi p (T.set i (((T.slots i).takeFloor ssi).afterSetup env p))
  | noTimeslot {i : Fin 8} (hp : p.pduType = .uSetup) (hi : ¬ (T.slots i).Active) :
      Effect T env ssi p (T.burn.set i {})
  | openSlot {i : Fin 8} (h : T.OpensAt env ssi p i) :
      Effect T env ssi p (T.openSlot env ssi p i)
  | demand {i : Fin 8} (hp : p.pduType = .uTxDemand) (hi : findSlot T.slots ssi = some i) :
      Effect T env ssi p (T.set i ((T.slots i).afterDemand env))
  | takeover {i : Fin 8} (hp : p.pduType = .uTxDemand) (hssi : ssi ≠ 0)
      (hn : findSlot T.slots ssi = none) (hi : findSlotByCallId T.slots p.callIdentifier = some i) :
      Effect T env ssi p (T.set i (((T.slots i).takeFloor ssi).afterDemand env))
  | ceased {i : Fin 8} (hp : p.pduType = .uTxCeased) (hi : findSlot T.slots ssi = some i) :
      Effect T env ssi p (T.set i ((T.slots i).afterCeased env))
  | connect {i : Fin 8} (hp : p.pduType = .uConnect) (hssi : ssi ≠ 0)
      (hi : T.connectSlot ssi p = some i) :
      Effect T env ssi p (T.set i ((T.slots i).afterConnect env))
  | release {i : Fin 8} (hp : p.pduType = .uRelease ∨ p.pduType = .uDisconnect)
      (hi : findSlot T.slots ssi = some i) : Effect T env ssi p (T.close i)

/-! ## What the lookups find -/

theorem findSlot_active {g : SlotTable} {ssi : UInt32} {i : Fin 8} (h : findSlot g ssi = some i) :
    (g i).Active := by
  obtain ⟨he, h0⟩ := findSlot_eq_some h
  rwa [CallSlot.Active, he]

theorem Table.connectSlot_active {T : Table} {ssi : UInt32} {p : CmcePdu} {i : Fin 8}
    (h : T.connectSlot ssi p = some i) : (T.slots i).Active := by
  unfold Table.connectSlot at h
  cases hf : findSlot T.slots ssi with
  | none =>
      rw [hf] at h
      exact (findSlotByCallId_eq_some h).1
  | some j =>
      rw [hf] at h
      cases h
      exact findSlot_active hf

/-- The first free slot is free. -/
theorem Table.OpensAt.not_active {T : Table} {env : HandleEnv} {ssi : UInt32} {p : CmcePdu}
    {i : Fin 8} (h : T.OpensAt env ssi p i) : ¬ (T.slots i).Active := by
  simpa [CallSlot.Active] using Fin.eq_true_of_find?_eq_some h.firstFree

/-- A group call has a group. -/
theorem calledSsi_ne_zero {env : HandleEnv} {p : CmcePdu} (h : calledIsGroup env p = true) :
    calledSsi p ≠ 0 := by
  simp only [calledIsGroup, Bool.and_eq_true, bne_iff_ne] at h
  exact h.1.1

/-! ## Classification -/

theorem Table.afterSetup_openSlot {T : Table} {env : HandleEnv} {ssi : UInt32} {p : CmcePdu}
    {i : Fin 8} (h : T.OpensAt env ssi p i) :
    T.afterSetup env ssi p = T.openSlot env ssi p i := by
  rw [Table.afterSetup_alloc h.noSlot h.noGroupCall, Table.alloc, h.firstFree]
  dsimp only
  rw [if_neg h.freeTs]
  simp [Table.openSlot]

theorem Table.afterHandle_openSlot {T : Table} {env : HandleEnv} {ssi : UInt32} {p : CmcePdu}
    {i : Fin 8} (h : T.OpensAt env ssi p i) :
    T.afterHandle env ssi p = T.openSlot env ssi p i := by
  unfold Table.afterHandle
  rw [if_neg h.sender, h.setup]
  exact Table.afterSetup_openSlot h

theorem Table.afterHandle_reSetup {T : Table} {env : HandleEnv} {ssi : UInt32} {p : CmcePdu}
    {i : Fin 8} (hp : p.pduType = .uSetup) (hi : findSlot T.slots ssi = some i) :
    T.afterHandle env ssi p = T.set i ((T.slots i).afterSetup env p) := by
  unfold Table.afterHandle
  rw [if_neg (findSlot_eq_some hi).2, hp]
  exact Table.afterSetup_owner hi

/-- A PDU about a call, from the owner of a slot: the slot is freed, or has a new
activity time. -/
theorem Table.afterHandle_owner {T : Table} (env : HandleEnv) {ssi : UInt32} {p : CmcePdu}
    (hp : p.pduType.ActsOnCall) {i : Fin 8} (hi : findSlot T.slots ssi = some i) :
    if p.pduType.EndsCall then T.afterHandle env ssi p = T.close i
    else ∃ s, T.afterHandle env ssi p = T.set i s ∧ s.lastActivityPollCnt = env.now 0 := by
  unfold Table.afterHandle
  rw [if_neg (findSlot_eq_some hi).2]
  cases ht : p.pduType with
  | uTxDemand =>
      rw [if_neg (by decide)]
      exact ⟨_, Table.afterDemand_owner hi, rfl⟩
  | uTxCeased =>
      rw [if_neg (by decide)]
      exact ⟨_, Table.afterCeased_owner hi, rfl⟩
  | uConnect =>
      rw [if_neg (by decide)]
      exact ⟨_, Table.afterConnect_some (Table.connectSlot_owner hi), rfl⟩
  | uRelease | uDisconnect =>
      rw [if_pos (by decide)]
      exact Table.afterRelease_owner hi
  | none | uAlert | uInfo | uSetup | uStatus | uSdsData | unsupported =>
      rw [ht] at hp
      exact absurd hp (by decide)

theorem Table.effect_afterSetup (T : Table) (env : HandleEnv) {ssi : UInt32} {p : CmcePdu}
    (hssi : ssi ≠ 0) (hp : p.pduType = .uSetup) :
    T.Effect env ssi p (T.afterSetup env ssi p) := by
  cases hn : findSlot T.slots ssi with
  | some i =>
      rw [Table.afterSetup_owner hn]
      exact .reSetup hp hn
  | none =>
      by_cases hg : calledIsGroup env p = true → findSlotByGssi T.slots (calledSsi p) = none
      · cases hf : Fin.find? fun i ↦ (T.slots i).ssi == 0 with
        | none =>
            rw [Table.afterSetup_alloc hn hg, Table.alloc, hf]
            exact .none
        | some i =>
            by_cases hts : allocVoiceTs T.slots = 0
            · rw [Table.afterSetup_alloc hn hg, Table.alloc, hf]
              dsimp only
              rw [if_pos hts]
              have hi : ¬ (T.slots i).Active := by
                simpa [CallSlot.Active] using Fin.eq_true_of_find?_eq_some hf
              exact .noTimeslot hp hi
            · have hopens : T.OpensAt env ssi p i := ⟨hssi, hp, hn, hg, hf, hts⟩
              rw [Table.afterSetup_openSlot hopens]
              exact .openSlot hopens
      · obtain ⟨hgrp, hj⟩ := Classical.not_imp.mp hg
        obtain ⟨i, hi⟩ := Option.ne_none_iff_exists'.mp hj
        rw [Table.afterSetup_join hn hgrp hi]
        exact .joinSetup hp hssi hn hgrp hi

theorem Table.effect_afterDemand (T : Table) (env : HandleEnv) {ssi : UInt32} {p : CmcePdu}
    (hssi : ssi ≠ 0) (hp : p.pduType = .uTxDemand) :
    T.Effect env ssi p (T.afterDemand env ssi p) := by
  cases hn : findSlot T.slots ssi with
  | some i =>
      rw [Table.afterDemand_owner hn]
      exact .demand hp hn
  | none =>
      cases hc : findSlotByCallId T.slots p.callIdentifier with
      | none =>
          rw [Table.afterDemand_none hn hc]
          exact .none
      | some i =>
          rw [Table.afterDemand_takeover hn hc]
          exact .takeover hp hssi hn hc

/-- **Every handled PDU has one of the listed effects.** -/
theorem Table.effect_afterHandle (T : Table) (env : HandleEnv) (ssi : UInt32) (p : CmcePdu) :
    T.Effect env ssi p (T.afterHandle env ssi p) := by
  unfold Table.afterHandle
  by_cases hssi : ssi = 0
  · rw [if_pos hssi]
    exact .none
  · rw [if_neg hssi]
    cases hp : p.pduType with
    | uSetup => exact T.effect_afterSetup env hssi hp
    | uTxDemand => exact T.effect_afterDemand env hssi hp
    | uTxCeased =>
        cases hi : findSlot T.slots ssi with
        | none => exact (Table.afterCeased_none (T := T) hi).symm ▸ .none
        | some i => exact (Table.afterCeased_owner (T := T) hi).symm ▸ .ceased hp hi
    | uConnect =>
        cases hi : T.connectSlot ssi p with
        | none => exact (Table.afterConnect_none (T := T) hi).symm ▸ .none
        | some i => exact (Table.afterConnect_some (T := T) hi).symm ▸ .connect hp hssi hi
    | uRelease =>
        cases hi : findSlot T.slots ssi with
        | none => exact (Table.afterRelease_none (T := T) hi).symm ▸ .none
        | some i => exact (Table.afterRelease_owner (T := T) hi).symm ▸ .release (.inl hp) hi
    | uDisconnect =>
        cases hi : findSlot T.slots ssi with
        | none => exact (Table.afterRelease_none (T := T) hi).symm ▸ .none
        | some i => exact (Table.afterRelease_owner (T := T) hi).symm ▸ .release (.inr hp) hi
    | none | uAlert | uInfo | uStatus | uSdsData | unsupported => exact .none

end TetraPhy.CallFsm
