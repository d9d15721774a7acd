import TetraPhy.CallFsm.Invariant

/-!
# Which call a PDU touches

U-CONNECT, U-TX-DEMAND, U-TX-CEASED, U-RELEASE and U-DISCONNECT carry the identifier
of the call they are about.  The handlers look for the sender's *own* slot first and
consult the identifier only if there is none (U-CONNECT, U-TX-DEMAND) or not at all
(the other three).  A terminal that owns one call and takes part in another therefore
reaches the wrong one, and the called party of an individual call cannot hang up.

`framed_iff` is the exact condition under which the PDU is about the call it names.
-/

namespace TetraPhy.CallFsm

open Sw Run Pool

/-- The call with identifier `c` is in slot `i`. -/
def Fsm.Holds (st : Fsm) (i : Fin 8) (c : UInt16) : Prop :=
  (st.slots i).Active ∧ (st.slots i).callId = c

/-- A handled PDU is about the call it names: no other slot changes, and a release by
the called party of that call frees it. -/
def Fsm.Framed (st : Fsm) (env : HandleEnv) (ssi : UInt32) (p : CmcePdu) : Prop :=
  (∀ i, (handle env ssi p st).1.slots i ≠ st.slots i → st.Holds i p.callIdentifier) ∧
  (p.pduType.EndsCall → ∀ i, st.Holds i p.callIdentifier → (st.slots i).targetIssi = ssi →
    ssi ≠ 0 → ¬ ((handle env ssi p st).1.slots i).Active)

/-- The sender owns no call but the one it names, and a release does not come from a
called party. -/
def Fsm.OwnCallOnly (st : Fsm) (ssi : UInt32) (p : CmcePdu) : Prop :=
  (∀ i, (st.slots i).Active → (st.slots i).ssi = ssi → (st.slots i).callId = p.callIdentifier) ∧
  (p.pduType.EndsCall → ∀ i, st.Holds i p.callIdentifier → (st.slots i).targetIssi = ssi →
    ssi ≠ 0 → (st.slots i).ssi = ssi)

/-- A slot that such a PDU changes is the sender's own, or one found by the call
identifier. -/
theorem Table.Effect.changed {T T' : Table} {env : HandleEnv} {ssi : UInt32} {p : CmcePdu}
    (he : T.Effect env ssi p T') (hp : p.pduType.ActsOnCall) {j : Fin 8}
    (hj : T'.slots j ≠ T.slots j) :
    findSlot T.slots ssi = some j ∨ findSlotByCallId T.slots p.callIdentifier = some j := by
  have hupd : ∀ {i : Fin 8} {s : CallSlot}, Function.update T.slots i s j ≠ T.slots j → j = i :=
    fun {i s} h ↦ by
      by_contra hji
      exact h (Function.update_of_ne hji s T.slots)
  have hset : p.pduType ≠ .uSetup := by
    intro hs
    rw [hs] at hp
    exact absurd hp (by decide)
  cases he with
  | none => exact absurd rfl hj
  | reSetup hp' | joinSetup hp' | noTimeslot hp' => exact absurd hp' hset
  | openSlot ho => exact absurd ho.setup hset
  | demand _ hi => exact .inl (hupd hj ▸ hi)
  | takeover _ _ _ hi => exact .inr (hupd hj ▸ hi)
  | ceased _ hi => exact .inl (hupd hj ▸ hi)
  | @connect i _ _ hi =>
      obtain rfl := hupd hj
      cases hn : findSlot T.slots ssi with
      | none => exact .inr ((Table.connectSlot_callId hn).symm.trans hi)
      | some k => exact .inl ((Table.connectSlot_owner hn).symm.trans hi)
  | release _ hi => exact .inl (hupd hj ▸ hi)

/-- At a moment other than its last activity, such a PDU changes its sender's slot. -/
theorem Fsm.handle_owner_ne {st : Fsm} {env : HandleEnv} {ssi : UInt32} {p : CmcePdu}
    (hp : p.pduType.ActsOnCall) {i : Fin 8} (hi : findSlot st.slots ssi = some i)
    (hnow : env.now 0 ≠ (st.slots i).lastActivityPollCnt) :
    (handle env ssi p st).1.slots i ≠ st.slots i := by
  have hafter := Table.afterHandle_owner (T := st.table) env hp hi
  rw [← Fsm.slots_table, table_handle]
  intro he
  split at hafter
  · rw [hafter, Table.slots_close, Function.update_self] at he
    exact absurd (findSlot_active hi) (he ▸ not_active_default)
  · obtain ⟨s, hs, hlast⟩ := hafter
    rw [hs, Table.slots_set, Function.update_self] at he
    exact hnow (hlast.symm.trans (congrArg CallSlot.lastActivityPollCnt he))

theorem Fsm.OwnCallOnly.framed {st : Fsm} (h : st.table.Inv) {ssi : UInt32} {p : CmcePdu}
    (hp : p.pduType.ActsOnCall) (ho : st.OwnCallOnly ssi p) (env : HandleEnv) :
    st.Framed env ssi p := by
  constructor
  · intro i hi
    rw [← Fsm.slots_table, table_handle] at hi
    rcases (Table.effect_afterHandle st.table env ssi p).changed hp hi with hf | hf
    · have ha := findSlot_active hf
      exact ⟨ha, ho.1 i ha (findSlot_eq_some hf).1⟩
    · exact findSlotByCallId_eq_some hf
  · intro hends i hi htgt hssi
    have hf : findSlot st.slots ssi = some i :=
      (h.findSlot_iff hssi).2 (ho.2 hends i hi htgt hssi)
    have hafter := Table.afterHandle_owner (T := st.table) env hp hf
    rw [if_pos hends] at hafter
    rw [← Fsm.slots_table, table_handle, hafter, Table.slots_close, Function.update_self]
    exact not_active_default

theorem Fsm.ownCallOnly_of_framed {st : Fsm} (h : st.table.Inv) {ssi : UInt32} {p : CmcePdu}
    (hp : p.pduType.ActsOnCall) (hf : ∀ env, st.Framed env ssi p) : st.OwnCallOnly ssi p := by
  constructor
  · intro i hi hssi
    have hfind : findSlot st.slots ssi = some i := (h.findSlot_iff (hssi ▸ hi)).2 hssi
    let t := (st.slots i).lastActivityPollCnt + 1
    have hne : (HandleEnv.at t).now 0 ≠ (st.slots i).lastActivityPollCnt := by
      change (st.slots i).lastActivityPollCnt + 1 ≠ (st.slots i).lastActivityPollCnt
      grind
    exact ((hf (.at t)).1 i (Fsm.handle_owner_ne hp hfind hne)).2
  · intro hends i hi htgt hssi
    have hfreed := (hf (.at 0)).2 hends i hi htgt hssi
    have hne : (handle (.at 0) ssi p st).1.slots i ≠ st.slots i := fun he ↦
      hfreed (he ▸ hi.1)
    rw [← Fsm.slots_table, table_handle] at hne hfreed
    cases hn : findSlot st.slots ssi with
    | none =>
        have hun : st.table.afterHandle (.at 0) ssi p = st.table := by
          unfold Table.afterHandle
          rw [if_neg hssi]
          rcases hends with ht | ht <;>
            exact ht ▸ Table.afterRelease_none (T := st.table) hn
        exact absurd (congrFun (congrArg Table.slots hun) i) hne
    | some j =>
        have hafter := Table.afterHandle_owner (T := st.table) (.at 0) hp hn
        rw [if_pos hends] at hafter
        rw [hafter, Table.slots_close] at hne
        have hij : i = j := by
          by_contra hij
          exact hne (Function.update_of_ne hij _ _)
        rw [hij]
        exact (findSlot_eq_some hn).1

/-- **A PDU is about the call it names, at every clock reading, exactly when its sender
owns no other call and it is not a release by a called party.** -/
theorem framed_iff (st : Fsm) (h : st.Reachable) (ssi : UInt32) (p : CmcePdu)
    (hp : p.pduType.ActsOnCall) :
    (∀ env, st.Framed env ssi p) ↔ st.OwnCallOnly ssi p :=
  ⟨Fsm.ownCallOnly_of_framed h.inv hp, fun ho ↦ ho.framed h.inv hp⟩

/-- The called party of the first call owns the second one. -/
def twoCallsRun : List Event :=
  [.handle (.at 0) 1 (setupTo 2), .handle (.at 0) 2 (setupTo 100)]

/-- Terminal 1 calls terminal 2, which then accepts: the acceptance is about that call. -/
theorem framed_iff_accept :
    (∀ env, (exec Fsm.step Fsm.init [.handle (.at 0) 1 (setupTo 2)]).Framed env 2
        { pduType := .uConnect, callIdentifier := 1 }) ↔
      (exec Fsm.step Fsm.init [.handle (.at 0) 1 (setupTo 2)]).OwnCallOnly 2
        { pduType := .uConnect, callIdentifier := 1 } :=
  framed_iff _ ⟨_, rfl⟩ 2 _ (by decide)

/-- Terminal 1 calls terminal 2, and terminal 2 owns a group call.  A release of the first
call by terminal 2 frees the second one and leaves the first one up. -/
theorem not_framed_twoCallsRun :
    let st := exec Fsm.step Fsm.init twoCallsRun
    st.Holds 0 1 ∧ (st.slots 0).targetIssi = 2 ∧
      ¬ st.Framed (.at 0) 2 { pduType := .uRelease, callIdentifier := 1 } := by
  refine ⟨⟨by decide, by decide⟩, by decide, ?_⟩
  rintro ⟨hframe, -⟩
  exact absurd (hframe 1 (by decide)).2 (by decide)

end TetraPhy.CallFsm
