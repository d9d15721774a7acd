import TetraPhy.CallFsm.Handle
import TetraPhy.CallFsm.Table

/-!
# What a handled PDU does to the table

One function on tables per PDU type, and the theorem that the handler of
`Handle.lean` acts on the table of its state as that function says
(`table_handle`).  The functions say which slot a PDU resolves to and what record
it leaves there; that is all the safety results use.
-/

namespace TetraPhy.CallFsm

open Sw

/-! ## U-SETUP -/

/-- The floor of a call passes to another terminal. -/
def CallSlot.takeFloor (s : CallSlot) (ssi : UInt32) : CallSlot :=
  { s with ssi := ssi, ns := 0, nr := 0 }

/-- A slot after a U-SETUP it was the slot of. -/
def CallSlot.afterSetup (s : CallSlot) (env : HandleEnv) (p : CmcePdu) : CallSlot :=
  let grp := calledIsGroup env p
  { s.enterSetup p grp (env.now 0) with
    state := if grp then .connected else .connecting
    setupStage := if grp then 1 else 11
    setupNextMs := (if grp then env.now 2 else env.now 1) + 113
    lastActivityPollCnt := if grp then env.now 3 else env.now 2 }

/-- A slot after a U-TX-DEMAND it was the slot of. -/
def CallSlot.afterDemand (s : CallSlot) (env : HandleEnv) : CallSlot :=
  { s.nsnrStepBs with state := .talker, lastActivityPollCnt := env.now 0 }

/-- A slot after a U-TX-CEASED. -/
def CallSlot.afterCeased (s : CallSlot) (env : HandleEnv) : CallSlot :=
  { s with
    state := .connected
    tCeasedMs := if s.tCeasedMs == 0 then env.now 0 else s.tCeasedMs
    lastActivityPollCnt := env.now 0 }

/-- A slot after a U-CONNECT it was the slot of. -/
def CallSlot.afterConnect (s : CallSlot) (env : HandleEnv) : CallSlot :=
  { s with state := .connected, setupStage := 0, lastActivityPollCnt := env.now 0 }

/-- `setupSlot` on tables. -/
def Table.setupSlot (T : Table) (ssi cpSsi : UInt32) (cpIsGroup : Bool) : Table × Option (Fin 8) :=
  match findSlot T.slots ssi with
  | some i => (T, some i)
  | none =>
    match if cpIsGroup then findSlotByGssi T.slots cpSsi else none with
    | some i => (T.set i ((T.slots i).takeFloor ssi), some i)
    | none => T.alloc ssi

theorem setupSlot_table (ssi cpSsi : UInt32) (cpIsGroup : Bool) (st : Fsm) :
    ((setupSlot ssi cpSsi cpIsGroup st).1.table, (setupSlot ssi cpSsi cpIsGroup st).2) =
      st.table.setupSlot ssi cpSsi cpIsGroup := by
  unfold setupSlot Table.setupSlot
  rw [Fsm.slots_table]
  cases findSlot st.slots ssi with
  | some i => rfl
  | none =>
      dsimp only
      cases (if cpIsGroup then findSlotByGssi st.slots cpSsi else none) with
      | some i => rfl
      | none => exact allocSlot_table ssi st

/-- The table after a U-SETUP. -/
def Table.afterSetup (T : Table) (env : HandleEnv) (ssi : UInt32) (p : CmcePdu) : Table :=
  match T.setupSlot ssi (calledSsi p) (calledIsGroup env p) with
  | (T, none) => T
  | (T, some i) => T.set i ((T.slots i).afterSetup env p)

theorem table_handleSetup (env : HandleEnv) (ssi : UInt32) (p : CmcePdu) (st : Fsm) :
    (handleSetup env ssi p st).1.table = st.table.afterSetup env ssi p := by
  unfold handleSetup Table.afterSetup
  rw [← setupSlot_table]
  dsimp only
  rcases setupSlot ssi (calledSsi p) (calledIsGroup env p) st with ⟨st, - | i⟩
  · rfl
  · dsimp only
    cases hg : calledIsGroup env p with
    | true => simp [stageDConnect, CallSlot.afterSetup, hg]
    | false => simp [stageDCallProceeding, stageDAlert, stageDSetup, CallSlot.afterSetup, hg]

/-! ## U-TX-DEMAND and U-TX-CEASED -/

/-- `demandSlot` on tables. -/
def Table.demandSlot (T : Table) (ssi : UInt32) (p : CmcePdu) : Table × Option (Fin 8) :=
  match findSlot T.slots ssi with
  | some i => (T, some i)
  | none =>
    match findSlotByCallId T.slots p.callIdentifier with
    | some i => (T.set i ((T.slots i).takeFloor ssi), some i)
    | none => (T, none)

theorem demandSlot_table (ssi : UInt32) (p : CmcePdu) (st : Fsm) :
    ((demandSlot ssi p st).1.table, (demandSlot ssi p st).2) = st.table.demandSlot ssi p := by
  unfold demandSlot Table.demandSlot
  rw [Fsm.slots_table]
  cases findSlot st.slots ssi with
  | some i => rfl
  | none =>
      dsimp only
      cases findSlotByCallId st.slots p.callIdentifier <;> rfl

/-- The table after a U-TX-DEMAND. -/
def Table.afterDemand (T : Table) (env : HandleEnv) (ssi : UInt32) (p : CmcePdu) : Table :=
  match T.demandSlot ssi p with
  | (T, none) => T
  | (T, some i) => T.set i ((T.slots i).afterDemand env)

theorem table_handleTxDemand (env : HandleEnv) (ssi : UInt32) (p : CmcePdu) (st : Fsm) :
    (handleTxDemand env ssi p st).1.table = st.table.afterDemand env ssi p := by
  unfold handleTxDemand Table.afterDemand
  rw [← demandSlot_table]
  rcases demandSlot ssi p st with ⟨st, - | i⟩
  · rfl
  · simp [stageDTxGranted, CallSlot.afterDemand]

/-- The table after a U-TX-CEASED. -/
def Table.afterCeased (T : Table) (env : HandleEnv) (ssi : UInt32) : Table :=
  match findSlot T.slots ssi with
  | none => T
  | some i => T.set i ((T.slots i).afterCeased env)

/-- Repeated submissions leave the table alone. -/
theorem table_foldl_submit (ks : List Nat) (idle : Nat → Bool) (cls : TxPduClass) (m : TxPduMeta)
    (r : Fsm × Int) :
    (ks.foldl (fun (st, _) k ↦ st.submit (idle k) cls m) r).1.table = r.1.table := by
  induction ks generalizing r with
  | nil => rfl
  | cons k ks ih => rw [List.foldl_cons, ih, table_submit]

theorem table_handleTxCeased (env : HandleEnv) (ssi : UInt32) (st : Fsm) :
    (handleTxCeased env ssi st).1.table = st.table.afterCeased env ssi := by
  unfold handleTxCeased Table.afterCeased
  rw [Fsm.slots_table]
  cases findSlot st.slots ssi with
  | none => rfl
  | some i => exact table_foldl_submit _ env.idle _ _ _

/-! ## U-CONNECT and U-ALERT -/

/-- `connectSlot` on tables. -/
def Table.connectSlot (T : Table) (ssi : UInt32) (p : CmcePdu) : Option (Fin 8) :=
  match findSlot T.slots ssi with
  | some i => some i
  | none => findSlotByCallId T.slots p.callIdentifier

/-- The table after a U-CONNECT. -/
def Table.afterConnect (T : Table) (env : HandleEnv) (ssi : UInt32) (p : CmcePdu) : Table :=
  match T.connectSlot ssi p with
  | none => T
  | some i => T.set i ((T.slots i).afterConnect env)

theorem table_handleConnect (env : HandleEnv) (ssi : UInt32) (p : CmcePdu) (st : Fsm) :
    (handleConnect env ssi p st).1.table = st.table.afterConnect env ssi p := by
  unfold handleConnect Table.afterConnect
  have hslot : connectSlot ssi p st = st.table.connectSlot ssi p := rfl
  rw [← hslot]
  cases connectSlot ssi p st with
  | none => rfl
  | some i => simp [stageDConnect, stageDConnectAck, CallSlot.afterConnect]

theorem table_handleAlert (ssi : UInt32) (p : CmcePdu) (st : Fsm) :
    (handleAlert ssi p st).1.table = st.table := by
  unfold handleAlert
  cases connectSlot ssi p st <;> rfl

/-! ## U-RELEASE and U-DISCONNECT -/

/-- The table after a U-RELEASE or U-DISCONNECT. -/
def Table.afterRelease (T : Table) (ssi : UInt32) : Table :=
  match findSlot T.slots ssi with
  | none => T
  | some i => T.close i

theorem table_handleRelease (env : HandleEnv) (ssi : UInt32) (p : CmcePdu) (st : Fsm) :
    (handleRelease env ssi p st).1.table = st.table.afterRelease ssi := by
  unfold handleRelease Table.afterRelease
  rw [Fsm.slots_table]
  cases findSlot st.slots ssi with
  | none => rfl
  | some i =>
      dsimp only [stageDRelease]
      split <;>
        simp only [table_emit_voiceFillerClear, table_maskWriteCached, table_freeSlot,
          table_submit, table_modify] <;>
        exact Table.close_set rfl

/-- The table after a handled PDU. -/
def Table.afterHandle (T : Table) (env : HandleEnv) (ssi : UInt32) (p : CmcePdu) : Table :=
  if ssi = 0 then T
  else
    match p.pduType with
    | .uSetup => T.afterSetup env ssi p
    | .uTxDemand => T.afterDemand env ssi p
    | .uTxCeased => T.afterCeased env ssi
    | .uConnect => T.afterConnect env ssi p
    | .uRelease | .uDisconnect => T.afterRelease ssi
    | _ => T

/-- **The handler acts on the table as `Table.afterHandle` says.** -/
theorem table_handle (env : HandleEnv) (ssi : UInt32) (p : CmcePdu) (st : Fsm) :
    (handle env ssi p st).1.table = st.table.afterHandle env ssi p := by
  unfold handle Table.afterHandle
  by_cases hssi : ssi = 0
  · rw [if_pos (by simpa using hssi), if_pos hssi]
  · rw [if_neg (by simpa using hssi), if_neg hssi]
    cases p.pduType with
    | uSetup => exact table_handleSetup env ssi p st
    | uTxDemand => exact table_handleTxDemand env ssi p st
    | uTxCeased => exact table_handleTxCeased env ssi st
    | uConnect => exact table_handleConnect env ssi p st
    | uAlert => exact table_handleAlert ssi p st
    | uRelease | uDisconnect => exact table_handleRelease env ssi p st
    | none | uInfo | uStatus | uSdsData | unsupported => rfl

/-! ## Resolved lookups

The same functions once the slot lookups are known. -/

namespace Table

variable {T : Table} {env : HandleEnv} {ssi : UInt32} {p : CmcePdu} {i : Fin 8}

theorem afterSetup_owner (hi : findSlot T.slots ssi = some i) :
    T.afterSetup env ssi p = T.set i ((T.slots i).afterSetup env p) := by
  unfold afterSetup setupSlot
  rw [hi]

theorem afterSetup_join (hn : findSlot T.slots ssi = none) (hg : calledIsGroup env p = true)
    (hi : findSlotByGssi T.slots (calledSsi p) = some i) :
    T.afterSetup env ssi p = T.set i (((T.slots i).takeFloor ssi).afterSetup env p) := by
  unfold afterSetup setupSlot
  rw [hn, if_pos hg, hi]
  dsimp only
  rw [set_set, slots_set, Function.update_self]

theorem afterSetup_alloc (hn : findSlot T.slots ssi = none)
    (hg : calledIsGroup env p = true → findSlotByGssi T.slots (calledSsi p) = none) :
    T.afterSetup env ssi p =
      match T.alloc ssi with
      | (T, none) => T
      | (T, some i) => T.set i ((T.slots i).afterSetup env p) := by
  have hnone : (if calledIsGroup env p = true then findSlotByGssi T.slots (calledSsi p)
      else none) = none := by
    split
    · exact hg ‹_›
    · rfl
  unfold afterSetup setupSlot
  rw [hn, hnone]

theorem afterDemand_owner (hi : findSlot T.slots ssi = some i) :
    T.afterDemand env ssi p = T.set i ((T.slots i).afterDemand env) := by
  unfold afterDemand demandSlot
  rw [hi]

theorem afterDemand_takeover (hn : findSlot T.slots ssi = none)
    (hi : findSlotByCallId T.slots p.callIdentifier = some i) :
    T.afterDemand env ssi p = T.set i (((T.slots i).takeFloor ssi).afterDemand env) := by
  unfold afterDemand demandSlot
  rw [hn, hi]
  dsimp only
  rw [set_set, slots_set, Function.update_self]

theorem afterDemand_none (hn : findSlot T.slots ssi = none)
    (hi : findSlotByCallId T.slots p.callIdentifier = none) : T.afterDemand env ssi p = T := by
  unfold afterDemand demandSlot
  rw [hn, hi]

theorem afterCeased_owner (hi : findSlot T.slots ssi = some i) :
    T.afterCeased env ssi = T.set i ((T.slots i).afterCeased env) := by
  unfold afterCeased
  rw [hi]

theorem afterCeased_none (hn : findSlot T.slots ssi = none) : T.afterCeased env ssi = T := by
  unfold afterCeased
  rw [hn]

theorem connectSlot_owner (hi : findSlot T.slots ssi = some i) :
    T.connectSlot ssi p = some i := by
  unfold connectSlot
  rw [hi]

theorem connectSlot_callId (hn : findSlot T.slots ssi = none) :
    T.connectSlot ssi p = findSlotByCallId T.slots p.callIdentifier := by
  unfold connectSlot
  rw [hn]

theorem afterConnect_some (hi : T.connectSlot ssi p = some i) :
    T.afterConnect env ssi p = T.set i ((T.slots i).afterConnect env) := by
  unfold afterConnect
  rw [hi]

theorem afterConnect_none (hn : T.connectSlot ssi p = none) : T.afterConnect env ssi p = T := by
  unfold afterConnect
  rw [hn]

theorem afterRelease_owner (hi : findSlot T.slots ssi = some i) :
    T.afterRelease ssi = T.close i := by
  unfold afterRelease
  rw [hi]

theorem afterRelease_none (hn : findSlot T.slots ssi = none) : T.afterRelease ssi = T := by
  unfold afterRelease
  rw [hn]

end Table

end TetraPhy.CallFsm
