import TetraPhy.Lib.Run
import TetraPhy.CallFsm.Effect
import TetraPhy.CallFsm.TickTable

/-!
# The call FSM as a machine

The five public entry points of `tetra_call_fsm.c` that change state are the
machine's events.  An event carries everything the call reads from outside, so a
run is any list of events: any PDUs from any terminals in any order, any clock and
register values, any moments at which the tick and the hooks are called.
-/

namespace TetraPhy.CallFsm

open Sw Run

/-- One call into the FSM. -/
inductive Event
  | handle (env : HandleEnv) (ssi : UInt32) (p : CmcePdu)
  | tick (env : TickEnv)
  | notifyUlBurst (ulAirTs : UInt8) (nowMs : UInt32)
  | notifyFirstNub (nowMs : UInt32)
  | notifyLateEntry (idle : Fin 8 → Bool) (gssi : UInt32)

/-- The state after one call. -/
def Fsm.step (st : Fsm) : Event → Fsm
  | .handle env ssi p => (handle env ssi p st).1
  | .tick env => tick env st
  | .notifyUlBurst ts nowMs => notifyUlBurst ts nowMs st
  | .notifyFirstNub nowMs => notifyFirstNub nowMs st
  | .notifyLateEntry idle gssi => (notifyLateEntry idle gssi st).1

theorem Fsm.step_tick (st : Fsm) (env : TickEnv) : st.step (.tick env) = tick env st := rfl

theorem Fsm.table_step_handle (st : Fsm) (env : HandleEnv) (ssi : UInt32) (p : CmcePdu) :
    (st.step (.handle env ssi p)).table = st.table.afterHandle env ssi p :=
  table_handle env ssi p st

theorem Fsm.table_step_lateEntry (st : Fsm) (idle : Fin 8 → Bool) (gssi : UInt32) :
    (st.step (.notifyLateEntry idle gssi)).table = st.table :=
  table_notifyLateEntry idle gssi st

/-- The state of the freshly started daemon: all slots free. -/
def Fsm.init : Fsm := {}

/-- The states the FSM can be in. -/
def Fsm.Reachable (st : Fsm) : Prop := ∃ es, exec Fsm.step Fsm.init es = st

/-! ## Plain events

What the runs below are made of. -/

/-- An outside in which the clock stands at `t` and 100 is the only group. -/
def HandleEnv.at (t : UInt32) : HandleEnv where
  now _ := t
  idle _ := true
  isGssi g := g == 100

/-- A U-SETUP to an SSI, for a group call if that is a group. -/
def setupTo (ssi : UInt32) : CmcePdu :=
  { pduType := .uSetup, bsiCommunicationType := 1, calledPartyTypeIdentifier := 1
    calledPartySsi := ssi }

/-! ## Induction over steps

A property of tables survives every event if it survives a handled PDU, the freeing
of an expired slot, the set-up sequence, and a change of time stamps. -/

theorem table_tick (env : TickEnv) (st : Fsm) :
    (tick env st).table = ((List.finRange 8).foldl (tickSlot env) st).table :=
  table_maskWriteCached _ _

/-- The loop of the tick, turn by turn. -/
theorem tick_induction {P : Table → Prop} (env : TickEnv)
    (hclose : ∀ T i, P T → (T.slots i).Active → (T.slots i).Expired env.now → P (T.close i))
    (hseq : ∀ T i, P T → (T.slots i).Active → P (T.set i ((T.slots i).sequenced env.now)))
    (hstamp : ∀ T T', P T → T.Stamped T' → P T')
    {st : Fsm} (h : P st.table) : P (tick env st).table := by
  have hslot : ∀ (st : Fsm) i, P st.table → P (tickSlot env st i).table := by
    intro st i h
    by_cases ha : (st.slots i).Active
    · by_cases he : (st.slots i).Expired env.now
      · rw [table_tickSlot_of_expired env ha he]
        exact hclose _ _ h ha he
      · exact hstamp _ _ (hseq _ _ h ha) (stamped_tickSlot_of_not_expired env ha he)
    · rw [table_tickSlot_of_not_active env ha]
      exact h
  rw [table_tick]
  generalize List.finRange 8 = l
  induction l generalizing st with
  | nil => exact h
  | cons i l ih => exact ih (hslot st i h)

/-- **One step on the table**, by kind of event. -/
theorem step_induction {P : Table → Prop}
    (hhandle : ∀ T env ssi p, P T → P (T.afterHandle env ssi p))
    (hclose : ∀ T i now, P T → (T.slots i).Active → (T.slots i).Expired now → P (T.close i))
    (hseq : ∀ T i now, P T → (T.slots i).Active → P (T.set i ((T.slots i).sequenced now)))
    (hstamp : ∀ T T', P T → T.Stamped T' → P T')
    (st : Fsm) (e : Event) (h : P st.table) : P (st.step e).table := by
  cases e with
  | handle env ssi p =>
      rw [Fsm.table_step_handle]
      exact hhandle _ _ _ _ h
  | tick env => exact tick_induction env (hclose · · env.now) (hseq · · env.now) hstamp h
  | notifyUlBurst ts nowMs => exact hstamp _ _ h (stamped_notifyUlBurst ts nowMs st)
  | notifyFirstNub nowMs => exact hstamp _ _ h (stamped_notifyFirstNub nowMs st)
  | notifyLateEntry idle gssi =>
      rw [Fsm.table_step_lateEntry]
      exact h

/-- What holds of the initial table and survives every step holds of every
reachable table. -/
theorem Fsm.Reachable.induction {P : Table → Prop} (hinit : P Fsm.init.table)
    (hstep : ∀ (st : Fsm) e, P st.table → P (st.step e).table) {st : Fsm} (h : st.Reachable) :
    P st.table := by
  obtain ⟨es, rfl⟩ := h
  exact exec_induction (P := fun st : Fsm ↦ P st.table) Fsm.step hstep hinit es

end TetraPhy.CallFsm
