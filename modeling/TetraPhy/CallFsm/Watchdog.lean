import TetraPhy.CallFsm.Invariant

/-!
# The watchdogs and the wrap of the clock

The tick frees a ringing call whose ring time-out has elapsed and any other call that
has been idle for too long.  Both ages are differences of 32-bit millisecond stamps,
computed with a comparison first: when the stamp is the larger *number* the age is
taken to be 0.  The set-up sequencer in the same loop and the first-burst hook subtract
modulo `2 ^ 32` instead.  The two agree as long as the counter has not wrapped between
stamp and tick, and `watchdogRight_iff` says that this is exactly when the watchdogs work.

The loop may serve an uplink burst in one slot's turn and thereby refresh the stamp of a
slot whose turn is still to come, so the last activity that counts is the one the slot's
own turn finds.
-/

namespace TetraPhy.CallFsm

open Sw Run Pool

/-! ## Ages -/

/-- The saturating age is the true one exactly if the stamp is not the larger number. -/
theorem slotAge_eq_sub_iff (last now : UInt32) : slotAge last now = now - last ↔ last ≤ now := by
  unfold slotAge
  split <;> grind

/-- A saturating ring age beyond a limit is the true one. -/
theorem ringAge_gt_iff {arrived now limit : UInt32} :
    ringAge arrived now > limit ↔ arrived ≤ now ∧ now - arrived > limit := by
  unfold ringAge
  split <;> grind

/-! ## One slot through the loop -/

/-- The state in which the loop of the tick reaches slot `i`. -/
def Fsm.turn (st : Fsm) (env : TickEnv) (i : Fin 8) : Fsm :=
  ((List.finRange 8).take i).foldl (tickSlot env) st

/-- The last activity of slot `i` as its turn finds it. -/
def Fsm.lastActivityAt (st : Fsm) (env : TickEnv) (i : Fin 8) : UInt32 :=
  ((st.turn env i).slots i).lastActivityPollCnt

/-- The loop visits slot `i` once. -/
theorem finRange_split (i : Fin 8) :
    List.finRange 8 = (List.finRange 8).take i ++ i :: (List.finRange 8).drop (i + 1) ∧
      i ∉ (List.finRange 8).take i ∧ i ∉ (List.finRange 8).drop (i + 1) := by
  revert i
  decide

/-- The turn of another slot only refreshes time stamps. -/
theorem stamped_tickSlot_of_ne (env : TickEnv) (st : Fsm) {i j : Fin 8} (hij : i ≠ j) :
    (st.slots i).Stamped ((tickSlot env st j).slots i) := by
  rw [← Fsm.slots_table (tickSlot env st j)]
  by_cases ha : (st.slots j).Active
  · by_cases he : (st.slots j).Expired env.now
    · rw [table_tickSlot_of_expired env ha he, Table.slots_close, Function.update_of_ne hij]
      exact .refl _
    · have hs := (stamped_tickSlot_of_not_expired env ha he).slots i
      rwa [Table.slots_set, Function.update_of_ne hij] at hs
  · rw [table_tickSlot_of_not_active env ha]
    exact .refl _

theorem stamped_foldl_tickSlot (env : TickEnv) {i : Fin 8} {l : List (Fin 8)} (hi : i ∉ l)
    (st : Fsm) : (st.slots i).Stamped ((l.foldl (tickSlot env) st).slots i) := by
  induction l generalizing st with
  | nil => exact .refl _
  | cons j l ih =>
      obtain ⟨hij, hl⟩ := not_or.mp (mt List.mem_cons.mpr hi)
      exact (stamped_tickSlot_of_ne env st hij).trans (ih hl _)

theorem CallSlot.Stamped.active_iff {s s' : CallSlot} (h : s.Stamped s') :
    s'.Active ↔ s.Active := by
  obtain ⟨_, _, _, rfl⟩ := h
  rfl

/-- The slot keeps its call until its turn. -/
theorem Fsm.stamped_turn (st : Fsm) (env : TickEnv) (i : Fin 8) :
    (st.slots i).Stamped ((st.turn env i).slots i) :=
  stamped_foldl_tickSlot env (finRange_split i).2.1 st

/-- **The tick frees a slot exactly if its turn finds it expired.** -/
theorem tick_frees_iff (st : Fsm) (env : TickEnv) {i : Fin 8} (hi : (st.slots i).Active) :
    ¬ ((tick env st).slots i).Active ↔ ((st.turn env i).slots i).Expired env.now := by
  obtain ⟨hsplit, -, hdrop⟩ := finRange_split i
  have hturn : ((st.turn env i).slots i).Active := (st.stamped_turn env i).active_iff.2 hi
  have htick : ((tick env st).slots i).Active ↔
      ((tickSlot env (st.turn env i) i).slots i).Active := by
    rw [← Fsm.slots_table (tick env st), table_tick, hsplit, List.foldl_append, List.foldl_cons]
    exact (stamped_foldl_tickSlot env hdrop _).active_iff
  rw [htick, ← Fsm.slots_table (tickSlot env _ i)]
  by_cases he : ((st.turn env i).slots i).Expired env.now
  · rw [table_tickSlot_of_expired env hturn he]
    simpa using he
  · have hs := (stamped_tickSlot_of_not_expired env hturn he).slots i
    rw [Table.slots_set, Function.update_self] at hs
    obtain ⟨hssi, -⟩ := ((st.turn env i).slots i).sequenced_fields env.now
    refine iff_of_false (not_not.mpr (hs.active_iff.2 ?_)) he
    rwa [CallSlot.Active, hssi]

/-- The same by the stamps of the slot. -/
theorem tick_frees_iff_age (st : Fsm) (env : TickEnv) {i : Fin 8} (hi : (st.slots i).Active) :
    ¬ ((tick env st).slots i).Active ↔
      if (st.slots i).state = .connecting then
        ringAge (st.slots i).tSetupArrivedMs env.now > alertTimeoutMs
      else (st.slots i).state ≠ .idle ∧ slotAge (st.lastActivityAt env i) env.now > callStaleMs := by
  rw [tick_frees_iff st env hi]
  obtain ⟨last, nub, logged, he⟩ := st.stamped_turn env i
  rw [Fsm.lastActivityAt, he]
  rfl

/-! ## The watchdogs -/

/-- The watchdogs treat slot `i` by its true age, modulo `2 ^ 32`, provided that is below
`2 ^ 31`: as the age since its last activity, for the ring time-out, and for the stale
time-out. -/
def Fsm.WatchdogRight (st : Fsm) (env : TickEnv) (i : Fin 8) : Prop :=
  let last := st.lastActivityAt env i
  let arrived := (st.slots i).tSetupArrivedMs
  (env.now - last < 0x80000000 → slotAge last env.now = env.now - last) ∧
  ((st.slots i).state = .connecting → env.now - arrived < 0x80000000 →
    env.now - arrived > alertTimeoutMs → ¬ ((tick env st).slots i).Active) ∧
  ((st.slots i).state ≠ .connecting → env.now - last < 0x80000000 →
    env.now - last > callStaleMs → ¬ ((tick env st).slots i).Active)

/-- The counter has not wrapped since the last activity, nor since the set-up of a call
whose ring time-out has elapsed. -/
def Fsm.NoWrap (st : Fsm) (env : TickEnv) (i : Fin 8) : Prop :=
  let last := st.lastActivityAt env i
  let arrived := (st.slots i).tSetupArrivedMs
  (env.now - last < 0x80000000 → last ≤ env.now) ∧
  ((st.slots i).state = .connecting → env.now - arrived < 0x80000000 →
    env.now - arrived > alertTimeoutMs → arrived ≤ env.now)

/-- **The watchdogs work exactly if the counter has not wrapped.** -/
theorem watchdogRight_iff (st : Fsm) (h : st.Reachable) (env : TickEnv) (i : Fin 8)
    (hi : (st.slots i).Active) : st.WatchdogRight env i ↔ st.NoWrap env i := by
  have hfree := tick_frees_iff_age st env hi
  constructor
  · rintro ⟨hage, hring, -⟩
    refine ⟨fun hd ↦ (slotAge_eq_sub_iff _ _).1 (hage hd), fun hstate hd hover ↦ ?_⟩
    have hfreed := hring hstate hd hover
    rw [hfree, if_pos hstate] at hfreed
    exact (ringAge_gt_iff.1 hfreed).1
  · rintro ⟨hlast, harr⟩
    refine ⟨fun hd ↦ (slotAge_eq_sub_iff _ _).2 (hlast hd), fun hstate hd hover ↦ ?_,
      fun hstate hd hover ↦ ?_⟩
    · rw [hfree, if_pos hstate]
      exact ringAge_gt_iff.2 ⟨harr hstate hd hover, hover⟩
    · rw [hfree, if_neg hstate, (slotAge_eq_sub_iff _ _).2 (hlast hd)]
      exact ⟨(h.inv.ok i hi).state, hover⟩

/-- A call that is answered is watched rightly by a tick one second later. -/
theorem watchdogRight_iff_groupCall :
    (exec Fsm.step Fsm.init [.handle (.at 0) 1 (setupTo 100)]).WatchdogRight
        ⟨1000, 1000, fun _ _ ↦ true, fun _ ↦ none⟩ 0 ↔
      (exec Fsm.step Fsm.init [.handle (.at 0) 1 (setupTo 100)]).NoWrap
        ⟨1000, 1000, fun _ _ ↦ true, fun _ ↦ none⟩ 0 :=
  watchdogRight_iff _ ⟨_, rfl⟩ _ 0 (by decide)

/-- A call that starts to ring 4096 ms before the counter wraps is still up 30 s after the
wrap, 34 s later. -/
theorem not_watchdogRight_wrap :
    let st := exec Fsm.step Fsm.init [.handle (.at 0xFFFFF000) 1 (setupTo 2)]
    let env : TickEnv := ⟨30000, 30000, fun _ _ ↦ true, fun _ ↦ none⟩
    (st.slots 0).Active ∧ ((tick env st).slots 0).Active ∧ ¬ st.WatchdogRight env 0 := by
  intro st env
  have hup : ((tick env st).slots 0).Active := by
    by_contra hfreed
    rw [tick_frees_iff_age st env (by decide)] at hfreed
    revert hfreed
    decide
  refine ⟨by decide, hup, fun hright ↦ ?_⟩
  exact hright.2.1 (by decide) (by decide) (by decide) hup

end TetraPhy.CallFsm
