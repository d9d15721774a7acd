import TetraPhy.Tx.BurstDispatcher
import TetraPhy.Tx.Sb1Encoder
import TetraPhy.Tx.TdmaTimebase

/-!
# The slot that the BSCH names

As `tetra_zynq_top.v` wires time base, SB1 encoder and burst dispatcher: at each slot pulse the
dispatcher captures the block that is there, and the encoder starts on the next one, from the
counters moved on by one slot.  So what is captured names the successor of the slot that began at
the pulse before.

| cycle      | encoder                        | dispatcher               |
|------------|--------------------------------|--------------------------|
| pulse *n*  | starts on the slot after *n*   |                          |
| + 142      | block finished                 |                          |
| pulse *n+1*| starts on the slot after *n+1* | captures the block       |

A sync load between the two pulses makes another slot begin than the encoder was started on, and
the encoder is not started again.  **`names_iff`** says for which runs the names are right.
-/

namespace TetraPhy.Tx

open AirOrder Codec

/-! ## The name of a slot -/

namespace TdmaTimebase

variable (t : TdmaTimebase)

/-- The fields the encoder is started with; frame and multiframe are counted from 1. -/
def nextTime : SlotTime := ⟨t.tnNext, t.fnNext + 1, t.mnNext + 1⟩

/-- The fields that name the slot the counters are in. -/
def slotTime : SlotTime := ⟨t.tn, t.fn + 1, t.mn + 1⟩

end TdmaTimebase

/-! ## The system -/

/-- The inputs of a cycle: those of the time base, and those of the dispatcher, of which the
system drives the pulse, the counters and the block itself. -/
structure BschIn where
  timebase : TimebaseIn
  disp : DispIn

/-- A burst that was captured: the slot it is sent in, and whether that is enabled. -/
structure BschCapture where
  time : SlotTime
  enable : Bool

/-- The registers.  Beside them stand the time base at the last pulse, the burst that was captured
last (from the second pulse on), and the cycles since the last pulse. -/
structure BschSystem where
  timebase : TdmaTimebase := {}
  encoder : Sb1Encoder := {}
  dispatcher : BurstDispatcher := {}
  last : Option TdmaTimebase := none
  captured : Option BschCapture := none
  age : ℕ := 0

namespace BschSystem

section

variable (cfg : SyncConfig) (s : BschSystem) (i : BschIn)

/-- What the dispatcher sees. -/
def dispIn : DispIn :=
  { i.disp with slotPulse := s.timebase.slotPulse, slotNum := s.timebase.tn, fn := s.timebase.fn
                sb1 := s.encoder.sb1Coded }

/-- The timeslot that begins is enabled. -/
def enable : Bool := ((s.dispIn i).select s.timebase.tn).enable

/-- One edge of `clk_sys`. -/
def step : BschSystem where
  timebase := s.timebase.step i.timebase
  encoder := s.encoder.step s.timebase.slotPulse cfg s.timebase.nextTime
  dispatcher := s.dispatcher.step (s.dispIn i)
  last := if s.timebase.slotPulse then some s.timebase else s.last
  captured := if s.timebase.slotPulse then
      s.last.map fun _ ↦ ⟨s.timebase.slotTime, s.enable i⟩
    else s.captured
  age := if s.timebase.slotPulse then 1 else s.age + 1

/-- **The SB1 bits that were captured name the slot** that began at the pulse. -/
def Names : Prop := ∀ c, s.captured = some c →
  onAir s.dispatcher.buildSb1 = bsch.encodeFrom (onAir (syncPdu cfg c.time)) 3

/-- The same for the timeslots that are enabled only; the others send no BSCH. -/
def NamesEnabled : Prop := ∀ c, s.captured = some c → c.enable = true →
  onAir s.dispatcher.buildSb1 = bsch.encodeFrom (onAir (syncPdu cfg c.time)) 3

/-- At a pulse after the first, the timeslot that begins is enabled, and it follows the one of the
pulse before. -/
def Follows : Prop := s.timebase.slotPulse = true → ∀ l ∈ s.last,
  s.enable i = true ∧ s.timebase.slotTime = l.nextTime

/-- The same, if it is enabled. -/
def FollowsEnabled : Prop := s.timebase.slotPulse = true → ∀ l ∈ s.last,
  s.enable i = true → s.timebase.slotTime = l.nextTime

instance : Decidable (s.Follows i) := inferInstanceAs (Decidable (_ → ∀ l ∈ s.last, _ ∧ _))

instance : Decidable (s.FollowsEnabled i) := inferInstanceAs (Decidable (_ → ∀ l ∈ s.last, _ → _))

end

variable {cfg : SyncConfig} {s : BschSystem} {i : BschIn}

/-! ## The encoder is in time -/

/-- After a pulse the encoder works on the slot that follows, or has its block. -/
structure Prepared (cfg : SyncConfig) (s : BschSystem) : Prop where
  paced : s.timebase.Paced s.age
  fresh : s.last = none → s.encoder.state = .idle ∧ s.captured = none
  working : ∀ l ∈ s.last, s.encoder.Working (syncPdu cfg l.nextTime) ∧
    s.encoder.left + s.age ≤ max 143 s.age

/-- At a pulse the encoder is idle. -/
theorem Prepared.idle (h : Prepared cfg s) (hp : s.timebase.slotPulse = true) :
    s.encoder.state = .idle := by
  cases hl : s.last with
  | none => exact (h.fresh hl).1
  | some l =>
      have hage : 255 ≤ s.age := h.paced.age hp
      have hleft := (h.working l hl).2
      exact Sb1Encoder.left_eq_zero.1 (by omega)

theorem Prepared.step (h : Prepared cfg s) (i : BschIn) : Prepared cfg (s.step cfg i) := by
  have hpaced := h.paced.step i.timebase
  cases hp : s.timebase.slotPulse with
  | true =>
      obtain ⟨hw, hleft⟩ := Sb1Encoder.working_start (h.idle hp) cfg s.timebase.nextTime
      refine ⟨hpaced, ?_, ?_⟩
      · intro hl
        simp [BschSystem.step, hp] at hl
      · intro l hl
        simp only [BschSystem.step, hp, if_true, Option.mem_some_iff] at hl
        subst hl
        simp only [BschSystem.step, hp, if_true]
        exact ⟨hw, by omega⟩
  | false =>
      refine ⟨hpaced, ?_, ?_⟩
      · intro hl
        simp only [BschSystem.step, hp, Bool.false_eq_true, if_false] at hl ⊢
        obtain ⟨hidle, hc⟩ := h.fresh hl
        rw [Sb1Encoder.step_idle hidle]
        exact ⟨hidle, hc⟩
      · intro l hl
        simp only [BschSystem.step, hp, Bool.false_eq_true, if_false] at hl ⊢
        obtain ⟨hw, hleft⟩ := h.working l hl
        by_cases hidle : s.encoder.state = .idle
        · rw [Sb1Encoder.step_idle hidle]
          have hzero := Sb1Encoder.left_eq_zero.2 hidle
          exact ⟨hw, by omega⟩
        · have hdown := hw.left_step hidle false cfg s.timebase.nextTime
          exact ⟨hw.step hidle false cfg _, by omega⟩

theorem prepared_reset (cfg : SyncConfig) : Prepared cfg {} :=
  ⟨TdmaTimebase.paced_reset, fun _ ↦ ⟨rfl, rfl⟩, fun l hl ↦ absurd hl (by simp)⟩

/-! ## What is captured -/

/-- Blocks tell their slots. -/
theorem encodeFrom_syncPdu_inj {t t' : SlotTime}
    (h : bsch.encodeFrom (onAir (syncPdu cfg t)) 3 = bsch.encodeFrom (onAir (syncPdu cfg t')) 3) :
    t = t' :=
  syncPdu_injective cfg (onAir_injective (bsch.encodeFrom_injective (length_onAir _)
    (length_onAir _) 0 0 0 h))

/-- **At a pulse**, the block of the slot after the last pulse is captured, if the timeslot is
enabled. -/
theorem onAir_buildSb1 (h : Prepared cfg s) (hp : s.timebase.slotPulse = true)
    {l : TdmaTimebase} (hl : l ∈ s.last) : onAir (s.step cfg i).dispatcher.buildSb1 =
      if s.enable i then bsch.encodeFrom (onAir (syncPdu cfg l.nextTime)) 3
      else List.replicate 120 false := by
  have hblock : onAir s.encoder.sb1Coded = bsch.encodeFrom (onAir (syncPdu cfg l.nextTime)) 3 := by
    have hw := (h.working l hl).1
    rwa [Sb1Encoder.Working, if_pos (h.idle hp)] at hw
  have hcapture : (s.step cfg i).dispatcher.buildSb1 =
      if s.enable i then s.encoder.sb1Coded else 0 := by
    change (s.dispatcher.step (s.dispIn i)).buildSb1 = _
    have hpulse : (s.dispIn i).slotPulse = true := hp
    rw [BurstDispatcher.step, if_pos hpulse]
    rfl
  rw [hcapture]
  split_ifs
  · exact hblock
  · exact onAir_zero

/-- What is captured names the slot that begins exactly if that is enabled, and the one the
encoder was started on. -/
theorem names_capture_iff (h : Prepared cfg s) (hp : s.timebase.slotPulse = true)
    {l : TdmaTimebase} (hl : l ∈ s.last) : onAir (s.step cfg i).dispatcher.buildSb1 =
      bsch.encodeFrom (onAir (syncPdu cfg s.timebase.slotTime)) 3 ↔
        s.enable i = true ∧ s.timebase.slotTime = l.nextTime := by
  rw [onAir_buildSb1 h hp hl]
  split_ifs with hen
  · rw [and_iff_right hen]
    exact ⟨fun he ↦ (encodeFrom_syncPdu_inj he).symm, fun he ↦ by rw [he]⟩
  · exact iff_of_false (fun he ↦ encodeFrom_ne_zero _ he.symm) fun he ↦ hen he.1

/-- Between pulses nothing is captured. -/
theorem step_of_not_pulse (hp : s.timebase.slotPulse = false) :
    (s.step cfg i).captured = s.captured ∧
      (s.step cfg i).dispatcher.buildSb1 = s.dispatcher.buildSb1 := by
  have hpulse : (s.dispIn i).slotPulse = false := hp
  refine ⟨?_, ?_⟩
  · simp only [step, hp, Bool.false_eq_true, if_false]
  · change (s.dispatcher.step (s.dispIn i)).buildSb1 = _
    rw [BurstDispatcher.step, hpulse]
    rfl

/-- At a pulse after the first a burst is captured. -/
theorem forall_captured_iff (hp : s.timebase.slotPulse = true) (P : BschCapture → Prop) :
    (∀ c, (s.step cfg i).captured = some c → P c) ↔
      ∀ l ∈ s.last, P ⟨s.timebase.slotTime, s.enable i⟩ := by
  simp only [step, hp, if_true, Option.map_eq_some_iff]
  constructor
  · intro h l hl
    exact h _ ⟨l, hl, rfl⟩
  · rintro h c ⟨l, hl, rfl⟩
    exact h l hl

/-- **One step keeps the names right** exactly if it finds the next timeslot, enabled. -/
theorem names_step_iff (h : Prepared cfg s) (hn : s.Names cfg) :
    (s.step cfg i).Names cfg ↔ s.Follows i := by
  cases hp : s.timebase.slotPulse with
  | false =>
      obtain ⟨hc, hsb1⟩ : (s.step cfg i).captured = _ ∧ (s.step cfg i).dispatcher.buildSb1 = _ :=
        step_of_not_pulse hp
      rw [Names, hc, hsb1]
      exact iff_of_true hn fun h ↦ absurd (hp.symm.trans h) (by decide)
  | true =>
      rw [Follows, forall_prop_of_true hp]
      refine (forall_captured_iff hp _).trans (forall₂_congr fun l hl ↦ ?_)
      exact names_capture_iff h hp hl

theorem namesEnabled_step_iff (h : Prepared cfg s) (hn : s.NamesEnabled cfg) :
    (s.step cfg i).NamesEnabled cfg ↔ s.FollowsEnabled i := by
  cases hp : s.timebase.slotPulse with
  | false =>
      obtain ⟨hc, hsb1⟩ : (s.step cfg i).captured = _ ∧ (s.step cfg i).dispatcher.buildSb1 = _ :=
        step_of_not_pulse hp
      rw [NamesEnabled, hc, hsb1]
      exact iff_of_true hn fun h ↦ absurd (hp.symm.trans h) (by decide)
  | true =>
      rw [FollowsEnabled, forall_prop_of_true hp]
      refine (forall_captured_iff hp _).trans (forall₂_congr fun l hl ↦ ?_)
      refine forall_congr' fun hen ↦ (names_capture_iff h hp hl).trans ?_
      exact and_iff_right hen

/-! ## Runs -/

/-- A run keeps the names right if each of its steps does. -/
theorem throughout_names_iff (cfg : SyncConfig) (es : List BschIn) :
    Run.Throughout (step cfg) (Names cfg) {} es ↔ Run.Along (step cfg) Follows {} es :=
  Run.throughout_iff_along _ (fun _ i h ↦ h.step i) (fun _ _ ↦ names_step_iff)
    (prepared_reset cfg) (fun c hc ↦ absurd hc (by simp)) es

theorem throughout_namesEnabled_iff (cfg : SyncConfig) (es : List BschIn) :
    Run.Throughout (step cfg) (NamesEnabled cfg) {} es ↔
      Run.Along (step cfg) FollowsEnabled {} es :=
  Run.throughout_iff_along _ (fun _ i h ↦ h.step i) (fun _ _ ↦ namesEnabled_step_iff)
    (prepared_reset cfg) (fun c hc ↦ absurd hc (by simp)) es

/-! ### Without loads

The counters go from slot to slot by the look-ahead, so the encoder is always started on the slot
that comes. -/

end BschSystem

namespace TdmaTimebase

variable {t t' : TdmaTimebase} {i : TimebaseIn}

/-- The look-ahead depends on the slot only. -/
theorem nextTime_congr (h : t.slotTime = t'.slotTime) : t.nextTime = t'.nextTime := by
  obtain ⟨htn, hfn, hmn⟩ : t.tn = t'.tn ∧ t.fn = t'.fn ∧ t.mn = t'.mn := by
    simpa only [slotTime, SlotTime.mk.injEq, BitVec.add_left_inj] using h
  simp only [nextTime, tnNext, fnNext, mnNext, mnWrap, fnWrap, tnWrap, htn, hfn, hmn]
  rfl

/-- **The counters advance by the look-ahead** when a slot ends, and else stay in the slot. -/
theorem step_slotTime (hc : t.syncCommit i = false) :
    (t.step i).slotTime = if t.slotEdge i then t.nextTime else t.slotTime := by
  have hshadow : ∀ n, n = t.shadowBlock i t → n.tn = t.tn ∧ n.fn = t.fn ∧ n.mn = t.mn := by
    rintro n rfl
    unfold shadowBlock
    split_ifs <;> exact ⟨rfl, rfl, rfl⟩
  obtain ⟨htn, hfn, hmn⟩ := hshadow _ rfl
  change (t.counterBlock i (t.shadowBlock i t)).slotTime = _
  rw [counterBlock, if_neg (by simp [hc])]
  cases hedge : t.slotEdge i with
  | true =>
      have hen : i.symEn = true := (Bool.and_eq_true_iff.1 hedge).1
      rw [if_pos hen]
      simp only [if_true, slotTime, nextTime, tnNext, fnNext, mnNext, mnWrap, fnWrap, tnWrap]
      by_cases h3 : t.tn = 3#2
      · by_cases h17 : t.fn = 17#5
        · by_cases h59 : t.mn = 59#6 <;> simp [h3, h17, h59]
        · simp [h3, h17, hmn]
      · simp [h3, hfn, hmn]
  | false =>
      simp only [Bool.false_eq_true, if_false]
      split_ifs <;> simp [slotTime, htn, hfn, hmn]

end TdmaTimebase

namespace BschSystem

variable {cfg : SyncConfig} {s : BschSystem} {i : BschIn}

/-- Between a boundary and its pulse the counters are one slot ahead of the last pulse. -/
structure Regular (s : BschSystem) : Prop where
  unloaded : s.timebase.syncLoadPending = false
  paced : s.timebase.Paced s.age
  follows : ∀ l ∈ s.last, s.timebase.slotTime =
    if s.timebase.tdmaTick || s.timebase.slotPulse then l.nextTime else l.slotTime

theorem Regular.step (h : s.Regular) (hi : i.timebase.syncLoadStrobe = false) :
    (s.step cfg i).Regular := by
  have hc : s.timebase.syncCommit i.timebase = false := by
    simp [TdmaTimebase.syncCommit, h.unloaded, hi]
  have htick : (s.step cfg i).timebase.tdmaTick = s.timebase.slotEdge i.timebase := by
    change (s.timebase.slotEdge i.timebase && !s.timebase.syncCommit i.timebase) = _
    rw [hc, Bool.not_false, Bool.and_true]
  have hpulse : (s.step cfg i).timebase.slotPulse = s.timebase.tdmaTick := rfl
  have htime : (s.step cfg i).timebase.slotTime = _ := TdmaTimebase.step_slotTime hc
  refine ⟨?_, h.paced.step i.timebase, ?_⟩
  · exact TdmaTimebase.step_pending.trans (by simp [hi, h.unloaded])
  · intro l hl
    rw [htick, hpulse, htime]
    cases hp : s.timebase.slotPulse with
    | true =>
        have ht : s.timebase.tdmaTick = false := (h.paced.pulse hp).2.1
        have he : s.timebase.slotEdge i.timebase = false :=
          Bool.eq_false_iff.2 fun he ↦
            absurd (hp.symm.trans (h.paced.slotEdge he).2.1) (by decide)
        simp only [BschSystem.step, hp, if_true, Option.mem_some_iff] at hl
        subst hl
        simp [ht, he]
    | false =>
        simp only [BschSystem.step, hp, Bool.false_eq_true, if_false] at hl
        have hold := h.follows l hl
        rw [hp, Bool.or_false] at hold
        cases he : s.timebase.slotEdge i.timebase with
        | true =>
            rw [(h.paced.slotEdge he).1] at hold
            exact TdmaTimebase.nextTime_congr hold
        | false => exact hold

/-- **Without loads each slot follows the one before.** -/
theorem along_followsEnabled (h : s.Regular) {es : List BschIn}
    (hes : ∀ i ∈ es, i.timebase.syncLoadStrobe = false) :
    Run.Along (step cfg) FollowsEnabled s es := by
  induction es generalizing s with
  | nil => trivial
  | cons i es ih =>
      obtain ⟨hi, hes⟩ := List.forall_mem_cons.1 hes
      refine ⟨fun hp l hl _ ↦ ?_, ih (h.step hi) hes⟩
      rw [h.follows l hl, hp, Bool.or_true, if_pos rfl]

/-- **Without loads the BSCH names the slot**, wherever it is sent. -/
theorem namesEnabled_of_unloaded (cfg : SyncConfig) {es : List BschIn}
    (hes : ∀ i ∈ es, i.timebase.syncLoadStrobe = false) :
    Run.Throughout (step cfg) (NamesEnabled cfg) {} es := by
  have hreset : Regular {} := ⟨rfl, TdmaTimebase.paced_reset, fun l hl ↦ absurd hl (by simp)⟩
  exact (throughout_namesEnabled_iff cfg es).2 (along_followsEnabled hreset hes)

/-! ### The exact condition -/

/-- **The BSCH names the slot that carries it** in exactly the runs in which, at each pulse after
the first, the timeslot that begins is enabled and follows that of the pulse before; and where
only enabled timeslots are judged, in exactly those in which the enabled ones follow.  That the
encoder is in time is no assumption: pulses are 255 cycles apart (`TdmaTimebase.Paced`). -/
theorem names_iff (cfg : SyncConfig) (es : List BschIn) :
    (Run.Throughout (step cfg) (Names cfg) {} es ↔ Run.Along (step cfg) Follows {} es) ∧
      (Run.Throughout (step cfg) (NamesEnabled cfg) {} es ↔
        Run.Along (step cfg) FollowsEnabled {} es) :=
  ⟨throughout_names_iff cfg es, throughout_namesEnabled_iff cfg es⟩

/-! ### A load between two pulses -/

/-- A cycle with a symbol enable, in which every timeslot is enabled. -/
def symbolIn (t : TimebaseIn) : BschIn where
  timebase := t
  disp := ⟨false, 0, 0, fun _ ↦ ⟨0, 0, false, false⟩, fun _ ↦ 4, {}, {}, 0, 0⟩

/-- Some symbols, a load of the third timeslot of the sixth frame, and the symbols up to its end. -/
def reloadedRun : List BschIn :=
  List.replicate 300 (symbolIn ⟨true, false, {}⟩) ++
    symbolIn ⟨true, true, ⟨2, 5, 7, 0⟩⟩ :: List.replicate 258 (symbolIn ⟨true, false, {}⟩)

/-- **After the load the names are wrong**, though every timeslot is enabled. -/
theorem not_names_reloaded : ¬ Run.Throughout (step {}) (Names {}) {} reloadedRun ∧
    ¬ Run.Throughout (step {}) (NamesEnabled {}) {} reloadedRun := by
  have hfollows : ¬ Run.Along (step {}) FollowsEnabled {} reloadedRun := by decide +kernel
  refine ⟨fun h ↦ ?_, fun h ↦ ?_⟩
  · exact hfollows ((throughout_namesEnabled_iff {} _).1 (h.imp _ fun s hn c hc _ ↦ hn c hc))
  · exact hfollows ((throughout_namesEnabled_iff {} _).1 h)

end BschSystem

end TetraPhy.Tx
