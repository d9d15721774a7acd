import TetraPhy.Tx.AachEncoder
import TetraPhy.Tx.DownlinkPath
import TetraPhy.Tx.TdmaTimebase

/-!
# The AACH and the body it is sent with

As `tetra_zynq_top.v` wires them, body and AACH of a burst are selected apart, and captured by the
dispatcher at the same slot pulse.

| what | selected by                                               | at            |
|------|-----------------------------------------------------------|---------------|
| body | 1. filler, 2. queue head, 3. schedule entry               | the pulse     |
| AACH | 1. queue head, from its pattern                           | the pulse     |
|      | 2. encoder: frame, timeslot, grant, marks, software's word | the pulse before |

So the two disagree where the filler takes a timeslot that the queue head is for, or where what
the encoder went by has changed within the slot, or is no filler's: a grant, a reservation, a head
that has gone since.  **`fits_iff`** says for which runs they agree, by what was on the inputs of
the encoder at the pulse before (`FitsWhen`); nothing there has to be looked at if the marks stay
(`Settled.fitsWhen`).

Two entries may have the same pattern, and the encoder's words may be patterns as well.  What is
compared is therefore where body and AACH come from, and `Sound` says what the bits then are.
-/

namespace TetraPhy.Tx

open Lmac

/-! ## The system -/

/-- The inputs of a cycle.  Those of the path and of the encoder which the system drives itself are
not looked at. -/
structure SlotIn where
  timebase : TimebaseIn := {}
  dl : DlIn := {}
  aach : AachIn := {}

/-- Where a body comes from: an entry of the queue, the filler, or the schedule. -/
inductive BodySource
  | entry (idx : Fin 4)
  | filler
  | other
deriving DecidableEq, Repr

/-- What is selected at a pulse: with the sources of body and AACH, the queue and the registers
they are compared with. -/
structure SlotCapture where
  tn : BitVec 2
  body : BodySource
  aachFrom : Option (Fin 4)
  queue : SignalQueue
  filler : FillerIn
  lfsrInit : BitVec 32
  sdsFillLast : Bool
  slotWord : BitVec 14

/-- What the encoder was started on: its inputs, and the slots that were still reserved. -/
structure AachSample where
  io : AachIn
  resvHold : BitVec 4
deriving DecidableEq, Repr

/-- The registers.  Beside them stand what the encoder was started on at the last pulse, what was
captured there, and the cycles since. -/
structure AachSystem where
  timebase : TdmaTimebase := {}
  encoder : AachEncoder := {}
  path : DownlinkPath := {}
  sampled : Option AachSample := none
  captured : Option SlotCapture := none
  age : ℕ := 0

/-- The block of a start; before the first one the register is 0. -/
def sampledCoded (sampled : Option AachSample) : BitVec 30 :=
  sampled.elim 0 fun a ↦ aachCoded (a.io.info a.resvHold) a.io.lfsrInit

/-- The inputs of the start told `w`, as the cell masks it now.  If the cell is another one since,
they told a word that differs from `w` by what the masks differ by; and before the first start it is
`w` only if the mask hides it. -/
def Told (sampled : Option AachSample) (w : BitVec 14) (lfsrInit : BitVec 32) : Prop :=
  match sampled with
  | none => rmEncodeF w = buildLfsrMaskF lfsrInit
  | some a => ∃ d, rmEncodeF d = buildLfsrMaskF a.io.lfsrInit ^^^ buildLfsrMaskF lfsrInit ∧
      a.io.Tells a.resvHold (w ^^^ d)

/-- The block is that of what the inputs told. -/
theorem sampledCoded_eq_iff {sampled : Option AachSample} {w : BitVec 14} {lfsrInit : BitVec 32} :
    sampledCoded sampled = aachCoded w lfsrInit ↔ Told sampled w lfsrInit := by
  cases sampled with
  | none => exact eq_comm.trans BitVec.xor_eq_zero_iff
  | some a =>
      refine aachCoded_eq_iff.trans (exists_congr fun d ↦ and_congr_right fun _ ↦ ?_)
      exact AachIn.tells_iff.symm

/-- In one cell it is the word itself. -/
theorem told_iff {a : AachSample} {w : BitVec 14} :
    Told (some a) w a.io.lfsrInit ↔ a.io.Tells a.resvHold w := by
  have hzero : w ^^^ 0 = w := BitVec.xor_zero
  constructor
  · rintro ⟨d, hd, htells⟩
    rw [BitVec.xor_self] at hd
    obtain rfl := eq_zero_of_rmEncodeF hd
    rwa [hzero] at htells
  · intro h
    exact ⟨0, BitVec.xor_self.symm, hzero.symm ▸ h⟩

/-! ## What is said of a burst -/

/-- The bits are those of the sources. -/
structure SlotCapture.Sound (c : SlotCapture) (d : BurstDispatcher) : Prop where
  aach : ∀ j, c.aachFrom = some j →
    d.buildBb = aachCoded (c.queue.entry j).aachPattern c.lfsrInit
  entry : ∀ j, c.body = .entry j →
    d.buildBlock1 = (c.queue.entry j).coded.extractLsb' 216 216 ∧
      ((c.queue.entry j).pduType = 0 → d.buildBlock2 = (c.queue.entry j).coded.extractLsb' 0 216)
  filler : c.body = .filler →
    d.buildBlock1 = c.filler.blk1 c.tn ∧ d.buildBlock2 = c.filler.blk2 c.tn

/-- **The AACH fits the body.** -/
structure SlotCapture.Fits (c : SlotCapture) (d : BurstDispatcher) : Prop where
  /-- The AACH is of a queue entry exactly if the body is that entry's. -/
  entry : ∀ j, c.aachFrom = some j ↔ c.body = .entry j
  /-- With the SDS filler on timeslot 0, it is 0x0009 exactly for the last fragment. -/
  sds : c.body = .filler → c.tn = 0 → c.filler.sdsFillActive.getLsbD 0 = true →
    (d.buildBb = aachCoded 0x0009 c.lfsrInit ↔ c.sdsFillLast = true)
  /-- With the voice filler on another one, it is the software's word. -/
  voice : c.body = .filler → c.tn ≠ 0 → c.filler.voiceActiveMask.getLsbD c.tn.toNat = true →
    d.buildBb = aachCoded c.slotWord c.lfsrInit

namespace AachSystem

section

variable (s : AachSystem) (i : SlotIn)

/-- The head of the queue is for timeslot `k`. -/
def headFor (k : BitVec 2) : Bool := s.path.queue.headValid && s.path.queue.head.targetTn == k

/-- `head_match_aach_sys`. -/
def headMatch : Bool := s.headFor s.timebase.tn

/-- What the encoder sees: the slot after the one of the counters. -/
def aachIn : AachIn :=
  { i.aach with
    fn := s.timebase.fnNext
    tn := s.timebase.tnNext
    mnLow2 := s.timebase.mnNext.extractLsb' 0 2
    signallingActive := s.headFor s.timebase.tnNext
    voiceActiveMask := i.dl.filler.voiceActiveMask
    encodeStart := s.timebase.slotPulse }

/-- `aach_coded_slot_sys_w`. -/
def slotCoded : BitVec 30 :=
  if s.headMatch then aachCoded s.path.queue.head.aachPattern i.aach.lfsrInit
  else s.encoder.coded

/-- What the path sees. -/
def dlIn : DlIn :=
  { i.dl with
    tn := s.timebase.tn
    fn := s.timebase.fn
    mn := s.timebase.mn
    slotPulse := s.timebase.slotPulse
    bb := s.slotCoded i
    symEn := i.timebase.symEn }

/-- The filler takes the timeslot that begins. -/
def overrides : Bool := i.dl.filler.overrides s.timebase.fn s.timebase.tn

/-- The schedule enables the timeslot that begins. -/
def enabled : Bool := entryIsEnable (s.path.mux.entry s.timebase.tn)

/-- Where the body comes from. -/
def bodySource : BodySource :=
  if s.overrides i then .filler
  else if s.headMatch && s.enabled then (s.path.queue.headIdx).elim .other .entry
  else .other

/-- The entry the AACH comes from, if from one. -/
def aachFrom : Option (Fin 4) := if s.headMatch then s.path.queue.headIdx else none

def capture : SlotCapture where
  tn := s.timebase.tn
  body := s.bodySource i
  aachFrom := s.aachFrom
  queue := s.path.queue
  filler := i.dl.filler
  lfsrInit := i.aach.lfsrInit
  sdsFillLast := i.aach.sdsFillLast
  slotWord := i.aach.slotWord s.timebase.tn

/-- One edge of `clk_sys`. -/
def step : AachSystem where
  timebase := s.timebase.step i.timebase
  encoder := s.encoder.step (s.aachIn i)
  path := s.path.step (s.dlIn i)
  sampled := if s.timebase.slotPulse then some ⟨s.aachIn i, s.encoder.resvHold⟩ else s.sampled
  captured := if s.timebase.slotPulse then some (s.capture i) else s.captured
  age := if s.timebase.slotPulse then 1 else s.age + 1

end

/-- What was captured at the last pulse is what its sources say. -/
def Sound (s : AachSystem) : Prop := ∀ c, s.captured = some c → c.Sound s.path.dispatcher

/-- **The AACH that was captured at the last pulse fits the body.** -/
def Fits (s : AachSystem) : Prop := ∀ c, s.captured = some c → c.Fits s.path.dispatcher

/-- What was on the inputs of the encoder at the last pulse, and the head of the queue now, are
right for the body. -/
structure FitsWhen (s : AachSystem) (i : SlotIn) : Prop where
  queue : s.headMatch = true → s.overrides i = false ∧ s.enabled = true
  sds : s.overrides i = true → s.timebase.tn = 0 →
    i.dl.filler.sdsFillActive.getLsbD 0 = true →
      (Told s.sampled 0x0009 i.aach.lfsrInit ↔ i.aach.sdsFillLast = true)
  voice : s.overrides i = true → s.timebase.tn ≠ 0 →
    i.dl.filler.voiceActiveMask.getLsbD s.timebase.tn.toNat = true →
      Told s.sampled (i.aach.slotWord s.timebase.tn) i.aach.lfsrInit

/-- So it is, if this is a pulse. -/
def PulseFits (s : AachSystem) (i : SlotIn) : Prop := s.timebase.slotPulse = true → FitsWhen s i

variable {s : AachSystem} {i : SlotIn}

/-! ## The encoder is in time -/

/-- The encoder works on the word it was started on, or has its block. -/
structure Prepared (s : AachSystem) : Prop where
  paced : s.timebase.Paced s.age
  left : s.encoder.left + s.age ≤ max 32 s.age
  fresh : s.sampled = none → s.encoder.state = .idle ∧ s.encoder.coded = 0
  working : ∀ a, s.sampled = some a → s.encoder.Working (a.io.info a.resvHold) a.io.lfsrInit

theorem prepared_reset : Prepared {} :=
  ⟨TdmaTimebase.paced_reset, by decide, fun _ ↦ ⟨rfl, rfl⟩, fun a h ↦ absurd h (by simp)⟩

/-- At a pulse the encoder is idle, and has the block of its word. -/
theorem Prepared.ready (h : Prepared s) (hp : s.timebase.slotPulse = true) :
    s.encoder.state = .idle ∧ s.encoder.coded = sampledCoded s.sampled := by
  cases ha : s.sampled with
  | none => exact h.fresh ha
  | some a =>
      have hage := h.paced.age hp
      have hleft := h.left
      have hw := h.working a ha
      have hidle := AachEncoder.idle_of_left (by omega) hw
      exact ⟨hidle, (AachEncoder.working_iff_of_idle hidle).1 hw⟩

theorem Prepared.step (h : Prepared s) (i : SlotIn) : Prepared (s.step i) := by
  have hpaced := h.paced.step i.timebase
  have hleft := h.left
  cases hp : s.timebase.slotPulse with
  | true =>
      obtain ⟨hw, hnew⟩ := AachEncoder.working_start (i := s.aachIn i) (h.ready hp).1 hp
      refine ⟨hpaced, ?_, fun hn ↦ ?_, fun a ha ↦ ?_⟩
      · simp only [AachSystem.step, hp, if_true, hnew]
        decide
      · simp [AachSystem.step, hp] at hn
      · simp only [AachSystem.step, hp, if_true, Option.some.injEq] at ha ⊢
        subst ha
        exact hw
  | false =>
      have hstart : (s.aachIn i).encodeStart = false := hp
      by_cases hidle : s.encoder.state = .idle
      · obtain ⟨hidle', hcoded⟩ := AachEncoder.step_idle hidle hstart
        refine ⟨hpaced, ?_, ?_, fun a ha ↦ ?_⟩
        · simp only [AachSystem.step, hp, AachEncoder.left_of_idle hidle', Bool.false_eq_true,
            if_false]
          omega
        · simp only [AachSystem.step, hp, Bool.false_eq_true, if_false, hcoded]
          exact fun hn ↦ ⟨hidle', (h.fresh hn).2⟩
        · simp only [AachSystem.step, hp, Bool.false_eq_true, if_false] at ha ⊢
          rw [AachEncoder.working_iff_of_idle hidle', hcoded]
          exact (AachEncoder.working_iff_of_idle hidle).1 (h.working a ha)
      · obtain ⟨a, ha⟩ : ∃ a, s.sampled = some a :=
          Option.ne_none_iff_exists'.1 fun hn ↦ hidle (h.fresh hn).1
        obtain ⟨hw, hdown⟩ := (h.working a ha).step hidle (s.aachIn i)
        have hkeep : (s.step i).sampled = s.sampled := by simp [AachSystem.step, hp]
        refine ⟨hpaced, ?_, fun hn ↦ ?_, fun b hb ↦ ?_⟩
        · simp only [AachSystem.step, hp, Bool.false_eq_true, if_false]
          omega
        · exact absurd (hkeep.symm.trans hn) (by simp [ha])
        · obtain rfl : a = b := Option.some.inj (ha.symm.trans (hkeep.symm.trans hb))
          exact hw

/-! ## What is captured -/

/-- The selection for the timeslot that begins. -/
def selected (s : AachSystem) (i : SlotIn) : Selection :=
  (s.path.dispIn (s.dlIn i)).select s.timebase.tn

/-- A pulse captures what is selected. -/
theorem step_of_pulse (hp : s.timebase.slotPulse = true) :
    (s.step i).captured = some (s.capture i) ∧
      (s.step i).path.dispatcher.buildBb = s.slotCoded i ∧
      (s.step i).path.dispatcher.buildBlock1 =
        (if (s.selected i).enable then (s.selected i).blk1 else 0) ∧
      (s.step i).path.dispatcher.buildBlock2 =
        (if (s.selected i).enable then (s.selected i).blk2 else 0) := by
  have hpulse : (s.path.dispIn (s.dlIn i)).slotPulse = true := hp
  have hdisp : (s.step i).path.dispatcher =
      s.path.dispatcher.step (s.path.dispIn (s.dlIn i)) := rfl
  rw [hdisp, BurstDispatcher.step, if_pos hpulse]
  exact ⟨if_pos hp, rfl, rfl, rfl⟩

/-- Between pulses nothing is captured. -/
theorem step_of_not_pulse (hp : s.timebase.slotPulse = false) :
    (s.step i).captured = s.captured ∧
      (s.step i).path.dispatcher = { s.path.dispatcher with buildReq := false } := by
  have hpulse : (s.path.dispIn (s.dlIn i)).slotPulse = false := hp
  have hdisp : (s.step i).path.dispatcher =
      s.path.dispatcher.step (s.path.dispIn (s.dlIn i)) := rfl
  rw [hdisp, BurstDispatcher.step, hpulse]
  exact ⟨by simp [step, hp], rfl⟩

/-- A head that is for a timeslot is an entry. -/
theorem exists_head (hm : s.headMatch = true) : ∃ j, s.path.queue.headIdx = some j ∧
    s.path.queue.head = s.path.queue.entry j := by
  obtain ⟨hv, -⟩ := Bool.and_eq_true_iff.1 hm
  obtain ⟨j, hj⟩ := Option.isSome_iff_exists.1 hv
  exact ⟨j, hj, by rw [SignalQueue.head, hj]; rfl⟩

theorem bodySource_eq_filler : s.bodySource i = .filler ↔ s.overrides i = true := by
  rw [bodySource]
  split_ifs with ho hm
  · exact iff_of_true rfl ho
  · cases s.path.queue.headIdx <;> exact iff_of_false (by simp) ho
  · exact iff_of_false (by simp) ho

theorem bodySource_eq_entry {j : Fin 4} : s.bodySource i = .entry j ↔
    s.overrides i = false ∧ (s.headMatch = true ∧ s.enabled = true) ∧
      s.path.queue.headIdx = some j := by
  rw [bodySource, ← Bool.not_eq_true, ← Bool.and_eq_true]
  split_ifs with ho hm
  · exact iff_of_false (by simp) fun h ↦ h.1 ho
  · cases hj : s.path.queue.headIdx <;> simp [ho, hm]
  · exact iff_of_false (by simp) fun h ↦ hm h.2.1

theorem selected_filler (ho : s.overrides i = true) : s.selected i =
    ⟨i.dl.filler.blk1 s.timebase.tn, i.dl.filler.blk2 s.timebase.tn, false, false, true⟩ :=
  if_pos ho

/-- The head reaches the dispatcher, where the filler does not take the timeslot. -/
theorem selected_head (ho : s.overrides i = false) (hm : s.headMatch = true) :
    (s.selected i).enable = s.enabled ∧
      (s.selected i).blk1 = s.path.queue.head.coded.extractLsb' 216 216 ∧
      (s.path.queue.head.pduType = 0 →
        (s.selected i).blk2 = s.path.queue.head.coded.extractLsb' 0 216) := by
  have hactive : (s.path.schedIn (s.dlIn i)).active s.timebase.tn = true := hm
  obtain ⟨hblk1, hblk2, -⟩ := SchedIn.fanOut_of_active hactive
  have hsel : s.selected i = ⟨(s.path.schedIn (s.dlIn i)).blk1 s.timebase.tn,
      (s.path.schedIn (s.dlIn i)).blk2 s.timebase.tn,
      entryIsSdb (s.path.mux.entry s.timebase.tn),
      (s.path.schedIn (s.dlIn i)).ndb2 s.timebase.tn, s.enabled⟩ :=
    (if_neg (Bool.eq_false_iff.1 ho)).trans (if_pos (Bool.or_eq_true_iff.2 (.inl hactive)))
  rw [hsel]
  exact ⟨rfl, hblk1, hblk2⟩

theorem sound_capture (hp : s.timebase.slotPulse = true) :
    (s.capture i).Sound (s.step i).path.dispatcher := by
  obtain ⟨-, hbb, hblk1, hblk2⟩ := step_of_pulse (i := i) hp
  refine ⟨fun j hj ↦ ?_, fun j hj ↦ ?_, fun hf ↦ ?_⟩
  · have hm : s.headMatch = true := by
      by_contra hm
      simp [capture, aachFrom, hm] at hj
    obtain ⟨k, hk, hhead⟩ := exists_head hm
    obtain rfl : k = j := by simpa [capture, aachFrom, hm, hk] using hj
    rw [hbb, slotCoded, if_pos hm, hhead]
    rfl
  · obtain ⟨ho, ⟨hm, hen⟩, hidx⟩ := bodySource_eq_entry.1 hj
    obtain ⟨k, hk, hhead⟩ := exists_head hm
    obtain rfl : k = j := Option.some.inj (hk.symm.trans hidx)
    obtain ⟨hsel, hsel1, hsel2⟩ := selected_head ho hm
    rw [hblk1, hblk2, if_pos (hsel.trans hen), if_pos (hsel.trans hen), hsel1]
    change _ ∧ ((s.path.queue.entry k).pduType = 0 → _)
    rw [← hhead]
    exact ⟨congrArg (fun e : Entry ↦ e.coded.extractLsb' 216 216) hhead, fun hf ↦
      (hsel2 hf).trans (congrArg (fun e : Entry ↦ e.coded.extractLsb' 0 216) hhead)⟩
  · have hsel := selected_filler (bodySource_eq_filler.1 hf)
    rw [hblk1, hblk2, hsel]
    exact ⟨rfl, rfl⟩

/-- **What is captured fits** exactly if what it was made from does. -/
theorem fits_capture_iff (h : Prepared s) (hp : s.timebase.slotPulse = true) :
    (s.capture i).Fits (s.step i).path.dispatcher ↔ FitsWhen s i := by
  obtain ⟨-, hbb, -, -⟩ := step_of_pulse (i := i) hp
  rw [slotCoded, (h.ready hp).2] at hbb
  constructor
  · intro hfits
    have hqueue : s.headMatch = true → s.overrides i = false ∧ s.enabled = true := by
      intro hm
      obtain ⟨j, hj, -⟩ := exists_head hm
      have hbody := (hfits.entry j).1 (by simp [capture, aachFrom, hm, hj])
      obtain ⟨ho, ⟨-, hen⟩, -⟩ := bodySource_eq_entry.1 hbody
      exact ⟨ho, hen⟩
    have hnot : s.overrides i = true → s.headMatch ≠ true := fun ho hm ↦
      absurd (ho.symm.trans (hqueue hm).1) (by decide)
    refine ⟨hqueue, fun ho htn hsds ↦ ?_, fun ho htn hvoice ↦ ?_⟩
    · have hbits := hfits.sds (bodySource_eq_filler.2 ho) htn hsds
      rwa [hbb, if_neg (hnot ho), sampledCoded_eq_iff] at hbits
    · have hbits := hfits.voice (bodySource_eq_filler.2 ho) htn hvoice
      rwa [hbb, if_neg (hnot ho), sampledCoded_eq_iff] at hbits
  · intro hwhen
    have hnot : s.overrides i = true → s.headMatch ≠ true := fun ho hm ↦
      absurd (ho.symm.trans (hwhen.queue hm).1) (by decide)
    refine ⟨fun j ↦ ?_, fun hf htn hsds ↦ ?_, fun hf htn hvoice ↦ ?_⟩
    · refine Iff.trans ?_ bodySource_eq_entry.symm
      change (if s.headMatch then s.path.queue.headIdx else none) = some j ↔ _
      cases hm : s.headMatch with
      | true =>
          obtain ⟨ho, hen⟩ := hwhen.queue hm
          exact ⟨fun hj ↦ ⟨ho, ⟨rfl, hen⟩, hj⟩, fun hall ↦ hall.2.2⟩
      | false => exact iff_of_false (by simp) (by simp)
    · have ho := bodySource_eq_filler.1 hf
      rw [hbb, if_neg (hnot ho), sampledCoded_eq_iff]
      exact hwhen.sds ho htn hsds
    · have ho := bodySource_eq_filler.1 hf
      rw [hbb, if_neg (hnot ho), sampledCoded_eq_iff]
      exact hwhen.voice ho htn hvoice

/-! ## Runs -/

/-- What was captured is kept until the next pulse. -/
theorem forall_captured_iff (P : SlotCapture → BurstDispatcher → Prop)
    (hP : ∀ c d, P c { d with buildReq := false } ↔ P c d)
    (h : ∀ c, s.captured = some c → P c s.path.dispatcher) :
    (∀ c, (s.step i).captured = some c → P c (s.step i).path.dispatcher) ↔
      (s.timebase.slotPulse = true → P (s.capture i) (s.step i).path.dispatcher) := by
  cases hp : s.timebase.slotPulse with
  | true =>
      rw [(step_of_pulse hp).1, forall_prop_of_true rfl]
      exact ⟨fun hall ↦ hall _ rfl, fun hc c he ↦ Option.some.inj he ▸ hc⟩
  | false =>
      obtain ⟨hc, hd⟩ := step_of_not_pulse (i := i) hp
      rw [hc, hd]
      exact iff_of_true (fun c he ↦ (hP c _).2 (h c he)) (fun he ↦ absurd he (by decide))

theorem Sound.step (h : Sound s) (i : SlotIn) : Sound (s.step i) :=
  (forall_captured_iff SlotCapture.Sound
    (fun _ _ ↦ ⟨fun h ↦ ⟨h.aach, h.entry, h.filler⟩, fun h ↦ ⟨h.aach, h.entry, h.filler⟩⟩) h).2
      sound_capture

/-- **One step keeps the AACH right** exactly if a pulse finds it so. -/
theorem fits_step_iff (h : Prepared s) (hf : Fits s) : Fits (s.step i) ↔ PulseFits s i := by
  refine (forall_captured_iff SlotCapture.Fits
    (fun _ _ ↦ ⟨fun h ↦ ⟨h.entry, h.sds, h.voice⟩, fun h ↦ ⟨h.entry, h.sds, h.voice⟩⟩) hf).trans ?_
  exact forall_congr' fun hp ↦ fits_capture_iff h hp

/-- A run keeps the AACH right if each of its steps does. -/
theorem throughout_fits_iff (es : List SlotIn) :
    Run.Throughout step Fits {} es ↔ Run.Along step PulseFits {} es :=
  Run.throughout_iff_along step (fun _ i h ↦ h.step i) (fun _ _ h hf ↦ fits_step_iff h hf)
    prepared_reset (fun c hc ↦ absurd hc (by simp)) es

/-- **When AACH and body fit**: in every run what is captured is what its sources say; and the AACH
fits the body in exactly the runs in which, at each pulse, a queue head for the timeslot that begins
finds it enabled and not taken by the filler, and a filler finds that the inputs of the encoder told
at the pulse before what it needs now. -/
theorem fits_iff (es : List SlotIn) : Run.Throughout step Sound {} es ∧
    (Run.Throughout step Fits {} es ↔ Run.Along step PulseFits {} es) :=
  ⟨Run.throughout_of_step step (fun _ i h ↦ h.step i) (fun c hc ↦ absurd hc (by simp)) es,
    throughout_fits_iff es⟩

/-- The usual case: at the pulse before, outside of frame 18, the encoder was started for the
timeslot that begins, with the marks, the software's word and the cell of now, and with no head,
grant or reservation before them. -/
structure Settled (s : AachSystem) (i : SlotIn) (a : AachSample) : Prop where
  sampled : s.sampled = some a
  cell : a.io.lfsrInit = i.aach.lfsrInit
  frame : a.io.fn ≠ 17
  tn : a.io.tn = s.timebase.tn
  sds : s.timebase.tn = 0 → a.io.signallingActive = false ∧ a.io.grantPending = false ∧
    a.resvHold = 0 ∧ a.io.sdsFillLast = i.aach.sdsFillLast
  voice : s.timebase.tn ≠ 0 → a.io.voiceActiveMask.getLsbD a.io.tn.toNat = true ∧
    a.io.slotWord a.io.tn = i.aach.slotWord s.timebase.tn

/-- **In the usual case they fit.** -/
theorem Settled.fitsWhen {a : AachSample} (h : Settled s i a) (hm : s.headMatch = false) :
    FitsWhen s i := by
  refine ⟨fun hhead ↦ absurd (hhead.symm.trans hm) (by decide), fun _ htn _ ↦ ?_, fun _ htn _ ↦ ?_⟩
  · obtain ⟨hhead, hgrant, hhold, hlast⟩ := h.sds htn
    have htn' : a.io.tn = 0 := h.tn.trans htn
    rw [h.sampled, ← h.cell, told_iff, ← hlast]
    constructor
    · intro htells
      by_contra hnot
      have hcommon := AachIn.Tells.common h.frame htn' hhead hgrant hhold (Bool.eq_false_iff.2 hnot)
      exact absurd (hcommon.eq htells) (by decide)
    · exact AachIn.Tells.last h.frame htn' hhead hgrant hhold
  · obtain ⟨hmark, hword⟩ := h.voice htn
    have htn' : a.io.tn ≠ 0 := fun h0 ↦ htn (h.tn.symm.trans h0)
    rw [h.sampled, ← h.cell, told_iff, ← hword]
    exact .voice h.frame htn' hmark

/-- A symbol, with timeslot 1 marked for voice, and its bank valid. -/
def voiceIn (wrMle : MleWrPort) : SlotIn where
  timebase := { symEn := true }
  dl := { wrMle := wrMle, filler := { voiceActiveMask := 0b10, valid := 0b10 } }

/-- A PDU for timeslot 1 is queued, and its pulse comes. -/
def voicePduRun : List SlotIn :=
  voiceIn { valid := true, targetTn := 1, aachPattern := 0x0009 } :: List.replicate 255 (voiceIn {})

/-- **The AACH is the PDU's, and the body the filler's.** -/
theorem not_fits_voicePdu :
    ¬ Run.Throughout step Fits {} (voicePduRun ++ [voiceIn {}]) := by
  intro hfits
  obtain ⟨-, hpulse, -⟩ := (Run.along_append step _ _).1 ((throughout_fits_iff _).1 hfits)
  have hqueue := (hpulse (by decide +kernel)).queue (by decide +kernel)
  have hover : (Run.exec step {} voicePduRun).overrides (voiceIn {}) = true := by decide +kernel
  exact absurd (hover.symm.trans hqueue.1) (by decide)

end AachSystem

end TetraPhy.Tx
