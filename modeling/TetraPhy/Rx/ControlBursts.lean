import TetraPhy.Lib.Permute
import TetraPhy.Lib.Run
import TetraPhy.Rx.SoftMailbox

/-!
# The control bursts in the mailbox

`tetra_ul_burst_capture.v`, `tetra_ul_pi4dqpsk_demod.v` and `tetra_ul_ctrl_softburst_mailbox.v`
behind one another.  Everything in the pipeline is known from the cycles since the stream of a burst
began:

| cycles         | stage                                    |
|----------------|------------------------------------------|
| 0 .. 85        | the capture machine streams              |
| 1 .. 86        | read enable                              |
| 2 .. 87        | the samples                              |
| 4 .. 88        | the products, but not in cycle 46        |
| 7 .. 91        | the soft values, but not in cycle 49     |

The first soft values of each half are marked as first ones, in cycles 7 and 50, and there the
mailbox begins anew.  So the second half is written over the first, and the upper nibbles are never
written: **`agrees_iff_zero`**.
-/

namespace TetraPhy.Rx

/-- The inputs of a cycle. -/
structure ControlIn where
  capture : CaptureIn := {}
  timeslotNum : BitVec 2 := 0
  ackPulse : Bool := false

/-- The registers.  Beside them stand the soft values of the burst, in the order of type 5, the
timeslot when its last ones came, and the cycles since its stream began. -/
structure ControlRun where
  capture : BurstCapture
  demod : UlDemod := {}
  mailbox : SoftMailbox := {}
  burst : List (BitVec 8) := []
  tn : BitVec 2 := 0
  age : ℕ := 258

namespace ControlRun

variable (s : ControlRun) (i : ControlIn)

/-- What the mailbox gets. -/
def mailboxIn : SoftMailboxIn where
  softBit0 := s.demod.softBit0
  softBit1 := s.demod.softBit1
  softValid := s.demod.soft.valid
  softFirst := s.demod.soft.first
  softLast := s.demod.soft.last
  timeslotNum := i.timeslotNum
  ackPulse := i.ackPulse

/-- The stream of a burst begins. -/
def starts : Bool :=
  s.capture.state == .waitPost && i.capture.sample.valid && decide (s.capture.postCnt ≤ 1)

/-- One clock edge.  The first soft values of the first half begin a burst. -/
def step : ControlRun where
  capture := s.capture.step i.capture
  demod := s.demod.step s.capture.out
  mailbox := s.mailbox.step (s.mailboxIn i)
  burst :=
    if s.demod.soft.valid then
      (if s.demod.soft.first && !s.demod.soft.half then [] else s.burst) ++
        [s.demod.softBit1, s.demod.softBit0]
    else s.burst
  tn := if s.demod.soft.valid && s.demod.soft.last then i.timeslotNum else s.tn
  age := if s.starts i then 0 else s.age + 1

/-- The state at reset; the memory and the last sample read from it are left open. -/
def reset (init : BitVec 9 → Iq) (iq : Iq) : ControlRun :=
  { capture := { ring := { ring := { cell := init } }, out := { iq := iq } } }

/-! ## The pipeline -/

/-- The marks of the samples, `k` cycles behind. -/
structure Streamed (valid first last half : Bool) (k age : ℕ) : Prop where
  valid : valid = decide (k ≤ age ∧ age ≤ k + 85)
  first : first = decide (age = k ∨ age = k + 43)
  last : last = decide (age = k + 85)
  half : k ≤ age → age ≤ k + 85 → half = decide (k + 43 ≤ age)

/-- The marks of the products, `k` cycles behind. -/
structure Tagged (t : SoftTag) (k age : ℕ) : Prop where
  valid : t.valid = decide (k ≤ age ∧ age ≤ k + 84 ∧ age ≠ k + 42)
  first : t.first = decide (age = k ∨ age = k + 43)
  last : t.last = decide (age = k + 84)
  half : k ≤ age → age ≤ k + 84 → t.half = decide (k + 42 ≤ age)

/-- What is known of capture machine and demodulator. -/
structure Timed (c : BurstCapture) (d : UlDemod) (age : ℕ) : Prop where
  cb1 : age < 43 → c.state = .streamCb1 ∧ c.streamIdx = BitVec.ofNat 6 age
  cb2 : 43 ≤ age → age < 86 → c.state = .streamCb2 ∧ c.streamIdx = BitVec.ofNat 6 (age - 43)
  rest : 86 ≤ age → c.state = .idle ∨ c.state = .waitPost ∧ 258 ≤ age + c.postCnt.toNat
  rd : Streamed c.rdEn c.rdFirst c.rdLast c.rdHalf 1 age
  out : Streamed c.out.valid c.out.first c.out.last c.out.half 2 age
  prev : 3 ≤ age → age ≤ 88 → d.hasPrev = true ∧ d.pendingFirst = decide (age = 3 ∨ age = 46)
  s1 : Tagged d.tagS1 4 age
  s2 : Tagged d.tagS2 5 age
  s2b : Tagged d.tagS2b 6 age
  soft : Tagged d.soft 7 age

variable {c : BurstCapture} {d : UlDemod} {age k : ℕ} {t : SoftTag} {v f l h : Bool}
  {i : CaptureIn}

theorem Tagged.succ (ht : Tagged t k age) : Tagged t (k + 1) (age + 1) where
  valid := ht.valid.trans (decide_eq_decide.2 (by omega))
  first := ht.first.trans (decide_eq_decide.2 (by omega))
  last := ht.last.trans (decide_eq_decide.2 (by omega))
  half h1 h2 := (ht.half (by omega) (by omega)).trans (decide_eq_decide.2 (by omega))

/-- When the next stream begins, the pipeline is empty. -/
theorem Tagged.zero (ht : Tagged t k age) (hk : k ≤ 7) (hage : 92 ≤ age) : Tagged t (k + 1) 0 where
  valid := ht.valid.trans (decide_eq_decide.2 (by omega))
  first := ht.first.trans (decide_eq_decide.2 (by omega))
  last := ht.last.trans (decide_eq_decide.2 (by omega))
  half h1 _ := absurd h1 (Nat.not_succ_le_zero k)

theorem Streamed.succ (hs : Streamed v f l h k age) : Streamed v f l h (k + 1) (age + 1) where
  valid := hs.valid.trans (decide_eq_decide.2 (by omega))
  first := hs.first.trans (decide_eq_decide.2 (by omega))
  last := hs.last.trans (decide_eq_decide.2 (by omega))
  half h1 h2 := (hs.half (by omega) (by omega)).trans (decide_eq_decide.2 (by omega))

theorem Streamed.zero (hs : Streamed v f l h k age) (hk : k ≤ 7) (hage : 93 ≤ age) :
    Streamed v f l h (k + 1) 0 where
  valid := hs.valid.trans (decide_eq_decide.2 (by omega))
  first := hs.first.trans (decide_eq_decide.2 (by omega))
  last := hs.last.trans (decide_eq_decide.2 (by omega))
  half h1 _ := absurd h1 (Nat.not_succ_le_zero k)

/-- A product is made of each sample but the first ones of the halves. -/
theorem Timed.emitS0 (ht : Timed c d age) :
    d.emitS0 c.out = decide (3 ≤ age ∧ age ≤ 87 ∧ age ≠ 45) := by
  have hfresh : (c.out.valid && !c.out.first) = decide (3 ≤ age ∧ age ≤ 87 ∧ age ≠ 45) := by
    rw [ht.out.valid, ht.out.first, ← decide_not, ← Bool.decide_and]
    exact decide_eq_decide.2 (by omega)
  rw [UlDemod.emitS0, hfresh]
  by_cases hin : 3 ≤ age ∧ age ≤ 87 ∧ age ≠ 45
  · rw [(ht.prev hin.1 (by omega)).1, Bool.and_true]
  · rw [decide_eq_false hin, Bool.false_and]

theorem Timed.tagS1 (ht : Timed c d age) : Tagged (d.step c.out).tagS1 4 (age + 1) := by
  have hemit := ht.emitS0
  refine ⟨?_, ?_, ?_, fun h1 h2 ↦ ?_⟩
  · exact hemit.trans (decide_eq_decide.2 (by omega))
  · show (d.emitS0 c.out && d.pendingFirst) = _
    rw [hemit]
    by_cases hin : 3 ≤ age ∧ age ≤ 87 ∧ age ≠ 45
    · rw [(ht.prev hin.1 (by omega)).2, ← Bool.decide_and]
      exact decide_eq_decide.2 (by omega)
    · rw [decide_eq_false hin, Bool.false_and]
      exact (decide_eq_false (by omega)).symm
  · show (d.emitS0 c.out && c.out.last) = _
    rw [hemit, ht.out.last, ← Bool.decide_and]
    exact decide_eq_decide.2 (by omega)
  · exact (ht.out.half (by omega) (by omega)).trans (decide_eq_decide.2 (by omega))

theorem Timed.prev_step (ht : Timed c d age) (h1 : 3 ≤ age + 1) (h2 : age + 1 ≤ 88) :
    (d.step c.out).hasPrev = true ∧
      (d.step c.out).pendingFirst = decide (age + 1 = 3 ∨ age + 1 = 46) := by
  have hvalid : c.out.valid = true := ht.out.valid.trans (decide_eq_true (by omega))
  have hfirst : decide (age = 2 ∨ age = 2 + 43) = decide (age + 1 = 3 ∨ age + 1 = 46) :=
    decide_eq_decide.2 (by omega)
  rw [UlDemod.step, hvalid, ht.out.first, hfirst]
  by_cases hage : age + 1 = 3 ∨ age + 1 = 46
  · rw [decide_eq_true hage]
    exact ⟨rfl, rfl⟩
  · rw [decide_eq_false hage, (ht.prev (by omega) (by omega)).1]
    exact ⟨rfl, rfl⟩

/-- The capture machine, in a cycle in which no stream begins. -/
theorem Timed.capture_step (ht : Timed c d age)
    (hst : (c.state == .waitPost && i.sample.valid && decide (c.postCnt ≤ 1)) = false) :
    (age + 1 < 43 → (c.step i).state = .streamCb1 ∧
        (c.step i).streamIdx = BitVec.ofNat 6 (age + 1)) ∧
      (43 ≤ age + 1 → age + 1 < 86 → (c.step i).state = .streamCb2 ∧
        (c.step i).streamIdx = BitVec.ofNat 6 (age + 1 - 43)) ∧
      (86 ≤ age + 1 → (c.step i).state = .idle ∨
        (c.step i).state = .waitPost ∧ 258 ≤ age + 1 + (c.step i).postCnt.toNat) ∧
      Streamed (c.step i).rdEn (c.step i).rdFirst (c.step i).rdLast (c.step i).rdHalf 1
        (age + 1) := by
  rcases (by omega : age < 43 ∨ 43 ≤ age ∧ age < 86 ∨ 86 ≤ age) with hcb1 | hcb2 | hrest
  · obtain ⟨hstate, hidx⟩ := ht.cb1 hcb1
    have hstep : c.step i = c.stepCb1 (c.stepRing i) := by rw [BurstCapture.step, hstate]
    have hlast : c.streamIdx = 42 ↔ age = 42 := by
      rw [hidx, ← BitVec.toNat_inj, BitVec.toNat_ofNat]
      show age % 64 = 42 ↔ _
      omega
    have hzero : (c.streamIdx == 0) = decide (age = 0) := by
      rw [hidx, beq_eq_decide]
      refine decide_eq_decide.2 ?_
      rw [← BitVec.toNat_inj, BitVec.toNat_ofNat]
      show age % 64 = 0 ↔ _
      omega
    rw [hstep, BurstCapture.stepCb1]
    refine ⟨fun hlt ↦ ?_, fun h1 h2 ↦ ?_, by omega, ⟨?_, ?_, ?_, fun _ _ ↦ ?_⟩⟩
    · have hne : ¬ c.streamIdx = 42 := fun h ↦ by have := hlast.1 h; omega
      rw [if_neg hne, if_neg hne, hidx, BitVec.ofNat_add]
      exact ⟨rfl, rfl⟩
    · have h42 : age = 42 := by omega
      rw [if_pos (hlast.2 h42), if_pos (hlast.2 h42), h42]
      exact ⟨rfl, rfl⟩
    · exact (decide_eq_true (by omega)).symm
    · exact hzero.trans (decide_eq_decide.2 (by omega))
    · exact (decide_eq_false (by omega)).symm
    · exact (decide_eq_false (by omega)).symm
  · obtain ⟨hstate, hidx⟩ := ht.cb2 hcb2.1 hcb2.2
    have hstep : c.step i = c.stepCb2 (c.stepRing i) := by rw [BurstCapture.step, hstate]
    have hlast : c.streamIdx = 42 ↔ age = 85 := by
      rw [hidx, ← BitVec.toNat_inj, BitVec.toNat_ofNat]
      show (age - 43) % 64 = 42 ↔ _
      omega
    have hzero : (c.streamIdx == 0) = decide (age = 43) := by
      rw [hidx, beq_eq_decide]
      refine decide_eq_decide.2 ?_
      rw [← BitVec.toNat_inj, BitVec.toNat_ofNat]
      show (age - 43) % 64 = 0 ↔ _
      omega
    rw [hstep, BurstCapture.stepCb2]
    refine ⟨by omega, fun h1 h2 ↦ ?_, fun h86 ↦ .inl ?_, ⟨?_, ?_, ?_, fun _ _ ↦ ?_⟩⟩
    · have hne : ¬ c.streamIdx = 42 := fun h ↦ by have := hlast.1 h; omega
      have hsub : age + 1 - 43 = age - 43 + 1 := by omega
      rw [if_neg hne, if_neg hne, hidx, hsub, BitVec.ofNat_add]
      exact ⟨rfl, rfl⟩
    · exact if_pos (hlast.2 (by omega))
    · exact (decide_eq_true (by omega)).symm
    · exact hzero.trans (decide_eq_decide.2 (by omega))
    · exact (beq_eq_decide ..).trans (decide_eq_decide.2 (hlast.trans (by omega)))
    · exact (decide_eq_true (by omega)).symm
  · have hquiet : ∀ n : BurstCapture, n.rdEn = false → n.rdFirst = false → n.rdLast = false →
        Streamed n.rdEn n.rdFirst n.rdLast n.rdHalf 1 (age + 1) := by
      intro n hen hfirst hlast
      refine ⟨hen.trans (decide_eq_false ?_).symm, hfirst.trans (decide_eq_false ?_).symm,
        hlast.trans (decide_eq_false ?_).symm, ?_⟩ <;> omega
    rcases ht.rest hrest with hidle | ⟨hwait, hcnt⟩
    · have hstep : c.step i = c.stepIdle i (c.stepRing i) := by rw [BurstCapture.step, hidle]
      rw [hstep, BurstCapture.stepIdle]
      split
      · exact ⟨by omega, by omega, fun _ ↦ .inr ⟨rfl, show 258 ≤ age + 1 + 172 by omega⟩,
          hquiet _ rfl rfl rfl⟩
      · exact ⟨by omega, by omega, fun _ ↦ .inl hidle, hquiet _ rfl rfl rfl⟩
    · have hstep : c.step i = c.stepWait i (c.stepRing i) := by rw [BurstCapture.step, hwait]
      rw [hstep, BurstCapture.stepWait]
      cases hv : i.sample.valid with
      | false =>
          rw [if_neg Bool.false_ne_true]
          refine ⟨by omega, by omega, fun _ ↦ .inr ⟨hwait, ?_⟩, hquiet _ rfl rfl rfl⟩
          show 258 ≤ age + 1 + c.postCnt.toNat
          omega
      | true =>
          have hmany : ¬ c.postCnt ≤ 1 := by simpa [hwait, hv] using hst
          have hpred : (c.postCnt - 1).toNat = c.postCnt.toNat - 1 :=
            BitVec.toNat_sub_of_le (BitVec.le_of_lt (BitVec.not_le.1 hmany))
          rw [if_pos rfl, if_neg hmany]
          refine ⟨by omega, by omega, fun _ ↦ .inr ⟨hwait, ?_⟩, hquiet _ rfl rfl rfl⟩
          rw [hpred]
          omega

/-- **A cycle in which no stream begins.** -/
theorem Timed.next (ht : Timed c d age)
    (hst : (c.state == .waitPost && i.sample.valid && decide (c.postCnt ≤ 1)) = false) :
    Timed (c.step i) (d.step c.out) (age + 1) := by
  obtain ⟨hcb1, hcb2, hrest, hrd⟩ := ht.capture_step hst
  have hout : (c.step i).out.valid = c.rdEn ∧ (c.step i).out.first = c.rdFirst ∧
      (c.step i).out.last = c.rdLast ∧ (c.step i).out.half = c.rdHalf := BurstCapture.out_step
  obtain ⟨hv, hf, hl, hh⟩ := hout
  refine ⟨hcb1, hcb2, hrest, hrd, ?_, ht.prev_step, ht.tagS1, ht.s1.succ, ht.s2.succ, ht.s2b.succ⟩
  rw [hv, hf, hl, hh]
  exact ht.rd.succ

/-- **The cycle in which a stream begins.** -/
theorem Timed.restart (ht : Timed c d age)
    (hst : (c.state == .waitPost && i.sample.valid && decide (c.postCnt ≤ 1)) = true) :
    257 ≤ age ∧ Timed (c.step i) (d.step c.out) 0 := by
  rw [Bool.and_eq_true, Bool.and_eq_true, beq_iff_eq, decide_eq_true_iff] at hst
  obtain ⟨⟨hwait, hv⟩, hone⟩ := hst
  have hage : 257 ≤ age := by
    have hcnt : c.postCnt.toNat ≤ 1 := hone
    rcases (by omega : age < 43 ∨ 43 ≤ age ∧ age < 86 ∨ 86 ≤ age) with hcb1 | hcb2 | hrest
    · exact absurd (hwait.symm.trans (ht.cb1 hcb1).1) (by decide)
    · exact absurd (hwait.symm.trans (ht.cb2 hcb2.1 hcb2.2).1) (by decide)
    · rcases ht.rest hrest with hidle | ⟨-, hle⟩
      · exact absurd (hwait.symm.trans hidle) (by decide)
      · omega
  have hstep : c.step i = { c.stepRing i with streamIdx := 0, state := .streamCb1 } := by
    rw [BurstCapture.step, hwait]
    dsimp only
    rw [BurstCapture.stepWait, if_pos hv, if_pos hone]
  obtain ⟨hov, hof, hol, hoh⟩ := BurstCapture.out_step (c := c) (i := i)
  have hemit : d.emitS0 c.out = false := ht.emitS0.trans (decide_eq_false (by omega))
  refine ⟨hage, ?_, by omega, by omega, ?_, ?_, by omega, ?_, ht.s1.zero (by decide) (by omega),
    ht.s2.zero (by decide) (by omega), ht.s2b.zero (by decide) (by omega)⟩
  · rw [hstep]
    exact fun _ ↦ ⟨rfl, rfl⟩
  · rw [hstep]
    exact ⟨rfl, rfl, rfl, fun h ↦ absurd h (by decide)⟩
  · rw [hov, hof, hol, hoh]
    exact ht.rd.zero (by decide) (by omega)
  · refine ⟨hemit, ?_, ?_, fun h ↦ absurd h (by decide)⟩
    · exact congrArg (· && _) hemit
    · exact congrArg (· && _) hemit

/-! ## The mailbox -/

/-- What is known of the mailbox: the second half is where the first was. -/
structure Held (m : SoftMailbox) (burst : List (BitVec 8)) (tn : BitVec 2) (age : ℕ) : Prop where
  high : ∀ p, 84 ≤ p → nibble m.packed p = 0
  tn : m.tnLat = tn
  fst : 8 ≤ age → age ≤ 50 →
    m.idx = BitVec.ofNat 8 (2 * (min age 49 - 7)) ∧ burst.length = 2 * (min age 49 - 7)
  snd : 51 ≤ age → age ≤ 92 →
    m.idx = BitVec.ofNat 8 (2 * (age - 50)) ∧ burst.length = 84 + 2 * (age - 50) ∧
      ∀ p < 2 * (age - 50), nibble m.packed p = negsat (burst.getD (84 + p) 0)
  full : burst.length = 168 → ∀ p < 84, nibble m.packed p = negsat (burst.getD (84 + p) 0)
  done : age = 92 → m.valid = true

variable {m : SoftMailbox} {burst : List (BitVec 8)} {tn : BitVec 2} {x : SoftMailboxIn}

/-- A cycle without soft values. -/
theorem Held.quiet (hm : Held m burst tn age) (hv : x.softValid = false)
    (hage : age < 7 ∨ age = 49 ∨ 92 ≤ age) : Held (m.step x) burst tn (age + 1) := by
  have hpacked : (m.step x).packed = m.packed := by simp [SoftMailbox.step, hv]
  have hidx : (m.step x).idx = m.idx := by simp [SoftMailbox.step, hv]
  have htn : (m.step x).tnLat = m.tnLat := by simp [SoftMailbox.step, hv]
  refine ⟨?_, htn.trans hm.tn, fun h1 h2 ↦ ?_, fun h1 h2 ↦ by omega, ?_, fun h ↦ by omega⟩
  · rw [hpacked]
    exact hm.high
  · have h49 : age = 49 := by omega
    have hfst := hm.fst (by omega) (by omega)
    rw [hidx]
    subst h49
    exact hfst
  · rw [hpacked]
    exact hm.full

/-- The pipeline is empty when the next stream begins. -/
theorem Held.zero (hm : Held m burst tn age) (hv : x.softValid = false) :
    Held (m.step x) burst tn 0 := by
  have hpacked : (m.step x).packed = m.packed := by simp [SoftMailbox.step, hv]
  have htn : (m.step x).tnLat = m.tnLat := by simp [SoftMailbox.step, hv]
  refine ⟨?_, htn.trans hm.tn, by omega, by omega, ?_, by omega⟩
  · rw [hpacked]
    exact hm.high
  · rw [hpacked]
    exact hm.full

/-- What a pair writes. -/
theorem nibble_step (hv : x.softValid = true) {w : ℕ} (hw : (m.wpos x).toNat = w) (hlt : w < 84)
    (p : ℕ) : nibble (m.step x).packed p =
      if p = w + 1 then negsat x.softBit0 else if p = w then negsat x.softBit1
        else nibble m.packed p := by
  have hpacked : (m.step x).packed = BitField.put (BitField.put m.packed (4 * w)
      (negsat x.softBit1)) (4 * (w + 1)) (negsat x.softBit0) := by
    simp [SoftMailbox.step, hv, hw]
  rw [hpacked, nibble_put _ (by omega), nibble_put _ (by omega)]

theorem idx_step (hv : x.softValid = true) {w : ℕ} (hw : (m.wpos x).toNat = w) :
    (m.step x).idx = BitVec.ofNat 8 (w + 2) := by
  have hidx : (m.step x).idx = m.wpos x + 2 := if_pos hv
  rw [hidx, BitVec.ofNat_add, ← hw, BitVec.ofNat_toNat, BitVec.setWidth_eq]
  rfl

/-- A pair of the first half. -/
theorem Held.fst_step (hm : Held m burst tn age) (hv : x.softValid = true)
    (hfirst : x.softFirst = decide (age = 7)) (hlast : x.softLast = false) (hlo : 7 ≤ age)
    (hhi : age ≤ 48) {burst' : List (BitVec 8)}
    (hburst : burst' = (if age = 7 then [] else burst) ++ [x.softBit1, x.softBit0]) :
    Held (m.step x) burst' tn (age + 1) := by
  have hstart : (m.wpos x).toNat = 2 * (age - 7) ∧
      (if age = 7 then [] else burst).length = 2 * (age - 7) := by
    rw [SoftMailbox.wpos, hfirst]
    by_cases h7 : age = 7
    · rw [decide_eq_true h7, if_pos rfl, if_pos h7, h7]
      exact ⟨rfl, rfl⟩
    · obtain ⟨hidx, hlen⟩ := hm.fst (by omega) (by omega)
      rw [decide_eq_false h7, if_neg Bool.false_ne_true, if_neg h7, hidx, hlen, BitVec.toNat_ofNat]
      omega
  have hlen : burst'.length = 2 * (age + 1 - 7) := by
    rw [hburst, List.length_append, hstart.2]
    show 2 * (age - 7) + 2 = _
    omega
  refine ⟨fun p hp ↦ ?_, ?_, fun h1 h2 ↦ ⟨?_, ?_⟩, by omega, fun h ↦ by omega, by omega⟩
  · rw [nibble_step hv hstart.1 (by omega), if_neg (by omega), if_neg (by omega), hm.high p hp]
  · exact (if_neg (by simp [hlast])).trans hm.tn
  · have hnext : 2 * (min (age + 1) 49 - 7) = 2 * (age - 7) + 2 := by omega
    rw [idx_step hv hstart.1, hnext]
  · rw [hlen, Nat.min_eq_left (by omega)]

/-- **A pair of the second half** is written where one of the first half was. -/
theorem Held.snd_step (hm : Held m burst tn age) (hv : x.softValid = true)
    (hfirst : x.softFirst = decide (age = 50)) (hlast : x.softLast = decide (age = 91))
    (hlo : 50 ≤ age) (hhi : age ≤ 91) :
    Held (m.step x) (burst ++ [x.softBit1, x.softBit0])
      (if x.softValid && x.softLast then x.timeslotNum else tn) (age + 1) := by
  have hstart : (m.wpos x).toNat = 2 * (age - 50) ∧ burst.length = 84 + 2 * (age - 50) ∧
      ∀ p < 2 * (age - 50), nibble m.packed p = negsat (burst.getD (84 + p) 0) := by
    rw [SoftMailbox.wpos, hfirst]
    by_cases h50 : age = 50
    · subst h50
      exact ⟨rfl, (hm.fst (by decide) (by decide)).2, fun p hp ↦ absurd hp (Nat.not_lt_zero p)⟩
    · obtain ⟨hidx, hlen, hcells⟩ := hm.snd (by omega) (by omega)
      rw [decide_eq_false h50, if_neg Bool.false_ne_true, hidx, BitVec.toNat_ofNat]
      exact ⟨Nat.mod_eq_of_lt (by omega), hlen, hcells⟩
  obtain ⟨hw, hlen, hcells⟩ := hstart
  have hlen' : (burst ++ [x.softBit1, x.softBit0]).length = 84 + 2 * (age + 1 - 50) := by
    rw [List.length_append, hlen]
    show 84 + 2 * (age - 50) + 2 = _
    omega
  have hcells' : ∀ p < 2 * (age + 1 - 50), nibble (m.step x).packed p =
      negsat ((burst ++ [x.softBit1, x.softBit0]).getD (84 + p) 0) := by
    intro p hp
    rw [nibble_step hv hw (by omega)]
    rcases (by omega : p < 2 * (age - 50) ∨ p = 2 * (age - 50) ∨ p = 2 * (age - 50) + 1) with
      hold | rfl | rfl
    · rw [if_neg (by omega), if_neg (by omega), hcells p hold, List.getD_append _ _ _ _ (by omega)]
    · rw [if_neg (by omega), if_pos rfl, ← hlen, List.getD_append_right _ _ _ _ (Nat.le_refl _),
        Nat.sub_self]
      rfl
    · rw [if_pos rfl, ← Nat.add_assoc, ← hlen,
        List.getD_append_right _ _ _ _ (Nat.le_add_right _ 1), Nat.add_sub_cancel_left]
      rfl
  refine ⟨fun p hp ↦ ?_, ?_, by omega, fun h1 h2 ↦ ⟨?_, hlen', hcells'⟩, fun h168 p hp ↦ ?_, ?_⟩
  · rw [nibble_step hv hw (by omega), if_neg (by omega), if_neg (by omega), hm.high p hp]
  · show (if x.softValid && x.softLast then x.timeslotNum else m.tnLat) = _
    rw [hm.tn]
  · have hnext : 2 * (age + 1 - 50) = 2 * (age - 50) + 2 := by omega
    rw [idx_step hv hw, hnext]
  · exact hcells' p (by omega)
  · intro h92
    have hend : x.softLast = true := hlast.trans (decide_eq_true (by omega))
    exact if_pos (by rw [hv, hend]; rfl)

/-! ## The run -/

/-- What is kept along a run. -/
structure Kept (s : ControlRun) : Prop where
  timed : Timed s.capture s.demod s.age
  held : Held s.mailbox s.burst s.tn s.age

variable {s}

theorem Kept.step (hk : Kept s) (i : ControlIn) : Kept (s.step i) := by
  obtain ⟨ht, hm⟩ := hk
  have hvalid := ht.soft.valid
  have hquiet (h : s.demod.soft.valid = false) :
      (s.step i).burst = s.burst ∧ (s.step i).tn = s.tn := by
    rw [ControlRun.step, h]
    exact ⟨rfl, rfl⟩
  cases hst : s.starts i with
  | true =>
      obtain ⟨hage, ht'⟩ := ht.restart hst
      have hv : s.demod.soft.valid = false := hvalid.trans (decide_eq_false (by omega))
      have hzero : (s.step i).age = 0 := if_pos hst
      refine ⟨?_, ?_⟩
      · rw [hzero]
        exact ht'
      · rw [hzero, (hquiet hv).1, (hquiet hv).2]
        exact hm.zero hv
  | false =>
      have hsucc : (s.step i).age = s.age + 1 := if_neg (by simp [hst])
      refine ⟨?_, ?_⟩
      · rw [hsucc]
        exact ht.next hst
      rw [hsucc]
      rcases (by omega : (s.age < 7 ∨ s.age = 49 ∨ 92 ≤ s.age) ∨ 7 ≤ s.age ∧ s.age ≤ 48 ∨
        50 ≤ s.age ∧ s.age ≤ 91) with hrest | ⟨hlo, hhi⟩ | ⟨hlo, hhi⟩
      · have hv : s.demod.soft.valid = false := hvalid.trans (decide_eq_false (by omega))
        rw [(hquiet hv).1, (hquiet hv).2]
        exact hm.quiet hv hrest
      · have hv : s.demod.soft.valid = true := hvalid.trans (decide_eq_true (by omega))
        have hfirst : s.demod.soft.first = decide (s.age = 7) :=
          ht.soft.first.trans (decide_eq_decide.2 (by omega))
        have hlast : s.demod.soft.last = false := ht.soft.last.trans (decide_eq_false (by omega))
        have hhalf : s.demod.soft.half = false :=
          (ht.soft.half hlo (by omega)).trans (decide_eq_false (by omega))
        have htn : (s.step i).tn = s.tn := if_neg (by simp [hlast])
        rw [htn]
        refine hm.fst_step hv hfirst hlast hlo hhi ((if_pos hv).trans ?_)
        rw [hfirst, hhalf]
        simp only [Bool.not_false, Bool.and_true, decide_eq_true_eq]
        rfl
      · have hv : s.demod.soft.valid = true := hvalid.trans (decide_eq_true (by omega))
        have hfirst : s.demod.soft.first = decide (s.age = 50) :=
          ht.soft.first.trans (decide_eq_decide.2 (by omega))
        have hlast : s.demod.soft.last = decide (s.age = 91) := ht.soft.last
        have hhalf : s.demod.soft.half = true :=
          (ht.soft.half (by omega) (by omega)).trans (decide_eq_true (by omega))
        have hburst : (s.step i).burst =
            s.burst ++ [s.demod.softBit1, s.demod.softBit0] := by
          rw [ControlRun.step, hv, hhalf]
          simp
        rw [hburst]
        exact hm.snd_step (x := s.mailboxIn i) hv hfirst hlast hlo hhi

theorem nibble_zero (p : ℕ) : nibble 0 p = 0 := BitVec.extractLsb'_zero

theorem kept_reset (init : BitVec 9 → Iq) (iq : Iq) : Kept (reset init iq) where
  timed :=
    { cb1 := fun h ↦ absurd h (by decide : ¬ 258 < 43)
      cb2 := fun _ h ↦ absurd h (by decide : ¬ 258 < 86)
      rest := fun _ ↦ .inl rfl
      rd := ⟨rfl, rfl, rfl, fun _ h ↦ absurd h (by decide : ¬ 258 ≤ 86)⟩
      out := ⟨rfl, rfl, rfl, fun _ h ↦ absurd h (by decide : ¬ 258 ≤ 87)⟩
      prev := fun _ h ↦ absurd h (by decide : ¬ 258 ≤ 88)
      s1 := ⟨rfl, rfl, rfl, fun _ h ↦ absurd h (by decide : ¬ 258 ≤ 88)⟩
      s2 := ⟨rfl, rfl, rfl, fun _ h ↦ absurd h (by decide : ¬ 258 ≤ 89)⟩
      s2b := ⟨rfl, rfl, rfl, fun _ h ↦ absurd h (by decide : ¬ 258 ≤ 90)⟩
      soft := ⟨rfl, rfl, rfl, fun _ h ↦ absurd h (by decide : ¬ 258 ≤ 91)⟩ }
  held :=
    { high := fun p _ ↦ nibble_zero p
      tn := rfl
      fst := fun _ h ↦ absurd h (by decide : ¬ 258 ≤ 50)
      snd := fun _ h ↦ absurd h (by decide : ¬ 258 ≤ 92)
      full := fun h ↦ absurd h (by decide : ¬ 0 = 168)
      done := fun h ↦ absurd h (by decide : ¬ 258 = 92) }

theorem kept_exec (init : BitVec 9 → Iq) (iq : Iq) (es : List ControlIn) :
    Kept (Run.exec ControlRun.step (reset init iq) es) :=
  Run.exec_induction ControlRun.step (fun _ i h ↦ h.step i) (kept_reset init iq) es

/-- **When the words are those of the software**, of a burst that is complete and not yet
acknowledged. -/
theorem Kept.agrees_iff (hk : Kept s) (hlen : s.burst.length = 168)
    (hvalid : s.mailbox.valid = true) :
    s.mailbox.Agrees s.tn s.burst ↔ ∀ x ∈ s.burst, x = 0 := by
  have hzero : negsat 0 = 0 := (negsat_eq_zero_iff 0).2 rfl
  rw [SoftMailbox.agrees_iff hvalid hk.held.tn hlen]
  constructor
  · intro h
    have hsnd : ∀ p, 84 ≤ p → p < 168 → s.burst.getD p 0 = 0 := by
      intro p hlo hhi
      rw [← negsat_eq_zero_iff, ← h p hhi, hk.held.high p hlo]
    have hfst : ∀ p < 84, s.burst.getD p 0 = 0 := by
      intro p hp
      rw [← negsat_eq_zero_iff, ← h p (by omega), hk.held.full hlen p hp,
        hsnd (84 + p) (by omega) (by omega), hzero]
    intro x hx
    obtain ⟨p, hp, rfl⟩ := List.getElem_of_mem hx
    rw [← List.getD_eq_getElem _ 0 hp]
    rcases Nat.lt_or_ge p 84 with hlt | hge
    · exact hfst p hlt
    · exact hsnd p hge (hlen ▸ hp)
  · intro h p hp
    have hget : ∀ q, s.burst.getD q 0 = 0 := fun q ↦
      Permute.getD_of_forall (p := (· = 0)) rfl h q
    rw [hget, hzero]
    rcases Nat.lt_or_ge p 84 with hlt | hge
    · rw [hk.held.full hlen p hlt, hget, hzero]
    · exact hk.held.high p hge

/-- **The mailbox and the software agree on no burst but one of zeros.** -/
theorem agrees_iff_zero (init : BitVec 9 → Iq) (iq : Iq) (es : List ControlIn) :
    let s := Run.exec ControlRun.step (reset init iq) es
    s.burst.length = 168 → s.mailbox.valid = true →
      (s.mailbox.Agrees s.tn s.burst ↔ ∀ x ∈ s.burst, x = 0) :=
  fun hlen hvalid ↦ (kept_exec init iq es).agrees_iff hlen hvalid

/-- A sync, samples that are all the same, and time for the burst. -/
def evenRun : List ControlIn :=
  { capture := { syncFound := true } } ::
    List.replicate 172 { capture := { sample := { valid := true, iq := ⟨0x4000, 0⟩ } } } ++
      List.replicate 92 ({} : ControlIn)

theorem exec_evenRun :
    let s := Run.exec ControlRun.step (reset (fun _ ↦ ⟨0x4000, 0⟩) ⟨0, 0⟩) evenRun
    s.burst.length = 168 ∧ s.mailbox.valid = true ∧ 32 ∈ s.burst := by
  decide +kernel

theorem agrees_iff_zero_even :
    let s := Run.exec ControlRun.step (reset (fun _ ↦ ⟨0x4000, 0⟩) ⟨0, 0⟩) evenRun
    s.mailbox.Agrees s.tn s.burst ↔ ∀ x ∈ s.burst, x = 0 :=
  agrees_iff_zero _ _ _ exec_evenRun.1 exec_evenRun.2.1

/-- There they do not agree. -/
theorem not_agrees_even :
    let s := Run.exec ControlRun.step (reset (fun _ ↦ ⟨0x4000, 0⟩) ⟨0, 0⟩) evenRun
    s.burst.length = 168 ∧ s.mailbox.valid = true ∧ ¬ s.mailbox.Agrees s.tn s.burst := by
  obtain ⟨hlen, hvalid, hmem⟩ := exec_evenRun
  refine ⟨hlen, hvalid, fun hagrees ↦ ?_⟩
  have hzero := ((kept_exec _ _ _).agrees_iff hlen hvalid).1 hagrees
  exact absurd (hzero 32 hmem) (by decide)

end ControlRun

end TetraPhy.Rx
