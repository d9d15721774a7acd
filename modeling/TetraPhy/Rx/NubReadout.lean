import Mathlib.Data.List.GetD
import TetraPhy.Lib.BitField
import TetraPhy.Lib.Run
import TetraPhy.Rx.NubSofts

/-!
# The normal bursts that are read out

Over whole runs of `tetra_ul_nub_capture.v` with samples at least 300 cycles apart, the state is
known from two numbers: the samples that came after the sync, and the cycles since the last sample.

| samples since the sync | cycles since the last | state             |
|------------------------|-----------------------|-------------------|
| 0 .. 479               |                       | wait              |
| 480                    | 1 .. 112              | the first block   |
| 480                    | 113 .. 224            | the second block  |
| 480                    | 225                   | done              |
| 480                    | from 226 on           | idle              |
| more                   |                       | idle              |

So no sample is written while the blocks are read.  **`readout`**: the soft values are those of the
sample stream, once the anchor is 476 samples after reset.  Before that the first block begins where
no sample was written yet.
-/

namespace TetraPhy.Rx

/-- The registers.  Beside them stand the samples since reset, the number of the anchor's sample,
the samples since the last sync that was taken, and the cycles since the last sample. -/
structure NubRun where
  cap : NubCapture
  samples : List Iq := []
  anchor : ℤ := 0
  since : ℕ := 481
  age : ℕ := 300

namespace NubRun

variable (s : NubRun) (i : CaptureIn)

/-- A sync is taken. -/
def accepts : Bool := s.cap.state == .idle && i.syncFound

/-- One clock edge. -/
def step : NubRun where
  cap := s.cap.step i
  samples := if i.sample.valid then s.samples ++ [i.sample.iq] else s.samples
  anchor := if s.accepts i then s.samples.length - (s.cap.ring.delta i.bestPhase).toNat - 1
    else s.anchor
  since := if s.accepts i then 0 else if i.sample.valid then s.since + 1 else s.since
  age := if i.sample.valid then 1 else s.age + 1

/-- The samples are at least 300 cycles apart. -/
def Spaced : Prop := i.sample.valid = true → 300 ≤ s.age

/-- The state, from the two numbers. -/
def stateAt (since age : ℕ) : NubState :=
  if since < 480 then .waitPost
  else if since = 480 then
    if age = 1 then .readBkn1Pre
    else if age = 2 then .readBkn1Ref
    else if age ≤ 112 then .readBkn1Run
    else if age = 113 then .readBkn2Pre
    else if age = 114 then .readBkn2Ref
    else if age ≤ 224 then .readBkn2Run
    else if age = 225 then .done
    else .idle
  else .idle

/-- The cells a block is read from. -/
def blockAt (c : NubCapture) (base : BitVec 10) (m : ℕ) : Iq :=
  c.ring.ring.cell (base + BitVec.ofNat 10 (4 * m))

/-- Where the machine is. -/
structure Stage (since age : ℕ) (c : NubCapture) : Prop where
  state : c.state = stateAt since age
  post : since < 480 → c.postCnt = BitVec.ofNat 9 (480 - since)
  bkn1 : since = 480 → c.Block (blockAt c c.bkn1Base) c.bkn1Base age c.bkn1Softs
  bkn2 : since = 480 → 113 ≤ age → c.Block (blockAt c c.bkn2Base) c.bkn2Base (age - 112) c.bkn2Softs
  valid : c.codedValid = decide (since = 480 ∧ age = 226)

variable {s i} {c : NubCapture} {since age : ℕ}

theorem stateAt_wait (h : since < 480) : stateAt since age = .waitPost := if_pos h

theorem stateAt_over (h : 480 < since) : stateAt since age = .idle := by
  rw [stateAt, if_neg (by omega), if_neg (by omega)]

theorem stateAt_read (age : ℕ) : stateAt 480 age =
    if age = 1 then .readBkn1Pre
    else if age = 2 then .readBkn1Ref
    else if age ≤ 112 then .readBkn1Run
    else if age = 113 then .readBkn2Pre
    else if age = 114 then .readBkn2Ref
    else if age ≤ 224 then .readBkn2Run
    else if age = 225 then .done
    else .idle := rfl

/-- Without a sample the cells stay. -/
theorem blockAt_rest (c : NubCapture) (hv : i.sample.valid = false) (base : BitVec 10) :
    blockAt (c.step i) base = blockAt c base := by
  have hring : (c.step i).ring = c.ring := by
    rw [NubCapture.ring_step, CaptureRing.step, hv]
    rfl
  funext m
  rw [blockAt, hring, blockAt]

theorem holds_blockAt (c : NubCapture) (base : BitVec 10) : c.Holds (blockAt c base) base :=
  fun _ ↦ rfl

/-- The last cycle of a run state. -/
theorem symIdx_iff {s : ℕ → Iq} {base : BitVec 10} {softs : BitVec 864} {u : ℕ}
    (h : c.Block s base u softs) (hu : 3 ≤ u) (hu' : u ≤ 112) : c.symIdx = 109 ↔ u = 112 := by
  rw [(h.run hu hu').symIdx, ← BitVec.toNat_inj, BitVec.toNat_ofNat]
  show (u - 3) % 128 = 109 ↔ _
  omega

/-- A cycle of the first block. -/
theorem step_bkn1 (hage : 1 ≤ age) (hle : age ≤ 112) (hst : c.state = stateAt 480 age)
    (h : c.Block (blockAt c c.bkn1Base) c.bkn1Base age c.bkn1Softs) :
    (c.step i).state = stateAt 480 (age + 1) ∧ (c.step i).codedValid = false ∧
      (c.step i).Block (blockAt c c.bkn1Base) c.bkn1Base (age + 1) (c.step i).bkn1Softs ∧
      (age = 112 → (c.step i).Fetches c.bkn2Base 0) := by
  have hholds := holds_blockAt c c.bkn1Base
  rcases (by omega : age = 1 ∨ age = 2 ∨ 3 ≤ age) with rfl | rfl | hrun
  · have hstep : c.step i = NubCapture.stepPre c.bkn1Base .readBkn1Ref (c.stepRing i) := by
      rw [NubCapture.step, hst]
      rfl
    rw [hstep]
    exact ⟨rfl, rfl, NubCapture.block_pre hholds h _, fun h ↦ absurd h (by decide)⟩
  · have hstep : c.step i = c.stepRef c.bkn1Base .readBkn1Run (c.stepRing i) := by
      rw [NubCapture.step, hst]
      rfl
    rw [hstep]
    exact ⟨rfl, rfl, NubCapture.block_ref hholds h _, fun h ↦ absurd h (by decide)⟩
  · have hstate : c.state = .readBkn1Run := by
      rw [hst, stateAt_read, if_neg (by omega), if_neg (by omega), if_pos hle]
    have hstep : c.step i = c.stepBkn1 (c.stepRing i) := by
      rw [NubCapture.step, hstate]
    have hlast := symIdx_iff h hrun hle
    have hfilled := h.filled_run hrun hle
    rw [hstep, NubCapture.stepBkn1]
    by_cases h112 : age = 112
    · rw [if_pos (hlast.2 h112)]
      subst h112
      exact ⟨rfl, rfl, ⟨by omega, by omega, by omega, fun _ ↦ hfilled⟩,
        fun _ ↦ ⟨rfl, (BitVec.add_zero c.bkn2Base).symm⟩⟩
    · rw [if_neg (mt hlast.1 h112)]
      have hnext : stateAt 480 (age + 1) = .readBkn1Run := by
        rw [stateAt_read, if_neg (by omega), if_neg (by omega), if_pos (by omega)]
      have hsub : age + 1 - 3 = age - 3 + 1 := by omega
      refine ⟨hstate.trans hnext.symm, rfl, ⟨by omega, by omega, fun _ _ ↦ ?_, fun _ ↦ hfilled⟩,
        fun h ↦ absurd h h112⟩
      rw [hsub]
      exact (h.run hrun hle).step hholds (by omega) _ c.bkn2Softs

/-- A cycle of the second block. -/
theorem step_bkn2 (hage : 113 ≤ age) (hle : age ≤ 224) (hst : c.state = stateAt 480 age)
    (h : c.Block (blockAt c c.bkn2Base) c.bkn2Base (age - 112) c.bkn2Softs) :
    (c.step i).state = stateAt 480 (age + 1) ∧ (c.step i).codedValid = false ∧
      (c.step i).bkn1Softs = c.bkn1Softs ∧
      (c.step i).Block (blockAt c c.bkn2Base) c.bkn2Base (age + 1 - 112) (c.step i).bkn2Softs := by
  have hholds := holds_blockAt c c.bkn2Base
  rcases (by omega : age = 113 ∨ age = 114 ∨ 115 ≤ age) with rfl | rfl | hrun
  · have hstep : c.step i = NubCapture.stepPre c.bkn2Base .readBkn2Ref (c.stepRing i) := by
      rw [NubCapture.step, hst]
      rfl
    rw [hstep]
    exact ⟨rfl, rfl, rfl, NubCapture.block_pre hholds h _⟩
  · have hstep : c.step i = c.stepRef c.bkn2Base .readBkn2Run (c.stepRing i) := by
      rw [NubCapture.step, hst]
      rfl
    rw [hstep]
    exact ⟨rfl, rfl, rfl, NubCapture.block_ref hholds h _⟩
  · have hstate : c.state = .readBkn2Run := by
      rw [hst, stateAt_read, if_neg (by omega), if_neg (by omega), if_neg (by omega),
        if_neg (by omega), if_neg (by omega), if_pos hle]
    have hstep : c.step i = c.stepBkn2 (c.stepRing i) := by
      rw [NubCapture.step, hstate]
    have hlast := symIdx_iff h (by omega) (by omega)
    have hfilled := h.filled_run (by omega) (by omega)
    have hsub : age + 1 - 112 = age - 112 + 1 := by omega
    rw [hstep, NubCapture.stepBkn2, hsub]
    by_cases h224 : age = 224
    · rw [if_pos (hlast.2 (by omega))]
      subst h224
      exact ⟨rfl, rfl, rfl, ⟨by omega, by omega, by omega, fun _ ↦ hfilled⟩⟩
    · rw [if_neg (mt hlast.1 (by omega))]
      have hnext : stateAt 480 (age + 1) = .readBkn2Run := by
        rw [stateAt_read, if_neg (by omega), if_neg (by omega), if_neg (by omega),
          if_neg (by omega), if_neg (by omega), if_pos (by omega)]
      have hrun3 : age - 112 + 1 - 3 = age - 112 - 3 + 1 := by omega
      refine ⟨hstate.trans hnext.symm, rfl, rfl, ⟨by omega, by omega, fun _ _ ↦ ?_,
        fun _ ↦ hfilled⟩⟩
      rw [hrun3]
      exact (h.run (by omega) (by omega)).step hholds (by omega) c.bkn1Softs _

/-- An idle cycle without a sync. -/
theorem step_idle (hst : c.state = .idle) (hsync : (c.state == .idle && i.syncFound) = false) :
    c.step i = c.stepRing i := by
  have hf : i.syncFound = false := by simpa [hst] using hsync
  rw [NubCapture.step, hst]
  exact if_neg (by simp [hf])

/-- **A cycle without a sample or a sync.** -/
theorem stage_rest (h : Stage since age c) (hage : 1 ≤ age) (hv : i.sample.valid = false)
    (hsync : (c.state == .idle && i.syncFound) = false) : Stage since (age + 1) (c.step i) := by
  obtain ⟨hb1, hb2⟩ := NubCapture.bases_step hsync
  have hcells1 := blockAt_rest c hv c.bkn1Base
  have hcells2 := blockAt_rest c hv c.bkn2Base
  have hidle : ∀ since, stateAt since age = .idle → stateAt since (age + 1) = .idle →
      since = 480 ∧ 226 ≤ age ∨ 480 < since → Stage since age c →
        Stage since (age + 1) (c.step i) := by
    intro since hnow hnext hlate h
    have hst : c.state = .idle := h.state.trans hnow
    have hstep := step_idle hst hsync
    refine ⟨?_, fun hlt ↦ ?_, fun h480 ↦ ?_, fun h480 _ ↦ ?_, ?_⟩
    · rw [hstep, hnext]
      exact hst
    · omega
    · rw [hb1, hcells1, hstep]
      exact (h.bkn1 h480).keep (by omega)
    · have hsub : age + 1 - 112 = age - 112 + 1 := by omega
      rw [hb2, hcells2, hstep, hsub]
      exact (h.bkn2 h480 (by omega)).keep (by omega)
    · rw [hstep]
      exact (decide_eq_false (by omega)).symm
  rcases Nat.lt_trichotomy since 480 with hlt | rfl | hgt
  · have hst : c.state = .waitPost := h.state.trans (stateAt_wait hlt)
    have hstep : c.step i = c.stepRing i := by
      rw [NubCapture.step, hst]
      exact if_neg (by simp [hv])
    rw [hstep]
    exact ⟨hst.trans (stateAt_wait hlt).symm, h.post, by omega, by omega,
      (decide_eq_false (by omega)).symm⟩
  · rcases (by omega : age ≤ 112 ∨ 113 ≤ age ∧ age ≤ 224 ∨ age = 225 ∨ 226 ≤ age) with
      h1 | h2 | rfl | hlate
    · obtain ⟨hst, hvalid, hblock, hfetch⟩ := step_bkn1 (i := i) hage h1 h.state (h.bkn1 rfl)
      refine ⟨hst, by omega, fun _ ↦ ?_, fun _ hge ↦ ?_, ?_⟩
      · rw [hb1, hcells1]
        exact hblock
      · have h112 : age = 112 := by omega
        rw [hb2, hcells2]
        subst h112
        exact ⟨fun _ ↦ hfetch rfl, by omega, by omega, by omega⟩
      · exact hvalid.trans (decide_eq_false (by omega)).symm
    · obtain ⟨hst, hvalid, hsofts, hblock⟩ :=
        step_bkn2 (i := i) h2.1 h2.2 h.state (h.bkn2 rfl h2.1)
      refine ⟨hst, by omega, fun _ ↦ ?_, fun _ _ ↦ ?_, ?_⟩
      · rw [hb1, hcells1, hsofts]
        exact (h.bkn1 rfl).keep h2.1
      · rw [hb2, hcells2]
        exact hblock
      · exact hvalid.trans (decide_eq_false (by omega)).symm
    · have hst : c.state = .done := h.state
      have hstep : c.step i = c.stepDone (c.stepRing i) := by
        rw [NubCapture.step, hst]
      refine ⟨?_, by omega, fun _ ↦ ?_, fun _ _ ↦ ?_, ?_⟩
      · rw [hstep]
        rfl
      · rw [hb1, hcells1, hstep]
        exact (h.bkn1 rfl).keep (by decide)
      · rw [hb2, hcells2, hstep]
        exact (h.bkn2 rfl (by decide)).keep (by decide)
      · rw [hstep]
        rfl
    · have hread : ∀ age, 226 ≤ age → stateAt 480 age = .idle := by
        intro age hage
        rw [stateAt_read, if_neg (by omega), if_neg (by omega), if_neg (by omega),
          if_neg (by omega), if_neg (by omega), if_neg (by omega), if_neg (by omega)]
      exact hidle 480 (hread age hlate) (hread (age + 1) (by omega)) (.inl ⟨rfl, hlate⟩) h
  · exact hidle since (stateAt_over hgt) (stateAt_over hgt) (.inr hgt) h

/-- **A sample without a sync**: the wait goes on, the read-out begins, or the machine is idle. -/
theorem stage_sample (h : Stage since age c) (hage : 300 ≤ age) (hv : i.sample.valid = true)
    (hsync : (c.state == .idle && i.syncFound) = false) : Stage (since + 1) 1 (c.step i) := by
  rcases Nat.lt_or_ge since 480 with hlt | hge
  · have hst : c.state = .waitPost := h.state.trans (stateAt_wait hlt)
    have hpost : c.postCnt.toNat = 480 - since := by
      rw [h.post hlt, BitVec.toNat_ofNat]
      omega
    have hone : c.postCnt ≤ 1 ↔ since = 479 := by
      rw [BitVec.le_def, hpost]
      show 480 - since ≤ 1 ↔ _
      omega
    have hstep : c.step i = c.stepWait i (c.stepRing i) := by
      rw [NubCapture.step, hst]
    rw [hstep, NubCapture.stepWait, if_pos hv]
    by_cases h479 : since = 479
    · rw [if_pos (hone.2 h479)]
      subst h479
      refine ⟨rfl, by omega, fun _ ↦ ⟨fun _ ↦ ⟨rfl, ?_⟩, by omega, by omega, by omega⟩, by omega,
        rfl⟩
      exact (BitVec.add_zero c.bkn1Base).symm
    · rw [if_neg (mt hone.1 h479)]
      refine ⟨hst.trans (stateAt_wait (by omega)).symm, fun _ ↦ ?_, by omega, by omega, ?_⟩
      · apply BitVec.eq_of_toNat_eq
        show (c.postCnt - 1).toNat = _
        rw [BitVec.toNat_sub, hpost, BitVec.toNat_ofNat]
        show (512 - 1 + (480 - since)) % 512 = _
        omega
      · exact (decide_eq_false (by omega)).symm
  · have hst : c.state = .idle := by
      rw [h.state]
      rcases Nat.eq_or_lt_of_le hge with rfl | hgt
      · rw [stateAt_read, if_neg (by omega), if_neg (by omega), if_neg (by omega),
          if_neg (by omega), if_neg (by omega), if_neg (by omega), if_neg (by omega)]
      · exact stateAt_over hgt
    rw [step_idle hst hsync]
    exact ⟨hst.trans (stateAt_over (by omega)).symm, by omega, by omega, by omega,
      (decide_eq_false (by omega)).symm⟩

/-- A sync is taken. -/
theorem stage_accept (hst : c.state = .idle) (hf : i.syncFound = true) (age : ℕ) :
    Stage 0 age (c.step i) := by
  have hstep : c.step i = c.stepIdle i (c.stepRing i) := by
    rw [NubCapture.step, hst]
  rw [hstep, NubCapture.stepIdle, if_pos hf]
  exact ⟨rfl, fun _ ↦ rfl, by omega, by omega, rfl⟩

/-! ## The run -/

/-- What is kept along a run from a memory `init`. -/
structure Kept (init : BitVec 10 → Iq) (s : NubRun) : Prop where
  wrote : Ring.Wrote init s.cap.ring.ring s.samples
  age : 1 ≤ s.age
  stage : Stage s.since s.age s.cap
  bases : s.since ≤ 480 → s.cap.bkn1Base = BitVec.ofInt 10 (s.anchor - 476) ∧
    s.cap.bkn2Base = BitVec.ofInt 10 s.anchor
  length : s.since ≤ 480 → s.anchor + 1 + s.since ≤ s.samples.length ∧
    s.samples.length ≤ s.anchor + 5 + s.since

variable {init : BitVec 10 → Iq}

theorem ofInt_sub (x y : ℤ) : BitVec.ofInt 10 (x - y) = BitVec.ofInt 10 x - BitVec.ofInt 10 y := by
  rw [Int.sub_eq_add_neg, BitVec.ofInt_add, BitVec.ofInt_neg, ← BitVec.sub_eq_add_neg]

/-- The anchor is the place of its sample. -/
theorem Kept.anchorCalc_eq (h : Kept init s) (k : BitVec 2) : s.cap.ring.anchorCalc k =
    BitVec.ofInt 10 (s.samples.length - (s.cap.ring.delta k).toNat - 1) := by
  have hwp : s.cap.ring.ring.wp = BitVec.ofInt 10 s.samples.length := by
    rw [h.wrote.wp, BitVec.ofInt_natCast]
  rw [CaptureRing.anchorCalc, hwp, ← BitVec.ofNat_toNat, ← BitVec.ofInt_natCast, ofInt_sub,
    ofInt_sub]
  rfl

theorem Kept.step (h : Kept init s) (hspaced : Spaced s i) : Kept init (s.step i) := by
  have hring : (s.step i).cap.ring = s.cap.ring.step i.sample := NubCapture.ring_step
  have hwrote : Ring.Wrote init (s.step i).cap.ring.ring (s.step i).samples := by
    rw [hring, CaptureRing.step, NubRun.step]
    dsimp only
    split_ifs
    · exact h.wrote.write _
    · exact h.wrote
  have hage : 1 ≤ (s.step i).age := by
    show 1 ≤ if i.sample.valid then 1 else s.age + 1
    split_ifs <;> omega
  cases hacc : s.accepts i with
  | true =>
      obtain ⟨hidle, hf⟩ : (s.cap.state == .idle) = true ∧ i.syncFound = true := by
        rwa [accepts, Bool.and_eq_true] at hacc
      have hst : s.cap.state = .idle := beq_iff_eq.1 hidle
      have hcap : (s.step i).cap = s.cap.stepIdle i (s.cap.stepRing i) := by
        show s.cap.step i = _
        rw [NubCapture.step, hst]
      have hsince : (s.step i).since = 0 := if_pos hacc
      have hanchor : (s.step i).anchor =
          s.samples.length - (s.cap.ring.delta i.bestPhase).toNat - 1 := if_pos hacc
      refine ⟨hwrote, hage, ?_, fun _ ↦ ?_, fun _ ↦ ?_⟩
      · rw [hsince]
        exact stage_accept hst hf _
      · rw [hanchor, hcap, NubCapture.stepIdle, if_pos hf, ofInt_sub, ← h.anchorCalc_eq]
        exact ⟨rfl, BitVec.add_zero _⟩
      · have hdelta := (s.cap.ring.delta i.bestPhase).isLt
        rw [hsince, hanchor, NubRun.step]
        dsimp only
        split_ifs
        · rw [List.length_append, List.length_singleton]
          omega
        · omega
  | false =>
      have hbases := NubCapture.bases_step (c := s.cap) hacc
      have hanchor : (s.step i).anchor = s.anchor := if_neg (by simp [hacc])
      have hcap : (s.step i).cap = s.cap.step i := rfl
      cases hv : i.sample.valid with
      | true =>
          have hsince : (s.step i).since = s.since + 1 := by simp [NubRun.step, hacc, hv]
          have hone : (s.step i).age = 1 := by simp [NubRun.step, hv]
          have hlen : (s.step i).samples.length = s.samples.length + 1 := by
            simp [NubRun.step, hv]
          refine ⟨hwrote, hage, ?_, fun hle ↦ ?_, fun hle ↦ ?_⟩
          · rw [hsince, hone]
            exact stage_sample h.stage (hspaced hv) hv hacc
          · rw [hanchor, hcap, hbases.1, hbases.2]
            exact h.bases (by omega)
          · have hold := h.length (by omega)
            rw [hanchor, hsince, hlen]
            omega
      | false =>
          have hsince : (s.step i).since = s.since := by simp [NubRun.step, hacc, hv]
          have hnext : (s.step i).age = s.age + 1 := by simp [NubRun.step, hv]
          have hsamples : (s.step i).samples = s.samples := by simp [NubRun.step, hv]
          refine ⟨hwrote, hage, ?_, fun hle ↦ ?_, fun hle ↦ ?_⟩
          · rw [hsince, hnext]
            exact stage_rest h.stage h.age hv hacc
          · rw [hanchor, hcap, hbases.1, hbases.2]
            exact h.bases (by omega)
          · have hold := h.length (by omega)
            rw [hanchor, hsince, hsamples]
            exact hold

/-- The state at reset. -/
def reset (init : BitVec 10 → Iq) (rd : Iq) (products : NubProducts) : NubRun :=
  { cap := { ring := { ring := { cell := init } }, rd := rd, products := products } }

theorem kept_reset (init : BitVec 10 → Iq) (rd : Iq) (products : NubProducts) :
    Kept init (reset init rd products) :=
  ⟨Ring.wrote_nil, (by decide : 1 ≤ 300), ⟨rfl, fun h ↦ absurd h (by decide : ¬ 481 < 480),
    fun h ↦ absurd h (by decide : ¬ 481 = 480), fun h ↦ absurd h (by decide : ¬ 481 = 480), rfl⟩,
    fun h ↦ absurd h (by decide : ¬ 481 ≤ 480), fun h ↦ absurd h (by decide : ¬ 481 ≤ 480)⟩

theorem kept_exec {rd : Iq} {products : NubProducts} {es : List CaptureIn}
    (hspaced : Run.Along step Spaced (reset init rd products) es) :
    Kept init (Run.exec step (reset init rd products) es) :=
  (hspaced.throughout step (fun _ _ hs hi ↦ hs.step hi) (kept_reset init rd products)).last step

/-! ## The soft values -/

/-- Soft value `n`, the most significant first. -/
def softAt (coded : BitVec 1728) (n : ℕ) : ℤ := (coded.extractLsb' (4 * (431 - n)) 4).toInt

/-- The soft values from `n` on are those of the block that begins with sample `b`. -/
def BlockSofts (samples : List Iq) (b : ℕ) (coded : BitVec 1728) (n : ℕ) : Prop :=
  ∀ k < 108,
    softAt coded (n + 2 * k) = clampSoft (imOf (samples.getD (b + 4 * (k + 1)) ⟨0, 0⟩)
      (samples.getD (b + 4 * k) ⟨0, 0⟩)) ∧
    softAt coded (n + 2 * k + 1) = clampSoft (reOf (samples.getD (b + 4 * (k + 1)) ⟨0, 0⟩)
      (samples.getD (b + 4 * k) ⟨0, 0⟩))

theorem toInt_pairOf (cur prev : Iq) :
    ((pairOf cur prev).extractLsb' 4 4).toInt = clampSoft (imOf cur prev) ∧
      ((pairOf cur prev).extractLsb' 0 4).toInt = clampSoft (reOf cur prev) := by
  have hbound (x y : BitVec 16) : -2 ^ 30 ≤ (mulS x y).toInt ∧ (mulS x y).toInt ≤ 2 ^ 30 := by
    have hx : -2 ^ 15 ≤ x.toInt ∧ x.toInt < 2 ^ 15 := ⟨x.le_toInt, x.toInt_lt⟩
    have hy : -2 ^ 15 ≤ y.toInt ∧ y.toInt < 2 ^ 15 := ⟨y.le_toInt, y.toInt_lt⟩
    rw [toInt_mulS]
    constructor <;> nlinarith
  obtain ⟨hre, him⟩ := toInt_prod cur prev
  have hii := hbound cur.i prev.i
  have hqq := hbound cur.q prev.q
  have hqi := hbound cur.q prev.i
  have hiq := hbound cur.i prev.q
  rw [pairOf, BitVec.extractLsb'_append_eq_of_le (by decide),
    BitVec.extractLsb'_append_eq_of_add_le (by decide)]
  refine ⟨?_, ?_⟩
  · rw [← him, ← toInt_softOf (by rw [toInt_diffS]; omega), Nat.sub_self,
      BitVec.extractLsb'_eq_self]
  · rw [← hre, ← toInt_softOf (by rw [toInt_sumS]; omega), BitVec.extractLsb'_eq_self]

/-- The soft values of a pair, in a half of the register. -/
theorem softAt_half {x : BitVec 864} {k : ℕ} (hk : k < 108) {coded : BitVec 1728} {n : ℕ}
    (hn : n ≤ 216) (hcoded : ∀ t ≤ 860, coded.extractLsb' (864 - 4 * n + t) 4 = x.extractLsb' t 4) :
    softAt coded (n + 2 * k) = ((x.extractLsb' (8 * (107 - k)) 8).extractLsb' 4 4).toInt ∧
      softAt coded (n + 2 * k + 1) = ((x.extractLsb' (8 * (107 - k)) 8).extractLsb' 0 4).toInt := by
  have hhi : 4 * (431 - (n + 2 * k)) = 864 - 4 * n + (8 * (107 - k) + 4) := by omega
  have hlo : 4 * (431 - (n + 2 * k + 1)) = 864 - 4 * n + (8 * (107 - k) + 0) := by omega
  rw [softAt, softAt, hhi, hlo, hcoded _ (by omega), hcoded _ (by omega),
    BitField.slice_slice x _ _ (by decide), BitField.slice_slice x _ _ (by decide)]
  exact ⟨rfl, rfl⟩

/-- **The samples of a block are those of the stream**: none is overwritten, and all are there. -/
theorem Kept.blockAt_eq (h : Kept init s) (hsince : s.since = 480) {base : BitVec 10} {b : ℕ}
    (hbase : base = BitVec.ofNat 10 b) (hlo : s.anchor ≤ b + 476) (hhi : b ≤ s.anchor) {m : ℕ}
    (hm : m ≤ 108) : blockAt s.cap base m = s.samples.getD (b + 4 * m) ⟨0, 0⟩ := by
  have hlen := h.length (Nat.le_of_eq hsince)
  rw [hsince] at hlen
  have hlt : b + 4 * m < s.samples.length := by omega
  rw [blockAt, hbase, ← BitVec.ofNat_add, h.wrote.read hlt (by omega),
    List.getD_eq_getElem _ _ hlt]

/-- A half of the register holds the soft values of its block. -/
theorem Kept.blockSofts (h : Kept init s) (hsince : s.since = 480) {base : BitVec 10} {b : ℕ}
    (hbase : base = BitVec.ofNat 10 b) (hlo : s.anchor ≤ b + 476) (hhi : b ≤ s.anchor)
    {x : BitVec 864} (hx : Filled (blockAt s.cap base) 108 x) {n : ℕ} (hn : n ≤ 216)
    (hcoded : ∀ t ≤ 860, s.cap.codedSofts.extractLsb' (864 - 4 * n + t) 4 = x.extractLsb' t 4) :
    BlockSofts s.samples b s.cap.codedSofts n := by
  intro k hk
  obtain ⟨him, hre⟩ := softAt_half hk hn hcoded
  have hpair := hx k hk
  rw [h.blockAt_eq hsince hbase hlo hhi (by omega), h.blockAt_eq hsince hbase hlo hhi (by omega)]
    at hpair
  rw [him, hre, hpair]
  exact toInt_pairOf _ _

/-- **What is read out.**  Of every sync that is taken, 226 cycles after the 480th sample behind it,
the soft values are delivered; and if the anchor is at least 476 samples after reset, they are those
of the two blocks around it in the stream of samples. -/
theorem readout (init : BitVec 10 → Iq) (rd : Iq) (products : NubProducts) (es : List CaptureIn)
    (hspaced : Run.Along step Spaced (reset init rd products) es) :
    let s := Run.exec step (reset init rd products) es
    (s.cap.codedValid = true ↔ s.since = 480 ∧ s.age = 226) ∧
      (s.cap.codedValid = true → ∀ a : ℕ, s.anchor = a → 476 ≤ a →
        BlockSofts s.samples (a - 476) s.cap.codedSofts 0 ∧
          BlockSofts s.samples a s.cap.codedSofts 216) := by
  intro s
  have h : Kept init s := kept_exec hspaced
  have hvalid : s.cap.codedValid = true ↔ s.since = 480 ∧ s.age = 226 := by
    rw [h.stage.valid, decide_eq_true_iff]
  refine ⟨hvalid, fun hv a ha hle ↦ ?_⟩
  obtain ⟨hsince, hage⟩ := hvalid.1 hv
  obtain ⟨hb1, hb2⟩ := h.bases (Nat.le_of_eq hsince)
  have hanchor : s.anchor - 476 = (a - 476 : ℕ) := by omega
  have hx1 := (h.stage.bkn1 hsince).filled (by omega)
  have hx2 := (h.stage.bkn2 hsince (by omega)).filled (by omega)
  rw [hage] at hx1 hx2
  rw [hanchor, BitVec.ofInt_natCast] at hb1
  rw [ha, BitVec.ofInt_natCast] at hb2
  refine ⟨h.blockSofts hsince hb1 (by omega) (by omega) hx1 (by decide) fun t ht ↦ ?_,
    h.blockSofts hsince hb2 (by omega) (by omega) hx2 (by decide) fun t ht ↦ ?_⟩
  · have hplace : 864 - 4 * 0 + t - 864 = t := by omega
    rw [NubCapture.codedSofts, BitVec.extractLsb'_append_eq_of_le (by omega), hplace]
  · have hplace : 864 - 4 * 216 + t = t := by omega
    rw [NubCapture.codedSofts, hplace, BitVec.extractLsb'_append_eq_of_add_le (by omega)]

/-! ## A sync behind many samples, and one too early -/

/-- A cycle without anything. -/
def quiet : CaptureIn := {}

/-- A sample, of value 0. -/
def zeroSample : CaptureIn := { sample := { valid := true } }

/-- Cycles without anything only pass. -/
theorem exec_quiet (s : NubRun) (n : ℕ) :
    Run.Along step Spaced s (List.replicate n quiet) ∧
      let t := Run.exec step s (List.replicate n quiet)
      t.since = s.since ∧ t.age = s.age + n ∧ t.anchor = s.anchor ∧ t.samples = s.samples := by
  induction n generalizing s with
  | zero => exact ⟨trivial, rfl, rfl, rfl, rfl⟩
  | succ n ih =>
      have hacc : s.accepts quiet = false := Bool.and_false _
      obtain ⟨halong, hsince, hage, hanchor, hsamples⟩ := ih (s.step quiet)
      refine ⟨⟨fun h ↦ absurd h Bool.false_ne_true, halong⟩, ?_, ?_, ?_, ?_⟩
      · exact hsince.trans (if_neg (by simp [hacc]))
      · refine hage.trans ?_
        show s.age + 1 + n = _
        omega
      · exact hanchor.trans (if_neg (by simp [hacc]))
      · exact hsamples

/-- A sample, and `m` cycles without anything. -/
theorem exec_beat (s : NubRun) (m : ℕ) (hs : 300 ≤ s.age) :
    let beat := zeroSample :: List.replicate m quiet
    Run.Along step Spaced s beat ∧
      let t := Run.exec step s beat
      t.since = s.since + 1 ∧ t.age = m + 1 ∧ t.anchor = s.anchor ∧
        t.samples.length = s.samples.length + 1 := by
  have hacc : s.accepts zeroSample = false := Bool.and_false _
  obtain ⟨halong, hsince, hage, hanchor, hsamples⟩ := exec_quiet (s.step zeroSample) m
  refine ⟨⟨fun _ ↦ hs, halong⟩, ?_, ?_, ?_, ?_⟩
  · exact hsince.trans ((if_neg (by simp [hacc])).trans (if_pos rfl))
  · exact hage.trans (Nat.add_comm 1 m)
  · exact hanchor.trans (if_neg (by simp [hacc]))
  · exact (congrArg List.length hsamples).trans List.length_append

/-- Such samples one behind another. -/
theorem exec_beats (s : NubRun) {m : ℕ} (hm : 300 ≤ m + 1) (n : ℕ) (hs : s.age = m + 1) :
    let beats := (List.replicate n (zeroSample :: List.replicate m quiet)).flatten
    Run.Along step Spaced s beats ∧
      let t := Run.exec step s beats
      t.since = s.since + n ∧ t.age = m + 1 ∧ t.anchor = s.anchor ∧
        t.samples.length = s.samples.length + n := by
  induction n generalizing s with
  | zero => exact ⟨trivial, rfl, hs, rfl, rfl⟩
  | succ n ih =>
      obtain ⟨halong, hsince, hage, hanchor, hlen⟩ := exec_beat s m (hs ▸ hm)
      obtain ⟨halong', hsince', hage', hanchor', hlen'⟩ := ih _ hage
      rw [List.replicate_succ, List.flatten_cons]
      dsimp only
      rw [Run.exec_append, Run.along_append]
      exact ⟨⟨halong, halong'⟩, by omega, hage', hanchor'.trans hanchor, by omega⟩

/-- A sample and a sync. -/
def earlySync : List CaptureIn := [zeroSample, { syncFound := true }]

/-- The cycles until the soft values are delivered. -/
def earlyWait : List CaptureIn :=
  List.replicate 298 quiet ++
    ((List.replicate 479 (zeroSample :: List.replicate 299 quiet)).flatten ++
      zeroSample :: List.replicate 225 quiet)

/-- In the idle state the sync is taken. -/
theorem exec_earlySync (s : NubRun) (hst : s.cap.state = .idle) (hage : 300 ≤ s.age) :
    Run.Along step Spaced s earlySync ∧
      let t := Run.exec step s earlySync
      t.since = 0 ∧ t.age = 2 ∧
        t.anchor = s.samples.length - ((s.step zeroSample).cap.ring.delta 0).toNat ∧
        t.samples.length = s.samples.length + 1 := by
  have hstep : (s.step zeroSample).cap = s.cap.stepRing zeroSample :=
    step_idle hst (Bool.and_false _)
  have hidle : (s.step zeroSample).cap.state = .idle := by
    rw [hstep]
    exact hst
  have hacc : (s.step zeroSample).accepts { syncFound := true } = true := by
    rw [accepts, hidle]
    rfl
  have hlen : (s.step zeroSample).samples.length = s.samples.length + 1 := List.length_append
  refine ⟨⟨fun _ ↦ hage, fun h ↦ absurd h Bool.false_ne_true, trivial⟩, if_pos hacc, rfl, ?_, hlen⟩
  refine (if_pos hacc).trans ?_
  show ((s.step zeroSample).samples.length : ℤ) -
    ((s.step zeroSample).cap.ring.delta 0).toNat - 1 = _
  omega

theorem exec_earlyWait (s : NubRun) (hsince : s.since = 0) (hage : s.age = 2) :
    Run.Along step Spaced s earlyWait ∧
      let t := Run.exec step s earlyWait
      t.since = 480 ∧ t.age = 226 ∧ t.anchor = s.anchor ∧
        t.samples.length = s.samples.length + 480 := by
  obtain ⟨ha1, hs1, hg1, hn1, hl1⟩ := exec_quiet s 298
  obtain ⟨ha2, hs2, hg2, hn2, hl2⟩ := exec_beats _ (m := 299) (by decide) 479 (hg1.trans (by omega))
  obtain ⟨ha3, hs3, hg3, hn3, hl3⟩ := exec_beat _ 225 (Nat.le_of_eq hg2.symm)
  rw [earlyWait, Run.exec_append, Run.exec_append, Run.along_append, Run.along_append]
  refine ⟨⟨ha1, ha2, ha3⟩, ?_, hg3, hn3.trans (hn2.trans hn1), ?_⟩
  · omega
  · rw [hl3, hl2, hl1]

/-- The samples are those of the cycles. -/
theorem samples_exec (s : NubRun) (es : List CaptureIn) : (Run.exec step s es).samples =
    s.samples ++ (es.filter fun i ↦ i.sample.valid).map fun i ↦ i.sample.iq := by
  induction es generalizing s with
  | nil => exact (List.append_nil _).symm
  | cons i es ih =>
      rw [Run.exec_cons, ih, NubRun.step]
      cases hv : i.sample.valid <;> simp [hv]

/-- **The first pair comes from cells that no sample was written to.** -/
theorem Kept.early (h : Kept init s) (hsince : s.since = 480) (hage : s.age = 226)
    (hanchor : s.anchor = 0) (hlen : s.samples.length = 481) : s.cap.codedValid = true ∧
      softAt s.cap.codedSofts 1 = clampSoft (reOf (init 552) (init 548)) := by
  have hbase : s.cap.bkn1Base = 548 := by
    rw [(h.bases (Nat.le_of_eq hsince)).1, hanchor]
    rfl
  have hcell (m : ℕ) (hlo : 481 ≤ m) (hhi : m < 1024) :
      s.cap.ring.ring.cell (BitVec.ofNat 10 m) = init (BitVec.ofNat 10 m) :=
    h.wrote.rest m (by omega) hhi
  have hfilled := (h.stage.bkn1 hsince).filled (by omega)
  rw [hage] at hfilled
  have hpair : s.cap.bkn1Softs.extractLsb' (8 * (107 - 0)) 8 = _ := hfilled 0 (by decide)
  have h0 : blockAt s.cap s.cap.bkn1Base 0 = init 548 := by
    rw [blockAt, hbase]
    exact hcell 548 (by decide) (by decide)
  have h1 : blockAt s.cap s.cap.bkn1Base 1 = init 552 := by
    rw [blockAt, hbase]
    exact hcell 552 (by decide) (by decide)
  have hcoded : ∀ t ≤ 860, s.cap.codedSofts.extractLsb' (864 - 4 * 0 + t) 4 =
      s.cap.bkn1Softs.extractLsb' t 4 := by
    intro t ht
    have hplace : 864 - 4 * 0 + t - 864 = t := by omega
    rw [NubCapture.codedSofts, BitVec.extractLsb'_append_eq_of_le (by omega), hplace]
  refine ⟨?_, ?_⟩
  · rw [h.stage.valid, hsince, hage]
    rfl
  · refine (softAt_half (k := 0) (by decide) (by decide) hcoded).2.trans ?_
    rw [hpair, h0, h1]
    exact (toInt_pairOf _ _).2

/-- The run. -/
theorem exec_early (init : BitVec 10 → Iq) (rd : Iq) (products : NubProducts) :
    Run.Along step Spaced (reset init rd products) (earlySync ++ earlyWait) ∧
      let s := Run.exec step (reset init rd products) (earlySync ++ earlyWait)
      s.since = 480 ∧ s.age = 226 ∧ s.anchor = 0 ∧ s.samples.length = 481 := by
  obtain ⟨ha1, hs1, hg1, hn1, hl1⟩ :=
    exec_earlySync (reset init rd products) rfl (Nat.le_refl 300)
  obtain ⟨ha2, hs2, hg2, hn2, hl2⟩ := exec_earlyWait _ hs1 hg1
  rw [Run.exec_append, Run.along_append]
  have hzero : (((reset init rd products).samples.length : ℕ) : ℤ) -
      (((reset init rd products).step zeroSample).cap.ring.delta 0).toNat = 0 := by
    show ((0 : ℕ) : ℤ) - ((1 + 3 - 0 : BitVec 2).toNat : ℤ) = 0
    rfl
  exact ⟨⟨ha1, ha2⟩, hs2, hg2, hn2.trans (hn1.trans hzero), hl2.trans (congrArg (· + 480) hl1)⟩

/-- Such a run depends on what the memory held. -/
theorem codedSofts_ne {rd : Iq} {products : NubProducts} {es : List CaptureIn}
    (hrun : ∀ init, Run.Along step Spaced (reset init rd products) es ∧
      let s := Run.exec step (reset init rd products) es
      s.since = 480 ∧ s.age = 226 ∧ s.anchor = 0 ∧ s.samples.length = 481) :
    let run (init : BitVec 10 → Iq) := Run.exec step (reset init rd products) es
    (∀ init, Run.Along step Spaced (reset init rd products) es ∧
      (run init).cap.codedValid = true ∧ (run init).anchor = 0) ∧
    (run fun _ ↦ ⟨0, 0⟩).samples = (run fun _ ↦ ⟨0x4000, 0⟩).samples ∧
    (run fun _ ↦ ⟨0, 0⟩).cap.codedSofts ≠ (run fun _ ↦ ⟨0x4000, 0⟩).cap.codedSofts := by
  intro run
  have hearly (init : BitVec 10 → Iq) : (run init).cap.codedValid = true ∧
      softAt (run init).cap.codedSofts 1 = clampSoft (reOf (init 552) (init 548)) := by
    obtain ⟨halong, hsince, hage, hanchor, hlen⟩ := hrun init
    exact (kept_exec halong).early hsince hage hanchor hlen
  refine ⟨fun init ↦ ?_, ?_, fun heq ↦ ?_⟩
  · obtain ⟨halong, -, -, hanchor, -⟩ := hrun init
    exact ⟨halong, (hearly init).1, hanchor⟩
  · have hsamples (init : BitVec 10 → Iq) : (run init).samples =
        (es.filter fun i ↦ i.sample.valid).map fun i ↦ i.sample.iq :=
      samples_exec (reset init rd products) es
    rw [hsamples, hsamples]
  · have hsoft := (hearly fun _ ↦ ⟨0, 0⟩).2
    rw [heq, (hearly fun _ ↦ ⟨0x4000, 0⟩).2] at hsoft
    exact absurd hsoft (by decide)

/-- A sync behind 481 samples. -/
def lateRun : List CaptureIn :=
  (List.replicate 480 (zeroSample :: List.replicate 299 quiet)).flatten ++ (earlySync ++ earlyWait)

theorem exec_sync (h : Kept init s) (hsince : 480 < s.since) (hage : 300 ≤ s.age) :
    Run.Along step Spaced s (earlySync ++ earlyWait) ∧
      let t := Run.exec step s (earlySync ++ earlyWait)
      t.since = 480 ∧ t.age = 226 ∧ s.samples.length - 3 ≤ t.anchor := by
  have hst : s.cap.state = .idle := h.stage.state.trans (stateAt_over hsince)
  obtain ⟨ha1, hs1, hg1, hn1, hl1⟩ := exec_earlySync s hst hage
  obtain ⟨ha2, hs2, hg2, hn2, hl2⟩ := exec_earlyWait _ hs1 hg1
  have hdelta : ((s.step zeroSample).cap.ring.delta 0).toNat ≤ 3 :=
    Nat.le_of_lt_succ ((s.step zeroSample).cap.ring.delta 0).isLt
  rw [Run.exec_append, Run.along_append]
  refine ⟨⟨ha1, ha2⟩, hs2, hg2, ?_⟩
  rw [hn2, hn1]
  exact Int.sub_le_sub_left (Int.ofNat_le.2 hdelta) _

theorem exec_late (init : BitVec 10 → Iq) (rd : Iq) (products : NubProducts) :
    Run.Along step Spaced (reset init rd products) lateRun ∧
      let s := Run.exec step (reset init rd products) lateRun
      s.since = 480 ∧ s.age = 226 ∧ 476 ≤ s.anchor := by
  obtain ⟨halong, hsince, hage, hanchor, hlen⟩ :=
    exec_beats (reset init rd products) (m := 299) (by decide) 480 rfl
  have hover : 480 < (481 + 480 : ℕ) := by decide
  obtain ⟨halong', hsince', hage', hanchor'⟩ :=
    exec_sync (kept_exec halong) (hsince.symm ▸ hover) (Nat.le_of_eq hage.symm)
  rw [lateRun, Run.exec_append, Run.along_append]
  rw [hlen] at hanchor'
  have hle : (476 : ℤ) ≤ ((0 + 480 : ℕ) : ℤ) - 3 := by decide
  exact ⟨⟨halong, halong'⟩, hsince', hage', Int.le_trans hle hanchor'⟩

theorem readout_late :
    let s := Run.exec step (reset (fun _ ↦ ⟨0, 0⟩) ⟨0, 0⟩ ⟨0, 0, 0, 0, 0, 0⟩) lateRun
    s.cap.codedValid = true ∧ ∃ a : ℕ, s.anchor = a ∧ 476 ≤ a ∧
      BlockSofts s.samples (a - 476) s.cap.codedSofts 0 ∧
        BlockSofts s.samples a s.cap.codedSofts 216 := by
  obtain ⟨halong, hsince, hage, hanchor⟩ := exec_late (fun _ ↦ ⟨0, 0⟩) ⟨0, 0⟩ ⟨0, 0, 0, 0, 0, 0⟩
  obtain ⟨hvalid, hsofts⟩ := readout _ _ _ _ halong
  have hnat : ∀ x : ℤ, 476 ≤ x → ∃ a : ℕ, x = a ∧ 476 ≤ a := by
    intro x hx
    exact ⟨x.toNat, by omega, by omega⟩
  obtain ⟨a, ha, hle⟩ := hnat _ hanchor
  exact ⟨hvalid.2 ⟨hsince, hage⟩, a, ha, hle, hsofts (hvalid.2 ⟨hsince, hage⟩) a ha hle⟩

/-- **A sync too early**: at an anchor of 0 the soft values depend on what the memory held before
any sample, and not on the samples alone. -/
theorem not_readout_early :
    let run (init : BitVec 10 → Iq) :=
      Run.exec step (reset init ⟨0, 0⟩ ⟨0, 0, 0, 0, 0, 0⟩) (earlySync ++ earlyWait)
    (∀ init, Run.Along step Spaced (reset init ⟨0, 0⟩ ⟨0, 0, 0, 0, 0, 0⟩) (earlySync ++ earlyWait) ∧
      (run init).cap.codedValid = true ∧ (run init).anchor = 0) ∧
    (run fun _ ↦ ⟨0, 0⟩).samples = (run fun _ ↦ ⟨0x4000, 0⟩).samples ∧
    (run fun _ ↦ ⟨0, 0⟩).cap.codedSofts ≠ (run fun _ ↦ ⟨0x4000, 0⟩).cap.codedSofts :=
  codedSofts_ne fun init ↦ exec_early init _ _

end NubRun

end TetraPhy.Rx
