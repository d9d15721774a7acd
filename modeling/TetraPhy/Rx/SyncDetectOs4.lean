import TetraPhy.Rx.BurstCapture
import TetraPhy.Rx.SyncDetect

/-!
# The oversampled sync detector

`tetra_ul_sync_detect_os4.v`: four samples a symbol, so four windows of dibits, each of which is
shifted at the samples of its phase only.  As many matches in one of them as the threshold are a
sync, which blocks further ones for a number of samples; the phase of the best window, the first
among equals, is reported with it.

What is compared with the threshold at a sample are the windows before that sample's own dibit.
-/

namespace TetraPhy.Rx

/-- The lengths of the sequences are numerals of the registers' type. -/
theorem neZeroSync : NeZero 16 := ⟨by decide⟩

attribute [local instance] neZeroSync

/-- The parameters: the training sequence, right-aligned, with the newest dibit last. -/
structure SyncParams where
  syncPattern : BitVec 30
  syncLenSym : Fin 16
  holdoff : BitVec 8

/-- The x-sequence of the control bursts. -/
def xSequence : SyncParams := ⟨etsRef, 15, 50⟩

/-- The first normal training sequence. -/
def nubSequence : SyncParams := ⟨ntsRef.setWidth 30, 11, 250⟩

/-- The inputs of a cycle. -/
structure DetectIn where
  sample : IqIn := {}
  corrThreshold : BitVec 24 := 0
  resetPeak : Bool := false
deriving DecidableEq, Repr

/-- The registers, as reset leaves them. -/
structure SyncDetectOs4 where
  phaseCnt : BitVec 2 := 0
  hist : BitVec 2 → Iq := fun _ ↦ ⟨0, 0⟩
  sreg : BitVec 2 → BitVec 30 := fun _ ↦ 0
  holdoffCnt : BitVec 8 := 0
  syncFound : Bool := false
  bestPhase : BitVec 2 := 0
  corrPeak : BitVec 24 := 0

/-- `dibit_sys`: the signs of the differential product. -/
def dibitOf (cur prev : Iq) : BitVec 2 :=
  BitVec.ofBool (diffS (mulS cur.q prev.i) (mulS cur.i prev.q)).msb ++
    BitVec.ofBool (sumS (mulS cur.i prev.i) (mulS cur.q prev.q)).msb

/-- `corr_count`. -/
def corrCount (P : SyncParams) (sreg : BitVec 30) : ℕ :=
  (List.range P.syncLenSym).countP fun k ↦
    (sreg ^^^ P.syncPattern).extractLsb' (2 * k) 2 == 0

namespace SyncDetectOs4

variable (P : SyncParams) (s : SyncDetectOs4) (i : DetectIn)

/-- `corr0_sys` .. `corr3_sys`. -/
def corr (k : BitVec 2) : ℕ := corrCount P (s.sreg k)

/-- `corr_max_sys`. -/
def corrMax : ℕ := max (max (s.corr P 0) (s.corr P 1)) (max (s.corr P 2) (s.corr P 3))

/-- `best_phase_w`. -/
def bestPhaseW : BitVec 2 :=
  if s.corr P 1 ≤ s.corr P 0 ∧ s.corr P 2 ≤ s.corr P 0 ∧ s.corr P 3 ≤ s.corr P 0 then 0
  else if s.corr P 2 ≤ s.corr P 1 ∧ s.corr P 3 ≤ s.corr P 1 then 1
  else if s.corr P 3 ≤ s.corr P 2 then 2 else 3

/-- `thresh_hit_sys`. -/
def threshHit : Bool :=
  i.corrThreshold.extractLsb' 5 19 == 0 &&
    decide ((i.corrThreshold.extractLsb' 0 5).toNat ≤ s.corrMax P)

/-- `sync_fire_sys`. -/
def syncFire : Bool := i.sample.valid && s.threshHit P i && s.holdoffCnt == 0

/-- One clock edge. -/
def step : SyncDetectOs4 where
  phaseCnt := if i.sample.valid then s.phaseCnt + 1 else s.phaseCnt
  hist := if i.sample.valid then Function.update s.hist s.phaseCnt i.sample.iq else s.hist
  sreg := if i.sample.valid then
      Function.update s.sreg s.phaseCnt
        (shiftDibit (n := 28) (s.sreg s.phaseCnt) (dibitOf i.sample.iq (s.hist s.phaseCnt)))
    else s.sreg
  holdoffCnt := if s.syncFire P i then P.holdoff
    else if i.sample.valid && s.holdoffCnt != 0 then s.holdoffCnt - 1 else s.holdoffCnt
  syncFound := s.syncFire P i
  bestPhase := if s.syncFire P i then s.bestPhaseW P else s.bestPhase
  corrPeak := if i.resetPeak then 0
    else if i.sample.valid && decide (s.corrPeak.toNat < s.corrMax P) then
      BitVec.ofNat 24 (s.corrMax P)
    else s.corrPeak

variable {P s i}

/-! ## The best phase -/

/-- The four phases. -/
theorem phase_cases (k : BitVec 2) : k = 0 ∨ k = 1 ∨ k = 2 ∨ k = 3 := by
  revert k
  decide

/-- The window of phase `k` is beaten: by an equal one before it, or a better one behind it. -/
def Beaten (P : SyncParams) (s : SyncDetectOs4) (k : BitVec 2) : Prop :=
  ∃ j, j < k ∧ s.corr P k ≤ s.corr P j ∨ k < j ∧ s.corr P k < s.corr P j

theorem beaten_iff (k : BitVec 2) : s.Beaten P k ↔
    (0 < k ∧ s.corr P k ≤ s.corr P 0) ∨
    (1 < k ∧ s.corr P k ≤ s.corr P 1 ∨ k < 1 ∧ s.corr P k < s.corr P 1) ∨
    (2 < k ∧ s.corr P k ≤ s.corr P 2 ∨ k < 2 ∧ s.corr P k < s.corr P 2) ∨
    (k < 3 ∧ s.corr P k < s.corr P 3) := by
  have hmin : ¬ k < 0 := by simp
  have hmax : ¬ 3 < k := by
    revert k
    decide
  constructor
  · rintro ⟨j, hj⟩
    rcases phase_cases j with rfl | rfl | rfl | rfl
    · exact .inl (hj.resolve_right fun h ↦ hmin h.1)
    · exact .inr (.inl hj)
    · exact .inr (.inr (.inl hj))
    · exact .inr (.inr (.inr (hj.resolve_left fun h ↦ hmax h.1)))
  · rintro (h | h | h | h)
    · exact ⟨0, .inl h⟩
    · exact ⟨1, h⟩
    · exact ⟨2, h⟩
    · exact ⟨3, .inr h⟩

/-- **The best phase is the one that is not beaten.** -/
theorem bestPhaseW_eq_iff (k : BitVec 2) : s.bestPhaseW P = k ↔ ¬ s.Beaten P k := by
  rw [beaten_iff, bestPhaseW]
  rcases phase_cases k with rfl | rfl | rfl | rfl
  all_goals simp
  all_goals split_ifs <;> simp <;> omega

/-- The best window has the most matches. -/
theorem corr_bestPhaseW : s.corr P (s.bestPhaseW P) = s.corrMax P := by
  unfold bestPhaseW corrMax
  split_ifs <;> omega

theorem corr_le_corrMax (k : BitVec 2) : s.corr P k ≤ s.corrMax P := by
  unfold corrMax
  rcases phase_cases k with rfl | rfl | rfl | rfl <;> omega

/-- A sample is shifted into the window of its phase only. -/
theorem corr_step_of_ne {k : BitVec 2} (hk : k ≠ s.phaseCnt) :
    (s.step P i).corr P k = s.corr P k := by
  refine congrArg (corrCount P) ?_
  show (if i.sample.valid then _ else s.sreg) k = s.sreg k
  split_ifs
  · exact Function.update_of_ne hk _ _
  · rfl

/-- **A threshold that was not met one sample before** is met by the window of that sample, which
beats the others. -/
theorem beaten_of_below {j : DetectIn} (hv : i.sample.valid = true)
    (hthr : j.corrThreshold = i.corrThreshold) (hbelow : s.threshHit P i = false)
    (hmet : (s.step P i).threshHit P j = true) :
    (s.step P i).Beaten P (s.step P i).phaseCnt := by
  by_contra hown
  have hnext : (s.step P i).phaseCnt = s.phaseCnt + 1 := if_pos hv
  have hne : s.phaseCnt + 1 ≠ s.phaseCnt := by
    rcases phase_cases s.phaseCnt with h | h | h | h <;> rw [h] <;> decide
  have hbest := (bestPhaseW_eq_iff _).2 hown
  have hmax := (s.step P i).corr_bestPhaseW (P := P)
  rw [hbest, hnext, corr_step_of_ne hne] at hmax
  have hle := s.corr_le_corrMax (P := P) (s.phaseCnt + 1)
  rw [threshHit, hthr, Bool.and_eq_true, decide_eq_true_iff] at hmet
  rw [threshHit, hmet.1, Bool.true_and, decide_eq_false_iff_not] at hbelow
  omega

end SyncDetectOs4

end TetraPhy.Rx
