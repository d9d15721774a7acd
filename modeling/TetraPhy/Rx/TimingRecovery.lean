import Mathlib.Data.List.DropRight
import Mathlib.Tactic.NormNum
import TetraPhy.Lib.Emission
import TetraPhy.Rx.BurstCapture

/-!
# Timing recovery

`tetra_timing_recovery.v`: an oscillator that wraps about each fourth sample, where it picks the
sample as a symbol, and a loop that moves its step by the error of Gardner's detector.

Cycles without a sample change nothing (`emitted_strobes`), so what is picked is a function of the
samples alone, `symbols`.

* `locked_iff`: the flag says whether the last 145 symbols all had small errors;
* `pace`: in the first `2 ^ 20` symbols, which the integral part of the loop needs to get anywhere,
  three samples never bring two symbols, and five always bring one.
-/

namespace TetraPhy.Rx

/-- The registers, as reset leaves them. -/
structure TimingRecovery where
  s0 : Iq := ⟨0, 0⟩
  s1 : Iq := ⟨0, 0⟩
  s2 : Iq := ⟨0, 0⟩
  s3 : Iq := ⟨0, 0⟩
  ncoAcc : BitVec 32 := 0
  ncoStep : BitVec 32 := 0x40000000
  loopInteg : BitVec 32 := 0
  tedOut : BitVec 16 := 0
  iqOut : Iq := ⟨0, 0⟩
  sampleValidOut : Bool := false
  lockCnt : BitVec 8 := 0
  timingLocked : Bool := false
deriving DecidableEq, Repr

namespace TimingRecovery

/-! ## The code -/

/-- `NCO_NOMINAL`. -/
def ncoNominal : BitVec 32 := 0x40000000

/-- `prod_i_sys`. -/
def prod (mid late early : BitVec 16) : BitVec 33 :=
  mid.signExtend 33 * (late.signExtend 17 - early.signExtend 17).signExtend 33

variable (m : TimingRecovery) (i : IqIn)

/-- `nco_sum_sys`. -/
def ncoSum : BitVec 32 := m.ncoAcc + m.ncoStep

/-- `nco_ovf_sys`. -/
def ncoOvf : Bool := i.valid && m.ncoSum.ult m.ncoAcc

/-- `ted_sum_sys`. -/
def tedSum : BitVec 34 :=
  (prod m.s1.i i.iq.i m.s3.i).signExtend 34 + (prod m.s1.q i.iq.q m.s3.q).signExtend 34

/-- `ted_scaled_sys`. -/
def tedScaled : BitVec 16 := (m.tedSum i).extractLsb' 18 16

/-- `kp_term_sys`. -/
def kpTerm : BitVec 32 := ((m.tedScaled i).signExtend 32).sshiftRight 4

/-- `ki_delta_sys`. -/
def kiDelta : BitVec 32 := ((m.tedScaled i).signExtend 32).sshiftRight 8

/-- `integ_new_sys`. -/
def integNew : BitVec 32 := m.loopInteg + m.kiDelta i

/-- `nco_step_new_sys`. -/
def ncoStepNew : BitVec 32 := ncoNominal + m.kpTerm i + m.integNew i

/-- `lock_good_sys`. -/
def lockGood (ted : BitVec 16) : Bool := (if ted.msb then ~~~ted + 1 else ted).ult 256

/-- One clock edge. -/
def step : TimingRecovery where
  s0 := if i.valid then i.iq else m.s0
  s1 := if i.valid then m.s0 else m.s1
  s2 := if i.valid then m.s1 else m.s2
  s3 := if i.valid then m.s2 else m.s3
  ncoAcc := if i.valid then m.ncoSum else m.ncoAcc
  ncoStep := if m.ncoOvf i then m.ncoStepNew i else m.ncoStep
  loopInteg := if m.ncoOvf i then m.integNew i else m.loopInteg
  tedOut := if m.ncoOvf i then m.tedScaled i else m.tedOut
  iqOut := if m.ncoOvf i then i.iq else m.iqOut
  sampleValidOut := m.ncoOvf i
  lockCnt :=
    if m.ncoOvf i then
      if lockGood (m.tedScaled i) then if m.lockCnt != 255 then m.lockCnt + 1 else m.lockCnt else 0
    else m.lockCnt
  timingLocked :=
    if m.ncoOvf i then
      if lockGood (m.tedScaled i) && (144#8).ule m.lockCnt then true
      else if !lockGood (m.tedScaled i) then false else m.timingLocked
    else m.timingLocked

/-- What the output port shows. -/
def out : Option Iq := if m.sampleValidOut then some m.iqOut else none

/-! ## Samples -/

/-- The cycle of a sample. -/
def strobe (iq : Iq) : IqIn := ⟨iq, true⟩

/-- The registers apart from the strobe, which nothing reads. -/
def quiet : TimingRecovery := { m with sampleValidOut := false }

variable {m i}

theorem step_quiet (m : TimingRecovery) (i : IqIn) : m.quiet.step i = m.step i := rfl

theorem step_of_invalid (h : i.valid = false) : m.step i = m.quiet := by
  simp [step, ncoOvf, quiet, h]

theorem emitted_quiet (m : TimingRecovery) (es : List IqIn) :
    Run.emitted step out m.quiet es = Run.emitted step out m es := by
  cases es with
  | nil => rfl
  | cons e es => rw [Run.emitted, Run.emitted, step_quiet]

/-- The samples of a run. -/
def samples (es : List IqIn) : List Iq := (es.filter IqIn.valid).map IqIn.iq

theorem samples_cons_of_valid (h : i.valid = true) (es : List IqIn) :
    (samples (i :: es)).map strobe = i :: (samples es).map strobe := by
  have hi : strobe i.iq = i := by rw [strobe, ← h]
  rw [samples, List.filter_cons_of_pos h, List.map_cons, List.map_cons, hi]
  rfl

theorem samples_cons_of_invalid (h : i.valid = false) (es : List IqIn) :
    samples (i :: es) = samples es := by
  rw [samples, List.filter_cons_of_neg (by simp [h])]
  rfl

/-- **Cycles without a sample change nothing.** -/
theorem emitted_strobes (m : TimingRecovery) (es : List IqIn) :
    Run.emitted step out m es = Run.emitted step out m ((samples es).map strobe) := by
  induction es generalizing m with
  | nil => rfl
  | cons e es ih =>
      cases h : e.valid with
      | true => rw [samples_cons_of_valid h, Run.emitted, Run.emitted, ih]
      | false =>
          have hout : out m.quiet = none := rfl
          rw [samples_cons_of_invalid h, Run.emitted, step_of_invalid h, hout, emitted_quiet, ih]
          rfl

/-- The symbols that are picked from samples. -/
def symbols (xs : List Iq) : List Iq := Run.emitted step out {} (xs.map strobe)

/-- The registers behind samples. -/
def after (xs : List Iq) : TimingRecovery := Run.exec step {} (xs.map strobe)

theorem symbols_append (xs : List Iq) (x : Iq) :
    symbols (xs ++ [x]) = symbols xs ++ ((after xs).step (strobe x)).out.toList := by
  rw [symbols, List.map_append, Run.emitted_append]
  exact congrArg (_ ++ ·) (List.append_nil _)

theorem after_append (xs : List Iq) (x : Iq) : after (xs ++ [x]) = (after xs).step (strobe x) := by
  rw [after, List.map_append, Run.exec_append]
  rfl

/-! ## The lock -/

/-- The errors that come with the symbols, `timing_error_sys`. -/
def error (m : TimingRecovery) : Option (BitVec 16) :=
  if m.sampleValidOut then some m.tedOut else none

/-- The counter has the small errors in a row, as far as it can count them, and the flag is up when
there are 145. -/
def Counts (errors : List (BitVec 16)) (m : TimingRecovery) : Prop :=
  m.lockCnt.toNat = min 255 (errors.rtakeWhile lockGood).length ∧
    m.timingLocked = decide (145 ≤ (errors.rtakeWhile lockGood).length)

theorem Counts.step {errors : List (BitVec 16)} (h : Counts errors m) (i : IqIn) :
    Counts (errors ++ (error (m.step i)).toList) (m.step i) := by
  obtain ⟨hcnt, hlock⟩ := h
  cases hovf : m.ncoOvf i with
  | false =>
      have hnone : error (m.step i) = none := by simp [error, TimingRecovery.step, hovf]
      rw [hnone, Option.toList_none, List.append_nil]
      simpa [Counts, TimingRecovery.step, hovf] using ⟨hcnt, hlock⟩
  | true =>
      have hsome : error (m.step i) = some (m.tedScaled i) := by
        simp [error, TimingRecovery.step, hovf]
      rw [hsome, Option.toList_some]
      cases hgood : lockGood (m.tedScaled i) with
      | false =>
          rw [Counts, List.rtakeWhile_concat_neg _ _ _ (by simp [hgood])]
          simp [TimingRecovery.step, hovf, hgood]
      | true =>
          rw [Counts, List.rtakeWhile_concat_pos _ _ _ hgood, List.length_append,
            List.length_singleton]
          generalize (errors.rtakeWhile lockGood).length = g at hcnt hlock ⊢
          refine ⟨?_, ?_⟩
          · have hnext : (m.step i).lockCnt =
                if m.lockCnt != 255 then m.lockCnt + 1 else m.lockCnt := by
              simp [TimingRecovery.step, hovf, hgood]
            have hne : (m.lockCnt != 255) = decide (g < 255) := by
              rw [Bool.eq_iff_iff, bne_iff_ne, decide_eq_true_iff, ne_eq, ← BitVec.toNat_inj, hcnt]
              simp
            rw [hnext, hne]
            split
            · rename_i hlt
              rw [decide_eq_true_iff] at hlt
              rw [BitVec.toNat_add_of_lt (by rw [hcnt]; simp; omega), hcnt]
              simp
              omega
            · rename_i hge
              rw [decide_eq_true_iff] at hge
              omega
          · have hfull : (144#8).ule m.lockCnt = decide (144 ≤ g) := by
              rw [BitVec.ule, hcnt, decide_eq_decide]
              simp
            by_cases hg : 144 ≤ g
            · simp [TimingRecovery.step, hovf, hgood, hfull, hg]
            · simp [TimingRecovery.step, hovf, hgood, hfull, hg, hlock]
              omega

/-- **The lock.**  After any run the flag is up if and only if the last 145 symbols all had errors
below the threshold. -/
theorem locked_iff (es : List IqIn) :
    (Run.exec step {} es).timingLocked = true ↔
      145 ≤ ((Run.emitted step error {} es).rtakeWhile lockGood).length := by
  have hreset : Counts [] {} := ⟨rfl, rfl⟩
  have hcounts := Run.track (R := Counts) (fun _ _ i h ↦ Counts.step h i) hreset es
  rw [hcounts.2, List.nil_append, decide_eq_true_iff]

/-! ## The pace -/

/-- How far the loop can have come in `n` symbols. -/
structure Tracks (n : ℕ) (m : TimingRecovery) : Prop where
  integ : |m.loopInteg.toInt| ≤ 128 * (n : ℤ)
  ncoStep : |m.ncoStep.toInt - 2 ^ 30| ≤ 2048 + 128 * (n : ℤ)

theorem tracks_reset : Tracks 0 {} := ⟨by decide, by decide⟩

theorem toInt_kpTerm_mem (m : TimingRecovery) (i : IqIn) :
    -2048 ≤ (m.kpTerm i).toInt ∧ (m.kpTerm i).toInt ≤ 2047 := by
  have hlo := BitVec.le_toInt (m.tedScaled i)
  have hhi := BitVec.toInt_lt (x := m.tedScaled i)
  rw [kpTerm, BitVec.toInt_sshiftRight, Int.shiftRight_eq_div_pow,
    BitVec.toInt_signExtend_of_le (by decide)]
  omega

theorem toInt_kiDelta_mem (m : TimingRecovery) (i : IqIn) :
    -128 ≤ (m.kiDelta i).toInt ∧ (m.kiDelta i).toInt ≤ 127 := by
  have hlo := BitVec.le_toInt (m.tedScaled i)
  have hhi := BitVec.toInt_lt (x := m.tedScaled i)
  rw [kiDelta, BitVec.toInt_sshiftRight, Int.shiftRight_eq_div_pow,
    BitVec.toInt_signExtend_of_le (by decide)]
  omega

/-- As long as the integral part does not get far, nothing in the loop wraps. -/
theorem toInt_ncoStepNew {n : ℕ} (h : Tracks n m) (hn : n < 2 ^ 20) :
    (m.integNew i).toInt = m.loopInteg.toInt + (m.kiDelta i).toInt ∧
      (m.ncoStepNew i).toInt = 2 ^ 30 + (m.kpTerm i).toInt + (m.integNew i).toInt := by
  have hki := toInt_kiDelta_mem m i
  have hkp := toInt_kpTerm_mem m i
  have hinteg := abs_le.1 h.integ
  have hn' : (n : ℤ) < 2 ^ 20 := by exact_mod_cast hn
  have hnew : (m.integNew i).toInt = m.loopInteg.toInt + (m.kiDelta i).toInt := by
    rw [integNew, BitVec.toInt_add]
    exact Int.bmod_eq_of_le (by omega) (by omega)
  have hnominal : ncoNominal.toInt = 2 ^ 30 := by decide
  have hsum : (ncoNominal + m.kpTerm i).toInt = 2 ^ 30 + (m.kpTerm i).toInt := by
    rw [BitVec.toInt_add, hnominal]
    exact Int.bmod_eq_of_le (by omega) (by omega)
  refine ⟨hnew, ?_⟩
  rw [ncoStepNew, BitVec.toInt_add, hsum]
  exact Int.bmod_eq_of_le (by omega) (by omega)

theorem Tracks.step {n : ℕ} (h : Tracks n m) (i : IqIn)
    (hn : n + (m.step i).out.toList.length ≤ 2 ^ 20) : Tracks (n + (m.step i).out.toList.length) (m.step i) := by
  cases hovf : m.ncoOvf i with
  | false =>
      have hnone : (m.step i).out = none := by simp [out, TimingRecovery.step, hovf]
      rw [hnone]
      exact ⟨by simpa [TimingRecovery.step, hovf] using h.integ,
        by simpa [TimingRecovery.step, hovf] using h.ncoStep⟩
  | true =>
      have hsome : (m.step i).out = some i.iq := by simp [out, TimingRecovery.step, hovf]
      rw [hsome, Option.toList_some, List.length_singleton] at hn ⊢
      obtain ⟨hinteg, hstep⟩ := toInt_ncoStepNew h hn (i := i)
      have hki := toInt_kiDelta_mem m i
      have hkp := toInt_kpTerm_mem m i
      have hold := abs_le.1 h.integ
      refine ⟨abs_le.2 ?_, abs_le.2 ?_⟩ <;>
        simp only [TimingRecovery.step, hovf, if_true] <;> push_cast <;> omega

/-- The step of the oscillator is near the nominal one. -/
theorem Tracks.ncoStep_mem {n : ℕ} (h : Tracks n m) (hn : n ≤ 2 ^ 20) :
    939522048 ≤ m.ncoStep.toNat ∧ m.ncoStep.toNat ≤ 1207961600 := by
  have hstep := abs_le.1 h.ncoStep
  have hn' : (n : ℤ) ≤ 2 ^ 20 := by exact_mod_cast hn
  rw [BitVec.toInt_eq_toNat_cond] at hstep
  have hlt := m.ncoStep.isLt
  split at hstep <;> omega

/-- What a sample does to the oscillator. -/
theorem nco_strobe (m : TimingRecovery) (x : Iq) :
    (m.step (strobe x)).out = none ∧ (m.step (strobe x)).ncoStep = m.ncoStep ∧
        (m.step (strobe x)).ncoAcc.toNat = m.ncoAcc.toNat + m.ncoStep.toNat ∨
      (m.step (strobe x)).out = some x ∧
        (m.step (strobe x)).ncoAcc.toNat + 2 ^ 32 = m.ncoAcc.toNat + m.ncoStep.toNat := by
  have hacc := m.ncoAcc.isLt
  have hstep := m.ncoStep.isLt
  have hovf : m.ncoOvf (strobe x) = decide (2 ^ 32 ≤ m.ncoAcc.toNat + m.ncoStep.toNat) := by
    rw [ncoOvf, strobe, ncoSum, Bool.true_and, BitVec.ult, BitVec.toNat_add, decide_eq_decide]
    omega
  by_cases h : 2 ^ 32 ≤ m.ncoAcc.toNat + m.ncoStep.toNat
  · have hnext : (m.step (strobe x)).ncoAcc = m.ncoSum := rfl
    refine .inr ⟨?_, ?_⟩
    · rw [decide_eq_true h] at hovf
      simp [out, step, hovf]
      rfl
    · rw [hnext, ncoSum, BitVec.toNat_add]
      omega
  · have hnext : (m.step (strobe x)).ncoAcc = m.ncoSum := rfl
    rw [decide_eq_false h] at hovf
    refine .inl ⟨?_, ?_, ?_⟩
    · simp [out, step, hovf]
    · simp [step, hovf]
    · rw [hnext, ncoSum, BitVec.toNat_add]
      omega

/-- What is picked from samples that come behind a state. -/
def picked (m : TimingRecovery) (xs : List Iq) : List Iq := Run.emitted step out m (xs.map strobe)

theorem picked_cons (m : TimingRecovery) (x : Iq) (xs : List Iq) :
    picked m (x :: xs) = (m.step (strobe x)).out.toList ++ picked (m.step (strobe x)) xs := rfl

theorem Tracks.exec {n : ℕ} (h : Tracks n m) (xs : List Iq) (hn : n + (picked m xs).length ≤ 2 ^ 20) :
    Tracks (n + (picked m xs).length) (Run.exec TimingRecovery.step m (xs.map strobe)) := by
  induction xs generalizing m n with
  | nil => exact h
  | cons x xs ih =>
      rw [picked_cons, List.length_append, ← Nat.add_assoc] at hn ⊢
      exact ih (h.step _ (by omega)) hn

/-- **Two symbols are not among three samples.** -/
theorem Tracks.length_picked_le {n : ℕ} (h : Tracks n m) {x y z : Iq}
    (hn : n + (picked m [x, y, z]).length ≤ 2 ^ 20) : (picked m [x, y, z]).length ≤ 1 := by
  have hnil : ∀ m, (picked m []).length = 0 := fun _ ↦ rfl
  simp only [picked_cons, List.length_append, hnil] at hn ⊢
  have hx := h.step (strobe x) (by omega)
  have hy := hx.step (strobe y) (by omega)
  have hstep := h.ncoStep_mem (by omega)
  have hstepx := hx.ncoStep_mem (by omega)
  have hstepy := hy.ncoStep_mem (by omega)
  have hacc := m.ncoAcc.isLt
  have haccx := (m.step (strobe x)).ncoAcc.isLt
  have haccy := ((m.step (strobe x)).step (strobe y)).ncoAcc.isLt
  have haccz := (((m.step (strobe x)).step (strobe y)).step (strobe z)).ncoAcc.isLt
  -- behind a symbol the oscillator is below one step, and three steps do not make a turn
  rcases nco_strobe m x with ⟨houtx, hkeepx, hnx⟩ | ⟨houtx, hnx⟩ <;>
  rcases nco_strobe (m.step (strobe x)) y with ⟨houty, hkeepy, hny⟩ | ⟨houty, hny⟩ <;>
  rcases nco_strobe ((m.step (strobe x)).step (strobe y)) z with
    ⟨houtz, hkeepz, hnz⟩ | ⟨houtz, hnz⟩ <;>
  simp only [houtx, houty, houtz, Option.toList_some, Option.toList_none, List.length_nil,
    List.length_singleton] <;>
  omega

/-- As long as no symbol comes the oscillator goes on. -/
theorem ncoAcc_exec {xs : List Iq} (h : picked m xs = []) :
    (Run.exec step m (xs.map strobe)).ncoAcc.toNat =
      m.ncoAcc.toNat + xs.length * m.ncoStep.toNat := by
  induction xs generalizing m with
  | nil => simp
  | cons x xs ih =>
      rw [picked_cons, List.append_eq_nil_iff] at h
      rcases nco_strobe m x with ⟨-, hkeep, hnext⟩ | ⟨hout, -⟩
      · rw [List.map_cons, Run.exec_cons, ih h.2, hkeep, hnext, List.length_cons, Nat.succ_mul]
        omega
      · rw [hout] at h
        exact absurd h.1 (List.cons_ne_nil _ _)

/-- **Five samples bring a symbol.** -/
theorem Tracks.picked_ne_nil {n : ℕ} (h : Tracks n m) (hn : n ≤ 2 ^ 20) {xs : List Iq}
    (hlen : xs.length = 5) : picked m xs ≠ [] := by
  intro hnil
  have hacc := ncoAcc_exec hnil
  have hlt := (Run.exec TimingRecovery.step m (xs.map strobe)).ncoAcc.isLt
  have hstep := h.ncoStep_mem hn
  rw [hlen] at hacc
  omega

/-- **The pace of the symbols.**  In the first `2 ^ 20` symbols, whatever the samples are, three in a
row never bring two symbols and five always bring one: each symbol comes three, four or five samples
behind the one before it.  Neither the integral part nor the step of the oscillator wraps. -/
theorem pace (xs ys : List Iq) (h : (symbols (xs ++ ys)).length ≤ 2 ^ 20) :
    (ys.length = 3 → (symbols (xs ++ ys)).length ≤ (symbols xs).length + 1) ∧
      (ys.length = 5 → (symbols xs).length < (symbols (xs ++ ys)).length) ∧
      ((symbols xs).length < 2 ^ 20 → ∀ i, let m := after xs
        (m.integNew i).toInt = m.loopInteg.toInt + (m.kiDelta i).toInt ∧
          (m.ncoStepNew i).toInt = 2 ^ 30 + (m.kpTerm i).toInt + (m.integNew i).toInt) := by
  have hsplit : symbols (xs ++ ys) = symbols xs ++ picked (after xs) ys := by
    rw [symbols, List.map_append, Run.emitted_append]
    rfl
  rw [hsplit, List.length_append] at h ⊢
  have htracks : Tracks (symbols xs).length (after xs) := by
    have hexec := tracks_reset.exec xs (by rw [Nat.zero_add]; exact (Nat.le_add_right _ _).trans h)
    rwa [Nat.zero_add] at hexec
  refine ⟨fun hlen ↦ ?_, fun hlen ↦ ?_, fun hlt i ↦ toInt_ncoStepNew htracks hlt⟩
  · obtain ⟨x, y, z, rfl⟩ := List.length_eq_three.1 hlen
    exact Nat.add_le_add_left (htracks.length_picked_le h) _
  · have hne := htracks.picked_ne_nil ((Nat.le_add_right _ _).trans h) hlen
    exact Nat.lt_add_of_pos_right (List.length_pos_iff.2 hne)

/-- Three and five samples behind forty whose values jump. -/
theorem pace_reset :
    let jump (n : ℕ) : Iq := ⟨BitVec.ofNat 16 (1237 * n * n), BitVec.ofNat 16 (7919 * n)⟩
    let xs := (List.range 40).map jump
    (symbols xs).length = 10 ∧
      (symbols (xs ++ [jump 40, jump 41, jump 42])).length ≤ (symbols xs).length + 1 ∧
      (symbols xs).length <
        (symbols (xs ++ [jump 40, jump 41, jump 42, jump 43, jump 44])).length := by
  intro jump xs
  exact ⟨by decide +kernel, (pace xs _ (by decide +kernel)).1 rfl,
    (pace xs _ (by decide +kernel)).2.1 rfl⟩

end TimingRecovery

end TetraPhy.Rx
