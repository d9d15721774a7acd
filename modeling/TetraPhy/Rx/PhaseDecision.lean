import Mathlib.Tactic.IntervalCases
import TetraPhy.Rx.Pi4DqpskDemod

/-!
# How exact the phases are

The phase of a sample is its angle, up to the errors of the table and to what the shifts lose, which
is the less the longer the sample is (`exists_phaseOf_near`).  From a length of 1024 on that is a
twentieth at most, so two samples that are turned against each other by the angle of a dibit, give
or take 0.68, decide for it (`dibitNext_eq`).
-/

namespace TetraPhy.Rx.Pi4DqpskDemod

open Complex (I)
open TetraPhy.Cordic

/-- The unit of phases. -/
noncomputable def unit : ℝ := Real.pi / 32768

theorem unit_pos : 0 < unit := div_pos Real.pi_pos (by norm_num)

/-- The angles of the table, to a unit. -/
theorem abs_table_sub_turn_le {k : ℕ} (hk : k < 16) : |table k * unit - turn k| ≤ unit := by
  have htab : ∀ k < 16, table k =
      [8192, 4836, 2556, 1297, 651, 326, 163, 81, 41, 20, 10, 5, 3, 1, 1].getD k 0 := by decide
  have hpi := Real.pi_gt_d6
  have hpi' := Real.pi_lt_d6
  have hbounds := arctan_bounds (t := (1 / 2) ^ k) (by positivity)
  rw [htab k hk, abs_le, unit, turn]
  rcases Nat.lt_or_ge k 2 with h2 | h2
  · -- the partial sums are too coarse for a half, so it goes by way of a seventh
    have hseventh := arctan_bounds (t := 7⁻¹) (by norm_num)
    have hhalf := Real.two_mul_arctan_inv_2_sub_arctan_inv_7
    refine ⟨?_, ?_⟩ <;> interval_cases k <;> norm_num at hseventh hhalf ⊢ <;> linarith
  · refine ⟨?_, ?_⟩ <;> interval_cases k <;> norm_num at hbounds ⊢ <;> linarith

/-! ## The phase of a sample -/

/-- A sample as a complex number. -/
noncomputable def iqC (iq : Iq) : ℂ := iq.i.toInt + iq.q.toInt * I

/-- The vector of a sample points to the right, and the offset says how it was turned there. -/
theorem exists_polar_vecOf {iq : Iq} {r θ : ℝ} (h : HasPolar (iqC iq) r θ) :
    ∃ φ, HasPolar (vecOf iq).toC r φ ∧ |φ| ≤ Real.pi / 2 ∧
      ∃ m : ℤ, (vecOf iq).z * unit + φ = θ + m * (2 * Real.pi) := by
  -- turned back by its offset, the vector is the sample
  have hback : ∃ w, HasPolar w 1 ((vecOf iq).z * unit) ∧ iqC iq = (vecOf iq).toC * w := by
    rw [vecOf_eq]
    split
    · split
      · refine ⟨-I, ?_, ?_⟩
        · have hz : ((-16384 : ℤ) : ℝ) * unit = -(Real.pi / 2) := by
            rw [unit]
            push_cast
            ring
          rw [hz]
          exact hasPolar_neg_I
        · rw [iqC, Vec.toC]
          push_cast
          linear_combination (iq.i.toInt : ℂ) * Complex.I_sq
      · refine ⟨I, ?_, ?_⟩
        · have hz : ((16384 : ℤ) : ℝ) * unit = Real.pi / 2 := by
            rw [unit]
            push_cast
            ring
          rw [hz]
          exact hasPolar_I
        · rw [iqC, Vec.toC]
          push_cast
          linear_combination (iq.i.toInt : ℂ) * Complex.I_sq
    · refine ⟨1, ⟨zero_lt_one, by simp⟩, ?_⟩
      rw [iqC, Vec.toC, mul_one]
  obtain ⟨w, hw, heq⟩ := hback
  have hv : (vecOf iq).toC ≠ 0 := fun hzero ↦ h.ne_zero (by rw [heq, hzero, zero_mul])
  have hpol := HasPolar.of_arg hv
  have hnorm : ‖(vecOf iq).toC‖ = r := by
    rw [← h.norm_eq, heq, norm_mul, hw.norm_eq, mul_one]
  rw [hnorm] at hpol
  refine ⟨_, hpol, ?_, ?_⟩
  · have hre : (vecOf iq).toC.re = (vecOf iq).x := by simp [Vec.toC]
    rw [Complex.abs_arg_le_pi_div_two_iff, hre, vecOf_eq, Int.cast_nonneg_iff]
    split
    · split
      · rename_i hq
        simpa using hq.le
      · rename_i hq
        exact not_lt.1 hq
    · rename_i hi
      exact not_lt.1 hi
  · have hprod := hpol.mul hw
    rw [← heq] at hprod
    obtain ⟨m, hm⟩ := hprod.angle_congr h
    exact ⟨m, by rw [add_comm, hm]⟩

/-- A word is its number up to multiples of 65536. -/
theorem exists_toInt_ofInt (z : ℤ) : ∃ j : ℤ, (BitVec.ofInt 16 z).toInt = z - 65536 * j := by
  refine ⟨z.bdiv 65536, ?_⟩
  rw [BitVec.toInt_ofInt, Int.bmod_eq_self_sub_mul_bdiv]
  rfl

/-- **The phase of a sample is its angle**, up to an error that falls with its length, and whole
turns. -/
theorem exists_phaseOf_near {iq : Iq} {r θ : ℝ} (h : HasPolar (iqC iq) r θ) (hr : 48 ≤ r) :
    ∃ m : ℤ, |(phaseOf iq).toInt * unit - (θ + m * (2 * Real.pi))| ≤ 48 / (r - 24) + 1 / 500 := by
  obtain ⟨φ, hv, hφ, m, hm⟩ := exists_polar_vecOf h
  have hjit : 32 * jitter r (16 : ℕ) = 48 / (r - 24) := by
    rw [jitter, slip]
    push_cast
    ring
  have hjit1 : 48 / (r - 24) ≤ 2 := (div_le_iff₀ (by linarith)).2 (by linarith)
  obtain ⟨r', φ', -, -, hleft, hsum⟩ := exists_polar_rotateTo hv hφ (n := 16) (by norm_num)
    (by rw [slip]; push_cast; linarith) (by push_cast; linarith) table unit le_rfl
  have htable : ∑ j ∈ Finset.range 16, |table j * unit - turn j| ≤ 16 * unit := by
    have hterm := Finset.sum_le_card_nsmul (Finset.range 16)
      (fun j ↦ |(table j : ℝ) * unit - turn j|) unit
      fun j hj ↦ abs_table_sub_turn_le (Finset.mem_range.1 hj)
    simpa using hterm
  have hreach : reach 16 16 ≤ 1 / 32768 := by
    rw [reach, Finset.Ico_self, Finset.sum_empty, zero_add]
    exact (turn_le_pow 15).trans (by norm_num)
  have hunit : unit ≤ 1 / 10000 := by
    rw [unit]
    linarith [Real.pi_lt_d2]
  -- the register holds what was added up, modulo whole turns
  obtain ⟨j, hj⟩ := exists_toInt_ofInt (rotateTo table 16 (vecOf iq)).z
  rw [← phaseOf] at hj
  refine ⟨m - j, ?_⟩
  have hturn : (65536 : ℝ) * unit = 2 * Real.pi := by
    rw [unit]
    ring
  have hsplit : (phaseOf iq).toInt * unit - (θ + (m - j : ℤ) * (2 * Real.pi)) =
      (((rotateTo table 16 (vecOf iq)).z * unit + φ') - ((vecOf iq).z * unit + φ)) - φ' := by
    rw [hj, hm, ← hturn]
    push_cast
    ring
  push_cast at hleft hsum
  obtain ⟨hleft0, hleft1⟩ := abs_le.1 hleft
  obtain ⟨hsum0, hsum1⟩ := abs_le.1 hsum
  rw [hsplit, abs_le]
  exact ⟨by linarith, by linarith⟩

theorem hasPolar_axis : HasPolar (iqC ⟨32767, 0⟩) 32767 0 := by
  refine ⟨by norm_num, ?_⟩
  have hi : (32767 : BitVec 16).toInt = 32767 := by decide
  have hq : (0 : BitVec 16).toInt = 0 := by decide
  rw [iqC, hi, hq]
  simp

theorem hasPolar_diagonal :
    HasPolar (iqC ⟨23170, 23170⟩) (23170 * Real.sqrt 2) (Real.pi / 4) := by
  have hword : (23170 : BitVec 16).toInt = 23170 := by decide
  have hscale : HasPolar ((23170 : ℝ) : ℂ) 23170 0 := ⟨by norm_num, by simp⟩
  have h := hscale.mul (hasPolar_one_add_mul_I 1)
  rw [Real.arctan_one, zero_add, one_pow, one_add_one_eq_two] at h
  have heq : ((23170 : ℝ) : ℂ) * (1 + ((1 : ℝ) : ℂ) * I) = iqC ⟨23170, 23170⟩ := by
    rw [iqC, hword]
    push_cast
    ring
  rwa [heq] at h

theorem exists_phaseOf_near_of_long {iq : Iq} {r θ : ℝ} (h : HasPolar (iqC iq) r θ)
    (hr : 1024 ≤ r) : ∃ m : ℤ, |(phaseOf iq).toInt * unit - (θ + m * (2 * Real.pi))| ≤ 1 / 20 := by
  obtain ⟨m, hm⟩ := exists_phaseOf_near h (by linarith)
  have hfrac : 48 / (r - 24) ≤ 6 / 125 := (div_le_iff₀ (by linarith)).2 (by linarith)
  exact ⟨m, by linarith⟩

/-! ## Decisions -/

/-- The angle of a dibit, in eighths of a turn. -/
def dibitTurn (dibit : BitVec 2) : ℤ :=
  if dibit = 0b00 then 1 else if dibit = 0b01 then 3 else if dibit = 0b10 then -1 else -3

theorem abs_dibitTurn_le : ∀ dibit, |dibitTurn dibit| ≤ 3 := by decide

/-- The quadrants, in units. -/
theorem dibitNext_of_toInt (delta : BitVec 16) (dibit : BitVec 2)
    (h : 8192 * (dibitTurn dibit - 1) < delta.toInt ∧ delta.toInt < 8192 * (dibitTurn dibit + 1)) :
    dibitNext delta = dibit := by
  obtain ⟨hlo, hhi⟩ := h
  have hpi : phasePiHalf.toInt = 16384 := by decide
  have hneg : (-phasePiHalf).toInt = -16384 := by decide
  simp only [dibitNext, BitVec.sle_iff_toInt_le, BitVec.slt_iff_toInt_lt, BitVec.msb_eq_toInt, hpi,
    hneg]
  have hcases : ∀ dibit : BitVec 2, dibit = 0b00 ∨ dibit = 0b01 ∨ dibit = 0b10 ∨ dibit = 0b11 := by
    decide
  rcases hcases dibit with rfl | rfl | rfl | rfl <;> simp [dibitTurn] at hlo hhi ⊢ <;> grind

/-- The difference of two phases is the angle between the samples, up to a tenth and whole turns. -/
theorem exists_delta_near {p q : Iq} {r s θ φ ε : ℝ} {dibit : BitVec 2}
    (hp : HasPolar (iqC p) r θ) (hq : HasPolar (iqC q) s φ) (hr : 1024 ≤ r) (hs : 1024 ≤ s)
    (hturn : φ = θ + dibitTurn dibit * (Real.pi / 4) + ε) :
    ∃ k : ℤ, |(((phaseOf q - phaseOf p).toInt - (8192 * dibitTurn dibit + 65536 * k) : ℤ) : ℝ) *
      unit - ε| ≤ 1 / 10 := by
  obtain ⟨m, hm⟩ := exists_phaseOf_near_of_long hp hr
  obtain ⟨n, hn⟩ := exists_phaseOf_near_of_long hq hs
  obtain ⟨j, hj⟩ : ∃ j : ℤ,
      (phaseOf q - phaseOf p).toInt = (phaseOf q).toInt - (phaseOf p).toInt - 65536 * j := by
    obtain ⟨j, hj⟩ := exists_toInt_ofInt ((phaseOf q).toInt - (phaseOf p).toInt)
    refine ⟨j, ?_⟩
    rw [← hj, BitVec.toInt_sub, BitVec.toInt_ofInt]
  refine ⟨n - m - j, ?_⟩
  have hsplit : (((phaseOf q - phaseOf p).toInt -
      (8192 * dibitTurn dibit + 65536 * (n - m - j)) : ℤ) : ℝ) * unit - ε =
      ((phaseOf q).toInt * unit - (φ + n * (2 * Real.pi))) -
        ((phaseOf p).toInt * unit - (θ + m * (2 * Real.pi))) := by
    rw [hj, hturn, unit]
    push_cast
    ring
  rw [hsplit]
  exact (abs_sub _ _).trans (by linarith)

/-- The word of a difference that is nearer to the angle of a dibit than to any other. -/
theorem exists_delta_eq {p q : Iq} {r s θ φ ε : ℝ} {dibit : BitVec 2}
    (hp : HasPolar (iqC p) r θ) (hq : HasPolar (iqC q) s φ) (hr : 1024 ≤ r) (hs : 1024 ≤ s)
    (hturn : φ = θ + dibitTurn dibit * (Real.pi / 4) + ε) (hε : |ε| ≤ 17 / 25) :
    ∃ e : ℤ, (phaseOf q - phaseOf p).toInt = 8192 * dibitTurn dibit + e ∧ |e| < 8192 ∧
      |e * unit - ε| ≤ 1 / 10 := by
  obtain ⟨k, hk⟩ := exists_delta_near hp hq hr hs hturn
  generalize (phaseOf q - phaseOf p) = delta at hk ⊢
  have hpi := Real.pi_gt_d4
  have heighth : 8192 * unit = Real.pi / 4 := by
    rw [unit]
    ring
  obtain ⟨hk0, hk1⟩ := abs_le.1 hk
  obtain ⟨hε0, hε1⟩ := abs_le.1 hε
  have hlo : (-8192 : ℝ) < (delta.toInt - (8192 * dibitTurn dibit + 65536 * k) : ℤ) := by
    refine lt_of_mul_lt_mul_right ?_ unit_pos.le
    linarith
  have hhi : ((delta.toInt - (8192 * dibitTurn dibit + 65536 * k) : ℤ) : ℝ) < 8192 := by
    refine lt_of_mul_lt_mul_right ?_ unit_pos.le
    linarith
  have hlo' : -8192 < delta.toInt - (8192 * dibitTurn dibit + 65536 * k) := by exact_mod_cast hlo
  have hhi' : delta.toInt - (8192 * dibitTurn dibit + 65536 * k) < 8192 := by exact_mod_cast hhi
  -- a word has no room for a whole turn more
  have hmin := BitVec.le_toInt delta
  have hmax := BitVec.toInt_lt (x := delta)
  obtain ⟨ht0, ht1⟩ := abs_le.1 (abs_dibitTurn_le dibit)
  obtain rfl : k = 0 := by omega
  rw [mul_zero, add_zero] at hk hlo' hhi'
  exact ⟨delta.toInt - 8192 * dibitTurn dibit, by omega, abs_lt.2 ⟨hlo', hhi'⟩, hk⟩

/-- **A difference of phases that is nearer to the angle of a dibit than to any other decides for
it.** -/
theorem dibitNext_eq {p q : Iq} {r s θ φ ε : ℝ} {dibit : BitVec 2}
    (hp : HasPolar (iqC p) r θ) (hq : HasPolar (iqC q) s φ) (hr : 1024 ≤ r) (hs : 1024 ≤ s)
    (hturn : φ = θ + dibitTurn dibit * (Real.pi / 4) + ε) (hε : |ε| ≤ 17 / 25) :
    dibitNext (phaseOf q - phaseOf p) = dibit := by
  obtain ⟨e, he, hlt, -⟩ := exists_delta_eq hp hq hr hs hturn hε
  obtain ⟨hlo, hhi⟩ := abs_lt.1 hlt
  exact dibitNext_of_toInt _ dibit (by omega)

/-! ## The registers -/

/-- **At rest the phase register is the angle of the last sample.**  Whatever the run, the error is
48 over its length and two thousandths more at most, and whole turns. -/
theorem phasePrev_near (es : List IqIn) {iq : Iq} {r θ : ℝ}
    (hidle : (Run.exec step {} es).state = .idle)
    (hlast : (Run.taken step takes {} es).getLast? = some iq)
    (h : HasPolar (iqC iq) r θ) (hr : 48 ≤ r) :
    (Run.exec step {} es).phaseLocked = true ∧
      ∃ m : ℤ, |(Run.exec step {} es).phasePrev.toInt * unit - (θ + m * (2 * Real.pi))| ≤
        48 / (r - 24) + 1 / 500 := by
  obtain ⟨hphase, -⟩ := follows_rest es hidle
  rw [List.getLast?_map, hlast, Option.map_some] at hphase
  split at hphase
  · rename_i hlock
    rw [Option.some.injEq] at hphase
    rw [← hphase]
    exact ⟨hlock, exists_phaseOf_near h hr⟩
  · cases hphase

/-- The last of three samples is on the diagonal. -/
theorem phasePrev_near_axis :
    let es := [(⟨32767, 0⟩, 0), (⟨-3000, 4000⟩, 7), (⟨23170, 23170⟩, 2)].flatMap
      fun a : Iq × ℕ ↦ cycles a.1 a.2
    (Run.exec step {} es).phaseLocked = true ∧
      ∃ m : ℤ, |(Run.exec step {} es).phasePrev.toInt * unit -
        (Real.pi / 4 + m * (2 * Real.pi))| ≤ 48 / (23170 * Real.sqrt 2 - 24) + 1 / 500 := by
  intro es
  obtain ⟨htaken, hidle⟩ := taken_flatMap_cycles (d := {}) rfl
    [(⟨32767, 0⟩, 0), (⟨-3000, 4000⟩, 7), (⟨23170, 23170⟩, 2)]
  have hlong : (48 : ℝ) ≤ 23170 * Real.sqrt 2 := by
    linarith [Real.one_le_sqrt.2 (by norm_num : (1 : ℝ) ≤ 2)]
  exact phasePrev_near es hidle (by rw [htaken]; rfl) hasPolar_diagonal hlong

theorem toInt_idealDelta : ∀ dibit, (idealDelta dibit).toInt = 8192 * dibitTurn dibit := by decide

/-- **At rest the phase error is what the channel added.**  If the last two samples are turned
against each other by the angle of a dibit and 0.68 more at most, the dibit is at the port and the
phase error says how much more, to a tenth. -/
theorem phaseErrorReg_near (es : List IqIn) (iqs : List Iq) {p q : Iq} {r s θ φ ε : ℝ}
    {dibit : BitVec 2} (hidle : (Run.exec step {} es).state = .idle)
    (htaken : Run.taken step takes {} es = iqs ++ [p, q])
    (hp : HasPolar (iqC p) r θ) (hq : HasPolar (iqC q) s φ) (hr : 1024 ≤ r) (hs : 1024 ≤ s)
    (hturn : φ = θ + dibitTurn dibit * (Real.pi / 4) + ε) (hε : |ε| ≤ 17 / 25) :
    (Run.exec step {} es).dibitOut = dibit ∧
      |(Run.exec step {} es).phaseErrorReg.toInt * unit - ε| ≤ 1 / 10 := by
  obtain ⟨-, hports⟩ := follows_rest es hidle
  obtain ⟨hdibit, herror⟩ := hports (iqs.map phaseOf) (phaseOf p) (phaseOf q) (by
    rw [htaken, List.map_append, List.map_cons, List.map_singleton])
  have hnext := dibitNext_eq hp hq hr hs hturn hε
  obtain ⟨e, he, hlt, hnear⟩ := exists_delta_eq hp hq hr hs hturn hε
  obtain ⟨hlo, hhi⟩ := abs_lt.1 hlt
  have htoInt : (phaseOf q - phaseOf p - idealDelta dibit).toInt = e := by
    rw [BitVec.toInt_sub, he, toInt_idealDelta, add_sub_cancel_left]
    exact Int.bmod_eq_of_le (by norm_num; omega) (by norm_num; omega)
  rw [hdibit, herror, hnext, htoInt]
  exact ⟨rfl, hnear⟩

/-- A sample on the axis and one on the diagonal. -/
theorem phaseErrorReg_near_diagonal :
    (Run.exec step {} (cycles ⟨32767, 0⟩ 0 ++ cycles ⟨23170, 23170⟩ 0)).dibitOut = 0b00 ∧
      |(Run.exec step {} (cycles ⟨32767, 0⟩ 0 ++ cycles ⟨23170, 23170⟩ 0)).phaseErrorReg.toInt *
        unit - 0| ≤ 1 / 10 := by
  obtain ⟨htaken, hidle⟩ :=
    taken_flatMap_cycles (d := {}) rfl [(⟨32767, 0⟩, 0), (⟨23170, 23170⟩, 0)]
  rw [List.flatMap_cons, List.flatMap_singleton] at htaken hidle
  have hlong : (1024 : ℝ) ≤ 23170 * Real.sqrt 2 := by
    linarith [Real.one_le_sqrt.2 (by norm_num : (1 : ℝ) ≤ 2)]
  have hturn : Real.pi / 4 = 0 + ((dibitTurn 0b00 : ℤ) : ℝ) * (Real.pi / 4) + 0 := by
    simp [dibitTurn]
  exact phaseErrorReg_near _ [] hidle htaken hasPolar_axis hasPolar_diagonal (by norm_num)
    hlong hturn (by norm_num)

end TetraPhy.Rx.Pi4DqpskDemod
