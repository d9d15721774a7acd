import Mathlib.Analysis.Calculus.Deriv.MeanValue
import Mathlib.Analysis.Real.Pi.Bounds
import Mathlib.Analysis.SpecialFunctions.Complex.Arg
import Mathlib.Analysis.SpecialFunctions.Trigonometric.ArctanDeriv
import Mathlib.Analysis.SpecialFunctions.Trigonometric.Bounds

/-!
# Vectoring by shifts and additions

A vector of integers is turned onto the positive real axis by micro-rotations through the angles
`arctan 2⁻ᵏ`, which take shifts and additions only, and the angle it was turned by is added up in
units of a table.

A shift loses less than one, so a micro-rotation misses the exact one by less than `slip`
(`norm_rotate_sub_le`), and a vector that is long enough keeps its angle up to `slip / r`
(`HasPolar.add_small`).  The angles form a chain in which each is at most twice the next
(`turn_le_two_mul`), so what is left of the angle after the last one is not above that last one and
the errors on the way (`exists_polar_rotateTo`).
-/

namespace TetraPhy.Cordic

open Complex

/-! ## Vectors in polar form -/

/-- `v` has the length `r` and the angle `θ`. -/
def HasPolar (v : ℂ) (r θ : ℝ) : Prop := 0 < r ∧ v = r * exp (θ * I)

namespace HasPolar

variable {v w : ℂ} {r s θ φ : ℝ}

theorem norm_eq (h : HasPolar v r θ) : ‖v‖ = r := by
  rw [h.2, norm_mul, norm_exp_ofReal_mul_I, mul_one, norm_real, Real.norm_of_nonneg h.1.le]

theorem ne_zero (h : HasPolar v r θ) : v ≠ 0 := by
  rw [← norm_pos_iff, h.norm_eq]
  exact h.1

theorem of_arg (hv : v ≠ 0) : HasPolar v ‖v‖ v.arg :=
  ⟨norm_pos_iff.2 hv, (norm_mul_exp_arg_mul_I v).symm⟩

theorem mul (hv : HasPolar v r θ) (hw : HasPolar w s φ) : HasPolar (v * w) (r * s) (θ + φ) := by
  refine ⟨mul_pos hv.1 hw.1, ?_⟩
  rw [hv.2, hw.2, ofReal_mul, ofReal_add, add_mul, exp_add]
  ring

theorem im_eq (h : HasPolar v r θ) : v.im = r * Real.sin θ := by
  rw [h.2, im_ofReal_mul, exp_ofReal_mul_I_im]

/-- The sign of the imaginary part is that of the angle. -/
theorem im_nonneg_iff (h : HasPolar v r θ) (hθ : |θ| < Real.pi) : 0 ≤ v.im ↔ 0 ≤ θ := by
  rw [h.im_eq]
  obtain ⟨hlo, hhi⟩ := abs_lt.1 hθ
  constructor
  · intro him
    by_contra hneg
    exact absurd him (not_le.2 (mul_neg_of_pos_of_neg h.1
      (Real.sin_neg_of_neg_of_neg_pi_lt (not_le.1 hneg) hlo)))
  · intro hpos
    exact mul_nonneg h.1.le (Real.sin_nonneg_of_nonneg_of_le_pi hpos hhi.le)

/-- Two angles of one vector are equal up to whole turns. -/
theorem angle_congr (h : HasPolar v r θ) (h' : HasPolar v s φ) :
    ∃ m : ℤ, θ = φ + m * (2 * Real.pi) := by
  have hr : r = s := by rw [← h.norm_eq, h'.norm_eq]
  have hexp : exp (θ * I) = exp (φ * I) := by
    have heq := h.2.symm.trans h'.2
    rw [hr] at heq
    exact mul_left_cancel₀ (ofReal_ne_zero.2 h'.1.ne') heq
  obtain ⟨m, hm⟩ := exp_eq_exp_iff_exists_int.1 hexp
  refine ⟨m, ?_⟩
  have hI : (θ : ℂ) * I = ((φ + m * (2 * Real.pi) : ℝ) : ℂ) * I := by
    rw [hm]
    push_cast
    ring
  exact_mod_cast mul_right_cancel₀ I_ne_zero hI

theorem add_turns (h : HasPolar v r θ) (m : ℤ) : HasPolar v r (θ + m * (2 * Real.pi)) := by
  refine ⟨h.1, ?_⟩
  rw [h.2]
  push_cast
  rw [add_mul, exp_add, mul_assoc (m : ℂ), exp_int_mul_two_pi_mul_I, mul_one]

end HasPolar

theorem hasPolar_I : HasPolar I 1 (Real.pi / 2) := by
  refine ⟨zero_lt_one, ?_⟩
  push_cast
  rw [exp_pi_div_two_mul_I, one_mul]

theorem hasPolar_neg_I : HasPolar (-I) 1 (-(Real.pi / 2)) := by
  refine ⟨zero_lt_one, ?_⟩
  push_cast
  rw [neg_mul, exp_neg, exp_pi_div_two_mul_I, inv_I, one_mul]

/-- `1 + t i` has the angle `arctan t`. -/
theorem hasPolar_one_add_mul_I (t : ℝ) :
    HasPolar (1 + t * I) (Real.sqrt (1 + t ^ 2)) (Real.arctan t) := by
  have hpos : 0 < Real.sqrt (1 + t ^ 2) := Real.sqrt_pos.2 (by positivity)
  refine ⟨hpos, ?_⟩
  rw [exp_mul_I, ← ofReal_cos, ← ofReal_sin, Real.cos_arctan, Real.sin_arctan]
  have hne : ((Real.sqrt (1 + t ^ 2) : ℝ) : ℂ) ≠ 0 := ofReal_ne_zero.2 hpos.ne'
  push_cast
  field_simp

theorem arctan_le_self {t : ℝ} (ht : 0 ≤ t) : Real.arctan t ≤ t := by
  have h := Real.le_tan (Real.arctan_nonneg.2 ht) (Real.arctan_lt_pi_div_two t)
  rwa [Real.tan_arctan] at h

theorem abs_arctan_le (t : ℝ) : |Real.arctan t| ≤ |t| := by
  rcases le_total 0 t with ht | ht
  · rw [abs_of_nonneg (Real.arctan_nonneg.2 ht), abs_of_nonneg ht]
    exact arctan_le_self ht
  · rw [abs_of_nonpos (Real.arctan_le_zero.2 ht), abs_of_nonpos ht, ← Real.arctan_neg]
    exact arctan_le_self (neg_nonneg.2 ht)

/-- The arctangent between its first partial sums. -/
theorem arctan_bounds {t : ℝ} (ht : 0 ≤ t) :
    t - t ^ 3 / 3 + t ^ 5 / 5 - t ^ 7 / 7 ≤ Real.arctan t ∧
      Real.arctan t ≤ t - t ^ 3 / 3 + t ^ 5 / 5 := by
  have hlo : Monotone fun x : ℝ ↦ Real.arctan x - (x - x ^ 3 / 3 + x ^ 5 / 5 - x ^ 7 / 7) := by
    have hpos : (0 : ℝ → ℝ) ≤ fun x ↦ x ^ 8 / (1 + x ^ 2) := fun x ↦ by positivity
    refine monotone_of_hasDerivAt_nonneg (fun x ↦ ?_) hpos
    have hpoly : HasDerivAt (fun x : ℝ ↦ x - x ^ 3 / 3 + x ^ 5 / 5 - x ^ 7 / 7)
        (1 - x ^ 2 + x ^ 4 - x ^ 6) x := by
      have h := (((hasDerivAt_id x).sub ((hasDerivAt_pow 3 x).div_const 3)).add
        ((hasDerivAt_pow 5 x).div_const 5)).sub ((hasDerivAt_pow 7 x).div_const 7)
      refine h.congr_deriv ?_
      norm_num
    refine ((Real.hasDerivAt_arctan x).sub hpoly).congr_deriv ?_
    field_simp
    ring
  have hhi : Monotone fun x : ℝ ↦ (x - x ^ 3 / 3 + x ^ 5 / 5) - Real.arctan x := by
    have hpos : (0 : ℝ → ℝ) ≤ fun x ↦ x ^ 6 / (1 + x ^ 2) := fun x ↦ by positivity
    refine monotone_of_hasDerivAt_nonneg (fun x ↦ ?_) hpos
    have hpoly : HasDerivAt (fun x : ℝ ↦ x - x ^ 3 / 3 + x ^ 5 / 5) (1 - x ^ 2 + x ^ 4) x := by
      have h := ((hasDerivAt_id x).sub ((hasDerivAt_pow 3 x).div_const 3)).add
        ((hasDerivAt_pow 5 x).div_const 5)
      refine h.congr_deriv ?_
      norm_num
    refine (hpoly.sub (Real.hasDerivAt_arctan x)).congr_deriv ?_
    field_simp
    ring
  have h0 := hlo ht
  have h1 := hhi ht
  norm_num at h0 h1
  exact ⟨by linarith, by linarith⟩

/-- A vector near 1 has a small angle. -/
theorem exists_polar_one_add {u : ℂ} {ρ : ℝ} (hu : ‖u‖ ≤ ρ) (hρ : ρ < 1) :
    ∃ s η, HasPolar (1 + u) s η ∧ 1 - ρ ≤ s ∧ s ≤ 1 + ρ ∧ |η| ≤ ρ / (1 - ρ) := by
  have hre : |u.re| ≤ ρ := (abs_re_le_norm u).trans hu
  have him : |u.im| ≤ ρ := (abs_im_le_norm u).trans hu
  have hden : 0 < 1 - ρ := sub_pos.2 hρ
  have hpos : 1 - ρ ≤ 1 + u.re := by linarith [(abs_le.1 hre).1]
  have hx : 0 < 1 + u.re := hden.trans_le hpos
  -- the angle of `x + y i` is `arctan (y / x)`
  have hprod : (1 + u : ℂ) = (1 + u.re : ℝ) * (1 + (u.im / (1 + u.re) : ℝ) * I) := by
    have hne : (1 + u.re : ℂ) ≠ 0 := by exact_mod_cast hx.ne'
    conv_lhs => rw [← re_add_im u]
    push_cast
    field_simp
    ring
  have hone : HasPolar ((1 + u.re : ℝ) : ℂ) (1 + u.re) 0 := ⟨hx, by simp⟩
  have hpol := hone.mul (hasPolar_one_add_mul_I (u.im / (1 + u.re)))
  rw [← hprod, zero_add] at hpol
  have hnorm := hpol.norm_eq
  refine ⟨_, _, hpol, ?_, ?_, ?_⟩
  · rw [← hnorm]
    calc 1 - ρ ≤ 1 - ‖u‖ := by linarith
      _ = ‖(1 : ℂ)‖ - ‖-u‖ := by rw [norm_one, norm_neg]
      _ ≤ ‖(1 : ℂ) - -u‖ := norm_sub_norm_le _ _
      _ = ‖1 + u‖ := by rw [sub_neg_eq_add]
  · rw [← hnorm]
    calc ‖1 + u‖ ≤ ‖(1 : ℂ)‖ + ‖u‖ := norm_add_le _ _
      _ ≤ 1 + ρ := by rw [norm_one]; linarith
  · calc |Real.arctan (u.im / (1 + u.re))| ≤ |u.im / (1 + u.re)| := abs_arctan_le _
      _ = |u.im| / (1 + u.re) := by rw [abs_div, abs_of_pos hx]
      _ ≤ ρ / (1 - ρ) := div_le_div₀ ((abs_nonneg _).trans him) him hden hpos

/-- **A long vector keeps its angle.** -/
theorem HasPolar.add_small {v e : ℂ} {r θ δ : ℝ} (h : HasPolar v r θ) (he : ‖e‖ ≤ δ) (hδ : δ < r) :
    ∃ s η, HasPolar (v + e) s (θ + η) ∧ r - δ ≤ s ∧ s ≤ r + δ ∧ |η| ≤ δ / (r - δ) := by
  have hr : 0 < r := h.1
  have hu : ‖e / v‖ ≤ δ / r := by
    rw [norm_div, h.norm_eq]
    exact div_le_div_of_nonneg_right he hr.le
  obtain ⟨s, η, hpol, hlo, hhi, hη⟩ := exists_polar_one_add hu ((div_lt_one hr).2 hδ)
  have hsum : v * (1 + e / v) = v + e := by
    rw [mul_add, mul_one, mul_div_cancel₀ e h.ne_zero]
  refine ⟨r * s, η, hsum ▸ h.mul hpol, ?_, ?_, ?_⟩
  · calc r - δ = r * (1 - δ / r) := by field_simp
      _ ≤ r * s := mul_le_mul_of_nonneg_left hlo hr.le
  · calc r * s ≤ r * (1 + δ / r) := mul_le_mul_of_nonneg_left hhi hr.le
      _ = r + δ := by field_simp
  · have hfrac : δ / r / (1 - δ / r) = δ / (r - δ) := by
      field_simp
    rwa [hfrac] at hη

/-! ## Micro-rotations -/

/-- A vector, and the angle added up so far. -/
@[ext]
structure Vec where
  x : ℤ
  y : ℤ
  z : ℤ
deriving DecidableEq, Repr

/-- The vector as a complex number. -/
noncomputable def Vec.toC (s : Vec) : ℂ := s.x + s.y * I

/-- One micro-rotation towards the axis, with `a` for its angle in the table. -/
def rotate (a : ℤ) (k : ℕ) (s : Vec) : Vec :=
  if 0 ≤ s.y then ⟨s.x + s.y >>> k, s.y - s.x >>> k, s.z + a⟩
  else ⟨s.x - s.y >>> k, s.y + s.x >>> k, s.z - a⟩

/-- The first `n` micro-rotations. -/
def rotateTo (a : ℕ → ℤ) : ℕ → Vec → Vec
  | 0, s => s
  | n + 1, s => rotate (a n) n (rotateTo a n s)

/-- The angle of a micro-rotation. -/
noncomputable def turn (k : ℕ) : ℝ := Real.arctan ((1 / 2) ^ k)

/-- What a micro-rotation may miss the exact one by. -/
noncomputable def slip : ℝ := 3 / 2

theorem shiftRight_loss (x : ℤ) (k : ℕ) :
    ∃ f : ℝ, 0 ≤ f ∧ f ≤ 1 ∧ ((x >>> k : ℤ) : ℝ) = x * (1 / 2) ^ k - f := by
  have hpow : (0 : ℝ) < 2 ^ k := by positivity
  have hemod : x = 2 ^ k * (x >>> k) + x % 2 ^ k := by
    rw [Int.shiftRight_eq_div_pow]
    exact_mod_cast (Int.mul_ediv_add_emod x (2 ^ k)).symm
  have hlo : 0 ≤ x % 2 ^ k := Int.emod_nonneg _ (by positivity)
  have hhi : x % 2 ^ k < 2 ^ k := Int.emod_lt_of_pos _ (by positivity)
  have hlo' : (0 : ℝ) ≤ (x % 2 ^ k : ℤ) := by exact_mod_cast hlo
  have hhi' : ((x % 2 ^ k : ℤ) : ℝ) ≤ 2 ^ k := by exact_mod_cast hhi.le
  have hreal : (x : ℝ) = 2 ^ k * (x >>> k : ℤ) + (x % 2 ^ k : ℤ) := by exact_mod_cast hemod
  refine ⟨(x % 2 ^ k : ℤ) / 2 ^ k, div_nonneg hlo' hpow.le, (div_le_one hpow).2 hhi', ?_⟩
  rw [hreal, one_div, inv_pow]
  field_simp
  ring

/-- The sense of a micro-rotation, clockwise above the axis. -/
noncomputable def sense (s : Vec) : ℝ := if 0 ≤ s.y then -1 else 1

theorem norm_le_slip {f g : ℝ} (hf : |f| ≤ 1) (hg : |g| ≤ 1) : ‖(f + g * I : ℂ)‖ ≤ slip := by
  have hsq : ‖(f + g * I : ℂ)‖ ^ 2 = f ^ 2 + g ^ 2 := by
    rw [← normSq_eq_norm_sq, normSq_add_mul_I]
  have hf' : f ^ 2 ≤ 1 := (sq_le_one_iff_abs_le_one f).2 hf
  have hg' : g ^ 2 ≤ 1 := (sq_le_one_iff_abs_le_one g).2 hg
  refine abs_le_of_sq_le_sq' ?_ (by norm_num [slip]) |>.2
  rw [hsq, slip]
  linarith

/-- **A micro-rotation is the exact one up to `slip`.** -/
theorem norm_rotate_sub_le (a : ℤ) (k : ℕ) (s : Vec) :
    ‖(rotate a k s).toC - s.toC * (1 + ((sense s * (1 / 2) ^ k : ℝ) : ℂ) * I)‖ ≤ slip := by
  obtain ⟨f, hf0, hf1, hf⟩ := shiftRight_loss s.x k
  obtain ⟨g, hg0, hg1, hg⟩ := shiftRight_loss s.y k
  have hf' : |f| ≤ 1 := abs_le.2 ⟨by linarith, hf1⟩
  have hg' : |g| ≤ 1 := abs_le.2 ⟨by linarith, hg1⟩
  have hfC : ((s.x >>> k : ℤ) : ℂ) = s.x * (1 / 2) ^ k - f := by
    rw [← ofReal_intCast (s.x >>> k), hf]
    push_cast
    rfl
  have hgC : ((s.y >>> k : ℤ) : ℂ) = s.y * (1 / 2) ^ k - g := by
    rw [← ofReal_intCast (s.y >>> k), hg]
    push_cast
    rfl
  by_cases hy : 0 ≤ s.y
  · have hdiff : (rotate a k s).toC - s.toC * (1 + ((sense s * (1 / 2) ^ k : ℝ) : ℂ) * I) =
        ((-g : ℝ) : ℂ) + (f : ℝ) * I := by
      simp only [rotate, sense, hy, if_true, Vec.toC]
      push_cast
      rw [hfC, hgC]
      linear_combination (s.y * (1 / 2) ^ k : ℂ) * I_sq
    rw [hdiff]
    exact norm_le_slip (by rwa [abs_neg]) hf'
  · have hdiff : (rotate a k s).toC - s.toC * (1 + ((sense s * (1 / 2) ^ k : ℝ) : ℂ) * I) =
        (g : ℝ) + ((-f : ℝ) : ℂ) * I := by
      simp only [rotate, sense, hy, if_false, Vec.toC]
      push_cast
      rw [hfC, hgC]
      linear_combination -(s.y * (1 / 2) ^ k : ℂ) * I_sq
    rw [hdiff]
    exact norm_le_slip hg' (by rwa [abs_neg])

/-- The gain of a micro-rotation. -/
noncomputable def gain (k : ℕ) : ℝ := Real.sqrt (1 + ((1 / 2) ^ k) ^ 2)

theorem one_le_gain (k : ℕ) : 1 ≤ gain k :=
  Real.one_le_sqrt.2 (le_add_of_nonneg_right (sq_nonneg _))

theorem sense_sq (s : Vec) : sense s ^ 2 = 1 := by
  unfold sense
  split <;> norm_num

/-- The exact micro-rotation. -/
theorem hasPolar_micro (s : Vec) (k : ℕ) :
    HasPolar (1 + ((sense s * (1 / 2) ^ k : ℝ) : ℂ) * I) (gain k) (sense s * turn k) := by
  have h := hasPolar_one_add_mul_I (sense s * (1 / 2) ^ k)
  have hgain : Real.sqrt (1 + (sense s * (1 / 2) ^ k) ^ 2) = gain k := by
    rw [mul_pow, sense_sq, one_mul, gain]
  have hangle : Real.arctan (sense s * (1 / 2) ^ k) = sense s * turn k := by
    unfold sense turn
    split
    · rw [neg_one_mul, neg_one_mul, Real.arctan_neg]
    · rw [one_mul, one_mul]
  rwa [hgain, hangle] at h

theorem turn_pos (k : ℕ) : 0 < turn k := Real.arctan_pos.2 (by positivity)

theorem turn_zero : turn 0 = Real.pi / 4 := by rw [turn, pow_zero, Real.arctan_one]

/-- **A micro-rotation of a long vector.**  The angle of the vector moves towards 0 and what was
added up moves away by as much, up to the error of the table and that of the shifts. -/
theorem HasPolar.rotate {s : Vec} {r θ : ℝ} (h : HasPolar s.toC r θ) (hθ : |θ| < Real.pi)
    (hr : slip < r) (a : ℤ) (k : ℕ) (u : ℝ) :
    ∃ r' θ', HasPolar (rotate a k s).toC r' θ' ∧ r - slip ≤ r' ∧
      |θ'| ≤ max (|θ| - turn k) (turn k) + slip / (r - slip) ∧
      |((rotate a k s).z * u + θ') - (s.z * u + θ)| ≤ |a * u - turn k| + slip / (r - slip) := by
  have hrpos : 0 < r := h.1
  have hgr : r ≤ r * gain k := le_mul_of_one_le_right hrpos.le (one_le_gain k)
  obtain ⟨r', η, hpol, hlo, -, hη⟩ :=
    (h.mul (hasPolar_micro s k)).add_small (norm_rotate_sub_le a k s) (hr.trans_le hgr)
  rw [add_sub_cancel] at hpol
  have hslip : (0 : ℝ) ≤ slip := by norm_num [slip]
  have hη' : |η| ≤ slip / (r - slip) :=
    hη.trans (div_le_div_of_nonneg_left hslip (sub_pos.2 hr) (sub_le_sub_right hgr _))
  have him : s.toC.im = s.y := by simp [Vec.toC]
  have hsign : 0 ≤ s.y ↔ 0 ≤ θ := by
    rw [← h.im_nonneg_iff hθ, him, Int.cast_nonneg_iff]
  refine ⟨r', _, hpol, (sub_le_sub_right hgr _).trans hlo, ?_, ?_⟩
  · have hmove : |θ + sense s * turn k| ≤ max (|θ| - turn k) (turn k) := by
      have hturn := turn_pos k
      by_cases hy : 0 ≤ s.y
      · have hpos := hsign.1 hy
        rw [sense, if_pos hy, abs_of_nonneg hpos, abs_le']
        exact ⟨by linarith [le_max_left (θ - turn k) (turn k)],
          by linarith [le_max_right (θ - turn k) (turn k)]⟩
      · have hneg : θ < 0 := not_le.1 fun hpos ↦ hy (hsign.2 hpos)
        rw [sense, if_neg hy, abs_of_neg hneg, abs_le']
        exact ⟨by linarith [le_max_right (-θ - turn k) (turn k)],
          by linarith [le_max_left (-θ - turn k) (turn k)]⟩
    exact (abs_add_le _ _).trans (add_le_add hmove hη')
  · have hz : ((Cordic.rotate a k s).z : ℝ) = s.z - sense s * a := by
      by_cases hy : 0 ≤ s.y
      · simp [Cordic.rotate, sense, hy]
      · simp [Cordic.rotate, sense, hy]
    have hsplit : ((Cordic.rotate a k s).z * u + (θ + sense s * turn k + η)) - (s.z * u + θ) =
        -(sense s * (a * u - turn k)) + η := by
      rw [hz]
      ring
    have hsense : |sense s| = 1 := by
      rw [← sq_eq_sq₀ (abs_nonneg _) zero_le_one, sq_abs, sense_sq, one_pow]
    calc |((Cordic.rotate a k s).z * u + (θ + sense s * turn k + η)) - (s.z * u + θ)|
        = |-(sense s * (a * u - turn k)) + η| := by rw [hsplit]
      _ ≤ |-(sense s * (a * u - turn k))| + |η| := abs_add_le _ _
      _ = |a * u - turn k| + |η| := by rw [abs_neg, abs_mul, hsense, one_mul]
      _ ≤ |a * u - turn k| + slip / (r - slip) := by linarith

/-! ## The chain of angles -/

/-- **An angle of the chain is at most twice the next.** -/
theorem turn_le_two_mul (k : ℕ) : turn k ≤ 2 * turn (k + 1) := by
  have hx0 : (0 : ℝ) < (1 / 2) ^ (k + 1) := by positivity
  have hx1 : ((1 : ℝ) / 2) ^ (k + 1) < 1 := pow_lt_one₀ (by norm_num) (by norm_num) (by omega)
  have hden : 0 < 1 - ((1 : ℝ) / 2) ^ (k + 1) * (1 / 2) ^ (k + 1) := by nlinarith
  rw [turn, turn, Real.two_mul_arctan (by linarith) hx1]
  refine Real.arctan_mono ((le_div_iff₀ (by nlinarith)).2 ?_)
  have hdouble : ((1 : ℝ) / 2) ^ k = 2 * (1 / 2) ^ (k + 1) := by
    rw [pow_succ]
    ring
  rw [hdouble]
  nlinarith [sq_nonneg (((1 : ℝ) / 2) ^ (k + 1))]

/-- The angles the micro-rotations `k`, …, `n - 1` can take off, and once more the last one. -/
noncomputable def reach (n k : ℕ) : ℝ := ∑ j ∈ Finset.Ico k n, turn j + turn (n - 1)

theorem reach_eq {n k : ℕ} (h : k < n) : reach n k = turn k + reach n (k + 1) := by
  rw [reach, reach, Finset.sum_eq_sum_Ico_succ_bot h, add_assoc]

/-- What the micro-rotations after one can take off is no less than that one. -/
theorem turn_le_reach {n k : ℕ} (h : k < n) : turn k ≤ reach n (k + 1) := by
  obtain ⟨d, rfl⟩ : ∃ d, n = k + 1 + d := ⟨n - (k + 1), by omega⟩
  induction d generalizing k with
  | zero => simp [reach]
  | succ d ih =>
      have hnext := ih (k := k + 1) (by omega)
      rw [show k + 1 + 1 + d = k + 1 + (d + 1) by omega] at hnext
      rw [reach_eq (by omega)]
      linarith [turn_le_two_mul k]

theorem half_pi_le_reach {n : ℕ} (h : 0 < n) : Real.pi / 2 ≤ reach n 0 := by
  have hfirst := turn_le_reach h
  rw [reach_eq h]
  rw [turn_zero] at hfirst ⊢
  linarith

theorem turn_le_pow (k : ℕ) : turn k ≤ (1 / 2) ^ k := arctan_le_self (by positivity)

/-- All of them take off two at most. -/
theorem reach_le_two {n : ℕ} (h : 0 < n) : reach n 0 ≤ 2 := by
  obtain ⟨m, rfl⟩ : ∃ m, n = m + 1 := ⟨n - 1, by omega⟩
  have hsum : ∀ m : ℕ, ∑ j ∈ Finset.Ico 0 (m + 1), turn j + (1 / 2) ^ m ≤ 2 := by
    intro m
    induction m with
    | zero => simpa using (add_le_add_left (turn_le_pow 0) 1).trans (by norm_num)
    | succ m ih =>
        rw [Finset.sum_Ico_succ_top (Nat.zero_le _)]
        have hlast := turn_le_pow (m + 1)
        have hhalf : ((1 : ℝ) / 2) ^ (m + 1) + (1 / 2) ^ (m + 1) = (1 / 2) ^ m := by
          rw [pow_succ]
          ring
        linarith
  exact (add_le_add_right (turn_le_pow m) _).trans (hsum m)

/-! ## All micro-rotations -/

/-- The angle one micro-rotation can add by the loss of its shifts, on a vector that is longer than
`r` to begin with and turned `n` times. -/
noncomputable def jitter (r : ℝ) (n : ℕ) : ℝ := slip / (r - slip * n)

/-- **What vectoring has added up is the angle of the vector**, up to the last angle of the chain,
the errors of the table and the losses of the shifts. -/
theorem exists_polar_rotateTo {s : Vec} {r θ : ℝ} (h : HasPolar s.toC r θ)
    (hθ : |θ| ≤ Real.pi / 2) {n : ℕ} (hn : 0 < n) (hr : slip * n < r)
    (hj : n * jitter r n ≤ 1) (a : ℕ → ℤ) (u : ℝ) {k : ℕ} (hk : k ≤ n) :
    ∃ r' θ', HasPolar (rotateTo a k s).toC r' θ' ∧ r - slip * k ≤ r' ∧
      |θ'| ≤ reach n k + k * jitter r n ∧
      |((rotateTo a k s).z * u + θ') - (s.z * u + θ)| ≤
        ∑ j ∈ Finset.range k, |a j * u - turn j| + k * jitter r n := by
  have hslip : 0 < slip := by norm_num [slip]
  have hjpos : 0 < jitter r n := div_pos hslip (sub_pos.2 hr)
  induction k with
  | zero =>
      refine ⟨r, θ, h, by simp, ?_, by simp [rotateTo]⟩
      simpa using hθ.trans (half_pi_le_reach hn)
  | succ k ih =>
      obtain ⟨r', θ', hpol, hlo, hangle, hsum⟩ := ih (Nat.le_of_succ_le hk)
      have hkn : k < n := hk
      have hkn' : (k : ℝ) + 1 ≤ n := by exact_mod_cast hkn
      have hlong : r - slip * n ≤ r' - slip := by nlinarith
      have hjit : slip / (r' - slip) ≤ jitter r n :=
        div_le_div_of_nonneg_left hslip.le (sub_pos.2 hr) hlong
      have hreach : reach n k ≤ reach n 0 := by
        refine add_le_add_left (Finset.sum_le_sum_of_subset_of_nonneg ?_ ?_) _
        · exact Finset.Ico_subset_Ico_left (Nat.zero_le k)
        · exact fun j _ _ ↦ (turn_pos j).le
      have hpi : |θ'| < Real.pi := by
        have hkj : k * jitter r n ≤ n * jitter r n :=
          mul_le_mul_of_nonneg_right (by linarith) hjpos.le
        linarith [reach_le_two hn, Real.pi_gt_three]
      obtain ⟨r'', θ'', hpol', hlo', hangle', hstep⟩ :=
        hpol.rotate hpi (by linarith) (a k) k u
      refine ⟨r'', θ'', hpol', ?_, ?_, ?_⟩
      · push_cast
        linarith
      · have hmax : max (|θ'| - turn k) (turn k) ≤ reach n (k + 1) + k * jitter r n := by
          refine max_le ?_ ?_
          · rw [reach_eq hkn] at hangle
            linarith
          · have hrest : 0 ≤ k * jitter r n := mul_nonneg (Nat.cast_nonneg k) hjpos.le
            linarith [turn_le_reach hkn]
        push_cast
        linarith
      · rw [Finset.sum_range_succ]
        have htri := abs_sub_le ((rotate (a k) k (rotateTo a k s)).z * u + θ'')
          ((rotateTo a k s).z * u + θ') (s.z * u + θ)
        rw [rotateTo]
        push_cast
        linarith

/-- What the first micro-rotations lengthen a vector by. -/
noncomputable def gainTo (n : ℕ) : ℝ := ∏ j ∈ Finset.range n, gain j

theorem one_le_gainTo (n : ℕ) : 1 ≤ gainTo n := by
  induction n with
  | zero => simp [gainTo]
  | succ n ih =>
      rw [gainTo, Finset.prod_range_succ]
      exact one_le_mul_of_one_le_of_one_le ih (one_le_gain n)

theorem gain_le (k : ℕ) : gain k ≤ 1 + (1 / 4) ^ k / 2 := by
  have hsq : (((1 : ℝ) / 2) ^ k) ^ 2 = (1 / 4) ^ k := by
    rw [← pow_mul, mul_comm, pow_mul]
    norm_num
  refine Real.sqrt_le_iff.2 ⟨by positivity, ?_⟩
  rw [hsq]
  nlinarith [sq_nonneg (((1 : ℝ) / 4) ^ k)]

/-- All micro-rotations together less than double the length. -/
theorem gainTo_le_two (n : ℕ) : gainTo n ≤ 2 := by
  -- the bound of the induction leaves room for the gains that follow
  have hroom : ∀ m : ℕ, gainTo (m + 1) ≤ 2 - 4 / 3 * (1 / 4) ^ (m + 1) := by
    intro m
    induction m with
    | zero =>
        have hsqrt : Real.sqrt (1 + 1) ≤ 5 / 3 := Real.sqrt_le_iff.2 ⟨by norm_num, by norm_num⟩
        rw [gainTo, Finset.prod_range_one, gain, pow_zero, one_pow]
        linarith
    | succ m ih =>
        have hq : (0 : ℝ) < (1 / 4) ^ (m + 1) := by positivity
        have hgain := gain_le (m + 1)
        have hquarter : ((1 : ℝ) / 4) ^ (m + 1 + 1) = (1 / 4) ^ (m + 1) / 4 := by
          rw [pow_succ]
          ring
        rw [gainTo, Finset.prod_range_succ, hquarter]
        calc gainTo (m + 1) * gain (m + 1)
            ≤ (2 - 4 / 3 * (1 / 4) ^ (m + 1)) * (1 + (1 / 4) ^ (m + 1) / 2) :=
              mul_le_mul ih hgain (zero_le_one.trans (one_le_gain _))
                ((zero_le_one.trans (one_le_gainTo _)).trans ih)
          _ ≤ 2 - 4 / 3 * ((1 / 4) ^ (m + 1) / 4) := by nlinarith
  cases n with
  | zero => norm_num [gainTo]
  | succ m => linarith [hroom m, show (0 : ℝ) < (1 / 4) ^ (m + 1) by positivity]

/-- **The turned vector stays short**, whatever its direction: its registers need one bit more than
the vector's own, and room for what the shifts add. -/
theorem norm_rotateTo_le (a : ℕ → ℤ) (s : Vec) (k : ℕ) :
    ‖(rotateTo a k s).toC‖ ≤ (‖s.toC‖ + slip * k) * 2 := by
  have hslip : (0 : ℝ) ≤ slip := by norm_num [slip]
  have hstep : ∀ k, ‖(rotateTo a (k + 1) s).toC‖ ≤ ‖(rotateTo a k s).toC‖ * gain k + slip := by
    intro k
    have hmul : ‖(rotateTo a k s).toC *
        (1 + ((sense (rotateTo a k s) * (1 / 2) ^ k : ℝ) : ℂ) * I)‖ =
        ‖(rotateTo a k s).toC‖ * gain k := by
      rw [norm_mul, (hasPolar_micro _ k).norm_eq]
    calc ‖(rotateTo a (k + 1) s).toC‖ ≤ _ := norm_le_norm_add_norm_sub' _ _
      _ ≤ ‖(rotateTo a k s).toC‖ * gain k + slip :=
          add_le_add hmul.le (norm_rotate_sub_le (a k) k _)
  have hprod : ‖(rotateTo a k s).toC‖ ≤ (‖s.toC‖ + slip * k) * gainTo k := by
    induction k with
    | zero => simp [rotateTo, gainTo]
    | succ k ih =>
        have hone := one_le_gainTo (k + 1)
        have hmul := mul_le_mul_of_nonneg_right ih (zero_le_one.trans (one_le_gain k))
        rw [mul_assoc, gainTo, ← Finset.prod_range_succ, ← gainTo] at hmul
        have hlast : slip ≤ slip * gainTo (k + 1) := le_mul_of_one_le_right hslip hone
        push_cast
        linarith [hstep k]
  have hlen : 0 ≤ ‖s.toC‖ + slip * k := by positivity
  exact hprod.trans (mul_le_mul_of_nonneg_left (gainTo_le_two k) hlen)

end TetraPhy.Cordic
