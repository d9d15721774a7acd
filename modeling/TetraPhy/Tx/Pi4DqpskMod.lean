import TetraPhy.Rx.PhaseDecision

/-!
# The modulator

`tetra_pi4dqpsk_mod.v`: a phase in eighths of a turn that each dibit moves on by an odd number of
them, and the point of the unit circle it comes to.

`roundTrip` puts the demodulator behind it.  Between the two the points may be turned by any common
angle and scaled as the channel likes, and each may be off by 0.34 in its angle; the dibits come
back, all but the first, which is the reference.
-/

namespace TetraPhy.Tx

open TetraPhy.Cordic (HasPolar)
open TetraPhy.Rx (Iq IqIn Pi4DqpskDemod)

/-- The inputs of a cycle. -/
structure DibitIn where
  dibit : BitVec 2 := 0
  valid : Bool := false
deriving DecidableEq, Repr

/-- The registers, as reset leaves them. -/
structure Pi4DqpskMod where
  phaseIdx : BitVec 3 := 0
  iOut : BitVec 16 := 0
  qOut : BitVec 16 := 0
  sampleValidOut : Bool := false
deriving DecidableEq, Repr

namespace Pi4DqpskMod

open TetraPhy.Rx.Pi4DqpskDemod (iqC decisions phaseOf dibitTurn dibitNext_eq)

def ampOne : BitVec 16 := 32767

def ampSq2 : BitVec 16 := 23170

/-- `phase_inc_w`. -/
def phaseInc (dibit : BitVec 2) : BitVec 3 :=
  if dibit = 0b00 then 1 else if dibit = 0b01 then 3 else if dibit = 0b10 then 7 else 5

/-- `i_new_w` and `q_new_w`. -/
def point (phase : BitVec 3) : Iq :=
  if phase = 0 then ⟨ampOne, 0⟩ else if phase = 1 then ⟨ampSq2, ampSq2⟩
  else if phase = 2 then ⟨0, ampOne⟩ else if phase = 3 then ⟨-ampSq2, ampSq2⟩
  else if phase = 4 then ⟨-ampOne, 0⟩ else if phase = 5 then ⟨-ampSq2, -ampSq2⟩
  else if phase = 6 then ⟨0, -ampOne⟩ else ⟨ampSq2, -ampSq2⟩

variable (m : Pi4DqpskMod) (i : DibitIn)

/-- `phase_new_w`. -/
def phaseNew : BitVec 3 := m.phaseIdx + phaseInc i.dibit

/-- One clock edge. -/
def step : Pi4DqpskMod where
  phaseIdx := if i.valid then m.phaseNew i else m.phaseIdx
  iOut := if i.valid then (point (m.phaseNew i)).i else m.iOut
  qOut := if i.valid then (point (m.phaseNew i)).q else m.qOut
  sampleValidOut := i.valid

/-- What the output port shows. -/
def out : Option Iq := if m.sampleValidOut then some ⟨m.iOut, m.qOut⟩ else none

/-- The dibit a step takes. -/
def takes (_ : Pi4DqpskMod) (i : DibitIn) : Option (BitVec 2) :=
  if i.valid then some i.dibit else none

/-! ## Runs -/

/-- The points that dibits lead to, from a phase on. -/
def points (phase : BitVec 3) : List (BitVec 2) → List Iq
  | [] => []
  | d :: ds => point (phase + phaseInc d) :: points (phase + phaseInc d) ds

/-- The phase behind them. -/
def phaseAfter (phase : BitVec 3) (ds : List (BitVec 2)) : BitVec 3 :=
  ds.foldl (fun p d ↦ p + phaseInc d) phase

theorem points_concat (phase : BitVec 3) (ds : List (BitVec 2)) (d : BitVec 2) :
    points phase (ds ++ [d]) = points phase ds ++ [point (phaseAfter phase ds + phaseInc d)] := by
  induction ds generalizing phase with
  | nil => rfl
  | cons d' ds ih => rw [List.cons_append, points, ih, points, List.cons_append]; rfl

/-- What was sent are the points of the dibits that were taken, and the phase is that behind them. -/
def Sends (ds : List (BitVec 2)) (qs : List Iq) (m : Pi4DqpskMod) : Prop :=
  qs = points 0 ds ∧ m.phaseIdx = phaseAfter 0 ds

theorem sends_step (ds : List (BitVec 2)) (qs : List Iq) (m : Pi4DqpskMod) (i : DibitIn)
    (h : Sends ds qs m) :
    Sends (ds ++ (m.takes i).toList) (qs ++ (m.step i).out.toList) (m.step i) := by
  obtain ⟨rfl, hphase⟩ := h
  cases hvalid : i.valid with
  | false => simpa [Sends, step, out, takes, hvalid] using hphase
  | true =>
      refine ⟨?_, ?_⟩
      · simp [step, out, takes, hvalid, points_concat, hphase, phaseNew]
      · simp [step, takes, hvalid, hphase, phaseNew, phaseAfter]

/-- **A run sends the points of the dibits it took**, in order. -/
theorem emitted_eq (es : List DibitIn) :
    Run.emitted step out {} es = points 0 (Run.taken step takes {} es) := by
  have hreset : Sends [] [] {} := ⟨rfl, rfl⟩
  have h := Run.transduce sends_step hreset es
  simpa using h.1

/-! ## The points -/

/-- A quarter of a turn takes each point to the next but one. -/
theorem iqC_point_add_two (p : BitVec 3) : iqC (point (p + 2)) = iqC (point p) * Complex.I := by
  have hi : ∀ p, (point (p + 2)).i.toInt = -(point p).q.toInt := by decide
  have hq : ∀ p, (point (p + 2)).q.toInt = (point p).i.toInt := by decide
  rw [iqC, iqC, hi, hq]
  push_cast
  linear_combination -((point p).q.toInt : ℂ) * Complex.I_sq

theorem HasPolar.point_add_two {p : BitVec 3} {r θ : ℝ} (h : HasPolar (iqC (point p)) r θ) :
    HasPolar (iqC (point (p + 2))) r (θ + Real.pi / 2) := by
  rw [iqC_point_add_two, ← mul_one r]
  exact h.mul Cordic.hasPolar_I

/-- **The point of a phase has the angle of so many eighths of a turn.** -/
theorem exists_polar_point (p : BitVec 3) :
    ∃ r, HasPolar (iqC (point p)) r (p.toNat * (Real.pi / 4)) := by
  have hquarters : ∀ (n : ℕ) (p : BitVec 3) (r θ : ℝ), HasPolar (iqC (point p)) r θ →
      HasPolar (iqC (point (p + 2 * BitVec.ofNat 3 n))) r (θ + n * (Real.pi / 2)) := by
    intro n p r θ h
    induction n with
    | zero => simpa using h
    | succ n ih =>
        have hnext := HasPolar.point_add_two ih
        have hp : p + 2 * BitVec.ofNat 3 n + 2 = p + 2 * BitVec.ofNat 3 (n + 1) := by
          rw [BitVec.ofNat_add, BitVec.mul_add, BitVec.add_assoc]
          rfl
        have hangle : θ + (n + 1 : ℕ) * (Real.pi / 2) = θ + n * (Real.pi / 2) + Real.pi / 2 := by
          push_cast
          ring
        rwa [hp, ← hangle] at hnext
  have hcases : ∀ p : BitVec 3, ∃ n < 4, p = 0 + 2 * BitVec.ofNat 3 n ∧ p.toNat = 2 * n ∨
      p = 1 + 2 * BitVec.ofNat 3 n ∧ p.toNat = 1 + 2 * n := by decide
  obtain ⟨n, -, ⟨hp, hnat⟩ | ⟨hp, hnat⟩⟩ := hcases p
  · have h := hquarters n 0 _ _ Rx.Pi4DqpskDemod.hasPolar_axis
    have hangle : (0 : ℝ) + n * (Real.pi / 2) = (2 * n : ℕ) * (Real.pi / 4) := by
      push_cast
      ring
    rw [← hp, hangle, ← hnat] at h
    exact ⟨_, h⟩
  · have h := hquarters n 1 _ _ Rx.Pi4DqpskDemod.hasPolar_diagonal
    have hangle : Real.pi / 4 + n * (Real.pi / 2) = (1 + 2 * n : ℕ) * (Real.pi / 4) := by
      push_cast
      ring
    rw [← hp, hangle, ← hnat] at h
    exact ⟨_, h⟩

/-! ## The way through the channel -/

/-- A received sample, the angle the channel turned it by and how long it stays beyond the cycles
the demodulator needs. -/
structure Arrival where
  iq : Iq
  turned : ℝ
  pause : ℕ

/-- The sample is what the channel makes of a point, and long enough. -/
def Arrival.IsOf (a : Arrival) (p : Iq) : Prop :=
  ∃ s θ r, HasPolar (iqC p) s θ ∧ HasPolar (iqC a.iq) r (θ + a.turned) ∧ 1024 ≤ r

theorem Arrival.isOf_self {p : Iq} {r θ : ℝ} (h : HasPolar (iqC p) r θ) (hr : 1024 ≤ r) (n : ℕ) :
    Arrival.IsOf ⟨p, 0, n⟩ p := by
  refine ⟨r, θ, r, h, ?_, hr⟩
  rw [add_zero]
  exact h

/-- From one sample to the next the channel's angle moves by 0.68 at most. -/
def Arrival.Steady (a b : Arrival) : Prop := |b.turned - a.turned| ≤ 17 / 25

theorem exists_toNat_add_phaseInc (p : BitVec 3) (d : BitVec 2) :
    ∃ m : ℤ, ((p + phaseInc d).toNat : ℤ) = p.toNat + dibitTurn d + 8 * m := by
  have h : ∀ (p : BitVec 3) (d : BitVec 2),
      (8 : ℤ) ∣ ((p + phaseInc d).toNat : ℤ) - (p.toNat + dibitTurn d) := by decide
  obtain ⟨m, hm⟩ := h p d
  exact ⟨m, by omega⟩

/-- The angle of what arrives, with the phase of the point. -/
theorem Arrival.IsOf.polar {a : Arrival} {p : BitVec 3} (h : a.IsOf (point p)) :
    ∃ r, HasPolar (iqC a.iq) r (p.toNat * (Real.pi / 4) + a.turned) ∧ 1024 ≤ r := by
  obtain ⟨s, θ, r, hp, ha, hr⟩ := h
  obtain ⟨r', hp'⟩ := exists_polar_point p
  obtain ⟨m, hm⟩ := hp'.angle_congr hp
  refine ⟨r, ?_, hr⟩
  have hturns := ha.add_turns m
  have hangle : θ + a.turned + m * (2 * Real.pi) = p.toNat * (Real.pi / 4) + a.turned := by
    rw [hm]
    ring
  rwa [hangle] at hturns

/-- The decisions on what arrives are the dibits behind the first. -/
theorem decisions_arrivals {phase : BitVec 3} {d : BitVec 2} {ds : List (BitVec 2)} {a : Arrival}
    {as : List Arrival}
    (h : List.Forall₂ (fun p a ↦ Arrival.IsOf a p) (points phase (d :: ds)) (a :: as))
    (hsteady : List.IsChain Arrival.Steady (a :: as)) :
    decisions ((a :: as).map fun a ↦ phaseOf a.iq) = ds := by
  induction ds generalizing phase d a as with
  | nil =>
      cases as with
      | nil => rfl
      | cons b as => simp [points] at h
  | cons d' ds ih =>
      cases as with
      | nil => simp [points] at h
      | cons b as =>
          rw [points] at h
          obtain ⟨hstep, hchain⟩ := List.isChain_cons_cons.1 hsteady
          have hrest := ih (List.forall₂_cons.1 h).2 hchain
          obtain ⟨r, ha, hr⟩ := (List.forall₂_cons.1 h).1.polar
          obtain ⟨s, hb, hs⟩ := (List.forall₂_cons.1 (List.forall₂_cons.1 h).2).1.polar
          obtain ⟨m, hm⟩ := exists_toNat_add_phaseInc (phase + phaseInc d) d'
          have hm' : ((phase + phaseInc d + phaseInc d').toNat : ℝ) =
              (phase + phaseInc d).toNat + dibitTurn d' + 8 * m := by exact_mod_cast hm
          have hb' := hb.add_turns (-m)
          have hangle : (phase + phaseInc d + phaseInc d').toNat * (Real.pi / 4) + b.turned +
              (-m : ℤ) * (2 * Real.pi) =
                (phase + phaseInc d).toNat * (Real.pi / 4) + a.turned +
                  dibitTurn d' * (Real.pi / 4) + (b.turned - a.turned) := by
            rw [hm']
            push_cast
            ring
          have hdibit := dibitNext_eq ha hb' hr hs hangle hstep
          rw [List.map_cons, List.map_cons, decisions, List.tail_cons, List.zipWith_cons_cons,
            hdibit]
          exact congrArg _ hrest

/-- **The dibits come back.**  Whatever dibits the modulator takes and whatever their timing, if
each point arrives long enough, turned by the channel by angles that move by 0.68 at most from one
to the next, and stays long enough, the demodulator gives out all dibits but the first. -/
theorem roundTrip (tx : List DibitIn) (as : List Arrival)
    (h : List.Forall₂ (fun p a ↦ Arrival.IsOf a p) (Run.emitted step out {} tx) as)
    (hsteady : List.IsChain Arrival.Steady as) :
    Run.emitted Pi4DqpskDemod.step Pi4DqpskDemod.out {}
        (as.flatMap fun a ↦ Pi4DqpskDemod.cycles a.iq a.pause) =
      (Run.taken step takes {} tx).tail := by
  rw [emitted_eq] at h
  obtain ⟨htaken, hidle⟩ := Pi4DqpskDemod.taken_flatMap_cycles (d := {}) rfl
    (as.map fun a ↦ (a.iq, a.pause))
  rw [List.flatMap_map, List.map_map] at htaken
  rw [List.flatMap_map] at hidle
  obtain ⟨ds, rest, hsplit, -, hemitted, hrest⟩ :=
    Pi4DqpskDemod.emitted_eq (as.flatMap fun a ↦ Pi4DqpskDemod.cycles a.iq a.pause)
  rw [hrest hidle, List.append_nil] at hsplit
  rw [hemitted, ← hsplit, htaken, List.map_map]
  generalize Run.taken step takes {} tx = dibits at h ⊢
  cases dibits with
  | nil =>
      cases as with
      | nil => rfl
      | cons a as => simp [points] at h
  | cons d ds =>
      cases as with
      | nil => simp [points] at h
      | cons a as => exact decisions_arrivals h hsteady

/-- Two dibits through a channel that leaves the points as they are. -/
theorem roundTrip_two :
    Run.emitted Pi4DqpskDemod.step Pi4DqpskDemod.out {}
        ([⟨point 1, 0, 0⟩, ⟨point 4, 0, 7⟩].flatMap fun a : Arrival ↦
          Pi4DqpskDemod.cycles a.iq a.pause) =
      [0b01] := by
  have hdiag : (1024 : ℝ) ≤ 23170 * Real.sqrt 2 := by
    linarith [Real.one_le_sqrt.2 (by norm_num : (1 : ℝ) ≤ 2)]
  have haxis := HasPolar.point_add_two
    (HasPolar.point_add_two (p := 0) Rx.Pi4DqpskDemod.hasPolar_axis)
  exact roundTrip [⟨0b00, true⟩, ⟨0b01, true⟩] _
    (.cons (Arrival.isOf_self Rx.Pi4DqpskDemod.hasPolar_diagonal hdiag 0)
      (.cons (Arrival.isOf_self haxis (by norm_num) 7) .nil))
    (by norm_num [Arrival.Steady])

end Pi4DqpskMod

end TetraPhy.Tx
