import TetraPhy.Lib.Cordic
import TetraPhy.Lib.Emission
import TetraPhy.Rx.BurstCapture

/-!
# The downlink demodulator

`tetra_pi4dqpsk_demod.v`: the phase of each sample by sixteen micro-rotations, its difference to
that of the sample before it, and the dibit by the quadrant of the difference.  Phases are words of
16 bits, with π for full scale.

The registers are too wide to wrap (`Works.iter`), so a sample's phase is what vectoring adds up
(`phaseOf`), and a run gives out the decisions on the differences of the samples it took
(`emitted_eq`), whatever its timing.
-/

namespace TetraPhy.Rx

open TetraPhy.Cordic (Vec rotate rotateTo)

/-- The states of the demodulator. -/
inductive DemodState
  | idle | init | iter | decide
deriving DecidableEq, Repr

/-- The registers, as reset leaves them. -/
structure Pi4DqpskDemod where
  state : DemodState := .idle
  iterCnt : BitVec 4 := 0
  cordicX : BitVec 18 := 0
  cordicY : BitVec 18 := 0
  cordicZ : BitVec 16 := 0
  phasePrev : BitVec 16 := 0
  phaseLocked : Bool := false
  dibitOut : BitVec 2 := 0
  dibitValid : Bool := false
  phaseErrorReg : BitVec 16 := 0
deriving DecidableEq, Repr

namespace Pi4DqpskDemod

/-! ## The code -/

/-- `atan_val_sample`. -/
def atanVal (k : ℕ) : BitVec 16 :=
  [8192, 4836, 2556, 1297, 651, 326, 163, 81, 41, 20, 10, 5, 3, 1, 1].getD k 0

/-- `BOUND_POS` and `PHASE_PI_HALF`. -/
def phasePiHalf : BitVec 16 := 16384

/-- `x_init_sample`. -/
def xInit (iq : Iq) : BitVec 18 :=
  if iq.i.msb then if iq.q.msb then -iq.q.signExtend 18 else iq.q.signExtend 18
  else iq.i.signExtend 18

/-- `y_init_sample`. -/
def yInit (iq : Iq) : BitVec 18 :=
  if iq.i.msb then if iq.q.msb then iq.i.signExtend 18 else -iq.i.signExtend 18
  else iq.q.signExtend 18

/-- `z_init_sample`. -/
def zInit (iq : Iq) : BitVec 16 :=
  if iq.i.msb then if iq.q.msb then -phasePiHalf else phasePiHalf else 0

/-- `dibit_next_sample`. -/
def dibitNext (delta : BitVec 16) : BitVec 2 :=
  if phasePiHalf.sle delta then 0b01
  else if !delta.msb then 0b00
  else if delta.slt (-phasePiHalf) then 0b11 else 0b10

/-- `ideal_delta_sample`. -/
def idealDelta (dibit : BitVec 2) : BitVec 16 :=
  if dibit = 0b00 then 8192 else if dibit = 0b01 then 24576
  else if dibit = 0b10 then -8192 else -24576

variable (d : Pi4DqpskDemod) (i : IqIn)

/-- `cordic_d_sample`. -/
def cordicD : Bool := !d.cordicY.msb

/-- `y_shr_sample`. -/
def yShr : BitVec 18 := d.cordicY.sshiftRight d.iterCnt.toNat

/-- `x_shr_sample`. -/
def xShr : BitVec 18 := d.cordicX.sshiftRight d.iterCnt.toNat

/-- `x_next_sample`. -/
def xNext : BitVec 18 := if d.cordicD then d.cordicX + d.yShr else d.cordicX - d.yShr

/-- `y_next_sample`. -/
def yNext : BitVec 18 := if d.cordicD then d.cordicY - d.xShr else d.cordicY + d.xShr

/-- `z_next_sample`. -/
def zNext : BitVec 16 :=
  if d.cordicD then d.cordicZ + atanVal d.iterCnt.toNat
  else d.cordicZ - atanVal d.iterCnt.toNat

/-- `delta_phase_sample`. -/
def deltaPhase : BitVec 16 := d.cordicZ - d.phasePrev

/-- `next_state_sample`. -/
def nextState : DemodState :=
  match d.state with
  | .idle => if i.valid then .init else .idle
  | .init => .iter
  | .iter => if d.iterCnt = 15 then .decide else .iter
  | .decide => .idle

/-- One clock edge. -/
def step : Pi4DqpskDemod where
  state := d.nextState i
  iterCnt := match d.state with
    | .iter => d.iterCnt + 1
    | _ => 0
  cordicX := match d.state with
    | .init => xInit i.iq
    | .iter => d.xNext
    | _ => 0
  cordicY := match d.state with
    | .init => yInit i.iq
    | .iter => d.yNext
    | _ => 0
  cordicZ := match d.state with
    | .init => zInit i.iq
    | .iter => d.zNext
    | _ => 0
  phasePrev := if d.state = .decide then d.cordicZ else d.phasePrev
  phaseLocked := if d.state = .decide then true else d.phaseLocked
  dibitOut := if d.state = .decide then dibitNext d.deltaPhase else d.dibitOut
  dibitValid := d.state == .decide && d.phaseLocked
  phaseErrorReg :=
    if d.state = .decide then d.deltaPhase - idealDelta (dibitNext d.deltaPhase)
    else d.phaseErrorReg

/-- What the output port shows. -/
def out : Option (BitVec 2) := if d.dibitValid then some d.dibitOut else none

/-- The sample a step takes: the one at the inputs in the cycle after the strobe. -/
def takes : Option Iq := if d.state = .init then some i.iq else none

/-! ## The phase of a sample -/

/-- The vector a sample is loaded as. -/
def vecOf (iq : Iq) : Vec := ⟨(xInit iq).toInt, (yInit iq).toInt, (zInit iq).toInt⟩

/-- The table, as integers. -/
def table (k : ℕ) : ℤ := (atanVal k).toInt

/-- The phase of a sample. -/
def phaseOf (iq : Iq) : BitVec 16 := BitVec.ofInt 16 (rotateTo table 16 (vecOf iq)).z

theorem toInt_signExtend_sample (x : BitVec 16) : (x.signExtend 18).toInt = x.toInt :=
  BitVec.toInt_signExtend_of_le (by decide)

theorem toInt_neg_sample (x : BitVec 16) : (-x.signExtend 18).toInt = -x.toInt := by
  have hlo := BitVec.le_toInt x
  have hhi := BitVec.toInt_lt (x := x)
  rw [BitVec.toInt_neg, toInt_signExtend_sample]
  exact Int.bmod_eq_of_le (by omega) (by omega)

/-- The vector of a sample, by the quadrant. -/
theorem vecOf_eq (iq : Iq) :
    vecOf iq =
      if iq.i.toInt < 0 then
        if iq.q.toInt < 0 then ⟨-iq.q.toInt, iq.i.toInt, -16384⟩
        else ⟨iq.q.toInt, -iq.i.toInt, 16384⟩
      else ⟨iq.i.toInt, iq.q.toInt, 0⟩ := by
  simp only [vecOf, xInit, yInit, zInit, BitVec.msb_eq_toInt, decide_eq_true_eq]
  split <;> rename_i hi
  · split <;> rename_i hq
    · rw [toInt_neg_sample, toInt_signExtend_sample]
      rfl
    · rw [toInt_neg_sample, toInt_signExtend_sample]
      rfl
  · rw [toInt_signExtend_sample, toInt_signExtend_sample]
    rfl

theorem norm_vecOf_le (iq : Iq) : ‖(vecOf iq).toC‖ ≤ 46342 := by
  have hsq : (vecOf iq).x ^ 2 + (vecOf iq).y ^ 2 = iq.i.toInt ^ 2 + iq.q.toInt ^ 2 := by
    rw [vecOf_eq]
    split
    · split <;> simp [add_comm]
    · rfl
  have hbound : ∀ x : BitVec 16, x.toInt ^ 2 ≤ 32768 ^ 2 := by
    intro x
    have hlo := BitVec.le_toInt x
    have hhi := BitVec.toInt_lt (x := x)
    exact sq_le_sq' (by omega) (by omega)
  have hle : (vecOf iq).x ^ 2 + (vecOf iq).y ^ 2 ≤ 46342 ^ 2 := by
    rw [hsq]
    exact (add_le_add (hbound _) (hbound _)).trans (by norm_num)
  refine abs_le_of_sq_le_sq' ?_ (by norm_num) |>.2
  rw [Vec.toC, ← Complex.normSq_eq_norm_sq]
  have hcast : ((vecOf iq).x : ℂ) + (vecOf iq).y * Complex.I =
      (((vecOf iq).x : ℝ) : ℂ) + (((vecOf iq).y : ℝ) : ℂ) * Complex.I := by push_cast; rfl
  rw [hcast, Complex.normSq_add_mul_I]
  exact_mod_cast hle

/-- **The registers do not wrap.** -/
theorem abs_rotateTo_lt (iq : Iq) {k : ℕ} (hk : k ≤ 16) :
    |(rotateTo table k (vecOf iq)).x| < 131072 ∧ |(rotateTo table k (vecOf iq)).y| < 131072 := by
  have hnorm : ‖(rotateTo table k (vecOf iq)).toC‖ < 131072 := by
    have hk' : (k : ℝ) ≤ 16 := by exact_mod_cast hk
    have h := Cordic.norm_rotateTo_le table (vecOf iq) k
    have hvec := norm_vecOf_le iq
    rw [Cordic.slip] at h
    linarith
  have hre : (rotateTo table k (vecOf iq)).toC.re = (rotateTo table k (vecOf iq)).x := by
    simp [Vec.toC]
  have him : (rotateTo table k (vecOf iq)).toC.im = (rotateTo table k (vecOf iq)).y := by
    simp [Vec.toC]
  have hx := (Complex.abs_re_le_norm _).trans_lt hnorm
  have hy := (Complex.abs_im_le_norm _).trans_lt hnorm
  rw [hre] at hx
  rw [him] at hy
  exact ⟨by exact_mod_cast hx, by exact_mod_cast hy⟩

variable {d i}

/-- The registers hold a vector. -/
def Shows (d : Pi4DqpskDemod) (v : Vec) : Prop :=
  d.cordicX.toInt = v.x ∧ d.cordicY.toInt = v.y ∧ d.cordicZ = BitVec.ofInt 16 v.z

theorem toInt_add_of_abs_lt {x y : BitVec 18} (h : |x.toInt + y.toInt| < 131072) :
    (x + y).toInt = x.toInt + y.toInt := by
  obtain ⟨hlo, hhi⟩ := abs_lt.1 h
  rw [BitVec.toInt_add]
  exact Int.bmod_eq_of_le (by omega) (by omega)

theorem toInt_sub_of_abs_lt {x y : BitVec 18} (h : |x.toInt - y.toInt| < 131072) :
    (x - y).toInt = x.toInt - y.toInt := by
  obtain ⟨hlo, hhi⟩ := abs_lt.1 h
  rw [BitVec.toInt_sub]
  exact Int.bmod_eq_of_le (by omega) (by omega)

theorem ofInt_table (k : ℕ) : BitVec.ofInt 16 (table k) = atanVal k := BitVec.ofInt_toInt

/-- One micro-rotation in the registers, if what it comes to fits into them. -/
theorem Shows.rotate {v : Vec} (h : d.Shows v)
    (hx : |(Cordic.rotate (table d.iterCnt.toNat) d.iterCnt.toNat v).x| < 131072)
    (hy : |(Cordic.rotate (table d.iterCnt.toNat) d.iterCnt.toNat v).y| < 131072) :
    d.xNext.toInt = (Cordic.rotate (table d.iterCnt.toNat) d.iterCnt.toNat v).x ∧
      d.yNext.toInt = (Cordic.rotate (table d.iterCnt.toNat) d.iterCnt.toNat v).y ∧
      d.zNext = BitVec.ofInt 16
        (Cordic.rotate (table d.iterCnt.toNat) d.iterCnt.toNat v).z := by
  obtain ⟨hvx, hvy, hvz⟩ := h
  have hxs : d.xShr.toInt = v.x >>> d.iterCnt.toNat := by rw [xShr, BitVec.toInt_sshiftRight, hvx]
  have hys : d.yShr.toInt = v.y >>> d.iterCnt.toNat := by rw [yShr, BitVec.toInt_sshiftRight, hvy]
  have hdir : d.cordicD = decide (0 ≤ v.y) := by
    rw [cordicD, BitVec.msb_eq_toInt, hvy, ← decide_not]
    simp
  by_cases hpos : 0 ≤ v.y
  · simp only [Cordic.rotate, hpos, if_true] at hx hy ⊢
    rw [← hvx, ← hys] at hx
    rw [← hvy, ← hxs] at hy
    simp only [xNext, yNext, zNext, hdir, hpos, decide_true, if_true]
    rw [toInt_add_of_abs_lt hx, toInt_sub_of_abs_lt hy, hvx, hvy, hvz, hxs, hys, BitVec.ofInt_add,
      ofInt_table]
    exact ⟨rfl, rfl, rfl⟩
  · simp only [Cordic.rotate, hpos, if_false] at hx hy ⊢
    rw [← hvx, ← hys] at hx
    rw [← hvy, ← hxs] at hy
    simp only [xNext, yNext, zNext, hdir, hpos, decide_false, Bool.false_eq_true, if_false]
    rw [toInt_sub_of_abs_lt hx, toInt_add_of_abs_lt hy, hvx, hvy, hvz, hxs, hys, sub_eq_add_neg v.z,
      BitVec.ofInt_add, BitVec.ofInt_neg, ofInt_table, ← BitVec.sub_eq_add_neg]
    exact ⟨rfl, rfl, rfl⟩

/-! ## Runs -/

/-- The decisions on the differences of consecutive phases. -/
def decisions (ps : List (BitVec 16)) : List (BitVec 2) :=
  List.zipWith (fun p q ↦ dibitNext (q - p)) ps ps.tail

theorem decisions_concat (ps : List (BitVec 16)) (q : BitVec 16) :
    decisions (ps ++ [q]) =
      decisions ps ++ (ps.getLast?.map fun p ↦ dibitNext (q - p)).toList := by
  induction ps with
  | nil => rfl
  | cons p ps ih =>
      cases ps with
      | nil => rfl
      | cons p' ps =>
          simp only [decisions, List.cons_append, List.tail_cons, List.zipWith_cons_cons] at ih ⊢
          rw [ih, List.getLast?_cons_cons]

/-- Where the demodulator is with the samples it took: `ds` are those it is done with. -/
inductive Works (d : Pi4DqpskDemod) (ds : List Iq) : List Iq → Prop
  | rest (hs : d.state = .idle ∨ d.state = .init) : Works d ds ds
  | iter (iq : Iq) (hs : d.state = .iter)
      (hv : d.Shows (rotateTo table d.iterCnt.toNat (vecOf iq))) : Works d ds (ds ++ [iq])
  | decide (iq : Iq) (hs : d.state = .decide) (hz : d.cordicZ = phaseOf iq) :
      Works d ds (ds ++ [iq])

/-- The ports show the decision on the last difference of phases and how far the difference is off
the angle decided for. -/
def Reports (ps : List (BitVec 16)) (d : Pi4DqpskDemod) : Prop :=
  ∀ qs p q, ps = qs ++ [p, q] →
    d.dibitOut = dibitNext (q - p) ∧ d.phaseErrorReg = q - p - idealDelta (dibitNext (q - p))

/-- The last phase of the samples it is done with is kept, the ports show the last decision, and
what was given out are the decisions on them. -/
def Follows (taken : List Iq) (given : List (BitVec 2)) (d : Pi4DqpskDemod) : Prop :=
  ∃ ds, Works d ds taken ∧ given = decisions (ds.map phaseOf) ∧
    (ds.map phaseOf).getLast? = (if d.phaseLocked then some d.phasePrev else none) ∧
    Reports (ds.map phaseOf) d

theorem follows_reset : Follows [] [] {} :=
  ⟨[], .rest (.inl rfl), rfl, rfl, fun _ _ _ h ↦ by simp at h⟩

/-- A step that neither takes nor gives anything nor has decided keeps the phases. -/
theorem Works.keep {ds taken taken' : List Iq} {given : List (BitVec 2)}
    (hw : Works (d.step i) ds taken') (hne : d.state ≠ .decide)
    (hgiven : given = decisions (ds.map phaseOf))
    (hlast : (ds.map phaseOf).getLast? = (if d.phaseLocked then some d.phasePrev else none) ∧
      Reports (ds.map phaseOf) d)
    (htaken : taken' = taken ++ (d.takes i).toList) :
    Follows (taken ++ (d.takes i).toList) (given ++ (d.step i).out.toList) (d.step i) := by
  refine ⟨ds, htaken ▸ hw, ?_, ?_, ?_⟩
  · have hout : (d.step i).out = none := by simp [out, step, hne]
    rw [hout, hgiven]
    exact List.append_nil _
  · simpa [step, hne] using hlast.1
  · simpa [Reports, step, hne] using hlast.2

/-- **One clock edge.** -/
theorem follows_step (taken : List Iq) (given : List (BitVec 2)) (d : Pi4DqpskDemod) (i : IqIn)
    (h : Follows taken given d) :
    Follows (taken ++ (d.takes i).toList) (given ++ (d.step i).out.toList) (d.step i) := by
  obtain ⟨ds, hw, hgiven, hlast⟩ := h
  cases hw with
  | rest hs =>
      rcases hs with hs | hs
      · refine Works.keep (.rest ?_) (by simp [hs]) hgiven hlast (by simp [takes, hs])
        cases hvalid : i.valid <;> simp [step, nextState, hs, hvalid]
      · have hcnt : (d.step i).iterCnt.toNat = 0 := by simp [step, hs]
        have hw : Works (d.step i) taken (taken ++ [i.iq]) := by
          refine .iter i.iq (by simp [step, nextState, hs]) ?_
          rw [hcnt]
          refine ⟨by simp [step, hs, vecOf, rotateTo], by simp [step, hs, vecOf, rotateTo], ?_⟩
          simp [step, hs, vecOf, rotateTo]
        exact hw.keep (by simp [hs]) hgiven hlast (by simp [takes, hs])
  | iter iq hs hv =>
      have hk : d.iterCnt.toNat + 1 ≤ 16 := d.iterCnt.isLt
      obtain ⟨hx, hy⟩ := abs_rotateTo_lt iq hk
      obtain ⟨hx', hy', hz'⟩ := hv.rotate hx hy
      by_cases hlast15 : d.iterCnt = 15
      · refine Works.keep (.decide iq ?_ ?_) (by simp [hs]) hgiven hlast (by simp [takes, hs])
        · simp [step, nextState, hs, hlast15]
        · have hz : (d.step i).cordicZ = d.zNext := by simp [step, hs]
          rw [hz, hz', hlast15]
          rfl
      · have hcnt : (d.step i).iterCnt.toNat = d.iterCnt.toNat + 1 := by
          have hne : d.iterCnt.toNat ≠ 15 := fun h ↦ hlast15 (BitVec.eq_of_toNat_eq h)
          simp only [step, hs]
          rw [BitVec.toNat_add_of_lt (by simp; omega)]
          rfl
        refine Works.keep (.iter iq ?_ ?_) (by simp [hs]) hgiven hlast (by simp [takes, hs])
        · rw [step, nextState, hs]
          exact if_neg hlast15
        · rw [hcnt]
          simp only [Shows, step, hs, rotateTo]
          exact ⟨hx', hy', hz'⟩
  | decide iq hs hz =>
      obtain ⟨hlast, -⟩ := hlast
      refine ⟨ds ++ [iq], ?_, ?_, ?_, ?_⟩
      · have htakes : d.takes i = none := by simp [takes, hs]
        rw [htakes, Option.toList_none, List.append_nil]
        exact .rest (.inl (by simp [step, nextState, hs]))
      · rw [List.map_append, List.map_singleton, decisions_concat, hgiven, hlast]
        cases hlock : d.phaseLocked with
        | false => simp [out, step, hs, hlock]
        | true => simp [out, step, hs, hlock, deltaPhase, hz]
      · simp [step, hs, hz]
      · intro qs p q hsplit
        -- the phase before the last is the one in the register
        have hqs : qs ++ [p, q] = (qs ++ [p]) ++ [q] := by simp
        rw [List.map_append, List.map_singleton, hqs] at hsplit
        obtain ⟨hds, hq⟩ := List.append_inj' hsplit rfl
        have hp : d.phasePrev = p := by
          rw [hds, List.getLast?_concat] at hlast
          cases hlock : d.phaseLocked <;> simp [hlock] at hlast
          exact hlast.symm
        rw [List.cons.injEq] at hq
        simp [step, hs, deltaPhase, hz, hp, hq.1]

/-- **What a run gives out are the decisions on the samples it took**, one of which may still be at
work; the first sample is the reference. -/
theorem emitted_eq (es : List IqIn) :
    ∃ ds rest, Run.taken step takes {} es = ds ++ rest ∧ rest.length ≤ 1 ∧
      Run.emitted step out {} es = decisions (ds.map phaseOf) ∧
      ((Run.exec step {} es).state = .idle → rest = []) := by
  obtain ⟨ds, hw, hgiven, -, -⟩ := Run.transduce follows_step follows_reset es
  rw [List.nil_append] at hw hgiven
  generalize htaken : Run.taken step takes {} es = taken at hw
  cases hw with
  | rest hs => exact ⟨ds, [], (List.append_nil _).symm, Nat.zero_le 1, hgiven, fun _ ↦ rfl⟩
  | iter iq hs hv =>
      exact ⟨ds, [iq], rfl, le_rfl, hgiven, fun h ↦ DemodState.noConfusion (h.symm.trans hs)⟩
  | decide iq hs hz =>
      exact ⟨ds, [iq], rfl, le_rfl, hgiven, fun h ↦ DemodState.noConfusion (h.symm.trans hs)⟩

/-- At rest the registers are about all samples taken. -/
theorem follows_rest (es : List IqIn) (hs : (Run.exec step {} es).state = .idle) :
    ((Run.taken step takes {} es).map phaseOf).getLast? =
        (if (Run.exec step {} es).phaseLocked then some (Run.exec step {} es).phasePrev
          else none) ∧
      Reports ((Run.taken step takes {} es).map phaseOf) (Run.exec step {} es) := by
  obtain ⟨ds, hw, -, hlast, hports⟩ := Run.transduce follows_step follows_reset es
  rw [List.nil_append] at hw
  generalize Run.taken step takes {} es = taken at hw
  cases hw with
  | rest _ => exact ⟨hlast, hports⟩
  | iter iq hs' hv => exact DemodState.noConfusion (hs.symm.trans hs')
  | decide iq hs' hz => exact DemodState.noConfusion (hs.symm.trans hs')

/-! ## Timing -/

/-- The cycles until the demodulator is idle, if no strobe comes. -/
def busy (d : Pi4DqpskDemod) : ℕ :=
  match d.state with
  | .idle => 0
  | .init => 18
  | .iter => 17 - d.iterCnt.toNat
  | .decide => 1

theorem busy_step (hi : i.valid = false) : (d.step i).busy = d.busy - 1 := by
  cases hs : d.state with
  | idle => simp [busy, step, nextState, hs, hi]
  | init => simp [busy, step, nextState, hs]
  | iter =>
      have hlt := d.iterCnt.isLt
      by_cases hlast : d.iterCnt = 15
      · simp [busy, step, nextState, hs, hlast]
      · have hne : d.iterCnt.toNat ≠ 15 := fun h ↦ hlast (BitVec.eq_of_toNat_eq h)
        have hcnt : (d.iterCnt + 1).toNat = d.iterCnt.toNat + 1 := by
          rw [BitVec.toNat_add_of_lt (by simp; omega)]
          rfl
        simp only [busy, step, nextState, hs, hlast, if_false, hcnt]
        omega
  | decide => simp [busy, step, nextState, hs]

/-- Behind a sample the demodulator comes to rest, if it is given the time, and takes nothing. -/
theorem rests {es : List IqIn} (hes : ∀ e ∈ es, e.valid = false) (hs : d.state ≠ .init)
    (hlen : d.busy ≤ es.length) :
    Run.taken step takes d es = [] ∧ (Run.exec step d es).state = .idle := by
  induction es generalizing d with
  | nil =>
      refine ⟨rfl, ?_⟩
      rw [Run.exec_nil]
      cases hstate : d.state with
      | idle => rfl
      | init => exact absurd hstate hs
      | iter =>
          have hlt := d.iterCnt.isLt
          simp only [busy, hstate, List.length_nil] at hlen
          omega
      | decide => simp [busy, hstate] at hlen
  | cons e es ih =>
      rw [List.forall_mem_cons] at hes
      have hnext : (d.step e).state ≠ .init := by
        cases hstate : d.state with
        | idle => simp [step, nextState, hstate, hes.1]
        | init => exact absurd hstate hs
        | iter => simp only [step, nextState, hstate]; split <;> decide
        | decide => simp [step, nextState, hstate]
      obtain ⟨htaken, hidle⟩ := ih hes.2 hnext (by
        rw [busy_step hes.1]
        rw [List.length_cons] at hlen
        omega)
      refine ⟨?_, hidle⟩
      rw [Run.taken, htaken, takes, if_neg hs]
      rfl

/-- The cycles of a sample: its strobe, and at least eighteen more in which it stays. -/
def cycles (iq : Iq) (pause : ℕ) : List IqIn :=
  ⟨iq, true⟩ :: List.replicate (pause + 18) ⟨iq, false⟩

/-- **A sample that stays for eighteen cycles is taken.** -/
theorem taken_cycles (hs : d.state = .idle) (iq : Iq) (pause : ℕ) :
    Run.taken step takes d (cycles iq pause) = [iq] ∧
      (Run.exec step d (cycles iq pause)).state = .idle := by
  have hinit : (d.step ⟨iq, true⟩).state = .init := by simp [step, nextState, hs]
  have hiter : ((d.step ⟨iq, true⟩).step ⟨iq, false⟩).state = .iter := by
    simp [step, nextState, hs]
  have hquiet : ∀ e ∈ List.replicate (pause + 17) (⟨iq, false⟩ : IqIn), e.valid = false :=
    fun e he ↦ by rw [List.eq_of_mem_replicate he]
  have hrest := rests hquiet (d := (d.step ⟨iq, true⟩).step ⟨iq, false⟩) (by rw [hiter]; decide) (by
    rw [busy_step rfl, busy, hinit, List.length_replicate]
    exact Nat.le_add_left _ _)
  rw [cycles, List.replicate_succ, Run.taken, Run.taken, hrest.1, Run.exec_cons, Run.exec_cons,
    takes, hs, takes, hinit]
  exact ⟨rfl, hrest.2⟩

/-- Samples that stay for eighteen cycles are all taken. -/
theorem taken_flatMap_cycles (hs : d.state = .idle) (as : List (Iq × ℕ)) :
    Run.taken step takes d (as.flatMap fun a ↦ cycles a.1 a.2) = as.map Prod.fst ∧
      (Run.exec step d (as.flatMap fun a ↦ cycles a.1 a.2)).state = .idle := by
  induction as generalizing d with
  | nil => exact ⟨rfl, hs⟩
  | cons a as ih =>
      obtain ⟨htaken, hidle⟩ := taken_cycles hs a.1 a.2
      obtain ⟨htaken', hidle'⟩ := ih hidle
      rw [List.flatMap_cons, Run.taken_append, htaken, htaken', Run.exec_append]
      exact ⟨rfl, hidle'⟩

end Pi4DqpskDemod

end TetraPhy.Rx
