import TetraPhy.Codec.Viterbi
import TetraPhy.Lib.BestPath

/-!
# The Viterbi decoder of the uplink

`tetra_ul_viterbi_r14.v`: four soft symbols a stage, 0 for a strong zero and the greatest value for
a strong one.  The machine adds up sixteen 16-bit metrics while the symbols come in, goes back
along the survivors from state 0, and sends the bits from a buffer.

The metric all ones stands for "no path".  `toNat_pmNew` and `survW_eq` say that one stage of the
machine is one stage of a shift register's decoder whose metrics stop at that cap.

`path_metric_min` and the search behind it are left out: nothing reads it.
-/

namespace TetraPhy.Rx

open Codec Survivor

theorem neZeroViterbi : NeZero 16 := ⟨by decide⟩

theorem neZeroSymbols : NeZero 4 := ⟨by decide⟩

attribute [local instance] neZeroViterbi neZeroSymbols

/-! ## The register -/

/-- The state of the mother code as a shift register. -/
def r14 : ShiftRegister State Bool where
  next := nextState
  newest s := s.val.testBit 0
  oldest s := s.val.testBit 3
  pred s b := ⟨s.val / 2 + 8 * b.toNat, by have := Bool.toNat_le b; omega⟩
  newest_next := by decide
  pred_next := by decide

theorem covers_r14 : r14.Covers where
  next_pred := by decide
  oldest_pred := by decide

/-- The last four inputs, the oldest first. -/
def r14Held (s : State) : List Bool :=
  [s.val.testBit 3, s.val.testBit 2, s.val.testBit 1, s.val.testBit 0]

theorem delays_r14 : r14.Delays r14Held where
  shifts := by decide

/-! ## A stage -/

section Stage

variable {w : ℕ}

/-- `SOFT_MAX`. -/
def softMax (w : ℕ) : BitVec w := BitVec.allOnes w

/-- `BM_MAX`. -/
def bmMax (w : ℕ) : BitVec (w + 2) := BitVec.ofNat (w + 2) (4 * (softMax w).toNat)

/-- `G1P0` .. `G4P0`: the outputs on the branch from the first predecessor. -/
def gP0 (s : State) (g : Fin 4) : Bool :=
  match g with
  | 0 => s.val.testBit 0 ^^ s.val.testBit 1
  | 1 => s.val.testBit 0 ^^ s.val.testBit 2 ^^ s.val.testBit 3
  | 2 => s.val.testBit 0 ^^ s.val.testBit 1 ^^ s.val.testBit 2
  | 3 => s.val.testBit 0 ^^ s.val.testBit 1 ^^ s.val.testBit 3

/-- What a symbol is charged. -/
def bmTerm (soft : Fin 4 → BitVec w) (s : State) (g : Fin 4) : BitVec (w + 2) :=
  (if gP0 s g then softMax w - soft g else soft g).setWidth (w + 2)

/-- `bm0_w`. -/
def bm0W (soft : Fin 4 → BitVec w) (s : State) : BitVec (w + 2) :=
  bmTerm soft s 0 + bmTerm soft s 1 + bmTerm soft s 2 + bmTerm soft s 3

/-- `bm1_w`. -/
def bm1W (soft : Fin 4 → BitVec w) (s : State) : BitVec (w + 2) := bmMax w - bm0W soft s

/-- `pm_flat_sys`. -/
abbrev Metrics := Vector (BitVec 16) 16

variable (pm : Metrics) (soft : Fin 4 → BitVec w) (s : State)

/-- `cost0_w`. -/
def cost0W : BitVec 17 :=
  (pm.get (r14.pred s false)).setWidth 17 + ((bm0W soft s).setWidth 16).setWidth 17

/-- `cost1_w`. -/
def cost1W : BitVec 17 :=
  (pm.get (r14.pred s true)).setWidth 17 + ((bm1W soft s).setWidth 16).setWidth 17

/-- `surv_w`. -/
def survW : Bool := cost1W pm soft s < cost0W pm soft s

/-- `raw_w`. -/
def rawW : BitVec 17 := if survW pm soft s then cost1W pm soft s else cost0W pm soft s

/-- `raw_sat_w`. -/
def rawSatW : BitVec 16 :=
  if (rawW pm soft s).getLsbD 16 then BitVec.allOnes 16 else (rawW pm soft s).setWidth 16

/-- The metrics after a stage. -/
def pmNew : Metrics := Vector.ofFn fun s ↦ rawSatW pm soft s

end Stage

/-- The metrics at the start. -/
def pmInit : Metrics := Vector.ofFn fun s ↦ if s = 0 then 0 else BitVec.allOnes 16

/-! ## What a stage adds up to -/

section Costs

variable {w : ℕ}

/-- What a symbol costs a code bit: its distance from the bit. -/
def softCost (e : Bool) (v : BitVec w) : ℕ :=
  if e then (softMax w).toNat - v.toNat else v.toNat

/-- What a branch into a state costs. -/
def stageCost (soft : Fin 4 → BitVec w) (s : State) (b : Bool) : ℕ :=
  softCost (gP0 s 0 ^^ b) (soft 0) + softCost (gP0 s 1 ^^ b) (soft 1) +
    softCost (gP0 s 2 ^^ b) (soft 2) + softCost (gP0 s 3 ^^ b) (soft 3)

theorem toNat_softMax (w : ℕ) : (softMax w).toNat = 2 ^ w - 1 := BitVec.toNat_allOnes

theorem toNat_le_softMax (v : BitVec w) : v.toNat ≤ (softMax w).toNat := by
  rw [toNat_softMax]
  have := v.isLt
  omega

theorem softCost_le (e : Bool) (v : BitVec w) : softCost e v ≤ (softMax w).toNat := by
  have := toNat_le_softMax v
  rw [softCost]
  split <;> omega

theorem softCost_not (e : Bool) (v : BitVec w) :
    softCost (e ^^ true) v = (softMax w).toNat - softCost (e ^^ false) v := by
  have := toNat_le_softMax v
  cases e
  · rfl
  · exact (Nat.sub_sub_self this).symm

variable (soft : Fin 4 → BitVec w) (s : State)

theorem stageCost_le (b : Bool) : stageCost soft s b ≤ 4 * (softMax w).toNat := by
  have h0 := softCost_le (gP0 s 0 ^^ b) (soft 0)
  have h1 := softCost_le (gP0 s 1 ^^ b) (soft 1)
  have h2 := softCost_le (gP0 s 2 ^^ b) (soft 2)
  have h3 := softCost_le (gP0 s 3 ^^ b) (soft 3)
  rw [stageCost]
  omega

theorem toNat_bmTerm (g : Fin 4) : (bmTerm soft s g).toNat = softCost (gP0 s g ^^ false) (soft g) := by
  have hle := toNat_le_softMax (soft g)
  have hsub : (softMax w - soft g).toNat = (softMax w).toNat - (soft g).toNat :=
    BitVec.toNat_sub_of_le hle
  rw [bmTerm, softCost, BitVec.toNat_setWidth_of_le (by omega), Bool.xor_false]
  split
  · exact hsub
  · rfl

theorem four_softMax_lt (w : ℕ) : 4 * (softMax w).toNat < 2 ^ (w + 2) := by
  have := Nat.two_pow_pos w
  rw [toNat_softMax, pow_add]
  omega

/-- `bm0_w` is what the branch from the first predecessor costs, -/
theorem toNat_bm0W : (bm0W soft s).toNat = stageCost soft s false := by
  have hlt := (stageCost_le soft s false).trans_lt (four_softMax_lt w)
  rw [stageCost] at hlt ⊢
  have h01 : (bmTerm soft s 0 + bmTerm soft s 1).toNat =
      softCost (gP0 s 0 ^^ false) (soft 0) + softCost (gP0 s 1 ^^ false) (soft 1) := by
    rw [BitVec.toNat_add, toNat_bmTerm, toNat_bmTerm, Nat.mod_eq_of_lt (by omega)]
  have h012 : (bmTerm soft s 0 + bmTerm soft s 1 + bmTerm soft s 2).toNat =
      softCost (gP0 s 0 ^^ false) (soft 0) + softCost (gP0 s 1 ^^ false) (soft 1) +
        softCost (gP0 s 2 ^^ false) (soft 2) := by
    rw [BitVec.toNat_add, h01, toNat_bmTerm, Nat.mod_eq_of_lt (by omega)]
  rw [bm0W, BitVec.toNat_add, h012, toNat_bmTerm, Nat.mod_eq_of_lt hlt]

/-- and `bm1_w` that from the second one. -/
theorem toNat_bm1W : (bm1W soft s).toNat = stageCost soft s true := by
  have hle := stageCost_le soft s false
  have hlt := four_softMax_lt w
  have hmax : (bmMax w).toNat = 4 * (softMax w).toNat := by
    rw [bmMax, BitVec.toNat_ofNat, Nat.mod_eq_of_lt hlt]
  have hsub : (bm1W soft s).toNat = 4 * (softMax w).toNat - stageCost soft s false := by
    rw [bm1W, BitVec.toNat_sub_of_le (by rw [BitVec.le_def, hmax, toNat_bm0W]; exact hle), hmax,
      toNat_bm0W]
  have h0 := softCost_le (gP0 s 0 ^^ false) (soft 0)
  have h1 := softCost_le (gP0 s 1 ^^ false) (soft 1)
  have h2 := softCost_le (gP0 s 2 ^^ false) (soft 2)
  have h3 := softCost_le (gP0 s 3 ^^ false) (soft 3)
  rw [hsub, stageCost, stageCost, softCost_not, softCost_not, softCost_not, softCost_not]
  omega

variable (pm : Metrics)

/-- The metrics as numbers. -/
def pmNat (s : State) : ℕ := (pm.get s).toNat

theorem toNat_cost0W (hw : w + 2 ≤ 16) :
    (cost0W pm soft s).toNat = pmNat pm (r14.pred s false) + stageCost soft s false := by
  have hb := (bm0W soft s).isLt
  have hpow : 2 ^ (w + 2) ≤ 2 ^ 16 := Nat.pow_le_pow_right (by decide) hw
  have hp := (pm.get (r14.pred s false)).isLt
  rw [cost0W, BitVec.toNat_add, BitVec.toNat_setWidth_of_le (by decide),
    BitVec.toNat_setWidth_of_le (by decide), BitVec.toNat_setWidth_of_le hw,
    Nat.mod_eq_of_lt (by omega), toNat_bm0W, pmNat]

theorem toNat_cost1W (hw : w + 2 ≤ 16) :
    (cost1W pm soft s).toNat = pmNat pm (r14.pred s true) + stageCost soft s true := by
  have hb := (bm1W soft s).isLt
  have hpow : 2 ^ (w + 2) ≤ 2 ^ 16 := Nat.pow_le_pow_right (by decide) hw
  have hp := (pm.get (r14.pred s true)).isLt
  rw [cost1W, BitVec.toNat_add, BitVec.toNat_setWidth_of_le (by decide),
    BitVec.toNat_setWidth_of_le (by decide), BitVec.toNat_setWidth_of_le hw,
    Nat.mod_eq_of_lt (by omega), toNat_bm1W, pmNat]

/-- **The decision of a stage.** -/
theorem survW_eq (hw : w + 2 ≤ 16) :
    survW pm soft s = r14.select (stageCost soft) (pmNat pm) s := by
  rw [survW, ShiftRegister.select]
  exact decide_eq_decide.2 (by rw [BitVec.lt_def, toNat_cost0W _ _ _ hw, toNat_cost1W _ _ _ hw])

theorem toNat_rawW (hw : w + 2 ≤ 16) :
    (rawW pm soft s).toNat = r14.metric (stageCost soft) (pmNat pm) s := by
  rw [rawW, ShiftRegister.metric, ← survW_eq _ _ _ hw]
  cases survW pm soft s
  · exact toNat_cost0W _ _ _ hw
  · exact toNat_cost1W _ _ _ hw

theorem get_ofFn {α : Type} (f : State → α) (s : State) : (Vector.ofFn f).get s = f s := by
  change (Vector.ofFn f)[s] = f s
  exact Vector.getElem_ofFn s.isLt

/-- **The metrics after a stage**, up to the cap. -/
theorem pmNat_pmNew (hw : w + 2 ≤ 16) :
    pmNat (pmNew pm soft) s = min 65535 (r14.metric (stageCost soft) (pmNat pm) s) := by
  have hlt := (rawW pm soft s).isLt
  have hbit : (rawW pm soft s).getLsbD 16 = decide (2 ^ 16 ≤ (rawW pm soft s).toNat) := by
    rw [BitVec.getLsbD, Nat.testBit_eq_decide_div_mod_eq]
    exact decide_eq_decide.2 (by omega)
  rw [pmNat, pmNew, get_ofFn, rawSatW, ← toNat_rawW _ _ _ hw, hbit]
  by_cases hsat : 2 ^ 16 ≤ (rawW pm soft s).toNat
  · rw [decide_eq_true hsat, if_pos rfl, BitVec.toNat_allOnes]
    omega
  · rw [decide_eq_false hsat, if_neg Bool.false_ne_true, BitVec.toNat_setWidth]
    omega

theorem pmNat_pmInit : pmNat pmInit = ShiftRegister.startMetrics 65535 0 := by
  funext s
  rw [pmNat, pmInit, get_ofFn, ShiftRegister.startMetrics]
  split <;> rfl

/-! ## What a path costs -/

/-- The four symbols of a stage in the order of the code bits. -/
def quad (soft : Fin 4 → BitVec w) : List (BitVec w) := [soft 0, soft 1, soft 2, soft 3]

/-- The branch into a state sends the complement of the first one's bits, if it is the second. -/
theorem motherBits_eq (s : State) (b : Bool) : motherBits (shiftIn s b) =
    [gP0 (nextState s b) 0 ^^ s.val.testBit 3, gP0 (nextState s b) 1 ^^ s.val.testBit 3,
      gP0 (nextState s b) 2 ^^ s.val.testBit 3, gP0 (nextState s b) 3 ^^ s.val.testBit 3] := by
  revert s b
  decide

/-- **The cost of a path is the distance of its code word** from the symbols. -/
theorem pathCost_eq {softs : List (Fin 4 → BitVec w)} {bits : List Bool}
    (h : bits.length = softs.length) (s : State) :
    r14.pathCost s bits (softs.map stageCost) =
      distance softCost (softs.flatMap quad) (outputs s bits) := by
  induction softs generalizing s bits with
  | nil =>
      rw [List.eq_nil_of_length_eq_zero h]
      rfl
  | cons soft softs ih =>
      obtain ⟨b, bits, rfl⟩ := List.exists_cons_of_length_eq_add_one h
      rw [List.map_cons, ShiftRegister.pathCost, ih (Nat.succ.inj h), outputs, List.flatMap_cons,
        distance, distance, motherBits_eq, quad]
      simp only [List.cons_append, List.nil_append, List.zipWith_cons_cons, List.sum_cons]
      rw [stageCost]
      simp only [Nat.add_assoc]
      rfl

end Costs

/-! ## The decoded word -/

section Decoded

variable {w : ℕ}

/-- What the survivors of a block say. -/
def decisions : Metrics → List (Fin 4 → BitVec w) → List (State → Bool)
  | _, [] => []
  | pm, soft :: softs => survW pm soft :: decisions (pmNew pm soft) softs

@[simp] theorem length_decisions (pm : Metrics) (softs : List (Fin 4 → BitVec w)) :
    (decisions pm softs).length = softs.length := by
  induction softs generalizing pm with
  | nil => rfl
  | cons soft softs ih => rw [decisions, List.length_cons, ih, List.length_cons]

theorem decisions_concat (pm : Metrics) (softs : List (Fin 4 → BitVec w))
    (soft : Fin 4 → BitVec w) : decisions pm (softs ++ [soft]) =
      decisions pm softs ++ [survW (softs.foldl pmNew pm) soft] := by
  induction softs generalizing pm with
  | nil => rfl
  | cons soft' softs ih => rw [List.cons_append, decisions, ih, decisions, List.foldl_cons]; rfl

/-- They are the survivors of a decoder whose metrics stop at the cap. -/
theorem decisions_eq (hw : w + 2 ≤ 16) (pm : Metrics) (softs : List (Fin 4 → BitVec w)) :
    decisions pm softs = r14.cappedSurvivors 65535 (pmNat pm) (softs.map stageCost) := by
  induction softs generalizing pm with
  | nil => rfl
  | cons soft softs ih =>
      have hsurv : survW pm soft = r14.select (stageCost soft) (pmNat pm) :=
        funext fun s ↦ survW_eq soft s pm hw
      have hpm : pmNat (pmNew pm soft) =
          fun s ↦ min 65535 (r14.metric (stageCost soft) (pmNat pm) s) :=
        funext fun s ↦ pmNat_pmNew soft s pm hw
      rw [decisions, ih, hsurv, hpm, List.map_cons, ShiftRegister.cappedSurvivors]

/-- The bits that the traceback finds, tail included. -/
def tracedBits (softs : List (Fin 4 → BitVec w)) : List Bool :=
  (r14.traceback 0 (decisions pmInit softs)).2

/-- What the machine sends for a block. -/
def decoded (softs : List (Fin 4 → BitVec w)) : List Bool :=
  (tracedBits softs).take (softs.length - 4)

/-- The accumulated cost cannot reach the metric of "no path". -/
def CannotReach (softs : List (Fin 4 → BitVec w)) : Prop :=
  ∀ bits, Codec.Terminated softs.length bits →
    distance softCost (softs.flatMap quad) (convR14 bits) < 65535

/-- The bits label a path from state 0 to state 0 that none is cheaper than. -/
def MinimumCost (softs : List (Fin 4 → BitVec w)) (bits : List Bool) : Prop :=
  Codec.Terminated softs.length bits ∧ ∀ bits', Codec.Terminated softs.length bits' →
    distance softCost (softs.flatMap quad) (convR14 bits) ≤
      distance softCost (softs.flatMap quad) (convR14 bits')

theorem terminated_iff_reaches {n : ℕ} {bits : List Bool} :
    Codec.Terminated n bits ↔ r14.Reaches n 0 (0, bits) :=
  Codec.terminated_iff.trans ⟨fun h ↦ ⟨h.1, h.2⟩, fun h ↦ ⟨h.length, h.ends⟩⟩

theorem minimumCost_of_isFirst {softs : List (Fin 4 → BitVec w)} {bits : List Bool}
    (h : r14.IsFirst (softs.map stageCost) 0 0 bits) : MinimumCost softs bits := by
  obtain ⟨hreach, hleast⟩ := h
  rw [List.length_map] at hreach hleast
  refine ⟨terminated_iff_reaches.2 hreach, fun bits' h' ↦ ?_⟩
  have hle := (Prod.Lex.toLex_le_toLex'.1 (hleast bits' (terminated_iff_reaches.1 h'))).1
  rw [pathCost_eq hreach.length, pathCost_eq h'.1] at hle
  rwa [convR14_eq_outputs, convR14_eq_outputs]

/-- What the traceback finds below the cap. -/
theorem isFirst_tracedBits (hw : w + 2 ≤ 16) {softs : List (Fin 4 → BitVec w)}
    (h : CannotReach softs) : r14.IsFirst (softs.map stageCost) 0 0 (tracedBits softs) := by
  have hzeros := terminated_replicate_false softs.length
  have hcost : ∀ {bits}, Codec.Terminated softs.length bits →
      r14.pathCost 0 bits (softs.map stageCost) < 65535 := fun hbits ↦ by
    rw [pathCost_eq hbits.1, ← convR14_eq_outputs]
    exact h _ hbits
  have hreach := terminated_iff_reaches.1 hzeros
  rw [← List.length_map (f := stageCost)] at hreach
  obtain ⟨bits, hfirst, -⟩ := ShiftRegister.exists_isFirst covers_r14 delays_r14 hreach
    (by rw [List.length_map]; exact hcost hzeros)
  have hreaches := hfirst.reaches
  rw [List.length_map] at hreaches
  have hback := hfirst.traceback_capped covers_r14 delays_r14
    (hcost (terminated_iff_reaches.2 hreaches))
  rw [tracedBits, decisions_eq hw, pmNat_pmInit, hback]
  exact hfirst

/-- **The bits sent and the tail label a path of minimum cost.** -/
theorem minimumCost_decoded (hw : w + 2 ≤ 16) {softs : List (Fin 4 → BitVec w)}
    (hlong : 4 ≤ softs.length) (h : CannotReach softs) :
    MinimumCost softs (decoded softs ++ [false, false, false, false]) := by
  have hmin := minimumCost_of_isFirst (isFirst_tracedBits hw h)
  obtain ⟨hlen, hend⟩ := Codec.terminated_iff.1 hmin.1
  have hfill : (r14Held 0).length ≤ (tracedBits softs).length := hlen ▸ hlong
  obtain ⟨bits, hbits⟩ := delays_r14.exists_append hfill
  change r14.endState 0 (tracedBits softs) = 0 at hend
  rw [hend] at hbits
  change tracedBits softs = bits ++ [false, false, false, false] at hbits
  have hdecoded : decoded softs = bits := by
    rw [decoded, hbits]
    rw [hbits, List.length_append] at hlen
    exact List.take_left' (Nat.eq_sub_of_add_eq hlen)
  rw [hdecoded, ← hbits]
  exact hmin

/-- Below some number of stages it cannot, whatever the symbols are. -/
theorem cannotReach_of_lt {softs : List (Fin 4 → BitVec w)}
    (h : 4 * (softMax w).toNat * softs.length < 65535) : CannotReach softs := by
  intro bits hbits
  have hle : ∀ (softs : List (Fin 4 → BitVec w)) (s : State) (bits : List Bool),
      r14.pathCost s bits (softs.map stageCost) ≤ 4 * (softMax w).toNat * softs.length := by
    intro softs
    induction softs with
    | nil => intro s bits; cases bits <;> exact Nat.zero_le _
    | cons soft softs ih =>
        intro s bits
        cases bits with
        | nil => exact Nat.zero_le _
        | cons b bits =>
            rw [List.map_cons, ShiftRegister.pathCost, List.length_cons, Nat.mul_succ,
              Nat.add_comm]
            exact Nat.add_le_add (ih _ _) (stageCost_le _ _ _)
  rw [convR14_eq_outputs, ← pathCost_eq hbits.1]
  exact (hle softs 0 bits).trans_lt h

end Decoded

end TetraPhy.Rx
