import TetraPhy.Rx.NubCapture

/-!
# The soft values of a block

What `tetra_ul_nub_capture.v` makes of the samples it reads from its ring, one block of 108
symbols.  With `s 0, …, s 108` the samples of the block, its reference first, cycle `j` of the run
state sees

| register        | in cycle `j`                                  |
|-----------------|-----------------------------------------------|
| read port       | `s (j + 1)`, and the read of `s (j + 2)`      |
| previous sample | `s j`                                         |
| products        | of symbol `j - 1`                             |
| sums            | of symbol `j - 2`, which are shifted in       |

so the 108 symbols take 110 cycles.
-/

namespace TetraPhy.Rx

/-! ## A soft value -/

/-- The real part of `cur * conj prev`. -/
def reOf (cur prev : Iq) : ℤ := cur.i.toInt * prev.i.toInt + cur.q.toInt * prev.q.toInt

/-- The imaginary part. -/
def imOf (cur prev : Iq) : ℤ := cur.q.toInt * prev.i.toInt - cur.i.toInt * prev.q.toInt

/-- A part, negated, divided by 2 ^ 24, rounded down and clamped. -/
def clampSoft (v : ℤ) : ℤ := max (-8) (min 7 (-v / 2 ^ 24))

theorem toInt_prod (cur prev : Iq) :
    (sumS (mulS cur.i prev.i) (mulS cur.q prev.q)).toInt = reOf cur prev ∧
      (diffS (mulS cur.q prev.i) (mulS cur.i prev.q)).toInt = imOf cur prev := by
  rw [toInt_sumS, toInt_diffS, toInt_mulS, toInt_mulS, toInt_mulS, toInt_mulS]
  exact ⟨rfl, rfl⟩

/-- The bits above the soft value are all equal exactly if it fits. -/
theorem upper_iff (x : BitVec 33) :
    (x.extractLsb' 3 30 = 0 ↔ 0 ≤ x.toInt ∧ x.toInt ≤ 7) ∧
      (x.extractLsb' 3 30 = BitVec.allOnes 30 ↔ -8 ≤ x.toInt ∧ x.toInt < 0) := by
  have hx := x.isLt
  have hupper : (x.extractLsb' 3 30).toNat = x.toNat / 8 := by
    rw [BitVec.extractLsb'_toNat, Nat.shiftRight_eq_div_pow]
    omega
  rw [← BitVec.toNat_inj, ← BitVec.toNat_inj, hupper, BitVec.toInt_eq_toNat_cond]
  constructor
  · show x.toNat / 8 = 0 ↔ _
    split_ifs <;> omega
  · show x.toNat / 8 = 2 ^ 30 - 1 ↔ _
    split_ifs <;> omega

/-- **The saturation is exact.** -/
theorem toInt_softOf {prod : BitVec 33} (h : -2 ^ 32 < prod.toInt) :
    (softOf prod).toInt = clampSoft prod.toInt := by
  have hshift : ((-prod).sshiftRight 24).toInt = -prod.toInt / 2 ^ 24 := by
    have hlt := prod.toInt_lt
    rw [BitVec.toInt_sshiftRight, BitVec.toInt_neg, Int.shiftRight_eq_div_pow,
      Int.bmod_eq_of_le (by omega) (by omega)]
    rfl
  rw [softOf, clampSoft, ← hshift]
  generalize (-prod).sshiftRight 24 = x
  obtain ⟨hzero, hones⟩ := upper_iff x
  have hx := x.isLt
  split_ifs with hfits hneg
  all_goals rw [hzero, hones] at hfits
  · have hlow : (x.extractLsb' 0 4).toNat = x.toNat % 16 := by
      rw [BitVec.extractLsb'_toNat, Nat.shiftRight_zero]
    rw [BitVec.toInt_eq_toNat_cond, hlow]
    rw [BitVec.toInt_eq_toNat_cond] at hfits ⊢
    split_ifs at hfits ⊢ <;> omega
  · rw [BitVec.msb_eq_toInt, decide_eq_true_iff] at hneg
    show (-8 : ℤ) = _
    omega
  · rw [BitVec.msb_eq_toInt, decide_eq_true_iff] at hneg
    show (7 : ℤ) = _
    omega

/-- The pair of soft values of a symbol. -/
def pairOf (cur prev : Iq) : BitVec 8 :=
  softOf (diffS (mulS cur.q prev.i) (mulS cur.i prev.q)) ++
    softOf (sumS (mulS cur.i prev.i) (mulS cur.q prev.q))

/-! ## Shifting in -/

theorem shiftSofts_zero (c : NubCapture) (x : BitVec 864) :
    (c.shiftSofts x).extractLsb' 0 8 = c.products.dibitSofts := by
  refine BitVec.eq_of_getLsbD_eq fun i hi ↦ ?_
  rw [BitVec.getLsbD_extractLsb', NubCapture.shiftSofts, Nat.zero_add, BitVec.getLsbD_append,
    if_pos hi, decide_eq_true hi, Bool.true_and]

theorem shiftSofts_succ (c : NubCapture) (x : BitVec 864) {n : ℕ} (hn : n < 107) :
    (c.shiftSofts x).extractLsb' (8 * (n + 1)) 8 = x.extractLsb' (8 * n) 8 := by
  refine BitVec.eq_of_getLsbD_eq fun i hi ↦ ?_
  have hin : 8 * (n + 1) + i - 8 = 8 * n + i := by omega
  have hlt : 8 * n + i < 856 := by omega
  rw [BitVec.getLsbD_extractLsb', BitVec.getLsbD_extractLsb', NubCapture.shiftSofts,
    BitVec.getLsbD_append, if_neg (by omega), hin, BitVec.getLsbD_extractLsb',
    decide_eq_true hlt, Bool.true_and, Nat.zero_add]

/-- The first `n` pairs of a block were shifted in. -/
def Filled (s : ℕ → Iq) (n : ℕ) (x : BitVec 864) : Prop :=
  ∀ p < n, x.extractLsb' (8 * (n - 1 - p)) 8 = pairOf (s (p + 1)) (s p)

theorem Filled.shift {s : ℕ → Iq} {n : ℕ} {x : BitVec 864} (h : Filled s n x) (hn : n < 108)
    {c : NubCapture} (hc : c.products.dibitSofts = pairOf (s (n + 1)) (s n)) :
    Filled s (n + 1) (c.shiftSofts x) := by
  intro p hp
  rcases Nat.lt_succ_iff_lt_or_eq.1 hp with hlt | rfl
  · have hplace : n + 1 - 1 - p = n - 1 - p + 1 := by omega
    rw [hplace, shiftSofts_succ _ _ (by omega)]
    exact h p hlt
  · rw [Nat.add_sub_cancel, Nat.sub_self, Nat.mul_zero, shiftSofts_zero, hc]

/-! ## One block -/

namespace NubCapture

variable {s : ℕ → Iq} {base : BitVec 10} {j : ℕ} {c : NubCapture} {i : CaptureIn}

/-- The ring holds the samples of the block. -/
def Holds (s : ℕ → Iq) (base : BitVec 10) (c : NubCapture) : Prop :=
  ∀ m, c.ring.ring.cell (base + BitVec.ofNat 10 (4 * m)) = s m

/-- The read of a sample is on its way. -/
def Fetches (base : BitVec 10) (m : ℕ) (c : NubCapture) : Prop :=
  c.rdEn = true ∧ c.rdAddr = base + BitVec.ofNat 10 (4 * m)

/-- Cycle `j` of the run state. -/
structure Reads (s : ℕ → Iq) (base : BitVec 10) (j : ℕ) (c : NubCapture) : Prop where
  symIdx : c.symIdx = BitVec.ofNat 7 j
  rd : c.rd = s (min (j + 1) 108)
  prev : c.prev = s (min j 108)
  fetch : if j ≤ 106 then Fetches base (j + 2) c else c.rdEn = false
  mul : 1 ≤ j → j ≤ 108 → c.products.mulIi = mulS (s j).i (s (j - 1)).i ∧
    c.products.mulQq = mulS (s j).q (s (j - 1)).q ∧
    c.products.mulQi = mulS (s j).q (s (j - 1)).i ∧
    c.products.mulIq = mulS (s j).i (s (j - 1)).q
  sum : 2 ≤ j → j ≤ 109 → c.products.dibitSofts = pairOf (s (j - 1)) (s (j - 2))

/-- What was fetched is at the read port one cycle later. -/
theorem rd_stepRing (hs : Holds s base c) {m : ℕ} (h : Fetches base m c) :
    (c.stepRing i).rd = s m := by
  show (if c.rdEn then c.ring.ring.cell c.rdAddr else c.rd) = s m
  rw [if_pos h.1, h.2, hs m]

theorem Reads.symIdx_lt (h : Reads s base j c) (hj : j ≤ 109) {n : ℕ} (hn : n < 128) :
    c.symIdx < BitVec.ofNat 7 n ↔ j < n := by
  rw [h.symIdx, BitVec.lt_def, BitVec.toNat_ofNat, BitVec.toNat_ofNat]
  omega

/-- The read of a symbol three ahead. -/
theorem Reads.next_addr (h : Reads s base j c) (hj : j ≤ 109) :
    base + (c.symIdx + 3).setWidth 10 * 4 = base + BitVec.ofNat 10 (4 * (j + 3)) := by
  refine congrArg (base + ·) (BitVec.eq_of_toNat_eq ?_)
  rw [h.symIdx, BitVec.toNat_mul, BitVec.toNat_setWidth, BitVec.toNat_add, BitVec.toNat_ofNat,
    BitVec.toNat_ofNat]
  show (j % 2 ^ 7 + 3) % 2 ^ 7 % 2 ^ 10 * 4 % 2 ^ 10 = _
  omega

/-- **One cycle of the run state.** -/
theorem Reads.step (hs : Holds s base c) (h : Reads s base j c) (hj : j < 109)
    (x y : BitVec 864) :
    Reads s base (j + 1) (c.stepRun base { c.stepRing i with bkn1Softs := x, bkn2Softs := y }) := by
  have h108 : c.symIdx < 108 ↔ j < 108 := h.symIdx_lt (Nat.le_of_lt hj) (by decide)
  have h106 : c.symIdx < 106 ↔ j < 106 := h.symIdx_lt (Nat.le_of_lt hj) (by decide)
  have hfetch := h.fetch
  refine ⟨?_, ?_, ?_, ?_, fun _ hle ↦ ?_, fun hge _ ↦ ?_⟩
  · show c.symIdx + 1 = _
    rw [h.symIdx, BitVec.ofNat_add]
    rfl
  · show (c.stepRing i).rd = _
    split_ifs at hfetch with hj106
    · rw [rd_stepRing hs hfetch, min_eq_left (by omega)]
    · show (if c.rdEn then c.ring.ring.cell c.rdAddr else c.rd) = _
      rw [hfetch, if_neg Bool.false_ne_true, h.rd, min_eq_right (by omega),
        min_eq_right (by omega)]
  · show (if c.symIdx < 108 then c.rd else c.prev) = _
    rw [if_congr h108 rfl rfl]
    split_ifs with hlt
    · exact h.rd
    · rw [h.prev, min_eq_right (by omega), min_eq_right (by omega)]
  · split_ifs with hle
    · have hlt : c.symIdx < 106 := h106.2 (by omega)
      exact ⟨decide_eq_true hlt, (if_pos hlt).trans (h.next_addr (Nat.le_of_lt hj))⟩
    · exact decide_eq_false (mt h106.1 (by omega))
  · have hrd : c.rd = s (j + 1) := by rw [h.rd, min_eq_left (by omega)]
    have hprev : c.prev = s j := by rw [h.prev, min_eq_left (by omega)]
    rw [Nat.add_sub_cancel, ← hrd, ← hprev]
    exact ⟨rfl, rfl, rfl, rfl⟩
  · obtain ⟨hii, hqq, hqi, hiq⟩ := h.mul (by omega) (by omega)
    show (c.products.step c.rd c.prev).dibitSofts = pairOf (s j) (s (j - 1))
    rw [NubProducts.dibitSofts, NubProducts.step, hii, hqq, hqi, hiq]
    rfl

/-- Cycle `u` of a block, from the fetch of the reference on, and of what was shifted in. -/
structure Block (s : ℕ → Iq) (base : BitVec 10) (u : ℕ) (softs : BitVec 864) (c : NubCapture) :
    Prop where
  pre : u = 1 → Fetches base 0 c
  ref : u = 2 → c.rd = s 0 ∧ Fetches base 1 c
  run : 3 ≤ u → u ≤ 112 → Reads s base (u - 3) c
  filled : 3 ≤ u → Filled s (min (u - 5) 108) softs

/-- The fetch of the reference is followed by that of the first symbol. -/
theorem block_pre {softs : BitVec 864} (hs : Holds s base c) (h : Block s base 1 softs c)
    (next : NubState) : Block s base 2 softs (stepPre base next (c.stepRing i)) :=
  ⟨fun hu ↦ absurd hu (by decide), fun _ ↦ ⟨rd_stepRing (i := i) hs (h.pre rfl), rfl, rfl⟩,
    fun hu ↦ absurd hu (by decide), fun hu ↦ absurd hu (by decide)⟩

/-- The reference is kept, and the run begins. -/
theorem block_ref {softs : BitVec 864} (hs : Holds s base c) (h : Block s base 2 softs c)
    (next : NubState) : Block s base 3 softs (c.stepRef base next (c.stepRing i)) := by
  obtain ⟨hrd, hfetch⟩ := h.ref rfl
  have hreads : Reads s base 0 (c.stepRef base next (c.stepRing i)) :=
    ⟨rfl, rd_stepRing (i := i) hs hfetch, hrd, ⟨rfl, rfl⟩, fun hj ↦ absurd hj (by decide),
      fun hj ↦ absurd hj (by decide)⟩
  exact ⟨fun hu ↦ absurd hu (by decide), fun hu ↦ absurd hu (by decide), fun _ _ ↦ hreads,
    fun _ p hp ↦ absurd hp (Nat.not_lt_zero p)⟩

/-- A cycle of the run state shifts a pair in, once it has come through. -/
theorem Block.filled_run {softs : BitVec 864} {u : ℕ} (h : Block s base u softs c) (hu : 3 ≤ u)
    (hu' : u ≤ 112) :
    Filled s (min (u + 1 - 5) 108) (if 2 ≤ c.symIdx then c.shiftSofts softs else softs) := by
  have hreads := h.run hu hu'
  have hfilled := h.filled hu
  have htwo : 2 ≤ c.symIdx ↔ 2 ≤ u - 3 := by
    rw [← BitVec.not_lt, ← Nat.not_lt]
    exact not_congr (hreads.symIdx_lt (by omega) (by decide))
  rw [min_eq_left (by omega)] at hfilled ⊢
  by_cases h2 : 2 ≤ u - 3
  · rw [if_pos (htwo.2 h2)]
    have hsum := hreads.sum h2 (by omega)
    have hn : u + 1 - 5 = u - 5 + 1 := by omega
    have hcur : u - 3 - 1 = u - 5 + 1 := by omega
    have hprev : u - 3 - 2 = u - 5 := by omega
    rw [hcur, hprev] at hsum
    rw [hn]
    exact hfilled.shift (by omega) hsum
  · rw [if_neg (mt htwo.1 h2)]
    have hn : u + 1 - 5 = 0 := by omega
    rw [hn]
    exact fun p hp ↦ absurd hp (Nat.not_lt_zero p)

/-- What was shifted in is not touched outside the run state. -/
theorem Block.keep {softs : BitVec 864} {u : ℕ} {c' : NubCapture} (h : Block s base u softs c)
    (hu : 113 ≤ u) : Block s base (u + 1) softs c' := by
  have hfilled := h.filled (by omega)
  rw [min_eq_right (by omega)] at hfilled
  refine ⟨by omega, by omega, by omega, fun _ ↦ ?_⟩
  rw [min_eq_right (by omega)]
  exact hfilled

end NubCapture

end TetraPhy.Rx
