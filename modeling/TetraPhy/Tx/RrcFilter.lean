import Mathlib.Tactic.NormNum
import TetraPhy.Lib.Emission
import TetraPhy.Lib.Filter
import TetraPhy.Rx.BurstCapture

/-!
# The pulse shaping filter

`tetra_rrc_filter.v`: four samples for each symbol, from the last nine symbols and 33 weights, with
one multiplier for each rail.  A sample takes nine cycles, in which its products are added up.

`filters_stuffed` says what comes out if the symbols leave the filter 36 cycles each: the stream with
three zeros behind each symbol, filtered with all 33 weights, each value without its fraction.  The
accumulators never wrap, and there is nothing to clip.
-/

namespace TetraPhy.Tx

open TetraPhy.Rx (Iq IqIn mulS toInt_mulS)
open TetraPhy.Filter

/-! ## The weights and the rails -/

/-- `H00`, …, `H32`. -/
def rrcTaps : List (BitVec 16) :=
  [0x0011, 0x006D, 0x004E, 0xFFB2, 0xFF2F, 0xFF87, 0x00D2, 0x0217, 0x01D4, 0xFF4B, 0xFBAC, 0xF9F7,
    0xFD4A, 0x06A0, 0x1373, 0x1EA4, 0x2312, 0x1EA4, 0x1373, 0x06A0, 0xFD4A, 0xF9F7, 0xFBAC, 0xFF4B,
    0x01D4, 0x0217, 0x00D2, 0xFF87, 0xFF2F, 0xFFB2, 0x004E, 0x006D, 0x0011]

/-- The weights as integers. -/
def rrc (k : ℕ) : ℤ := (rrcTaps.getD k 0).toInt

theorem rrc_eq_zero {k : ℕ} (hk : 33 ≤ k) : rrc k = 0 := by
  rw [rrc, List.getD_eq_default _ _ hk]
  rfl

theorem abs_rrc_le (k : ℕ) : |rrc k| ≤ 8978 := by
  rcases Nat.lt_or_ge k 33 with hk | hk
  · revert k
    decide
  · rw [rrc_eq_zero hk]
    decide

/-- One of the two rails: the last samples, newest first, the accumulator and the output. -/
structure MacRail where
  shift : List (BitVec 16)
  acc : BitVec 38 := 0
  out : BitVec 16 := 0
deriving DecidableEq, Repr

namespace MacRail

variable (r : MacRail)

/-- `i_tap_sys`. -/
def tap (k : ℕ) : BitVec 16 := r.shift.getD k 0

/-- `i_prod_ext_sys`. -/
def prodExt (coeff : BitVec 16) (k : ℕ) : BitVec 38 := (mulS (r.tap k) coeff).signExtend 38

/-- `i_acc_next_sys`. -/
def accNext (coeff : BitVec 16) (k : ℕ) : BitVec 38 :=
  if k = 0 then r.prodExt coeff k else r.acc + r.prodExt coeff k

/-- `i_sat_sys`: the accumulator without its fraction. -/
def sat (acc : BitVec 38) : BitVec 16 := saturate 15 (acc.sshiftRight 14)

/-- The last `n` samples. -/
def lastOf (n : ℕ) (xs : List (BitVec 16)) : List (BitVec 16) :=
  (xs ++ List.replicate n 0).take n

theorem lastOf_cons (n : ℕ) (x : BitVec 16) (xs : List (BitVec 16)) :
    lastOf n (x :: xs) = (x :: lastOf n xs).take n := by
  cases n with
  | zero => rfl
  | succ n =>
      rw [lastOf, lastOf, List.cons_append, List.take_succ_cons, List.take_succ_cons, List.take_take]
      simp

theorem getD_lastOf {n k : ℕ} (hk : k < n) (xs : List (BitVec 16)) :
    (lastOf n xs).getD k 0 = xs.getD k 0 := by
  rw [lastOf, List.getD_eq_getElem?_getD, List.getD_eq_getElem?_getD, List.getElem?_take_of_lt hk]
  rcases Nat.lt_or_ge k xs.length with hlt | hge
  · rw [List.getElem?_append_left hlt]
  · rw [List.getElem?_append_right hge, List.getElem?_eq_none hge,
      List.getElem?_replicate]
    split <;> rfl

/-- The samples as integers. -/
def ints (xs : List (BitVec 16)) : List ℤ := xs.map BitVec.toInt

theorem getD_ints (xs : List (BitVec 16)) (k : ℕ) : (ints xs).getD k 0 = (xs.getD k 0).toInt := by
  rw [ints, List.getD_eq_getElem?_getD, List.getD_eq_getElem?_getD, List.getElem?_map]
  cases xs[k]? <;> rfl

theorem abs_le_of_mem_ints (xs : List (BitVec 16)) : ∀ x ∈ ints xs, |x| ≤ 32768 := by
  intro x hx
  obtain ⟨b, -, rfl⟩ := List.mem_map.1 hx
  have hlo := BitVec.le_toInt b
  have hhi := BitVec.toInt_lt (x := b)
  exact abs_le.2 ⟨by omega, by omega⟩

/-- No sum of products comes near the width of the accumulator. -/
theorem abs_mac_ints_lt {n : ℕ} (hn : n ≤ 33) (L p : ℕ) (xs : List (BitVec 16)) :
    |mac (phase rrc L p) (ints xs) n| < 2 ^ 34 := by
  have hsum : ∑ k ∈ Finset.range n, |phase rrc L p k| ≤ n * 8978 := by
    have h := Finset.sum_le_card_nsmul (Finset.range n) (fun k ↦ |phase rrc L p k|) 8978
      fun k _ ↦ abs_rrc_le _
    simpa using h
  have h := abs_mac_le (phase rrc L p) (by norm_num) (abs_le_of_mem_ints xs) n
  have hn' : (n : ℤ) ≤ 33 := by exact_mod_cast hn
  omega

variable {r}

/-- **A product more.**  The rail holds the sum of the first `k` products, if there are any. -/
theorem toInt_accNext {n L p k : ℕ} {xs : List (BitVec 16)} {coeff : BitVec 16}
    (hshift : r.shift = lastOf n xs) (hn : n ≤ 33) (hk : k < n)
    (hcoeff : coeff.toInt = phase rrc L p k)
    (hacc : k ≠ 0 → r.acc.toInt = mac (phase rrc L p) (ints xs) k) :
    (r.accNext coeff k).toInt = mac (phase rrc L p) (ints xs) (k + 1) := by
  have hprod : (r.prodExt coeff k).toInt = phase rrc L p k * (ints xs).getD k 0 := by
    rw [prodExt, BitVec.toInt_signExtend_of_le (by decide), toInt_mulS, tap, hshift,
      getD_lastOf hk, hcoeff, getD_ints, mul_comm]
  have hbound := abs_lt.1 (abs_mac_ints_lt (by omega : k + 1 ≤ 33) L p xs)
  rw [mac_succ] at hbound ⊢
  by_cases hzero : k = 0
  · subst hzero
    rw [accNext, if_pos rfl, hprod, mac, Finset.sum_range_zero, zero_add]
  · rw [accNext, if_neg hzero, BitVec.toInt_add, hprod, hacc hzero]
    exact Int.bmod_eq_of_le (by omega) (by omega)

/-- The output of a sum. -/
theorem toInt_sat (acc : BitVec 38) : (sat acc).toInt = clip 15 (acc.toInt / 2 ^ 14) := by
  rw [sat, toInt_saturate (by decide), BitVec.toInt_sshiftRight, Int.shiftRight_eq_div_pow]
  rfl

/-- A sum without its fraction, in 16 bits. -/
def shape (v : ℤ) : BitVec 16 := BitVec.ofInt 16 (clip 15 (v / 2 ^ 14))

theorem sat_eq (acc : BitVec 38) : sat acc = shape acc.toInt := by
  rw [shape, ← toInt_sat, BitVec.ofInt_toInt]

end MacRail

/-! ## The filter -/

/-- The registers, as reset leaves them. -/
structure RrcFilter where
  iRail : MacRail := { shift := List.replicate 9 0 }
  qRail : MacRail := { shift := List.replicate 9 0 }
  mac : Bool := false
  macTap : BitVec 4 := 0
  phaseCnt : BitVec 2 := 0
  sampleValidOut : Bool := false
deriving DecidableEq, Repr

namespace RrcFilter

/-- `coeff_sys`. -/
def coeff (phase tap : ℕ) : BitVec 16 := rrcTaps.getD (phase + 4 * tap) 0

variable (m : RrcFilter) (i : IqIn)

/-- `phase_done_w`. -/
def phaseDone : Bool := m.mac && m.macTap == 8

/-- A rail at a clock edge. -/
def stepRail (r : MacRail) (x : BitVec 16) : MacRail where
  shift := if i.valid then (x :: r.shift).take 9 else r.shift
  acc :=
    if m.mac then r.accNext (coeff m.phaseCnt.toNat m.macTap.toNat) m.macTap.toNat else r.acc
  out :=
    if m.phaseDone then
      MacRail.sat (r.accNext (coeff m.phaseCnt.toNat m.macTap.toNat) m.macTap.toNat)
    else r.out

/-- One clock edge. -/
def step : RrcFilter where
  iRail := m.stepRail i m.iRail i.iq.i
  qRail := m.stepRail i m.qRail i.iq.q
  mac := if m.mac then !(m.phaseCnt == 3 && m.macTap == 8) else i.valid
  macTap := if m.mac then if m.macTap = 8 then 0 else m.macTap + 1 else 0
  phaseCnt :=
    if m.mac && m.macTap == 8 then m.phaseCnt + 1 else if m.mac then m.phaseCnt else 0
  sampleValidOut := m.phaseDone

/-- What the output port shows. -/
def out : Option Iq := if m.sampleValidOut then some ⟨m.iRail.out, m.qRail.out⟩ else none

/-! ## A sample -/

theorem toInt_coeff (p k : ℕ) : (coeff p k).toInt = phase rrc 4 p k := rfl

/-- The sample of phase `p` behind the symbols `xs` of a rail. -/
def railSample (xs : List (BitVec 16)) (p : ℕ) : BitVec 16 :=
  MacRail.shape (fir (phase rrc 4 p) (MacRail.ints xs))

/-- A rail that has added up `k` products of phase `p`. -/
def RailAt (r : MacRail) (xs : List (BitVec 16)) (p k : ℕ) : Prop :=
  r.shift = MacRail.lastOf 9 xs ∧
    (k ≠ 0 → r.acc.toInt = Filter.mac (phase rrc 4 p) (MacRail.ints xs) k)

/-- The filter works at phase `p`, behind `k` products. -/
structure At (xs : List Iq) (p k : ℕ) (m : RrcFilter) : Prop where
  mac : m.mac = true
  macTap : m.macTap = BitVec.ofNat 4 k
  phaseCnt : m.phaseCnt = BitVec.ofNat 2 p
  iRail : RailAt m.iRail (xs.map Iq.i) p k
  qRail : RailAt m.qRail (xs.map Iq.q) p k

/-- The filter waits for a symbol. -/
structure Waits (xs : List Iq) (m : RrcFilter) : Prop where
  mac : m.mac = false
  iRail : m.iRail.shift = MacRail.lastOf 9 (xs.map Iq.i)
  qRail : m.qRail.shift = MacRail.lastOf 9 (xs.map Iq.q)

variable {m i} {xs : List Iq} {p k : ℕ}

theorem RailAt.toInt_accNext {r : MacRail} {ys : List (BitVec 16)} (h : RailAt r ys p k)
    (hk : k < 9) :
    (r.accNext (coeff p k) k).toInt = Filter.mac (phase rrc 4 p) (MacRail.ints ys) (k + 1) :=
  MacRail.toInt_accNext h.1 (by norm_num) hk (toInt_coeff p k) h.2

/-- A product more on a rail. -/
theorem At.stepRail {r : MacRail} {ys : List (BitVec 16)} (h : At xs p k m) (hp : p < 4)
    (hk : k < 8) (hi : i.valid = false) (hr : RailAt r ys p k) (x : BitVec 16) :
    RailAt (m.stepRail i r x) ys p (k + 1) := by
  have hk' : m.macTap.toNat = k := by rw [h.macTap, BitVec.toNat_ofNat]; omega
  have hp' : m.phaseCnt.toNat = p := by rw [h.phaseCnt, BitVec.toNat_ofNat]; omega
  refine ⟨?_, fun _ ↦ ?_⟩
  · rw [RrcFilter.stepRail, if_neg (by rw [hi]; decide)]
    exact hr.1
  · rw [RrcFilter.stepRail, if_pos h.mac, hk', hp']
    exact hr.toInt_accNext (by omega)

theorem At.macTap_toNat (h : At xs p k m) (hk : k < 9) : m.macTap.toNat = k := by
  rw [h.macTap, BitVec.toNat_ofNat]
  omega

/-- A product more. -/
theorem At.step (h : At xs p k m) (hp : p < 4) (hk : k < 8) (hi : i.valid = false) :
    At xs p (k + 1) (m.step i) ∧ (m.step i).out = none := by
  have hne : m.macTap ≠ 8#4 := by
    intro heq
    have hnat := h.macTap_toNat (by omega)
    rw [heq] at hnat
    simp at hnat
    omega
  refine ⟨⟨?_, ?_, ?_, h.stepRail hp hk hi h.iRail _, h.stepRail hp hk hi h.qRail _⟩, ?_⟩
  · simp [RrcFilter.step, h.mac, hne]
  · have hnext : (m.step i).macTap = m.macTap + 1 := by simp [RrcFilter.step, h.mac, hne]
    rw [hnext, h.macTap, BitVec.ofNat_add]
    rfl
  · simp [RrcFilter.step, h.mac, hne, h.phaseCnt]
  · simp [RrcFilter.out, RrcFilter.step, phaseDone, hne]

/-- The last product on a rail. -/
theorem RailAt.stepRail_out {r : MacRail} {ys : List (BitVec 16)} (h : At xs p 8 m) (hp : p < 4)
    (hr : RailAt r ys p 8) (x : BitVec 16) : (m.stepRail i r x).out = railSample ys p := by
  have hk' : m.macTap.toNat = 8 := h.macTap_toNat (by norm_num)
  have hp' : m.phaseCnt.toNat = p := by rw [h.phaseCnt, BitVec.toNat_ofNat]; omega
  have hdone : m.phaseDone = true := by rw [phaseDone, h.mac, h.macTap]; rfl
  have hweights : ∀ k, 9 ≤ k → phase rrc 4 p k = 0 := fun k hk ↦ rrc_eq_zero (by omega)
  rw [RrcFilter.stepRail, if_pos hdone, hk', hp', MacRail.sat_eq, hr.toInt_accNext (by norm_num),
    mac_eq_fir _ hweights]
  rfl

/-- The sample of a phase. -/
def sample (xs : List Iq) (p : ℕ) : Iq :=
  ⟨railSample (xs.map Iq.i) p, railSample (xs.map Iq.q) p⟩

/-- The last product: the sample comes out. -/
theorem At.done (h : At xs p 8 m) (hp : p < 4) (hi : i.valid = false) :
    (if p = 3 then Waits xs (m.step i) else At xs (p + 1) 0 (m.step i)) ∧
      (m.step i).out = some (sample xs p) := by
  have hdone : m.phaseDone = true := by rw [phaseDone, h.mac, h.macTap]; rfl
  have hshift : ∀ r x, (m.stepRail i r x).shift = r.shift := fun r x ↦ by
    rw [RrcFilter.stepRail, if_neg (by rw [hi]; decide)]
  refine ⟨?_, ?_⟩
  · split
    · rename_i hp3
      refine ⟨?_, (hshift _ _).trans h.iRail.1, (hshift _ _).trans h.qRail.1⟩
      simp [RrcFilter.step, h.mac, h.macTap, h.phaseCnt, hp3]
    · rename_i hp3
      have hne : BitVec.ofNat 2 p ≠ 3#2 := by
        intro heq
        have hnat := congrArg BitVec.toNat heq
        rw [BitVec.toNat_ofNat] at hnat
        simp at hnat
        omega
      refine ⟨?_, ?_, ?_, ⟨(hshift _ _).trans h.iRail.1, fun hz ↦ absurd rfl hz⟩,
        ⟨(hshift _ _).trans h.qRail.1, fun hz ↦ absurd rfl hz⟩⟩
      · simp [RrcFilter.step, h.mac, h.phaseCnt, hne]
      · simp [RrcFilter.step, h.mac, h.macTap]
      · simp [RrcFilter.step, h.mac, h.macTap, h.phaseCnt, BitVec.ofNat_add]
  · simp only [RrcFilter.out, RrcFilter.step, hdone, if_true, sample]
    rw [h.iRail.stepRail_out h hp, h.qRail.stepRail_out h hp]

/-! ## Runs -/

/-- The nine cycles of a phase. -/
theorem At.phase {es : List IqIn} (h : At xs p 0 m) (hp : p < 4) (hes : ∀ e ∈ es, e.valid = false)
    (hlen : es.length = 9) :
    Run.emitted RrcFilter.step out m es = [sample xs p] ∧
      (if p = 3 then Waits xs (Run.exec RrcFilter.step m es)
        else At xs (p + 1) 0 (Run.exec RrcFilter.step m es)) := by
  have hne : es ≠ [] := List.ne_nil_of_length_eq_add_one hlen
  rw [← List.dropLast_append_getLast hne] at hes ⊢
  have hlen' : es.dropLast.length = 8 := by rw [List.length_dropLast, hlen]
  generalize es.dropLast = fs at hes hlen' ⊢
  generalize es.getLast hne = e at hes ⊢
  rw [List.forall_mem_append, List.forall_mem_singleton] at hes
  have hproduct : ∀ n m (e : IqIn), e.valid = false → n + 1 ≤ 8 ∧ At xs p (8 - (n + 1)) m →
      (n ≤ 8 ∧ At xs p (8 - n) (m.step e)) ∧ (m.step e).out = none := by
    rintro n m e he ⟨hn, hm⟩
    obtain ⟨hstep, hout⟩ := hm.step hp (by omega) he
    rw [show 8 - (n + 1) + 1 = 8 - n by omega] at hstep
    exact ⟨⟨by omega, hstep⟩, hout⟩
  obtain ⟨hat, hsilent⟩ := Run.silent RrcFilter.step out
    (P := fun n m ↦ n ≤ 8 ∧ At xs p (8 - n) m) hproduct hes.1 (by rw [hlen']; exact ⟨le_rfl, h⟩)
  obtain ⟨hnext, hout⟩ := hat.2.done hp hes.2
  rw [Run.emitted_append, hsilent, Run.exec_append, Run.emitted, hout]
  exact ⟨rfl, hnext⟩

/-- All four phases. -/
theorem At.phases {es : List IqIn} (h : At xs p 0 m) (hp : p < 4)
    (hes : ∀ e ∈ es, e.valid = false) (hlen : es.length = 9 * (4 - p)) :
    Run.emitted RrcFilter.step out m es = (List.range' p (4 - p)).map (sample xs) ∧
      Waits xs (Run.exec RrcFilter.step m es) := by
  obtain ⟨d, hd⟩ : ∃ d, 4 - p = d + 1 := ⟨3 - p, by omega⟩
  induction d generalizing p m es with
  | zero =>
      obtain ⟨hout, hwaits⟩ := h.phase hp hes (by omega)
      rw [if_pos (by omega)] at hwaits
      rw [hout, hd]
      exact ⟨rfl, hwaits⟩
  | succ d ih =>
      have htake : (es.take 9).length = 9 := by rw [List.length_take]; omega
      have hdrop : (es.drop 9).length = 9 * (4 - (p + 1)) := by rw [List.length_drop]; omega
      obtain ⟨hout, hat⟩ := h.phase hp (fun e he ↦ hes e (List.mem_of_mem_take he)) htake
      rw [if_neg (by omega)] at hat
      obtain ⟨hrest, hwaits⟩ :=
        ih hat (by omega) (fun e he ↦ hes e (List.mem_of_mem_drop he)) hdrop (by omega)
      rw [← List.take_append_drop 9 es, Run.emitted_append, Run.exec_append, hout, hrest, hd,
        List.range'_succ, List.map_cons, show 4 - (p + 1) = d + 1 by omega]
      exact ⟨rfl, hwaits⟩

/-- The filter waits, and gives out nothing. -/
theorem Waits.rest {es : List IqIn} (h : Waits xs m) (hes : ∀ e ∈ es, e.valid = false) :
    Waits xs (Run.exec step m es) ∧ Run.emitted step out m es = [] := by
  refine Run.silent step out (P := fun _ m ↦ Waits xs m) (fun _ m e he hm ↦ ?_) hes h
  have hshift : ∀ r x, (m.stepRail e r x).shift = r.shift := fun r x ↦ by
    rw [RrcFilter.stepRail, if_neg (by rw [he]; decide)]
  refine ⟨⟨?_, (hshift _ _).trans hm.iRail, (hshift _ _).trans hm.qRail⟩, ?_⟩
  · simp [step, hm.mac, he]
  · simp [out, step, phaseDone, hm.mac]

/-- A symbol, and the cycles behind it. -/
structure Arrival where
  iq : Iq
  quiet : List IqIn

/-- No other symbol comes in its cycles, and there are enough of them. -/
structure Arrival.Spaced (a : Arrival) : Prop where
  quiet : ∀ e ∈ a.quiet, e.valid = false
  long : 36 ≤ a.quiet.length

/-- The cycles of a symbol. -/
def Arrival.cycles (a : Arrival) : List IqIn := ⟨a.iq, true⟩ :: a.quiet

/-- **A symbol brings the samples of the four phases.** -/
theorem Waits.symbol {a : Arrival} (h : Waits xs m) (ha : a.Spaced) :
    Run.emitted step out m a.cycles = (List.range 4).map (sample (a.iq :: xs)) ∧
      Waits (a.iq :: xs) (Run.exec step m a.cycles) := by
  have hat : At (a.iq :: xs) 0 0 (m.step ⟨a.iq, true⟩) := by
    refine ⟨?_, ?_, ?_, ⟨?_, fun hz ↦ absurd rfl hz⟩, ⟨?_, fun hz ↦ absurd rfl hz⟩⟩
    · simp [step, h.mac]
    · simp [step, h.mac]
    · simp [step, h.mac]
    · rw [List.map_cons, MacRail.lastOf_cons, ← h.iRail]
      rfl
    · rw [List.map_cons, MacRail.lastOf_cons, ← h.qRail]
      rfl
  have hout : (m.step ⟨a.iq, true⟩).out = none := by simp [out, step, phaseDone, h.mac]
  have htake : (a.quiet.take 36).length = 36 := by rw [List.length_take]; exact min_eq_left ha.long
  obtain ⟨hfour, hwaits⟩ :=
    hat.phases (by norm_num) (fun e he ↦ ha.quiet e (List.mem_of_mem_take he)) htake
  obtain ⟨hend, hsilent⟩ := hwaits.rest fun e he ↦ ha.quiet e (List.mem_of_mem_drop he)
  rw [Arrival.cycles, Run.emitted_cons_of_none hout, Run.exec_cons,
    ← List.take_append_drop 36 a.quiet, Run.emitted_append, Run.exec_append, hfour, hsilent]
  exact ⟨by simp [List.range_eq_range'], hend⟩

/-- **No sample is clipped.** -/
theorem toInt_railSample (ys : List (BitVec 16)) (hp : p < 4) :
    (railSample ys p).toInt = fir (Filter.phase rrc 4 p) (MacRail.ints ys) / 2 ^ 14 := by
  have hweights : ∀ k, 9 ≤ k → Filter.phase rrc 4 p k = 0 := fun k hk ↦ rrc_eq_zero (by omega)
  have hsum : ∀ p < 4, ∑ k ∈ Finset.range 9, |Filter.phase rrc 4 p k| ≤ 12750 := by decide
  have hbound := abs_mac_le (Filter.phase rrc 4 p) (by norm_num) (MacRail.abs_le_of_mem_ints ys) 9
  rw [mac_eq_fir _ hweights] at hbound
  obtain ⟨hlo, hhi⟩ := abs_le.1 hbound
  have hp' := hsum p hp
  have hlo' : -25500 ≤ fir (Filter.phase rrc 4 p) (MacRail.ints ys) / 2 ^ 14 := by omega
  have hhi' : fir (Filter.phase rrc 4 p) (MacRail.ints ys) / 2 ^ 14 ≤ 25500 := by omega
  rw [railSample, MacRail.shape, clip, max_eq_right (by omega), min_eq_right (by omega),
    BitVec.toInt_ofInt]
  exact Int.bmod_eq_of_le (by omega) (by omega)

/-- What a rail gives out for symbols, one after the other. -/
theorem Waits.symbols {as : List Arrival} (rail : Iq → BitVec 16)
    (hrail : ∀ xs p, rail (sample xs p) = railSample (xs.map rail) p) (h : Waits xs m)
    (has : ∀ a ∈ as, a.Spaced) :
    (Run.emitted step out m (as.flatMap Arrival.cycles)).map (fun s ↦ (rail s).toInt) =
      (takeTurns rrc 4 (MacRail.ints (xs.map rail)) (as.map fun a ↦ (rail a.iq).toInt)).map
        (· / 2 ^ 14) := by
  induction as generalizing xs m with
  | nil => rfl
  | cons a as ih =>
      rw [List.forall_mem_cons] at has
      obtain ⟨hout, hwaits⟩ := h.symbol has.1
      have hfour : (List.range 4).map (fun p ↦ (rail (sample (a.iq :: xs) p)).toInt) =
          (List.range 4).map fun p ↦
            fir (Filter.phase rrc 4 p) (MacRail.ints ((a.iq :: xs).map rail)) / 2 ^ 14 := by
        refine List.map_congr_left fun p hp ↦ ?_
        rw [hrail, toInt_railSample _ (List.mem_range.1 hp)]
      rw [List.flatMap_cons, Run.emitted_append, hout, List.map_append, ih hwaits has.2,
        List.map_cons (l := as), takeTurns, List.map_append, List.map_map, List.map_map]
      exact congrArg (· ++ _) hfour

theorem waits_reset : Waits [] {} := ⟨rfl, rfl, rfl⟩

/-- **The filter interpolates.**  What comes out on a rail is the stream of its symbols with three
zeros behind each, filtered with all the weights, without the fraction; nothing wraps and nothing is
clipped.  Symbols may come with any pauses, if each leaves the filter 36 cycles. -/
theorem filters_stuffed (as : List Arrival) (has : ∀ a ∈ as, a.Spaced) :
    (Run.emitted step out {} (as.flatMap Arrival.cycles)).map (fun s ↦ s.i.toInt) =
        (filtered rrc [] (stuff 4 (as.map fun a ↦ a.iq.i.toInt))).map (· / 2 ^ 14) ∧
      (Run.emitted step out {} (as.flatMap Arrival.cycles)).map (fun s ↦ s.q.toInt) =
        (filtered rrc [] (stuff 4 (as.map fun a ↦ a.iq.q.toInt))).map (· / 2 ^ 14) := by
  have hturns := filtered_stuff rrc (L := 4) (by norm_num) []
  rw [stuffPast_nil] at hturns
  rw [hturns, hturns]
  exact ⟨waits_reset.symbols Iq.i (fun _ _ ↦ rfl) has,
    waits_reset.symbols Iq.q (fun _ _ ↦ rfl) has⟩

/-- A symbol at full scale, and one behind it. -/
theorem filters_stuffed_two :
    (Run.emitted step out {} ([⟨⟨32767, 0⟩, List.replicate 36 {}⟩,
        ⟨⟨0, 32767⟩, List.replicate 40 {}⟩].flatMap Arrival.cycles)).map (fun s ↦ s.i.toInt) =
        (filtered rrc [] (stuff 4 [32767, 0])).map (· / 2 ^ 14) ∧
      (Run.emitted step out {} ([⟨⟨32767, 0⟩, List.replicate 36 {}⟩,
        ⟨⟨0, 32767⟩, List.replicate 40 {}⟩].flatMap Arrival.cycles)).map (fun s ↦ s.q.toInt) =
        (filtered rrc [] (stuff 4 [0, 32767])).map (· / 2 ^ 14) := by
  refine filters_stuffed [⟨⟨32767, 0⟩, List.replicate 36 {}⟩, ⟨⟨0, 32767⟩, List.replicate 40 {}⟩] ?_
  intro a ha
  have hquiet : ∀ n, ∀ e ∈ List.replicate n ({} : IqIn), e.valid = false :=
    fun n e he ↦ by rw [List.eq_of_mem_replicate he]
  rcases List.mem_pair.1 ha with rfl | rfl
  · exact ⟨hquiet 36, by simp⟩
  · exact ⟨hquiet 40, by simp⟩

end RrcFilter

end TetraPhy.Tx
