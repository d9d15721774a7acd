import Mathlib.Data.Nat.Nth
import TetraPhy.Tx.RrcFilter
import TetraPhy.Tx.TxFrontend

/-!
# The receive front end

`tetra_rx_frontend.v`: words out of a FIFO whenever there is one, five integrators at their rate, one
in 64 of what the last of these holds, five combs, the gain, and the matched filter with one
multiplier for each rail, which takes 33 cycles for a sample.

`decimates` says what comes out, and when, for every pattern in which the FIFO has words: each 64th
word brings a sample, 38 cycles behind it, and this is the words smoothed by five windows of 64, with
the gain, and filtered with all the weights.  There are at least 64 cycles between two samples, so
the filter is never asked for one while it works on another.
-/

namespace TetraPhy.Rx

open TetraPhy.Tx (FifoIn MacRail rrc rrcTaps rrc_eq_zero)
open TetraPhy.Filter
open TetraPhy.IntegratorComb
open TetraPhy.Run (Ago Due ago_succ count_sub_succ count_sub_succ_div)

/-- The inputs of a cycle. -/
structure RxIn where
  fifo : FifoIn := {}
  loopbackEn : Bool := false
deriving DecidableEq, Repr

/-- `fifo_rd_en_sys`. -/
def RxIn.fifoRdEn (i : RxIn) : Bool := !i.fifo.empty && !i.fifo.rdRstBusy

/-! ## The decimator -/

/-- The registers of a rail: the integrators `int1`, …, `int5`, what the combs keep, `comb1_z1`, …,
`comb5_z1`, and `cic_out`. -/
structure DecRail where
  int : List (BitVec 46) := List.replicate 5 0
  comb : List (BitVec 46) := List.replicate 5 0
  out : BitVec 16 := 0
deriving DecidableEq, Repr

namespace DecRail

variable (r : DecRail)

/-- `i_int5_sys`. -/
def int5 : BitVec 46 := r.int.getD 4 0

/-- `i_cic_wide_sys`: the bits from 26 up. -/
def cicWide (comb5 : BitVec 46) : BitVec 20 := comb5.extractLsb' 26 20

/-- `i_cic_unity_sys`: the bits from 30 up. -/
def cicUnity (comb5 : BitVec 46) : BitVec 16 := comb5.extractLsb' 30 16

/-- `i_pos_ovf`. -/
def posOvf (v : BitVec 20) : Bool := !v.msb && v.extractLsb' 15 4 != 0

/-- `i_neg_ovf`. -/
def negOvf (v : BitVec 20) : Bool := v.msb && v.extractLsb' 15 4 != BitVec.allOnes 4

/-- `i_cic_gained`. -/
def cicGained (v : BitVec 20) : BitVec 16 :=
  if posOvf v then BitVec.intMax 16 else if negOvf v then BitVec.intMin 16 else v.setWidth 16

/-- `i_cic_sat`. -/
def cicSat (loopback : Bool) (comb5 : BitVec 46) : BitVec 16 :=
  if loopback then cicUnity comb5 else cicGained (cicWide comb5)

/-- The two checks together are the one of the upper bits. -/
theorem cicGained_eq (v : BitVec 20) : cicGained v = saturate 15 v := by
  -- above the output there are five bits
  have hpos : ∀ b : BitVec 5, (!b.msb && b.extractLsb' 0 4 != 0) =
      (!b.msb && (b != BitVec.allOnes 5 && b != 0)) := by decide
  have hneg : ∀ b : BitVec 5, (b.msb && b.extractLsb' 0 4 != BitVec.allOnes 4) =
      (b.msb && (b != BitVec.allOnes 5 && b != 0)) := by decide
  have htop : v.msb = (v.extractLsb' 15 5).msb := by
    rw [BitVec.msb_eq_getLsbD_last, BitVec.msb_eq_getLsbD_last, BitVec.getLsbD_extractLsb']
    rfl
  have hlow : v.extractLsb' 15 4 = (v.extractLsb' 15 5).extractLsb' 0 4 := by
    ext k hk
    rw [← BitVec.getLsbD_eq_getElem, ← BitVec.getLsbD_eq_getElem, BitVec.getLsbD_extractLsb',
      BitVec.getLsbD_extractLsb', BitVec.getLsbD_extractLsb', Nat.zero_add]
    simp [hk, Nat.lt_succ_of_lt hk]
  have hover : overflows 15 v =
      (v.extractLsb' 15 5 != BitVec.allOnes 5 && v.extractLsb' 15 5 != 0) := rfl
  rw [cicGained, posOvf, negOvf, saturate, hover, hlow, htop, hpos, hneg]
  cases (v.extractLsb' 15 5).msb <;>
    cases v.extractLsb' 15 5 != BitVec.allOnes 5 && v.extractLsb' 15 5 != 0 <;> simp

end DecRail

/-! ## The front end -/

/-- The registers, as reset leaves them. -/
structure RxFrontend where
  rdEnD1 : Bool := false
  fifo : Iq := ⟨0, 0⟩
  inValid : Bool := false
  decCnt : BitVec 6 := 0
  cicStrobe : Bool := false
  cicValid : Bool := false
  iDec : DecRail := {}
  qDec : DecRail := {}
  mac : Bool := false
  macCnt : BitVec 6 := 0
  macDone : Bool := false
  iMac : MacRail := { shift := List.replicate 33 0 }
  qMac : MacRail := { shift := List.replicate 33 0 }
  outValid : Bool := false
deriving DecidableEq, Repr

namespace RxFrontend

/-- `coeff_sys`. -/
def coeff (cnt : ℕ) : BitVec 16 := rrcTaps.getD cnt 0

variable (m : RxFrontend) (i : RxIn)

/-- The decimator of a rail at a clock edge. -/
def stepDec (r : DecRail) (x : BitVec 16) : DecRail where
  int := if m.inValid then integrate r.int (x.signExtend 46) else r.int
  comb := if m.cicStrobe then (combs r.comb r.int5).1 else r.comb
  out := if m.cicStrobe then DecRail.cicSat i.loopbackEn (combs r.comb r.int5).2 else r.out

/-- The filter of a rail at a clock edge. -/
def stepMac (r : MacRail) (x : BitVec 16) : MacRail where
  shift := if m.cicValid then (x :: r.shift).take 33 else r.shift
  acc := if m.mac then r.accNext (coeff m.macCnt.toNat) m.macCnt.toNat else r.acc
  out := if m.macDone then MacRail.sat r.acc else r.out

/-- One clock edge. -/
def step : RxFrontend where
  rdEnD1 := i.fifoRdEn && !i.fifo.rdRstBusy
  fifo := if m.rdEnD1 then i.fifo.iq else m.fifo
  inValid := m.rdEnD1
  decCnt := if m.inValid then if m.decCnt = 63 then 0 else m.decCnt + 1 else m.decCnt
  cicStrobe := m.inValid && m.decCnt == 63
  cicValid := m.cicStrobe
  iDec := m.stepDec i m.iDec m.fifo.i
  qDec := m.stepDec i m.qDec m.fifo.q
  mac := if m.mac then m.macCnt != 32 else m.cicValid
  macCnt := if m.mac then m.macCnt + 1 else 0
  macDone := m.mac && m.macCnt == 32
  iMac := m.stepMac m.iMac m.iDec.out
  qMac := m.stepMac m.qMac m.qDec.out
  outValid := m.macDone

/-- What the output port shows. -/
def out : Option Iq := if m.outValid then some ⟨m.iMac.out, m.qMac.out⟩ else none

/-! ## What it is to compute -/

section Spec

variable (f : ℕ → RxIn)

/-- A word is read in the cycle. -/
def Reads (t : ℕ) : Prop := (f t).fifoRdEn = true

instance decidableReads : DecidablePred (Reads f) := fun _ ↦ inferInstanceAs (Decidable (_ = _))

/-- The words, which the FIFO shows in the cycle after. -/
noncomputable def word (n : ℕ) : Iq := (f (Nat.nth (Reads f) n + 1)).fifo.iq

/-- Whether the `j`-th sample has the gain of the loopback. -/
noncomputable def loopback (j : ℕ) : Bool := (f (Nat.nth (Reads f) (64 * j + 63) + 3)).loopbackEn

/-- Five windows of 64 over a rail, as far as each 64th word. -/
def windows (x : ℕ → ℤ) (j : ℕ) : ℤ := (IntegratorComb.window 64)^[5] x (64 * (j + 1))

/-- The gain: that of the windows is taken back, and behind the antenna by a factor 16 less. -/
def gained (loopback : Bool) (v : ℤ) : ℤ := if loopback then v / 2 ^ 30 else clip 15 (v / 2 ^ 26)

/-- The sample `j` of a rail, before the matched filter. -/
noncomputable def decimated (rail : Iq → BitVec 16) (j : ℕ) : ℤ :=
  gained (loopback f j) (windows (fun n ↦ (rail (word f n)).toInt) j)

end Spec

/-! ## The decimator of a rail -/

section Dec

variable (x : ℕ → BitVec 16)

/-- The words of a rail in the width of the decimator, `i_ext_sys`. -/
def ext (n : ℕ) : BitVec 46 := (x n).signExtend 46

/-- What the combs see. -/
def low : ℕ → BitVec 46 := decimate 64 (sum^[5] (ext x))

/-- What comes out of the combs. -/
def comb5 (j : ℕ) : BitVec 46 := (diff 1)^[5] (low x) (j + 1)

/-- **The integrators may wrap**: behind the combs there are the windows. -/
theorem toInt_comb5 (j : ℕ) : (comb5 x j).toInt = windows (fun n ↦ (x n).toInt) j := by
  have hx : ∀ n, -2 ^ 15 ≤ (x n).toInt ∧ (x n).toInt ≤ 2 ^ 15 - 1 := fun n ↦
    ⟨BitVec.le_toInt _, Int.le_sub_one_of_lt BitVec.toInt_lt⟩
  have hext : ext x = fun n ↦ IntegratorComb.word 46 (x n).toInt := rfl
  rw [comb5, low, diff_decimate_sum, decimate, hext, windows]
  exact toInt_window_iterate (w := 45) (by norm_num) (by norm_num) hx (by norm_num) (by norm_num) _

theorem toInt_cicSat (loopback : Bool) (c : BitVec 46) :
    (DecRail.cicSat loopback c).toInt = gained loopback c.toInt := by
  cases loopback with
  | true =>
      rw [DecRail.cicSat, if_pos rfl, gained, if_pos rfl]
      exact toInt_extractLsb'_top (n := 30) (by decide) c
  | false =>
      have hwide : (DecRail.cicWide c).toInt = c.toInt / 2 ^ 26 :=
        toInt_extractLsb'_top (n := 26) (by decide) c
      rw [DecRail.cicSat, if_neg Bool.false_ne_true, gained, if_neg Bool.false_ne_true,
        DecRail.cicGained_eq, toInt_saturate (by decide), hwide]

end Dec

variable {m} {i} {p : ℕ → Prop} [DecidablePred p] {t : ℕ}

/-- The decimator of a rail before cycle `t`, if words are read in the cycles of `p`. -/
structure DecAt (p : ℕ → Prop) [DecidablePred p] (x : ℕ → BitVec 16) (lb : ℕ → Bool) (t : ℕ)
    (r : DecRail) : Prop where
  int : r.int = sums 5 (ext x) (Nat.count p (t - 2))
  comb : r.comb = delays 5 (low x) (Nat.count p (t - 3) / 64 + 1)
  out : Ago (Due p 64) 4 t → r.out =
    DecRail.cicSat (lb (Nat.count p (t - 4) / 64)) (comb5 x (Nat.count p (t - 4) / 64))

theorem low_zero (x : ℕ → BitVec 16) : low x 0 = 0 := by
  rw [low, decimate, Nat.mul_zero, Function.iterate_succ_apply', sum_zero]

theorem decAt_reset (x : ℕ → BitVec 16) (lb : ℕ → Bool) : DecAt p x lb 0 {} where
  int := by rw [Nat.zero_sub, Nat.count_zero, sums_zero_right]
  comb := by rw [Nat.zero_sub, Nat.count_zero, Nat.zero_div, Nat.zero_add, delays_one (low_zero x)]
  out := fun h ↦ absurd h Run.not_ago_zero

theorem DecAt.stepDec {x : ℕ → BitVec 16} {lb : ℕ → Bool} {r : DecRail} (h : DecAt p x lb t r)
    (hv : m.inValid = decide (Ago p 2 t)) (hs : m.cicStrobe = decide (Ago (Due p 64) 3 t))
    {w : BitVec 16} (hw : Ago p 2 t → w = x (Nat.count p (t - 2)))
    (hlb : Ago (Due p 64) 3 t → i.loopbackEn = lb (Nat.count p (t - 3) / 64)) :
    DecAt p x lb (t + 1) (m.stepDec i r w) := by
  -- at a strobe the last integrator holds the next value of the low rate
  have hint5 : Ago (Due p 64) 3 t → r.int5 = low x (Nat.count p (t - 3) / 64 + 1) := fun hd ↦ by
    have hago : Ago p 3 t := ⟨hd.1, hd.2.1⟩
    have hcount : Nat.count p (t - 2) = 64 * (Nat.count p (t - 3) / 64 + 1) := by
      have hnext := count_sub_succ (p := p) 3 (t := t)
      rw [if_pos hago, show t + 1 - 3 = t - 2 by have := hd.1; omega] at hnext
      have hlast := hd.2.2
      omega
    rw [DecRail.int5, h.int, getD_sums (by norm_num), low, decimate, hcount]
  have hcombs : Ago (Due p 64) 3 t → combs r.comb r.int5 =
      (delays 5 (low x) (Nat.count p (t - 3) / 64 + 1 + 1), comb5 x (Nat.count p (t - 3) / 64)) :=
    fun hd ↦ by rw [h.comb, hint5 hd, combs_delays, comb5]
  have hrounds := count_sub_succ_div (p := p) (R := 64) (by norm_num) 3 t
  refine ⟨?_, ?_, fun hnext ↦ ?_⟩ <;>
    simp only [RxFrontend.stepDec, hv, hs, decide_eq_true_eq]
  · rw [count_sub_succ]
    split
    · rename_i hago
      rw [h.int, hw hago]
      exact integrate_sums 5 (ext x) _
    · exact h.int
  · rw [hrounds]
    split
    · rename_i hd
      rw [hcombs hd]
    · exact h.comb
  · have hd := ago_succ.1 hnext
    rw [if_pos hd, hcombs hd, hlb hd, Nat.add_sub_add_right]

/-! ## The filter of a rail -/

/-- The first samples, newest first. -/
def newest (c : ℕ → BitVec 16) (n : ℕ) : List (BitVec 16) := ((List.range n).map c).reverse

theorem newest_succ (c : ℕ → BitVec 16) (n : ℕ) : newest c (n + 1) = c n :: newest c n := by
  rw [newest, List.range_succ, List.map_append, List.reverse_append]
  rfl

/-- The output `j` of a rail. -/
def railOut (c : ℕ → BitVec 16) (j : ℕ) : BitVec 16 :=
  MacRail.shape (fir rrc (MacRail.ints (newest c (j + 1))))

/-- The filter of a rail before cycle `t`.  It has `k` products, `k + 5` cycles behind the word that
asked for them. -/
structure MacAt (p : ℕ → Prop) [DecidablePred p] (c : ℕ → BitVec 16) (t : ℕ) (r : MacRail) :
    Prop where
  shift : r.shift = MacRail.lastOf 33 (newest c (Nat.count p (t - 4) / 64))
  acc : ∀ k, k ≠ 0 → k ≤ 33 → Ago (Due p 64) (k + 5) t →
    r.acc.toInt = Filter.mac (phase rrc 1 0) (MacRail.ints (newest c (Nat.count p (t - 4) / 64))) k
  out : Ago (Due p 64) 39 t → r.out = railOut c (Nat.count p (t - 39) / 64)

theorem macAt_reset (c : ℕ → BitVec 16) :
    MacAt p c 0 { shift := List.replicate 33 0 } where
  shift := by
    rw [Nat.zero_sub, Nat.count_zero]
    rfl
  acc := fun _ _ _ h ↦ absurd h Run.not_ago_zero
  out := fun h ↦ absurd h Run.not_ago_zero

theorem toInt_coeff (k : ℕ) : (coeff k).toInt = phase rrc 1 0 k := by
  rw [phase, Nat.one_mul, Nat.zero_add]
  rfl

theorem MacAt.stepMac {c : ℕ → BitVec 16} {r : MacRail} (h : MacAt p c t r)
    (hv : m.cicValid = decide (Ago (Due p 64) 4 t))
    (hm : ∀ k < 33, Ago (Due p 64) (k + 5) t → m.mac = true ∧ m.macCnt.toNat = k)
    (hd : m.macDone = decide (Ago (Due p 64) 38 t)) {w : BitVec 16}
    (hw : Ago (Due p 64) 4 t → w = c (Nat.count p (t - 4) / 64)) :
    MacAt p c (t + 1) (m.stepMac r w) := by
  have hrounds := count_sub_succ_div (p := p) (R := 64) (by norm_num) 4 t
  refine ⟨?_, fun k hk hle hago ↦ ?_, fun hago ↦ ?_⟩
  · simp only [RxFrontend.stepMac, hv, decide_eq_true_eq]
    rw [hrounds]
    split
    · rename_i hvalid
      rw [hw hvalid, newest_succ, MacRail.lastOf_cons, h.shift]
    · exact h.shift
  · obtain ⟨k, rfl⟩ := Nat.exists_eq_succ_of_ne_zero hk
    have hago' : Ago (Due p 64) (k + 5) t := ago_succ.1 hago
    obtain ⟨hmac, hcnt⟩ := hm k (by omega) hago'
    -- no sample comes while the filter works on another
    have hno : ¬Ago (Due p 64) 4 t := fun h4 ↦ Due.not_ago h4 (by omega) (by omega) hago'
    rw [if_neg hno, Nat.add_zero] at hrounds
    rw [RxFrontend.stepMac, if_pos hmac, hcnt, hrounds]
    exact MacRail.toInt_accNext h.shift le_rfl (by omega) (toInt_coeff k) fun hk0 ↦
      h.acc k hk0 (by omega) hago'
  · have hago' : Ago (Due p 64) (33 + 5) t := ago_succ.1 hago
    have hcount : Nat.count p (t - 4) / 64 = Nat.count p (t - 38) / 64 + 1 := by
      have hle := hago'.1
      exact hago'.2.count_div (by omega) (by omega)
    have hfir : phase rrc 1 0 = rrc := by
      funext k
      rw [phase, Nat.one_mul, Nat.zero_add]
    have hacc := h.acc 33 (by norm_num) le_rfl hago'
    rw [hfir, mac_eq_fir _ fun k ↦ rrc_eq_zero, hcount] at hacc
    rw [RxFrontend.stepMac, hd, if_pos (decide_eq_true hago'), MacRail.sat_eq, hacc, railOut,
      Nat.add_sub_add_right]

/-! ## Runs -/

section Run

variable {f : ℕ → RxIn}

theorem word_count (h : Reads f t) : word f (Nat.count (Reads f) t) = (f (t + 1)).fifo.iq := by
  rw [word, Nat.nth_count h]

theorem loopback_count (h : Due (Reads f) 64 t) :
    loopback f (Nat.count (Reads f) t / 64) = (f (t + 3)).loopbackEn := by
  have hlast : 64 * (Nat.count (Reads f) t / 64) + 63 = Nat.count (Reads f) t := by
    have hmod := h.2
    omega
  rw [loopback, hlast, Nat.nth_count h.1]

/-- The words of a rail. -/
noncomputable def railWord (f : ℕ → RxIn) (rail : Iq → BitVec 16) (n : ℕ) : BitVec 16 :=
  rail (word f n)

/-- The samples of a rail, before the matched filter. -/
noncomputable def railDec (f : ℕ → RxIn) (rail : Iq → BitVec 16) (j : ℕ) : BitVec 16 :=
  DecRail.cicSat (loopback f j) (comb5 (railWord f rail) j)

theorem toInt_railDec (f : ℕ → RxIn) (rail : Iq → BitVec 16) (j : ℕ) :
    (railDec f rail j).toInt = decimated f rail j := by
  rw [railDec, toInt_cicSat, toInt_comb5]
  rfl

/-- The front end before cycle `t`: each register is as many cycles behind the FIFO as its place in
the chain says. -/
structure At (f : ℕ → RxIn) (t : ℕ) (m : RxFrontend) : Prop where
  rdEnD1 : m.rdEnD1 = decide (Ago (Reads f) 1 t)
  fifo : Ago (Reads f) 2 t → m.fifo = word f (Nat.count (Reads f) (t - 2))
  inValid : m.inValid = decide (Ago (Reads f) 2 t)
  decCnt : m.decCnt = BitVec.ofNat 6 (Nat.count (Reads f) (t - 2))
  cicStrobe : m.cicStrobe = decide (Ago (Due (Reads f) 64) 3 t)
  cicValid : m.cicValid = decide (Ago (Due (Reads f) 64) 4 t)
  iDec : DecAt (Reads f) (railWord f Iq.i) (loopback f) t m.iDec
  qDec : DecAt (Reads f) (railWord f Iq.q) (loopback f) t m.qDec
  macOn : ∀ k < 33, Ago (Due (Reads f) 64) (k + 5) t → m.mac = true ∧ m.macCnt = BitVec.ofNat 6 k
  macOff : (∀ k < 33, ¬Ago (Due (Reads f) 64) (k + 5) t) → m.mac = false
  macDone : m.macDone = decide (Ago (Due (Reads f) 64) 38 t)
  iMac : MacAt (Reads f) (railDec f Iq.i) t m.iMac
  qMac : MacAt (Reads f) (railDec f Iq.q) t m.qMac
  outValid : m.outValid = decide (Ago (Due (Reads f) 64) 39 t)

theorem at_reset (f : ℕ → RxIn) : At f 0 {} where
  rdEnD1 := (decide_eq_false Run.not_ago_zero).symm
  fifo := fun h ↦ absurd h Run.not_ago_zero
  inValid := (decide_eq_false Run.not_ago_zero).symm
  decCnt := by
    rw [Nat.zero_sub, Nat.count_zero]
    rfl
  cicStrobe := (decide_eq_false Run.not_ago_zero).symm
  cicValid := (decide_eq_false Run.not_ago_zero).symm
  iDec := decAt_reset _ _
  qDec := decAt_reset _ _
  macOn := fun _ _ h ↦ absurd h Run.not_ago_zero
  macOff := fun _ ↦ rfl
  macDone := (decide_eq_false Run.not_ago_zero).symm
  iMac := macAt_reset _
  qMac := macAt_reset _
  outValid := (decide_eq_false Run.not_ago_zero).symm

variable (h : At f t m)
include h

theorem At.decCnt_eq_iff : m.decCnt = 63 ↔ Nat.count (Reads f) (t - 2) % 64 = 63 := by
  rw [h.decCnt, ← BitVec.toNat_inj, BitVec.toNat_ofNat]
  rfl

theorem At.macCnt_toNat {k : ℕ} (hk : k < 33) (hago : Ago (Due (Reads f) 64) (k + 5) t) :
    m.mac = true ∧ m.macCnt.toNat = k := by
  obtain ⟨hmac, hcnt⟩ := h.macOn k hk hago
  rw [hcnt, BitVec.toNat_ofNat]
  exact ⟨hmac, Nat.mod_eq_of_lt (by omega)⟩

/-- The strobe. -/
theorem At.strobe_iff :
    (m.inValid && m.decCnt == 63) = decide (Ago (Due (Reads f) 64) 2 t) := by
  rw [h.inValid, Bool.eq_iff_iff, Bool.and_eq_true, decide_eq_true_iff, beq_iff_eq,
    h.decCnt_eq_iff, decide_eq_true_iff]
  constructor
  · rintro ⟨hago, hlast⟩
    exact ⟨hago.1, hago.2, by rw [hlast]⟩
  · rintro hd
    exact ⟨⟨hd.1, hd.2.1⟩, Nat.succ.inj hd.2.2⟩

theorem At.exists_of_mac (hmac : m.mac = true) :
    ∃ k < 33, Ago (Due (Reads f) 64) (k + 5) t := by
  by_contra hall
  push Not at hall
  rw [h.macOff hall] at hmac
  exact Bool.false_ne_true hmac

/-- The filter works for 33 cycles. -/
theorem At.done_iff : (m.mac && m.macCnt == 32) = decide (Ago (Due (Reads f) 64) 37 t) := by
  rw [Bool.eq_iff_iff, Bool.and_eq_true, beq_iff_eq, decide_eq_true_iff]
  constructor
  · rintro ⟨hmac, hcnt⟩
    obtain ⟨k, hk, hago⟩ := h.exists_of_mac hmac
    have hk' := (h.macCnt_toNat hk hago).2
    rw [hcnt] at hk'
    obtain rfl : 32 = k := hk'
    exact hago
  · exact fun hago ↦ h.macOn 32 (by norm_num) hago

theorem At.step_decCnt :
    (m.step (f t)).decCnt = BitVec.ofNat 6 (Nat.count (Reads f) (t + 1 - 2)) := by
  have hwrap : (if m.decCnt = 63 then 0 else m.decCnt + 1) = m.decCnt + 1 := by
    split
    · rename_i hlast
      rw [hlast]
      rfl
    · rfl
  rw [RxFrontend.step, hwrap, h.inValid, count_sub_succ]
  simp only [decide_eq_true_eq]
  split
  · rw [h.decCnt, BitVec.ofNat_add]
    rfl
  · exact h.decCnt

theorem At.step_macOn {k : ℕ} (hk : k < 33) (hago : Ago (Due (Reads f) 64) (k + 5) (t + 1)) :
    (m.step (f t)).mac = true ∧ (m.step (f t)).macCnt = BitVec.ofNat 6 k := by
  have hprev : Ago (Due (Reads f) 64) (k + 4) t := ago_succ.1 hago
  cases k with
  | zero =>
      have hoff : m.mac = false :=
        h.macOff fun k hk ↦ Due.not_ago hprev (by omega) (by omega)
      simp only [RxFrontend.step, hoff, h.cicValid, Bool.false_eq_true, if_false]
      exact ⟨decide_eq_true hprev, rfl⟩
  | succ k =>
      obtain ⟨hmac, hcnt⟩ := h.macOn k (by omega) hprev
      have hne : BitVec.ofNat 6 k ≠ 32#6 := by
        intro heq
        have hnat := congrArg BitVec.toNat heq
        rw [BitVec.toNat_ofNat, BitVec.toNat_ofNat] at hnat
        omega
      simp only [RxFrontend.step, hmac, hcnt, if_true, bne_iff_ne]
      exact ⟨hne, (BitVec.ofNat_add k 1).symm⟩

theorem At.step_macOff (hall : ∀ k < 33, ¬Ago (Due (Reads f) 64) (k + 5) (t + 1)) :
    (m.step (f t)).mac = false := by
  cases hmac : m.mac with
  | false =>
      have hno : ¬Ago (Due (Reads f) 64) 4 t := fun h4 ↦ hall 0 (by norm_num) (ago_succ.2 h4)
      simp [RxFrontend.step, hmac, h.cicValid, hno]
  | true =>
      obtain ⟨k, hk, hago⟩ := h.exists_of_mac hmac
      obtain rfl : k = 32 := by
        by_contra hne
        exact hall (k + 1) (by omega) (ago_succ.2 hago)
      have hcnt := (h.macOn 32 hk hago).2
      simp [RxFrontend.step, hmac, hcnt]

/-- **A cycle more.** -/
theorem At.step : At f (t + 1) (m.step (f t)) := by
  have hword : ∀ rail : Iq → BitVec 16, Ago (Reads f) 2 t →
      rail m.fifo = railWord f rail (Nat.count (Reads f) (t - 2)) :=
    fun rail hago ↦ by rw [h.fifo hago, railWord]
  have hlb : Ago (Due (Reads f) 64) 3 t →
      (f t).loopbackEn = loopback f (Nat.count (Reads f) (t - 3) / 64) := fun hd ↦ by
    rw [loopback_count hd.2, Nat.sub_add_cancel hd.1]
  have hmac : ∀ k < 33, Ago (Due (Reads f) 64) (k + 5) t → m.mac = true ∧ m.macCnt.toNat = k :=
    fun k hk hago ↦ h.macCnt_toNat hk hago
  have hdec := h.iDec.out
  have hdec' := h.qDec.out
  refine ⟨?_, ?_, ?_, h.step_decCnt, ?_, ?_,
    h.iDec.stepDec h.inValid h.cicStrobe (hword Iq.i) hlb,
    h.qDec.stepDec h.inValid h.cicStrobe (hword Iq.q) hlb,
    fun _ hk hago ↦ h.step_macOn hk hago, h.step_macOff, ?_,
    h.iMac.stepMac h.cicValid hmac h.macDone hdec,
    h.qMac.stepMac h.cicValid hmac h.macDone hdec', ?_⟩
  · rw [RxFrontend.step, Bool.eq_iff_iff, decide_eq_true_iff, ago_succ, Run.ago_zero, Reads]
    cases hbusy : (f t).fifo.rdRstBusy <;> simp [RxIn.fifoRdEn, hbusy]
  · intro hago
    have hago' := ago_succ.1 hago
    rw [RxFrontend.step, h.rdEnD1, if_pos (decide_eq_true hago'), Nat.add_sub_add_right,
      word_count hago'.2, Nat.sub_add_cancel hago'.1]
  · rw [RxFrontend.step, h.rdEnD1]
    exact decide_eq_decide.2 ago_succ.symm
  · rw [RxFrontend.step, h.strobe_iff]
    exact decide_eq_decide.2 ago_succ.symm
  · rw [RxFrontend.step, h.cicStrobe]
    exact decide_eq_decide.2 ago_succ.symm
  · rw [RxFrontend.step, h.done_iff]
    exact decide_eq_decide.2 ago_succ.symm
  · rw [RxFrontend.step, h.macDone]
    exact decide_eq_decide.2 ago_succ.symm

omit h

theorem toInt_shape (v : ℤ) : (MacRail.shape v).toInt = clip 15 (v / 2 ^ 14) := by
  rw [MacRail.shape, BitVec.toInt_ofInt]
  generalize v / 2 ^ 14 = u
  exact Int.bmod_eq_of_le (by rw [clip]; omega) (by rw [clip]; omega)

/-- What a rail gives out. -/
theorem map_railOut (f : ℕ → RxIn) (rail : Iq → BitVec 16) (n : ℕ) :
    (List.range n).map (fun j ↦ (railOut (railDec f rail) j).toInt) =
      (filtered rrc [] ((List.range n).map (decimated f rail))).map fun v ↦ clip 15 (v / 2 ^ 14) := by
  have hints : ∀ n, MacRail.ints (newest (railDec f rail) n) =
      ((List.range n).map (decimated f rail)).reverse := fun n ↦ by
    rw [MacRail.ints, newest, ← List.map_reverse, List.map_map, ← List.map_reverse]
    exact List.map_congr_left fun j _ ↦ toInt_railDec f rail j
  induction n with
  | zero => rfl
  | succ n ih =>
      rw [List.range_succ, List.map_append, ih, List.map_append, filtered_append, List.map_append,
        List.append_nil, List.map_singleton, List.map_singleton, filtered, filtered,
        List.map_singleton, railOut, toInt_shape, newest_succ, MacRail.ints, List.map_cons,
        toInt_railDec, ← hints]
      rfl

/-- The sample `j`. -/
noncomputable def sample (f : ℕ → RxIn) (j : ℕ) : Iq :=
  ⟨railOut (railDec f Iq.i) j, railOut (railDec f Iq.q) j⟩

/-- The output registers, with the strobe. -/
def shows (m : RxFrontend) : IqIn := ⟨⟨m.iMac.out, m.qMac.out⟩, m.outValid⟩

theorem At.shows_valid (h : At f t m) : m.shows.valid = decide (Ago (Due (Reads f) 64) 39 t) :=
  h.outValid

theorem At.shows_iq (h : At f t m) (hago : Ago (Due (Reads f) 64) 39 t) :
    m.shows.iq = sample f (Nat.count (Reads f) (t - 39) / 64) := by
  rw [shows, sample, h.iMac.out hago, h.qMac.out hago]

/-- What is given out, and when. -/
theorem emitted_samples (f : ℕ → RxIn) (n : ℕ) :
    Run.emitted step out {} ((List.range n).map f) =
      (List.range (Nat.count (Reads f) (n - 38) / 64)).map (sample f) := by
  have hout : ∀ t m, At f t m → At f (t + 1) (m.step (f t)) ∧ (m.step (f t)).out =
      if Ago (Due (Reads f) 64) 38 t then some (sample f (Nat.count (Reads f) (t - 38) / 64))
      else none := by
    intro t m hm
    have hnext := hm.step
    have hshows : (m.step (f t)).out =
        if (m.step (f t)).shows.valid then some (m.step (f t)).shows.iq else none := rfl
    refine ⟨hnext, ?_⟩
    rw [hshows, hnext.shows_valid]
    by_cases ht : Ago (Due (Reads f) 64) 38 t
    · have ht' := ago_succ.2 ht
      rw [if_pos (decide_eq_true ht'), if_pos ht, hnext.shows_iq ht', Nat.add_sub_add_right]
    · rw [if_neg (by simpa [ago_succ] using ht), if_neg ht]
  rw [(Run.clocked hout (at_reset f) n).2, Run.filterMap_due (by norm_num) (sample f)]

/-- **The front end decimates.**  After `n` cycles, in which the FIFO may have had words at any
time, each 64th of the words, as far as they were read 38 cycles before, has brought a sample.  These
are the words smoothed by five windows of 64, with the gain, and filtered with all the weights. -/
theorem decimates (f : ℕ → RxIn) (n : ℕ) :
    let sent := Run.emitted step out {} ((List.range n).map f)
    let rounds := Nat.count (Reads f) (n - 38) / 64
    sent.map (fun s ↦ s.i.toInt) = (filtered rrc [] ((List.range rounds).map (decimated f Iq.i))).map
        (fun v ↦ clip 15 (v / 2 ^ 14)) ∧
      sent.map (fun s ↦ s.q.toInt) = (filtered rrc [] ((List.range rounds).map (decimated f Iq.q))).map
        (fun v ↦ clip 15 (v / 2 ^ 14)) := by
  intro sent rounds
  rw [show sent = _ from emitted_samples f n, List.map_map, List.map_map]
  exact ⟨map_railOut f Iq.i rounds, map_railOut f Iq.q rounds⟩

end Run

end RxFrontend

end TetraPhy.Rx
