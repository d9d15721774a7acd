import TetraPhy.Lib.Emission
import TetraPhy.Lib.Filter
import TetraPhy.Lib.IntegratorComb
import TetraPhy.Rx.BurstCapture

/-!
# The transmit front end

`tetra_tx_frontend.v`: a sample in 256 cycles of the converter's clock goes in and 64 come out.  Five
combs run at the low rate and five integrators at the high one.

`interpolates` says what comes out whatever the FIFO delivers: the samples, each held for 64 steps
and smoothed by four windows of 64, without the gain of these.  The integrators run on and wrap; what
the last of them holds is right, and there is nothing to clip.
-/

namespace TetraPhy.Tx

open TetraPhy.Rx (Iq)
open TetraPhy.Filter (clip saturate toInt_saturate)
open TetraPhy.IntegratorComb

/-- What the FIFO shows in a cycle. -/
structure FifoIn where
  dout : BitVec 32 := 0
  empty : Bool := false
  rdRstBusy : Bool := false
deriving DecidableEq, Repr

/-- The two halves of a word. -/
def FifoIn.iq (f : FifoIn) : Iq := ⟨f.dout.extractLsb' 16 16, f.dout.extractLsb' 0 16⟩

/-! ## A rail -/

/-- The registers of a rail: the input of the combs, the combs `cd1`, `cy1`, …, `cd5`, `comb_out`, the
integrators `intg_1`, …, `intg_5`, and the output. -/
structure CicRail where
  combIn : BitVec 48 := 0
  comb : List (BitVec 48 × BitVec 48) := List.replicate 5 (0, 0)
  intg : List (BitVec 48) := List.replicate 5 0
  out : BitVec 16 := 0
deriving DecidableEq, Repr

namespace CicRail

variable (r : CicRail)

/-- `comb_out_i`. -/
def combOut : BitVec 48 := (r.comb.getD 4 (0, 0)).2

/-- `out_i_sat_w`. -/
def outSat : BitVec 16 := saturate 15 ((r.intg.getD 4 0).sshiftRight 24)

end CicRail

/-- The registers, as reset leaves them. -/
structure TxFrontend where
  lvdsCnt : BitVec 8 := 0
  intgEnD1 : Bool := false
  iRail : CicRail := {}
  qRail : CicRail := {}
  txValid : Bool := false
deriving DecidableEq, Repr

namespace TxFrontend

variable (m : TxFrontend) (i : FifoIn)

/-- `fifo_rd_en_lvds`. -/
def fifoRdEn : Bool := m.lvdsCnt == 254 && !i.empty && !i.rdRstBusy

/-- `comb_load_w`. -/
def combLoad : Bool := m.lvdsCnt == 255

/-- `intg_en_w`. -/
def intgEn : Bool := m.lvdsCnt.extractLsb' 0 2 == 0

/-- `intg_in_i_w`: zeros between the values of the combs. -/
def intgIn (r : CicRail) : BitVec 48 := if m.lvdsCnt = 0 then r.combOut else 0

/-- A rail at a clock edge. -/
def stepRail (r : CicRail) (x : BitVec 16) : CicRail where
  combIn := if m.combLoad then x.signExtend 48 else r.combIn
  comb := if m.combLoad then pipe r.comb r.combIn else r.comb
  intg := if m.intgEn then integrate r.intg (m.intgIn r) else r.intg
  out := if m.intgEnD1 then r.outSat else r.out

/-- One clock edge. -/
def step : TxFrontend where
  lvdsCnt := m.lvdsCnt + 1
  intgEnD1 := m.intgEn
  iRail := m.stepRail m.iRail i.iq.i
  qRail := m.stepRail m.qRail i.iq.q
  txValid := m.intgEnD1

/-- What the output port shows. -/
def out : Option Iq := if m.txValid then some ⟨m.iRail.out, m.qRail.out⟩ else none

/-! ## What the registers hold -/

/-- The samples of a rail in the width of the combs. -/
def wide (x : ℕ → BitVec 16) (n : ℕ) : BitVec 48 := (x n).signExtend 48

/-- What goes into the integrators. -/
def stuffed (x : ℕ → BitVec 16) : ℕ → BitVec 48 := upsample 64 (stage^[5] (delay 1 (wide x)))

/-- The output of a rail behind `k` integrations. -/
def railOut (x : ℕ → BitVec 16) (k : ℕ) : BitVec 16 :=
  saturate 15 ((sum^[5] (stuffed x) k).sshiftRight 24)

/-- A rail after `t` cycles, with the sample of each 256 of them. -/
structure RailAt (x : ℕ → BitVec 16) (t : ℕ) (r : CicRail) : Prop where
  combIn : r.combIn = delay 1 (wide x) (t / 256)
  comb : r.comb = stages 5 (delay 1 (wide x)) (t / 256)
  intg : r.intg = sums 5 (stuffed x) ((t + 3) / 4)
  out : t % 4 = 2 → r.out = railOut x (t / 4 + 1)

/-- The front end after `t` cycles. -/
structure At (f : ℕ → FifoIn) (t : ℕ) (m : TxFrontend) : Prop where
  lvdsCnt : m.lvdsCnt = BitVec.ofNat 8 t
  intgEnD1 : m.intgEnD1 = decide (t % 4 = 1)
  txValid : m.txValid = decide (t % 4 = 2)
  iRail : RailAt (fun n ↦ (f (256 * n + 255)).iq.i) t m.iRail
  qRail : RailAt (fun n ↦ (f (256 * n + 255)).iq.q) t m.qRail

theorem at_reset (f : ℕ → FifoIn) : At f 0 {} := by
  have hrail : ∀ x, RailAt x 0 {} := fun x ↦
    ⟨(delay_of_lt Nat.zero_lt_one).symm, (stages_zero_right 5 _).symm, (sums_zero_right 5 _).symm,
      fun h ↦ absurd h (by decide)⟩
  exact ⟨rfl, rfl, rfl, hrail _, hrail _⟩

variable {m} {f : ℕ → FifoIn} {t : ℕ}

section Clock

variable (h : m.lvdsCnt = BitVec.ofNat 8 t)
include h

theorem lvdsCnt_eq_iff {k : ℕ} (hk : k < 256) : m.lvdsCnt = BitVec.ofNat 8 k ↔ t % 256 = k := by
  rw [h, ← BitVec.toNat_inj, BitVec.toNat_ofNat, BitVec.toNat_ofNat, Nat.mod_eq_of_lt hk]

theorem lvdsCnt_beq {k : ℕ} (hk : k < 256) :
    (m.lvdsCnt == BitVec.ofNat 8 k) = decide (t % 256 = k) := by
  rw [Bool.eq_iff_iff, beq_iff_eq, decide_eq_true_iff]
  exact lvdsCnt_eq_iff h hk

theorem combLoad_eq : m.combLoad = decide (t % 256 = 255) := lvdsCnt_beq h (by norm_num)

theorem fifoRdEn_eq (i : FifoIn) :
    m.fifoRdEn i = (decide (t % 256 = 254) && !i.empty && !i.rdRstBusy) := by
  rw [fifoRdEn, ← lvdsCnt_beq h (by norm_num)]
  rfl

theorem intgEn_eq : m.intgEn = decide (t % 4 = 0) := by
  rw [intgEn, h, Bool.eq_iff_iff, beq_iff_eq, decide_eq_true_iff, ← BitVec.toNat_inj]
  simp only [BitVec.extractLsb'_toNat, BitVec.toNat_ofNat, Nat.shiftRight_zero, BitVec.ofNat_eq_ofNat]
  omega

/-- A step of a rail. -/
theorem RailAt.stepRail {x : ℕ → BitVec 16} {r : CicRail} (hr : RailAt x t r)
    (hd : m.intgEnD1 = decide (t % 4 = 1)) {w : BitVec 16} (hw : t % 256 = 255 → w = x (t / 256)) :
    RailAt x (t + 1) (m.stepRail r w) := by
  have hload := combLoad_eq h
  have hen := intgEn_eq h
  refine ⟨?_, ?_, ?_, ?_⟩ <;> simp only [TxFrontend.stepRail, hload, hen, hd, decide_eq_true_eq]
  · split
    · rename_i hlast
      rw [show (t + 1) / 256 = t / 256 + 1 by omega, delay_add, hw hlast, wide]
    · rw [show (t + 1) / 256 = t / 256 by omega, hr.combIn]
  · split
    · rw [show (t + 1) / 256 = t / 256 + 1 by omega, hr.comb, hr.combIn, pipe_stages]
    · rw [show (t + 1) / 256 = t / 256 by omega, hr.comb]
  · split
    · -- the combs are added in the first of the 64 steps
      have hin : m.intgIn r = stuffed x ((t + 3) / 4) := by
        rw [intgIn, stuffed, upsample]
        have hiff : m.lvdsCnt = 0 ↔ t % 256 = 0 := lvdsCnt_eq_iff h (by norm_num)
        by_cases hz : t % 256 = 0
        · rw [if_pos (hiff.2 hz), if_pos (by omega), CicRail.combOut, hr.comb,
            getD_stages (by norm_num), show (t + 3) / 4 / 64 = t / 256 by omega]
        · rw [if_neg fun hc ↦ hz (hiff.1 hc), if_neg (by omega)]
      rw [show (t + 1 + 3) / 4 = (t + 3) / 4 + 1 by omega, hr.intg, hin, integrate_sums]
    · rw [show (t + 1 + 3) / 4 = (t + 3) / 4 by omega, hr.intg]
  · intro hnext
    rw [if_pos (by omega), CicRail.outSat, hr.intg, getD_sums (by norm_num), railOut,
      show (t + 3) / 4 = (t + 1) / 4 + 1 by omega]

end Clock

/-- **A cycle more.** -/
theorem At.step (h : At f t m) : At f (t + 1) (m.step (f t)) := by
  have hword : t % 256 = 255 → f t = f (256 * (t / 256) + 255) := fun hlast ↦ by
    congr 1
    omega
  refine ⟨?_, ?_, ?_, h.iRail.stepRail h.lvdsCnt h.intgEnD1 fun hlast ↦ by rw [hword hlast],
    h.qRail.stepRail h.lvdsCnt h.intgEnD1 fun hlast ↦ by rw [hword hlast]⟩
  · rw [TxFrontend.step, h.lvdsCnt, BitVec.ofNat_add]
    rfl
  · rw [TxFrontend.step, intgEn_eq h.lvdsCnt, decide_eq_decide]
    omega
  · rw [TxFrontend.step, h.intgEnD1, decide_eq_decide]
    omega

/-! ## What comes out -/

/-- The samples, held, before they are smoothed. -/
def held (x : ℕ → ℤ) : ℕ → ℤ := hold 64 (delay 6 x)

theorem held_mem (x : ℕ → BitVec 16) (n : ℕ) :
    -2 ^ 15 ≤ held (fun n ↦ (x n).toInt) n ∧ held (fun n ↦ (x n).toInt) n ≤ 2 ^ 15 - 1 := by
  refine hold_mem (by norm_num) (by norm_num) (fun n ↦ ?_) n
  rw [delay]
  split
  · exact ⟨BitVec.le_toInt _, Int.le_sub_one_of_lt BitVec.toInt_lt⟩
  · norm_num

theorem hold_wide (x : ℕ → BitVec 16) :
    hold 64 (delay 6 (wide x)) = fun n ↦ word 48 (held (fun n ↦ (x n).toInt) n) := by
  have hdelay : delay 6 (wide x) = fun n ↦ word 48 (delay 6 (fun n ↦ (x n).toInt) n) :=
    funext (map_delay (word 48) 6 _)
  rw [hdelay]
  exact funext (map_hold (word 48) 64 _)

/-- The samples, held and smoothed, after `k` steps of the high rate. -/
def smoothed (x : ℕ → ℤ) (k : ℕ) : ℤ := (window 64)^[4] (held x) k

/-- **The last integrator is right**: integers, which do not wrap, come to the same. -/
theorem toInt_sum_stuffed (x : ℕ → BitVec 16) (k : ℕ) :
    (sum^[5] (stuffed x) k).toInt = smoothed (fun n ↦ (x n).toInt) k := by
  have hsum : sum^[4 + 1] (upsample 64 (stage^[4 + 1] (delay 1 (wide x)))) =
      (window 64)^[4] (hold 64 (delay 6 (wide x))) := by
    rw [sum_upsample_stage (by norm_num), delay_delay]
  rw [stuffed, hsum, hold_wide]
  exact toInt_window_iterate (w := 47) (by norm_num) (by norm_num) (held_mem x) (by norm_num)
    (by norm_num) k

/-- Without the gain of the windows it fits the output. -/
theorem toInt_railOut (x : ℕ → BitVec 16) (k : ℕ) :
    (railOut x k).toInt = smoothed (fun n ↦ (x n).toInt) k / 2 ^ 24 := by
  have hbound := window_iterate_mem (R := 64) (by norm_num) (by norm_num) (held_mem x) 4 k
  rw [railOut, toInt_saturate (by decide), BitVec.toInt_sshiftRight, Int.shiftRight_eq_div_pow,
    toInt_sum_stuffed, clip, smoothed]
  generalize (window 64)^[4] (held fun n ↦ (x n).toInt) k = v at hbound ⊢
  norm_num only at hbound ⊢
  omega

/-- The samples of a run of `n` cycles. -/
theorem filterMap_range {β : Type*} (y : ℕ → β) (n : ℕ) :
    (List.range n).filterMap (fun t ↦ if t % 4 = 1 then some (y (t / 4 + 1)) else none) =
      (List.range ((n + 2) / 4)).map fun k ↦ y (k + 1) := by
  induction n with
  | zero => rfl
  | succ n ih =>
      rw [List.range_succ, List.filterMap_append, ih]
      by_cases hn : n % 4 = 1
      · rw [show (n + 1 + 2) / 4 = (n + 2) / 4 + 1 by omega, List.range_succ, List.map_append,
          show (n + 2) / 4 = n / 4 by omega]
        simp [hn]
      · rw [show (n + 1 + 2) / 4 = (n + 2) / 4 by omega]
        simp [hn]

/-- **The front end interpolates.**  After any number of cycles, whatever the FIFO has shown, it has
given out a sample for each four of them, and these are the samples of the low rate, held and
smoothed, without the gain.  A word is read a cycle before it is taken, if there is one. -/
theorem interpolates (f : ℕ → FifoIn) (n : ℕ) :
    let sent := Run.emitted step out {} ((List.range n).map f)
    sent.map (fun s ↦ s.i.toInt) = (List.range ((n + 2) / 4)).map (fun k ↦
        smoothed (fun j ↦ (f (256 * j + 255)).iq.i.toInt) (k + 1) / 2 ^ 24) ∧
      sent.map (fun s ↦ s.q.toInt) = (List.range ((n + 2) / 4)).map (fun k ↦
        smoothed (fun j ↦ (f (256 * j + 255)).iq.q.toInt) (k + 1) / 2 ^ 24) ∧
      (Run.exec step {} ((List.range n).map f)).fifoRdEn (f n) =
        (decide (n % 256 = 254) && !(f n).empty && !(f n).rdRstBusy) := by
  have hout : ∀ t m, At f t m → At f (t + 1) (m.step (f t)) ∧ (m.step (f t)).out =
      if t % 4 = 1 then some ⟨railOut (fun n ↦ (f (256 * n + 255)).iq.i) (t / 4 + 1),
        railOut (fun n ↦ (f (256 * n + 255)).iq.q) (t / 4 + 1)⟩ else none := by
    intro t m hm
    have hnext := hm.step
    refine ⟨hnext, ?_⟩
    rw [out, hnext.txValid]
    by_cases ht : t % 4 = 1
    · rw [if_pos (decide_eq_true (by omega)), if_pos ht, hnext.iRail.out (by omega),
        hnext.qRail.out (by omega), show (t + 1) / 4 = t / 4 by omega]
    · rw [if_neg (by simp; omega), if_neg ht]
  obtain ⟨hat, hsent⟩ := Run.clocked hout (at_reset f) n
  rw [filterMap_range fun k ↦ (⟨railOut (fun n ↦ (f (256 * n + 255)).iq.i) k,
    railOut (fun n ↦ (f (256 * n + 255)).iq.q) k⟩ : Iq)] at hsent
  simp only [hsent, List.map_map, Function.comp_def, toInt_railOut, fifoRdEn_eq hat.lvdsCnt,
    and_self]

end TxFrontend

end TetraPhy.Tx
