import TetraPhy.Codec.Block
import TetraPhy.Lib.Emission
import TetraPhy.Lmac.ViterbiDecoder

/-!
# The receive chain of the lower MAC

`tetra_deinterleaver.v`, `tetra_depuncture_r23.v` and the Viterbi decoder, as `tetra_lmac.v` wires
them for blocks of 216 bits and 144 stages.

The depuncturer makes two stages of three bits, the second in the cycle after the third bit, and
has no register for a bit that comes in that cycle.  The deinterleaver sends a block without a
pause, so that every fourth bit is lost, and two bits are one stage (`Aligned.step_bitsHeld`).  Of
a block the decoder gets 108 stages, not 144.  **`delivers_iff`** is what comes of it, by one
account of bits, stages and decoded bits: the chain delivers no stream of blocks but the empty one.
-/

namespace TetraPhy.Lmac

open Codec Permute

attribute [local instance] neZeroMetric neZeroBranch

/-! ## The deinterleaver -/

/-- `S_FILL` and `S_DRAIN`. -/
inductive DeintState
  | fill | drain
deriving DecidableEq, Repr

/-- The registers, with `buf_data` of `MAX_BLOCK_SIZE` bits. -/
structure Deinterleaver where
  state : DeintState := .fill
  wrAddr : BitVec 9 := 0
  rdAddr : BitVec 9 := 0
  drainCnt : BitVec 9 := 0
  buf : Vector Bool 432 := Vector.replicate 432 false
  dataOut : Bool := false
  dataOutValid : Bool := false
  blockDone : Bool := false

namespace Deinterleaver

/-- `a_param`. -/
def aParam (blockSize : BitVec 9) : BitVec 9 :=
  if blockSize = 432 then 103 else if blockSize = 216 then 101 else 11

section

variable (d : Deinterleaver) (blockSize : BitVec 9) (data : Option Bool)

/-- `rd_next`. -/
def rdNext : BitVec 9 :=
  let wide := d.rdAddr.setWidth 10 + (aParam blockSize).setWidth 10
  if blockSize.setWidth 10 ≤ wide then wide.setWidth 9 - blockSize else wide.setWidth 9

/-- `fill_done`. -/
def fillDone : Bool := d.state == .fill && data.isSome && d.wrAddr == blockSize - 1

/-- `drain_done`. -/
def drainDone : Bool := d.state == .drain && d.drainCnt == blockSize - 1

/-- A clock edge; `data` is `data_in`, if valid. -/
def step : Deinterleaver where
  state :=
    match d.state with
    | .fill => if d.fillDone blockSize data then .drain else .fill
    | .drain => if d.drainDone blockSize then .fill else .drain
  wrAddr :=
    match d.state with
    | .fill =>
      if data.isSome then if d.wrAddr = blockSize - 1 then 0 else d.wrAddr + 1 else d.wrAddr
    | .drain => 0
  rdAddr :=
    match d.state with
    | .fill => aParam blockSize
    | .drain => d.rdNext blockSize
  drainCnt :=
    match d.state with
    | .fill => 0
    | .drain => d.drainCnt + 1
  buf :=
    match d.state, data with
    | .fill, some b => d.buf.setIfInBounds d.wrAddr.toNat b
    | _, _ => d.buf
  dataOut := if d.state = .drain then d.buf.getD d.rdAddr.toNat false else d.dataOut
  dataOutValid := d.state == .drain
  blockDone := d.drainDone blockSize

/-- The output port. -/
def sent : Option Bool := if d.dataOutValid then some d.dataOut else none

end

/-- The bits that are still to be sent, or will be when the block is full. -/
def stored (blockSize : BitVec 9) (d : Deinterleaver) : ℕ :=
  match d.state with
  | .fill => d.wrAddr.toNat
  | .drain => blockSize.toNat - d.drainCnt.toNat

/-- The counters are within the block. -/
def Counting (blockSize : BitVec 9) (d : Deinterleaver) : Prop :=
  match d.state with
  | .fill => d.wrAddr.toNat ≤ (blockSize - 1).toNat
  | .drain => d.drainCnt.toNat ≤ (blockSize - 1).toNat

/-! What a cycle does to state and counters. -/

section

variable {d : Deinterleaver} {n : BitVec 9} (data : Option Bool) {b : Bool}

theorem step_fill_none (hs : d.state = .fill) :
    (d.step n none).state = .fill ∧ (d.step n none).wrAddr = d.wrAddr := by
  simp [step, fillDone, hs]

theorem step_fill_some (hs : d.state = .fill) (hd : d.wrAddr ≠ n - 1) :
    (d.step n (some b)).state = .fill ∧ (d.step n (some b)).wrAddr = d.wrAddr + 1 := by
  have hfull : d.fillDone n (some b) = false := by
    rw [fillDone, beq_false_of_ne hd, Bool.and_false]
  simp only [step, hs, hfull, Option.isSome_some, if_true, if_neg hd]
  exact ⟨rfl, trivial⟩

theorem step_fill_last (hs : d.state = .fill) (hd : d.wrAddr = n - 1) :
    (d.step n (some b)).state = .drain ∧ (d.step n (some b)).drainCnt = 0 := by
  have hfull : d.fillDone n (some b) = true := by simp only [fillDone, hs, hd, beq_self_eq_true]; rfl
  simp only [step, hs, hfull]
  exact ⟨rfl, trivial⟩

theorem step_drain (hs : d.state = .drain) (hd : d.drainCnt ≠ n - 1) :
    (d.step n data).state = .drain ∧ (d.step n data).drainCnt = d.drainCnt + 1 := by
  have hdone : d.drainDone n = false := by rw [drainDone, beq_false_of_ne hd, Bool.and_false]
  simp only [step, hs, hdone]
  exact ⟨rfl, trivial⟩

theorem step_drain_last (hs : d.state = .drain) (hd : d.drainCnt = n - 1) :
    (d.step n data).state = .fill ∧ (d.step n data).wrAddr = 0 := by
  have hdone : d.drainDone n = true := by simp only [drainDone, hs, hd, beq_self_eq_true]; rfl
  simp only [step, hs, hdone]
  exact ⟨rfl, trivial⟩

theorem counting_fill (hs : d.state = .fill) :
    d.Counting n ↔ d.wrAddr.toNat ≤ (n - 1).toNat := by simp only [Counting, hs]

theorem counting_drain (hs : d.state = .drain) :
    d.Counting n ↔ d.drainCnt.toNat ≤ (n - 1).toNat := by simp only [Counting, hs]

theorem stored_fill (hs : d.state = .fill) : d.stored n = d.wrAddr.toNat := by
  simp only [stored, hs]

theorem stored_drain (hs : d.state = .drain) :
    d.stored n = n.toNat - d.drainCnt.toNat := by simp only [stored, hs]

theorem toNat_sub_one (hn : n ≠ 0) : (n - 1).toNat + 1 = n.toNat := by
  have hpos : n.toNat ≠ 0 := fun h ↦ hn (BitVec.eq_of_toNat_eq h)
  have hone : (1 : BitVec 9) ≤ n := Nat.one_le_iff_ne_zero.2 hpos
  rw [BitVec.toNat_sub_of_le hone]
  exact Nat.succ_pred hpos

/-- The block gets a bit, if there is one. -/
theorem step_stored (hn : n ≠ 0) (hs : d.state = .fill) (h : d.Counting n) :
    (d.step n data).Counting n ∧ (d.step n data).stored n = d.stored n + data.isSome.toNat := by
  rw [counting_fill hs] at h
  rw [stored_fill hs]
  cases data with
  | none =>
      obtain ⟨hs', hnext⟩ := step_fill_none (n := n) hs
      rw [counting_fill hs', stored_fill hs', hnext]
      exact ⟨h, rfl⟩
  | some b =>
      by_cases hd : d.wrAddr = n - 1
      · obtain ⟨hs', hnext⟩ := step_fill_last (b := b) hs hd
        rw [counting_drain hs', stored_drain hs', hnext, hd]
        exact ⟨Nat.zero_le _, (toNat_sub_one hn).symm⟩
      · obtain ⟨hcnt, hle⟩ := ViterbiDecoder.toNat_add_one_le h hd
        obtain ⟨hs', hnext⟩ := step_fill_some (b := b) hs hd
        rw [counting_fill hs', stored_fill hs', hnext, hcnt]
        exact ⟨hle, rfl⟩

/-- A bit is sent. -/
theorem step_sends (hn : n ≠ 0) (hs : d.state = .drain) (h : d.Counting n) :
    (d.step n data).Counting n ∧ (d.step n data).stored n + 1 = d.stored n := by
  have hlast := toNat_sub_one hn
  rw [counting_drain hs] at h
  rw [stored_drain hs]
  by_cases hd : d.drainCnt = n - 1
  · obtain ⟨hs', hnext⟩ := step_drain_last data hs hd
    rw [counting_fill hs', stored_fill hs', hnext, hd]
    exact ⟨Nat.zero_le _, (Nat.sub_eq_of_eq_add' hlast.symm).symm⟩
  · obtain ⟨hcnt, hle⟩ := ViterbiDecoder.toNat_add_one_le h hd
    obtain ⟨hs', hnext⟩ := step_drain data hs hd
    rw [counting_drain hs', stored_drain hs', hnext, hcnt]
    exact ⟨hle, by omega⟩

end

end Deinterleaver

/-! ## The depuncturer -/

/-- The registers.  `block_done` is left out, which is never set. -/
structure DepunctureR23 where
  inCnt : Fin 4 := 0
  hold0 : BitVec 3 := 4
  hold1 : BitVec 3 := 4
  soft : Fin 4 → BitVec 3 := fun _ ↦ 4
  outputValid : Bool := false

namespace DepunctureR23

/-- `soft_in`: `HARD_1` and `HARD_0`. -/
def softIn (b : Bool) : BitVec 3 := if b then 7 else 0

/-- `ERASURE`. -/
def erasure : BitVec 3 := 4

section

variable (p : DepunctureR23) (data : Option Bool) (blockStart : Bool)

/-- What a bit does. -/
def takeBit (p' : DepunctureR23) : DepunctureR23 :=
  match data with
  | none => p'
  | some b =>
    match p.inCnt with
    | 0 => { p' with hold0 := softIn b, inCnt := 1 }
    | 1 => { p' with hold1 := softIn b, inCnt := 2 }
    | 2 =>
      -- Stage A; `hold0` is for stage B, which is sent in the next cycle.
      { p' with
        soft := ![p.hold0, p.hold1, erasure, erasure]
        outputValid := true
        hold0 := softIn b
        inCnt := 3 }
    | 3 => { p' with inCnt := 0 }

/-- A clock edge.  A later assignment overrides an earlier one. -/
def step : DepunctureR23 :=
  let p' := { p with outputValid := false, inCnt := if blockStart then 0 else p.inCnt }
  let p' := p.takeBit data p'
  if p.inCnt = 3 then
    { p' with soft := ![p.hold0, erasure, erasure, erasure], outputValid := true, inCnt := 0 }
  else p'

end

/-- The bits that a stage is still to be made of.  Of the three that a triplet has, stage A takes
two. -/
def credit (p : DepunctureR23) : ℕ := if p.inCnt = 3 then 1 else p.inCnt.val

section

variable {p : DepunctureR23} (blockStart : Bool)

/-- **A bit in each cycle.**  Four bits are two stages. -/
theorem step_some (b : Bool) : (p.step (some b) blockStart).inCnt = p.inCnt + 1 ∧
    (p.step (some b) blockStart).credit + 2 * (p.step (some b) blockStart).outputValid.toNat =
      p.credit + 1 := by
  obtain ⟨inCnt, hold0, hold1, soft, outputValid⟩ := p
  match inCnt with
  | 0 => exact ⟨rfl, rfl⟩
  | 1 => exact ⟨rfl, rfl⟩
  | 2 => exact ⟨rfl, rfl⟩
  | 3 => exact ⟨rfl, rfl⟩

/-- No bit, between triplets. -/
theorem step_none (h : p.inCnt = 0) : (p.step none blockStart).inCnt = 0 ∧
    (p.step none blockStart).outputValid = false := by
  obtain ⟨inCnt, hold0, hold1, soft, outputValid⟩ := p
  obtain rfl : inCnt = 0 := h
  cases blockStart <;> exact ⟨rfl, rfl⟩

end

end DepunctureR23

/-! ## Bits without a pause -/

/-- The two machines in a block of a multiple of four bits: the deinterleaver is sending, and the
depuncturer counts its bits. -/
structure Aligned (d : Deinterleaver) (p : DepunctureR23) : Prop where
  counting : d.Counting 216
  start : d.state = .drain → d.dataOutValid = false → d.drainCnt = 0
  idle : d.dataOutValid = false → p.inCnt = 0
  last : d.state = .fill → d.dataOutValid = true → p.inCnt = 3
  sending : d.state = .drain → d.dataOutValid = true →
    p.inCnt.val = (d.drainCnt.toNat + 3) % 4

theorem aligned_init : Aligned {} {} where
  counting := Nat.zero_le _
  start h := absurd h (by decide)
  idle _ := rfl
  last _ h := absurd h (by decide)
  sending h := absurd h (by decide)

section

variable {d : Deinterleaver} {p : DepunctureR23}

/-- The bits that are in the two. -/
def bitsHeld (d : Deinterleaver) (p : DepunctureR23) : ℕ :=
  d.stored 216 + d.dataOutValid.toNat + p.credit

namespace Aligned

/-- The depuncturer takes what is sent, if something is. -/
theorem depunct (h : Aligned d p) (blockStart : Bool) :
    (p.step d.sent blockStart).inCnt = (if d.dataOutValid then p.inCnt + 1 else 0) ∧
      (p.step d.sent blockStart).credit + 2 * (p.step d.sent blockStart).outputValid.toNat =
        p.credit + d.dataOutValid.toNat := by
  cases hv : d.dataOutValid
  · have hsent : d.sent = none := by rw [Deinterleaver.sent, hv]; rfl
    have hzero := h.idle hv
    obtain ⟨hcnt, hout⟩ := DepunctureR23.step_none blockStart hzero
    rw [hsent, DepunctureR23.credit, DepunctureR23.credit, hcnt, hzero, hout]
    exact ⟨rfl, rfl⟩
  · have hsent : d.sent = some d.dataOut := by rw [Deinterleaver.sent, hv]; rfl
    rw [hsent]
    exact DepunctureR23.step_some blockStart d.dataOut

/-- While a block is filled, it comes to the end of the last one, -/
theorem inCnt_fill (h : Aligned d p) (hs : d.state = .fill) (blockStart : Bool) :
    (p.step d.sent blockStart).inCnt = 0 := by
  rw [(h.depunct blockStart).1]
  cases hv : d.dataOutValid
  · rfl
  · rw [h.last hs hv]
    rfl

/-- and while one is sent, it counts along. -/
theorem inCnt_drain (h : Aligned d p) (hs : d.state = .drain) (blockStart : Bool) :
    (p.step d.sent blockStart).inCnt.val = d.drainCnt.toNat % 4 := by
  rw [(h.depunct blockStart).1]
  cases hv : d.dataOutValid
  · rw [h.start hs hv]
    rfl
  · have hcnt := h.sending hs hv
    rw [if_pos rfl, Fin.val_add, hcnt, show (1 : Fin 4).val = 1 from rfl]
    omega

/-- So it is after each cycle, -/
theorem step (h : Aligned d p) (data : Option Bool) (blockStart : Bool) :
    Aligned (d.step 216 data) (p.step d.sent blockStart) := by
  have hvalid : (d.step 216 data).dataOutValid = (d.state == .drain) := rfl
  cases hs : d.state with
  | fill =>
      rw [hs] at hvalid
      refine ⟨(Deinterleaver.step_stored data (by decide) hs h.counting).1, fun _ _ ↦ ?_,
        fun _ ↦ h.inCnt_fill hs blockStart, fun _ hv ↦ ?_, fun _ hv ↦ ?_⟩
      · simp only [Deinterleaver.step, hs]
      · exact absurd (hvalid.symm.trans hv) (by decide)
      · exact absurd (hvalid.symm.trans hv) (by decide)
  | drain =>
      rw [hs] at hvalid
      refine ⟨(Deinterleaver.step_sends data (by decide) hs h.counting).1, fun _ hv ↦ ?_, fun hv ↦ ?_,
        fun hs' _ ↦ Fin.ext ?_, fun hs' _ ↦ ?_⟩
      · exact absurd (hvalid.symm.trans hv) (by decide)
      · exact absurd (hvalid.symm.trans hv) (by decide)
      · rw [h.inCnt_drain hs blockStart]
        by_cases hd : d.drainCnt = 216 - 1
        · rw [hd]
          rfl
        · exact absurd ((Deinterleaver.step_drain data hs hd).1.symm.trans hs') (by decide)
      · rw [h.inCnt_drain hs blockStart]
        by_cases hd : d.drainCnt = 216 - 1
        · exact absurd ((Deinterleaver.step_drain_last data hs hd).1.symm.trans hs') (by decide)
        · obtain ⟨hcnt, -⟩ := ViterbiDecoder.toNat_add_one_le
            ((Deinterleaver.counting_drain hs).1 h.counting) hd
          rw [(Deinterleaver.step_drain data hs hd).2, hcnt]
          omega

/-- **and two bits are one stage.** -/
theorem step_bitsHeld (h : Aligned d p) (data : Option Bool) (blockStart : Bool) :
    bitsHeld (d.step 216 data) (p.step d.sent blockStart) +
        2 * (p.step d.sent blockStart).outputValid.toNat ≤ bitsHeld d p + data.isSome.toNat := by
  have hpaid := (h.depunct blockStart).2
  have hvalid : (d.step 216 data).dataOutValid = (d.state == .drain) := rfl
  cases hs : d.state with
  | fill =>
      have hstored := (Deinterleaver.step_stored data (by decide) hs h.counting).2
      have hquiet : (d.step 216 data).dataOutValid.toNat = 0 := by rw [hvalid, hs]; rfl
      rw [bitsHeld, bitsHeld]
      omega
  | drain =>
      have hstored := (Deinterleaver.step_sends data (by decide) hs h.counting).2
      have hsends : (d.step 216 data).dataOutValid.toNat = 1 := by rw [hvalid, hs]; rfl
      rw [bitsHeld, bitsHeld]
      omega

end Aligned

end

/-! ## The chain -/

/-- The inputs of a cycle: `block_start`, and a bit for the deinterleaver, if there is one. -/
structure RxChainIn where
  blockStart : Bool := false
  data : Option Bool := none

/-- The registers. -/
structure RxChain where
  deint : Deinterleaver := {}
  depunct : DepunctureR23 := {}
  viterbi : ViterbiDecoder := {}

namespace RxChain

section

variable (c : RxChain) (i : RxChainIn)

/-- What the decoder sees. -/
def viterbiIn : ViterbiIn := ⟨c.depunct.soft, c.depunct.outputValid, 144⟩

/-- A clock edge. -/
def step : RxChain where
  deint := c.deint.step 216 i.data
  depunct := c.depunct.step c.deint.sent i.blockStart
  viterbi := c.viterbi.step c.viterbiIn

/-- `rx_decoded_bit_sys`, if valid. -/
def sent : Option Bool := c.viterbi.sent

end

/-- The machines are where they can be. -/
structure Valid (c : RxChain) : Prop where
  aligned : Aligned c.deint c.depunct
  counting : c.viterbi.Counting

theorem valid_init : Valid {} := ⟨aligned_init, rfl⟩

/-- What is in the chain, 35 for a bit, 70 for a stage and 72 for a bit that is decoded. -/
def budget (c : RxChain) : ℕ :=
  35 * bitsHeld c.deint c.depunct + 70 * c.depunct.outputValid.toNat + c.viterbi.budget

theorem Valid.step {c : RxChain} (h : c.Valid) (i : RxChainIn) : (c.step i).Valid ∧
    72 * (c.step i).sent.toList.length + (c.step i).budget ≤
      c.budget + 35 * i.data.isSome.toNat := by
  obtain ⟨hcnt, hpaid⟩ := ViterbiDecoder.step_budget (i := c.viterbiIn) rfl h.counting
  have hbits := h.aligned.step_bitsHeld i.data i.blockStart
  refine ⟨⟨h.aligned.step i.data i.blockStart, hcnt⟩, ?_⟩
  change 72 * (c.viterbi.step c.viterbiIn).sent.toList.length + (c.step i).budget ≤ _
  change _ ≤ c.viterbi.budget + 70 * c.depunct.outputValid.toNat at hpaid
  simp only [budget, RxChain.step]
  omega

/-- What the chain sends. -/
def sentBits (es : List RxChainIn) : List Bool := Run.emitted step sent {} es

/-- The bits that a run brings. -/
def dataBits (es : List RxChainIn) : List Bool := es.filterMap RxChainIn.data

theorem sum_isSome (es : List RxChainIn) :
    (es.map fun i ↦ 35 * i.data.isSome.toNat).sum = 35 * (dataBits es).length := by
  induction es with
  | nil => rfl
  | cons i es ih =>
      rw [List.map_cons, List.sum_cons, ih, dataBits, dataBits, List.filterMap_cons]
      cases i.data with
      | none => exact Nat.zero_add _
      | some b =>
          rw [List.length_cons, Nat.mul_succ, Nat.add_comm]
          rfl

/-- **In every run**, 72 bits that come in make at most 35 that come out. -/
theorem length_sentBits_le (es : List RxChainIn) :
    72 * (sentBits es).length ≤ 35 * (dataBits es).length := by
  have h := Run.length_emitted_le step sent (fun c i (hc : Valid c) ↦ hc.step i) valid_init es
  rw [sum_isSome, show budget {} = 0 from rfl, Nat.zero_add] at h
  exact (Nat.le_add_right _ _).trans h

/-! ## Blocks -/

/-- `tetra_bnch_encode` up to the scrambling; `none` is its error return. -/
def bnchType4 (info : List Bool) : Option (List Bool) :=
  let mother := convR14 (crc16 info ++ List.replicate 4 false)
  match punctureR23 mother with
  | none => none
  | some type4 =>
    if mother.length ≠ 144 * 4 ∨ type4.length ≠ 216 then none
    else some (interleavePerm type4 216 101)

/-- The block of a word of 124 bits. -/
theorem bnchType4_eq {info : List Bool} (h : info.length = 124) : bnchType4 info =
    some (interleavePerm (keptBits (convR14 (crc16 info ++ List.replicate 4 false))) 216 101) := by
  have hmother : (convR14 (crc16 info ++ List.replicate 4 false)).length = 144 * 4 := by
    rw [convR14, length_convR14From, List.length_append, length_crc16, List.length_replicate, h]
  have hkept : (keptBits (convR14 (crc16 info ++ List.replicate 4 false))).length = 216 :=
    length_keptBits (n := 72) hmother
  have hpunct : punctureR23 (convR14 (crc16 info ++ List.replicate 4 false)) =
      some (keptBits (convR14 (crc16 info ++ List.replicate 4 false))) := by
    rw [punctureR23, if_neg (by rw [hmother]; decide)]
  rw [bnchType4, hpunct]
  exact if_neg (not_or.2 ⟨not_not.2 hmother, not_not.2 hkept⟩)

theorem length_of_bnchType4 {info block : List Bool} (h : bnchType4 info = some block) :
    block.length = 216 := by
  simp only [bnchType4] at h
  split at h
  · cases h
  · split at h
    · cases h
    · obtain rfl := Option.some.inj h
      rw [interleavePerm, length_scatter]

/-- The run brings the blocks of the words, in this order.  The pauses between bits and between
blocks, and where `block_start` is pulsed, are left open. -/
structure Presents (infos blocks : List (List Bool)) (es : List RxChainIn) : Prop where
  encoded : List.Forall₂ (fun info block ↦ info.length = 124 ∧ bnchType4 info = some block)
    infos blocks
  data : dataBits es = blocks.flatten

/-- The chain delivers information and CRC bits of each word. -/
def Delivers (infos : List (List Bool)) (es : List RxChainIn) : Prop :=
  sentBits es = infos.flatMap crc16

theorem Presents.lengths {infos blocks : List (List Bool)} {es : List RxChainIn}
    (h : Presents infos blocks es) :
    (infos.flatMap crc16).length = 140 * infos.length ∧
      (dataBits es).length = 216 * infos.length := by
  obtain ⟨hencoded, hdata⟩ := h
  rw [hdata]
  clear hdata
  induction hencoded with
  | nil => exact ⟨rfl, rfl⟩
  | cons hblock _ ih =>
      rw [List.flatMap_cons, List.length_append, List.flatten_cons, List.length_append, ih.1, ih.2,
        length_crc16, hblock.1, length_of_bnchType4 hblock.2, List.length_cons]
      exact ⟨by omega, by omega⟩

/-- A run that is too short of bits delivers nothing whole. -/
theorem Presents.eq_nil {infos blocks : List (List Bool)} {es : List RxChainIn}
    (h : Presents infos blocks es) (hdelivers : Delivers infos es) : infos = [] := by
  have hle := length_sentBits_le es
  obtain ⟨hcoded, hdata⟩ := h.lengths
  rw [show sentBits es = infos.flatMap crc16 from hdelivers, hcoded, hdata] at hle
  exact List.eq_nil_of_length_eq_zero (by omega)

/-- **The chain delivers no blocks.** -/
theorem delivers_iff {infos blocks : List (List Bool)} {es : List RxChainIn}
    (h : Presents infos blocks es) : Delivers infos es ↔ infos = [] := by
  refine ⟨h.eq_nil, fun hnil ↦ ?_⟩
  subst hnil
  have hle := length_sentBits_le es
  rw [h.lengths.2, List.length_nil] at hle
  exact List.eq_nil_of_length_eq_zero (by omega)

/-- A block without a pause, after `block_start`, and some time for the decoder. -/
def blockRun (block : List Bool) (wait : ℕ) : List RxChainIn :=
  { blockStart := true } :: block.map (fun b ↦ { data := some b }) ++
    List.replicate wait ({} : RxChainIn)

theorem presents_blockRun {info block : List Bool} (h : info.length = 124)
    (hblock : bnchType4 info = some block) (wait : ℕ) :
    Presents [info] [block] (blockRun block wait) where
  encoded := List.Forall₂.cons ⟨h, hblock⟩ List.Forall₂.nil
  data := by
    have hbits : dataBits (block.map fun b ↦ ({ data := some b } : RxChainIn)) = block := by
      rw [dataBits, List.filterMap_map]
      exact List.filterMap_some
    have hwait : dataBits (List.replicate wait ({} : RxChainIn)) = [] := by
      rw [dataBits, List.filterMap_replicate_of_none rfl]
    rw [blockRun, dataBits, List.filterMap_append, List.filterMap_cons_none rfl]
    change dataBits _ ++ dataBits _ = _
    rw [hbits, hwait, List.flatten_cons, List.flatten_nil]

/-! A block of zeros. -/

def zeroWord : List Bool := List.replicate 124 false

def zeroBlock : List Bool :=
  interleavePerm (keptBits (convR14 (crc16 zeroWord ++ List.replicate 4 false))) 216 101

theorem presents_zeroBlock : Presents [zeroWord] [zeroBlock] (blockRun zeroBlock 1000) :=
  presents_blockRun List.length_replicate (bnchType4_eq List.length_replicate) 1000

theorem delivers_zeroBlock_iff :
    Delivers [zeroWord] (blockRun zeroBlock 1000) ↔ [zeroWord] = [] :=
  delivers_iff presents_zeroBlock

theorem not_delivers_zeroBlock : Presents [zeroWord] [zeroBlock] (blockRun zeroBlock 1000) ∧
    ¬ Delivers [zeroWord] (blockRun zeroBlock 1000) :=
  ⟨presents_zeroBlock, fun h ↦ List.cons_ne_nil _ _ (presents_zeroBlock.eq_nil h)⟩

end RxChain

end TetraPhy.Lmac
