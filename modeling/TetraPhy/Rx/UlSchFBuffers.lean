import TetraPhy.Rx.UlSchFDecoder

/-!
# A block in the buffers of the SCH/F decoder

The values of a block in the order of transmission are `soft`.  They are collected, two in a word
(`Collecting`), while the scrambler runs; the decoder waits for its end (`Waiting`), and moves them
descrambled to where the code has them (`Deinterleaving`).  What the buffers held before is
overwritten and not read.

The last write of a phase is still in the port of its buffer in the next one.  So the phases
speak of the memory as it will be when the port has settled.
-/

namespace TetraPhy.Rx

open Codec Permute Run

attribute [local instance] neZeroViterbi neZeroSymbols

/-! ## The parts -/

section Parts

variable {α : Type} {size k : ℕ} {mem f : ℕ → α}

/-- A memory filled from the front. -/
theorem store_of_filled (hk : k < size) (h : ∀ j < k, mem j = f j) :
    ∀ j < k + 1, store size mem k (f k) j = f j := by
  intro j hj
  rw [store, if_pos hk]
  by_cases he : j = k
  · rw [he, Function.update_self]
  · rw [Function.update_of_ne he]
    exact h j (by omega)

variable (p : WritePort α)

theorem WritePort.settle_of_low (h : p.we = false) : p.settle size mem = mem := by
  rw [settle, h]
  exact if_neg Bool.false_ne_true

theorem WritePort.settle_high (a : ℕ) (x : α) :
    WritePort.settle ⟨true, a, x⟩ size mem = store size mem a x := if_pos rfl

end Parts

/-- The scrambler after `n` bits. -/
structure Scrambling (lfsr : BitVec 32) (n : ℕ) (s : UlScrambler) : Prop where
  running : s.running = true
  cnt : s.cnt = n
  reg : s.lfsr = Lmac.lfsrNext^[n] lfsr
  seq : ∀ j < n, s.seq j = Lmac.lfsrFb (Lmac.lfsrNext^[j] lfsr)

section Scrambler

variable {lfsr : BitVec 32} {n len : ℕ} {s : UlScrambler}

theorem Scrambling.step (h : Scrambling lfsr n s) (hn : n < len) :
    Scrambling lfsr (n + 1) (s.step len) := by
  rw [UlScrambler.step, if_pos ⟨h.running, by rw [h.cnt]; exact hn⟩]
  refine ⟨h.running, ?_, ?_, ?_⟩
  · rw [h.cnt]
  · rw [h.reg, Function.iterate_succ_apply']
  · rw [h.reg, h.cnt]
    exact store_of_filled (f := fun j ↦ Lmac.lfsrFb (Lmac.lfsrNext^[j] lfsr)) hn h.seq

theorem Scrambling.step_end (h : Scrambling lfsr len s) : s.step len = s :=
  if_neg fun hs ↦ hs.2.ne h.cnt

/-- What becomes of a value. -/
def descrambled (lfsr : BitVec 32) (soft : ℕ → BitVec 8) (j : ℕ) : BitVec 8 :=
  if Lmac.lfsrFb (Lmac.lfsrNext^[j] lfsr) then -soft j else soft j

theorem scrambleWith_map_range' (lfsr : BitVec 32) (soft : ℕ → BitVec 8) (j n : ℕ) :
    scrambleWith Neg.neg (UInt32.ofBitVec (Lmac.lfsrNext^[j] lfsr))
      ((List.range' j n).map soft) = (List.range' j n).map (descrambled lfsr soft) := by
  induction n generalizing j with
  | zero => rfl
  | succ n ih =>
      rw [List.range'_succ, List.map_cons, List.map_cons, scrambleWith,
        Lmac.nextLfsrBit_ofBitVec, ← Function.iterate_succ_apply' Lmac.lfsrNext, ih]
      rfl

/-- The values in the order of the code: each comes from where it was sent, descrambled. -/
theorem ulDeint_range (c : Channel) (scrambInit : BitVec 32) (soft : ℕ → BitVec 8) :
    ulDeint c scrambInit ((List.range c.coded).map soft) = (List.range c.coded).map fun k ↦
      descrambled (ulSeed scrambInit) soft (permIndex c.coded c.factor k) := by
  rw [ulDeint, List.range_eq_range']
  erw [scrambleWith_map_range' (ulSeed scrambInit) soft 0 c.coded]
  rw [deinterleavePerm, gather, ← List.range_eq_range']
  refine List.map_congr_left fun k hk ↦ ?_
  have hlt : permIndex c.coded c.factor k < c.coded := permIndex_lt (List.mem_range.1 hk)
  rw [List.getD_eq_getElem?_getD, List.getElem?_map]
  erw [List.getElem?_range hlt]
  rfl

/-- The value that the decoder moves to a place. -/
def moved (lfsr : BitVec 32) (soft : ℕ → BitVec 8) (k : ℕ) : BitVec 8 :=
  descrambled lfsr soft (permIndex 432 103 k)

/-- They are the values in the order of the code. -/
theorem ulDeint_map_range (scrambInit : BitVec 32) (soft : ℕ → BitVec 8) :
    ulDeint schf scrambInit ((List.range 432).map soft) =
      (List.range 432).map (moved (ulSeed scrambInit) soft) := ulDeint_range schf scrambInit soft

end Scrambler

namespace UlSchFDecoder

variable {soft : ℕ → BitVec 8} {lfsr : BitVec 32} {d : UlSchFDecoder} {i : SoftDibit}

/-! ## Phases -/

/-- The Viterbi decoder is between blocks. -/
structure Resting (d : UlSchFDecoder) : Prop where
  vit : d.vit.AtRest
  vitInputValid : d.vitInputValid = false

/-- So is the whole decoder. -/
structure AtRest (d : UlSchFDecoder) : Prop extends d.Resting where
  state : d.state = .idle

/-- A word of the first buffer. -/
def softWord (soft : ℕ → BitVec 8) (k : ℕ) : BitVec 16 := soft (2 * k + 1) ++ soft (2 * k)

/-- `k` words have come in. -/
structure Collecting (soft : ℕ → BitVec 8) (lfsr : BitVec 32) (k : ℕ) (d : UlSchFDecoder) : Prop
    extends d.Resting where
  state : d.state = if 216 ≤ k then .waitScr else .collect
  word : k < 216 → d.collectWord = k
  mem : ∀ j < k, d.bsoftPort.settle 216 d.bsoft.mem j = softWord soft j
  scr : Scrambling lfsr (k - 1) d.scr

/-- The scrambler has come to `n` bits. -/
structure Waiting (soft : ℕ → BitVec 8) (lfsr : BitVec 32) (n : ℕ) (d : UlSchFDecoder) : Prop
    extends d.Resting where
  state : d.state = .waitScr
  port : 216 ≤ n → d.bsoftPort.we = false
  mem : ∀ j < 216, d.bsoftPort.settle 216 d.bsoft.mem j = softWord soft j
  scr : Scrambling lfsr n d.scr

/-- `k` values have been read; the last of them is on its way. -/
structure Deinterleaving (soft : ℕ → BitVec 8) (lfsr : BitVec 32) (k : ℕ) (d : UlSchFDecoder) :
    Prop extends d.Resting where
  state : d.state = .deint
  addr : d.deintAddr = permIndex 432 103 k
  deintI : d.deintI = k
  diV : d.diV = decide (0 < k)
  wr : d.deintWr = k - 1
  pipe : 0 < k → d.diI = k - 1 ∧ d.diSoft = moved lfsr soft (k - 1)
  port : d.bsoftPort.we = false
  mem : ∀ j < 216, d.bsoft.mem j = softWord soft j
  filled : ∀ j < k - 1, d.bdeintPort.settle 432 d.bdeint.mem j = moved lfsr soft j
  scr : Scrambling lfsr 432 d.scr

/-- All of them are where the code has them, or will be. -/
structure Deinterleaved (deint : ℕ → BitVec 8) (d : UlSchFDecoder) : Prop extends d.Resting where
  state : d.state = .feed
  vitStage : d.vitStage = 0
  vitG : d.vitG = 0
  vitKeptIdx : d.vitKeptIdx = 0
  feedPhase : d.feedPhase = false
  port : d.bdeintPort.waddr ≠ 0
  filled : ∀ j < 432, d.bdeintPort.settle 432 d.bdeint.mem j = deint j

theorem result_eq_none (h : d.infoValid = false) : d.result = none := by
  rw [result, h]
  exact if_neg Bool.false_ne_true

/-- Nothing comes to the Viterbi decoder. -/
theorem Resting.clock (h : d.Resting) : d.clock.Resting where
  vit := (UlViterbiR14Bram.decodes.wait h.vit h.vitInputValid).1
  vitInputValid := rfl

/-! ## Collecting -/

/-- A cycle between blocks. -/
theorem AtRest.step_wait (h : d.AtRest) (hv : i.softValid = false) :
    (d.step i).AtRest ∧ (d.step i).result = none := by
  have hstep : d.step i = d.clock := by
    rw [step, h.state]
    exact if_neg (by rw [hv]; exact Bool.false_ne_true)
  rw [hstep]
  exact ⟨⟨h.clock, h.state⟩, result_eq_none rfl⟩

/-- A cycle that brings a word of a block. -/
structure Brings (soft : ℕ → BitVec 8) (k : ℕ) (i : SoftDibit) : Prop where
  valid : i.softValid = true
  bit1 : i.softBit1 = soft (2 * k)
  bit0 : i.softBit0 = soft (2 * k + 1)

theorem Brings.word {k : ℕ} (h : Brings soft k i) : i.softBit0 ++ i.softBit1 = softWord soft k := by
  rw [h.bit0, h.bit1, softWord]

/-- **The first word**, -/
theorem AtRest.step_first (h : d.AtRest) (hi : Brings soft 0 i) :
    Collecting soft (ulSeed i.scrambInit) 1 (d.step i) ∧ (d.step i).result = none := by
  have hstep : d.step i = d.stepIdle i := by rw [step, h.state]
  rw [hstep, stepIdle, if_pos hi.valid]
  refine ⟨⟨⟨h.clock.vit, rfl⟩, rfl, fun _ ↦ rfl, ?_, ⟨rfl, rfl, rfl, ?_⟩⟩, result_eq_none rfl⟩
  · rw [WritePort.settle_high, hi.word]
    exact store_of_filled (by decide) fun j hj ↦ absurd hj (Nat.not_lt_zero j)
  · intro j hj
    exact absurd hj (Nat.not_lt_zero j)

/-- **and each further one.** -/
theorem Collecting.step_word {k : ℕ} (h : Collecting soft lfsr k d) (hpos : 0 < k) (hk : k < 216)
    (hi : Brings soft k i) :
    Collecting soft lfsr (k + 1) (d.step i) ∧ (d.step i).result = none := by
  have hstep : d.step i = d.stepCollect i := by rw [step, h.state, if_neg (by omega)]
  rw [hstep, stepCollect, if_pos hi.valid, h.word hk]
  refine ⟨⟨⟨h.clock.vit, rfl⟩, rfl, fun hlt ↦ if_neg (by omega), ?_, ?_⟩, result_eq_none rfl⟩
  · rw [WritePort.settle_high, hi.word]
    exact store_of_filled hk h.mem
  · have hscr : Scrambling lfsr (k - 1 + 1) (d.scr.step 432) := h.scr.step (by omega)
    rwa [Nat.sub_add_cancel hpos] at hscr

theorem exec_collecting {k n : ℕ} {is : List SoftDibit}
    (his : List.Forall₂ (Brings soft) (List.range' k n) is) (h : Collecting soft lfsr k d)
    (hpos : 0 < k) (hlen : k + n = 216) :
    Collecting soft lfsr 216 (exec step d is) ∧ emitted step result d is = [] := by
  induction n generalizing k d is with
  | zero =>
      obtain rfl := List.forall₂_nil_left_iff.1 his
      obtain rfl : k = 216 := hlen
      exact ⟨h, rfl⟩
  | succ n ih =>
      rw [List.range'_succ] at his
      obtain ⟨i, is, hi, hrest, rfl⟩ := List.forall₂_cons_left_iff.1 his
      obtain ⟨hnext, hout⟩ := h.step_word hpos (by omega) hi
      rw [emitted_cons_of_none hout]
      exact ih hrest hnext (Nat.succ_pos k) (by omega)

/-! ## Waiting -/

theorem Collecting.waiting (h : Collecting soft lfsr 216 d) : Waiting soft lfsr 215 d where
  toResting := h.toResting
  state := h.state
  port hle := absurd hle (by decide)
  mem := h.mem
  scr := h.scr

theorem leads_waiting {n : ℕ} (hn : n < 432) :
    Leads step result 1 (Waiting soft lfsr n) (Waiting soft lfsr (n + 1)) := by
  refine leads_one fun d i h ↦ ?_
  have hstep : d.step i = d.clock := by
    rw [step, h.state]
    exact if_neg (by rw [h.scr.cnt]; omega)
  rw [hstep]
  exact ⟨⟨h.clock, h.state, fun _ ↦ rfl, h.mem, h.scr.step hn⟩, result_eq_none rfl⟩

theorem leads_deinterleaving :
    Leads step result 1 (Waiting soft lfsr 432) (Deinterleaving soft lfsr 0) := by
  refine leads_one fun d i h ↦ ?_
  have hstep : d.step i = d.stepWaitScr := by rw [step, h.state]
  rw [hstep, stepWaitScr, if_pos h.scr.cnt.ge]
  refine ⟨⟨⟨h.clock.vit, rfl⟩, rfl, rfl, rfl, rfl, rfl, ?_, rfl, h.mem, ?_, ?_⟩,
    result_eq_none rfl⟩
  · intro hpos
    exact absurd hpos (Nat.lt_irrefl 0)
  · intro j hj
    exact absurd hj (Nat.not_lt_zero j)
  · change Scrambling lfsr 432 (d.scr.step 432)
    rw [h.scr.step_end]
    exact h.scr

/-! ## Deinterleaving -/

/-- The half of a word that a value is in. -/
theorem softWord_byte (soft : ℕ → BitVec 8) (a : ℕ) :
    (if a % 2 == 1 then (softWord soft (a / 2)).extractLsb' 8 8
      else (softWord soft (a / 2)).extractLsb' 0 8) = soft a := by
  rw [softWord]
  by_cases ha : a % 2 = 1
  · rw [if_pos (beq_iff_eq.2 ha), BitVec.extractLsb'_append_eq_of_le le_rfl,
      BitVec.extractLsb'_eq_self, show 2 * (a / 2) + 1 = a by omega]
  · rw [if_neg (fun h ↦ ha (beq_iff_eq.1 h)), BitVec.extractLsb'_append_eq_of_add_le le_rfl,
      BitVec.extractLsb'_eq_self, show 2 * (a / 2) = a by omega]

/-- The next address. -/
theorem permIndex_succ (k : ℕ) : permIndex 432 103 (k + 1) =
    if 432 ≤ permIndex 432 103 k + 103 then permIndex 432 103 k + 103 - 432
    else permIndex 432 103 k + 103 := by
  rw [permIndex_eq, permIndex_eq]
  split <;> omega

/-- A cycle that reads a value and writes the one before. -/
theorem step_of_reading (hs : d.state = .deint) (hI : d.deintI < 432)
    (hwr : d.deintWr + (if d.diV then 1 else 0) < 432) : d.step i =
      { d.clock with
        bdeintPort := if d.diV then ⟨true, d.diI, d.diSoft⟩ else { d.bdeintPort with we := false }
        deintWr := if d.diV then d.deintWr + 1 else d.deintWr
        diV := true
        diI := d.deintI
        diAddrLsb := d.deintAddr % 2 == 1
        diScr := d.scr.seq d.deintAddr
        deintI := d.deintI + 1
        deintAddr :=
          if 432 ≤ d.deintAddr + 103 then d.deintAddr + 103 - 432 else d.deintAddr + 103 } := by
  have hstep : d.step i = d.stepDeint := by rw [step, hs]
  rw [hstep, stepDeint]
  simp only [if_pos hI, if_neg (Nat.not_le.2 hwr), decide_eq_true hI]

/-- The cycle that writes the last value. -/
theorem step_of_read (hs : d.state = .deint) (hI : ¬ d.deintI < 432) (hv : d.diV = true)
    (hwr : d.deintWr + 1 = 432) : d.step i =
      { d.clock with
        bdeintPort := ⟨true, d.diI, d.diSoft⟩
        deintWr := d.deintWr + 1
        diV := false
        state := .feed
        vitStage := 0
        vitG := 0
        vitKeptIdx := 0
        feedPhase := false } := by
  have hstep : d.step i = d.stepDeint := by rw [step, hs]
  rw [hstep, stepDeint]
  simp only [if_neg hI, hv, if_true, if_pos hwr.ge, decide_eq_false hI]

namespace Deinterleaving

variable {k : ℕ}

/-- The second buffer with the write of this cycle. -/
theorem filled_step (h : Deinterleaving soft lfsr k d) (hk : k ≤ 432) : ∀ j < k,
    (if d.diV then ⟨true, d.diI, d.diSoft⟩ else { d.bdeintPort with we := false } :
      WritePort (BitVec 8)).settle 432 (d.bdeintPort.settle 432 d.bdeint.mem) j =
        moved lfsr soft j := by
  intro j hj
  have hpos : 0 < k := Nat.zero_lt_of_lt hj
  obtain ⟨hI, hsoft⟩ := h.pipe hpos
  rw [h.diV, decide_eq_true hpos, if_pos rfl, WritePort.settle_high, hI, hsoft]
  exact store_of_filled (by omega) h.filled j (by omega)

/-- What the read of this cycle comes to. -/
theorem soft_step (h : Deinterleaving soft lfsr k d) (hk : k < 432) :
    (let byte := if d.deintAddr % 2 == 1 then
        (d.bsoft.mem (d.deintAddr / 2 % 256)).extractLsb' 8 8
      else (d.bsoft.mem (d.deintAddr / 2 % 256)).extractLsb' 0 8
    if d.scr.seq d.deintAddr then -byte else byte) = moved lfsr soft k := by
  have hlt : permIndex 432 103 k < 432 := permIndex_lt hk
  have hword : permIndex 432 103 k / 2 % 256 = permIndex 432 103 k / 2 :=
    Nat.mod_eq_of_lt (by omega)
  rw [h.addr, hword, h.mem _ (by omega), softWord_byte, h.scr.seq _ hlt]
  rfl

end Deinterleaving

/-- **A value is moved.** -/
theorem leads_deinterleaving_succ {k : ℕ} (hk : k < 432) :
    Leads step result 1 (Deinterleaving soft lfsr k) (Deinterleaving soft lfsr (k + 1)) := by
  refine leads_one fun d i h ↦ ?_
  have hwr : d.deintWr + (if d.diV then 1 else 0) = k := by
    rw [h.wr, h.diV]
    by_cases hpos : 0 < k
    · rw [decide_eq_true hpos, if_pos rfl, Nat.sub_add_cancel hpos]
    · obtain rfl : k = 0 := by omega
      rfl
  rw [step_of_reading h.state (by rw [h.deintI]; exact hk) (by rw [hwr]; exact hk)]
  refine ⟨⟨⟨h.clock.vit, rfl⟩, h.state, ?_, ?_, rfl, ?_, fun _ ↦ ⟨h.deintI, h.soft_step hk⟩, rfl,
    ?_, h.filled_step hk.le, ?_⟩, result_eq_none rfl⟩
  · rw [permIndex_succ, ← h.addr]
  · rw [h.deintI]
  · change (if d.diV then d.deintWr + 1 else d.deintWr) = k
    rw [← hwr]
    split <;> rfl
  · intro j hj
    change d.bsoftPort.settle 216 d.bsoft.mem j = softWord soft j
    rw [WritePort.settle_of_low _ h.port]
    exact h.mem j hj
  · change Scrambling lfsr 432 (d.scr.step 432)
    rw [h.scr.step_end]
    exact h.scr

theorem leads_deinterleaved : Leads step result 1 (Deinterleaving soft lfsr 432)
    (Deinterleaved (moved lfsr soft)) := by
  refine leads_one fun d i h ↦ ?_
  have hv : d.diV = true := h.diV
  have hfilled := h.filled_step le_rfl
  rw [hv, if_pos rfl] at hfilled
  rw [step_of_read h.state (by rw [h.deintI]; exact Nat.lt_irrefl _) hv (by rw [h.wr])]
  refine ⟨⟨⟨h.clock.vit, rfl⟩, rfl, rfl, rfl, rfl, rfl, ?_, hfilled⟩, result_eq_none rfl⟩
  change d.diI ≠ 0
  rw [(h.pipe (by decide)).1]
  decide

/-- **From the last word on, the block is moved in 651 cycles.** -/
theorem leads_buffers : Leads step result 651 (Collecting soft lfsr 216)
    (Deinterleaved (moved lfsr soft)) := by
  have hwait : Leads step result (1 * 217) (Waiting soft lfsr (215 + 0))
      (Waiting soft lfsr (215 + 217)) :=
    leads_rounds (P := fun n ↦ Waiting soft lfsr (215 + n)) fun k hk ↦ leads_waiting (by omega)
  have hmove : Leads step result (1 * 432) (Deinterleaving soft lfsr 0)
      (Deinterleaving soft lfsr 432) := leads_rounds fun k hk ↦ leads_deinterleaving_succ hk
  have hall := ((hwait.trans leads_deinterleaving).trans hmove).trans leads_deinterleaved
  exact fun d is hlen h ↦ hall d is hlen h.waiting

end UlSchFDecoder

end TetraPhy.Rx
