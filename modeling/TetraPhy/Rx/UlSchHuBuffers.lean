import TetraPhy.Rx.UlSchFBuffers
import TetraPhy.Rx.UlSchHuDecoder

/-!
# A block in the buffers of the SCH/HU decoder

The values of a block in the order of transmission are `soft`.  They are collected in pairs
(`Collecting`) while the scrambler runs, which stays ahead of what comes after: the values are
descrambled where they are (`Descrambling`) and moved to where the code has them
(`Deinterleaving`).  What the buffers held before is overwritten and not read.
-/

namespace TetraPhy.Rx

open Codec Permute Run

attribute [local instance] neZeroViterbi neZeroSymbols

/-- The scrambler runs until it has all bits. -/
theorem Scrambling.advance {lfsr : BitVec 32} {n len : ℕ} {s : UlScrambler}
    (h : Scrambling lfsr n s) (hn : n ≤ len) : Scrambling lfsr (min len (n + 1)) (s.step len) := by
  obtain hlt | rfl := hn.lt_or_eq
  · rw [Nat.min_eq_right hlt]
    exact h.step hlt
  · rw [Nat.min_eq_left (Nat.le_succ n), h.step_end]
    exact h

namespace UlSchHuDecoder

open UlSchFDecoder (Brings)

variable {soft : ℕ → BitVec 8} {lfsr : BitVec 32} {d : UlSchHuDecoder} {i : SoftDibit} {k : ℕ}

/-! ## Phases -/

/-- The Viterbi decoder is between blocks. -/
structure Resting (d : UlSchHuDecoder) : Prop where
  vit : d.vit.AtRest
  vitInputValid : d.vitInputValid = false

/-- So is the whole decoder. -/
structure AtRest (d : UlSchHuDecoder) : Prop extends d.Resting where
  state : d.state = .idle

/-- `k` pairs have come in. -/
structure Collecting (soft : ℕ → BitVec 8) (lfsr : BitVec 32) (k : ℕ) (d : UlSchHuDecoder) : Prop
    extends d.Resting where
  state : d.state = if 84 ≤ k then .descramble else .collect
  cnt : k < 84 → d.collectCnt = 2 * k
  stepCnt : 84 ≤ k → d.stepCnt = 0
  mem : ∀ j < 2 * k, d.bufSoft j = soft j
  scr : ∃ n, k ≤ n + 1 ∧ n ≤ 168 ∧ Scrambling lfsr n d.scr

/-- `k` values are descrambled; the scrambler has the bit for the next one. -/
structure Descrambling (soft : ℕ → BitVec 8) (lfsr : BitVec 32) (k : ℕ) (d : UlSchHuDecoder) : Prop
    extends d.Resting where
  state : d.state = .descramble
  stepCnt : d.stepCnt = k
  mem : ∀ j < 168, d.bufSoft j = if j < k then descrambled lfsr soft j else soft j
  scr : ∃ n, k < n ∧ n ≤ 168 ∧ Scrambling lfsr n d.scr

/-- The value that the decoder moves to a place. -/
def moved (lfsr : BitVec 32) (soft : ℕ → BitVec 8) (k : ℕ) : BitVec 8 :=
  descrambled lfsr soft (permIndex 168 13 k)

/-- `k` values are moved. -/
structure Deinterleaving (soft : ℕ → BitVec 8) (lfsr : BitVec 32) (k : ℕ) (d : UlSchHuDecoder) :
    Prop extends d.Resting where
  state : d.state = .deinterleave
  stepCnt : d.stepCnt = k
  addr : d.deintAddr = permIndex 168 13 k
  mem : ∀ j < 168, d.bufSoft j = descrambled lfsr soft j
  filled : ∀ j < k, d.bufDeint j = moved lfsr soft j

/-- All of them are where the code has them. -/
structure Deinterleaved (deint : ℕ → BitVec 8) (d : UlSchHuDecoder) : Prop extends d.Resting where
  state : d.state = .feed
  vitStage : d.vitStage = 0
  vitG : d.vitG = 0
  vitKeptIdx : d.vitKeptIdx = 0
  filled : ∀ j < 168, d.bufDeint j = deint j

theorem result_eq_none (h : d.infoValid = false) : d.result = none := by
  rw [result, h]
  exact if_neg Bool.false_ne_true

/-- Nothing comes to the Viterbi decoder. -/
theorem Resting.clock (h : d.Resting) : d.clock.Resting where
  vit := h.vit.step_quiet h.vitInputValid
  vitInputValid := rfl

/-! ## Collecting -/

/-- A cycle between blocks. -/
theorem AtRest.step_wait (h : d.AtRest) (hv : i.softValid = false) :
    (d.step i).AtRest ∧ (d.step i).result = none := by
  have hstep : d.step i = d.clock := by
    rw [step, h.state]
    exact if_neg (by rw [hv]; exact Bool.false_ne_true)
  rw [hstep]
  exact ⟨⟨h.clock, h.state⟩, result_eq_none rfl⟩

/-- The cycles in which the values from pair `k` on come in. -/
inductive Pairs (soft : ℕ → BitVec 8) : ℕ → List SoftDibit → Prop
  | nil : Pairs soft 84 []
  | pair {k : ℕ} {i : SoftDibit} {is : List SoftDibit} (hk : k < 84) (hi : Brings soft k i)
      (rest : Pairs soft (k + 1) is) : Pairs soft k (i :: is)
  | gap {k : ℕ} {i : SoftDibit} {is : List SoftDibit} (hk : k < 84) (hv : i.softValid = false)
      (rest : Pairs soft k is) : Pairs soft k (i :: is)

/-- A pair in a buffer that is filled from the front. -/
theorem store_pair {mem f : ℕ → BitVec 8} (hk : k < 84) (h : ∀ j < 2 * k, mem j = f j) :
    ∀ j < 2 * (k + 1),
      store 168 (store 168 mem (2 * k) (f (2 * k))) (2 * k + 1) (f (2 * k + 1)) j = f j := by
  have heven : 2 * k < 168 := by omega
  have hodd : 2 * k + 1 < 168 := by omega
  exact store_of_filled hodd (store_of_filled heven h)

/-- **The first pair**, -/
theorem AtRest.step_first (h : d.AtRest) (hi : Brings soft 0 i) :
    Collecting soft (ulSeed i.scrambInit) 1 (d.step i) ∧ (d.step i).result = none := by
  have hstep : d.step i = d.stepIdle i := by rw [step, h.state]
  have hnone : ∀ j < 2 * 0, d.bufSoft j = soft j := fun j hj ↦ absurd hj (Nat.not_lt_zero j)
  rw [hstep, stepIdle, if_pos hi.valid, hi.bit1, hi.bit0]
  refine ⟨⟨⟨h.clock.vit, rfl⟩, rfl, fun _ ↦ rfl, fun hle ↦ absurd hle (by decide),
    store_pair (by decide) hnone, 0, le_rfl, Nat.zero_le _, rfl, rfl, rfl, ?_⟩, result_eq_none rfl⟩
  intro j hj
  exact absurd hj (Nat.not_lt_zero j)

/-- **each further one**, -/
theorem Collecting.step_pair (h : Collecting soft lfsr k d) (hk : k < 84) (hi : Brings soft k i) :
    Collecting soft lfsr (k + 1) (d.step i) ∧ (d.step i).result = none := by
  have hstep : d.step i = d.stepCollect i := by rw [step, h.state, if_neg (Nat.not_le.2 hk)]
  obtain ⟨n, hkn, hn, hscr⟩ := h.scr
  rw [hstep, stepCollect, if_pos hi.valid, h.cnt hk, hi.bit1, hi.bit0]
  have hlast : 168 ≤ 2 * k + 2 ↔ 84 ≤ k + 1 := by omega
  refine ⟨⟨⟨h.clock.vit, rfl⟩, ?_, fun hlt ↦ if_neg (by omega), fun hle ↦ if_pos (hlast.2 hle),
    store_pair hk h.mem, min 168 (n + 1), by omega, Nat.min_le_left _ _, hscr.advance hn⟩,
    result_eq_none rfl⟩
  exact if_congr hlast rfl rfl

/-- and the cycles between them. -/
theorem Collecting.step_gap (h : Collecting soft lfsr k d) (hk : k < 84)
    (hv : i.softValid = false) :
    Collecting soft lfsr k (d.step i) ∧ (d.step i).result = none := by
  have hstep : d.step i = d.clock := by
    rw [step, h.state, if_neg (Nat.not_le.2 hk)]
    exact if_neg (by rw [hv]; exact Bool.false_ne_true)
  obtain ⟨n, hkn, hn, hscr⟩ := h.scr
  rw [hstep]
  exact ⟨⟨h.clock, h.state, h.cnt, h.stepCnt, h.mem, min 168 (n + 1), by omega,
    Nat.min_le_left _ _, hscr.advance hn⟩, result_eq_none rfl⟩

theorem exec_collecting {is : List SoftDibit} (his : Pairs soft k is)
    (h : Collecting soft lfsr k d) :
    Collecting soft lfsr 84 (exec step d is) ∧ emitted step result d is = [] := by
  induction his generalizing d with
  | nil => exact ⟨h, rfl⟩
  | pair hk hi _ ih =>
      obtain ⟨hnext, hout⟩ := h.step_pair hk hi
      rw [emitted_cons_of_none hout]
      exact ih hnext
  | gap hk hv _ ih =>
      obtain ⟨hnext, hout⟩ := h.step_gap hk hv
      rw [emitted_cons_of_none hout]
      exact ih hnext

theorem Collecting.descrambling (h : Collecting soft lfsr 84 d) : Descrambling soft lfsr 0 d where
  toResting := h.toResting
  state := h.state
  stepCnt := h.stepCnt le_rfl
  mem j hj := by rw [if_neg (Nat.not_lt_zero j)]; exact h.mem j hj
  scr := by
    obtain ⟨n, hkn, hn, hscr⟩ := h.scr
    exact ⟨n, by omega, hn, hscr⟩

/-! ## Descrambling -/

/-- A value descrambled in place. -/
theorem mem_descrambled {mem : ℕ → BitVec 8} {b : Bool} (hk : k < 168)
    (hb : b = Lmac.lfsrFb (Lmac.lfsrNext^[k] lfsr))
    (h : ∀ j < 168, mem j = if j < k then descrambled lfsr soft j else soft j) :
    ∀ j < 168, (if b then store 168 mem k (-mem k) else mem) j =
      if j < k + 1 then descrambled lfsr soft j else soft j := by
  intro j hj
  have hself : mem k = soft k := by rw [h k hk, if_neg (Nat.lt_irrefl k)]
  by_cases he : j = k
  · subst he
    rw [if_pos (Nat.lt_succ_self j), descrambled, ← hb]
    cases b with
    | false => exact hself
    | true =>
        rw [if_pos rfl, if_pos rfl, store, if_pos hk, Function.update_self, hself]
  · have hlt : j < k + 1 ↔ j < k := by omega
    have hmem : (if b then store 168 mem k (-mem k) else mem) j = mem j := by
      cases b with
      | false => rfl
      | true =>
          rw [if_pos rfl, store, if_pos hk]
          exact Function.update_of_ne he _ _
    rw [hmem, h j hj, if_congr hlt rfl rfl]

/-- The cycle of a value. -/
theorem Descrambling.step_eq (h : Descrambling soft lfsr k d) : d.step i = { d.clock with
    bufSoft := if d.scr.seq k then store 168 d.bufSoft k (-d.bufSoft k) else d.bufSoft
    state := if 168 ≤ k + 1 then .deinterleave else .descramble
    stepCnt := if 168 ≤ k + 1 then 0 else k + 1
    deintAddr := if 168 ≤ k + 1 then 13 else d.deintAddr } := by
  obtain ⟨n, hkn, -, hscr⟩ := h.scr
  have hstep : d.step i = d.stepDescramble := by rw [step, h.state]
  rw [hstep, stepDescramble, h.stepCnt, if_pos (by rw [hscr.cnt]; exact hkn)]

theorem Descrambling.mem_step (h : Descrambling soft lfsr k d) (hk : k < 168) : ∀ j < 168,
    (if d.scr.seq k then store 168 d.bufSoft k (-d.bufSoft k) else d.bufSoft) j =
      if j < k + 1 then descrambled lfsr soft j else soft j := by
  obtain ⟨n, hkn, -, hscr⟩ := h.scr
  exact mem_descrambled hk (hscr.seq k hkn) h.mem

/-- **A value is descrambled**, -/
theorem leads_descrambling (hk : k + 1 < 168) :
    Leads step result 1 (Descrambling soft lfsr k) (Descrambling soft lfsr (k + 1)) := by
  refine leads_one fun d i h ↦ ?_
  have hnot : ¬ 168 ≤ k + 1 := Nat.not_le.2 hk
  obtain ⟨n, hkn, hn, hscr⟩ := h.scr
  rw [h.step_eq]
  exact ⟨⟨⟨h.clock.vit, rfl⟩, if_neg hnot, if_neg hnot, h.mem_step (by omega), min 168 (n + 1),
    by omega, Nat.min_le_left _ _, hscr.advance hn⟩, result_eq_none rfl⟩

/-- and the last one. -/
theorem leads_deinterleaving :
    Leads step result 1 (Descrambling soft lfsr 167) (Deinterleaving soft lfsr 0) := by
  refine leads_one fun d i h ↦ ?_
  have hmem := h.mem_step (by decide)
  rw [h.step_eq]
  refine ⟨⟨⟨h.clock.vit, rfl⟩, rfl, rfl, rfl, fun j hj ↦ ?_, fun j hj ↦ ?_⟩, result_eq_none rfl⟩
  · exact (hmem j hj).trans (if_pos hj)
  · exact absurd hj (Nat.not_lt_zero j)

/-! ## Deinterleaving -/

/-- The next address. -/
theorem permIndex_succ (k : ℕ) : permIndex 168 13 (k + 1) =
    if 168 ≤ permIndex 168 13 k + 13 then permIndex 168 13 k + 13 - 168
    else permIndex 168 13 k + 13 := by
  rw [permIndex_eq, permIndex_eq]
  split <;> omega

/-- The second buffer after the cycle of a value. -/
theorem Deinterleaving.filled_step (h : Deinterleaving soft lfsr k d) (hk : k < 168) :
    ∀ j < k + 1, store 168 d.bufDeint k (d.bufSoft (permIndex 168 13 k)) j = moved lfsr soft j := by
  have hsoft : d.bufSoft (permIndex 168 13 k) = moved lfsr soft k := h.mem _ (permIndex_lt hk)
  rw [hsoft]
  exact store_of_filled hk h.filled

/-- **A value is moved**, -/
theorem leads_moved (hk : k + 1 < 168) :
    Leads step result 1 (Deinterleaving soft lfsr k) (Deinterleaving soft lfsr (k + 1)) := by
  refine leads_one fun d i h ↦ ?_
  have hstep : d.step i = d.stepDeinterleave := by rw [step, h.state]
  have hfilled := h.filled_step (Nat.lt_of_succ_lt hk)
  rw [hstep, stepDeinterleave, h.stepCnt, h.addr, if_neg (Nat.not_le.2 hk)]
  exact ⟨⟨⟨h.clock.vit, rfl⟩, h.state, rfl, (permIndex_succ k).symm, h.mem, hfilled⟩,
    result_eq_none rfl⟩

/-- and the last one. -/
theorem leads_deinterleaved : Leads step result 1 (Deinterleaving soft lfsr 167)
    (Deinterleaved (moved lfsr soft)) := by
  refine leads_one fun d i h ↦ ?_
  have hstep : d.step i = d.stepDeinterleave := by rw [step, h.state]
  have hfilled := h.filled_step (by decide)
  rw [hstep, stepDeinterleave, h.stepCnt, h.addr, if_pos (by decide)]
  exact ⟨⟨⟨h.clock.vit, rfl⟩, rfl, rfl, rfl, rfl, hfilled⟩, result_eq_none rfl⟩

/-- **From the last pair on, the block is moved in 336 cycles.** -/
theorem leads_buffers : Leads step result 336 (Collecting soft lfsr 84)
    (Deinterleaved (moved lfsr soft)) := by
  have hflip : Leads step result (1 * 167) (Descrambling soft lfsr 0) (Descrambling soft lfsr 167) :=
    leads_rounds fun k hk ↦ leads_descrambling (by omega)
  have hmove : Leads step result (1 * 167) (Deinterleaving soft lfsr 0)
      (Deinterleaving soft lfsr 167) := leads_rounds fun k hk ↦ leads_moved (by omega)
  have hall := ((hflip.trans leads_deinterleaving).trans hmove).trans leads_deinterleaved
  exact fun d is hlen h ↦ hall d is hlen h.descrambling

end UlSchHuDecoder

/-- They are the values in the order of the code. -/
theorem ulDeint_schhu (scrambInit : BitVec 32) (soft : ℕ → BitVec 8) :
    ulDeint schhu scrambInit ((List.range 168).map soft) =
      (List.range 168).map (UlSchHuDecoder.moved (ulSeed scrambInit) soft) :=
  ulDeint_range schhu scrambInit soft

end TetraPhy.Rx
