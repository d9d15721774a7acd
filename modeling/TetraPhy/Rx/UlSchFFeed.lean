import TetraPhy.Rx.UlSchFBuffers

/-!
# A block through the SCH/F decoder

Once the values of a block are where the code has them, the symbols are put together and fed
(`Feeding`, and `Issued` between the two cycles of a symbol), the Viterbi decoder goes back
(`Draining`) and sends, its bits are collected a cycle behind it (`Capturing`), and the CRC is fed
(`FeedingCrc`).  No phase looks at the inputs.
-/

namespace TetraPhy.Rx

open Codec Survivor Run

attribute [local instance] neZeroViterbi neZeroSymbols

/-! ## Symbols -/

/-- `vit_kept_idx_sys` before a symbol. -/
def keptBefore (t : ℕ) (g : Fin 4) : ℕ :=
  3 * (t / 2) + if t % 2 = 1 then (if g = 0 then 2 else 3) else min g.val 2

theorem keptBefore_of_isKept {t : ℕ} {g : Fin 4} (h : isKept (t % 2 == 1) g = true) :
    keptBefore t g = keptIdx t g := by
  have hodd : ∀ g, isKept true g = true → (if g = 0 then 2 else 3) = 2 := by decide
  have heven : ∀ g, isKept false g = true → min g.val 2 = g.val := by decide
  rw [keptBefore, keptIdx]
  by_cases ht : t % 2 = 1
  · rw [beq_iff_eq.2 ht] at h
    rw [if_pos ht, if_pos ht, hodd g h]
  · rw [beq_eq_false_iff_ne.2 ht] at h
    rw [if_neg ht, if_neg ht, heven g h]

theorem keptIdx_lt {n t : ℕ} {g : Fin 4} (ht : t < 2 * n) (h : isKept (t % 2 == 1) g = true) :
    keptIdx t g < 3 * n := by
  have heven : ∀ g, isKept false g = true → g.val < 2 := by decide
  rw [keptIdx]
  by_cases hodd : t % 2 = 1
  · rw [if_pos hodd]
    omega
  · rw [beq_eq_false_iff_ne.2 hodd] at h
    have hlt := heven g h
    rw [if_neg hodd]
    omega

/-- The next index in a stage, -/
theorem keptBefore_succ {t : ℕ} {g : Fin 4} (hg : g ≠ 3) : keptBefore t (g + 1) =
    if isKept (t % 2 == 1) g then keptBefore t g + 1 else keptBefore t g := by
  have hodd : ∀ g : Fin 4, g ≠ 3 → ∀ k, k + (if g + 1 = 0 then 2 else 3) =
      if isKept true g then k + (if g = 0 then 2 else 3) + 1
      else k + (if g = 0 then 2 else 3) := by
    apply forall_symbol
    case h3 => exact fun hg ↦ absurd rfl hg
    all_goals exact fun _ _ ↦ rfl
  have heven : ∀ g : Fin 4, g ≠ 3 → ∀ k, k + min (g + 1).val 2 =
      if isKept false g then k + min g.val 2 + 1 else k + min g.val 2 := by
    apply forall_symbol
    case h3 => exact fun hg ↦ absurd rfl hg
    all_goals exact fun _ _ ↦ rfl
  by_cases ht : t % 2 = 1
  · simp only [keptBefore, if_pos ht, beq_iff_eq.2 ht]
    exact hodd g hg _
  · simp only [keptBefore, if_neg ht, beq_eq_false_iff_ne.2 ht]
    exact heven g hg _

/-- and in the next one. -/
theorem keptBefore_zero (t : ℕ) : keptBefore (t + 1) 0 = keptBefore t 3 := by
  by_cases ht : t % 2 = 1
  · simp only [keptBefore, if_pos ht, if_neg (show ¬ (t + 1) % 2 = 1 by omega)]
    change 3 * ((t + 1) / 2) + 0 = 3 * (t / 2) + 3
    omega
  · simp only [keptBefore, if_neg ht, if_pos (show (t + 1) % 2 = 1 by omega)]
    change 3 * ((t + 1) / 2) + 2 = 3 * (t / 2) + 2
    omega

/-- The symbols of the first stages. -/
def symbolsTo (deint : ℕ → BitVec 8) (t : ℕ) : List (Fin 4 → BitVec 5) :=
  (List.range t).map (symbolAt deint)

@[simp] theorem length_symbolsTo (deint : ℕ → BitVec 8) (t : ℕ) :
    (symbolsTo deint t).length = t := by
  rw [symbolsTo, List.length_map, List.length_range]

theorem symbolsTo_succ (deint : ℕ → BitVec 8) (t : ℕ) :
    symbolsTo deint (t + 1) = symbolsTo deint t ++ [symbolAt deint t] := by
  rw [symbolsTo, List.range_succ, List.map_append]
  rfl

/-- All of them are the symbols of the block. -/
theorem symbolsOf_range (n : ℕ) (deint : ℕ → BitVec 8) :
    symbolsOf ((List.range (3 * n)).map deint) = symbolsTo deint (2 * n) := by
  rw [symbolsOf, symbolsTo, List.length_map, List.length_range,
    Nat.mul_div_cancel_left n (by decide)]
  refine List.map_congr_left fun t ht ↦ funext fun g ↦ ?_
  rw [symbolAt, symbolAt]
  by_cases hk : isKept (t % 2 == 1) g = true
  · rw [if_pos hk, if_pos hk, List.getD_eq_getElem?_getD, List.getElem?_map,
      List.getElem?_range (keptIdx_lt (List.mem_range.1 ht) hk)]
    rfl
  · rw [if_neg hk, if_neg hk]

theorem symbolsOf_map_range (deint : ℕ → BitVec 8) :
    symbolsOf ((List.range 432).map deint) = symbolsTo deint 288 := symbolsOf_range 144 deint

/-- The block that the Viterbi decoder sees. -/
def viterbiBlock (deint : ℕ → BitVec 8) : SymbolBlock 5 288 where
  symbols := symbolsTo deint 288
  long := by rw [length_symbolsTo]; decide
  fits := by rw [length_symbolsTo]
  counted := by rw [length_symbolsTo]; decide

theorem WritePort.settle_of_ne {α : Type} {p : WritePort α} {size j : ℕ} {mem : ℕ → α}
    (h : p.we = true → p.waddr ≠ j) : p.settle size mem j = mem j := by
  rw [settle]
  by_cases hwe : p.we = true
  · rw [if_pos hwe, store]
    split
    · exact Function.update_of_ne (h hwe).symm _ _
    · rfl
  · rw [if_neg hwe]

/-- No bit comes after a cycle that is not an output cycle. -/
theorem UlViterbiR14.quiet_step {w maxStages : ℕ} {d : UlViterbiR14} {i : UlViterbiIn w}
    (h : d.state ≠ .output) :
    (d.step maxStages i).decodedValid = false ∧ (d.step maxStages i).blockDone = false := by
  have hout : (d.state == UlViterbiState.output) = false := beq_eq_false_iff_ne.2 h
  refine ⟨hout, ?_⟩
  change d.outDone i = false
  rw [outDone, hout, Bool.false_and]

theorem UlViterbiR14Bram.quiet_step {w maxStages : ℕ} {b : UlViterbiR14Bram} {i : UlViterbiIn w}
    (h : b.state ≠ .output) :
    (b.step maxStages i).decodedValid = false ∧ (b.step maxStages i).blockDone = false := by
  have hout : (b.state == UlViterbiState.output) = false := beq_eq_false_iff_ne.2 h
  refine ⟨hout, ?_⟩
  change b.outDone i = false
  rw [UlViterbiR14.outDone, hout, Bool.false_and]

/-- The symbols of a stage up to the one that is written. -/
theorem update_symbol {α : Type} {softs f : Fin 4 → α} {g : Fin 4} (h : ∀ g' < g, softs g' = f g') :
    ∀ g' ≤ g, Function.update softs g (f g) g' = f g' := by
  intro g' hg'
  by_cases he : g' = g
  · rw [he, Function.update_self]
  · rw [Function.update_of_ne he]
    exact h g' (lt_of_le_of_ne hg' he)

namespace UlSchFDecoder

variable {deint : ℕ → BitVec 8} {d : UlSchFDecoder} {i : SoftDibit} {t : ℕ} {g : Fin 4}

/-! ## Feeding -/

/-- The stage that the Viterbi decoder takes in the next cycle. -/
def pending (d : UlSchFDecoder) : List (Fin 4 → BitVec 5) :=
  if d.vitInputValid then [d.vitSoft] else []

/-- A symbol is next. -/
structure Feeding (deint : ℕ → BitVec 8) (t : ℕ) (g : Fin 4) (d : UlSchFDecoder) : Prop where
  state : d.state = .feed
  vitStage : d.vitStage = t
  vitG : d.vitG = g
  vitKeptIdx : d.vitKeptIdx = keptBefore t g
  feedPhase : d.feedPhase = false
  port : d.bdeintPort.we = true → d.bdeintPort.waddr ≠ d.vitKeptIdx
  filled : ∀ j < 432, d.bdeintPort.settle 432 d.bdeint.mem j = deint j
  vitSoft : ∀ g' < g, d.vitSoft g' = symbolAt deint t g'
  vit : ∃ taken, d.vit.Loading taken ∧ taken ++ d.pending = symbolsTo deint t

/-- It has been read. -/
structure Issued (deint : ℕ → BitVec 8) (t : ℕ) (g : Fin 4) (d : UlSchFDecoder) : Prop where
  state : d.state = .feed
  vitStage : d.vitStage = t
  vitG : d.vitG = g
  vitKeptIdx : d.vitKeptIdx = keptBefore t g
  feedPhase : d.feedPhase = true
  active : d.vitSoftActive = symbolAt deint t g
  filled : ∀ j < 432, d.bdeintPort.settle 432 d.bdeint.mem j = deint j
  vitSoft : ∀ g' < g, d.vitSoft g' = symbolAt deint t g'
  vit : d.vit.Loading (symbolsTo deint t)
  vitInputValid : d.vitInputValid = false

/-- All stages are fed, the last one in the next cycle. -/
structure Fed (deint : ℕ → BitVec 8) (d : UlSchFDecoder) : Prop where
  state : d.state = .drain
  vitOutCnt : d.vitOutCnt = 0
  vitSoft : d.vitSoft = symbolAt deint 287
  vit : d.vit.Loading (symbolsTo deint 287)
  vitInputValid : d.vitInputValid = true
  decodedValid : d.vit.decodedValid = false
  blockDone : d.vit.blockDone = false

/-- The Viterbi decoder takes what is pending. -/
theorem loading_clock {taken : List (Fin 4 → BitVec 5)} (h : d.vit.Loading taken)
    (hlen : (taken ++ d.pending).length < 288) : d.clock.vit.Loading (taken ++ d.pending) := by
  change (d.vit.step 288 ⟨d.vitSoft, d.vitInputValid, 288⟩).Loading _
  rw [UlViterbiR14Bram.step_core_of_front h.front]
  rw [pending] at hlen ⊢
  by_cases hv : d.vitInputValid = true
  · rw [if_pos hv] at hlen ⊢
    rw [List.length_append] at hlen
    exact h.step_symbol (i := ⟨d.vitSoft, d.vitInputValid, 288⟩) hv hlen le_rfl
  · rw [if_neg hv, List.append_nil]
    exact h.step_quiet (i := ⟨d.vitSoft, d.vitInputValid, 288⟩) (eq_false_of_ne_true hv)

theorem Deinterleaved.feeding (h : Deinterleaved deint d) : Feeding deint 0 0 d where
  state := h.state
  vitStage := h.vitStage
  vitG := h.vitG
  vitKeptIdx := h.vitKeptIdx
  feedPhase := h.feedPhase
  port _ := by rw [h.vitKeptIdx]; exact h.port
  filled := h.filled
  vitSoft g' hg' := absurd hg' (Fin.not_lt_zero g')
  vit := ⟨[], h.vit.loading, by rw [pending, h.vitInputValid]; rfl⟩

/-- **A symbol is read.** -/
theorem leads_issued (ht : t < 288) :
    Leads step result 1 (Feeding deint t g) (Issued deint t g) := by
  refine leads_one fun d i h ↦ ?_
  have hstep : d.step i = { d.clock with feedPhase := true } := by
    rw [step, h.state]
    exact if_neg (by rw [h.feedPhase]; exact Bool.false_ne_true)
  obtain ⟨taken, hload, htaken⟩ := h.vit
  have hvit := loading_clock hload (by rw [htaken, length_symbolsTo]; exact ht)
  rw [htaken] at hvit
  rw [hstep]
  refine ⟨⟨h.state, h.vitStage, h.vitG, h.vitKeptIdx, rfl, ?_, h.filled, h.vitSoft, hvit, rfl⟩,
    result_eq_none rfl⟩
  change (if isKept (d.vitStage % 2 == 1) d.vitG then toVitSoft (d.bdeint.mem d.vitKeptIdx)
    else vitCenter) = symbolAt deint t g
  rw [h.vitStage, h.vitG, symbolAt]
  by_cases hk : isKept (t % 2 == 1) g = true
  · have hsettled : d.bdeintPort.settle 432 d.bdeint.mem d.vitKeptIdx =
        d.bdeint.mem d.vitKeptIdx := WritePort.settle_of_ne h.port
    rw [if_pos hk, if_pos hk, ← hsettled, h.vitKeptIdx, keptBefore_of_isKept hk,
      h.filled _ (keptIdx_lt (n := 144) ht hk)]
  · rw [if_neg hk, if_neg hk]

/-- The cycle that uses what was read. -/
theorem Issued.step_eq (h : Issued deint t g d) : d.step i = { d.clock with
    vitSoft := Function.update d.vitSoft g (symbolAt deint t g)
    vitKeptIdx := if isKept (t % 2 == 1) g then d.vitKeptIdx + 1 else d.vitKeptIdx
    feedPhase := false
    vitInputValid := g == 3
    vitG := g + 1
    state := if g = 3 ∧ 288 ≤ t + 1 then .drain else .feed
    vitOutCnt := if g = 3 ∧ 288 ≤ t + 1 then 0 else d.vitOutCnt
    vitStage := if g = 3 ∧ t + 1 < 288 then t + 1 else t } := by
  have hstep : d.step i = d.stepFeed := by rw [step, h.state]
  rw [hstep, stepFeed, if_pos h.feedPhase, h.active, vitIsKept, h.vitG, h.vitStage]

theorem Issued.loading_clock (h : Issued deint t g d) (ht : t < 288) :
    d.clock.vit.Loading (symbolsTo deint t) := by
  have hnone : d.pending = [] := by
    rw [pending, h.vitInputValid]
    exact if_neg Bool.false_ne_true
  have hvit := UlSchFDecoder.loading_clock h.vit
    (by rw [hnone, List.append_nil, length_symbolsTo]; exact ht)
  rwa [hnone, List.append_nil] at hvit

/-- **A symbol is passed on**, in a stage, -/
theorem leads_symbol (ht : t < 288) (hg : g ≠ 3) :
    Leads step result 1 (Issued deint t g) (Feeding deint t (g + 1)) := by
  refine leads_one fun d i h ↦ ?_
  have hlast : ∀ q : Prop, ¬ (g = 3 ∧ q) := fun q hq ↦ hg hq.1
  have hle : ∀ g : Fin 4, g ≠ 3 → ∀ g' < g + 1, g' ≤ g := by decide
  rw [h.step_eq]
  refine ⟨⟨if_neg (hlast _), if_neg (hlast _), rfl, ?_, rfl, ?_, h.filled, ?_,
    symbolsTo deint t, h.loading_clock ht, ?_⟩, result_eq_none rfl⟩
  · rw [keptBefore_succ hg, ← h.vitKeptIdx]
  · intro hwe
    exact absurd hwe Bool.false_ne_true
  · intro g' hg'
    exact update_symbol h.vitSoft g' (hle g hg g' hg')
  · rw [pending, if_neg (fun he ↦ hg (beq_iff_eq.1 he)), List.append_nil]

/-- at its end, -/
theorem leads_stage (ht : t + 1 < 288) :
    Leads step result 1 (Issued deint t 3) (Feeding deint (t + 1) 0) := by
  refine leads_one fun d i h ↦ ?_
  have hsoft : Function.update d.vitSoft 3 (symbolAt deint t 3) = symbolAt deint t :=
    funext fun g' ↦ update_symbol h.vitSoft g' (Fin.le_last g')
  rw [h.step_eq]
  refine ⟨⟨if_neg (fun hq ↦ Nat.not_le.2 ht hq.2), if_pos ⟨rfl, ht⟩, rfl, ?_, rfl, ?_, h.filled,
    ?_, symbolsTo deint t, h.loading_clock (by omega), ?_⟩, result_eq_none rfl⟩
  · have hnot : isKept (t % 2 == 1) 3 = false := rfl
    rw [keptBefore_zero, ← h.vitKeptIdx, hnot]
    rfl
  · intro hwe
    exact absurd hwe Bool.false_ne_true
  · intro g' hg'
    exact absurd hg' (Fin.not_lt_zero g')
  · change symbolsTo deint t ++ [Function.update d.vitSoft 3 (symbolAt deint t 3)] = _
    rw [hsoft, symbolsTo_succ]

/-- and at the end of the last one. -/
theorem leads_fed : Leads step result 1 (Issued deint 287 3) (Fed deint) := by
  refine leads_one fun d i h ↦ ?_
  have hsoft : Function.update d.vitSoft 3 (symbolAt deint 287 3) = symbolAt deint 287 :=
    funext fun g' ↦ update_symbol h.vitSoft g' (Fin.le_last g')
  obtain ⟨hvalid, hdone⟩ : d.clock.vit.decodedValid = false ∧ d.clock.vit.blockDone = false :=
    UlViterbiR14Bram.quiet_step h.vit.state_ne
  rw [h.step_eq]
  exact ⟨⟨rfl, rfl, hsoft, h.loading_clock (by decide), rfl, hvalid, hdone⟩, result_eq_none rfl⟩

/-- **The symbols are fed in 2304 cycles.** -/
theorem leads_feed : Leads step result 2304 (Deinterleaved deint) (Fed deint) := by
  have hquad : ∀ t < 288, Leads step result 7 (Feeding deint t 0) (Issued deint t 3) := by
    intro t ht
    have h0 : Leads step result 2 (Feeding deint t 0) (Feeding deint t 1) :=
      (leads_issued ht).trans (leads_symbol ht (by decide))
    have h1 := (h0.trans (leads_issued ht)).trans (leads_symbol ht (by decide))
    have h2 := (h1.trans (leads_issued ht)).trans (leads_symbol ht (by decide))
    exact h2.trans (leads_issued ht)
  have hstages : Leads step result (8 * 287) (Feeding deint 0 0) (Feeding deint 287 0) :=
    leads_rounds (P := fun t ↦ Feeding deint t 0) fun t ht ↦
      (hquad t (by omega)).trans (leads_stage (by omega))
  have hall := (hstages.trans (hquad 287 (by decide))).trans leads_fed
  exact fun d is hlen h ↦ hall d is hlen h.feeding

end UlSchFDecoder

end TetraPhy.Rx
