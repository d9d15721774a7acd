import TetraPhy.Rx.UlBlockTail
import TetraPhy.Rx.UlSchFFeed
import TetraPhy.Rx.UlSchHuBuffers

/-!
# Blocks through the SCH/HU decoder

Once the values of a block are where the code has them, the symbols are fed (`Feeding`), the
Viterbi decoder goes back and sends (`Draining`), and its bits go through the registers behind it
(`UlTail`).

`exec_block` is the whole of it.  A decoder between blocks, whatever else its registers and
buffers hold, is between blocks again 1118 cycles after the last pair of a block, and has had one
result by then, which is a function of the block and the seed alone.
-/

namespace TetraPhy.Rx

open Codec Survivor Run

attribute [local instance] neZeroViterbi neZeroSymbols

/-- The symbols of a block. -/
theorem symbolsOf_map_range_schhu (deint : ℕ → BitVec 8) :
    symbolsOf ((List.range 168).map deint) = symbolsTo deint 112 := symbolsOf_range 56 deint

/-- The block that the Viterbi decoder sees. -/
def huViterbiBlock (deint : ℕ → BitVec 8) : SymbolBlock 5 112 where
  symbols := symbolsTo deint 112
  long := by rw [length_symbolsTo]; decide
  fits := by rw [length_symbolsTo]
  counted := by rw [length_symbolsTo]; decide

namespace UlSchHuDecoder

variable {deint : ℕ → BitVec 8} {d : UlSchHuDecoder} {i : SoftDibit} {t : ℕ} {g : Fin 4}

/-! ## Feeding -/

/-- The stage that the Viterbi decoder takes in the next cycle. -/
def pending (d : UlSchHuDecoder) : List (Fin 4 → BitVec 5) :=
  if d.vitInputValid then [d.vitSoft] else []

/-- A symbol is next. -/
structure Feeding (deint : ℕ → BitVec 8) (t : ℕ) (g : Fin 4) (d : UlSchHuDecoder) : Prop where
  state : d.state = .feed
  vitStage : d.vitStage = t
  vitG : d.vitG = g
  vitKeptIdx : d.vitKeptIdx = keptBefore t g
  filled : ∀ j < 168, d.bufDeint j = deint j
  vitSoft : ∀ g' < g, d.vitSoft g' = symbolAt deint t g'
  vit : ∃ taken, d.vit.Loading taken ∧ taken ++ d.pending = symbolsTo deint t

/-- All stages are fed, the last one in the next cycle. -/
structure Fed (deint : ℕ → BitVec 8) (d : UlSchHuDecoder) : Prop where
  state : d.state = .drain
  vitOutCnt : d.vitOutCnt = 0
  vitSoft : d.vitSoft = symbolAt deint 111
  vit : d.vit.Loading (symbolsTo deint 111)
  vitInputValid : d.vitInputValid = true
  sent : d.vit.decodedValid = false
  blockDone : d.vit.blockDone = false

/-- The Viterbi decoder takes what is pending. -/
theorem loading_clock {taken : List (Fin 4 → BitVec 5)} (h : d.vit.Loading taken)
    (hlen : (taken ++ d.pending).length < 112) : d.clock.vit.Loading (taken ++ d.pending) := by
  change (d.vit.step 112 ⟨d.vitSoft, d.vitInputValid, 112⟩).Loading _
  rw [pending] at hlen ⊢
  by_cases hv : d.vitInputValid = true
  · rw [if_pos hv] at hlen ⊢
    rw [List.length_append] at hlen
    exact h.step_symbol (i := ⟨d.vitSoft, d.vitInputValid, 112⟩) hv hlen le_rfl
  · rw [if_neg hv, List.append_nil]
    exact h.step_quiet (i := ⟨d.vitSoft, d.vitInputValid, 112⟩) (eq_false_of_ne_true hv)

theorem Deinterleaved.feeding (h : Deinterleaved deint d) : Feeding deint 0 0 d where
  state := h.state
  vitStage := h.vitStage
  vitG := h.vitG
  vitKeptIdx := h.vitKeptIdx
  filled := h.filled
  vitSoft g' hg' := absurd hg' (Fin.not_lt_zero g')
  vit := ⟨[], h.vit.loading, by rw [pending, h.vitInputValid]; rfl⟩

namespace Feeding

/-- The symbol of this cycle. -/
theorem vitSoftActive_eq (h : Feeding deint t g d) (ht : t < 112) :
    d.vitSoftActive = symbolAt deint t g := by
  rw [vitSoftActive, vitIsKept, h.vitStage, h.vitG, symbolAt]
  by_cases hk : isKept (t % 2 == 1) g = true
  · rw [if_pos hk, if_pos hk, h.vitKeptIdx, keptBefore_of_isKept hk,
      h.filled _ (keptIdx_lt (n := 56) ht hk)]
  · rw [if_neg hk, if_neg hk]

/-- The cycle of a symbol. -/
theorem step_eq (h : Feeding deint t g d) (ht : t < 112) : d.step i = { d.clock with
    vitSoft := Function.update d.vitSoft g (symbolAt deint t g)
    vitKeptIdx := if isKept (t % 2 == 1) g then keptBefore t g + 1 else keptBefore t g
    vitInputValid := g == 3
    vitG := g + 1
    state := if g = 3 ∧ 112 ≤ t + 1 then .drain else .feed
    vitOutCnt := if g = 3 ∧ 112 ≤ t + 1 then 0 else d.vitOutCnt
    vitStage := if g = 3 ∧ t + 1 < 112 then t + 1 else t } := by
  have hstep : d.step i = d.stepFeed := by rw [step, h.state]
  rw [hstep, stepFeed, h.vitSoftActive_eq ht, vitIsKept, h.vitG, h.vitStage, h.vitKeptIdx]

theorem vit_clock (h : Feeding deint t g d) (ht : t < 112) :
    d.clock.vit.Loading (symbolsTo deint t) := by
  obtain ⟨taken, hload, htaken⟩ := h.vit
  have hvit := loading_clock hload (by rw [htaken, length_symbolsTo]; exact ht)
  rwa [htaken] at hvit

end Feeding

/-- **A symbol is passed on**, in a stage, -/
theorem leads_symbol (ht : t < 112) (hg : g ≠ 3) :
    Leads step result 1 (Feeding deint t g) (Feeding deint t (g + 1)) := by
  refine leads_one fun d i h ↦ ?_
  have hlast : ∀ q : Prop, ¬ (g = 3 ∧ q) := fun q hq ↦ hg hq.1
  have hle : ∀ g : Fin 4, g ≠ 3 → ∀ g' < g + 1, g' ≤ g := by decide
  rw [h.step_eq ht]
  refine ⟨⟨if_neg (hlast _), if_neg (hlast _), rfl, (keptBefore_succ hg).symm, h.filled,
    fun g' hg' ↦ update_symbol h.vitSoft g' (hle g hg g' hg'), symbolsTo deint t, h.vit_clock ht,
    ?_⟩, result_eq_none rfl⟩
  rw [pending, if_neg (fun he ↦ hg (beq_iff_eq.1 he)), List.append_nil]

/-- at its end, -/
theorem leads_stage (ht : t + 1 < 112) :
    Leads step result 1 (Feeding deint t 3) (Feeding deint (t + 1) 0) := by
  refine leads_one fun d i h ↦ ?_
  have hsoft : Function.update d.vitSoft 3 (symbolAt deint t 3) = symbolAt deint t :=
    funext fun g' ↦ update_symbol h.vitSoft g' (Fin.le_last g')
  rw [h.step_eq (Nat.lt_of_succ_lt ht)]
  refine ⟨⟨if_neg (fun hq ↦ Nat.not_le.2 ht hq.2), if_pos ⟨rfl, ht⟩, rfl,
    (keptBefore_zero t).symm, h.filled, fun g' hg' ↦ absurd hg' (Fin.not_lt_zero g'),
    symbolsTo deint t, h.vit_clock (Nat.lt_of_succ_lt ht), ?_⟩, result_eq_none rfl⟩
  change symbolsTo deint t ++ [Function.update d.vitSoft 3 (symbolAt deint t 3)] = _
  rw [hsoft, symbolsTo_succ]

/-- and at the end of the last one. -/
theorem leads_fed : Leads step result 1 (Feeding deint 111 3) (Fed deint) := by
  refine leads_one fun d i h ↦ ?_
  have hsoft : Function.update d.vitSoft 3 (symbolAt deint 111 3) = symbolAt deint 111 :=
    funext fun g' ↦ update_symbol h.vitSoft g' (Fin.le_last g')
  obtain ⟨taken, hload, -⟩ := h.vit
  obtain ⟨hvalid, hdone⟩ : d.clock.vit.decodedValid = false ∧ d.clock.vit.blockDone = false :=
    UlViterbiR14.quiet_step hload.state_ne
  rw [h.step_eq (by decide)]
  exact ⟨⟨rfl, rfl, hsoft, h.vit_clock (by decide), rfl, hvalid, hdone⟩, result_eq_none rfl⟩

/-- **The symbols are fed in 448 cycles.** -/
theorem leads_feed : Leads step result 448 (Deinterleaved deint) (Fed deint) := by
  have htriple : ∀ t < 112, Leads step result 3 (Feeding deint t 0) (Feeding deint t 3) := by
    intro t ht
    have h0 : Leads step result 1 (Feeding deint t 0) (Feeding deint t 1) :=
      leads_symbol ht (by decide)
    exact (h0.trans (leads_symbol ht (by decide))).trans (leads_symbol ht (by decide))
  have hstages : Leads step result (4 * 111) (Feeding deint 0 0) (Feeding deint 111 0) :=
    leads_rounds (P := fun t ↦ Feeding deint t 0) fun t ht ↦
      (htriple t (by omega)).trans (leads_stage (by omega))
  have hall := (hstages.trans (htriple 111 (by decide))).trans leads_fed
  exact fun d is hlen h ↦ hall d is hlen h.feeding

/-! ## The way back -/

/-- The Viterbi decoder is on its own, and has not sent anything yet. -/
structure Draining (V : UlViterbiR14 → Prop) (d : UlSchHuDecoder) : Prop where
  state : d.state = .drain
  vitOutCnt : d.vitOutCnt = 0
  vitInputValid : d.vitInputValid = false
  decodedValid : d.vit.decodedValid = false
  blockDone : d.vit.blockDone = false
  vit : V d.vit

/-- A cycle of draining in which nothing comes. -/
theorem step_of_quiet (hs : d.state = .drain) (hcnt : d.vitOutCnt = 0)
    (hvalid : d.vit.decodedValid = false) (hdone : d.vit.blockDone = false) :
    d.step i = d.clock := by
  have hstep : d.step i = d.stepDrain := by rw [step, hs]
  rw [hstep, stepDrain, hcnt, hvalid, hdone]
  rfl

/-- The Viterbi decoder takes a step by itself. -/
theorem leads_draining {V V' : UlViterbiR14 → Prop}
    (h : ∀ v (j : UlViterbiIn 5), j.numStages = 112 → V v →
      v.state ≠ .output ∧ V' (v.step 112 j)) :
    Leads step result 1 (Draining V) (Draining V') := by
  refine leads_one fun d i hd ↦ ?_
  obtain ⟨hne, hvit⟩ := h d.vit ⟨d.vitSoft, d.vitInputValid, 112⟩ rfl hd.vit
  obtain ⟨hvalid, hdone⟩ : d.clock.vit.decodedValid = false ∧ d.clock.vit.blockDone = false :=
    UlViterbiR14.quiet_step hne
  rw [step_of_quiet hd.state hd.vitOutCnt hd.decodedValid hd.blockDone]
  exact ⟨⟨hd.state, hd.vitOutCnt, rfl, hvalid, hdone, hvit⟩, result_eq_none rfl⟩

theorem toNat_trellisStages : (112 : BitVec 9).toNat = 112 := by decide

/-- What the survivors of the block say. -/
abbrev survivors (deint : ℕ → BitVec 8) : List (State → Bool) :=
  decisions pmInit (symbolsTo deint 112)

theorem length_survivors (deint : ℕ → BitVec 8) : (survivors deint).length = 112 := by
  rw [length_decisions, length_symbolsTo]

/-- **The last stage is taken.** -/
theorem leads_loaded : Leads step result 1 (Fed deint)
    (Draining (UlViterbiR14.Loaded (survivors deint))) := by
  refine leads_one fun d i h ↦ ?_
  obtain ⟨hvalid, hdone⟩ : d.clock.vit.decodedValid = false ∧ d.clock.vit.blockDone = false :=
    UlViterbiR14.quiet_step h.vit.state_ne
  have hne : symbolsTo deint 111 ≠ [] :=
    List.ne_nil_of_length_eq_add_one (length_symbolsTo deint 111)
  have hlast : (symbolsTo deint 111).length + 1 = (112 : BitVec 9).toNat := by
    rw [length_symbolsTo, toNat_trellisStages]
  have hloaded : d.clock.vit.Loaded (decisions pmInit (symbolsTo deint 111 ++ [d.vitSoft])) :=
    UlViterbiR14.Loading.step_last (i := ⟨d.vitSoft, d.vitInputValid, 112⟩) h.vit
      h.vitInputValid hne hlast toNat_trellisStages.le
  rw [h.vitSoft, ← symbolsTo_succ] at hloaded
  rw [step_of_quiet h.state h.vitOutCnt h.sent h.blockDone]
  exact ⟨⟨h.state, h.vitOutCnt, rfl, hvalid, hdone, hloaded⟩, result_eq_none rfl⟩

/-- The machine turns round, -/
theorem leads_tracing : Leads step result 1 (Draining (UlViterbiR14.Loaded (survivors deint)))
    (Draining (UlViterbiR14.Tracing (survivors deint) 112)) := by
  refine leads_draining fun v j _ h ↦ ⟨?_, ?_⟩
  · rw [h.state]
    exact UlViterbiState.noConfusion
  · have hne : survivors deint ≠ [] := List.ne_nil_of_length_eq_add_one (length_survivors deint)
    have hturn : (v.step 112 j).Tracing _ _ := h.step hne
    rwa [length_survivors] at hturn

/-- **and goes back a stage a cycle.** -/
theorem leads_traced {m : ℕ} : Leads step result 1
    (Draining (UlViterbiR14.Tracing (survivors deint) (m + 1)))
    (Draining (UlViterbiR14.Tracing (survivors deint) m)) := by
  have hlen := length_survivors deint
  refine leads_draining fun v j hj h ↦ ⟨?_, ?_⟩
  · rw [h.state, if_neg (Nat.succ_ne_zero m)]
    exact UlViterbiState.noConfusion
  · exact h.step (by rw [hj, hlen, toNat_trellisStages]) hlen.le

/-! ## The bits and the CRC -/

/-- The registers behind the Viterbi decoder. -/
def tail (d : UlSchHuDecoder) : UlTail :=
  ⟨d.vitOutBuf, d.vitOutCnt, d.crc, d.crcPort, d.crcFedCnt⟩

theorem tail_stepDrain : d.stepDrain.tail = d.tail.drain 108 d.vit := by
  have hkeep : tail (if d.vit.decodedValid = true ∧ d.vitOutCnt < 108 then
      { d.clock with
        vitOutBuf := store 108 d.vitOutBuf d.vitOutCnt d.vit.decodedBit
        vitOutCnt := d.vitOutCnt + 1 }
      else d.clock) = d.tail.keep 108 d.vit := by
    rw [apply_ite tail]
    rfl
  rw [stepDrain, apply_ite tail, UlTail.drain, ← hkeep]
  rfl

/-- What draining does to the other ones. -/
theorem stepDrain_rest : d.stepDrain.state =
      (if d.tail.Ends 108 d.vit then .feedCrc else d.state) ∧
    d.stepDrain.vit = d.clock.vit ∧ d.stepDrain.vitInputValid = false ∧
      d.stepDrain.infoValid = false := by
  rw [stepDrain]
  by_cases hends : d.vit.blockDone = true ∨ 108 ≤ d.vitOutCnt ∧ d.vit.decodedValid = false
  · have hends' : d.tail.Ends 108 d.vit := hends
    rw [if_pos hends, if_pos hends']
    split <;> exact ⟨rfl, rfl, rfl, rfl⟩
  · have hends' : ¬ d.tail.Ends 108 d.vit := hends
    rw [if_neg hends, if_neg hends']
    split <;> exact ⟨rfl, rfl, rfl, rfl⟩

/-- Feeding the CRC, until the verdict is there. -/
theorem stepFeedCrc_rest (h : d.crcFedCnt < 108 ∨ d.crc.crcValid = false) :
    d.stepFeedCrc.tail = d.tail.feedCrc 108 ∧ d.stepFeedCrc.state = d.state ∧
      d.stepFeedCrc.vit = d.clock.vit ∧ d.stepFeedCrc.vitInputValid = false ∧
        d.stepFeedCrc.infoValid = false := by
  rw [stepFeedCrc, UlTail.feedCrc]
  by_cases hlt : d.crcFedCnt < 108
  · have hlt' : d.tail.crcFedCnt < 108 := hlt
    rw [if_pos hlt, if_pos hlt']
    exact ⟨rfl, rfl, rfl, rfl, rfl⟩
  · have hlt' : ¬ d.tail.crcFedCnt < 108 := hlt
    rw [if_neg hlt, if_neg hlt', h.resolve_left hlt]
    exact ⟨rfl, rfl, rfl, rfl, rfl⟩

/-- The word that is decoded. -/
abbrev word (deint : ℕ → BitVec 8) : List Bool := decoded (symbolsTo deint 112)

theorem length_word (deint : ℕ → BitVec 8) : (word deint).length = 108 := by
  rw [length_decoded, length_symbolsTo]

/-- The bits `xs` are still to be sent; the one before them is at the port. -/
structure Capturing (bits xs : List Bool) (d : UlSchHuDecoder) : Prop where
  state : d.state = .drain
  vitInputValid : d.vitInputValid = false
  vit : d.vit.Sending bits xs
  pm : xs = [] → d.vit.pm = pmInit
  tail : d.tail.Capturing bits xs d.vit

/-- `k` bits have been fed. -/
structure FeedingCrc (bits : List Bool) (k : ℕ) (d : UlSchHuDecoder) : Prop extends d.Resting where
  state : d.state = .feedCrc
  tail : d.tail.FeedingCrc bits k

/-- The verdict is there. -/
structure Judged (bits : List Bool) (d : UlSchHuDecoder) : Prop extends d.Resting where
  state : d.state = .feedCrc
  tail : d.tail.Judged bits

variable {bits xs : List Bool}

theorem Draining.capturing (h : Draining (UlViterbiR14.Tracing (survivors deint) 0) d) :
    Capturing (word deint) (word deint) d where
  state := h.state
  vitInputValid := h.vitInputValid
  vit := (huViterbiBlock deint).sending h.vit
  pm hnil := absurd hnil (huViterbiBlock deint).decoded_ne_nil
  tail := by
    refine ⟨?_, ?_⟩
    · have hcnt : d.tail.vitOutCnt = 0 := h.vitOutCnt
      rw [hcnt, UlViterbiR14.sent, h.decodedValid]
      exact List.nil_append _
    · have hne : word deint ≠ [] := (huViterbiBlock deint).decoded_ne_nil
      rw [h.blockDone, decide_eq_false hne]

/-- **A bit is sent, and the one before it kept.** -/
theorem leads_capturing {x : Bool} (hlen : bits.length = 108) :
    Leads step result 1 (Capturing bits (x :: xs)) (Capturing bits xs) := by
  refine leads_one fun d i h ↦ ?_
  have hstep : d.step i = d.stepDrain := by rw [step, h.state]
  have hstages : (112 : BitVec 9).toNat = bits.length + 4 := by rw [hlen, toNat_trellisStages]
  obtain ⟨hsend, hsent, hpm⟩ : d.clock.vit.Sending bits xs ∧ d.clock.vit.sent = some x ∧
      (xs = [] → d.clock.vit.pm = pmInit) := h.vit.step hstages
  have hdone : d.clock.vit.blockDone = decide (xs = []) := h.vit.outDone_eq hstages
  have hnot := h.tail.not_ends
  have htail := h.tail.step hsent hdone
  rw [hlen] at hnot htail
  obtain ⟨hstate, hvit, hvalid, hinfo⟩ := stepDrain_rest (d := d)
  rw [if_neg hnot, h.state] at hstate
  rw [← tail_stepDrain, ← hvit] at htail
  rw [hstep]
  exact ⟨⟨hstate, hvalid, hvit ▸ hsend, hvit ▸ hpm, htail⟩, result_eq_none hinfo⟩

theorem leads_captured (hlen : bits.length = 108) :
    Leads step result xs.length (Capturing bits xs) (Capturing bits []) := by
  induction xs with
  | nil =>
      intro d is his h
      obtain rfl := List.eq_nil_of_length_eq_zero his
      exact ⟨h, rfl⟩
  | cons x xs ih =>
      rw [List.length_cons, Nat.add_comm]
      exact (leads_capturing hlen).trans ih

/-- **The last bit is kept.** -/
theorem leads_feedingCrc (hlen : bits.length = 108) :
    Leads step result 1 (Capturing bits []) (FeedingCrc bits 0) := by
  refine leads_one fun d i h ↦ ?_
  have hstep : d.step i = d.stepDrain := by rw [step, h.state]
  have hrest : d.clock.Resting := Resting.clock ⟨h.vit.atRest (h.pm rfl), h.vitInputValid⟩
  obtain ⟨hends, htail⟩ := h.tail.feedingCrc (List.ne_nil_of_length_eq_add_one hlen)
  rw [hlen] at hends htail
  obtain ⟨hstate, hvit, hvalid, hinfo⟩ := stepDrain_rest (d := d)
  rw [if_pos hends] at hstate
  rw [← tail_stepDrain] at htail
  rw [hstep]
  exact ⟨⟨⟨hvit ▸ hrest.vit, hvalid⟩, hstate, htail⟩, result_eq_none hinfo⟩

/-- **A bit is fed.** -/
theorem leads_fedCrc (hlen : bits.length = 108) {k : ℕ} (hk : k < 108) :
    Leads step result 1 (FeedingCrc bits k) (FeedingCrc bits (k + 1)) := by
  refine leads_one fun d i h ↦ ?_
  have hstep : d.step i = d.stepFeedCrc := by rw [step, h.state]
  have hlt : d.crcFedCnt < 108 := by
    have hcnt : d.crcFedCnt = k := h.tail.crcFedCnt
    omega
  have hfed := h.tail.step (by omega)
  obtain ⟨htail, hstate, hvit, hvalid, hinfo⟩ := stepFeedCrc_rest (Or.inl hlt)
  rw [hlen, ← htail] at hfed
  rw [hstep]
  exact ⟨⟨⟨hvit ▸ h.clock.vit, hvalid⟩, hstate.trans h.state, hfed⟩, result_eq_none hinfo⟩

theorem leads_judged (hlen : bits.length = 108) :
    Leads step result 1 (FeedingCrc bits 108) (Judged bits) := by
  refine leads_one fun d i h ↦ ?_
  have hstep : d.step i = d.stepFeedCrc := by rw [step, h.state]
  have hfed := h.tail
  rw [← hlen] at hfed
  obtain ⟨hcrc, hjudged⟩ := hfed.judged (List.ne_nil_of_length_eq_add_one hlen)
  obtain ⟨htail, hstate, hvit, hvalid, hinfo⟩ := stepFeedCrc_rest (Or.inr hcrc)
  rw [hlen, ← htail] at hjudged
  rw [hstep]
  exact ⟨⟨⟨hvit ▸ h.clock.vit, hvalid⟩, hstate.trans h.state, hjudged⟩, result_eq_none hinfo⟩

/-- The decoder comes back. -/
structure Done (d : UlSchHuDecoder) : Prop extends d.Resting where
  state : d.state = .done

/-- **The result.** -/
theorem Judged.step_result (hlen : bits.length = 108) (h : Judged bits d) :
    (d.step i).Done ∧ (d.step i).result = some (bits.take 92, ulCrcOk bits) := by
  have hcnt : d.crcFedCnt = bits.length := h.tail.crcFedCnt
  have hlt : ¬ d.crcFedCnt < 108 := by omega
  have hvalid : d.crc.crcValid = true := h.tail.crcValid
  have hstep : d.step i = d.stepFeedCrc := by rw [step, h.state]
  rw [hstep, stepFeedCrc, if_neg hlt, if_pos hvalid]
  refine ⟨⟨⟨h.clock.vit, rfl⟩, rfl⟩, ?_⟩
  have hinfo : (List.ofFn fun j : Fin 92 ↦ d.vitOutBuf j) = bits.take 92 :=
    h.tail.ofFn_eq (by omega)
  have hok : d.crc.crcOk = ulCrcOk bits := h.tail.crcOk
  rw [result, if_pos rfl]
  change some (List.ofFn fun j : Fin 92 ↦ d.vitOutBuf j, d.crc.crcOk) = _
  rw [hinfo, hok]

theorem Done.step_atRest (h : d.Done) : (d.step i).AtRest ∧ (d.step i).result = none := by
  have hstep : d.step i = d.stepDone := by rw [step, h.state]
  rw [hstep, stepDone]
  exact ⟨⟨⟨h.clock.vit, rfl⟩, rfl⟩, result_eq_none rfl⟩

/-! ## A block -/

/-- What the decoder has of a block. -/
def resultOf (scrambInit : BitVec 32) (soft : ℕ → BitVec 8) : List Bool × Bool :=
  let bits := ulDecode schhu scrambInit ((List.range 168).map soft)
  (bits.take 92, ulCrcOk bits)

/-- The cycles from the last pair of a block on. -/
def busy : ℕ := 1118

theorem leads_all {soft : ℕ → BitVec 8} {lfsr : BitVec 32} :
    Leads step result 1116 (Collecting soft lfsr 84) (Judged (word (moved lfsr soft))) := by
  have hlen := length_word (moved lfsr soft)
  have hback : Leads step result (1 * 112)
      (Draining (UlViterbiR14.Tracing (survivors (moved lfsr soft)) 112))
      (Draining (UlViterbiR14.Tracing (survivors (moved lfsr soft)) 0)) :=
    leads_rounds (P := fun k ↦ Draining (UlViterbiR14.Tracing (survivors _) (112 - k)))
      fun k hk ↦ by
        rw [show 112 - k = 112 - (k + 1) + 1 by omega]
        exact leads_traced
  have hsend : Leads step result 108
      (Draining (UlViterbiR14.Tracing (survivors (moved lfsr soft)) 0))
      (Capturing (word (moved lfsr soft)) []) := by
    have hcapture : Leads step result (word (moved lfsr soft)).length _ _ := leads_captured hlen
    rw [hlen] at hcapture
    exact fun d is his h ↦ hcapture d is his h.capturing
  have hcrc : Leads step result (1 * 108) (FeedingCrc (word (moved lfsr soft)) 0)
      (FeedingCrc (word (moved lfsr soft)) 108) :=
    leads_rounds fun k hk ↦ leads_fedCrc hlen hk
  have hfront : Leads step result (336 + 448 + 1 + 1) (Collecting soft lfsr 84)
      (Draining (UlViterbiR14.Tracing (survivors (moved lfsr soft)) 112)) :=
    ((leads_buffers.trans leads_feed).trans leads_loaded).trans leads_tracing
  have hbits := ((hfront.trans hback).trans hsend).trans (leads_feedingCrc hlen)
  exact (hbits.trans hcrc).trans (leads_judged hlen)

/-- **A block is decoded**, whatever was before it. -/
theorem exec_block {soft : ℕ → BitVec 8} {i : SoftDibit} {load hold : List SoftDibit}
    (h : d.AtRest) (hi : UlSchFDecoder.Brings soft 0 i) (hload : Pairs soft 1 load)
    (hhold : hold.length = busy) :
    (exec step d (i :: load ++ hold)).AtRest ∧
      emitted step result d (i :: load ++ hold) = [resultOf i.scrambInit soft] := by
  obtain ⟨hone, hout⟩ := h.step_first hi
  obtain ⟨hall, hcollect⟩ := exec_collecting hload hone
  obtain ⟨a, b, hlast⟩ := List.length_eq_two.1
    (show (hold.drop 1116).length = 2 by rw [List.length_drop, hhold]; rfl)
  have hsplit : hold = hold.take 1116 ++ [a, b] := by rw [← hlast, List.take_append_drop]
  obtain ⟨hjudged, hsilent⟩ := leads_all (exec step (d.step i) load) (hold.take 1116)
    (by rw [List.length_take, hhold]; rfl) hall
  obtain ⟨hdone, hresult⟩ := hjudged.step_result (i := a) (length_word _)
  obtain ⟨hend, hnone⟩ := hdone.step_atRest (i := b)
  have hword : word (moved (ulSeed i.scrambInit) soft) =
      ulDecode schhu i.scrambInit ((List.range 168).map soft) := by
    rw [ulDecode, ulDeint_schhu, symbolsOf_map_range_schhu]
  rw [hword] at hresult
  rw [List.cons_append, emitted_cons_of_none hout, exec_cons, emitted_append, exec_append,
    hcollect, hsplit, emitted_append, exec_append, hsilent, emitted, emitted, hresult, hnone]
  exact ⟨hend, rfl⟩

end UlSchHuDecoder

end TetraPhy.Rx
