import TetraPhy.Rx.UlBlockTail
import TetraPhy.Rx.UlSchFFeed

/-!
# Blocks through the SCH/F decoder

The Viterbi decoder goes back (`Draining`) and sends; its bits go through the registers behind it
(`UlTail`); and the word and the verdict come out.

`exec_block` is the whole of it.  A decoder between blocks, whatever else its registers and
buffers hold, is between blocks again 4105 cycles after the last word of a block, and has had one
result by then, which is a function of the block and the seed alone.
-/

namespace TetraPhy.Rx

open Codec Survivor Run

attribute [local instance] neZeroViterbi neZeroSymbols

namespace UlSchFDecoder

variable {deint : ℕ → BitVec 8} {d : UlSchFDecoder} {i : SoftDibit}

/-! ## The way back -/

/-- The Viterbi decoder is on its own, and has not sent anything yet. -/
structure Draining (V : UlViterbiR14Bram → Prop) (d : UlSchFDecoder) : Prop where
  state : d.state = .drain
  vitOutCnt : d.vitOutCnt = 0
  vitInputValid : d.vitInputValid = false
  decodedValid : d.vit.decodedValid = false
  blockDone : d.vit.blockDone = false
  vit : V d.vit

/-- A cycle of draining in which nothing comes. -/
theorem step_of_quiet (hs : d.state = .drain) (hcnt : d.vitOutCnt = 0)
    (hvalid : d.vit.decodedValid = false) (hdone : d.vit.blockDone = false) :
    d.step i = d.clock := by
  have hstep : d.step i = d.stepDrain := by rw [step, hs]
  rw [hstep, stepDrain, hcnt, hvalid, hdone]
  rfl

/-- The Viterbi decoder takes a step by itself. -/
theorem leads_draining {V V' : UlViterbiR14Bram → Prop}
    (h : ∀ b (j : UlViterbiIn 5), j.numStages = 288 → V b →
      b.state ≠ .output ∧ V' (b.step 288 j)) :
    Leads step result 1 (Draining V) (Draining V') := by
  refine leads_one fun d i hd ↦ ?_
  obtain ⟨hne, hvit⟩ := h d.vit ⟨d.vitSoft, d.vitInputValid, 288⟩ rfl hd.vit
  obtain ⟨hvalid, hdone⟩ : d.clock.vit.decodedValid = false ∧ d.clock.vit.blockDone = false :=
    UlViterbiR14Bram.quiet_step hne
  rw [step_of_quiet hd.state hd.vitOutCnt hd.decodedValid hd.blockDone]
  exact ⟨⟨hd.state, hd.vitOutCnt, rfl, hvalid, hdone, hvit⟩, result_eq_none rfl⟩

theorem toNat_trellisStages : (288 : BitVec 9).toNat = 288 := by decide

/-- What the survivors of the block say. -/
abbrev survivors (deint : ℕ → BitVec 8) : List (State → Bool) :=
  decisions pmInit (symbolsTo deint 288)

theorem length_survivors (deint : ℕ → BitVec 8) : (survivors deint).length = 288 := by
  rw [length_decisions, length_symbolsTo]

/-- **The last stage is taken.** -/
theorem leads_loaded : Leads step result 1 (Fed deint)
    (Draining fun b ↦ b.Loaded (survivors deint)) := by
  refine leads_one fun d i h ↦ ?_
  obtain ⟨hvalid, hdone⟩ : d.clock.vit.decodedValid = false ∧ d.clock.vit.blockDone = false :=
    UlViterbiR14Bram.quiet_step h.vit.state_ne
  have hcore : d.clock.vit.toUlViterbiR14 =
      d.vit.toUlViterbiR14.step 288 ⟨d.vitSoft, d.vitInputValid, 288⟩ :=
    UlViterbiR14Bram.step_core_of_front h.vit.front
  have hne : symbolsTo deint 287 ≠ [] :=
    List.ne_nil_of_length_eq_add_one (length_symbolsTo deint 287)
  have hloaded : d.clock.vit.Loaded (decisions pmInit (symbolsTo deint 287 ++ [d.vitSoft])) := by
    have hlast : (symbolsTo deint 287).length + 1 = (288 : BitVec 9).toNat := by
      rw [length_symbolsTo, toNat_trellisStages]
    rw [hcore]
    exact UlViterbiR14.Loading.step_last (i := ⟨d.vitSoft, d.vitInputValid, 288⟩) h.vit
      h.vitInputValid hne hlast toNat_trellisStages.le
  rw [h.vitSoft, ← symbolsTo_succ] at hloaded
  rw [step_of_quiet h.state h.vitOutCnt h.decodedValid h.blockDone]
  exact ⟨⟨h.state, h.vitOutCnt, rfl, hvalid, hdone, hloaded⟩, result_eq_none rfl⟩

/-- There are `m` stages to go back. -/
abbrev Tracing (deint : ℕ → BitVec 8) (m : ℕ) : UlViterbiR14Bram → Prop :=
  UlViterbiR14Bram.Steady (UlViterbiR14.Tracing (survivors deint) m)

/-- The machine turns round. -/
theorem leads_tracing : Leads step result 1 (Draining fun b ↦ b.Loaded (survivors deint))
    (Draining (Tracing deint 288)) := by
  refine leads_draining fun b j _ h ↦ ⟨?_, ?_⟩
  · rw [h.state]
    exact UlViterbiState.noConfusion
  · have hne : survivors deint ≠ [] := List.ne_nil_of_length_eq_add_one (length_survivors deint)
    have hturn : UlViterbiR14Bram.Steady (UlViterbiR14.Tracing _ _) (b.step 288 j) :=
      UlViterbiR14Bram.step_tbInit h hne
    rwa [length_survivors] at hturn

/-- **One stage back takes two cycles.** -/
theorem leads_traced {m : ℕ} : Leads step result 2 (Draining (Tracing deint (m + 1)))
    (Draining (Tracing deint m)) := by
  have hread : Leads step result 1 (Draining (Tracing deint (m + 1)))
      (Draining fun b' ↦ ∃ b, ∃ j : UlViterbiIn 5, j.numStages = 288 ∧ Tracing deint (m + 1) b ∧
        b' = b.step 288 j) := by
    refine leads_draining fun b j hj h ↦ ⟨?_, b, j, hj, h, rfl⟩
    rw [h.core.state, if_neg (Nat.succ_ne_zero m)]
    exact UlViterbiState.noConfusion
  refine hread.trans (leads_draining ?_)
  rintro - j hj ⟨b, k, hk, h, rfl⟩
  have hs : b.state = .traceback := by rw [h.core.state, if_neg (Nat.succ_ne_zero m)]
  have hlen := length_survivors deint
  constructor
  · rw [UlViterbiR14Bram.step_read hs h.tbPhase]
    rw [hs]
    exact UlViterbiState.noConfusion
  · exact (UlViterbiR14Bram.step_step_tracing h (by rw [hk, hlen, toNat_trellisStages])
      (by rw [hj, hlen, toNat_trellisStages])
      hlen.le).1

/-! ## The bits -/

/-- The registers behind the Viterbi decoder. -/
def tail (d : UlSchFDecoder) : UlTail :=
  ⟨d.vitOutBuf, d.vitOutCnt, d.crc, d.crcPort, d.crcFedCnt⟩

theorem tail_stepDrain : d.stepDrain.tail = d.tail.drain 284 d.vit.toUlViterbiR14 := by
  have hkeep : tail (if d.vit.decodedValid = true ∧ d.vitOutCnt < 284 then
      { d.clock with
        vitOutBuf := store 284 d.vitOutBuf d.vitOutCnt d.vit.decodedBit
        vitOutCnt := d.vitOutCnt + 1 }
      else d.clock) = d.tail.keep 284 d.vit.toUlViterbiR14 := by
    rw [apply_ite tail]
    rfl
  rw [stepDrain, apply_ite tail, UlTail.drain, ← hkeep]
  rfl

/-- What draining does to the other ones. -/
theorem stepDrain_rest : d.stepDrain.state =
      (if d.tail.Ends 284 d.vit.toUlViterbiR14 then .feedCrc else d.state) ∧
    d.stepDrain.vit = d.clock.vit ∧ d.stepDrain.vitInputValid = false ∧
      d.stepDrain.infoValid = false := by
  rw [stepDrain]
  by_cases hends : d.vit.blockDone = true ∨ 284 ≤ d.vitOutCnt ∧ d.vit.decodedValid = false
  · have hends' : d.tail.Ends 284 d.vit.toUlViterbiR14 := hends
    rw [if_pos hends, if_pos hends']
    split <;> exact ⟨rfl, rfl, rfl, rfl⟩
  · have hends' : ¬ d.tail.Ends 284 d.vit.toUlViterbiR14 := hends
    rw [if_neg hends, if_neg hends']
    split <;> exact ⟨rfl, rfl, rfl, rfl⟩

/-- Feeding the CRC, until the verdict is there. -/
theorem stepFeedCrc_rest (h : d.crcFedCnt < 284 ∨ d.crc.crcValid = false) :
    d.stepFeedCrc.tail = d.tail.feedCrc 284 ∧ d.stepFeedCrc.state = d.state ∧
      d.stepFeedCrc.vit = d.clock.vit ∧ d.stepFeedCrc.vitInputValid = false ∧
        d.stepFeedCrc.infoValid = false := by
  rw [stepFeedCrc, UlTail.feedCrc]
  by_cases hlt : d.crcFedCnt < 284
  · have hlt' : d.tail.crcFedCnt < 284 := hlt
    rw [if_pos hlt, if_pos hlt']
    exact ⟨rfl, rfl, rfl, rfl, rfl⟩
  · have hlt' : ¬ d.tail.crcFedCnt < 284 := hlt
    rw [if_neg hlt, if_neg hlt', h.resolve_left hlt]
    exact ⟨rfl, rfl, rfl, rfl, rfl⟩

/-- The bits `xs` are still to be sent; the one before them is at the port. -/
structure Capturing (bits xs : List Bool) (d : UlSchFDecoder) : Prop where
  state : d.state = .drain
  vitInputValid : d.vitInputValid = false
  vit : UlViterbiR14Bram.Steady (UlViterbiR14.Sending bits xs) d.vit
  tail : d.tail.Capturing bits xs d.vit.toUlViterbiR14

/-- `k` bits have been fed. -/
structure FeedingCrc (bits : List Bool) (k : ℕ) (d : UlSchFDecoder) : Prop extends d.Resting where
  state : d.state = .feedCrc
  tail : d.tail.FeedingCrc bits k

/-- The verdict is there. -/
structure Judged (bits : List Bool) (d : UlSchFDecoder) : Prop extends d.Resting where
  state : d.state = .feedCrc
  tail : d.tail.Judged bits

/-- The word that is decoded. -/
abbrev word (deint : ℕ → BitVec 8) : List Bool := decoded (symbolsTo deint 288)

theorem length_word (deint : ℕ → BitVec 8) : (word deint).length = 284 := by
  rw [length_decoded, length_symbolsTo]

variable {bits xs : List Bool}

theorem Draining.capturing (h : Draining (Tracing deint 0) d) :
    Capturing (word deint) (word deint) d where
  state := h.state
  vitInputValid := h.vitInputValid
  vit := ⟨(viterbiBlock deint).sending h.vit.core, h.vit.tbPhase, h.vit.pm⟩
  tail := by
    refine ⟨?_, ?_⟩
    · have hcnt : d.tail.vitOutCnt = 0 := h.vitOutCnt
      rw [hcnt, UlViterbiR14.sent, h.decodedValid]
      exact List.nil_append _
    · have hne : word deint ≠ [] := (viterbiBlock deint).decoded_ne_nil
      rw [h.blockDone, decide_eq_false hne]

/-- **A bit is sent, and the one before it kept.** -/
theorem leads_capturing {x : Bool} (hlen : bits.length = 284) :
    Leads step result 1 (Capturing bits (x :: xs)) (Capturing bits xs) := by
  refine leads_one fun d i h ↦ ?_
  have hstep : d.step i = d.stepDrain := by rw [step, h.state]
  have hstages : (288 : BitVec 9).toNat = bits.length + 4 := by rw [hlen, toNat_trellisStages]
  obtain ⟨hsend, hsent⟩ : UlViterbiR14Bram.Steady (UlViterbiR14.Sending bits xs) d.clock.vit ∧
      d.clock.vit.sent = some x := UlViterbiR14Bram.step_sending h.vit hstages
  have hdone : d.clock.vit.blockDone = decide (xs = []) := h.vit.core.outDone_eq hstages
  have hnot := h.tail.not_ends
  have htail := h.tail.step hsent hdone
  rw [hlen] at hnot htail
  obtain ⟨hstate, hvit, hvalid, hinfo⟩ := stepDrain_rest (d := d)
  rw [if_neg hnot, h.state] at hstate
  rw [← tail_stepDrain, ← hvit] at htail
  rw [hstep]
  exact ⟨⟨hstate, hvalid, hvit ▸ hsend, htail⟩, result_eq_none hinfo⟩

theorem leads_captured (hlen : bits.length = 284) :
    Leads step result xs.length (Capturing bits xs) (Capturing bits []) := by
  induction xs with
  | nil =>
      intro d is his h
      obtain rfl := List.eq_nil_of_length_eq_zero his
      exact ⟨h, rfl⟩
  | cons x xs ih =>
      rw [List.length_cons, Nat.add_comm]
      exact (leads_capturing hlen).trans ih

/-! ## The CRC -/

/-- **The last bit is kept.** -/
theorem leads_feedingCrc (hlen : bits.length = 284) :
    Leads step result 1 (Capturing bits []) (FeedingCrc bits 0) := by
  refine leads_one fun d i h ↦ ?_
  have hstep : d.step i = d.stepDrain := by rw [step, h.state]
  have hrest : d.clock.Resting :=
    Resting.clock ⟨h.vit.core.atRest h.vit.pm, h.vitInputValid⟩
  obtain ⟨hends, htail⟩ := h.tail.feedingCrc (List.ne_nil_of_length_eq_add_one hlen)
  rw [hlen] at hends htail
  obtain ⟨hstate, hvit, hvalid, hinfo⟩ := stepDrain_rest (d := d)
  rw [if_pos hends] at hstate
  rw [← tail_stepDrain] at htail
  rw [hstep]
  exact ⟨⟨⟨hvit ▸ hrest.vit, hvalid⟩, hstate, htail⟩, result_eq_none hinfo⟩

/-- **A bit is fed.** -/
theorem leads_fedCrc (hlen : bits.length = 284) {k : ℕ} (hk : k < 284) :
    Leads step result 1 (FeedingCrc bits k) (FeedingCrc bits (k + 1)) := by
  refine leads_one fun d i h ↦ ?_
  have hstep : d.step i = d.stepFeedCrc := by rw [step, h.state]
  have hlt : d.crcFedCnt < 284 := by
    have hcnt : d.crcFedCnt = k := h.tail.crcFedCnt
    omega
  have hfed := h.tail.step (by omega)
  obtain ⟨htail, hstate, hvit, hvalid, hinfo⟩ := stepFeedCrc_rest (Or.inl hlt)
  rw [hlen, ← htail] at hfed
  rw [hstep]
  exact ⟨⟨⟨hvit ▸ h.clock.vit, hvalid⟩, hstate.trans h.state, hfed⟩, result_eq_none hinfo⟩

theorem leads_judged (hlen : bits.length = 284) :
    Leads step result 1 (FeedingCrc bits 284) (Judged bits) := by
  refine leads_one fun d i h ↦ ?_
  have hstep : d.step i = d.stepFeedCrc := by rw [step, h.state]
  have hfed := h.tail
  rw [← hlen] at hfed
  obtain ⟨hcrc, hjudged⟩ := hfed.judged (List.ne_nil_of_length_eq_add_one hlen)
  obtain ⟨htail, hstate, hvit, hvalid, hinfo⟩ := stepFeedCrc_rest (Or.inr hcrc)
  rw [hlen, ← htail] at hjudged
  rw [hstep]
  exact ⟨⟨⟨hvit ▸ h.clock.vit, hvalid⟩, hstate.trans h.state, hjudged⟩, result_eq_none hinfo⟩

/-- The decoder comes back. -/
structure Done (d : UlSchFDecoder) : Prop extends d.Resting where
  state : d.state = .done

/-- **The result.** -/
theorem Judged.step_result (hlen : bits.length = 284) (h : Judged bits d) :
    (d.step i).Done ∧ (d.step i).result = some (bits.take 268, ulCrcOk bits) := by
  have hcnt : d.crcFedCnt = bits.length := h.tail.crcFedCnt
  have hlt : ¬ d.crcFedCnt < 284 := by omega
  have hvalid : d.crc.crcValid = true := h.tail.crcValid
  have hstep : d.step i = d.stepFeedCrc := by rw [step, h.state]
  rw [hstep, stepFeedCrc, if_neg hlt, if_pos hvalid]
  refine ⟨⟨⟨h.clock.vit, rfl⟩, rfl⟩, ?_⟩
  have hinfo : (List.ofFn fun j : Fin 268 ↦ d.vitOutBuf j) = bits.take 268 :=
    h.tail.ofFn_eq (by omega)
  have hok : d.crc.crcOk = ulCrcOk bits := h.tail.crcOk
  rw [result, if_pos rfl]
  change some (List.ofFn fun j : Fin 268 ↦ d.vitOutBuf j, d.crc.crcOk) = _
  rw [hinfo, hok]

theorem Done.step_atRest (h : d.Done) : (d.step i).AtRest ∧ (d.step i).result = none := by
  have hstep : d.step i = d.stepDone := by rw [step, h.state]
  rw [hstep, stepDone]
  exact ⟨⟨⟨h.clock.vit, rfl⟩, rfl⟩, result_eq_none rfl⟩

/-! ## A block -/

/-- What the decoder has of a block. -/
def resultOf (scrambInit : BitVec 32) (soft : ℕ → BitVec 8) : List Bool × Bool :=
  let bits := ulDecode schf scrambInit ((List.range 432).map soft)
  (bits.take 268, ulCrcOk bits)

/-- The cycles from the last word of a block on. -/
def busy : ℕ := 4105

theorem leads_all {soft : ℕ → BitVec 8} {lfsr : BitVec 32} :
    Leads step result 4103 (Collecting soft lfsr 216) (Judged (word (moved lfsr soft))) := by
  have hlen := length_word (moved lfsr soft)
  have hback : Leads step result (2 * 288) (Draining (Tracing (moved lfsr soft) 288))
      (Draining (Tracing (moved lfsr soft) 0)) :=
    leads_rounds (P := fun k ↦ Draining (Tracing (moved lfsr soft) (288 - k))) fun k hk ↦ by
      rw [show 288 - k = 288 - (k + 1) + 1 by omega]
      exact leads_traced
  have hsend : Leads step result 284 (Draining (Tracing (moved lfsr soft) 0))
      (Capturing (word (moved lfsr soft)) []) := by
    have hcapture : Leads step result (word (moved lfsr soft)).length _ _ := leads_captured hlen
    rw [hlen] at hcapture
    exact fun d is his h ↦ hcapture d is his h.capturing
  have hcrc : Leads step result (1 * 284) (FeedingCrc (word (moved lfsr soft)) 0)
      (FeedingCrc (word (moved lfsr soft)) 284) :=
    leads_rounds fun k hk ↦ leads_fedCrc hlen hk
  have hfront : Leads step result (651 + 2304 + 1 + 1) (Collecting soft lfsr 216)
      (Draining (Tracing (moved lfsr soft) 288)) :=
    ((leads_buffers.trans leads_feed).trans leads_loaded).trans leads_tracing
  have hbits := ((hfront.trans hback).trans hsend).trans (leads_feedingCrc hlen)
  exact (hbits.trans hcrc).trans (leads_judged hlen)

/-- **A block is decoded**, whatever was before it. -/
theorem exec_block {soft : ℕ → BitVec 8} {i : SoftDibit} {load hold : List SoftDibit}
    (h : d.AtRest) (hload : List.Forall₂ (Brings soft) (List.range 216) (i :: load))
    (hhold : hold.length = busy) :
    (exec step d (i :: load ++ hold)).AtRest ∧
      emitted step result d (i :: load ++ hold) = [resultOf i.scrambInit soft] := by
  rw [List.range_eq_range', List.range'_succ] at hload
  obtain ⟨hfirst, hrest⟩ := List.forall₂_cons.1 hload
  obtain ⟨hone, hout⟩ := h.step_first hfirst
  obtain ⟨hall, hcollect⟩ := exec_collecting hrest hone Nat.one_pos rfl
  obtain ⟨a, b, hlast⟩ := List.length_eq_two.1
    (show (hold.drop 4103).length = 2 by rw [List.length_drop, hhold]; rfl)
  have hsplit : hold = hold.take 4103 ++ [a, b] := by rw [← hlast, List.take_append_drop]
  obtain ⟨hjudged, hsilent⟩ := leads_all (exec step (d.step i) load) (hold.take 4103)
    (by rw [List.length_take, hhold]; rfl) hall
  obtain ⟨hdone, hresult⟩ := hjudged.step_result (i := a) (length_word _)
  obtain ⟨hend, hnone⟩ := hdone.step_atRest (i := b)
  have hword : word (moved (ulSeed i.scrambInit) soft) =
      ulDecode schf i.scrambInit ((List.range 432).map soft) := by
    rw [ulDecode, ulDeint_map_range, symbolsOf_map_range]
  rw [hword] at hresult
  rw [List.cons_append, emitted_cons_of_none hout, exec_cons, emitted_append, exec_append,
    hcollect, hsplit, emitted_append, exec_append, hsilent, emitted, emitted, hresult, hnone]
  exact ⟨hend, rfl⟩

end UlSchFDecoder

end TetraPhy.Rx
