import Mathlib.Algebra.BigOperators.Fin
import Mathlib.Algebra.Order.BigOperators.Group.Finset
import Mathlib.Data.Fintype.BigOperators
import Mathlib.Data.List.GetD
import Mathlib.Tactic.Linarith
import TetraPhy.Codec.Viterbi

/-!
# Maximum-likelihood decoding

What the two Viterbi decoders are for, in the terms of the code alone: among the encoder
runs that start and end in state 0, the hard decoder returns one whose code word differs
from the received symbols in the fewest non-erased positions, the soft decoder one whose
code word correlates best with the received values.

The decoders treat `infM = 2 ^ 28` as "no path", so some run must stay below it.  For soft
values that is the bound on their absolute sum.  For hard symbols it is a property of the
code: in any window of four tail bits and four free ones each code bit is one for half of
the inputs, so some input disagrees with at most half of what is received, and in every
earlier step one of the two branches does (their outputs are complementary).  A run of
`n` steps is thus within `2 * n` of anything received.

## Honest boundary

Metrics and table indices are natural numbers here and `int` in the source.  A stage
index times 16 must fit, which is the bound on the length in `viterbi_maximumLikelihood`;
the decoders of the repository use 112 and 288 stages.
-/

namespace TetraPhy.Codec

open Trellis

/-! ## The figures of merit -/

/-- The number of positions that are not erased and disagree with the code word. -/
def hammingDistance (coded : List Sym) (code : List Bool) : ℕ :=
  (List.zip code coded).countP fun (e, r) ↦ r == some (!e)

/-- The correlation of soft values with a code word, `true` counting as `+1`. -/
def correlation (soft : List ℤ) (code : List Bool) : ℤ :=
  (List.zipWith (fun e s ↦ if e then s else -s) code soft).sum

theorem distance_hardPenalty (coded : List Sym) (code : List Bool) :
    distance hardPenalty coded code = hammingDistance coded code := by
  unfold distance hammingDistance
  induction code generalizing coded with
  | nil => simp
  | cons e code ih =>
      cases coded with
      | nil => simp
      | cons r coded =>
          rw [List.zipWith_cons_cons, List.zip_cons_cons, List.sum_cons, List.countP_cons, ih,
            Nat.add_comm]
          congr 1
          rcases r with - | r <;> cases e <;> simp [hardPenalty] <;> cases r <;> rfl

/-- Correlation and penalty add up to what does not depend on the code word. -/
theorem correlation_add_distance (soft : List ℤ) (code : List Bool) :
    correlation soft code + 2 * distance softPenalty soft code =
      ((soft.take code.length).map fun s ↦ |s|).sum := by
  unfold correlation distance
  induction code generalizing soft with
  | nil => simp
  | cons e code ih =>
      cases soft with
      | nil => simp
      | cons s soft =>
          have hs : (if e = true then s else -s) + 2 * (softPenalty e s : ℤ) = |s| := by
            unfold softPenalty
            rcases lt_trichotomy s 0 with h | rfl | h <;> cases e <;>
              grind
          simp only [List.zipWith_cons_cons, List.sum_cons, List.length_cons, List.take_succ_cons,
            List.map_cons]
          rw [← ih, ← hs, Nat.cast_add]
          linarith

/-- A penalty never exceeds the absolute value of what is received. -/
theorem distance_softPenalty_le (soft : List ℤ) (code : List Bool) :
    distance softPenalty soft code ≤ (soft.map Int.natAbs).sum := by
  unfold distance
  induction code generalizing soft with
  | nil => simp
  | cons e code ih =>
      cases soft with
      | nil => simp
      | cons s soft =>
          have hs : softPenalty e s ≤ s.natAbs := by
            unfold softPenalty
            grind
          simp only [List.zipWith_cons_cons, List.sum_cons, List.map_cons]
          exact Nat.add_le_add hs (ih soft)

/-! ## Half of the positions

A family of code words is balanced at a position if half of them have a one there. -/

theorem hardPenalty_le_one (e : Bool) (r : Sym) : hardPenalty e r ≤ 1 := by
  rcases r with - | r
  · exact Nat.zero_le 1
  · exact Bool.toNat_le _

theorem distance_le_length (coded : List Sym) (code : List Bool) :
    distance hardPenalty coded code ≤ code.length := by
  unfold distance
  induction code generalizing coded with
  | nil => simp
  | cons e code ih =>
      cases coded with
      | nil => simp
      | cons r coded =>
          simp only [List.zipWith_cons_cons, List.sum_cons, List.length_cons]
          have := ih coded
          have := hardPenalty_le_one e r
          omega

theorem distance_eq_sum (coded : List Sym) (code : List Bool)
    (h : code.length = coded.length) :
    distance hardPenalty coded code =
      ∑ m ∈ Finset.range coded.length, hardPenalty (code.getD m false) (coded.getD m none) := by
  unfold distance
  induction code generalizing coded with
  | nil => simp [List.eq_nil_of_length_eq_zero h.symm]
  | cons e code ih =>
      cases coded with
      | nil => simp at h
      | cons r coded =>
          rw [List.zipWith_cons_cons, List.sum_cons, List.length_cons, Finset.sum_range_succ',
            ih coded (by simpa using h), Nat.add_comm]
          simp

/-- At a balanced position half of the words disagree with a received symbol, or none if
it is erased. -/
theorem sum_hardPenalty_le {κ : Type*} [Fintype κ] {e : κ → Bool}
    (h : 2 * (Finset.univ.filter fun k ↦ e k = true).card = Fintype.card κ) (r : Sym) :
    2 * ∑ k, hardPenalty (e k) r ≤ Fintype.card κ := by
  have hones : ∑ k, (e k).toNat = (Finset.univ.filter fun k ↦ e k = true).card := by
    rw [Finset.card_filter]
    exact Finset.sum_congr rfl fun k _ ↦ by cases e k <;> rfl
  have hzeros : ∑ k, (e k).toNat + ∑ k, (!e k).toNat = Fintype.card κ := by
    rw [← Finset.sum_add_distrib, Fintype.card_eq_sum_ones]
    exact Finset.sum_congr rfl fun k _ ↦ by cases e k <;> rfl
  rcases r with - | r
  · simp [hardPenalty]
  · cases r with
    | false =>
        have : ∑ k, hardPenalty (e k) (some false) = ∑ k, (e k).toNat :=
          Finset.sum_congr rfl fun k _ ↦ by cases e k <;> rfl
        omega
    | true =>
        have : ∑ k, hardPenalty (e k) (some true) = ∑ k, (!e k).toNat :=
          Finset.sum_congr rfl fun k _ ↦ by cases e k <;> rfl
        omega

/-- **Of a balanced family some word is within half of anything received.** -/
theorem exists_distance_le {κ : Type*} [Fintype κ] [Nonempty κ] (code : κ → List Bool)
    (coded : List Sym) (hlen : ∀ k, (code k).length = coded.length)
    (hbal : ∀ m < coded.length,
      2 * (Finset.univ.filter fun k ↦ (code k).getD m false = true).card = Fintype.card κ) :
    ∃ k, 2 * distance hardPenalty coded (code k) ≤ coded.length := by
  have hsum : ∑ k, 2 * distance hardPenalty coded (code k) ≤ ∑ _k : κ, coded.length := by
    calc ∑ k, 2 * distance hardPenalty coded (code k)
        = ∑ m ∈ Finset.range coded.length,
            2 * ∑ k, hardPenalty ((code k).getD m false) (coded.getD m none) := by
          simp only [distance_eq_sum coded _ (hlen _), Finset.mul_sum]
          exact Finset.sum_comm
      _ ≤ ∑ _m ∈ Finset.range coded.length, Fintype.card κ :=
          Finset.sum_le_sum fun m hm ↦ sum_hardPenalty_le (hbal m (Finset.mem_range.mp hm)) _
      _ = ∑ _k : κ, coded.length := by simp [Nat.mul_comm]
  obtain ⟨k, -, hk⟩ := Finset.exists_le_of_sum_le Finset.univ_nonempty hsum
  exact ⟨k, hk⟩

/-! ## Runs within half of anything received -/

/-- The four free bits of a window, as the binary digits of `w`, and its tail. -/
def windowInput (w : Fin 16) : List Bool :=
  [w.val.testBit 0, w.val.testBit 1, w.val.testBit 2, w.val.testBit 3] ++ List.replicate 4 false

/-- Count the ones of a family of words, position by position. -/
def countOnes {κ : Type*} (code : κ → List Bool) (l : List κ) (len : ℕ) : List ℕ :=
  l.foldr (fun k ↦ List.zipWith (fun e n ↦ e.toNat + n) (code k)) (List.replicate len 0)

theorem getD_countOnes {κ : Type*} {code : κ → List Bool} {len : ℕ}
    (hlen : ∀ k, (code k).length = len) (l : List κ) {m : ℕ} (hm : m < len) :
    (countOnes code l len).getD m 0 = (l.map fun k ↦ ((code k).getD m false).toNat).sum := by
  have hlength : ∀ l : List κ, (countOnes code l len).length = len := fun l ↦ by
    induction l with
    | nil => exact List.length_replicate
    | cons k l ih =>
        rw [countOnes] at ih
        simp [countOnes, hlen, ih]
  induction l with
  | nil => simp [countOnes, hm]
  | cons k l ih =>
      have hc := hlength l
      rw [List.map_cons, List.sum_cons, ← ih]
      simp only [countOnes, List.foldr_cons] at hc ⊢
      rw [List.getD_eq_getElem _ _ (by simp [hlen, hc, hm]), List.getElem_zipWith,
        List.getD_eq_getElem _ _ (by rw [hlen]; exact hm),
        List.getD_eq_getElem _ _ (by rw [hc]; exact hm)]

/-- The bits of a state, the newest first. -/
def stateBits (s : State) : Bool × Bool × Bool × Bool :=
  (s.val.testBit 0, s.val.testBit 1, s.val.testBit 2, s.val.testBit 3)

/-- The encoder on the bits of a state. -/
def outputsBits : Bool × Bool × Bool × Bool → List Bool → List Bool
  | _, [] => []
  | (a, b, c, d), e :: bits =>
      [e ^^ a ^^ d, e ^^ b ^^ c ^^ d, e ^^ a ^^ b ^^ d, e ^^ a ^^ c ^^ d] ++
        outputsBits (e, a, b, c) bits

theorem outputs_eq_outputsBits (s : State) (bits : List Bool) :
    outputs s bits = outputsBits (stateBits s) bits := by
  have hstep : ∀ (s : State) (e : Bool), motherBits (shiftIn s e) =
      outputsBits (stateBits s) [e] ∧ stateBits (nextState s e) =
        (e, (stateBits s).1, (stateBits s).2.1, (stateBits s).2.2.1) := by decide +kernel
  induction bits generalizing s with
  | nil => rfl
  | cons e bits ih =>
      obtain ⟨hbits, hnext⟩ := hstep s e
      rw [outputs, ih, hbits, hnext]
      rfl

/-- Every code bit of a window is one for eight of the sixteen inputs. -/
theorem countOnes_window (s : State) :
    countOnes (fun w ↦ outputs s (windowInput w)) (List.finRange 16) 32 =
      List.replicate 32 8 := by
  simp only [outputs_eq_outputsBits]
  obtain ⟨a, b, c, d⟩ := stateBits s
  revert a b c d
  decide +kernel

/-- The two branches out of a state have complementary outputs. -/
theorem branch_balanced (s : State) (m : Fin 4) :
    (Finset.univ.filter fun b ↦ (outputs s [b]).getD m false = true).card = 1 := by
  revert s m
  decide +kernel

/-- Some input of a window is within half of what is received. -/
theorem exists_window (s : State) (coded : List Sym) (h : coded.length = 32) :
    ∃ bits : List Bool, bits.length = 8 ∧ endState nextState s bits = 0 ∧
      2 * distance hardPenalty coded (outputs s bits) ≤ coded.length := by
  have hlen : ∀ w, (outputs s (windowInput w)).length = coded.length := fun w ↦ by
    rw [length_outputs, h]
    rfl
  obtain ⟨w, hw⟩ := exists_distance_le (fun w ↦ outputs s (windowInput w)) coded hlen fun m hm ↦ by
    have hcount := getD_countOnes (fun w ↦ (hlen w).trans h) (List.finRange 16) (h ▸ hm)
    rw [countOnes_window, List.getD_replicate _ (h ▸ hm)] at hcount
    rw [Finset.card_filter, Fin.sum_univ_def, Fintype.card_fin]
    have : (fun w ↦ if (outputs s (windowInput w)).getD m false = true then 1 else 0) =
        fun w ↦ ((outputs s (windowInput w)).getD m false).toNat := by
      funext w
      cases (outputs s (windowInput w)).getD m false <;> rfl
    rw [this, ← hcount]
  refine ⟨windowInput w, rfl, ?_, hw⟩
  rw [windowInput, endState_append]
  exact endState_tail _

/-- One of the two branches is within half of what is received. -/
theorem exists_branch (s : State) (coded : List Sym) (h : coded.length = 4) :
    ∃ b : Bool, 2 * distance hardPenalty coded (outputs s [b]) ≤ coded.length := by
  refine exists_distance_le (fun b ↦ outputs s [b]) coded (fun b ↦ ?_) fun m hm ↦ ?_
  · rw [length_outputs, h]
    rfl
  · rw [branch_balanced s ⟨m, h ▸ hm⟩]
    rfl

theorem distance_append {coded coded' : List Sym} {code code' : List Bool}
    (h : code.length = coded.length) :
    distance hardPenalty (coded ++ coded') (code ++ code') =
      distance hardPenalty coded code + distance hardPenalty coded' code' := by
  rw [distance, List.zipWith_append h, List.sum_append]
  rfl

/-- **From any state, in `n + 8` steps, some run to state 0 is within half of what is
received.** -/
theorem exists_run (n : ℕ) (s : State) (coded : List Sym) (h : coded.length = 4 * (n + 8)) :
    ∃ bits : List Bool, bits.length = n + 8 ∧ endState nextState s bits = 0 ∧
      2 * distance hardPenalty coded (outputs s bits) ≤ coded.length := by
  induction n generalizing s coded with
  | zero => simpa using exists_window s coded h
  | succ n ih =>
      obtain ⟨b, hb⟩ := exists_branch s (coded.take 4) (by simp [h])
      obtain ⟨bits, hlen, hend, hdist⟩ := ih (nextState s b) (coded.drop 4)
        (by simp [h]; omega)
      refine ⟨b :: bits, by simp [hlen], hend, ?_⟩
      have happ : distance hardPenalty coded (outputs s (b :: bits)) =
          distance hardPenalty (coded.take 4) (outputs s [b]) +
            distance hardPenalty (coded.drop 4) (outputs (nextState s b) bits) := by
        rw [← distance_append (by simp [h]), List.take_append_drop]
        rfl
      rw [happ]
      simp only [List.length_take, List.length_drop] at hb hdist
      omega

/-! ## The decoders -/

theorem distance_take {α : Type*} (penalty : Bool → α → ℕ) (coded : List α) (code : List Bool) :
    distance penalty (coded.take code.length) code = distance penalty coded code := by
  unfold distance
  induction code generalizing coded with
  | nil => simp
  | cons e code ih =>
      cases coded with
      | nil => rfl
      | cons r coded => simp [ih]

theorem infM_eq : infM = 2 ^ 28 := by decide

/-- Whatever is received, some terminated run costs less than the cap. -/
theorem exists_distance_lt (coded : List Sym) (h : 16 * (coded.length / 4) < 2 ^ 31) :
    ∃ bits, Terminated (coded.length / 4) bits ∧
      distance hardPenalty coded (convR14 bits) < infM := by
  rcases Nat.lt_or_ge (coded.length / 4) 8 with hshort | hlong
  · refine ⟨_, terminated_replicate_false _, ?_⟩
    have hle := distance_le_length coded (convR14 (List.replicate (coded.length / 4) false))
    rw [convR14, length_convR14From, List.length_replicate] at hle
    rw [infM_eq, convR14]
    omega
  · obtain ⟨n, hn⟩ := Nat.exists_eq_add_of_le' hlong
    obtain ⟨bits, hlen, hend, hdist⟩ := exists_run n 0 (coded.take (4 * (n + 8)))
      (by rw [List.length_take]; omega)
    refine ⟨bits, terminated_iff.2 ⟨by omega, hend⟩, ?_⟩
    have hcode : (convR14 bits).length = 4 * (n + 8) := by
      rw [convR14, length_convR14From, hlen]
    rw [← distance_take, hcode, convR14_eq_outputs, infM_eq]
    rw [List.length_take] at hdist
    omega

/-- **The Viterbi decoders are maximum-likelihood decoders.**  For every sequence of hard
symbols whose stages can be indexed, the hard decoder returns the input of an encoder run
from state 0 to state 0 whose code word has the least Hamming distance to the received
symbols over the positions that are not erased.  For every sequence of soft values whose
absolute sum is below the cap, the soft decoder returns one whose code word has the
greatest correlation. -/
theorem viterbi_maximumLikelihood :
    (∀ coded : List Sym, 16 * (coded.length / 4) < 2 ^ 31 →
      ∃ bits, viterbiR14 coded = some bits ∧ Terminated (coded.length / 4) bits ∧
        ∀ bits', Terminated (coded.length / 4) bits' →
          hammingDistance coded (convR14 bits) ≤ hammingDistance coded (convR14 bits')) ∧
    (∀ soft : List ℤ, (soft.map Int.natAbs).sum < 2 ^ 28 →
      ∃ bits, viterbiR14Soft soft = some bits ∧ Terminated (soft.length / 4) bits ∧
        ∀ bits', Terminated (soft.length / 4) bits' →
          correlation soft (convR14 bits') ≤ correlation soft (convR14 bits)) := by
  constructor
  · intro coded hlen
    obtain ⟨run, hrun, hcost⟩ := exists_distance_lt coded hlen
    obtain ⟨bits, hbits, hterm, hmin⟩ := viterbiWith_optimal hrun hcost
    refine ⟨bits, hbits, hterm, fun bits' h' ↦ ?_⟩
    rw [← distance_hardPenalty, ← distance_hardPenalty]
    exact hmin bits' h'
  · intro soft hsum
    have hcost : distance softPenalty soft
        (convR14 (List.replicate (soft.length / 4) false)) < infM :=
      (distance_softPenalty_le soft _).trans_lt (infM_eq ▸ hsum)
    obtain ⟨bits, hbits, hterm, hmin⟩ :=
      viterbiWith_optimal (terminated_replicate_false _) hcost
    refine ⟨bits, hbits, hterm, fun bits' h' ↦ ?_⟩
    have hle := hmin bits' h'
    have hb := correlation_add_distance soft (convR14 bits)
    have hb' := correlation_add_distance soft (convR14 bits')
    have hlen : (convR14 bits).length = (convR14 bits').length := by
      simp only [convR14, length_convR14From, hterm.1, h'.1]
    rw [hlen, ← hb'] at hb
    omega

/-- A word is sent.  One symbol of it is inverted and one erased; or of its soft values one is
weakly and one strongly wrong, and one says nothing. -/
theorem viterbi_maximumLikelihood_noisy :
    let sent := [true, false, true, false, false, false, false]
    let coded := (((convR14 sent).map some).set 2 (some false)).set 5 none
    let clean := (convR14 sent).map fun e ↦ if e then (9 : ℤ) else -7
    let soft := ((clean.set 1 (-1)).set 9 8).set 4 0
    (∃ bits, viterbiR14 coded = some bits ∧ hammingDistance coded (convR14 bits) ≤ 1) ∧
      ∃ bits, viterbiR14Soft soft = some bits ∧ 202 ≤ correlation soft (convR14 bits) := by
  intro sent coded clean soft
  have hsent : ∀ n, n = 7 → Terminated n sent := fun n hn ↦ ⟨hn.symm, by decide⟩
  obtain ⟨bits, hbits, -, hbest⟩ := viterbi_maximumLikelihood.1 coded (by decide)
  obtain ⟨bits', hbits', -, hbest'⟩ := viterbi_maximumLikelihood.2 soft (by decide)
  refine ⟨⟨bits, hbits, ?_⟩, bits', hbits', ?_⟩
  · have hone : hammingDistance coded (convR14 sent) = 1 := by decide
    exact (hbest sent (hsent _ (by decide))).trans_eq hone
  · have hsum : correlation soft (convR14 sent) = 202 := by decide
    exact hsum.symm.trans_le (hbest' sent (hsent _ (by decide)))

end TetraPhy.Codec
