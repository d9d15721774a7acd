import TetraPhy.Codec.SchF
import TetraPhy.Rx.UlSchHuBlocks
import Mathlib.Tactic.Linarith
import TetraPhy.Codec.MaxLikelihood
import TetraPhy.Lib.FirstMin
import TetraPhy.Lib.RegisterTrellis
import TetraPhy.Rx.UlViterbi

/-!
# What a soft decoder prefers

Both soft decoders of the repository, `tetra_codec_viterbi_r14_soft` and the Viterbi decoder of the
uplink, weigh the words that end in state 0, and have the first of those that weigh least, read
from the last bit back (`exists_preferred_viterbiWith`, `preferred_tracedBits`).  They differ in
the scale.

The software has signed values, positive for a one, and a bit that the sign contradicts costs the
value.  The hardware has five bits without a sign.  Its centre is 16, and a value costs a zero what
it is above 0 and a one what it is below 31: at the centre, 16 and 15.  So its cost is twice that of
the software for the value that is left on the scale, up to what does not depend on the bit, and
each one that is sent is half a step cheaper than it should be (`distance_softCost`).
-/

namespace TetraPhy.Rx

open Codec Survivor

attribute [local instance] neZeroViterbi neZeroSymbols

/-- The first of the words of `n` bits to state 0 that weigh least. -/
abbrev Preferred {μ : Type*} [LinearOrder μ] (n : ℕ) (weight : List Bool → μ) (bits : List Bool) :
    Prop := IsFirstMin (Terminated n) weight List.reverse bits

/-- The best path of the register is the word preferred. -/
theorem isFirst_iff_preferred {cs : List (State → Bool → ℕ)} {weight : List Bool → ℕ}
    (h : ∀ bits, Terminated cs.length bits → r14.pathCost 0 bits cs = weight bits)
    {bits : List Bool} : r14.IsFirst cs 0 0 bits ↔ Preferred cs.length weight bits := by
  constructor
  · rintro ⟨hreach, hleast⟩
    have hbits := terminated_iff_reaches.2 hreach
    refine ⟨hbits, fun bits' h' ↦ ?_⟩
    rw [← h bits hbits, ← h bits' h']
    exact hleast bits' (terminated_iff_reaches.1 h')
  · rintro ⟨hbits, hleast⟩
    refine ⟨terminated_iff_reaches.1 hbits, fun bits' h' ↦ ?_⟩
    have hbits' := terminated_iff_reaches.2 h'
    rw [h bits hbits, h bits' hbits']
    exact hleast bits' hbits'

/-! ## The two decoders -/

/-- The loops of the software list the branches in the order of the register. -/
theorem lists_branches : r14.Lists branches where
  filter_eq := by decide

/-- **The software has the word that its penalty prefers**, if one is cheap enough. -/
theorem exists_preferred_viterbiWith {α : Type*} (penalty : Bool → α → ℕ) {coded : List α}
    {run : List Bool} (hrun : Terminated (coded.length / 4) run)
    (hcost : distance penalty coded (convR14 run) < infM) :
    ∃ bits, Preferred (coded.length / 4) (fun bits ↦ distance penalty coded (convR14 bits)) bits ∧
      viterbiWith penalty coded = some bits := by
  have hlen : (((stages coded).map (branchCost penalty)).map r14.entryCost).length =
      coded.length / 4 := by
    rw [List.length_map, List.length_map, length_stages]
  have hweight : ∀ bits, Terminated
      (((stages coded).map (branchCost penalty)).map r14.entryCost).length bits →
        r14.pathCost 0 bits (((stages coded).map (branchCost penalty)).map r14.entryCost) =
          distance penalty coded (convR14 bits) := by
    intro bits hbits
    rw [hlen] at hbits
    rw [r14.pathCost_map_entryCost, convR14_eq_outputs]
    exact pathCost_stages coded hbits.1
  rw [← hlen] at hrun ⊢
  rw [← hweight run hrun] at hcost
  obtain ⟨bits, hfirst, hle⟩ :=
    ShiftRegister.exists_isFirst covers_r14 delays_r14 (terminated_iff_reaches.1 hrun) hcost
  exact ⟨bits, (isFirst_iff_preferred hweight).1 hfirst,
    hfirst.decode covers_r14 delays_r14 lists_branches (hle.trans_lt hcost)⟩

/-- **The hardware has the word that its cost prefers**, below its cap. -/
theorem preferred_tracedBits {w : ℕ} (hw : w + 2 ≤ 16) {softs : List (Fin 4 → BitVec w)}
    (h : CannotReach softs) : Preferred softs.length
      (fun bits ↦ distance softCost (softs.flatMap quad) (convR14 bits)) (tracedBits softs) := by
  have hlen : (softs.map stageCost).length = softs.length := List.length_map _
  have hweight : ∀ bits, Terminated (softs.map stageCost).length bits →
      r14.pathCost 0 bits (softs.map stageCost) =
        distance softCost (softs.flatMap quad) (convR14 bits) := by
    intro bits hbits
    rw [hlen] at hbits
    rw [pathCost_eq hbits.1, convR14_eq_outputs]
  rw [← hlen]
  exact (isFirst_iff_preferred hweight).1 (isFirst_tracedBits hw h)

/-! ## The two scales -/

/-- The signed value that a symbol stands for, positive for a one. -/
def level (u : BitVec 5) : ℤ := u.toNat - 16

/-- **Twice the penalty, but half a step less for a one.** -/
theorem softCost_eq (e : Bool) (u : BitVec 5) :
    (softCost e u : ℤ) = 2 * softPenalty e (level u) - e.toNat + (16 - |level u|) := by
  have hu := u.isLt
  have hmax : (softMax 5).toNat = 31 := toNat_softMax 5
  rw [softCost, softPenalty, level, hmax]
  cases e <;> simp only [Bool.false_eq_true, if_false, if_true, Bool.toNat_false, Bool.toNat_true]
  all_goals grind

/-- What the signed values hold against a word. -/
def penaltyOf (mother : List ℤ) (bits : List Bool) : ℕ :=
  distance softPenalty mother (convR14 bits)

/-- The ones that are sent for a word. -/
def onesOf (bits : List Bool) : ℕ := (convR14 bits).count true

/-- **The cost of a word**, up to what all words cost. -/
theorem distance_softCost (us : List (BitVec 5)) {code : List Bool} (h : code.length = us.length) :
    (distance softCost us code : ℤ) =
      2 * distance softPenalty (us.map level) code - code.count true +
        (us.map fun u ↦ 16 - |level u|).sum := by
  induction us generalizing code with
  | nil =>
      obtain rfl := List.eq_nil_of_length_eq_zero h
      rfl
  | cons u us ih =>
      obtain ⟨e, code, rfl⟩ := List.exists_cons_of_length_eq_add_one h
      have hrest := ih (Nat.succ.inj h)
      rw [distance, distance] at hrest ⊢
      rw [List.zipWith_cons_cons, List.sum_cons, List.map_cons, List.zipWith_cons_cons,
        List.sum_cons, List.map_cons, List.sum_cons, List.count_cons, Nat.cast_add, Nat.cast_add,
        Nat.cast_add, hrest, softCost_eq]
      have hone : ((if (e == true) = true then 1 else 0 : ℕ) : ℤ) = e.toNat := by cases e <;> rfl
      rw [hone]
      linarith

end TetraPhy.Rx

/-!
# The two soft decoders of SCH/HU

The hardware has the values of a block as signed bytes, positive for a zero, and the software has
them with the other sign.  Both put them in the order of the code, with nothing for what was
punctured, and prefer a word (`exists_schhuDecodeSoft`, `exists_resultOf`).

The scale of the hardware ends at -16 and 15 (`kept_eq`), and a byte of -128 stays what it is when
it is flipped.  So a word can weigh less in the hardware than it should, for each one that is
sent for it and for what is cut off.  That is its bonus (`bonus`), and the two decoders agree
exactly if the word that the software prefers, or one that reads the same, does not lose its lead
to the gain of another one (`SchHuBlock.agrees_resultOf`), in any sequence of blocks
(`UlSchHuDecoder.softDecoders_agree_iff`).

On the scale the ones are all that is gained, and a lead of more than half as many is enough
(`leadKept_of_lt`).  So the two agree at full strength (`SchHuBlock.leadKept_of_full`).  Without a
lead the ones decide: of silence, where nothing is against any word, the software has the word of
zeros and the hardware has another one (`UlSchHuDecoder.silence_disagrees`).
-/

namespace TetraPhy.Rx

open Codec Permute Survivor

attribute [local instance] neZeroViterbi neZeroSymbols

/-! ## The values -/

/-- The values of the software for those of the hardware. -/
def swSoft (softs : List (BitVec 8)) : List ℤ := softs.map fun v ↦ -v.toInt

/-- What is left of a value on the scale of the hardware, positive for a one. -/
def kept (v : BitVec 8) : ℤ := level (toVitSoft v)

/-- **The scale has two ends.** -/
theorem kept_eq : ∀ v : BitVec 8, kept v = max (-16) (min 15 (-v.toInt)) := by decide +kernel

theorem level_vitCenter : level vitCenter = 0 := by decide

/-- The mother code of the software, -/
def swMother (seed : UInt32) (softs : List (BitVec 8)) : List ℤ :=
  depunctureR23Soft (deinterleavePerm (scrambleWith Neg.neg seed (swSoft softs)) 168 13)

/-- and that of the hardware, on its scale. -/
def hwMother (seed : UInt32) (softs : List (BitVec 8)) : List ℤ :=
  depunctureR23Soft ((deinterleavePerm (scrambleWith Neg.neg seed softs) 168 13).map kept)

/-- The symbols are the values of the code, and erasures between them. -/
theorem flatMap_map_symbolAt {n p : ℕ} {deint : ℕ → BitVec 8} {xs : List (BitVec 8)}
    (hlen : xs.length = 3 * n) (h : ∀ j (hj : j < xs.length), deint (3 * p + j) = xs[j]) :
    ((List.range' (2 * p) (2 * n)).map (symbolAt deint)).flatMap quad =
      depunctureWith toVitSoft vitCenter xs := by
  induction n generalizing p xs with
  | zero =>
      rw [List.eq_nil_of_length_eq_zero hlen]
      rfl
  | succ n ih =>
      obtain ⟨x, y, z, xs, rfl⟩ : ∃ x y z xs', xs = x :: y :: z :: xs' := by
        rcases xs with _ | ⟨x, _ | ⟨y, _ | ⟨z, xs⟩⟩⟩
        case cons.cons.cons => exact ⟨x, y, z, xs, rfl⟩
        all_goals simp only [List.length_cons, List.length_nil] at hlen; omega
      simp only [List.length_cons] at hlen h
      have hx : deint (3 * p + 0) = x := h 0 (by omega)
      have hy : deint (3 * p + 1) = y := h 1 (by omega)
      have hz : deint (3 * p + 2) = z := h 2 (by omega)
      have hrange : List.range' (2 * p) (2 * (n + 1)) =
          2 * p :: (2 * p + 1) :: List.range' (2 * (p + 1)) (2 * n) := rfl
      have heven : quad (symbolAt deint (2 * p)) =
          [toVitSoft x, toVitSoft y, vitCenter, vitCenter] := by
        rw [quad, symbolAt_even, symbolAt_even, symbolAt_even, symbolAt_even, ← hx, ← hy]
        rfl
      have hodd : quad (symbolAt deint (2 * p + 1)) =
          [toVitSoft z, vitCenter, vitCenter, vitCenter] := by
        rw [quad, symbolAt_odd, symbolAt_odd, symbolAt_odd, symbolAt_odd, hz]
        rfl
      have hrest : ((List.range' (2 * (p + 1)) (2 * n)).map (symbolAt deint)).flatMap quad =
          depunctureWith toVitSoft vitCenter xs := by
        refine ih (by omega) fun j hj ↦ ?_
        have hj' := h (j + 3) (by omega)
        rwa [show 3 * p + (j + 3) = 3 * (p + 1) + j by omega] at hj'
      rw [hrange, List.map_cons, List.map_cons, List.flatMap_cons, List.flatMap_cons, heven, hodd,
        hrest, depunctureWith]
      rfl

theorem flatMap_quad_symbolsOf {n : ℕ} {deint : List (BitVec 8)} (hlen : deint.length = 3 * n) :
    (symbolsOf deint).flatMap quad = depunctureWith toVitSoft vitCenter deint := by
  have hstages : 2 * (deint.length / 3) = 2 * n := by omega
  rw [symbolsOf, hstages, List.range_eq_range']
  refine flatMap_map_symbolAt (p := 0) hlen fun j hj ↦ ?_
  rw [Nat.mul_zero, Nat.zero_add, List.getD_eq_getElem _ _ hj]

/-! ## What the two prefer -/

theorem length_swMother (seed : UInt32) (softs : List (BitVec 8)) :
    (swMother seed softs).length = 448 := by
  rw [swMother, depunctureR23Soft, length_depunctureWith, deinterleavePerm, length_gather]

/-- What holds of the values and of zero, whatever their sign, holds of the mother code. -/
theorem forall_mem_swMother {p : ℤ → Prop} (hzero : p 0) (hneg : ∀ s, p s → p (-s))
    {softs : List (BitVec 8)} (h : ∀ v ∈ softs, p v.toInt) (seed : UInt32) :
    ∀ s ∈ swMother seed softs, p s := by
  have hsoft : ∀ s ∈ swSoft softs, p s := by
    rw [swSoft, List.forall_mem_map]
    exact fun v hv ↦ hneg _ (h v hv)
  have hmoved : ∀ s ∈ deinterleavePerm (scrambleWith Neg.neg seed (swSoft softs)) 168 13, p s :=
    forall_mem_gather hzero (forall_mem_scrambleWith hneg seed hsoft) _ _
  exact forall_mem_depunctureWith hzero hmoved

theorem natAbs_le_of_mem_swMother (seed : UInt32) (softs : List (BitVec 8)) :
    ∀ s ∈ swMother seed softs, s.natAbs ≤ 128 := by
  refine forall_mem_swMother (by decide) (fun s hs ↦ by rwa [Int.natAbs_neg]) (fun v _ ↦ ?_) seed
  have := v.le_toInt
  have := v.toInt_lt
  omega

/-- **The software has the word that its values are least against.** -/
theorem exists_schhuDecodeSoft (softs : List (BitVec 8)) (colourCode slotNum : UInt8)
    (mcc mnc : UInt16) : ∃ bits,
      Preferred 112 (penaltyOf (swMother (scrambleInit colourCode mcc mnc) softs)) bits ∧
        schhuDecodeSoft (swSoft softs) colourCode slotNum mcc mnc =
          some (bits.take 92, if crc16CheckN bits 92 then 0 else -1) := by
  have hcost : distance softPenalty (swMother (scrambleInit colourCode mcc mnc) softs)
      (convR14 (List.replicate 112 false)) < infM := by
    refine (distance_softPenalty_le _ _).trans_lt ?_
    have hsum := List.sum_le_card_nsmul
      ((swMother (scrambleInit colourCode mcc mnc) softs).map Int.natAbs) 128
      (List.forall_mem_map.2 (natAbs_le_of_mem_swMother _ softs))
    rw [List.length_map, length_swMother] at hsum
    exact hsum.trans_lt (by decide)
  have hlen : (swMother (scrambleInit colourCode mcc mnc) softs).length / 4 = 112 := by
    rw [length_swMother]
  obtain ⟨bits, hbits, hdecode⟩ := exists_preferred_viterbiWith softPenalty
    (hlen.symm ▸ terminated_replicate_false 112) hcost
  rw [hlen] at hbits
  refine ⟨bits, hbits, ?_⟩
  have hrun : viterbiR14Soft (swMother (scrambleInit colourCode mcc mnc) softs) = some bits :=
    hdecode
  rw [schhuDecodeSoft, Channel.decodeSoft]
  change (viterbiR14Soft (swMother (scrambleInit colourCode mcc mnc) softs)).map _ = _
  rw [hrun]
  rfl

/-- **The hardware prefers what its scale leaves of the values**, with half a step less for a
one. -/
theorem preferred_symbolsOf {deint : List (BitVec 8)} (hlen : deint.length = 168) :
    Preferred 112 (fun bits ↦ 2 * (penaltyOf (depunctureR23Soft (deint.map kept)) bits : ℤ) -
      onesOf bits) (tracedBits (symbolsOf deint)) := by
  have hstages : (symbolsOf deint).length = 112 := by rw [length_symbolsOf, hlen]
  have hcap : CannotReach (symbolsOf deint) := by
    refine cannotReach_of_lt ?_
    rw [hstages, toNat_softMax]
    decide
  have hquads : (symbolsOf deint).flatMap quad = depunctureWith toVitSoft vitCenter deint :=
    flatMap_quad_symbolsOf (n := 56) hlen
  have hmother : depunctureR23Soft (deint.map kept) =
      (depunctureWith toVitSoft vitCenter deint).map level :=
    depunctureWith_map kept level (fun _ ↦ rfl) level_vitCenter.symm deint
  have hcount : (depunctureWith toVitSoft vitCenter deint).length = 448 := by
    rw [length_depunctureWith, hlen]
  have hcost : ∀ bits, Terminated 112 bits →
      (distance softCost (depunctureWith toVitSoft vitCenter deint) (convR14 bits) : ℤ) =
        2 * (penaltyOf (depunctureR23Soft (deint.map kept)) bits : ℤ) - onesOf bits +
          ((depunctureWith toVitSoft vitCenter deint).map fun u ↦ 16 - |level u|).sum := by
    intro bits hbits
    rw [hmother]
    refine distance_softCost _ ?_
    rw [convR14, length_convR14From, hbits.1, hcount]
  have hpreferred := preferred_tracedBits (by decide) hcap
  rw [hstages, hquads] at hpreferred
  refine (isFirstMin_congr fun a b ha hb ↦ ?_).1 hpreferred
  have ha' := hcost a ha
  have hb' := hcost b hb
  omega

/-- **The hardware has the word that its costs are least for.** -/
theorem exists_resultOf (scrambInit : BitVec 32) (soft : ℕ → BitVec 8) : ∃ bits,
    Preferred 112 (fun bits ↦ 2 * (penaltyOf (hwMother (UInt32.ofBitVec (ulSeed scrambInit))
      ((List.range 168).map soft)) bits : ℤ) - onesOf bits) bits ∧
        UlSchHuDecoder.resultOf scrambInit soft = (bits.take 92, crc16CheckN bits 92) := by
  have hlen : (ulDeint schhu scrambInit ((List.range 168).map soft)).length = 168 :=
    length_ulDeint ..
  have hpreferred := preferred_symbolsOf hlen
  refine ⟨_, hpreferred, ?_⟩
  have hbits := hpreferred.mem.1
  have hdecoded : ulDecode schhu scrambInit ((List.range 168).map soft) =
      (tracedBits (symbolsOf (ulDeint schhu scrambInit ((List.range 168).map soft)))).take 108 := by
    rw [ulDecode, decoded, length_symbolsOf, hlen]
  rw [UlSchHuDecoder.resultOf, hdecoded, List.take_take]
  exact congrArg _ (ulCrcOk_take (n := 92) (by rw [hbits]; decide))

/-! ## When they agree -/

/-- Two words that read the same: the information bits, and the verdict of the CRC. -/
structure ReadsAs (bits other : List Bool) : Prop where
  info : bits.take 92 = other.take 92
  verdict : crc16CheckN bits 92 = crc16CheckN other 92

section Lead

variable (seed : UInt32) (softs : List (BitVec 8))

/-- What a word gains in the hardware, in half steps: for each one that is sent for it, and for
what the scale cuts off the values against it. -/
def bonus (bits : List Bool) : ℤ :=
  onesOf bits +
    2 * ((penaltyOf (swMother seed softs) bits : ℤ) - penaltyOf (hwMother seed softs) bits)

/-- None of the other words gains more on this one than it is behind, or as much if it is the
first of the two. -/
def KeepsLead (bits : List Bool) : Prop :=
  ∀ other, Terminated 112 other →
    toLex (bonus seed softs other - bonus seed softs bits, bits.reverse) ≤
      toLex (2 * (penaltyOf (swMother seed softs) other : ℤ) -
        2 * penaltyOf (swMother seed softs) bits, other.reverse)

/-- The word that the values are least against, or one that reads the same, keeps its lead. -/
def LeadKept : Prop :=
  ∃ best bits, Preferred 112 (penaltyOf (swMother seed softs)) best ∧ ReadsAs bits best ∧
    Terminated 112 bits ∧ KeepsLead seed softs bits

variable {seed softs}

/-- **The hardware prefers the word that keeps its lead.** -/
theorem preferred_iff_keepsLead {bits : List Bool} :
    Preferred 112 (fun bits ↦ 2 * (penaltyOf (hwMother seed softs) bits : ℤ) - onesOf bits) bits ↔
      Terminated 112 bits ∧ KeepsLead seed softs bits := by
  have hweight : (fun bits ↦ 2 * (penaltyOf (hwMother seed softs) bits : ℤ) - onesOf bits) =
      fun bits ↦ 2 * (penaltyOf (swMother seed softs) bits : ℤ) - bonus seed softs bits := by
    funext bits
    rw [bonus]
    omega
  rw [Preferred, hweight]
  exact isFirstMin_sub_iff

end Lead

/-! ## On the scale -/

/-- A value that the scale has, of either sign. -/
theorem kept_of_le : ∀ v : BitVec 8, -15 ≤ v.toInt ∧ v.toInt ≤ 15 →
    kept v = -v.toInt ∧ kept (-v) = - -v.toInt := by decide +kernel

/-- **Values that are on the scale weigh as much in the hardware** as in the software. -/
theorem hwMother_eq_swMother {seed : UInt32} {softs : List (BitVec 8)} (hlen : softs.length = 168)
    (h : ∀ v ∈ softs, -15 ≤ v.toInt ∧ v.toInt ≤ 15) :
    hwMother seed softs = swMother seed softs := by
  have hflip : (scrambleWith Neg.neg seed softs).map kept =
      scrambleWith Neg.neg seed (swSoft softs) := by
    clear hlen
    induction softs generalizing seed with
    | nil => rfl
    | cons v softs ih =>
        rw [List.forall_mem_cons] at h
        obtain ⟨hv, hneg⟩ := kept_of_le v h.1
        rw [scrambleWith, List.map_cons, ih h.2, apply_ite kept, hv, hneg]
        rfl
  have hmove : deinterleavePerm ((scrambleWith Neg.neg seed softs).map kept) 168 13 =
      (deinterleavePerm (scrambleWith Neg.neg seed softs) 168 13).map kept :=
    gather_map default default kept fun k hk ↦ by
      rw [length_scrambleWith, hlen]
      exact permIndex_lt hk
  rw [hflip] at hmove
  exact congrArg depunctureR23Soft hmove.symm

/-- **A clear lead is enough**, for values on the scale: twice the lead has to exceed what the
other word has more ones. -/
theorem leadKept_of_lt {seed : UInt32} {softs : List (BitVec 8)} (hlen : softs.length = 168)
    (h : ∀ v ∈ softs, -15 ≤ v.toInt ∧ v.toInt ≤ 15) {best : List Bool}
    (hbest : Preferred 112 (penaltyOf (swMother seed softs)) best)
    (hlead : ∀ other, Terminated 112 other → other ≠ best →
      2 * penaltyOf (swMother seed softs) best + onesOf other <
        2 * penaltyOf (swMother seed softs) other + onesOf best) : LeadKept seed softs := by
  have hscale : hwMother seed softs = swMother seed softs := hwMother_eq_swMother hlen h
  have hkeeps : Preferred 112 (fun bits ↦ 2 * (penaltyOf (swMother seed softs) bits : ℤ) -
      onesOf bits) best := by
    refine IsFirstMin.sub_of_lt hbest.mem fun other hother hne ↦ ?_
    have := hlead other hother hne
    omega
  rw [← hscale] at hkeeps
  obtain ⟨hterm, hkeeps⟩ := preferred_iff_keepsLead.1 hkeeps
  exact ⟨best, best, hbest, ⟨rfl, rfl⟩, hterm, hkeeps⟩

/-! ## Blocks -/

/-- A block of random access: its values, and the cell that it is for. -/
structure SchHuBlock where
  soft : ℕ → BitVec 8
  colourCode : UInt8
  slotNum : UInt8
  mcc : UInt16
  mnc : UInt16

namespace SchHuBlock

/-- The values of the block. -/
def softs (b : SchHuBlock) : List (BitVec 8) := (List.range 168).map b.soft

/-- The seed of the cell. -/
def seed (b : SchHuBlock) : UInt32 := scrambleInit b.colourCode b.mcc b.mnc

theorem seed_ne_zero (b : SchHuBlock) : b.seed.toBitVec ≠ 0 := fun h ↦
  scrambleInit_ne_zero b.colourCode b.mcc b.mnc (UInt32.toBitVec_inj.1 h)

/-- It is loaded as it is. -/
theorem ulSeed_seed (b : SchHuBlock) : UInt32.ofBitVec (ulSeed b.seed.toBitVec) = b.seed := by
  rw [ulSeed, if_neg b.seed_ne_zero]

/-- The software has the information bits of a result, and its verdict. -/
def Agrees (b : SchHuBlock) (r : List Bool × Bool) : Prop :=
  schhuDecodeSoft (swSoft b.softs) b.colourCode b.slotNum b.mcc b.mnc =
    some (r.1, if r.2 then 0 else -1)

/-- **The two agree exactly if the lead is kept.** -/
theorem agrees_resultOf (b : SchHuBlock) :
    b.Agrees (UlSchHuDecoder.resultOf b.seed.toBitVec b.soft) ↔ LeadKept b.seed b.softs := by
  obtain ⟨best, hbest, hsw⟩ := exists_schhuDecodeSoft b.softs b.colourCode b.slotNum b.mcc b.mnc
  obtain ⟨bits, hbits, hhw⟩ := exists_resultOf b.seed.toBitVec b.soft
  rw [ulSeed_seed] at hbits
  rw [Agrees, hsw, hhw]
  constructor
  · intro hsame
    obtain ⟨hinfo, hcode⟩ := Prod.mk.inj (Option.some.inj hsame)
    have hinj : ∀ x y : Bool, (if x then 0 else -1 : ℤ) = (if y then 0 else -1) → y = x := by decide
    obtain ⟨hterm, hkeeps⟩ := preferred_iff_keepsLead.1 hbits
    exact ⟨best, bits, hbest, ⟨hinfo.symm, hinj _ _ hcode⟩, hterm, hkeeps⟩
  · rintro ⟨best', bits', hbest', hreads, hterm, hkeeps⟩
    obtain rfl := hbest'.unique List.reverse_injective hbest
    obtain rfl := (preferred_iff_keepsLead.2 ⟨hterm, hkeeps⟩).unique List.reverse_injective hbits
    rw [hreads.info, hreads.verdict]

end SchHuBlock

/-! ## A block at full strength -/

/-- A value that is against the same bits as a symbol. -/
def Tells (r : Sym) (s : ℤ) : Prop := ∀ e, softPenalty e s = 0 ↔ hardPenalty e r = 0

theorem tells_zero : Tells none 0 := fun e ↦ by cases e <;> decide

theorem Full.tells {e : Bool} {v : BitVec 8} (h : Full e v) : Tells (some e) (kept v) := by
  cases e
  all_goals
    obtain rfl | rfl := h
    all_goals intro e; cases e <;> decide

/-- So do the mother codes of both. -/
theorem tells_depuncture {ks : List Bool} {vs : List (BitVec 8)} (h : List.Forall₂ Full ks vs) :
    List.Forall₂ Tells (depunctureR23 ks) (depunctureR23Soft (vs.map kept)) := by
  unfold depunctureR23
  fun_induction depunctureWith some none ks generalizing vs with
  | case1 x y z ks ih =>
      obtain _ | ⟨hx, _ | ⟨hy, _ | ⟨hz, hrest⟩⟩⟩ := h
      refine List.Forall₂.cons hx.tells (List.Forall₂.cons hy.tells ?_)
      refine List.Forall₂.cons tells_zero (List.Forall₂.cons tells_zero ?_)
      refine List.Forall₂.cons hz.tells (List.Forall₂.cons tells_zero ?_)
      exact List.Forall₂.cons tells_zero (List.Forall₂.cons tells_zero (ih hrest))
  | case2 ks hshort =>
      rcases h with _ | ⟨_, _ | ⟨_, _ | ⟨_, hrest⟩⟩⟩
      case cons.cons.cons => exact absurd rfl (hshort _ _ _ _)
      all_goals exact List.Forall₂.nil

/-- **Nothing is against the same code words.** -/
theorem distance_eq_zero_iff {coded : List Sym} {soft : List ℤ} (h : List.Forall₂ Tells coded soft)
    (code : List Bool) : distance softPenalty soft code = 0 ↔ distance hardPenalty coded code = 0 := by
  induction h generalizing code with
  | nil => cases code <;> exact Iff.rfl
  | cons hd _ ih =>
      cases code with
      | nil => exact Iff.rfl
      | cons e code =>
          have hrest := ih code
          have he := hd e
          unfold distance at hrest ⊢
          rw [List.zipWith_cons_cons, List.zipWith_cons_cons, List.sum_cons, List.sum_cons,
            Nat.add_eq_zero_iff, Nat.add_eq_zero_iff, he, hrest]

/-- **The word that was sent is preferred**: nothing is against it, and something against each other
one. -/
theorem eq_of_preferred {mother : List ℤ} {bits best : List Bool} (hbits : Terminated 112 bits)
    (h : List.Forall₂ Tells (received 0 bits) mother)
    (hbest : Preferred 112 (penaltyOf mother) best) : best = bits := by
  have hsent : penaltyOf mother bits = 0 := by
    rw [penaltyOf, distance_eq_zero_iff h, convR14_eq_outputs]
    exact distance_received_self 56 0 hbits.1
  have hnone : penaltyOf mother best = 0 :=
    Nat.le_zero.1 ((hbest.weight_le hbits).trans_eq hsent)
  rw [penaltyOf, distance_eq_zero_iff h, convR14_eq_outputs] at hnone
  exact eq_of_distance_received 56 0 hbits.1 hbest.mem.1 hnone

/-- Full strength is on the scale. -/
theorem le_of_full {bits : List Bool} {softs : List (BitVec 8)} (h : List.Forall₂ Full bits softs) :
    ∀ v ∈ softs, -15 ≤ v.toInt ∧ v.toInt ≤ 15 := by
  induction h with
  | nil => exact List.forall_mem_nil _
  | @cons e v _ _ hv _ ih =>
      refine List.forall_mem_cons.2 ⟨?_, ih⟩
      cases e
      all_goals
        obtain rfl | rfl := hv
        all_goals decide

/-- **The lead is kept at full strength**, for every word. -/
theorem SchHuBlock.leadKept_of_full (b : SchHuBlock) {info : List Bool} (hinfo : info.length = 92)
    (h : List.Forall₂ Full (schhu.encodeFrom info b.seed) b.softs) : LeadKept b.seed b.softs := by
  -- the hardware has the word
  have hdecode : ulDecode schhu b.seed.toBitVec b.softs = crc16 info :=
    ulDecode_full (c := schhu) (by decide +kernel) hinfo b.seed_ne_zero h
  have hhw : UlSchHuDecoder.resultOf b.seed.toBitVec b.soft = (info, true) := by
    have htake : (crc16 info).take 92 = info := List.take_left' hinfo
    rw [UlSchHuDecoder.resultOf]
    change ((ulDecode schhu b.seed.toBitVec b.softs).take 92, ulCrcOk (ulDecode schhu _ b.softs)) = _
    rw [hdecode, htake, ulCrcOk_crc16]
  -- and the software too
  have hlen : b.softs.length = 168 := by rw [softs, List.length_map, List.length_range]
  have htells : List.Forall₂ Tells (received 0 (crc16 info ++ List.replicate 4 false))
      (swMother b.seed b.softs) := by
    rw [← hwMother_eq_swMother hlen (le_of_full h)]
    have htells := tells_depuncture (full_ulDeint (c := schhu) hinfo b.seed_ne_zero h)
    rwa [convR14_eq_outputs, ulDeint, ulSeed_seed] at htells
  have hword : Terminated 112 (crc16 info ++ List.replicate 4 false) := by
    have hterm := terminated_append_tail (crc16 info)
    rwa [length_crc16, hinfo] at hterm
  obtain ⟨best, hbest, hsw⟩ := exists_schhuDecodeSoft b.softs b.colourCode b.slotNum b.mcc b.mnc
  have hcheck := crc16CheckN_crc16 info (List.replicate 4 false)
  have hkeep : (crc16 info ++ List.replicate 4 false).take 92 = info := by
    rw [crc16, List.append_assoc, List.take_left' hinfo]
  rw [hinfo] at hcheck
  refine b.agrees_resultOf.1 ?_
  rw [Agrees, hsw, hhw, eq_of_preferred hword htells hbest, hcheck, hkeep]

/-- The block is at full strength for some word; or its values are on the scale, and its best word
leads each other one by more than half of the ones that are sent for it less. -/
def SchHuBlock.Clear (b : SchHuBlock) : Prop :=
  (∃ info, info.length = 92 ∧ List.Forall₂ Full (schhu.encodeFrom info b.seed) b.softs) ∨
    ((∀ v ∈ b.softs, -15 ≤ v.toInt ∧ v.toInt ≤ 15) ∧
      ∃ best, Preferred 112 (penaltyOf (swMother b.seed b.softs)) best ∧
        ∀ other, Terminated 112 other → other ≠ best →
          2 * penaltyOf (swMother b.seed b.softs) best + onesOf other <
            2 * penaltyOf (swMother b.seed b.softs) other + onesOf best)

theorem SchHuBlock.Clear.leadKept {b : SchHuBlock} (h : b.Clear) : LeadKept b.seed b.softs := by
  obtain ⟨info, hinfo, hfull⟩ | ⟨hscale, best, hbest, hlead⟩ := h
  · exact b.leadKept_of_full hinfo hfull
  · have hlen : b.softs.length = 168 := by rw [softs, List.length_map, List.length_range]
    exact leadKept_of_lt hlen hscale hbest hlead

namespace UlSchHuDecoder

open Run

/-- The cycles in which a sequence of blocks comes in, with any time between them. -/
inductive Presents : List SchHuBlock → List SoftDibit → Prop
  | nil : Presents [] []
  | wait {i : SoftDibit} {blocks : List SchHuBlock} {is : List SoftDibit}
      (hv : i.softValid = false) (rest : Presents blocks is) : Presents blocks (i :: is)
  | block {b : SchHuBlock} {i : SoftDibit} {load hold : List SoftDibit} {blocks : List SchHuBlock}
      {is : List SoftDibit} (hseed : i.scrambInit = b.seed.toBitVec)
      (hi : UlSchFDecoder.Brings b.soft 0 i) (hload : Pairs b.soft 1 load)
      (hhold : hold.length = busy) (rest : Presents blocks is) :
      Presents (b :: blocks) (i :: load ++ hold ++ is)

variable {d : UlSchHuDecoder} {blocks : List SchHuBlock} {is : List SoftDibit}

/-- **A sequence of blocks**: one result for each, and none that depends on another one. -/
theorem AtRest.exec_presents (h : d.AtRest) (his : Presents blocks is) :
    (exec step d is).AtRest ∧
      emitted step result d is = blocks.map fun b ↦ resultOf b.seed.toBitVec b.soft := by
  induction his generalizing d with
  | nil => exact ⟨h, rfl⟩
  | wait hv _ ih =>
      obtain ⟨hrest, hout⟩ := h.step_wait hv
      rw [emitted_cons_of_none hout]
      exact ih hrest
  | block hseed hi hload hhold _ ih =>
      obtain ⟨hrest, hout⟩ := exec_block h hi hload hhold
      obtain ⟨hend, hemit⟩ := ih hrest
      rw [exec_append, emitted_append, hout, hemit, hseed]
      exact ⟨hend, rfl⟩

/-- The cycles of a block whose values come one after the other. -/
def feed (b : SchHuBlock) : List SoftDibit :=
  ((List.range 84).map fun k ↦ ⟨b.soft (2 * k + 1), b.soft (2 * k), true, b.seed.toBitVec⟩) ++
    List.replicate busy ⟨0, 0, false, b.seed.toBitVec⟩

theorem pairs_feed (b : SchHuBlock) {n : ℕ} (hn : n ≤ 84) : Pairs b.soft (84 - n)
    ((List.range' (84 - n) n).map fun k ↦
      ⟨b.soft (2 * k + 1), b.soft (2 * k), true, b.seed.toBitVec⟩) := by
  induction n with
  | zero => exact Pairs.nil
  | succ n ih =>
      have hnext : 84 - (n + 1) + 1 = 84 - n := by omega
      rw [List.range'_succ, List.map_cons, hnext]
      refine Pairs.pair (by omega) ⟨rfl, rfl, rfl⟩ ?_
      rw [hnext]
      exact ih (Nat.le_of_succ_le hn)

/-- Any block can come in. -/
theorem presents_feed (b : SchHuBlock) : Presents [b] (feed b) := by
  have hload := pairs_feed b (n := 83) (by decide)
  have hblock := Presents.block (b := b) (i := ⟨b.soft 1, b.soft 0, true, b.seed.toBitVec⟩) rfl
    ⟨rfl, rfl, rfl⟩ hload (List.length_replicate (n := busy)
      (a := (⟨0, 0, false, b.seed.toBitVec⟩ : SoftDibit))) Presents.nil
  rwa [List.append_nil] at hblock

theorem atRest_reset : ({} : UlSchHuDecoder).AtRest := ⟨⟨⟨rfl, rfl, rfl⟩, rfl⟩, rfl⟩

/-- **The two decoders have the same of a block exactly if the lead is kept**, in any sequence of
blocks; and a clear block keeps it. -/
theorem softDecoders_agree_iff (h : d.AtRest) (his : Presents blocks is) :
    List.Forall₂ (fun b r ↦ (b.Agrees r ↔ LeadKept b.seed b.softs) ∧ (b.Clear → b.Agrees r)) blocks
      (emitted step result d is) := by
  rw [(h.exec_presents his).2, List.forall₂_map_right_iff, List.forall₂_same]
  exact fun b _ ↦ ⟨b.agrees_resultOf, fun hclear ↦ b.agrees_resultOf.2 hclear.leadKept⟩

/-- Bits at full strength, in values of two magnitudes. -/
def strong (l : List Bool) (k : ℕ) : BitVec 8 :=
  if l.getD k false then if k % 5 = 0 then -8 else -7 else if k % 5 = 0 then 8 else 7

theorem full_strong {l : List Bool} {n : ℕ} (hn : l.length = n) :
    List.Forall₂ Full l ((List.range n).map (strong l)) := by
  refine List.forall₂_iff_get.2 ⟨by simp [hn], fun k hk _ ↦ ?_⟩
  simp only [List.get_eq_getElem, List.getElem_map, List.getElem_range, strong,
    List.getD_eq_getElem _ _ hk]
  cases l[k] <;> by_cases h5 : k % 5 = 0 <;> simp [Full, h5]

/-- A word at full strength, for the cell 49, 901, 9998. -/
def spoken (info : List Bool) : SchHuBlock :=
  ⟨strong (schhu.encodeFrom info (scrambleInit 49 901 9998)), 49, 0, 901, 9998⟩

theorem clear_spoken {info : List Bool} (hinfo : info.length = 92)
    (hlen : (schhu.encodeFrom info (scrambleInit 49 901 9998)).length = 168) :
    (spoken info).Clear := by
  refine .inl ⟨info, hinfo, ?_⟩
  have hfull := full_strong hlen
  rw [SchHuBlock.softs, SchHuBlock.seed, spoken]
  dsimp only
  exact hfull

/-- Of such a block they have the same. -/
theorem softDecoders_agree_iff_spoken :
    let b := spoken ((List.range 92).map (· % 3 == 1))
    ∃ r, emitted step result {} (feed b) = [r] ∧ b.Agrees r := by
  intro b
  have hclear : b.Clear := clear_spoken (by simp) (by decide +kernel)
  have hagree := softDecoders_agree_iff atRest_reset (presents_feed b)
  obtain ⟨r, l, hr, hnil, hemit⟩ := List.forall₂_cons_left_iff.1 hagree
  rw [List.forall₂_nil_left_iff.1 hnil] at hemit
  exact ⟨r, hemit, hr.2 hclear⟩

/-! ## Silence -/

/-- A block in which there is nothing but erasures. -/
def silence : SchHuBlock := ⟨fun _ ↦ 0, 49, 0, 901, 9998⟩

/-- **Nothing is against any word** in silence, on either scale. -/
theorem penaltyOf_silence (bits : List Bool) :
    penaltyOf (swMother silence.seed silence.softs) bits = 0 := by
  have hzero : ∀ s ∈ swMother silence.seed silence.softs, s = 0 := by
    refine forall_mem_swMother (p := (· = 0)) rfl (fun s hs ↦ neg_eq_zero.2 hs) (fun v hv ↦ ?_) _
    obtain ⟨k, -, rfl⟩ := List.mem_map.1 hv
    rfl
  have hsum : ((swMother silence.seed silence.softs).map Int.natAbs).sum = 0 :=
    List.sum_eq_zero (List.forall_mem_map.2 fun s hs ↦ by rw [hzero s hs, Int.natAbs_zero])
  exact Nat.le_zero.1 ((distance_softPenalty_le _ _).trans_eq hsum)

/-- So a word gains what is sent for it. -/
theorem bonus_silence (bits : List Bool) : bonus silence.seed silence.softs bits = onesOf bits := by
  have hscale : hwMother silence.seed silence.softs = swMother silence.seed silence.softs := by
    refine hwMother_eq_swMother ?_ fun v hv ↦ ?_
    · rw [SchHuBlock.softs, List.length_map, List.length_range]
    · obtain ⟨k, -, rfl⟩ := List.mem_map.1 hv
      exact (by decide : -15 ≤ (0 : BitVec 8).toInt ∧ (0 : BitVec 8).toInt ≤ 15)
  rw [bonus, hscale, sub_self, mul_zero, add_zero]

/-- The first of all words is that of zeros. -/
theorem eq_replicate_of_le {l : List Bool} (h : l ≤ List.replicate l.length false) :
    l = List.replicate l.length false := by
  induction l with
  | nil => rfl
  | cons x l ih =>
      rw [List.length_cons, List.replicate_succ, ShiftRegister.cons_le_cons_iff] at h
      obtain hlt | ⟨rfl, hle⟩ := h
      · exact absurd hlt not_lt_bot
      · rw [List.length_cons, List.replicate_succ, ← ih hle]

/-- Few ones are sent for a word that starts with zeros. -/
theorem onesOf_le {rest : List Bool} :
    onesOf (List.replicate 92 false ++ rest) ≤ 4 * rest.length := by
  have hzeros : (outputs 0 (List.replicate 92 false)).count true = 0 := by decide +kernel
  rw [onesOf, convR14_eq_outputs, outputs_append, List.count_append, hzeros, zero_add]
  exact List.count_le_length.trans_eq (length_outputs _ _)

/-- **The lead is not kept in silence.** -/
theorem not_leadKept_silence : ¬ LeadKept silence.seed silence.softs := by
  rintro ⟨best, bits, hbest, hreads, hterm, hkeeps⟩
  have hfirst : best = List.replicate 112 false := by
    have hle := hbest.least _ (terminated_replicate_false 112)
    rw [penaltyOf_silence, penaltyOf_silence, List.reverse_replicate] at hle
    have hkey : best.reverse ≤ List.replicate 112 false := (Prod.Lex.toLex_le_toLex'.1 hle).2 rfl
    have hlen : best.reverse.length = 112 := by rw [List.length_reverse, hbest.mem.1]
    have hzeros := eq_replicate_of_le (hlen.symm ▸ hkey)
    rw [hlen] at hzeros
    rw [← List.reverse_reverse best, hzeros, List.reverse_replicate]
  have hbits : bits = List.replicate 92 false ++ bits.drop 92 := by
    have hinfo : bits.take 92 = List.replicate 92 false := by
      rw [hreads.info, hfirst, List.take_replicate]
      rfl
    rw [← hinfo, List.take_append_drop]
  have hfew : onesOf bits ≤ 80 := by
    rw [hbits]
    refine onesOf_le.trans ?_
    rw [List.length_drop, hterm.1]
  -- a word for which many ones are sent
  have hmany : onesOf (List.replicate 108 true ++ List.replicate 4 false) = 124 := by
    decide +kernel
  have hother := hkeeps _ (terminated_append_tail (List.replicate 108 true))
  rw [bonus_silence, bonus_silence, penaltyOf_silence, penaltyOf_silence] at hother
  have hle := (Prod.Lex.toLex_le_toLex'.1 hother).1
  omega

/-- **Of silence the two decoders have different words.** -/
theorem silence_disagrees : ({} : UlSchHuDecoder).AtRest ∧ Presents [silence] (feed silence) ∧
    ¬ List.Forall₂ SchHuBlock.Agrees [silence] (emitted step result {} (feed silence)) := by
  refine ⟨atRest_reset, presents_feed silence, ?_⟩
  rw [(atRest_reset.exec_presents (presents_feed silence)).2, List.forall₂_map_right_iff,
    List.forall₂_same]
  intro h
  exact not_leadKept_silence ((silence.agrees_resultOf).1 (h silence (List.mem_singleton_self _)))

end UlSchHuDecoder

end TetraPhy.Rx
