import Mathlib.Algebra.Ring.Nat
import Mathlib.Data.List.Basic
import TetraPhy.Lib.Trellis

/-!
# The rate-1/4 mother code

`tetra_codec_conv_r14` of `tetra_channel_codec.c`: a five-bit shift register, newest bit
lowest, and four parities of it for each input bit.  Bit arrays, one byte per bit in the
source, are lists of `Bool`.

The register is only ever read after a shift, so its four low bits are the state of the
encoder.  `outputs` is the encoder as a walk on that 16-state trellis, and
`convR14From_eq_outputs` says that it is the same encoder.
-/

namespace TetraPhy.Codec

/-- `parity5`. -/
def parity5 (x : ℕ) : Bool :=
  let x := x ^^^ (x >>> 4)
  let x := x ^^^ (x >>> 2)
  let x := x ^^^ (x >>> 1)
  x &&& 1 == 1

/-- The generators `G1` .. `G4`, `VITERBI_G`. -/
def generators : List ℕ := [0x13, 0x1D, 0x17, 0x1B]

/-- Shift a bit into the register. -/
def shiftIn (sr : ℕ) (b : Bool) : ℕ := ((sr <<< 1) ||| b.toNat) &&& 0x1F

/-- The four mother bits of a register value. -/
def motherBits (sr : ℕ) : List Bool := generators.map fun g ↦ parity5 (sr &&& g)

/-- The encoder from register value `sr` on. -/
def convR14From (sr : ℕ) : List Bool → List Bool
  | [] => []
  | b :: bits => motherBits (shiftIn sr b) ++ convR14From (shiftIn sr b) bits

/-- `tetra_codec_conv_r14`. -/
def convR14 (bits : List Bool) : List Bool := convR14From 0 bits

@[simp] theorem length_motherBits (sr : ℕ) : (motherBits sr).length = 4 := rfl

@[simp] theorem length_convR14From (sr : ℕ) (bits : List Bool) :
    (convR14From sr bits).length = 4 * bits.length := by
  induction bits generalizing sr with
  | nil => rfl
  | cons b bits ih => simp only [convR14From, List.length_append, length_motherBits, ih,
      List.length_cons]; omega

/-! ## The trellis -/

/-- An encoder state: the four low bits of the register. -/
abbrev State := Fin 16

theorem and_lt_sixteen (x : ℕ) : x &&& 0xF < 16 :=
  Nat.lt_of_le_of_lt Nat.and_le_right (by decide)

/-- The state of a register value. -/
def stateOf (sr : ℕ) : State := ⟨sr &&& 0xF, and_lt_sixteen sr⟩

/-- The state after an input bit: `new_state = sr & 0xF`. -/
def nextState (s : State) (b : Bool) : State := stateOf (shiftIn s b)

/-- The encoder as a walk on the trellis. -/
def outputs (s : State) : List Bool → List Bool
  | [] => []
  | b :: bits => motherBits (shiftIn s b) ++ outputs (nextState s b) bits

@[simp] theorem length_outputs (s : State) (bits : List Bool) :
    (outputs s bits).length = 4 * bits.length := by
  induction bits generalizing s with
  | nil => rfl
  | cons b bits ih => simp only [outputs, List.length_append, length_motherBits, ih,
      List.length_cons]; omega

/-- A walk after a walk. -/
theorem outputs_append (s : State) (xs ys : List Bool) :
    outputs s (xs ++ ys) = outputs s xs ++ outputs (Trellis.endState nextState s xs) ys := by
  induction xs generalizing s with
  | nil => rfl
  | cons x xs ih =>
      rw [List.cons_append, outputs, outputs, ih, Trellis.endState_cons, List.append_assoc]

/-- A shift reads the state only. -/
theorem shiftIn_stateOf {sr : ℕ} (h : sr < 32) (b : Bool) :
    shiftIn (stateOf sr) b = shiftIn sr b := by
  have hall : ∀ (sr : Fin 32) (b : Bool), shiftIn (stateOf sr) b = shiftIn sr b := by decide
  exact hall ⟨sr, h⟩ b

theorem shiftIn_lt (sr : ℕ) (b : Bool) : shiftIn sr b < 32 :=
  Nat.lt_of_le_of_lt Nat.and_le_right (by decide)

theorem nextState_stateOf {sr : ℕ} (h : sr < 32) (b : Bool) :
    nextState (stateOf sr) b = stateOf (shiftIn sr b) := by
  rw [nextState, shiftIn_stateOf h]

/-- **The encoder walks on the trellis.** -/
theorem convR14From_eq_outputs {sr : ℕ} (h : sr < 32) (bits : List Bool) :
    convR14From sr bits = outputs (stateOf sr) bits := by
  induction bits generalizing sr with
  | nil => rfl
  | cons b bits ih =>
      rw [convR14From, outputs, shiftIn_stateOf h, nextState_stateOf h, ih (shiftIn_lt sr b)]

theorem convR14_eq_outputs (bits : List Bool) : convR14 bits = outputs 0 bits :=
  convR14From_eq_outputs (by decide) bits

/-- The register is linear. -/
theorem nextState_xor (s s' : State) (b b' : Bool) :
    nextState s b ^^^ nextState s' b' = nextState (s ^^^ s') (b ^^ b') := by
  have hall : ∀ (s s' : State) (b b' : Bool),
      nextState s b ^^^ nextState s' b' = nextState (s ^^^ s') (b ^^ b') := by
    decide +kernel
  exact hall s s' b b'

/-- The walk ends in the state of the register. -/
theorem endState_stateOf (sr : ℕ) (h : sr < 32) (bits : List Bool) :
    Trellis.endState nextState (stateOf sr) bits = stateOf (bits.foldl shiftIn sr) := by
  induction bits generalizing sr with
  | nil => rfl
  | cons b bits ih =>
      rw [Trellis.endState_cons, nextState_stateOf h, ih _ (shiftIn_lt sr b), List.foldl_cons]

/-- The input of an encoder run of `n` steps that ends in state 0. -/
def Terminated (n : ℕ) (bits : List Bool) : Prop :=
  bits.length = n ∧ (bits.foldl shiftIn 0) &&& 0xF = 0

theorem terminated_iff {n : ℕ} {bits : List Bool} :
    Terminated n bits ↔ bits.length = n ∧ Trellis.endState nextState 0 bits = 0 := by
  refine and_congr_right fun _ ↦ ?_
  have h : Trellis.endState nextState 0 bits = stateOf (bits.foldl shiftIn 0) :=
    endState_stateOf 0 (by decide) bits
  rw [h, stateOf, Fin.ext_iff]
  rfl

theorem endState_replicate_false (n : ℕ) :
    Trellis.endState nextState 0 (List.replicate n false) = 0 := by
  induction n with
  | zero => rfl
  | succ n ih => exact ih

/-- Four zeros bring the encoder back to state 0. -/
theorem endState_tail (s : State) :
    Trellis.endState nextState s [false, false, false, false] = 0 := by
  revert s
  decide

/-- The encoder's input is all zero. -/
theorem terminated_replicate_false (n : ℕ) : Terminated n (List.replicate n false) :=
  terminated_iff.2 ⟨List.length_replicate, endState_replicate_false n⟩

/-- A message with four tail bits. -/
theorem terminated_append_tail (bits : List Bool) :
    Terminated (bits.length + 4) (bits ++ List.replicate 4 false) := by
  refine terminated_iff.2 ⟨by simp, ?_⟩
  rw [Trellis.endState_append]
  exact endState_tail _

end TetraPhy.Codec

/-!
# The Viterbi decoders

`tetra_codec_viterbi_r14` (hard symbols with erasures) and `tetra_codec_viterbi_r14_soft`
(signed soft values) are one add–compare–select loop with two branch penalties: states in
the order 0 .. 15, for each the input 0 and then 1, a strict comparison, and `1 << 28` for
"no path".  Both start and end in state 0.

A received sequence of `4 * n` values is decoded in `n` stages; the result is `none` if
the traceback meets a cell that was never written.
-/

namespace TetraPhy.Codec

open Trellis

/-- A hard symbol; `none` is the erasure, 2 in the source. -/
abbrev Sym := Option Bool

/-- `metric += e ^ rx[m]`, unless the symbol is erased. -/
def hardPenalty (e : Bool) : Sym → ℕ
  | none => 0
  | some r => (e ^^ r).toNat

/-- `metric += |s|` if the sign of `s` contradicts `e`. -/
def softPenalty (e : Bool) (s : ℤ) : ℕ :=
  if s ≠ 0 then
    let hb := decide (s > 0)
    if e ≠ hb then s.natAbs else 0
  else 0

section Loop

variable {α : Type*} (penalty : Bool → α → ℕ)

/-- The received values, four to a stage. -/
def stages : List α → List (List α)
  | a :: b :: c :: d :: rest => [a, b, c, d] :: stages rest
  | _ => []

/-- The branches in the order of the loops over `old_state` and `inp`. -/
def branches : List (State × Bool) :=
  (List.finRange 16).flatMap fun s ↦ [(s, false), (s, true)]

/-- `INF_M`. -/
def infM : ℕ := 1 <<< 28

/-- The cost of a branch: the penalties of its four mother bits. -/
def branchCost (rx : List α) (s : State) (b : Bool) : ℕ :=
  (List.zipWith penalty (motherBits (shiftIn s b)) rx).sum

/-- The decoder for a branch penalty. -/
def viterbiWith (coded : List α) : Option (List Bool) :=
  decode nextState branches infM 0 0 ((stages coded).map (branchCost penalty))

end Loop

/-- `tetra_codec_viterbi_r14`. -/
def viterbiR14 (coded : List Sym) : Option (List Bool) := viterbiWith hardPenalty coded

/-- `tetra_codec_viterbi_r14_soft`. -/
def viterbiR14Soft (soft : List ℤ) : Option (List Bool) := viterbiWith softPenalty soft

/-! ## Paths and code words -/

section Loop

variable {α : Type*} {penalty : Bool → α → ℕ}

/-- The total penalty of a code word. -/
def distance (penalty : Bool → α → ℕ) (coded : List α) (code : List Bool) : ℕ :=
  (List.zipWith penalty code coded).sum

theorem length_stages (coded : List α) : (stages coded).length = coded.length / 4 := by
  fun_induction stages coded with
  | case1 a b c d rest ih => simp only [List.length_cons, ih]; omega
  | case2 coded h =>
      rcases coded with _ | ⟨a, _ | ⟨b, _ | ⟨c, _ | ⟨d, rest⟩⟩⟩⟩
      case cons.cons.cons.cons => exact absurd rfl (h a b c d rest)
      all_goals simp

/-- **The cost of a path is the distance of its code word.** -/
theorem pathCost_stages (coded : List α) {s : State} {bits : List Bool}
    (h : bits.length = coded.length / 4) :
    pathCost nextState s bits ((stages coded).map (branchCost penalty)) =
      distance penalty coded (outputs s bits) := by
  fun_induction stages coded generalizing s bits with
  | case1 a b c d rest ih =>
      obtain ⟨x, bits, rfl⟩ := List.exists_cons_of_length_eq_add_one (n := rest.length / 4)
        (l := bits) (by simp only [List.length_cons] at h; omega)
      rw [List.map_cons, pathCost_cons, ih (by simp only [List.length_cons] at h; omega)]
      rw [outputs, distance, distance, branchCost]
      rw [← List.sum_append, ← List.zipWith_append (by rfl)]
      rfl
  | case2 coded hno =>
      have hlen : coded.length / 4 = 0 := by
        rw [← length_stages]
        unfold stages
        split
        · exact absurd rfl (hno _ _ _ _ _)
        · rfl
      rw [hlen] at h
      rw [List.eq_nil_of_length_eq_zero h]
      simp [distance, outputs]

theorem mem_branches (s : State) (b : Bool) : (s, b) ∈ branches := by
  revert s b
  decide

/-- **Minimum distance decoding**: if some terminated input is closer than `INF_M`, the
decoder returns a terminated input that none is closer than. -/
theorem viterbiWith_optimal {coded : List α} {bits : List Bool}
    (h : Terminated (coded.length / 4) bits)
    (hd : distance penalty coded (convR14 bits) < infM) :
    ∃ best, viterbiWith penalty coded = some best ∧ Terminated (coded.length / 4) best ∧
      ∀ bits', Terminated (coded.length / 4) bits' →
        distance penalty coded (convR14 best) ≤ distance penalty coded (convR14 bits') := by
  have hlen : ((stages coded).map (branchCost penalty)).length = coded.length / 4 := by
    rw [List.length_map, length_stages]
  have hcost : ∀ {bits}, Terminated (coded.length / 4) bits →
      pathCost nextState 0 bits ((stages coded).map (branchCost penalty)) =
        distance penalty coded (convR14 bits) := fun hb ↦ by
    rw [pathCost_stages coded hb.1, convR14_eq_outputs]
  obtain ⟨hl, hend⟩ := terminated_iff.1 h
  obtain ⟨best, hbest, hblen, hbend, hmin⟩ :=
    decode_optimal mem_branches (hl.trans hlen.symm) hend (by rwa [hcost h])
  have hb : Terminated (coded.length / 4) best := terminated_iff.2 ⟨hblen.trans hlen, hbend⟩
  refine ⟨best, hbest, hb, fun bits' h' ↦ ?_⟩
  obtain ⟨hl', hend'⟩ := terminated_iff.1 h'
  rw [← hcost hb, ← hcost h']
  exact hmin bits' (hl'.trans hlen.symm) hend'

end Loop

end TetraPhy.Codec
