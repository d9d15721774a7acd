import TetraPhy.Codec.Sch
import TetraPhy.Rx.UlViterbi

/-!
# Symbols of full strength

The block decoders of the uplink feed the Viterbi decoder five-bit symbols: of each eight mother
bits three are received, and the others have the value in the middle of the scale.  The middle is
16 of 31, so that an erased bit costs 16 as a zero and 15 as a one: erasures are for ones.

A received symbol is `Strong` for a bit if the other bit costs at least 13 more.  Where all
received symbols are strong for the bits of a code word, that code word is cheaper than any other
(`Carries.pathCost_lt`).  Erasures may be against it, but never enough: `slack` bounds what they can have
gained on the way to a pair of states, and no stage takes more from it than its received symbols
allow (`slack_step`).  The bound is a function of how the two states differ, for the code is
linear (`branchBit_xor`).
-/

namespace TetraPhy.Rx

open Codec Survivor

attribute [local instance] neZeroViterbi neZeroSymbols

/-- The bits of a stage that are sent, those of `G1` and `G2` in the first stage of two and that
of `G1` in the second. -/
def isKept (odd : Bool) (g : Fin 4) : Bool :=
  match g with
  | 0 => true
  | 1 => !odd
  | _ => false

/-- `VIT_CENTER`. -/
def vitCenter : BitVec 5 := 16

/-- A symbol that is clearly for a bit. -/
def Strong (e : Bool) (v : BitVec 5) : Prop := softCost e v + 13 ≤ softCost (!e) v

/-- The bit of a branch. -/
def branchBit (s : State) (b : Bool) (g : Fin 4) : Bool :=
  gP0 (nextState s b) g ^^ s.val.testBit 3

/-- The symbol is what becomes of a code bit. -/
def CarriesBit (odd : Bool) (s : State) (b : Bool) (g : Fin 4) (v : BitVec 5) : Prop :=
  if isKept odd g then Strong (branchBit s b g) v else v = vitCenter

/-- The symbols are what becomes of the code word of `bits` from `s` on. -/
inductive Carries : Bool → State → List Bool → List (Fin 4 → BitVec 5) → Prop
  | nil (odd : Bool) (s : State) : Carries odd s [] []
  | cons {odd : Bool} {s : State} {b : Bool} {bits : List Bool} {soft : Fin 4 → BitVec 5}
      {softs : List (Fin 4 → BitVec 5)} (stage : ∀ g, CarriesBit odd s b g (soft g))
      (rest : Carries (!odd) (nextState s b) bits softs) :
      Carries odd s (b :: bits) (soft :: softs)

/-! ## Two branches -/

/-- **The code is linear.** -/
theorem branchBit_xor (s s' : State) (b b' : Bool) (g : Fin 4) :
    (branchBit s b g ^^ branchBit s' b' g) = branchBit (s ^^^ s') (b ^^ b') g := by
  have hall : ∀ (s s' : State) (b b' : Bool) (g : Fin 4),
      (branchBit s b g ^^ branchBit s' b' g) = branchBit (s ^^^ s') (b ^^ b') g := by
    decide +kernel
  exact hall s s' b b' g

/-- How much more than the bit sent another bit costs, at least, and what it may cost less. -/
def gain (odd : Bool) (g : Fin 4) (differ : Bool) : ℕ := if isKept odd g && differ then 13 else 0

/-- What it may cost less. -/
def loss (odd : Bool) (g : Fin 4) (differ : Bool) : ℕ := if !isKept odd g && differ then 1 else 0

theorem softCost_of_carriesBit {odd : Bool} {s : State} {b : Bool} {g : Fin 4} {v : BitVec 5}
    (h : CarriesBit odd s b g v) (e : Bool) :
    softCost (branchBit s b g) v + gain odd g (branchBit s b g ^^ e) ≤
      softCost e v + loss odd g (branchBit s b g ^^ e) := by
  rw [CarriesBit] at h
  rw [gain, loss]
  cases hk : isKept odd g with
  | true =>
      rw [hk, if_pos rfl, Strong] at h
      generalize branchBit s b g = e' at h ⊢
      cases e <;> cases e' <;> simp at h ⊢ <;> omega
  | false =>
      rw [hk, if_neg Bool.false_ne_true] at h
      subst h
      generalize branchBit s b g = e'
      revert e e'
      decide

/-- What two stages of received bits and erasures may differ in, from the difference of the
states on. -/
def slack (odd : Bool) (d : State) : ℕ :=
  if odd then [0, 22, 19, 21, 34, 34, 32, 20, 28, 28, 24, 21, 18, 24, 27, 29].getD d.val 0
  else [0, 9, 27, 21, 17, 22, 20, 20, 29, 16, 23, 33, 30, 25, 26, 17].getD d.val 0

/-- The total of a stage. -/
def total (f : Fin 4 → Bool → ℕ) (d : State) (x : Bool) : ℕ :=
  f 0 (branchBit d x 0) + f 1 (branchBit d x 1) + f 2 (branchBit d x 2) + f 3 (branchBit d x 3)

/-- **No stage takes more from the slack than its received symbols allow**, and where two paths
part there is something left. -/
theorem slack_step (odd : Bool) (d : State) (x : Bool) :
    total (loss odd) d x + slack (!odd) (nextState d x) + (decide (d = 0) && x).toNat ≤
      total (gain odd) d x + slack odd d := by
  have hall : ∀ (odd : Bool) (d : State) (x : Bool),
      total (loss odd) d x + slack (!odd) (nextState d x) + (decide (d = 0) && x).toNat ≤
        total (gain odd) d x + slack odd d := by
    decide +kernel
  exact hall odd d x

/-- **One stage** of the path sent and of another path. -/
theorem stageCost_of_carries {odd : Bool} {s : State} {b : Bool} {soft : Fin 4 → BitVec 5}
    (h : ∀ g, CarriesBit odd s b g (soft g)) (s' : State) (b' : Bool) :
    stageCost soft (nextState s b) (s.val.testBit 3) +
        slack (!odd) (nextState s b ^^^ nextState s' b') +
          (decide (s ^^^ s' = 0) && (b ^^ b')).toNat ≤
      stageCost soft (nextState s' b') (s'.val.testBit 3) + slack odd (s ^^^ s') := by
  have hstep := slack_step odd (s ^^^ s') (b ^^ b')
  have h0 := softCost_of_carriesBit (h 0) (branchBit s' b' 0)
  have h1 := softCost_of_carriesBit (h 1) (branchBit s' b' 1)
  have h2 := softCost_of_carriesBit (h 2) (branchBit s' b' 2)
  have h3 := softCost_of_carriesBit (h 3) (branchBit s' b' 3)
  rw [branchBit_xor] at h0 h1 h2 h3
  rw [nextState_xor]
  rw [total, total] at hstep
  change softCost (branchBit s b 0) (soft 0) + softCost (branchBit s b 1) (soft 1) +
      softCost (branchBit s b 2) (soft 2) + softCost (branchBit s b 3) (soft 3) + _ + _ ≤
    softCost (branchBit s' b' 0) (soft 0) + softCost (branchBit s' b' 1) (soft 1) +
      softCost (branchBit s' b' 2) (soft 2) + softCost (branchBit s' b' 3) (soft 3) + _
  omega

/-! ## Two paths -/

/-- **No path is cheaper by more than the slack.** -/
theorem Carries.pathCost_le {odd : Bool} {s : State} {bits : List Bool}
    {softs : List (Fin 4 → BitVec 5)} (h : Carries odd s bits softs) {t : State}
    {bitt : List Bool} (hlen : bitt.length = bits.length) :
    r14.pathCost s bits (softs.map stageCost) ≤
      r14.pathCost t bitt (softs.map stageCost) + slack odd (s ^^^ t) := by
  induction h generalizing t bitt with
  | nil odd s => exact Nat.zero_le _
  | @cons odd s b bits soft softs stage _ ih =>
      obtain ⟨b', bitt, rfl⟩ := List.exists_cons_of_length_eq_add_one hlen
      rw [List.map_cons, ShiftRegister.pathCost, ShiftRegister.pathCost]
      have hrest := ih (t := nextState t b') (Nat.succ.inj hlen)
      have hstage := stageCost_of_carries stage t b'
      change stageCost soft (nextState s b) (s.val.testBit 3) +
          r14.pathCost (nextState s b) bits (softs.map stageCost) ≤
        stageCost soft (nextState t b') (t.val.testBit 3) +
          r14.pathCost (nextState t b') bitt (softs.map stageCost) + slack odd (s ^^^ t)
      omega

theorem xor_self (s : State) : s ^^^ s = 0 := by
  revert s
  decide

theorem slack_zero (odd : Bool) : slack odd 0 = 0 := by cases odd <;> rfl

/-- **The path sent is cheaper than any other** from its start. -/
theorem Carries.pathCost_lt {odd : Bool} {s : State} {bits : List Bool}
    {softs : List (Fin 4 → BitVec 5)} (h : Carries odd s bits softs) {bits' : List Bool}
    (hlen : bits'.length = bits.length) (hne : bits' ≠ bits) :
    r14.pathCost s bits (softs.map stageCost) < r14.pathCost s bits' (softs.map stageCost) := by
  induction h generalizing bits' with
  | nil odd s => exact absurd (List.eq_nil_of_length_eq_zero hlen) hne
  | @cons odd s b bits soft softs stage hcarries ih =>
      obtain ⟨b', bits', rfl⟩ := List.exists_cons_of_length_eq_add_one hlen
      rw [List.map_cons, ShiftRegister.pathCost, ShiftRegister.pathCost]
      by_cases hb : b' = b
      · subst hb
        exact Nat.add_lt_add_left (ih (Nat.succ.inj hlen) fun heq ↦ hne (heq ▸ rfl)) _
      · have hrest := hcarries.pathCost_le (t := nextState s b') (Nat.succ.inj hlen)
        have hstage := stageCost_of_carries stage s b'
        have hdiffer : (b ^^ b') = true := by
          revert hb
          cases b <;> cases b' <;> decide
        rw [xor_self, slack_zero, hdiffer] at hstage
        change stageCost soft (nextState s b) (s.val.testBit 3) +
            r14.pathCost (nextState s b) bits (softs.map stageCost) <
          stageCost soft (nextState s b') (s.val.testBit 3) +
            r14.pathCost (nextState s b') bits' (softs.map stageCost)
        change _ + _ + 1 ≤ _ + 0 at hstage
        omega

theorem Carries.length_eq {odd : Bool} {s : State} {bits : List Bool}
    {softs : List (Fin 4 → BitVec 5)} (h : Carries odd s bits softs) :
    softs.length = bits.length := by
  induction h with
  | nil => rfl
  | cons _ _ ih => rw [List.length_cons, List.length_cons, ih]

/-- **Symbols of full strength are decoded.** -/
theorem decoded_of_carries {bits : List Bool} {softs : List (Fin 4 → BitVec 5)}
    (h : Carries false 0 (bits ++ [false, false, false, false]) softs)
    (hcost : 4 * (softMax 5).toNat * softs.length < 65535) : decoded softs = bits := by
  have hlen := h.length_eq
  rw [List.length_append] at hlen
  have hterm : Codec.Terminated softs.length (bits ++ [false, false, false, false]) := by
    rw [hlen]
    exact terminated_append_tail bits
  have hmin := minimumCost_decoded (by decide) (hlen ▸ Nat.le_add_left 4 _)
    (cannotReach_of_lt hcost)
  have hsame : decoded softs ++ [false, false, false, false] = bits ++ [false, false, false, false] := by
    by_contra hne
    have hlt := h.pathCost_lt (hmin.1.1.trans hterm.1.symm) hne
    rw [pathCost_eq hmin.1.1, pathCost_eq hterm.1, ← convR14_eq_outputs, ← convR14_eq_outputs] at hlt
    exact absurd (hmin.2 _ hterm) (not_le.2 hlt)
  exact List.append_cancel_right hsame

end TetraPhy.Rx
