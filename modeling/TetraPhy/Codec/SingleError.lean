import TetraPhy.Codec.Sch

/-!
# One wrong bit is corrected

The code is linear: how far two code words are apart depends on how their inputs differ, from the
state in which the encoders differ (`distance_received_xor`).  Two different inputs that start and
end in one state are at least 4 apart in the bits that are kept; what is still to come on the way
back to one state is bounded from below by `toGo`.

One wrong bit of a block stays one wrong bit through the stages of the decoder (`OneOff`), and moves
every code word by one at most.  So the word that was sent is at distance 1 at most, and all others
are at distance 3 at least.
-/

namespace TetraPhy.Codec

open Permute Trellis

/-! ## The distance of the punctured code -/

/-- The ones among the kept bits of two inputs. -/
def pairWeight (s : State) (x y : Bool) : ℕ :=
  (g1 s x).toNat + ((g2 s x).toNat + (g1 (nextState s x) y).toNat)

/-- The state after two inputs. -/
def pairState (s : State) (x y : Bool) : State := nextState (nextState s x) y

theorem g1_eq (s : State) (b : Bool) : g1 s b = (b ^^ s.val.testBit 0 ^^ s.val.testBit 3) := by
  revert s b
  decide

theorem g2_eq (s : State) (b : Bool) :
    g2 s b = (b ^^ s.val.testBit 1 ^^ s.val.testBit 2 ^^ s.val.testBit 3) := by
  revert s b
  decide

theorem testBit_xor (s s' : State) {i : ℕ} (hi : i < 4) :
    (s ^^^ s').val.testBit i = (s.val.testBit i ^^ s'.val.testBit i) := by
  have hval : (s ^^^ s').val = (s.val ^^^ s'.val) % 2 ^ 4 := rfl
  rw [hval, Nat.testBit_mod_two_pow, decide_eq_true hi, Bool.true_and, Nat.testBit_xor]

theorem g1_xor (s s' : State) (b b' : Bool) : (g1 s b ^^ g1 s' b') = g1 (s ^^^ s') (b ^^ b') := by
  rw [g1_eq, g1_eq, g1_eq, testBit_xor _ _ (by decide), testBit_xor _ _ (by decide)]
  simp only [Bool.xor_left_comm, Bool.xor_assoc]

theorem g2_xor (s s' : State) (b b' : Bool) : (g2 s b ^^ g2 s' b') = g2 (s ^^^ s') (b ^^ b') := by
  rw [g2_eq, g2_eq, g2_eq, testBit_xor _ _ (by decide), testBit_xor _ _ (by decide),
    testBit_xor _ _ (by decide)]
  simp only [Bool.xor_left_comm, Bool.xor_assoc]

theorem state_xor_self : ∀ s : State, s ^^^ s = 0 := by decide

/-- **The code is linear**: two inputs are as far apart as the weight of their difference. -/
theorem distance_received_xor (s s' : State) (x y x' y' : Bool) (xs ys : List Bool) :
    distance hardPenalty (received s (x :: y :: xs)) (outputs s' (x' :: y' :: ys)) =
      pairWeight (s' ^^^ s) (x' ^^ x) (y' ^^ y) +
        distance hardPenalty (received (pairState s x y) xs) (outputs (pairState s' x' y') ys) := by
  have hpenalty : ∀ e r : Bool, hardPenalty e (some r) = (e ^^ r).toNat := fun _ _ ↦ rfl
  rw [distance_received, hpenalty, hpenalty, hpenalty, pairWeight, ← nextState_xor, ← g1_xor,
    ← g1_xor, ← g2_xor]
  rw [Nat.add_assoc, Nat.add_assoc]
  rfl

/-- At least how many ones are kept on the way from a state to state 0. -/
def toGo : State → ℕ := ![0, 3, 3, 4, 2, 3, 3, 4, 2, 3, 3, 2, 2, 3, 3, 4]

/-- A step takes no more from it than it weighs. -/
theorem toGo_le (s : State) (x y : Bool) : toGo s ≤ pairWeight s x y + toGo (pairState s x y) := by
  revert s x y
  decide

/-- Who leaves state 0 has a weight of 4 before him. -/
theorem four_le_pairWeight {x y : Bool} (h : ¬ (x = false ∧ y = false)) :
    4 ≤ pairWeight 0 x y + toGo (pairState 0 x y) := by
  revert x y
  decide

theorem pairState_xor (s s' : State) (x y x' y' : Bool) :
    pairState s' x' y' ^^^ pairState s x y = pairState (s' ^^^ s) (x' ^^ x) (y' ^^ y) := by
  rw [pairState, pairState, nextState_xor, nextState_xor]
  rfl

/-- The inputs of one more pair. -/
theorem exists_pair {n : ℕ} {l : List Bool} (h : l.length = 2 * (n + 1)) :
    ∃ x y l', l = x :: y :: l' ∧ l'.length = 2 * n := by
  rcases l with _ | ⟨x, _ | ⟨y, l⟩⟩
  case cons.cons =>
    simp only [List.length_cons] at h
    exact ⟨x, y, l, rfl, by omega⟩
  all_goals simp only [List.length_cons, List.length_nil] at h; omega

/-- Two encoders that are in different states and end in one are that far apart. -/
theorem toGo_le_distance (n : ℕ) {s s' : State} {xs ys : List Bool} (hx : xs.length = 2 * n)
    (hy : ys.length = 2 * n) (hend : endState nextState s xs = endState nextState s' ys) :
    toGo (s' ^^^ s) ≤ distance hardPenalty (received s xs) (outputs s' ys) := by
  induction n generalizing s s' xs ys with
  | zero =>
      rw [List.eq_nil_of_length_eq_zero hx, List.eq_nil_of_length_eq_zero hy] at hend
      obtain rfl : s = s' := hend
      rw [state_xor_self]
      exact Nat.zero_le _
  | succ n ih =>
      obtain ⟨x, y, xs, rfl, hxs⟩ := exists_pair hx
      obtain ⟨x', y', ys, rfl, hys⟩ := exists_pair hy
      have hrest : toGo (pairState s' x' y' ^^^ pairState s x y) ≤ _ := ih hxs hys hend
      rw [pairState_xor] at hrest
      rw [distance_received_xor]
      exact (toGo_le _ _ _).trans (Nat.add_le_add_left hrest _)

/-- **Two inputs that start and end in one state are 4 apart.** -/
theorem four_le_distance (n : ℕ) {s : State} {xs ys : List Bool} (hx : xs.length = 2 * n)
    (hy : ys.length = 2 * n) (hend : endState nextState s xs = endState nextState s ys)
    (hne : ys ≠ xs) : 4 ≤ distance hardPenalty (received s xs) (outputs s ys) := by
  induction n generalizing s xs ys with
  | zero =>
      exact absurd ((List.eq_nil_of_length_eq_zero hy).trans
        (List.eq_nil_of_length_eq_zero hx).symm) hne
  | succ n ih =>
      obtain ⟨x, y, xs, rfl, hxs⟩ := exists_pair hx
      obtain ⟨x', y', ys, rfl, hys⟩ := exists_pair hy
      rw [distance_received_xor, state_xor_self]
      by_cases hpair : x' = x ∧ y' = y
      · obtain ⟨rfl, rfl⟩ := hpair
        have hrest : ys ≠ xs := fun h ↦ hne (h ▸ rfl)
        exact (ih hxs hys hend hrest).trans (Nat.le_add_left _ _)
      · have hdiff : ¬ ((x' ^^ x) = false ∧ (y' ^^ y) = false) := by
          rwa [bne_eq_false_iff_eq, bne_eq_false_iff_eq]
        have hrest : toGo (pairState s x' y' ^^^ pairState s x y) ≤ _ :=
          toGo_le_distance n hxs hys hend
        rw [pairState_xor, state_xor_self] at hrest
        exact (four_le_pairWeight hdiff).trans (Nat.add_le_add_left hrest _)

/-! ## Lists that differ in one place -/

section

variable {α β : Type*}

/-- The second list is the first with one element replaced. -/
def OneOff (xs ys : List α) : Prop := ∃ j v, ys = xs.set j v

theorem OneOff.symm {xs ys : List α} (h : OneOff xs ys) : OneOff ys xs := by
  obtain ⟨j, v, rfl⟩ := h
  rcases Nat.lt_or_ge j xs.length with hj | hj
  · refine ⟨j, xs[j], ?_⟩
    rw [List.set_set, List.set_getElem_self]
  · refine ⟨j, v, ?_⟩
    rw [List.set_eq_of_length_le hj, List.set_eq_of_length_le hj]

theorem OneOff.length_eq {xs ys : List α} (h : OneOff xs ys) : ys.length = xs.length := by
  obtain ⟨j, v, rfl⟩ := h
  exact List.length_set

theorem OneOff.scrambleWith {flip : α → α} {xs ys : List α} (h : OneOff xs ys) (lfsr : UInt32) :
    OneOff (scrambleWith flip lfsr xs) (scrambleWith flip lfsr ys) := by
  obtain ⟨j, v, rfl⟩ := h
  induction xs generalizing j lfsr with
  | nil => exact ⟨j, v, rfl⟩
  | cons x xs ih =>
      cases j with
      | zero => exact ⟨0, _, rfl⟩
      | succ j =>
          obtain ⟨j', v', hset⟩ := ih (nextLfsrBit lfsr).1 j
          refine ⟨j' + 1, v', ?_⟩
          rw [List.set_cons_succ, Codec.scrambleWith, hset]
          rfl

theorem OneOff.depunctureWith {value : α → β} {erased : β} {xs ys : List α} (h : OneOff xs ys) :
    OneOff (Codec.depunctureWith value erased xs) (Codec.depunctureWith value erased ys) := by
  obtain ⟨j, v, rfl⟩ := h
  fun_induction Codec.depunctureWith value erased xs generalizing j with
  | case1 x y z rest ih =>
      rcases j with _ | _ | _ | j
      · exact ⟨0, value v, rfl⟩
      · exact ⟨1, value v, rfl⟩
      · exact ⟨4, value v, rfl⟩
      · obtain ⟨j', v', hset⟩ := ih j
        refine ⟨j' + 8, v', ?_⟩
        simp only [List.set_cons_succ, Codec.depunctureWith, hset]
  | case2 xs hshort =>
      refine ⟨0, value v, ?_⟩
      rcases xs with _ | ⟨x, _ | ⟨y, _ | ⟨z, rest⟩⟩⟩
      case cons.cons.cons => exact absurd rfl (hshort x y z rest)
      · rfl
      · cases j <;> rfl
      · rcases j with _ | _ | j <;> rfl

/-- What is read from places of its own is read wrong once at most. -/
theorem OneOff.gather {d : α} {n : ℕ} {σ : ℕ → ℕ} {xs ys : List α} (h : OneOff xs ys)
    (hσ : ∀ j < n, ∀ k < n, σ j = σ k → j = k) :
    OneOff (Permute.gather d n σ xs) (Permute.gather d n σ ys) := by
  obtain ⟨j, v, rfl⟩ := h
  have hget : ∀ i, (xs.set j v).getD i d = if i = j ∧ i < xs.length then v else xs.getD i d := by
    intro i
    rw [List.getD_eq_getElem?_getD, List.getD_eq_getElem?_getD, List.getElem?_set]
    by_cases hij : i = j
    · rw [if_pos hij.symm, ← hij]
      by_cases hlt : i < xs.length
      · rw [if_pos hlt, if_pos ⟨rfl, hlt⟩]
        rfl
      · rw [if_neg hlt, if_neg fun h ↦ hlt h.2, List.getElem?_eq_none (Nat.not_lt.1 hlt)]
    · rw [if_neg (Ne.symm hij), if_neg fun h ↦ hij h.1]
  by_cases hj : ∃ k < n, σ k = j ∧ j < xs.length
  · obtain ⟨k, hk, rfl, hlt⟩ := hj
    refine ⟨k, v, List.ext_getElem (by simp) fun i hi _ ↦ ?_⟩
    have hin : i < n := by simpa using hi
    rw [List.getElem_set]
    simp only [Permute.gather, List.getElem_map, List.getElem_range, hget]
    by_cases hik : k = i
    · subst hik
      rw [if_pos ⟨rfl, hlt⟩, if_pos rfl]
    · rw [if_neg hik, if_neg fun h ↦ hik (hσ i hin k hk h.1).symm]
  · have hlen := Nat.le_of_eq (length_gather d n σ xs)
    refine ⟨n, v, Eq.trans ?_ (List.set_eq_of_length_le hlen).symm⟩
    refine List.map_congr_left fun k hk ↦ ?_
    rw [hget, if_neg]
    rintro ⟨rfl, hlt⟩
    exact hj ⟨k, List.mem_range.1 hk, rfl, hlt⟩

end

/-- A wrong symbol moves a code word by one at most. -/
theorem OneOff.distance_le {coded coded' : List Sym} (h : OneOff coded coded') (code : List Bool) :
    distance hardPenalty coded' code ≤ distance hardPenalty coded code + 1 := by
  obtain ⟨j, v, rfl⟩ := h
  induction coded generalizing j code with
  | nil => exact Nat.le_add_right _ _
  | cons r coded ih =>
      cases code with
      | nil => exact Nat.zero_le _
      | cons e code =>
          cases j with
          | zero =>
              have hv := hardPenalty_le_one e v
              rw [List.set_cons_zero, distance, distance, List.zipWith_cons_cons,
                List.zipWith_cons_cons, List.sum_cons, List.sum_cons]
              omega
          | succ j =>
              have hrest := ih code j
              rw [distance, distance] at hrest
              rw [List.set_cons_succ, distance, distance, List.zipWith_cons_cons,
                List.zipWith_cons_cons, List.sum_cons, List.sum_cons]
              omega

/-! ## Decoding -/

/-- **A code word with a wrong bit is decoded.** -/
theorem viterbiR14_oneOff {n : ℕ} {bits kept : List Bool} (h : Terminated (2 * n) bits)
    (hkept : OneOff (keptBits (convR14 bits)) kept) :
    viterbiR14 (depunctureR23 kept) = some bits := by
  have hlen : (keptBits (convR14 bits)).length = 3 * n :=
    length_keptBits (by rw [convR14, length_convR14From, h.1]; omega)
  have hstages : (depunctureR23 kept).length / 4 = 2 * n := by
    rw [depunctureR23, length_depunctureWith, hkept.length_eq, hlen]
    omega
  have hsym : OneOff (depunctureR23 (keptBits (convR14 bits))) (depunctureR23 kept) :=
    hkept.depunctureWith
  rw [convR14_eq_outputs] at hsym
  -- the word that was sent is at distance 1
  have hsent : distance hardPenalty (depunctureR23 kept) (convR14 bits) ≤ 1 := by
    have hself : distance hardPenalty (received 0 bits) (outputs 0 bits) = 0 :=
      distance_received_self n 0 h.1
    rw [convR14_eq_outputs]
    exact (hsym.distance_le _).trans_eq (congrArg (· + 1) hself)
  obtain ⟨best, hbest, hterm, hmin⟩ := viterbiWith_optimal (hstages.symm ▸ h)
    (Nat.lt_of_le_of_lt hsent (by decide))
  rw [hstages] at hterm
  have hle := (hmin bits (hstages.symm ▸ h)).trans hsent
  -- and any other at 3 at least
  have hunique : best = bits := by
    by_contra hne
    have hfar := four_le_distance n h.1 hterm.1 ((terminated_iff.1 h).2.trans
      (terminated_iff.1 hterm).2.symm) hne
    have hnear := hsym.symm.distance_le (outputs 0 best)
    rw [convR14_eq_outputs] at hle
    rw [received] at hfar
    omega
  rw [← hunique]
  exact hbest

namespace Channel

variable {c : Channel}

/-- **A block with a wrong bit is decoded**, with a right CRC. -/
theorem decode_oneOff {info : List Bool} (h : info.length = c.info)
    (colourCode slotNum slotNum' : UInt8) (mcc mnc : UInt16) :
    ∃ block, c.encode info colourCode slotNum mcc mnc = some block ∧ block.length = c.coded ∧
      ∀ block', OneOff block block' →
        c.decode (crc16CheckN · c.info) block' colourCode slotNum' mcc mnc = some (info, 0) := by
  obtain ⟨n, hterm, hkept⟩ := exists_terminated h
  refine ⟨_, encode_eq h colourCode slotNum mcc mnc, ?_, fun block' hblock ↦ ?_⟩
  · rw [descramble, length_scrambleWith, interleavePerm, length_scatter]
  · have hoff : OneOff (keptBits (convR14 (crc16 info ++ List.replicate 4 false)))
        (deinterleavePerm (descramble block' colourCode slotNum' mcc mnc) c.coded c.factor) := by
      have hscrambled : OneOff (descramble _ colourCode slotNum' mcc mnc)
        (descramble block' colourCode slotNum' mcc mnc) := hblock.scrambleWith _
      rw [descramble_descramble] at hscrambled
      have hgather := hscrambled.gather (d := default) (permIndex_inj c.coprime)
      rwa [← deinterleavePerm, deinterleavePerm_interleavePerm c.coprime hkept] at hgather
    rw [decode, viterbiR14_oneOff hterm hoff, Option.map_some, ← h, crc16CheckN_crc16, if_pos rfl,
      crc16, List.append_assoc, List.take_left]

end Channel

theorem OneOff.modify (xs : List Bool) (p : ℕ) : OneOff xs (xs.modify p not) :=
  ⟨p, _, List.modify_eq_set not p xs⟩

/-- **Every single error is corrected.**  For every information word of either channel, every cell
identity and every position of the block, the decoder returns a right CRC and exactly the word when
that one bit is flipped. -/
theorem singleError_corrected (colourCode slotNum slotNum' : UInt8) (mcc mnc : UInt16) :
    (∀ info : Vector Bool 268, ∃ block,
      schfEncode info.toList colourCode slotNum mcc mnc = some block ∧ block.length = 432 ∧
      ∀ p : Fin 432, schfDecode (block.modify p not) colourCode slotNum' mcc mnc =
        some (info.toList, 0)) ∧
    (∀ info : Vector Bool 92, ∃ block,
      schhuEncode info.toList colourCode slotNum mcc mnc = some block ∧ block.length = 168 ∧
      ∀ p : Fin 168, schhuDecode (block.modify p not) colourCode slotNum' mcc mnc =
        some (info.toList, 0)) := by
  constructor
  · intro info
    obtain ⟨block, hblock, hlen, hdecode⟩ := Channel.decode_oneOff (c := schf) info.length_toList
      colourCode slotNum slotNum' mcc mnc
    refine ⟨block, (schfEncode_eq info.length_toList _ _ _ _).trans hblock, hlen, fun p ↦ ?_⟩
    exact hdecode _ (OneOff.modify block p)
  · intro info
    obtain ⟨block, hblock, hlen, hdecode⟩ := Channel.decode_oneOff (c := schhu) info.length_toList
      colourCode slotNum slotNum' mcc mnc
    exact ⟨block, hblock, hlen, fun p ↦ hdecode _ (OneOff.modify block p)⟩

end TetraPhy.Codec
