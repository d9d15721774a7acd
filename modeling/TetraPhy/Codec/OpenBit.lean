import TetraPhy.Codec.Sch

/-!
# Blocks that leave one bit open

Two inputs of the encoder that differ in one bit have code words that differ in five stages at
most.  Let a block be right before these stages and after them, and let nothing of what was sent
in between be received but a single bit, the second one of the first stage.  Then it is as near to
the one input as to the other, but for that bit, and nearer to these two than to any other: the
decoder goes by the bit (`viterbiR14_openBlock`).

The path is known before the gap because each stage tells its input (`eq_of_distance_received`),
and behind the gap because each stage tells its predecessor too (`eq_of_distance_received_back`).
-/

namespace TetraPhy.Codec

open Permute Trellis

theorem neZeroFilled : NeZero 16 := ⟨by decide⟩

attribute [local instance] neZeroFilled

theorem g2_inj (s : State) {a b : Bool} (h : g2 s a = g2 s b) : a = b := by
  have hall : ∀ (s : State) (a b : Bool), g2 s a = g2 s b → a = b := by decide
  exact hall s a b h

/-- `G1` reads the oldest bit as well. -/
theorem g1_back {s s' : State} {a b : Bool} (h : g1 s a = g1 s' b)
    (hnext : nextState s a = nextState s' b) : s = s' ∧ a = b := by
  revert s s' a b
  decide

/-- **Known from the end**: a path into the same state that is at distance 0 is the path sent. -/
theorem eq_of_distance_received_back (n : ℕ) {s s' : State} {xs ys : List Bool}
    (hx : xs.length = 2 * n) (hy : ys.length = 2 * n)
    (hend : endState nextState s xs = endState nextState s' ys)
    (h : distance hardPenalty (received s xs) (outputs s' ys) = 0) : s = s' ∧ xs = ys := by
  induction n generalizing s s' xs ys with
  | zero =>
      obtain rfl := List.eq_nil_of_length_eq_zero hx
      obtain rfl := List.eq_nil_of_length_eq_zero hy
      exact ⟨hend, rfl⟩
  | succ n ih =>
      have hsplit : ∀ {l : List Bool}, l.length = 2 * (n + 1) → ∃ x y l', l = x :: y :: l' := by
        intro l hl
        rcases l with _ | ⟨x, _ | ⟨y, l⟩⟩
        case cons.cons => exact ⟨x, y, l, rfl⟩
        all_goals simp only [List.length_cons, List.length_nil] at hl; omega
      obtain ⟨x, y, xs, rfl⟩ := hsplit hx
      obtain ⟨x', y', ys, rfl⟩ := hsplit hy
      rw [distance_received] at h
      rw [endState_cons, endState_cons, endState_cons, endState_cons] at hend
      simp only [List.length_cons] at hx hy
      obtain ⟨hs, rfl⟩ := ih (by omega) (by omega) hend (by omega)
      have h2 : hardPenalty (g1 (nextState s' x') y') (some (g1 (nextState s x) y)) = 0 := by omega
      obtain ⟨hm, rfl⟩ := g1_back (hardPenalty_some_eq_zero.1 h2).symm hs
      have h1 : hardPenalty (g1 s' x') (some (g1 s x)) = 0 := by omega
      obtain ⟨rfl, rfl⟩ := g1_back (hardPenalty_some_eq_zero.1 h1).symm hm
      exact ⟨rfl, rfl⟩

/-! ## The gap -/

/-- The state that four inputs lead to from anywhere. -/
def filled (a b c d : Bool) : State := endState nextState 0 [a, b, c, d]

theorem endState_filled (s : State) (a b c d : Bool) :
    endState nextState s [a, b, c, d] = filled a b c d := by
  revert s a b c d
  decide

theorem filled_inj {a b c d a' b' c' d' : Bool} (h : filled a b c d = filled a' b' c' d') :
    a = a' ∧ b = b' ∧ c = c' ∧ d = d' := by
  revert a b c d a' b' c' d'
  decide

/-- The symbols of the gap: the one that is received, and the one after the five stages. -/
def gapSyms (v g : Bool) : List Sym :=
  none :: some v :: List.replicate 18 none ++ [some g, none, none, none]

theorem distance_gapSyms (v g : Bool) (s : State) (x a b c d e : Bool) :
    distance hardPenalty (gapSyms v g) (outputs s [x, a, b, c, d, e]) =
      hardPenalty (g2 s x) (some v) +
        hardPenalty (g1 (endState nextState s [x, a, b, c, d]) e) (some g) := by
  have h : distance hardPenalty (gapSyms v g) (outputs s [x, a, b, c, d, e]) =
      0 + (hardPenalty (g2 s x) (some v) + (0 + (0 + (0 + (0 + (0 + (0 + (0 + (0 + (0 + (0 + (0 +
        (0 + (0 + (0 + (0 + (0 + (0 + (0 +
        (hardPenalty (g1 (endState nextState s [x, a, b, c, d]) e) (some g) + 0)))))))))))))))))))) :=
    rfl
  rw [h]
  simp only [Nat.zero_add, Nat.add_zero]

section Block

variable (pre : List Bool) (a b c d e : Bool) (post : List Bool)

/-- What is received in the order of the encoder: everything but the gap, and `v` in it. -/
def openBlock (v : Bool) : List Sym :=
  (keptBits (outputs 0 pre)).map some ++
    [none, some v, none, none, none, none, none, none, some (g1 (filled a b c d) e)] ++
    (keptBits (outputs (nextState (filled a b c d) e) post)).map some

/-- The two inputs. -/
def openInput (x : Bool) : List Bool := pre ++ x :: a :: b :: c :: d :: e :: post

theorem depunctureWith_append {α β : Type*} (value : α → β) (erased : β) {n : ℕ} {xs : List α}
    (h : xs.length = 3 * n) (ys : List α) : depunctureWith value erased (xs ++ ys) =
      depunctureWith value erased xs ++ depunctureWith value erased ys := by
  induction n generalizing xs with
  | zero =>
      rw [List.eq_nil_of_length_eq_zero h]
      rfl
  | succ n ih =>
      rcases xs with _ | ⟨x, _ | ⟨y, _ | ⟨z, xs⟩⟩⟩
      case cons.cons.cons =>
        simp only [List.length_cons] at h
        have hrest : xs.length = 3 * n := by omega
        simp only [List.cons_append, depunctureWith, ih hrest]
      all_goals simp only [List.length_cons, List.length_nil] at h; omega

/-- What was received of a code word is depunctured like its bits. -/
theorem depunctureWith_some (xs : List Bool) :
    depunctureWith id none (xs.map some) = depunctureR23 xs := by
  have h : depunctureWith id none (xs.map some) = (depunctureR23 xs).map id :=
    depunctureWith_map some id (fun _ ↦ rfl) rfl xs
  rwa [List.map_id] at h

variable {pre post} {m k : ℕ}

theorem depuncture_openBlock (hpre : pre.length = 2 * m) (v : Bool) :
    depunctureWith id none (openBlock pre a b c d e post v) =
      received 0 pre ++ gapSyms v (g1 (filled a b c d) e) ++
        received (nextState (filled a b c d) e) post := by
  have hlen : (keptBits (outputs 0 pre)).length = 3 * m :=
    length_keptBits (by rw [length_outputs]; omega)
  rw [openBlock, depunctureWith_append id none (n := m + 3) (by simp [hlen]; omega),
    depunctureWith_append id none (n := m) (by simp [hlen]), depunctureWith_some,
    depunctureWith_some]
  rfl

theorem length_received (s : State) {xs : List Bool} {n : ℕ} (h : xs.length = 2 * n) :
    (received s xs).length = 8 * n := by
  rw [received, depunctureR23, length_depunctureWith,
    length_keptBits (n := n) (by rw [length_outputs]; omega)]
  omega

/-- **The distance of a path from such a block**: before the gap, in it, and behind it. -/
theorem distance_openBlock (hpre : pre.length = 2 * m) (v : Bool) {pre' post' : List Bool}
    (hpre' : pre'.length = 2 * m) (x a' b' c' d' e' : Bool) :
    distance hardPenalty (depunctureWith id none (openBlock pre a b c d e post v))
        (outputs 0 (pre' ++ x :: a' :: b' :: c' :: d' :: e' :: post')) =
      distance hardPenalty (received 0 pre) (outputs 0 pre') +
        (hardPenalty (g2 (endState nextState 0 pre') x) (some v) +
          hardPenalty (g1 (filled a' b' c' d') e') (some (g1 (filled a b c d) e))) +
        distance hardPenalty (received (nextState (filled a b c d) e) post)
          (outputs (nextState (filled a' b' c' d') e') post') := by
  have hfive : ∀ s, endState nextState s [x, a', b', c', d'] = filled a' b' c' d' :=
    fun s ↦ endState_filled (nextState s x) a' b' c' d'
  have hsix : ∀ s, endState nextState s [x, a', b', c', d', e'] =
      nextState (filled a' b' c' d') e' := fun s ↦ by
    rw [← hfive s]
    rfl
  have hsplit : outputs 0 (pre' ++ x :: a' :: b' :: c' :: d' :: e' :: post') =
      outputs 0 pre' ++ outputs (endState nextState 0 pre') [x, a', b', c', d', e'] ++
        outputs (nextState (filled a' b' c' d') e') post' := by
    rw [← hsix (endState nextState 0 pre'), List.append_assoc, ← outputs_append, ← outputs_append]
    rfl
  have hlen : (outputs 0 pre').length = (received 0 pre).length := by
    rw [length_outputs, length_received 0 hpre]
    omega
  rw [depuncture_openBlock a b c d e hpre, hsplit, distance_append, distance_append hlen,
    distance_gapSyms, hfive]
  rw [List.length_append, List.length_append, hlen]
  rfl

/-- Every input has the parts. -/
theorem exists_openInput {bits : List Bool} (h : bits.length = 2 * (m + 3 + k)) :
    ∃ pre x a b c d e post, bits = openInput pre a b c d e post x ∧ pre.length = 2 * m ∧
      post.length = 2 * k := by
  rcases hdrop : bits.drop (2 * m) with
    _ | ⟨x, _ | ⟨a, _ | ⟨b, _ | ⟨c, _ | ⟨d, _ | ⟨e, post⟩⟩⟩⟩⟩⟩
  case cons.cons.cons.cons.cons.cons =>
    have hlen := congrArg List.length hdrop
    simp only [List.length_drop, List.length_cons] at hlen
    refine ⟨bits.take (2 * m), x, a, b, c, d, e, post, ?_, ?_, ?_⟩
    · rw [openInput, ← hdrop, List.take_append_drop]
    · rw [List.length_take]
      omega
    · omega
  all_goals
    have hlen := congrArg List.length hdrop
    simp only [List.length_drop, List.length_cons, List.length_nil] at hlen
    omega

theorem endState_openInput (x : Bool) : endState nextState 0 (openInput pre a b c d e post x) =
    endState nextState (nextState (filled a b c d) e) post := by
  rw [openInput, endState_append, ← endState_filled (nextState (endState nextState 0 pre) x)]
  rfl

/-- **The decoder goes by the bit that is open.** -/
theorem viterbiR14_openBlock (hpre : pre.length = 2 * m) (hpost : post.length = 2 * k) (x : Bool)
    (hterm : Terminated (2 * (m + 3 + k)) (openInput pre a b c d e post x)) :
    viterbiR14 (depunctureWith id none
        (openBlock pre a b c d e post (g2 (endState nextState 0 pre) x))) =
      some (openInput pre a b c d e post x) := by
  have hself : distance hardPenalty (depunctureWith id none
      (openBlock pre a b c d e post (g2 (endState nextState 0 pre) x)))
        (outputs 0 (openInput pre a b c d e post x)) = 0 := by
    rw [openInput, distance_openBlock a b c d e hpre _ hpre, distance_received_self m 0 hpre,
      distance_received_self k _ hpost]
    simp only [hardPenalty_some_eq_zero.2 rfl]
  have hstages : (depunctureWith id none
      (openBlock pre a b c d e post (g2 (endState nextState 0 pre) x))).length / 4 =
        2 * (m + 3 + k) := by
    rw [depuncture_openBlock a b c d e hpre, List.length_append, List.length_append,
      length_received 0 hpre, length_received _ hpost]
    change (8 * m + 24 + 8 * k) / 4 = _
    omega
  have hcost : distance hardPenalty (depunctureWith id none
      (openBlock pre a b c d e post (g2 (endState nextState 0 pre) x)))
        (convR14 (openInput pre a b c d e post x)) < infM := by
    rw [convR14_eq_outputs, hself]
    decide
  obtain ⟨best, hbest, hbterm, hmin⟩ := viterbiWith_optimal (hstages.symm ▸ hterm) hcost
  have hzero := hmin _ (hstages.symm ▸ hterm)
  rw [convR14_eq_outputs, convR14_eq_outputs, hself, Nat.le_zero] at hzero
  rw [hstages] at hbterm
  have hbest' : best = openInput pre a b c d e post x := by
    obtain ⟨pre', x', a', b', c', d', e', post', rfl, hpre', hpost'⟩ := exists_openInput hbterm.1
    rw [openInput] at hzero
    rw [distance_openBlock a b c d e hpre _ hpre'] at hzero
    obtain rfl : pre' = pre := eq_of_distance_received m 0 hpre hpre' (by omega)
    have hv : hardPenalty (g2 (endState nextState 0 pre') x')
        (some (g2 (endState nextState 0 pre') x)) = 0 := by omega
    obtain rfl := g2_inj _ (hardPenalty_some_eq_zero.1 hv)
    have hends : endState nextState (nextState (filled a b c d) e) post =
        endState nextState (nextState (filled a' b' c' d') e') post' := by
      have hone : endState nextState 0 (openInput pre' a b c d e post x') = _ :=
        endState_openInput a b c d e x'
      have htwo : endState nextState 0 (openInput pre' a' b' c' d' e' post' x') = _ :=
        endState_openInput a' b' c' d' e' x'
      rw [← hone, ← htwo, (terminated_iff.1 hterm).2]
      exact (terminated_iff.1 hbterm).2.symm
    obtain ⟨hs, rfl⟩ := eq_of_distance_received_back k hpost hpost' hends (by omega)
    have hg : hardPenalty (g1 (filled a' b' c' d') e') (some (g1 (filled a b c d) e)) = 0 := by
      omega
    obtain ⟨hfill, rfl⟩ := g1_back (hardPenalty_some_eq_zero.1 hg).symm hs
    obtain ⟨rfl, rfl, rfl, rfl⟩ := filled_inj hfill
    rfl
  rw [viterbiR14, hbest, hbest']

/-- The other input comes to the same end. -/
theorem terminated_openInput {n : ℕ} {x : Bool}
    (h : Terminated n (openInput pre a b c d e post x)) (y : Bool) :
    Terminated n (openInput pre a b c d e post y) := by
  rw [terminated_iff, endState_openInput] at h ⊢
  refine ⟨?_, h.2⟩
  rw [← h.1, openInput, openInput, List.length_append, List.length_append]
  rfl

theorem set_openInput (hpre : pre.length = 2 * m) (x y : Bool) :
    (openInput pre a b c d e post x).set (2 * m) y = openInput pre a b c d e post y := by
  rw [openInput, List.set_append_right _ _ hpre.le, hpre, Nat.sub_self]
  rfl

theorem getD_openInput (hpre : pre.length = 2 * m) (x : Bool) :
    (openInput pre a b c d e post x).getD (2 * m) false = x := by
  rw [openInput, List.getD_append_right _ _ _ _ hpre.le, hpre, Nat.sub_self]
  rfl

theorem length_openBlock (hpre : pre.length = 2 * m) (hpost : post.length = 2 * k) (v : Bool) :
    (openBlock pre a b c d e post v).length = 3 * (m + 3 + k) := by
  have hlen : ∀ {s : State} {xs : List Bool} {n : ℕ}, xs.length = 2 * n →
      (keptBits (outputs s xs)).length = 3 * n := fun hxs ↦
    length_keptBits (by rw [length_outputs]; omega)
  rw [openBlock, List.length_append, List.length_append, List.length_map, List.length_map,
    hlen hpre, hlen hpost]
  change 3 * m + 9 + 3 * k = _
  omega

/-- The two blocks differ in one symbol. -/
theorem getD_openBlock (hpre : pre.length = 2 * m) (v v' : Bool) {j : ℕ} (hj : j ≠ 3 * m + 1) :
    (openBlock pre a b c d e post v).getD j none = (openBlock pre a b c d e post v').getD j none := by
  have hlen : ((keptBits (outputs 0 pre)).map some).length = 3 * m := by
    rw [List.length_map]
    exact length_keptBits (by rw [length_outputs]; omega)
  rw [openBlock, openBlock, List.append_assoc, List.append_assoc]
  by_cases hlt : j < 3 * m
  · rw [List.getD_append _ _ _ _ (by rw [hlen]; exact hlt),
      List.getD_append _ _ _ _ (by rw [hlen]; exact hlt)]
  · obtain ⟨i, rfl⟩ : ∃ i, j = 3 * m + i := ⟨j - 3 * m, by omega⟩
    have hshift : ∀ syms : List Sym,
        ((keptBits (outputs 0 pre)).map some ++ syms).getD (3 * m + i) none = syms.getD i none :=
      fun syms ↦ by
        rw [List.getD_append_right _ _ _ _ (by omega), hlen, Nat.add_sub_cancel_left]
    rw [hshift, hshift]
    match i with
    | 0 => rfl
    | 1 => exact absurd rfl hj
    | i + 2 => rfl

end Block

/-! ## On the air -/

namespace Channel

variable (c : Channel) (colourCode : UInt8) (mcc mnc : UInt16)

/-- The soft values for which a decoder has the symbols `type4` after deinterleaving. -/
def softFrom (type4 : List Sym) : List ℤ :=
  scrambleWith Neg.neg (scrambleInit colourCode mcc mnc)
    (interleavePerm (type4.map softSym) c.coded c.factor)

@[simp] theorem length_softFrom (type4 : List Sym) :
    (c.softFrom colourCode mcc mnc type4).length = c.coded := by
  rw [softFrom, length_scrambleWith, interleavePerm, length_scatter]

theorem decodeSoft_softFrom (check : List Bool → Bool) (slotNum : UInt8) {type4 : List Sym}
    (h : type4.length = c.coded) :
    c.decodeSoft check (c.softFrom colourCode mcc mnc type4) colourCode slotNum mcc mnc =
      (viterbiR14 (depunctureWith id none type4)).map fun dec ↦
        (dec.take c.info, if check dec then 0 else -1) := by
  have hdep : depunctureWith id 0 (type4.map softSym) = (depunctureWith id none type4).map softSym :=
    @depunctureWith_map Sym Sym ℤ ℤ id none id 0 softSym softSym (fun _ ↦ rfl) rfl type4
  rw [decodeSoft, softFrom, descrambleSoft, scrambleWith_scrambleWith neg_neg,
    deinterleavePerm_interleavePerm c.coprime (by rw [List.length_map, h]), depunctureR23Soft, hdep,
    viterbiR14Soft_map]

theorem take_scrambleWith {α : Type*} (flip : α → α) (lfsr : UInt32) (xs : List α) (n : ℕ) :
    (scrambleWith flip lfsr xs).take n = scrambleWith flip lfsr (xs.take n) := by
  induction xs generalizing lfsr n with
  | nil => rw [scrambleWith, List.take_nil, scrambleWith]
  | cons x xs ih =>
      cases n with
      | zero => rfl
      | succ n => rw [scrambleWith, List.take_succ_cons, ih, List.take_succ_cons, scrambleWith]

variable {c}

/-- **A symbol that is sent last** shows in no other soft value. -/
theorem take_softFrom {type4 type4' : List Sym} {p : ℕ} (hp : p < c.coded)
    (hlast : permIndex c.coded c.factor p + 1 = c.coded)
    (h : ∀ k < c.coded, k ≠ p → type4.getD k none = type4'.getD k none)
    (hlen : type4.length = c.coded) (hlen' : type4'.length = c.coded) {n : ℕ} (hn : n < c.coded) :
    (c.softFrom colourCode mcc mnc type4).take n = (c.softFrom colourCode mcc mnc type4').take n := by
  rw [softFrom, softFrom, take_scrambleWith, take_scrambleWith]
  congr 1
  refine List.ext_getElem (by simp [interleavePerm]) fun i hi hi' ↦ ?_
  have hin : i < n := by simpa [interleavePerm, hn.le] using hi
  obtain ⟨k, hk, rfl⟩ := exists_of_inj (fun _ hk ↦ permIndex_lt hk) (permIndex_inj c.coprime)
    (hin.trans hn)
  have hkp : k ≠ p := by
    rintro rfl
    omega
  have hget : ∀ {type4 : List Sym}, type4.length = c.coded →
      (interleavePerm (type4.map softSym) c.coded c.factor).getD (permIndex c.coded c.factor k)
        default = softSym (type4.getD k none) := fun {type4} hlen ↦ by
    rw [getD_interleavePerm c.coprime _ hk,
      List.getD_eq_getElem _ _ (by rw [List.length_map, hlen]; exact hk), List.getElem_map,
      List.getD_eq_getElem _ _ (by rw [hlen]; exact hk)]
  have heq := (hget hlen).trans ((congrArg softSym (h k hk hkp)).trans (hget hlen').symm)
  rw [List.getElem_take, List.getElem_take]
  rwa [List.getD_eq_getElem _ _ (by simpa [interleavePerm] using hin.trans hn),
    List.getD_eq_getElem _ _ (by simpa [interleavePerm] using hin.trans hn)] at heq

/-- Symbols make small soft values. -/
theorem softFrom_bounds (type4 : List Sym) :
    ∀ v ∈ c.softFrom colourCode mcc mnc type4, -1 ≤ v ∧ v ≤ 1 := by
  have hflip : ∀ v : ℤ, -1 ≤ v ∧ v ≤ 1 → -1 ≤ -v ∧ -v ≤ 1 := fun v hv ↦ by omega
  refine forall_mem_scrambleWith hflip _ (forall_mem_scatter (by decide) ?_ _ _)
  intro v hv
  obtain ⟨r, -, rfl⟩ := List.mem_map.1 hv
  rcases r with _ | _ | _ <;> decide

/-- **Two blocks that agree but for the last soft value**: one is decoded as a word with a right
CRC, the other as one with a wrong CRC. -/
theorem exists_open (c : Channel) {info : List Bool} (hinfo : info.length = c.info) {m k : ℕ}
    (hsplit : c.info + 20 = 2 * (m + 3 + k))
    (hlast : permIndex c.coded c.factor (3 * m + 1) + 1 = c.coded)
    (hbad : crc16CheckN ((crc16 info ++ List.replicate 4 false).set (2 * m)
      !(crc16 info ++ List.replicate 4 false).getD (2 * m) false) c.info = false)
    (colourCode slotNum : UInt8) (mcc mnc : UInt16) :
    ∃ soft soft' : List ℤ, soft.length = c.coded ∧ soft'.length = c.coded ∧
      (∀ n < c.coded, soft.take n = soft'.take n) ∧ (∀ v ∈ soft, -1 ≤ v ∧ v ≤ 1) ∧
      (∀ v ∈ soft', -1 ≤ v ∧ v ≤ 1) ∧
      c.decodeSoft (crc16CheckN · c.info) soft colourCode slotNum mcc mnc = some (info, 0) ∧
      ∃ info', c.decodeSoft (crc16CheckN · c.info) soft' colourCode slotNum mcc mnc =
        some (info', -1) := by
  have hlen : (crc16 info ++ List.replicate 4 false).length = 2 * (m + 3 + k) := by
    rw [List.length_append, length_crc16, List.length_replicate]
    omega
  have hterm := terminated_append_tail (crc16 info)
  rw [show (crc16 info).length + 4 = 2 * (m + 3 + k) by rw [length_crc16]; omega] at hterm
  have hgood : crc16CheckN (crc16 info ++ List.replicate 4 false) c.info = true :=
    hinfo ▸ crc16CheckN_crc16 info _
  have htake : (crc16 info ++ List.replicate 4 false).take c.info = info := by
    rw [crc16, List.append_assoc, ← hinfo, List.take_left]
  generalize crc16 info ++ List.replicate 4 false = bits at *
  obtain ⟨pre, x, a, b, c', d, e, post, rfl, hpre, hpost⟩ := exists_openInput hlen
  rw [getD_openInput a b c' d e hpre, set_openInput a b c' d e hpre] at hbad
  have hcoded : c.coded = 3 * (m + 3 + k) := by
    have := c.rate
    omega
  have hblock : ∀ v, (openBlock pre a b c' d e post v).length = c.coded := fun v ↦ by
    rw [length_openBlock a b c' d e hpre hpost, hcoded]
  have hdecode : ∀ y, c.decodeSoft (crc16CheckN · c.info) (c.softFrom colourCode mcc mnc
      (openBlock pre a b c' d e post (g2 (endState nextState 0 pre) y))) colourCode slotNum mcc mnc =
        some ((openInput pre a b c' d e post y).take c.info,
          if crc16CheckN (openInput pre a b c' d e post y) c.info then 0 else -1) := fun y ↦ by
    rw [decodeSoft_softFrom _ _ _ _ _ _ (hblock _),
      viterbiR14_openBlock a b c' d e hpre hpost y (terminated_openInput a b c' d e hterm y)]
    rfl
  refine ⟨c.softFrom colourCode mcc mnc
      (openBlock pre a b c' d e post (g2 (endState nextState 0 pre) x)),
    c.softFrom colourCode mcc mnc
      (openBlock pre a b c' d e post (g2 (endState nextState 0 pre) !x)),
    length_softFrom .., length_softFrom .., fun n hn ↦ ?_, softFrom_bounds _ _ _ _,
    softFrom_bounds _ _ _ _, ?_, (openInput pre a b c' d e post !x).take c.info, ?_⟩
  · refine take_softFrom _ _ _ (p := 3 * m + 1) ?_ hlast (fun j _ hj ↦ ?_) (hblock _) (hblock _) hn
    · rw [hcoded]
      omega
    · exact getD_openBlock a b c' d e hpre _ _ hj
  · rw [hdecode, hgood, htake]
    rfl
  · rw [hdecode, hbad]
    rfl

end Channel

end TetraPhy.Codec
