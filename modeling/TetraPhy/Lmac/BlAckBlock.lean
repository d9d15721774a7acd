import TetraPhy.Lib.Parity
import TetraPhy.Lmac.PreReply
import TetraPhy.Lmac.SchHdEncoder

/-!
# The block of an acknowledgement is not empty

The SCH/HD block of a BL-ACK depends on its address, its N(R) and the scrambling seed, on each of
them linearly: the CRC, the convolutional code, the interleaver and the scrambler are shifts and
exclusive ors.  So a parity check that is 0 on the unit words of all three is the same for all
acknowledgements; `ackCheck` is one that is 1.
-/

namespace TetraPhy.Lmac

open AirOrder Parity Codec BitField

/-! ## The stages are linear -/

theorem rcpcG1_eq (s : BitVec 4) (b : Bool) :
    rcpcG1 s b = (s.getLsbD 3 ^^ s.getLsbD 0 ^^ b) := by
  revert s b
  decide

theorem rcpcG2_eq (s : BitVec 4) (b : Bool) :
    rcpcG2 s b = (s.getLsbD 3 ^^ s.getLsbD 2 ^^ s.getLsbD 1 ^^ b) := by
  revert s b
  decide

theorem rcpcG1_xor (s s' : BitVec 4) (b b' : Bool) :
    rcpcG1 (s ^^^ s') (b ^^ b') = (rcpcG1 s b ^^ rcpcG1 s' b') := by
  simp only [rcpcG1_eq, BitVec.getLsbD_xor, Bool.xor_assoc, Bool.xor_left_comm]

theorem rcpcG2_xor (s s' : BitVec 4) (b b' : Bool) :
    rcpcG2 (s ^^^ s') (b ^^ b') = (rcpcG2 s b ^^ rcpcG2 s' b') := by
  simp only [rcpcG2_eq, BitVec.getLsbD_xor, Bool.xor_assoc, Bool.xor_left_comm]

theorem convShift_xor (s s' : BitVec 4) (b b' : Bool) :
    convShift (s ^^^ s') (b ^^ b') = convShift s b ^^^ convShift s' b' := by
  have hb : BitVec.ofBool (b ^^ b') = BitVec.ofBool b ^^^ BitVec.ofBool b' := by
    cases b <;> cases b' <;> rfl
  rw [convShift, convShift, convShift, BitVec.extractLsb'_xor, hb, BitVec.xor_append]

theorem punctured_xor (ph : Bool) (s s' : BitVec 4) (xs ys : List Bool)
    (h : xs.length = ys.length) : punctured ph (s ^^^ s') (List.zipWith xor xs ys) =
      List.zipWith xor (punctured ph s xs) (punctured ph s' ys) := by
  induction xs generalizing ph s s' ys with
  | nil =>
      obtain rfl : ys = [] := List.eq_nil_of_length_eq_zero h.symm
      cases ph <;> rfl
  | cons x xs ih =>
      obtain ⟨y, ys, rfl⟩ := List.exists_cons_of_length_eq_add_one h.symm
      have hlen : xs.length = ys.length := Nat.succ.inj h
      cases ph <;>
        simp only [List.zipWith_cons_cons, punctured, rcpcG1_xor, rcpcG2_xor, convShift_xor,
          ih _ _ _ _ hlen]

theorem lfsrFb_xor (l l' : BitVec 32) : lfsrFb (l ^^^ l') = (lfsrFb l ^^ lfsrFb l') := by
  have htaps := foldl_taps_xor l l' [6, 9, 10, 16, 20, 21, 22, 24, 25, 27, 28, 30, 31]
    (l.getLsbD 0) (l'.getLsbD 0)
  rw [← BitVec.getLsbD_xor] at htaps
  exact htaps

theorem lfsrNext_xor (l l' : BitVec 32) : lfsrNext (l ^^^ l') = lfsrNext l ^^^ lfsrNext l' := by
  have hb : BitVec.ofBool (lfsrFb l ^^ lfsrFb l') =
      BitVec.ofBool (lfsrFb l) ^^^ BitVec.ofBool (lfsrFb l') := by
    cases lfsrFb l <;> cases lfsrFb l' <;> rfl
  rw [lfsrNext, lfsrNext, lfsrNext, lfsrFb_xor, BitVec.extractLsb'_xor, hb, BitVec.xor_append]

theorem maskBits_xor (l l' : BitVec 32) (n : ℕ) :
    maskBits (l ^^^ l') n = List.zipWith xor (maskBits l n) (maskBits l' n) := by
  induction n generalizing l l' with
  | zero => rfl
  | succ n ih => rw [maskBits, maskBits, maskBits, lfsrFb_xor, lfsrNext_xor, ih,
      List.zipWith_cons_cons]

/-! ## The type-4 bits of a sum -/

/-- The type-4 bits without the constants of the CRC. -/
def type4Lin (info : BitVec 124) : List Bool :=
  punctured false 0 (onAir (info ++ (onAir info).foldl crcNext 0 ++ 0#4))

theorem length_punctured (ph : Bool) (s : BitVec 4) {xs ys : List Bool} (s' : BitVec 4)
    (h : xs.length = ys.length) : (punctured ph s xs).length = (punctured ph s' ys).length := by
  induction xs generalizing ph s s' ys with
  | nil =>
      obtain rfl : ys = [] := List.eq_nil_of_length_eq_zero h.symm
      cases ph <;> rfl
  | cons x xs ih =>
      obtain ⟨y, ys, rfl⟩ := List.exists_cons_of_length_eq_add_one h.symm
      have hlen : xs.length = ys.length := Nat.succ.inj h
      cases ph with
      | false => rw [punctured, punctured, List.length_cons, List.length_cons, List.length_cons,
          List.length_cons, ih _ _ _ hlen]
      | true => rw [punctured, punctured, List.length_cons, List.length_cons, ih _ _ _ hlen]

theorem foldl_crcNext_onAir_xor (c c' : BitVec 16) (x y : BitVec 124) :
    (onAir (x ^^^ y)).foldl crcNext (c ^^^ c') =
      (onAir x).foldl crcNext c ^^^ (onAir y).foldl crcNext c' := by
  rw [onAir_xor, foldl_crcNext_xor _ _ (by simp)]

theorem type4_xor (x y : BitVec 124) :
    type4 (x ^^^ y) = List.zipWith xor (type4 x) (type4Lin y) := by
  have hcrc : crcAfter (x ^^^ y) = crcAfter x ^^^ (onAir y).foldl crcNext 0 :=
    foldl_crcNext_onAir_xor 0xFFFF 0 x y
  have hword : (x ^^^ y) ++ ~~~crcAfter (x ^^^ y) ++ 0#4 =
      (x ++ ~~~crcAfter x ++ 0#4) ^^^ (y ++ (onAir y).foldl crcNext 0 ++ 0#4) := by
    rw [BitVec.xor_append, BitVec.xor_append, hcrc, BitVec.not_xor_left, BitVec.xor_self]
  have hlin := punctured_xor false 0 0 (onAir (x ++ ~~~crcAfter x ++ 0#4))
    (onAir (y ++ (onAir y).foldl crcNext 0 ++ 0#4)) (by rw [length_onAir, length_onAir])
  rw [type4, hword, onAir_xor]
  exact hlin

theorem type4Lin_xor (x y : BitVec 124) :
    type4Lin (x ^^^ y) = List.zipWith xor (type4Lin x) (type4Lin y) := by
  have hcrc : (onAir (x ^^^ y)).foldl crcNext 0 =
      (onAir x).foldl crcNext 0 ^^^ (onAir y).foldl crcNext 0 :=
    foldl_crcNext_onAir_xor 0 0 x y
  have hword : (x ^^^ y) ++ (onAir (x ^^^ y)).foldl crcNext 0 ++ 0#4 =
      (x ++ (onAir x).foldl crcNext 0 ++ 0#4) ^^^ (y ++ (onAir y).foldl crcNext 0 ++ 0#4) := by
    rw [BitVec.xor_append, BitVec.xor_append, hcrc, BitVec.xor_self]
  have hlin := punctured_xor false 0 0 (onAir (x ++ (onAir x).foldl crcNext 0 ++ 0#4))
    (onAir (y ++ (onAir y).foldl crcNext 0 ++ 0#4)) (by rw [length_onAir, length_onAir])
  rw [type4Lin, hword, onAir_xor]
  exact hlin

/-! ## The check -/

/-- Eleven type-4 bits whose parity, with that of the scrambler's bits where they are sent, no
acknowledgement can change. -/
def ackBits : List ℕ := [153, 91, 136, 12, 104, 102, 85, 162, 177, 130, 21]

/-- Where they are sent. -/
def ackAir : List ℕ := ackBits.map (permIndex 216 101)

theorem check_interleavePerm (xs : List Bool) :
    check ackAir (interleavePerm xs 216 101) = check ackBits xs :=
  check_map fun k hk ↦ getD_interleavePerm (by decide) xs (by revert k; decide)

/-- The check of a word. -/
def infoCheck (x : BitVec 124) : Bool := check ackBits (type4Lin x)

theorem isLinear_infoCheck : IsLinear infoCheck := by
  intro x y
  have hlen : (type4Lin x).length = (type4Lin y).length :=
    length_punctured false 0 0 (by rw [length_onAir, length_onAir])
  rw [infoCheck, type4Lin_xor, check_zipWith _ hlen]
  rfl

/-- The check of an address. -/
def ssiCheck (ssi : BitVec 24) : Bool := infoCheck (place 124 84 ssi)

theorem isLinear_ssiCheck : IsLinear ssiCheck := by
  intro x y
  have hplace : place 124 84 (x ^^^ y) = place 124 84 x ^^^ place 124 84 y := by
    rw [place, place, place, BitVec.setWidth_xor, BitVec.shiftLeft_xor_distrib]
  rw [ssiCheck, hplace, isLinear_infoCheck]
  rfl

theorem ssiCheck_unit : ∀ k < 24, ssiCheck (1#24 <<< k) = false := by decide +kernel

theorem infoCheck_nr (nr : Bool) : infoCheck (place 124 76 (BitVec.ofBool nr)) = false := by
  revert nr
  decide +kernel

/-- The check of a scrambling seed. -/
def maskCheck (init : BitVec 32) : Bool := check ackAir (maskBits init 216)

theorem length_maskBits (l : BitVec 32) (n : ℕ) : (maskBits l n).length = n := by
  induction n generalizing l with
  | zero => rfl
  | succ n ih => rw [maskBits, List.length_cons, ih]

theorem isLinear_maskCheck : IsLinear maskCheck := by
  intro x y
  rw [maskCheck, maskBits_xor, check_zipWith _ (by rw [length_maskBits, length_maskBits])]
  rfl

theorem maskCheck_unit : ∀ k < 32, maskCheck (1#32 <<< k) = false := by decide +kernel

/-- The fields no acknowledgement can change. -/
def ackBase : BitVec 124 := place 124 111 6#6 ||| place 124 108 1#3 ||| place 124 77 0b11#2

theorem ackBase_check : check ackBits (type4 ackBase) = true := by decide +kernel

/-- The PDU of an acknowledgement is the sum of its fields. -/
theorem blAck_pdu (ssi : BitVec 24) (nr : Bool) :
    ({ ssi := ssi, addrType := 1, nr := nr } : BlAckIn).pdu =
      ackBase ^^^ (place 124 84 ssi ^^^ place 124 76 (BitVec.ofBool nr)) := by
  have hra : place 124 117 (BitVec.ofBool false) = 0#124 := by decide
  refine BitVec.eq_of_getLsbD_eq fun i hi ↦ ?_
  simp only [BlAckIn.pdu, hra, ackBase, BitVec.getLsbD_or, BitVec.getLsbD_xor, BitVec.getLsbD_zero,
    Bool.false_or]
  by_cases hssi : 84 ≤ i ∧ i < 108
  · simp (disch := omega) only [getLsbD_place_apart, Bool.or_false, Bool.false_or, Bool.xor_false,
      Bool.false_xor]
  by_cases hnr : i = 76
  · simp (disch := omega) only [getLsbD_place_apart, Bool.or_false, Bool.false_or, Bool.false_xor]
  · have h1 : (place 124 84 ssi).getLsbD i = false := getLsbD_place_apart ssi (by omega)
    have h2 : (place 124 76 (BitVec.ofBool nr)).getLsbD i = false :=
      getLsbD_place_apart _ (by omega)
    rw [h1, h2, Bool.or_false, Bool.or_false, Bool.xor_false, Bool.xor_false]
    rfl

/-- **No acknowledgement has an empty block**, whatever its address, its N(R) and the seed. -/
theorem schhdEncode_blAck_ne (ssi : BitVec 24) (nr : Bool) (init : BitVec 32) :
    schhdEncode (onAir ({ ssi := ssi, addrType := 1, nr := nr } : BlAckIn).pdu)
      (UInt32.ofBitVec init) ≠ List.replicate 216 false := by
  intro hempty
  have hlen : (type4 ackBase).length = (type4Lin (place 124 84 ssi ^^^
      place 124 76 (BitVec.ofBool nr))).length :=
    length_punctured false 0 0 (by rw [length_onAir, length_onAir])
  have hinfo : infoCheck (place 124 84 ssi ^^^ place 124 76 (BitVec.ofBool nr)) = false := by
    have hssi : infoCheck (place 124 84 ssi) = false :=
      isLinear_ssiCheck.eq_false ssiCheck_unit ssi
    rw [isLinear_infoCheck, hssi, infoCheck_nr, Bool.xor_self]
  have hmask : check ackAir (maskBits init 216) = false :=
    isLinear_maskCheck.eq_false maskCheck_unit init
  have hsum := congrArg (check ackAir) hempty
  rw [← stages_eq, check_zipWith _ (by rw [interleavePerm, Permute.length_scatter,
    length_maskBits]), check_interleavePerm, blAck_pdu, type4_xor, check_zipWith _ hlen,
    ackBase_check, hmask, check_replicate] at hsum
  rw [infoCheck] at hinfo
  rw [hinfo] at hsum
  exact absurd hsum (by decide)

end TetraPhy.Lmac
