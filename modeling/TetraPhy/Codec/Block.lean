import TetraPhy.Codec.Viterbi
import TetraPhy.Lib.Permute

/-!
# The block primitives

The stages of `tetra_channel_codec.c` around the convolutional code: the CRC, the
puncturing, the interleaver and the scrambler, each with its inverse.  Where the source
has a hard and a soft version of one loop, both are instances of one definition.

The inverses are exact: descrambling and deinterleaving are bijections, and of a mother
code word depuncturing restores the bits that were kept and erases the others.
-/

namespace TetraPhy.Codec

open Permute

/-! ## CRC-16 -/

/-- One step of the CRC register. -/
def crcStep (crc : UInt16) (b : Bool) : UInt16 :=
  let feedback := b ^^ ((crc >>> 15) &&& 1 == 1)
  let crc := crc <<< 1
  if feedback then crc ^^^ 0x1021 else crc

/-- The CRC of a bit string, final inversion included. -/
def crcOf (bits : List Bool) : UInt16 := bits.foldl crcStep 0xFFFF ^^^ 0xFFFF

/-- Bit `15 - i` of a CRC. -/
def crcBit (crc : UInt16) (i : ℕ) : Bool := (crc >>> (15 - i).toUInt16) &&& 1 == 1

/-- `tetra_codec_crc16`. -/
def crc16 (bits : List Bool) : List Bool :=
  bits ++ (List.range 16).map (crcBit (crcOf bits))

/-- `crc16_check_n`. -/
def crc16CheckN (bits : List Bool) (infoLen : ℕ) : Bool :=
  (List.range 16).all fun i ↦
    bits.getD (infoLen + i) false == crcBit (crcOf (bits.take infoLen)) i

/-- `crc16_check`. -/
def crc16Check (bits : List Bool) : Bool := crc16CheckN bits 268

/-- Testing the lowest bit. -/
theorem and_one_beq_one {n : ℕ} (h : 0 < n) (x : BitVec n) :
    (x &&& 1#n == 1#n) = x.getLsbD 0 := by
  rw [BitVec.and_one_eq_setWidth_ofBool_getLsbD, Bool.eq_iff_iff, beq_iff_eq]
  cases x.getLsbD 0
  · simp only [Bool.false_eq_true, iff_false]
    intro he
    have := congrArg (fun y ↦ y.getLsbD 0) he
    simp [h] at this
  · simp only [iff_true]
    exact BitVec.eq_of_getLsbD_eq fun i hi ↦ by simp [hi]

theorem crcBit_eq (c : UInt16) {i : ℕ} (hi : i < 16) : crcBit c i = c.toBitVec.getMsbD i := by
  have hshift : ((15 - i).toUInt16.toBitVec % 16).toNat = 15 - i := by
    revert i
    decide
  have h : crcBit c i = ((c.toBitVec >>> (15 - i)) &&& 1#16 == 1#16) := by
    rw [crcBit, Bool.eq_iff_iff, beq_iff_eq, beq_iff_eq, ← UInt16.toBitVec_inj,
      UInt16.toBitVec_and, UInt16.toBitVec_shiftRight, BitVec.ushiftRight_eq', hshift]
    rfl
  rw [h, and_one_beq_one (by decide), BitVec.getLsbD_ushiftRight, BitVec.getMsbD_eq_getLsbD]
  simp [hi]

@[simp] theorem length_crc16 (bits : List Bool) : (crc16 bits).length = bits.length + 16 := by
  simp [crc16]

/-- A block with its CRC passes the check, whatever follows it. -/
theorem crc16CheckN_crc16 (bits tail : List Bool) :
    crc16CheckN (crc16 bits ++ tail) bits.length = true := by
  rw [crc16CheckN, List.all_eq_true]
  intro i hi
  have hi' : i < 16 := List.mem_range.mp hi
  rw [beq_iff_eq, crc16, List.append_assoc, List.take_left, List.getD_append_right _ _ _ _ (by omega),
    Nat.add_sub_cancel_left, List.getD_append _ _ _ _ (by simpa using hi'),
    List.getD_eq_getElem _ _ (by simpa using hi')]
  simp

/-! ## Puncturing -/

/-- The kept bits of each eight: `g1(a)`, `g2(a)`, `g1(b)`. -/
def keptBits {α : Type*} : List α → List α
  | a0 :: a1 :: _ :: _ :: b0 :: _ :: _ :: _ :: rest => a0 :: a1 :: b0 :: keptBits rest
  | _ => []

/-- `tetra_codec_puncture_r23`. -/
def punctureR23 (bits : List Bool) : Option (List Bool) :=
  if bits.length % 8 ≠ 0 then none else some (keptBits bits)

/-- Put each three values back at positions 0, 1 and 4 of eight. -/
def depunctureWith {α β : Type*} (value : α → β) (erased : β) : List α → List β
  | x :: y :: z :: rest =>
    value x :: value y :: erased :: erased :: value z :: erased :: erased :: erased ::
      depunctureWith value erased rest
  | _ => []

/-- `tetra_codec_depuncture_r23`. -/
def depunctureR23 (bits : List Bool) : List Sym := depunctureWith some none bits

/-- `tetra_codec_depuncture_r23_soft`. -/
def depunctureR23Soft (soft : List ℤ) : List ℤ := depunctureWith id 0 soft

theorem depunctureWith_map {α β γ δ : Type*} {value : α → β} {erased : β} {value' : γ → δ}
    {erased' : δ} (f : α → γ) (g : β → δ) (hv : ∀ x, value' (f x) = g (value x))
    (he : erased' = g erased) (xs : List α) :
    depunctureWith value' erased' (xs.map f) = (depunctureWith value erased xs).map g := by
  subst he
  fun_induction depunctureWith value erased xs with
  | case1 x y z rest ih => simp only [List.map_cons, depunctureWith, ih, hv]
  | case2 xs h =>
      rcases xs with _ | ⟨x, _ | ⟨y, _ | ⟨z, rest⟩⟩⟩
      case cons.cons.cons => exact absurd rfl (h x y z rest)
      all_goals rfl

/-- What holds of the values and of what is put between them holds of all that comes out. -/
theorem forall_mem_depunctureWith {α β : Type*} {p : β → Prop} {value : α → β} {erased : β}
    (he : p erased) {xs : List α} (h : ∀ x ∈ xs, p (value x)) :
    ∀ y ∈ depunctureWith value erased xs, p y := by
  fun_induction depunctureWith value erased xs with
  | case1 x y z rest ih =>
      simp only [List.forall_mem_cons] at h ⊢
      obtain ⟨hx, hy, hz, hrest⟩ := h
      exact ⟨hx, hy, he, he, hz, he, he, he, ih hrest⟩
  | case2 xs _ => exact List.forall_mem_nil _

theorem length_depunctureWith {α β : Type*} (value : α → β) (erased : β) (xs : List α) :
    (depunctureWith value erased xs).length = 8 * (xs.length / 3) := by
  fun_induction depunctureWith value erased xs with
  | case1 x y z rest ih => simp only [List.length_cons, ih]; omega
  | case2 xs h =>
      rcases xs with _ | ⟨x, _ | ⟨y, _ | ⟨z, rest⟩⟩⟩
      case cons.cons.cons => exact absurd rfl (h x y z rest)
      all_goals simp

theorem length_keptBits {α : Type*} {xs : List α} {n : ℕ} (h : xs.length = 8 * n) :
    (keptBits xs).length = 3 * n := by
  induction n generalizing xs with
  | zero => rw [List.eq_nil_of_length_eq_zero h]; rfl
  | succ n ih =>
      rcases xs with _ | ⟨a0, _ | ⟨a1, _ | ⟨a2, _ | ⟨a3, _ | ⟨b0, _ | ⟨b1, _ | ⟨b2, _ | ⟨b3,
        xs⟩⟩⟩⟩⟩⟩⟩⟩
      case cons.cons.cons.cons.cons.cons.cons.cons =>
        simp only [keptBits, List.length_cons] at h ⊢
        rw [ih (by omega)]
        omega
      all_goals simp only [List.length_cons, List.length_nil] at h; omega

/-! ## Interleaving -/

section Interleave

variable {α : Type*} [Inhabited α]

/-- The position of element `k`, counted from 0: `j - 1` with `j = 1 + (a * (k + 1)) % n`. -/
def permIndex (n a k : ℕ) : ℕ := 1 + a * (k + 1) % n - 1

/-- `tetra_codec_interleave_perm`. -/
def interleavePerm (xs : List α) (n a : ℕ) : List α := scatter default n (permIndex n a) xs

/-- `tetra_codec_deinterleave_perm` and `tetra_codec_deinterleave_perm_soft`. -/
def deinterleavePerm (xs : List α) (n a : ℕ) : List α := gather default n (permIndex n a) xs

theorem permIndex_eq (n a k : ℕ) : permIndex n a k = a * (k + 1) % n := by
  rw [permIndex]
  omega

theorem permIndex_lt {n a k : ℕ} (hk : k < n) : permIndex n a k < n := by
  rw [permIndex_eq]
  exact Nat.mod_lt _ (by omega)

theorem permIndex_inj {n a : ℕ} (h : Nat.Coprime n a) :
    ∀ j < n, ∀ k < n, permIndex n a j = permIndex n a k → j = k := by
  intro j hj k hk he
  rw [permIndex_eq, permIndex_eq] at he
  exact mul_mod_inj h j hj k hk he

theorem getD_interleavePerm {n a : ℕ} (h : Nat.Coprime n a) (xs : List α) {k : ℕ} (hk : k < n) :
    (interleavePerm xs n a).getD (permIndex n a k) default = xs.getD k default :=
  getD_scatter default (fun _ hk ↦ permIndex_lt hk) (permIndex_inj h) xs hk

/-- **Deinterleaving undoes interleaving**, for a factor that is prime to the length. -/
theorem deinterleavePerm_interleavePerm {xs : List α} {n a : ℕ} (h : Nat.Coprime n a)
    (hxs : xs.length = n) : deinterleavePerm (interleavePerm xs n a) n a = xs :=
  gather_scatter default (fun _ hk ↦ permIndex_lt hk) (permIndex_inj h) hxs

end Interleave

/-! ## Scrambling -/

/-- `ST (x, y)`. -/
def st (x y : UInt32) : UInt32 := x >>> (32 - y)

/-- `next_lfsr_bit`: the register after one step and the bit it delivers. -/
def nextLfsrBit (lfsr : UInt32) : UInt32 × Bool :=
  let bit := (st lfsr 32 ^^^ st lfsr 26 ^^^ st lfsr 23 ^^^ st lfsr 22 ^^^
    st lfsr 16 ^^^ st lfsr 12 ^^^ st lfsr 11 ^^^ st lfsr 10 ^^^
    st lfsr 8 ^^^ st lfsr 7 ^^^ st lfsr 5 ^^^ st lfsr 4 ^^^
    st lfsr 2 ^^^ st lfsr 1) &&& 1
  ((lfsr >>> 1) ||| (bit <<< 31), bit == 1)

/-- The scrambler's initial register: the cell identity. -/
def scrambleInit (colourCode : UInt8) (mcc mnc : UInt16) : UInt32 :=
  let lfsr := ((mcc &&& 0x3FF).toUInt32 <<< 22) ||| ((mnc &&& 0x3FFF).toUInt32 <<< 8) |||
    ((colourCode &&& 0x3F).toUInt32 <<< 2) ||| (3 : UInt32)
  if lfsr == 0 then 0xFFFFFFFF else lfsr

section Scramble

variable {α β : Type*}

/-- Flip the values for which the register delivers a one. -/
def scrambleWith (flip : α → α) (lfsr : UInt32) : List α → List α
  | [] => []
  | x :: xs =>
    (if (nextLfsrBit lfsr).2 then flip x else x) :: scrambleWith flip (nextLfsrBit lfsr).1 xs

@[simp] theorem length_scrambleWith (flip : α → α) (lfsr : UInt32) (xs : List α) :
    (scrambleWith flip lfsr xs).length = xs.length := by
  induction xs generalizing lfsr with
  | nil => rfl
  | cons x xs ih => simp only [scrambleWith, List.length_cons, ih]

/-- **Scrambling twice is doing nothing.** -/
theorem scrambleWith_scrambleWith {flip : α → α} (h : ∀ x, flip (flip x) = x) (lfsr : UInt32)
    (xs : List α) : scrambleWith flip lfsr (scrambleWith flip lfsr xs) = xs := by
  induction xs generalizing lfsr with
  | nil => rfl
  | cons x xs ih =>
      simp only [scrambleWith]
      rw [ih]
      split
      · rw [h]
      · rfl

theorem scrambleWith_map {flip : α → α} {flip' : β → β} {f : α → β}
    (h : ∀ x, flip' (f x) = f (flip x)) (lfsr : UInt32) (xs : List α) :
    scrambleWith flip' lfsr (xs.map f) = (scrambleWith flip lfsr xs).map f := by
  induction xs generalizing lfsr with
  | nil => rfl
  | cons x xs ih =>
      simp only [List.map_cons, scrambleWith, ih]
      split
      · rw [h]
      · rfl

/-- What holds of the values and is kept by the flip holds of the scrambled values. -/
theorem forall_mem_scrambleWith {p : α → Prop} {flip : α → α} (hflip : ∀ x, p x → p (flip x))
    (lfsr : UInt32) {xs : List α} (h : ∀ x ∈ xs, p x) : ∀ x ∈ scrambleWith flip lfsr xs, p x := by
  induction xs generalizing lfsr with
  | nil => exact h
  | cons x xs ih =>
      rw [List.forall_mem_cons] at h
      rw [scrambleWith, List.forall_mem_cons]
      refine ⟨?_, ih _ h.2⟩
      split
      · exact hflip x h.1
      · exact h.1

end Scramble

/-- `tetra_codec_descramble`, and the scrambling loop of `tetra_codec_schf_encode`: exclusive
or with the register's bits.  `slot_num` is an argument that is not used. -/
def descramble (bits : List Bool) (colourCode _slotNum : UInt8) (mcc mnc : UInt16) : List Bool :=
  scrambleWith Bool.not (scrambleInit colourCode mcc mnc) bits

/-- `tetra_codec_descramble_soft`. -/
def descrambleSoft (soft : List ℤ) (colourCode _slotNum : UInt8) (mcc mnc : UInt16) : List ℤ :=
  scrambleWith Neg.neg (scrambleInit colourCode mcc mnc) soft

theorem descramble_descramble (bits : List Bool) (colourCode slotNum slotNum' : UInt8)
    (mcc mnc : UInt16) :
    descramble (descramble bits colourCode slotNum mcc mnc) colourCode slotNum' mcc mnc = bits :=
  scrambleWith_scrambleWith Bool.not_not _ bits

end TetraPhy.Codec
