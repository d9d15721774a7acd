import TetraPhy.Sw.CmceParser
import TetraPhy.Lib.BitField
import TetraPhy.Lib.FieldReader
import TetraPhy.Sw.CmceBody

/-!
# The fields of a body

`put_bits` sends a field with its highest bit first.  Most builders mask a value to the width of its
field before that, which changes nothing.
-/

namespace TetraPhy.Sw

open AirOrder BitField FieldReader

@[simp] theorem length_putBits (value : UInt32) (n : ℕ) : (putBits value n).length = n := by
  induction n with
  | zero => rfl
  | succ n ih => rw [putBits, List.length_cons, ih]

theorem length_flatMap_octets {α : Type*} (l : List α) (f : α → UInt32) :
    (l.flatMap fun a ↦ putBits (f a) 8).length = 8 * l.length := by
  induction l with
  | nil => rfl
  | cons a l ih => rw [List.flatMap_cons, List.length_append, ih, length_putBits, List.length_cons]
                   omega

theorem shr_and_one (v : UInt32) {i : ℕ} (h : i < 32) :
    ((v >>> i.toUInt32) &&& 1 == 1) = v.toBitVec.getLsbD i := by
  have hi : i.toUInt32.toNat % 32 = i := by
    change i % 2 ^ 32 % 32 = i
    omega
  have hbit : ((v >>> i.toUInt32) &&& 1).toNat = v.toNat / 2 ^ i % 2 := by
    rw [toNat_and_mask _ 1 (k := 1) rfl, UInt32.toNat_shiftRight, hi, Nat.shiftRight_eq_div_pow]
    rfl
  rw [BitVec.getLsbD, UInt32.toNat_toBitVec, Nat.testBit_eq_decide_div_mod_eq, ← hbit,
    beq_eq_decide]
  exact decide_eq_decide.2 UInt32.toNat_inj.symm

/-- A field is its low bits, sent with the highest first. -/
theorem putBits_eq_onAir (v : UInt32) {n : ℕ} (h : n ≤ 32) :
    putBits v n = onAir (v.toBitVec.setWidth n) := by
  induction n with
  | zero => rfl
  | succ n ih =>
      have hlow : (v.toBitVec.setWidth (n + 1)).setWidth n = v.toBitVec.setWidth n :=
        BitVec.setWidth_setWidth_of_le _ (Nat.le_succ n)
      rw [putBits, ih (by omega), shr_and_one v h,
        ← BitVec.cons_msb_setWidth (v.toBitVec.setWidth (n + 1)), onAir_cons, hlow,
        BitVec.msb_setWidth'']

theorem putBits_toUInt32 (k : ℕ) {n : ℕ} (h : n ≤ 32) :
    putBits k.toUInt32 n = onAir (BitVec.ofNat n k) := by
  rw [putBits_eq_onAir _ h]
  exact congrArg onAir (BitVec.setWidth_ofNat_of_le h k)

/-- A value is masked to the width of its field. -/
theorem setWidth_and {w n : ℕ} (x mask : BitVec w) (h : mask.setWidth n = BitVec.allOnes n) :
    (x &&& mask).setWidth n = x.setWidth n := by
  rw [BitVec.setWidth_and, h, BitVec.and_allOnes]

theorem putBits_and_uInt32 (x mask : UInt32) {n : ℕ} (hn : n ≤ 32)
    (h : mask.toBitVec.setWidth n = BitVec.allOnes n) :
    putBits (x &&& mask) n = onAir (x.toBitVec.setWidth n) := by
  rw [putBits_eq_onAir _ hn, UInt32.toBitVec_and, setWidth_and _ _ h]

theorem putBits_and_uInt16 (x mask : UInt16) {n : ℕ} (hn : n ≤ 16)
    (h : mask.toBitVec.setWidth n = BitVec.allOnes n) :
    putBits (x &&& mask).toUInt32 n = onAir (x.toBitVec.setWidth n) := by
  rw [putBits_eq_onAir _ (hn.trans (by decide)), UInt16.toBitVec_toUInt32, UInt16.toBitVec_and,
    BitVec.setWidth_setWidth_of_le _ (hn.trans (by decide)), setWidth_and _ _ h]

theorem putBits_and_uInt8 (x mask : UInt8) {n : ℕ} (hn : n ≤ 8)
    (h : mask.toBitVec.setWidth n = BitVec.allOnes n) :
    putBits (x &&& mask).toUInt32 n = onAir (x.toBitVec.setWidth n) := by
  rw [putBits_eq_onAir _ (hn.trans (by decide)), UInt8.toBitVec_toUInt32, UInt8.toBitVec_and,
    BitVec.setWidth_setWidth_of_le _ (hn.trans (by decide)), setWidth_and _ _ h]

/-- What `put_bits` writes is the number. -/
theorem number_putBits (v : UInt32) {n : ℕ} (h : n ≤ 32) :
    number (putBits v n) = v.toNat % 2 ^ n := by
  rw [putBits_eq_onAir v h, number_onAir, BitVec.toNat_setWidth, UInt32.toNat_toBitVec]

end TetraPhy.Sw

/-!
# The octets of a body

A builder clears its buffer and puts its fields into it one bit after the other.  What it returns
is the position behind the last one.
-/

namespace TetraPhy.Sw

open FieldReader

/-- A buffer, the position of the next bit, and the octets that were written so far. -/
structure BodyWriter where
  dst : ℕ → UInt8
  pos : ℕ := 0
  written : List ℕ := []

namespace BodyWriter

variable (w : BodyWriter)

/-- `memset` to zero of the first `n` octets. -/
def clear (n : ℕ) : BodyWriter :=
  { w with
    dst := fun i ↦ if i < n then 0 else w.dst i
    written := List.range n ++ w.written }

/-- One turn of the loop of `put_bits`. -/
def putBit (bit : Bool) : BodyWriter :=
  let byteIdx := w.pos >>> 3
  let mask : UInt8 := 1 <<< (7 - (w.pos &&& 0x7)).toUInt8
  { dst := Function.update w.dst byteIdx
      (if bit then w.dst byteIdx ||| mask else w.dst byteIdx &&& ~~~mask)
    pos := w.pos + 1
    written := byteIdx :: w.written }

/-- `put_bits`. -/
def putBits (value : UInt32) : ℕ → BodyWriter → BodyWriter
  | 0, w => w
  | i + 1, w => putBits value i (w.putBit ((value >>> i.toUInt32) &&& 1 == 1))

/-- The bits of a body. -/
def putAll (bits : List Bool) : BodyWriter := bits.foldl putBit w

/-- The calls of `put_bits` put one field behind the other. -/
theorem putBits_putAll (xs : List Bool) (v : UInt32) (n : ℕ) :
    putBits v n (w.putAll xs) = w.putAll (xs ++ Sw.putBits v n) := by
  induction n generalizing xs with
  | zero => rw [Sw.putBits, List.append_nil, putBits]
  | succ n ih =>
      have hbit : (w.putAll xs).putBit ((v >>> n.toUInt32) &&& 1 == 1) =
          w.putAll (xs ++ [(v >>> n.toUInt32) &&& 1 == 1]) := by
        rw [putAll, putAll, List.foldl_append]
        rfl
      rw [putBits, hbit, ih, List.append_assoc]
      rfl

@[simp] theorem putAll_nil : w.putAll [] = w := rfl

@[simp] theorem putAll_cons (b : Bool) (bits : List Bool) :
    w.putAll (b :: bits) = (w.putBit b).putAll bits := rfl

@[simp] theorem pos_putAll (bits : List Bool) : (w.putAll bits).pos = w.pos + bits.length := by
  induction bits generalizing w with
  | nil => rfl
  | cons b bits ih =>
      rw [putAll_cons, ih, List.length_cons, Nat.add_comm bits.length, ← Nat.add_assoc]
      rfl

/-! ## The bits in the octets -/

theorem toNat_toUInt8_mod {k : ℕ} (h : k < 8) : k.toUInt8.toNat % 8 = k := by
  change k % 2 ^ 8 % 8 = k
  omega

theorem uInt8_shr_and_one (x : UInt8) {k : ℕ} (h : k < 8) :
    ((x >>> k.toUInt8) &&& 1 == 1) = x.toBitVec.getLsbD k := by
  have hbit : ((x >>> k.toUInt8) &&& 1).toNat = x.toNat / 2 ^ k % 2 := by
    rw [UInt8.toNat_and, UInt8.toNat_shiftRight, toNat_toUInt8_mod h, Nat.shiftRight_eq_div_pow]
    exact Nat.and_two_pow_sub_one_eq_mod _ 1
  rw [BitVec.getLsbD, UInt8.toNat_toBitVec, Nat.testBit_eq_decide_div_mod_eq, ← hbit,
    beq_eq_decide]
  exact decide_eq_decide.2 UInt8.toNat_inj.symm

/-- The mask of one bit. -/
theorem getLsbD_one_shiftLeft {k : ℕ} (h : k < 8) (j : ℕ) :
    ((1 : UInt8) <<< k.toUInt8).toBitVec.getLsbD j = decide (j = k) := by
  have hmask : ((1 : UInt8) <<< k.toUInt8).toBitVec = BitVec.twoPow 8 k := by
    rw [← BitVec.toNat_inj, UInt8.toNat_toBitVec, UInt8.toNat_shiftLeft, toNat_toUInt8_mod h,
      BitVec.toNat_twoPow, Nat.shiftLeft_eq]
    exact congrArg (· % 2 ^ 8) (Nat.one_mul _)
  rw [hmask, BitVec.getLsbD_twoPow]
  by_cases hj : j = k
  · subst hj
    simp [h]
  · simp [hj, Ne.symm hj]

/-- Bit `p` is bit `7 - p % 8` of octet `p / 8`. -/
theorem srcBit_eq (src : ℕ → UInt8) (p : ℕ) :
    srcBit src p = (src (p / 8)).toBitVec.getLsbD (7 - p % 8) := by
  rw [srcBit, Nat.and_two_pow_sub_one_eq_mod p 3, Nat.shiftRight_eq_div_pow,
    uInt8_shr_and_one _ (by omega)]

/-- A bit that is put is there, and the others are as they were. -/
theorem srcBit_putBit (b : Bool) (p : ℕ) :
    srcBit (w.putBit b).dst p = if p = w.pos then b else srcBit w.dst p := by
  have hbyte : w.pos >>> 3 = w.pos / 8 := Nat.shiftRight_eq_div_pow _ _
  have hbit : w.pos &&& 0x7 = w.pos % 8 := Nat.and_two_pow_sub_one_eq_mod _ 3
  have hk : 7 - w.pos % 8 < 8 := by omega
  rw [srcBit_eq, srcBit_eq, putBit, hbyte, hbit]
  dsimp only
  by_cases hp : p / 8 = w.pos / 8
  · -- another bit of the octet, or the bit itself
    have hsame : 7 - p % 8 = 7 - w.pos % 8 ↔ p = w.pos := by omega
    rw [hp, Function.update_self]
    cases b with
    | true =>
        rw [if_pos rfl, UInt8.toBitVec_or, BitVec.getLsbD_or, getLsbD_one_shiftLeft hk]
        by_cases h : p = w.pos <;> simp [hsame, h]
    | false =>
        rw [if_neg (by decide), UInt8.toBitVec_and, UInt8.toBitVec_not, BitVec.getLsbD_and,
          BitVec.getLsbD_not, getLsbD_one_shiftLeft hk]
        have hj : 7 - p % 8 < 8 := by omega
        by_cases h : p = w.pos <;> simp [hsame, h, hj]
  · rw [Function.update_of_ne hp, if_neg fun h ↦ hp (by rw [h])]

/-- The bits before the position stay. -/
theorem srcBit_putAll {bits : List Bool} {p : ℕ} (h : p < w.pos) :
    srcBit (w.putAll bits).dst p = srcBit w.dst p := by
  induction bits generalizing w with
  | nil => rfl
  | cons b bits ih =>
      rw [putAll_cons, ih _ (Nat.lt_succ_of_lt h), srcBit_putBit, if_neg h.ne]

/-- **A body is in the buffer.** -/
theorem written_putAll (bits : List Bool) : Written (srcBit (w.putAll bits).dst) w.pos bits := by
  induction bits generalizing w with
  | nil => rfl
  | cons b bits ih =>
      have hhead : Written (srcBit (w.putAll (b :: bits)).dst) w.pos [b] := by
        change [srcBit ((w.putBit b).putAll bits).dst w.pos] = [b]
        rw [srcBit_putAll _ (Nat.lt_succ_self w.pos), srcBit_putBit, if_pos rfl]
      exact written_append.2 ⟨hhead, ih (w.putBit b)⟩

/-! ## The octets that are written -/

theorem mem_written_putAll {bits : List Bool} {i : ℕ} (h : i ∈ (w.putAll bits).written) :
    i ∈ w.written ∨ 8 * i < w.pos + bits.length := by
  induction bits generalizing w with
  | nil => exact .inl h
  | cons b bits ih =>
      rcases ih (w.putBit b) h with h | h
      · rcases List.mem_cons.1 h with rfl | h
        · refine .inr ?_
          rw [Nat.shiftRight_eq_div_pow, List.length_cons]
          omega
        · exact .inl h
      · refine .inr (h.trans_eq ?_)
        rw [List.length_cons]
        change w.pos + 1 + _ = _
        omega

theorem written_subset (bits : List Bool) : w.written ⊆ (w.putAll bits).written := by
  induction bits generalizing w with
  | nil => exact List.Subset.refl _
  | cons b bits ih => exact List.Subset.trans (List.subset_cons_self _ _) (ih (w.putBit b))

/-- What was not written is as it was. -/
theorem dst_putAll {bits : List Bool} {i : ℕ} (h : i ∉ (w.putAll bits).written) :
    (w.putAll bits).dst i = w.dst i := by
  induction bits generalizing w with
  | nil => rfl
  | cons b bits ih =>
      have hne : i ≠ w.pos >>> 3 := fun hi ↦
        h (written_subset (w.putBit b) bits (hi ▸ List.mem_cons_self))
      rw [putAll_cons, ih _ h]
      exact Function.update_of_ne hne _ _

end BodyWriter

end TetraPhy.Sw
