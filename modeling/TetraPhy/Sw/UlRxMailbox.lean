import Mathlib.Algebra.Ring.Nat
import Mathlib.Data.Int.Notation
import Mathlib.Data.List.GetD
import Mathlib.Logic.Function.Basic

/-!
# The uplink mailbox

`tetra_ul_rx_mailbox.c`: one received burst as a sequence of words.

| Word       | Fields                                                       |
|------------|--------------------------------------------------------------|
| W0         | `valid` 31, `n_soft` 15:4, `burst_type` 3:2, `slot_tn` 1:0   |
| W1 and on  | eight signed 4-bit soft values a word, the first in bits 3:0 |

`unpack_pack_saturated` is the round trip.
-/

namespace TetraPhy.Sw

/-- `UL_RX_MAX_SOFT`. -/
def ulRxMaxSoft : ℕ := 432

/-- `ul_rx_burst_t`; `soft` is the filled part of the array. -/
structure UlRxBurst where
  slotTn : UInt8
  burstType : UInt8
  soft : List ℤ
deriving DecidableEq, Repr

/-- `sat4`. -/
def sat4 (v : ℤ) : ℤ := if v > 7 then 7 else if v < -8 then -8 else v

/-- The nibble of a soft value. -/
def softNibble (v : ℤ) : UInt32 := UInt32.ofInt (sat4 v) &&& 0xF

/-- The soft value of a nibble. -/
def nibbleSoft (nib : UInt32) : ℤ := if nib &&& 0x8 ≠ 0 then nib.toNat - 16 else nib.toNat

/-- The loop of `tetra_ul_rx_pack`: soft value `i` goes into bits `4 * (i % 8)` of word
`1 + i / 8`. -/
def packSoft (words : ℕ → UInt32) (soft : List ℤ) : ℕ → ℕ → UInt32
  | 0 => words
  | n + 1 =>
      let words := packSoft words soft n
      let word := 1 + n / 8
      Function.update words word
        (words word ||| softNibble (soft.getD n 0) <<< (4 * (n % 8)).toUInt32)

/-- The header `tetra_ul_rx_pack` writes. -/
def ulRxHeader (slotTn burstType : UInt8) (nSoft : ℕ) : UInt32 :=
  (slotTn &&& 0x3).toUInt32 ||| ((burstType &&& 0x3).toUInt32 <<< 2) |||
    ((UInt32.ofNat nSoft &&& 0xFFF) <<< 4) ||| ((1 : UInt32) <<< 31)

/-- `tetra_ul_rx_pack`, `none` is the return value -1. -/
def ulRxPack (slotTn burstType : UInt8) (soft : List ℤ) : Option (ℕ → UInt32) :=
  if soft.length > ulRxMaxSoft then none
  else
    some (packSoft (Function.update (fun _ ↦ 0) 0 (ulRxHeader slotTn burstType soft.length)) soft
      soft.length)

/-- `tetra_ul_rx_unpack`, `none` is the return value -1. -/
def ulRxUnpack (words : ℕ → UInt32) : Option UlRxBurst :=
  let hdr := words 0
  if hdr &&& ((1 : UInt32) <<< 31) = 0 then none
  else
    let nSoft := ((hdr >>> 4) &&& 0xFFF).toNat
    if nSoft > ulRxMaxSoft then none
    else
      some
        { slotTn := (hdr &&& 0x3).toUInt8
          burstType := ((hdr >>> 2) &&& 0x3).toUInt8
          soft := (List.range nSoft).map fun i ↦
            nibbleSoft ((words (1 + i / 8) >>> (4 * (i % 8)).toUInt32) &&& 0xF) }

/-! ## Round trip -/

theorem nibbleSoft_softNibble {v : ℤ} (h : -8 ≤ v) (h' : v ≤ 7) :
    nibbleSoft (softNibble v) = v := by
  have hcases : v = -8 ∨ v = -7 ∨ v = -6 ∨ v = -5 ∨ v = -4 ∨ v = -3 ∨ v = -2 ∨ v = -1 ∨ v = 0 ∨
      v = 1 ∨ v = 2 ∨ v = 3 ∨ v = 4 ∨ v = 5 ∨ v = 6 ∨ v = 7 := by omega
  rcases hcases with rfl | rfl | rfl | rfl | rfl | rfl | rfl | rfl | rfl | rfl | rfl | rfl | rfl |
    rfl | rfl | rfl <;> decide

theorem sat4_bounds (v : ℤ) : -8 ≤ sat4 v ∧ sat4 v ≤ 7 := by
  rw [sat4]
  split
  · decide
  · split
    · decide
    · omega

theorem sat4_of_bounds {v : ℤ} (h : -8 ≤ v) (h' : v ≤ 7) : sat4 v = v := by
  rw [sat4, if_neg (by omega), if_neg (by omega)]

/-- A nibble has what is left after saturation. -/
theorem nibbleSoft_softNibble_sat4 (v : ℤ) : nibbleSoft (softNibble v) = sat4 v := by
  obtain ⟨hlo, hhi⟩ := sat4_bounds v
  have hsat : softNibble (sat4 v) = softNibble v := by
    rw [softNibble, softNibble, sat4_of_bounds hlo hhi]
  rw [← hsat]
  exact nibbleSoft_softNibble hlo hhi

theorem toBitVec_shl (x : UInt32) {n : ℕ} (h : n < 32) :
    (x <<< n.toUInt32).toBitVec = x.toBitVec <<< n := by
  have hn : (n.toUInt32.toBitVec % 32#32).toNat = n := by
    rw [BitVec.toNat_umod]
    change n % 2 ^ 32 % 32 = n
    omega
  rw [UInt32.toBitVec_shiftLeft, BitVec.shiftLeft_eq']
  exact congrArg _ hn

theorem toBitVec_shr (x : UInt32) {n : ℕ} (h : n < 32) :
    (x >>> n.toUInt32).toBitVec = x.toBitVec >>> n := by
  have hn : (n.toUInt32.toBitVec % 32#32).toNat = n := by
    rw [BitVec.toNat_umod]
    change n % 2 ^ 32 % 32 = n
    omega
  rw [UInt32.toBitVec_shiftRight, BitVec.ushiftRight_eq']
  exact congrArg _ hn

/-- The nibble at place `k` of a word. -/
def nibbleAt (x : UInt32) (k : ℕ) : UInt32 := (x >>> (4 * k).toUInt32) &&& 0xF

/-- Putting a nibble at place `j` of a word leaves the others alone. -/
theorem nibbleAt_or (a : UInt32) (v : ℤ) {j k : ℕ} (hj : j < 8) (hk : k < 8) :
    nibbleAt (a ||| softNibble v <<< (4 * j).toUInt32) k =
      nibbleAt a k ||| if k = j then softNibble v else 0 := by
  refine UInt32.toBitVec_inj.1 (BitVec.eq_of_getLsbD_eq fun i hi ↦ ?_)
  have hmask (m : ℕ) : (0xF : UInt32).toBitVec.getLsbD m = decide (m < 4) := by
    change (15#32).getLsbD m = _
    rw [show (15#32) = BitVec.ofNat 32 (2 ^ 4 - 1) from rfl, BitVec.getLsbD_ofNat,
      Nat.testBit_two_pow_sub_one]
    by_cases hm : m < 4
    · simp [hm]; omega
    · simp [hm]
  have hnib (m : ℕ) : (softNibble v).toBitVec.getLsbD m =
      ((UInt32.ofInt (sat4 v)).toBitVec.getLsbD m && decide (m < 4)) := by
    rw [softNibble, UInt32.toBitVec_and, BitVec.getLsbD_and, hmask]
  rw [nibbleAt, nibbleAt, UInt32.toBitVec_and, toBitVec_shr _ (by omega), UInt32.toBitVec_or,
    UInt32.toBitVec_or, UInt32.toBitVec_and, toBitVec_shl _ (by omega), toBitVec_shr _ (by omega)]
  simp only [BitVec.getLsbD_and, BitVec.getLsbD_ushiftRight, BitVec.getLsbD_or,
    BitVec.getLsbD_shiftLeft, hmask]
  by_cases hi4 : i < 4
  · have hlt : 4 * k + i < 32 := by omega
    rcases Nat.lt_trichotomy k j with hkj | rfl | hkj
    · have hb : 4 * k + i < 4 * j := by omega
      simp [hi4, hb, Nat.ne_of_lt hkj]
    · have hb : ¬ 4 * k + i < 4 * k := by omega
      simp [hi4, hlt, hnib, hb]
    · have hb : ¬ 4 * k + i < 4 * j := by omega
      have hge : ¬ 4 * k + i - 4 * j < 4 := by omega
      simp [hi4, hlt, hb, hnib, hge, Nat.ne_of_gt hkj]
  · by_cases hkj : k = j <;> simp [hi4, hkj, hnib]

/-- After `n` soft values the first `n` nibbles are theirs and the others as they were. -/
theorem nibbleAt_packSoft (words : ℕ → UInt32) (soft : List ℤ) (n i : ℕ) :
    nibbleAt (packSoft words soft n (1 + i / 8)) (i % 8) =
      nibbleAt (words (1 + i / 8)) (i % 8) ||| if i < n then softNibble (soft.getD i 0) else 0 := by
  induction n with
  | zero => simp [packSoft]
  | succ n ih =>
      rw [packSoft]
      by_cases hword : 1 + i / 8 = 1 + n / 8
      · rw [hword, Function.update_self, nibbleAt_or _ _ (by omega) (by omega), ← hword, ih]
        by_cases hin : i = n
        · subst hin
          simp
        · have hplace : i % 8 ≠ n % 8 := by omega
          have hlt : i < n + 1 ↔ i < n := by omega
          simp [hplace, hlt]
      · have hlt : i < n + 1 ↔ i < n := by
          have : i ≠ n := by
            rintro rfl
            exact hword rfl
          omega
        rw [Function.update_of_ne hword, ih]
        simp [hlt]

theorem packSoft_zero (words : ℕ → UInt32) (soft : List ℤ) (n : ℕ) :
    packSoft words soft n 0 = words 0 := by
  induction n with
  | zero => rfl
  | succ n ih =>
      rw [packSoft, Function.update_of_ne (by omega), ih]

theorem toNat_and_three (x : UInt8) : (x &&& 0x3).toNat = x.toNat % 4 := by
  rw [UInt8.toNat_and]
  exact Nat.and_two_pow_sub_one_eq_mod x.toNat 2

/-- The fields of the header do not overlap. -/
theorem toNat_ulRxHeader (slotTn burstType : UInt8) {n : ℕ} (h : n ≤ ulRxMaxSoft) :
    (ulRxHeader slotTn burstType n).toNat =
      2 ^ 31 * 1 + (2 ^ 4 * n + (2 ^ 2 * (burstType.toNat % 4) + slotTn.toNat % 4)) := by
  have hn : n ≤ 432 := h
  have hcount : ((UInt32.ofNat n &&& 0xFFF) <<< 4).toNat = 2 ^ 4 * n := by
    have hmask : (UInt32.ofNat n &&& 0xFFF).toNat = n % 2 ^ 32 % 2 ^ 12 := by
      rw [UInt32.toNat_and, UInt32.toNat_ofNat']
      exact Nat.and_two_pow_sub_one_eq_mod _ 12
    rw [UInt32.toNat_shiftLeft, hmask]
    change (n % 2 ^ 32 % 2 ^ 12) <<< 4 % 2 ^ 32 = _
    rw [Nat.shiftLeft_eq]
    omega
  have htype : ((burstType &&& 0x3).toUInt32 <<< 2).toNat = 2 ^ 2 * (burstType.toNat % 4) := by
    rw [UInt32.toNat_shiftLeft, UInt8.toNat_toUInt32, toNat_and_three]
    change (burstType.toNat % 4) <<< 2 % 2 ^ 32 = _
    rw [Nat.shiftLeft_eq]
    omega
  have hslot : ((slotTn &&& 0x3).toUInt32).toNat = slotTn.toNat % 4 := by
    rw [UInt8.toNat_toUInt32, toNat_and_three]
  have hvalid : ((1 : UInt32) <<< 31).toNat = 2 ^ 31 * 1 := by decide
  rw [ulRxHeader, UInt32.toNat_or, UInt32.toNat_or, UInt32.toNat_or, hcount, htype, hslot, hvalid,
    Nat.or_comm (slotTn.toNat % 4), ← Nat.two_pow_add_eq_or_of_lt (by omega),
    Nat.or_comm _ (2 ^ 4 * n), ← Nat.two_pow_add_eq_or_of_lt (by omega),
    Nat.or_comm _ (2 ^ 31 * 1), ← Nat.two_pow_add_eq_or_of_lt (by omega)]

/-- What `tetra_ul_rx_unpack` reads from the header. -/
theorem ulRxHeader_fields (slotTn burstType : UInt8) {n : ℕ} (h : n ≤ ulRxMaxSoft) :
    ulRxHeader slotTn burstType n &&& ((1 : UInt32) <<< 31) ≠ 0 ∧
      ((ulRxHeader slotTn burstType n >>> 4) &&& 0xFFF).toNat = n ∧
      (ulRxHeader slotTn burstType n &&& 0x3).toUInt8 = slotTn &&& 0x3 ∧
      ((ulRxHeader slotTn burstType n >>> 2) &&& 0x3).toUInt8 = burstType &&& 0x3 := by
  have hn : n ≤ 432 := h
  have hhdr := toNat_ulRxHeader slotTn burstType h
  have hand (x : UInt32) (k : ℕ) (m : UInt32) (hm : m.toNat = 2 ^ k - 1) :
      (x &&& m).toNat = x.toNat % 2 ^ k := by
    rw [UInt32.toNat_and, hm, Nat.and_two_pow_sub_one_eq_mod]
  have hshr (k : ℕ) (m : UInt32) (hm : m.toNat % 32 = k) :
      (ulRxHeader slotTn burstType n >>> m).toNat =
        (ulRxHeader slotTn burstType n).toNat / 2 ^ k := by
    rw [UInt32.toNat_shiftRight, hm, Nat.shiftRight_eq_div_pow]
  refine ⟨?_, ?_, ?_, ?_⟩
  · intro h0
    have hbit := congrArg (fun x : UInt32 ↦ x.toNat.testBit 31) h0
    have htest : (ulRxHeader slotTn burstType n).toNat.testBit 31 = true := by
      rw [Nat.testBit_eq_decide_div_mod_eq, hhdr]
      exact decide_eq_true (by omega)
    simp only [UInt32.toNat_and, Nat.testBit_and, htest] at hbit
    exact absurd hbit (by decide)
  · rw [hand _ 12 _ rfl, hshr 4 _ rfl, hhdr]
    omega
  · refine UInt8.toNat_inj.1 ?_
    rw [UInt32.toNat_toUInt8, hand _ 2 _ rfl, hhdr, toNat_and_three]
    omega
  · refine UInt8.toNat_inj.1 ?_
    rw [UInt32.toNat_toUInt8, hand _ 2 _ rfl, hshr 2 _ rfl, hhdr, toNat_and_three]
    omega

/-- What was packed is unpacked again, the soft values saturated. -/
theorem unpack_pack_map (slotTn burstType : UInt8) {soft : List ℤ}
    (h : soft.length ≤ ulRxMaxSoft) : (ulRxPack slotTn burstType soft).bind ulRxUnpack =
      some ⟨slotTn &&& 0x3, burstType &&& 0x3, soft.map sat4⟩ := by
  obtain ⟨hvalid, hn, hslot, htype⟩ := ulRxHeader_fields slotTn burstType h
  rw [ulRxPack, if_neg (Nat.not_lt.2 h), Option.bind_some, ulRxUnpack]
  simp only [packSoft_zero, Function.update_self]
  rw [if_neg hvalid, hn, if_neg (Nat.not_lt.2 h), hslot, htype]
  refine congrArg (fun l ↦ some (UlRxBurst.mk _ _ l)) (List.ext_getElem (by simp) fun i hi hi' ↦ ?_)
  rw [List.getElem_map, List.getElem_range, List.getElem_map]
  rw [List.length_map] at hi'
  have hnib := nibbleAt_packSoft (Function.update (fun _ ↦ 0) 0
    (ulRxHeader slotTn burstType soft.length)) soft soft.length i
  have hne : 1 + i / 8 ≠ 0 := by omega
  have hzero : nibbleAt 0 (i % 8) = 0 := by
    rw [nibbleAt, UInt32.zero_shiftRight, UInt32.zero_and]
  rw [Function.update_of_ne hne] at hnib
  rw [hzero, UInt32.zero_or, if_pos hi', List.getD_eq_getElem _ _ hi'] at hnib
  exact (congrArg nibbleSoft hnib).trans (nibbleSoft_softNibble_sat4 _)

/-- It is unpacked as it was, if every soft value fits a nibble. -/
theorem unpack_pack (slotTn burstType : UInt8) {soft : List ℤ} (h : soft.length ≤ ulRxMaxSoft)
    (hsoft : ∀ v ∈ soft, -8 ≤ v ∧ v ≤ 7) :
    (ulRxPack slotTn burstType soft).bind ulRxUnpack =
      some ⟨slotTn &&& 0x3, burstType &&& 0x3, soft⟩ := by
  have hsat : soft.map sat4 = soft :=
    (List.map_congr_left fun v hv ↦ sat4_of_bounds (hsoft v hv).1 (hsoft v hv).2).trans
      (List.map_id'' (fun _ ↦ rfl) soft)
  rw [unpack_pack_map slotTn burstType h, hsat]

/-- A field of two bits. -/
theorem and_three_of_lt {x : UInt8} (h : x < 4) : x &&& 0x3 = x := by
  rw [← UInt8.toNat_inj, toNat_and_three]
  exact Nat.mod_eq_of_lt h

/-- **The round trip**: the fields as they were, and the soft values saturated. -/
theorem unpack_pack_saturated {slotTn burstType : UInt8} (hslot : slotTn < 4)
    (htype : burstType < 4) {soft : List ℤ} (h : soft.length ≤ ulRxMaxSoft) :
    (ulRxPack slotTn burstType soft).bind ulRxUnpack =
      some ⟨slotTn, burstType, soft.map sat4⟩ := by
  rw [unpack_pack_map slotTn burstType h, and_three_of_lt hslot, and_three_of_lt htype]

theorem unpack_pack_saturated_nine :
    (ulRxPack 2 1 [-128, -9, -8, -1, 0, 7, 8, 127, 3]).bind ulRxUnpack =
      some ⟨2, 1, [-8, -8, -8, -1, 0, 7, 7, 7, 3]⟩ :=
  unpack_pack_saturated (by decide) (by decide) (by decide)

end TetraPhy.Sw
