import Mathlib.Algebra.Ring.Nat
import Mathlib.Data.List.GetD
import Mathlib.Data.Nat.Notation
import Mathlib.Order.Basic

/-!
# The MAC header of an uplink block

`tetra_ul_mac_parse.c`: the fields of a MAC-ACCESS block, and the bits that tell an SCH/HU
MAC-END-HU from it and an SCH/F MAC-FRAG or MAC-END from anything else.

A block is the list of its decoded information bits, first on air first.
-/

namespace TetraPhy.Sw

/-- The bit at a position of a block. -/
def bitAt (info : List Bool) (i : ℕ) : Bool := info.getD i false

/-- `getbits`: the bit at `start` is the highest of the `n`. -/
def getbits (b : List Bool) (start : ℕ) : ℕ → UInt32
  | 0 => 0
  | n + 1 => (getbits b start n <<< 1) ||| (bitAt b (start + n)).toUInt32

theorem getbits_lt (b : List Bool) (start : ℕ) {n : ℕ} (h : n ≤ 32) :
    (getbits b start n).toNat < 2 ^ n := by
  induction n with
  | zero => exact Nat.zero_lt_one
  | succ n ih =>
      have hv := ih (by omega)
      have hpow : 2 ^ n ≤ 2 ^ 31 := Nat.pow_le_pow_right Nat.zero_lt_two (by omega)
      have hshift : (getbits b start n <<< 1).toNat = 2 ^ 1 * (getbits b start n).toNat := by
        rw [UInt32.toNat_shiftLeft, Nat.shiftLeft_eq]
        change _ * 2 ^ 1 % 2 ^ 32 = _
        omega
      have hbit : (bitAt b (start + n)).toUInt32.toNat < 2 ^ 1 := by
        cases bitAt b (start + n) <;> decide
      rw [getbits, UInt32.toNat_or, hshift, ← Nat.two_pow_add_eq_or_of_lt hbit, Nat.pow_succ]
      omega

/-- A field of 24 bits is all within the mask of an SSI. -/
theorem getbits_and_ssi (b : List Bool) (start : ℕ) :
    getbits b start 24 &&& 0xFFFFFF = getbits b start 24 := by
  refine UInt32.toNat_inj.1 ?_
  rw [UInt32.toNat_and]
  exact (Nat.and_two_pow_sub_one_eq_mod _ 24).trans (Nat.mod_eq_of_lt (getbits_lt b start (by decide)))

/-- `ul_mac_access_t`. -/
structure UlMacAccess where
  macPduType : Bool
  addrType : UInt8
  issi : UInt32
  optFlag : Bool
  lengthOrCap : Bool
  fragFlag : Bool
  reservationReq : UInt8
  lengthInd : UInt8
  tlSduStart : ℕ
  llcLinkType : Bool
  llcHasFcs : Bool
  llcBlPduType : UInt8
  nsBit : Bool
  mlePd : UInt8
  mmPduType : UInt8
  locUpdType : UInt8
  meta13 : UInt16
deriving DecidableEq, Repr

/-- `tetra_ul_mac_access_parse`. -/
def ulMacAccessParse (info92 : List Bool) : UlMacAccess :=
  let optFlag := bitAt info92 29
  let lengthOrCap := optFlag && bitAt info92 30
  let t := if optFlag then 36 else 30
  let llcLinkType := bitAt info92 t
  let llcHasFcs := bitAt info92 (t + 1)
  let llcBlPduType := (getbits info92 (t + 2) 2).toUInt8
  let isAdata := !llcLinkType && llcBlPduType == 0
  let isData := !llcLinkType && llcBlPduType == 1
  let nsBit := bitAt info92 (t + 4)
  let lps := t + if isAdata then 6 else if isData then 5 else 4
  let mlePd := (getbits info92 lps 3).toUInt8
  let mmPduType := (getbits info92 (lps + 3) 4).toUInt8
  let llc4 := (llcLinkType.toUInt8 <<< 3) ||| (llcHasFcs.toUInt8 <<< 2) ||| llcBlPduType
  { macPduType := bitAt info92 0
    addrType := (getbits info92 3 2).toUInt8
    issi := getbits info92 5 24
    optFlag := optFlag
    lengthOrCap := lengthOrCap
    fragFlag := lengthOrCap && bitAt info92 31
    reservationReq := if lengthOrCap then (getbits info92 32 4).toUInt8 else 0
    lengthInd := if optFlag && !lengthOrCap then (getbits info92 31 5).toUInt8 else 0
    tlSduStart := t
    llcLinkType := llcLinkType
    llcHasFcs := llcHasFcs
    llcBlPduType := llcBlPduType
    nsBit := nsBit
    mlePd := mlePd
    mmPduType := mmPduType
    locUpdType := (getbits info92 (lps + 7) 3).toUInt8
    meta13 := ((mmPduType &&& 0xF).toUInt16 <<< 9) ||| ((mlePd &&& 0x7).toUInt16 <<< 6) |||
      ((llc4 &&& 0xF).toUInt16 <<< 2) ||| (nsBit.toUInt16 <<< 1) ||| optFlag.toUInt16 }

@[simp] theorem issi_and (info92 : List Bool) :
    (ulMacAccessParse info92).issi &&& 0xFFFFFF = (ulMacAccessParse info92).issi :=
  getbits_and_ssi info92 5

/-- `tetra_ul_is_mac_end_hu`. -/
def ulIsMacEndHu (info92 : List Bool) : Bool := bitAt info92 0

/-- `tetra_ul_schf_is_frag`, and its `is_end`. -/
def ulSchfIsFrag (info268 : List Bool) : Bool × Bool :=
  (!bitAt info268 0 && bitAt info268 1, bitAt info268 2)

end TetraPhy.Sw
