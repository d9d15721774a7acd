import TetraPhy.Lib.AirOrder
import TetraPhy.Lib.BitField

/-!
# Laying out a word from its first bit on

`LaidOut x bs k` — on air, the word `x` begins with the `k` bits `bs` and is 0 behind them.  A word
is built by placing one field after the other behind what is there (`LaidOut.place`), and by
leaving bits out (`LaidOut.gap`); the first bits of another word are a field, too
(`onAir_top`, `shift_eq_place`).
-/

namespace TetraPhy.Layout

open AirOrder BitField

variable {n m : ℕ}

/-- The bits of a word, the first on air first; there are only zeros behind them. -/
structure LaidOut (x : BitVec n) (bs : List Bool) (k : ℕ) : Prop where
  length : bs.length = k
  fits : k ≤ n
  getMsbD : ∀ j, x.getMsbD j = bs.getD j false

theorem laidOut_zero : LaidOut (0#n) [] 0 where
  length := rfl
  fits := Nat.zero_le n
  getMsbD j := by rw [BitVec.getMsbD_zero, List.getD_nil]

variable {x : BitVec n} {bs : List Bool} {k : ℕ}

theorem LaidOut.cast (h : LaidOut x bs k) {x' : BitVec n} {bs' : List Bool} {k' : ℕ} (hx : x' = x)
    (hbs : bs' = bs) (hk : k' = k) : LaidOut x' bs' k' := by
  rwa [hx, hbs, hk]

theorem onAir_ofBool (b : Bool) : onAir (BitVec.ofBool b) = [b] := by
  cases b <;> rfl

/-- The bits and the zeros are the whole word. -/
theorem LaidOut.onAir_eq (h : LaidOut x bs k) :
    onAir x = bs ++ List.replicate (n - k) false := by
  have hlen := h.length
  have hfits := h.fits
  refine List.ext_getElem (by rw [length_onAir, List.length_append, List.length_replicate]; omega)
    fun j hj _ ↦ ?_
  rw [getElem_onAir, h.getMsbD, List.getElem_append]
  split_ifs with hlt
  · rw [List.getD_eq_getElem _ _ hlt]
  · rw [List.getD_eq_default _ _ (Nat.le_of_not_lt hlt), List.getElem_replicate]

/-- Bits that are left out are 0. -/
theorem LaidOut.gap (h : LaidOut x bs k) {g : ℕ} (hg : k + g ≤ n) :
    LaidOut x (bs ++ List.replicate g false) (k + g) where
  length := by rw [List.length_append, List.length_replicate, h.length]
  fits := hg
  getMsbD j := by
    rw [h.getMsbD]
    rcases Nat.lt_or_ge j bs.length with hj | hj
    · rw [List.getD_append _ _ _ _ hj]
    · rw [List.getD_append_right _ _ _ _ hj, List.getD_eq_default _ _ hj,
        List.getD_eq_getElem?_getD, List.getElem?_getD_replicate_default_eq]

/-- **The next field.** -/
theorem LaidOut.place (h : LaidOut x bs k) {w lo : ℕ} (y : BitVec w) (hw : k + w ≤ n)
    (hlo : lo = n - (k + w)) :
    LaidOut (x ||| BitField.place n lo y) (bs ++ onAir y) (k + w) where
  length := by rw [List.length_append, length_onAir, h.length]
  fits := hw
  getMsbD j := by
    have hlen := h.length
    subst hlo hlen
    rw [BitVec.getMsbD_or, h.getMsbD, BitVec.getMsbD_eq_getLsbD, getLsbD_place]
    rcases Nat.lt_or_ge j bs.length with hj | hj
    · have hout : y.getLsbD (n - 1 - j - (n - (bs.length + w))) = false :=
        BitVec.getLsbD_of_ge _ _ (by omega)
      rw [List.getD_append _ _ _ _ hj, hout, Bool.and_false, Bool.and_false, Bool.or_false]
    · rw [List.getD_append_right _ _ _ _ hj, List.getD_eq_default _ _ hj, Bool.false_or, getD_onAir,
        BitVec.getMsbD_eq_getLsbD]
      rcases Nat.lt_or_ge j (bs.length + w) with hjw | hjw
      · have hlt : j < n := by omega
        have hlt' : n - 1 - j < n := by omega
        have hle : n - (bs.length + w) ≤ n - 1 - j := by omega
        have hin : j - bs.length < w := by omega
        have hidx : n - 1 - j - (n - (bs.length + w)) = w - 1 - (j - bs.length) := by omega
        simp only [hlt, hlt', hle, hin, hidx, decide_true, Bool.true_and]
      · have hnot : ¬j - bs.length < w := by omega
        rw [decide_eq_false hnot, Bool.false_and]
        rcases Nat.lt_or_ge j n with hlt | hge
        · have hle : ¬n - (bs.length + w) ≤ n - 1 - j := by omega
          rw [decide_eq_false hle, Bool.and_false, Bool.false_and, Bool.and_false]
        · rw [decide_eq_false (Nat.not_lt.2 hge), Bool.false_and]

/-- The first field. -/
theorem laidOut_place {w lo : ℕ} (y : BitVec w) (hw : w ≤ n) (hlo : lo = n - w) :
    LaidOut (BitField.place n lo y) (onAir y) w := by
  have h : LaidOut (0#n ||| BitField.place n lo y) ([] ++ onAir y) (0 + w) :=
    laidOut_zero.place y (by rwa [Nat.zero_add]) (by rwa [Nat.zero_add])
  rwa [BitVec.zero_or, List.nil_append, Nat.zero_add] at h

/-- A field that may be left out. -/
theorem LaidOut.place_if (h : LaidOut x bs k) {w lo : ℕ} (y : BitVec w) (c : Prop) [Decidable c]
    (hw : c → k + w ≤ n) (hlo : c → lo = n - (k + w)) :
    LaidOut (x ||| if c then BitField.place n lo y else 0#n) (bs ++ if c then onAir y else [])
      (k + if c then w else 0) := by
  by_cases hc : c
  · rw [if_pos hc, if_pos hc, if_pos hc]
    exact h.place y (hw hc) (hlo hc)
  · rw [if_neg hc, if_neg hc, if_neg hc, BitVec.or_zero, List.append_nil]
    exact h

/-- Zeros above a field do not matter. -/
theorem place_setWidth {w v lo : ℕ} (y : BitVec w) (hv : w ≤ v) :
    BitField.place n lo (y.setWidth v) = BitField.place n lo y := by
  refine BitVec.eq_of_getLsbD_eq fun i hi ↦ ?_
  rw [getLsbD_place, getLsbD_place, BitVec.getLsbD_setWidth]
  rcases Nat.lt_or_ge (i - lo) v with hlt | hge
  · rw [decide_eq_true hlt, Bool.true_and]
  · rw [decide_eq_false (Nat.not_lt.2 hge), BitVec.getLsbD_of_ge y _ (by omega), Bool.false_and]

/-- The first bits of a word, as a field. -/
theorem onAir_top {y : BitVec m} {cs : List Bool} (h : LaidOut y cs k) {c : ℕ} (hc : c ≤ k) :
    onAir (y.extractLsb' (m - c) c) = cs.take c := by
  have hlen := h.length
  have hfits := h.fits
  refine List.ext_getElem (by rw [length_onAir, List.length_take]; omega) fun j hj _ ↦ ?_
  have hjc : j < c := by rwa [length_onAir] at hj
  rw [getElem_onAir, List.getElem_take, BitVec.getMsbD_eq_getLsbD, BitVec.getLsbD_extractLsb',
    ← List.getD_eq_getElem cs false (by omega), ← h.getMsbD, BitVec.getMsbD_eq_getLsbD]
  have hlt : j < m := by omega
  have hlt' : c - 1 - j < c := by omega
  have hidx : m - c + (c - 1 - j) = m - 1 - j := by omega
  simp only [hjc, hlt, hlt', hidx, decide_true, Bool.true_and]

/-- A word that is shifted down to its first bits and up to a position places them there. -/
theorem shift_eq_place (y : BitVec m) {c lo : ℕ} (hc : c ≤ m) (hm : m ≤ n) :
    (y.setWidth n >>> (m - c)) <<< lo = BitField.place n lo (y.extractLsb' (m - c) c) := by
  refine BitVec.eq_of_getLsbD_eq fun i hi ↦ ?_
  rw [getLsbD_place, BitVec.getLsbD_shiftLeft, BitVec.getLsbD_ushiftRight, BitVec.getLsbD_setWidth,
    BitVec.getLsbD_extractLsb', decide_eq_true hi, Bool.true_and, Bool.true_and]
  rcases Nat.lt_or_ge i lo with hlt | hge
  · rw [decide_eq_true hlt, decide_eq_false (Nat.not_le.2 hlt)]
    rfl
  · rw [decide_eq_false (Nat.not_lt.2 hge), decide_eq_true hge, Bool.not_false, Bool.true_and,
      Bool.true_and]
    rcases Nat.lt_or_ge (i - lo) c with hic | hic
    · have hin : m - c + (i - lo) < n := by omega
      rw [decide_eq_true hin, decide_eq_true hic]
    · rw [decide_eq_false (Nat.not_lt.2 hic), BitVec.getLsbD_of_ge y _ (by omega), Bool.false_and,
        Bool.and_false]

end TetraPhy.Layout
