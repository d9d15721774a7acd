import Mathlib.Algebra.Order.BigOperators.Group.List
import TetraPhy.Codec.SpeechCode
import TetraPhy.Lib.Permute

/-!
# Puncturing the mother code

`rcpc_punct` keeps some of the mother bits, `rcpc_depunct` and `rcpc_depunct_soft` put what is
received of them back and erase the others.  A puncturer is a table of positions in a period:

| Puncturer     | kept of a period        | for     |
|---------------|-------------------------|---------|
| `rate112_168` | 1, 2, 4 of 6            | class 1 |
| `rate72_162`  | 1 .. 5, 7, 8, 10, 11 of 12 | class 2 |

The decoder relies on three things, which are laws of `Puncturer`: the positions are in the
period, they are different, and the first bit of each three is one of them.
-/

namespace TetraPhy.Speech

open Permute

/-- `puncturer_t`; the table is counted from 1, its first entry is not used. -/
structure Puncturer where
  p : List ℕ
  t : ℕ
  period : ℕ
  three : 3 ∣ period
  bound : ∀ i < t, 1 ≤ p.getD (i + 1) 0 ∧ p.getD (i + 1) 0 ≤ period
  inj : ∀ i < t, ∀ j < t, p.getD (i + 1) 0 = p.getD (j + 1) 0 → i = j
  first : ∀ q < period / 3, ∃ i < t, p.getD (i + 1) 0 = q * 3 + 1

/-- `PUNCT_RATE112_168`. -/
def rate112_168 : Puncturer :=
  ⟨[0, 1, 2, 4], 3, 6, by decide, by decide, by decide, by decide⟩

/-- `PUNCT_RATE72_162`. -/
def rate72_162 : Puncturer :=
  ⟨[0, 1, 2, 3, 4, 5, 7, 8, 10, 11], 9, 12, by decide, by decide, by decide, by decide⟩

namespace Puncturer

variable (pu : Puncturer)

/-- The mother bit that is kept as bit `j`, both counted from 1. -/
def kept (j : ℕ) : ℕ :=
  let blk := (j - 1) / pu.t
  let idx := j - pu.t * blk
  pu.period * blk + pu.p.getD idx 0

/-- The same, both counted from 0. -/
def index (j : ℕ) : ℕ := pu.kept (j + 1) - 1

/-- `rcpc_punct`. -/
def punct (input : List Bool) (outLen : ℕ) : List Bool := gather false outLen pu.index input

section Depunct

variable {α β : Type*} (value : α → β) (erased : β) (d : α)

/-- `rcpc_depunct` and `rcpc_depunct_soft`. -/
def depunct (input : List α) (inputLen outputLen : ℕ) : List β :=
  (List.range inputLen).foldl (fun output j ↦
    if pu.index j < outputLen then output.set (pu.index j) (value (input.getD j d)) else output)
    (List.replicate outputLen erased)

end Depunct

/-! ## The kept positions -/

variable {pu}

/-- Bit `i` of period `blk`. -/
theorem index_eq {i : ℕ} (hi : i < pu.t) (blk : ℕ) :
    pu.index (pu.t * blk + i) = pu.period * blk + (pu.p.getD (i + 1) 0 - 1) := by
  have hblk : (pu.t * blk + i + 1 - 1) / pu.t = blk := by
    rw [Nat.add_sub_cancel, Nat.mul_add_div (by omega), Nat.div_eq_of_lt hi, Nat.add_zero]
  have hidx : pu.t * blk + i + 1 - pu.t * blk = i + 1 := by omega
  have hpos := (pu.bound i hi).1
  rw [index, kept, hblk, hidx, Nat.add_sub_assoc hpos]

/-- A kept bit is one of a period. -/
theorem exists_split {n j : ℕ} (hj : j < pu.t * n) : ∃ blk < n, ∃ i < pu.t, j = pu.t * blk + i := by
  have hpos : 0 < pu.t := Nat.pos_of_ne_zero fun h ↦ by rw [h, Nat.zero_mul] at hj; omega
  exact ⟨j / pu.t, Nat.div_lt_of_lt_mul hj, j % pu.t, Nat.mod_lt _ hpos, (Nat.div_add_mod j _).symm⟩

theorem index_lt {n j : ℕ} (hj : j < pu.t * n) : pu.index j < pu.period * n := by
  obtain ⟨blk, hblk, i, hi, rfl⟩ := exists_split hj
  have hb := pu.bound i hi
  rw [index_eq hi]
  calc pu.period * blk + (pu.p.getD (i + 1) 0 - 1) < pu.period * blk + pu.period := by omega
    _ = pu.period * (blk + 1) := (Nat.mul_succ _ _).symm
    _ ≤ pu.period * n := Nat.mul_le_mul_left _ hblk

/-- The period and the position in it can be read off a kept position. -/
theorem index_inj {n j k : ℕ} (hj : j < pu.t * n) (hk : k < pu.t * n)
    (h : pu.index j = pu.index k) : j = k := by
  obtain ⟨blk, -, i, hi, rfl⟩ := exists_split hj
  obtain ⟨blk', -, i', hi', rfl⟩ := exists_split hk
  have hb := pu.bound i hi
  have hb' := pu.bound i' hi'
  rw [index_eq hi, index_eq hi'] at h
  have hdiv : (pu.period * blk + (pu.p.getD (i + 1) 0 - 1)) / pu.period =
      (pu.period * blk' + (pu.p.getD (i' + 1) 0 - 1)) / pu.period := by rw [h]
  have hmod : (pu.period * blk + (pu.p.getD (i + 1) 0 - 1)) % pu.period =
      (pu.period * blk' + (pu.p.getD (i' + 1) 0 - 1)) % pu.period := by rw [h]
  rw [Nat.mul_add_div (by omega), Nat.mul_add_div (by omega), Nat.div_eq_of_lt (by omega),
    Nat.div_eq_of_lt (by omega), Nat.add_zero, Nat.add_zero] at hdiv
  rw [Nat.mul_add_mod, Nat.mul_add_mod, Nat.mod_eq_of_lt (by omega),
    Nat.mod_eq_of_lt (by omega)] at hmod
  rw [hdiv, pu.inj i hi i' hi' (by omega)]

/-- The first bit of each three is kept. -/
theorem exists_first {n step : ℕ} (h : step * 3 < pu.period * n) :
    ∃ j < pu.t * n, pu.index j = step * 3 := by
  obtain ⟨r, hr⟩ := pu.three
  have hdiv : pu.period / 3 = r := by omega
  have hpos : 0 < r := Nat.pos_of_ne_zero fun h0 ↦ by rw [hr, h0] at h; omega
  have hstep : step < r * n := by rw [hr, Nat.mul_assoc] at h; omega
  obtain ⟨i, hi, hp⟩ := pu.first (step % r) (by rw [hdiv]; exact Nat.mod_lt _ hpos)
  refine ⟨pu.t * (step / r) + i, ?_, ?_⟩
  · calc pu.t * (step / r) + i < pu.t * (step / r + 1) := by rw [Nat.mul_succ]; omega
      _ ≤ pu.t * n := Nat.mul_le_mul_left _ (Nat.div_lt_of_lt_mul hstep)
  · rw [index_eq hi, hp, Nat.add_sub_cancel, hr, Nat.mul_assoc, Nat.mul_comm 3, ← Nat.add_mul,
      Nat.div_add_mod]

/-! ## What depuncturing restores -/

variable {α β : Type*} {value : α → β} {erased : β} {d : α}

@[simp] theorem length_depunct (pu : Puncturer) (input : List α) (n m : ℕ) :
    (pu.depunct value erased d input n m).length = m := by
  rw [depunct]
  refine List.foldlRecOn (motive := fun output : List β ↦ output.length = m) _ _ List.length_replicate
    fun output hlen j _ ↦ ?_
  split
  · rwa [List.length_set]
  · exact hlen

/-- What holds of the erasure and of all that is received holds of the mother bits. -/
theorem forall_mem_depunct (value : α → β) {p : β → Prop} (herased : p erased) (input : List α)
    (h : ∀ j, p (value (input.getD j d))) (pu : Puncturer) (n m : ℕ) :
    ∀ b ∈ pu.depunct value erased d input n m, p b := by
  refine forall_mem_foldl (fun out j hout ↦ ?_) _ fun _ hb ↦ List.eq_of_mem_replicate hb ▸ herased
  split
  · exact forall_mem_set hout _ (h j)
  · exact hout

/-- All that is received of whole periods is stored. -/
theorem depunct_eq (pu : Puncturer) (input : List α) (n : ℕ) :
    pu.depunct value erased d input (pu.t * n) (pu.period * n) =
      (List.range (pu.t * n)).foldl (fun output j ↦
        output.set (pu.index j) (value (input.getD j d)))
        (List.replicate (pu.period * n) erased) := by
  refine List.foldl_ext _ _ _ fun output j hj ↦ ?_
  rw [if_pos (index_lt (List.mem_range.1 hj))]

/-- **The mother bits add up to what was received.** -/
theorem sum_map_depunct {g : β → ℤ} (herased : g erased = 0) (pu : Puncturer) (input : List α)
    (n : ℕ) : ((pu.depunct value erased d input (pu.t * n) (pu.period * n)).map g).sum =
      ((List.range (pu.t * n)).map fun j ↦ g (value (input.getD j d))).sum := by
  have hnil : ((List.replicate (pu.period * n) erased).map g).sum = 0 := by
    rw [List.map_replicate, herased, List.sum_replicate, nsmul_zero]
  rw [depunct_eq, sum_map_foldl_set erased (fun j ↦ value (input.getD j d)) pu.index
    List.nodup_range (fun j hj k hk ↦ index_inj (List.mem_range.1 hj) (List.mem_range.1 hk))
    (fun j hj ↦ by rw [List.length_replicate]; exact index_lt (List.mem_range.1 hj)), hnil,
    zero_add]
  intro j hj
  rw [List.getD_replicate _ (index_lt (List.mem_range.1 hj)), herased]

/-- So they weigh no more. -/
theorem sum_map_depunct_le {g : β → ℤ} (herased : g erased = 0) {input : List α} {A : ℤ}
    (h : ∀ j, g (value (input.getD j d)) ≤ A) (pu : Puncturer) (n : ℕ) :
    ((pu.depunct value erased d input (pu.t * n) (pu.period * n)).map g).sum ≤
      (pu.t * n : ℕ) * A := by
  rw [sum_map_depunct herased]
  have hle := List.sum_le_card_nsmul
    ((List.range (pu.t * n)).map fun j ↦ g (value (input.getD j d))) A fun x hx ↦ by
      obtain ⟨j, -, rfl⟩ := List.mem_map.1 hx
      exact h j
  rwa [List.length_map, List.length_range, nsmul_eq_mul] at hle

/-- The positions that are kept hold what was received, the others are erased. -/
theorem getD_depunct (pu : Puncturer) (input : List α) (n p : ℕ) :
    (∃ j < pu.t * n, pu.index j = p ∧
      (pu.depunct value erased d input (pu.t * n) (pu.period * n)).getD p erased =
        value (input.getD j d)) ∨
      (∀ j < pu.t * n, pu.index j ≠ p) ∧
        (pu.depunct value erased d input (pu.t * n) (pu.period * n)).getD p erased = erased := by
  rw [depunct_eq]
  by_cases hp : ∃ j < pu.t * n, pu.index j = p
  · obtain ⟨j, hj, rfl⟩ := hp
    refine Or.inl ⟨j, hj, rfl, ?_⟩
    exact getD_foldl_set erased (fun j ↦ value (input.getD j d)) pu.index (List.mem_range.2 hj)
      (fun k hk h ↦ index_inj (List.mem_range.1 hk) hj h)
      (by rw [List.length_replicate]; exact index_lt hj)
  · push Not at hp
    refine Or.inr ⟨hp, ?_⟩
    rw [getD_foldl_set_of_forall_ne erased (fun j ↦ value (input.getD j d)) pu.index
      (fun j hj ↦ hp j (List.mem_range.1 hj)), List.getD_eq_getElem?_getD,
      List.getElem?_getD_replicate_default_eq]

end Puncturer

/-! ## Kept bits are heard -/

/-- A soft value that speaks for a bit. -/
def Speaks (b : Bool) (s : Int8) : Prop := |s.toInt| ≤ 8 ∧ if b then 0 < s.toInt else s.toInt < 0

theorem Speaks.agrees {b : Bool} {s : Int8} (h : Speaks b s) : Agrees b s := by
  refine ⟨h.1, ?_⟩
  have hs := h.2
  cases b with
  | false => exact le_of_lt hs
  | true => exact le_of_lt hs

theorem Speaks.ne_zero {b : Bool} {s : Int8} (h : Speaks b s) : s.toInt ≠ 0 := by
  have hs := h.2
  cases b with
  | false => exact ne_of_lt hs
  | true => exact ne_of_gt hs

/-- Its sign is the bit. -/
theorem Speaks.decide_pos {b : Bool} {s : Int8} (h : Speaks b s) : decide (0 < s) = b := by
  have hpos : 0 < s ↔ 0 < s.toInt := Int8.lt_iff_toInt_lt
  have hs := h.2
  cases b with
  | false => exact decide_eq_false fun h0 ↦ absurd (hpos.1 h0) (lt_asymm hs)
  | true => exact decide_eq_true (hpos.2 hs)

theorem agrees_zero (e : Bool) : Agrees e 0 :=
  ⟨by decide, by cases e <;> decide⟩

/-- **Of a punctured word everything is heard that the decoder needs**, if what is received of
the kept bits speaks for them. -/
theorem heard_depunct {α β : Type*} (pu : Puncturer) {n : ℕ} {code : List Bool} {input : List α}
    {value : α → β} {erased : β} {d : α} {soft : β → Int8} (hcode : code.length = pu.period * n)
    (herased : soft erased = 0)
    (h : ∀ j < pu.t * n, Speaks (code.getD (pu.index j) false) (soft (value (input.getD j d)))) :
    Heard code ((pu.depunct value erased d input (pu.t * n) (pu.period * n)).map soft) where
  agrees p _ := by
    rw [← herased, List.getD_map]
    rcases pu.getD_depunct input n p with ⟨j, hj, rfl, hget⟩ | ⟨-, hget⟩
    · rw [hget]
      exact (h j hj).agrees
    · rw [hget, herased]
      exact agrees_zero _
  first step hstep := by
    obtain ⟨k, hk, hfirst⟩ := Puncturer.exists_first (hcode ▸ hstep)
    rw [← herased, List.getD_map]
    rcases pu.getD_depunct input n (step * 3) with ⟨j, hj, -, hget⟩ | ⟨hno, -⟩
    · rw [hget]
      exact (h j hj).ne_zero
    · exact absurd hfirst (hno k hk)

/-- Two words heard in turn are heard as one. -/
theorem Heard.append {code code' : List Bool} {motherBits motherBits' : List Int8} {n : ℕ}
    (h : Heard code motherBits) (h' : Heard code' motherBits') (hcode : code.length = 3 * n)
    (hlen : motherBits.length = code.length) :
    Heard (code ++ code') (motherBits ++ motherBits') where
  agrees p hp := by
    rw [List.length_append] at hp
    rcases Nat.lt_or_ge p code.length with hlt | hge
    · rw [List.getD_append _ _ _ _ hlt, List.getD_append _ _ _ _ (by omega)]
      exact h.agrees p hlt
    · rw [List.getD_append_right _ _ _ _ hge, List.getD_append_right _ _ _ _ (by omega), hlen]
      exact h'.agrees _ (by omega)
  first step hstep := by
    rw [List.length_append] at hstep
    rcases Nat.lt_or_ge (step * 3) code.length with hlt | hge
    · rw [List.getD_append _ _ _ _ (by omega)]
      exact h.first step hlt
    · have hidx : step * 3 - code.length = (step - n) * 3 := by omega
      rw [List.getD_append_right _ _ _ _ (by omega), hlen, hidx]
      exact h'.first (step - n) (by omega)

end TetraPhy.Speech
