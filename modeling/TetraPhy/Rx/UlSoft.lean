import TetraPhy.Lmac.SerialEncoder
import TetraPhy.Rx.StrongSymbols

/-!
# From soft values to a block

What the block decoders of the uplink compute, `tetra_ul_sch_hu_decoder.v` and
`tetra_ul_sch_f_decoder.v` with the dimensions of their channels.  A soft value is a signed byte,
positive for a zero.  The values are descrambled and deinterleaved; of each eight symbols of the
Viterbi decoder three come from them, and the others are erasures (`symbolsOf`); and the CRC is
right if the register of `tetra_crc16.v` comes to its residue.

`ulDecode_full` is the round trip: of a block of full strength, values of 7 or 8, the decoder has
the word that was encoded, for every seed but zero.  `ulCrcOk_take` is that the register has the
verdict of `crc16_check_n`, for right words and wrong ones.
-/

namespace TetraPhy.Rx

open Codec Permute Survivor

attribute [local instance] neZeroViterbi neZeroSymbols

/-! ## Symbols -/

/-- `to_vit_soft`. -/
def toVitSoft (s : BitVec 8) : BitVec 5 :=
  let diff := vitCenter.setWidth 9 - s.signExtend 9
  if diff.slt 0 then 0 else if BitVec.ult 31 diff then 31 else diff.setWidth 5

/-- The four symbols of a stage. -/
theorem forall_symbol {P : Fin 4 → Prop} (h0 : P 0) (h1 : P 1) (h2 : P 2) (h3 : P 3) : ∀ g, P g :=
  Fin.cases h0 (Fin.cases h1 (Fin.cases h2 (Fin.cases h3 fun i ↦ i.elim0)))

/-- `vit_kept_idx_sys` at a bit that is kept. -/
def keptIdx (t : ℕ) (g : Fin 4) : ℕ := 3 * (t / 2) + if t % 2 = 1 then 2 else g.val

/-- The symbol of a stage. -/
def symbolAt (deint : ℕ → BitVec 8) (t : ℕ) (g : Fin 4) : BitVec 5 :=
  if isKept (t % 2 == 1) g then toVitSoft (deint (keptIdx t g)) else vitCenter

/-- The symbols of a block. -/
def symbolsOf (deint : List (BitVec 8)) : List (Fin 4 → BitVec 5) :=
  (List.range (2 * (deint.length / 3))).map fun t ↦ symbolAt (deint.getD · 0) t

theorem length_symbolsOf (deint : List (BitVec 8)) :
    (symbolsOf deint).length = 2 * (deint.length / 3) := by
  rw [symbolsOf, List.length_map, List.length_range]

theorem symbolAt_even (deint : ℕ → BitVec 8) (p : ℕ) (g : Fin 4) : symbolAt deint (2 * p) g =
    if isKept false g then toVitSoft (deint (3 * p + g.val)) else vitCenter := by
  have heven : (2 * p % 2 == 1) = false := by rw [beq_eq_false_iff_ne]; omega
  have hidx : keptIdx (2 * p) g = 3 * p + g.val := by
    rw [keptIdx, if_neg (by omega)]
    omega
  rw [symbolAt, heven, hidx]

theorem symbolAt_odd (deint : ℕ → BitVec 8) (p : ℕ) (g : Fin 4) : symbolAt deint (2 * p + 1) g =
    if isKept true g then toVitSoft (deint (3 * p + 2)) else vitCenter := by
  have hodd : ((2 * p + 1) % 2 == 1) = true := by rw [beq_iff_eq]; omega
  have hidx : keptIdx (2 * p + 1) g = 3 * p + 2 := by
    rw [keptIdx, if_pos (by omega)]
    omega
  rw [symbolAt, hodd, hidx]

/-- What a soft value has to be for a bit. -/
def StrongSoft (e : Bool) (v : BitVec 8) : Prop := Strong e (toVitSoft v)

/-- The three bits that are kept of two stages. -/
theorem keptBits_outputs (s : State) (x y : Bool) (bits : List Bool) :
    keptBits (outputs s (x :: y :: bits)) =
      branchBit s x 0 :: branchBit s x 1 :: branchBit (nextState s x) y 0 ::
        keptBits (outputs (nextState (nextState s x) y) bits) := by
  have hbits : ∀ (s : State) (x : Bool), motherBits (shiftIn s x) =
      [branchBit s x 0, branchBit s x 1, branchBit s x 2, branchBit s x 3] := motherBits_eq
  rw [outputs, outputs, hbits, hbits]
  rfl

/-- **The symbols carry the code word** whose kept bits the soft values are for. -/
theorem carries_map_symbolAt {n p : ℕ} {s : State} {bits : List Bool} (hlen : bits.length = 2 * n)
    {deint : ℕ → BitVec 8} (h : ∀ j (hj : j < (keptBits (outputs s bits)).length),
      StrongSoft (keptBits (outputs s bits))[j] (deint (3 * p + j))) :
    Carries false s bits ((List.range' (2 * p) (2 * n)).map (symbolAt deint)) := by
  induction n generalizing p s bits with
  | zero =>
      rw [List.eq_nil_of_length_eq_zero hlen]
      exact Carries.nil false s
  | succ n ih =>
      obtain ⟨x, y, bits, rfl⟩ : ∃ x y bits', bits = x :: y :: bits' := by
        rcases bits with _ | ⟨x, _ | ⟨y, bits⟩⟩
        case cons.cons => exact ⟨x, y, bits, rfl⟩
        all_goals simp only [List.length_cons, List.length_nil] at hlen; omega
      simp only [List.length_cons] at hlen
      simp only [keptBits_outputs] at h
      have h0 := h 0 (Nat.succ_pos _)
      have h1 := h 1 (Nat.succ_lt_succ (Nat.succ_pos _))
      have h2 := h 2 (Nat.succ_lt_succ (Nat.succ_lt_succ (Nat.succ_pos _)))
      have hrange : List.range' (2 * p) (2 * (n + 1)) =
          2 * p :: (2 * p + 1) :: List.range' (2 * (p + 1)) (2 * n) := rfl
      rw [hrange, List.map_cons, List.map_cons]
      refine Carries.cons ?_ (Carries.cons ?_ (ih (by omega) fun j hj ↦ ?_))
      · simp only [CarriesBit, symbolAt_even]
        exact forall_symbol h0 h1 rfl rfl
      · simp only [CarriesBit, symbolAt_odd]
        exact forall_symbol h2 rfl rfl rfl
      · have hnext := h (j + 3) (Nat.succ_lt_succ (Nat.succ_lt_succ (Nat.succ_lt_succ hj)))
        rwa [show 3 * p + (j + 3) = 3 * (p + 1) + j by omega] at hnext

/-! ## A block -/

/-- A soft value of full strength, positive for a zero. -/
def Full (e : Bool) (v : BitVec 8) : Prop := if e then v = -7 ∨ v = -8 else v = 7 ∨ v = 8

theorem Full.strongSoft {e : Bool} {v : BitVec 8} (h : Full e v) : StrongSoft e v := by
  cases e
  · obtain rfl | rfl := h <;> unfold StrongSoft Strong <;> decide
  · obtain rfl | rfl := h <;> unfold StrongSoft Strong <;> decide

theorem Full.neg {e : Bool} {v : BitVec 8} (h : Full e v) : Full (!e) (-v) := by
  cases e
  · obtain rfl | rfl := h
    · exact Or.inl rfl
    · exact Or.inr rfl
  · obtain rfl | rfl := h
    · exact Or.inl rfl
    · exact Or.inr rfl

/-- Descrambling flips the values as scrambling did the bits. -/
theorem full_scrambleWith {lfsr : UInt32} {bits : List Bool} {softs : List (BitVec 8)}
    (h : List.Forall₂ Full bits softs) :
    List.Forall₂ Full (scrambleWith Bool.not lfsr bits) (scrambleWith Neg.neg lfsr softs) := by
  induction h generalizing lfsr with
  | nil => exact List.Forall₂.nil
  | cons hd _ ih =>
      rw [scrambleWith, scrambleWith]
      refine List.Forall₂.cons ?_ ih
      split
      · exact hd.neg
      · exact hd

/-- Deinterleaving moves the values as it moves the bits. -/
theorem full_deinterleavePerm {bits : List Bool} {softs : List (BitVec 8)}
    (h : List.Forall₂ Full bits softs) (a : ℕ) :
    List.Forall₂ Full (deinterleavePerm bits bits.length a)
      (deinterleavePerm softs bits.length a) := by
  rw [deinterleavePerm, deinterleavePerm, gather, gather, List.forall₂_map_left_iff,
    List.forall₂_map_right_iff, List.forall₂_same]
  intro k hk
  have hlt := permIndex_lt (a := a) (List.mem_range.1 hk)
  rw [List.getD_eq_getElem _ _ hlt, List.getD_eq_getElem _ _ (h.length_eq ▸ hlt)]
  exact (List.forall₂_iff_get.1 h).2 _ hlt _

/-- The scrambler's register, as the decoders load it. -/
def ulSeed (scrambInit : BitVec 32) : BitVec 32 :=
  if scrambInit = 0 then BitVec.allOnes 32 else scrambInit

/-- The values in the order of the code. -/
def ulDeint (c : Channel) (scrambInit : BitVec 32) (softs : List (BitVec 8)) : List (BitVec 8) :=
  deinterleavePerm (scrambleWith Neg.neg (UInt32.ofBitVec (ulSeed scrambInit)) softs) c.coded
    c.factor

/-- The word that the decoders of a channel have of a block. -/
def ulDecode (c : Channel) (scrambInit : BitVec 32) (softs : List (BitVec 8)) : List Bool :=
  decoded (symbolsOf (ulDeint c scrambInit softs))

theorem length_ulDeint (c : Channel) (scrambInit : BitVec 32) (softs : List (BitVec 8)) :
    (ulDeint c scrambInit softs).length = c.coded := length_gather ..

/-- The kept bits of what was encoded come back to where the code has them. -/
theorem full_ulDeint {c : Channel} {info : List Bool} (hinfo : info.length = c.info)
    {scrambInit : BitVec 32} (hseed : scrambInit ≠ 0) {softs : List (BitVec 8)}
    (h : List.Forall₂ Full (c.encodeFrom info (UInt32.ofBitVec scrambInit)) softs) :
    List.Forall₂ Full (keptBits (convR14 (crc16 info ++ List.replicate 4 false)))
      (ulDeint c scrambInit softs) := by
  obtain ⟨n, hn, hcoded⟩ := c.exists_stages
  have hkept : (keptBits (convR14 (crc16 info ++ List.replicate 4 false))).length = c.coded := by
    rw [hcoded]
    refine length_keptBits ?_
    rw [convR14, length_convR14From, List.length_append, length_crc16, List.length_replicate]
    omega
  have hflip : List.Forall₂ Full (scrambleWith Bool.not (UInt32.ofBitVec scrambInit) _) _ :=
    full_scrambleWith h
  rw [Channel.encodeFrom, scrambleWith_scrambleWith Bool.not_not] at hflip
  have hmove := full_deinterleavePerm hflip c.factor
  rw [interleavePerm, length_scatter] at hmove
  rw [← interleavePerm, deinterleavePerm_interleavePerm c.coprime hkept] at hmove
  rwa [ulDeint, ulSeed, if_neg hseed]

/-- **What was encoded is decoded**, at full strength. -/
theorem ulDecode_full {c : Channel} (hcap : 4 * 31 * (c.info + 20) < 65535) {info : List Bool}
    (hinfo : info.length = c.info) {scrambInit : BitVec 32} (hseed : scrambInit ≠ 0)
    {softs : List (BitVec 8)}
    (h : List.Forall₂ Full (c.encodeFrom info (UInt32.ofBitVec scrambInit)) softs) :
    ulDecode c scrambInit softs = crc16 info := by
  obtain ⟨n, hn, hcoded⟩ := c.exists_stages
  have hlen : (crc16 info ++ List.replicate 4 false).length = 2 * n := by
    rw [List.length_append, length_crc16, List.length_replicate]
    omega
  have hdeint := full_ulDeint hinfo hseed h
  have hstages : 2 * ((ulDeint c scrambInit softs).length / 3) = 2 * n := by
    rw [length_ulDeint, hcoded]
    omega
  have hcarries : Carries false 0 (crc16 info ++ List.replicate 4 false)
      (symbolsOf (ulDeint c scrambInit softs)) := by
    rw [symbolsOf, hstages, List.range_eq_range']
    refine carries_map_symbolAt (p := 0) hlen fun j hj ↦ ?_
    have hget := (List.forall₂_iff_get.1 hdeint).2 j
    rw [convR14_eq_outputs] at hget
    have hj' : j < (ulDeint c scrambInit softs).length := by
      rw [← hdeint.length_eq, convR14_eq_outputs]
      exact hj
    have hfull := (hget hj hj').strongSoft
    rw [Nat.mul_zero, Nat.zero_add, List.getD_eq_getElem _ _ hj']
    exact hfull
  refine decoded_of_carries hcarries ?_
  rw [length_symbolsOf, hstages, ← hn, toNat_softMax]
  exact hcap

/-! ## The CRC -/

/-- `CRC_RESIDUE`. -/
def crcResidue : BitVec 16 := 0x1D0F

/-- `crc_ok_sys` over a word. -/
def ulCrcOk (bits : List Bool) : Bool := bits.foldl Lmac.crcNext 0xFFFF == crcResidue

/-- What the register adds up to while it is fed its own complement: it does not depend on what
it held. -/
def complemented : ℕ → BitVec 16
  | 0 => 0
  | k + 1 => complemented k <<< 1 ^^^ if (complemented k).getLsbD 15 then 0 else 0x1021

/-- **One step**: the register and the bit fed cancel. -/
theorem crcNext_complement (r : BitVec 16) {k : ℕ} (hk : k < 16) :
    Lmac.crcNext (r <<< k ^^^ complemented k) (!r.getMsbD k) =
      r <<< (k + 1) ^^^ complemented (k + 1) := by
  have htop : (r <<< k ^^^ complemented k).getLsbD 15 =
      (r.getMsbD k ^^ (complemented k).getLsbD 15) := by
    rw [BitVec.getLsbD_xor, BitVec.getLsbD_shiftLeft, BitVec.getMsbD_eq_getLsbD]
    have hnot : ¬ 15 < k := by omega
    simp [hk, hnot]
  have hbit : ((!r.getMsbD k) ^^ (r.getMsbD k ^^ (complemented k).getLsbD 15)) =
      !(complemented k).getLsbD 15 := by
    cases r.getMsbD k <;> cases (complemented k).getLsbD 15 <;> rfl
  rw [Lmac.crcNext, htop, hbit, complemented, BitVec.shiftLeft_xor_distrib,
    ← BitVec.shiftLeft_add, BitVec.xor_assoc]
  cases (complemented k).getLsbD 15 <;> rfl

/-- **A register that is fed its complement comes to the residue.** -/
theorem foldl_crcNext_complement (r : BitVec 16) :
    ((List.range 16).map fun i ↦ !r.getMsbD i).foldl Lmac.crcNext r = crcResidue := by
  have hrun : ∀ k ≤ 16, ((List.range k).map fun i ↦ !r.getMsbD i).foldl Lmac.crcNext r =
      r <<< k ^^^ complemented k := by
    intro k
    induction k with
    | zero =>
        intro _
        rw [BitVec.shiftLeft_zero]
        exact BitVec.xor_zero.symm
    | succ k ih =>
        intro hk
        rw [List.range_succ, List.map_append, List.foldl_append, ih (Nat.le_of_succ_le hk)]
        exact crcNext_complement r hk
  rw [hrun 16 le_rfl, BitVec.shiftLeft_eq_zero le_rfl, BitVec.zero_xor]
  decide

/-- A register that comes to zero was fed what it held. -/
theorem eq_of_foldl_crcNext {c : BitVec 16} {zs : List Bool} (hlen : zs.length ≤ 16)
    (h : zs.foldl Lmac.crcNext c = 0) : (∀ i < 16 - zs.length, c.getLsbD i = false) ∧
      zs = (List.range zs.length).map c.getMsbD := by
  induction zs generalizing c with
  | nil =>
      have hc : c = 0 := h
      rw [hc]
      exact ⟨fun i _ ↦ BitVec.getLsbD_zero, rfl⟩
  | cons z zs ih =>
      rw [List.length_cons] at hlen ⊢
      obtain ⟨hlow, hzs⟩ := ih (Nat.le_of_succ_le hlen) h
      -- the feedback is the lowest bit of the next state
      have hfb : (z ^^ c.getLsbD 15) = false := by
        have hbit : (Lmac.crcNext c z).getLsbD 0 = (z ^^ c.getLsbD 15) := by
          rw [Lmac.crcNext]
          cases z ^^ c.getLsbD 15 <;> simp
        rw [← hbit]
        exact hlow 0 (by omega)
      have hnext : Lmac.crcNext c z = c <<< 1 := by
        rw [Lmac.crcNext, hfb]
        exact BitVec.xor_zero
      have hz : z = c.getMsbD 0 := by
        rw [BitVec.getMsbD_eq_getLsbD]
        exact bne_eq_false_iff_eq.1 hfb
      rw [hnext] at hlow hzs
      refine ⟨fun i hi ↦ ?_, ?_⟩
      · have hi' := hlow (i + 1) (by omega)
        rw [BitVec.getLsbD_shiftLeft] at hi'
        simpa [show i + 1 < 16 by omega] using hi'
      · rw [List.range_succ_eq_map, List.map_cons, List.map_map, ← hz]
        refine congrArg (z :: ·) (hzs.trans (List.map_congr_left fun i _ ↦ ?_))
        rw [Function.comp_apply, BitVec.getMsbD_shiftLeft, Nat.succ_eq_add_one, Nat.add_comm]

/-- **Nothing else comes to the residue.** -/
theorem foldl_crcNext_eq_residue {r : BitVec 16} {ys : List Bool} (hlen : ys.length = 16) :
    ys.foldl Lmac.crcNext r = crcResidue ↔ ys = (List.range 16).map fun i ↦ !r.getMsbD i := by
  constructor
  · intro h
    have hys : ys.length = ((List.range 16).map fun i ↦ !r.getMsbD i).length := hlen
    have hzero := Lmac.foldl_crcNext_xor r r hys
    rw [h, foldl_crcNext_complement, BitVec.xor_self, BitVec.xor_self] at hzero
    have hnone := (eq_of_foldl_crcNext (by simp [hlen]) hzero).2
    refine List.ext_getElem hys fun i hi hi' ↦ ?_
    have hsame : ∀ z ∈ List.zipWith xor ys ((List.range 16).map fun i ↦ !r.getMsbD i),
        z = false := by
      rw [hnone]
      simp
    refine bne_eq_false_iff_eq.1 (hsame _ (List.mem_iff_getElem.2 ⟨i, ?_, List.getElem_zipWith⟩))
    rw [List.length_zipWith, ← hys, min_self]
    exact hi
  · rintro rfl
    exact foldl_crcNext_complement r

/-- **The two CRC checks agree.** -/
theorem ulCrcOk_take {bits : List Bool} {n : ℕ} (h : n + 16 ≤ bits.length) :
    ulCrcOk (bits.take (n + 16)) = crc16CheckN bits n := by
  have hcrc : crcOf (bits.take n) =
      UInt16.ofBitVec (~~~((bits.take n).foldl Lmac.crcNext 0xFFFF)) := by
    rw [crcOf]
    erw [Lmac.foldl_crcStep]
    rw [← UInt16.toBitVec_inj]
    exact BitVec.xor_allOnes
  have hlen : ((bits.drop n).take 16).length = 16 := by
    rw [List.length_take, List.length_drop]
    omega
  have hbit : ∀ i < 16, crcBit (crcOf (bits.take n)) i =
      !((bits.take n).foldl Lmac.crcNext 0xFFFF).getMsbD i := by
    intro i hi
    rw [hcrc, crcBit_eq _ hi]
    exact (BitVec.getMsbD_not ..).trans (by simp [hi])
  have hfield : (bits.drop n).take 16 = (List.range 16).map fun i ↦ bits.getD (n + i) false := by
    refine List.ext_getElem (by rw [hlen, List.length_map, List.length_range]) fun i hi _ ↦ ?_
    have hi' : n + i < bits.length := by omega
    rw [List.getElem_take, List.getElem_drop, List.getElem_map, List.getElem_range,
      List.getD_eq_getElem _ _ hi']
  rw [List.take_add, ulCrcOk, List.foldl_append, crc16CheckN, Bool.eq_iff_iff, beq_iff_eq,
    foldl_crcNext_eq_residue hlen, hfield, List.map_inj_left, List.all_eq_true]
  refine forall₂_congr fun i hi ↦ ?_
  rw [beq_iff_eq, hbit i (List.mem_range.1 hi)]

/-- A word with its CRC is right. -/
theorem ulCrcOk_crc16 (info : List Bool) : ulCrcOk (crc16 info) = true := by
  have hlen := length_crc16 info
  have hcheck := crc16CheckN_crc16 info []
  rw [List.append_nil, ← ulCrcOk_take hlen.ge] at hcheck
  rwa [List.take_of_length_le hlen.le] at hcheck

end TetraPhy.Rx
