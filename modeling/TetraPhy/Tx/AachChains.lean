import TetraPhy.Tx.AachEncoder

/-!
# The three encoders of the AACH

| encoder | how |
|---|---|
| `tetra_aach_rm_encoder.v` | combinational, `aachCoded` |
| `tetra_aach_encoder.v` | the same rows, the mask a bit a cycle |
| `tetra_hal.c` | a table of parities, `tetra_rm3014_compute`, then `aach_scramble` |

**`encoders_agree`**: they send the same 30 bits in the same order.
-/

namespace TetraPhy.Tx

open AirOrder Codec Lmac

/-! ## The software -/

/-- `rm_30_14_gen`. -/
def rm3014Gen : List (List UInt8) :=
  [[1, 0, 0, 1, 1, 0, 1, 1, 0, 1, 1, 0, 0, 0, 0, 0],
    [0, 0, 1, 0, 1, 1, 0, 1, 1, 1, 1, 0, 0, 0, 0, 0],
    [1, 1, 1, 1, 1, 1, 0, 0, 0, 0, 1, 0, 0, 0, 0, 0],
    [1, 1, 1, 0, 0, 0, 0, 0, 0, 0, 1, 1, 1, 1, 0, 0],
    [1, 0, 0, 1, 1, 0, 0, 0, 0, 0, 1, 1, 1, 0, 1, 0],
    [0, 1, 0, 1, 0, 1, 0, 0, 0, 0, 1, 1, 0, 1, 1, 0],
    [0, 0, 1, 0, 1, 1, 0, 0, 0, 0, 1, 0, 1, 1, 1, 0],
    [1, 1, 1, 1, 1, 1, 1, 1, 1, 1, 0, 1, 1, 1, 1, 1],
    [1, 0, 0, 0, 0, 0, 1, 1, 0, 0, 1, 1, 1, 0, 0, 1],
    [0, 1, 0, 0, 0, 0, 1, 0, 1, 0, 1, 1, 0, 1, 0, 1],
    [0, 0, 1, 0, 0, 0, 0, 1, 1, 0, 1, 0, 1, 1, 0, 1],
    [0, 0, 0, 1, 0, 0, 1, 0, 0, 1, 1, 1, 0, 0, 1, 1],
    [0, 0, 0, 0, 1, 0, 0, 1, 0, 1, 1, 0, 1, 0, 1, 1],
    [0, 0, 0, 0, 0, 1, 0, 0, 1, 1, 1, 0, 0, 1, 1, 1]]

/-- One row of `tetra_rm3014_init`: a unit word above, the parities below. -/
def rm3014Row (i : ℕ) (gen : List UInt8) : BitVec 32 :=
  (List.range 16).foldl
    (fun val j ↦ val ||| (gen.getD j 0).toBitVec.setWidth 32 <<< (15 - j)) (1#32 <<< (16 + 13 - i))

/-- `rm_30_14_rows`, as `tetra_rm3014_init` leaves them. -/
def rm3014Rows : List (BitVec 32) := rm3014Gen.mapIdx rm3014Row

/-- `tetra_rm3014_compute`. -/
def rm3014Compute (inWord : UInt16) : BitVec 32 :=
  (List.range 14).foldl
    (fun val i ↦
      if inWord.toNat >>> (13 - i) &&& 1 ≠ 0 then val ^^^ rm3014Rows.getD i 0 else val) 0

/-- `aach_scramble`. -/
def aachScramble (mcc mnc : UInt16) (colourCode : UInt8) (bits : List Bool) : List Bool :=
  let lfsr := ((mcc &&& 0x3FF).toUInt32 <<< 22) ||| ((mnc &&& 0x3FFF).toUInt32 <<< 8) |||
    ((colourCode &&& 0x3F).toUInt32 <<< 2) ||| (3 : UInt32)
  scrambleWith Bool.not (if lfsr == 0 then 0xFFFFFFFF else lfsr) bits

/-- `out30` of `build_aach_capaloc` and `build_aach`, for a word. -/
def aachOut30 (mcc mnc : UInt16) (colourCode : UInt8) (inWord : UInt16) : List Bool :=
  let coded := rm3014Compute inWord
  aachScramble mcc mnc colourCode ((List.range 30).map fun i ↦ (coded >>> (29 - i)).getLsbD 0)

/-! ## The code -/

/-- The software's rows are those of the encoders. -/
theorem rm3014Rows_eq : rm3014Rows = rmRows.map (·.setWidth 32) := by decide +kernel

/-- The loop of the software computes the code. -/
theorem rm3014Compute_eq (w : BitVec 14) :
    rm3014Compute (UInt16.ofBitVec (w.setWidth 16)) = (rmEncodeF w).setWidth 32 := by
  have hbit : ∀ j < 14, (w.setWidth 16).toNat.testBit (13 - j) = w.getMsbD j := by
    intro j hj
    change (w.setWidth 16).getLsbD (13 - j) = _
    rw [BitVec.getLsbD_setWidth, BitVec.getMsbD_eq_getLsbD, decide_eq_true hj,
      decide_eq_true (show 13 - j < 16 by omega)]
  have hloop : rm3014Compute (UInt16.ofBitVec (w.setWidth 16)) =
      (List.range rm3014Rows.length).foldl
        (fun v j ↦ if (w.setWidth 16).toNat.testBit (13 - j) then v ^^^ rm3014Rows.getD j 0 else v)
        0 := by
    rw [rm3014Compute, show rm3014Rows.length = 14 by decide +kernel]
    refine congrArg (List.foldl · 0 (List.range 14)) (funext₂ fun v j ↦ if_congr ?_ rfl rfl)
    rw [Nat.testBit, Nat.and_comm, bne_iff_ne]
    rfl
  refine hloop.trans ((TapRegister.foldl_select _ rm3014Rows 0#32).trans ?_)
  rw [BitVec.zero_xor, rmEncodeF, ← TapRegister.select_setWidth, ← rm3014Rows_eq]
  refine TapRegister.select_congr fun j hj ↦ hbit j ?_
  exact Nat.lt_of_lt_of_eq hj (by decide +kernel)

/-- The bits of a word that is sent from bit 29 on. -/
theorem map_bits_eq (x : BitVec 30) :
    (List.range 30).map (fun i ↦ (x.setWidth 32 >>> (29 - i)).getLsbD 0) = onAir x := by
  refine List.map_congr_left fun i hi ↦ ?_
  have hlt := List.mem_range.1 hi
  rw [BitVec.getLsbD_ushiftRight, BitVec.getLsbD_setWidth, BitVec.getMsbD_eq_getLsbD,
    decide_eq_true hlt, decide_eq_true (show 29 - i + 0 < 32 by omega)]
  rfl

/-! ## The mask -/

/-- The bits that a round of the loop adds are those of the register. -/
theorem take_aachMask (lfsrInit : BitVec 32) {k : ℕ} (hk : k ≤ 30) :
    (onAir (AachEncoder.maskLoop lfsrInit k).2).take k ++
      maskBits (AachEncoder.maskLoop lfsrInit k).1 (30 - k) =
        maskBits (if lfsrInit = 0 then BitVec.allOnes 32 else lfsrInit) 30 := by
  induction k with
  | zero => rfl
  | succ k ih =>
      have hsplit : 30 - k = 30 - (k + 1) + 1 := by omega
      rw [← ih (by omega), AachEncoder.maskLoop_succ, take_onAir_setAir _ _ (by omega), hsplit,
        maskBits, List.append_assoc]
      rfl

theorem onAir_buildLfsrMaskF (lfsrInit : BitVec 32) : onAir (buildLfsrMaskF lfsrInit) =
    maskBits (if lfsrInit = 0 then BitVec.allOnes 32 else lfsrInit) 30 := by
  have hend := take_aachMask lfsrInit (le_refl 30)
  rwa [take_onAir, maskBits, List.append_nil] at hend

/-! ## The seed -/

section

variable {w k : ℕ} (x : BitVec w)

/-- A field that is masked is cut to its width. -/
theorem and_mask (hk : k ≤ w) :
    (x &&& BitVec.ofNat w (2 ^ k - 1)).setWidth 32 = (x.setWidth k).setWidth 32 := by
  have hmask : (2 ^ k - 1) % 2 ^ w = 2 ^ k - 1 := by
    refine Nat.mod_eq_of_lt (Nat.lt_of_lt_of_le ?_ (Nat.pow_le_pow_right (by decide) hk))
    exact Nat.sub_lt (Nat.two_pow_pos k) Nat.one_pos
  apply BitVec.eq_of_toNat_eq
  rw [BitVec.toNat_setWidth, BitVec.toNat_setWidth, BitVec.toNat_setWidth, BitVec.toNat_and,
    BitVec.toNat_ofNat, hmask, Nat.and_two_pow_sub_one_eq_mod]

/-- A field that is shifted within the register keeps its bits. -/
theorem toNat_field {s : ℕ} (h : k + s ≤ 32) :
    ((x.setWidth k).setWidth 32 <<< s).toNat = (x.setWidth k).toNat <<< s := by
  have hlt : (x.setWidth k).toNat <<< s < 2 ^ 32 := by
    rw [Nat.shiftLeft_eq]
    calc (x.setWidth k).toNat * 2 ^ s
        < 2 ^ k * 2 ^ s := Nat.mul_lt_mul_of_pos_right (x.setWidth k).isLt (Nat.two_pow_pos s)
      _ = 2 ^ (k + s) := (Nat.pow_add 2 k s).symm
      _ ≤ 2 ^ 32 := Nat.pow_le_pow_right (by decide) h
  rw [BitVec.toNat_shiftLeft, BitVec.toNat_setWidth_of_le (by omega), Nat.mod_eq_of_lt hlt]

end

/-- The identity that the software's arguments stand for. -/
def cellOf (mcc mnc : UInt16) (colourCode : UInt8) : BitVec 32 :=
  cellInit (mcc.toBitVec.setWidth 10) (mnc.toBitVec.setWidth 14) (colourCode.toBitVec.setWidth 6)

/-- The register that the software starts with is the identity of the cell. -/
theorem seed_eq (mcc mnc : UInt16) (cc : UInt8) :
    ((mcc &&& 0x3FF).toUInt32 <<< 22) ||| ((mnc &&& 0x3FFF).toUInt32 <<< 8) |||
      ((cc &&& 0x3F).toUInt32 <<< 2) ||| (3 : UInt32) = UInt32.ofBitVec (cellOf mcc mnc cc) := by
  have hmcc : (mcc &&& 0x3FF).toBitVec.setWidth 32 = (mcc.toBitVec.setWidth 10).setWidth 32 := by
    rw [UInt16.toBitVec_and]
    exact and_mask (k := 10) _ (by decide)
  have hmnc : (mnc &&& 0x3FFF).toBitVec.setWidth 32 = (mnc.toBitVec.setWidth 14).setWidth 32 := by
    rw [UInt16.toBitVec_and]
    exact and_mask (k := 14) _ (by decide)
  have hcc : (cc &&& 0x3F).toBitVec.setWidth 32 = (cc.toBitVec.setWidth 6).setWidth 32 := by
    rw [UInt8.toBitVec_and]
    exact and_mask (k := 6) _ (by decide)
  rw [← UInt32.toBitVec_inj]
  change (mcc &&& 0x3FF).toBitVec.setWidth 32 <<< 22 |||
    (mnc &&& 0x3FFF).toBitVec.setWidth 32 <<< 8 |||
    (cc &&& 0x3F).toBitVec.setWidth 32 <<< 2 ||| 3#32 = _
  apply BitVec.eq_of_toNat_eq
  rw [hmcc, hmnc, hcc]
  simp only [BitVec.toNat_or, cellOf, cellInit, BitVec.toNat_append, Nat.shiftLeft_or_distrib,
    ← Nat.shiftLeft_add]
  rw [toNat_field _ (by decide), toNat_field _ (by decide), toNat_field _ (by decide)]
  rfl

/-- The seed of a cell ends in two ones, so neither side has to replace it. -/
theorem cellInit_ne_zero (mcc : BitVec 10) (mnc : BitVec 14) (cc : BitVec 6) :
    cellInit mcc mnc cc ≠ 0 := by
  intro h
  have hbit := congrArg (BitVec.getLsbD · 0) h
  rw [cellInit, BitVec.getLsbD_append, if_pos (by decide)] at hbit
  exact absurd hbit (by decide)

/-! ## Agreement -/

/-- **The software sends what the combinational encoder does.** -/
theorem aachOut30_eq (mcc mnc : UInt16) (cc : UInt8) (w : BitVec 14) :
    aachOut30 mcc mnc cc (UInt16.ofBitVec (w.setWidth 16)) =
      onAir (aachCoded w (cellOf mcc mnc cc)) := by
  have hne : cellOf mcc mnc cc ≠ 0 := cellInit_ne_zero _ _ _
  have hseed : ¬ (UInt32.ofBitVec (cellOf mcc mnc cc) == 0) = true := by
    rw [beq_iff_eq, ← UInt32.toBitVec_inj]
    exact hne
  rw [aachOut30, aachScramble, seed_eq, if_neg hseed, rm3014Compute_eq, map_bits_eq, aachCoded,
    onAir_xor, onAir_buildLfsrMaskF, if_neg hne, maskBits_eq, ← zipWith_lfsrBits, length_onAir]

namespace AachEncoder

variable {e : AachEncoder} {info : BitVec 14} {lfsrInit : BitVec 32}

/-- As many cycles as are left finish the block. -/
theorem Working.exec {is : List AachIn} (h : e.Working info lfsrInit) (hlen : is.length = e.left) :
    (Run.exec AachEncoder.step e is).state = .idle ∧
      (Run.exec AachEncoder.step e is).coded = aachCoded info lfsrInit := by
  induction is generalizing e with
  | nil =>
      have hidle : e.state = .idle := idle_of_left hlen.symm h
      exact ⟨hidle, (working_iff_of_idle hidle).1 h⟩
  | cons i is ih =>
      have hbusy : e.state ≠ .idle := by
        intro hidle
        rw [left_of_idle hidle] at hlen
        exact absurd hlen (Nat.succ_ne_zero _)
      obtain ⟨hstep, hleft⟩ := h.step hbusy i
      rw [List.length_cons, ← hleft] at hlen
      exact ih hstep (Nat.succ.inj hlen)

end AachEncoder

/-- Every word can be sent, as a grant for one. -/
theorem exists_start (w : BitVec 14) (lfsrInit : BitVec 32) : ∃ i : AachIn,
    i.encodeStart = true ∧ i.lfsrInit = lfsrInit ∧ ∀ resvHold, i.info resvHold = w :=
  ⟨{ grantPending := true, grantInfo := w, lfsrInit := lfsrInit, encodeStart := true },
    rfl, rfl, fun _ ↦ rfl⟩

/-- **The encoders agree.**  From whatever was encoded before, the clocked encoder has the block of
the combinational one 31 cycles after it was started on a word with a seed, whatever its inputs are
meanwhile, and it can be started so on every word; and the software sends the same bits in the
order of the air, for every cell. -/
theorem encoders_agree (w : BitVec 14) :
    (∀ lfsrInit : BitVec 32, (∃ i : AachIn, i.encodeStart = true ∧ i.lfsrInit = lfsrInit ∧
        ∀ resvHold, i.info resvHold = w) ∧
      ∀ (e : AachEncoder) (i : AachIn) (is : List AachIn), e.state = .idle →
        i.encodeStart = true → i.info e.resvHold = w → i.lfsrInit = lfsrInit → is.length = 31 →
        (Run.exec AachEncoder.step (e.step i) is).state = .idle ∧
          (Run.exec AachEncoder.step (e.step i) is).coded = aachCoded w lfsrInit) ∧
    ∀ (mcc mnc : UInt16) (cc : UInt8),
      aachOut30 mcc mnc cc (UInt16.ofBitVec (w.setWidth 16)) =
        onAir (aachCoded w (cellOf mcc mnc cc)) := by
  refine ⟨fun lfsrInit ↦ ⟨exists_start w lfsrInit, ?_⟩, fun mcc mnc cc ↦ aachOut30_eq mcc mnc cc w⟩
  intro e i is hidle hstart hw hseed hlen
  obtain ⟨hworking, hleft⟩ := AachEncoder.working_start hidle hstart
  rw [hw, hseed] at hworking
  exact hworking.exec (hlen.trans hleft.symm)

/-- The idle traffic word in the cell 262, 1010, 1, from reset. -/
theorem encoders_agree_idle :
    (Run.exec AachEncoder.step
      (({} : AachEncoder).step { grantPending := true, grantInfo := aachTrafficIdle
                                 lfsrInit := cellOf 262 1010 1, encodeStart := true })
      (List.replicate 31 {})).coded = aachCoded aachTrafficIdle (cellOf 262 1010 1) ∧
    aachOut30 262 1010 1 0x3000 = onAir (aachCoded aachTrafficIdle (cellOf 262 1010 1)) :=
  ⟨((encoders_agree aachTrafficIdle).1 _).2 {} _ _ rfl rfl rfl rfl List.length_replicate |>.2,
    (encoders_agree aachTrafficIdle).2 262 1010 1⟩

end TetraPhy.Tx
