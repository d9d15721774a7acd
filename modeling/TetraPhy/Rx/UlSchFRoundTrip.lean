import TetraPhy.Rx.UlSchFPath

/-!
# The round trip of SCH/F

What the encoder of the downlink makes of a word, captured at full strength, comes out of the
path as that word, with a right CRC; for every word, every seed but zero, and whatever bursts
there were before (`schf_roundTrip`).  With the seed zero the encoder does not scramble, and the
decoder takes all ones in its place: even the word of zeros comes out as another one.
-/

namespace TetraPhy.Rx

open AirOrder Codec Permute Survivor Run

attribute [local instance] neZeroViterbi neZeroSymbols

namespace UlSchFPath

/-- **The round trip.**  From rest, each of a sequence of bursts has one result, a function of that
burst alone; the path is at rest again; and the result of a burst that carries what the encoder,
idle before, has 990 cycles after a start is the word and a right CRC, for every seed but zero. -/
theorem schf_roundTrip {s : UlSchFPath} (h : s.AtRest) {bursts : List NubBurst}
    {ps : List NubPort} (hps : Presents bursts ps) :
    (exec step s ps).AtRest ∧ emitted step result s ps = bursts.map NubBurst.result ∧
      ∀ b ∈ bursts, b.scrambInit ≠ 0 → ∀ (e : Lmac.SchFEncoder) (info : BitVec 268)
        (jobs : List (Lmac.SerialEncoder.Port schf)), e.state = .idle → jobs.length = 990 →
        CarriesBlock b (e.after info b.scrambInit jobs).codedBits →
        b.result = (onAir info, true) := by
  obtain ⟨hrest, hemit⟩ := h.exec_presents hps
  refine ⟨hrest, hemit, fun b _ hseed e info jobs he hjobs hblock ↦ ?_⟩
  have hcoded := (Lmac.SerialEncoder.exec_start (c := schf) (by decide) he info b.scrambInit
    hjobs.le).2 hjobs
  exact result_of_carriesBlock hcoded hseed hblock

/-- The bits of a captured value of full strength. -/
def loudBit (e : Bool) (j : ℕ) : Bool := if e then j != 3 else j % 3 == 0

/-- The capture of a block at full strength. -/
def loudSofts (codedBits : BitVec 432) : BitVec (432 * 4) :=
  (BitVec.ofBoolListLE ((List.range (432 * 4)).map fun k ↦
    loudBit (codedBits.getLsbD (k / 4)) (k % 4))).setWidth (432 * 4)

theorem rawSoft_loudSofts (codedBits : BitVec 432) {i : ℕ} (hi : i < 432) :
    rawSoft (loudSofts codedBits) i = if codedBits.getLsbD i then 7 else -7 := by
  refine BitVec.eq_of_getLsbD_eq fun j hj ↦ ?_
  have hlt : i * 4 + j < 432 * 4 := by omega
  have hbit : (rawSoft (loudSofts codedBits) i).getLsbD j =
      loudBit (codedBits.getLsbD ((i * 4 + j) / 4)) ((i * 4 + j) % 4) := by
    rw [rawSoft, BitVec.getLsbD_extractLsb', decide_eq_true hj, Bool.true_and, loudSofts,
      BitVec.getLsbD_setWidth, decide_eq_true hlt, Bool.true_and, BitVec.getLsbD_ofBoolListLE,
      List.getD_eq_getElem?_getD, List.getElem?_map, List.getElem?_range hlt]
    rfl
  have hfull : ∀ e, ∀ j < 4, loudBit e j = (if e then 7 else -7 : BitVec 4).getLsbD j := by decide
  rw [hbit, show (i * 4 + j) / 4 = i by omega, show (i * 4 + j) % 4 = j by omega]
  exact hfull _ j hj

theorem carriesBlock_loudSofts (codedBits : BitVec 432) (scrambInit : BitVec 32) :
    CarriesBlock ⟨loudSofts codedBits, scrambInit⟩ codedBits := by
  intro i hi
  rw [rawSoft_loudSofts codedBits hi, FullNub]
  split
  · rfl
  · exact Or.inl rfl

/-- A burst, and the cycles it takes. -/
def feed (b : NubBurst) : List NubPort :=
  ⟨true, b.softs, b.scrambInit⟩ :: List.replicate busy ⟨false, 0, b.scrambInit⟩

/-- Any sequence of bursts can come in. -/
theorem presents_feed (bursts : List NubBurst) :
    Presents bursts (bursts.flatMap feed) := by
  induction bursts with
  | nil => exact Presents.nil
  | cons b bursts ih =>
      rw [List.flatMap_cons, feed]
      refine Presents.burst rfl rfl List.length_replicate (fun q hq ↦ ?_) ih
      rw [List.eq_of_mem_replicate hq]
      exact ⟨rfl, rfl⟩

theorem atRest_reset : ({} : UlSchFPath).AtRest :=
  ⟨⟨rfl, rfl⟩, ⟨⟨⟨rfl, rfl, rfl⟩, rfl⟩, rfl⟩⟩

/-- The block of the word of zeros, at full strength. -/
def zerosBurst (scrambInit : BitVec 32) : NubBurst where
  softs := loudSofts (Lmac.SchFEncoder.after {} 0 scrambInit Lmac.SchFEncoder.quietJob).codedBits
  scrambInit := scrambInit

/-- Two bursts from reset, of which the first is silence. -/
theorem schf_roundTrip_zeros :
    emitted step result {} ([⟨0, 3⟩, zerosBurst 3].flatMap feed) =
      [NubBurst.result ⟨0, 3⟩, (onAir 0#268, true)] := by
  obtain ⟨-, hemit, hword⟩ := schf_roundTrip atRest_reset
    (presents_feed [⟨0, 3⟩, zerosBurst 3])
  have hzeros := hword (zerosBurst 3) (List.mem_cons_of_mem _ (List.mem_cons_self ..)) (by decide)
    {} 0 Lmac.SchFEncoder.quietJob rfl List.length_replicate (carriesBlock_loudSofts _ _)
  rw [hemit, List.map_cons, List.map_singleton, hzeros]
  rfl

/-! ## The seed zero -/

/-- The symbols of a first stage of two, -/
theorem symbolAt_two_mul (deint : ℕ → BitVec 8) (p : ℕ) : symbolAt deint (2 * p) =
    ![toVitSoft (deint (3 * p)), toVitSoft (deint (3 * p + 1)), vitCenter, vitCenter] := by
  funext g
  rw [symbolAt_even]
  revert g
  exact forall_symbol rfl rfl rfl rfl

/-- and of a second one. -/
theorem symbolAt_two_mul_add_one (deint : ℕ → BitVec 8) (p : ℕ) : symbolAt deint (2 * p + 1) =
    ![toVitSoft (deint (3 * p + 2)), vitCenter, vitCenter, vitCenter] := by
  funext g
  rw [symbolAt_odd]
  revert g
  exact forall_symbol rfl rfl rfl rfl

/-- A register of zeros delivers zeros. -/
theorem scrambleWith_zero (bits : List Bool) : scrambleWith Bool.not 0 bits = bits := by
  have hstep : nextLfsrBit 0 = (0, false) := by decide
  induction bits with
  | nil => rfl
  | cons b bits ih =>
      rw [scrambleWith, hstep, ih]
      rfl

/-- The code word of the word of zeros. -/
def zerosCode : List Bool :=
  keptBits (convR14 (crc16 (List.replicate 268 false) ++ List.replicate 4 false))

theorem zerosCode_prefix : zerosCode.take 62 = List.replicate 62 false := by decide +kernel

/-- The scrambling sequence of the seed of ones. -/
def onesSequence : BitVec 359 :=
  0x33379f0ed57cebb914eb9fece62ee5f8f7089745ef4bdc5d13bc7173110d0f2b4a8f41129e338ad17c9ad141e3#359

theorem maskBits_ones : Lmac.maskBits (BitVec.allOnes 32) 359 = onAir onesSequence := by
  decide +kernel

theorem maskBits_eq_map (lfsr : BitVec 32) (j n : ℕ) :
    Lmac.maskBits (Lmac.lfsrNext^[j] lfsr) n =
      (List.range' j n).map fun j ↦ Lmac.lfsrFb (Lmac.lfsrNext^[j] lfsr) := by
  induction n generalizing j with
  | zero => rfl
  | succ n ih =>
      rw [Lmac.maskBits, ← Function.iterate_succ_apply' Lmac.lfsrNext, ih, List.range'_succ,
        List.map_cons]

theorem lfsrFb_ones {j : ℕ} (hj : j < 359) :
    Lmac.lfsrFb (Lmac.lfsrNext^[j] (BitVec.allOnes 32)) = onesSequence.getMsbD j := by
  have hall := congrArg (fun l ↦ l.getD j false)
    ((maskBits_eq_map (BitVec.allOnes 32) 0 359).symm.trans maskBits_ones)
  simp only [← List.range_eq_range', getD_onAir] at hall
  rwa [List.getD_eq_getElem?_getD, List.getElem?_map, List.getElem?_range hj] at hall

section Unseeded

variable {x : BitVec 432} (hx : onAir x = interleavePerm zerosCode 432 103)

include hx

/-- Some of its values, as the decoder moves them: all that is in them is the scrambling sequence
of the seed of ones. -/
theorem moved_unseeded {k : ℕ} (hk : k < 62) :
    moved (BitVec.allOnes 32) (onAirSoft (loudSofts x)) k =
      if Lmac.lfsrFb (Lmac.lfsrNext^[permIndex 432 103 k] (BitVec.allOnes 32)) then -7 else 7 := by
  have hlt : permIndex 432 103 k < 432 := permIndex_lt (by omega)
  have hzero : zerosCode.getD k false = false := by
    have hget : (zerosCode.take 62).getD k false = zerosCode.getD k false := by
      rw [List.getD_eq_getElem?_getD, List.getD_eq_getElem?_getD, List.getElem?_take_of_lt hk]
    rw [← hget, zerosCode_prefix, List.getD_replicate _ hk]
  have hbit : x.getLsbD (431 - permIndex 432 103 k) = false := by
    have hmsb := getD_onAir x (permIndex 432 103 k)
    rw [hx, BitVec.getMsbD_eq_getLsbD, decide_eq_true hlt, Bool.true_and] at hmsb
    have hget : (interleavePerm zerosCode 432 103).getD (permIndex 432 103 k) false =
        zerosCode.getD k false := getD_interleavePerm (by decide) zerosCode (by omega)
    exact hmsb.symm.trans (hget.trans hzero)
  have hsoft : onAirSoft (loudSofts x) (permIndex 432 103 k) = 7 := by
    rw [onAirSoft, rawSoft_loudSofts _ (by omega), hbit]
    rfl
  rw [moved, descrambled, hsoft]

/-- The symbols of five stages: all of them but one are for ones. -/
def windowSymbols : List (Fin 4 → BitVec 5) :=
  [![23, 23, 16, 16], ![9, 16, 16, 16], ![23, 23, 16, 16], ![23, 16, 16, 16], ![23, 23, 16, 16]]

theorem symbols_window : (List.range' 36 5).map
    (symbolAt (moved (BitVec.allOnes 32) (onAirSoft (loudSofts x)))) = windowSymbols := by
  generalize hdeint : moved (BitVec.allOnes 32) (onAirSoft (loudSofts x)) = deint
  have hstrong : ∀ {k : ℕ} (e : Bool), k < 62 → permIndex 432 103 k < 359 →
      onesSequence.getMsbD (permIndex 432 103 k) = e →
      toVitSoft (deint k) = if e then 23 else 9 := by
    intro k e hk hlt he
    rw [← hdeint, moved_unseeded hx hk, lfsrFb_ones hlt, he]
    cases e <;> rfl
  have hone : ∀ {k : ℕ}, k < 62 → permIndex 432 103 k < 359 →
      onesSequence.getMsbD (permIndex 432 103 k) = true → toVitSoft (deint k) = 23 :=
    hstrong true
  rw [show List.range' 36 5 = [2 * 18, 2 * 18 + 1, 2 * 19, 2 * 19 + 1, 2 * 20] from rfl,
    List.map_cons, List.map_cons, List.map_cons, List.map_cons, List.map_singleton,
    symbolAt_two_mul, symbolAt_two_mul, symbolAt_two_mul, symbolAt_two_mul_add_one,
    symbolAt_two_mul_add_one]
  rw [hone (show 3 * 18 < 62 by decide) (by decide) (by decide +kernel),
    hone (show 3 * 18 + 1 < 62 by decide) (by decide) (by decide +kernel),
    hstrong false (show 3 * 18 + 2 < 62 by decide) (by decide) (by decide +kernel),
    hone (show 3 * 19 < 62 by decide) (by decide) (by decide +kernel),
    hone (show 3 * 19 + 1 < 62 by decide) (by decide) (by decide +kernel),
    hone (show 3 * 19 + 2 < 62 by decide) (by decide) (by decide +kernel),
    hone (show 3 * 20 < 62 by decide) (by decide) (by decide +kernel),
    hone (show 3 * 20 + 1 < 62 by decide) (by decide) (by decide +kernel)]
  rfl

/-- **The decoder does not have the word of zeros**: on these stages a word with a single one is
cheaper. -/
theorem ulDecode_unseeded :
    (ulDecode schf 0 ((List.range 432).map (onAirSoft (loudSofts x)))).take 268 ≠
      List.replicate 268 false := by
  rw [ulDecode, ulDeint_map_range, symbolsOf_map_range]
  generalize hdeint : moved (ulSeed 0) (onAirSoft (loudSofts x)) = deint
  have hwindow : (List.range' 36 5).map (symbolAt deint) = windowSymbols :=
    hdeint ▸ symbols_window hx
  intro hzeros
  have hfirst := isFirst_tracedBits (by decide) (cannotReach_of_lt
    (show 4 * (softMax 5).toNat * (symbolsTo deint 288).length < 65535 by
      rw [length_symbolsTo]; decide))
  have hsplit : (symbolsTo deint 288).map stageCost =
      ((List.range' 0 36).map (symbolAt deint)).map stageCost ++ windowSymbols.map stageCost ++
        ((List.range' 41 247).map (symbolAt deint)).map stageCost := by
    rw [← hwindow, ← List.map_append, ← List.map_append, ← List.map_append, ← List.map_append,
      List.range'_append_1, List.range'_append_1, symbolsTo, List.range_eq_range']
  have hbits : tracedBits (symbolsTo deint 288) = List.replicate 36 false ++
      List.replicate 5 false ++ (tracedBits (symbolsTo deint 288)).drop 41 := by
    have htake : (tracedBits (symbolsTo deint 288)).take 41 = List.replicate 41 false := by
      rw [decoded, length_symbolsTo, List.take_take] at hzeros
      have hless := congrArg (List.take 41) hzeros
      rwa [List.take_take, List.take_replicate] at hless
    rw [← List.replicate_add, ← htake, List.take_append_drop]
  have hstart : r14.endState 0 (List.replicate 36 false) = 0 := by decide +kernel
  have hlen : (List.replicate 36 false).length =
      (((List.range' 0 36).map (symbolAt deint)).map stageCost).length := by
    rw [List.length_replicate, List.length_map, List.length_map, List.length_range']
  rw [hsplit, hbits] at hfirst
  have hle := hfirst.pathCost_le hlen (List.length_replicate)
    (show [true, false, false, false, false].length = (windowSymbols.map stageCost).length from rfl)
    (by rw [hstart]; decide)
  rw [hstart] at hle
  exact absurd hle (by decide)

end Unseeded

/-- Without a seed the word of zeros does not come back. -/
theorem not_schf_roundTrip_unseeded :
    emitted step result {} (feed (zerosBurst 0)) ≠ [(onAir 0#268, true)] := by
  have hlen : Lmac.SchFEncoder.quietJob.length = 990 := List.length_replicate
  have hblock := (Lmac.SerialEncoder.exec_start (c := schf) (e := {}) (by decide) rfl 0 0
    hlen.le).2 hlen
  have hinfo : onAir (0 : BitVec schf.info) = List.replicate 268 false := onAir_zero
  rw [hinfo, Channel.encodeFrom] at hblock
  have hcoded : onAir (Lmac.SchFEncoder.after {} 0 0 Lmac.SchFEncoder.quietJob).codedBits =
      interleavePerm zerosCode 432 103 := hblock.trans (scrambleWith_zero _)
  have hpath := (atRest_reset.exec_presents (presents_feed [zerosBurst 0])).2
  rw [List.flatMap_singleton] at hpath
  rw [hpath, List.map_singleton]
  intro heq
  have hresult : (zerosBurst 0).result = (onAir 0#268, true) := List.singleton_inj.1 heq
  simp only [NubBurst.result, UlSchFDecoder.resultOf, zerosBurst, Prod.mk.injEq, onAir_zero]
    at hresult
  exact ulDecode_unseeded hcoded hresult.1

end UlSchFPath

end TetraPhy.Rx
