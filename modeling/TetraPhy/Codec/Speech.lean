import TetraPhy.Codec.Block
import TetraPhy.Codec.SpeechPuncture

/-!
# The speech channel

TCH/S: a block of 432 bits for two speech frames of 137 bits, `tetra_bs_tch_s.c` with the outer
stages of `tetra_tch_s_codec.c`.  The bits of both frames are sorted into three classes:

| class | bits | protection                                         |
|-------|------|----------------------------------------------------|
| 0     | 102  | none                                               |
| 1     | 112  | the mother code, 168 of 336 bits kept              |
| 2     | 60   | CRC, tail, the mother code, 162 of 216 bits kept   |

One encoder run goes through classes 1 and 2.  The block is interleaved as a matrix of 24 lines
and scrambled.  `tchS_roundTrip` is the result: the decoder for bits and the one for soft values
both return what was encoded.

The memory for the trellis is taken to be there.
-/

namespace TetraPhy.Speech

open Codec Permute

/-! ## The classes -/

/-- `ACELP_BITS`. -/
def acelpBits : ℕ := 137

/-- `CLASS0_POS`. -/
def class0Pos : List ℕ :=
  [35, 36, 37, 38, 39, 40, 41, 42, 43, 47, 48, 56, 61, 62, 63, 64, 65, 66, 67, 68, 69, 70,
    74, 75, 83, 88, 89, 90, 91, 92, 93, 94, 95, 96, 97, 101, 102, 110, 115, 116, 117, 118,
    119, 120, 121, 122, 123, 124, 128, 129, 137]

/-- `CLASS1_POS`. -/
def class1Pos : List ℕ :=
  [58, 85, 112, 54, 81, 108, 135, 50, 77, 104, 131, 45, 72, 99, 126, 55, 82, 109,
    136, 5, 13, 34, 8, 16, 17, 22, 23, 24, 25, 26, 6, 14, 7, 15, 60, 87, 114, 46,
    73, 100, 127, 44, 71, 98, 125, 33, 49, 76, 103, 130, 59, 86, 113, 57, 84, 111]

/-- `CLASS2_POS`. -/
def class2Pos : List ℕ :=
  [18, 19, 20, 21, 31, 32, 53, 80, 107, 134, 1, 2, 3, 4, 9, 10, 11, 12,
    27, 28, 29, 30, 52, 79, 106, 133, 51, 78, 105, 132]

/-- The codec's bits in channel order: the two frames take turns. -/
def channelOrder : List ℕ :=
  (class0Pos ++ class1Pos ++ class2Pos).flatMap fun pos ↦ [pos - 1, acelpBits + (pos - 1)]

/-- `codec_to_channel`. -/
def codecToChannel (codec : List Bool) : List Bool :=
  gather false 274 (fun k ↦ channelOrder.getD k 0) codec

/-- `channel_to_codec`. -/
def channelToCodec (channel : List Bool) : List Bool :=
  scatter false 274 (fun k ↦ channelOrder.getD k 0) channel

theorem classPos_nodup : (class0Pos ++ class1Pos ++ class2Pos).Nodup := by decide +kernel

theorem classPos_range : ∀ pos ∈ class0Pos ++ class1Pos ++ class2Pos, 1 ≤ pos ∧ pos ≤ 137 := by
  decide +kernel

/-- **The classes have every bit once.** -/
theorem channelOrder_nodup : channelOrder.Nodup := by
  rw [channelOrder, List.nodup_flatMap, acelpBits]
  refine ⟨fun pos _ ↦ by simp, classPos_nodup.imp_of_mem fun {p q} hp hq hne ↦ ?_⟩
  obtain ⟨hp1, hp137⟩ := classPos_range p hp
  obtain ⟨hq1, hq137⟩ := classPos_range q hq
  intro k hkp hkq
  simp only [List.mem_cons, List.not_mem_nil, or_false] at hkp hkq
  omega

theorem length_channelOrder : channelOrder.length = 274 := by
  have hpairs : (class0Pos ++ class1Pos ++ class2Pos).length = 137 := by
    rw [List.length_append, List.length_append]
    rfl
  rw [channelOrder, List.length_flatMap]
  simp only [List.length_cons, List.length_nil, List.map_const', List.sum_replicate, hpairs]
  rfl

theorem getD_channelOrder_lt : ∀ k < 274, channelOrder.getD k 0 < 274 := by
  have hall : ∀ p ∈ channelOrder, p < 274 := by
    intro p hp
    obtain ⟨pos, hpos, hmem⟩ := List.mem_flatMap.1 hp
    obtain ⟨h1, h137⟩ := classPos_range pos hpos
    rw [acelpBits] at hmem
    simp only [List.mem_cons, List.not_mem_nil, or_false] at hmem
    omega
  exact fun k _ ↦ getD_of_forall (by decide) hall k

theorem getD_channelOrder_inj :
    ∀ j < 274, ∀ k < 274, channelOrder.getD j 0 = channelOrder.getD k 0 → j = k := by
  intro j hj k hk h
  rw [← length_channelOrder] at hj hk
  rw [List.getD_eq_getElem _ _ hj, List.getD_eq_getElem _ _ hk] at h
  exact (channelOrder_nodup.getElem_inj_iff).1 h

theorem channelToCodec_codecToChannel {codec : List Bool} (h : codec.length = 274) :
    channelToCodec (codecToChannel codec) = codec :=
  scatter_gather false getD_channelOrder_lt getD_channelOrder_inj h

/-! ## The CRC -/

/-- `w[k] ^= 1`. -/
def flipAt (w : List Bool) (k : ℕ) : List Bool := w.set k (!w.getD k false)

/-- One step of the division. -/
def crcStep (w : List Bool) (d : ℕ) : List Bool :=
  if w.getD d false then flipAt (flipAt (flipAt w d) (d - 4)) (d - 7) else w

/-- `speech_crc`. -/
def speechCrc (class2 : List Bool) : List Bool :=
  let w := List.replicate 7 false ++ class2
  let w := ((List.range 60).map (66 - ·)).foldl crcStep w
  let crc := w.take 7
  crc ++ [(class2 ++ crc).foldl xor false]

@[simp] theorem length_crcStep (w : List Bool) (d : ℕ) : (crcStep w d).length = w.length := by
  rw [crcStep]
  split
  · rw [flipAt, flipAt, flipAt, List.length_set, List.length_set, List.length_set]
  · rfl

theorem length_speechCrc (class2 : List Bool) : (speechCrc class2).length = 8 := by
  have hlen : ∀ (ds : List ℕ) (w : List Bool), (ds.foldl crcStep w).length = w.length := by
    intro ds
    induction ds with
    | nil => exact fun _ ↦ rfl
    | cons d ds ih =>
        intro w
        rw [List.foldl_cons, ih, length_crcStep]
  rw [speechCrc, List.length_append, List.length_take, hlen, List.length_append,
    List.length_replicate, List.length_singleton]
  omega

/-! ## The outer stages -/

section Outer

variable {α : Type*}

/-- The matrix of 24 lines and 18 columns: what is written as bit `col * 24 + line` is read at
`line * 18 + col`. -/
def speechIndex (k : ℕ) : ℕ := k % 24 * 18 + k / 24

/-- `tetra_tch_s_interleave_speech`. -/
def interleaveSpeech (input : List Bool) : List Bool := gather false 432 speechIndex input

/-- `tetra_tch_s_deinterleave_speech` and `tetra_tch_s_deinterleave_speech_soft`. -/
def deinterleaveSpeech (d : α) (input : List α) : List α := scatter d 432 speechIndex input

theorem speechIndex_lt : ∀ k < 432, speechIndex k < 432 := by
  intro k hk
  rw [speechIndex]
  omega

theorem speechIndex_inj : ∀ j < 432, ∀ k < 432, speechIndex j = speechIndex k → j = k := by
  intro j hj k hk h
  rw [speechIndex, speechIndex] at h
  omega

end Outer

/-- `next_lfsr_bit` of `tetra_tch_s_codec.c`. -/
def nextLfsrBit (lfsr : UInt32) : UInt32 × Bool :=
  let fb := ((lfsr >>> 0) ^^^ (lfsr >>> 6) ^^^ (lfsr >>> 9) ^^^
    (lfsr >>> 10) ^^^ (lfsr >>> 16) ^^^ (lfsr >>> 20) ^^^
    (lfsr >>> 21) ^^^ (lfsr >>> 22) ^^^ (lfsr >>> 24) ^^^
    (lfsr >>> 25) ^^^ (lfsr >>> 27) ^^^ (lfsr >>> 28) ^^^
    (lfsr >>> 30) ^^^ (lfsr >>> 31)) &&& 1
  ((fb <<< 31) ||| (lfsr >>> 1), fb == 1)

/-- It is the register of the signalling channels. -/
theorem nextLfsrBit_eq (lfsr : UInt32) : nextLfsrBit lfsr = Codec.nextLfsrBit lfsr := by
  rw [nextLfsrBit, Codec.nextLfsrBit]
  simp only [st]
  rw [UInt32.or_comm]
  rfl

/-- The scrambling loops: `flip` is `^= 1` for bits. -/
def scrambleLoop {α : Type*} (flip : α → α) (lfsr : UInt32) : List α → List α
  | [] => []
  | x :: xs => (if (nextLfsrBit lfsr).2 then flip x else x) ::
      scrambleLoop flip (nextLfsrBit lfsr).1 xs

theorem scrambleLoop_eq {α : Type*} (flip : α → α) (lfsr : UInt32) (xs : List α) :
    scrambleLoop flip lfsr xs = scrambleWith flip lfsr xs := by
  induction xs generalizing lfsr with
  | nil => rfl
  | cons x xs ih => rw [scrambleLoop, scrambleWith, ih, nextLfsrBit_eq]

/-- What holds of the values and is kept by the flip holds of the scrambled values. -/
theorem forall_mem_scrambleLoop {α : Type*} {p : α → Prop} {flip : α → α}
    (hflip : ∀ x, p x → p (flip x)) (lfsr : UInt32) {xs : List α} (h : ∀ x ∈ xs, p x) :
    ∀ x ∈ scrambleLoop flip lfsr xs, p x := by
  rw [scrambleLoop_eq]
  exact forall_mem_scrambleWith hflip lfsr h

/-- The register at the start. -/
def lfsrInit (init : UInt32) : UInt32 := if init == 0 then 0xFFFFFFFF else init

/-- `tetra_tch_s_scramble`. -/
def scramble (bits : List Bool) (init : UInt32) : List Bool :=
  scrambleLoop Bool.not (lfsrInit init) bits

/-- The sign flip of `tetra_tch_s_scramble_soft`. -/
def negSoft (s : Int8) : Int8 := if s == Int8.minValue then Int8.maxValue else -s

/-- `tetra_tch_s_scramble_soft`. -/
def scrambleSoft (softs : List Int8) (init : UInt32) : List Int8 :=
  scrambleLoop negSoft (lfsrInit init) softs

theorem length_scramble (bits : List Bool) (init : UInt32) :
    (scramble bits init).length = bits.length := by
  rw [scramble, scrambleLoop_eq, length_scrambleWith]

theorem scramble_scramble (bits : List Bool) (init : UInt32) :
    scramble (scramble bits init) init = bits := by
  rw [scramble, scramble, scrambleLoop_eq, scrambleLoop_eq]
  exact scrambleWith_scrambleWith Bool.not_not _ bits

/-! ## The codec -/

/-- `tetra_bs_tch_s_encode`. -/
def encode (acelp : List Bool) (scrambInit : UInt32) : List Bool :=
  let type1 := codecToChannel acelp
  let class0 := type1.take 102
  let class1 := (type1.drop 102).take 112
  let (mother1, ces) := speechConvEncode {} class1
  let class2 := (type1.drop 214).take 60
  let class2Type2 := class2 ++ speechCrc class2 ++ [false, false, false, false]
  let (mother2, _) := speechConvEncode ces class2Type2
  let type3 := class0 ++ rate112_168.punct mother1 168 ++ rate72_162.punct mother2 162
  scramble (interleaveSpeech type3) scrambInit

/-- The end of both decoders: the CRC check and the codec's order, -1 for a bad frame. -/
def finish (class0 decoded : List Bool) : List Bool × ℤ :=
  let class1 := decoded.take 112
  let class2Data := (decoded.drop 112).take 60
  let receivedCrc := (decoded.drop 172).take 8
  (channelToCodec (class0 ++ class1 ++ class2Data),
    if speechCrc class2Data == receivedCrc then 0 else -1)

/-- Step 7: the soft value of a bit, 0 for an erasure. -/
def softBit : Sym → Int8
  | some false => -1
  | some true => 1
  | none => 0

/-- `tetra_bs_tch_s_decode`. -/
def decode (type5 : List Bool) (scrambInit : UInt32) : List Bool × ℤ :=
  let type4 := scramble type5 scrambInit
  let type3 := deinterleaveSpeech false type4
  let motherClass1 : List Sym := rate112_168.depunct some none false (type3.drop 102) 168 336
  let motherClass2 := rate72_162.depunct some none false (type3.drop 270) 162 216
  let soft := (motherClass1 ++ motherClass2).map softBit
  finish (type3.take 102) (viterbiDecode soft 184)

/-- `tetra_bs_tch_s_decode_softi8`. -/
def decodeSofti8 (softs : List Int8) (scrambInit : UInt32) : List Bool × ℤ :=
  let soft4 := scrambleSoft softs scrambInit
  let soft3 := deinterleaveSpeech 0 soft4
  let class0 := (soft3.take 102).map fun s ↦ decide (0 < s)
  let motherClass1 := rate112_168.depunct id 0 0 (soft3.drop 102) 168 336
  let motherClass2 := rate72_162.depunct id 0 0 (soft3.drop 270) 162 216
  finish class0 (viterbiDecode (motherClass1 ++ motherClass2) 184)

/-! ## Blocks

A block of any bits of class 0 and class 1 and any 68 bits in front of the tail. -/

section Block

variable (class0 class1 type2 : List Bool)

/-- The mother bits of class 1. -/
def mother1 : List Bool := (speechConvEncode {} class1).1

/-- The mother bits of class 2, behind those of class 1. -/
def mother2 : List Bool :=
  (speechConvEncode (speechConvEncode {} class1).2 (type2 ++ [false, false, false, false])).1

/-- The block before interleaving. -/
def block : List Bool :=
  class0 ++ rate112_168.punct (mother1 class1) 168 ++ rate72_162.punct (mother2 class1 type2) 162

/-- The classes have the bits they have to. -/
structure Sized : Prop where
  class0 : class0.length = 102
  class1 : class1.length = 112
  type2 : type2.length = 68

variable {class0 class1 type2}

theorem Sized.length_mother1 (h : Sized class0 class1 type2) : (mother1 class1).length = 336 := by
  rw [mother1, length_speechConvEncode, h.class1]

theorem Sized.length_mother2 (h : Sized class0 class1 type2) : (mother2 class1 type2).length = 216 := by
  rw [mother2, length_speechConvEncode, List.length_append, h.type2]
  rfl

theorem Sized.length_block (h : Sized class0 class1 type2) : (block class0 class1 type2).length = 432 := by
  rw [block, List.length_append, List.length_append, h.class0, Puncturer.punct, Puncturer.punct,
    length_gather, length_gather]

/-- **The encoder's run through both classes.** -/
theorem run_append : (speechConvEncode {} (class1 ++ type2 ++ [false, false, false, false])).1 =
    mother1 class1 ++ mother2 class1 type2 := by
  rw [List.append_assoc, speechConvEncode_append]
  rfl

theorem getD_drop {α : Type*} (xs : List α) (m k : ℕ) (d : α) :
    (xs.drop m).getD k d = xs.getD (m + k) d := by
  rw [List.getD_eq_getElem?_getD, List.getElem?_drop, ← List.getD_eq_getElem?_getD]

/-- The bits of class 1 in the block. -/
theorem Sized.getD_block_class1 (h : Sized class0 class1 type2) {j : ℕ} (hj : j < 168) :
    (block class0 class1 type2).getD (102 + j) false =
      (mother1 class1).getD (rate112_168.index j) false := by
  have h1 : (rate112_168.punct (mother1 class1) 168).length = 168 := length_gather _ _ _ _
  rw [block, List.append_assoc, List.getD_append_right _ _ _ _ (by rw [h.class0]; omega), h.class0,
    Nat.add_sub_cancel_left, List.getD_append _ _ _ _ (by omega), Puncturer.punct,
    getD_gather _ _ _ hj]

/-- The bits of class 2. -/
theorem Sized.getD_block_class2 (h : Sized class0 class1 type2) {j : ℕ} (hj : j < 162) :
    (block class0 class1 type2).getD (270 + j) false =
      (mother2 class1 type2).getD (rate72_162.index j) false := by
  have h1 : (class0 ++ rate112_168.punct (mother1 class1) 168).length = 270 := by
    rw [List.length_append, h.class0, Puncturer.punct, length_gather]
  rw [block, List.getD_append_right _ _ _ _ (by omega), h1, Nat.add_sub_cancel_left,
    Puncturer.punct, getD_gather _ _ _ hj]

/-- **What is heard of both classes is decoded.** -/
theorem Sized.viterbiDecode_heard (h : Sized class0 class1 type2)
    {motherClass1 motherClass2 : List Int8} (h1 : Heard (mother1 class1) motherClass1)
    (h2 : Heard (mother2 class1 type2) motherClass2) (hlen : motherClass1.length = 336) :
    viterbiDecode (motherClass1 ++ motherClass2) 184 =
      class1 ++ type2 ++ [false, false, false, false] := by
  have hm1 := h.length_mother1
  have hboth := h1.append h2 (n := 112) hm1 (by omega)
  rw [← run_append] at hboth
  have hn : (class1 ++ type2).length = 180 := by rw [List.length_append, h.class1, h.type2]
  have hdec := viterbiDecode_transmitted hboth (by rw [hn]; decide)
  rwa [hn] at hdec

theorem speaks_softBit (b : Bool) : Speaks b (softBit (some b)) := by
  cases b <;> exact ⟨by decide, by decide⟩

/-- The decoder for bits, after the outer stages. -/
theorem Sized.viterbiDecode_hard (h : Sized class0 class1 type2) :
    viterbiDecode
      ((rate112_168.depunct some none false ((block class0 class1 type2).drop 102) 168 336 ++
        rate72_162.depunct some none false ((block class0 class1 type2).drop 270) 162 216).map
          softBit) 184 = class1 ++ type2 ++ [false, false, false, false] := by
  have h1 : Heard (mother1 class1) ((rate112_168.depunct some none false
      ((block class0 class1 type2).drop 102) 168 336).map softBit) := by
    refine heard_depunct rate112_168 (n := 56) h.length_mother1 rfl fun j hj ↦ ?_
    rw [getD_drop, h.getD_block_class1 hj]
    exact speaks_softBit _
  have h2 : Heard (mother2 class1 type2) ((rate72_162.depunct some none false
      ((block class0 class1 type2).drop 270) 162 216).map softBit) := by
    refine heard_depunct rate72_162 (n := 18) h.length_mother2 rfl fun j hj ↦ ?_
    rw [getD_drop, h.getD_block_class2 hj]
    exact speaks_softBit _
  rw [List.map_append]
  exact h.viterbiDecode_heard h1 h2 (by rw [List.length_map, Puncturer.length_depunct])

/-- The decoder for soft values, after the outer stages. -/
theorem Sized.viterbiDecode_soft (h : Sized class0 class1 type2) {soft3 : List Int8}
    (hsoft : ∀ k < 432, Speaks ((block class0 class1 type2).getD k false) (soft3.getD k 0)) :
    viterbiDecode (rate112_168.depunct id 0 0 (soft3.drop 102) 168 336 ++
      rate72_162.depunct id 0 0 (soft3.drop 270) 162 216) 184 =
      class1 ++ type2 ++ [false, false, false, false] := by
  have h1 : Heard (mother1 class1)
      ((rate112_168.depunct id 0 0 (soft3.drop 102) 168 336).map id) := by
    refine heard_depunct rate112_168 (n := 56) h.length_mother1 rfl fun j hj ↦ ?_
    have hj : j < 168 := hj
    rw [getD_drop, ← h.getD_block_class1 hj]
    exact hsoft (102 + j) (by omega)
  have h2 : Heard (mother2 class1 type2)
      ((rate72_162.depunct id 0 0 (soft3.drop 270) 162 216).map id) := by
    refine heard_depunct rate72_162 (n := 18) h.length_mother2 rfl fun j hj ↦ ?_
    have hj : j < 162 := hj
    rw [getD_drop, ← h.getD_block_class2 hj]
    exact hsoft (270 + j) (by omega)
  rw [List.map_id] at h1 h2
  exact h.viterbiDecode_heard h1 h2 (Puncturer.length_depunct _ _ _ _)

/-- The bits of class 0 are the signs. -/
theorem Sized.class0_soft (h : Sized class0 class1 type2) {soft3 : List Int8}
    (hlen : soft3.length = 432)
    (hsoft : ∀ k < 432, Speaks ((block class0 class1 type2).getD k false) (soft3.getD k 0)) :
    (soft3.take 102).map (fun s ↦ decide (0 < s)) = class0 := by
  have hclass := h.class0
  refine List.ext_getElem (by rw [List.length_map, List.length_take]; omega) fun k hk _ ↦ ?_
  have hk : k < 102 := by rw [List.length_map, List.length_take] at hk; omega
  have hspeaks := hsoft k (by omega)
  rw [block, List.append_assoc, List.getD_append _ _ _ _ (by omega),
    List.getD_eq_getElem _ _ (by omega), List.getD_eq_getElem _ _ (by omega)] at hspeaks
  rw [List.getElem_map, List.getElem_take]
  exact hspeaks.decide_pos

end Block

/-! ## What the encoder sends -/

section RoundTrip

variable (acelp : List Bool)

/-- The bits of class 0. -/
def sentClass0 : List Bool := (codecToChannel acelp).take 102

/-- The bits of class 1. -/
def sentClass1 : List Bool := ((codecToChannel acelp).drop 102).take 112

/-- The bits of class 2. -/
def sentClass2 : List Bool := ((codecToChannel acelp).drop 214).take 60

/-- The bits of class 2 with the CRC. -/
def sentType2 : List Bool := sentClass2 acelp ++ speechCrc (sentClass2 acelp)

/-- The mother bits of class 1. -/
def sentMother1 : List Bool := (speechConvEncode {} (sentClass1 acelp)).1

/-- The mother bits of class 2. -/
def sentMother2 : List Bool :=
  (speechConvEncode (speechConvEncode {} (sentClass1 acelp)).2
    (sentType2 acelp ++ [false, false, false, false])).1

/-- The block before interleaving. -/
def sentType3 : List Bool :=
  sentClass0 acelp ++ rate112_168.punct (sentMother1 acelp) 168 ++
    rate72_162.punct (sentMother2 acelp) 162

theorem encode_eq (scrambInit : UInt32) :
    encode acelp scrambInit = scramble (interleaveSpeech (sentType3 acelp)) scrambInit := by
  simp only [encode, sentType3, sentMother1, sentMother2, sentType2, sentClass0, sentClass1,
    sentClass2]

theorem length_codecToChannel : (codecToChannel acelp).length = 274 := length_gather _ _ _ _

theorem length_sentClass0 : (sentClass0 acelp).length = 102 := by
  rw [sentClass0, List.length_take, length_codecToChannel]
  rfl

theorem length_sentClass1 : (sentClass1 acelp).length = 112 := by
  rw [sentClass1, List.length_take, List.length_drop, length_codecToChannel]
  rfl

theorem length_sentClass2 : (sentClass2 acelp).length = 60 := by
  rw [sentClass2, List.length_take, List.length_drop, length_codecToChannel]
  rfl

theorem length_sentType2 : (sentType2 acelp).length = 68 := by
  rw [sentType2, List.length_append, length_sentClass2, length_speechCrc]

theorem sized_sent : Sized (sentClass0 acelp) (sentClass1 acelp) (sentType2 acelp) :=
  ⟨length_sentClass0 acelp, length_sentClass1 acelp, length_sentType2 acelp⟩

theorem sentType3_eq :
    sentType3 acelp = block (sentClass0 acelp) (sentClass1 acelp) (sentType2 acelp) := rfl

/-- The classes are the whole block. -/
theorem sent_classes : sentClass0 acelp ++ sentClass1 acelp ++ sentClass2 acelp =
    codecToChannel acelp := by
  have h2 : sentClass2 acelp = ((codecToChannel acelp).drop 102).drop 112 := by
    rw [sentClass2, List.drop_drop, List.take_of_length_le]
    rw [List.length_drop, length_codecToChannel]
  rw [h2, sentClass0, sentClass1, List.append_assoc, List.take_append_drop, List.take_append_drop]

/-! ## What the decoders make of it -/

/-- The end of the decoders, for the bits that were sent. -/
theorem finish_sent {acelp : List Bool} (h : acelp.length = 274) :
    finish (sentClass0 acelp)
      (sentClass1 acelp ++ sentType2 acelp ++ [false, false, false, false]) = (acelp, 0) := by
  have h1 := length_sentClass1 acelp
  have h2 := length_sentClass2 acelp
  have h8 := length_speechCrc (sentClass2 acelp)
  have hdrop1 : (sentClass1 acelp ++ sentType2 acelp ++ [false, false, false, false]).drop 112 =
      sentClass2 acelp ++ (speechCrc (sentClass2 acelp) ++ [false, false, false, false]) := by
    rw [List.append_assoc, ← h1, List.drop_left, sentType2, List.append_assoc]
  have hdrop2 : (sentClass1 acelp ++ sentType2 acelp ++ [false, false, false, false]).drop 172 =
      speechCrc (sentClass2 acelp) ++ [false, false, false, false] := by
    have hsum : (172 : ℕ) = 112 + 60 := rfl
    rw [hsum, ← List.drop_drop, hdrop1, ← h2, List.drop_left]
  have htake1 : (sentClass1 acelp ++ sentType2 acelp ++ [false, false, false, false]).take 112 =
      sentClass1 acelp := by
    rw [List.append_assoc, ← h1, List.take_left]
  have htake2 : (sentClass2 acelp ++ (speechCrc (sentClass2 acelp) ++
      [false, false, false, false])).take 60 = sentClass2 acelp := by
    rw [← h2, List.take_left]
  have htake3 : (speechCrc (sentClass2 acelp) ++ [false, false, false, false]).take 8 =
      speechCrc (sentClass2 acelp) := by
    rw [← h8, List.take_left]
  simp only [finish, hdrop1, hdrop2, htake1, htake2, htake3, beq_self_eq_true, if_true]
  rw [sent_classes, channelToCodec_codecToChannel h]

end RoundTrip

/-! ## The outer stages of soft values -/

/-- A 4-bit soft value of a bit, of any magnitude: positive for a one. -/
def Soft4 (b : Bool) (s : Int8) : Prop :=
  if b then 1 ≤ s.toInt ∧ s.toInt ≤ 7 else -8 ≤ s.toInt ∧ s.toInt ≤ -1

theorem Soft4.speaks {b : Bool} {s : Int8} (h : Soft4 b s) : Speaks b s := by
  cases b with
  | false =>
      obtain ⟨hlo, hhi⟩ : -8 ≤ s.toInt ∧ s.toInt ≤ -1 := h
      have hneg : s.toInt < 0 := by omega
      exact ⟨abs_le.2 ⟨by omega, by omega⟩, hneg⟩
  | true =>
      obtain ⟨hlo, hhi⟩ : 1 ≤ s.toInt ∧ s.toInt ≤ 7 := h
      have hpos : 0 < s.toInt := by omega
      exact ⟨abs_le.2 ⟨by omega, by omega⟩, hpos⟩

/-- The sign flip saturates for the least value only. -/
theorem toInt_negSoft_of_ne {s : Int8} (h : s ≠ Int8.minValue) : (negSoft s).toInt = -s.toInt := by
  have hlo := s.le_toInt
  have hhi := s.toInt_lt
  have hne : s.toInt ≠ -128 := fun hs ↦ h (Int8.toInt_inj.1 hs)
  rw [negSoft, if_neg (by simpa using h), Int8.toInt_neg]
  exact Int.bmod_eq_of_le (by omega) (by omega)

/-- The sign flip of a 4-bit value does not saturate. -/
theorem toInt_negSoft {s : Int8} (h : |s.toInt| ≤ 8) : (negSoft s).toInt = -s.toInt := by
  refine toInt_negSoft_of_ne fun hs ↦ ?_
  rw [hs] at h
  exact absurd h (by decide)

/-- The sign flip adds nothing to a magnitude. -/
theorem abs_toInt_negSoft_le (s : Int8) : |(negSoft s).toInt| ≤ |s.toInt| := by
  by_cases hmin : s = Int8.minValue
  · rw [hmin]
    decide
  · rw [toInt_negSoft_of_ne hmin, abs_neg]

theorem Soft4.flip {b : Bool} {s : Int8} (h : Soft4 (!b) s) : Speaks b (negSoft s) := by
  have hbound := h.speaks.1
  have hneg := toInt_negSoft hbound
  refine ⟨by rw [hneg, abs_neg]; exact hbound, ?_⟩
  rw [hneg]
  have hs := h.speaks.2
  cases b with
  | false =>
      have hpos : 0 < s.toInt := hs
      exact neg_neg_of_pos hpos
  | true =>
      have hneg : s.toInt < 0 := hs
      exact neg_pos_of_neg hneg

/-- **Descrambled soft values speak for the descrambled bits.** -/
theorem speaks_scrambleLoop {lfsr : UInt32} {xs : List Bool} {softs : List Int8}
    (h : List.Forall₂ Soft4 (scrambleLoop Bool.not lfsr xs) softs) :
    List.Forall₂ Speaks xs (scrambleLoop negSoft lfsr softs) := by
  induction xs generalizing lfsr softs with
  | nil =>
      cases h
      exact .nil
  | cons x xs ih =>
      rw [scrambleLoop] at h
      cases h with
      | cons hx hxs =>
          rw [scrambleLoop]
          refine .cons ?_ (ih hxs)
          cases hbit : (nextLfsrBit lfsr).2 with
          | false =>
              rw [hbit] at hx
              exact Soft4.speaks hx
          | true =>
              rw [hbit] at hx
              exact Soft4.flip hx

theorem speaks_getD {xs : List Bool} {softs : List Int8} (h : List.Forall₂ Speaks xs softs) {k : ℕ}
    (hk : k < xs.length) : Speaks (xs.getD k false) (softs.getD k 0) := by
  have hlen := h.length_eq
  rw [List.getD_eq_getElem _ _ hk, List.getD_eq_getElem _ _ (hlen ▸ hk)]
  exact h.get hk (hlen ▸ hk)

/-! ## Round trip -/

section Block

variable {class0 class1 type2 : List Bool}

/-- **A block is decoded from its bits**, -/
theorem Sized.decode_block (h : Sized class0 class1 type2) (scrambInit : UInt32) :
    decode (scramble (interleaveSpeech (block class0 class1 type2)) scrambInit) scrambInit =
      finish class0 (class1 ++ type2 ++ [false, false, false, false]) := by
  have hback : deinterleaveSpeech false (interleaveSpeech (block class0 class1 type2)) =
      block class0 class1 type2 :=
    scatter_gather false speechIndex_lt speechIndex_inj h.length_block
  have hclass0 : (block class0 class1 type2).take 102 = class0 := by
    rw [← h.class0, block, List.append_assoc, List.take_left]
  rw [decode, scramble_scramble, hback, h.viterbiDecode_hard, hclass0]

/-- **and from soft values of them.** -/
theorem Sized.decodeSofti8_block (h : Sized class0 class1 type2) {scrambInit : UInt32}
    {softs : List Int8}
    (hsofts : List.Forall₂ Soft4
      (scramble (interleaveSpeech (block class0 class1 type2)) scrambInit) softs) :
    decodeSofti8 softs scrambInit =
      finish class0 (class1 ++ type2 ++ [false, false, false, false]) := by
  have hlen : (interleaveSpeech (block class0 class1 type2)).length = 432 := length_gather _ _ _ _
  have hspeaks := speaks_scrambleLoop hsofts
  have hsoft3 : ∀ k < 432, Speaks ((block class0 class1 type2).getD k false)
      ((deinterleaveSpeech 0 (scrambleSoft softs scrambInit)).getD k 0) := by
    intro p hp
    obtain ⟨k, hk, rfl⟩ := exists_of_inj speechIndex_lt speechIndex_inj hp
    rw [deinterleaveSpeech, getD_scatter 0 speechIndex_lt speechIndex_inj _ hk,
      ← getD_gather false speechIndex _ hk]
    exact speaks_getD hspeaks (hlen ▸ hk)
  have hlen3 : (deinterleaveSpeech 0 (scrambleSoft softs scrambInit)).length = 432 :=
    length_scatter _ _ _ _
  rw [decodeSofti8, h.viterbiDecode_soft hsoft3, h.class0_soft hlen3 hsoft3]

end Block

theorem length_encode (acelp : List Bool) (scrambInit : UInt32) :
    (encode acelp scrambInit).length = 432 := by
  rw [encode_eq, length_scramble]
  exact length_gather _ _ _ _

/-- **The decoder for bits undoes the encoder.** -/
theorem decode_encode {acelp : List Bool} (h : acelp.length = 274) (scrambInit : UInt32) :
    decode (encode acelp scrambInit) scrambInit = (acelp, 0) := by
  rw [encode_eq, sentType3_eq, (sized_sent acelp).decode_block, finish_sent h]

/-- **The speech channel is lossless.**  Of every pair of speech frames and every seed, the block
that is encoded is decoded without a bad frame indication to the same bits, both from the bits
of the block and from any 4-bit soft values of them that are not 0. -/
theorem tchS_roundTrip (acelp : Vector Bool 274) (scrambInit : UInt32) :
    (encode acelp.toList scrambInit).length = 432 ∧
      decode (encode acelp.toList scrambInit) scrambInit = (acelp.toList, 0) ∧
      ∀ softs : List Int8, List.Forall₂ Soft4 (encode acelp.toList scrambInit) softs →
        decodeSofti8 softs scrambInit = (acelp.toList, 0) := by
  refine ⟨length_encode _ _, decode_encode acelp.length_toList _, fun softs hsofts ↦ ?_⟩
  rw [encode_eq, sentType3_eq] at hsofts
  rw [(sized_sent acelp.toList).decodeSofti8_block hsofts]
  exact finish_sent acelp.length_toList

/-- Silence, received at full scale. -/
theorem tchS_roundTrip_silence :
    decodeSofti8 ((encode (Vector.replicate 274 false).toList 3).map fun b ↦
      if b then 7 else -8) 3 = ((Vector.replicate 274 false).toList, 0) := by
  refine (tchS_roundTrip (Vector.replicate 274 false) 3).2.2 _ ?_
  rw [List.forall₂_map_right_iff]
  refine List.forall₂_same.2 fun b _ ↦ ?_
  cases b <;> exact ⟨by decide, by decide⟩

end TetraPhy.Speech
