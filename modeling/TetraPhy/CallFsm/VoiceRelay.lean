import TetraPhy.CallFsm.SharedTick
import TetraPhy.Codec.Speech
import TetraPhy.Codec.SpeechBest
import TetraPhy.Sw.UlRxMailbox

/-!
# The voice relay

What `tetra_voice_pipe_tick` makes of an uplink burst: it reads 432 soft values from the NUB
mailbox, decodes them as a speech block, encodes the speech bits again and writes the block to the
filler bank of the timeslot it measured.

The block is encoded whatever the verdict was, and with a CRC of its own.  What listeners decode
is thus always a good frame with the bits of the uplink, and the bad frame indication is right
exactly if the best word for the received values carries its CRC (`voiceRelay_iff`).

The counters and the log lines of the diagnosis, with the second decoding they are made from, are
left out.
-/

namespace TetraPhy.CallFsm

open Sw Lmac Permute Speech

/-! ## The burst -/

/-- What a tick reads: registers, the words of the NUB mailbox and the clock. -/
structure NubReads where
  delta : UInt32
  nowMs : UInt32
  nubMs : UInt32
  colourCode : UInt32
  cellCfg1 : UInt32
  nubWord : ℕ → UInt32

/-- A nibble as a signed value. -/
def signExtend4 (nib : UInt32) : Int8 :=
  if nib &&& 0x8 != 0 then (nib ||| 0xF0).toUInt8.toInt8 else nib.toUInt8.toInt8

/-- The soft values in the order of the mailbox, eight a word. -/
def codedSofts (nubWord : ℕ → UInt32) : List Int8 :=
  (List.range 432).map fun codedIdx ↦
    signExtend4 ((nubWord (codedIdx / 8) >>> (4 * (codedIdx % 8)).toUInt32) &&& 0xF)

/-- Where a coded bit is stored: the first on the air is the last in the mailbox. -/
def nubIndex (codedIdx : ℕ) : ℕ := 431 - codedIdx

/-- `read_nub_softs`. -/
def readNubSofts (nubWord : ℕ → UInt32) : List Int8 :=
  scatter 0 432 nubIndex (codedSofts nubWord)

theorem nubIndex_lt : ∀ k < 432, nubIndex k < 432 := by
  intro k _
  rw [nubIndex]
  omega

theorem nubIndex_inj : ∀ j < 432, ∀ k < 432, nubIndex j = nubIndex k → j = k := by
  intro j hj k hk h
  rw [nubIndex, nubIndex] at h
  omega

namespace NubReads

variable (r : NubReads)

/-- `scramb_init`. -/
def scrambInit : UInt32 :=
  let cc := r.colourCode &&& 0x3F
  let mcc := r.cellCfg1 &&& 0x3FF
  let mnc := (r.cellCfg1 >>> 10) &&& 0x3FFF
  ((mcc &&& 0x3FF) <<< 22) ||| ((mnc &&& 0x3FFF) <<< 8) ||| ((cc &&& 0x3F) <<< 2) ||| 3

/-- `softs_in`. -/
def softsIn : List Int8 := readNubSofts r.nubWord

/-- What the codec makes of the burst. -/
def burst : PipeBurst :=
  let (acelp, bfi) := decodeSofti8 r.softsIn r.scrambInit
  let type5Out := encode acelp r.scrambInit
  { delta := r.delta
    nowMs := r.nowMs
    badFrame := bfi != 0
    nubMs := r.nubMs
    type5Out := fun i ↦ type5Out.getD i false }

theorem type5Out_burst : r.burst.type5Out =
    fun i ↦ (encode (decodeSofti8 r.softsIn r.scrambInit).1 r.scrambInit).getD i false := by
  rw [burst]

/-- The burst that is pending, by `REG_VOICE_NUB_READ_STATUS`. -/
def pending (status : UInt32) : Option PipeBurst :=
  if status &&& 0x1 == 0 then none else some r.burst

end NubReads

/-! ## What is decoded -/

/-- The mother bits that are received: the soft values of both classes, 0 for an erasure. -/
def receivedMother (softs : List Int8) (scrambInit : UInt32) : List Int8 :=
  let soft3 := deinterleaveSpeech 0 (scrambleSoft softs scrambInit)
  rate112_168.depunct id 0 0 (soft3.drop 102) 168 336 ++
    rate72_162.depunct id 0 0 (soft3.drop 270) 162 216

/-- The best word for what is received carries its CRC. -/
def CarriesCrc (softs : List Int8) (scrambInit : UInt32) : Prop :=
  ∃ word, BestWord (receivedMother softs scrambInit) 184 word ∧
    speechCrc ((word.drop 112).take 60) = (word.drop 172).take 8

/-- A value of the decoder's range. -/
def Bounded (s : Int8) : Prop := |s.toInt| ≤ 8

instance (s : Int8) : Decidable (Bounded s) := inferInstanceAs (Decidable (_ ≤ _))

theorem bounded_signExtend4 (w : UInt32) : Bounded (signExtend4 (w &&& 0xF)) := by
  have hall : ∀ k : Fin 16, Bounded (signExtend4 (UInt32.ofNat k)) := by decide
  have hlt : (w &&& 0xF).toNat < 16 := by
    rw [UInt32.toNat_and]
    exact Nat.lt_of_le_of_lt Nat.and_le_right (by decide)
  have hw := hall ⟨(w &&& 0xF).toNat, hlt⟩
  rwa [UInt32.ofNat_toNat] at hw

theorem bounded_readNubSofts (nubWord : ℕ → UInt32) : ∀ s ∈ readNubSofts nubWord, Bounded s := by
  refine forall_mem_scatter (by decide) (fun s hs ↦ ?_) _ _
  obtain ⟨codedIdx, -, rfl⟩ := List.mem_map.1 hs
  exact bounded_signExtend4 _

theorem Bounded.negSoft {s : Int8} (h : Bounded s) : Bounded (negSoft s) := by
  rw [Bounded, toInt_negSoft h, abs_neg]
  exact h

theorem bounded_receivedMother {softs : List Int8} (h : ∀ s ∈ softs, Bounded s)
    (scrambInit : UInt32) : ∀ s ∈ receivedMother softs scrambInit, Bounded s := by
  have hzero : Bounded 0 := by decide
  rw [receivedMother]
  have hsoft3 : ∀ s ∈ deinterleaveSpeech 0 (scrambleSoft softs scrambInit), Bounded s :=
    forall_mem_scatter hzero (forall_mem_scrambleLoop (fun _ hs ↦ hs.negSoft) _ h) _ _
  generalize deinterleaveSpeech 0 (scrambleSoft softs scrambInit) = soft3 at hsoft3
  have hdrop : ∀ m j, Bounded (id ((soft3.drop m).getD j 0)) := fun m ↦
    getD_of_forall hzero fun s hs ↦ hsoft3 s (List.mem_of_mem_drop hs)
  rw [List.forall_mem_append]
  exact ⟨Puncturer.forall_mem_depunct id hzero _ (hdrop 102) _ _ _,
    Puncturer.forall_mem_depunct id hzero _ (hdrop 270) _ _ _⟩

theorem length_receivedMother (softs : List Int8) (scrambInit : UInt32) :
    (receivedMother softs scrambInit).length = 3 * 184 := by
  rw [receivedMother, List.length_append, Puncturer.length_depunct, Puncturer.length_depunct]

theorem finish_good_iff (class0 decoded : List Bool) :
    (finish class0 decoded).2 = 0 ↔
      speechCrc ((decoded.drop 112).take 60) = (decoded.drop 172).take 8 := by
  generalize hcrc : speechCrc ((decoded.drop 112).take 60) = crc
  generalize hrecv : (decoded.drop 172).take 8 = recv
  simp only [finish, hcrc, hrecv]
  by_cases hgood : crc = recv
  · simp [hgood]
  · simp [hgood]

/-- **The verdict of the soft decoder.** -/
theorem decodeSofti8_good_iff {softs : List Int8} (h : ∀ s ∈ softs, Bounded s)
    (scrambInit : UInt32) :
    (decodeSofti8 softs scrambInit).2 = 0 ↔ CarriesCrc softs scrambInit := by
  have hbest := viterbiDecode_eq_iff (n := 184) (by decide) (length_receivedMother softs scrambInit)
    (fits_of_small_softs (bounded_receivedMother h scrambInit) (by decide))
  rw [decodeSofti8, finish_good_iff]
  constructor
  · exact fun hcrc ↦ ⟨_, (hbest _).1 rfl, hcrc⟩
  · rintro ⟨word, hword, hcrc⟩
    rw [← (hbest word).2 hword] at hcrc
    exact hcrc

/-! ## The relay -/

/-- The burst of a bank in the order on the air. -/
def bankBurst (m : FillerMailbox) (b : Fin 4) : List Bool :=
  (List.range 432).map fun i ↦ if i < 216 then m.bank b (215 - i) else m.bank b (647 - i)

theorem bankBurst_of_holds {m : FillerMailbox} {b : Fin 4} {type5 : List Bool}
    (hlen : type5.length = 432) (h : m.Holds b fun i ↦ type5.getD i false) :
    bankBurst m b = type5 := by
  refine List.ext_getElem (by rw [bankBurst, List.length_map, List.length_range, hlen])
    fun i hi hi' ↦ ?_
  simp only [bankBurst, List.getElem_map, List.getElem_range]
  rcases Nat.lt_or_ge i 216 with hlow | hhigh
  · have hbit : m.bank b (215 - i) = type5.getD i false := (h.2 i hlow).1
    rw [if_pos hlow, hbit, List.getD_eq_getElem _ _ hi']
  · obtain ⟨j, rfl⟩ := Nat.exists_eq_add_of_le hhigh
    have hj : j < 216 := by omega
    have hidx : 647 - (216 + j) = 431 - j := by omega
    have hbit : m.bank b (431 - j) = type5.getD (216 + j) false := (h.2 j hj).2
    rw [if_neg (by omega), hidx, hbit, List.getD_eq_getElem _ _ hi']

/-- The burst in the filler bank of the measured timeslot after a tick. -/
def relayed (status : UInt32) (r : NubReads) (st : Fsm) : List Bool :=
  bankBurst (voicePipeTick (r.pending status) st).filler
    (FillerMailbox.tsBank (deltaToEtsiTs r.delta))

/-- **A pending burst is encoded again**, whatever the verdict was. -/
theorem relayed_eq {status : UInt32} (hstatus : status &&& 0x1 ≠ 0) (r : NubReads) (st : Fsm) :
    relayed status r st = encode (decodeSofti8 r.softsIn r.scrambInit).1 r.scrambInit := by
  obtain ⟨hlo, hhi⟩ := deltaToEtsiTs_range r.delta
  have hpending : r.pending status = some r.burst := if_neg (by simpa using hstatus)
  rw [relayed, hpending, (shared_voicePipeTick r.burst st).2.2]
  obtain ⟨hholds, -⟩ := st.filler.writes_voiceFillerWriteTs r.burst.type5Out hlo hhi
  rw [r.type5Out_burst] at hholds ⊢
  exact bankBurst_of_holds (length_encode _ _) hholds

theorem length_decodeSofti8 (softs : List Int8) (scrambInit : UInt32) :
    (decodeSofti8 softs scrambInit).1.length = 274 := by
  rw [decodeSofti8, finish, channelToCodec, length_scatter]

/-- **When a bad frame stays one.**  What listeners decode has the speech bits of the received soft
values and is always a good frame; the verdict is that on the soft values exactly if the best word
for them carries its CRC. -/
theorem voiceRelay_iff {status : UInt32} (hstatus : status &&& 0x1 ≠ 0) (r : NubReads) (st : Fsm) :
    decode (relayed status r st) r.scrambInit = ((decodeSofti8 r.softsIn r.scrambInit).1, 0) ∧
      (decode (relayed status r st) r.scrambInit = decodeSofti8 r.softsIn r.scrambInit ↔
        CarriesCrc r.softsIn r.scrambInit) := by
  have hdecode : decode (relayed status r st) r.scrambInit =
      ((decodeSofti8 r.softsIn r.scrambInit).1, 0) := by
    rw [relayed_eq hstatus, decode_encode (length_decodeSofti8 _ _)]
  refine ⟨hdecode, ?_⟩
  have hgood := decodeSofti8_good_iff (bounded_readNubSofts r.nubWord) r.scrambInit
  rw [hdecode, NubReads.softsIn, ← hgood]
  generalize decodeSofti8 (readNubSofts r.nubWord) r.scrambInit = received
  constructor
  · exact fun h ↦ (congrArg Prod.snd h).symm
  · exact fun h ↦ Prod.ext rfl h.symm

/-! ## Received blocks

Any 4-bit values can be received. -/

/-- The words of the mailbox for some soft values. -/
def nubWords (softs : List Int8) (w : ℕ) : UInt32 :=
  packSoft (fun _ ↦ 0) (softs.reverse.map Int8.toInt) 432 (1 + w)

theorem signExtend4_softNibble {s : Int8} (h : -8 ≤ s.toInt ∧ s.toInt ≤ 7) :
    signExtend4 (softNibble s.toInt) = s := by
  have hall : ∀ k : Fin 16, (signExtend4 (softNibble ((k : ℤ) - 8))).toInt = (k : ℤ) - 8 := by decide
  have hk := hall ⟨(s.toInt + 8).toNat, by omega⟩
  have hidx : (((⟨(s.toInt + 8).toNat, by omega⟩ : Fin 16) : ℕ) : ℤ) - 8 = s.toInt := by
    rw [Int.toNat_of_nonneg (by omega)]
    omega
  rw [hidx] at hk
  exact Int8.toInt_inj.1 hk

/-- **Every vector of 4-bit values is read from some words.** -/
theorem readNubSofts_nubWords {softs : List Int8} (hlen : softs.length = 432)
    (h : ∀ s ∈ softs, -8 ≤ s.toInt ∧ s.toInt ≤ 7) : readNubSofts (nubWords softs) = softs := by
  have hcoded : codedSofts (nubWords softs) = softs.reverse := by
    refine List.ext_getElem (by simp [codedSofts, hlen]) fun i hi hi' ↦ ?_
    have hi432 : i < 432 := by rwa [List.length_reverse, hlen] at hi'
    have hnib := nibbleAt_packSoft (fun _ ↦ 0) (softs.reverse.map Int8.toInt) 432 i
    have hsoft : (softs.reverse.map Int8.toInt).getD i 0 = (softs.reverse[i]).toInt := by
      rw [List.getD_eq_getElem _ _ (by simpa using hi'), List.getElem_map]
    rw [if_pos hi432, hsoft] at hnib
    have hzero : ∀ k : ℕ, nibbleAt (0 : UInt32) k = 0 := fun k ↦ by simp [nibbleAt]
    rw [hzero, UInt32.zero_or] at hnib
    simp only [codedSofts, List.getElem_map, List.getElem_range]
    change signExtend4 (nibbleAt (nubWords softs (i / 8)) (i % 8)) = _
    rw [nubWords, hnib]
    exact signExtend4_softNibble (h _ (List.mem_reverse.1 (List.getElem_mem hi')))
  rw [readNubSofts, hcoded]
  refine List.ext_getElem (by rw [length_scatter, hlen]) fun p hp hp' ↦ ?_
  have hback : nubIndex (431 - p) = p := by
    rw [nubIndex]
    omega
  have hget := getD_scatter 0 nubIndex_lt nubIndex_inj softs.reverse (k := 431 - p) (by omega)
  rw [hback] at hget
  rw [← List.getD_eq_getElem _ 0 hp, hget,
    List.getD_eq_getElem _ _ (by rw [List.length_reverse, hlen]; omega), List.getElem_reverse]
  have hidx : softs.length - 1 - (431 - p) = p := by omega
  simp only [hidx]

/-- A block received at full scale, all registers and clocks 0. -/
def atFullScale (type5 : List Bool) : NubReads where
  delta := 0
  nowMs := 0
  nubMs := 0
  colourCode := 0
  cellCfg1 := 0
  nubWord := nubWords (type5.map fun b ↦ if b then 7 else -8)

theorem scrambInit_atFullScale (type5 : List Bool) : (atFullScale type5).scrambInit = 3 := by
  have hzero : ∀ r : NubReads, r.colourCode = 0 → r.cellCfg1 = 0 → r.scrambInit = 3 := by
    intro r hcc hcfg
    simp [NubReads.scrambInit, hcc, hcfg]
  exact hzero _ rfl rfl

/-- What is decoded of such a block. -/
theorem decodeSofti8_atFullScale {class0 class1 type2 type5 : List Bool}
    (h : Sized class0 class1 type2)
    (htype5 : type5 = scramble (interleaveSpeech (block class0 class1 type2)) 3) :
    decodeSofti8 (atFullScale type5).softsIn (atFullScale type5).scrambInit =
      finish class0 (class1 ++ type2 ++ [false, false, false, false]) := by
  have hlen : type5.length = 432 := by
    rw [htype5, length_scramble]
    exact length_gather _ _ _ _
  have hsofts : (atFullScale type5).softsIn = type5.map fun b ↦ if b then 7 else -8 := by
    refine readNubSofts_nubWords (by rw [List.length_map, hlen]) fun s hs ↦ ?_
    obtain ⟨b, -, rfl⟩ := List.mem_map.1 hs
    cases b <;> decide
  rw [hsofts, scrambInit_atFullScale]
  refine h.decodeSofti8_block ?_
  rw [← htype5, List.forall₂_map_right_iff]
  refine List.forall₂_same.2 fun b _ ↦ ?_
  cases b <;> exact ⟨by decide, by decide⟩

/-- Silence, received at full scale, is relayed as silence. -/
theorem relayed_silence :
    decode (relayed 1 (atFullScale (encode (List.replicate 274 false) 3)) {}) 3 =
      (List.replicate 274 false, 0) := by
  have hsoft : decodeSofti8 (atFullScale (encode (List.replicate 274 false) 3)).softsIn
      (atFullScale (encode (List.replicate 274 false) 3)).scrambInit =
        (List.replicate 274 false, 0) := by
    rw [decodeSofti8_atFullScale (sized_sent (List.replicate 274 false)) (encode_eq _ _)]
    exact finish_sent List.length_replicate
  have hgood := (decodeSofti8_good_iff (bounded_readNubSofts _) _).1 (congrArg Prod.snd hsoft)
  have hrelayed := (voiceRelay_iff (by decide : (1 : UInt32) &&& 0x1 ≠ 0)
    (atFullScale (encode (List.replicate 274 false) 3)) {}).2.2 hgood
  rwa [hsoft, scrambInit_atFullScale] at hrelayed

/-- A silent block whose last CRC bit is wrong. -/
def wrongCrc : List Bool :=
  scramble (interleaveSpeech (block (List.replicate 102 false) (List.replicate 112 false)
    (List.replicate 67 false ++ [true]))) 3

/-- **It is relayed as a good frame.** -/
theorem relayed_wrongCrc :
    (decodeSofti8 (atFullScale wrongCrc).softsIn (atFullScale wrongCrc).scrambInit).2 = -1 ∧
      (decode (relayed 1 (atFullScale wrongCrc) {}) (atFullScale wrongCrc).scrambInit).2 = 0 := by
  have hsized : Sized (List.replicate 102 false) (List.replicate 112 false)
      (List.replicate 67 false ++ [true]) := ⟨rfl, rfl, rfl⟩
  constructor
  · rw [decodeSofti8_atFullScale hsized (rfl : wrongCrc = _)]
    decide +kernel
  · rw [relayed_eq (by decide), decode_encode (length_decodeSofti8 _ _)]

end TetraPhy.CallFsm
