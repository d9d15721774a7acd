import TetraPhy.CallFsm.VoiceRelay
import TetraPhy.Codec.SpeechOverflow

/-!
# The range of the soft values

`tetra_bs_tch_s_decode_softi8` takes soft values of eight bits.  Of a block 330 values reach the
decoder of the mother code, so that magnitudes up to 99 cannot make a metric run over
(`moderate_of_tolerated`), and those the relay reads, of four bits, are far from it
(`decodesBest_softsIn`).  Magnitudes from 100 on can: a block of zeros is enough
(`not_moderate_zeros`).  The decoder is then no longer the one with unbounded metrics.
-/

namespace TetraPhy.CallFsm

open Permute Speech

section Received

variable (softs : List Int8) (scrambInit : UInt32)

/-- The bits of class 0 that are received. -/
def receivedClass0 : List Bool :=
  ((deinterleaveSpeech 0 (scrambleSoft softs scrambInit)).take 102).map fun s ↦ decide (0 < s)

/-- What the stages of `viterbi_decode` receive. -/
def receivedStages : List Recv := (List.range 184).map (recvAt (receivedMother softs scrambInit))

theorem receivedMother_eq : receivedMother softs scrambInit =
    rate112_168.depunct id 0 0
        ((deinterleaveSpeech 0 (scrambleSoft softs scrambInit)).drop 102) 168 336 ++
      rate72_162.depunct id 0 0
        ((deinterleaveSpeech 0 (scrambleSoft softs scrambInit)).drop 270) 162 216 := rfl

theorem decodeSofti8_eq : decodeSofti8 softs scrambInit = finish (receivedClass0 softs scrambInit)
    (viterbiDecode (receivedMother softs scrambInit) 184) := rfl

/-- **The decoder is that of the unbounded metrics**: no metric leaves the 16 bits, and the word of
the largest correlation is returned. -/
structure DecodesBest : Prop where
  fits : Fits initialMetrics (receivedStages softs scrambInit)
  best : ∃ word, BestWord (receivedMother softs scrambInit) 184 word ∧
    unboundedDecode (receivedMother softs scrambInit) 184 = word ∧
    decodeSofti8 softs scrambInit = finish (receivedClass0 softs scrambInit) word

variable {softs scrambInit}

theorem DecodesBest.moderate (h : DecodesBest softs scrambInit) :
    Moderate (receivedMother softs scrambInit) 184 :=
  (fits_initialMetrics_iff (length_receivedMother softs scrambInit)).1 h.fits

theorem decodesBest_of_moderate (h : Moderate (receivedMother softs scrambInit) 184) :
    DecodesBest softs scrambInit := by
  have hlen := length_receivedMother softs scrambInit
  have hfits := (fits_initialMetrics_iff hlen).2 h
  refine ⟨hfits, _, (unboundedDecode_eq_iff (by decide) hlen _).1 rfl, rfl, ?_⟩
  rw [decodeSofti8_eq, viterbiDecode_eq hfits]
  rfl

/-- **When the soft decoder can be trusted**: exactly if no code word correlates with the received
values by more than a metric can hold. -/
theorem decodesBest_iff (softs : List Int8) (scrambInit : UInt32) :
    DecodesBest softs scrambInit ↔ Moderate (receivedMother softs scrambInit) 184 :=
  ⟨DecodesBest.moderate, decodesBest_of_moderate⟩

end Received

/-! ## Small magnitudes -/

/-- A value that is small enough for every block. -/
def Tolerated (s : Int8) : Prop := |s.toInt| ≤ 99

instance (s : Int8) : Decidable (Tolerated s) := inferInstanceAs (Decidable (_ ≤ _))

theorem Tolerated.negSoft {s : Int8} (h : Tolerated s) : Tolerated (negSoft s) :=
  (abs_toInt_negSoft_le s).trans h

/-- **Magnitudes up to 99 are moderate.** -/
theorem moderate_of_tolerated {softs : List Int8} (h : ∀ s ∈ softs, Tolerated s)
    (scrambInit : UInt32) : Moderate (receivedMother softs scrambInit) 184 := by
  intro xs _
  have hzero : Tolerated 0 := by decide
  have hsoft3 : ∀ s ∈ deinterleaveSpeech 0 (scrambleSoft softs scrambInit), Tolerated s :=
    forall_mem_scatter hzero (forall_mem_scrambleLoop (fun _ hs ↦ hs.negSoft) _ h) _ _
  refine (correlation_le _ _).trans ?_
  rw [receivedMother_eq]
  generalize deinterleaveSpeech 0 (scrambleSoft softs scrambInit) = soft3 at hsoft3
  have hdrop : ∀ m j, Tolerated ((soft3.drop m).getD j 0) := fun m ↦
    getD_of_forall hzero fun s hs ↦ hsoft3 s (List.mem_of_mem_drop hs)
  have hclass : ∀ (pu : Puncturer) (m n : ℕ), ((pu.depunct id 0 0 (soft3.drop m) (pu.t * n)
      (pu.period * n)).map fun s : Int8 ↦ |s.toInt|).sum ≤ (pu.t * n : ℕ) * 99 := by
    intro pu m n
    refine Puncturer.sum_map_depunct_le (g := fun s : Int8 ↦ |s.toInt|) rfl (fun j ↦ ?_) pu n
    rw [id]
    exact hdrop m j
  rw [List.map_append, List.sum_append]
  calc _ ≤ ((168 : ℕ) * 99 : ℤ) + (162 : ℕ) * 99 :=
        add_le_add (hclass rate112_168 102 56) (hclass rate72_162 270 18)
    _ ≤ 32768 := by decide

/-- **The relay is safe.** -/
theorem decodesBest_softsIn (r : NubReads) : DecodesBest r.softsIn r.scrambInit :=
  decodesBest_of_moderate (moderate_of_tolerated (fun s hs ↦
    (bounded_readNubSofts r.nubWord s hs).trans (by decide)) r.scrambInit)

/-! ## Large ones -/

theorem negSoft_negSoft {s : Int8} (h : s ≠ Int8.minValue) : negSoft (negSoft s) = s := by
  have hneg := toInt_negSoft_of_ne h
  have hlo := s.toInt_lt
  have hne : negSoft s ≠ Int8.minValue := fun he ↦ by
    rw [he] at hneg
    have hmin : Int8.minValue.toInt = -128 := rfl
    omega
  rw [← Int8.toInt_inj, toInt_negSoft_of_ne hne, hneg, neg_neg]

/-- Scrambling twice does nothing to values that can be negated. -/
theorem scrambleSoft_scrambleSoft {softs : List Int8} (h : ∀ s ∈ softs, s ≠ Int8.minValue)
    (init : UInt32) : scrambleSoft (scrambleSoft softs init) init = softs := by
  rw [scrambleSoft, scrambleSoft]
  generalize lfsrInit init = lfsr
  induction softs generalizing lfsr with
  | nil => rfl
  | cons s softs ih =>
      rw [List.forall_mem_cons] at h
      rw [scrambleLoop, scrambleLoop, ih h.2]
      congr 1
      split
      · exact negSoft_negSoft h.1
      · rfl

/-- Whole periods of equal values. -/
theorem sum_depunct_replicate (pu : Puncturer) (s : Int8) {n k : ℕ} (hk : pu.t * n ≤ k) :
    ((pu.depunct id 0 0 (List.replicate k s) (pu.t * n) (pu.period * n)).map Int8.toInt).sum =
      (pu.t * n : ℕ) * s.toInt := by
  have hall : ∀ j ∈ List.range (pu.t * n), (id ((List.replicate k s).getD j 0)).toInt = s.toInt :=
    fun j hj ↦ by rw [List.getD_replicate _ ((List.mem_range.1 hj).trans_le hk)]; rfl
  rw [Puncturer.sum_map_depunct (g := Int8.toInt) rfl, List.map_congr_left hall, List.map_const',
    List.sum_replicate, List.length_range, nsmul_eq_mul]

/-- What is received of a block of equal values adds up to 330 of them. -/
theorem sum_receivedMother_replicate {s : Int8} (h : s ≠ Int8.minValue) (scrambInit : UInt32) :
    ((receivedMother (scrambleSoft (List.replicate 432 s) scrambInit) scrambInit).map
      Int8.toInt).sum = 330 * s.toInt := by
  have hback : scrambleSoft (scrambleSoft (List.replicate 432 s) scrambInit) scrambInit =
      List.replicate 432 s :=
    scrambleSoft_scrambleSoft (fun t ht ↦ List.eq_of_mem_replicate ht ▸ h) scrambInit
  have hsoft3 : deinterleaveSpeech 0 (List.replicate 432 s) = List.replicate 432 s :=
    scatter_replicate 0 speechIndex_lt speechIndex_inj s
  rw [receivedMother_eq, hback, hsoft3, List.drop_replicate, List.drop_replicate, List.map_append,
    List.sum_append]
  calc _ = ((168 : ℕ) : ℤ) * s.toInt + (162 : ℕ) * s.toInt :=
        congrArg₂ (· + ·) (sum_depunct_replicate rate112_168 s (n := 56) (by decide))
          (sum_depunct_replicate rate72_162 s (n := 18) (by decide))
    _ = 330 * s.toInt := by
        push_cast
        ring

/-- The correlation with a code word of zeros. -/
theorem correlation_zeros (motherBits : List Int8) :
    correlation motherBits (List.replicate motherBits.length false) =
      -(motherBits.map Int8.toInt).sum := by
  induction motherBits with
  | nil => rfl
  | cons s motherBits ih =>
      rw [correlation] at ih
      rw [correlation, List.length_cons, List.replicate_succ, List.zipWith_cons_cons, List.sum_cons,
        ih, List.map_cons, List.sum_cons, neg_add]
      rfl

/-- Zeros are encoded as zeros. -/
theorem speechConvEncode_zeros (n : ℕ) :
    (speechConvEncode {} (List.replicate n false)).1 = List.replicate (3 * n) false := by
  induction n with
  | zero => rfl
  | succ n ih =>
      have hshift : ConvState.shift {} false = {} := rfl
      rw [List.replicate_succ, speechConvEncode_cons, hshift, ih, Nat.mul_succ, Nat.add_comm,
        List.replicate_add]
      rfl

/-- **Magnitudes from 100 on can be too much**: a block of zeros. -/
theorem not_moderate_zeros {s : Int8} (hmin : s ≠ Int8.minValue) (hs : s.toInt ≤ -100)
    (scrambInit : UInt32) :
    ¬Moderate (receivedMother (scrambleSoft (List.replicate 432 s) scrambInit) scrambInit) 184 := by
  intro h
  have hle := h (List.replicate 184 false) List.length_replicate
  rw [speechConvEncode_zeros, ← length_receivedMother (scrambleSoft _ scrambInit) scrambInit,
    correlation_zeros, sum_receivedMother_replicate hmin] at hle
  linarith

/-- A block of zeros, received at full scale. -/
theorem not_decodesBest_zeros :
    ¬DecodesBest (scrambleSoft (List.replicate 432 (-127)) 3) 3 := fun h ↦
  not_moderate_zeros (by decide) (by decide) 3 h.moderate

end TetraPhy.CallFsm
