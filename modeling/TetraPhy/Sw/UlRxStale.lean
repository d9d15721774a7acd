import Mathlib.Data.Set.Defs
import TetraPhy.Codec.OpenBit
import TetraPhy.Sw.UlRxService

/-!
# What a burst leaves to the stack

`tetra_ul_rx_unpack` fills as much of the burst's buffer as the header announces, and the decoders
read 168 or 432 values of it.  The mailbox contract has those numbers, but only the upper bound of
the buffer is checked.  So a burst that announces fewer is decoded with what the stack held, and
the outcome may depend on it (`onlyWords_iff`).

For one value too few there is a burst that is right but for five stages, where it leaves the
decision to the value that is missing (`Channel.exists_open`); a burst with fewer values leaves it
the others as well.
-/

namespace TetraPhy.Sw

open Codec

/-- What the header of a burst says. -/
def Announces (words : ℕ → UInt32) (burstType : UInt8) (nSoft : ℕ) : Prop :=
  ∃ b, ulRxUnpack words = some b ∧ b.burstType = burstType ∧ b.soft.length = nSoft

/-- How many values the decoder of a burst reads. -/
def consumed (burstType : UInt8) : ℕ :=
  if burstType == 0 then 168 else if burstType == 1 then 432 else 0

/-- The outcome depends on the words only, whatever of `values` the stack holds. -/
def OnlyWords (values : Set ℤ) (words : ℕ → UInt32) : Prop :=
  ∀ (c : UlRxCtx) (nowMs : UInt32) (stack stack' : ℕ → ℤ), (∀ i, stack i ∈ values) →
    (∀ i, stack' i ∈ values) → c.service words stack nowMs = c.service words stack' nowMs

namespace UlRxCtx

variable {b : UlRxBurst} {words : ℕ → UInt32}

/-- A burst that is long enough covers the stack. -/
theorem softOf_of_le {n : ℕ} (h : n ≤ b.soft.length) (stack stack' : ℕ → ℤ) :
    softOf b stack n = softOf b stack' n := by
  refine List.map_congr_left fun i hi ↦ ?_
  have hlt : i < b.soft.length := (List.mem_range.1 hi).trans_le h
  rw [List.getD_eq_getElem _ _ hlt, List.getD_eq_getElem _ _ hlt]

/-- The stack may go on where the burst ends. -/
theorem softOf_take (slotTn burstType : UInt8) {soft : List ℤ} {n : ℕ} (h : soft.length = n)
    (k : ℕ) : softOf ⟨slotTn, burstType, soft.take k⟩ (soft.getD · 0) n = soft := by
  refine List.ext_getElem (by simp [softOf, h]) fun i _ hi ↦ ?_
  simp only [softOf, List.getElem_map, List.getElem_range]
  by_cases hik : i < k
  · rw [List.getD_eq_getElem _ _ (by rw [List.length_take]; omega), List.getElem_take]
  · rw [List.getD_eq_default _ _ (by rw [List.length_take]; omega), List.getD_eq_getElem _ _ hi]

theorem crcOk_serviceSchhu (c : UlRxCtx) (slot : Fin 4) (info : List Bool) (nowMs : UInt32) :
    (c.serviceSchhu slot info nowMs).2.crcOk = true := by
  unfold serviceSchhu
  split
  · unfold endDemand
    split <;> rfl
  · split <;> rfl

theorem crcOk_serviceSchf (c : UlRxCtx) (info : List Bool) (nowMs : UInt32) :
    (c.serviceSchf info nowMs).2.crcOk = true := by
  unfold serviceSchf
  split
  · unfold contLongSds
    split <;> rfl
  · rfl

/-- `crc_ok` of an SCH/HU burst. -/
theorem crcOk_service_schhu (h : ulRxUnpack words = some b) (ht : b.burstType = 0) (c : UlRxCtx)
    (stack : ℕ → ℤ) (nowMs : UInt32) : (c.service words stack nowMs).2.1.crcOk =
      (infoOf (schhuDecodeSoft (softOf b stack 168) c.cc c.scrSlot c.mcc c.mnc)).isSome := by
  rw [service, h]
  dsimp only
  rw [ht, if_pos (by decide)]
  cases infoOf (schhuDecodeSoft (softOf b stack 168) c.cc c.scrSlot c.mcc c.mnc) with
  | none => rfl
  | some info => exact c.crcOk_serviceSchhu _ info nowMs

/-- `crc_ok` of an SCH/F burst. -/
theorem crcOk_service_schf (h : ulRxUnpack words = some b) (ht : b.burstType = 1) (c : UlRxCtx)
    (stack : ℕ → ℤ) (nowMs : UInt32) : (c.service words stack nowMs).2.1.crcOk =
      (infoOf (schfDecodeSoft (softOf b stack 432) c.cc c.scrSlot c.mcc c.mnc)).isSome := by
  rw [service, h]
  dsimp only
  rw [ht, if_neg (by decide), if_pos (by decide)]
  cases infoOf (schfDecodeSoft (softOf b stack 432) c.cc c.scrSlot c.mcc c.mnc) with
  | none => rfl
  | some info => exact c.crcOk_serviceSchf info nowMs

end UlRxCtx

/-- **Long enough bursts are safe**: whatever the stack holds. -/
theorem onlyWords_of_le {words : ℕ → UInt32} {burstType : UInt8} {nSoft : ℕ}
    (h : Announces words burstType nSoft) (hle : consumed burstType ≤ nSoft) (values : Set ℤ) :
    OnlyWords values words := by
  intro c nowMs stack stack' _ _
  obtain ⟨b, hb, rfl, rfl⟩ := h
  rw [UlRxCtx.service, UlRxCtx.service, hb]
  dsimp only
  rw [consumed] at hle
  by_cases h0 : (b.burstType == 0) = true
  · rw [if_pos h0] at hle
    rw [if_pos h0, if_pos h0, UlRxCtx.softOf_of_le hle stack stack']
  · rw [if_neg h0] at hle
    rw [if_neg h0, if_neg h0]
    by_cases h1 : (b.burstType == 1) = true
    · rw [if_pos h1] at hle
      rw [if_pos h1, if_pos h1, UlRxCtx.softOf_of_le hle stack stack']
    · rw [if_neg h1, if_neg h1]

/-- The words of a burst with the first values of `soft`. -/
def truncatedWords (burstType : UInt8) (soft : List ℤ) (n : ℕ) : ℕ → UInt32 :=
  (ulRxPack 0 burstType (soft.take n)).getD fun _ ↦ 0

theorem unpack_truncatedWords {burstType : UInt8} (ht : burstType &&& 3 = burstType)
    {soft : List ℤ} (hsoft : ∀ v ∈ soft, -1 ≤ v ∧ v ≤ 1) {n : ℕ} (hn : n ≤ 432) :
    ulRxUnpack (truncatedWords burstType soft n) = some ⟨0, burstType, soft.take n⟩ := by
  have hlen : (soft.take n).length ≤ ulRxMaxSoft := by
    rw [List.length_take]
    exact (min_le_left _ _).trans hn
  have hround := unpack_pack 0 burstType hlen fun v hv ↦ by
    have := hsoft v (List.mem_of_mem_take hv)
    omega
  obtain ⟨words, hwords⟩ : ∃ words, ulRxPack 0 burstType (soft.take n) = some words := by
    rw [ulRxPack, if_neg (Nat.not_lt.2 hlen)]
    exact ⟨_, rfl⟩
  rw [truncatedWords, hwords, Option.getD_some]
  rw [hwords, Option.bind_some, ht] at hround
  exact hround

/-- **The stack shows** in bursts that are too short for their channel. -/
theorem exists_open_burst (c : Channel) {burstType : UInt8}
    (hcrc : ∀ {words b}, ulRxUnpack words = some b → b.burstType = burstType →
      ∀ (x : UlRxCtx) (stack : ℕ → ℤ) (nowMs : UInt32),
        (x.service words stack nowMs).2.1.crcOk = (UlRxCtx.infoOf (c.decodeSoft
          (crc16CheckN · c.info) (UlRxCtx.softOf b stack c.coded) x.cc x.scrSlot x.mcc
            x.mnc)).isSome)
    {info : List Bool} (hinfo : info.length = c.info) {m k : ℕ}
    (hsplit : c.info + 20 = 2 * (m + 3 + k))
    (hlast : permIndex c.coded c.factor (3 * m + 1) + 1 = c.coded)
    (hbad : crc16CheckN ((crc16 info ++ List.replicate 4 false).set (2 * m)
      !(crc16 info ++ List.replicate 4 false).getD (2 * m) false) c.info = false)
    {values : Set ℤ} (hvalues : ∀ v, -8 ≤ v → v ≤ 7 → v ∈ values) :
    ∃ soft : List ℤ, soft.length = c.coded ∧ (∀ v ∈ soft, -1 ≤ v ∧ v ≤ 1) ∧
      ∀ {words n}, n < c.coded → ulRxUnpack words = some ⟨0, burstType, soft.take n⟩ →
        ¬ OnlyWords values words := by
  obtain ⟨soft, soft', hlen, hlen', htake, hsoft, hsoft', hok, info', hwrong⟩ :=
    c.exists_open hinfo hsplit hlast hbad 0 0 0 0
  refine ⟨soft, hlen, hsoft, fun {words n} hn hunpack h ↦ ?_⟩
  have hunpack' := hunpack
  rw [htake n hn] at hunpack'
  have hstack : ∀ {soft : List ℤ}, (∀ v ∈ soft, -1 ≤ v ∧ v ≤ 1) →
      ∀ i, soft.getD i 0 ∈ values := fun {soft} hsoft i ↦ by
    have hget : -1 ≤ soft.getD i 0 ∧ soft.getD i 0 ≤ 1 :=
      Permute.getD_of_forall (p := fun v : ℤ ↦ -1 ≤ v ∧ v ≤ 1) (by decide) hsoft i
    exact hvalues _ (by omega) (by omega)
  -- the missing values of the one block on the stack, and those of the other
  have hright := hcrc hunpack rfl (UlRxCtx.init 0 0 0 0) (soft.getD · 0) 0
  have hleft := hcrc hunpack' rfl (UlRxCtx.init 0 0 0 0) (soft'.getD · 0) 0
  rw [UlRxCtx.softOf_take _ _ hlen] at hright
  rw [UlRxCtx.softOf_take _ _ hlen', ← h _ _ _ _ (hstack hsoft) (hstack hsoft'), hright] at hleft
  change (UlRxCtx.infoOf (c.decodeSoft (crc16CheckN · c.info) soft 0 0 0 0)).isSome =
    (UlRxCtx.infoOf (c.decodeSoft (crc16CheckN · c.info) soft' 0 0 0 0)).isSome at hleft
  rw [hok, hwrong] at hleft
  exact Bool.noConfusion hleft

/-- On SCH/HU. -/
theorem exists_open_schhu {values : Set ℤ} (hvalues : ∀ v, -8 ≤ v → v ≤ 7 → v ∈ values) :
    ∃ soft : List ℤ, soft.length = 168 ∧ (∀ v ∈ soft, -1 ≤ v ∧ v ≤ 1) ∧
      ∀ {words n}, n < 168 → ulRxUnpack words = some ⟨0, 0, soft.take n⟩ →
        ¬ OnlyWords values words :=
  exists_open_burst schhu (m := 51) (k := 2) UlRxCtx.crcOk_service_schhu
    (List.length_replicate : (List.replicate 92 false).length = 92) (by decide) (by decide)
    (by decide +kernel) hvalues

/-- On SCH/F. -/
theorem exists_open_schf {values : Set ℤ} (hvalues : ∀ v, -8 ≤ v → v ≤ 7 → v ∈ values) :
    ∃ soft : List ℤ, soft.length = 432 ∧ (∀ v ∈ soft, -1 ≤ v ∧ v ≤ 1) ∧
      ∀ {words n}, n < 432 → ulRxUnpack words = some ⟨0, 1, soft.take n⟩ →
        ¬ OnlyWords values words :=
  exists_open_burst schf (m := 93) (k := 48) UlRxCtx.crcOk_service_schf
    (List.length_replicate : (List.replicate 268 false).length = 268) (by decide) (by decide)
    (by decide +kernel) hvalues

/-- A burst that is too short. -/
theorem exists_short {burstType : UInt8} {n : ℕ} (hn : n < consumed burstType) {values : Set ℤ}
    (hvalues : ∀ v, -8 ≤ v → v ≤ 7 → v ∈ values) :
    ∃ words, Announces words burstType n ∧ ¬ OnlyWords values words := by
  have hwords : ∀ {N : ℕ} {soft : List ℤ}, N ≤ 432 → n < N → burstType &&& 3 = burstType →
      soft.length = N → (∀ v ∈ soft, -1 ≤ v ∧ v ≤ 1) →
      (∀ {words n}, n < N → ulRxUnpack words = some ⟨0, burstType, soft.take n⟩ →
        ¬ OnlyWords values words) →
      ∃ words, Announces words burstType n ∧ ¬ OnlyWords values words := by
    intro N soft hN hn ht hlen hsoft hopen
    have hunpack := unpack_truncatedWords ht hsoft (hn.le.trans hN)
    refine ⟨_, ⟨_, hunpack, rfl, ?_⟩, hopen hn hunpack⟩
    rw [List.length_take, hlen]
    exact min_eq_left hn.le
  rw [consumed] at hn
  by_cases h0 : (burstType == 0) = true
  · rw [if_pos h0] at hn
    obtain rfl := eq_of_beq h0
    obtain ⟨soft, hlen, hsoft, hopen⟩ := exists_open_schhu hvalues
    exact hwords (by decide) hn rfl hlen hsoft hopen
  rw [if_neg h0] at hn
  by_cases h1 : (burstType == 1) = true
  · rw [if_pos h1] at hn
    obtain rfl := eq_of_beq h1
    obtain ⟨soft, hlen, hsoft, hopen⟩ := exists_open_schf hvalues
    exact hwords le_rfl hn rfl hlen hsoft hopen
  · rw [if_neg h1] at hn
    exact absurd hn (Nat.not_lt_zero _)

/-- **No stale soft data, exactly if enough is announced.**  Let the stack hold anything that an
earlier burst may have left there, and what else it likes.  The outcome of every burst that
announces a type and a number of values depends on the words only, if and only if the decoder of
that type reads no more values than that. -/
theorem onlyWords_iff {values : Set ℤ} (hvalues : ∀ v, -8 ≤ v → v ≤ 7 → v ∈ values)
    (burstType : UInt8) (nSoft : ℕ) :
    (∀ words, Announces words burstType nSoft → OnlyWords values words) ↔
      consumed burstType ≤ nSoft := by
  constructor
  · intro h
    by_contra hlt
    obtain ⟨words, hann, hnot⟩ := exists_short (Nat.not_le.1 hlt) hvalues
    exact hnot (h words hann)
  · intro hle words hann
    exact onlyWords_of_le hann hle values

/-- What an earlier burst may have left. -/
def stale : Set ℤ := {v | -8 ≤ v ∧ v ≤ 7}

/-- An SCH/HU burst of silence, with all its values. -/
def fullWords : ℕ → UInt32 := truncatedWords 0 (List.replicate 168 0) 168

/-- It does not depend on the values of an earlier burst. -/
theorem onlyWords_iff_full : OnlyWords stale fullWords := by
  have hzeros : ∀ v ∈ List.replicate 168 (0 : ℤ), -1 ≤ v ∧ v ≤ 1 := fun v hv ↦ by
    rw [List.eq_of_mem_replicate hv]
    decide
  refine (onlyWords_iff (fun _ hlo hhi ↦ And.intro hlo hhi) 0 168).2 (by decide) fullWords ?_
  exact ⟨_, unpack_truncatedWords (by decide) hzeros (by decide), rfl, rfl⟩

/-- The header of an SCH/HU burst without any values. -/
def emptyWords : ℕ → UInt32 := Function.update (fun _ ↦ 0) 0 0x80000000

/-- It is decoded from the values of an earlier burst. -/
theorem not_onlyWords_emptyWords : ¬ OnlyWords stale emptyWords := by
  obtain ⟨soft, -, -, hopen⟩ :=
    exists_open_schhu fun _ hlo hhi ↦ And.intro hlo hhi
  exact hopen (n := 0) (by decide) rfl

end TetraPhy.Sw
