import TetraPhy.Lib.BitField
import TetraPhy.Rx.BurstCapture
import TetraPhy.Sw.UlRxMailbox

/-!
# The mailbox of the control bursts

`tetra_ul_ctrl_softburst_mailbox.v`: the soft values of a burst, negated and saturated to four bits,
as words for the processor.  **`agrees_iff`**: they are the words of `tetra_ul_rx_pack` if each
nibble is that of its soft value.
-/

namespace TetraPhy.Rx

open BitField Sw

/-- The inputs of a cycle. -/
structure SoftMailboxIn where
  softBit0 : BitVec 8
  softBit1 : BitVec 8
  softValid : Bool
  softFirst : Bool
  softLast : Bool
  timeslotNum : BitVec 2
  ackPulse : Bool

/-- The registers, as reset leaves them. -/
structure SoftMailbox where
  idx : BitVec 8 := 0
  packed : BitVec 672 := 0
  tnLat : BitVec 2 := 0
  valid : Bool := false
  burstsCaptured : BitVec 16 := 0

/-- Nibble `p`. -/
def nibble (packed : BitVec 672) (p : ℕ) : BitVec 4 := packed.extractLsb' (4 * p) 4

/-- `negsat`, over `nx` of nine bits. -/
def negsat (x : BitVec 8) : BitVec 4 :=
  let nx : BitVec 9 := -x.signExtend 9
  if 7 < nx.toInt then 7 else if nx.toInt < -8 then -8 else nx.setWidth 4

namespace SoftMailbox

variable (m : SoftMailbox) (i : SoftMailboxIn)

/-- `wpos`. -/
def wpos : BitVec 8 := if i.softFirst then 0 else m.idx

/-- One clock edge. -/
def step : SoftMailbox where
  idx := if i.softValid then m.wpos i + 2 else m.idx
  packed :=
    if i.softValid then
      put (put m.packed (4 * (m.wpos i).toNat) (negsat i.softBit1)) (4 * ((m.wpos i).toNat + 1))
        (negsat i.softBit0)
    else m.packed
  tnLat := if i.softValid && i.softLast then i.timeslotNum else m.tnLat
  valid := if i.softValid && i.softLast then true else if i.ackPulse then false else m.valid
  burstsCaptured :=
    if i.softValid && i.softLast then m.burstsCaptured + 1 else m.burstsCaptured

/-- `header_w`. -/
def header : BitVec 32 := BitVec.ofBool m.valid ++ 0#15 ++ 168#12 ++ 0#2 ++ m.tnLat

/-- The read port. -/
def rdata (index : BitVec 9) : BitVec 32 :=
  if index = 0 then m.header
  else if index ≤ 21 then m.packed.extractLsb' (32 * (index - 1).toNat) 32
  else 0

/-- What the processor reads as word `w`. -/
def word (w : ℕ) : UInt32 := ⟨m.rdata (BitVec.ofNat 9 w)⟩

end SoftMailbox

/-! ## Nibbles -/

theorem nibble_put (packed : BitVec 672) {p : ℕ} (hp : p < 168) (x : BitVec 4) (q : ℕ) :
    nibble (put packed (4 * p) x) q = if q = p then x else nibble packed q := by
  split_ifs with hq
  · subst hq
    exact slice_put_self packed x (by omega)
  · exact slice_put_apart packed x (by omega)

theorem negsat_eq (x : BitVec 8) : (softNibble (-x.toInt)).toBitVec = (negsat x).setWidth 32 := by
  revert x
  decide +kernel

theorem negsat_eq_zero_iff (x : BitVec 8) : negsat x = 0 ↔ x = 0 := by
  revert x
  decide +kernel

/-- A nibble of a word, as its slice. -/
theorem toBitVec_nibbleAt (x : UInt32) {k : ℕ} (hk : k < 8) :
    (nibbleAt x k).toBitVec = (x.toBitVec.extractLsb' (4 * k) 4).setWidth 32 := by
  have hmask : (0xF : UInt32).toBitVec = (BitVec.allOnes 4).setWidth 32 := rfl
  refine BitVec.eq_of_getLsbD_eq fun i hi ↦ ?_
  rw [nibbleAt, UInt32.toBitVec_and, toBitVec_shr _ (by omega), hmask, BitVec.getLsbD_and,
    BitVec.getLsbD_ushiftRight, BitVec.getLsbD_setWidth, BitVec.getLsbD_setWidth,
    BitVec.getLsbD_extractLsb', BitVec.getLsbD_allOnes]
  simp [hi, Bool.and_comm]

/-- Two words with the same nibbles. -/
theorem eq_of_nibbleAt {x y : UInt32} (h : ∀ k < 8, nibbleAt x k = nibbleAt y k) : x = y := by
  refine UInt32.toBitVec_inj.1 (BitVec.eq_of_getLsbD_eq fun i hi ↦ ?_)
  have hk : i / 4 < 8 := by omega
  have hlt : i % 4 < 4 := Nat.mod_lt _ (by decide)
  have hplace : 4 * (i / 4) + i % 4 = i := by omega
  have hslice (z : UInt32) :
      z.toBitVec.getLsbD i = (nibbleAt z (i / 4)).toBitVec.getLsbD (i % 4) := by
    have hin : i % 4 < 32 := by omega
    rw [toBitVec_nibbleAt z hk, BitVec.getLsbD_setWidth, BitVec.getLsbD_extractLsb', hplace]
    simp [hlt, hin]
  rw [hslice x, hslice y, h _ hk]

namespace SoftMailbox

variable {m : SoftMailbox} {tn : BitVec 2} {softs : List (BitVec 8)}

/-- The timeslot, as the software has it. -/
def slotTn (tn : BitVec 2) : UInt8 := ⟨tn.setWidth 8⟩

/-- The negated soft values. -/
def negated (softs : List (BitVec 8)) : List ℤ := softs.map fun x ↦ -x.toInt

/-- The words that are read are those of `tetra_ul_rx_pack`, and unpacked they are the burst. -/
def Agrees (m : SoftMailbox) (tn : BitVec 2) (softs : List (BitVec 8)) : Prop :=
  (∃ words, ulRxPack (slotTn tn) 0 (negated softs) = some words ∧ ∀ w < 22, m.word w = words w) ∧
    ulRxUnpack m.word = some ⟨slotTn tn, 0, (negated softs).map sat4⟩

/-- The header. -/
theorem word_zero (hvalid : m.valid = true) : m.word 0 = ulRxHeader (slotTn m.tnLat) 0 168 := by
  have hheader : m.word 0 = ⟨m.header⟩ := rfl
  rw [hheader, header, hvalid]
  generalize m.tnLat = tn
  revert tn
  decide

/-- The nibbles of the words. -/
theorem nibbleAt_word {p : ℕ} (hp : p < 168) :
    nibbleAt (m.word (1 + p / 8)) (p % 8) = ⟨(nibble m.packed p).setWidth 32⟩ := by
  have hindex : (BitVec.ofNat 9 (1 + p / 8)).toNat = 1 + p / 8 := by
    rw [BitVec.toNat_ofNat]
    exact Nat.mod_eq_of_lt (by omega)
  have hzero : BitVec.ofNat 9 (1 + p / 8) ≠ 0 := by
    rw [← BitVec.toNat_inj.ne, hindex]
    show 1 + p / 8 ≠ 0
    omega
  have hle : BitVec.ofNat 9 (1 + p / 8) ≤ 21 := by
    rw [BitVec.le_def, hindex]
    show 1 + p / 8 ≤ 21
    omega
  have hword : (m.word (1 + p / 8)).toBitVec = m.packed.extractLsb' (32 * (p / 8)) 32 := by
    have hsub : (BitVec.ofNat 9 (1 + p / 8) - 1).toNat = p / 8 := by
      rw [BitVec.toNat_sub, hindex]
      show (512 - 1 + (1 + p / 8)) % 512 = _
      omega
    rw [word, rdata, if_neg hzero, if_pos hle, hsub]
  have hplace : 32 * (p / 8) + 4 * (p % 8) = 4 * p := by omega
  refine UInt32.toBitVec_inj.1 ?_
  rw [toBitVec_nibbleAt _ (Nat.mod_lt _ (by decide)), hword, slice_slice _ _ _ (by omega), hplace]
  rfl

/-- Only the words of the burst are read. -/
theorem ulRxUnpack_congr {words words' : ℕ → UInt32} (hhdr : words 0 = words' 0)
    (h : ∀ i < ((words' 0 >>> 4) &&& 0xFFF).toNat, words (1 + i / 8) = words' (1 + i / 8)) :
    ulRxUnpack words = ulRxUnpack words' := by
  rw [ulRxUnpack, ulRxUnpack, hhdr]
  have hsoft : ((List.range ((words' 0 >>> 4) &&& 0xFFF).toNat).map fun i ↦
        nibbleSoft ((words (1 + i / 8) >>> (4 * (i % 8)).toUInt32) &&& 0xF)) =
      (List.range ((words' 0 >>> 4) &&& 0xFFF).toNat).map fun i ↦
        nibbleSoft ((words' (1 + i / 8) >>> (4 * (i % 8)).toUInt32) &&& 0xF) :=
    List.map_congr_left fun i hi ↦ by rw [h i (List.mem_range.1 hi)]
  dsimp only
  rw [hsoft]

theorem slotTn_lt (tn : BitVec 2) : slotTn tn < 4 := by
  revert tn
  decide

/-- The nibbles that `tetra_ul_rx_pack` writes. -/
theorem nibbleAt_packed (words : ℕ → UInt32) (hwords : ∀ w, w ≠ 0 → words w = 0)
    (hlen : softs.length = 168) {p : ℕ} (hp : p < 168) :
    nibbleAt (packSoft words (negated softs) (negated softs).length (1 + p / 8)) (p % 8) =
      ⟨(negsat (softs.getD p 0)).setWidth 32⟩ := by
  have hneg : (negated softs).length = 168 := by rw [negated, List.length_map, hlen]
  have hsoft : (negated softs).getD p 0 = -(softs.getD p 0).toInt := by
    rw [negated, List.getD_eq_getElem _ _ (by rwa [List.length_map, hlen]), List.getElem_map,
      List.getD_eq_getElem _ _ (by rwa [hlen])]
  have hzero : nibbleAt 0 (p % 8) = 0 := by
    rw [nibbleAt, UInt32.zero_shiftRight, UInt32.zero_and]
  rw [nibbleAt_packSoft, hwords _ (by omega), hzero, UInt32.zero_or, if_pos (by omega), hsoft]
  exact UInt32.toBitVec_inj.1 (negsat_eq _)

/-- **When they agree**: each nibble is that of its soft value. -/
theorem agrees_iff (hvalid : m.valid = true) (htn : m.tnLat = tn) (hlen : softs.length = 168) :
    m.Agrees tn softs ↔ ∀ p < 168, nibble m.packed p = negsat (softs.getD p 0) := by
  subst htn
  have hneg : (negated softs).length = 168 := by rw [negated, List.length_map, hlen]
  have hmax : (negated softs).length ≤ ulRxMaxSoft := by
    rw [hneg]
    decide
  have hhdr := word_zero hvalid
  have hpack : ulRxPack (slotTn m.tnLat) 0 (negated softs) = some (packSoft
      (Function.update (fun _ ↦ 0) 0 (ulRxHeader (slotTn m.tnLat) 0 168)) (negated softs)
      (negated softs).length) := by
    rw [ulRxPack, if_neg (Nat.not_lt.2 hmax), hneg]
  have hnib {p : ℕ} (hp : p < 168) := nibbleAt_packed
    (Function.update (fun _ ↦ 0) 0 (ulRxHeader (slotTn m.tnLat) 0 168))
    (fun w hw ↦ Function.update_of_ne hw _ _) hlen hp
  constructor
  · rintro ⟨⟨words, hwords, hsame⟩, -⟩ p hp
    rw [hpack, Option.some_inj] at hwords
    have hword := nibbleAt_word (m := m) hp
    rw [hsame _ (by omega), ← hwords, hnib hp] at hword
    have hwide := congrArg (fun x ↦ x.toBitVec.setWidth 4) hword
    simpa using hwide.symm
  · intro h
    have hsame : ∀ w < 22, m.word w = packSoft (Function.update (fun _ ↦ 0) 0
        (ulRxHeader (slotTn m.tnLat) 0 168)) (negated softs) (negated softs).length w := by
      intro w hw
      rcases Nat.eq_zero_or_pos w with rfl | hpos
      · rw [packSoft_zero, Function.update_self, hhdr]
      · refine eq_of_nibbleAt fun k hk ↦ ?_
        obtain ⟨p, hp, rfl, rfl⟩ : ∃ p < 168, w = 1 + p / 8 ∧ k = p % 8 :=
          ⟨8 * (w - 1) + k, by omega, by omega, by omega⟩
        rw [nibbleAt_word hp, hnib hp, h _ hp]
    refine ⟨⟨_, hpack, hsame⟩, ?_⟩
    have hround := unpack_pack_saturated (slotTn_lt m.tnLat) (by decide : (0 : UInt8) < 4) hmax
    rw [hpack, Option.bind_some] at hround
    rw [← hround]
    refine ulRxUnpack_congr (hsame 0 (by decide)) fun i hi ↦ hsame _ ?_
    rw [packSoft_zero, Function.update_self,
      (ulRxHeader_fields _ _ (by decide : 168 ≤ ulRxMaxSoft)).2.1] at hi
    omega

end SoftMailbox

end TetraPhy.Rx
