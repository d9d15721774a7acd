import TetraPhy.Lib.Emission
import TetraPhy.Lib.TapRegister
import TetraPhy.Lmac.SerialEncoder

/-!
# The serial scrambler

`tetra_scrambler.v` beside the two other forms of the scrambler, `next_lfsr_bit` of the software
and the register in `tetra_sch_f_encoder.v`.  All three have the polynomial of the same CRC:

| | form | `tap` | `word` |
|---|---|---|---|
| `tetra_scrambler.v` | Galois | bit 0 | `POLY_MASK` |
| `next_lfsr_bit`, `lfsr_fb_w` | Fibonacci | the taps 32, 26, 23, … | bit 31 |

`POLY_MASK` has the coefficient of `x^i` at bit `i`, and the register shifts towards bit 0, so
the recurrence of the first is another one than that of the others.  **`oneSequence_iff`** says
how far the sequences agree: the first `n` bits do for the seeds that are even under the first
`n` sums of checks, and 32 of these leave only the seed 0.
-/

namespace TetraPhy.Lmac

open Codec Run

/-! ## The module -/

/-- `POLY_MASK`. -/
def polyMask : BitVec 32 := 0x04C11DB7

/-- The inputs of a cycle. -/
structure ScramblerIn where
  lfsrInit : BitVec 32 := 0
  loadInit : Bool := false
  dataIn : Bool := false
  dataValid : Bool := false

/-- The registers, as reset leaves them. -/
structure Scrambler where
  lfsr : BitVec 32 := BitVec.allOnes 32
  dataOut : Bool := false
  dataOutValid : Bool := false

namespace Scrambler

variable (s : Scrambler) (i : ScramblerIn)

/-- `lfsr_out_sys`. -/
def lfsrOut : Bool := s.lfsr.getLsbD 0

/-- `lfsr_next_sys`. -/
def lfsrNextSys : BitVec 32 :=
  BitVec.ofBool false ++ s.lfsr.extractLsb' 1 31 ^^^ (if s.lfsrOut then polyMask else 0)

/-- One clock edge. -/
def step : Scrambler where
  lfsr := if i.loadInit then i.lfsrInit else if i.dataValid then s.lfsrNextSys else s.lfsr
  dataOut := if i.dataValid && !i.loadInit then i.dataIn ^^ s.lfsrOut else s.dataOut
  dataOutValid := i.dataValid && !i.loadInit

/-- What the output port shows. -/
def out : Option Bool := if s.dataOutValid then some s.dataOut else none

end Scrambler

/-- The bits that are presented. -/
def dataBits (is : List ScramblerIn) : List Bool :=
  (is.filter ScramblerIn.dataValid).map ScramblerIn.dataIn

/-! ## The registers of the two forms -/

/-- The register of `tetra_scrambler.v`. -/
def galois : TapRegister 32 := ⟨1#32, polyMask⟩

/-- The register of the software and of the encoders. -/
def fibonacci : TapRegister 32 := ⟨0xDB710641, 1#32 <<< 31⟩

/-- A bit that is shifted in at the top. -/
theorem shiftIn_eq (l : BitVec 32) (b : Bool) : BitVec.ofBool b ++ l.extractLsb' 1 31 =
    l >>> 1 ^^^ (if b then 1#32 <<< 31 else 0#32) := by
  refine BitVec.eq_of_getLsbD_eq fun k hk ↦ ?_
  rw [BitVec.getLsbD_append, BitVec.getLsbD_extractLsb', BitVec.getLsbD_xor,
    BitVec.getLsbD_ushiftRight]
  rcases Nat.lt_or_ge k 31 with hlt | hge
  · have hword : (if b then 1#32 <<< 31 else 0#32).getLsbD k = false := by
      cases b with
      | true =>
          rw [if_pos rfl, BitVec.getLsbD_shiftLeft, decide_eq_true hlt, Bool.not_true,
            Bool.and_false, Bool.false_and]
      | false => exact BitVec.getLsbD_zero
    simp only [hlt, decide_true, if_true, Bool.true_and, hword, Bool.xor_false]
  · obtain rfl : k = 31 := by omega
    have hout : l.getLsbD (1 + 31) = false := BitVec.getLsbD_of_ge l _ (by decide)
    rw [hout]
    cases b <;> rfl

theorem lfsrOut_eq (s : Scrambler) : s.lfsrOut = galois.out s.lfsr :=
  (TapRegister.dot_unit s.lfsr (show 0 < 32 by decide)).symm

theorem lfsrNextSys_eq (s : Scrambler) : s.lfsrNextSys = galois.step s.lfsr := by
  rw [Scrambler.lfsrNextSys, shiftIn_eq, if_neg Bool.false_ne_true, BitVec.xor_zero, lfsrOut_eq]
  rfl

theorem lfsrFb_eq (l : BitVec 32) : lfsrFb l = fibonacci.out l := by
  have htap : fibonacci.tap = 1#32 <<< 0 ^^^ 1#32 <<< 6 ^^^ 1#32 <<< 9 ^^^ 1#32 <<< 10 ^^^
      1#32 <<< 16 ^^^ 1#32 <<< 20 ^^^ 1#32 <<< 21 ^^^ 1#32 <<< 22 ^^^ 1#32 <<< 24 ^^^
      1#32 <<< 25 ^^^ 1#32 <<< 27 ^^^ 1#32 <<< 28 ^^^ 1#32 <<< 30 ^^^ 1#32 <<< 31 := by decide
  rw [TapRegister.out, htap]
  simp (disch := decide) only [TapRegister.dot_xor, TapRegister.dot_unit, lfsrFb]

theorem lfsrNext_eq (l : BitVec 32) : lfsrNext l = fibonacci.step l := by
  rw [lfsrNext, shiftIn_eq, lfsrFb_eq]
  rfl

theorem maskBits_eq_bits (l : BitVec 32) (n : ℕ) : maskBits l n = fibonacci.bits l n := by
  induction n generalizing l with
  | zero => rfl
  | succ n ih => rw [maskBits, TapRegister.bits, lfsrFb_eq, lfsrNext_eq, ih]

/-! ## What the module sends -/

/-- After a load the module adds the bits of its register to the data, however the data come. -/
theorem emitted_eq (s : Scrambler) {is : List ScramblerIn} (h : ∀ i ∈ is, i.loadInit = false) :
    emitted Scrambler.step Scrambler.out s is =
      List.zipWith xor (dataBits is) (galois.bits s.lfsr (dataBits is).length) := by
  induction is generalizing s with
  | nil => rfl
  | cons i is ih =>
      rw [List.forall_mem_cons] at h
      have ih := ih (s.step i) h.2
      cases hvalid : i.dataValid with
      | false =>
          have hlfsr : (s.step i).lfsr = s.lfsr := by simp [Scrambler.step, h.1, hvalid]
          have hout : (s.step i).out = none := by simp [Scrambler.step, Scrambler.out, hvalid]
          have hbits : dataBits (i :: is) = dataBits is := by simp [dataBits, hvalid]
          rw [emitted_cons_of_none hout, ih, hbits, hlfsr]
      | true =>
          have hlfsr : (s.step i).lfsr = galois.step s.lfsr := by
            simp [Scrambler.step, h.1, hvalid, lfsrNextSys_eq]
          have hout : (s.step i).out = some (i.dataIn ^^ galois.out s.lfsr) := by
            simp [Scrambler.step, Scrambler.out, h.1, hvalid, lfsrOut_eq]
          have hbits : dataBits (i :: is) = i.dataIn :: dataBits is := by
            simp [dataBits, hvalid]
          rw [emitted, hout, ih, hbits, hlfsr]
          rfl

theorem length_bits (r : TapRegister 32) (seed : BitVec 32) (n : ℕ) :
    (r.bits seed n).length = n := by
  rw [TapRegister.bits_eq_map, List.length_map, List.length_range]

/-- Adding twice is doing nothing. -/
theorem zipWith_xor_cancel {xs ys : List Bool} (h : xs.length = ys.length) :
    List.zipWith xor xs (List.zipWith xor xs ys) = ys := by
  induction xs generalizing ys with
  | nil => exact (List.eq_nil_of_length_eq_zero h.symm).symm
  | cons x xs ih =>
      cases ys with
      | nil => exact absurd h (Nat.succ_ne_zero _)
      | cons y ys =>
          rw [List.zipWith_cons_cons, List.zipWith_cons_cons, ih (Nat.succ.inj h),
            ← Bool.xor_assoc, Bool.xor_self, Bool.false_xor]

/-! ## One sequence -/

/-- After a load of `seed` the module adds to the first `n` bits of data the sequence of the
software and of the encoder, and the software undoes that. -/
def OneSequence (seed : BitVec 32) (n : ℕ) : Prop :=
  ∀ (s : Scrambler) (load : ScramblerIn) (is : List ScramblerIn),
    load.loadInit = true → load.lfsrInit = seed → (∀ i ∈ is, i.loadInit = false) →
    (dataBits is).length = n →
    List.zipWith xor (dataBits is) (emitted Scrambler.step Scrambler.out (s.step load) is) =
        lfsrBits (UInt32.ofBitVec seed) n ∧
      lfsrBits (UInt32.ofBitVec seed) n = maskBits seed n ∧
      scrambleWith Bool.not (UInt32.ofBitVec seed)
        (emitted Scrambler.step Scrambler.out (s.step load) is) = dataBits is

theorem oneSequence_iff_bits (seed : BitVec 32) (n : ℕ) :
    OneSequence seed n ↔ galois.bits seed n = fibonacci.bits seed n := by
  have hsoft : lfsrBits (UInt32.ofBitVec seed) n = fibonacci.bits seed n := by
    rw [← maskBits_eq, maskBits_eq_bits]
  constructor
  · intro h
    -- zeros as data
    have hbits : dataBits (List.replicate n { dataValid := true }) = List.replicate n false := by
      simp [dataBits]
    have hlen : (dataBits (List.replicate n { dataValid := true })).length = n := by
      rw [hbits, List.length_replicate]
    have hload : ∀ i ∈ List.replicate n ({ dataValid := true } : ScramblerIn),
        i.loadInit = false := fun i hi ↦ by rw [List.eq_of_mem_replicate hi]
    obtain ⟨hsame, -, -⟩ := h {} { loadInit := true, lfsrInit := seed } _ rfl rfl hload hlen
    rw [emitted_eq _ hload, zipWith_xor_cancel (by rw [length_bits]), hlen, hsoft] at hsame
    exact hsame
  · rintro h s load is hload hseed his hlen
    have hlfsr : (s.step load).lfsr = seed := by simp [Scrambler.step, hload, hseed]
    have hsent := emitted_eq (s.step load) his
    rw [hlfsr, hlen, h, ← hsoft] at hsent
    have hback := zipWith_lfsrBits (UInt32.ofBitVec seed) (dataBits is)
    rw [hlen] at hback
    refine ⟨?_, ?_, ?_⟩
    · rw [hsent, zipWith_xor_cancel]
      rw [hlen, hsoft, length_bits]
    · rw [maskBits_eq]
    · rw [hsent, hback, scrambleWith_scrambleWith Bool.not_not]

/-- The `k`-th sum of checks. -/
def sumCheck (k : ℕ) : BitVec 32 := galois.check k ^^^ fibonacci.check k

/-- The first 32 of them. -/
def sumChecks : List (BitVec 32) :=
  [0xDB710640, 0x6D930AC0, 0xDB261580, 0x6D3D2D41, 0xDA7A5A83, 0x6F85B347, 0xDF0B668F,
    0x6567CB5E, 0xCACF96BD, 0x4EEE2B3B, 0x9DDC5676, 0xE0C9AAAC, 0x1AE25319, 0x35C4A632,
    0x6B894C64, 0xD71298C9, 0x755437D2, 0xEAA86FA5, 0x0E21D90B, 0x1C43B216, 0x3887642D,
    0x710EC85B, 0xE21D90B7, 0x1F4A272F, 0x3E944E5E, 0x7D289CBC, 0xFA513978, 0x2FD374B1,
    0x5FA6E962, 0xBF4DD2C5, 0xA5EAA3CB, 0x90A441D7]

/-- Which of them add up to each unit word. -/
def unitChecks : List (BitVec 32) :=
  [0x8C3DEEAB, 0x9B1C311C, 0x396260D9, 0xFEF92F19, 0xF2A85CD3, 0xEA0ABB47, 0xDB4F746F,
    0x35F90494, 0xE7CFE783, 0x4CF8234C, 0x15CDA833, 0x2B9B5066, 0x5736A0CC, 0x2250AF33,
    0xC89CB0CD, 0x125E8DD0, 0xA880F50B, 0xD266065C, 0x27ABE0F2, 0x4F57C1E4, 0x12926D63,
    0xA919346D, 0x5D686A3B, 0x36ED3ADD, 0x6DDA75BA, 0x578905DF, 0xAF120BBE, 0x517E159D,
    0xA2FC2B3A, 0xC69FBA3E, 0x8265769D, 0x87AD0170]

theorem map_sumCheck : (List.range 32).map sumCheck = sumChecks := by decide +kernel

theorem select_unitChecks : ∀ k < 32, TapRegister.select
    (fun j ↦ (unitChecks.getD k 0).getLsbD j) sumChecks = 1#32 <<< k := by decide +kernel

/-- Only the seed 0 passes them all. -/
theorem eq_zero_of_checks {seed : BitVec 32}
    (h : ∀ k < 32, TapRegister.dot seed (sumCheck k) = false) : seed = 0#32 := by
  have hpass : ∀ m ∈ sumChecks, TapRegister.dot seed m = false := by
    rw [← map_sumCheck]
    intro m hm
    obtain ⟨k, hk, rfl⟩ := List.mem_map.1 hm
    exact h k (List.mem_range.1 hk)
  exact TapRegister.eq_zero_of_generates seed hpass fun k hk ↦ ⟨_, select_unitChecks k hk⟩

/-- **How far the scramblers generate one sequence**: the first `n` bits are the same from the
seeds that are even under the first `n` sums of checks, and no seed but 0 is so under 32. -/
theorem oneSequence_iff (seed : BitVec 32) (hseed : seed ≠ 0) (n : ℕ) :
    OneSequence seed n ↔ n ≤ 31 ∧ ∀ k < n, TapRegister.dot seed (sumCheck k) = false := by
  rw [oneSequence_iff_bits, TapRegister.bits_eq_iff]
  constructor
  · intro h
    refine ⟨?_, h⟩
    by_contra hn
    exact hseed (eq_zero_of_checks fun k hk ↦ h k (by omega))
  · rintro ⟨-, h⟩
    exact h

/-- From the seed 2 the first four bits are the same. -/
theorem oneSequence_two_four : OneSequence 2 4 :=
  (oneSequence_iff 2 (by decide) 4).2 ⟨by decide, by decide +kernel⟩

/-- From the seed of the BSCH the fourth bits differ. -/
theorem not_oneSequence_bsch : (3 : BitVec 32) ≠ 0 ∧ ¬ OneSequence 3 4 ∧
    galois.bits 3 4 = [true, false, true, false] ∧
    lfsrBits 3 4 = [true, false, true, true] := by
  have hgalois : galois.bits 3 4 = [true, false, true, false] := by decide +kernel
  have hfibonacci : fibonacci.bits 3 4 = [true, false, true, true] := by decide +kernel
  refine ⟨by decide, ?_, hgalois, by decide +kernel⟩
  rw [oneSequence_iff_bits, hgalois, hfibonacci]
  decide

end TetraPhy.Lmac
