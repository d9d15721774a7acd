import TetraPhy.Codec.Speech
import TetraPhy.Lib.Parity

/-!
# The reference encoder of the speech channel

`etsi_codec`: the encoder that comes with the standard, with its own tables, its CRC bit by bit as
sums over a class, its lattice of transitions and its puncturing matrices, in 16-bit words.  With
the flag for frame stealing it encodes the second of the two frames only.

* `channelEncoding_coded` — the block is `coded`, with 127 for a zero and -127 for a one;
* `coded_eq_sentType3` — without stealing that is the block of `tetra_bs_tch_s.c`.
-/

namespace TetraPhy.Etsi

open Permute Speech
open Parity (check check_perm toggle check_toggle check_foldr_toggle)

/-! ## The operators -/

/-- `sature`: words of 16 bits are integers, and the operators keep to their range. -/
def sature (x : ℤ) : ℤ := if 32767 < x then 32767 else if x < -32768 then -32768 else x

/-- `add`. -/
def add (x y : ℤ) : ℤ := sature (x + y)

/-- `sub`. -/
def sub (x y : ℤ) : ℤ := sature (x - y)

/-- `negate`. -/
def negate (x : ℤ) : ℤ := if x = -32768 then 32767 else -x

/-- `shl`, by 15 at most. -/
def shl (x : ℤ) (n : ℕ) : ℤ := sature (x * 2 ^ n)

/-- `shr`. -/
def shr (x : ℤ) (n : ℕ) : ℤ := x / 2 ^ n

/-- `L_mult`, apart from the square of -32768. -/
def lMult (x y : ℤ) : ℤ := 2 * (x * y)

/-- `extract_l`. -/
def extractL (x : ℤ) : ℤ := x.bmod 65536

theorem sature_of_mem {x : ℤ} (hlo : -32768 ≤ x) (hhi : x ≤ 32767) : sature x = x := by
  rw [sature, if_neg (by omega), if_neg (by omega)]

/-! ## The tables -/

/-- `TAB0`. -/
def tab0 : List ℕ :=
  [35, 36, 37, 38, 39, 40, 41, 42, 43, 47, 48, 56, 61, 62, 63, 64, 65, 66, 67, 68, 69, 70,
    74, 75, 83, 88, 89, 90, 91, 92, 93, 94, 95, 96, 97, 101, 102, 110, 115, 116, 117, 118,
    119, 120, 121, 122, 123, 124, 128, 129, 137]

/-- `TAB1`. -/
def tab1 : List ℕ :=
  [58, 85, 112, 54, 81, 108, 135, 50, 77, 104, 131, 45, 72, 99, 126, 55, 82, 109,
    136, 5, 13, 34, 8, 16, 17, 22, 23, 24, 25, 26, 6, 14, 7, 15, 60, 87, 114, 46,
    73, 100, 127, 44, 71, 98, 125, 33, 49, 76, 103, 130, 59, 86, 113, 57, 84, 111]

/-- `TAB2`. -/
def tab2 : List ℕ :=
  [18, 19, 20, 21, 31, 32, 53, 80, 107, 134, 1, 2, 3, 4, 9, 10, 11, 12,
    27, 28, 29, 30, 52, 79, 106, 133, 51, 78, 105, 132]

/-- `A1`. -/
def a1 : List ℕ :=
  [1, 1, 1, 1, 1, 1, 1, 1,
    1, 0, 1, 0, 1, 0, 1, 0,
    0, 0, 0, 0, 0, 0, 0, 0]

/-- `A2`. -/
def a2 : List ℕ :=
  [1, 1, 1, 1, 1, 1, 1, 1,
    1, 1, 1, 1, 1, 1, 1, 1,
    1, 0, 0, 0, 1, 0, 0, 0]

/-- `Fs_A2`. -/
def fsA2 : List ℕ :=
  [1, 1, 1, 1, 1, 1, 1, 1,
    1, 1, 1, 1, 1, 1, 1, 1,
    1, 0, 0, 0, 0, 0, 0, 0]

/-- `TAB_CRC1`, …, `TAB_CRC8`. -/
def tabCrc : List (List ℕ) :=
  [[1, 5, 8, 9, 13, 15, 16, 17, 19, 21, 22, 24, 25, 31, 32, 35, 36, 38, 40, 43, 44,
    45, 48, 49, 50, 51, 53, 54, 56],
    [2, 6, 9, 10, 14, 16, 17, 18, 20, 22, 23, 25, 26, 32, 33, 36, 37, 39, 41, 44, 45,
      46, 49, 50, 51, 52, 54, 55, 57],
    [3, 7, 10, 11, 15, 17, 18, 19, 21, 23, 24, 26, 27, 33, 34, 37, 38, 40, 42, 45,
      46, 47, 50, 51, 52, 53, 55, 56, 58],
    [1, 4, 5, 9, 11, 12, 13, 15, 17, 18, 20, 21, 27, 28, 31, 32, 34, 36, 39, 40, 41, 44, 45,
      46, 47, 49, 50, 52, 57, 59],
    [2, 5, 6, 10, 12, 13, 14, 16, 18, 19, 21, 22, 28, 29, 32, 33, 35, 37, 40, 41, 42, 45,
      46, 47, 48, 50, 51, 53, 58, 60],
    [3, 6, 7, 11, 13, 14, 15, 17, 19, 20, 22, 23, 29, 30, 33, 34, 36, 38, 41, 42, 43,
      46, 47, 48, 49, 51, 52, 54, 59],
    [4, 7, 8, 12, 14, 15, 16, 18, 20, 21, 23, 24, 30, 31, 34, 35, 37, 39, 42, 43, 44,
      47, 48, 49, 50, 52, 53, 55, 60],
    [1, 2, 3, 4, 8, 13, 14, 16, 19, 20, 22, 23, 25, 26, 27, 28, 29, 30, 32, 33, 34, 36, 37,
      40, 41, 42, 44, 48, 50, 53, 56, 57, 58, 59, 60]]

/-- `Fs_TAB_CRC1`, …, `Fs_TAB_CRC4`. -/
def fsTabCrc : List (List ℕ) :=
  [[1, 4, 5, 7, 9, 10, 11, 12, 16, 19, 20, 22, 24, 25, 26, 27],
    [1, 2, 4, 6, 7, 8, 9, 13, 16, 17, 19, 21, 22, 23, 24, 28],
    [2, 3, 5, 7, 8, 9, 10, 14, 17, 18, 20, 22, 23, 24, 25, 29],
    [3, 4, 6, 8, 9, 10, 11, 15, 18, 19, 21, 23, 24, 25, 26, 30]]

section Sizes

-- the flag for frame stealing
variable (fs : Bool)

/-- `Size_Class0`: `N0` or `N0_2`. -/
def sizeClass0 : ℕ := if fs then 51 else 102

/-- `Size_Class1`: `N1` or `N1_2`. -/
def sizeClass1 : ℕ := if fs then 56 else 112

/-- `Size_Class2`: `N2` or `N2_2`. -/
def sizeClass2 : ℕ := if fs then 30 else 60

/-- `Size_Error_Control`: `Fs_SIZE_CRC` or `SIZE_CRC`. -/
def sizeErrorControl : ℕ := if fs then 4 else 8

end Sizes

/-! ## The lattice -/

/-- `Combination`. -/
def combination (a b : ℕ) : ℤ :=
  (List.range 5).foldl (fun comb i ↦ if a &&& b &&& 1 <<< i ≠ 0 then negate comb else comb) (-1)

/-- What `Init_Rcpc_Coding` and `Init_Rcpc_Decoding` set up: for each state the two before it and
the coded bits on the way. -/
structure Lattice where
  previous : ℕ → ℕ → ℕ := fun _ _ ↦ 0
  t1 : ℕ → ℕ → ℤ := fun _ _ ↦ 0
  t2 : ℕ → ℕ → ℤ := fun _ _ ↦ 0
  t3 : ℕ → ℕ → ℤ := fun _ _ ↦ 0
  msbBit : ℕ := 0
  m1 : ℕ := 0

/-- `Starting_state`. -/
def startingState (arrivalState lsb : ℕ) : ℕ := (arrivalState &&& 7) <<< 1 + lsb

/-- `Involved_bits`. -/
def involvedBits (arrivalState lsb : ℕ) : ℕ :=
  (arrivalState &&& 8) <<< 1 + startingState arrivalState lsb

/-- The loops of `Init_Rcpc_Coding` and `Init_Rcpc_Decoding`. -/
def initRcpc : Lattice where
  previous := startingState
  t1 a lsb := combination (involvedBits a lsb) 0x01F
  t2 a lsb := combination (involvedBits a lsb) 0x01B
  t3 a lsb := combination (involvedBits a lsb) 0x015
  msbBit := 8
  m1 := 15

/-! ## The encoder -/

/-- `Build_Sensitivity_Classes`. -/
def buildSensitivityClasses (fs : Bool) (input : List ℤ) : List ℤ :=
  if fs then (tab0 ++ tab1 ++ tab2).map fun pos ↦ input.getD (pos - 1) 0
  else (tab0 ++ tab1 ++ tab2).flatMap fun pos ↦
    [input.getD (pos - 1) 0, input.getD (137 + pos - 1) 0]

/-- `Transform_Class_0`. -/
def transformClass0 (fs : Bool) (frame : List ℤ) : List ℤ :=
  (frame.take (sizeClass0 fs)).map (fun x ↦ if x = 0 then 127 else -127) ++
    frame.drop (sizeClass0 fs)

/-- A bit of the CRC: the last bit of a sum. -/
def crcBit (fs : Bool) (frame : List ℤ) (tab : List ℕ) : ℤ :=
  tab.foldl (fun temp k ↦ add temp (frame.getD (sizeClass0 fs + sizeClass1 fs + k - 1) 0)) 0 % 2

/-- `Build_Crc`. -/
def buildCrc (fs : Bool) (frame : List ℤ) : List ℤ :=
  frame ++ (if fs then fsTabCrc else tabCrc).map (crcBit fs frame)

/-- The next `Index_puncturing`. -/
def nextIndex (ip : ℕ) : ℕ := if ip + 1 = 8 then 0 else ip + 1

/-- Whether class 1 keeps the second and the third bit. -/
def kept1 (ip : ℕ) : Bool × Bool := (a1.getD (ip + 8) 0 != 0, false)

/-- Whether class 2 keeps the second and the third bit. -/
def kept2 (fs : Bool) (ip : ℕ) : Bool × Bool :=
  (true, (if fs then fsA2 else a2).getD (ip + 16) 0 != 0)

/-- What is written for a transition. -/
def sent (t : ℤ) : ℤ := if 0 < t then -127 else 127

section Coding

variable (lattice : Lattice) (kept : ℕ → Bool × Bool)

/-- A loop of `Rcpc_Coding`: `state` is `Coder_state`. -/
def codeClass : ℕ → ℤ → List ℤ → List ℤ × ℤ
  | _, state, [] => ([], state)
  | ip, state, x :: input =>
    let lsb := (state % 2).toNat
    let temp := extractL (lMult (shr lattice.msbBit 1) x)
    let state := add temp (shr state 1)
    let (output, final) := codeClass (nextIndex ip) state input
    (sent (lattice.t1 state.toNat lsb) ::
      ((if (kept ip).1 then [sent (lattice.t2 state.toNat lsb)] else []) ++
        (if (kept ip).2 then [sent (lattice.t3 state.toNat lsb)] else []) ++ output), final)

end Coding

/-- `Rcpc_Coding`. -/
def rcpcCoding (lattice : Lattice) (fs : Bool) (frame : List ℤ) : List ℤ :=
  let class1 := (frame.drop (sizeClass0 fs)).take (sizeClass1 fs)
  let class2 := (frame.drop (sizeClass0 fs + sizeClass1 fs)).take
    (sizeClass2 fs + sizeErrorControl fs + 4)
  let (coded1, state) := codeClass lattice kept1 0 0 class1
  let (coded2, _) := codeClass lattice (kept2 fs) 0 state class2
  frame.take (sizeClass0 fs) ++ coded1 ++ coded2

/-- `Channel_Encoding`, after the initialisation: the block, or its second half. -/
def channelEncoding (lattice : Lattice) (fs : Bool) (input : List ℤ) : List ℤ :=
  let ordered := buildSensitivityClasses fs (if fs then input.drop 137 else input)
  let ordered := transformClass0 fs ordered
  let ordered := buildCrc fs ordered ++ [0, 0, 0, 0]
  rcpcCoding lattice fs ordered

/-! ## The code -/

/-- A bit as a word. -/
def word (b : Bool) : ℤ := if b then 1 else 0

/-- A coded bit as a word. -/
def level (b : Bool) : ℤ := if b then -127 else 127

/-- The delay line as a state. -/
def num (st : ConvState) : ℕ :=
  8 * st.d0.toNat + 4 * st.d1.toNat + 2 * st.d2.toNat + st.d3.toNat

/-- The positions of the kept bits of `n` stages in the mother code. -/
def positions (kept : ℕ → Bool × Bool) : ℕ → ℕ → List ℕ
  | _, 0 => []
  | ip, n + 1 => 0 :: ((if (kept ip).1 then [1] else []) ++ (if (kept ip).2 then [2] else []) ++
      (positions kept (nextIndex ip) n).map (· + 3))

/-- The kept bits of the mother code, from a state on. -/
def keptBits (kept : ℕ → Bool × Bool) (ip : ℕ) (st : ConvState) (bits : List Bool) : List Bool :=
  (positions kept ip bits.length).map fun p ↦ (speechConvEncode st bits).1.getD p false

theorem keptBits_cons (kept : ℕ → Bool × Bool) (ip : ℕ) {st : ConvState} {b x y z : Bool}
    (bits : List Bool) (hout : st.out b = [x, y, z]) :
    keptBits kept ip st (b :: bits) = x :: ((if (kept ip).1 then [y] else []) ++
      (if (kept ip).2 then [z] else []) ++ keptBits kept (nextIndex ip) (st.shift b) bits) := by
  rw [keptBits, keptBits, speechConvEncode_cons, hout, List.length_cons, positions]
  simp only [List.map_cons, List.map_append, List.map_map, Function.comp_def]
  cases (kept ip).1 <;> cases (kept ip).2 <;> rfl

/-- The register after a bit. -/
theorem num_shift (st : ConvState) (b : Bool) :
    add (extractL (lMult (shr initRcpc.msbBit 1) (word b))) (shr (num st) 1) =
      (num (st.shift b) : ℤ) := by
  obtain ⟨d0, d1, d2, d3⟩ := st
  cases b <;> cases d0 <;> cases d1 <;> cases d2 <;> cases d3 <;> decide

/-- **The lattice has the mother bits.** -/
theorem sent_transition (st : ConvState) (b : Bool) :
    [sent (initRcpc.t1 (num (st.shift b)) (num st % 2)),
      sent (initRcpc.t2 (num (st.shift b)) (num st % 2)),
      sent (initRcpc.t3 (num (st.shift b)) (num st % 2))] = (st.out b).map level := by
  obtain ⟨d0, d1, d2, d3⟩ := st
  cases b <;> cases d0 <;> cases d1 <;> cases d2 <;> cases d3 <;> rfl

/-- The coded bits of a transition, one by one. -/
theorem exists_out (st : ConvState) (b : Bool) : ∃ x y z, st.out b = [x, y, z] ∧
    sent (initRcpc.t1 (num (st.shift b)) (num st % 2)) = level x ∧
    sent (initRcpc.t2 (num (st.shift b)) (num st % 2)) = level y ∧
    sent (initRcpc.t3 (num (st.shift b)) (num st % 2)) = level z := by
  obtain ⟨x, y, z, hout⟩ : ∃ x y z, st.out b = [x, y, z] := ⟨_, _, _, rfl⟩
  have htrans := sent_transition st b
  rw [hout, List.map_cons, List.map_cons, List.map_singleton] at htrans
  simp only [List.cons.injEq, and_true] at htrans
  exact ⟨x, y, z, hout, htrans⟩

/-- **A class is coded by the mother code**, of which some bits are kept. -/
theorem codeClass_eq (kept : ℕ → Bool × Bool) (bits : List Bool) (ip : ℕ) (st : ConvState) :
    codeClass initRcpc kept ip (num st) (bits.map word) =
      ((keptBits kept ip st bits).map level, (num (speechConvEncode st bits).2 : ℤ)) := by
  induction bits generalizing ip st with
  | nil => rfl
  | cons b bits ih =>
      have hlsb : ((num st : ℤ) % 2).toNat = num st % 2 := by omega
      obtain ⟨x, y, z, hout, h1, h2, h3⟩ := exists_out st b
      rw [List.map_cons, codeClass, num_shift, ih, hlsb, Int.toNat_natCast, h1, h2, h3,
        keptBits_cons kept ip bits hout, speechConvEncode_cons]
      cases (kept ip).1 <;> cases (kept ip).2 <;> rfl

/-! ## The CRC -/

/-- The sum of so few bits does not saturate. -/
theorem foldl_add_mod_two {frame : List ℤ} {bits : List Bool} {off : ℕ}
    (h : ∀ k < bits.length, frame.getD (off + k) 0 = word (bits.getD k false)) (tab : List ℕ)
    (htab : ∀ k ∈ tab, 1 ≤ k ∧ k ≤ bits.length) (acc : ℤ) (hlo : 0 ≤ acc)
    (hhi : acc + tab.length ≤ 32767) :
    tab.foldl (fun temp k ↦ add temp (frame.getD (off + k - 1) 0)) acc % 2 =
      (acc + word (check (tab.map (· - 1)) bits)) % 2 := by
  induction tab generalizing acc with
  | nil =>
      simp [check, word]
  | cons k tab ih =>
      rw [List.forall_mem_cons] at htab
      have hk := htab.1
      have hbit : frame.getD (off + k - 1) 0 = word (bits.getD (k - 1) false) := by
        rw [← h (k - 1) (by omega), Nat.add_sub_assoc hk.1]
      have hword : 0 ≤ word (bits.getD (k - 1) false) ∧ word (bits.getD (k - 1) false) ≤ 1 := by
        cases bits.getD (k - 1) false <;> decide
      rw [List.length_cons] at hhi
      push_cast at hhi
      rw [List.foldl_cons, hbit, add, sature_of_mem (by omega) (by omega),
        ih htab.2 _ (by omega) (by omega)]
      simp only [check, List.map_cons, List.foldr_cons]
      generalize List.foldr (fun p c ↦ bits.getD p false ^^ c) false (tab.map (· - 1)) = c
      cases bits.getD (k - 1) false <;> cases c <;> simp [word]
      omega

theorem crcBit_eq {fs : Bool} {frame : List ℤ} {bits : List Bool}
    (h : ∀ k < bits.length,
      frame.getD (sizeClass0 fs + sizeClass1 fs + k) 0 = word (bits.getD k false))
    {tab : List ℕ} (htab : ∀ k ∈ tab, 1 ≤ k ∧ k ≤ bits.length) (hlen : tab.length ≤ 32767) :
    crcBit fs frame tab = word (check (tab.map (· - 1)) bits) := by
  rw [crcBit, foldl_add_mod_two h tab htab 0 le_rfl (by omega), zero_add]
  cases check (tab.map (· - 1)) bits <;> rfl

/-- The checks of the CRC. -/
def crcOf (fs : Bool) (class2 : List Bool) : List Bool :=
  (if fs then fsTabCrc else tabCrc).map fun tab ↦ check (tab.map (· - 1)) class2

section Division

theorem getD_flipAt {w : List Bool} {j : ℕ} (hj : j < w.length) (k : ℕ) :
    (flipAt w j).getD k false = (w.getD k false ^^ decide (k = j)) := by
  rw [flipAt]
  by_cases hk : k = j
  · subst hk
    rw [List.getD_eq_getElem _ _ (by rw [List.length_set]; exact hj), List.getElem_set_self]
    simp
  · rw [List.getD_eq_getElem?_getD, List.getElem?_set_ne (Ne.symm hk),
      ← List.getD_eq_getElem?_getD]
    simp [hk]

theorem length_flipAt (w : List Bool) (j : ℕ) : (flipAt w j).length = w.length :=
  List.length_set

/-- Whether a step at `d` flips bit `k`, if it flips any. -/
def flips (d k : ℕ) : Bool := decide (k = d) ^^ decide (k = d - 4) ^^ decide (k = d - 7)

theorem getD_crcStep {w : List Bool} {d : ℕ} (hd : d < w.length) (k : ℕ) :
    (crcStep w d).getD k false = (w.getD k false ^^ (w.getD d false && flips d k)) := by
  rw [crcStep, flips]
  cases w.getD d false with
  | false => simp
  | true =>
      rw [if_pos rfl, getD_flipAt (by rw [length_flipAt, length_flipAt]; omega),
        getD_flipAt (by rw [length_flipAt]; omega), getD_flipAt hd]
      simp

theorem length_foldl_crcStep (ds : List ℕ) (w : List Bool) :
    (ds.foldl crcStep w).length = w.length := by
  induction ds generalizing w with
  | nil => rfl
  | cons d ds ih => rw [List.foldl_cons, ih, length_crcStep]

/-- The positions of a check, moved back over a step of the division. -/
def pull (d : ℕ) (ps : List ℕ) : List ℕ :=
  if ps.foldr (fun k c ↦ flips d k ^^ c) false then toggle d ps else ps

/-- **A check of what a step makes is a check of what it is given.** -/
theorem check_crcStep (ps : List ℕ) {w : List Bool} {d : ℕ} (hd : d < w.length) :
    check ps (crcStep w d) = check (pull d ps) w := by
  have hsum : check ps (crcStep w d) =
      (check ps w ^^ (w.getD d false && ps.foldr (fun k c ↦ flips d k ^^ c) false)) := by
    induction ps with
    | nil => simp [check]
    | cons k ps ih =>
        simp only [check, List.foldr_cons] at ih ⊢
        rw [ih, getD_crcStep hd]
        generalize List.foldr (fun p c ↦ w.getD p false ^^ c) false ps = a
        generalize List.foldr (fun k c ↦ flips d k ^^ c) false ps = c
        cases w.getD k false <;> cases w.getD d false <;> cases flips d k <;> cases a <;>
          cases c <;> rfl
  rw [hsum, pull]
  split
  · rename_i hodd
    rw [check_toggle, hodd, Bool.and_true, Bool.xor_comm]
  · rename_i heven
    rw [eq_false_of_ne_true heven, Bool.and_false, Bool.xor_false]

theorem check_foldl_crcStep (ds ps : List ℕ) {w : List Bool} (hds : ∀ d ∈ ds, d < w.length) :
    check ps (ds.foldl crcStep w) = check (ds.foldr pull ps) w := by
  induction ds generalizing w with
  | nil => rfl
  | cons d ds ih =>
      rw [List.forall_mem_cons] at hds
      rw [List.foldl_cons, ih (by rw [length_crcStep]; exact hds.2), check_crcStep _ hds.1,
        List.foldr_cons]

/-- Where the division takes a bit. -/
def divisors : List ℕ := (List.range 60).map (66 - ·)

/-- What a check of the remainder looks at in class 2. -/
def source (ps : List ℕ) : List ℕ := ((divisors.foldr pull ps).filter (7 ≤ ·)).map (· - 7)

/-- The remainder. -/
def remainder (class2 : List Bool) : List Bool :=
  divisors.foldl crcStep (List.replicate 7 false ++ class2)

theorem check_remainder (ps : List ℕ) {class2 : List Bool} (h : class2.length = 60) :
    check ps (remainder class2) = check (source ps) class2 := by
  have hds : ∀ d ∈ divisors, d < (List.replicate 7 false ++ class2).length := by
    intro d hd
    obtain ⟨k, -, rfl⟩ := List.mem_map.1 hd
    rw [List.length_append, List.length_replicate, h]
    omega
  rw [remainder, check_foldl_crcStep _ _ hds, source]
  generalize divisors.foldr pull ps = qs
  induction qs with
  | nil => rfl
  | cons q qs ih =>
      rw [List.filter_cons]
      split
      · rename_i hq
        rw [decide_eq_true_iff] at hq
        rw [List.map_cons, check, List.foldr_cons, ← check, ih, check, check, List.foldr_cons,
          List.getD_append_right _ _ _ _ (by rw [List.length_replicate]; exact hq),
          List.length_replicate]
      · rename_i hq
        rw [decide_eq_true_iff, not_le] at hq
        rw [← ih, check, List.foldr_cons, ← check,
          List.getD_append _ _ _ _ (by rw [List.length_replicate]; exact hq),
          List.getD_replicate _ hq, Bool.false_xor]

/-- **The tables are the division.** -/
theorem tabCrc_perm : (∀ k < 7, ((tabCrc.getD k []).map (· - 1)).Perm (source [k])) ∧
    ((tabCrc.getD 7 []).map (· - 1)).Perm
      ((List.range 60).foldr toggle (source (List.range 7))) := by
  decide +kernel

/-- The sum of a list is the check of all its positions. -/
theorem foldl_xor_eq (xs : List Bool) (a : Bool) :
    xs.foldl xor a = (a ^^ check (List.range xs.length) xs) := by
  induction xs generalizing a with
  | nil => simp [check]
  | cons x xs ih =>
      have hshift : check ((List.range xs.length).map Nat.succ) (x :: xs) =
          check (List.range xs.length) xs :=
        Parity.check_map fun p _ ↦ List.getD_cons_succ
      rw [List.foldl_cons, ih, List.length_cons, List.range_succ_eq_map, check, check,
        List.foldr_cons, ← check, ← check, hshift, List.getD_cons_zero, Bool.xor_assoc]

theorem getD_crcOf (class2 : List Bool) {k : ℕ} (hk : k < 8) :
    (crcOf false class2).getD k false = check ((tabCrc.getD k []).map (· - 1)) class2 := by
  have hlen : (crcOf false class2).length = 8 := rfl
  rw [List.getD_eq_getElem _ _ (hlen ▸ hk), List.getD_eq_getElem tabCrc [] hk]
  exact List.getElem_map _

/-- **The sums are the CRC.** -/
theorem crcOf_eq {class2 : List Bool} (h : class2.length = 60) :
    crcOf false class2 = speechCrc class2 := by
  obtain ⟨hperm, hlast⟩ := tabCrc_perm
  have hrem : (remainder class2).length = 67 := by
    rw [remainder, length_foldl_crcStep, List.length_append, List.length_replicate, h]
  have hcrc : ((remainder class2).take 7).length = 7 := by rw [List.length_take, hrem]; rfl
  have hspeech : speechCrc class2 = (remainder class2).take 7 ++
      [(class2 ++ (remainder class2).take 7).foldl xor false] := rfl
  refine List.ext_getElem (by rw [length_speechCrc]; rfl) fun k hk hk' ↦ ?_
  have hk8 : k < 8 := hk
  rw [← List.getD_eq_getElem _ false hk', ← List.getD_eq_getElem _ false hk, getD_crcOf _ hk8,
    hspeech]
  rcases Nat.lt_succ_iff_lt_or_eq.1 hk8 with hk7 | rfl
  · have hbit : ((remainder class2).take 7).getD k false = check [k] (remainder class2) := by
      rw [check, List.foldr_cons, List.foldr_nil, Bool.xor_false, List.getD_eq_getElem?_getD,
        List.getElem?_take_of_lt hk7, ← List.getD_eq_getElem?_getD]
    rw [check_perm (hperm k hk7), List.getD_append _ _ _ _ (by omega), hbit, check_remainder _ h]
  · have htake : check (List.range 7) ((remainder class2).take 7) =
        check (List.range 7) (remainder class2) := by
      have hmap : check ((List.range 7).map id) ((remainder class2).take 7) =
          check (List.range 7) (remainder class2) := Parity.check_map fun p hp ↦ by
        rw [id, List.getD_eq_getElem?_getD, List.getElem?_take_of_lt (List.mem_range.1 hp),
          ← List.getD_eq_getElem?_getD]
      rwa [List.map_id] at hmap
    rw [check_perm hlast, check_foldr_toggle, List.getD_append_right _ _ _ _ hcrc.le, hcrc,
      Nat.sub_self, List.getD_cons_zero, List.foldl_append, foldl_xor_eq, foldl_xor_eq, h, hcrc,
      htake, check_remainder _ h, Bool.false_xor]

end Division

/-! ## The block -/

section Block

variable (fs : Bool) (acelp : List Bool)

/-- The positions in the frames, in the order of the classes. -/
def classOrder : List ℕ :=
  if fs then (tab0 ++ tab1 ++ tab2).map fun pos ↦ 137 + (pos - 1)
  else (tab0 ++ tab1 ++ tab2).flatMap fun pos ↦ [pos - 1, 137 + pos - 1]

/-- The bits of all classes. -/
def ordered : List Bool := (classOrder fs).map fun p ↦ acelp.getD p false

/-- The bits of class 0. -/
def class0 : List Bool := (ordered fs acelp).take (sizeClass0 fs)

/-- The bits of class 1. -/
def class1 : List Bool := ((ordered fs acelp).drop (sizeClass0 fs)).take (sizeClass1 fs)

/-- The bits of class 2. -/
def class2 : List Bool := (ordered fs acelp).drop (sizeClass0 fs + sizeClass1 fs)

/-- The bits of class 2 with the CRC and the tail. -/
def type2 : List Bool :=
  class2 fs acelp ++ crcOf fs (class2 fs acelp) ++ [false, false, false, false]

/-- The block. -/
def coded : List Bool :=
  class0 fs acelp ++ keptBits kept1 0 {} (class1 fs acelp) ++
    keptBits (kept2 fs) 0 (speechConvEncode {} (class1 fs acelp)).2 (type2 fs acelp)

theorem length_ordered : (ordered fs acelp).length =
    sizeClass0 fs + sizeClass1 fs + sizeClass2 fs := by
  rw [ordered, List.length_map]
  cases fs <;> decide +kernel

theorem length_class0 : (class0 fs acelp).length = sizeClass0 fs := by
  rw [class0, List.length_take, length_ordered]
  omega

theorem length_class1 : (class1 fs acelp).length = sizeClass1 fs := by
  rw [class1, List.length_take, List.length_drop, length_ordered]
  omega

theorem length_class2 : (class2 fs acelp).length = sizeClass2 fs := by
  rw [class2, List.length_drop, length_ordered]
  omega

theorem ordered_eq : ordered fs acelp = class0 fs acelp ++ class1 fs acelp ++ class2 fs acelp := by
  rw [class0, class1, class2, ← List.drop_drop, List.append_assoc, List.take_append_drop,
    List.take_append_drop]

theorem getD_map_word (bits : List Bool) (k : ℕ) :
    (bits.map word).getD k 0 = word (bits.getD k false) := by
  rw [List.getD_eq_getElem?_getD, List.getD_eq_getElem?_getD, List.getElem?_map]
  cases bits[k]? <;> rfl

theorem buildSensitivityClasses_eq :
    buildSensitivityClasses fs (if fs then (acelp.map word).drop 137 else acelp.map word) =
      (ordered fs acelp).map word := by
  rw [buildSensitivityClasses, ordered, classOrder]
  cases fs with
  | false =>
      simp only [Bool.false_eq_true, if_false, getD_map_word, List.map_flatMap, List.map_cons,
        List.map_nil]
  | true =>
      simp only [if_true, List.map_map, Function.comp_def]
      refine List.map_congr_left fun pos _ ↦ ?_
      rw [← List.map_drop, getD_map_word, getD_drop]

theorem transformClass0_eq : transformClass0 fs ((ordered fs acelp).map word) =
    (class0 fs acelp).map level ++ (class1 fs acelp ++ class2 fs acelp).map word := by
  have hlevel : ∀ b, (if word b = 0 then 127 else -127) = level b := by decide
  rw [transformClass0, ordered_eq, List.append_assoc, List.map_append,
    List.take_left' (by rw [List.length_map, length_class0]),
    List.drop_left' (by rw [List.length_map, length_class0]), List.map_map]
  simp only [Function.comp_def, hlevel]

theorem tabs_range : ∀ tab ∈ (if fs then fsTabCrc else tabCrc),
    (∀ k ∈ tab, 1 ≤ k ∧ k ≤ sizeClass2 fs) ∧ tab.length ≤ 32767 := by
  cases fs <;> decide

theorem buildCrc_eq :
    buildCrc fs ((class0 fs acelp).map level ++ (class1 fs acelp ++ class2 fs acelp).map word) =
      (class0 fs acelp).map level ++
        (class1 fs acelp ++ class2 fs acelp ++ crcOf fs (class2 fs acelp)).map word := by
  have hget : ∀ k < (class2 fs acelp).length,
      ((class0 fs acelp).map level ++ (class1 fs acelp ++ class2 fs acelp).map word).getD
        (sizeClass0 fs + sizeClass1 fs + k) 0 = word ((class2 fs acelp).getD k false) := by
    intro k _
    rw [List.getD_append_right _ _ _ _ (by rw [List.length_map, length_class0]; omega),
      List.length_map, length_class0, getD_map_word,
      List.getD_append_right _ _ _ _ (by rw [length_class1]; omega), length_class1]
    congr 2
    omega
  have hcrc : (if fs then fsTabCrc else tabCrc).map (crcBit fs
      ((class0 fs acelp).map level ++ (class1 fs acelp ++ class2 fs acelp).map word)) =
        (crcOf fs (class2 fs acelp)).map word := by
    rw [crcOf, List.map_map]
    refine List.map_congr_left fun tab htab ↦ ?_
    obtain ⟨hrange, hlen⟩ := tabs_range fs tab htab
    exact crcBit_eq hget (by rw [length_class2]; exact hrange) hlen
  rw [buildCrc, hcrc, List.append_assoc, ← List.map_append]

theorem length_type2 : (type2 fs acelp).length = sizeClass2 fs + sizeErrorControl fs + 4 := by
  have hcrc : (crcOf fs (class2 fs acelp)).length = sizeErrorControl fs := by
    rw [crcOf, List.length_map]
    cases fs <;> rfl
  rw [type2, List.length_append, List.length_append, length_class2, hcrc]
  rfl

/-- **The encoder's run through all classes.** -/
theorem channelEncoding_coded :
    channelEncoding initRcpc fs (acelp.map word) = (coded fs acelp).map level := by
  have htail : ([0, 0, 0, 0] : List ℤ) = [false, false, false, false].map word := rfl
  have hstart : (0 : ℤ) = (num {} : ℕ) := rfl
  have hframe : buildCrc fs (transformClass0 fs (buildSensitivityClasses fs
      (if fs then (acelp.map word).drop 137 else acelp.map word))) ++ [0, 0, 0, 0] =
        (class0 fs acelp).map level ++
          ((class1 fs acelp).map word ++ (type2 fs acelp).map word) := by
    rw [buildSensitivityClasses_eq, transformClass0_eq, buildCrc_eq, htail, List.append_assoc,
      ← List.map_append, ← List.map_append, type2]
    simp only [List.append_assoc]
  have hlen0 : ((class0 fs acelp).map level).length = sizeClass0 fs := by
    rw [List.length_map, length_class0]
  have hlen1 : ((class1 fs acelp).map word).length = sizeClass1 fs := by
    rw [List.length_map, length_class1]
  simp only [channelEncoding, hframe, rcpcCoding]
  rw [← List.drop_drop, List.drop_left' hlen0, List.take_left' hlen0, List.take_left' hlen1,
    List.drop_left' hlen1, List.take_of_length_le (by rw [List.length_map, length_type2]), hstart,
    codeClass_eq, codeClass_eq, coded, List.map_append, List.map_append]

end Block

/-! ## The two encoders -/

theorem map_range_getD {α β : Type*} (d : α) (xs : List α) (f : α → β) :
    (List.range xs.length).map (fun k ↦ f (xs.getD k d)) = xs.map f := by
  refine List.ext_getElem (by simp) fun k _ hk ↦ ?_
  rw [List.length_map] at hk
  rw [List.getElem_map, List.getElem_map, List.getElem_range, List.getD_eq_getElem _ _ hk]

theorem ordered_eq_codecToChannel (acelp : List Bool) :
    ordered false acelp = codecToChannel acelp := by
  have horder : classOrder false = channelOrder := by decide +kernel
  rw [ordered, horder, codecToChannel, gather, ← length_channelOrder]
  exact (map_range_getD 0 channelOrder fun p ↦ acelp.getD p false).symm

/-- The puncturing matrices are the tables of positions. -/
theorem positions_class1 : positions kept1 0 112 = (List.range 168).map rate112_168.index := by
  decide +kernel

theorem positions_class2 :
    positions (kept2 false) 0 72 = (List.range 162).map rate72_162.index := by
  decide +kernel

/-- **Without stealing the block is the one of `tetra_bs_tch_s_encode`**, before interleaving. -/
theorem coded_eq_sentType3 (acelp : List Bool) : coded false acelp = sentType3 acelp := by
  have h0 : class0 false acelp = sentClass0 acelp := by
    rw [class0, ordered_eq_codecToChannel]
    rfl
  have h1 : class1 false acelp = sentClass1 acelp := by
    rw [class1, ordered_eq_codecToChannel]
    rfl
  have h2 : class2 false acelp = sentClass2 acelp := by
    rw [sentClass2, List.take_of_length_le (by rw [List.length_drop, length_codecToChannel]),
      class2, ordered_eq_codecToChannel]
    rfl
  have ht : type2 false acelp = sentType2 acelp ++ [false, false, false, false] := by
    rw [type2, h2, crcOf_eq (length_sentClass2 acelp), sentType2]
  have hlen1 : (class1 false acelp).length = 112 := length_class1 false acelp
  have hlen2 : (type2 false acelp).length = 72 := length_type2 false acelp
  rw [coded, keptBits, keptBits, hlen1, hlen2, positions_class1, positions_class2, h0, h1, ht,
    sentType3, sentMother1, sentMother2, Puncturer.punct, Puncturer.punct, gather, gather,
    List.map_map, List.map_map]
  simp only [Function.comp_def]

end TetraPhy.Etsi
