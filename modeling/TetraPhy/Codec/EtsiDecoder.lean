import TetraPhy.Codec.EtsiEncoder
import TetraPhy.Lib.Run

/-!
# The reference decoder of the speech channel

`etsi_codec`: a Viterbi decoder that keeps the last 30 steps, decodes a bit for each step and the
last 30 at once, and takes away the highest score in each step; `tetra_etsi_tch_s.c` around both
ways.  The lattice is set up at the first call of either.

As long as the soft values have the signs of what was sent, the state of the encoder is the only one
with the highest score, whatever their magnitudes, and what the ring keeps leads back along the
encoder's path (`Tracks`).

* `channelDecoding_softs` — every block is decoded, with and without frame stealing;
* `encodeBurst_agrees` — in any order of calls, the blocks are those of `tetra_bs_tch_s.c`;
* `decodeBurst_agrees` — and these are decoded.
-/

namespace TetraPhy.Etsi

open Permute Speech

/-! ## The decoder -/

/-- `Received`. -/
structure Received where
  r0 : ℤ
  r1 : ℤ
  r2 : ℤ

/-- A value as it is received: the sign turns over. -/
def symmetric (x : ℤ) : ℤ := negate (sub (shl x 1) 1)

/-- The value of a bit that is kept, 0 for one that is not. -/
def loadOne (kept : Bool) : List ℤ → ℤ × List ℤ
  | [] => (0, [])
  | x :: input => if kept then (symmetric x, input) else (0, x :: input)

theorem length_loadOne_le (kept : Bool) (input : List ℤ) :
    (loadOne kept input).2.length ≤ input.length := by
  cases input with
  | nil => exact le_rfl
  | cons x input => cases kept <;> simp [loadOne]

/-- What the loops over a coded class load, step by step. -/
def load (kept : ℕ → Bool × Bool) (ip : ℕ) : List ℤ → List Received
  | [] => []
  | x :: input =>
    let one := loadOne (kept ip).1 input
    let two := loadOne (kept ip).2 one.2
    ⟨symmetric x, one.1, two.1⟩ :: load kept (nextIndex ip) two.2
termination_by input => input.length
decreasing_by
  have h1 := length_loadOne_le (kept ip).1 input
  have h2 := length_loadOne_le (kept ip).2 (loadOne (kept ip).1 input).2
  rw [List.length_cons]
  omega

/-- The variables of `Rcpc_Decoding`. -/
structure Decoder where
  score : ℕ → ℤ
  bestPrevious : ℕ → ℤ → ℕ
  best : ℕ := 0
  step : ℤ := -1
  stepBis : ℤ := -1
  ready : Bool := false
  output : List ℤ := []

/-- `L_shl`, without overflow. -/
def lShl (x : ℤ) (n : ℕ) : ℤ := x * 2 ^ n

/-- `extract_h`. -/
def extractH (x : ℤ) : ℤ := x / 65536

/-- The bit of a state. -/
def bitOf (best : ℕ) : ℤ := extractH (lShl best 13)

/-- A pointer into the ring, moved back. -/
def pointerBack (pointer : ℤ) : ℤ := if pointer - 1 < 0 then 29 else pointer - 1

/-- The way back by so many steps. -/
def trace (bestPrevious : ℕ → ℤ → ℕ) : ℕ → ℕ → ℤ → ℕ
  | 0, best, _ => best
  | j + 1, best, pointer => trace bestPrevious j (bestPrevious best pointer) (pointerBack pointer)

/-- The bits of the block decoding, the last one first. -/
def blockBits (bestPrevious : ℕ → ℤ → ℕ) : ℕ → ℕ → ℤ → List ℤ
  | 0, _, _ => []
  | j + 1, best, pointer =>
    bitOf best :: blockBits bestPrevious j (bestPrevious best pointer) (pointerBack pointer)

namespace Decoder

variable (lattice : Lattice) (d : Decoder) (r : Received)

/-- What is added for a received value. -/
def gain (t r : ℤ) : ℤ := if 0 < t then r else negate r

/-- `Essai`, for a way into a state. -/
def essai (arrivalState lsb : ℕ) : ℤ :=
  add (add (add (d.score (lattice.previous arrivalState lsb))
    (gain (lattice.t1 arrivalState lsb) r.r0)) (gain (lattice.t2 arrivalState lsb) r.r1))
    (gain (lattice.t3 arrivalState lsb) r.r2)

/-- `Chosen_lsb`. -/
def chosenLsb (arrivalState : ℕ) : ℕ :=
  if 0 < sub (d.essai lattice r arrivalState 1) (d.essai lattice r arrivalState 0) then 1 else 0

/-- `Chosen_score`. -/
def chosenScore (arrivalState : ℕ) : ℤ :=
  d.essai lattice r arrivalState (d.chosenLsb lattice r arrivalState)

/-- The order of the states in a step. -/
def states : List ℕ :=
  let half := (lattice.m1 + 1) / 2
  (List.range' half half).flatMap fun arrivalState ↦ [arrivalState, arrivalState - half]

/-- `Best` and `Maximum`, with a state more. -/
def better (now : ℕ × ℤ) (arrivalState : ℕ) : ℕ × ℤ :=
  if 0 < sub (d.chosenScore lattice r arrivalState) now.2 then
    (arrivalState, d.chosenScore lattice r arrivalState)
  else now

/-- `Best` and `Maximum`. -/
def maximum : ℕ × ℤ := (states lattice).foldl (d.better lattice r) (d.best, -32768)

/-- The next `Step`. -/
def nextStep : ℤ := if d.step + 1 = 30 then 0 else d.step + 1

/-- A step, up to the decoding. -/
def stage : Decoder where
  score s := sub (d.chosenScore lattice r s) (d.maximum lattice r).2
  bestPrevious s k :=
    if k = d.nextStep then lattice.previous s (d.chosenLsb lattice r s) else d.bestPrevious s k
  best := (d.maximum lattice r).1
  step := d.nextStep
  stepBis := d.stepBis + 1
  ready := d.ready
  output := d.output

/-- The decoding of one bit. -/
def decodeOne : Decoder :=
  { d with
    best := trace d.bestPrevious 29 d.best d.step
    output := d.output ++ [bitOf (trace d.bestPrevious 29 d.best d.step)] }

/-- The block decoding: the bits end with that of the last step. -/
def decodeBlock : Decoder :=
  { d with
    best := trace d.bestPrevious 30 0 d.step
    output := d.output ++ (blockBits d.bestPrevious 30 0 d.step).reverse }

/-- A step of the loop over class 1. -/
def step1 : Decoder :=
  let d := d.stage lattice r
  let d := { d with ready := d.ready || d.step == 29 }
  if d.ready then d.decodeOne else d

/-- A step of the loop over class 2. -/
def step2 (last : ℤ) : Decoder :=
  let d := d.stage lattice r
  if d.stepBis = last then d.decodeBlock else d.decodeOne

end Decoder

/-- `Size_Coded_Class1`: `N1_coded` or `N1_2_coded`. -/
def sizeCodedClass1 (fs : Bool) : ℕ := if fs then 84 else 168

/-- `Size_Coded_Class2`: `N2_coded` or `N2_2_coded`. -/
def sizeCodedClass2 (fs : Bool) : ℕ := if fs then 81 else 162

/-- The value of `Step_bis` at which the block decoding starts. -/
def lastStep (fs : Bool) : ℤ :=
  (sizeClass1 fs + sizeClass2 fs + sizeErrorControl fs + 4 - 1 : ℕ)

/-- `Rcpc_Decoding`: the decoded frame, and what it leaves in the ring. -/
def rcpcDecoding (lattice : Lattice) (ring : ℕ → ℤ → ℕ) (fs : Bool) (input : List ℤ) :
    List ℤ × (ℕ → ℤ → ℕ) :=
  let start : Decoder := { score := fun s ↦ if s = 0 then 0 else -16000, bestPrevious := ring }
  let coded1 := (input.drop (sizeClass0 fs)).take (sizeCodedClass1 fs)
  let coded2 := (input.drop (sizeClass0 fs + sizeCodedClass1 fs)).take (sizeCodedClass2 fs)
  let d := (load kept1 0 coded1).foldl (Decoder.step1 lattice) start
  let d := (load (kept2 fs) 0 coded2).foldl (fun d r ↦ d.step2 lattice r (lastStep fs)) d
  (input.take (sizeClass0 fs) ++ d.output, d.bestPrevious)

/-- `Bfi`. -/
def bfi (fs : Bool) (frame : List ℤ) : ℤ :=
  let crc := (if fs then fsTabCrc else tabCrc).map (crcBit fs frame)
  let off := sizeClass0 fs + sizeClass1 fs + sizeClass2 fs
  (List.range crc.length).foldl
    (fun bad k ↦ if sub (crc.getD k 0) (frame.getD (off + k) 0) ≠ 0 then 1 else bad) 0

/-- `Untransform_Class_0`. -/
def untransformClass0 (fs : Bool) (frame : List ℤ) : List ℤ :=
  (frame.take (sizeClass0 fs)).map (fun x ↦ if 0 ≤ x then 0 else 1) ++ frame.drop (sizeClass0 fs)

/-- `Unbuild_Sensitivity_Classes`. -/
def unbuildSensitivityClasses (fs : Bool) (frame : List ℤ) : List ℤ :=
  if fs then
    scatter 0 137 (fun k ↦ ((tab0 ++ tab1 ++ tab2).map fun pos ↦ pos - 1).getD k 0) frame
  else
    scatter 0 274 (fun k ↦ ((tab0 ++ tab1 ++ tab2).flatMap fun pos ↦
      [pos - 1, 137 + pos - 1]).getD k 0) frame

/-- `Channel_Decoding`, after the initialisation: the frames, or the second one, with the bad frame
indication and the ring. -/
def channelDecoding (lattice : Lattice) (ring : ℕ → ℤ → ℕ) (fs : Bool) (input : List ℤ) :
    List ℤ × ℤ × (ℕ → ℤ → ℕ) :=
  let (decoded, ring) := rcpcDecoding lattice ring fs input
  (unbuildSensitivityClasses fs (untransformClass0 fs decoded), bfi fs decoded, ring)

/-! ## The wrapper -/

/-- The static variables of both files. -/
structure Statics where
  lattice : Lattice := {}
  bestPrevious : ℕ → ℤ → ℕ := fun _ _ ↦ 0
  encodeFirstPass : Bool := true
  decodeFirstPass : Bool := true

/-- The calls of the wrapper. -/
inductive Call
  | encode (acelp : List Bool) (scrambInit : UInt32)
  | decode (type5 : List Bool) (scrambInit : UInt32)

namespace Statics

variable (s : Statics)

/-- `tetra_etsi_tch_s_encode_burst`. -/
def encodeBurst (acelp : List Bool) (scrambInit : UInt32) : List Bool × Statics :=
  let lattice := if s.encodeFirstPass then initRcpc else s.lattice
  let output := channelEncoding lattice false (acelp.map word)
  let channelCoded := output.map fun x ↦ decide (x < 0)
  (scramble (interleaveSpeech channelCoded) scrambInit,
    { s with lattice := lattice, encodeFirstPass := false })

/-- `tetra_etsi_tch_s_decode_burst`. -/
def decodeBurst (type5 : List Bool) (scrambInit : UInt32) : (List Bool × ℤ) × Statics :=
  let lattice := if s.decodeFirstPass then initRcpc else s.lattice
  let deinterleaved := deinterleaveSpeech false (scramble type5 scrambInit)
  let (output, bad, ring) := channelDecoding lattice s.bestPrevious false (deinterleaved.map level)
  ((output.map fun x ↦ decide (x % 2 = 1), if bad ≠ 0 then -1 else 0),
    { s with lattice := lattice, bestPrevious := ring, decodeFirstPass := false })

/-- A call. -/
def step : Call → Statics
  | .encode acelp scrambInit => (s.encodeBurst acelp scrambInit).2
  | .decode type5 scrambInit => (s.decodeBurst type5 scrambInit).2

end Statics

/-! ## Words -/

theorem add_eq {x c : ℤ} (hlo : -32768 ≤ x + c) (hhi : x + c ≤ 32767) : add x c = x + c :=
  sature_of_mem hlo hhi

theorem sature_le {x m : ℤ} (hx : x ≤ m) (hm : -32768 ≤ m) : sature x ≤ m := by
  rw [sature]
  split_ifs <;> omega

/-- A sum of three stays below the sum of bounds, if it starts from one in range. -/
theorem add_add_add_le {x c0 c1 c2 m m1 m2 : ℤ} (h0 : x + c0 ≤ m) (hm : -32768 ≤ m) (h1 : c1 ≤ m1)
    (hm1 : 0 ≤ m1) (h2 : c2 ≤ m2) (hm2 : 0 ≤ m2) : add (add (add x c0) c1) c2 ≤ m + m1 + m2 := by
  have hadd0 : add x c0 ≤ m := sature_le h0 hm
  have hadd1 : add (add x c0) c1 ≤ m + m1 := sature_le (by omega) (by omega)
  exact sature_le (by omega) (by omega)

theorem sub_pos_iff {x y : ℤ} : 0 < sub x y ↔ y < x := by
  rw [sub, sature]
  split_ifs <;> omega

theorem gain_le {t t' r : ℤ} (hlo : 0 ≤ Decoder.gain t' r) (hhi : Decoder.gain t' r ≤ 255) :
    Decoder.gain t r ≤ Decoder.gain t' r := by
  simp only [Decoder.gain, negate] at hlo hhi ⊢
  split_ifs at hlo hhi ⊢ <;> omega

/-! ## The encoder's path -/

section Path

variable (b : ℕ → Bool)

/-- The state of the encoder after `t` bits. -/
def path : ℕ → ℕ
  | 0 => 0
  | t + 1 => 8 * (b t).toNat + path t / 2

theorem path_lt (t : ℕ) : path b t < 16 := by
  induction t with
  | zero => exact Nat.zero_lt_succ 15
  | succ t ih =>
      rw [path]
      cases b t <;> simp <;> omega

theorem bitOf_path (t : ℕ) : bitOf (path b (t + 1)) = word (b t) := by
  have hlt := path_lt b t
  rw [bitOf, extractH, lShl, path]
  cases b t <;> simp [word] <;> omega

end Path

/-- What is added for a received value on the encoder's way with a bit. -/
def onWay (t : ℕ → ℕ → ℤ) (n : ℕ) (bit : Bool) (r : ℤ) : ℤ :=
  Decoder.gain (t (8 * bit.toNat + n / 2) (n % 2)) r

/-- A received value has the sign of what was sent, or is 0, which the first one must not be. -/
structure Hears (n : ℕ) (bit : Bool) (r : Received) : Prop where
  r0 : 1 ≤ onWay initRcpc.t1 n bit r.r0 ∧ onWay initRcpc.t1 n bit r.r0 ≤ 255
  r1 : 0 ≤ onWay initRcpc.t2 n bit r.r1 ∧ onWay initRcpc.t2 n bit r.r1 ≤ 255
  r2 : 0 ≤ onWay initRcpc.t3 n bit r.r2 ∧ onWay initRcpc.t3 n bit r.r2 ≤ 255

/-- The state before, as the lattice has it. -/
theorem startingState_way : ∀ n < 16, ∀ bit : Bool,
    startingState (8 * bit.toNat + n / 2) (n % 2) = n := by decide

/-- The ways into a state. -/
theorem way_of_startingState : ∀ a < 16, ∀ lsb < 2, startingState a lsb < 16 ∧
    ∃ bit : Bool, a = 8 * bit.toNat + startingState a lsb / 2 ∧ lsb = startingState a lsb % 2 := by
  decide

/-- The first coded bit tells the two ways out of a state apart. -/
theorem t1_not : ∀ n < 16, ∀ bit : Bool, 0 < initRcpc.t1 (8 * (!bit).toNat + n / 2) (n % 2) ↔
    ¬0 < initRcpc.t1 (8 * bit.toNat + n / 2) (n % 2) := by decide

theorem onWay_not {n : ℕ} (hn : n < 16) {bit : Bool} {r : ℤ} (hlo : 1 ≤ onWay initRcpc.t1 n bit r)
    (hhi : onWay initRcpc.t1 n bit r ≤ 255) :
    onWay initRcpc.t1 n (!bit) r = -onWay initRcpc.t1 n bit r := by
  have hnot := t1_not n hn bit
  simp only [onWay, Decoder.gain, negate] at hlo hhi ⊢
  split_ifs at hlo hhi ⊢ <;> omega

namespace Decoder

section Stage

variable {d : Decoder} {r : Received} {n : ℕ} {bit : Bool}

/-- What the encoder's way adds in a step. -/
def total (n : ℕ) (bit : Bool) (r : Received) : ℤ :=
  onWay initRcpc.t1 n bit r.r0 + onWay initRcpc.t2 n bit r.r1 + onWay initRcpc.t3 n bit r.r2

/-- The state of the encoder has the highest score. -/
structure Leads (n : ℕ) (d : Decoder) : Prop where
  lt : n < 16
  self : d.score n = 0
  other : ∀ p < 16, p ≠ n → d.score p ≤ -1

variable (h : Leads n d) (hr : Hears n bit r)
include h hr

theorem Leads.essai_way : d.essai initRcpc r (8 * bit.toNat + n / 2) (n % 2) = total n bit r := by
  obtain ⟨⟨h0, h0'⟩, ⟨h1, h1'⟩, h2, h2'⟩ := hr
  have hprev : initRcpc.previous (8 * bit.toNat + n / 2) (n % 2) = n :=
    startingState_way n h.lt bit
  have hadd0 : add 0 (onWay initRcpc.t1 n bit r.r0) = onWay initRcpc.t1 n bit r.r0 := by
    rw [add_eq (by omega) (by omega), zero_add]
  have hadd1 := add_eq (x := onWay initRcpc.t1 n bit r.r0) (c := onWay initRcpc.t2 n bit r.r1)
    (by omega) (by omega)
  rw [total, essai, hprev, h.self]
  change add (add (add 0 (onWay initRcpc.t1 n bit r.r0)) (onWay initRcpc.t2 n bit r.r1))
    (onWay initRcpc.t3 n bit r.r2) = _
  rw [hadd0, hadd1, add_eq (by omega) (by omega)]

/-- **Every other way has less.** -/
theorem Leads.essai_lt {a lsb : ℕ} (ha : a < 16) (hlsb : lsb < 2)
    (hne : ¬(a = 8 * bit.toNat + n / 2 ∧ lsb = n % 2)) :
    d.essai initRcpc r a lsb < total n bit r := by
  obtain ⟨⟨h0, h0'⟩, ⟨h1, h1'⟩, h2, h2'⟩ := hr
  obtain ⟨hlt, bit', hway, hlow⟩ := way_of_startingState a ha lsb hlsb
  have hgain1 : gain (initRcpc.t2 a lsb) r.r1 ≤ onWay initRcpc.t2 n bit r.r1 := gain_le h1 h1'
  have hgain2 : gain (initRcpc.t3 a lsb) r.r2 ≤ onWay initRcpc.t3 n bit r.r2 := gain_le h2 h2'
  have hprev : initRcpc.previous a lsb = startingState a lsb := rfl
  rw [total, essai, hprev]
  by_cases hn : startingState a lsb = n
  · -- the other way out of the state: its first coded bit is the other one
    rw [hn] at hway hlow ⊢
    have hbit : bit' = !bit := by
      cases bit <;> cases bit' <;> simp_all
    have hgain0 : gain (initRcpc.t1 a lsb) r.r0 = -onWay initRcpc.t1 n bit r.r0 := by
      rw [hway, hlow, hbit]
      exact onWay_not h.lt h0 h0'
    rw [h.self, hgain0]
    have hle := add_add_add_le (zero_add (-onWay initRcpc.t1 n bit r.r0)).le (by omega) hgain1 h1
      hgain2 h2
    exact lt_of_le_of_lt hle (by omega)
  · -- the way from a state behind
    have hscore := h.other _ hlt hn
    have hgain0 : gain (initRcpc.t1 a lsb) r.r0 ≤ onWay initRcpc.t1 n bit r.r0 :=
      gain_le (zero_le_one.trans h0) h0'
    have hsum : d.score (startingState a lsb) + gain (initRcpc.t1 a lsb) r.r0 ≤
        onWay initRcpc.t1 n bit r.r0 - 1 := by omega
    have hle := add_add_add_le hsum (by omega) hgain1 h1 hgain2 h2
    exact lt_of_le_of_lt hle (by omega)

theorem Leads.chosenLsb_way : d.chosenLsb initRcpc r (8 * bit.toNat + n / 2) = n % 2 := by
  have ha : 8 * bit.toNat + n / 2 < 16 := by
    have hlt := h.lt
    cases bit <;> simp <;> omega
  have hway := h.essai_way hr
  rw [chosenLsb]
  rcases Nat.mod_two_eq_zero_or_one n with h0 | h1
  · have hlt := h.essai_lt hr ha (show 1 < 2 by norm_num) (by omega)
    rw [h0] at hway ⊢
    rw [if_neg]
    rw [sub_pos_iff, hway]
    omega
  · have hlt := h.essai_lt hr ha (show 0 < 2 by norm_num) (by omega)
    rw [h1] at hway ⊢
    rw [if_pos]
    rw [sub_pos_iff, hway]
    exact hlt

theorem Leads.chosenScore_way :
    d.chosenScore initRcpc r (8 * bit.toNat + n / 2) = total n bit r := by
  rw [chosenScore, h.chosenLsb_way hr, h.essai_way hr]

theorem Leads.chosenScore_lt {a : ℕ} (ha : a < 16) (hne : a ≠ 8 * bit.toNat + n / 2) :
    d.chosenScore initRcpc r a < total n bit r := by
  refine h.essai_lt hr ha ?_ fun hc ↦ hne hc.1
  rw [chosenLsb]
  split <;> norm_num

/-- **The maximum is found at the encoder's next state.** -/
theorem Leads.maximum_eq :
    d.maximum initRcpc r = (8 * bit.toNat + n / 2, total n bit r) := by
  have hpos : 1 ≤ total n bit r := by
    obtain ⟨⟨h0, -⟩, ⟨h1, -⟩, h2, -⟩ := hr
    rw [total]
    omega
  have hfold : ∀ (l : List ℕ) (now : ℕ × ℤ), (∀ a ∈ l, a < 16) →
      (now = (8 * bit.toNat + n / 2, total n bit r) ∨
        now.2 < total n bit r ∧ 8 * bit.toNat + n / 2 ∈ l) →
      l.foldl (d.better initRcpc r) now = (8 * bit.toNat + n / 2, total n bit r) := by
    intro l
    induction l with
    | nil =>
        rintro now - (hnow | ⟨-, hmem⟩)
        · exact hnow
        · cases hmem
    | cons a l ih =>
        intro now hl hnow
        rw [List.forall_mem_cons] at hl
        rw [List.foldl_cons]
        refine ih _ hl.2 ?_
        rw [better]
        by_cases ha : a = 8 * bit.toNat + n / 2
        · left
          rw [ha, h.chosenScore_way hr]
          split
          · rfl
          · rename_i hnot
            rw [sub_pos_iff] at hnot
            rcases hnow with hnow | ⟨hlt, -⟩
            · exact hnow
            · exact absurd hlt hnot
        · have hlt := h.chosenScore_lt hr hl.1 ha
          rcases hnow with rfl | ⟨hnow, hmem⟩
          · left
            rw [if_neg]
            rw [sub_pos_iff]
            exact not_lt.2 hlt.le
          · right
            rw [List.mem_cons] at hmem
            refine ⟨?_, hmem.resolve_left fun hc ↦ ha hc.symm⟩
            split
            · exact hlt
            · exact hnow
  have hall : ∀ a ∈ states initRcpc, a < 16 := by decide
  have hmem : ∀ a < 16, a ∈ states initRcpc := by decide
  refine hfold _ _ hall (.inr ⟨by simp only; omega, hmem _ ?_⟩)
  have hlt := h.lt
  cases bit <;> simp <;> omega

/-- **The encoder's next state leads after the step.** -/
theorem Leads.stage : Leads (8 * bit.toNat + n / 2) (d.stage initRcpc r) := by
  have hscore : ∀ s, (d.stage initRcpc r).score s =
      sub (d.chosenScore initRcpc r s) (total n bit r) := fun s ↦ by
    rw [Decoder.stage, h.maximum_eq hr]
  refine ⟨?_, ?_, fun p hp hne ↦ ?_⟩
  · have hlt := h.lt
    cases bit <;> simp <;> omega
  · rw [hscore, h.chosenScore_way hr, sub, sub_self]
    rfl
  · have hlt := h.chosenScore_lt hr hp hne
    rw [hscore]
    exact sature_le (by omega) (by norm_num)

end Stage

/-! ## The ring -/

/-- After `t` steps the state of the encoder leads, and for each of the last 30 states on its path
the ring has the one before. -/
structure Tracks (b : ℕ → Bool) (t : ℕ) (d : Decoder) : Prop where
  leads : Leads (path b t) d
  stepBis : d.stepBis = t - 1
  step : d.step = if t = 0 then -1 else ((t : ℤ) - 1) % 30
  back : ∀ k < t, t ≤ k + 30 → d.bestPrevious (path b (k + 1)) ((k : ℤ) % 30) = path b k

variable {b : ℕ → Bool} {t : ℕ} {d : Decoder} {r : Received}

theorem Tracks.nextStep_eq (h : Tracks b t d) : d.nextStep = (t : ℤ) % 30 := by
  rw [nextStep, h.step]
  split_ifs <;> omega

/-- **A step more.** -/
theorem Tracks.stage (h : Tracks b t d) (hr : Hears (path b t) (b t) r) :
    Tracks b (t + 1) (d.stage initRcpc r) ∧ (d.stage initRcpc r).best = path b (t + 1) := by
  have hmax := h.leads.maximum_eq hr
  refine ⟨⟨h.leads.stage hr, ?_, ?_, fun k hk hring ↦ ?_⟩, ?_⟩
  · rw [Decoder.stage, h.stepBis]
    push_cast
    ring
  · rw [Decoder.stage, h.nextStep_eq, if_neg (Nat.succ_ne_zero t), Nat.cast_succ,
      add_sub_cancel_right]
  · simp only [Decoder.stage, h.nextStep_eq]
    rcases Nat.lt_succ_iff_lt_or_eq.1 hk with hlt | rfl
    · rw [if_neg (by omega)]
      exact h.back k hlt (by omega)
    · rw [if_pos rfl, path, h.leads.chosenLsb_way hr]
      exact startingState_way _ (path_lt b k) (b k)
  · rw [Decoder.stage, hmax, path]

/-- A pointer into the ring, as the step it belongs to. -/
theorem pointerBack_eq (s : ℤ) : pointerBack (s % 30) = (s - 1) % 30 := by
  rw [pointerBack]
  split_ifs <;> omega

/-- **The ring leads back along the path.** -/
theorem Tracks.trace_eq (h : Tracks b t d) (j s : ℕ) (hjs : j ≤ s) (hst : s ≤ t)
    (hring : t + j ≤ s + 30) :
    trace d.bestPrevious j (path b s) (((s : ℤ) - 1) % 30) = path b (s - j) := by
  induction j generalizing s with
  | zero => rfl
  | succ j ih =>
      obtain ⟨s, rfl⟩ : ∃ s', s = s' + 1 := ⟨s - 1, by omega⟩
      rw [trace, pointerBack_eq, Nat.cast_succ, add_sub_cancel_right,
        h.back s (by omega) (by omega), ih s (by omega) (by omega) (by omega),
        Nat.add_sub_add_right]

/-- **The block decoding gives the last bits.** -/
theorem Tracks.blockBits_eq (h : Tracks b t d) (j s : ℕ) (hjs : j ≤ s) (hst : s ≤ t)
    (hring : t + j ≤ s + 30) :
    (blockBits d.bestPrevious j (path b s) (((s : ℤ) - 1) % 30)).reverse =
      (List.range' (s - j) j).map fun k ↦ word (b k) := by
  induction j generalizing s with
  | zero => rfl
  | succ j ih =>
      obtain ⟨s, rfl⟩ : ∃ s', s = s' + 1 := ⟨s - 1, by omega⟩
      rw [blockBits, pointerBack_eq, Nat.cast_succ, add_sub_cancel_right,
        h.back s (by omega) (by omega), List.reverse_cons,
        ih s (by omega) (by omega) (by omega), bitOf_path, List.range'_concat, List.map_append,
        Nat.add_sub_add_right, Nat.one_mul, Nat.sub_add_cancel (by omega)]
      rfl

/-! ## The loops -/

/-- All but the last 29 bits of the path are decoded. -/
structure Decodes (b : ℕ → Bool) (t : ℕ) (d : Decoder) : Prop where
  tracks : Tracks b t d
  ready : d.ready = decide (30 ≤ t)
  output : d.output = (List.range (t - 29)).map fun k ↦ word (b k)

/-- The decoding of one bit, after a step. -/
theorem Tracks.decodeOne (h : Tracks b (t + 1) d) (hbest : d.best = path b (t + 1)) (ht : 29 ≤ t)
    (hout : d.output = (List.range (t - 29)).map fun k ↦ word (b k)) :
    Tracks b (t + 1) d.decodeOne ∧
      d.decodeOne.output = (List.range (t + 1 - 29)).map fun k ↦ word (b k) := by
  have hstep : d.step = ((t + 1 : ℕ) - 1 : ℤ) % 30 := by
    rw [h.step, if_neg (Nat.succ_ne_zero t)]
  have htrace := h.trace_eq 29 (t + 1) (by omega) le_rfl (by omega)
  have hback : t + 1 - 29 = t - 29 + 1 := by omega
  refine ⟨⟨⟨h.leads.lt, h.leads.self, h.leads.other⟩, h.stepBis, h.step, h.back⟩, ?_⟩
  simp only [Decoder.decodeOne]
  rw [hbest, hstep, htrace, hout, hback, bitOf_path, List.range_succ, List.map_append]
  rfl

/-- A step in class 1. -/
theorem Decodes.step1 (h : Decodes b t d) (hr : Hears (path b t) (b t) r) :
    Decodes b (t + 1) (d.step1 initRcpc r) := by
  obtain ⟨htracks, hbest⟩ := h.tracks.stage hr
  have hready : (d.ready || (d.stage initRcpc r).step == 29) = decide (30 ≤ t + 1) := by
    rw [h.ready, htracks.step, if_neg (Nat.succ_ne_zero t), Bool.eq_iff_iff, Bool.or_eq_true,
      decide_eq_true_iff, beq_iff_eq, decide_eq_true_iff]
    omega
  have htracks' : Tracks b (t + 1) { d.stage initRcpc r with
      ready := (d.stage initRcpc r).ready || (d.stage initRcpc r).step == 29 } :=
    ⟨⟨htracks.leads.lt, htracks.leads.self, htracks.leads.other⟩, htracks.stepBis, htracks.step,
      htracks.back⟩
  have hready' : ((d.stage initRcpc r).ready || (d.stage initRcpc r).step == 29) =
      decide (30 ≤ t + 1) := hready
  rw [Decoder.step1]
  simp only [hready'] at htracks' ⊢
  by_cases ht : 30 ≤ t + 1
  · rw [decide_eq_true ht, if_pos rfl]
    rw [decide_eq_true ht] at htracks'
    obtain ⟨htracks'', hout⟩ := htracks'.decodeOne hbest (by omega) h.output
    exact ⟨htracks'', (decide_eq_true ht).symm, hout⟩
  · rw [decide_eq_false ht, if_neg Bool.false_ne_true]
    rw [decide_eq_false ht] at htracks'
    refine ⟨htracks', (decide_eq_false ht).symm, ?_⟩
    have h0 : t + 1 - 29 = t - 29 := by omega
    rw [h0]
    exact h.output

/-- A step in class 2, apart from the last. -/
theorem Decodes.step2 (h : Decodes b t d) (ht : 30 ≤ t) (hr : Hears (path b t) (b t) r) {last : ℤ}
    (hlast : (t : ℤ) ≠ last) : Decodes b (t + 1) (d.step2 initRcpc r last) := by
  obtain ⟨htracks, hbest⟩ := h.tracks.stage hr
  have hne : (d.stage initRcpc r).stepBis ≠ last := by
    rw [htracks.stepBis]
    push_cast
    rwa [add_sub_cancel_right]
  obtain ⟨htracks', hout⟩ := htracks.decodeOne hbest (by omega) h.output
  rw [Decoder.step2]
  simp only [if_neg hne]
  refine ⟨htracks', ?_, hout⟩
  have hready : ((d.stage initRcpc r).decodeOne).ready = d.ready := rfl
  rw [hready, h.ready, decide_eq_decide]
  omega

/-- The last step, in which all is decoded. -/
theorem Decodes.step2_last (h : Decodes b t d) (ht : 30 ≤ t) (hr : Hears (path b t) (b t) r)
    (hend : path b (t + 1) = 0) :
    (d.step2 initRcpc r t).output = (List.range (t + 1)).map fun k ↦ word (b k) := by
  obtain ⟨htracks, -⟩ := h.tracks.stage hr
  have hlast : (d.stage initRcpc r).stepBis = t := by
    rw [htracks.stepBis]
    push_cast
    ring
  have hstep : (d.stage initRcpc r).step = ((t + 1 : ℕ) - 1 : ℤ) % 30 := by
    rw [htracks.step, if_neg (Nat.succ_ne_zero t)]
  have hblock := htracks.blockBits_eq 30 (t + 1) (by omega) le_rfl (by omega)
  have hout : (d.stage initRcpc r).output = (List.range (t - 29)).map fun k ↦ word (b k) :=
    h.output
  rw [Decoder.step2]
  simp only [if_pos hlast, decodeBlock]
  rw [hend, ← hstep] at hblock
  rw [hblock, hout, ← List.map_append, List.range_eq_range', List.range_eq_range',
    show t + 1 - 30 = 0 + 1 * (t - 29) by omega, List.range'_append,
    show t - 29 + 30 = t + 1 by omega]

/-- From step `t` on the received values are those of the path. -/
def HearsAll (b : ℕ → Bool) : ℕ → List Received → Prop
  | _, [] => True
  | t, r :: rs => Hears (path b t) (b t) r ∧ HearsAll b (t + 1) rs

/-- The loop over class 1. -/
theorem Decodes.class1 {rs : List Received} (h : Decodes b t d) (hrs : HearsAll b t rs) :
    Decodes b (t + rs.length) (rs.foldl (Decoder.step1 initRcpc) d) := by
  induction rs generalizing t d with
  | nil => exact h
  | cons r rs ih =>
      rw [List.foldl_cons, List.length_cons, Nat.add_comm rs.length, ← Nat.add_assoc]
      exact ih (h.step1 hrs.1) hrs.2

/-- **The loop over class 2** decodes the whole path, if it ends in state 0. -/
theorem Decodes.class2 {rs : List Received} {last : ℕ} (h : Decodes b t d) (ht : 30 ≤ t)
    (hrs : HearsAll b t rs) (hne : rs ≠ []) (hlen : t + rs.length = last + 1)
    (hend : path b (last + 1) = 0) :
    (rs.foldl (fun d r ↦ d.step2 initRcpc r last) d).output =
      (List.range (last + 1)).map fun k ↦ word (b k) := by
  induction rs generalizing t d with
  | nil => exact absurd rfl hne
  | cons r rs ih =>
      rw [List.length_cons] at hlen
      rw [List.foldl_cons]
      cases rs with
      | nil =>
          obtain rfl : t = last := by
            rw [List.length_nil] at hlen
            omega
          exact h.step2_last ht hrs.1 hend
      | cons r' rs =>
          have hlast : (t : ℤ) ≠ last := by
            rw [List.length_cons] at hlen
            omega
          exact ih (h.step2 ht hrs.1 hlast) (by omega) hrs.2 (List.cons_ne_nil _ _) (by omega)

end Decoder

/-! ## Soft values -/

/-- A soft value has the sign of a coded bit. -/
def Says (bit : Bool) (x : ℤ) : Prop := if bit then -127 ≤ x ∧ x ≤ -1 else 1 ≤ x ∧ x ≤ 127

theorem says_level (bit : Bool) : Says bit (level bit) := by
  cases bit <;> exact ⟨by decide, by decide⟩

/-- A value that says a bit adds to the score on every way with the bit. -/
theorem Says.gain {bit : Bool} {x t : ℤ} (h : Says bit x) (ht : sent t = level bit) :
    1 ≤ Decoder.gain t (symmetric x) ∧ Decoder.gain t (symmetric x) ≤ 255 := by
  cases bit with
  | false =>
      obtain ⟨hlo, hhi⟩ : 1 ≤ x ∧ x ≤ 127 := h
      have hneg : ¬0 < t := fun hpos ↦ by
        rw [sent, if_pos hpos] at ht
        exact absurd ht (by decide)
      rw [Decoder.gain, if_neg hneg, symmetric, shl, sature_of_mem (by omega) (by omega), sub,
        sature_of_mem (by omega) (by omega)]
      simp only [negate]
      split_ifs <;> omega
  | true =>
      obtain ⟨hlo, hhi⟩ : -127 ≤ x ∧ x ≤ -1 := h
      have hpos : 0 < t := by
        by_contra hneg
        rw [sent, if_neg hneg] at ht
        exact absurd ht (by decide)
      rw [Decoder.gain, if_pos hpos, symmetric, shl, sature_of_mem (by omega) (by omega), sub,
        sature_of_mem (by omega) (by omega)]
      simp only [negate]
      split_ifs <;> omega

/-- What is loaded of a bit that may be kept. -/
theorem loadOne_says {kept y : Bool} {rest : List Bool} {xs : List ℤ} {t : ℤ}
    (ht : sent t = level y)
    (h : List.Forall₂ Says ((if kept then [y] else []) ++ rest) xs) :
    List.Forall₂ Says rest (loadOne kept xs).2 ∧
      0 ≤ Decoder.gain t (loadOne kept xs).1 ∧ Decoder.gain t (loadOne kept xs).1 ≤ 255 := by
  have hzero : Decoder.gain t 0 = 0 := by
    rw [Decoder.gain, negate]
    split <;> rfl
  cases kept with
  | false =>
      cases xs with
      | nil => exact ⟨h, by rw [loadOne, hzero]; decide⟩
      | cons x xs => exact ⟨h, by rw [loadOne, if_neg Bool.false_ne_true, hzero]; decide⟩
  | true =>
      cases h with
      | cons hx hxs =>
          obtain ⟨hlo, hhi⟩ := hx.gain ht
          exact ⟨hxs, zero_le_one.trans hlo, hhi⟩

theorem num_shift_eq (st : ConvState) (bit : Bool) :
    num (st.shift bit) = 8 * bit.toNat + num st / 2 := by
  obtain ⟨d0, d1, d2, d3⟩ := st
  cases bit <;> cases d0 <;> cases d1 <;> cases d2 <;> cases d3 <;> rfl

/-- **What is loaded of a class** is heard on the path of its bits. -/
theorem load_says {b : ℕ → Bool} (kept : ℕ → Bool × Bool) (bits : List Bool) {ip t : ℕ}
    {st : ConvState} {xs : List ℤ} (hst : path b t = num st)
    (hb : ∀ k < bits.length, b (t + k) = bits.getD k false)
    (h : List.Forall₂ Says (keptBits kept ip st bits) xs) :
    Decoder.HearsAll b t (load kept ip xs) ∧ (load kept ip xs).length = bits.length ∧
      path b (t + bits.length) = num (speechConvEncode st bits).2 := by
  induction bits generalizing ip t st xs with
  | nil =>
      cases h
      rw [load]
      exact ⟨trivial, rfl, hst⟩
  | cons bit bits ih =>
      obtain ⟨x, y, z, hout, h1, h2, h3⟩ := exists_out st bit
      rw [keptBits_cons kept ip bits hout, List.append_assoc] at h
      cases h with
      | cons hx hxs =>
          rename_i s0 xs
          obtain ⟨hrest, hr1⟩ := loadOne_says h2 hxs
          obtain ⟨hrest', hr2⟩ := loadOne_says h3 hrest
          have hbit : b t = bit := hb 0 (Nat.succ_pos _)
          have hnext : path b (t + 1) = num (st.shift bit) := by
            rw [path, hst, hbit, num_shift_eq]
          obtain ⟨hears, hlen, hend⟩ := ih hnext (fun k hk ↦ by
            rw [Nat.add_assoc, Nat.add_comm 1 k]
            exact hb (k + 1) (Nat.succ_lt_succ hk)) hrest'
          rw [load, speechConvEncode_cons]
          refine ⟨⟨?_, hears⟩, congrArg Nat.succ hlen, ?_⟩
          · rw [hst, hbit]
            rw [num_shift_eq] at h1 hr1 hr2
            exact ⟨hx.gain h1, hr1, hr2⟩
          · rw [List.length_cons, Nat.add_comm bits.length, ← Nat.add_assoc]
            exact hend

/-! ## Blocks -/

section Block

variable (fs : Bool) (acelp : List Bool) (ring : ℕ → ℤ → ℕ)

/-- The bits of a path. -/
def pathBits : List Bool := class1 fs acelp ++ type2 fs acelp

theorem length_keptBits1 :
    (keptBits kept1 0 {} (class1 fs acelp)).length = sizeCodedClass1 fs := by
  rw [keptBits, List.length_map, length_class1]
  cases fs <;> decide +kernel

theorem length_keptBits2 (st : ConvState) :
    (keptBits (kept2 fs) 0 st (type2 fs acelp)).length = sizeCodedClass2 fs := by
  rw [keptBits, List.length_map, length_type2]
  cases fs <;> decide +kernel

/-- Four zeros lead to state 0. -/
theorem path_tail {b : ℕ → Bool} {t : ℕ} (h : ∀ k < 4, b (t + k) = false) : path b (t + 4) = 0 := by
  have hlt := path_lt b t
  have h0 := h 0 (by norm_num)
  have h1 := h 1 (by norm_num)
  have h2 := h 2 (by norm_num)
  have h3 := h 3 (by norm_num)
  simp only [Nat.add_zero] at h0
  simp only [path, h0, h1, h2, h3, Bool.toNat_false]
  omega

theorem getD_type2_tail (k : ℕ) :
    (type2 fs acelp).getD (sizeClass2 fs + sizeErrorControl fs + k) false = false := by
  have htail : ∀ j, ([false, false, false, false] : List Bool).getD j false = false := by
    rintro (_ | _ | _ | _ | j) <;> rfl
  have hlen := length_type2 fs acelp
  rw [type2, List.length_append, List.length_cons, List.length_cons, List.length_cons,
    List.length_cons, List.length_nil] at hlen
  rw [type2, List.getD_append_right _ _ _ _ (by omega)]
  exact htail _

variable {fs acelp}

/-- **The decoder finds the bits of both classes.** -/
theorem rcpcDecoding_says {softs : List ℤ} (h : List.Forall₂ Says (coded fs acelp) softs) :
    (rcpcDecoding initRcpc ring fs softs).1 =
      softs.take (sizeClass0 fs) ++ (pathBits fs acelp).map word := by
  have hlen0 := length_class0 fs acelp
  have hlen1 := length_class1 fs acelp
  have hlen2 := length_type2 fs acelp
  have hkept1 := length_keptBits1 fs acelp
  have hkept2 := length_keptBits2 fs acelp (speechConvEncode {} (class1 fs acelp)).2
  have hsize : 30 ≤ sizeClass1 fs := by cases fs <;> decide
  rw [coded, List.append_assoc] at h
  have hsoft1 := List.forall₂_take (sizeCodedClass1 fs) (List.forall₂_drop (sizeClass0 fs) h)
  have hsoft2 := List.forall₂_take (sizeCodedClass2 fs)
    (List.forall₂_drop (sizeClass0 fs + sizeCodedClass1 fs) h)
  rw [List.drop_left' hlen0, List.take_left' hkept1] at hsoft1
  rw [← List.append_assoc, List.drop_left' (by rw [List.length_append, hlen0, hkept1]),
    List.take_of_length_le hkept2.le] at hsoft2
  -- the path, and what is heard of it in the classes
  let b : ℕ → Bool := fun k ↦ (pathBits fs acelp).getD k false
  have hb1 : ∀ k < (class1 fs acelp).length, b (0 + k) = (class1 fs acelp).getD k false := by
    intro k hk
    rw [Nat.zero_add]
    exact List.getD_append _ _ _ _ hk
  have hb2 : ∀ k < (type2 fs acelp).length,
      b (0 + (class1 fs acelp).length + k) = (type2 fs acelp).getD k false := by
    intro k _
    rw [Nat.zero_add]
    refine (List.getD_append_right _ _ _ _ (Nat.le_add_right _ _)).trans ?_
    rw [Nat.add_sub_cancel_left]
  obtain ⟨hears1, hload1, hmid⟩ := load_says kept1 (class1 fs acelp) rfl hb1 hsoft1
  obtain ⟨hears2, hload2, -⟩ := load_says (kept2 fs) (type2 fs acelp) hmid hb2 hsoft2
  have hstart : Decoder.Decodes b 0
      { score := fun s ↦ if s = 0 then 0 else -16000, bestPrevious := ring } :=
    ⟨⟨⟨Nat.zero_lt_succ 15, rfl, fun p _ hp ↦ by
      have hp : p ≠ 0 := hp
      simp only [if_neg hp]
      norm_num⟩, by norm_num, rfl, fun k hk ↦ absurd hk (Nat.not_lt_zero k)⟩, rfl, rfl⟩
  have hdone1 := hstart.class1 hears1
  rw [hload1] at hdone1
  have hpath : (pathBits fs acelp).length =
      sizeClass1 fs + sizeClass2 fs + sizeErrorControl fs + 4 - 1 + 1 := by
    rw [pathBits, List.length_append, hlen1, hlen2]
    omega
  have hend : path b (sizeClass1 fs + sizeClass2 fs + sizeErrorControl fs + 4 - 1 + 1) = 0 := by
    have htail := path_tail (b := b) (t := sizeClass1 fs + sizeClass2 fs + sizeErrorControl fs)
      fun k hk ↦ by
        have hget := hb2 (sizeClass2 fs + sizeErrorControl fs + k) (by rw [hlen2]; omega)
        rw [getD_type2_tail, hlen1, Nat.zero_add] at hget
        rw [← hget]
        congr 1
        omega
    exact htail
  have hne : load (kept2 fs) 0
      ((softs.drop (sizeClass0 fs + sizeCodedClass1 fs)).take (sizeCodedClass2 fs)) ≠ [] := by
    rw [← List.length_pos_iff, hload2, hlen2]
    exact Nat.succ_pos _
  rw [Nat.zero_add] at hdone1 hears2
  have hout := hdone1.class2 (by rw [hlen1]; exact hsize) hears2 hne
    (by rw [hload2, hlen1, hlen2]; omega) hend
  rw [← hpath] at hout
  simp only [rcpcDecoding]
  rw [show lastStep fs = ((sizeClass1 fs + sizeClass2 fs + sizeErrorControl fs + 4 - 1 : ℕ) : ℤ)
    from rfl, hout]
  exact congrArg _ (map_range_getD false (pathBits fs acelp) word)

/-- The frame before its classes are put back. -/
theorem decoded_eq {softs : List ℤ} (h : List.Forall₂ Says (coded fs acelp) softs) :
    (softs.take (sizeClass0 fs)).map (fun x ↦ if 0 ≤ x then (0 : ℤ) else 1) =
      (class0 fs acelp).map word := by
  have hsigns : ∀ {bit : Bool} {x : ℤ}, Says bit x → (if 0 ≤ x then (0 : ℤ) else 1) = word bit := by
    intro bit x hx
    cases bit with
    | false => exact if_pos (zero_le_one.trans hx.1)
    | true => exact if_neg (by have := hx.2; omega)
  have hclass := List.forall₂_take (sizeClass0 fs) h
  rw [coded, List.append_assoc, List.take_left' (length_class0 fs acelp)] at hclass
  generalize softs.take (sizeClass0 fs) = xs at hclass ⊢
  generalize class0 fs acelp = bits at hclass ⊢
  induction hclass with
  | nil => rfl
  | cons hx _ ih => rw [List.map_cons, List.map_cons, ih, hsigns hx]

theorem foldl_bad {f : ℕ → ℤ} {ks : List ℕ} (h : ∀ k ∈ ks, f k = 0) :
    ks.foldl (fun bad k ↦ if f k ≠ 0 then (1 : ℤ) else bad) 0 = 0 := by
  induction ks with
  | nil => rfl
  | cons k ks ih =>
      rw [List.forall_mem_cons] at h
      rw [List.foldl_cons, if_neg (not_not.2 h.1)]
      exact ih h.2

/-- **The CRC is good.** -/
theorem bfi_pathBits (xs : List ℤ) (hxs : xs.length = sizeClass0 fs) :
    bfi fs (xs ++ (pathBits fs acelp).map word) = 0 := by
  have hget : ∀ k, (xs ++ (pathBits fs acelp).map word).getD (sizeClass0 fs + sizeClass1 fs + k) 0 =
      word ((type2 fs acelp).getD k false) := by
    intro k
    rw [List.getD_append_right _ _ _ _ (by omega), getD_map_word, pathBits,
      List.getD_append_right _ _ _ _ (by rw [length_class1]; omega), length_class1]
    congr 2
    omega
  have hclass2 : ∀ k < (class2 fs acelp).length,
      (type2 fs acelp).getD k false = (class2 fs acelp).getD k false := fun k hk ↦ by
    rw [type2, List.append_assoc, List.getD_append _ _ _ _ hk]
  have hcrc : (if fs then fsTabCrc else tabCrc).map
      (crcBit fs (xs ++ (pathBits fs acelp).map word)) =
        (crcOf fs (class2 fs acelp)).map word := by
    rw [crcOf, List.map_map]
    refine List.map_congr_left fun tab htab ↦ ?_
    obtain ⟨hrange, hlen⟩ := tabs_range fs tab htab
    exact crcBit_eq (fun k hk ↦ by rw [hget, hclass2 k hk]) (by rw [length_class2]; exact hrange)
      hlen
  have hsame : ∀ k ∈ List.range ((crcOf fs (class2 fs acelp)).map word).length,
      sub (((crcOf fs (class2 fs acelp)).map word).getD k 0)
        ((xs ++ (pathBits fs acelp).map word).getD
          (sizeClass0 fs + sizeClass1 fs + sizeClass2 fs + k) 0) = 0 := by
    intro k hk
    rw [List.mem_range, List.length_map] at hk
    have htype2 : (type2 fs acelp).getD (sizeClass2 fs + k) false =
        (crcOf fs (class2 fs acelp)).getD k false := by
      rw [type2, List.append_assoc, List.getD_append_right _ _ _ _ (by rw [length_class2]; omega),
        length_class2, Nat.add_sub_cancel_left, List.getD_append _ _ _ _ hk]
    rw [Nat.add_assoc (sizeClass0 fs + sizeClass1 fs), hget, htype2, getD_map_word, sub, sub_self]
    rfl
  simp only [bfi, hcrc]
  exact foldl_bad hsame

/-- What the block is about: the second frame, or both. -/
def frames (fs : Bool) (acelp : List Bool) : List Bool := if fs then acelp.drop 137 else acelp

/-- Where the classes are put back. -/
def targets (fs : Bool) : List ℕ :=
  if fs then (tab0 ++ tab1 ++ tab2).map fun pos ↦ pos - 1
  else (tab0 ++ tab1 ++ tab2).flatMap fun pos ↦ [pos - 1, 137 + pos - 1]

theorem unbuildSensitivityClasses_eq (frame : List ℤ) : unbuildSensitivityClasses fs frame =
    scatter 0 (targets fs).length (fun k ↦ (targets fs).getD k 0) frame := by
  have hlen : (targets fs).length = if fs then 137 else 274 := by cases fs <;> decide +kernel
  rw [hlen]
  cases fs <;> rfl

/-- There is a place for each bit. -/
theorem targets_nodup : (targets fs).Nodup ∧ ∀ p ∈ targets fs, p < (targets fs).length := by
  cases fs with
  | false =>
      have horder : targets false = channelOrder := by decide +kernel
      rw [horder]
      refine ⟨channelOrder_nodup, fun p hp ↦ ?_⟩
      obtain ⟨k, hk, rfl⟩ := List.getElem_of_mem hp
      rw [length_channelOrder, ← List.getD_eq_getElem _ 0 hk]
      exact getD_channelOrder_lt k (length_channelOrder ▸ hk)
  | true =>
      have hlen : (targets true).length = 137 := by decide +kernel
      rw [hlen, targets, if_pos rfl]
      refine ⟨classPos_nodup.map_on fun p hp q hq hpq ↦ ?_, fun p hp ↦ ?_⟩
      · have h1 := (classPos_range p hp).1
        have h2 := (classPos_range q hq).1
        omega
      · obtain ⟨pos, hpos, rfl⟩ := List.mem_map.1 hp
        have hrange := classPos_range pos hpos
        omega

theorem ordered_word : (ordered fs acelp).map word =
    (targets fs).map fun p ↦ ((frames fs acelp).map word).getD p 0 := by
  simp only [getD_map_word]
  cases fs with
  | false =>
      rw [ordered, List.map_map]
      rfl
  | true =>
      rw [ordered, classOrder, targets, if_pos rfl, if_pos rfl, List.map_map, List.map_map,
        List.map_map]
      refine List.map_congr_left fun p _ ↦ ?_
      simp only [Function.comp_apply, frames, if_true]
      rw [getD_drop]

/-- **The classes are put back where they were.** -/
theorem unbuildSensitivityClasses_ordered (h : acelp.length = 274) (ys : List ℤ) :
    unbuildSensitivityClasses fs ((ordered fs acelp).map word ++ ys) =
      (frames fs acelp).map word := by
  have hlen : ((frames fs acelp).map word).length = (targets fs).length := by
    rw [List.length_map, frames]
    cases fs with
    | false => exact h.trans (by decide +kernel)
    | true => rw [if_pos rfl, List.length_drop, h]; decide +kernel
  rw [unbuildSensitivityClasses_eq, ordered_word]
  exact scatter_positions 0 targets_nodup.1 targets_nodup.2 hlen ys

/-- The decoder, for soft values with the right signs. -/
theorem channelDecoding_eq (h : acelp.length = 274) {softs : List ℤ}
    (hsofts : List.Forall₂ Says (coded fs acelp) softs) :
    (channelDecoding initRcpc ring fs softs).1 = (frames fs acelp).map word ∧
      (channelDecoding initRcpc ring fs softs).2.1 = 0 := by
  have hsize0 : (softs.take (sizeClass0 fs)).length = sizeClass0 fs := by
    have hlen := hsofts.length_eq
    rw [coded, List.append_assoc, List.length_append, length_class0] at hlen
    rw [List.length_take]
    omega
  simp only [channelDecoding, rcpcDecoding_says ring hsofts]
  refine ⟨?_, bfi_pathBits _ hsize0⟩
  rw [untransformClass0, List.take_left' hsize0, List.drop_left' hsize0, decoded_eq hsofts,
    ← List.map_append, pathBits, type2, List.append_assoc, ← List.append_assoc (class1 fs acelp),
    ← List.append_assoc (class0 fs acelp), ← List.append_assoc (class0 fs acelp), ← ordered_eq,
    List.map_append]
  exact unbuildSensitivityClasses_ordered h _

end Block

/-! ## Calls -/

/-- Once a call has been made, the lattice is there for it. -/
def Statics.Ready (s : Statics) : Prop :=
  (s.encodeFirstPass = false → s.lattice = initRcpc) ∧
    (s.decodeFirstPass = false → s.lattice = initRcpc)

theorem Statics.Ready.step (s : Statics) (c : Call) (h : s.Ready) : (s.step c).Ready := by
  obtain ⟨henc, hdec⟩ := h
  cases c with
  | encode acelp scrambInit =>
      have hlattice : (s.step (.encode acelp scrambInit)).lattice = initRcpc := by
        simp only [Statics.step, Statics.encodeBurst]
        split
        · rfl
        · rename_i hfirst
          exact henc (eq_false_of_ne_true hfirst)
      exact ⟨fun _ ↦ hlattice, fun _ ↦ hlattice⟩
  | decode type5 scrambInit =>
      have hlattice : (s.step (.decode type5 scrambInit)).lattice = initRcpc := by
        simp only [Statics.step, Statics.decodeBurst]
        split
        · rfl
        · rename_i hfirst
          exact hdec (eq_false_of_ne_true hfirst)
      exact ⟨fun _ ↦ hlattice, fun _ ↦ hlattice⟩

theorem Statics.ready_exec (calls : List Call) : (Run.exec Statics.step {} calls).Ready :=
  Run.exec_induction Statics.step Statics.Ready.step
    ⟨fun h ↦ Bool.noConfusion h, fun h ↦ Bool.noConfusion h⟩ calls

/-- **Every block is decoded by the reference decoder**, with and without frame stealing, from any
soft values with the signs of its bits, whatever earlier calls left in the ring. -/
theorem channelDecoding_softs (fs : Bool) (acelp : Vector Bool 274) (ring : ℕ → ℤ → ℕ)
    (softs : List ℤ) (h : List.Forall₂ (fun x s ↦ Says (decide (x < 0)) s)
      (channelEncoding initRcpc fs (acelp.toList.map word)) softs) :
    (channelDecoding initRcpc ring fs softs).1 =
        (if fs then acelp.toList.drop 137 else acelp.toList).map word ∧
      (channelDecoding initRcpc ring fs softs).2.1 = 0 := by
  have hneg : ∀ bit, decide (level bit < 0) = bit := by decide
  rw [channelEncoding_coded, List.forall₂_map_left_iff] at h
  simp only [hneg] at h
  exact channelDecoding_eq ring acelp.length_toList h

/-- The soft values of a block, of all magnitudes in turn. -/
def mixedSofts (coded : List ℤ) : List ℤ :=
  coded.mapIdx fun n x ↦ if x < 0 then -(n % 127 + 1 : ℕ) else (n % 127 + 1 : ℕ)

/-- Two frames with every third bit set, both and the second one alone. -/
theorem channelDecoding_softs_mixed :
    let acelp : Vector Bool 274 := .ofFn fun i ↦ decide (i.val % 3 = 0)
    let decoded (fs : Bool) := channelDecoding initRcpc (fun _ _ ↦ 0) fs
      (mixedSofts (channelEncoding initRcpc fs (acelp.toList.map word)))
    (decoded false).1 = acelp.toList.map word ∧ (decoded false).2.1 = 0 ∧
      (decoded true).1 = (acelp.toList.drop 137).map word ∧ (decoded true).2.1 = 0 := by
  intro acelp decoded
  have hsigns (coded : List ℤ) :
      List.Forall₂ (fun x s ↦ Says (decide (x < 0)) s) coded (mixedSofts coded) := by
    refine List.forall₂_iff_get.2 ⟨List.length_mapIdx.symm, fun n h _ ↦ ?_⟩
    simp only [mixedSofts, List.get_eq_getElem, List.getElem_mapIdx]
    have hlt := Nat.mod_lt n (by decide : 0 < 127)
    by_cases hx : coded[n] < 0
    · rw [if_pos hx, decide_eq_true hx]
      constructor <;> omega
    · rw [if_neg hx, decide_eq_false hx]
      constructor <;> omega
  obtain ⟨hboth, hgood⟩ := channelDecoding_softs false acelp (fun _ _ ↦ 0) _ (hsigns _)
  obtain ⟨hsecond, hgood'⟩ := channelDecoding_softs true acelp (fun _ _ ↦ 0) _ (hsigns _)
  rw [if_neg Bool.false_ne_true] at hboth
  rw [if_pos rfl] at hsecond
  exact ⟨hboth, hgood, hsecond, hgood'⟩

/-- **The two encoders agree.**  After any calls the wrapper makes of any two frames the block that
`tetra_bs_tch_s_encode` makes of them. -/
theorem encodeBurst_agrees (calls : List Call) (acelp : List Bool) (scrambInit : UInt32) :
    ((Run.exec Statics.step {} calls).encodeBurst acelp scrambInit).1 =
      encode acelp scrambInit := by
  have hneg : ∀ bit, decide (level bit < 0) = bit := by decide
  obtain ⟨hready, -⟩ := Statics.ready_exec calls
  generalize Run.exec Statics.step {} calls = s at hready
  have hlattice : (if s.encodeFirstPass then initRcpc else s.lattice) = initRcpc := by
    split
    · rfl
    · rename_i hfirst
      exact hready (eq_false_of_ne_true hfirst)
  simp only [Statics.encodeBurst, hlattice]
  rw [channelEncoding_coded, List.map_map, encode_eq, ← coded_eq_sentType3]
  simp only [Function.comp_def, hneg, List.map_id']

theorem Statics.decodeBurst_fst (s : Statics) (type5 : List Bool) (scrambInit : UInt32) :
    (s.decodeBurst type5 scrambInit).1 =
      let decoded := channelDecoding (if s.decodeFirstPass then initRcpc else s.lattice)
        s.bestPrevious false ((deinterleaveSpeech false (scramble type5 scrambInit)).map level)
      (decoded.1.map fun x ↦ decide (x % 2 = 1), if decoded.2.1 ≠ 0 then -1 else 0) := by
  rw [Statics.decodeBurst]

/-- **The reference decoder takes the blocks.**  After any calls the wrapper decodes every block of
`tetra_bs_tch_s_encode` to its frames, with a good CRC. -/
theorem decodeBurst_agrees (calls : List Call) (acelp : Vector Bool 274) (scrambInit : UInt32) :
    ((Run.exec Statics.step {} calls).decodeBurst (encode acelp.toList scrambInit) scrambInit).1 =
      (acelp.toList, 0) := by
  have hbit : ∀ bit, decide (word bit % 2 = 1) = bit := by decide
  obtain ⟨-, hready⟩ := Statics.ready_exec calls
  generalize Run.exec Statics.step {} calls = s at hready
  have hlattice : (if s.decodeFirstPass then initRcpc else s.lattice) = initRcpc := by
    split
    · rfl
    · rename_i hfirst
      exact hready (eq_false_of_ne_true hfirst)
  have hback : deinterleaveSpeech false
      (scramble (encode acelp.toList scrambInit) scrambInit) = coded false acelp.toList := by
    rw [encode_eq, scramble_scramble, coded_eq_sentType3]
    exact scatter_gather false speechIndex_lt speechIndex_inj (sized_sent acelp.toList).length_block
  have hsigns : List.Forall₂ Says (coded false acelp.toList)
      ((coded false acelp.toList).map level) := by
    rw [List.forall₂_map_right_iff]
    exact List.forall₂_same.2 fun bit _ ↦ says_level bit
  obtain ⟨hout, hbad⟩ := channelDecoding_eq s.bestPrevious acelp.length_toList hsigns
  rw [Statics.decodeBurst_fst, hlattice, hback]
  dsimp only
  rw [hout, hbad, List.map_map]
  simp only [Function.comp_def, hbit, List.map_id']
  rfl

end TetraPhy.Etsi
