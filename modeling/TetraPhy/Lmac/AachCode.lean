import TetraPhy.Lib.ReedMuller
import TetraPhy.Lmac.Scrambler

/-!
# The code of the AACH on both sides

| side | module | generator | after the code |
|---|---|---|---|
| transmit | `tetra_aach_rm_encoder.v` | `RM_ROW00` .. `RM_ROW13` | the cell's scrambling bits |
| receive | `tetra_reed_muller.v`, wired in `tetra_lmac.v` | `G_ROW00` .. `G_ROW13` | |

The decoder compares what it receives with the code words of all 2 ^ 14 messages, one a cycle, and
keeps the nearest; more than three errors are reported.  The rows of the receive side generate a
Reed–Muller code of distance 8, so a message within three errors is the nearest one.

**`aach_agrees_iff`** says for which messages and cells the two sides agree: those where the
scrambling bits differ in at most three places from the sum of the two code words.
-/

namespace TetraPhy.Lmac

open AirOrder ReedMuller Run

/-! ## The two codes -/

/-- `G_ROW00` .. `G_ROW13`: the monomials `x1`, `x2`, `x3`, `x4`, `x0 x1`, …, `x3 x4`. -/
def gRows : List (BitVec 30) :=
  [0x33333333, 0x3C3C3C3C, 0x3FC03FC0, 0x3FFFC000, 0x22222222, 0x28282828, 0x2A802A80,
    0x2AAA8000, 0x30303030, 0x33003300, 0x33330000, 0x3C003C00, 0x3C3C0000, 0x3FC00000]

/-- `rm_encode` of `tetra_reed_muller.v`: row `i` for bit `i`. -/
def rmEncode (u : BitVec 14) : BitVec 30 := TapRegister.select u.getLsbD gRows

/-- `RM_ROW00` .. `RM_ROW13`. -/
def rmRows : List (BitVec 30) :=
  [0x20009B60, 0x10002DE0, 0x0800FC20, 0x0400E03C, 0x0200983A, 0x01005436, 0x00802C2E,
    0x0040FFDF, 0x00208339, 0x001042B5, 0x000821AD, 0x00041273, 0x0002096B, 0x000104E7]

/-- `rm_encode_f`: row `i` for bit `13 - i`. -/
def rmEncodeF (u : BitVec 14) : BitVec 30 := TapRegister.select u.getMsbD rmRows

/-- `build_lfsr_mask_f`. -/
def buildLfsrMaskF (lfsrIn : BitVec 32) : BitVec 30 :=
  ((List.range 30).foldl
    (fun lm k ↦ (lfsrNext lm.1, setAir lm.2 k (lfsrFb lm.1)))
    (if lfsrIn = 0 then BitVec.allOnes 32 else lfsrIn, 0)).2

/-- `coded_w`. -/
def aachCoded (info : BitVec 14) (lfsrInit : BitVec 32) : BitVec 30 :=
  rmEncodeF info ^^^ buildLfsrMaskF lfsrInit

/-- `popcount30`. -/
def popcount30 (v : BitVec 30) : ℕ := weight v.getLsbD 30

/-! ## The codec -/

/-- The states of the decoder. -/
inductive RmState
  | idle | decode | output
deriving DecidableEq, Repr

/-- The inputs of a cycle. -/
structure RmIn where
  encodeDataIn : BitVec 14 := 0
  encodeValid : Bool := false
  decodeDataIn : BitVec 30 := 0
  decodeValid : Bool := false

/-- The registers, as reset leaves them. -/
structure ReedMullerCodec where
  encodeDataOut : BitVec 30 := 0
  encodeDone : Bool := false
  state : RmState := .idle
  rLatch : BitVec 30 := 0
  cand : BitVec 14 := 0
  bestM : BitVec 14 := 0
  bestDist : ℕ := 31
  decodeDataOut : BitVec 14 := 0
  decodeDone : Bool := false
  decodeError : Bool := false

namespace ReedMullerCodec

variable (c : ReedMullerCodec) (i : RmIn)

/-- `dist_raw_sys`. -/
def distRaw : ℕ := popcount30 (rmEncode c.cand ^^^ c.rLatch)

/-- `better_sys`. -/
def better : Bool := c.distRaw < c.bestDist

def nextState : RmState :=
  match c.state with
  | .idle => if i.decodeValid then .decode else .idle
  | .decode => if c.cand = BitVec.allOnes 14 then .output else .decode
  | .output => .idle

/-- A word is latched. -/
def starts : Bool := c.state == .idle && i.decodeValid

/-- One clock edge; `T_MAX` is 3. -/
def step : ReedMullerCodec where
  encodeDataOut := if i.encodeValid then rmEncode i.encodeDataIn else c.encodeDataOut
  encodeDone := i.encodeValid
  state := c.nextState i
  rLatch := if c.starts i then i.decodeDataIn else c.rLatch
  cand := if c.starts i then 0 else if c.state == .decode then c.cand + 1 else c.cand
  bestM := if c.starts i then 0 else if c.state == .decode && c.better then c.cand else c.bestM
  bestDist := if c.starts i then 31
    else if c.state == .decode && c.better then c.distRaw else c.bestDist
  decodeDataOut := if c.state == .output then c.bestM else c.decodeDataOut
  decodeDone := c.state == .output
  decodeError := if c.state == .output then decide (3 < c.bestDist) else c.decodeError

/-- What the decoder delivers: the message, and whether it is an error. -/
def out : Option (BitVec 14 × Bool) :=
  if c.decodeDone then some (c.decodeDataOut, c.decodeError) else none

end ReedMullerCodec

/-- The AACH path of `tetra_lmac.v` in one cycle: `rx_bb_sys` goes into the decoder as it is. -/
def lmacRmIn (rxBb : BitVec 30) (rxSlotValid : Bool) (txAachIn : BitVec 14) (txAachValid : Bool) :
    RmIn where
  encodeDataIn := txAachIn
  encodeValid := txAachValid
  decodeDataIn := rxBb
  decodeValid := rxSlotValid

/-! ## The distance of the code -/

theorem popcount30_xor_le (x y : BitVec 30) :
    popcount30 (x ^^^ y) ≤ popcount30 x + popcount30 y := by
  refine Nat.le_trans (Nat.le_of_eq ?_) (weight_xor_le x.getLsbD y.getLsbD 30)
  exact weight_congr fun i _ ↦ BitVec.getLsbD_xor ..

theorem rmEncode_xor (u v : BitVec 14) : rmEncode (u ^^^ v) = rmEncode u ^^^ rmEncode v := by
  rw [rmEncode, rmEncode, rmEncode, ← TapRegister.select_xor]
  refine congrArg (TapRegister.select · gRows) (funext fun i ↦ ?_)
  exact BitVec.getLsbD_xor

/-- The word of length 32 that a code word is shortened from. -/
def lengthened (x : BitVec 30) (i : ℕ) : Bool := (x.setWidth 32 <<< 2).getLsbD i

theorem lengthened_xor (x y : BitVec 30) (i : ℕ) :
    lengthened (x ^^^ y) i = (lengthened x i ^^ lengthened y i) := by
  rw [lengthened, BitVec.setWidth_xor, BitVec.shiftLeft_xor_distrib, BitVec.getLsbD_xor]
  rfl

theorem lengthened_two_add (x : BitVec 30) {i : ℕ} (hi : i < 30) :
    lengthened x (2 + i) = x.getLsbD i := by
  have hlt : 2 + i < 32 := by omega
  have hge : ¬2 + i < 2 := by omega
  have hi32 : i < 32 := by omega
  rw [lengthened, BitVec.getLsbD_shiftLeft, decide_eq_true hlt, decide_eq_false hge,
    Nat.add_sub_cancel_left, BitVec.getLsbD_setWidth, decide_eq_true hi32]
  rfl

theorem weight_lengthened (x : BitVec 30) : weight (lengthened x) 32 = popcount30 x := by
  have hlow : weight (lengthened x) 2 = 0 := by
    simp [weight, lengthened]
  have hhigh : ∀ i < 30, lengthened x (2 + i) = x.getLsbD i := fun _ hi ↦ lengthened_two_add x hi
  rw [show 32 = 2 + 30 from rfl, weight_add, hlow, Nat.zero_add, weight_congr hhigh, popcount30]

/-- The rows are polynomials of degree 2 that are 0 at the first two points. -/
theorem isWord_gRows : ∀ r ∈ gRows, IsWord 5 3 (lengthened r) := by
  intro r hr
  simp only [gRows, List.mem_cons, List.not_mem_nil, or_false] at hr
  rcases hr with rfl | rfl | rfl | rfl | rfl | rfl | rfl | rfl | rfl | rfl | rfl | rfl | rfl | rfl
  all_goals decide +kernel

theorem isWord_select {rows : List (BitVec 30)} (h : ∀ r ∈ rows, IsWord 5 3 (lengthened r))
    (sel : ℕ → Bool) : IsWord 5 3 (lengthened (TapRegister.select sel rows)) := by
  have hzero : IsWord 5 3 (lengthened 0#30) := by
    refine (isWord_congr fun i ↦ ?_).1 (isWord_false 5 3)
    simp [lengthened]
  induction rows generalizing sel with
  | nil => exact hzero
  | cons r rows ih =>
      rw [List.forall_mem_cons] at h
      rw [TapRegister.select]
      have hrow : IsWord 5 3 (lengthened (if sel 0 then r else 0#30)) := by
        split_ifs
        · exact h.1
        · exact hzero
      exact (isWord_congr fun i ↦ (lengthened_xor _ _ i).symm).1
        (isWord_xor hrow (ih h.2 fun j ↦ sel (j + 1)))

/-- For each bit of a message, bits of its code word that add up to it. -/
def messageChecks : List (BitVec 30) :=
  [0x1, 0x4, 0x40, 0x4000, 0x3, 0xC, 0xC0, 0xC000, 0x15, 0x141, 0x14001, 0x444, 0x44004, 0x404040]

theorem dot_messageChecks : ∀ k < 14, ∀ j < 14,
    TapRegister.dot (gRows.getD j 0) (messageChecks.getD k 0) = decide (j = k) := by
  decide +kernel

/-- **The bits of a message can be read off its code word.** -/
theorem dot_rmEncode (u : BitVec 14) {k : ℕ} (hk : k < 14) :
    TapRegister.dot (rmEncode u) (messageChecks.getD k 0) = u.getLsbD k := by
  rw [rmEncode, TapRegister.select_dot, show gRows.length = 14 from rfl,
    ← TapRegister.parity_single u.getLsbD hk]
  exact TapRegister.parity_congr fun j hj ↦
    congrArg (u.getLsbD j && ·) (dot_messageChecks k hk j hj)

theorem eq_zero_of_rmEncode {u : BitVec 14} (h : rmEncode u = 0) : u = 0 := by
  refine BitVec.eq_of_getLsbD_eq fun k hk ↦ ?_
  rw [← dot_rmEncode u hk, h, TapRegister.dot_comm]
  exact (TapRegister.dot_zero _).trans BitVec.getLsbD_zero.symm

/-- **Code words are at least 8 apart.** -/
theorem distance_rmEncode {u v : BitVec 14} (h : u ≠ v) :
    8 ≤ popcount30 (rmEncode u ^^^ rmEncode v) := by
  have hne : u ^^^ v ≠ 0 := fun h0 ↦ h (BitVec.xor_eq_zero_iff.1 h0)
  have hword : rmEncode (u ^^^ v) ≠ 0 := fun h0 ↦ hne (eq_zero_of_rmEncode h0)
  have hset : ∃ i < 2 ^ 5, lengthened (rmEncode (u ^^^ v)) i = true := by
    by_contra hnone
    refine hword (BitVec.eq_of_getLsbD_eq fun i hi ↦ ?_)
    have hlt : 2 + i < 32 := by omega
    have hbit : ¬ lengthened (rmEncode (u ^^^ v)) (2 + i) = true :=
      fun h ↦ hnone ⟨2 + i, hlt, h⟩
    rw [lengthened_two_add _ hi] at hbit
    simpa using hbit
  have hdist := (isWord_select isWord_gRows (u ^^^ v).getLsbD).le_weight hset
  have hweight : weight (lengthened (rmEncode (u ^^^ v))) (2 ^ 5) =
      popcount30 (rmEncode (u ^^^ v)) := weight_lengthened _
  rw [← rmEncode_xor, ← hweight]
  change 8 * 8 ≤ _ * 8 at hdist
  exact Nat.le_of_mul_le_mul_right hdist (show 0 < 8 by decide)

/-! ## The blocks of two cells -/

theorem rmEncodeF_xor (u v : BitVec 14) : rmEncodeF (u ^^^ v) = rmEncodeF u ^^^ rmEncodeF v := by
  rw [rmEncodeF, rmEncodeF, rmEncodeF, ← TapRegister.select_xor]
  refine congrArg (TapRegister.select · rmRows) (funext fun i ↦ ?_)
  exact BitVec.getMsbD_xor

theorem dot_rmRows : ∀ k < 14, ∀ j < 14,
    TapRegister.dot (rmRows.getD j 0) (BitVec.twoPow 30 (29 - k)) = decide (j = k) := by
  decide +kernel

/-- The transmit side puts the message before the check bits. -/
theorem eq_zero_of_rmEncodeF {u : BitVec 14} (h : rmEncodeF u = 0) : u = 0 := by
  have hdot : ∀ k < 14, TapRegister.dot (rmEncodeF u) (BitVec.twoPow 30 (29 - k)) =
      u.getMsbD k := by
    intro k hk
    rw [rmEncodeF, TapRegister.select_dot, show rmRows.length = 14 from rfl,
      ← TapRegister.parity_single u.getMsbD hk]
    exact TapRegister.parity_congr fun j hj ↦ congrArg (u.getMsbD j && ·) (dot_rmRows k hk j hj)
  refine BitVec.eq_of_getMsbD_eq fun k hk ↦ ?_
  rw [← hdot k hk, h, TapRegister.dot_comm]
  exact (TapRegister.dot_zero _).trans BitVec.getMsbD_zero.symm

/-- The blocks of two words for two cells are the same if the words differ by what the cells' masks
differ by. -/
theorem aachCoded_eq_iff {v w : BitVec 14} {lfsrInit lfsrInit' : BitVec 32} :
    aachCoded v lfsrInit = aachCoded w lfsrInit' ↔
      ∃ d, rmEncodeF d = buildLfsrMaskF lfsrInit ^^^ buildLfsrMaskF lfsrInit' ∧ v = w ^^^ d := by
  have hcode : aachCoded v lfsrInit = aachCoded w lfsrInit' ↔
      rmEncodeF (w ^^^ v) = buildLfsrMaskF lfsrInit ^^^ buildLfsrMaskF lfsrInit' := by
    rw [aachCoded, aachCoded, rmEncodeF_xor, ← BitVec.xor_eq_zero_iff]
    refine Iff.trans (Eq.congr_left ?_) BitVec.xor_eq_zero_iff
    ac_rfl
  rw [hcode]
  constructor
  · exact fun h ↦ ⟨w ^^^ v, h, by rw [← BitVec.xor_assoc, BitVec.xor_self, BitVec.zero_xor]⟩
  · rintro ⟨d, hd, rfl⟩
    rwa [← BitVec.xor_assoc, BitVec.xor_self, BitVec.zero_xor]

/-! ## The search -/

/-- The errors in `r`, taken for a message. -/
def errors (r : BitVec 30) (u : BitVec 14) : ℕ := popcount30 (rmEncode u ^^^ r)

/-- No two messages are within three errors. -/
theorem errors_unique {r : BitVec 30} {u v : BitVec 14} (hu : errors r u ≤ 3)
    (hv : errors r v ≤ 3) : u = v := by
  by_contra hne
  have hdist := distance_rmEncode hne
  have hsplit : rmEncode u ^^^ rmEncode v = (rmEncode u ^^^ r) ^^^ (rmEncode v ^^^ r) := by
    rw [BitVec.xor_comm (rmEncode v) r, BitVec.xor_assoc, ← BitVec.xor_assoc r r, BitVec.xor_self,
      BitVec.zero_xor]
  have hle := popcount30_xor_le (rmEncode u ^^^ r) (rmEncode v ^^^ r)
  rw [← hsplit] at hle
  rw [errors] at hu hv
  omega

namespace ReedMullerCodec

variable {r : BitVec 30} {c : ReedMullerCodec}

/-- Of the first `n` messages, `m` is one with the fewest errors, `d`. -/
def Nearest (r : BitVec 30) (n : ℕ) (m : BitVec 14) (d : ℕ) : Prop :=
  (n = 0 → d = 31) ∧ (n ≠ 0 → d = errors r m) ∧ ∀ v : BitVec 14, v.toNat < n → d ≤ errors r v

/-- While the search goes on, with `k` messages still to be compared. -/
structure Searching (r : BitVec 30) (k : ℕ) (c : ReedMullerCodec) : Prop where
  state : c.state = if k = 0 then .output else .decode
  latched : c.rLatch = r
  left : k ≤ 2 ^ 14 ∧ (k ≠ 0 → c.cand.toNat = 2 ^ 14 - k)
  nearest : Nearest r (2 ^ 14 - k) c.bestM c.bestDist

/-- One more message is compared. -/
theorem Nearest.step {n : ℕ} {m u : BitVec 14} {d : ℕ} (h : Nearest r n m d)
    (hu : u.toNat = n) : Nearest r (n + 1) (if errors r u < d then u else m)
      (if errors r u < d then errors r u else d) := by
  obtain ⟨hzero, heq, hle⟩ := h
  have hnext : ∀ v : BitVec 14, v.toNat < n + 1 → v.toNat < n ∨ v = u := by
    intro v hv
    rcases Nat.lt_succ_iff_lt_or_eq.1 hv with hlt | hlast
    · exact .inl hlt
    · exact .inr (BitVec.eq_of_toNat_eq (hlast.trans hu.symm))
  refine ⟨fun hn ↦ absurd hn (Nat.succ_ne_zero n), fun _ ↦ ?_, fun v hv ↦ ?_⟩
  · by_cases hlt : errors r u < d
    · rw [if_pos hlt, if_pos hlt]
    · rw [if_neg hlt, if_neg hlt]
      refine heq fun hn ↦ ?_
      have hweight := weight_le (rmEncode u ^^^ r).getLsbD 30
      rw [hzero hn] at hlt
      exact hlt (Nat.lt_of_le_of_lt hweight (by decide))
  · rcases hnext v hv with hold | rfl
    · have hold := hle v hold
      split_ifs with hlt
      · exact Nat.le_trans (Nat.le_of_lt hlt) hold
      · exact hold
    · split_ifs with hlt
      · exact Nat.le_refl _
      · exact Nat.le_of_not_lt hlt

theorem Searching.step {k : ℕ} (h : Searching r (k + 1) c) (i : RmIn) :
    Searching r k (c.step i) ∧ (c.step i).out = none := by
  have hstate : c.state = .decode := h.state
  have hcand := h.left.2 (Nat.succ_ne_zero k)
  have hstarts : c.starts i = false := by rw [starts, hstate]; rfl
  have hdist : c.distRaw = errors r c.cand := by rw [distRaw, h.latched]; rfl
  have hlast : c.cand = BitVec.allOnes 14 ↔ k = 0 := by
    rw [← BitVec.toNat_inj, hcand, BitVec.toNat_allOnes]
    have hle := h.left.1
    omega
  have hnearest := h.nearest.step hcand
  have hnext : 2 ^ 14 - (k + 1) + 1 = 2 ^ 14 - k := by
    have hle := h.left.1
    omega
  rw [hnext] at hnearest
  have hdecode : (c.state == .decode) = true := by rw [hstate]; rfl
  refine ⟨⟨?_, ?_, ⟨?_, ?_⟩, ?_⟩, ?_⟩
  · change c.nextState i = _
    rw [nextState, hstate]
    simp only [hlast]
  · change (if c.starts i then i.decodeDataIn else c.rLatch) = r
    rw [hstarts, if_neg Bool.false_ne_true, h.latched]
  · exact Nat.le_of_succ_le h.left.1
  · intro hk
    change (if c.starts i then 0 else if c.state == .decode then c.cand + 1 else c.cand).toNat = _
    rw [hstarts, if_neg Bool.false_ne_true, if_pos hdecode, BitVec.toNat_add, hcand]
    have hle := h.left.1
    change (2 ^ 14 - (k + 1) + 1) % 2 ^ 14 = _
    omega
  · have hbest : (c.step i).bestM = if errors r c.cand < c.bestDist then c.cand else c.bestM := by
      simp [ReedMullerCodec.step, hstarts, hstate, better, hdist]
    have hbestDist : (c.step i).bestDist =
        if errors r c.cand < c.bestDist then errors r c.cand else c.bestDist := by
      simp [ReedMullerCodec.step, hstarts, hstate, better, hdist]
    rw [hbest, hbestDist]
    exact hnearest
  · have hdone : (c.step i).decodeDone = false := by
      change (c.state == .output) = false
      rw [hstate]
      rfl
    rw [out, hdone, if_neg Bool.false_ne_true]

/-- The word is latched. -/
theorem searching_start (hidle : c.state = .idle) {i : RmIn} (hvalid : i.decodeValid = true) :
    Searching i.decodeDataIn (2 ^ 14) (c.step i) ∧ (c.step i).out = none := by
  have hstarts : c.starts i = true := by rw [starts, hidle, hvalid]; rfl
  refine ⟨⟨?_, ?_, ⟨Nat.le_refl _, fun _ ↦ ?_⟩, ?_⟩, ?_⟩
  · change c.nextState i = _
    rw [nextState, hidle]
    exact (if_pos hvalid).trans (if_neg (by decide : ¬ 2 ^ 14 = 0)).symm
  · exact if_pos hstarts
  · exact (congrArg BitVec.toNat (if_pos hstarts)).trans rfl
  · have hbest : (c.step i).bestDist = 31 := if_pos hstarts
    rw [Nat.sub_self, hbest]
    exact ⟨fun _ ↦ rfl, fun h ↦ absurd rfl h, fun v hv ↦ absurd hv (Nat.not_lt_zero _)⟩
  · have hdone : (c.step i).decodeDone = false := by
      change (c.state == .output) = false
      rw [hidle]
      rfl
    rw [out, hdone, if_neg Bool.false_ne_true]

/-- **What the decoder delivers**, 16386 cycles after the word: one of the messages with the fewest
errors, reported if these are more than three.  Then it is idle. -/
theorem emitted_decode (hidle : c.state = .idle) {i : RmIn} (hvalid : i.decodeValid = true)
    {is : List RmIn} (hlen : is.length = 2 ^ 14 + 1) :
    (exec step c (i :: is)).state = .idle ∧ ∃ m, (∀ v, errors i.decodeDataIn m ≤
      errors i.decodeDataIn v) ∧
      emitted step out c (i :: is) = [(m, decide (3 < errors i.decodeDataIn m))] := by
  obtain ⟨hstart, hout⟩ := searching_start hidle hvalid
  obtain ⟨es, e, rfl⟩ : ∃ es e, is = es ++ [e] := by
    refine ⟨is.dropLast, is.getLast ?_, (List.dropLast_append_getLast _).symm⟩
    rintro rfl
    exact absurd hlen (by decide)
  have hes : es.length = 2 ^ 14 := by
    rw [List.length_append] at hlen
    exact Nat.succ.inj hlen
  obtain ⟨hend, hsilent⟩ := Run.silent step out (P := Searching i.decodeDataIn)
    (C := fun _ ↦ True) (fun _ _ e _ h ↦ h.step e) (fun e (_ : e ∈ es) ↦ trivial)
    (hes.symm ▸ hstart)
  generalize hq : exec step (c.step i) es = q at hend
  have hstate : q.state = .output := hend.state
  obtain ⟨-, hdist, hle⟩ := hend.nearest
  have hdist := hdist (by decide)
  refine ⟨?_, q.bestM, fun v ↦ ?_, ?_⟩
  · rw [exec_cons, exec_append, hq]
    change q.nextState e = .idle
    rw [nextState, hstate]
  · rw [← hdist]
    exact hle v v.isLt
  · rw [emitted_cons_of_none hout, emitted_append, hsilent, hq, ← hdist]
    simp [emitted, step, ReedMullerCodec.out, hstate]

/-- **The decoder corrects three errors, and reports more.**  From whatever was decoded before, a
word with at most three flipped bits is returned without an error; and whatever 30 bits come in, one
result is delivered, an error exactly if no code word is within three bits. -/
theorem corrects_three (hidle : c.state = .idle) {i : RmIn} (hvalid : i.decodeValid = true)
    {is : List RmIn} (hlen : is.length = 2 ^ 14 + 1) :
    (∀ (u : BitVec 14) (e : BitVec 30), popcount30 e ≤ 3 → i.decodeDataIn = rmEncode u ^^^ e →
      emitted step out c (i :: is) = [(u, false)]) ∧
    ∃ m err, emitted step out c (i :: is) = [(m, err)] ∧
      (err = true ↔ ∀ v, 3 < popcount30 (rmEncode v ^^^ i.decodeDataIn)) := by
  obtain ⟨-, m, hle, hsent⟩ := emitted_decode hidle hvalid hlen
  refine ⟨fun u e he hdata ↦ ?_, m, _, hsent, ?_⟩
  · have hu : errors i.decodeDataIn u ≤ 3 := by
      rw [errors, hdata, ← BitVec.xor_assoc, BitVec.xor_self, BitVec.zero_xor]
      exact he
    have hm : errors i.decodeDataIn m ≤ 3 := Nat.le_trans (hle u) hu
    rw [hsent, errors_unique hm hu, decide_eq_false (Nat.not_lt.2 hu)]
  · rw [decide_eq_true_iff]
    exact ⟨fun h v ↦ Nat.lt_of_lt_of_le h (hle v), fun h ↦ h m⟩

/-- The message 1 with three errors, after reset. -/
theorem corrects_three_one :
    emitted step out {} ({ decodeDataIn := 0x33333334, decodeValid := true } ::
      List.replicate (2 ^ 14 + 1) {}) = [(1, false)] :=
  (corrects_three rfl rfl List.length_replicate).1 1 0x7 (by decide) (by decide)

end ReedMullerCodec

/-! ## Agreement -/

/-- What the transmit side sends for a message is decoded to it without an error. -/
def AachAgrees (info : BitVec 14) (lfsrInit : BitVec 32) : Prop :=
  ∀ (c : ReedMullerCodec) (txAachIn : BitVec 14) (txAachValid : Bool) (is : List RmIn),
    c.state = .idle → is.length = 2 ^ 14 + 1 →
    emitted ReedMullerCodec.step ReedMullerCodec.out c
      (lmacRmIn (aachCoded info lfsrInit) true txAachIn txAachValid :: is) = [(info, false)]

theorem aachAgrees_iff_errors (info : BitVec 14) (lfsrInit : BitVec 32) :
    AachAgrees info lfsrInit ↔ errors (aachCoded info lfsrInit) info ≤ 3 := by
  constructor
  · intro h
    have hlen : (List.replicate (2 ^ 14 + 1) ({} : RmIn)).length = 2 ^ 14 + 1 :=
      List.length_replicate
    have hsent := h {} 0 false _ rfl hlen
    obtain ⟨-, m, -, hdecoded⟩ := ReedMullerCodec.emitted_decode (c := {})
      (i := lmacRmIn (aachCoded info lfsrInit) true 0 false) rfl rfl hlen
    rw [hsent] at hdecoded
    injection hdecoded with hpair
    injection hpair with hm herror
    rw [← hm] at herror
    exact Nat.le_of_not_lt (of_decide_eq_false herror.symm)
  · intro h c txAachIn txAachValid is hidle hlen
    obtain ⟨-, m, hle, hdecoded⟩ := ReedMullerCodec.emitted_decode hidle
      (i := lmacRmIn (aachCoded info lfsrInit) true txAachIn txAachValid) rfl hlen
    have hm : errors (aachCoded info lfsrInit) m ≤ 3 := Nat.le_trans (hle info) h
    have hnone : ¬ 3 < errors (aachCoded info lfsrInit) info := Nat.not_lt.2 h
    rw [hdecoded, ← errors_unique h hm]
    exact congrArg (fun b ↦ [(info, b)]) (decide_eq_false hnone)

/-- **Which messages the two sides of which cells agree on**: those where the scrambling bits differ
in at most three places from the sum of the message's two code words. -/
theorem aachAgrees_iff (info : BitVec 14) (lfsrInit : BitVec 32) :
    AachAgrees info lfsrInit ↔
      popcount30 (rmEncode info ^^^ rmEncodeF info ^^^ buildLfsrMaskF lfsrInit) ≤ 3 := by
  rw [aachAgrees_iff_errors, errors, aachCoded, BitVec.xor_assoc]

/-- `aach_lfsr_init_sys_w`: the identity of a cell. -/
def cellInit (mcc : BitVec 10) (mnc : BitVec 14) (cc : BitVec 6) : BitVec 32 :=
  mcc ++ mnc ++ cc ++ 0b11#2

/-- The message 0 of the cell 262, 1010, 1. -/
theorem not_aachAgrees_zero : popcount30 (buildLfsrMaskF (cellInit 262 1010 1)) = 9 ∧
    ¬ AachAgrees 0 (cellInit 262 1010 1) := by
  have hmask : popcount30 (buildLfsrMaskF (cellInit 262 1010 1)) = 9 := by decide +kernel
  refine ⟨hmask, ?_⟩
  rw [aachAgrees_iff_errors]
  decide +kernel

end TetraPhy.Lmac
