import TetraPhy.Codec.Block
import TetraPhy.Codec.MaxLikelihood

/-!
# The signalling channels

The block encoder and decoders of SCH/F and SCH/HU.  The two channels go through the
same stages with different dimensions, which are a `Channel`:

| stage | encoder | decoders |
|---|---|---|
| type 1 → 2 | `crc16` | `crc16_check`, `crc16_check_n` |
| type 2 → 3 | four tail bits | dropped |
| type 3 → mother | `conv_r14` | `viterbi_r14`, `viterbi_r14_soft` |
| mother → type 4 | `puncture_r23` | `depuncture_r23`, `depuncture_r23_soft` |
| interleaving | `interleave_perm` | `deinterleave_perm` |
| type 5 | scrambling | `descramble`, `descramble_soft` |

Three results hold of every channel: what was encoded is decoded again
(`Channel.decode_encode`); the hard decoder answers on every block
(`Channel.decode_isSome`); and the soft decoder agrees with it on hard values
(`Channel.decodeSoft_map`).
-/

namespace TetraPhy.Codec

open Permute Trellis

/-- The dimensions of a channel: three of eight mother bits are kept for the information,
the CRC and the tail, the interleaving factor is prime to the block length, and the stages
of the decoder can be indexed. -/
structure Channel where
  info : ℕ
  coded : ℕ
  factor : ℕ
  rate : 2 * coded = 3 * (info + 20)
  coprime : Nat.Coprime coded factor
  bounded : 16 * (info + 20) < 2 ^ 31

namespace Channel

variable (c : Channel)

/-- The stages of the encoder, `none` if there is nothing to puncture. -/
def encode (info : List Bool) (colourCode slotNum : UInt8) (mcc mnc : UInt16) :
    Option (List Bool) :=
  let type2 := crc16 info
  let type3 := type2 ++ List.replicate 4 false
  let mother := convR14 type3
  (punctureR23 mother).map fun type4 ↦
    descramble (interleavePerm type4 c.coded c.factor) colourCode slotNum mcc mnc

/-- The stages of the hard decoder: the information bits, and 0 if the CRC is right and -1
if it is not. -/
def decode (check : List Bool → Bool) (type5 : List Bool) (colourCode slotNum : UInt8)
    (mcc mnc : UInt16) : Option (List Bool × ℤ) :=
  let type4 := descramble type5 colourCode slotNum mcc mnc
  let type4d := deinterleavePerm type4 c.coded c.factor
  let mother := depunctureR23 type4d
  (viterbiR14 mother).map fun decoded ↦
    (decoded.take c.info, if check decoded then 0 else -1)

/-- The stages of the soft decoder. -/
def decodeSoft (check : List Bool → Bool) (soft : List ℤ) (colourCode slotNum : UInt8)
    (mcc mnc : UInt16) : Option (List Bool × ℤ) :=
  let t4 := descrambleSoft soft colourCode slotNum mcc mnc
  let t4d := deinterleavePerm t4 c.coded c.factor
  let mo := depunctureR23Soft t4d
  (viterbiR14Soft mo).map fun dec ↦ (dec.take c.info, if check dec then 0 else -1)

end Channel

/-- SCH/F. -/
def schf : Channel := ⟨268, 432, 103, by decide, by decide, by decide⟩

/-- SCH/HU. -/
def schhu : Channel := ⟨92, 168, 13, by decide, by decide, by decide⟩

/-- `tetra_codec_schf_encode`; `none` is its error return, for lengths that do not match. -/
def schfEncode (info : List Bool) (colourCode slotNum : UInt8) (mcc mnc : UInt16) :
    Option (List Bool) :=
  let mother := convR14 (crc16 info ++ List.replicate 4 false)
  match punctureR23 mother with
  | none => none
  | some type4 =>
    if mother.length ≠ 288 * 4 ∨ type4.length ≠ 432 then none
    else some (descramble (interleavePerm type4 432 103) colourCode slotNum mcc mnc)

/-- `schhu_encode` of the round-trip test. -/
def schhuEncode := schhu.encode

/-- `tetra_codec_schf_decode`. -/
def schfDecode := schf.decode crc16Check

/-- `tetra_codec_schhu_decode`. -/
def schhuDecode := schhu.decode (crc16CheckN · 92)

/-- `tetra_codec_schf_decode_soft`. -/
def schfDecodeSoft := schf.decodeSoft (crc16CheckN · 268)

/-- `tetra_codec_schhu_decode_soft`. -/
def schhuDecodeSoft := schhu.decodeSoft (crc16CheckN · 92)

/-! ## The punctured code is uniquely decodable

Of each pair of input bits `g1` of both is kept, and `g1` reads the newest bit: given the
state, a different input bit shows in it. -/

/-- What is received of a code word. -/
def received (s : State) (bits : List Bool) : List Sym :=
  depunctureR23 (keptBits (outputs s bits))

/-- The output of `G1` at a branch. -/
def g1 (s : State) (b : Bool) : Bool := parity5 (shiftIn s b &&& 0x13)

/-- The output of `G2` at a branch. -/
def g2 (s : State) (b : Bool) : Bool := parity5 (shiftIn s b &&& 0x1D)

theorem g1_inj (s : State) {a b : Bool} (h : g1 s a = g1 s b) : a = b := by
  have hall : ∀ (s : State) (a b : Bool), g1 s a = g1 s b → a = b := by decide
  exact hall s a b h

theorem hardPenalty_some_eq_zero {e r : Bool} : hardPenalty e (some r) = 0 ↔ e = r := by
  cases e <;> cases r <;> decide

/-- The penalties of the first two stages of a received code word, for a path from elsewhere. -/
theorem distance_received (s s' : State) (x y x' y' : Bool) (xs ys : List Bool) :
    distance hardPenalty (received s (x :: y :: xs)) (outputs s' (x' :: y' :: ys)) =
      hardPenalty (g1 s' x') (some (g1 s x)) +
      (hardPenalty (parity5 (shiftIn s' x' &&& 0x1D)) (some (parity5 (shiftIn s x &&& 0x1D))) +
      (hardPenalty (g1 (nextState s' x') y') (some (g1 (nextState s x) y)) +
      distance hardPenalty (received (nextState (nextState s x) y) xs)
        (outputs (nextState (nextState s' x') y') ys))) := by
  have h : distance hardPenalty (received s (x :: y :: xs)) (outputs s' (x' :: y' :: ys)) =
      hardPenalty (g1 s' x') (some (g1 s x)) +
      (hardPenalty (parity5 (shiftIn s' x' &&& 0x1D)) (some (parity5 (shiftIn s x &&& 0x1D))) +
      (0 + (0 + (hardPenalty (g1 (nextState s' x') y') (some (g1 (nextState s x) y)) +
      (0 + (0 + (0 + distance hardPenalty (received (nextState (nextState s x) y) xs)
        (outputs (nextState (nextState s' x') y') ys)))))))) := rfl
  rw [h]
  simp only [Nat.zero_add]

/-- A code word is at distance 0 from what is received of it. -/
theorem distance_received_self (n : ℕ) (s : State) {xs : List Bool} (h : xs.length = 2 * n) :
    distance hardPenalty (received s xs) (outputs s xs) = 0 := by
  induction n generalizing s xs with
  | zero =>
      rw [List.eq_nil_of_length_eq_zero h]
      rfl
  | succ n ih =>
      obtain ⟨x, y, xs, rfl⟩ : ∃ x y xs', xs = x :: y :: xs' := by
        rcases xs with _ | ⟨x, _ | ⟨y, xs⟩⟩
        case cons.cons => exact ⟨x, y, xs, rfl⟩
        all_goals simp only [List.length_cons, List.length_nil] at h; omega
      rw [distance_received, ih _ (by simp only [List.length_cons] at h; omega)]
      simp only [hardPenalty_some_eq_zero.mpr rfl]

/-- **No other input is.** -/
theorem eq_of_distance_received (n : ℕ) (s : State) {xs ys : List Bool} (hx : xs.length = 2 * n)
    (hy : ys.length = 2 * n) (h : distance hardPenalty (received s xs) (outputs s ys) = 0) :
    ys = xs := by
  induction n generalizing s xs ys with
  | zero => rw [List.eq_nil_of_length_eq_zero hx, List.eq_nil_of_length_eq_zero hy]
  | succ n ih =>
      have hsplit : ∀ {l : List Bool}, l.length = 2 * (n + 1) → ∃ x y l', l = x :: y :: l' := by
        intro l hl
        rcases l with _ | ⟨x, _ | ⟨y, l⟩⟩
        case cons.cons => exact ⟨x, y, l, rfl⟩
        all_goals simp only [List.length_cons, List.length_nil] at hl; omega
      obtain ⟨x, y, xs, rfl⟩ := hsplit hx
      obtain ⟨x', y', ys, rfl⟩ := hsplit hy
      rw [distance_received] at h
      have h1 : hardPenalty (g1 s x') (some (g1 s x)) = 0 := by omega
      obtain rfl := g1_inj s (hardPenalty_some_eq_zero.mp h1)
      have h2 : hardPenalty (g1 (nextState s x') y') (some (g1 (nextState s x') y)) = 0 := by omega
      obtain rfl := g1_inj _ (hardPenalty_some_eq_zero.mp h2)
      simp only [List.length_cons] at hx hy
      have hrest : distance hardPenalty (received (nextState (nextState s x') y') xs)
          (outputs (nextState (nextState s x') y') ys) = 0 := by omega
      rw [ih _ (by omega) (by omega) hrest]

/-! ## Round trip -/

namespace Channel

variable {c : Channel}

/-- A block has three bits for two stages. -/
theorem exists_stages (c : Channel) : ∃ n, c.info + 20 = 2 * n ∧ c.coded = 3 * n := by
  have := c.rate
  exact ⟨c.coded / 3, by omega, by omega⟩

/-- What the encoder delivers for an information word of the channel's length. -/
theorem encode_eq {info : List Bool} (h : info.length = c.info) (colourCode slotNum : UInt8)
    (mcc mnc : UInt16) :
    c.encode info colourCode slotNum mcc mnc =
      some (descramble (interleavePerm
        (keptBits (convR14 (crc16 info ++ List.replicate 4 false))) c.coded c.factor)
        colourCode slotNum mcc mnc) := by
  obtain ⟨n, hn, -⟩ := c.exists_stages
  have hmother : (convR14 (crc16 info ++ List.replicate 4 false)).length = 8 * n := by
    rw [convR14, length_convR14From, List.length_append, length_crc16, List.length_replicate]
    omega
  rw [encode, punctureR23, if_neg (by rw [hmother]; omega)]
  rfl

/-- The block of an information word, for a scrambling seed. -/
def encodeFrom (c : Channel) (info : List Bool) (lfsr : UInt32) : List Bool :=
  scrambleWith Bool.not lfsr
    (interleavePerm (keptBits (convR14 (crc16 info ++ List.replicate 4 false))) c.coded c.factor)

/-- It is what the encoder of the channel delivers, for the seed of a cell. -/
theorem encode_eq_encodeFrom {info : List Bool} (h : info.length = c.info)
    (colourCode slotNum : UInt8) (mcc mnc : UInt16) : c.encode info colourCode slotNum mcc mnc =
      some (c.encodeFrom info (scrambleInit colourCode mcc mnc)) :=
  encode_eq h colourCode slotNum mcc mnc

/-- The mother code word of a terminated input is decoded from what was kept of it. -/
theorem viterbiR14_received {n : ℕ} {bits : List Bool} (h : Terminated (2 * n) bits) :
    viterbiR14 (depunctureR23 (keptBits (convR14 bits))) = some bits := by
  have hkept : (keptBits (convR14 bits)).length = 3 * n :=
    length_keptBits (by rw [convR14, length_convR14From, h.1]; omega)
  have hstages : (depunctureR23 (keptBits (convR14 bits))).length / 4 = 2 * n := by
    rw [depunctureR23, length_depunctureWith, hkept]
    omega
  have hself : distance hardPenalty (depunctureR23 (keptBits (convR14 bits))) (convR14 bits) =
      0 := by
    rw [convR14_eq_outputs]
    exact distance_received_self n 0 h.1
  have hcost : distance hardPenalty (depunctureR23 (keptBits (convR14 bits))) (convR14 bits) <
      infM := by
    rw [hself]
    decide
  obtain ⟨best, hbest, hterm, hmin⟩ := viterbiWith_optimal (hstages.symm ▸ h) hcost
  have hzero := hmin bits (hstages.symm ▸ h)
  rw [hself, Nat.le_zero, convR14_eq_outputs, convR14_eq_outputs] at hzero
  have : best = bits := eq_of_distance_received n 0 h.1 (hterm.1.trans hstages) hzero
  rw [← this]
  exact this ▸ hbest

/-- The encoder's word ends in four zeros, and as many bits are kept of it as there are in a
block. -/
theorem exists_terminated {info : List Bool} (h : info.length = c.info) :
    ∃ n, Terminated (2 * n) (crc16 info ++ List.replicate 4 false) ∧
      (keptBits (convR14 (crc16 info ++ List.replicate 4 false))).length = c.coded := by
  obtain ⟨n, hn, hcoded⟩ := c.exists_stages
  have hlen : (crc16 info).length + 4 = 2 * n := by
    rw [length_crc16]
    omega
  have hterm : Terminated (2 * n) (crc16 info ++ List.replicate 4 false) :=
    hlen ▸ terminated_append_tail (crc16 info)
  refine ⟨n, hterm, ?_⟩
  rw [hcoded]
  exact length_keptBits (by rw [convR14, length_convR14From, hterm.1]; omega)

/-- **What was encoded is decoded again**, with a right CRC. -/
theorem decode_encode {info : List Bool} (h : info.length = c.info)
    (colourCode slotNum slotNum' : UInt8) (mcc mnc : UInt16) :
    ∃ block, c.encode info colourCode slotNum mcc mnc = some block ∧ block.length = c.coded ∧
      c.decode (crc16CheckN · c.info) block colourCode slotNum' mcc mnc = some (info, 0) := by
  obtain ⟨n, hterm, hkept⟩ := exists_terminated h
  refine ⟨_, encode_eq h colourCode slotNum mcc mnc, ?_, ?_⟩
  · rw [descramble, length_scrambleWith, interleavePerm, length_scatter]
  · rw [decode, descramble_descramble, deinterleavePerm_interleavePerm c.coprime hkept,
      viterbiR14_received hterm, Option.map_some, ← h, crc16CheckN_crc16, if_pos rfl, crc16,
      List.append_assoc, List.take_left]

/-! ## Arbitrary blocks -/

/-- **The hard decoder answers on every block.** -/
theorem decode_isSome (check : List Bool → Bool) (type5 : List Bool) (colourCode slotNum : UInt8)
    (mcc mnc : UInt16) : (c.decode check type5 colourCode slotNum mcc mnc).isSome := by
  obtain ⟨n, hn, hcoded⟩ := c.exists_stages
  have hbound := c.bounded
  rw [decode, Option.isSome_map]
  have hlen : (depunctureR23 (deinterleavePerm (descramble type5 colourCode slotNum mcc mnc)
      c.coded c.factor)).length / 4 = 2 * n := by
    rw [depunctureR23, length_depunctureWith, deinterleavePerm, length_gather, hcoded]
    omega
  obtain ⟨run, hrun, hcost⟩ := exists_distance_lt (depunctureR23 (deinterleavePerm
    (descramble type5 colourCode slotNum mcc mnc) c.coded c.factor)) (by rw [hlen]; omega)
  obtain ⟨bits, hbits, -⟩ := viterbiWith_optimal hrun hcost
  exact Option.isSome_iff_exists.mpr ⟨bits, hbits⟩

end Channel

/-! ## Soft and hard -/

/-- The full-confidence soft value of a bit. -/
def softValue (b : Bool) : ℤ := if b then 1 else -1

/-- The soft value of a symbol, 0 for an erasure. -/
def softSym : Sym → ℤ
  | none => 0
  | some b => softValue b

/-- The penalties agree. -/
theorem softPenalty_softSym (e : Bool) (r : Sym) : softPenalty e (softSym r) = hardPenalty e r := by
  rcases r with - | r
  · rfl
  · cases e <;> cases r <;> rfl

theorem stages_map {α β : Type*} (f : α → β) (xs : List α) :
    stages (xs.map f) = (stages xs).map (List.map f) := by
  fun_induction stages xs with
  | case1 a b c d rest ih => simp only [List.map_cons, stages, ih, List.map_nil]
  | case2 xs h =>
      rcases xs with _ | ⟨a, _ | ⟨b, _ | ⟨c, _ | ⟨d, rest⟩⟩⟩⟩
      case cons.cons.cons.cons => exact absurd rfl (h a b c d rest)
      all_goals rfl

/-- A decoder run on mapped values is the decoder of the composed penalty. -/
theorem viterbiWith_map {α β : Type*} (penalty : Bool → β → ℕ) (f : α → β) (xs : List α) :
    viterbiWith penalty (xs.map f) = viterbiWith (fun e x ↦ penalty e (f x)) xs := by
  have hcost : ∀ rx : List α, branchCost penalty (rx.map f) =
      branchCost (fun e x ↦ penalty e (f x)) rx := fun rx ↦ by
    funext s b
    rw [branchCost, branchCost, List.zipWith_map_right]
  rw [viterbiWith, viterbiWith, stages_map, List.map_map]
  exact congrArg _ (List.map_congr_left fun rx _ ↦ hcost rx)

/-- **On full-confidence values the soft decoder is the hard decoder.** -/
theorem viterbiR14Soft_map (coded : List Sym) :
    viterbiR14Soft (coded.map softSym) = viterbiR14 coded := by
  rw [viterbiR14Soft, viterbiWith_map, viterbiR14]
  congr
  funext e r
  exact softPenalty_softSym e r

/-- **On full-confidence values the whole soft chain is the hard chain.** -/
theorem Channel.decodeSoft_map (c : Channel) (check : List Bool → Bool) {bits : List Bool}
    (h : bits.length = c.coded) (colourCode slotNum : UInt8) (mcc mnc : UInt16) :
    c.decodeSoft check (bits.map softValue) colourCode slotNum mcc mnc =
      c.decode check bits colourCode slotNum mcc mnc := by
  have hscr : descrambleSoft (bits.map softValue) colourCode slotNum mcc mnc =
      (descramble bits colourCode slotNum mcc mnc).map softValue :=
    scrambleWith_map (fun b ↦ by cases b <;> rfl) _ bits
  have hint : deinterleavePerm ((descramble bits colourCode slotNum mcc mnc).map softValue)
      c.coded c.factor =
      (deinterleavePerm (descramble bits colourCode slotNum mcc mnc) c.coded c.factor).map
        softValue :=
    gather_map default default softValue fun k hk ↦ by
      rw [descramble, length_scrambleWith, h]
      exact permIndex_lt hk
  have hdep : ∀ xs : List Bool, depunctureR23Soft (xs.map softValue) =
      (depunctureR23 xs).map softSym :=
    depunctureWith_map softValue softSym (fun _ ↦ rfl) rfl
  rw [decodeSoft, decode, hscr, hint, hdep, viterbiR14Soft_map]

/-! ## The two channels -/

/-- The length checks of the SCH/F encoder never fire. -/
theorem schfEncode_eq {info : List Bool} (h : info.length = 268) (colourCode slotNum : UInt8)
    (mcc mnc : UInt16) :
    schfEncode info colourCode slotNum mcc mnc =
      schf.encode info colourCode slotNum mcc mnc := by
  have hmother : (convR14 (crc16 info ++ List.replicate 4 false)).length = 8 * 144 := by
    rw [convR14, length_convR14From, List.length_append, length_crc16, List.length_replicate, h]
  have hpunct : punctureR23 (convR14 (crc16 info ++ List.replicate 4 false)) =
      some (keptBits (convR14 (crc16 info ++ List.replicate 4 false))) := by
    rw [punctureR23, if_neg (by rw [hmother]; decide)]
  rw [Channel.encode_eq (c := schf) h, schfEncode, hpunct]
  dsimp only
  rw [if_neg (by rw [length_keptBits hmother, hmother]; decide)]
  rfl

/-- **Channel coding is lossless.**  For every SCH/F word of 268 bits and every SCH/HU word
of 92 bits and every cell identity, the block the encoder delivers has the length of the
channel, and the decoder returns a right CRC and exactly the word. -/
theorem channelCoding_roundTrip (colourCode slotNum slotNum' : UInt8) (mcc mnc : UInt16) :
    (∀ info : Vector Bool 268, ∃ block,
      schfEncode info.toList colourCode slotNum mcc mnc = some block ∧ block.length = 432 ∧
      schfDecode block colourCode slotNum' mcc mnc = some (info.toList, 0)) ∧
    (∀ info : Vector Bool 92, ∃ block,
      schhuEncode info.toList colourCode slotNum mcc mnc = some block ∧ block.length = 168 ∧
      schhuDecode block colourCode slotNum' mcc mnc = some (info.toList, 0)) := by
  constructor
  · intro info
    rw [schfEncode_eq info.length_toList]
    exact Channel.decode_encode (c := schf) info.length_toList colourCode slotNum slotNum' mcc mnc
  · intro info
    exact Channel.decode_encode (c := schhu) info.length_toList colourCode slotNum slotNum' mcc mnc

/-- **The soft and the hard decoders agree on hard blocks.**  For every received block of
either channel and every cell identity, the hard decoder answers, and the soft decoder on the
full-confidence values gives the same information bits and the same CRC verdict. -/
theorem soft_eq_hard (colourCode slotNum : UInt8) (mcc mnc : UInt16) :
    (∀ block : Vector Bool 168, ∃ r,
      schhuDecode block.toList colourCode slotNum mcc mnc = some r ∧
      schhuDecodeSoft (block.toList.map softValue) colourCode slotNum mcc mnc = some r) ∧
    (∀ block : Vector Bool 432, ∃ r,
      schfDecode block.toList colourCode slotNum mcc mnc = some r ∧
      schfDecodeSoft (block.toList.map softValue) colourCode slotNum mcc mnc = some r) := by
  constructor
  · intro block
    obtain ⟨r, hr⟩ := Option.isSome_iff_exists.mp (Channel.decode_isSome (c := schhu)
      (crc16CheckN · 92) block.toList colourCode slotNum mcc mnc)
    refine ⟨r, hr, ?_⟩
    rw [schhuDecodeSoft, Channel.decodeSoft_map schhu _ block.length_toList]
    exact hr
  · intro block
    obtain ⟨r, hr⟩ := Option.isSome_iff_exists.mp (Channel.decode_isSome (c := schf)
      (crc16CheckN · 268) block.toList colourCode slotNum mcc mnc)
    refine ⟨r, hr, ?_⟩
    rw [schfDecodeSoft, Channel.decodeSoft_map schf _ block.length_toList]
    exact hr

end TetraPhy.Codec
