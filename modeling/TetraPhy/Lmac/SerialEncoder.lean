import TetraPhy.Codec.Sch
import TetraPhy.Lib.AirOrder
import TetraPhy.Lib.Run

/-!
# The serial block encoders

`tetra_sch_hd_encoder.v` and `tetra_sch_f_encoder.v` are one machine at two sizes.  It codes a
PDU into a block, one bit per clock cycle, and what it computes is `Channel.encodeFrom`, the same
chain of stages as in the software's codec, from any scrambling seed:

| State    | Cycles       | Stage                                                            |
|----------|--------------|------------------------------------------------------------------|
| `crc`    | `info`       | the CRC over the PDU                                             |
| `build`  | 1            | PDU, inverted CRC and tail are put together                      |
| `rcpc`   | `info + 20`  | the convolutional code, three bits kept of each two stages       |
| `scram`  | `coded`      | the scrambler's bits                                             |
| `finish` | 1            | interleaving, and exclusive or with the scrambler's bits         |

Each working state is a loop, and `SerialEncoder.Working` its invariant: what is done and what
is still to be done make up the whole stage.  `SerialEncoder.Working.step` keeps it, and
`SerialEncoder.Working.left_step` counts the cycles down.
-/

namespace TetraPhy.Codec

/-- The bits a scrambler delivers. -/
def lfsrBits (lfsr : UInt32) : ℕ → List Bool
  | 0 => []
  | n + 1 => (nextLfsrBit lfsr).2 :: lfsrBits (nextLfsrBit lfsr).1 n

/-- Scrambling is adding them. -/
theorem zipWith_lfsrBits (lfsr : UInt32) (xs : List Bool) :
    List.zipWith xor xs (lfsrBits lfsr xs.length) = scrambleWith Bool.not lfsr xs := by
  induction xs generalizing lfsr with
  | nil => rfl
  | cons x xs ih =>
      rw [List.length_cons, lfsrBits, List.zipWith_cons_cons, ih, scrambleWith]
      cases (nextLfsrBit lfsr).2 <;> simp

end TetraPhy.Codec

namespace TetraPhy.Lmac

open AirOrder Codec

/-! ## The combinational parts -/

/-- `crc_next_w`. -/
def crcNext (crc : BitVec 16) (din : Bool) : BitVec 16 :=
  crc <<< 1 ^^^ (if din ^^ crc.getLsbD 15 then 0x1021 else 0)

/-- The reduction by exclusive or. -/
def redXor (x : BitVec 5) : Bool :=
  x.getLsbD 0 ^^ x.getLsbD 1 ^^ x.getLsbD 2 ^^ x.getLsbD 3 ^^ x.getLsbD 4

/-- `g1_w`. -/
def rcpcG1 (convSr : BitVec 4) (din : Bool) : Bool :=
  redXor ((convSr ++ BitVec.ofBool din) &&& 0b10011)

/-- `g2_w`. -/
def rcpcG2 (convSr : BitVec 4) (din : Bool) : Bool :=
  redXor ((convSr ++ BitVec.ofBool din) &&& 0b11101)

/-- `{conv_sr[2:0], rcpc_din_w}`. -/
def convShift (convSr : BitVec 4) (din : Bool) : BitVec 4 :=
  convSr.extractLsb' 0 3 ++ BitVec.ofBool din

/-- `lfsr_fb_w`. -/
def lfsrFb (lfsr : BitVec 32) : Bool :=
  lfsr.getLsbD 0 ^^ lfsr.getLsbD 6 ^^ lfsr.getLsbD 9 ^^ lfsr.getLsbD 10 ^^ lfsr.getLsbD 16 ^^
    lfsr.getLsbD 20 ^^ lfsr.getLsbD 21 ^^ lfsr.getLsbD 22 ^^ lfsr.getLsbD 24 ^^
    lfsr.getLsbD 25 ^^ lfsr.getLsbD 27 ^^ lfsr.getLsbD 28 ^^ lfsr.getLsbD 30 ^^ lfsr.getLsbD 31

/-- `{lfsr_fb_w, lfsr[31:1]}`. -/
def lfsrNext (lfsr : BitVec 32) : BitVec 32 :=
  BitVec.ofBool (lfsrFb lfsr) ++ lfsr.extractLsb' 1 31

/-- `sch_hd_interleave` and `sch_f_interleave`. -/
def interleave {n : ℕ} (a : ℕ) (din : BitVec n) : BitVec n :=
  (List.range n).foldl (fun dout k ↦ setAir dout (a * (k + 1) % n) (din.getMsbD k)) 0

/-! ## The FSM -/

/-- The states. -/
inductive EncState
  | idle | crc | build | rcpc | scram | finish
deriving DecidableEq, Repr

/-- The registers. -/
structure SerialEncoder (c : Channel) where
  state : EncState := .idle
  cnt : ℕ := 0
  pdu : BitVec c.info := 0
  crc : BitVec 16 := 0xFFFF
  type3 : BitVec (c.info + 16 + 4) := 0
  convSr : BitVec 4 := 0
  bitPhase : Bool := false
  rcpc : BitVec c.coded := 0
  rcpcIdx : ℕ := 0
  lfsr : BitVec 32 := 0
  mask : BitVec c.coded := 0
  codedBits : BitVec c.coded := 0
  codedValid : Bool := false

namespace SerialEncoder

section

variable {c : Channel} (e : SerialEncoder c)

/-- `rcpc_din_w`. -/
def rcpcDin : Bool := e.type3.getMsbD e.cnt

/-- One clock edge. -/
def step (encodeStart : Bool) (infoBits : BitVec c.info) (scrambleInit : BitVec 32) :
    SerialEncoder c :=
  match e.state with
  | .idle =>
      let e := { e with codedValid := false }
      if encodeStart then
        { e with pdu := infoBits, crc := 0xFFFF, cnt := 0, lfsr := scrambleInit, mask := 0
                 state := .crc }
      else e
  | .crc =>
      let e' := { e with crc := crcNext e.crc (e.pdu.getMsbD e.cnt) }
      if e.cnt = c.info - 1 then { e' with cnt := 0, state := .build }
      else { e' with cnt := e.cnt + 1 }
  | .build =>
      { e with type3 := e.pdu ++ ~~~e.crc ++ 0#4, convSr := 0, bitPhase := false, rcpc := 0
               rcpcIdx := 0, state := .rcpc }
  | .rcpc =>
      let a := setAir e.rcpc e.rcpcIdx (rcpcG1 e.convSr e.rcpcDin)
      let e' := { e with
        convSr := convShift e.convSr e.rcpcDin
        rcpc := if e.bitPhase then a else setAir a (e.rcpcIdx + 1) (rcpcG2 e.convSr e.rcpcDin)
        rcpcIdx := if e.bitPhase then e.rcpcIdx + 1 else e.rcpcIdx + 2
        bitPhase := !e.bitPhase }
      if e.cnt = c.info + 19 then { e' with cnt := 0, state := .scram }
      else { e' with cnt := e.cnt + 1 }
  | .scram =>
      let e' := { e with mask := setAir e.mask e.cnt (lfsrFb e.lfsr), lfsr := lfsrNext e.lfsr }
      if e.cnt = c.coded - 1 then { e' with state := .finish } else { e' with cnt := e.cnt + 1 }
  | .finish =>
      { e with codedBits := interleave c.factor e.rcpc ^^^ e.mask, codedValid := true
               state := .idle }

end

end SerialEncoder

/-! ## The stages as list functions -/

/-- The kept bits of the code from a stage on: both of an even stage, the first of an odd one. -/
def punctured : Bool → BitVec 4 → List Bool → List Bool
  | _, _, [] => []
  | false, sr, b :: bs => rcpcG1 sr b :: rcpcG2 sr b :: punctured true (convShift sr b) bs
  | true, sr, b :: bs => rcpcG1 sr b :: punctured false (convShift sr b) bs

/-- The scrambler's bits. -/
def maskBits (lfsr : BitVec 32) : ℕ → List Bool
  | 0 => []
  | n + 1 => lfsrFb lfsr :: maskBits (lfsrNext lfsr) n

/-- The CRC register after a PDU. -/
def crcOver {n : ℕ} (info : BitVec n) : BitVec 16 := (onAir info).foldl crcNext 0xFFFF

/-- The bits that are interleaved. -/
def codeBits {n : ℕ} (info : BitVec n) : List Bool :=
  punctured false 0 (onAir (info ++ ~~~crcOver info ++ 0#4))

/-- How many bits are kept of the first `k` stages. -/
def keptOf (k : ℕ) : ℕ := 3 * (k / 2) + 2 * (k % 2)

theorem keptOf_succ (k : ℕ) : keptOf (k + 1) = keptOf k + if k % 2 = 1 then 1 else 2 := by
  simp only [keptOf]
  split_ifs <;> omega

/-! ### They are the codec's -/

/-- A tap of the software's register. -/
theorem toBitVec_st (l : BitVec 32) (y : UInt32) :
    (st (UInt32.ofBitVec l) y).toBitVec = l >>> ((32 - y).toNat % 32) := by
  rw [st, UInt32.toBitVec_shiftRight, BitVec.ushiftRight_eq', BitVec.toNat_umod]
  rfl

/-- The feedback bit of the software's register. -/
theorem toBitVec_feedback (l : BitVec 32) :
    ((st (UInt32.ofBitVec l) 32 ^^^ st (UInt32.ofBitVec l) 26 ^^^ st (UInt32.ofBitVec l) 23 ^^^
      st (UInt32.ofBitVec l) 22 ^^^ st (UInt32.ofBitVec l) 16 ^^^ st (UInt32.ofBitVec l) 12 ^^^
      st (UInt32.ofBitVec l) 11 ^^^ st (UInt32.ofBitVec l) 10 ^^^ st (UInt32.ofBitVec l) 8 ^^^
      st (UInt32.ofBitVec l) 7 ^^^ st (UInt32.ofBitVec l) 5 ^^^ st (UInt32.ofBitVec l) 4 ^^^
      st (UInt32.ofBitVec l) 2 ^^^ st (UInt32.ofBitVec l) 1) &&& 1).toBitVec =
        (BitVec.ofBool (lfsrFb l)).setWidth 32 := by
  simp only [UInt32.toBitVec_and, UInt32.toBitVec_xor, toBitVec_st]
  refine (BitVec.and_one_eq_setWidth_ofBool_getLsbD (w := 32)).trans ?_
  simp only [BitVec.getLsbD_xor, BitVec.getLsbD_ushiftRight]
  rfl

theorem nextLfsrBit_ofBitVec (l : BitVec 32) : nextLfsrBit (UInt32.ofBitVec l) =
    (UInt32.ofBitVec (lfsrNext l), lfsrFb l) := by
  have hone : ∀ b : Bool, ((BitVec.ofBool b).setWidth 32 = 1#32) ↔ b = true := by decide
  refine Prod.ext ?_ ?_
  · rw [← UInt32.toBitVec_inj, nextLfsrBit, UInt32.toBitVec_or, UInt32.toBitVec_shiftLeft,
      toBitVec_feedback]
    change l >>> 1 ||| (BitVec.ofBool (lfsrFb l)).setWidth 32 <<< 31 = lfsrNext l
    rw [lfsrNext]
    ext i hi
    simp only [BitVec.getElem_or, BitVec.getElem_ushiftRight, BitVec.getElem_shiftLeft,
      BitVec.getElem_setWidth]
    grind
  · rw [nextLfsrBit, Bool.eq_iff_iff, beq_iff_eq, ← UInt32.toBitVec_inj, toBitVec_feedback]
    exact hone _

theorem maskBits_eq (l : BitVec 32) (n : ℕ) : maskBits l n = lfsrBits (UInt32.ofBitVec l) n := by
  induction n generalizing l with
  | zero => rfl
  | succ n ih => rw [maskBits, lfsrBits, nextLfsrBit_ofBitVec, ih]

/-- The encoder's states, as the software numbers them. -/
def convState (sr : BitVec 4) : State := ⟨sr.toNat, sr.isLt⟩

theorem motherBits_convState (sr : BitVec 4) (b : Bool) :
    (motherBits (shiftIn (convState sr) b)).take 2 = [rcpcG1 sr b, rcpcG2 sr b] ∧
      nextState (convState sr) b = convState (convShift sr b) := by
  revert sr b
  decide

theorem punctured_eq (n : ℕ) (sr : BitVec 4) {bits : List Bool} (h : bits.length = 2 * n) :
    punctured false sr bits = keptBits (outputs (convState sr) bits) := by
  induction n generalizing sr bits with
  | zero => rw [List.eq_nil_of_length_eq_zero h]; rfl
  | succ n ih =>
      obtain ⟨x, y, bits, rfl⟩ : ∃ x y bits', bits = x :: y :: bits' := by
        rcases bits with _ | ⟨x, _ | ⟨y, bits⟩⟩
        case cons.cons => exact ⟨x, y, bits, rfl⟩
        all_goals simp only [List.length_cons, List.length_nil] at h; omega
      obtain ⟨hx, hx'⟩ := motherBits_convState sr x
      obtain ⟨hy, hy'⟩ := motherBits_convState (convShift sr x) y
      simp only [List.length_cons] at h
      rw [punctured, punctured, ih _ (by omega), outputs, outputs, hx', hy']
      have hm : ∀ r, motherBits r = (motherBits r).take 2 ++ (motherBits r).drop 2 :=
        fun r ↦ (List.take_append_drop 2 _).symm
      rw [hm (shiftIn (convState sr) x), hx, hm (shiftIn _ y), hy]
      rfl

/-- The register of the CRC is linear. -/
theorem crcNext_xor (c c' : BitVec 16) (d d' : Bool) :
    crcNext (c ^^^ c') (d ^^ d') = crcNext c d ^^^ crcNext c' d' := by
  have hbit : ((d ^^ d') ^^ (c.getLsbD 15 ^^ c'.getLsbD 15)) =
      ((d ^^ c.getLsbD 15) ^^ (d' ^^ c'.getLsbD 15)) := by
    simp only [Bool.xor_assoc, Bool.xor_left_comm]
  have hpoly : ∀ b b' : Bool, (if b ^^ b' then 0x1021 else 0 : BitVec 16) =
      (if b then 0x1021 else 0) ^^^ (if b' then 0x1021 else 0) := by decide
  rw [crcNext, crcNext, crcNext, BitVec.getLsbD_xor, hbit, BitVec.shiftLeft_xor_distrib, hpoly]
  ac_rfl

theorem foldl_crcNext_xor (c c' : BitVec 16) {xs ys : List Bool} (h : xs.length = ys.length) :
    (List.zipWith xor xs ys).foldl crcNext (c ^^^ c') =
      xs.foldl crcNext c ^^^ ys.foldl crcNext c' := by
  induction xs generalizing c c' ys with
  | nil =>
      obtain rfl : ys = [] := List.eq_nil_of_length_eq_zero h.symm
      rfl
  | cons x xs ih =>
      obtain ⟨y, ys, rfl⟩ := List.exists_cons_of_length_eq_add_one h.symm
      rw [List.zipWith_cons_cons, List.foldl_cons, List.foldl_cons, List.foldl_cons, crcNext_xor,
        ih _ _ (Nat.succ.inj h)]

theorem crcStep_ofBitVec (c : BitVec 16) (b : Bool) :
    crcStep (UInt16.ofBitVec c) b = UInt16.ofBitVec (crcNext c b) := by
  have htop : ((UInt16.ofBitVec c >>> 15) &&& 1 == 1) = c.getLsbD 15 := by
    have h : ((UInt16.ofBitVec c >>> 15) &&& 1 == 1) = ((c >>> 15) &&& 1#16 == 1#16) := by
      rw [Bool.eq_iff_iff, beq_iff_eq, beq_iff_eq, ← UInt16.toBitVec_inj]
      rfl
    rw [h, and_one_beq_one (by decide), BitVec.getLsbD_ushiftRight]
  simp only [crcStep, htop, crcNext]
  cases b ^^ c.getLsbD 15
  · rw [← UInt16.toBitVec_inj]
    simp
  · rfl

theorem foldl_crcStep (c : BitVec 16) (bits : List Bool) :
    bits.foldl crcStep (UInt16.ofBitVec c) = UInt16.ofBitVec (bits.foldl crcNext c) := by
  induction bits generalizing c with
  | nil => rfl
  | cons b bits ih => rw [List.foldl_cons, List.foldl_cons, crcStep_ofBitVec, ih]

theorem crc16_onAir {n : ℕ} (info : BitVec n) :
    crc16 (onAir info) ++ List.replicate 4 false = onAir (info ++ ~~~crcOver info ++ 0#4) := by
  have hcrc : crcOf (onAir info) = UInt16.ofBitVec (~~~crcOver info) := by
    rw [crcOf]
    erw [foldl_crcStep]
    rw [← UInt16.toBitVec_inj]
    exact BitVec.xor_allOnes
  have hbits : (List.range 16).map (crcBit (crcOf (onAir info))) = onAir (~~~crcOver info) := by
    refine List.map_congr_left fun i hi ↦ ?_
    rw [hcrc, crcBit_eq _ (List.mem_range.1 hi)]
  rw [onAir_append, onAir_append, crc16, hbits]
  rfl

theorem codeBits_eq {c : Channel} (info : BitVec c.info) : codeBits info =
    keptBits (convR14 (crc16 (onAir info) ++ List.replicate 4 false)) := by
  obtain ⟨n, hn, -⟩ := c.exists_stages
  have hlen : (onAir (info ++ ~~~crcOver info ++ 0#4)).length = 2 * n := by
    rw [length_onAir]
    omega
  have hzero : convState 0 = 0 := rfl
  have hpun := punctured_eq n 0 hlen
  rw [hzero, ← crc16_onAir, ← convR14_eq_outputs] at hpun
  rw [← hpun, crc16_onAir, codeBits]

theorem onAir_interleave {n : ℕ} (a : ℕ) (x : BitVec n) :
    onAir (interleave a x) = interleavePerm (onAir x) n a := by
  have hfold : ∀ (ks : List ℕ) (out : BitVec n),
      onAir (ks.foldl (fun dout k ↦ setAir dout (a * (k + 1) % n) (x.getMsbD k)) out) =
        ks.foldl (fun out k ↦ out.set (permIndex n a k) ((onAir x).getD k false))
          (onAir out) := by
    intro ks
    induction ks with
    | nil => intro out; rfl
    | cons k ks ih =>
      intro out
      rw [List.foldl_cons, List.foldl_cons, ih, onAir_setAir, permIndex_eq, getD_onAir]
  rw [interleave, hfold, BitVec.ofNat_eq_ofNat, onAir_zero]
  rfl

/-- The block, as the hardware's stages put it together. -/
def stages (c : Channel) (info : BitVec c.info) (init : BitVec 32) : List Bool :=
  List.zipWith xor (interleavePerm (codeBits info) c.coded c.factor) (maskBits init c.coded)

/-- **The hardware's stages are the codec's.** -/
theorem stages_eq_encodeFrom (c : Channel) (info : BitVec c.info) (init : BitVec 32) :
    stages c info init = c.encodeFrom (onAir info) (UInt32.ofBitVec init) := by
  have hlen : (interleavePerm (codeBits info) c.coded c.factor).length = c.coded :=
    Permute.length_scatter ..
  have hadd := zipWith_lfsrBits (UInt32.ofBitVec init)
    (interleavePerm (codeBits info) c.coded c.factor)
  rw [hlen] at hadd
  rw [stages, maskBits_eq, Channel.encodeFrom, ← codeBits_eq, hadd]

/-! ## The loop invariants -/

namespace SerialEncoder

variable {c : Channel}

/-- What the registers hold while a PDU is coded. -/
def Working (e : SerialEncoder c) (info : BitVec c.info) (init : BitVec 32) : Prop :=
  match e.state with
  | .idle => e.codedValid = true ∧ onAir e.codedBits = stages c info init
  | .crc => e.codedValid = false ∧ e.pdu = info ∧ e.lfsr = init ∧ e.cnt < c.info ∧
      ((onAir info).drop e.cnt).foldl crcNext e.crc = crcOver info
  | .build => e.codedValid = false ∧ e.pdu = info ∧ e.lfsr = init ∧ e.cnt = 0 ∧
      e.crc = crcOver info
  | .rcpc => e.codedValid = false ∧ e.lfsr = init ∧ e.cnt < c.info + 20 ∧
      e.rcpcIdx = keptOf e.cnt ∧ e.bitPhase = (e.cnt % 2 == 1) ∧ (onAir e.rcpc).take e.rcpcIdx ++
        punctured e.bitPhase e.convSr ((onAir e.type3).drop e.cnt) = codeBits info
  | .scram => e.codedValid = false ∧ onAir e.rcpc = codeBits info ∧ e.cnt < c.coded ∧
      (onAir e.mask).take e.cnt ++ maskBits e.lfsr (c.coded - e.cnt) = maskBits init c.coded
  | .finish => e.codedValid = false ∧ onAir e.rcpc = codeBits info ∧
      onAir e.mask = maskBits init c.coded

/-- The cycles until the encoder is idle. -/
def left (e : SerialEncoder c) : ℕ :=
  match e.state with
  | .idle => 0
  | .crc => c.info - e.cnt + (c.info + c.coded + 22)
  | .build => c.info + c.coded + 22
  | .rcpc => c.info + 20 - e.cnt + (c.coded + 1)
  | .scram => c.coded - e.cnt + 1
  | .finish => 1

variable {e : SerialEncoder c} {info : BitVec c.info} {init : BitVec 32}

/-- A start on an idle encoder sets the loops up. -/
theorem working_start (hpos : 0 < c.info) (h : e.state = .idle) :
    (e.step true info init).Working info init := by
  simp only [step, h, if_true, Working]
  exact ⟨trivial, trivial, trivial, hpos, rfl⟩

theorem Working.step_crc (h : e.Working info init) (hs : e.state = .crc) (start : Bool)
    (i : BitVec c.info) (sc : BitVec 32) : (e.step start i sc).Working info init := by
  simp only [Working, hs] at h
  obtain ⟨hv, rfl, rfl, hcnt, hcrc⟩ := h
  rw [drop_onAir _ hcnt, List.foldl_cons] at hcrc
  by_cases hlast : e.cnt = c.info - 1
  · simp only [SerialEncoder.step, hs, if_pos hlast, Working]
    have hnil : (onAir e.pdu).drop (e.cnt + 1) = [] :=
      List.drop_of_length_le (by rw [length_onAir]; omega)
    rw [hnil] at hcrc
    exact ⟨hv, trivial, trivial, trivial, hcrc⟩
  · simp only [SerialEncoder.step, hs, if_neg hlast, Working]
    exact ⟨hv, trivial, trivial, by omega, hcrc⟩

theorem Working.step_build (h : e.Working info init) (hs : e.state = .build) (start : Bool)
    (i : BitVec c.info) (sc : BitVec 32) : (e.step start i sc).Working info init := by
  simp only [Working, hs] at h
  obtain ⟨hv, rfl, rfl, hcnt, hcrc⟩ := h
  simp only [SerialEncoder.step, hs, Working, hcnt, hcrc]
  exact ⟨hv, trivial, Nat.succ_pos _, rfl, rfl, rfl⟩

/-- As many bits are kept of all stages as the block has. -/
theorem keptOf_stages (c : Channel) : keptOf (c.info + 20) = c.coded := by
  obtain ⟨n, hn, hcoded⟩ := c.exists_stages
  rw [hn, hcoded, keptOf]
  omega

theorem keptOf_mono {j k : ℕ} (h : j ≤ k) : keptOf j ≤ keptOf k := by
  simp only [keptOf]
  omega

/-- The bits a stage appends. -/
theorem take_rcpc_step (hidx : e.rcpcIdx = keptOf e.cnt) (hph : e.bitPhase = (e.cnt % 2 == 1))
    (hcnt : e.cnt < c.info + 20) :
    let a := setAir e.rcpc e.rcpcIdx (rcpcG1 e.convSr e.rcpcDin)
    let rcpc := if e.bitPhase then a else setAir a (e.rcpcIdx + 1) (rcpcG2 e.convSr e.rcpcDin)
    let rcpcIdx := if e.bitPhase then e.rcpcIdx + 1 else e.rcpcIdx + 2
    rcpcIdx = keptOf (e.cnt + 1) ∧ ∀ rest, (onAir e.rcpc).take e.rcpcIdx ++
      punctured e.bitPhase e.convSr (e.rcpcDin :: rest) =
        (onAir rcpc).take rcpcIdx ++ punctured (!e.bitPhase) (convShift e.convSr e.rcpcDin) rest := by
  have hsucc := keptOf_succ e.cnt
  have hroom : keptOf (e.cnt + 1) ≤ c.coded :=
    (keptOf_mono (Nat.succ_le_of_lt hcnt)).trans (keptOf_stages c).le
  rw [← hidx] at hsucc
  cases hb : e.bitPhase with
  | true =>
      have hodd : e.cnt % 2 = 1 := by simpa [hb] using hph
      rw [if_pos hodd] at hsucc
      refine ⟨hsucc.symm, fun rest ↦ ?_⟩
      simp only [if_true]
      rw [take_onAir_setAir _ _ (by omega), punctured, List.append_assoc, List.singleton_append]
      rfl
  | false =>
      have heven : e.cnt % 2 ≠ 1 := by simpa [hb] using hph
      rw [if_neg heven] at hsucc
      refine ⟨hsucc.symm, fun rest ↦ ?_⟩
      simp only [Bool.false_eq_true, if_false]
      rw [take_onAir_setAir _ _ (by omega), take_onAir_setAir _ _ (by omega), punctured,
        List.append_assoc, List.append_assoc]
      rfl

theorem Working.step_rcpc (h : e.Working info init) (hs : e.state = .rcpc) (start : Bool)
    (i : BitVec c.info) (sc : BitVec 32) : (e.step start i sc).Working info init := by
  simp only [Working, hs] at h
  obtain ⟨hv, rfl, hcnt, hidx, hph, hcode⟩ := h
  obtain ⟨hidx', happend⟩ := take_rcpc_step hidx hph hcnt
  rw [drop_onAir _ hcnt] at hcode
  have hcode' := (happend ((onAir e.type3).drop (e.cnt + 1))).symm.trans hcode
  by_cases hlast : e.cnt = c.info + 19
  · simp only [SerialEncoder.step, hs, if_pos hlast, Working]
    have hnil : (onAir e.type3).drop (e.cnt + 1) = [] :=
      List.drop_of_length_le (by rw [length_onAir]; omega)
    rw [hlast] at hidx'
    rw [hnil, hidx', keptOf_stages, punctured, List.append_nil] at hcode'
    have hpos : 0 < c.coded := by
      have := c.rate
      omega
    refine ⟨hv, ?_, hpos, rfl⟩
    rw [← hcode']
    exact (take_onAir _).symm
  · simp only [SerialEncoder.step, hs, if_neg hlast, Working]
    refine ⟨hv, trivial, by omega, hidx', ?_, hcode'⟩
    rw [hph]
    rcases Nat.mod_two_eq_zero_or_one e.cnt with h | h
    · rw [Nat.add_mod, h]
      rfl
    · rw [Nat.add_mod, h]
      rfl

theorem Working.step_scram (h : e.Working info init) (hs : e.state = .scram) (start : Bool)
    (i : BitVec c.info) (sc : BitVec 32) : (e.step start i sc).Working info init := by
  simp only [Working, hs] at h
  obtain ⟨hv, hcode, hcnt, hmask⟩ := h
  have hleft : c.coded - e.cnt = c.coded - (e.cnt + 1) + 1 := by omega
  have hnext : (onAir (setAir e.mask e.cnt (lfsrFb e.lfsr))).take (e.cnt + 1) ++
      maskBits (lfsrNext e.lfsr) (c.coded - (e.cnt + 1)) = maskBits init c.coded := by
    rw [take_onAir_setAir _ _ hcnt, List.append_assoc, List.singleton_append, ← hmask, hleft,
      maskBits]
  by_cases hlast : e.cnt = c.coded - 1
  · simp only [SerialEncoder.step, hs, if_pos hlast, Working]
    have hall : e.cnt + 1 = c.coded := by omega
    rw [hall, take_onAir, Nat.sub_self, maskBits, List.append_nil] at hnext
    exact ⟨hv, hcode, hnext⟩
  · simp only [SerialEncoder.step, hs, if_neg hlast, Working]
    exact ⟨hv, hcode, by omega, hnext⟩

theorem Working.step_finish (h : e.Working info init) (hs : e.state = .finish) (start : Bool)
    (i : BitVec c.info) (sc : BitVec 32) : (e.step start i sc).Working info init := by
  simp only [Working, hs] at h
  obtain ⟨-, hcode, hmask⟩ := h
  simp only [SerialEncoder.step, hs, Working]
  exact ⟨trivial, by rw [onAir_xor, onAir_interleave, hcode, hmask, stages]⟩

/-- **The loops code the PDU**: from the cycle after a start until the block is valid, the
registers hold what is done of it. -/
theorem Working.step (h : e.Working info init) (hs : e.state ≠ .idle) (start : Bool)
    (i : BitVec c.info) (sc : BitVec 32) : (e.step start i sc).Working info init := by
  rcases hst : e.state with _ | _ | _ | _ | _ | _
  · exact absurd hst hs
  · exact h.step_crc hst start i sc
  · exact h.step_build hst start i sc
  · exact h.step_rcpc hst start i sc
  · exact h.step_scram hst start i sc
  · exact h.step_finish hst start i sc

/-- The block is valid in the cycle the encoder is idle again, and in no other. -/
theorem Working.codedValid_iff (h : e.Working info init) : e.codedValid = true ↔ e.state = .idle := by
  rcases hst : e.state with _ | _ | _ | _ | _ | _ <;> simp only [Working, hst] at h <;> simp [h.1]

/-- **What is valid is the block of the PDU.** -/
theorem Working.onAir_codedBits (h : e.Working info init) (hs : e.state = .idle) :
    onAir e.codedBits = c.encodeFrom (onAir info) (UInt32.ofBitVec init) := by
  simp only [Working, hs] at h
  rw [h.2, stages_eq_encodeFrom]

/-! ## A whole job -/

/-- The inputs in one cycle. -/
structure Port (c : Channel) where
  encodeStart : Bool
  infoBits : BitVec c.info
  scrambleInit : BitVec 32

/-- One clock edge, with what the inputs show at it. -/
def edge (e : SerialEncoder c) (p : Port c) : SerialEncoder c :=
  e.step p.encodeStart p.infoBits p.scrambleInit

/-- The cycles from a start to the block. -/
def latency (c : Channel) : ℕ := c.info + (c.info + c.coded + 22)

theorem left_start (h : e.state = .idle) : (e.step true info init).left = latency c := by
  simp only [SerialEncoder.step, h, if_true, left, latency, Nat.sub_zero]

theorem left_eq_zero : e.left = 0 ↔ e.state = .idle := by
  rcases hst : e.state with _ | _ | _ | _ | _ | _ <;> simp only [left, hst] <;> simp

/-- **Every cycle is one less.** -/
theorem Working.left_step (h : e.Working info init) (hs : e.state ≠ .idle) (start : Bool)
    (i : BitVec c.info) (sc : BitVec 32) : (e.step start i sc).left + 1 = e.left := by
  rcases hst : e.state with _ | _ | _ | _ | _ | _ <;> simp only [Working, hst] at h
  · exact absurd hst hs
  · obtain ⟨-, -, -, hcnt, -⟩ := h
    by_cases hlast : e.cnt = c.info - 1
    · simp only [SerialEncoder.step, hst, if_pos hlast, left]
      omega
    · simp only [SerialEncoder.step, hst, if_neg hlast, left]
      omega
  · obtain ⟨-, -, -, hcnt, -⟩ := h
    simp only [SerialEncoder.step, hst, left, hcnt]
    omega
  · obtain ⟨-, -, hcnt, -⟩ := h
    by_cases hlast : e.cnt = c.info + 19
    · simp only [SerialEncoder.step, hst, if_pos hlast, left]
      omega
    · simp only [SerialEncoder.step, hst, if_neg hlast, left]
      omega
  · obtain ⟨-, -, hcnt, -⟩ := h
    by_cases hlast : e.cnt = c.coded - 1
    · simp only [SerialEncoder.step, hst, if_pos hlast, left]
      omega
    · simp only [SerialEncoder.step, hst, if_neg hlast, left]
      omega
  · simp only [SerialEncoder.step, hst, left]

/-- A job goes on whatever the inputs are. -/
theorem Working.exec (h : e.Working info init) {ports : List (Port c)}
    (hlen : ports.length ≤ e.left) : (Run.exec edge e ports).Working info init ∧
      (Run.exec edge e ports).left + ports.length = e.left := by
  induction ports generalizing e with
  | nil => exact ⟨h, rfl⟩
  | cons p ports ih =>
      rw [List.length_cons] at hlen ⊢
      have hs : e.state ≠ .idle := fun hidle ↦ by
        rw [left_eq_zero.2 hidle] at hlen
        omega
      have hleft := h.left_step hs p.encodeStart p.infoBits p.scrambleInit
      have hnext := h.step hs p.encodeStart p.infoBits p.scrambleInit
      obtain ⟨hw, hl⟩ := ih (e := e.edge p) hnext (by rw [edge]; omega)
      refine ⟨hw, ?_⟩
      rw [Run.exec_cons, ← hleft]
      rw [edge] at hl ⊢
      omega

/-- **A job takes `latency` cycles**: whatever the inputs are after the start, no block is valid
before, and then the block of the PDU is. -/
theorem exec_start (hpos : 0 < c.info) (h : e.state = .idle) (info : BitVec c.info)
    (init : BitVec 32) {ports : List (Port c)} (hlen : ports.length ≤ latency c) :
    ((Run.exec edge (e.step true info init) ports).codedValid = true ↔
        ports.length = latency c) ∧
      (ports.length = latency c → onAir (Run.exec edge (e.step true info init) ports).codedBits =
        c.encodeFrom (onAir info) (UInt32.ofBitVec init)) := by
  have hstart : (e.step true info init).left = latency c := left_start h
  obtain ⟨hw, hl⟩ := (working_start hpos h).exec (hstart.symm ▸ hlen)
  rw [hstart] at hl
  have hiff : (Run.exec edge (e.step true info init) ports).state = .idle ↔
      ports.length = latency c := by
    rw [← left_eq_zero]
    omega
  exact ⟨hw.codedValid_iff.trans hiff, fun he ↦ hw.onAir_codedBits (hiff.2 he)⟩

end SerialEncoder

end TetraPhy.Lmac
