import TetraPhy.Lmac.SerialEncoder

/-!
# The SCH/HD encoder

`tetra_sch_hd_encoder.v`, the serial encoder at the dimensions of SCH/HD: a PDU of 124 bits
becomes a block of 216.  `SchHdEncoder.toSerial` reads its registers as those of the serial
encoder, and `toSerial_step` is that both take the same step; what holds of the one is then
read off the other.
-/

namespace TetraPhy.Codec

/-- SCH/HD. -/
def schhd : Channel := ⟨124, 216, 101, by decide, by decide, by decide⟩

/-- The SCH/HD block of an information word, for a scrambling seed. -/
def schhdEncode (info : List Bool) (lfsr : UInt32) : List Bool :=
  scrambleWith Bool.not lfsr
    (interleavePerm (keptBits (convR14 (crc16 info ++ List.replicate 4 false))) 216 101)

/-- It is the encoder of the channel. -/
theorem schhd_encode {info : List Bool} (h : info.length = 124) (colourCode slotNum : UInt8)
    (mcc mnc : UInt16) : schhd.encode info colourCode slotNum mcc mnc =
      some (schhdEncode info (scrambleInit colourCode mcc mnc)) :=
  Channel.encode_eq (c := schhd) h colourCode slotNum mcc mnc

end TetraPhy.Codec

namespace TetraPhy.Lmac

open AirOrder Codec

/-- `sch_hd_interleave`. -/
def schHdInterleave (din : BitVec 216) : BitVec 216 :=
  (List.range 216).foldl (fun dout k ↦ setAir dout (101 * (k + 1) % 216) (din.getMsbD k)) 0

/-! ## The FSM -/

/-- The registers. -/
structure SchHdEncoder where
  state : EncState := .idle
  cnt : ℕ := 0
  pdu : BitVec 124 := 0
  crc : BitVec 16 := 0xFFFF
  type3 : BitVec 144 := 0
  convSr : BitVec 4 := 0
  bitPhase : Bool := false
  rcpc : BitVec 216 := 0
  rcpcIdx : ℕ := 0
  lfsr : BitVec 32 := 0
  mask : BitVec 216 := 0
  codedBits : BitVec 216 := 0
  codedValid : Bool := false

namespace SchHdEncoder

variable (e : SchHdEncoder)

/-- `rcpc_din_w`. -/
def rcpcDin : Bool := e.type3.getMsbD e.cnt

/-- One clock edge. -/
def step (encodeStart : Bool) (infoBits : BitVec 124) (scrambleInit : BitVec 32) :
    SchHdEncoder :=
  match e.state with
  | .idle =>
      let e := { e with codedValid := false }
      if encodeStart then
        { e with pdu := infoBits, crc := 0xFFFF, cnt := 0, lfsr := scrambleInit, mask := 0
                 state := .crc }
      else e
  | .crc =>
      let e' := { e with crc := crcNext e.crc (e.pdu.getMsbD e.cnt) }
      if e.cnt = 123 then { e' with cnt := 0, state := .build } else { e' with cnt := e.cnt + 1 }
  | .build =>
      { e with type3 := e.pdu ++ ~~~e.crc ++ 0#4, convSr := 0, bitPhase := false, rcpc := 0
               rcpcIdx := 0, state := .rcpc }
  | .rcpc =>
      let a := setAir e.rcpc e.rcpcIdx (rcpcG1 e.convSr e.rcpcDin)
      let e' := { e with
        convSr := convShift e.convSr e.rcpcDin
        rcpc := if e.bitPhase then a else setAir a (e.rcpcIdx + 1) (rcpcG2 e.convSr e.rcpcDin)
        rcpcIdx := if e.bitPhase then e.rcpcIdx + 1 else e.rcpcIdx + 2
        bitPhase := !e.bitPhase }
      if e.cnt = 143 then { e' with cnt := 0, state := .scram } else { e' with cnt := e.cnt + 1 }
  | .scram =>
      let e' := { e with mask := setAir e.mask e.cnt (lfsrFb e.lfsr), lfsr := lfsrNext e.lfsr }
      if e.cnt = 215 then { e' with state := .finish } else { e' with cnt := e.cnt + 1 }
  | .finish =>
      { e with codedBits := schHdInterleave e.rcpc ^^^ e.mask, codedValid := true, state := .idle }

end SchHdEncoder

/-! ## The stages -/

/-- The CRC register after the PDU. -/
def crcAfter (info : BitVec 124) : BitVec 16 := (onAir info).foldl crcNext 0xFFFF

/-- The type-4 bits. -/
def type4 (info : BitVec 124) : List Bool :=
  punctured false 0 (onAir (info ++ ~~~crcAfter info ++ 0#4))

/-- **The hardware's stages are the codec's.** -/
theorem stages_eq (info : BitVec 124) (init : BitVec 32) :
    List.zipWith xor (interleavePerm (type4 info) 216 101) (maskBits init 216) =
      schhdEncode (onAir info) (UInt32.ofBitVec init) :=
  stages_eq_encodeFrom schhd info init

/-! ## The serial encoder -/

namespace SchHdEncoder

/-- The registers of the serial encoder. -/
def toSerial (e : SchHdEncoder) : SerialEncoder schhd where
  state := e.state
  cnt := e.cnt
  pdu := e.pdu
  crc := e.crc
  type3 := e.type3
  convSr := e.convSr
  bitPhase := e.bitPhase
  rcpc := e.rcpc
  rcpcIdx := e.rcpcIdx
  lfsr := e.lfsr
  mask := e.mask
  codedBits := e.codedBits
  codedValid := e.codedValid

/-- **The two take the same step.** -/
theorem toSerial_step (e : SchHdEncoder) (start : Bool) (i : BitVec 124) (sc : BitVec 32) :
    (e.step start i sc).toSerial = e.toSerial.step start i sc := by
  obtain ⟨state, cnt, pdu, crc, type3, convSr, bitPhase, rcpc, rcpcIdx, lfsr, mask, codedBits,
    codedValid⟩ := e
  cases state with
  | idle => cases start <;> rfl
  | crc => exact apply_ite toSerial (cnt = 123) _ _
  | build => rfl
  | rcpc => exact apply_ite toSerial (cnt = 143) _ _
  | scram => exact apply_ite toSerial (cnt = 215) _ _
  | finish => rfl

/-- What the registers hold while a PDU is coded. -/
def Working (e : SchHdEncoder) (info : BitVec 124) (init : BitVec 32) : Prop :=
  match e.state with
  | .idle => e.codedValid = true ∧ onAir e.codedBits =
      List.zipWith xor (interleavePerm (type4 info) 216 101) (maskBits init 216)
  | .crc => e.codedValid = false ∧ e.pdu = info ∧ e.lfsr = init ∧ e.cnt < 124 ∧
      ((onAir info).drop e.cnt).foldl crcNext e.crc = crcAfter info
  | .build => e.codedValid = false ∧ e.pdu = info ∧ e.lfsr = init ∧ e.cnt = 0 ∧
      e.crc = crcAfter info
  | .rcpc => e.codedValid = false ∧ e.lfsr = init ∧ e.cnt < 144 ∧ e.rcpcIdx = keptOf e.cnt ∧
      e.bitPhase = (e.cnt % 2 == 1) ∧ (onAir e.rcpc).take e.rcpcIdx ++
        punctured e.bitPhase e.convSr ((onAir e.type3).drop e.cnt) = type4 info
  | .scram => e.codedValid = false ∧ onAir e.rcpc = type4 info ∧ e.cnt < 216 ∧
      (onAir e.mask).take e.cnt ++ maskBits e.lfsr (216 - e.cnt) = maskBits init 216
  | .finish => e.codedValid = false ∧ onAir e.rcpc = type4 info ∧ onAir e.mask = maskBits init 216

variable {e : SchHdEncoder} {info : BitVec 124} {init : BitVec 32}

theorem working_iff : e.Working info init ↔ e.toSerial.Working info init := by
  rcases hst : e.state with _ | _ | _ | _ | _ | _ <;>
    simp only [Working, SerialEncoder.Working, toSerial, hst] <;> exact Iff.rfl

/-- A start on an idle encoder sets the loops up. -/
theorem working_start (h : e.state = .idle) : (e.step true info init).Working info init := by
  rw [working_iff, toSerial_step]
  exact SerialEncoder.working_start (c := schhd) (by decide) h

/-- **The loops code the PDU**: from the cycle after a start until the block is valid, the
registers hold what is done of it. -/
theorem Working.step (h : e.Working info init) (hs : e.state ≠ .idle) (start : Bool)
    (i : BitVec 124) (sc : BitVec 32) : (e.step start i sc).Working info init := by
  rw [working_iff, toSerial_step]
  exact (working_iff.1 h).step hs start i sc

/-- The block is valid in the cycle the encoder is idle again, and in no other. -/
theorem Working.codedValid_iff (h : e.Working info init) : e.codedValid = true ↔ e.state = .idle :=
  SerialEncoder.Working.codedValid_iff (working_iff.1 h)

/-- **What is valid is the SCH/HD block.** -/
theorem Working.onAir_codedBits (h : e.Working info init) (hs : e.state = .idle) :
    onAir e.codedBits = schhdEncode (onAir info) (UInt32.ofBitVec init) :=
  SerialEncoder.Working.onAir_codedBits (working_iff.1 h) hs

end SchHdEncoder

end TetraPhy.Lmac
