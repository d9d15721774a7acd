import TetraPhy.Lib.Parity
import TetraPhy.Lmac.SerialEncoder

/-!
# The SB1 encoder

`tetra_sb1_encoder.v` puts the SYNC PDU together and codes it for the BSCH.  It is the serial
encoder of the signalling channels without the scrambling loop: the seed is always 3, so the mask
is a constant.  `Sb1Encoder.toSerial` reads its registers as those of the serial encoder, with the
last state as the first cycle of the loop that is missing, and `toSerial_step` carries the loop
invariant over.

The block is held until the next one is finished.
-/

namespace TetraPhy.Codec

/-- BSCH. -/
def bsch : Channel := ⟨60, 120, 11, by decide, by decide, by decide⟩

/-- Different information words have different blocks. -/
theorem Channel.encodeFrom_injective (c : Channel) {info info' : List Bool}
    (h : info.length = c.info) (h' : info'.length = c.info) (colourCode : UInt8) (mcc mnc : UInt16)
    (heq : c.encodeFrom info (scrambleInit colourCode mcc mnc) =
      c.encodeFrom info' (scrambleInit colourCode mcc mnc)) : info = info' := by
  obtain ⟨block, hblock, -, hdecode⟩ := c.decode_encode h colourCode 0 0 mcc mnc
  obtain ⟨block', hblock', -, hdecode'⟩ := c.decode_encode h' colourCode 0 0 mcc mnc
  rw [c.encode_eq_encodeFrom h] at hblock
  rw [c.encode_eq_encodeFrom h', ← heq] at hblock'
  obtain rfl : block = block' := Option.some.inj (hblock.symm.trans hblock')
  exact congrArg Prod.fst (Option.some.inj (hdecode.symm.trans hdecode'))

end TetraPhy.Codec

namespace TetraPhy.Tx

open AirOrder Codec Lmac Permute

/-! ## The SYNC PDU -/

/-- The configuration of the cell, as the SYNC PDU has it. -/
structure SyncConfig where
  systemCode : BitVec 4 := 0
  colourCode : BitVec 6 := 0
  sharingMode : BitVec 2 := 0
  tsReservedFrames : BitVec 3 := 0
  uPlane : Bool := false
  frame18Ext : Bool := false
  mcc : BitVec 10 := 0
  mnc : BitVec 14 := 0
  neighbourCellBroadcast : BitVec 2 := 0
  cellServiceLevel : BitVec 2 := 0
  lateEntryInfo : Bool := false
deriving DecidableEq, Repr

/-- The dynamic fields. -/
structure SlotTime where
  slot : BitVec 2 := 0
  frameNum : BitVec 5 := 0
  multiframeNum : BitVec 6 := 0
deriving DecidableEq, Repr

/-- The value latched into `pdu_sys`. -/
def syncPdu (cfg : SyncConfig) (t : SlotTime) : BitVec 60 :=
  cfg.systemCode ++ cfg.colourCode ++ t.slot ++ t.frameNum ++ t.multiframeNum ++ cfg.sharingMode ++
    cfg.tsReservedFrames ++ BitVec.ofBool cfg.uPlane ++ BitVec.ofBool cfg.frame18Ext ++ 0#1 ++
    cfg.mcc ++ cfg.mnc ++ cfg.neighbourCellBroadcast ++ cfg.cellServiceLevel ++
    BitVec.ofBool cfg.lateEntryInfo

/-- The PDU tells the slot. -/
theorem syncPdu_injective (cfg : SyncConfig) {t t' : SlotTime}
    (h : syncPdu cfg t = syncPdu cfg t') : t = t' := by
  have hair := congrArg onAir h
  simp only [syncPdu, onAir_append, List.append_assoc, List.append_cancel_left_eq] at hair
  obtain ⟨hslot, hair⟩ := List.append_inj hair (by simp only [length_onAir])
  obtain ⟨hframe, hair⟩ := List.append_inj hair (by simp only [length_onAir])
  obtain ⟨hmultiframe, -⟩ := List.append_inj hair (by simp only [length_onAir])
  cases t
  cases t'
  exact SlotTime.mk.injEq .. ▸
    ⟨onAir_injective hslot, onAir_injective hframe, onAir_injective hmultiframe⟩

/-! ## The mask -/

/-- `compute_scramble_mask`. -/
def computeScrambleMask (init : BitVec 32) : BitVec 120 :=
  ((List.range 120).foldl (fun lm i ↦ (lfsrNext lm.1, setAir lm.2 i (lfsrFb lm.1))) (init, 0)).2

/-- `SCRAMBLE_MASK`. -/
def scrambleMask : BitVec 120 := computeScrambleMask 3

/-- What the loop has done, and what the register still delivers, make up the mask. -/
theorem take_maskLoop (init : BitVec 32) {k : ℕ} (hk : k ≤ 120) :
    let lm := (List.range k).foldl
      (fun lm i ↦ (lfsrNext lm.1, setAir lm.2 i (lfsrFb lm.1))) (init, (0 : BitVec 120))
    (onAir lm.2).take k ++ maskBits lm.1 (120 - k) = maskBits init 120 := by
  induction k with
  | zero => rfl
  | succ k ih =>
      have hleft : 120 - k = 120 - (k + 1) + 1 := by omega
      have hdone := ih (Nat.le_of_succ_le hk)
      simp only [List.range_succ, List.foldl_append, List.foldl_cons, List.foldl_nil]
      rw [take_onAir_setAir _ _ hk, List.append_assoc, List.singleton_append, ← hdone, hleft,
        maskBits]

theorem onAir_computeScrambleMask (init : BitVec 32) :
    onAir (computeScrambleMask init) = maskBits init 120 :=
  (take_onAir _).symm.trans ((List.append_nil _).symm.trans (take_maskLoop init le_rfl))

/-- The block of a PDU, from the stages of the hardware. -/
theorem zipWith_mask (info : BitVec 60) :
    List.zipWith xor (interleavePerm (codeBits info) 120 11) (maskBits 3 120) =
      bsch.encodeFrom (onAir info) 3 :=
  stages_eq_encodeFrom bsch info 3

/-! ## The FSM -/

/-- The states. -/
inductive Sb1State
  | idle | crc | build | rcpc | finish
deriving DecidableEq, Repr

/-- The registers. -/
structure Sb1Encoder where
  state : Sb1State := .idle
  cnt : ℕ := 0
  pdu : BitVec 60 := 0
  crc : BitVec 16 := 0xFFFF
  type3 : BitVec 80 := 0
  convSr : BitVec 4 := 0
  bitPhase : Bool := false
  rcpc : BitVec 120 := 0
  rcpcIdx : ℕ := 0
  sb1Coded : BitVec 120 := 0
  sb1Valid : Bool := false
deriving DecidableEq, Repr

/-- `bsch_interleave`. -/
def bschInterleave (din : BitVec 120) : BitVec 120 :=
  (List.range 120).foldl (fun dout k ↦ setAir dout (11 * (k + 1) % 120) (din.getMsbD k)) 0

namespace Sb1Encoder

section

variable (e : Sb1Encoder)

/-- `rcpc_din_w`. -/
def rcpcDin : Bool := e.type3.getMsbD e.cnt

/-- One clock edge. -/
def step (encodeStart : Bool) (cfg : SyncConfig) (t : SlotTime) : Sb1Encoder :=
  match e.state with
  | .idle =>
      if encodeStart then
        { e with pdu := syncPdu cfg t, crc := 0xFFFF, cnt := 0, state := .crc }
      else e
  | .crc =>
      let e' := { e with crc := crcNext e.crc (e.pdu.getMsbD e.cnt) }
      if e.cnt = 59 then { e' with cnt := 0, state := .build }
      else { e' with cnt := e.cnt + 1 }
  | .build =>
      { e with type3 := e.pdu ++ ~~~e.crc ++ 0#4, convSr := 0, bitPhase := false, rcpc := 0
               rcpcIdx := 0, state := .rcpc }
  | .rcpc =>
      let a := setAir e.rcpc e.rcpcIdx (rcpcG1 e.convSr e.rcpcDin)
      let e' := { e with
        convSr := convShift e.convSr e.rcpcDin
        rcpc := if e.bitPhase then a else setAir a (e.rcpcIdx + 1) (rcpcG2 e.convSr e.rcpcDin)
        rcpcIdx := if e.bitPhase then e.rcpcIdx + 1 else e.rcpcIdx + 2
        bitPhase := !e.bitPhase }
      if e.cnt = 79 then { e' with state := .finish } else { e' with cnt := e.cnt + 1 }
  | .finish =>
      { e with sb1Coded := bschInterleave e.rcpc ^^^ scrambleMask, sb1Valid := true
               state := .idle }

end

/-! ## It is the serial encoder -/

/-- The registers as those of the serial encoder, which goes on to its scrambling loop. -/
def toSerial (e : Sb1Encoder) : SerialEncoder bsch where
  state := match e.state with
    | .idle => .idle
    | .crc => .crc
    | .build => .build
    | .rcpc => .rcpc
    | .finish => .scram
  cnt := if e.state = .finish then 0 else e.cnt
  pdu := e.pdu
  crc := e.crc
  type3 := e.type3
  convSr := e.convSr
  bitPhase := e.bitPhase
  rcpc := e.rcpc
  rcpcIdx := e.rcpcIdx
  lfsr := 3
  mask := 0
  codedBits := 0
  codedValid := false

variable {e : Sb1Encoder} {cfg : SyncConfig} {t : SlotTime}

/-- **Both take the same step** while they work. -/
theorem toSerial_step (hidle : e.state ≠ .idle) (hfinish : e.state ≠ .finish) (start : Bool)
    (cfg : SyncConfig) (t : SlotTime) :
    (e.step start cfg t).toSerial = e.toSerial.step start (syncPdu cfg t) 3 := by
  rcases hs : e.state with _ | _ | _ | _ | _
  · exact absurd hs hidle
  · by_cases hlast : e.cnt = 59
    · simp [step, SerialEncoder.step, toSerial, hs, hlast, bsch]
    · simp [step, SerialEncoder.step, toSerial, hs, hlast, bsch]
  · simp only [step, SerialEncoder.step, toSerial, hs]
    rfl
  · by_cases hlast : e.cnt = 79
    · simp [step, SerialEncoder.step, toSerial, hs, hlast, bsch, rcpcDin, SerialEncoder.rcpcDin]
    · simp [step, SerialEncoder.step, toSerial, hs, hlast, bsch, rcpcDin, SerialEncoder.rcpcDin]
  · exact absurd hs hfinish

/-! ## The loop invariant -/

/-- What the registers hold from the start of a PDU until the next start. -/
def Working (e : Sb1Encoder) (info : BitVec 60) : Prop :=
  if e.state = .idle then onAir e.sb1Coded = bsch.encodeFrom (onAir info) 3
  else e.toSerial.Working info 3

/-- The cycles until the block is there. -/
def left (e : Sb1Encoder) : ℕ :=
  match e.state with
  | .idle => 0
  | .crc => 60 - e.cnt + 82
  | .build => 82
  | .rcpc => 80 - e.cnt + 1
  | .finish => 1

/-- A start on an idle encoder. -/
theorem working_start (h : e.state = .idle) (cfg : SyncConfig) (t : SlotTime) :
    (e.step true cfg t).Working (syncPdu cfg t) ∧ (e.step true cfg t).left = 142 := by
  simp only [step, h, if_true, Working, left, toSerial, SerialEncoder.Working]
  exact ⟨⟨trivial, rfl, trivial, by decide, rfl⟩, trivial⟩

/-- The block that is delivered. -/
theorem Working.step_finish {info : BitVec 60} (h : e.Working info) (hs : e.state = .finish)
    (start : Bool) (cfg : SyncConfig) (t : SlotTime) : (e.step start cfg t).Working info := by
  simp only [Working, hs, toSerial, SerialEncoder.Working] at h
  have hcode : onAir e.rcpc = codeBits info := h.2.1
  simp only [Sb1Encoder.step, hs, Working, if_true]
  rw [onAir_xor, scrambleMask, onAir_computeScrambleMask, ← zipWith_mask, ← hcode]
  exact congrArg (List.zipWith xor · _) (onAir_interleave 11 e.rcpc)

/-- **The loops code the PDU**, whatever the inputs are meanwhile. -/
theorem Working.step {info : BitVec 60} (h : e.Working info) (hidle : e.state ≠ .idle)
    (start : Bool) (cfg : SyncConfig) (t : SlotTime) : (e.step start cfg t).Working info := by
  by_cases hfinish : e.state = .finish
  · exact h.step_finish hfinish start cfg t
  · have hstep := toSerial_step hidle hfinish start cfg t
    have hnext : (e.step start cfg t).state ≠ .idle := by
      rcases hs : e.state with _ | _ | _ | _ | _
      · exact absurd hs hidle
      · simp only [Sb1Encoder.step, hs]
        split_ifs <;> simp
      · simp only [Sb1Encoder.step, hs]
        simp
      · simp only [Sb1Encoder.step, hs]
        split_ifs <;> simp
      · exact absurd hs hfinish
    have hserial : e.toSerial.state ≠ .idle := by
      rcases hs : e.state with _ | _ | _ | _ | _ <;> simp_all [toSerial]
    rw [Working, if_neg hidle] at h
    rw [Working, if_neg hnext, hstep]
    exact h.step hserial start _ _

/-- Every cycle is one less. -/
theorem Working.left_step {info : BitVec 60} (h : e.Working info) (hidle : e.state ≠ .idle)
    (start : Bool) (cfg : SyncConfig) (t : SlotTime) : (e.step start cfg t).left + 1 = e.left := by
  rw [Working, if_neg hidle] at h
  rcases hs : e.state with _ | _ | _ | _ | _ <;>
    simp only [toSerial, hs, SerialEncoder.Working] at h
  · exact absurd hs hidle
  · obtain ⟨-, -, -, hcnt, -⟩ := h
    have hcnt : e.cnt < 60 := hcnt
    by_cases hlast : e.cnt = 59
    · simp only [Sb1Encoder.step, hs, if_pos hlast, left]
      omega
    · simp only [Sb1Encoder.step, hs, if_neg hlast, left]
      omega
  · obtain ⟨-, -, -, hcnt, -⟩ := h
    have hcnt : e.cnt = 0 := hcnt
    simp only [Sb1Encoder.step, hs, left, hcnt]
  · obtain ⟨-, -, hcnt, -⟩ := h
    have hcnt : e.cnt < 80 := hcnt
    by_cases hlast : e.cnt = 79
    · simp only [Sb1Encoder.step, hs, if_pos hlast, left]
      omega
    · simp only [Sb1Encoder.step, hs, if_neg hlast, left]
      omega
  · simp only [Sb1Encoder.step, hs, left]

theorem left_eq_zero : e.left = 0 ↔ e.state = .idle := by
  rcases hs : e.state with _ | _ | _ | _ | _ <;> simp [left, hs]

/-- An idle encoder waits for a start, and holds its block. -/
theorem step_idle (h : e.state = .idle) (cfg : SyncConfig) (t : SlotTime) :
    e.step false cfg t = e := by
  simp only [step, h, Bool.false_eq_true, if_false]

end Sb1Encoder

/-! ## No block is all zeros -/

/-- The first two bits of the code are equal. -/
theorem codeBits_pair (info : BitVec 60) :
    (codeBits info).getD 0 false = (codeBits info).getD 1 false := by
  have hfirst : ∀ b, rcpcG1 0 b = rcpcG2 0 b := by decide
  obtain ⟨x, y, rest, hbits⟩ :
      ∃ x y rest, onAir (info ++ ~~~crcOver info ++ 0#4) = x :: y :: rest := by
    rcases h : onAir (info ++ ~~~crcOver info ++ 0#4) with _ | ⟨x, _ | ⟨y, rest⟩⟩
    · exact absurd (congrArg List.length h) (by simp only [length_onAir]; decide)
    · exact absurd (congrArg List.length h)
        (by simp only [length_onAir, List.length_singleton]; decide)
    · exact ⟨x, y, rest, rfl⟩
  rw [codeBits, hbits, punctured]
  exact hfirst x

/-- They are interleaved to the places 11 and 22, where the mask differs. -/
theorem encodeFrom_ne_zero (info : BitVec 60) :
    bsch.encodeFrom (onAir info) 3 ≠ List.replicate 120 false := by
  intro hzero
  have hplace : ∀ k < 120, ((codeBits info).getD k false ^^
      (maskBits 3 120).getD (permIndex 120 11 k) false) = false := by
    intro k hk
    have hat : (interleavePerm (codeBits info) 120 11).getD (permIndex 120 11 k) false =
        (codeBits info).getD k false :=
      getD_scatter false (fun _ ↦ permIndex_lt) (permIndex_inj (by decide)) _ hk
    have hlen : (interleavePerm (codeBits info) 120 11).length = (maskBits 3 120).length :=
      (length_scatter ..).trans (by decide +kernel)
    rw [← hat, ← Parity.getD_zipWith hlen, zipWith_mask, hzero, 
      List.getD_replicate false (permIndex_lt hk)]
  have hfirst := hplace 0 (by decide)
  have hsecond := hplace 1 (by decide)
  have hmask : (maskBits 3 120).getD (permIndex 120 11 0) false = true ∧
      (maskBits 3 120).getD (permIndex 120 11 1) false = false := by decide +kernel
  rw [hmask.2, Bool.xor_false] at hsecond
  rw [hmask.1, codeBits_pair, hsecond] at hfirst
  exact absurd hfirst (by decide)

end TetraPhy.Tx
