import Mathlib.Algebra.Ring.Nat
import TetraPhy.Lmac.MacResource

/-!
# Channel allocation, from the transport to the air

A CMCE PDU is staged with a usage marker and a timeslot bitmap; both travel through the
mailbox, the latches of the MLE registration FSM and the downlink PDU builder into the
header of a MAC-RESOURCE.  A PDU staged with neither, as every SDS, every status and the
signalling of a ringing call is, asks for no channel at all.

`allocFaithful_iff` is what comes out at the other end: the builder knows no "none".
-/

namespace TetraPhy.Lmac

open Sw BitField

/-! ## What staging leaves in the mailbox -/

/-- The low `w` bits of a byte, shifted to bit `lo` of a word. -/
theorem toBitVec_field (x : UInt8) (w lo : ℕ) (hw : w ≤ 8) (hlo : lo < 32) :
    ((x &&& UInt8.ofNat (2 ^ w - 1)).toUInt32 <<< UInt32.ofNat lo).toBitVec =
      place 32 lo (x.toBitVec.extractLsb' 0 w) := by
  have hpow : (2 : ℕ) ^ w ≤ 2 ^ 8 := Nat.pow_le_pow_right (by decide) hw
  have hmask : (UInt8.ofNat (2 ^ w - 1)).toBitVec = BitVec.ofNat 8 (2 ^ w - 1) := rfl
  have hsh : ((UInt32.ofNat lo).toBitVec % 32).toNat = lo := by
    rw [BitVec.toNat_umod]
    change lo % 2 ^ 32 % 32 = lo
    omega
  rw [UInt32.toBitVec_shiftLeft, UInt8.toBitVec_toUInt32, UInt8.toBitVec_and, hmask,
    BitVec.shiftLeft_eq', place, hsh]
  congr 1
  refine BitVec.eq_of_getLsbD_eq fun i hi ↦ ?_
  rw [BitVec.getLsbD_setWidth, BitVec.getLsbD_and, BitVec.getLsbD_ofNat,
    Nat.testBit_two_pow_sub_one, BitVec.getLsbD_setWidth, BitVec.getLsbD_extractLsb']
  rcases Nat.lt_or_ge i 8 with h8 | h8
  · simp [hi, h8, Bool.and_comm]
  · have hge : ¬ i < w := by omega
    simp [hge, BitVec.getLsbD_of_ge _ _ h8]

namespace ReplyMailbox

theorem writes_replyGo (m : ReplyMailbox) : m.writes replyGo = m := rfl

/-- `w2` of `stage_raw_mm`. -/
def stagedW2 (umt bitmap : UInt8) : UInt32 :=
  (0x1 : UInt32) ||| ((umt &&& 0x3F).toUInt32 <<< 3) ||| ((bitmap &&& 0xF).toUInt32 <<< 9)

/-- `w9` of `stage_raw_mm`. -/
def stagedW9 (len : ℕ) (ns nr mlePd blAck : UInt8) : UInt32 :=
  ((1 : UInt32) <<< 31) ||| ((blAck &&& 0x1).toUInt32 <<< 13) |||
    ((mlePd &&& 0x7).toUInt32 <<< 10) ||| ((nr &&& 0x1).toUInt32 <<< 9) |||
    ((ns &&& 0x1).toUInt32 <<< 8) ||| (len.toUInt32 &&& 0xFF)

/-- The words of a raw body. -/
def stagedWords (ssi : UInt32) (body : List Bool) (ns nr mlePd umt bitmap blAck : UInt8) :
    List UInt32 :=
  [ssi &&& 0x00FFFFFF, 0, stagedW2 umt bitmap, 0, 0, 0, 0, 0, 0,
    stagedW9 body.length ns nr mlePd blAck,
    rawWords body 0, rawWords body 1, rawWords body 2, rawWords body 3]

theorem stageRawMm_eq_staging {body : List Bool} (h : body.length ≤ 128)
    (ssi : UInt32) (ns nr mlePd umt bitmap blAck : UInt8) :
    (stageRawMm true ssi body ns nr mlePd umt bitmap blAck).1 =
      IndirectMailbox.staging regReplyIndex regReplyData 0
        (stagedWords ssi body ns nr mlePd umt bitmap blAck) ++ replyGo := by
  have hlen : ¬ body.length > 128 := by omega
  simp only [stageRawMm, if_neg hlen, Bool.not_true, Bool.false_eq_true, if_false,
    IndirectMailbox.staging, stagedWords, List.append_assoc, List.nil_append]
  rfl

/-- The mailbox after a raw body was staged, word by word. -/
theorem word_stageRawMm (m : ReplyMailbox) {body : List Bool} (h : body.length ≤ 128)
    (ssi : UInt32) (ns nr mlePd umt bitmap blAck : UInt8) (j : ℕ) (hj : j < 14) :
    (m.writes (stageRawMm true ssi body ns nr mlePd umt bitmap blAck).1).word ⟨j, by omega⟩ =
      ((stagedWords ssi body ns nr mlePd umt bitmap blAck).get ⟨j, hj⟩).toBitVec := by
  have hword : (m.staged regReplyIndex regReplyData 0
      (stagedWords ssi body ns nr mlePd umt bitmap blAck)).word ⟨0 + j, by omega⟩ =
        ((stagedWords ssi body ns nr mlePd umt bitmap blAck).get ⟨j, hj⟩).toBitVec :=
    IndirectMailbox.word_staged (by decide) m (stagedWords ssi body ns nr mlePd umt bitmap blAck)
      (by simp [stagedWords]) j hj
  rw [stageRawMm_eq_staging h, writes_append, writes_replyGo, ← hword]
  congr 2
  omega

/-- The mailbox after a CMCE body was staged, field by field. -/
structure HoldsCmce (m : ReplyMailbox) (umt bitmap : UInt8) (len : ℕ) : Prop where
  usageMarker : m.usageMarker = umt.toBitVec.extractLsb' 0 6
  chanAllocTsBitmap : m.chanAllocTsBitmap = bitmap.toBitVec.extractLsb' 0 4
  rawModeFlag : m.rawModeFlag = true
  rawSlotgrant : m.rawSlotgrant = false
  rawLlcBlAck : m.rawLlcBlAck = false
  rawMlePd : m.rawMlePd = 0b010
  rawMmLen : m.rawMmLen.toNat = len

theorem toBitVec_stagedW2 (umt bitmap : UInt8) : (stagedW2 umt bitmap).toBitVec =
    place 32 0 1#1 ||| place 32 3 (umt.toBitVec.extractLsb' 0 6) |||
      place 32 9 (bitmap.toBitVec.extractLsb' 0 4) := by
  have humt := toBitVec_field umt 6 3 (by decide) (by decide)
  have hbitmap := toBitVec_field bitmap 4 9 (by decide) (by decide)
  rw [stagedW2, UInt32.toBitVec_or, UInt32.toBitVec_or]
  exact congrArg₂ _ (congrArg₂ _ rfl humt) hbitmap

/-- `w9` of a body. -/
theorem toBitVec_stagedW9 (len : ℕ) (ns nr mlePd : UInt8) :
    (stagedW9 len ns nr mlePd 0).toBitVec =
      place 32 31 1#1 ||| place 32 10 (mlePd.toBitVec.extractLsb' 0 3) |||
        place 32 9 (nr.toBitVec.extractLsb' 0 1) ||| place 32 8 (ns.toBitVec.extractLsb' 0 1) |||
          place 32 0 (BitVec.ofNat 8 len) := by
  have hpd := toBitVec_field mlePd 3 10 (by decide) (by decide)
  have hnr := toBitVec_field nr 1 9 (by decide) (by decide)
  have hns := toBitVec_field ns 1 8 (by decide) (by decide)
  have hlen : (len.toUInt32 &&& 0xFF).toBitVec = place 32 0 (BitVec.ofNat 8 len) := by
    refine BitVec.eq_of_toNat_eq ?_
    have hand : len % 4294967296 &&& 255 = len % 4294967296 % 256 :=
      Nat.and_two_pow_sub_one_eq_mod _ 8
    simp [place]
    omega
  have hack : (((1 : UInt32) <<< 31) ||| (((0 : UInt8) &&& 0x1).toUInt32 <<< 13)).toBitVec =
      place 32 31 1#1 := rfl
  rw [stagedW9, UInt32.toBitVec_or, UInt32.toBitVec_or, UInt32.toBitVec_or, UInt32.toBitVec_or]
  exact congrArg₂ _ (congrArg₂ _ (congrArg₂ _ (congrArg₂ _ hack hpd) hnr) hns) hlen

/-- The length of a staged body. -/
theorem rawMmLen_stageRawMm (m : ReplyMailbox) {body : List Bool} (h : body.length ≤ 128)
    (ssi : UInt32) (ns nr mlePd umt bitmap : UInt8) :
    (m.writes (stageRawMm true ssi body ns nr mlePd umt bitmap 0).1).rawMmLen.toNat =
      body.length := by
  have h9 : (m.writes (stageRawMm true ssi body ns nr mlePd umt bitmap 0).1).word 9 = _ :=
    (word_stageRawMm m h ssi ns nr mlePd umt bitmap 0 9 (by decide)).trans
      (toBitVec_stagedW9 body.length ns nr mlePd)
  rw [ReplyMailbox.rawMmLen, h9]
  simp (disch := omega) only [BitVec.extractLsb'_or, slice_place_self, slice_place_apart,
    BitVec.or_zero, BitVec.zero_or]
  rw [BitVec.toNat_ofNat]
  omega

/-- **A staged CMCE body is in the mailbox as it was submitted.** -/
theorem holdsCmce_stageRawMm (m : ReplyMailbox) {body : List Bool} (h : body.length ≤ 128)
    (ssi : UInt32) (ns nr umt bitmap : UInt8) :
    (m.writes (stageRawMm true ssi body ns nr mlePdCmce umt bitmap 0).1).HoldsCmce umt bitmap
      body.length := by
  have h2 : (m.writes (stageRawMm true ssi body ns nr mlePdCmce umt bitmap 0).1).word 2 = _ :=
    (word_stageRawMm m h ssi ns nr mlePdCmce umt bitmap 0 2 (by decide)).trans
      (toBitVec_stagedW2 umt bitmap)
  have h9 : (m.writes (stageRawMm true ssi body ns nr mlePdCmce umt bitmap 0).1).word 9 = _ :=
    (word_stageRawMm m h ssi ns nr mlePdCmce umt bitmap 0 9 (by decide)).trans
      (toBitVec_stagedW9 body.length ns nr mlePdCmce)
  constructor
  · rw [ReplyMailbox.usageMarker, h2]
    simp (disch := omega) only [BitVec.extractLsb'_or, slice_place_self, slice_place_apart,
      BitVec.or_zero, BitVec.zero_or]
  · rw [ReplyMailbox.chanAllocTsBitmap, h2]
    simp (disch := omega) only [BitVec.extractLsb'_or, slice_place_self, slice_place_apart,
      BitVec.or_zero, BitVec.zero_or]
  · rw [ReplyMailbox.rawModeFlag, h9]
    simp [getLsbD_place]
  · rw [ReplyMailbox.rawSlotgrant, h9]
    simp (disch := omega) only [BitVec.getLsbD_or, getLsbD_place_apart, Bool.or_false]
  · rw [ReplyMailbox.rawLlcBlAck, h9]
    simp (disch := omega) only [BitVec.getLsbD_or, getLsbD_place_apart, Bool.or_false]
  · rw [ReplyMailbox.rawMlePd, h9]
    simp (disch := omega) only [BitVec.extractLsb'_or, slice_place_self, slice_place_apart,
      BitVec.or_zero, BitVec.zero_or]
    rfl
  · exact rawMmLen_stageRawMm m h ssi ns nr mlePdCmce umt bitmap

end ReplyMailbox

/-! ## What becomes of it -/

/-- What the header of an emitted CMCE PDU owes to the usage marker and the bitmap the PDU
was staged with; the transport stages six bits of the one and four of the other. -/
def AllocFaithful (umt bitmap : UInt8) (pdu : BitVec 268) : Prop :=
  (umt.toBitVec.extractLsb' 0 6 = 0 ∧ bitmap.toBitVec.extractLsb' 0 4 = 0 →
      MacHeader.chanAllocFlag pdu = false ∧ MacHeader.addrType pdu ≠ 6) ∧
    (bitmap.toBitVec.extractLsb' 0 4 ≠ 0 →
      MacHeader.chanAllocFlag pdu = true ∧
        MacHeader.tsAssigned pdu = bitmap.toBitVec.extractLsb' 0 4)

instance (umt bitmap : UInt8) (pdu : BitVec 268) : Decidable (AllocFaithful umt bitmap pdu) :=
  inferInstanceAs (Decidable (_ ∧ _))

namespace MleFsm

variable {s : MleFsm}

/-- A latched CMCE body takes the CMCE path, whatever marker and bitmap came with it. -/
theorem Latched.cmcePath {m : ReplyMailbox} (h : s.Latched m) {umt bitmap : UInt8} {len : ℕ}
    (hm : m.HoldsCmce umt bitmap len) (hlen : len ≤ 128) (i : MleIn) :
    (s.acceptBuild i).CmcePath := by
  have hpd : s.latRawMlePd = 0b010 := by rw [h.rawMlePd, hm.rawMlePd]; rfl
  have hack : s.blAckPath = false := by simp [blAckPath, h.rawLlcBlAck, hm.rawLlcBlAck]
  have hcmce : s.cmcePath = true := by
    simp [MleFsm.cmcePath, h.rawModeFlag, hm.rawModeFlag, hpd, h.rawLlcBlAck, hm.rawLlcBlAck]
  have hraw : s.latRawModeFlag = true := h.rawModeFlag.trans hm.rawModeFlag
  constructor
  · simp [acceptBuild, hack, hcmce]
  · simp [acceptBuild, hack, hcmce]
  · simp [acceptBuild, hraw, hpd]
  · simp only [acceptBuild, hack, hraw, Bool.false_eq_true, if_false, if_true, h.rawMmLen,
      hm.rawMmLen]
    exact hlen

end MleFsm

/-- What `submit_cmce_pdu` stages, if it stages anything. -/
theorem submitCmcePdu_staged {m : TxPduMeta} {builder : CmceMeta → List Bool}
    (h : (submitCmcePdu true m builder).2 = 0) :
    (builder m.cmce).length ≤ 128 ∧
      submitCmcePdu true m builder = stageRawMm true m.targetSsi (builder m.cmce) m.ns m.nr
        mlePdCmce m.umt m.chanAllocTsBitmap 0 := by
  rw [submitCmcePdu] at h ⊢
  split_ifs at h ⊢ with hempty
  · exact absurd h (by decide)
  · refine ⟨?_, rfl⟩
    by_contra hlong
    rw [stageRawMm, if_pos (by omega)] at h
    exact absurd h (by decide)

/-- **The allocation is faithful exactly when one was staged.**  For a CMCE PDU that the
transport stages, whatever the mailbox held before, and the GO that the FSM accepts for
it: the MAC-RESOURCE asked of the builder honours marker and bitmap unless both are 0. -/
theorem allocFaithful_iff (m₀ : ReplyMailbox) (m : TxPduMeta) (builder : CmceMeta → List Bool)
    (hstaged : (submitCmcePdu true m builder).2 = 0) (s : MleFsm) (i₀ : MleIn)
    (hmb : i₀.mb = m₀.writes (submitCmcePdu true m builder).1) (hgo : s.GoAccepted i₀)
    (i₁ i₂ : MleIn) :
    ((s.step i₀).step i₁).acceptBuildReq = true ∧
      (AllocFaithful m.umt m.chanAllocTsBitmap (((s.step i₀).step i₁).acceptBuild i₂).macPdu ↔
        ¬ (m.umt.toBitVec.extractLsb' 0 6 = 0 ∧
          m.chanAllocTsBitmap.toBitVec.extractLsb' 0 4 = 0)) := by
  obtain ⟨hlen, hsubmit⟩ := submitCmcePdu_staged hstaged
  obtain ⟨hreq, -, hlat⟩ := MleFsm.latched_of_goAccepted hgo i₁
  have hmail : i₀.mb.HoldsCmce m.umt m.chanAllocTsBitmap (builder m.cmce).length := by
    rw [hmb, hsubmit]
    exact ReplyMailbox.holdsCmce_stageRawMm m₀ hlen _ _ _ _ _
  obtain ⟨haddr, hflag, hts⟩ := (hlat.cmcePath hmail hlen i₂).read
  have hbitmap : (((s.step i₀).step i₁).acceptBuild i₂).chanAllocTsBitmap =
      m.chanAllocTsBitmap.toBitVec.extractLsb' 0 4 :=
    hlat.chanAllocTsBitmap.trans hmail.chanAllocTsBitmap
  refine ⟨hreq, ?_⟩
  rw [AllocFaithful, haddr, hflag, hts, hbitmap, BuildReq.allocTs]
  constructor
  · rintro ⟨hnone, -⟩ hzero
    exact (hnone hzero).2 rfl
  · intro hsome
    exact ⟨fun hzero ↦ absurd hzero hsome, fun hne ↦ ⟨rfl, if_pos hne⟩⟩

/-! ### A ringing call -/

/-- The D-ALERT of a call that rings: no usage marker, no timeslots. -/
def alertMeta : TxPduMeta := { targetSsi := 4711, cmce := { callIdentifier := 1 } }

/-- The cycle in which its GO arrives. -/
def alertGo : MleIn :=
  { mb := ReplyMailbox.writes {} (submitCmcePdu true alertMeta buildDAlert).1, goPulse := true }

/-- It is sent with a usage marker address and moves the terminal to timeslot 2. -/
theorem alert_allocates :
    (submitCmcePdu true alertMeta buildDAlert).2 = 0 ∧ MleFsm.init.GoAccepted alertGo ∧
      ¬ AllocFaithful alertMeta.umt alertMeta.chanAllocTsBitmap
        (((MleFsm.init.step alertGo).step alertGo).acceptBuild alertGo).macPdu := by
  decide +kernel

/-- The D-CONNECT of a call on timeslot 3. -/
def connectMeta : TxPduMeta :=
  { targetSsi := 4711, cmce := { callIdentifier := 1 }, umt := 5, chanAllocTsBitmap := 0b0010 }

def connectGo : MleIn :=
  { mb := ReplyMailbox.writes {} (submitCmcePdu true connectMeta buildDConnect).1, goPulse := true }

theorem connect_faithful : AllocFaithful connectMeta.umt connectMeta.chanAllocTsBitmap
    (((MleFsm.init.step connectGo).step connectGo).acceptBuild connectGo).macPdu :=
  (allocFaithful_iff {} connectMeta buildDConnect (by decide) MleFsm.init connectGo rfl (by decide)
    connectGo connectGo).2.2 (by decide)

end TetraPhy.Lmac
