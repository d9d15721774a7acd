import TetraPhy.Lmac.ChannelAllocation
import TetraPhy.Lmac.FillerMailbox
import TetraPhy.Sw.SdsDlFrag

/-!
# Which CMCE PDUs the transport takes

The body builders of `tetra_cmce_body.c` limit a body by octets, `stage_raw_mm` limits it to the
128 bits of the reply mailbox.  `HoldsPdu` says that a PDU is in the mailbox in full,
`staged_iff` which PDUs of which builders get there: all of them, except the D-SDS-DATA with
more than 10 octets of user data.
-/

namespace TetraPhy.Lmac

open Sw

/-! ## The bits of the body -/

theorem rawWords_eq (body : List Bool) : rawWords body =
    body.zipIdx.foldl (fun w b ↦ if b.1 then setWordBit w (127 - b.2) else w) fun _ ↦ 0 := rfl

/-- Bit `i` of the body is at position `127 - i`. -/
theorem wordBit_rawWords {body : List Bool} (h : body.length ≤ 128) {i : ℕ}
    (hi : i < body.length) : wordBit (rawWords body) (127 - i) = body.get ⟨i, hi⟩ := by
  have hzero : wordBit (fun _ ↦ 0) (127 - i) = false := BitVec.getLsbD_zero
  rw [rawWords_eq, wordBit_foldl, hzero, Bool.false_or, Bool.eq_iff_iff, List.any_eq_true]
  constructor
  · rintro ⟨⟨b, j⟩, hmem, hb⟩
    rw [Bool.and_eq_true, decide_eq_true_eq] at hb
    obtain ⟨hj, hget⟩ := List.mem_zipIdx' hmem
    have hij : i = j := by omega
    subst hij
    rw [List.get_eq_getElem, ← hget]
    exact hb.1
  · intro hb
    refine ⟨(body.get ⟨i, hi⟩, i), ?_, ?_⟩
    · rw [List.mem_iff_getElem]
      exact ⟨i, by rw [List.length_zipIdx]; exact hi, by rw [List.getElem_zipIdx]; simp⟩
    · rw [hb, Bool.true_and]
      exact decide_eq_true rfl

namespace ReplyMailbox

/-- A CMCE PDU is in the mailbox: the address, the fields of its header, and every bit of
the body. -/
structure HoldsPdu (m : ReplyMailbox) (req : TxPduMeta) (body : List Bool) : Prop where
  ssi : m.ssi = req.targetSsi.toBitVec.extractLsb' 0 24
  fields : m.HoldsCmce req.umt req.chanAllocTsBitmap body.length
  bits : ∀ i (hi : i < body.length), m.rawMmBits.getLsbD (127 - i) = body.get ⟨i, hi⟩

/-- The bits of `rawMmBits`, if words 10 to 13 are `words`. -/
theorem getLsbD_rawMmBits {m : ReplyMailbox} {words : ℕ → UInt32}
    (h : ∀ j (hj : j < 4), m.word ⟨10 + j, by omega⟩ = (words j).toBitVec) {k : ℕ} (hk : k < 128) :
    m.rawMmBits.getLsbD k = wordBit words k := by
  have h0 : m.word 10 = _ := h 0 (by decide)
  have h1 : m.word 11 = _ := h 1 (by decide)
  have h2 : m.word 12 = _ := h 2 (by decide)
  have h3 : m.word 13 = _ := h 3 (by decide)
  rw [rawMmBits, h0, h1, h2, h3, wordBit]
  simp only [BitVec.getLsbD_append]
  split_ifs with hk0 hk1 hk2
  · rw [show k / 32 = 0 by omega, show k % 32 = k by omega]
  · rw [show k / 32 = 1 by omega, show k % 32 = k - 32 by omega]
  · rw [show k / 32 = 2 by omega, show k % 32 = k - 32 - 32 by omega]
  · rw [show k / 32 = 3 by omega, show k % 32 = k - 32 - 32 - 32 by omega]

/-- **The bits of a staged body.** -/
theorem getLsbD_stageRawMm (m : ReplyMailbox) {body : List Bool} (h : body.length ≤ 128)
    (ssi : UInt32) (ns nr mlePd umt bitmap blAck : UInt8) {i : ℕ} (hi : i < body.length) :
    (m.writes (stageRawMm true ssi body ns nr mlePd umt bitmap blAck).1).rawMmBits.getLsbD
      (127 - i) = body.get ⟨i, hi⟩ := by
  have hbody : ∀ j (hj : j < 4), (m.writes (stageRawMm true ssi body ns nr mlePd umt bitmap
      blAck).1).word ⟨10 + j, by omega⟩ = (rawWords body j).toBitVec := by
    intro j hj
    rw [word_stageRawMm m h ssi ns nr mlePd umt bitmap blAck (10 + j) (by omega)]
    match j, hj with
    | 0, _ | 1, _ | 2, _ | 3, _ => rfl
  rw [getLsbD_rawMmBits hbody (by omega), wordBit_rawWords h hi]

/-- The body that the mailbox shows: of the raw field, as many bits as the length says. -/
def rawBody (m : ReplyMailbox) : List Bool :=
  (List.range m.rawMmLen.toNat).map fun i ↦ m.rawMmBits.getLsbD (127 - i)

/-- **The mailbox shows the body that was staged.** -/
theorem rawBody_stageRawMm (m : ReplyMailbox) {body : List Bool} (h : body.length ≤ 128)
    (ssi : UInt32) (ns nr mlePd umt bitmap : UInt8) :
    (m.writes (stageRawMm true ssi body ns nr mlePd umt bitmap 0).1).rawBody = body := by
  rw [rawBody, rawMmLen_stageRawMm m h]
  refine List.ext_getElem (by rw [List.length_map, List.length_range]) fun i hi hi' ↦ ?_
  rw [List.getElem_map, List.getElem_range, getLsbD_stageRawMm m h ssi ns nr mlePd umt bitmap 0 hi']
  rfl

theorem holdsPdu_stageRawMm (m : ReplyMailbox) (req : TxPduMeta) {body : List Bool}
    (h : body.length ≤ 128) :
    (m.writes (stageRawMm true req.targetSsi body req.ns req.nr mlePdCmce req.umt
      req.chanAllocTsBitmap 0).1).HoldsPdu req body := by
  refine ⟨?_, holdsCmce_stageRawMm m h _ _ _ _ _, fun i hi ↦
    getLsbD_stageRawMm m h _ _ _ _ _ _ _ hi⟩
  have h0 : (m.writes (stageRawMm true req.targetSsi body req.ns req.nr mlePdCmce req.umt
      req.chanAllocTsBitmap 0).1).word 0 = (req.targetSsi &&& 0x00FFFFFF).toBitVec :=
    word_stageRawMm m h req.targetSsi req.ns req.nr mlePdCmce req.umt req.chanAllocTsBitmap 0 0
      (by decide)
  rw [ReplyMailbox.ssi, h0]
  ext j hj
  simp only [UInt32.toBitVec_and, BitVec.getElem_extractLsb', BitVec.getLsbD_and, Nat.zero_add]
  have hones : ∀ j : Fin 24, (0x00FFFFFF : UInt32).toBitVec.getLsbD j = true := by decide
  rw [hones ⟨j, hj⟩, Bool.and_true]

end ReplyMailbox

/-! ## The builders -/

/-- The body builder of a PDU class; `none` for the classes that are no CMCE PDU. -/
def cmceBuilder : TxPduClass → Option (CmceMeta → List Bool)
  | .dSetup => some buildDSetup
  | .dCallProceeding => some buildDCallProceeding
  | .dConnect => some buildDConnect
  | .dTxGranted => some buildDTxGranted
  | .dTxCeased => some buildDTxCeased
  | .dRelease => some buildDRelease
  | .dConnectAck => some buildDConnectAck
  | .dAlert => some buildDAlert
  | .dSdsData => some buildDSdsData
  | .dStatus => some buildDStatus
  | .luAccept | .luReject | .grpAttachAck | .blAck => none

theorem txSubmit_eq_submitCmcePdu {cls : TxPduClass} {builder : CmceMeta → List Bool}
    (h : cmceBuilder cls = some builder) (idle : Bool) (m : TxPduMeta) :
    txSubmit idle cls m = submitCmcePdu idle m builder := by
  cases cls <;> cases h <;> rfl

theorem length_buildDSdsData {m : CmceMeta} (h : buildDSdsData m ≠ []) :
    m.sdsUddLen ≠ 0 ∧ m.sdsUddLen.toNat ≤ 24 ∧
      (buildDSdsData m).length = 45 + 8 * m.sdsUddLen.toNat := by
  rw [buildDSdsData] at h ⊢
  split_ifs at h ⊢ with hlen
  · exact absurd rfl h
  · simp only [Bool.or_eq_true, beq_iff_eq, decide_eq_true_eq, not_or, UInt16.not_lt] at hlen
    refine ⟨hlen.1, UInt16.le_iff_toNat_le.1 hlen.2, ?_⟩
    simp only [List.length_append, length_putBits, length_flatMap_octets, List.length_range]
    omega

/-- Every other body fits the mailbox. -/
theorem length_cmceBuilder_le {cls : TxPduClass} {builder : CmceMeta → List Bool}
    (h : cmceBuilder cls = some builder) (hsds : cls ≠ .dSdsData) (m : CmceMeta) :
    (builder m).length ≤ 128 := by
  have hbsi : (writeBsi m).length = 8 := by
    rw [writeBsi]
    split_ifs <;> simp
  cases cls <;> cases h
  case dSdsData => exact absurd rfl hsds
  case dSetup =>
    rw [buildDSetup]
    split_ifs <;> simp [callHead, hbsi]
  all_goals
    simp [buildDCallProceeding, buildDConnect, buildDTxGranted, buildDTxCeased, buildDRelease,
      buildDConnectAck, buildDAlert, buildDStatus, callHead]

/-- The PDU is staged: the call says so, and the mailbox holds it in full, whatever it held
before. -/
def StagedInFull (r : List RegWrite × Int) (req : TxPduMeta) (body : List Bool) : Prop :=
  r.2 = 0 ∧ ∀ m : ReplyMailbox, (m.writes r.1).HoldsPdu req body

/-- A body is staged if the mailbox is idle and the body fits it. -/
theorem submitCmcePdu_staged_iff (idle : Bool) (req : TxPduMeta) (builder : CmceMeta → List Bool)
    (hbody : builder req.cmce ≠ []) :
    StagedInFull (submitCmcePdu idle req builder) req (builder req.cmce) ↔
      idle = true ∧ (builder req.cmce).length ≤ 128 := by
  have hne : ¬ (builder req.cmce).length = 0 := fun h ↦ hbody (List.eq_nil_of_length_eq_zero h)
  constructor
  · rintro ⟨hrc, -⟩
    cases idle with
    | true => exact ⟨rfl, (submitCmcePdu_staged hrc).1⟩
    | false =>
        rw [submitCmcePdu, if_neg hne, stageRawMm] at hrc
        split_ifs at hrc with hlong hbusy
        · exact absurd hrc (by decide)
        · exact absurd hrc (by decide)
        · exact absurd rfl hbusy
  · rintro ⟨rfl, hlen⟩
    have hstage : submitCmcePdu true req builder = stageRawMm true req.targetSsi
        (builder req.cmce) req.ns req.nr mlePdCmce req.umt req.chanAllocTsBitmap 0 := by
      rw [submitCmcePdu, if_neg hne]
    rw [hstage]
    refine ⟨?_, fun m ↦ ReplyMailbox.holdsPdu_stageRawMm m req hlen⟩
    rw [stageRawMm, if_neg (by omega)]
    rfl

/-- **Which CMCE PDUs the transport takes.** -/
theorem staged_iff {cls : TxPduClass} {builder : CmceMeta → List Bool}
    (h : cmceBuilder cls = some builder) (idle : Bool) (req : TxPduMeta)
    (hbody : builder req.cmce ≠ []) :
    StagedInFull (txSubmit idle cls req) req (builder req.cmce) ↔
      idle = true ∧ (cls = .dSdsData → req.cmce.sdsUddLen ≤ 10) := by
  rw [txSubmit_eq_submitCmcePdu h, submitCmcePdu_staged_iff idle req builder hbody]
  refine and_congr_right fun _ ↦ ?_
  by_cases hsds : cls = .dSdsData
  · subst hsds
    cases h
    obtain ⟨-, -, hlen⟩ := length_buildDSdsData hbody
    rw [hlen, UInt16.le_iff_toNat_le, imp_iff_right rfl]
    change 45 + 8 * req.cmce.sdsUddLen.toNat ≤ 128 ↔ req.cmce.sdsUddLen.toNat ≤ 10
    omega
  · exact iff_of_true (length_cmceBuilder_le h hsds _) fun hc ↦ absurd hc hsds

end TetraPhy.Lmac
