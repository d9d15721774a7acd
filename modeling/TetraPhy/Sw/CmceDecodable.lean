import TetraPhy.Sw.BodyWriter
import TetraPhy.Sw.CmceDownlinkPdu

/-!
# The downlink CMCE bodies are decodable

A terminal that reads what a builder has written, as many bits as the builder returns, gets the PDU
of that builder with the fields of the meta data, cut to their widths, and has no bits left over
(`CmceBuilder.decodable`).  A builder stays within its buffer: the longest body, a short message of
24 octets, has 237 of its 256 bits.
-/

namespace TetraPhy.Sw

open AirOrder FieldReader OptionalParts

variable (m : CmceMeta)

/-- The array of a short message has 32 octets. -/
theorem neZeroOctets : NeZero 32 := ⟨by decide⟩

attribute [local instance] neZeroOctets

/-! ## The fields -/

/-- The basic service information of `write_bsi`. -/
def CmceMeta.basicService : BasicService where
  circuitModeType := m.bsiCircuitModeType.toBitVec.setWidth 3
  encryptionFlag := m.bsiEncryptionFlag.toBitVec.setWidth 1
  communicationType := m.bsiCommunicationType.toBitVec.setWidth 2
  service :=
    if m.bsiCircuitModeType.toBitVec.setWidth 3 = 0 then m.bsiSpeechService.toBitVec.setWidth 2
    else m.bsiSlotsPerFrame.toBitVec.setWidth 2

/-- The call identifier. -/
def CmceMeta.callId : BitVec 14 := m.callIdentifier.toBitVec.setWidth 14

/-- The calling party. -/
def CmceMeta.calling : BitVec 24 := m.callingPartySsi.toBitVec.setWidth 24

/-- The calling party of a D-SETUP, where there is one. -/
def CmceMeta.caller : Option CallingParty :=
  if m.callingPartySsi = 0 then none else some (.ssi m.calling)

/-- The octets of a short message, bit by bit. -/
def CmceMeta.userData : List Bool :=
  (List.range m.sdsUddLen.toNat).flatMap fun i ↦ onAir (m.sdsUdd (Fin.ofNat 32 i)).toBitVec

/-- The ten builders. -/
inductive CmceBuilder
  | dSetup | dCallProceeding | dConnect | dTxGranted | dTxCeased | dRelease | dConnectAck | dAlert
  | dSdsData | dStatus
deriving DecidableEq, Repr

/-- The PDU that is meant: the fields of the meta data, cut to their widths. -/
def CmceBuilder.pdu : CmceBuilder → DPdu
  | dSetup => .setup m.callId (m.callTimeOut.toBitVec.setWidth 4)
      (m.hookMethodSelection.toBitVec.setWidth 1) (m.simplexDuplexSelection.toBitVec.setWidth 1)
      m.basicService (m.transmissionGrant.toBitVec.setWidth 2)
      (m.transmissionRequestPermission.toBitVec.setWidth 1) (m.callPriority.toBitVec.setWidth 4)
      none none m.caller []
  | dCallProceeding => .callProceeding m.callId (m.callTimeOutSetupPhase.toBitVec.setWidth 3)
      (m.hookMethodSelection.toBitVec.setWidth 1) (m.simplexDuplexSelection.toBitVec.setWidth 1)
      none none none []
  | dConnect => .connect m.callId (m.callTimeOut.toBitVec.setWidth 4)
      (m.hookMethodSelection.toBitVec.setWidth 1) (m.simplexDuplexSelection.toBitVec.setWidth 1)
      (m.transmissionGrant.toBitVec.setWidth 2)
      (m.transmissionRequestPermission.toBitVec.setWidth 1) (m.callOwnership.toBitVec.setWidth 1)
      (some (m.callPriority.toBitVec.setWidth 4)) none none none []
  | dTxGranted => .txGranted m.callId (m.transmissionGrant.toBitVec.setWidth 2)
      (m.transmissionRequestPermission.toBitVec.setWidth 1)
      (m.encryptionControl.toBitVec.setWidth 1) (m.txReserved.toBitVec.setWidth 1) none none []
  | dTxCeased =>
      .txCeased m.callId (m.transmissionRequestPermission.toBitVec.setWidth 1) none []
  | dRelease => .release m.callId (m.disconnectCause.toBitVec.setWidth 5) none []
  | dConnectAck => .connectAck m.callId (m.callTimeOut.toBitVec.setWidth 4)
      (m.transmissionGrant.toBitVec.setWidth 2)
      (m.transmissionRequestPermission.toBitVec.setWidth 1) none []
  | dAlert => .alert m.callId (m.callTimeOutSetupPhase.toBitVec.setWidth 3) 1
      (m.simplexDuplexSelection.toBitVec.setWidth 1) 0 none none []
  | dSdsData => .sdsData (.ssi m.calling) (.four m.userData) []
  | dStatus => .status (.ssi m.calling) m.preCodedStatus.toBitVec []

theorem callHead_eq (pduType : UInt32) : callHead pduType m =
    putBits pduType 5 ++ onAir m.callId := by
  rw [callHead, putBits_and_uInt16 _ _ (by decide) (by decide)]
  rfl

/-- A circuit mode type is TCH/S if its three bits are 0. -/
theorem circuitModeType_eq_zero :
    m.bsiCircuitModeType &&& 0x07 == 0 ↔ m.bsiCircuitModeType.toBitVec.setWidth 3 = 0 := by
  rw [beq_iff_eq, ← UInt8.toNat_inj, ← BitVec.toNat_inj, UInt8.toNat_and, BitVec.toNat_setWidth,
    UInt8.toNat_toBitVec]
  exact Eq.congr_left (Nat.and_two_pow_sub_one_eq_mod _ 3)

theorem writeBsi_eq : writeBsi m = onAir m.basicService.circuitModeType ++
    (onAir m.basicService.encryptionFlag ++ (onAir m.basicService.communicationType ++
      onAir m.basicService.service)) := by
  have hservice : (if m.bsiCircuitModeType &&& 0x07 == 0 then
      putBits (m.bsiSpeechService &&& 0x03).toUInt32 2
      else putBits (m.bsiSlotsPerFrame &&& 0x03).toUInt32 2) = onAir m.basicService.service := by
    by_cases h : m.bsiCircuitModeType.toBitVec.setWidth 3 = 0
    · rw [if_pos ((circuitModeType_eq_zero m).2 h), CmceMeta.basicService, if_pos h,
        putBits_and_uInt8 _ _ (by decide) (by decide)]
    · rw [if_neg (mt (circuitModeType_eq_zero m).1 h), CmceMeta.basicService, if_neg h,
        putBits_and_uInt8 _ _ (by decide) (by decide)]
  rw [writeBsi, hservice]
  simp (disch := decide) only [putBits_and_uInt8, List.append_assoc]
  rfl

theorem readBasicService_writeBsi (rest : List Bool) :
    readBasicService (writeBsi m ++ rest) = some (m.basicService, rest) := by
  simp only [writeBsi_eq, List.append_assoc, readBasicService, readWord_append,
    Option.bind_eq_bind, Option.bind_some]

/-- Reading the PDU type. -/
theorem read_putBits {pduType : UInt32} (rest : List Bool) :
    DPdu.read (putBits pduType 5 ++ rest) = match pduType.toNat % 2 ^ 5 with
      | 0 => DPdu.readAlert rest
      | 1 => DPdu.readCallProceeding rest
      | 2 => DPdu.readConnect rest
      | 3 => DPdu.readConnectAck rest
      | 6 => DPdu.readRelease rest
      | 7 => DPdu.readSetup rest
      | 8 => DPdu.readStatus rest
      | 9 => DPdu.readTxCeased rest
      | 11 => DPdu.readTxGranted rest
      | 15 => DPdu.readSdsData rest
      | _ => none := by
  rw [DPdu.read, readField_append (length_putBits _ _), number_putBits _ (by decide)]
  rfl

/-! ## The builders -/

theorem read_buildDAlert : DPdu.read (buildDAlert m) = some (CmceBuilder.dAlert.pdu m, []) := by
  have hlayout : buildDAlert m = putBits 0 5 ++ (onAir m.callId ++
      (onAir (m.callTimeOutSetupPhase.toBitVec.setWidth 3) ++ (onAir 1#1 ++
        (onAir (m.simplexDuplexSelection.toBitVec.setWidth 1) ++ (onAir 0#1 ++ [false]))))) := by
    simp (disch := decide) only [buildDAlert, callHead_eq, List.append_assoc, putBits_and_uInt8]
    rfl
  rw [hlayout, read_putBits]
  change DPdu.readAlert _ = _
  simp only [DPdu.readAlert, readWord_append, readOptionals_false, Option.bind_eq_bind,
    Option.bind_some]
  rfl

theorem read_buildDCallProceeding :
    DPdu.read (buildDCallProceeding m) = some (CmceBuilder.dCallProceeding.pdu m, []) := by
  have hlayout : buildDCallProceeding m = putBits 1 5 ++ (onAir m.callId ++
      (onAir (m.callTimeOutSetupPhase.toBitVec.setWidth 3) ++
        (onAir (m.hookMethodSelection.toBitVec.setWidth 1) ++
          (onAir (m.simplexDuplexSelection.toBitVec.setWidth 1) ++ [false])))) := by
    simp (disch := decide) only [buildDCallProceeding, callHead_eq, List.append_assoc,
      putBits_and_uInt8]
    rfl
  rw [hlayout, read_putBits]
  change DPdu.readCallProceeding _ = _
  simp only [DPdu.readCallProceeding, readWord_append, readOptionals_false, Option.bind_eq_bind,
    Option.bind_some]
  rfl

/-- The type-2 elements of `buildDConnect` are the call priority, and three that are absent. -/
theorem readOptionals_connectTail (p : BitVec 4) :
    readOptionals (none, none, none, none) DPdu.readConnectType2
        (true :: true :: (onAir p ++ [false, false, false, false])) =
      some (((some p, none, none, none), []), []) := by
  have htype2 : DPdu.readConnectType2 (true :: (onAir p ++ [false, false, false, false])) =
      some ((some p, none, none, none), [false]) := by
    rw [DPdu.readConnectType2, readFlagged_some (readWord_append _ _)]
    rfl
  exact readOptionals_true htype2 rfl

theorem read_buildDConnect :
    DPdu.read (buildDConnect m) = some (CmceBuilder.dConnect.pdu m, []) := by
  have hlayout : buildDConnect m = putBits 2 5 ++ (onAir m.callId ++
      (onAir (m.callTimeOut.toBitVec.setWidth 4) ++
        (onAir (m.hookMethodSelection.toBitVec.setWidth 1) ++
          (onAir (m.simplexDuplexSelection.toBitVec.setWidth 1) ++
            (onAir (m.transmissionGrant.toBitVec.setWidth 2) ++
              (onAir (m.transmissionRequestPermission.toBitVec.setWidth 1) ++
                (onAir (m.callOwnership.toBitVec.setWidth 1) ++
                  (true :: true :: (onAir (m.callPriority.toBitVec.setWidth 4) ++
                    [false, false, false, false]))))))))) := by
    simp (disch := decide) only [buildDConnect, callHead_eq, List.append_assoc, putBits_and_uInt8]
    rfl
  rw [hlayout, read_putBits]
  change DPdu.readConnect _ = _
  simp only [DPdu.readConnect, readWord_append, readOptionals_connectTail, Option.bind_eq_bind,
    Option.bind_some]
  rfl

theorem read_buildDConnectAck :
    DPdu.read (buildDConnectAck m) = some (CmceBuilder.dConnectAck.pdu m, []) := by
  have hlayout : buildDConnectAck m = putBits 3 5 ++ (onAir m.callId ++
      (onAir (m.callTimeOut.toBitVec.setWidth 4) ++
        (onAir (m.transmissionGrant.toBitVec.setWidth 2) ++
          (onAir (m.transmissionRequestPermission.toBitVec.setWidth 1) ++ [false])))) := by
    simp (disch := decide) only [buildDConnectAck, callHead_eq, List.append_assoc,
      putBits_and_uInt8]
    rfl
  rw [hlayout, read_putBits]
  change DPdu.readConnectAck _ = _
  simp only [DPdu.readConnectAck, readWord_append, readOptionals_false, Option.bind_eq_bind,
    Option.bind_some]
  rfl

theorem read_buildDRelease :
    DPdu.read (buildDRelease m) = some (CmceBuilder.dRelease.pdu m, []) := by
  have hlayout : buildDRelease m = putBits 6 5 ++ (onAir m.callId ++
      (onAir (m.disconnectCause.toBitVec.setWidth 5) ++ [false])) := by
    simp (disch := decide) only [buildDRelease, callHead_eq, List.append_assoc, putBits_and_uInt8]
    rfl
  rw [hlayout, read_putBits]
  change DPdu.readRelease _ = _
  simp only [DPdu.readRelease, readWord_append, readOptionals_false, Option.bind_eq_bind,
    Option.bind_some]
  rfl

theorem read_buildDTxCeased :
    DPdu.read (buildDTxCeased m) = some (CmceBuilder.dTxCeased.pdu m, []) := by
  have hlayout : buildDTxCeased m = putBits 9 5 ++ (onAir m.callId ++
      (onAir (m.transmissionRequestPermission.toBitVec.setWidth 1) ++ [false])) := by
    simp (disch := decide) only [buildDTxCeased, callHead_eq, List.append_assoc, putBits_and_uInt8]
    rfl
  rw [hlayout, read_putBits]
  change DPdu.readTxCeased _ = _
  simp only [DPdu.readTxCeased, readWord_append, readOptionals_false, Option.bind_eq_bind,
    Option.bind_some]
  rfl

theorem read_buildDTxGranted :
    DPdu.read (buildDTxGranted m) = some (CmceBuilder.dTxGranted.pdu m, []) := by
  have hlayout : buildDTxGranted m = putBits 11 5 ++ (onAir m.callId ++
      (onAir (m.transmissionGrant.toBitVec.setWidth 2) ++
        (onAir (m.transmissionRequestPermission.toBitVec.setWidth 1) ++
          (onAir (m.encryptionControl.toBitVec.setWidth 1) ++
            (onAir (m.txReserved.toBitVec.setWidth 1) ++ [false]))))) := by
    simp (disch := decide) only [buildDTxGranted, callHead_eq, List.append_assoc,
      putBits_and_uInt8]
    rfl
  rw [hlayout, read_putBits]
  change DPdu.readTxGranted _ = _
  simp only [DPdu.readTxGranted, readWord_append, readOptionals_false, Option.bind_eq_bind,
    Option.bind_some]
  rfl

/-- A party that is an SSI. -/
theorem readCallingParty_ssi (ssi : BitVec 24) (rest : List Bool) :
    readCallingParty (onAir 1#2 ++ (onAir ssi ++ rest)) = some (.ssi ssi, rest) := by
  simp only [readCallingParty, readWord_append, Option.bind_eq_bind, Option.bind_some]
  rfl

theorem read_buildDStatus : DPdu.read (buildDStatus m) = some (CmceBuilder.dStatus.pdu m, []) := by
  have hcode : putBits m.preCodedStatus.toUInt32 16 = onAir m.preCodedStatus.toBitVec := by
    rw [putBits_eq_onAir _ (by decide), UInt16.toBitVec_toUInt32,
      BitVec.setWidth_setWidth_of_le _ (by decide), BitVec.setWidth_eq]
  have hlayout : buildDStatus m = putBits 8 5 ++ (onAir 1#2 ++ (onAir m.calling ++
      (onAir m.preCodedStatus.toBitVec ++ [false]))) := by
    simp (disch := decide) only [buildDStatus, hcode, List.append_assoc, putBits_and_uInt32]
    rfl
  rw [hlayout, read_putBits]
  change DPdu.readStatus _ = _
  simp only [DPdu.readStatus, readCallingParty_ssi, readWord_append, readOptionals_false,
    Option.bind_eq_bind, Option.bind_some]
  rfl

/-- What a D-SETUP ends with. -/
def CmceMeta.setupTail : List Bool :=
  if m.callingPartySsi = 0 then [false]
  else true :: false :: false :: true :: (onAir 1#2 ++ (onAir m.calling ++ [false]))

theorem readOptionals_setupTail :
    readOptionals (none, none, none) DPdu.readSetupType2 m.setupTail =
      some (((none, none, m.caller), []), []) := by
  by_cases h : m.callingPartySsi = 0
  · rw [CmceMeta.setupTail, if_pos h, CmceMeta.caller, if_pos h]
    rfl
  · rw [CmceMeta.setupTail, if_neg h, CmceMeta.caller, if_neg h]
    have htype2 : DPdu.readSetupType2
        (false :: false :: true :: (onAir 1#2 ++ (onAir m.calling ++ [false]))) =
          some ((none, none, some (.ssi m.calling)), [false]) := by
      simp only [DPdu.readSetupType2, readNotification, readFlagged_none, Option.bind_eq_bind,
        Option.bind_some, readFlagged_some (readCallingParty_ssi _ _)]
    exact readOptionals_true htype2 rfl

theorem buildDSetup_eq : buildDSetup m = putBits 7 5 ++ (onAir m.callId ++
    (onAir (m.callTimeOut.toBitVec.setWidth 4) ++
      (onAir (m.hookMethodSelection.toBitVec.setWidth 1) ++
        (onAir (m.simplexDuplexSelection.toBitVec.setWidth 1) ++ (writeBsi m ++
          (onAir (m.transmissionGrant.toBitVec.setWidth 2) ++
            (onAir (m.transmissionRequestPermission.toBitVec.setWidth 1) ++
              (onAir (m.callPriority.toBitVec.setWidth 4) ++ m.setupTail)))))))) := by
  have htail : (if m.callingPartySsi != 0 then
      putBits 1 1 ++ putBits 0 1 ++ putBits 0 1 ++ putBits 1 1 ++ putBits 1 2 ++
      putBits (m.callingPartySsi &&& 0x00FFFFFF) 24 ++ putBits 0 1
      else putBits 0 1) = m.setupTail := by
    by_cases h : m.callingPartySsi = 0
    · rw [if_neg (by simp [h]), CmceMeta.setupTail, if_pos h]
      rfl
    · rw [if_pos (by simp [h]), CmceMeta.setupTail, if_neg h,
        putBits_and_uInt32 _ _ (by decide) (by decide)]
      rfl
  rw [buildDSetup, htail]
  simp (disch := decide) only [callHead_eq, List.append_assoc, putBits_and_uInt8]

theorem read_buildDSetup : DPdu.read (buildDSetup m) = some (CmceBuilder.dSetup.pdu m, []) := by
  rw [buildDSetup_eq, read_putBits]
  change DPdu.readSetup _ = _
  simp only [DPdu.readSetup, readBasicService_writeBsi, readWord_append, readOptionals_setupTail,
    Option.bind_eq_bind, Option.bind_some]
  rfl

/-- A short message is sent if it has between 1 and 24 octets. -/
def CmceMeta.Sendable : Prop := m.sdsUddLen ≠ 0 ∧ m.sdsUddLen ≤ 24

instance : Decidable m.Sendable := inferInstanceAs (Decidable (_ ∧ _))

variable {m}

theorem not_sendable_iff : (m.sdsUddLen == 0 || m.sdsUddLen > 24) ↔ ¬ m.Sendable := by
  rw [Bool.or_eq_true, beq_iff_eq, decide_eq_true_eq, CmceMeta.Sendable, not_and_or, not_not,
    gt_iff_lt, UInt16.not_le]

/-- The octets as the builder writes them. -/
theorem userData_eq : ((List.range m.sdsUddLen.toNat).flatMap fun i ↦
    putBits (m.sdsUdd (Fin.ofNat 32 i)).toUInt32 8) = m.userData := by
  refine congrArg (fun f ↦ List.flatMap f _) (funext fun i ↦ ?_)
  rw [putBits_eq_onAir _ (by decide), UInt8.toBitVec_toUInt32,
    BitVec.setWidth_setWidth_of_le _ (by decide), BitVec.setWidth_eq]

theorem length_userData : m.userData.length = 8 * m.sdsUddLen.toNat := by
  rw [← userData_eq, length_flatMap_octets, List.length_range]

theorem CmceMeta.Sendable.length_le (h : m.Sendable) : m.sdsUddLen.toNat ≤ 24 :=
  UInt16.le_iff_toNat_le.1 h.2

/-- The length indicator is the number of bits behind it. -/
theorem lengthIndicator_eq (h : m.Sendable) :
    putBits ((m.sdsUddLen.toUInt32 * 8) &&& 0x7FF) 11 =
      onAir (BitVec.ofNat 11 m.userData.length) := by
  have hlen := h.length_le
  rw [putBits_and_uInt32 _ _ (by decide) (by decide), length_userData]
  refine congrArg onAir (BitVec.eq_of_toNat_eq ?_)
  rw [BitVec.toNat_setWidth, UInt32.toNat_toBitVec, UInt32.toNat_mul, UInt16.toNat_toUInt32,
    BitVec.toNat_ofNat]
  change m.sdsUddLen.toNat * 8 % 2 ^ 32 % 2 ^ 11 = _
  omega

theorem buildDSdsData_of_not_sendable (h : ¬ m.Sendable) : buildDSdsData m = [] := by
  rw [buildDSdsData, if_pos (not_sendable_iff.2 h)]

theorem buildDSdsData_eq (h : m.Sendable) : buildDSdsData m = putBits 15 5 ++ (onAir 1#2 ++
    (onAir m.calling ++ (onAir 3#2 ++ (onAir (BitVec.ofNat 11 m.userData.length) ++
      (m.userData ++ [false]))))) := by
  rw [buildDSdsData, if_neg (mt not_sendable_iff.1 (not_not_intro h)), lengthIndicator_eq h,
    userData_eq]
  simp (disch := decide) only [List.append_assoc, putBits_and_uInt32]
  rfl

/-- User data of type 4. -/
theorem readShortData_four {data : List Bool} (h : data.length < 2 ^ 11) (rest : List Bool) :
    readShortData (onAir 3#2 ++ (onAir (BitVec.ofNat 11 data.length) ++ (data ++ rest))) =
      some (.four data, rest) := by
  have hnum : number (onAir (BitVec.ofNat 11 data.length)) = data.length := by
    rw [number_onAir, BitVec.toNat_ofNat, Nat.mod_eq_of_lt h]
  have hfit : data.length ≤ (data ++ rest).length := by
    rw [List.length_append]
    exact Nat.le_add_right _ _
  simp only [readShortData, readWord_append, readField_append (length_onAir _), hnum,
    Option.bind_eq_bind, Option.bind_some]
  rw [if_neg (by decide), if_neg (by decide), if_neg (by decide), if_pos hfit, List.take_left,
    List.drop_left]

theorem read_buildDSdsData (h : m.Sendable) :
    DPdu.read (buildDSdsData m) = some (CmceBuilder.dSdsData.pdu m, []) := by
  have hlen : m.userData.length < 2 ^ 11 := by
    have := h.length_le
    rw [length_userData]
    omega
  rw [buildDSdsData_eq h, read_putBits]
  change DPdu.readSdsData _ = _
  simp only [DPdu.readSdsData, readCallingParty_ssi, readShortData_four hlen, Option.bind_eq_bind,
    Option.bind_some, readOptionals_false]
  rfl

/-! ## Any builder -/

namespace CmceBuilder

variable (b : CmceBuilder) (m)

/-- The body. -/
def build : CmceBuilder → List Bool
  | dSetup => buildDSetup m
  | dCallProceeding => buildDCallProceeding m
  | dConnect => buildDConnect m
  | dTxGranted => buildDTxGranted m
  | dTxCeased => buildDTxCeased m
  | dRelease => buildDRelease m
  | dConnectAck => buildDConnectAck m
  | dAlert => buildDAlert m
  | dSdsData => buildDSdsData m
  | dStatus => buildDStatus m

/-- A short message that is too short or too long is refused. -/
def Refuses : Prop := b = dSdsData ∧ ¬ m.Sendable

instance : Decidable (b.Refuses m) := inferInstanceAs (Decidable (_ ∧ _))

/-- `TETRA_CMCE_MAX_BYTES`. -/
def maxBytes : ℕ := 32

/-- The call of a builder: the buffer is cleared and the body put into it. -/
def call (dst : ℕ → UInt8) : BodyWriter :=
  if b.Refuses m then { dst } else (BodyWriter.clear { dst } maxBytes).putAll (b.build m)

variable {b m}

theorem read_build (h : ¬ b.Refuses m) : DPdu.read (b.build m) = some (b.pdu m, []) := by
  cases b with
  | dSetup => exact read_buildDSetup m
  | dCallProceeding => exact read_buildDCallProceeding m
  | dConnect => exact read_buildDConnect m
  | dTxGranted => exact read_buildDTxGranted m
  | dTxCeased => exact read_buildDTxCeased m
  | dRelease => exact read_buildDRelease m
  | dConnectAck => exact read_buildDConnectAck m
  | dAlert => exact read_buildDAlert m
  | dSdsData => exact read_buildDSdsData (by_contra fun hs ↦ h ⟨rfl, hs⟩)
  | dStatus => exact read_buildDStatus m

/-- A body fits. -/
theorem length_build_le : (b.build m).length ≤ 8 * maxBytes := by
  cases b with
  | dSetup =>
      have hbsi : (writeBsi m).length = 8 := by simp [writeBsi_eq]
      have htail : m.setupTail.length ≤ 31 := by
        rw [CmceMeta.setupTail]
        split_ifs <;> simp
      rw [build, buildDSetup_eq]
      simp only [List.length_append, length_putBits, length_onAir, hbsi, maxBytes]
      omega
  | dSdsData =>
      by_cases h : m.Sendable
      · have hlen := h.length_le
        rw [build, buildDSdsData_eq h]
        simp only [List.length_append, length_putBits, length_onAir, length_userData, maxBytes,
          List.length_singleton]
        omega
      · rw [build, buildDSdsData_of_not_sendable h]
        exact Nat.zero_le _
  | _ =>
      simp [build, buildDCallProceeding, buildDConnect, buildDTxGranted, buildDTxCeased,
        buildDRelease, buildDConnectAck, buildDAlert, buildDStatus, callHead, maxBytes]

/-- **A body is decodable**: what a builder returns is 0 if it refuses the message, and else the
number of bits from which the PDU is read, to the last one.  It writes in its buffer only. -/
theorem decodable (b : CmceBuilder) (m : CmceMeta) (dst : ℕ → UInt8) :
    (∀ i ∈ (b.call m dst).written, i < maxBytes) ∧
      if b.Refuses m then (b.call m dst).pos = 0
      else DPdu.read (window (srcBit (b.call m dst).dst) 0 (b.call m dst).pos) =
        some (b.pdu m, []) := by
  by_cases h : b.Refuses m
  · rw [if_pos h, call, if_pos h]
    exact ⟨fun i hi ↦ absurd hi List.not_mem_nil, rfl⟩
  · rw [if_neg h, call, if_neg h]
    constructor
    · intro i hi
      have hlen : (b.build m).length ≤ 8 * maxBytes := length_build_le
      rcases BodyWriter.mem_written_putAll _ hi with hi | hi
      · simpa [BodyWriter.clear] using hi
      · change _ < 0 + _ at hi
        omega
    · have hwritten : Written (srcBit ((BodyWriter.clear { dst } maxBytes).putAll (b.build m)).dst) 0
          (b.build m) := BodyWriter.written_putAll _ _
      have hpos : ((BodyWriter.clear { dst } maxBytes).putAll (b.build m)).pos =
          (b.build m).length := (BodyWriter.pos_putAll _ _).trans (Nat.zero_add _)
      rw [hpos, hwritten]
      exact read_build h

end CmceBuilder

end TetraPhy.Sw
