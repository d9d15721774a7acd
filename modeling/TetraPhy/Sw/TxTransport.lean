import TetraPhy.Sw.Regs
import TetraPhy.Sw.CmceBody

/-!
# The transmit transport

`tetra_tx_transport.c`: every downlink PDU is staged into the single reply
mailbox — words `W0 .. W13` through the index/data register pair, then a GO pulse.
A staging function is modelled by the register writes it issues and its return
code.  Whether the mailbox went idle within the 50 ms of `reply_wait_idle` is an
input of the model (`idle`); the short sleeps after a GO have no effect on
anything modelled.

What the call-control proofs need of this file is `writesOnly_txSubmit` and
`writesOnly_rxSlotgrant`: staging a PDU touches the three mailbox registers only.
-/

namespace TetraPhy.Sw

/-- `tx_pdu_class_t`. -/
inductive TxPduClass
  | luAccept | luReject | grpAttachAck
  | dSetup | dCallProceeding | dConnect | dTxGranted | dRelease | dTxCeased
  | dConnectAck | dAlert | dSdsData | blAck | dStatus
deriving DecidableEq, Repr

/-- `tx_pdu_meta_t`, less the two fields reserved for later use (`slot_class`,
`aach_pattern`), which nothing reads. -/
structure TxPduMeta where
  targetSsi : UInt32 := 0
  la : UInt16 := 0
  result : UInt8 := 0
  locAccType : UInt8 := 0
  gilaGssi : UInt32 := 0
  gilaClass : UInt8 := 0
  gilaLifetime : UInt8 := 0
  gilaPresent : UInt8 := 0
  encryption : UInt8 := 0
  authResult : UInt8 := 0
  replyCount : UInt8 := 0
  gssi : Fin 3 → UInt32 := fun _ ↦ 0
  at' : Fin 3 → UInt8 := fun _ ↦ 0
  lifetime : Fin 3 → UInt8 := fun _ ↦ 0
  adi : Fin 3 → UInt8 := fun _ ↦ 0
  cls : Fin 3 → UInt8 := fun _ ↦ 0
  ns : UInt8 := 0
  nr : UInt8 := 0
  acceptReject : UInt8 := 0
  cmce : CmceMeta := {}
  umt : UInt8 := 0
  chanAllocTsBitmap : UInt8 := 0

/-- `reply_write`: select a mailbox word, then write it. -/
def replyWrite (idx data : UInt32) : List RegWrite :=
  [⟨regReplyIndex, idx⟩, ⟨regReplyData, data⟩]

/-- `tetra_reg_write (hal, REG_REPLY_GO, 1)`. -/
def replyGo : List RegWrite := [⟨regReplyGo, 0x1⟩]

/-- `tetra_tx_rx_slotgrant`. -/
def rxSlotgrant (idle : Bool) (ssi : UInt32) : List RegWrite × Int :=
  if !idle then ([], -1)
  else (replyWrite 0 (ssi &&& 0x00FFFFFF) ++ replyWrite 9 ((1 : UInt32) <<< 14) ++ replyGo, 0)

/-- `submit_lu`. -/
def submitLu (idle : Bool) (m : TxPduMeta) (result : UInt32) : List RegWrite × Int :=
  let gilaGssi : UInt32 := if result == 0 then m.gilaGssi &&& 0x00FFFFFF else 0
  let gilaClass : UInt32 := if result == 0 then (m.gilaClass &&& 0x7).toUInt32 else 0
  let gilaLifetime : UInt32 := if result == 0 then (m.gilaLifetime &&& 0x3).toUInt32 else 0
  let gilaPresent : UInt32 := if result == 0 then (m.gilaPresent &&& 0x1).toUInt32 else 0
  if !idle then ([], -2)
  else
    (replyWrite 0 (m.targetSsi &&& 0x00FFFFFF) ++
      replyWrite 1 (m.la &&& 0x3FFF).toUInt32 ++
      replyWrite 2 0x1 ++
      replyWrite 3 ((result &&& (0x3 : UInt32)) ||| ((m.locAccType &&& 0x7).toUInt32 <<< 2)) ++
      replyWrite 4 gilaGssi ++
      replyWrite 5 ((gilaClass <<< 2) ||| gilaLifetime) ++
      replyWrite 6 gilaPresent ++
      replyWrite 7 (m.encryption &&& 0x3).toUInt32 ++
      replyWrite 8 (if m.authResult == 0 then 0x1 else (m.authResult &&& 0x3).toUInt32) ++
      replyWrite 9 0 ++ replyWrite 10 0 ++ replyWrite 11 0 ++ replyWrite 12 0 ++ replyWrite 13 0 ++
      replyGo, 0)

/-- The four raw-body words of `stage_raw_mm`: bit `i` of the body lands at
position `127 - i` of the 128-bit window, whose word 0 holds the low bits. -/
def rawWords (body : List Bool) : Nat → UInt32 :=
  body.zipIdx.foldl (fun w (b, i) ↦
    let dstPos := 127 - i
    let wordIdx := dstPos / 32
    if b then Function.update w wordIdx (w wordIdx ||| ((1 : UInt32) <<< (dstPos % 32).toUInt32))
    else w) fun _ ↦ 0

/-- `stage_raw_mm`. -/
def stageRawMm (idle : Bool) (targetSsi : UInt32) (body : List Bool)
    (ns nr mlePd umt chanAllocTsBitmap blAck : UInt8) : List RegWrite × Int :=
  if body.length > 128 then ([], -1)
  else
    let wRaw := rawWords body
    let w9 : UInt32 := ((1 : UInt32) <<< 31) ||| ((blAck &&& 0x1).toUInt32 <<< 13) |||
      ((mlePd &&& 0x7).toUInt32 <<< 10) ||| ((nr &&& 0x1).toUInt32 <<< 9) |||
      ((ns &&& 0x1).toUInt32 <<< 8) ||| (body.length.toUInt32 &&& 0xFF)
    let w2 : UInt32 := (0x1 : UInt32) ||| ((umt &&& 0x3F).toUInt32 <<< 3) |||
      ((chanAllocTsBitmap &&& 0xF).toUInt32 <<< 9)
    if !idle then ([], -2)
    else
      (replyWrite 0 (targetSsi &&& 0x00FFFFFF) ++ replyWrite 1 0 ++ replyWrite 2 w2 ++
        replyWrite 3 0 ++ replyWrite 4 0 ++ replyWrite 5 0 ++ replyWrite 6 0 ++ replyWrite 7 0 ++
        replyWrite 8 0 ++ replyWrite 9 w9 ++
        replyWrite 10 (wRaw 0) ++ replyWrite 11 (wRaw 1) ++
        replyWrite 12 (wRaw 2) ++ replyWrite 13 (wRaw 3) ++ replyGo, 0)

/-- `MLE_PD_MM`. -/
def mlePdMm : UInt8 := 1

/-- `MLE_PD_CMCE`. -/
def mlePdCmce : UInt8 := 2

/-- `submit_grp_ack`: at most three records. -/
def submitGrpAck (idle : Bool) (m : TxPduMeta) : List RegWrite × Int :=
  let cnt := if m.replyCount > 3 then 3 else m.replyCount
  let records := ((List.finRange 3).take cnt.toNat).map fun i ↦
    { atd := m.adi i &&& 0x1, lifetime := m.lifetime i &&& 0x3, classOfUsage := m.cls i &&& 0x7,
      addrType := m.at' i &&& 0x3, gssi := m.gssi i &&& 0x00FFFFFF : GrpackRecord }
  let body := grpackBuild (m.acceptReject &&& 0x1) records
  if body.length = 0 then ([], -1)
  else stageRawMm idle m.targetSsi body m.ns m.nr mlePdMm 0 0 0

/-- `submit_cmce_pdu`. -/
def submitCmcePdu (idle : Bool) (m : TxPduMeta) (builder : CmceMeta → List Bool) :
    List RegWrite × Int :=
  let body := builder m.cmce
  if body.length = 0 then ([], -1)
  else stageRawMm idle m.targetSsi body m.ns m.nr mlePdCmce m.umt m.chanAllocTsBitmap 0

/-- `submit_bl_ack`: a pure acknowledgement, no body. -/
def submitBlAck (idle : Bool) (m : TxPduMeta) : List RegWrite × Int :=
  stageRawMm idle m.targetSsi [] 0 m.nr mlePdMm 0 0 1

/-- `tetra_tx_submit`. -/
def txSubmit (idle : Bool) (cls : TxPduClass) (m : TxPduMeta) : List RegWrite × Int :=
  match cls with
  | .luAccept => submitLu idle m 0
  | .luReject => submitLu idle m (if m.result != 0 then m.result.toUInt32 else 1)
  | .grpAttachAck => submitGrpAck idle m
  | .dSetup => submitCmcePdu idle m buildDSetup
  | .dCallProceeding => submitCmcePdu idle m buildDCallProceeding
  | .dConnect => submitCmcePdu idle m buildDConnect
  | .dTxGranted => submitCmcePdu idle m buildDTxGranted
  | .dTxCeased => submitCmcePdu idle m buildDTxCeased
  | .dRelease => submitCmcePdu idle m buildDRelease
  | .dConnectAck => submitCmcePdu idle m buildDConnectAck
  | .dAlert => submitCmcePdu idle m buildDAlert
  | .dSdsData => submitCmcePdu idle m buildDSdsData
  | .dStatus => submitCmcePdu idle m buildDStatus
  | .blAck => submitBlAck idle m

/-! ## Staging touches the mailbox registers only -/

/-- The three registers of the reply mailbox. -/
def replyRegs : List UInt32 := [regReplyIndex, regReplyData, regReplyGo]

theorem writesOnly_replyWrite (idx data : UInt32) :
    WritesOnly replyRegs (replyWrite idx data) := by
  intro w hw
  simp only [replyWrite, List.mem_cons, List.not_mem_nil, or_false] at hw
  rcases hw with rfl | rfl <;> simp [replyRegs]

theorem writesOnly_replyGo : WritesOnly replyRegs replyGo := by
  intro w hw
  simp only [replyGo, List.mem_cons, List.not_mem_nil, or_false] at hw
  subst hw
  simp [replyRegs]

theorem writesOnly_rxSlotgrant (idle : Bool) (ssi : UInt32) :
    WritesOnly replyRegs (rxSlotgrant idle ssi).1 := by
  unfold rxSlotgrant
  split
  · exact writesOnly_nil _
  · exact ((writesOnly_replyWrite _ _).append (writesOnly_replyWrite _ _)).append
      writesOnly_replyGo

theorem writesOnly_submitLu (idle : Bool) (m : TxPduMeta) (result : UInt32) :
    WritesOnly replyRegs (submitLu idle m result).1 := by
  unfold submitLu
  dsimp only
  split
  · exact writesOnly_nil _
  · repeat' apply WritesOnly.append
    all_goals first
      | exact writesOnly_replyGo
      | exact writesOnly_replyWrite _ _

theorem writesOnly_stageRawMm (idle : Bool) (ssi : UInt32) (body : List Bool)
    (ns nr mlePd umt bitmap blAck : UInt8) :
    WritesOnly replyRegs (stageRawMm idle ssi body ns nr mlePd umt bitmap blAck).1 := by
  unfold stageRawMm
  dsimp only
  split
  · exact writesOnly_nil _
  · split
    · exact writesOnly_nil _
    · repeat' apply WritesOnly.append
      all_goals first
        | exact writesOnly_replyGo
        | exact writesOnly_replyWrite _ _

theorem writesOnly_submitCmcePdu (idle : Bool) (m : TxPduMeta) (builder : CmceMeta → List Bool) :
    WritesOnly replyRegs (submitCmcePdu idle m builder).1 := by
  unfold submitCmcePdu
  dsimp only
  split
  · exact writesOnly_nil _
  · exact writesOnly_stageRawMm _ _ _ _ _ _ _ _ _

theorem writesOnly_submitGrpAck (idle : Bool) (m : TxPduMeta) :
    WritesOnly replyRegs (submitGrpAck idle m).1 := by
  unfold submitGrpAck
  dsimp only
  generalize grpackBuild _ _ = body
  by_cases h : body.length = 0
  · rw [if_pos h]; exact writesOnly_nil _
  · rw [if_neg h]; exact writesOnly_stageRawMm _ _ _ _ _ _ _ _ _

theorem writesOnly_submitBlAck (idle : Bool) (m : TxPduMeta) :
    WritesOnly replyRegs (submitBlAck idle m).1 := writesOnly_stageRawMm _ _ _ _ _ _ _ _ _

/-- Whatever is submitted, only the reply mailbox is written. -/
theorem writesOnly_txSubmit (idle : Bool) (cls : TxPduClass) (m : TxPduMeta) :
    WritesOnly replyRegs (txSubmit idle cls m).1 := by
  unfold txSubmit
  cases cls with
  | luAccept | luReject => exact writesOnly_submitLu _ _ _
  | grpAttachAck => exact writesOnly_submitGrpAck _ _
  | blAck => exact writesOnly_submitBlAck _ _
  | _ => exact writesOnly_submitCmcePdu _ _ _

end TetraPhy.Sw
