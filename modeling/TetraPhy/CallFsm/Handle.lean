import TetraPhy.Sw.CmceParser
import TetraPhy.CallFsm.Slots

/-!
# Staging the downlink replies of a call

The `stage_d_*` helpers of `tetra_call_fsm.c`.  Each fills a `tx_pdu_meta_t` from
the slot and submits it; the record is a definition of its own, so that what a
reply carries can be read off without running the transport.
-/

namespace TetraPhy.CallFsm

open Sw

/-- `nsnr_step_bs`. -/
def CallSlot.nsnrStepBs (s : CallSlot) : CallSlot := { s with ns := s.ns ^^^ 1 }

def dCallProceedingMeta (s : CallSlot) : TxPduMeta :=
  { targetSsi := s.ssi, ns := s.ns, nr := s.nr, umt := 0, chanAllocTsBitmap := 0
    cmce :=
      { callIdentifier := s.callId &&& 0x3FFF
        hookMethodSelection := s.hookMethod
        simplexDuplexSelection := s.simplexDuplex } }

/-- The D-SETUP goes to the group, else to the called party, else to the owner;
an individual call is announced without a channel. -/
def dSetupMeta (s : CallSlot) : TxPduMeta :=
  let isIndivSetup := s.groupGssi == 0 && s.targetIssi != 0
  { targetSsi := if s.groupGssi != 0 then s.groupGssi
      else if s.targetIssi != 0 then s.targetIssi else s.ssi
    ns := s.ns, nr := s.nr
    umt := if isIndivSetup then 0 else s.umt
    chanAllocTsBitmap := if isIndivSetup then 0 else tsToChanAllocBitmap s.voiceTs
    cmce :=
      { callIdentifier := s.callId &&& 0x3FFF
        callTimeOut := 7
        transmissionGrant := 3
        transmissionRequestPermission := 0
        callPriority := 4
        callingPartySsi := s.ssi
        bsiCircuitModeType := 0
        bsiEncryptionFlag := 0
        bsiCommunicationType := if s.groupGssi != 0 then 1 else 0
        bsiSpeechService := 0 } }

def dConnectMeta (s : CallSlot) : TxPduMeta :=
  { targetSsi := s.ssi, ns := s.ns, nr := s.nr, umt := s.umt
    chanAllocTsBitmap := tsToChanAllocBitmap s.voiceTs
    cmce :=
      { callIdentifier := s.callId &&& 0x3FFF
        callTimeOut := 0
        hookMethodSelection := s.hookMethod
        simplexDuplexSelection := s.simplexDuplex
        transmissionGrant := cmceTgGranted
        transmissionRequestPermission := 0
        callOwnership := 0
        callPriority := 1 } }

def dTxGrantedMeta (s : CallSlot) : TxPduMeta :=
  { targetSsi := s.ssi, ns := s.ns, nr := s.nr, umt := s.umt
    chanAllocTsBitmap := tsToChanAllocBitmap s.voiceTs
    cmce :=
      { callIdentifier := s.callId &&& 0x3FFF
        transmissionGrant := cmceTgGranted
        encryptionControl := 0 } }

def dConnectAckMeta (s : CallSlot) : TxPduMeta :=
  { targetSsi := if s.targetIssi != 0 then s.targetIssi else s.ssi
    ns := s.ns, nr := s.nr, umt := s.umt
    chanAllocTsBitmap := tsToChanAllocBitmap s.voiceTs
    cmce :=
      { callIdentifier := s.callId &&& 0x3FFF
        callTimeOut := 0
        transmissionGrant := cmceTgGranted
        transmissionRequestPermission := 0 } }

def dAlertMeta (s : CallSlot) : TxPduMeta :=
  { targetSsi := s.ssi, ns := s.ns, nr := s.nr, umt := 0, chanAllocTsBitmap := 0
    cmce :=
      { callIdentifier := s.callId &&& 0x3FFF
        simplexDuplexSelection := s.simplexDuplex } }

def dReleaseMeta (cause : UInt8) (s : CallSlot) : TxPduMeta :=
  { targetSsi := s.ssi, ns := s.ns, nr := s.nr, umt := s.umt
    chanAllocTsBitmap := tsToChanAllocBitmap s.voiceTs
    cmce :=
      { callIdentifier := s.callId &&& 0x3FFF
        disconnectCause := cause } }

/-- The D-TX-CEASED the U-TX-CEASED handler fills in place. -/
def dTxCeasedMeta (s : CallSlot) : TxPduMeta :=
  { targetSsi := if s.groupGssi != 0 then s.groupGssi else s.ssi
    umt := s.umt
    chanAllocTsBitmap := tsToChanAllocBitmap s.voiceTs
    cmce :=
      { callIdentifier := s.callId &&& 0x3FFF
        transmissionRequestPermission := 0 } }

/-! The helpers themselves: submit the record filled from slot `i`. -/

def stageDCallProceeding (idle : Bool) (i : Fin 8) (st : Fsm) : Fsm × Int :=
  st.submit idle .dCallProceeding (dCallProceedingMeta (st.slots i))

def stageDSetup (idle : Bool) (i : Fin 8) (st : Fsm) : Fsm × Int :=
  st.submit idle .dSetup (dSetupMeta (st.slots i))

def stageDConnect (idle : Bool) (i : Fin 8) (st : Fsm) : Fsm × Int :=
  st.submit idle .dConnect (dConnectMeta (st.slots i))

def stageDTxGranted (idle : Bool) (i : Fin 8) (st : Fsm) : Fsm × Int :=
  st.submit idle .dTxGranted (dTxGrantedMeta (st.slots i))

def stageDConnectAck (idle : Bool) (i : Fin 8) (st : Fsm) : Fsm × Int :=
  st.submit idle .dConnectAck (dConnectAckMeta (st.slots i))

def stageDAlert (idle : Bool) (i : Fin 8) (st : Fsm) : Fsm × Int :=
  st.submit idle .dAlert (dAlertMeta (st.slots i))

def stageDRelease (idle : Bool) (i : Fin 8) (cause : UInt8) (st : Fsm) : Fsm × Int :=
  st.submit idle .dRelease (dReleaseMeta cause (st.slots i))

end TetraPhy.CallFsm

/-!
# Handling an uplink call-control PDU

`tetra_call_fsm_handle`, one definition per PDU type.  What the function reads
from outside during one call — the clock, whether the reply mailbox goes idle,
whether an identity is a registered group — is its `HandleEnv`.
-/

namespace TetraPhy.CallFsm

open Sw

/-- The outside of one `tetra_call_fsm_handle` call.  `now k` is the value of its
`k`-th `mono_ms_lo ()`, `idle k` the outcome of the `k`-th wait for the reply
mailbox, and `isGssi g` whether `tetra_db_lookup (g, 1)` finds the group. -/
structure HandleEnv where
  now : Nat → UInt32
  idle : Nat → Bool
  isGssi : UInt32 → Bool

/-! ## U-SETUP -/

/-- The called party named by a U-SETUP, 0 if it is not given by SSI or TSI. -/
def calledSsi (p : CmcePdu) : UInt32 :=
  if p.calledPartyTypeIdentifier == 1 || p.calledPartyTypeIdentifier == 2 then
    p.calledPartySsi &&& 0x00FFFFFF
  else 0

/-- Whether a U-SETUP asks for a group call to a group in the table. -/
def calledIsGroup (env : HandleEnv) (p : CmcePdu) : Bool :=
  let ct := p.bsiCommunicationType
  calledSsi p != 0 && (ct == 1 || ct == 2 || ct == 3) && env.isGssi (calledSsi p)

/-- The slot of a U-SETUP: the sender's own; else, for a group that already has a
call, that call's slot, whose floor the sender takes; else a new one. -/
def setupSlot (ssi cpSsi : UInt32) (cpIsGroup : Bool) (st : Fsm) : Fsm × Option (Fin 8) :=
  match findSlot st.slots ssi with
  | some i => (st, some i)
  | none =>
    match if cpIsGroup then findSlotByGssi st.slots cpSsi else none with
    | some i => (st.modify i fun s ↦ { s with ssi := ssi, ns := 0, nr := 0 }, some i)
    | none => allocSlot ssi st

/-- The fields a U-SETUP writes on either path. -/
def CallSlot.enterSetup (s : CallSlot) (p : CmcePdu) (cpIsGroup : Bool) (t0 : UInt32) : CallSlot :=
  { s with
    groupGssi := if cpIsGroup then calledSsi p else 0
    targetIssi := if cpIsGroup then 0 else calledSsi p
    hookMethod := p.hookMethodSelection &&& 0x1
    simplexDuplex := p.simplexDuplexSelection &&& 0x1
    state := .connecting
    tSetupArrivedMs := t0
    tFirstNubMs := 0
    tCeasedMs := 0
    tFirstNubLogged := 0 }

/-- `case CMCE_U_SETUP`. -/
def handleSetup (env : HandleEnv) (ssi : UInt32) (p : CmcePdu) (st : Fsm) : Fsm × Int :=
  let cpIsGroup := calledIsGroup env p
  match setupSlot ssi (calledSsi p) cpIsGroup st with
  | (st, none) => (st, -1)
  | (st, some i) =>
    let st := st.modify i fun s ↦ s.enterSetup p cpIsGroup (env.now 0)
    if cpIsGroup then
      -- `now 1` is only logged
      let (st, rc) := stageDConnect (env.idle 0) i st
      let st := st.modify i fun s ↦
        { s with
          setupStage := 1
          setupNextMs := env.now 2 + 113
          lastActivityPollCnt := env.now 3
          state := .connected }
      let st := st.maskWriteCached (computeVoiceMask st.slots (env.now 4))
      (st.emit voiceFillerClear, rc)
    else
      let st := st.emit (rxSlotgrant (env.idle 0) (st.slots i).ssi).1
      let (st, _) := stageDCallProceeding (env.idle 1) i st
      let (st, _) := stageDAlert (env.idle 2) i st
      let (st, rds) := stageDSetup (env.idle 3) i st
      let st := st.modify i fun s ↦
        { s with
          state := .connecting
          setupStage := 11
          setupNextMs := env.now 1 + 113
          lastActivityPollCnt := env.now 2 }
      (st, if rds < 0 then rds else 0)

/-! ## U-TX-DEMAND and U-TX-CEASED -/

/-- The slot of a U-TX-DEMAND: the sender's own, else the one with the call
identifier, whose floor the sender takes. -/
def demandSlot (ssi : UInt32) (p : CmcePdu) (st : Fsm) : Fsm × Option (Fin 8) :=
  match findSlot st.slots ssi with
  | some i => (st, some i)
  | none =>
    match findSlotByCallId st.slots p.callIdentifier with
    | some i => (st.modify i fun s ↦ { s with ssi := ssi, ns := 0, nr := 0 }, some i)
    | none => (st, none)

/-- `case CMCE_U_TX_DEMAND`. -/
def handleTxDemand (env : HandleEnv) (ssi : UInt32) (p : CmcePdu) (st : Fsm) : Fsm × Int :=
  match demandSlot ssi p st with
  | (st, none) => (st, -1)
  | (st, some i) =>
    let st := st.modify i CallSlot.nsnrStepBs
    let (st, rc) := stageDTxGranted (env.idle 0) i st
    let st := st.modify i fun s ↦
      { s with state := .talker, lastActivityPollCnt := env.now 0 }
    (st.maskWriteCached (computeVoiceMask st.slots (env.now 1)), rc)

/-- `case CMCE_U_TX_CEASED`: the first one is answered three times. -/
def handleTxCeased (env : HandleEnv) (ssi : UInt32) (st : Fsm) : Fsm × Int :=
  match findSlot st.slots ssi with
  | none => (st, -1)
  | some i =>
    let tCeasedNow := env.now 0
    let st := st.modify i fun s ↦
      { s with
        state := .connected
        tCeasedMs := if s.tCeasedMs == 0 then tCeasedNow else s.tCeasedMs
        lastActivityPollCnt := tCeasedNow }
    let m := dTxCeasedMeta (st.slots i)
    let reps := if (st.slots i).tCeasedMs == tCeasedNow then 3 else 1
    (List.range reps).foldl (fun (st, _) k ↦ st.submit (env.idle k) .dTxCeased m) (st, 0)

/-! ## U-CONNECT and U-ALERT -/

/-- The slot of a U-CONNECT or U-ALERT: the sender's own, else the one with the
call identifier. -/
def connectSlot (ssi : UInt32) (p : CmcePdu) (st : Fsm) : Option (Fin 8) :=
  match findSlot st.slots ssi with
  | some i => some i
  | none => findSlotByCallId st.slots p.callIdentifier

/-- `case CMCE_U_CONNECT`. -/
def handleConnect (env : HandleEnv) (ssi : UInt32) (p : CmcePdu) (st : Fsm) : Fsm × Int :=
  match connectSlot ssi p st with
  | none => (st, -1)
  | some i =>
    let (st, rcc) := stageDConnect (env.idle 0) i st
    let (st, rca) := stageDConnectAck (env.idle 1) i st
    let st := st.modify i fun s ↦
      { s with state := .connected, setupStage := 0, lastActivityPollCnt := env.now 0 }
    let st := st.maskWriteCached (computeVoiceMask st.slots (env.now 1))
    (st.emit voiceFillerClear, if rcc < 0 then rcc else rca)

/-- `case CMCE_U_ALERT`: informational only. -/
def handleAlert (ssi : UInt32) (p : CmcePdu) (st : Fsm) : Fsm × Int :=
  match connectSlot ssi p st with
  | none => (st, -1)
  | some _ => (st, 0)

/-! ## U-RELEASE and U-DISCONNECT -/

/-- `case CMCE_U_RELEASE` and `case CMCE_U_DISCONNECT`, which differ in their log
text only. -/
def handleRelease (env : HandleEnv) (ssi : UInt32) (p : CmcePdu) (st : Fsm) : Fsm × Int :=
  match findSlot st.slots ssi with
  | none => (st, -1)
  | some i =>
    let st := st.modify i CallSlot.nsnrStepBs
    let (st, rc) := stageDRelease (env.idle 0) i p.disconnectCause st
    let st := freeSlot i st
    let st := st.maskWriteCached (computeVoiceMask st.slots (env.now 0))
    (if computeVoiceMask st.slots (env.now 1) == 0 then st.emit voiceFillerClear else st, rc)

/-- `tetra_call_fsm_handle`. -/
def handle (env : HandleEnv) (ssi : UInt32) (p : CmcePdu) (st : Fsm) : Fsm × Int :=
  if ssi == 0 then (st, -2)
  else
    match p.pduType with
    | .uSetup => handleSetup env ssi p st
    | .uTxDemand => handleTxDemand env ssi p st
    | .uTxCeased => handleTxCeased env ssi st
    | .uConnect => handleConnect env ssi p st
    | .uAlert => handleAlert ssi p st
    | .uRelease => handleRelease env ssi p st
    | .uDisconnect => handleRelease env ssi p st
    | _ => (st, -2)

end TetraPhy.CallFsm
