import TetraPhy.Lmac.CmceStaging
import TetraPhy.Daemon.SdsDelivery
import TetraPhy.Codec.Sch

/-!
# Relaying an SDS

How `tetra_attach_daemon.c` passes a received SDS on: `service_uldbod` takes a short one from
the demand mailbox, `service_long_sds_rx` a reassembled one from the long-SDS mailbox.  Both
acknowledge the sender first and then, if the recipient is registered, decide by the length of
the user data how it goes out:

| octets | `service_uldbod` | `service_long_sds_rx` |
|---|---|---|
| 1 .. 24 | D-SDS-DATA | D-SDS-DATA |
| 25 .. | dropped | fragment chain |

What is read from a mailbox, the user database and the waits for an idle reply mailbox are
inputs (`SdsEnv`), and so is what the daemon does with a mobility demand found in the same
mailboxes.

`relayed_iff` says for which lengths an acknowledged message is passed on: `stage_raw_mm` takes
128 bits, which are 10 octets of user data, and so the lengths 11 to 24 are lost between the
limits.
-/

namespace TetraPhy.Daemon

open Codec Lmac Pool Sw

/-! ## Decoding -/

/-- `sds_gbits`.  A buffer is given by its bits, most significant first. -/
def sdsGbits (b : ℕ → Bool) (pos : ℕ) : ℕ → UInt32
  | 0 => 0
  | n + 1 => (sdsGbits b pos n <<< 1) ||| (b (pos + n)).toNat.toUInt32

/-- What `decode_sds_reassembled` returns. -/
structure SdsMsg where
  dest : UInt32
  proto : UInt8
  li : UInt16
  text : List UInt8
  udd : List UInt8
deriving DecidableEq, Repr

/-- The octets from `pos` on, `n` at most, as far as they are inside the `nbits` bits. -/
def sdsOctets (b : ℕ → Bool) (nbits pos n : ℕ) : List UInt8 :=
  ((List.range n).takeWhile fun j ↦ decide (pos + j * 8 + 8 ≤ nbits)).map
    fun j ↦ (sdsGbits b (pos + j * 8) 8).toUInt8

def isPrintable (c : UInt8) : Bool := c ≥ 32 && c < 127

/-- The text in the user data: what is not printable is skipped in front, a dot inside, and
dropped behind. -/
def sdsText (octets : List UInt8) (tcap : ℕ) : List UInt8 :=
  let text := ((octets.dropWhile (!isPrintable ·)).take (tcap - 1)).map
    fun c ↦ if isPrintable c then c else 46
  (text.reverse.dropWhile (· == 46)).reverse

/-- The protocol identifiers that make a body an SDS. -/
def sdsProtocols : List UInt8 := [2, 3, 9, 10, 130, 131, 137, 138]

/-- The length of the LLC header by the LLC PDU type. -/
def llcHdrLen (llcPt : UInt16) : ℕ :=
  if llcPt == 0 then 6 else if llcPt == 1 then 5 else if llcPt == 2 then 4 else 5

/-- `decode_sds_reassembled` from the data type identifier on, which is at `pos`. -/
def decodeSdsUserData (body : ℕ → Bool) (nbits pos : ℕ) (dest : UInt32) (tcap rawUddCap : ℕ) :
    Option SdsMsg :=
  let sdti := sdsGbits body pos 2
  let pos := pos + 2
  if sdti != 3 then none
  else
    let li := (sdsGbits body pos 11).toUInt16
    let pos := pos + 11
    if li < 8 || li > 2047 then none
    else if pos + 8 > nbits then none
    else
      let proto := (sdsGbits body pos 8).toUInt8
      if !sdsProtocols.contains proto then none
      else
        some
          { dest := dest, proto := proto, li := li
            text := sdsText (sdsOctets body nbits (pos + 8) ((li.toNat - 8) / 8)) tcap
            udd := (sdsOctets body nbits pos (li.toNat / 8)).take rawUddCap }

/-- `decode_sds_reassembled`; `none` is its 0. -/
def decodeSdsReassembled (body : ℕ → Bool) (nbits : ℕ) (md : UInt16) (tcap rawUddCap : ℕ) :
    Option SdsMsg :=
  let mleDisc := (md >>> 6) &&& 0x7
  let llcPt := (md >>> 2) &&& 0xF
  let opt := md &&& 0x1
  if mleDisc != 2 then none
  else
    let pos := (if opt != 0 then 6 else 0) + llcHdrLen llcPt + 3
    if pos + 9 > nbits then none
    else if sdsGbits body pos 5 != 15 then none
    else
      let pos := pos + (5 + 4)
      let cpti := sdsGbits body pos 2
      let pos := pos + 2
      if cpti == 3 then none
      else
        let addrLen := if cpti == 1 || cpti == 2 then 24 else 8
        let dest := sdsGbits body pos addrLen
        let pos := pos + addrLen
        let pos := if cpti == 2 then pos + 24 else pos
        decodeSdsUserData body nbits pos dest tcap rawUddCap

/-- An SDS has user data. -/
theorem udd_length_pos {body : ℕ → Bool} {nbits : ℕ} {md : UInt16} {tcap cap : ℕ} {msg : SdsMsg}
    (h : decodeSdsReassembled body nbits md tcap cap = some msg) (hcap : 0 < cap) :
    0 < msg.udd.length := by
  obtain ⟨pos, dest, h⟩ : ∃ pos dest, decodeSdsUserData body nbits pos dest tcap cap = some msg := by
    rw [decodeSdsReassembled] at h
    dsimp only at h
    split_ifs at h
    all_goals exact ⟨_, _, h⟩
  unfold decodeSdsUserData at h
  extract_lets sdti pos' li pos'' proto at h
  split_ifs at h with hsdti hli hroom hproto
  obtain rfl := Option.some.inj h
  simp only [Bool.or_eq_true, decide_eq_true_eq, not_or, UInt16.not_lt] at hli
  have hoct : 0 < li.toNat / 8 :=
    Nat.div_pos (UInt16.le_iff_toNat_le.1 hli.1) (by decide)
  obtain ⟨n, hn⟩ := Nat.exists_eq_succ_of_ne_zero hoct.ne'
  rw [List.length_take, sdsOctets, List.length_map, hn, List.range_succ_eq_map,
    List.takeWhile_cons_of_pos (by simpa using hroom), List.length_cons]
  omega

/-! ## The services -/

/-- A PDU handed to `tetra_tx_submit`, with the writes and the return code. -/
structure Submission where
  cls : TxPduClass
  req : TxPduMeta
  result : List RegWrite × Int

/-- What the services read and change: the registers written, the PDUs submitted, the delivery,
and the counter of the long-SDS mailbox. -/
structure SdsRx where
  out : List RegWrite := []
  submitted : List Submission := []
  sds : SdsDl := {}
  lsdsLastCnt : UInt16 := 0
  lsdsCntInit : Bool := false

/-- The inputs of one call: the words of the mailbox, the local registrations, whether the reply
mailbox goes idle in time for the first and for the second PDU, the registers a delivery reads,
and the reaction to a mobility demand, given its PDU type, its SSI and its body. -/
structure SdsEnv where
  word : ℕ → UInt32
  registered : UInt32 → Bool
  idle : Fin 2 → Bool := fun _ ↦ true
  colourCode : UInt32 := 0
  cellCfg1 : UInt32 := 0
  txTdma : UInt32 := 0
  walk : UInt8 → UInt32 → (ℕ → Bool) → SdsRx → SdsRx := fun _ _ _ s ↦ s

namespace SdsEnv

variable (env : SdsEnv)

def cc : UInt8 := (env.colourCode &&& 0x3F).toUInt8

def mcc : UInt16 := (env.cellCfg1 &&& 0x3FF).toUInt16

def mnc : UInt16 := ((env.cellCfg1 >>> 10) &&& 0x3FFF).toUInt16

end SdsEnv

/-- `REG_UL_DEMAND_BODY_INDEX`. -/
def regUlDemandBodyIndex : UInt32 := 0x254

/-- `REG_UL_DEMAND_BODY_ACK`. -/
def regUlDemandBodyAck : UInt32 := 0x25C

/-- `REG_LSDS_READ_INDEX`. -/
def regLsdsReadIndex : UInt32 := 0x298

/-- `LSDS_IDX_SSI`, `LSDS_IDX_LENOPT` and `LSDS_IDX_CNT`. -/
def lsdsIdxSsi : ℕ := 257
def lsdsIdxLenopt : ℕ := 258
def lsdsIdxCnt : ℕ := 259

/-- `TETRA_MM_DEMAND_BODY_BYTES`. -/
def mmDemandBodyBytes : ℕ := 17

/-- The PDU that relays a message. -/
def relayMeta (calling : UInt32) (msg : SdsMsg) : TxPduMeta where
  targetSsi := msg.dest
  cmce :=
    { callingPartySsi := calling
      sdsUdd := fun i ↦ msg.udd.getD i 0
      sdsUddLen := msg.udd.length.toUInt16 }

/-- `sds_dl_delivery_start`. -/
def sdsDlDeliveryStart (env : SdsEnv) (dest calling : UInt32) (ns nr : UInt8) (udd : List UInt8)
    (s : SdsDl) : SdsDl :=
  if s.active then s
  else
    match sdsDlBuildFragments dest calling ns nr udd with
    | none => s
    | some frags =>
      match frags.mapM fun f ↦ schfEncode f.info env.cc 1 env.mcc env.mnc with
      | none => s
      | some type5 =>
        s.start dest frags.length (fun i b ↦ (type5.getD i []).getD b false) env.txTdma

namespace SdsRx

variable (s : SdsRx)

/-- Select the words `idx` of a mailbox one after another. -/
def select (reg : UInt32) (idx : List ℕ) : SdsRx :=
  { s with out := s.out ++ idx.map fun i ↦ ⟨reg, i.toUInt32⟩ }

/-- `tetra_tx_submit`. -/
def submit (idle : Bool) (cls : TxPduClass) (req : TxPduMeta) : SdsRx :=
  let r := txSubmit idle cls req
  { s with out := s.out ++ r.1, submitted := s.submitted ++ [⟨cls, req, r⟩] }

/-- `tetra_reg_write (hal, REG_UL_DEMAND_BODY_ACK, 1)`. -/
def ackDemandBody : SdsRx := { s with out := s.out ++ [⟨regUlDemandBodyAck, 0x1⟩] }

end SdsRx

/-! ### The short SDS -/

/-- `uldbod_unpack`: the body. -/
def uldbodBody (env : SdsEnv) (p : ℕ) : Bool :=
  p < 147 &&
    if p < 32 then (env.word 2).toBitVec.getLsbD (31 - p)
    else if p < 64 then (env.word 3).toBitVec.getLsbD (63 - p)
    else if p < 96 then (env.word 4).toBitVec.getLsbD (95 - p)
    else if p < 128 then (env.word 5).toBitVec.getLsbD (127 - p)
    else (env.word 6).toBitVec.getLsbD (146 - p)

/-- `uldbod_unpack`: the meta bits and the SSI. -/
def uldbodMeta (env : SdsEnv) : UInt16 := (env.word 0 &&& 0x1FFF).toUInt16
def uldbodSsi (env : SdsEnv) : UInt32 := env.word 1 &&& 0x00FFFFFF

/-- The SDS in the demand mailbox, if there is one. -/
def uldbodMsg (env : SdsEnv) : Option SdsMsg :=
  decodeSdsReassembled (uldbodBody env) 147 (uldbodMeta env) 64 48

/-- The declared length is more than was received: the start of a fragment chain. -/
def SdsMsg.FragStart (msg : SdsMsg) : Prop := msg.li.toNat / 8 > msg.udd.length

instance (msg : SdsMsg) : Decidable msg.FragStart := inferInstanceAs (Decidable (_ > _))

/-- The acknowledgement of a short SDS: `N(R)` is the received `N(S)`. -/
def uldbodAck (env : SdsEnv) : TxPduMeta where
  targetSsi := uldbodSsi env
  nr := ((uldbodMeta env >>> 1) &&& 1).toUInt8

/-- `service_uldbod`. -/
def serviceUldbod (env : SdsEnv) (s : SdsRx) : SdsRx :=
  let s := s.select regUlDemandBodyIndex (List.range 7)
  match uldbodMsg env with
  | some msg =>
    if msg.FragStart then s.ackDemandBody
    else
      let s := s.submit (env.idle 0) .blAck (uldbodAck env)
      let s :=
        if decide (msg.udd.length > 0) && decide (msg.udd.length ≤ 24) && env.registered msg.dest
        then s.submit (env.idle 1) .dSdsData (relayMeta (uldbodSsi env) msg)
        else s
      s.ackDemandBody
  | none =>
    let mmType := ((uldbodMeta env >>> 9) &&& 0xF).toUInt8
    let mmBody := fun i ↦
      decide (i < mmDemandBodyBytes * 8) && decide (18 + i < 147) && uldbodBody env (18 + i)
    (env.walk mmType (uldbodSsi env) mmBody s).ackDemandBody

/-! ### The long SDS -/

/-- The counter, the length and the option flag of a reassembled body, and its sender. -/
def lsdsCnt (env : SdsEnv) : UInt16 := (env.word lsdsIdxCnt &&& 0xFFFF).toUInt16
def lsdsNbits (env : SdsEnv) : ℕ := (env.word lsdsIdxLenopt &&& 0xFFFF).toNat
def lsdsOpt (env : SdsEnv) : Bool := (env.word lsdsIdxLenopt).toBitVec.getLsbD 16
def lsdsSsi (env : SdsEnv) : UInt32 := env.word lsdsIdxSsi &&& 0xFFFFFF

/-- The reassembled body. -/
def lsdsBody (env : SdsEnv) (p : ℕ) : Bool :=
  p < lsdsNbits env && (env.word (p / 32)).toBitVec.getLsbD (31 - p % 32)

/-- Where the MLE discriminator of the reassembled body is. -/
def lsdsMlePos (env : SdsEnv) : ℕ :=
  let l0 := if lsdsOpt env then 6 else 0
  l0 + llcHdrLen (sdsGbits (lsdsBody env) l0 4).toUInt16

/-- The SDS in the long-SDS mailbox, if there is one. -/
def lsdsMsg (env : SdsEnv) : Option SdsMsg :=
  let md := ((2 : UInt16) <<< 6) ||| ((1 : UInt16) <<< 2) ||| (lsdsOpt env).toNat.toUInt16
  decodeSdsReassembled (lsdsBody env) (lsdsNbits env) md 512 400

/-- `service_long_sds_rx` from the decoding on. -/
def relayLong (env : SdsEnv) (s : SdsRx) : SdsRx :=
  match lsdsMsg env with
  | some msg =>
    if decide (msg.udd.length > 0) && decide (msg.udd.length ≤ 24) && env.registered msg.dest then
      s.submit (env.idle 1) .dSdsData (relayMeta (lsdsSsi env) msg)
    else if decide (msg.udd.length > 24) && env.registered msg.dest then
      { s with sds := sdsDlDeliveryStart env msg.dest (lsdsSsi env) 1 1 msg.udd s.sds }
    else s
  | none => s

/-- `service_long_sds_rx`. -/
def serviceLongSdsRx (env : SdsEnv) (s : SdsRx) : SdsRx :=
  let s := s.select regLsdsReadIndex [lsdsIdxCnt]
  if !s.lsdsCntInit then { s with lsdsCntInit := true, lsdsLastCnt := lsdsCnt env }
  else if lsdsCnt env == s.lsdsLastCnt then s
  else
    let s := { s with lsdsLastCnt := lsdsCnt env }
    let s := s.select regLsdsReadIndex [lsdsIdxLenopt]
    if decide (lsdsNbits env = 0) || decide (lsdsNbits env > 8192) then s
    else
      let s := s.select regLsdsReadIndex (lsdsIdxSsi :: List.range ((lsdsNbits env + 31) / 32))
      let nsPos := (if lsdsOpt env then 6 else 0) + 4
      let nr : UInt8 := if lsdsBody env nsPos then 1 else 0
      let s := s.submit (env.idle 0) .blAck { targetSsi := lsdsSsi env, nr := nr }
      let mlePos := lsdsMlePos env
      if sdsGbits (lsdsBody env) mlePos 3 == 1 then
        let mmType := (sdsGbits (lsdsBody env) (mlePos + 3) 4).toUInt8
        let mmBody := fun i ↦
          decide (i < mmDemandBodyBytes * 8) && lsdsBody env (mlePos + 3 + 4 + i)
        env.walk mmType (lsdsSsi env) mmBody s
      else relayLong env s

/-! ## Messages that are passed on -/

/-- What one call of a service submitted. -/
def fresh (s s' : SdsRx) : List Submission := s'.submitted.drop s.submitted.length

/-- The sender was sent an acknowledgement. -/
def Acked (s s' : SdsRx) : Prop := ∃ sub ∈ fresh s s', sub.cls = .blAck ∧ sub.result.2 = 0

/-- The D-SDS-DATA with the message is in the reply mailbox in full. -/
def Staged (s s' : SdsRx) (calling : UInt32) (msg : SdsMsg) : Prop :=
  ∃ sub ∈ fresh s s', sub.cls = .dSdsData ∧ sub.req = relayMeta calling msg ∧
    StagedInFull sub.result sub.req (buildDSdsData sub.req.cmce)

/-- The delivery that stands at its first burst carries a message: the bursts are the coded
blocks of a chain that starts at the recipient and whose payloads are the TM-SDU. -/
def SdsDl.Carries (env : SdsEnv) (dest calling : UInt32) (udd : List UInt8) (s : SdsDl) : Prop :=
  s.active = true ∧ s.idx = 0 ∧ ∃ frags : List SdsFrag, s.n = frags.length ∧
    frags.head? = some (sdsFragStart dest calling 1 (sdsTmSdu calling 1 udd)) ∧
    frags.flatMap SdsFrag.payload = sdsTmSdu calling 1 udd ∧
    ∀ i (hi : i < frags.length), (frags.get ⟨i, hi⟩).Fits ∧
      ∃ bits, schfEncode (frags.get ⟨i, hi⟩).info env.cc 1 env.mcc env.mnc = some bits ∧
        s.type5 i = fun b ↦ bits.getD b false

/-- The call started a delivery of the message. -/
def Routed (env : SdsEnv) (s s' : SdsRx) (calling : UInt32) (msg : SdsMsg) : Prop :=
  s.sds.active = false ∧ s'.sds.Carries env msg.dest calling msg.udd

/-- The message is passed on. -/
def Kept (env : SdsEnv) (s s' : SdsRx) (calling : UInt32) (msg : SdsMsg) : Prop :=
  Staged s s' calling msg ∨ Routed env s s' calling msg

/-- A complete short SDS for a registered recipient is in the demand mailbox. -/
structure ShortReceived (env : SdsEnv) (msg : SdsMsg) : Prop where
  decoded : uldbodMsg env = some msg
  complete : ¬ msg.FragStart
  registered : env.registered msg.dest = true

/-- A reassembled SDS for a registered recipient is new in the long-SDS mailbox. -/
structure LongReceived (env : SdsEnv) (s : SdsRx) (msg : SdsMsg) : Prop where
  started : s.lsdsCntInit = true
  new : lsdsCnt env ≠ s.lsdsLastCnt
  pos : 0 < lsdsNbits env
  le : lsdsNbits env ≤ 8192
  noMm : sdsGbits (lsdsBody env) (lsdsMlePos env) 3 ≠ 1
  decoded : lsdsMsg env = some msg
  registered : env.registered msg.dest = true

/-! ### The delivery -/

/-- Every block of a chain is coded. -/
theorem mapM_schfEncode (env : SdsEnv) (frags : List SdsFrag) :
    ∃ type5, (frags.mapM fun f ↦ schfEncode f.info env.cc 1 env.mcc env.mnc) = some type5 ∧
      ∀ i (hi : i < frags.length), ∃ bits,
        schfEncode (frags.get ⟨i, hi⟩).info env.cc 1 env.mcc env.mnc = some bits ∧
          type5.getD i [] = bits := by
  induction frags with
  | nil => exact ⟨[], rfl, fun i hi ↦ absurd hi (Nat.not_lt_zero i)⟩
  | cons f frags ih =>
      obtain ⟨type5, hmap, hget⟩ := ih
      have hlen : f.info.length = schf.info := f.length_info
      obtain ⟨bits, hcoded⟩ : ∃ bits, schfEncode f.info env.cc 1 env.mcc env.mnc = some bits := by
        rw [schfEncode_eq f.length_info, Channel.encode_eq hlen]
        exact ⟨_, rfl⟩
      refine ⟨bits :: type5, by rw [List.mapM_cons, hcoded, hmap]; rfl, fun i hi ↦ ?_⟩
      cases i with
      | zero => exact ⟨bits, hcoded, rfl⟩
      | succ i => exact hget i (Nat.lt_of_succ_lt_succ hi)

/-- **Which messages a delivery takes**, if there is none under way. -/
theorem carries_sdsDlDeliveryStart (env : SdsEnv) (dest calling : UInt32) (udd : List UInt8)
    {s : SdsDl} (hs : s.active = false) :
    (sdsDlDeliveryStart env dest calling 1 1 udd s).Carries env dest calling udd ↔
      0 < udd.length ∧ udd.length ≤ 120 := by
  rw [← sdsDlBuildFragments_isSome dest calling 1 1 udd, sdsDlDeliveryStart,
    if_neg (by rw [hs]; decide)]
  cases hfrags : sdsDlBuildFragments dest calling 1 1 udd with
  | none => exact iff_of_false (fun hc ↦ absurd (hs.symm.trans hc.1) (by decide)) (by decide)
  | some frags =>
      obtain ⟨type5, hmap, hget⟩ := mapM_schfEncode env frags
      have hhead := sdsDlBuildFragments_head hfrags
      have hn : (s.active || frags.length == 0) = false := by
        cases frags with
        | nil => exact absurd hhead (by simp)
        | cons f frags => rw [hs]; rfl
      refine iff_of_true ?_ rfl
      dsimp only
      rw [hmap]
      dsimp only
      rw [SdsDl.start, hn, if_neg Bool.false_ne_true]
      refine ⟨rfl, rfl, frags, rfl, hhead, sdsDlBuildFragments_payload hfrags, fun i hi ↦ ?_⟩
      obtain ⟨bits, hbits, hrow⟩ := hget i hi
      exact ⟨fits_sdsDlBuildFragments hfrags _ (List.get_mem _ _), bits, hbits,
        by funext b; rw [← hrow]⟩

/-! ### What a service does with a message -/

/-- What `tetra_tx_submit` makes of a PDU. -/
def Submission.of (idle : Bool) (cls : TxPduClass) (req : TxPduMeta) : Submission :=
  ⟨cls, req, txSubmit idle cls req⟩

namespace SdsRx

variable (s : SdsRx)

@[simp] theorem submitted_select (reg : UInt32) (idx : List ℕ) :
    (s.select reg idx).submitted = s.submitted := rfl

@[simp] theorem sds_select (reg : UInt32) (idx : List ℕ) : (s.select reg idx).sds = s.sds := rfl

@[simp] theorem submitted_submit (idle : Bool) (cls : TxPduClass) (req : TxPduMeta) :
    (s.submit idle cls req).submitted = s.submitted ++ [.of idle cls req] := rfl

@[simp] theorem sds_submit (idle : Bool) (cls : TxPduClass) (req : TxPduMeta) :
    (s.submit idle cls req).sds = s.sds := rfl

@[simp] theorem submitted_ackDemandBody : s.ackDemandBody.submitted = s.submitted := rfl

@[simp] theorem sds_ackDemandBody : s.ackDemandBody.sds = s.sds := rfl

end SdsRx

/-- What a service does with a message: an acknowledgement, a D-SDS-DATA up to 24 octets, and
above, in the `long` case, a delivery. -/
structure Relays (env : SdsEnv) (long : Bool) (s s' : SdsRx) (calling : UInt32) (msg : SdsMsg) :
    Prop where
  submitted : ∃ ack, s'.submitted = s.submitted ++ .of (env.idle 0) .blAck ack ::
    if msg.udd.length ≤ 24 then [.of (env.idle 1) .dSdsData (relayMeta calling msg)] else []
  sds : s'.sds =
    if long = true ∧ 24 < msg.udd.length then
      sdsDlDeliveryStart env msg.dest calling 1 1 msg.udd s.sds
    else s.sds

variable {env : SdsEnv} {s : SdsRx} {msg : SdsMsg}

/-- The guard of a D-SDS-DATA, for a registered recipient. -/
theorem relay_guard (hpos : 0 < msg.udd.length) (hreg : env.registered msg.dest = true) :
    (decide (msg.udd.length > 0) && decide (msg.udd.length ≤ 24) && env.registered msg.dest) =
      decide (msg.udd.length ≤ 24) := by
  rw [hreg, Bool.and_true, decide_eq_true hpos, Bool.true_and]

theorem relays_serviceUldbod (s : SdsRx) (h : ShortReceived env msg) :
    Relays env false s (serviceUldbod env s) (uldbodSsi env) msg := by
  rw [serviceUldbod, h.decoded]
  dsimp only
  rw [if_neg h.complete, relay_guard (udd_length_pos h.decoded (by decide)) h.registered]
  by_cases hlen : msg.udd.length ≤ 24
  · rw [if_pos (decide_eq_true hlen)]
    refine ⟨⟨uldbodAck env, ?_⟩, ?_⟩
    · rw [if_pos hlen]
      simp only [SdsRx.submitted_ackDemandBody, SdsRx.submitted_submit, SdsRx.submitted_select,
        List.append_assoc, List.singleton_append]
    · rw [if_neg (by simp)]
      rfl
  · rw [if_neg (by simpa using hlen)]
    refine ⟨⟨uldbodAck env, ?_⟩, ?_⟩
    · rw [if_neg hlen]
      simp only [SdsRx.submitted_ackDemandBody, SdsRx.submitted_submit, SdsRx.submitted_select]
    · rw [if_neg (by simp)]
      rfl

theorem relays_relayLong {ack : TxPduMeta} (h : lsdsMsg env = some msg)
    (hreg : env.registered msg.dest = true) {s₁ : SdsRx}
    (hsub : s₁.submitted = s.submitted ++ [.of (env.idle 0) .blAck ack]) (hsds : s₁.sds = s.sds) :
    Relays env true s (relayLong env s₁) (lsdsSsi env) msg := by
  rw [relayLong, h]
  dsimp only
  rw [relay_guard (udd_length_pos h (by decide)) hreg, hreg, Bool.and_true]
  by_cases hlen : msg.udd.length ≤ 24
  · rw [if_pos (decide_eq_true hlen)]
    refine ⟨⟨ack, ?_⟩, ?_⟩
    · rw [if_pos hlen, SdsRx.submitted_submit, hsub, List.append_assoc, List.singleton_append]
    · rw [if_neg (by omega), SdsRx.sds_submit, hsds]
  · rw [if_neg (by simpa using hlen), if_pos (decide_eq_true (by omega))]
    refine ⟨⟨ack, ?_⟩, ?_⟩
    · rw [if_neg hlen]
      exact hsub
    · rw [if_pos ⟨rfl, by omega⟩, ← hsds]

theorem relays_serviceLongSdsRx (h : LongReceived env s msg) :
    Relays env true s (serviceLongSdsRx env s) (lsdsSsi env) msg := by
  have hbogus : (decide (lsdsNbits env = 0) || decide (lsdsNbits env > 8192)) = false := by
    rw [decide_eq_false h.pos.ne', decide_eq_false (by have := h.le; omega)]
    rfl
  rw [serviceLongSdsRx]
  dsimp only
  rw [if_neg (by simp [SdsRx.select, h.started]), if_neg (by simpa [SdsRx.select] using h.new),
    hbogus, if_neg Bool.false_ne_true, if_neg (by simpa using h.noMm)]
  exact relays_relayLong h.decoded h.registered rfl rfl

/-! ### Which messages are kept -/

theorem result_blAck (idle : Bool) (req : TxPduMeta) :
    (txSubmit idle .blAck req).2 = 0 ↔ idle = true := by
  cases idle with
  | true => exact iff_of_true rfl rfl
  | false =>
      refine iff_of_false (fun h ↦ ?_) Bool.false_ne_true
      change (-2 : Int) = 0 at h
      omega

theorem Relays.acked_iff {long : Bool} {s s' : SdsRx} {calling : UInt32}
    (h : Relays env long s s' calling msg) : Acked s s' ↔ env.idle 0 = true := by
  obtain ⟨ack, hsub⟩ := h.submitted
  rw [Acked, fresh, hsub, List.drop_left]
  constructor
  · rintro ⟨sub, hmem, hcls, hrc⟩
    rcases List.mem_cons.1 hmem with rfl | hmem
    · exact (result_blAck _ ack).1 hrc
    · split_ifs at hmem
      · rw [List.mem_singleton.1 hmem] at hcls
        cases hcls
      · exact absurd hmem List.not_mem_nil
  · intro hidle
    exact ⟨_, List.mem_cons_self, rfl, (result_blAck _ ack).2 hidle⟩

theorem Relays.staged_iff {long : Bool} {s s' : SdsRx} {calling : UInt32}
    (h : Relays env long s s' calling msg) (hpos : 0 < msg.udd.length) :
    Staged s s' calling msg ↔ env.idle 1 = true ∧ msg.udd.length ≤ 10 := by
  obtain ⟨ack, hsub⟩ := h.submitted
  rw [Staged, fresh, hsub, List.drop_left]
  by_cases hlen : msg.udd.length ≤ 24
  · have hle : msg.udd.length.toUInt16.toNat = msg.udd.length :=
      Nat.mod_eq_of_lt (by change msg.udd.length < 65536; omega)
    have hbody : buildDSdsData (relayMeta calling msg).cmce ≠ [] := by
      have hzero : (msg.udd.length.toUInt16 == 0) = false := by
        rw [beq_eq_false_iff_ne]
        intro hz
        rw [hz] at hle
        exact hpos.ne hle
      have hmax : decide (msg.udd.length.toUInt16 > 24) = false := by
        rw [decide_eq_false_iff_not, gt_iff_lt, UInt16.not_lt, UInt16.le_iff_toNat_le, hle]
        exact hlen
      rw [buildDSdsData, if_neg]
      · simp [putBits]
      · change ¬ (msg.udd.length.toUInt16 == 0 || decide (msg.udd.length.toUInt16 > 24)) = true
        rw [hzero, hmax]
        exact Bool.false_ne_true
    have hstaged : StagedInFull (txSubmit (env.idle 1) .dSdsData (relayMeta calling msg))
        (relayMeta calling msg) (buildDSdsData (relayMeta calling msg).cmce) ↔
          env.idle 1 = true ∧ msg.udd.length ≤ 10 := by
      rw [@Lmac.staged_iff .dSdsData _ rfl (env.idle 1) _ hbody, imp_iff_right rfl,
        UInt16.le_iff_toNat_le]
      exact and_congr_right fun _ ↦ iff_of_eq (congrArg (· ≤ 10) hle)
    rw [if_pos hlen, ← hstaged]
    constructor
    · rintro ⟨sub, hmem, hcls, hreq, hfull⟩
      rcases List.mem_cons.1 hmem with rfl | hmem
      · cases hcls
      · obtain rfl := List.mem_singleton.1 hmem
        exact hfull
    · intro hfull
      exact ⟨_, List.mem_cons_of_mem _ (List.mem_singleton_self _), rfl, rfl, hfull⟩
  · rw [if_neg hlen]
    refine iff_of_false ?_ (by omega)
    rintro ⟨sub, hmem, hcls, -⟩
    obtain rfl := List.mem_singleton.1 hmem
    cases hcls

theorem Relays.routed_iff {long : Bool} {s s' : SdsRx} {calling : UInt32}
    (h : Relays env long s s' calling msg) :
    Routed env s s' calling msg ↔
      s.sds.active = false ∧ long = true ∧ 24 < msg.udd.length ∧ msg.udd.length ≤ 120 := by
  rw [Routed, h.sds]
  refine and_congr_right fun hinactive ↦ ?_
  split_ifs with hlong
  · rw [carries_sdsDlDeliveryStart env msg.dest calling msg.udd hinactive]
    constructor
    · exact fun hlen ↦ ⟨hlong.1, hlong.2, hlen.2⟩
    · exact fun hlen ↦ ⟨by omega, hlen.2.2⟩
  · refine iff_of_false (fun hc ↦ ?_) (fun hl ↦ hlong ⟨hl.1, hl.2.1⟩)
    exact absurd (hinactive.symm.trans hc.1) (by decide)

/-- **Between which limits an acknowledged message is kept.** -/
theorem Relays.kept_iff {long : Bool} {s s' : SdsRx} {calling : UInt32}
    (h : Relays env long s s' calling msg) (hpos : 0 < msg.udd.length) :
    (Acked s s' → Kept env s s' calling msg) ↔
      (env.idle 0 = true →
        env.idle 1 = true ∧ msg.udd.length ≤ 10 ∨
          s.sds.active = false ∧ long = true ∧ 24 < msg.udd.length ∧ msg.udd.length ≤ 120) := by
  rw [h.acked_iff, Kept, h.staged_iff hpos, h.routed_iff]

/-- **What the transport and the relay take.**  A body that a builder delivers is staged in full
if the mailbox goes idle, and, for a D-SDS-DATA, if it has at most 10 octets of user data.  A
message whose sender is acknowledged is passed on if it has at most 10 octets, or, in the long
case, between 25 and 120 and no other delivery is under way. -/
theorem relayed_iff (env : SdsEnv) (s : SdsRx) (msg : SdsMsg) (cls : TxPduClass)
    (builder : CmceMeta → List Bool) (idle : Bool) (req : TxPduMeta) :
    (cmceBuilder cls = some builder → builder req.cmce ≠ [] →
      (StagedInFull (txSubmit idle cls req) req (builder req.cmce) ↔
        idle = true ∧ (cls = .dSdsData → req.cmce.sdsUddLen ≤ 10))) ∧
      (ShortReceived env msg →
        ((Acked s (serviceUldbod env s) →
            Kept env s (serviceUldbod env s) (uldbodSsi env) msg) ↔
          (env.idle 0 = true → env.idle 1 = true ∧ msg.udd.length ≤ 10))) ∧
      (LongReceived env s msg →
        ((Acked s (serviceLongSdsRx env s) →
            Kept env s (serviceLongSdsRx env s) (lsdsSsi env) msg) ↔
          (env.idle 0 = true → env.idle 1 = true ∧ msg.udd.length ≤ 10 ∨
            s.sds.active = false ∧ 24 < msg.udd.length ∧ msg.udd.length ≤ 120))) := by
  refine ⟨fun hcls hbody ↦ staged_iff hcls idle req hbody, fun h ↦ ?_, fun h ↦ ?_⟩
  · rw [(relays_serviceUldbod s h).kept_iff (udd_length_pos h.decoded (by decide))]
    simp only [Bool.false_eq_true, false_and, and_false, or_false]
  · rw [(relays_serviceLongSdsRx h).kept_iff (udd_length_pos h.decoded (by decide))]
    simp only [true_and]

/-! ### Messages -/

/-- A message in the demand mailbox, from 2633716 to 2633617, who is registered. -/
def shortEnv (w2 w3 w4 w5 w6 : UInt32) : SdsEnv where
  word i := [0x88, 2633716, w2, w3, w4, w5, w6].getD i 0
  registered ssi := ssi == 2633617

/-- Ten octets. -/
def tenOctets : SdsEnv := shortEnv 0x24f04a0b 0xe470a104 0x82848688 0x8a8c8e90 0x49000

/-- Eleven octets. -/
def elevenOctets : SdsEnv := shortEnv 0x24f04a0b 0xe470b104 0x82848688 0x8a8c8e90 0x494a0

/-- The message of `n` octets that the environments of this section hold. -/
def lettersMsg (n : ℕ) : SdsMsg where
  dest := 2633617
  proto := 130
  li := (8 * n).toUInt16
  text := (List.range (n - 1)).map fun i ↦ (65 + i).toUInt8
  udd := 130 :: (List.range (n - 1)).map fun i ↦ (65 + i).toUInt8

/-- 25 octets in the long-SDS mailbox. -/
def twentyFiveOctets : SdsEnv where
  word i :=
    if i = lsdsIdxCnt then 1 else if i = lsdsIdxLenopt then 256
    else if i = lsdsIdxSsi then 2633716
    else [0x12782505, 0xf238c882, 0x41424344, 0x45464748, 0x494a4b4c, 0x4d4e4f50, 0x51525354,
      0x55565758].getD i 0
  registered ssi := ssi == 2633617

theorem shortReceived_tenOctets : ShortReceived tenOctets (lettersMsg 10) :=
  ⟨by decide +kernel, by decide, rfl⟩

theorem shortReceived_elevenOctets : ShortReceived elevenOctets (lettersMsg 11) :=
  ⟨by decide +kernel, by decide, rfl⟩

theorem longReceived_twentyFiveOctets :
    LongReceived twentyFiveOctets { lsdsCntInit := true } (lettersMsg 25) :=
  ⟨rfl, by decide, by decide, by decide, by decide +kernel, by decide +kernel, rfl⟩

/-- Eleven octets are acknowledged, the builder makes a PDU of them, and they are lost. -/
theorem elevenOctets_lost : ShortReceived elevenOctets (lettersMsg 11) ∧
    (buildDSdsData (relayMeta (uldbodSsi elevenOctets) (lettersMsg 11)).cmce).length = 133 ∧
    Acked {} (serviceUldbod elevenOctets {}) ∧
    ¬ Kept elevenOctets {} (serviceUldbod elevenOctets {}) (uldbodSsi elevenOctets)
      (lettersMsg 11) := by
  have h := relays_serviceUldbod {} shortReceived_elevenOctets
  refine ⟨shortReceived_elevenOctets, by decide +kernel, h.acked_iff.2 rfl, ?_⟩
  rw [Kept, h.staged_iff (by decide), h.routed_iff]
  decide

/-- A status is staged, ten octets are relayed, 25 are delivered in fragments. -/
theorem kept_messages :
    StagedInFull (txSubmit true .dStatus {}) {} (buildDStatus {}) ∧
      Kept tenOctets {} (serviceUldbod tenOctets {}) (uldbodSsi tenOctets) (lettersMsg 10) ∧
      Kept twentyFiveOctets { lsdsCntInit := true }
        (serviceLongSdsRx twentyFiveOctets { lsdsCntInit := true }) (lsdsSsi twentyFiveOctets)
        (lettersMsg 25) := by
  obtain ⟨hstage, hshort, -⟩ :=
    relayed_iff tenOctets {} (lettersMsg 10) .dStatus buildDStatus true {}
  obtain ⟨-, -, hlong⟩ :=
    relayed_iff twentyFiveOctets { lsdsCntInit := true } (lettersMsg 25) .dStatus buildDStatus true {}
  refine ⟨(hstage rfl (by decide)).2 ⟨rfl, by decide⟩,
    (hshort shortReceived_tenOctets).2 (fun _ ↦ ⟨rfl, by decide⟩) ?_,
    (hlong longReceived_twentyFiveOctets).2 (fun _ ↦ .inr ⟨rfl, by decide, by decide⟩) ?_⟩
  · exact (relays_serviceUldbod {} shortReceived_tenOctets).acked_iff.2 rfl
  · exact (relays_serviceLongSdsRx longReceived_twentyFiveOctets).acked_iff.2 rfl

end TetraPhy.Daemon
