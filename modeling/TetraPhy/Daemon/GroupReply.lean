import TetraPhy.Daemon.GroupSequence
import TetraPhy.Daemon.LocationUpdate
import TetraPhy.Lmac.CmceStaging
import TetraPhy.Sw.GroupAck
import TetraPhy.Sw.MmDemandGroups

/-!
# The answer to a group attachment

`react_mm7_grpid` of `tetra_attach_daemon.c` answers a U-ATTACH/DETACH-GROUP-IDENTITY.  Of its
records it passes over those without a GSSI, the detachments, and the groups that are neither known
nor can be enrolled; the others are acknowledged, with the lifetime 1, the class of usage that was
asked for, and the address type of the request.

The address type is the slip: the acknowledgement has a GSSI and nothing else behind it, whatever
type was asked for.  **`acknowledges_iff`** says when a terminal reads what it should.
-/

namespace TetraPhy.Daemon

open Sw TetraDb MmDemand GroupAck Lmac

/-- What a reaction reads beside the demand: the policy register, what the file system answers to a
save of the entry of each record, and whether the reply mailbox goes idle. -/
structure GrpIdIn where
  policy : UInt32
  saves : ℕ → SaveIo := fun _ ↦ {}
  idle : Bool := true

/-- `allow_gssi`. -/
def GrpIdIn.allowGssi (i : GrpIdIn) : Bool := i.policy &&& dbPolicyAcceptUnknownGssi != 0

/-- An entry of `reply_gssi[]`, `reply_at[]`, `reply_lt[]`, `reply_adi[]` and `reply_cls[]`. -/
structure GrpReply where
  gssi : UInt32 := 0
  at' : UInt32 := 0
  lt : UInt32 := 0
  adi : UInt32 := 0
  cls : UInt32 := 0

/-- What a reaction leaves, the reply that it submits, if any, and the groups whose calls are sent
after it. -/
structure GrpIdDone where
  subscribers : Subscribers
  nsnr : NsnrTable
  reply : Option (List RegWrite × Int)
  lateEntry : List UInt32

/-- The reply to a record that is admitted. -/
def grpReply (g : GidRecord) : GrpReply where
  gssi := g.gssi
  at' := g.addressType.toUInt32
  lt := 1
  adi := g.attachDetach.toUInt32
  cls := if g.classOfUsage ≠ 0 then g.classOfUsage.toUInt32 else 4

/-- A round of the loop over the records. -/
def grpRecord (allow : Bool) (s : SaveIo) (g : GidRecord) (t : Subscribers) :
    Subscribers × Option GrpReply :=
  if g.gssi = 0 then (t, none)
  else if g.attachDetach ≠ 0 then (t, none)
  else
    let (t', hit) := t.enrol g.gssi 1 s allow
    (t', if hit then some (grpReply g) else none)

/-- The loop over the records. -/
def grpLoop (i : GrpIdIn) (p : MmDemandParsed) : List ℕ → Subscribers → Subscribers × List GrpReply
  | [], t => (t, [])
  | r :: rs, t =>
    let (t', reply) := grpRecord i.allowGssi (i.saves r) (p.gidRecords r) t
    let (t'', replies) := grpLoop i p rs t'
    (t'', reply.toList ++ replies)

/-- The request for the transport. -/
def grpAckMeta (ssi ns nr : UInt32) (replies : List GrpReply) : TxPduMeta where
  targetSsi := ssi
  acceptReject := 0
  replyCount := replies.length.toUInt8
  ns := ns.toUInt8
  nr := nr.toUInt8
  gssi j := (replies.getD j {}).gssi
  at' j := (replies.getD j {}).at'.toUInt8
  lifetime j := (replies.getD j {}).lt.toUInt8
  adi j := (replies.getD j {}).adi.toUInt8
  cls j := (replies.getD j {}).cls.toUInt8

/-- The records that count. -/
def recordIndices (p : MmDemandParsed) : List ℕ :=
  List.range (if p.gidCount > 3 then 3 else p.gidCount.toNat)

/-- `react_mm7_grpid`. -/
def reactMm7Grpid (t : Subscribers) (nsnr : NsnrTable) (i : GrpIdIn) (p : MmDemandParsed) :
    GrpIdDone :=
  let (t', replies) := grpLoop i p (recordIndices p) t
  -- a status query is not answered
  if p.gidCount = 0 ∧ p.gidGroupIdentityReport = 1 ∧ p.gidAttachDetachMode = 0 then
    ⟨t', nsnr, none, []⟩
  else if replies.length = 0 then ⟨t', nsnr, none, []⟩
  else
    let (nsnr', ns, nr) := grpNsnrStep nsnr p.pduSsi
    ⟨t', nsnr', some (txSubmit i.idle .grpAttachAck (grpAckMeta p.pduSsi ns nr replies)),
      replies.map GrpReply.gssi⟩

/-! ## What should be acknowledged -/

/-- The group is known, or is enrolled. -/
def Admits (t : Subscribers) (gssi : UInt32) (allow : Bool) (s : SaveIo) : Prop :=
  t.lookup gssi 1 ≠ none ∨ gssi ≠ 0 ∧ allow = true ∧ t.HasRoom s

instance (t : Subscribers) (gssi : UInt32) (allow : Bool) (s : SaveIo) :
    Decidable (Admits t gssi allow s) := inferInstanceAs (Decidable (_ ∨ _))

/-- The attach records whose group is known or is enrolled when their turn comes. -/
def admittedFrom (i : GrpIdIn) (p : MmDemandParsed) : List ℕ → Subscribers → List GidRecord
  | [], _ => []
  | r :: rs, t =>
    let g := p.gidRecords r
    let rest := admittedFrom i p rs (grpRecord i.allowGssi (i.saves r) g t).1
    if g.attachDetach = 0 ∧ Admits t g.gssi i.allowGssi (i.saves r) then g :: rest else rest

/-- Those of the demand. -/
def admittedRecords (t : Subscribers) (i : GrpIdIn) (p : MmDemandParsed) : List GidRecord :=
  admittedFrom i p (recordIndices p) t

/-- The acknowledgement of a record. -/
def acknowledged (g : GidRecord) : GroupAck.GroupIdentityDownlink :=
  .attach 1 ((if g.classOfUsage = 0 then 4 else g.classOfUsage).toBitVec.setWidth 3)
    (.gssi (g.gssi.toBitVec.setWidth 24))

/-- **A reply that is staged acknowledges the records that it should**, whatever the mailbox held
before: the body fits the raw field, all of it is read, and it lists these groups. -/
def Acknowledges (t : Subscribers) (nsnr : NsnrTable) (i : GrpIdIn) (p : MmDemandParsed) : Prop :=
  ∀ w, (reactMm7Grpid t nsnr i p).reply = some (w, 0) → ∀ m : ReplyMailbox,
    (m.writes w).rawMmLen.toNat ≤ 128 ∧
      readGroupAck (m.writes w).rawBody =
        some (⟨false, (admittedRecords t i p).map acknowledged⟩, [])

/-! ## The replies -/

variable {t : Subscribers} {nsnr : NsnrTable} {i : GrpIdIn} {p : MmDemandParsed}

/-- A record is answered if it has a GSSI and is one of those that should be. -/
theorem grpRecord_reply (allow : Bool) (s : SaveIo) (g : GidRecord) (t : Subscribers) :
    (grpRecord allow s g t).2 =
      if (g.attachDetach = 0 ∧ Admits t g.gssi allow s) ∧ g.gssi ≠ 0 then some (grpReply g)
      else none := by
  rw [grpRecord]
  by_cases hgssi : g.gssi = 0
  · rw [if_pos hgssi, if_neg fun h ↦ h.2 hgssi]
  by_cases hattach : g.attachDetach = 0
  · rw [if_neg hgssi, if_neg (not_not.2 hattach)]
    obtain ⟨hknown, henrol⟩ | ⟨-, hcan, hhit, -⟩ | ⟨hunknown, hcannot, henrol⟩ :=
      t.enrol_cases g.gssi (by decide : (1 : BitVec 8) ≤ 1) s allow
    · rw [henrol, if_pos ⟨⟨hattach, .inl hknown⟩, hgssi⟩]
      rfl
    · dsimp only
      rw [hhit, if_pos rfl, if_pos ⟨⟨hattach, .inr ⟨hgssi, hcan⟩⟩, hgssi⟩]
    · rw [henrol, if_neg]
      · rfl
      · rintro ⟨⟨-, hknown | hcan⟩, -⟩
        · exact hknown hunknown
        · exact hcannot hcan.2
  · rw [if_neg hgssi, if_pos hattach, if_neg fun h ↦ hattach h.1.1]

/-- **The loop answers the records that it should, if they have a GSSI.** -/
theorem grpLoop_replies (i : GrpIdIn) (p : MmDemandParsed) (rs : List ℕ) (t : Subscribers) :
    (grpLoop i p rs t).2 =
      ((admittedFrom i p rs t).filter (·.gssi ≠ 0)).map grpReply := by
  induction rs generalizing t with
  | nil => rfl
  | cons r rs ih =>
      have hreply := grpRecord_reply i.allowGssi (i.saves r) (p.gidRecords r) t
      have hrest := ih (grpRecord i.allowGssi (i.saves r) (p.gidRecords r) t).1
      change (grpRecord i.allowGssi (i.saves r) (p.gidRecords r) t).2.toList ++
        (grpLoop i p rs (grpRecord i.allowGssi (i.saves r) (p.gidRecords r) t).1).2 = _
      rw [hreply, hrest, admittedFrom]
      by_cases hattaches : (p.gidRecords r).attachDetach = 0 ∧
          Admits t (p.gidRecords r).gssi i.allowGssi (i.saves r)
      · by_cases hgssi : (p.gidRecords r).gssi = 0
        · rw [if_neg fun h ↦ h.2 hgssi, if_pos hattaches,
            List.filter_cons_of_neg (by simpa using hgssi)]
          rfl
        · rw [if_pos ⟨hattaches, hgssi⟩, if_pos hattaches,
            List.filter_cons_of_pos (by simpa using hgssi)]
          rfl
      · rw [if_neg fun h ↦ hattaches h.1, if_neg hattaches]
        rfl

theorem length_admittedFrom_le (i : GrpIdIn) (p : MmDemandParsed) (rs : List ℕ)
    (t : Subscribers) : (admittedFrom i p rs t).length ≤ rs.length := by
  induction rs generalizing t with
  | nil => exact Nat.le_refl 0
  | cons r rs ih =>
      have hrest := ih (grpRecord i.allowGssi (i.saves r) (p.gidRecords r) t).1
      rw [admittedFrom]
      split_ifs
      · exact Nat.succ_le_succ hrest
      · exact hrest.trans (Nat.le_succ _)

theorem mem_admittedFrom {rs : List ℕ} {g : GidRecord} (h : g ∈ admittedFrom i p rs t) :
    g.attachDetach = 0 ∧ ∃ r, g = p.gidRecords r := by
  induction rs generalizing t with
  | nil => exact absurd h List.not_mem_nil
  | cons r rs ih =>
      rw [admittedFrom] at h
      split_ifs at h with hattaches
      · obtain rfl | hrest := List.mem_cons.1 h
        · exact ⟨hattaches.1, r, rfl⟩
        · exact ih hrest
      · exact ih h

theorem length_recordIndices (p : MmDemandParsed) : (recordIndices p).length ≤ 3 := by
  rw [recordIndices, List.length_range]
  split_ifs with hmany
  · exact Nat.le_refl 3
  · exact UInt8.le_iff_toNat_le.1 (UInt8.not_lt.1 hmany)

/-- The records that are answered. -/
def answered (t : Subscribers) (i : GrpIdIn) (p : MmDemandParsed) : List GidRecord :=
  (admittedRecords t i p).filter (·.gssi ≠ 0)

theorem length_answered (t : Subscribers) (i : GrpIdIn) (p : MmDemandParsed) :
    (answered t i p).length ≤ 3 :=
  (List.length_filter_le _ _).trans
    ((length_admittedFrom_le i p _ t).trans (length_recordIndices p))

/-- A demand without records. -/
theorem answered_of_gidCount (h : p.gidCount = 0) : answered t i p = [] := by
  rw [answered, admittedRecords, recordIndices, h]
  rfl

/-! ## What is staged -/

/-- The record of the body. -/
def ackRecord (g : GidRecord) : GrpackRecord where
  atd := (grpReply g).adi.toUInt8 &&& 0x1
  lifetime := (grpReply g).lt.toUInt8 &&& 0x3
  classOfUsage := (grpReply g).cls.toUInt8 &&& 0x7
  addrType := (grpReply g).at'.toUInt8 &&& 0x3
  gssi := (grpReply g).gssi &&& 0x00FFFFFF

/-- The body of the acknowledgement. -/
def ackBody (gs : List GidRecord) : List Bool := grpackBuild 0 (gs.map ackRecord)

theorem length_ackBody {gs : List GidRecord} (hpos : gs ≠ []) (hlen : gs.length ≤ 3) :
    (ackBody gs).length = 30 + 32 * gs.length := by
  have hpos' : 0 < (gs.map ackRecord).length := by
    rw [List.length_map]
    exact List.length_pos_of_ne_nil hpos
  rw [ackBody, length_grpackBuild 0 hpos' (by rwa [List.length_map]), List.length_map]

/-- The records that the transport takes from a request. -/
def metaRecords (m : TxPduMeta) : List GrpackRecord :=
  ((List.finRange 3).take (if m.replyCount > 3 then 3 else m.replyCount).toNat).map fun j ↦
    { atd := m.adi j &&& 0x1, lifetime := m.lifetime j &&& 0x3, classOfUsage := m.cls j &&& 0x7,
      addrType := m.at' j &&& 0x3, gssi := m.gssi j &&& 0x00FFFFFF }

theorem submitGrpAck_eq (idle : Bool) (m : TxPduMeta) : submitGrpAck idle m =
    if (grpackBuild (m.acceptReject &&& 0x1) (metaRecords m)).length = 0 then ([], -1)
    else stageRawMm idle m.targetSsi (grpackBuild (m.acceptReject &&& 0x1) (metaRecords m))
      m.ns m.nr mlePdMm 0 0 0 := rfl

/-- They are those that were put there. -/
theorem metaRecords_grpAckMeta (ssi ns nr : UInt32) {gs : List GidRecord} (hlen : gs.length ≤ 3) :
    metaRecords (grpAckMeta ssi ns nr (gs.map grpReply)) = gs.map ackRecord := by
  match gs, hlen with
  | [], _ | [_], _ | [_, _], _ | [_, _, _], _ => rfl

theorem submitGrpAck_grpAckMeta (idle : Bool) (ssi ns nr : UInt32) {gs : List GidRecord}
    (hpos : gs ≠ []) (hlen : gs.length ≤ 3) :
    submitGrpAck idle (grpAckMeta ssi ns nr (gs.map grpReply)) =
      stageRawMm idle ssi (ackBody gs) ns.toUInt8 nr.toUInt8 mlePdMm 0 0 0 := by
  have hbody : ¬ (ackBody gs).length = 0 := by
    rw [length_ackBody hpos hlen]
    omega
  have haccept : (grpAckMeta ssi ns nr (gs.map grpReply)).acceptReject &&& 0x1 = 0 :=
    UInt8.zero_and
  rw [submitGrpAck_eq, metaRecords_grpAckMeta ssi ns nr hlen, haccept]
  exact if_neg hbody

theorem stageRawMm_eq_zero_iff {idle : Bool} {ssi : UInt32} {body : List Bool}
    {ns nr mlePd umt bitmap blAck : UInt8} (h : body.length ≤ 128) {w : List RegWrite} :
    stageRawMm idle ssi body ns nr mlePd umt bitmap blAck = (w, 0) ↔
      idle = true ∧ w = (stageRawMm true ssi body ns nr mlePd umt bitmap blAck).1 := by
  have hlong : ¬ body.length > 128 := Nat.not_lt.2 h
  cases idle with
  | true =>
      have hrc : (stageRawMm true ssi body ns nr mlePd umt bitmap blAck).2 = 0 := by
        rw [stageRawMm, if_neg hlong]
        rfl
      rw [Prod.ext_iff, hrc]
      exact ⟨fun h ↦ ⟨rfl, h.1.symm⟩, fun h ↦ ⟨h.2.symm, rfl⟩⟩
  | false =>
      have hbusy : stageRawMm false ssi body ns nr mlePd umt bitmap blAck = ([], -2) := by
        rw [stageRawMm, if_neg hlong]
        rfl
      rw [hbusy, Prod.ext_iff]
      exact ⟨fun h ↦ absurd h.2 (by simp), fun h ↦ absurd h.1 Bool.false_ne_true⟩

/-- **When a reply is staged, and what the mailbox then shows.** -/
theorem reply_staged_iff (w : List RegWrite) :
    (reactMm7Grpid t nsnr i p).reply = some (w, 0) ↔
      i.idle = true ∧ answered t i p ≠ [] ∧ w = (stageRawMm true p.pduSsi
        (ackBody (answered t i p)) (grpNsnrStep nsnr p.pduSsi).2.1.toUInt8
          (grpNsnrStep nsnr p.pduSsi).2.2.toUInt8 mlePdMm 0 0 0).1 := by
  have hreplies : (grpLoop i p (recordIndices p) t).2 = (answered t i p).map grpReply :=
    grpLoop_replies i p _ t
  have hreply : (reactMm7Grpid t nsnr i p).reply =
      if p.gidCount = 0 ∧ p.gidGroupIdentityReport = 1 ∧ p.gidAttachDetachMode = 0 then none
      else if (grpLoop i p (recordIndices p) t).2.length = 0 then none
      else some (txSubmit i.idle .grpAttachAck (grpAckMeta p.pduSsi (grpNsnrStep nsnr p.pduSsi).2.1
        (grpNsnrStep nsnr p.pduSsi).2.2 (grpLoop i p (recordIndices p) t).2)) := by
    rw [reactMm7Grpid]
    generalize grpLoop i p (recordIndices p) t = loop
    generalize grpNsnrStep nsnr p.pduSsi = step
    obtain ⟨t', replies⟩ := loop
    obtain ⟨nsnr', ns, nr⟩ := step
    dsimp only
    split_ifs <;> rfl
  rw [hreply, hreplies, List.length_map]
  by_cases hnone : answered t i p = []
  · rw [hnone, List.length_nil, if_pos rfl, ite_self]
    exact ⟨(nomatch ·), fun h ↦ absurd rfl h.2.1⟩
  · have hlen := length_answered t i p
    have hcount : ¬ (p.gidCount = 0 ∧ p.gidGroupIdentityReport = 1 ∧ p.gidAttachDetachMode = 0) :=
      fun h ↦ hnone (answered_of_gidCount h.1)
    have hbody : (ackBody (answered t i p)).length ≤ 128 := by
      rw [length_ackBody hnone hlen]
      omega
    rw [if_neg hcount, if_neg fun h ↦ hnone (List.eq_nil_of_length_eq_zero h), Option.some_inj]
    have hsubmit : ∀ req, txSubmit i.idle .grpAttachAck req = submitGrpAck i.idle req := fun _ ↦ rfl
    rw [hsubmit, submitGrpAck_grpAckMeta i.idle _ _ _ hnone hlen, stageRawMm_eq_zero_iff hbody]
    exact and_congr_right fun _ ↦ (and_iff_right hnone).symm

/-! ## What is read -/

/-- The masks of the transport and of the builder lose nothing. -/
theorem attached_ackRecord (g : GidRecord) : attached (ackRecord g) = acknowledged g := by
  have hcls : (ackRecord g).classOfUsage.toBitVec.setWidth 3 =
      (if g.classOfUsage = 0 then 4 else g.classOfUsage).toBitVec.setWidth 3 := by
    change ((if g.classOfUsage ≠ 0 then g.classOfUsage.toUInt32 else 4).toUInt8 &&&
      0x7).toBitVec.setWidth 3 = _
    rw [UInt8.toBitVec_and, setWidth_and _ _ (by decide)]
    by_cases hnone : g.classOfUsage = 0
    · rw [if_neg (not_not.2 hnone), if_pos hnone]
      rfl
    · rw [if_pos hnone, if_neg hnone, UInt8.toUInt8_toUInt32]
  have hgssi : (ackRecord g).gssi.toBitVec.setWidth 24 = g.gssi.toBitVec.setWidth 24 := by
    change (g.gssi &&& 0x00FFFFFF).toBitVec.setWidth 24 = _
    rw [UInt32.toBitVec_and, setWidth_and _ _ (by decide)]
  have hlifetime : (ackRecord g).lifetime.toBitVec.setWidth 2 = 1 := by
    change ((1 : UInt32).toUInt8 &&& 0x3).toBitVec.setWidth 2 = 1
    decide
  rw [attached, acknowledged, hcls, hgssi, hlifetime]

theorem atd_ackRecord {g : GidRecord} (h : g.attachDetach = 0) :
    (ackRecord g).atd.toBitVec.setWidth 1 = 0 := by
  change (g.attachDetach.toUInt32.toUInt8 &&& 0x1).toBitVec.setWidth 1 = 0
  rw [h]
  rfl

theorem addrType_ackRecord {g : GidRecord} (h : InRange g) :
    (ackRecord g).addrType.toBitVec.setWidth 2 = 0 ↔ g.addressType = 0 := by
  have hat := h.addressType
  have hmask : (ackRecord g).addrType.toBitVec.setWidth 2 = g.addressType.toBitVec.setWidth 2 := by
    change (g.addressType.toUInt32.toUInt8 &&& 0x3).toBitVec.setWidth 2 = _
    rw [UInt8.toUInt8_toUInt32, UInt8.toBitVec_and, setWidth_and _ _ (by decide)]
  rw [hmask, ← BitVec.toNat_inj, BitVec.toNat_setWidth, UInt8.toNat_toBitVec, Nat.mod_eq_of_lt hat]
  exact UInt8.toNat_inj (b := 0)

/-- The records that are listed all have a GSSI exactly if all that should be listed are. -/
theorem map_acknowledged_answered :
    (admittedRecords t i p).map acknowledged = (answered t i p).map acknowledged ↔
      ∀ g ∈ admittedRecords t i p, g.gssi ≠ 0 := by
  constructor
  · intro h
    have hlen := congrArg List.length h
    rw [List.length_map, List.length_map] at hlen
    simpa using List.length_filter_eq_length_iff.1 hlen.symm
  · intro h
    rw [answered, List.filter_eq_self.2 (by simpa using h)]

/-- **What a terminal reads of the body is what it should exactly if every group that should be
listed is asked for by its GSSI.** -/
theorem readGroupAck_ackBody (hp : RecordsInRange p) (hpos : answered t i p ≠ []) :
    readGroupAck (ackBody (answered t i p)) =
        some (⟨false, (admittedRecords t i p).map acknowledged⟩, []) ↔
      ∀ g ∈ admittedRecords t i p, g.gssi ≠ 0 ∧ g.addressType = 0 := by
  have hlen := length_answered t i p
  have hadmitted : ∀ g ∈ answered t i p, g.attachDetach = 0 ∧ InRange g := by
    intro g hg
    obtain ⟨hattach, r, rfl⟩ := mem_admittedFrom (List.mem_of_mem_filter hg)
    exact ⟨hattach, hp r⟩
  have hpos' : 0 < ((answered t i p).map ackRecord).length := by
    rw [List.length_map]
    exact List.length_pos_of_ne_nil hpos
  have hlen' : ((answered t i p).map ackRecord).length ≤ 3 := by rwa [List.length_map]
  have hatd : ∀ r ∈ (answered t i p).map ackRecord, r.atd.toBitVec.setWidth 1 = 0 := by
    intro r hr
    obtain ⟨g, hg, rfl⟩ := List.mem_map.1 hr
    exact atd_ackRecord (hadmitted g hg).1
  have hbyGssi : ∀ g ∈ (admittedRecords t i p).map acknowledged, g.ByGssi := by
    intro g hg
    obtain ⟨g, -, rfl⟩ := List.mem_map.1 hg
    exact ⟨_, _, _, rfl⟩
  have hattached : ((answered t i p).map ackRecord).map attached =
      (answered t i p).map acknowledged := by
    rw [List.map_map]
    exact List.map_congr_left fun g _ ↦ attached_ackRecord g
  have hat : (∀ r ∈ (answered t i p).map ackRecord, r.addrType.toBitVec.setWidth 2 = 0) ↔
      ∀ g ∈ answered t i p, g.addressType = 0 := by
    rw [List.forall_mem_map]
    exact forall₂_congr fun g hg ↦ addrType_ackRecord (hadmitted g hg).2
  have hread : readGroupAck (ackBody (answered t i p)) =
        some (⟨false, (admittedRecords t i p).map acknowledged⟩, []) ↔
      readGroups (groupContent ((answered t i p).map ackRecord)) =
        some ((admittedRecords t i p).map acknowledged) := by
    rw [ackBody, readGroupAck_grpackBuild 0 hpos' hlen', Option.map_eq_some_iff]
    constructor
    · rintro ⟨groups, hgroups, heq⟩
      cases heq
      exact hgroups
    · exact fun h ↦ ⟨_, h, rfl⟩
  rw [hread, readGroups_iff hlen' hatd hbyGssi, hattached, hat, map_acknowledged_answered]
  constructor
  · rintro ⟨htype, hgssi⟩ g hg
    exact ⟨hgssi g hg, htype g (List.mem_filter.2 ⟨hg, by simpa using hgssi g hg⟩)⟩
  · intro h
    exact ⟨fun g hg ↦ (h g (List.mem_of_mem_filter hg)).2, fun g hg ↦ (h g hg).1⟩

theorem answered_ne_nil_iff :
    answered t i p ≠ [] ↔ ∃ g ∈ admittedRecords t i p, g.gssi ≠ 0 := by
  rw [answered, Ne, List.filter_eq_nil_iff]
  simp

/-- The groups that should be listed are asked for by their GSSI, if there is a reply at all. -/
def AskedByGssi (t : Subscribers) (i : GrpIdIn) (p : MmDemandParsed) : Prop :=
  i.idle = true → (∃ g ∈ admittedRecords t i p, g.gssi ≠ 0) →
    ∀ g ∈ admittedRecords t i p, g.gssi ≠ 0 ∧ g.addressType = 0

/-- **When the terminal is told what it should be**: for every demand that the walker reads, and
every table, policy and history of sequence numbers, exactly if the groups are asked for by their
GSSI. -/
theorem acknowledges_iff (body : ℕ → UInt8) (pduSsi : UInt32) (t : Subscribers) (nsnr : NsnrTable)
    (i : GrpIdIn) : Acknowledges t nsnr i (parse body 7 pduSsi).2.1 ↔
      AskedByGssi t i (parse body 7 pduSsi).2.1 := by
  have hp := parse_inRange body pduSsi
  revert hp
  generalize (parse body 7 pduSsi).2.1 = p
  intro hp
  rw [AskedByGssi, ← answered_ne_nil_iff]
  have hbody (hpos : answered t i p ≠ []) : (ackBody (answered t i p)).length ≤ 128 := by
    have hlen := length_answered t i p
    rw [length_ackBody hpos hlen]
    omega
  constructor
  · intro h hidle hpos
    obtain ⟨-, hread⟩ := h _ ((reply_staged_iff _).2 ⟨hidle, hpos, rfl⟩) {}
    rw [ReplyMailbox.rawBody_stageRawMm _ (hbody hpos)] at hread
    exact (readGroupAck_ackBody hp hpos).1 hread
  · intro h w hw m
    obtain ⟨hidle, hpos, rfl⟩ := (reply_staged_iff w).1 hw
    rw [ReplyMailbox.rawMmLen_stageRawMm m (hbody hpos),
      ReplyMailbox.rawBody_stageRawMm m (hbody hpos)]
    exact ⟨hbody hpos, (readGroupAck_ackBody hp hpos).2 (h hidle hpos)⟩

example : readGroupAck (ackBody [⟨0, 4, 0, 0x2F4D64⟩]) =
    some (⟨false, [.attach 1 4 (.gssi 0x2F4D64)]⟩, []) := by
  decide +kernel

/-- A terminal leaves one group and asks for another one by its GTSI: the acknowledgement says that
an address extension follows, and there is none. -/
theorem not_acknowledges_gtsi : ¬ Acknowledges noSubscribers (fun _ ↦ 0) { policy := 2 }
    (parse (packed switchGroups.encode) 7 2633617).2.1 := by
  rw [acknowledges_iff]
  intro h
  have hone : (∃ g ∈ admittedRecords noSubscribers { policy := 2 }
      (parse (packed switchGroups.encode) 7 2633617).2.1, g.gssi ≠ 0) ∧
      ¬ ∀ g ∈ admittedRecords noSubscribers { policy := 2 }
        (parse (packed switchGroups.encode) 7 2633617).2.1, g.gssi ≠ 0 ∧ g.addressType = 0 := by
    decide +kernel
  exact hone.2 (h rfl hone.1)

end TetraPhy.Daemon
