import TetraPhy.Sw.Enrolment
import TetraPhy.Sw.MmDemandParser
import TetraPhy.Sw.TxTransport

/-!
# Registration

`react_mm2_locupd` of `tetra_attach_daemon.c` answers a U-LOCATION-UPDATE-DEMAND.

| looked up                     | enrolled by  | if it is neither known nor enrolled |
|-------------------------------|--------------|-------------------------------------|
| the ISSI                      | policy bit 0 | the registration is rejected        |
| the GSSI of the group demand  | policy bit 1 | the fallback group is taken         |

The elements of the reply and the late entry look at the decision about the ISSI, the loop over the
groups does not.  **`rejected_unchanged_iff`** says when a rejected terminal leaves an entry behind.
-/

namespace TetraPhy.Daemon

open Sw TetraDb

/-- `DB_POLICY_ACCEPT_UNKNOWN_ISSI`. -/
def dbPolicyAcceptUnknownIssi : UInt32 := (1 : UInt32) <<< 0

/-- `DB_POLICY_ACCEPT_UNKNOWN_GSSI`. -/
def dbPolicyAcceptUnknownGssi : UInt32 := (1 : UInt32) <<< 1

/-- `M2_FALLBACK_GILA_GSSI`. -/
def m2FallbackGilaGssi : UInt32 := 0x2F4D61

/-- `tetra_db_profile`. -/
def dbProfile (g : TetraDb) (profileId : BitVec 8) : Option DbProfile :=
  if h : profileId.toNat < 6 then some (g.profiles ⟨profileId.toNat, h⟩) else none

/-- What a reaction reads: two registers, the demand, what the file system answers to a save of
either entry, and whether the reply mailbox goes idle. -/
structure LocUpdIn where
  cellLa : UInt32
  policy : UInt32
  demand : MmDemandParsed
  saveIssi : SaveIo := {}
  saveGssi : SaveIo := {}
  idle : Bool := true

/-- What it leaves, the reply it submits, and the group whose call is sent after it. -/
structure LocUpdDone where
  subscribers : Subscribers
  cls : TxPduClass
  req : TxPduMeta
  reply : List RegWrite × Int
  lateEntry : Option UInt32

namespace LocUpdIn

variable (i : LocUpdIn)

/-- `allow_issi`. -/
def allowIssi : Bool := i.policy &&& dbPolicyAcceptUnknownIssi != 0

/-- `allow_gssi`. -/
def allowGssi : Bool := i.policy &&& dbPolicyAcceptUnknownGssi != 0

/-- `gssi[]`, as far as it counts. -/
def wishes : List UInt32 :=
  [i.demand.gildGssi, 0, 0].take (if i.demand.gildValid ≠ 0 then 1 else 0)

end LocUpdIn

/-- The loop over the groups: it ends at the first that is known or enrolled. -/
def gssiLoop (allow : Bool) (s : SaveIo) : List UInt32 → Subscribers → Subscribers × Option UInt32
  | [], t => (t, none)
  | gssi :: rest, t =>
      if gssi = 0 then gssiLoop allow s rest t
      else
        let (t', hit) := t.enrol gssi 1 s allow
        if hit then (t', some gssi) else gssiLoop allow s rest t'

/-- `stage_accept_body`. -/
def stageAcceptBody (ssi la result locAccType gilaGssi gilaClass gilaLifetime gilaPresent : UInt32) :
    TxPduClass × TxPduMeta :=
  (if result = 0 then .luAccept else .luReject,
    { targetSsi := ssi
      la := la.toUInt16
      result := result.toUInt8
      locAccType := (locAccType &&& 0x7).toUInt8
      gilaGssi
      gilaClass := gilaClass.toUInt8
      gilaLifetime := gilaLifetime.toUInt8
      gilaPresent := gilaPresent.toUInt8
      encryption := 0
      authResult := 1 })

/-- `react_mm2_locupd`. -/
def reactMm2Locupd (t : Subscribers) (i : LocUpdIn) : LocUpdDone :=
  let ssi := i.demand.pduSsi
  let (t₁, registered) := t.enrol ssi 0 i.saveIssi i.allowIssi
  let result : UInt32 := if registered then 0 else 1
  let profile := dbProfile t₁.db ((t.lookup ssi 0).elim 0 DbEntry.profileId)
  let (t₂, resolved) := gssiLoop i.allowGssi i.saveGssi i.wishes t₁
  let gilaGssi := if result = 0 then resolved.getD m2FallbackGilaGssi else 0
  let (cls, req) := stageAcceptBody ssi (i.cellLa &&& 0x3FFF) result
    i.demand.locationUpdateType.toUInt32 gilaGssi
    (if result = 0 then profile.elim 4 (·.gilaClass.toNat.toUInt32) else 0)
    (if result = 0 then profile.elim 1 (·.gilaLifetime.toNat.toUInt32) else 0)
    (if result = 0 then 1 else 0)
  { subscribers := t₂
    cls, req
    reply := txSubmit i.idle cls req
    lateEntry := if result = 0 ∧ resolved.isSome ∧ gilaGssi ≠ 0 then some gilaGssi else none }

/-! ## What a reject leaves -/

/-- **A rejected registration changes nothing**: if the answer is a reject, table and file are what
they were, and no late entry is sent. -/
def RejectedUnchanged (t : Subscribers) (i : LocUpdIn) : Prop :=
  (reactMm2Locupd t i).cls = .luReject →
    (reactMm2Locupd t i).subscribers = t ∧ (reactMm2Locupd t i).lateEntry = none

/-- The terminal is refused, and the group it asks for is not known and can be enrolled. -/
structure Leaks (t : Subscribers) (i : LocUpdIn) : Prop where
  unknown : t.lookup i.demand.pduSsi 0 = none
  refused : ¬ (i.allowIssi = true ∧ t.HasRoom i.saveIssi)
  wishes : i.demand.gildValid ≠ 0 ∧ i.demand.gildGssi ≠ 0
  newGroup : t.lookup i.demand.gildGssi 1 = none
  enrolled : i.allowGssi = true ∧ t.HasRoom i.saveGssi

variable {t : Subscribers} {i : LocUpdIn}

/-- The loop has one group at most. -/
theorem gssiLoop_wishes (t : Subscribers) (i : LocUpdIn) :
    gssiLoop i.allowGssi i.saveGssi i.wishes t =
      if i.demand.gildValid ≠ 0 ∧ i.demand.gildGssi ≠ 0 then
        let (t', hit) := t.enrol i.demand.gildGssi 1 i.saveGssi i.allowGssi
        (t', if hit then some i.demand.gildGssi else none)
      else (t, none) := by
  by_cases hvalid : i.demand.gildValid ≠ 0
  · have hwishes : i.wishes = [i.demand.gildGssi] := by rw [LocUpdIn.wishes, if_pos hvalid]; rfl
    by_cases hgssi : i.demand.gildGssi = 0
    · rw [hwishes, gssiLoop, if_pos hgssi, if_neg fun h ↦ h.2 hgssi]
      rfl
    · rw [hwishes, gssiLoop, if_neg hgssi, if_pos ⟨hvalid, hgssi⟩]
      dsimp only
      split_ifs <;> rfl
  · have hwishes : i.wishes = [] := by rw [LocUpdIn.wishes, if_neg hvalid]; rfl
    rw [hwishes, if_neg fun h ↦ hvalid h.1]
    rfl

/-- What the loop leaves of the database. -/
theorem gssiLoop_subscribers (t : Subscribers) (i : LocUpdIn) :
    (gssiLoop i.allowGssi i.saveGssi i.wishes t).1 = t ↔
      ¬ ((i.demand.gildValid ≠ 0 ∧ i.demand.gildGssi ≠ 0) ∧
        t.lookup i.demand.gildGssi 1 = none ∧ i.allowGssi = true ∧ t.HasRoom i.saveGssi) := by
  rw [gssiLoop_wishes]
  split_ifs with hwish
  · obtain ⟨hknown, henrol⟩ | ⟨hnew, hcan, -, hne⟩ | ⟨-, hcannot, henrol⟩ :=
      t.enrol_cases i.demand.gildGssi (by decide : (1 : BitVec 8) ≤ 1) i.saveGssi i.allowGssi
    · rw [henrol]
      exact ⟨fun _ h ↦ hknown h.2.1, fun _ ↦ rfl⟩
    · exact ⟨fun h ↦ absurd (congrArg Subscribers.db h) hne, fun h ↦ absurd ⟨hwish, hnew, hcan⟩ h⟩
    · rw [henrol]
      exact ⟨fun _ h ↦ hcannot h.2.2, fun _ ↦ rfl⟩
  · exact ⟨fun _ h ↦ hwish h.1, fun _ ↦ rfl⟩

/-- A terminal that is known, or enrolled, is accepted. -/
theorem cls_of_registered (h : (t.enrol i.demand.pduSsi 0 i.saveIssi i.allowIssi).2 = true) :
    (reactMm2Locupd t i).cls = .luAccept := by
  simp only [reactMm2Locupd, stageAcceptBody, h, if_true]

/-- Another is rejected, and then nothing but the loop over the groups has touched the database. -/
theorem react_of_refused (h : t.enrol i.demand.pduSsi 0 i.saveIssi i.allowIssi = (t, false)) :
    (reactMm2Locupd t i).cls = .luReject ∧ (reactMm2Locupd t i).lateEntry = none ∧
      (reactMm2Locupd t i).subscribers = (gssiLoop i.allowGssi i.saveGssi i.wishes t).1 := by
  have hone : ¬ (1 : UInt32) = 0 := by decide
  simp only [reactMm2Locupd, stageAcceptBody, h, Bool.false_eq_true, if_false, hone, false_and,
    and_self]

/-- **When a rejected registration changes nothing**: unless the refused terminal asks for a group
that is enrolled for it. -/
theorem rejected_unchanged_iff (t : Subscribers) (i : LocUpdIn) :
    RejectedUnchanged t i ↔ ¬ Leaks t i := by
  obtain ⟨hknown, henrol⟩ | ⟨-, hcan, hhit, -⟩ | ⟨hunknown, hcannot, henrol⟩ :=
    t.enrol_cases i.demand.pduSsi (by decide : (0 : BitVec 8) ≤ 1) i.saveIssi i.allowIssi
  · have haccept := cls_of_registered (i := i) (congrArg Prod.snd henrol)
    exact ⟨fun _ hleak ↦ hknown hleak.unknown, fun _ h ↦ absurd (haccept.symm.trans h) (by decide)⟩
  · have haccept := cls_of_registered (i := i) hhit
    exact ⟨fun _ hleak ↦ hleak.refused hcan, fun _ h ↦ absurd (haccept.symm.trans h) (by decide)⟩
  · obtain ⟨hcls, hlate, hsubs⟩ := react_of_refused henrol
    have hunchanged : RejectedUnchanged t i ↔
        (gssiLoop i.allowGssi i.saveGssi i.wishes t).1 = t := by
      rw [RejectedUnchanged, hsubs]
      exact ⟨fun h ↦ (h hcls).1, fun h _ ↦ ⟨h, hlate⟩⟩
    rw [hunchanged, gssiLoop_subscribers]
    refine not_congr ⟨fun ⟨hwish, hnew, hcan⟩ ↦ ⟨hunknown, hcannot, hwish, hnew, hcan⟩, fun hleak ↦ ?_⟩
    exact ⟨hleak.wishes, hleak.newGroup, hleak.enrolled⟩

/-- No file, no entries. -/
def noSubscribers : Subscribers :=
  ⟨(load none .enoent none).db, none, consistent_load none .enoent none⟩

/-- Unknown terminals are refused and unknown groups are not: terminal 2700001 is rejected, and
group 3100001 is in the table. -/
theorem not_rejectedUnchanged_group : ¬ RejectedUnchanged noSubscribers
    { cellLa := 0, policy := 2,
      demand := { pduSsi := 2700001, gildValid := 1, gildGssi := 3100001 } } := by
  rw [rejected_unchanged_iff, not_not]
  refine ⟨?_, ?_, ?_, ?_, ?_, ?_⟩
  all_goals decide +kernel

end TetraPhy.Daemon
