import TetraPhy.Sw.DbConsistency

/-!
# Enrolment

The database with its file, as the reactions to mobility demands use it: an identity is looked up,
and one that is not known is put into the table with profile 0, if the policy of its kind lets it.

An enrolment that does not come about leaves table and file as they were (`enrol_cases`).
-/

namespace TetraPhy.Sw

open TetraDb DbTable

/-- The database, its table in order, and its file. -/
@[ext] structure Subscribers where
  db : TetraDb
  disk : Option (List Char)
  consistent : db.Consistent

namespace Subscribers

variable (t : Subscribers) (id : UInt32) (entityType : BitVec 8) (s : SaveIo)

/-- `tetra_db_lookup`. -/
def lookup : Option DbEntry := t.db.lookup id.toBitVec entityType

/-- `tetra_db_alloc`. -/
def alloc (profileId : BitVec 8) : Subscribers × ℤ :=
  let done := t.db.alloc id.toBitVec entityType profileId s
  (⟨done.db, done.file.or t.disk,
      consistent_call (.alloc id.toBitVec entityType profileId s) t.consistent⟩, done.rv)

/-- The identity is known, or is enrolled where that is allowed: the database after it, and whether
the identity is in it. -/
def enrol (allow : Bool) : Subscribers × Bool :=
  if (t.lookup id entityType).isSome then (t, true)
  else if allow then
    let (t', slot) := t.alloc id entityType s 0
    (t', 0 ≤ slot)
  else (t, false)

/-- A new entry has a slot, and what is then saved reaches the file, if there is one. -/
structure HasRoom : Prop where
  free : t.db.firstFree ≠ none
  saves : t.db.path = [] ∨ (s.fopen && s.rename) = true

instance : Decidable (t.HasRoom s) :=
  decidable_of_iff (t.db.firstFree ≠ none ∧ (t.db.path = [] ∨ (s.fopen && s.rename) = true))
    ⟨fun h ↦ ⟨h.1, h.2⟩, fun h ↦ ⟨h.1, h.2⟩⟩

variable {t id entityType s}

/-- A table with a new entry is another one. -/
theorem added_ne {i : Fin 256} (hi : t.db.slotUsed i = false) (e : DbEntry) (g : TetraDb)
    (hg : g.slotUsed = (t.db.added e i).slotUsed) : g ≠ t.db := by
  rintro rfl
  have hused : (t.db.added e i).slotUsed i = true := by simp [added]
  rw [← hg, hi] at hused
  exact Bool.false_ne_true hused

/-- What an allocation does for an identity that is not known. -/
theorem alloc_unknown (htype : entityType ≤ 1) (hnew : t.lookup id entityType = none) :
    (t.HasRoom s → 0 ≤ (t.alloc id entityType s 0).2 ∧ (t.alloc id entityType s 0).1.db ≠ t.db) ∧
      (¬ t.HasRoom s → t.alloc id entityType s 0 = (t, -1)) := by
  have harg : ¬ (1 < entityType ∨ (6 : BitVec 8) ≤ 0) := not_or.2 ⟨BitVec.not_lt.2 htype, by decide⟩
  have hfind : t.db.find (id.toBitVec &&& entityMask) entityType = none := Option.map_eq_none_iff.1 hnew
  have hdone := alloc_eq t.db id.toBitVec entityType 0 s
  rw [if_neg harg, hfind] at hdone
  cases hfree : t.db.firstFree with
  | none =>
      rw [hfree] at hdone
      refine ⟨fun hroom ↦ absurd hfree hroom.free, fun _ ↦ ?_⟩
      simp only [alloc, hdone]
      rfl
  | some i =>
      have hi : t.db.slotUsed i = false := of_firstFree hfree
      have hslot : (0 : ℤ) ≤ (i.val : ℤ) := Int.natCast_nonneg _
      rw [hfree] at hdone
      dsimp only at hdone
      by_cases hpath : t.db.path = []
      · rw [if_pos hpath] at hdone
        refine ⟨fun _ ↦ ?_, fun hroom ↦ absurd ⟨by simp [hfree], .inl hpath⟩ hroom⟩
        simp only [alloc, hdone]
        exact ⟨hslot, added_ne hi _ _ rfl⟩
      · rw [if_neg hpath] at hdone
        cases hok : s.fopen && s.rename with
        | true =>
            rw [hok, if_pos rfl] at hdone
            refine ⟨fun _ ↦ ?_, fun hroom ↦ absurd ⟨by simp [hfree], .inr hok⟩ hroom⟩
            simp only [alloc, hdone]
            exact ⟨hslot, added_ne hi _ _ rfl⟩
        | false =>
            have hback := rollback_added t.consistent hi (newEntry id.toBitVec entityType 0 i)
            rw [hok, if_neg Bool.false_ne_true, hback] at hdone
            refine ⟨fun hroom ↦ absurd hroom.saves (by simp [hpath, hok]), fun _ ↦ ?_⟩
            simp only [alloc, hdone]
            rfl

/-- **What an enrolment can do.** -/
theorem enrol_cases (t : Subscribers) (id : UInt32) {entityType : BitVec 8}
    (htype : entityType ≤ 1) (s : SaveIo) (allow : Bool) :
    t.lookup id entityType ≠ none ∧ t.enrol id entityType s allow = (t, true) ∨
      t.lookup id entityType = none ∧ (allow = true ∧ t.HasRoom s) ∧
        (t.enrol id entityType s allow).2 = true ∧ (t.enrol id entityType s allow).1.db ≠ t.db ∨
      t.lookup id entityType = none ∧ ¬ (allow = true ∧ t.HasRoom s) ∧
        t.enrol id entityType s allow = (t, false) := by
  cases hlookup : t.lookup id entityType with
  | some e =>
      refine .inl ⟨by simp, ?_⟩
      rw [enrol, hlookup]
      rfl
  | none =>
      obtain ⟨hroom, hfull⟩ := alloc_unknown (s := s) htype hlookup
      rw [enrol, hlookup, Option.isSome_none, if_neg Bool.false_ne_true]
      cases allow with
      | false => exact .inr (.inr ⟨rfl, fun h ↦ absurd h.1 Bool.false_ne_true, rfl⟩)
      | true =>
          rw [if_pos rfl]
          by_cases h : t.HasRoom s
          · obtain ⟨hslot, hne⟩ := hroom h
            exact .inr (.inl ⟨rfl, ⟨rfl, h⟩, decide_eq_true hslot, hne⟩)
          · rw [hfull h]
            exact .inr (.inr ⟨rfl, fun h' ↦ h h'.2, rfl⟩)

end Subscribers

end TetraPhy.Sw
