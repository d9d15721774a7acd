import Mathlib.Data.Fintype.Card
import TetraPhy.Sw.TetraDb

/-!
# The database stays consistent

What every load establishes and every call keeps: a slot that is not used holds the zero entry, a
slot that is used holds a legal entry that names it, and the count is the number of used slots.

The only thing `tetra_db_alloc` ever does to the table is to put an entry of an identity it has not
found into a free slot (`alloc_cases`).  A rollback restores the table because free slots are zero.

There is a rollback where `fopen` or `rename` fails.  A save whose writes fail is a success to
`save_tsv`, and the entry stays (`kept_iff`).
-/

namespace TetraPhy.Sw

open Ledger Keyed LossyWriter

namespace DbTable

variable {t u : DbTable}

/-- The entries in use. -/
def occ (t : DbTable) (i : Fin 256) : Option DbEntry :=
  if t.slotUsed i then some (t.entries i) else none

/-- An entry that a slot may hold. -/
structure Legal (i : Fin 256) (e : DbEntry) : Prop where
  slot : e.slot = BitVec.ofNat 8 i
  entityType : e.entityType ≤ 1
  profileId : e.profileId < 6
  entityId : e.entityId &&& entityMask = e.entityId

/-- The table is in order. -/
structure Consistent (t : DbTable) : Prop where
  /-- Free slots are zero. -/
  free : ∀ i, t.slotUsed i = false → t.entries i = {}
  legal : ∀ i, t.slotUsed i = true → Legal i (t.entries i)
  /-- The count is the number of used slots. -/
  count : t.numEntries.toNat = occupied t.occ

theorem occ_eq_some_iff {i : Fin 256} {e : DbEntry} :
    t.occ i = some e ↔ t.slotUsed i = true ∧ t.entries i = e := by
  unfold occ
  split_ifs with h
  · simp [h]
  · simp [h]

theorem occ_eq_none_iff {i : Fin 256} : t.occ i = none ↔ t.slotUsed i = false := by
  unfold occ
  split_ifs with h
  · simp [h]
  · simpa using h

theorem isSome_occ {i : Fin 256} : (t.occ i).isSome = t.slotUsed i := by
  unfold occ
  split_ifs with h
  · exact h.symm
  · exact (Bool.not_eq_true _ ▸ h).symm

theorem occ_put (t : DbTable) (i : Fin 256) (e : DbEntry) :
    (t.put i e).occ = Function.update t.occ i (some e) := by
  funext j
  rcases eq_or_ne j i with rfl | hj
  · simp [occ, put]
  · simp [occ, put, Function.update_of_ne hj]

/-- There are 256 slots. -/
theorem occupied_le (t : DbTable) : occupied t.occ ≤ 256 :=
  (Finset.card_le_univ _).trans_eq (Fintype.card_fin 256)

/-- **What is in use determines a table that is in order.** -/
theorem Consistent.ext_occ (ht : t.Consistent) (hu : u.Consistent) (h : t.occ = u.occ) : t = u := by
  have hused : t.slotUsed = u.slotUsed := by
    funext i
    rw [← isSome_occ, ← isSome_occ, h]
  have hentries : t.entries = u.entries := by
    funext i
    cases hi : t.slotUsed i with
    | false => rw [ht.free i hi, hu.free i (hused ▸ hi)]
    | true => exact (occ_eq_some_iff.1 (h ▸ occ_eq_some_iff.2 ⟨hi, rfl⟩ : u.occ i = _)).2.symm
  have hcount : t.numEntries = u.numEntries :=
    BitVec.eq_of_toNat_eq (by rw [ht.count, hu.count, h])
  cases t
  cases u
  simp_all only

theorem consistent_reset : Consistent reset where
  free _ _ := rfl
  legal i h := absurd h Bool.false_ne_true
  count := by simp [reset, occupied, occ]

/-- **A legal entry keeps the table in order**, in a free slot or a used one. -/
theorem Consistent.put (h : t.Consistent) {i : Fin 256} {e : DbEntry} (he : Legal i e) :
    (t.put i e).Consistent := by
  refine ⟨fun j hj ↦ ?_, fun j hj ↦ ?_, ?_⟩
  · have hji : j ≠ i := by
      rintro rfl
      simp [DbTable.put] at hj
    simp only [DbTable.put, Function.update_of_ne hji] at hj ⊢
    exact h.free j hj
  · rcases eq_or_ne j i with rfl | hji
    · simpa [DbTable.put] using he
    · simp only [DbTable.put, Function.update_of_ne hji] at hj ⊢
      exact h.legal j hj
  · rw [occ_put]
    cases hi : t.slotUsed i with
    | false =>
        have hlt : occupied t.occ + 1 ≤ 256 := by
          rw [← occupied_put (occ_eq_none_iff.2 hi) e, ← occ_put]
          exact occupied_le _
        rw [occupied_put (occ_eq_none_iff.2 hi), ← h.count]
        rw [← h.count] at hlt
        simp only [DbTable.put, hi, Bool.false_eq_true, if_false]
        rw [BitVec.toNat_add, Nat.mod_eq_of_lt (by simp; omega)]
        rfl
    | true =>
        have hsome : ∀ j, ((Function.update t.occ i (some e)) j).isSome = (t.occ j).isSome := by
          intro j
          rcases eq_or_ne j i with rfl | hji
          · simp [isSome_occ, hi]
          · rw [Function.update_of_ne hji]
        simp only [DbTable.put, hi, if_true, h.count, occupied, hsome]

/-- A small word fits a byte. -/
theorem toNat_setWidth_of_lt {x : BitVec 32} (h : x.toNat < 256) :
    (x.setWidth 8).toNat = x.toNat := by
  rw [BitVec.toNat_setWidth]
  exact Nat.mod_eq_of_lt h

theorem legal_of_parseLine {l : List Char} {i : Fin 256} {e : DbEntry}
    (h : parseLine l = .entry i e) : Legal i e := by
  unfold parseLine at h
  split at h
  · cases h
  · split at h
    · cases h
    · next slot eid etype pid _ =>
      split_ifs at h with hslot htype hpid
      obtain ⟨rfl, rfl⟩ := DbRow.entry.inj h
      have htype' : etype.toNat ≤ 1 := BitVec.not_lt.1 htype
      have hpid' : pid.toNat < 6 := BitVec.not_le.1 hpid
      refine ⟨(BitVec.ofNat_toNat 8 slot).symm, ?_, ?_, ?_⟩
      · rw [BitVec.le_def, toNat_setWidth_of_lt (by omega)]
        exact htype'
      · rw [BitVec.lt_def, toNat_setWidth_of_lt (by omega)]
        exact hpid'
      · rw [BitVec.and_assoc, BitVec.and_self]

theorem Consistent.row (h : t.Consistent) (l : List Char) : (t.row l).Consistent := by
  unfold DbTable.row
  split
  · next hl => exact h.put (legal_of_parseLine hl)
  · exact h

theorem Consistent.readFile (h : t.Consistent) (text : List Char) :
    (t.readFile text).Consistent := by
  unfold DbTable.readFile
  induction TextReader.pieces 255 255 text generalizing t with
  | nil => exact h
  | cons l ls ih => exact ih (h.row l)

/-! ### Looking up -/

theorem of_find {i : Fin 256} {entityId : BitVec 32} {entityType : BitVec 8}
    (h : t.find entityId entityType = some i) :
    t.slotUsed i = true ∧ (t.entries i).identity = (entityType, entityId) := by
  have hi := List.find?_some h
  simp only [Bool.and_eq_true, beq_iff_eq] at hi
  exact ⟨hi.1.1, Prod.ext hi.1.2 hi.2⟩

theorem of_find_none {entityId : BitVec 32} {entityType : BitVec 8}
    (h : t.find entityId entityType = none) {j : Fin 256} {e : DbEntry} (hj : t.occ j = some e) :
    e.identity ≠ (entityType, entityId) := by
  obtain ⟨hused, rfl⟩ := occ_eq_some_iff.1 hj
  have hno := List.find?_eq_none.1 h j (List.mem_finRange j)
  rintro heq
  obtain ⟨htype, hid⟩ := Prod.mk.inj heq
  simp [hused, htype, hid] at hno

theorem of_firstFree {i : Fin 256} (h : t.firstFree = some i) : t.slotUsed i = false := by
  have hfree := List.find?_some h
  rwa [Bool.not_eq_true'] at hfree

end DbTable

/-! ## The calls -/

namespace TetraDb

open DbTable

variable {g : TetraDb}

theorem and_entityMask (x : BitVec 32) : x &&& entityMask &&& entityMask = x &&& entityMask := by
  rw [BitVec.and_assoc, BitVec.and_self]

/-- A save replaces the file, or fails and changes nothing. -/
theorem saveTsv_cases (g : TetraDb) (s : SaveIo) :
    (s.fopen && s.rename) = true ∧
        g.saveTsv s =
          ⟨{ g with mtime := s.stat.getD g.mtime }, 0, some (run [] (s.steps g.toDbTable))⟩ ∨
      (s.fopen && s.rename) = false ∧ g.saveTsv s = ⟨g, -1, none⟩ := by
  unfold saveTsv
  cases hf : s.fopen <;> cases hr : s.rename <;> simp

/-- The new entry of `tetra_db_alloc`. -/
def newEntry (entityId : BitVec 32) (entityType profileId : BitVec 8) (slot : Fin 256) : DbEntry where
  entityId := entityId &&& entityMask
  entityType := entityType
  profileId := profileId
  slot := BitVec.ofNat 8 slot

/-- The database with the new entry, before it is saved. -/
def added (g : TetraDb) (e : DbEntry) (slot : Fin 256) : TetraDb :=
  { g with entries := Function.update g.entries slot e,
           slotUsed := Function.update g.slotUsed slot true,
           numEntries := g.numEntries + 1 }

/-- The rollback. -/
def rollback (g : TetraDb) (slot : Fin 256) : TetraDb :=
  { g with entries := Function.update g.entries slot {},
           slotUsed := Function.update g.slotUsed slot false,
           numEntries := g.numEntries - 1 }

theorem added_toDbTable {slot : Fin 256} (hslot : g.slotUsed slot = false) (e : DbEntry) :
    (g.added e slot).toDbTable = g.put slot e := by
  simp [added, DbTable.put, hslot]

/-- **The rollback restores the database**, because a free slot is zero. -/
theorem rollback_added (h : g.Consistent) {slot : Fin 256} (hslot : g.slotUsed slot = false)
    (e : DbEntry) : (g.added e slot).rollback slot = g := by
  have hentries : Function.update g.entries slot {} = g.entries := by
    rw [← h.free slot hslot, Function.update_eq_self]
  have hused : Function.update g.slotUsed slot false = g.slotUsed := by
    rw [← hslot, Function.update_eq_self]
  have hcount : g.numEntries + 1 - 1 = g.numEntries := BitVec.add_sub_cancel _ _
  simp only [rollback, added, Function.update_idem, hentries, hused, hcount]

/-- The end of `tetra_db_alloc`: the save, and the rollback where it fails. -/
theorem saved_eq (n : TetraDb) (s : SaveIo) (i : Fin 256) :
    (let saved := n.saveTsv s
      if saved.rv ≠ 0 then (⟨saved.db.rollback i, -1, none⟩ : Done) else { saved with rv := i }) =
      if s.fopen && s.rename then
        ⟨{ n with mtime := s.stat.getD n.mtime }, i, some (run [] (s.steps n.toDbTable))⟩
      else ⟨n.rollback i, -1, none⟩ := by
  obtain ⟨hok, hsave⟩ | ⟨hok, hsave⟩ := saveTsv_cases n s
  · rw [hsave, if_pos hok]
    rfl
  · rw [hsave, hok]
    rfl

/-- `tetra_db_alloc` by what it finds. -/
theorem alloc_eq (g : TetraDb) (entityId : BitVec 32) (entityType profileId : BitVec 8)
    (s : SaveIo) : g.alloc entityId entityType profileId s =
      if 1 < entityType ∨ 6 ≤ profileId then ⟨g, -1, none⟩
      else match g.find (entityId &&& entityMask) entityType with
        | some i => ⟨g, (g.entries i).slot.toNat, none⟩
        | none => match g.firstFree with
          | none => ⟨g, -1, none⟩
          | some i =>
            let n := g.added (newEntry entityId entityType profileId i) i
            if g.path = [] then ⟨n, i, none⟩
            else if s.fopen && s.rename then
              ⟨{ n with mtime := s.stat.getD g.mtime }, i, some (run [] (s.steps n.toDbTable))⟩
            else ⟨n.rollback i, -1, none⟩ := by
  unfold alloc
  by_cases htype : 1 < entityType
  · rw [if_pos htype, if_pos (.inl htype)]
  by_cases hpid : 6 ≤ profileId
  · rw [if_neg htype, if_pos hpid, if_pos (.inr hpid)]
  rw [if_neg htype, if_neg hpid, if_neg (not_or.2 ⟨htype, hpid⟩), lookup, and_entityMask]
  cases g.find (entityId &&& entityMask) entityType with
  | some i => rfl
  | none =>
      cases g.firstFree with
      | none => rfl
      | some i =>
          by_cases hpath : g.path = []
          · have hpath' : ¬(g.added (newEntry entityId entityType profileId i) i).path ≠ [] :=
              not_not.2 hpath
            exact (if_neg hpath').trans (if_pos hpath).symm
          · have hpath' : (g.added (newEntry entityId entityType profileId i) i).path ≠ [] := hpath
            exact ((if_pos hpath').trans (saved_eq _ s i)).trans (if_neg hpath).symm

/-- **What an allocation can do**: put an entry of an identity that no slot holds into a free
slot, and save the table, or else nothing. -/
theorem alloc_cases (h : g.Consistent) (entityId : BitVec 32) (entityType profileId : BitVec 8)
    (s : SaveIo) :
    ((g.alloc entityId entityType profileId s).db = g ∧
        (g.alloc entityId entityType profileId s).file = none) ∨
      ∃ i e, g.slotUsed i = false ∧ Legal i e ∧
        (∀ j b, g.occ j = some b → b.identity ≠ e.identity) ∧
        (g.alloc entityId entityType profileId s).db.toDbTable = g.put i e ∧
        (g.path = [] ∧ (g.alloc entityId entityType profileId s).file = none ∨
          (s.fopen && s.rename) = true ∧
            (g.alloc entityId entityType profileId s).file =
              some (run [] (s.steps (g.put i e)))) := by
  rw [alloc_eq]
  by_cases harg : 1 < entityType ∨ 6 ≤ profileId
  · rw [if_pos harg]
    exact .inl ⟨rfl, rfl⟩
  rw [if_neg harg]
  rw [not_or] at harg
  cases hfind : g.find (entityId &&& entityMask) entityType with
  | some i => exact .inl ⟨rfl, rfl⟩
  | none =>
      cases hfree : g.firstFree with
      | none => exact .inl ⟨rfl, rfl⟩
      | some i =>
          have hi : g.slotUsed i = false := of_firstFree hfree
          have hadd := added_toDbTable hi (newEntry entityId entityType profileId i)
          have hlegal : Legal i (newEntry entityId entityType profileId i) :=
            ⟨rfl, BitVec.not_lt.1 harg.1, BitVec.not_le.1 harg.2, and_entityMask entityId⟩
          have hfresh : ∀ j b, g.occ j = some b →
              b.identity ≠ (newEntry entityId entityType profileId i).identity :=
            fun j b hj ↦ of_find_none hfind hj
          dsimp only
          split_ifs with hpath hok
          · exact .inr ⟨i, _, hi, hlegal, hfresh, hadd, .inl ⟨hpath, rfl⟩⟩
          · exact .inr ⟨i, _, hi, hlegal, hfresh, hadd, .inr ⟨hok, by rw [hadd]⟩⟩
          · exact .inl ⟨rollback_added h hi _, rfl⟩

/-! ### Saves that fail -/

/-- A call of the save fails: that of `fopen`, of `rename`, or one in between. -/
def SaveIo.Fails (s : SaveIo) (t : DbTable) : Prop :=
  s.fopen = false ∨ s.rename = false ∨ ∃ step ∈ s.steps t, step.2 ≠ none

/-- One of `n` calls of `fprintf` fails, or what follows them. -/
def SaveIo.WriteFails (s : SaveIo) (n : ℕ) : Prop :=
  (∃ k < n, s.fprintf k ≠ none) ∨ s.fflush ≠ none ∨ s.fsync ≠ none ∨ s.fclose ≠ none

theorem SaveIo.writeFails_iff (s : SaveIo) (t : DbTable) :
    s.WriteFails t.chunks.length ↔ ∃ step ∈ s.steps t, step.2 ≠ none := by
  have hlines : (∃ k < t.chunks.length, s.fprintf k ≠ none) ↔
      ∃ step ∈ t.chunks.zipIdx.map fun line ↦ (line.1, s.fprintf line.2), step.2 ≠ none := by
    constructor
    · rintro ⟨k, hk, hfail⟩
      have hmem := List.mk_mem_zipIdx_iff_getElem?.2 (List.getElem?_eq_getElem hk)
      exact ⟨_, List.mem_map_of_mem hmem, hfail⟩
    · rintro ⟨step, hstep, hfail⟩
      obtain ⟨⟨chunk, k⟩, hmem, rfl⟩ := List.mem_map.1 hstep
      have hk := List.mk_mem_zipIdx_iff_getElem?.1 hmem
      exact ⟨k, (List.getElem?_eq_some_iff.1 hk).1, hfail⟩
  simp only [WriteFails, hlines, steps, List.mem_append, or_and_right, exists_or, List.mem_cons,
    List.not_mem_nil, or_false, exists_eq_left]

/-- Three lines of comments, and one for each slot in use. -/
theorem length_chunks (t : DbTable) : t.chunks.length = 3 + occupied t.occ := by
  have hcard : ((List.finRange 256).filter t.slotUsed).length = occupied t.occ := by
    simp only [occupied, isSome_occ]
    exact (List.toFinset_card_of_nodup ((List.nodup_finRange 256).filter _)).symm.trans
      (congrArg Finset.card (by ext i; simp))
  rw [DbTable.chunks, List.length_append, List.length_map, hcard]
  rfl

/-- The allocation puts a new entry into slot `i`, and saves the table. -/
structure Adds (g : TetraDb) (entityId : BitVec 32) (entityType profileId : BitVec 8)
    (i : Fin 256) : Prop where
  legal : ¬(1 < entityType ∨ 6 ≤ profileId)
  unknown : g.find (entityId &&& entityMask) entityType = none
  free : g.firstFree = some i
  path : g.path ≠ []

theorem Adds.alloc_eq {entityId : BitVec 32} {entityType profileId : BitVec 8} {i : Fin 256}
    (h : g.Adds entityId entityType profileId i) (s : SaveIo) :
    (g.alloc entityId entityType profileId s).db =
      if s.fopen && s.rename then
        { g.added (newEntry entityId entityType profileId i) i with mtime := s.stat.getD g.mtime }
      else (g.added (newEntry entityId entityType profileId i) i).rollback i := by
  rw [TetraDb.alloc_eq, if_neg h.legal, h.unknown]
  simp only [h.free, if_neg h.path]
  split_ifs <;> rfl

/-- **An allocation of a known identity returns its slot and changes nothing.** -/
theorem alloc_known (h : g.Consistent) {i : Fin 256} {e : DbEntry} (hi : g.occ i = some e)
    {entityId : BitVec 32} (hid : entityId &&& entityMask = e.entityId) {profileId : BitVec 8}
    (hpid : profileId < 6) (s : SaveIo) :
    ∃ j b, g.occ j = some b ∧ b.identity = e.identity ∧
      g.alloc entityId e.entityType profileId s = ⟨g, j.val, none⟩ := by
  obtain ⟨hused, rfl⟩ := occ_eq_some_iff.1 hi
  have htype := (h.legal i hused).entityType
  rw [alloc_eq, if_neg (not_or.2 ⟨BitVec.not_lt.2 htype, BitVec.not_le.2 hpid⟩), hid]
  cases hfind : g.find (g.entries i).entityId (g.entries i).entityType with
  | none => exact absurd rfl (of_find_none hfind hi)
  | some j =>
      obtain ⟨hj, hkey⟩ := of_find hfind
      refine ⟨j, _, occ_eq_some_iff.2 ⟨hj, rfl⟩, hkey, ?_⟩
      have hslot : (g.entries j).slot.toNat = j := by
        rw [(h.legal j hj).slot, BitVec.toNat_ofNat, Nat.mod_eq_of_lt j.isLt]
      simp only [hslot]

/-! ## Runs -/

/-- A call of the daemon. -/
inductive Call where
  | lookup (entityId : BitVec 32) (entityType : BitVec 8)
  | alloc (entityId : BitVec 32) (entityType profileId : BitVec 8) (save : SaveIo)

/-- The database after a call. -/
def call (g : TetraDb) : Call → TetraDb
  | .lookup _ _ => g
  | .alloc entityId entityType profileId s => (g.alloc entityId entityType profileId s).db

theorem consistent_load (path : Option (List Char)) (f : Opened) (stat : Option ℤ) :
    (load path f stat).db.Consistent := by
  cases f with
  | text s => exact consistent_reset.readFile s
  | enoent => exact consistent_reset
  | error => exact consistent_reset

/-- A file that cannot be read leaves nothing. -/
theorem occ_load (path : Option (List Char)) {f : Opened} (hf : ∀ s, f ≠ .text s)
    (stat : Option ℤ) (i : Fin 256) : (load path f stat).db.occ i = none := by
  cases f with
  | text s => exact absurd rfl (hf s)
  | enoent => rfl
  | error => rfl

theorem consistent_call (c : Call) (h : g.Consistent) : (g.call c).Consistent := by
  cases c with
  | lookup => exact h
  | alloc entityId entityType profileId s =>
      obtain ⟨hdb, -⟩ | ⟨i, e, -, hlegal, -, hput, -⟩ :=
        alloc_cases h entityId entityType profileId s
      · exact (congrArg (DbTable.Consistent ·.toDbTable) hdb).mpr h
      · exact (congrArg DbTable.Consistent hput).mpr (h.put hlegal)

/-- **No call makes twins.** -/
theorem twins_call (c : Call) (h : g.Consistent) {i j : Fin 256}
    (ht : Twins DbEntry.identity (g.call c).occ i j) : Twins DbEntry.identity g.occ i j := by
  cases c with
  | lookup => exact ht
  | alloc entityId entityType profileId s =>
      obtain ⟨hdb, -⟩ | ⟨k, e, -, -, hfresh, hput, -⟩ :=
        alloc_cases h entityId entityType profileId s
      · rwa [call, hdb] at ht
      · rw [call, hput, occ_put] at ht
        exact ht.of_put hfresh

theorem consistent_run (h : g.Consistent) (calls : List Call) :
    Run.Throughout call (fun d ↦ d.Consistent) g calls :=
  Run.throughout_of_step call (P := fun d ↦ d.Consistent) (fun _ c hd ↦ consistent_call c hd) h calls

/-- Twins at the end of a run were there at its start. -/
theorem twins_run (h : g.Consistent) (calls : List Call) {i j : Fin 256}
    (ht : Twins DbEntry.identity (Run.exec call g calls).occ i j) :
    Twins DbEntry.identity g.occ i j := by
  induction calls generalizing g with
  | nil => exact ht
  | cons c calls ih => exact twins_call c h (ih (consistent_call c h) ht)

/-- An allocation whose save fails leaves the table as it was. -/
def Kept (g : TetraDb) : Call → Prop
  | .lookup _ _ => True
  | .alloc entityId entityType profileId s => ∀ i, g.Adds entityId entityType profileId i →
      s.Fails (g.put i (newEntry entityId entityType profileId i)) →
        (g.alloc entityId entityType profileId s).db.toDbTable = g.toDbTable

/-- Between an `fopen` and a `rename` that succeed no write fails: the comments, the entries and the
new one, and what brings them to the disk. -/
def Noticed (g : TetraDb) : Call → Prop
  | .lookup _ _ => True
  | .alloc entityId entityType profileId s => ∀ i, g.Adds entityId entityType profileId i →
      s.fopen = true → s.rename = true → ¬s.WriteFails (3 + g.numEntries.toNat + 1)

/-- **The allocations that notice when their save fails.** -/
theorem kept_iff (h : g.Consistent) (c : Call) : g.Kept c ↔ g.Noticed c := by
  cases c with
  | lookup => exact Iff.rfl
  | alloc entityId entityType profileId s =>
      refine forall_congr' fun i ↦ forall_congr' fun ha ↦ ?_
      have hi : g.slotUsed i = false := of_firstFree ha.free
      have hlen : (g.put i (newEntry entityId entityType profileId i)).chunks.length =
          3 + g.numEntries.toNat + 1 := by
        rw [length_chunks, occ_put, occupied_put (occ_eq_none_iff.2 hi), h.count, Nat.add_assoc]
      have hput : g.put i (newEntry entityId entityType profileId i) ≠ g.toDbTable := by
        intro heq
        have hused := congrFun (congrArg DbTable.slotUsed heq) i
        simp [DbTable.put, hi] at hused
      rw [ha.alloc_eq, SaveIo.Fails, ← SaveIo.writeFails_iff, hlen]
      cases hopen : s.fopen with
      | false => simp [rollback_added h hi]
      | true =>
          cases hrename : s.rename with
          | false => simp [rollback_added h hi]
          | true => simp [added_toDbTable hi, hput]

/-- **The database is consistent** after every load and throughout every run of lookups and
allocations, whatever becomes of the saves.

* The count is the number of used slots, of which there are 256 at most.
* An identity that is in two slots was in both of them in the file already, and none is if no file
  was read.
* An allocation of a known identity returns a slot of it and changes nothing.

An allocation whose save fails leaves the table as it was **exactly if** what fails is not a write
between an `fopen` and a `rename` that succeed. -/
theorem subscribers_consistent_iff (path : Option (List Char)) (f : Opened) (stat : Option ℤ)
    (calls : List Call) :
    let start := (load path f stat).db
    let g := Run.exec call start calls
    Run.Throughout call
      (fun d ↦ d.Consistent ∧ d.numEntries.toNat = occupied d.occ ∧ d.numEntries.toNat ≤ 256)
      start calls ∧
    (∀ i j, Twins DbEntry.identity g.occ i j → Twins DbEntry.identity start.occ i j) ∧
    ((∀ s, f ≠ .text s) → Distinct DbEntry.identity g.occ) ∧
    (∀ i e entityId profileId s, g.occ i = some e → entityId &&& entityMask = e.entityId →
      profileId < 6 → ∃ j b, g.occ j = some b ∧ b.identity = e.identity ∧
        g.alloc entityId e.entityType profileId s = ⟨g, j.val, none⟩) ∧
    (Run.Along call Kept start calls ↔ Run.Along call Noticed start calls) := by
  intro start g
  have hstart : start.Consistent := consistent_load path f stat
  have hrun := consistent_run hstart calls
  have hg : g.Consistent := hrun.last
  have htwins : ∀ i j, Twins DbEntry.identity g.occ i j → Twins DbEntry.identity start.occ i j :=
    fun i j ht ↦ twins_run hstart calls ht
  refine ⟨hrun.imp call fun d hd ↦ ⟨hd, hd.count, hd.count.trans_le d.occupied_le⟩, htwins,
    ?_, ?_, ?_⟩
  · intro hf i j ht
    obtain ⟨-, a, -, ha, -⟩ := htwins i j ht
    exact absurd (ha.symm.trans (occ_load path hf stat i)) (by simp)
  · exact fun i e entityId profileId s hi hid hpid ↦ alloc_known hg hi hid hpid s
  · exact Run.along_congr call (I := fun d ↦ d.Consistent) (fun _ c hd ↦ consistent_call c hd)
      (fun _ c hd ↦ kept_iff hd c) hstart calls

/-- The disk is full: the file can be made, and renamed, and nothing that was buffered reaches
it. -/
def diskFull : SaveIo := { fflush := some (.all Char), fclose := some (.all Char) }

/-- A subscriber is enrolled twice, and the next one while no file can be made. -/
theorem subscribers_consistent_twice :
    let g := Run.exec call (load none .enoent none).db [.alloc 2633617 0 0 {}]
    (∃ j b, g.occ j = some b ∧ b.identity = (0, 2633617) ∧
        g.alloc 2633617 0 0 {} = ⟨g, j.val, none⟩) ∧
      Run.Along call Kept (load none .enoent none).db
        [.alloc 2633617 0 0 {}, .alloc 3100001 1 0 { fopen := false }] := by
  intro g
  obtain ⟨-, -, -, hknown, -⟩ :=
    subscribers_consistent_iff none .enoent none [.alloc 2633617 0 0 {}]
  obtain ⟨-, -, -, -, hkept⟩ := subscribers_consistent_iff none .enoent none
    [.alloc 2633617 0 0 {}, .alloc 3100001 1 0 { fopen := false }]
  have hocc : g.occ ⟨0, by decide⟩ =
      some { entityId := 2633617, entityType := 0, profileId := 0, slot := 0 } := by
    decide +kernel
  refine ⟨hknown _ _ 2633617 0 {} hocc (by decide) (by decide), hkept.2 ⟨?_, ?_, trivial⟩⟩
  · rintro i - - - (⟨_, _, hfail⟩ | hfail | hfail | hfail) <;> exact hfail rfl
  · rintro i - ⟨⟩

/-- The first subscriber is enrolled while the disk is full: a success, and the entry stays. -/
theorem not_kept_diskFull :
    ((load none .enoent none).db.alloc 2633617 0 0 diskFull).rv = 0 ∧
      ¬Run.Along call Kept (load none .enoent none).db [.alloc 2633617 0 0 diskFull] := by
  refine ⟨by decide +kernel, fun h ↦ ?_⟩
  have hadds : (load none .enoent none).db.Adds 2633617 0 0 0 :=
    ⟨by decide, by decide +kernel, by decide +kernel, by decide⟩
  have hfails : diskFull.Fails
      ((load none .enoent none).db.put 0 (newEntry 2633617 0 0 0)) :=
    .inr (.inr ⟨([], diskFull.fflush), List.mem_append_right _ List.mem_cons_self,
      Option.some_ne_none _⟩)
  have hcount := congrArg DbTable.numEntries (h.1 0 hadds hfails)
  exact absurd hcount (by decide +kernel)

end TetraDb

end TetraPhy.Sw
