import TetraPhy.Sw.DbConsistency
import TetraPhy.Lib.LossyWriter
import TetraPhy.Sw.TetraDb

/-!
# Saving on a failing disk

`save_tsv` writes `<path>.tmp` and renames it over the database file.  It looks at what `fopen` and
`rename` answer, and at nothing that `fprintf`, `fflush`, `fsync` and `fclose` do in between: when
the disk is full, a file that lost its lines replaces the database, and the save is a success.

The steps in between are a `LossyWriter`.  With none of them failing, the file is the text of the
table (`run_steps`).
-/

namespace TetraPhy.Sw

open LossyWriter

namespace TetraDb

variable (g : TetraDb) (io : SaveIo) (disk : Option (List Char))

/-- **The save is atomic**: the file is the old one or the whole new one, and a success is the
new one. -/
def SaveAtomic : Prop :=
  let left := (g.saveTsv io).file.or disk
  (left = disk ∨ left = some g.text) ∧ ((g.saveTsv io).rv = 0 → left = some g.text)

/-- No step in between loses anything of the text. -/
def SaveKeeps : Prop := Keeps [] (io.steps g.toDbTable)

variable {g io disk}

theorem meant_steps (io : SaveIo) (t : DbTable) : meant (io.steps t) = t.text := by
  have hfst : (t.chunks.zipIdx.map fun line ↦ (line.1, io.fprintf line.2)).map Prod.fst =
      t.chunks := by
    rw [List.map_map]
    exact List.zipIdx_map_fst 0 t.chunks
  rw [meant, SaveIo.steps, List.map_append, hfst, List.flatten_append, DbTable.chunks,
    List.flatten_append, DbTable.text, List.flatMap]
  exact List.append_nil _

/-- What replaces the file is the text exactly if nothing was lost. -/
theorem run_steps_iff : run [] (io.steps g.toDbTable) = g.text ↔ g.SaveKeeps io := by
  rw [SaveKeeps, ← run_eq_iff, meant_steps, List.nil_append]

/-- When the steps in between succeed, the file is the text. -/
theorem run_steps (s : SaveIn) (t : DbTable) :
    run [] (SaveIo.steps { toSaveIn := s } t) = t.text := by
  rw [← meant_steps { toSaveIn := s } t]
  refine run_eq_iff.2 (keeps_of_none fun step hstep ↦ ?_)
  obtain hstep | hstep := List.mem_append.1 hstep
  · obtain ⟨chunk, -, rfl⟩ := List.mem_map.1 hstep
    rfl
  · simp only [List.mem_cons, List.not_mem_nil, or_false] at hstep
    obtain rfl | rfl | rfl := hstep <;> rfl

/-- **The saves that are atomic.** -/
theorem saveAtomic_iff (g : TetraDb) (io : SaveIo) (disk : Option (List Char)) :
    g.SaveAtomic io disk ↔ (io.fopen = true → io.rename = true → g.SaveKeeps io) := by
  rw [SaveAtomic, saveTsv]
  cases hopen : io.fopen with
  | false => simp
  | true =>
      cases hrename : io.rename with
      | false => simp
      | true =>
          simp only [if_true, Option.some_or, Option.some.injEq, run_steps_iff, forall_const]
          exact ⟨fun h ↦ h.2, fun h ↦ ⟨.inr h, h⟩⟩

/-! ## A full disk -/

theorem saveTsv_diskFull (g : TetraDb) :
    (g.saveTsv diskFull).rv = 0 ∧ (g.saveTsv diskFull).file = some [] := by
  refine ⟨rfl, ?_⟩
  change some (run [] (diskFull.steps g.toDbTable)) = _
  rw [SaveIo.steps, run_append]
  rfl

theorem text_ne_nil (t : DbTable) : t.text ≠ [] :=
  List.append_ne_nil_of_left_ne_nil (by decide) _

/-- A database of one subscriber: the save succeeds, and the file is empty. -/
theorem not_saveAtomic_diskFull :
    ¬ (load none (.text "1\t2700001\t0\t0\n".toList) none).db.SaveAtomic diskFull
      (some "1\t2700001\t0\t0\n".toList) := by
  intro h
  obtain ⟨hrv, hfile⟩ := saveTsv_diskFull (load none (.text "1\t2700001\t0\t0\n".toList) none).db
  have htext := h.2 hrv
  rw [hfile] at htext
  exact text_ne_nil _ (Option.some.inj htext).symm

end TetraDb

end TetraPhy.Sw

/-!
# The file of the subscriber database

`save_tsv` writes comments and one line a slot, and `read_file` takes the lines in one by one.  A
line of a legal entry is read back as that entry, so the file of a table that is in order is read
back as the table (`readFile_text`).

A reload empties the table before it opens the file.
-/

namespace TetraPhy.Sw

open Ledger TextReader

namespace DbTable

variable {t : DbTable}

/-! ## One line -/

theorem scanU_print {sp : List Char} (hsp : ∀ c ∈ sp, isSpace c) {n : ℕ} (hn : n ≤ 4294967295)
    {s : List Char} (hs : ∀ c ∈ s.head?, c.isDigit = false) :
    scanU (sp ++ print n ++ s) = some (BitVec.ofNat 32 n, s) := by
  rw [scanU, scan_print hsp n hs, Option.map_some]
  simp only [if_pos hn, Bool.false_eq_true, if_false]

/-- A number behind a tab. -/
theorem scanU_tab {n : ℕ} (hn : n ≤ 4294967295) {s : List Char}
    (hs : ∀ c ∈ s.head?, c.isDigit = false) :
    scanU ('\t' :: print n ++ s) = some (BitVec.ofNat 32 n, s) :=
  @scanU_print ['\t'] (List.forall_mem_singleton.2 rfl) n hn s hs

/-- The characters of a line are digits, tabs and its newline. -/
theorem mem_line {i : Fin 256} {c : Char} (h : c ∈ t.line i) :
    c.isDigit ∨ c = '\t' ∨ c = '\n' := by
  have hdigit : ∀ n, c ∈ print n → c.isDigit ∨ c = '\t' ∨ c = '\n' :=
    fun n hc ↦ .inl (isDigit_of_mem_print hc)
  simp only [line, List.mem_append, List.mem_cons, List.not_mem_nil, or_false] at h
  obtain ((((h | h | h) | h | h) | h | h) | h) := h
  all_goals first | exact hdigit _ h | exact .inr (.inl h) | exact .inr (.inr h)

theorem stripComment_line (t : DbTable) (i : Fin 256) : stripComment (t.line i) = t.line i := by
  refine List.takeWhile_eq_self_iff.2 fun c hc ↦ ?_
  obtain hd | rfl | rfl := mem_line hc
  · have hnul : c ≠ Char.ofNat 0 := by
      rintro rfl
      exact absurd hd (by decide)
    have hhash : c ≠ '#' := by
      rintro rfl
      exact absurd hd (by decide)
    simp [hnul, hhash]
  · decide
  · decide

/-- A line begins with a digit. -/
theorem dropWhile_line (t : DbTable) (i : Fin 256) : (t.line i).dropWhile isBlank = t.line i := by
  obtain ⟨d, ds, hd⟩ := List.exists_cons_of_ne_nil (print_ne_nil i)
  have hdigit : d.isDigit := isDigit_of_mem_print (hd ▸ List.mem_cons_self)
  have hblank : ¬isBlank d = true := by
    intro hb
    simp only [isBlank, Bool.or_eq_true, beq_iff_eq] at hb
    obtain ((rfl | rfl) | rfl) | rfl := hb <;> exact absurd hdigit (by decide)
  simp only [line, hd, List.cons_append]
  exact List.dropWhile_cons_of_neg hblank

theorem scanRow_line (t : DbTable) (i : Fin 256) :
    scanRow (t.line i) = some (BitVec.ofNat 32 i, (t.entries i).entityId,
      (t.entries i).entityType.setWidth 32, (t.entries i).profileId.setWidth 32) := by
  have htab : ∀ (x y : List Char), ∀ c ∈ ('\t' :: x ++ y).head?, c.isDigit = false := by
    rintro x y c ⟨⟩
    rfl
  have hend : ∀ c ∈ ['\n'].head?, c.isDigit = false := by
    rintro c ⟨⟩
    rfl
  have hslot : i.val ≤ 4294967295 := by omega
  have hid : (t.entries i).entityId.toNat ≤ 4294967295 := by omega
  have htype : (t.entries i).entityType.toNat ≤ 4294967295 := by omega
  have hpid : (t.entries i).profileId.toNat ≤ 4294967295 := by omega
  have hline : t.line i = [] ++ print i ++ ('\t' :: print (t.entries i).entityId.toNat ++
      ('\t' :: print (t.entries i).entityType.toNat ++
        ('\t' :: print (t.entries i).profileId.toNat ++ ['\n']))) := by
    simp only [line, List.append_assoc, List.nil_append, List.cons_append]
  rw [hline, scanRow, scanU_print (by simp) hslot (htab _ _)]
  simp only [Option.bind_eq_bind, Option.bind_some]
  rw [scanU_tab hid (htab _ _), Option.bind_some, scanU_tab htype (htab _ _), Option.bind_some,
    scanU_tab hpid hend, Option.bind_some]
  simp only [BitVec.ofNat_toNat, BitVec.setWidth_eq]

/-- What is read from the line of a legal entry is the entry. -/
theorem entry_of_line {i : Fin 256} {e : DbEntry} (h : Legal i e) :
    ({ entityId := e.entityId &&& entityMask, entityType := (e.entityType.setWidth 32).setWidth 8,
       profileId := (e.profileId.setWidth 32).setWidth 8,
       slot := (BitVec.ofNat 32 i).setWidth 8 } : DbEntry) = e := by
  have hback : ∀ x : BitVec 8, (x.setWidth 32).setWidth 8 = x := fun x ↦
    (BitVec.setWidth_setWidth_of_le x (by decide)).trans (BitVec.setWidth_eq x)
  have hslot : (BitVec.ofNat 32 i).setWidth 8 = e.slot := by
    rw [h.slot, BitVec.setWidth_ofNat_of_le (by decide)]
  rw [h.entityId, hback, hback, hslot]

/-- **A line of a legal entry is read back.** -/
theorem parseLine_line {i : Fin 256} (h : Legal i (t.entries i)) :
    parseLine (t.line i) = .entry i (t.entries i) := by
  have hi : (BitVec.ofNat 32 i).toNat = i := by
    rw [BitVec.toNat_ofNat]
    omega
  have htype : ¬(t.entries i).entityType.setWidth 32 > 1 := by
    have hle : (t.entries i).entityType.toNat ≤ 1 := h.entityType
    rw [gt_iff_lt, BitVec.lt_def, BitVec.toNat_setWidth_of_le (by decide)]
    exact Nat.not_lt.2 hle
  have hpid : ¬(t.entries i).profileId.setWidth 32 ≥ 6 := by
    have hlt : (t.entries i).profileId.toNat < 6 := h.profileId
    rw [ge_iff_le, BitVec.le_def, BitVec.toNat_setWidth_of_le (by decide)]
    exact Nat.not_le.2 hlt
  have hne : t.line i ≠ [] := List.append_ne_nil_of_right_ne_nil _ (List.cons_ne_nil '\n' [])
  obtain ⟨c, cs, hc⟩ := List.exists_cons_of_ne_nil hne
  have hrow := scanRow_line t i
  unfold parseLine
  rw [stripComment_line, dropWhile_line]
  rw [hc] at hrow ⊢
  simp only [hrow, hi, i.isLt, dif_pos, if_neg htype, if_neg hpid, entry_of_line h]

/-! ## The file -/

/-- A line fits the buffer of `read_file`. -/
theorem isLine_line (t : DbTable) (i : Fin 256) : IsLine 255 (t.line i) := by
  have hprint : ∀ n, '\n' ∉ print n := fun n hn ↦ absurd (isDigit_of_mem_print hn) (by decide)
  have hlen : ∀ n, n ≤ 4294967295 → (print n).length ≤ 10 :=
    fun n hn ↦ length_print_le (by decide) (by omega)
  refine isLine_append ?_ ?_
  · simp [hprint]
  · have h1 := hlen i (by omega)
    have h2 := hlen (t.entries i).entityId.toNat (by omega)
    have h3 := hlen (t.entries i).entityType.toNat (by omega)
    have h4 := hlen (t.entries i).profileId.toNat (by omega)
    simp only [List.length_append, List.length_cons]
    omega

theorem isLine_header : ∀ l ∈ header, IsLine 255 l := by decide

/-- What a table takes in from the lines of another. -/
theorem occ_foldl_line (h : t.Consistent) {u : DbTable} {is : List (Fin 256)}
    (his : ∀ i ∈ is, t.slotUsed i = true) (j : Fin 256) :
    ((is.map t.line).foldl row u).occ j = if j ∈ is then t.occ j else u.occ j := by
  induction is generalizing u with
  | nil => exact (if_neg List.not_mem_nil).symm
  | cons i is ih =>
      obtain ⟨hi, his⟩ := List.forall_mem_cons.1 his
      have hrow : u.row (t.line i) = u.put i (t.entries i) := by
        rw [row, parseLine_line (h.legal i hi)]
      rw [List.map_cons, List.foldl_cons, ih his, hrow, occ_put]
      rcases eq_or_ne j i with rfl | hj
      · rw [Function.update_self, if_pos List.mem_cons_self, occ_eq_some_iff.2 ⟨hi, rfl⟩, ite_self]
      · rw [Function.update_of_ne hj]
        simp only [List.mem_cons, hj, false_or]

/-- **The file of a table that is in order is read back as the table.** -/
theorem readFile_text (h : t.Consistent) : reset.readFile t.text = t := by
  have hused : ∀ i ∈ (List.finRange 256).filter t.slotUsed, t.slotUsed i = true :=
    fun i hi ↦ (List.mem_filter.1 hi).2
  have hlines : ∀ l ∈ header ++ ((List.finRange 256).filter t.slotUsed).map t.line,
      IsLine 255 l := by
    intro l hl
    obtain hl | hl := List.mem_append.1 hl
    · exact isLine_header l hl
    · obtain ⟨i, -, rfl⟩ := List.mem_map.1 hl
      exact isLine_line t i
  have htext : t.text =
      (header ++ ((List.finRange 256).filter t.slotUsed).map t.line).flatten := by
    rw [text, List.flatten_append, List.flatMap]
  have hheader : header.foldl row reset = reset := rfl
  refine (consistent_reset.readFile t.text).ext_occ h ?_
  funext j
  rw [readFile, htext, pieces_flatten hlines, List.foldl_append, hheader, occ_foldl_line h hused]
  split_ifs with hj
  · rfl
  · have hfree : t.slotUsed j = false := by
      simpa using hj
    rw [occ_eq_none_iff.2 hfree]
    rfl

end DbTable

namespace TetraDb

open DbTable LossyWriter

variable {g : TetraDb}

/-- **Save and load are inverse.**  Whatever file was loaded and whatever was allocated since, the
file that `save_tsv` writes is loaded as the table, slot by slot and field by field. -/
theorem load_saveTsv (path : Option (List Char)) (f : Opened) (stat : Option ℤ)
    (calls : List Call) (mt : Option ℤ) (path' : Option (List Char)) (stat' : Option ℤ) :
    let g := Run.exec call (load path f stat).db calls
    ∃ s, (g.saveTsv { stat := mt }).file = some s ∧ (g.saveTsv { stat := mt }).rv = 0 ∧
      (load path' (.text s) stat').rv = 0 ∧ (load path' (.text s) stat').db.toDbTable = g.toDbTable := by
  intro g
  have hg : g.Consistent := (consistent_run (consistent_load path f stat) calls).last
  exact ⟨g.text, congrArg some (run_steps { stat := mt } g.toDbTable), rfl, rfl, readFile_text hg⟩

/-! ## Reload -/

/-- What an allocation writes keeps what the table held, if no write fails. -/
theorem alloc_keeps (h : g.Consistent) {entityId : BitVec 32} {entityType profileId : BitVec 8}
    {s : SaveIn} {text : List Char}
    (hfile : (g.alloc entityId entityType profileId { toSaveIn := s }).file = some text)
    {i : Fin 256} {e : DbEntry} (hi : g.occ i = some e) : (reset.readFile text).occ i = some e := by
  obtain ⟨-, hnone⟩ | ⟨k, a, hk, hlegal, -, -, ⟨-, hnone⟩ | ⟨-, hsome⟩⟩ :=
    alloc_cases h entityId entityType profileId { toSaveIn := s }
  · exact absurd (hnone.symm.trans hfile) (Option.some_ne_none _).symm
  · exact absurd (hnone.symm.trans hfile) (Option.some_ne_none _).symm
  · have htext := Option.some.inj (hsome.symm.trans hfile)
    rw [run_steps] at htext
    obtain rfl : (g.put k a).text = text := htext
    have hik : i ≠ k := by
      rintro rfl
      rw [occ_eq_none_iff.2 hk] at hi
      cases hi
    rw [readFile_text (h.put hlegal), occ_put, Function.update_of_ne hik, hi]

/-- The database before anything is loaded. -/
def boot : TetraDb where
  toDbTable := reset
  profiles _ := profileDecode 0
  path := []
  mtime := 0

/-- What the daemon does to the database. -/
inductive Op where
  | load (path : Option (List Char)) (f : Opened) (stat : Option ℤ)
  | reload (i : ReloadIn)
  | call (c : Call)

/-- The database after it. -/
def op (g : TetraDb) : Op → TetraDb
  | .load path f stat => (load path f stat).db
  | .reload i => (g.reload i).db
  | .call c => g.call c

/-- The reload stops before it empties the table. -/
def Stops (g : TetraDb) (i : ReloadIn) : Prop :=
  g.path = [] ∨ i.stat = none ∨ i.stat = some g.mtime

theorem reload_stops {i : ReloadIn} (h : g.Stops i) : (g.reload i).db = g := by
  unfold reload
  by_cases hpath : g.path = []
  · rw [if_pos hpath]
  rw [if_neg hpath]
  obtain h | h | h := h
  · exact absurd h hpath
  · rw [h]
  · rw [h]
    exact congrArg Done.db (if_pos rfl)

/-- A reload that goes on has the table of the file, or none. -/
theorem reload_goes {i : ReloadIn} (h : ¬g.Stops i) :
    (g.reload i).db.toDbTable = (i.fopen.elim reset reset.readFile) ∧
      ((g.reload i).rv = -1 ↔ i.fopen = none) := by
  obtain ⟨hpath, hstat⟩ := not_or.1 h
  obtain ⟨hnone, hmt⟩ := not_or.1 hstat
  obtain ⟨mt, hsome⟩ := Option.ne_none_iff_exists'.1 hnone
  have hne : mt ≠ g.mtime := fun he ↦ hmt (hsome.trans (congrArg some he))
  rw [reload, if_neg hpath, hsome]
  dsimp only
  rw [if_neg hne]
  cases i.fopen with
  | none => exact ⟨rfl, iff_of_true rfl rfl⟩
  | some s =>
      have hone : (1 : ℤ) ≠ -1 := by decide
      exact ⟨rfl, iff_of_false hone (Option.some_ne_none s)⟩

theorem consistent_op (o : Op) (h : g.Consistent) : (g.op o).Consistent := by
  cases o with
  | load path f stat => exact consistent_load path f stat
  | call c => exact consistent_call c h
  | reload i =>
      by_cases hs : g.Stops i
      · rw [op, reload_stops hs]
        exact h
      · rw [op, (reload_goes hs).1]
        cases i.fopen with
        | none => exact consistent_reset
        | some s => exact consistent_reset.readFile s

/-- A reload that fails is atomic: the table is what it was, and what the next allocation writes
still holds every entry, if no write of it fails. -/
def ReloadAtomic (g : TetraDb) (i : ReloadIn) : Prop :=
  (g.reload i).rv = -1 → (g.reload i).db.toDbTable = g.toDbTable ∧
    ∀ entityId entityType profileId (s : SaveIn) text,
      ((g.reload i).db.alloc entityId entityType profileId { toSaveIn := s }).file = some text →
        ∀ k e, g.occ k = some e → (reset.readFile text).occ k = some e

/-- **A failed reload is atomic exactly when it stops before it empties the table**, or the table
was empty: what fails once the table is empty is only to open the file. -/
theorem reloadAtomic_iff (ops : List Op) (i : ReloadIn) :
    let g := Run.exec op boot ops
    g.ReloadAtomic i ↔ g.Stops i ∨ i.fopen ≠ none ∨ g.toDbTable = reset := by
  intro g
  have hg : g.Consistent := Run.exec_induction op (P := fun d ↦ d.Consistent)
    (fun _ o hd ↦ consistent_op o hd) consistent_reset ops
  have hatomic : (g.reload i).db.toDbTable = g.toDbTable → g.ReloadAtomic i := by
    intro htable _
    refine ⟨htable, fun entityId entityType profileId s text hfile k e hk ↦ ?_⟩
    have hc : (g.reload i).db.Consistent := (congrArg DbTable.Consistent htable).mpr hg
    exact alloc_keeps hc hfile ((congrArg (occ · k) htable).trans hk)
  by_cases hs : g.Stops i
  · exact iff_of_true (hatomic (congrArg _ (reload_stops hs))) (.inl hs)
  obtain ⟨htable, hrv⟩ := reload_goes hs
  rw [or_iff_right hs]
  cases hf : i.fopen with
  | some text =>
      refine iff_of_true (fun hfail ↦ ?_) (.inl (Option.some_ne_none text))
      exact absurd (hrv.1 hfail) (by simp [hf])
  | none =>
      rw [hf] at htable
      rw [or_iff_right fun h ↦ h rfl]
      constructor
      · intro h
        exact (h (hrv.2 hf)).1.symm.trans htable
      · intro h
        exact hatomic (htable.trans h.symm)

/-- The file is there and cannot be opened: the table is lost, and the file with the next
allocation. -/
theorem reload_not_atomic :
    let g := Run.exec op boot [.load none (.text "0\t2633617\t0\t0\n".toList) (some 1)]
    let g' := (g.reload { stat := some 2, fopen := none }).db
    (g.reload { stat := some 2, fopen := none }).rv = -1 ∧
      (g.lookup 2633617 0).isSome ∧ (g'.lookup 2633617 0).isSome = false ∧
      (g'.alloc 3100001 1 0 {}).file.map (reset.readFile · |>.find 2633617 0) = some none ∧
      ¬g.ReloadAtomic { stat := some 2, fopen := none } := by
  intro g g'
  refine ⟨rfl, by decide +kernel, by decide +kernel, by decide +kernel, fun h ↦ ?_⟩
  have htable : g'.toDbTable = g.toDbTable := (h rfl).1
  have hcount : g'.numEntries = g.numEntries := congrArg DbTable.numEntries htable
  exact absurd hcount (by decide +kernel)

end TetraDb

end TetraPhy.Sw
