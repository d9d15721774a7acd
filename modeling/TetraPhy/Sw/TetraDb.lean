import TetraPhy.Lib.Ledger
import TetraPhy.Lib.LossyWriter
import TetraPhy.Lib.Run
import TetraPhy.Lib.TextReader

/-!
# The subscriber database

`tetra_db.c`: a table of 256 slots that the daemon keeps in memory and in a text file, one line a
slot.  An identity is the kind of a subscriber, individual or group, and its 24-bit number.

| Call                | Does                                                                  |
|---------------------|-----------------------------------------------------------------------|
| `tetra_db_load`     | empties the table, and fills it from a file                            |
| `tetra_db_reload`   | the same, when the time stamp of the file has changed                  |
| `tetra_db_lookup`   | finds the first slot of an identity                                    |
| `tetra_db_alloc`    | finds it, or puts it into the first free slot and writes the file      |

A file is a list of characters.  What the file system answers is an input of a call: the text that
`fopen` opens, the success of `rename`, the time stamp of `stat`, and what is lost where a write
fails.  `save_tsv` looks at `fopen` and `rename` alone, so what it renames over the file is whatever
the writes in between have left.
-/

namespace TetraPhy.Sw

/-- `tetra_db_entry_t`. -/
structure DbEntry where
  entityId : BitVec 32 := 0
  entityType : BitVec 8 := 0
  profileId : BitVec 8 := 0
  slot : BitVec 8 := 0
deriving DecidableEq, Repr

/-- `tetra_db_profile_t`. -/
structure DbProfile where
  bits : BitVec 32
  gilaClass : BitVec 8
  gilaLifetime : BitVec 8
  permitVoice : BitVec 8
  permitData : BitVec 8
  permitReg : BitVec 8
  valid : BitVec 8
deriving DecidableEq, Repr

/-- `profile_decode`. -/
def profileDecode (bits : BitVec 32) : DbProfile where
  bits
  gilaClass := (bits >>> 9 &&& 7).setWidth 8
  gilaLifetime := (bits >>> 7 &&& 3).setWidth 8
  permitVoice := (bits >>> 3 &&& 1).setWidth 8
  permitData := (bits >>> 2 &&& 1).setWidth 8
  permitReg := (bits >>> 1 &&& 1).setWidth 8
  valid := (bits &&& 1).setWidth 8

/-- The table. -/
structure DbTable where
  entries : Fin 256 → DbEntry
  slotUsed : Fin 256 → Bool
  numEntries : BitVec 16

/-- `g_db`. -/
structure TetraDb extends DbTable where
  profiles : Fin 6 → DbProfile
  path : List Char
  mtime : ℤ

/-- The identity of a subscriber. -/
def DbEntry.identity (e : DbEntry) : BitVec 8 × BitVec 32 := (e.entityType, e.entityId)

/-! ## The file -/

/-- What a line says. -/
inductive DbRow where
  | blank
  | malformed
  | entry (slot : Fin 256) (e : DbEntry)

/-- The mask of an identity. -/
def entityMask : BitVec 32 := 0xFFFFFF

/-- `%u`: a number that does not fit is the largest, and a sign negates. -/
def scanU (s : List Char) : Option (BitVec 32 × List Char) :=
  (TextReader.scan s).map fun (neg, n, rest) ↦
    (if n ≤ 4294967295 then if neg then -BitVec.ofNat 32 n else BitVec.ofNat 32 n
      else BitVec.allOnes 32, rest)

/-- `%u %u %u %u`. -/
def scanRow (s : List Char) : Option (BitVec 32 × BitVec 32 × BitVec 32 × BitVec 32) := do
  let (slot, s) ← scanU s
  let (eid, s) ← scanU s
  let (etype, s) ← scanU s
  let (pid, _) ← scanU s
  some (slot, eid, etype, pid)

/-- The characters that `parse_line` skips. -/
def isBlank (c : Char) : Bool := c == ' ' || c == '\t' || c == '\n' || c == '\r'

/-- The line up to its comment, or to the end of the string. -/
def stripComment (line : List Char) : List Char :=
  line.takeWhile fun c ↦ c != Char.ofNat 0 && c != '#'

/-- `parse_line`. -/
def parseLine (line : List Char) : DbRow :=
  match (stripComment line).dropWhile isBlank with
  | [] => .blank
  | p =>
    match scanRow p with
    | none => .malformed
    | some (slot, eid, etype, pid) =>
      if h : slot.toNat < 256 then
        if etype > 1 then .malformed
        else if pid ≥ 6 then .malformed
        else .entry ⟨slot.toNat, h⟩
          { entityId := eid &&& entityMask, entityType := etype.setWidth 8,
            profileId := pid.setWidth 8, slot := slot.setWidth 8 }
      else .malformed

namespace DbTable

/-- `entries_reset`. -/
def reset : DbTable where
  entries _ := {}
  slotUsed _ := false
  numEntries := 0

/-- A slot is written. -/
def put (t : DbTable) (slot : Fin 256) (e : DbEntry) : DbTable where
  entries := Function.update t.entries slot e
  slotUsed := Function.update t.slotUsed slot true
  numEntries := if t.slotUsed slot then t.numEntries else t.numEntries + 1

/-- A line of the file is taken in. -/
def row (t : DbTable) (line : List Char) : DbTable :=
  match parseLine line with
  | .entry slot e => t.put slot e
  | _ => t

/-- The loop of `read_file`. -/
def readFile (t : DbTable) (text : List Char) : DbTable :=
  (TextReader.pieces 255 255 text).foldl row t

/-- The line of a slot. -/
def line (t : DbTable) (i : Fin 256) : List Char :=
  TextReader.print i ++ '\t' :: TextReader.print (t.entries i).entityId.toNat ++
    '\t' :: TextReader.print (t.entries i).entityType.toNat ++
    '\t' :: TextReader.print (t.entries i).profileId.toNat ++ ['\n']

/-- The comments at the head of a file. -/
def header : List (List Char) :=
  ["# tetra entity DB (Phase X.3, SW-managed)\n".toList,
    "# slot\tentity_id\tentity_type\tprofile_id\n".toList,
    "# entity_type: 0=ISSI, 1=GSSI\n".toList]

/-- What the calls of `fprintf` write. -/
def chunks (t : DbTable) : List (List Char) :=
  header ++ ((List.finRange 256).filter t.slotUsed).map t.line

/-- What `save_tsv` writes. -/
def text (t : DbTable) : List Char :=
  header.flatten ++ ((List.finRange 256).filter t.slotUsed).flatMap t.line

/-- The first slot of an identity. -/
def find (t : DbTable) (entityId : BitVec 32) (entityType : BitVec 8) : Option (Fin 256) :=
  (List.finRange 256).find? fun i ↦ t.slotUsed i && (t.entries i).entityType == entityType &&
    (t.entries i).entityId == entityId

/-- The first free slot. -/
def firstFree (t : DbTable) : Option (Fin 256) := (List.finRange 256).find? (!t.slotUsed ·)

end DbTable

/-! ## The calls -/

namespace TetraDb

open LossyWriter

/-- What `fopen` does with a file that is to be read. -/
inductive Opened where
  | text (s : List Char)
  | enoent
  | error

/-- What the file system answers to a `save_tsv` whose writes succeed. -/
structure SaveIn where
  fopen : Bool := true
  rename : Bool := true
  stat : Option ℤ := none

/-- What it answers to any `save_tsv`: beside `fopen`, `rename` and `stat`, the loss of each
`fprintf`, and those of the three calls that bring the lines to the disk. -/
structure SaveIo extends SaveIn where
  fprintf : ℕ → Option (Loss Char) := fun _ ↦ none
  fflush : Option (Loss Char) := none
  fsync : Option (Loss Char) := none
  fclose : Option (Loss Char) := none

/-- The steps from `fopen` to `rename`. -/
def SaveIo.steps (s : SaveIo) (t : DbTable) : List (List Char × Option (Loss Char)) :=
  t.chunks.zipIdx.map (fun line ↦ (line.1, s.fprintf line.2)) ++
    [([], s.fflush), ([], s.fsync), ([], s.fclose)]

/-- What it answers to `tetra_db_reload`. -/
structure ReloadIn where
  stat : Option ℤ
  fopen : Option (List Char)

/-- What a call leaves, returns and writes to the file. -/
structure Done where
  db : TetraDb
  rv : ℤ
  file : Option (List Char) := none

variable (g : TetraDb)

/-- `profiles_reset`. -/
def profilesReset : Fin 6 → DbProfile :=
  fun i ↦ profileDecode (if i.val = 0 then 0x88F else 0)

/-- `TETRA_DB_DEFAULT_PATH`. -/
def defaultPath : List Char := "/root/db.tsv".toList

/-- `tetra_db_load`: nothing of what the database held remains. -/
def load (path : Option (List Char)) (f : Opened) (stat : Option ℤ) : Done :=
  let g : TetraDb := { toDbTable := .reset, profiles := profilesReset,
                       path := (path.getD defaultPath).take 255, mtime := 0 }
  match f with
  | .text s => ⟨{ g with toDbTable := g.readFile s, mtime := stat.getD 0 }, 0, none⟩
  | .enoent => ⟨g, 0, none⟩
  | .error => ⟨g, -1, none⟩

/-- `tetra_db_reload`. -/
def reload (i : ReloadIn) : Done :=
  if g.path = [] then ⟨g, -1, none⟩
  else
    match i.stat with
    | none => ⟨g, -1, none⟩
    | some mt =>
      if mt = g.mtime then ⟨g, 0, none⟩
      else
        let g := { g with toDbTable := .reset, profiles := profilesReset }
        match i.fopen with
        | none => ⟨g, -1, none⟩
        | some s => ⟨{ g with toDbTable := g.readFile s, mtime := mt }, 1, none⟩

/-- `tetra_db_lookup`. -/
def lookup (entityId : BitVec 32) (entityType : BitVec 8) : Option DbEntry :=
  (g.find (entityId &&& entityMask) entityType).map g.entries

/-- `save_tsv`: the temporary file replaces the database, whatever has become of its writes. -/
def saveTsv (s : SaveIo) : Done :=
  if s.fopen then
    let tmp := run [] (s.steps g.toDbTable)
    if s.rename then ⟨{ g with mtime := s.stat.getD g.mtime }, 0, some tmp⟩
    else ⟨g, -1, none⟩
  else ⟨g, -1, none⟩

/-- `tetra_db_alloc`. -/
def alloc (entityId : BitVec 32) (entityType profileId : BitVec 8) (s : SaveIo) : Done :=
  let entityId := entityId &&& entityMask
  if entityType > 1 then ⟨g, -1, none⟩
  else if profileId ≥ 6 then ⟨g, -1, none⟩
  else
    match g.lookup entityId entityType with
    | some hit => ⟨g, hit.slot.toNat, none⟩
    | none =>
      match g.firstFree with
      | none => ⟨g, -1, none⟩
      | some slot =>
        let e : DbEntry := { entityId, entityType, profileId, slot := BitVec.ofNat 8 slot }
        let n := { g with entries := Function.update g.entries slot e,
                          slotUsed := Function.update g.slotUsed slot true,
                          numEntries := g.numEntries + 1 }
        if n.path ≠ [] then
          let saved := n.saveTsv s
          if saved.rv ≠ 0 then
            ⟨{ saved.db with entries := Function.update saved.db.entries slot {},
                             slotUsed := Function.update saved.db.slotUsed slot false,
                             numEntries := saved.db.numEntries - 1 }, -1, none⟩
          else { saved with rv := slot }
        else ⟨n, slot, none⟩

end TetraDb

end TetraPhy.Sw
