import ContentMesh.Storage.Disk
import ContentMesh.Storage.Journal

/-!
# ContentMesh.Storage.Table — durable tables of records

A table answers from the map it holds.  What it keeps on disk follows each change: nothing for a table in memory,
one JSON document written anew for a document, one appended line for a journal.  A change that cannot be kept
leaves the map as it was.
-/

namespace ContentMesh

/-- What a table keeps on disk. -/
inductive Backing where
  | memory
  | document (path : String)
  | journal (path : String) (file : Handle) (length : Nat)
  deriving DecidableEq, Repr

/-- A table: the map it answers from, and what it keeps on disk. -/
structure Table (V : Type) where
  rows : Dict V
  backing : Backing
  disk : Disk

/-- The kinds of table. -/
inductive TableKind where
  | memory
  | document
  | journal
  deriving DecidableEq, Repr

namespace Table

variable {V : Type} [Record V]

/-- An empty table in memory. -/
def inMemory : Table V := ⟨∅, .memory, default⟩

/-! ## Writing -/

/-- Moves the temporary file of a path into its place. -/
def settle (d : Disk) (path : String) : Except Failure Disk :=
  match d.rename? (Path.temporary path) path with
  | some d => .ok d
  | none => .error (.store ("rename " ++ path ++ ": " ++ d.notRenamed))

/-- The document of a map. -/
def documentOf (rows : Dict V) : Json := .obj (rows.map Record.toJson).entries

/-- Writes a map as a document; the disk is as it is left, also by a failure. -/
def writeDocument (d : Disk) (path : String) (rows : Dict V) : Except Failure Unit × Disk :=
  let j := documentOf rows
  if !j.clear then (.error .serialization, d)
  else
    match d.writeFile (Path.temporary path) (Utf8.encode j.chars) with
    | (false, d) => (.error .io, d)
    | (true, d) =>
      match settle d path with
      | .ok d => (.ok (), d)
      | .error f => (.error f, d)

/-- Writes a map as a new journal and opens it for appending. -/
def renewJournal (d : Disk) (path : String) (rows : Dict V) : Except Failure Handle × Disk :=
  match d.create? (Path.temporary path) with
  | none => (.error .io, d)
  | some (d, h) =>
    if !(documentOf rows).clear then (.error .serialization, d)
    else
      match d.fill h (Journal.image rows) with
      | (none, d) => (.error .io, d)
      | (some h, d) =>
        match settle d path with
        | .ok d => (.ok h, d)
        | .error f => (.error f, d)

/-- The table with its journal renewed if that succeeds, and as it was otherwise. -/
def renewed (t : Table V) (path : String) (h : Handle) (length : Nat) : Table V :=
  match renewJournal t.disk path t.rows with
  | (.ok h, d) => ⟨t.rows, .journal path h t.rows.size, d⟩
  | (.error _, d) => ⟨t.rows, .journal path h length, d⟩

/-- Keeps a change on disk; on success the table holds the changed map. -/
def commit (t : Table V) (c : Change V) : Except Failure Unit × Table V :=
  let rows := c.apply t.rows
  match t.backing with
  | .memory => (.ok (), { t with rows })
  | .document path =>
    match writeDocument t.disk path rows with
    | (.ok (), disk) => (.ok (), { t with rows, disk })
    | (.error f, disk) => (.error f, { t with disk })
  | .journal path h length =>
    if !c.toJson.clear then (.error .serialization, t.renewed path h length)
    else
      match t.disk.extend h c.line with
      | (false, disk, h) => (.error .io, renewed { t with disk } path h length)
      | (true, disk, h) =>
        let t : Table V := ⟨rows, .journal path h (length + 1), disk⟩
        if Journal.overdue (length + 1) rows.size then (.ok (), t.renewed path h (length + 1)) else (.ok (), t)

/-- Binds a key. -/
def put (t : Table V) (k : String) (v : V) : Except Failure Unit × Table V := t.commit (.put k v)

/-- Unbinds a key and says whether it was bound. -/
def delete (t : Table V) (k : String) : Except Failure Bool × Table V :=
  if t.rows.contains k then
    match t.commit (.delete k) with
    | (.ok (), t) => (.ok true, t)
    | (.error f, t) => (.error f, t)
  else (.ok false, t)

/-! ## Opening -/

/-- The map of a document; an empty file is an empty map. -/
def readDocument (b : Bytes) : Except Failure (Dict V) :=
  if b.isEmpty then .ok ∅
  else
    match (Json.readBytes b).bind (Json.dict? Record.ofJson?) with
    | some d => .ok d
    | none => .error .serialization

/-- The failure of a journal with an unreadable line. -/
def badEntry (path : String) (number : Nat) : Failure :=
  .store (path ++ ": bad journal entry at line " ++ toString number)

/-- The map of a journal. -/
def readJournal (path : String) (b : Bytes) : Except Failure (Dict V) :=
  match Journal.replay b with
  | .ok d => .ok d
  | .error n => .error (badEntry path n)

/-- The map at a path; a missing file is an empty map. -/
def load (d : Disk) (path : String) (f : Bytes → Except Failure (Dict V)) : Except Failure (Dict V) :=
  if d.taken path then
    match d.read? path with
    | some b => f b
    | none => .error .io
  else .ok ∅

/-- Opens a table at a path; the disk is as it is left, also by a failure. -/
def openAt (kind : TableKind) (disk : Disk) (path : String) : Except Failure (Table V) × Disk :=
  match kind with
  | .memory => (.ok ⟨∅, .memory, disk⟩, disk)
  | .document =>
    match disk.makeWay? path with
    | none => (.error .io, disk)
    | some disk =>
      match load disk path readDocument with
      | .ok rows => (.ok ⟨rows, .document path, disk⟩, disk)
      | .error f => (.error f, disk)
  | .journal =>
    match disk.makeWay? path with
    | none => (.error .io, disk)
    | some disk =>
      match load disk path (readJournal path) with
      | .error f => (.error f, disk)
      | .ok rows =>
        match renewJournal disk path rows with
        | (.ok h, disk) => (.ok ⟨rows, .journal path h rows.size, disk⟩, disk)
        | (.error f, disk) => (.error f, disk)

end Table

end ContentMesh
