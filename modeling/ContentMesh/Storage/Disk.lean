import ContentMesh.Bytes.Utf8
import ContentMesh.Dict
import ContentMesh.Storage.Path

/-!
# ContentMesh.Storage.Disk — files that a table keeps

Names lead to directories or to nodes, and a node holds bytes.  An open file is a node with a position, so it
stays writable after its name has gone to another node.  While there is trouble with a disk, files cannot be made
on it, written to their end, renamed, or added to.
-/

namespace ContentMesh

/-- What a name leads to. -/
inductive Place where
  | directory
  | file (node : Nat)
  deriving DecidableEq, Repr

/-- What a disk refuses: to make a file, to take more than so many bytes of a new one, to rename one, with the text of
that error, or to keep what is added to one, of which it takes so many bytes. -/
structure Trouble where
  create : Bool
  fill : Option Nat
  rename : Option String
  append : Option Nat
  deriving DecidableEq, Repr

/-- A disk that refuses nothing. -/
def Trouble.none : Trouble := ⟨false, .none, .none, .none⟩

/-- Directories and files. -/
structure Disk where
  names : Dict Place
  nodes : Array (Array UInt8)
  trouble : Trouble

/-- An open file: its node and the position of the next write. -/
structure Handle where
  node : Nat
  position : Nat
  deriving DecidableEq, Repr

namespace Disk

/-- The disk with one empty directory. -/
def root (directory : String) : Disk := ⟨Dict.empty.insert directory .directory, #[], .none⟩

instance : Inhabited Disk := ⟨⟨∅, #[], .none⟩⟩

/-- Whether a name is taken. -/
def taken (d : Disk) (path : String) : Bool := d.names.contains path

/-- The bytes of a file. -/
def read? (d : Disk) (path : String) : Option Bytes :=
  match d.names.get? path with
  | some (.file n) => (d.nodes[n]?).map Array.toList
  | _ => none

/-- The directories on the way to a path, outermost first. -/
def ancestors (path : String) : List String :=
  let rec go : List Char → List Char → List String
    | _, [] => []
    | done, c :: cs =>
      if c = '/' ∧ !done.isEmpty then String.ofList done.reverse :: go (c :: done) cs else go (c :: done) cs
  go [] path.toList

/-- Makes the directories on the way to a path, unless a file stands in the way. -/
def makeWay? (d : Disk) (path : String) : Option Disk :=
  (ancestors path).foldlM (fun d a =>
    match d.names.get? a with
    | some .directory => some d
    | some (.file _) => none
    | none => some { d with names := d.names.insert a .directory }) d

/-- Whether the directory of a path is there. -/
def reachable (d : Disk) (path : String) : Bool :=
  match d.names.get? (Path.directory path) with
  | some .directory => true
  | _ => false

/-- Opens a file for writing from its start, emptied if it exists. -/
def create? (d : Disk) (path : String) : Option (Disk × Handle) :=
  if d.trouble.create then none
  else
    match d.names.get? path with
    | some .directory => none
    | some (.file n) => some ({ d with nodes := d.nodes.setIfInBounds n #[] }, ⟨n, 0⟩)
    | none =>
      if d.reachable path then
        some ({ d with names := d.names.insert path (.file d.nodes.size), nodes := d.nodes.push #[] }, ⟨d.nodes.size, 0⟩)
      else none

/-- Bytes with others written over them from a position on; a gap is filled with zeros. -/
def overwrite (old : Array UInt8) (position : Nat) (new : Bytes) : Array UInt8 :=
  if position = old.size then old ++ new
  else
    old.extract 0 position ++ Array.replicate (position - old.size) 0 ++ new.toArray
      ++ old.extract (position + new.length) old.size

/-- Writes at the position of an open file and moves it. -/
def write (d : Disk) (h : Handle) (b : Bytes) : Disk × Handle :=
  ({ d with nodes := d.nodes.modify h.node (overwrite · h.position b) }, { h with position := h.position + b.length })

/-- Writes all there is to be in a new file: the handle if that succeeds, and the disk as it is left. -/
def fill (d : Disk) (h : Handle) (b : Bytes) : Option Handle × Disk :=
  match d.trouble.fill with
  | none =>
    let (d, h) := d.write h b
    (some h, d)
  | some n => (none, (d.write h (b.take n)).1)

/-- Adds bytes to an open file: whether that succeeds, and the disk and the open file as they are left. -/
def extend (d : Disk) (h : Handle) (b : Bytes) : Bool × Disk × Handle :=
  match d.trouble.append with
  | none => (true, d.write h b)
  | some n => (false, d.write h (b.take n))

/-- Gives the file of one name another name, which must not be that of a directory. -/
def rename? (d : Disk) (source target : String) : Option Disk :=
  if d.trouble.rename.isSome then none
  else
    match d.names.get? source, d.names.get? target with
    | some (.file _), some .directory => none
    | some p, _ => some { d with names := (d.names.erase source).insert target p }
    | none, _ => none

/-- Why a file cannot take the place of a directory. -/
def directoryInPlace : String := "Is a directory (os error 21)"

/-- Why a file could not be renamed. -/
def notRenamed (d : Disk) : String := d.trouble.rename.getD directoryInPlace

/-- Removes a name and what lies below it. -/
def remove (d : Disk) (path : String) : Disk :=
  let below := path ++ "/"
  let gone := fun k => k == path || below.isPrefixOf k
  { d with names := (d.names.keys.filter gone).foldl Dict.erase d.names }

/-- Writes a whole file anew: whether that succeeds, and the disk as it is left. -/
def writeFile (d : Disk) (path : String) (b : Bytes) : Bool × Disk :=
  match d.create? path with
  | none => (false, d)
  | some (d, h) =>
    let (h, d) := d.fill h b
    (h.isSome, d)

/-- Puts a whole file at a path. -/
def put? (d : Disk) (path : String) (b : Bytes) : Option Disk :=
  match d.writeFile path b with
  | (true, d) => some d
  | (false, _) => none

/-- Adds bytes at the end of a file that exists. -/
def append? (d : Disk) (path : String) (b : Bytes) : Option Disk :=
  match d.names.get? path with
  | some (.file n) => some { d with nodes := d.nodes.modify n (· ++ b) }
  | _ => none

/-- The names in a directory. -/
def list (d : Disk) (directory : String) : List String :=
  (d.names.keys.filter fun k => Path.directory k == directory).map Path.name

end Disk

end ContentMesh
