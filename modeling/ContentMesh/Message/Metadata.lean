import ContentMesh.Json.Record
import ContentMesh.Text.Blank

/-!
# ContentMesh.Message.Metadata — texts under names without regard to case

A name is looked up by its letters in lower case.  The spelling that is shown is that of the first `add` or the
latest `set`; the values of a name keep their order.
-/

namespace ContentMesh

/-- The values of one name, under the spelling shown. -/
structure MetadataEntry where
  spelling : String
  values : List String
  deriving DecidableEq, Repr

/-- Values by lower-case name. -/
structure Metadata where
  entries : Dict MetadataEntry
  deriving DecidableEq

namespace Metadata

open Text

instance : EmptyCollection Metadata := ⟨⟨∅⟩⟩
instance : Inhabited Metadata := ⟨∅⟩

/-- The entry of a name. -/
def entry? (m : Metadata) (name : String) : Option MetadataEntry := m.entries.get? (lower name)

/-- Appends a value under a name. -/
def add (m : Metadata) (name value : String) : Metadata :=
  let e := (m.entry? name).getD ⟨name, []⟩
  ⟨m.entries.insert (lower name) { e with values := e.values ++ [value] }⟩

/-- Puts a single value in place of all under a name. -/
def set (m : Metadata) (name value : String) : Metadata := ⟨m.entries.insert (lower name) ⟨name, [value]⟩⟩

/-- All values under a name. -/
def getAll (m : Metadata) (name : String) : List String := ((m.entry? name).map (·.values)).getD []

/-- The first value under a name. -/
def first? (m : Metadata) (name : String) : Option String := (m.getAll name).head?

/-- Whether a name has an entry. -/
def contains (m : Metadata) (name : String) : Bool := m.entries.contains (lower name)

/-- Removes a name. -/
def erase (m : Metadata) (name : String) : Metadata := ⟨m.entries.erase (lower name)⟩

/-- Takes the values of a name out. -/
def remove (m : Metadata) (name : String) : List String × Metadata := (m.getAll name, m.erase name)

/-- Every value with the spelling of its name, in order of the lower-case names. -/
def pairs (m : Metadata) : List (String × String) :=
  m.entries.values.flatMap fun e => e.values.map fun v => (e.spelling, v)

/-- How many names there are. -/
def size (m : Metadata) : Nat := m.entries.size

/-- Whether there is no name. -/
def isEmpty (m : Metadata) : Bool := m.entries.isEmpty

/-- The metadata that pairs make, added in order. -/
def ofPairs (ps : List (String × String)) : Metadata := ps.foldl (fun m p => m.add p.1 p.2) ∅

/-! ## Records -/

/-- The record of an entry: spelling and values. -/
def entryToJson (e : MetadataEntry) : Json := .arr [.str e.spelling, .arr (e.values.map .str)]

/-- The entry of a record. -/
def entryOfJson? : Json → Option MetadataEntry
  | .arr [s, vs] => do return ⟨← s.str?, ← vs.list? Json.str?⟩
  | _ => none

/-- The record of metadata. -/
def toJson (m : Metadata) : Json := .obj [("entries", .obj (m.entries.map entryToJson).entries)]

/-- The metadata of a record. -/
def ofJson? (j : Json) : Option Metadata := do
  let m ← Json.members? ["entries"] j
  return ⟨← m.required "entries" (Json.dict? entryOfJson?)⟩

instance : Record Metadata := ⟨toJson, ofJson?⟩

end Metadata

end ContentMesh
