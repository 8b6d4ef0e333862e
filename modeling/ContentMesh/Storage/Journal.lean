import ContentMesh.Failure
import ContentMesh.Json.Printer
import ContentMesh.Json.Reader
import ContentMesh.Json.Record

/-!
# ContentMesh.Storage.Journal — a map as a file of changes

One line of JSON for each change.  Reading a file plays its lines back; only the last line that is not empty may
be unreadable, because a write that was cut off leaves it so.
-/

namespace ContentMesh

/-- A change of a map. -/
inductive Change (V : Type) where
  | put (key : String) (value : V)
  | delete (key : String)
  deriving DecidableEq, Repr

namespace Change

variable {V : Type}

/-- A map after a change. -/
def apply (d : Dict V) : Change V → Dict V
  | put k v => d.insert k v
  | delete k => d.erase k

/-! ## Lines -/

/-- The record of a change. -/
def toJson [Record V] : Change V → Json
  | put k v => .obj [("op", .str "put"), ("key", .str k), ("value", Record.toJson v)]
  | delete k => .obj [("op", .str "delete"), ("key", .str k)]

/-- The bytes of a line, newline included. -/
def line [Record V] (c : Change V) : Bytes := Utf8.encode c.toJson.chars ++ [10]

/-- A change of a kind from the members that describe it. -/
def ofMembers? [Record V] (op : String) (rest : Json) : Option (Change V) :=
  match op with
  | "put" => do
    let m ← Json.members? ["key", "value"] rest
    return put (← m.required "key" Json.str?) (← m.required "value" Record.ofJson?)
  | "delete" => do
    let m ← Json.members? ["key"] rest
    return delete (← m.required "key" Json.str?)
  | _ => none

/-- The change of a record: its kind stands in the member `op`, or first in an array. -/
def ofJson? [Record V] (j : Json) : Option (Change V) :=
  if j.clear && j.depth ≤ Json.depthLimit then
    match j with
    | .arr (.str op :: xs) => ofMembers? op (.arr xs)
    | .obj ms =>
      match ms.filter (·.1 == "op") with
      | [(_, .str op)] => ofMembers? op (.obj (ms.filter (·.1 != "op")))
      | _ => none
    | _ => none
  else none

/-- The change of a line without its newline. -/
def ofLine? [Record V] (b : Bytes) : Option (Change V) := (Json.readBytes b).bind ofJson?

end Change

namespace Journal

variable {V : Type}

/-- Appends a byte to the last of a list of pieces that is newest first; a newline begins another piece. -/
def splitStep (pieces : List Bytes) (b : UInt8) : List Bytes :=
  if b == 10 then [] :: pieces
  else
    match pieces with
    | p :: ps => (b :: p) :: ps
    | [] => [[b]]

/-- The pieces between newlines that are not empty. -/
def lines (b : Bytes) : List Bytes :=
  (((b.foldl splitStep [[]]).map List.reverse).reverse).filter fun l => !l.isEmpty

/-- Plays lines back onto a map.  An unreadable line is passed over if it is the last, else its number is the
answer. -/
def replayFrom [Record V] (d : Dict V) (number : Nat) : List Bytes → Except Nat (Dict V)
  | [] => .ok d
  | l :: ls =>
    match Change.ofLine? l with
    | some c => replayFrom (Change.apply d c) (number + 1) ls
    | none => if ls.isEmpty then .ok d else .error number

/-- The map of a file. -/
def replay [Record V] (b : Bytes) : Except Nat (Dict V) := replayFrom ∅ 1 (lines b)

/-- The file that a map is written anew as: one line for each binding. -/
def image [Record V] (d : Dict V) : Bytes := d.entries.flatMap fun e => (Change.put e.1 e.2).line

/-- Length below which a journal is not renewed while it grows. -/
def shortLength : Nat := 1024

/-- Whether a journal of `length` lines for `live` bindings is to be renewed. -/
def overdue (length live : Nat) : Bool := shortLength < length && 2 * live < length

end Journal

end ContentMesh
