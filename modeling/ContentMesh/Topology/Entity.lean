import ContentMesh.Failure
import ContentMesh.Json.Record

/-!
# ContentMesh.Topology.Entity — the hierarchy of contents

Everything lies under `global`: wikis, in a wiki spaces within spaces, in a space documents.  The text of an
entity is its kind and the names on the way to it; reading takes exactly the texts of entities whose names are
not empty and hold no slash.
-/

namespace ContentMesh

/-- A node of the hierarchy; the path of a space runs from the outermost space down. -/
inductive Entity where
  | global
  | wiki (name : String)
  | space (wiki : String) (path : List String)
  | document (wiki : String) (space : List String) (name : String)
  deriving DecidableEq, Repr, Inhabited

namespace Entity

/-- The enclosing entity. -/
def parent? : Entity → Option Entity
  | global => none
  | wiki _ => some global
  | space w path => if path.length ≤ 1 then some (wiki w) else some (space w path.dropLast)
  | document w path _ => some (space w path)

/-! ## Text -/

/-- Names joined by slashes. -/
def joined (names : List String) : String := "/".intercalate names

/-- The text of an entity. -/
def text : Entity → String
  | global => "global"
  | wiki w => "wiki:" ++ w
  | space w path => "space:" ++ w ++ "/" ++ joined path
  | document w path name => "document:" ++ w ++ "/" ++ joined path ++ "/" ++ name

/-- The characters between slashes. -/
def segments : List Char → List (List Char)
  | [] => [[]]
  | c :: cs =>
    if c = '/' then [] :: segments cs
    else
      match segments cs with
      | s :: ss => (c :: s) :: ss
      | [] => [[c]]

/-- The characters before the first colon, and those after it. -/
def splitKind : List Char → Option (List Char × List Char)
  | [] => none
  | c :: cs => if c = ':' then some ([], cs) else (splitKind cs).map fun p => (c :: p.1, p.2)

/-- The entity of a kind with these names on the way to it. -/
def ofNames? (kind : String) (names : List String) : Option Entity :=
  if names.contains "" then none
  else
    match kind, names with
    | "wiki", [w] => some (wiki w)
    | "space", w :: s :: path => some (space w (s :: path))
    | "document", w :: s :: path =>
      match path.getLast? with
      | some name => some (document w (s :: path.dropLast) name)
      | none => none
    | _, _ => none

/-- The entity that a text names. -/
def ofText? (s : String) : Option Entity :=
  if s = "global" then some global
  else
    match splitKind s.toList with
    | some (kind, rest) => ofNames? (String.ofList kind) ((segments rest).map String.ofList)
    | none => none

/-- The entity that a text names, or what is wrong with the text. -/
def read (s : String) : Except Failure Entity :=
  match ofText? s with
  | some e => .ok e
  | none => .error (.invalid (.malformedEntity s))

/-- The record of an entity. -/
def toJson (e : Entity) : Json := .str e.text

/-- The entity of a record. -/
def ofJson? (j : Json) : Option Entity := j.str?.bind ofText?

instance : Record Entity := ⟨toJson, ofJson?⟩

/-! ## Order -/

/-- The place of a kind in the order. -/
def rank : Entity → Nat
  | global => 0
  | wiki _ => 1
  | space .. => 2
  | document .. => 3

/-- The order of texts. -/
def compareText (a b : String) : Ordering := if a < b then .lt else if b < a then .gt else .eq

/-- The order of lists of texts: by the first difference, a list before its extensions. -/
def comparePath : List String → List String → Ordering
  | [], [] => .eq
  | [], _ => .lt
  | _, [] => .gt
  | a :: as, b :: bs => (compareText a b).then (comparePath as bs)

/-- By kind from `global` down, then by the names in order. -/
def compare (a b : Entity) : Ordering :=
  match a, b with
  | wiki v, wiki w => compareText v w
  | space v p, space w q => (compareText v w).then (comparePath p q)
  | document v p m, document w q n => ((compareText v w).then (comparePath p q)).then (compareText m n)
  | a, b => Ord.compare a.rank b.rank

/-- Entities in order. -/
def sort (es : List Entity) : List Entity := es.mergeSort fun a b => compare a b != .gt

end Entity

end ContentMesh
