import ContentMesh.Toml.Scalar

/-!
# ContentMesh.Toml.Document — settings files in TOML

A document is a run of lines: a member of the table at hand, a header that opens a table, or nothing.  A table may
be opened once; tables that only lie on the way to others are open until then, and a table made by dotted names
is never opened by a header.  The document is given as one JSON object.
-/

namespace ContentMesh.Toml

/-- A value, a table, or the tables of one name, newest first.  An implicit table lies on the way to another; a
dotted one was made by the names of a member. -/
inductive Item where
  | value (j : Json)
  | table (isImplicit isDotted : Bool) (items : List (String × Item))
  | tables (done : List (List (String × Item)))

/-- A table with its two marks. -/
structure Section where
  isImplicit : Bool
  isDotted : Bool
  items : List (String × Item)

/-- The items with a name bound to another item. -/
def rebind (items : List (String × Item)) (k : String) (i : Item) : List (String × Item) :=
  (k, i) :: items.filter (·.1 != k)

/-- Changes the table at the end of a path, making the tables on the way that are missing. -/
def descend (isDotted : Bool) (f : Section → Option Section) : List String → Section → Option Section
  | [], t => f t
  | k :: ks, t =>
    let store := fun (i : Item) => { t with items := rebind t.items k i }
    match t.items.lookup k with
    | none =>
      (descend isDotted f ks ⟨true, isDotted, []⟩).map fun s => store (.table s.isImplicit s.isDotted s.items)
    | some (.table imp dot items) =>
      if isDotted && !imp then none
      else (descend isDotted f ks ⟨imp, dot, items⟩).map fun s => store (.table s.isImplicit s.isDotted s.items)
    | some (.tables (t :: ts)) => (descend isDotted f ks ⟨false, false, t⟩).map fun s => store (.tables (s.items :: ts))
    | some _ => none

/-- Adds a member under a dotted name. -/
def addMember (path : List String) (key : String) (j : Json) : Section → Option Section :=
  descend (!path.isEmpty) (fun t =>
    if t.isDotted == path.isEmpty then none
    else if (t.items.lookup key).isSome then none
    else some { t with items := (key, .value j) :: t.items }) path

/-- Opens a table. -/
def openTable (path : List String) (key : String) : Section → Option Section :=
  descend false (fun t =>
    match t.items.lookup key with
    | none => some { t with items := (key, .table false false []) :: t.items }
    | some (.table true false items) => some { t with items := rebind t.items key (.table false false items) }
    | some _ => none) path

/-- Opens a further table of a name. -/
def openTables (path : List String) (key : String) : Section → Option Section :=
  descend false (fun t =>
    match t.items.lookup key with
    | none => some { t with items := (key, .tables [[]]) :: t.items }
    | some (.tables ts) => some { t with items := rebind t.items key (.tables ([] :: ts)) }
    | some _ => none) path

mutual

/-- An item as a tree. -/
def Item.toJson : Item → Json
  | .value j => j
  | .table _ _ items => .obj (membersOf items)
  | .tables done => .arr (objectsOf done).reverse

/-- Items as members. -/
def membersOf : List (String × Item) → List (String × Json)
  | [] => []
  | (k, i) :: is => (k, i.toJson) :: membersOf is

/-- Tables as objects. -/
def objectsOf : List (List (String × Item)) → List Json
  | [] => []
  | t :: ts => .obj (membersOf t) :: objectsOf ts

end

/-! ## Reading -/

/-- Whether a character may stand in a name without quotes. -/
def bare (c : Char) : Bool :=
  ('a' ≤ c && c ≤ 'z') || ('A' ≤ c && c ≤ 'Z') || ('0' ≤ c && c ≤ '9') || c = '-' || c = '_'

/-- A name. -/
def simpleKey (cs : List Char) : Option (String × List Char) :=
  match cs with
  | '"' :: _ | '\'' :: _ => lineString cs
  | _ =>
    let k := cs.takeWhile bare
    if k.isEmpty then none else some (String.ofList k, cs.drop k.length)

/-- Names with dots and blanks between them, the blanks after the last included. -/
def dottedKey : Nat → Reading (List String)
  | 0, _ => none
  | fuel + 1, cs => do
    let (k, r) ← simpleKey (skipBlanks cs)
    match skipBlanks r with
    | '.' :: r =>
      let (ks, r) ← dottedKey fuel r
      return (k :: ks, r)
    | r => return ([k], r)

/-- A dotted name: the path and the last name. -/
def keyPath (cs : List Char) : Option ((List String × String) × List Char) := do
  let (ks, r) ← dottedKey (cs.length + 1) cs
  let last ← ks.getLast?
  return ((ks.dropLast, last), r)

/-- What follows blanks, newlines and comments. -/
def skipGap : Nat → List Char → List Char
  | 0, cs => cs
  | fuel + 1, cs =>
    match cs with
    | ' ' :: r | '\t' :: r | '\n' :: r => skipGap fuel r
    | '\r' :: '\n' :: r => skipGap fuel r
    | '#' :: _ => skipGap fuel (skipComment cs)
    | cs => cs

/-- How deep arrays and inline tables may be nested. -/
def depthLimit : Nat := 79

mutual

/-- A value; `depth` is what is left of the limit of nesting. -/
def value : Nat → Nat → Reading Json
  | 0, _, _ => none
  | fuel + 1, depth, cs =>
    match cs with
    | '[' :: r => if depth = 0 then none else (elements fuel (depth - 1) r).map fun p => (.arr p.1, p.2)
    | '{' :: r =>
      if depth = 0 then none
      else
        match skipBlanks r with
        | '}' :: r => some (.obj [], r)
        | r => do
          let (t, r) ← inlineMembers fuel (depth - 1) ⟨false, false, []⟩ r
          return (.obj (membersOf t.items), r)
    | cs => scalar cs

/-- The elements of an array and its closing bracket. -/
def elements : Nat → Nat → Reading (List Json)
  | 0, _, _ => none
  | fuel + 1, depth, cs =>
    match skipGap cs.length cs with
    | ']' :: r => some ([], r)
    | cs =>
      match value fuel depth cs with
      | none => none
      | some (j, r) =>
        match skipGap r.length r with
        | ',' :: r => (elements fuel depth r).map fun p => (j :: p.1, p.2)
        | ']' :: r => some ([j], r)
        | _ => none

/-- The members of an inline table and its closing brace. -/
def inlineMembers : Nat → Nat → Section → Reading Section
  | 0, _, _, _ => none
  | fuel + 1, depth, t, cs =>
    match keyPath cs with
    | some ((path, key), '=' :: r) =>
      match value fuel depth (skipBlanks r) with
      | none => none
      | some (j, r) =>
        match addMember path key j t with
        | none => none
        | some t =>
          match skipBlanks r with
          | ',' :: r => inlineMembers fuel depth t r
          | '}' :: r => some (t, r)
          | _ => none
    | _ => none

end

/-- What follows the end of a line: blanks, a comment, a newline or the end of the text. -/
def endLine (cs : List Char) : Option (List Char) :=
  match skipComment (skipBlanks cs) with
  | [] => some []
  | cs => newline? cs

/-- A document so far, and the path of the table at hand. -/
structure Draft where
  root : Section
  path : List String

/-- A member of the table at hand. -/
def Draft.add (d : Draft) (path : List String) (key : String) (j : Json) : Option Draft :=
  (descend false (addMember path key j) d.path d.root).map fun root => { d with root }

/-- One line that is not empty. -/
def line (d : Draft) (cs : List Char) : Option (Draft × List Char) :=
  match cs with
  | '[' :: '[' :: r => do
    let ((path, key), r) ← keyPath r
    match r with
    | ']' :: ']' :: r =>
      let root ← openTables path key d.root
      return (⟨root, path ++ [key]⟩, ← endLine r)
    | _ => none
  | '[' :: r => do
    let ((path, key), r) ← keyPath r
    match r with
    | ']' :: r =>
      let root ← openTable path key d.root
      return (⟨root, path ++ [key]⟩, ← endLine r)
    | _ => none
  | cs => do
    let ((path, key), r) ← keyPath cs
    match r with
    | '=' :: r =>
      let r := skipBlanks r
      let (j, r) ← value (r.length + 1) depthLimit r
      return (← d.add path key j, ← endLine r)
    | _ => none

/-- All lines. -/
def lines : Nat → Draft → List Char → Option Draft
  | 0, _, _ => none
  | fuel + 1, d, cs =>
    match skipGap cs.length cs with
    | [] => some d
    | cs =>
      match line d cs with
      | some (d, r) => lines fuel d r
      | none => none

/-- The object that a text in TOML stands for; a byte order mark at its start does not count. -/
def read (s : String) : Option Json :=
  let cs := match s.toList with
    | '\uFEFF' :: r => r
    | cs => cs
  (lines (cs.length + 1) ⟨⟨false, false, []⟩, []⟩ cs).map fun d => .obj (membersOf d.root.items)

end ContentMesh.Toml
