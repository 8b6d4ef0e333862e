import ContentMesh.Json.Value

/-!
# ContentMesh.Json.Record — records read by name or by position

A record is an object or an array.  In an object a declared name may stand once and other names are passed over;
in an array the values stand in declared order, and those at the end may be missing if they have a default.
`Record` is the class of types with such a form.
-/

namespace ContentMesh

/-- A type whose values are kept and sent as JSON trees. -/
class Record (α : Type) where
  toJson : α → Json
  ofJson? : Json → Option α

namespace Json

/-- The declared members that a tree gives, each with its value. -/
structure Members where
  values : List (String × Json)
  byPosition : Bool

/-- The members of `names` in a tree. -/
def members? (names : List String) : Json → Option Members
  | obj ms =>
    let known := ms.filter fun m => names.contains m.1
    if (known.map (·.1)).Nodup then some ⟨known, false⟩ else none
  | arr xs => if xs.length ≤ names.length then some ⟨names.zip xs, true⟩ else none
  | _ => none

namespace Members

variable {α : Type}

/-- A member that must be there. -/
def required (m : Members) (name : String) (f : Json → Option α) : Option α := (m.values.lookup name).bind f

/-- A member that may be `null`, or absent where members have names. -/
def nullable (m : Members) (name : String) (f : Json → Option α) : Option (Option α) :=
  match m.values.lookup name with
  | some j => nullable? f j
  | none => if m.byPosition then none else some none

/-- A member with a default. -/
def optional (m : Members) (name : String) (default : α) (f : Json → Option α) : Option α :=
  match m.values.lookup name with
  | some j => f j
  | none => some default

end Members

/-- The name of a case without data: a string, or an object of that name alone with the value `null`. -/
def caseName? : Json → Option String
  | str s => some s
  | obj [(k, null)] => some k
  | _ => none

/-- A case without data, by its name. -/
def case? {α : Type} (cases : List (String × α)) (j : Json) : Option α :=
  (caseName? j).bind fun name => cases.lookup name

/-- A member that is written only if there is a value. -/
def given (name : String) : Option Json → List (String × Json)
  | some j => [(name, j)]
  | none => []

end Json

end ContentMesh
