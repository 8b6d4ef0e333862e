import ContentMesh.Bytes.Utf8
import ContentMesh.Dict
import ContentMesh.Number.Binary64

/-!
# ContentMesh.Json.Value — JSON trees

An object keeps its members as written, repeated names included, because a record may not name a member twice.
`garbled` is a value that is well-formed as text but stands for nothing: a string with half a surrogate pair, or a
number too large for a float.  It may stand where a record passes over a member, and nowhere else.
-/

namespace ContentMesh

/-- A number: a natural number below `2^64`, the magnitude of a negative integer, or a float. -/
inductive Numeral where
  | nat (n : Nat)
  | neg (n : Nat)
  | float (x : Float)
  deriving Repr, Inhabited

/-- A JSON tree. -/
inductive Json where
  | null
  | bool (b : Bool)
  | num (n : Numeral)
  | str (s : String)
  | arr (xs : List Json)
  | obj (members : List (String × Json))
  | garbled
  deriving Inhabited

namespace Json

/-! ## Shape -/

mutual

/-- How deep arrays and objects are nested. -/
def depth : Json → Nat
  | arr xs => depthOfList xs + 1
  | obj ms => depthOfMembers ms + 1
  | _ => 0

/-- The depth of the deepest element. -/
def depthOfList : List Json → Nat
  | [] => 0
  | x :: xs => max x.depth (depthOfList xs)

/-- The depth of the deepest member. -/
def depthOfMembers : List (String × Json) → Nat
  | [] => 0
  | (_, x) :: ms => max x.depth (depthOfMembers ms)

end

mutual

/-- Whether some part of a tree has a property. -/
def any (p : Json → Bool) : Json → Bool
  | arr xs => p (arr xs) || anyElement p xs
  | obj ms => p (obj ms) || anyMember p ms
  | x => p x

/-- Whether some part of an element has a property. -/
def anyElement (p : Json → Bool) : List Json → Bool
  | [] => false
  | x :: xs => x.any p || anyElement p xs

/-- Whether some part of the value of a member has a property. -/
def anyMember (p : Json → Bool) : List (String × Json) → Bool
  | [] => false
  | (_, x) :: ms => x.any p || anyMember p ms

end

/-- Whether a tree is the one that stands for nothing. -/
def isGarbled : Json → Bool
  | garbled => true
  | _ => false

/-- Whether every part of a tree stands for something. -/
def clear (j : Json) : Bool := !j.any isGarbled

mutual

/-- The tree with the members of every object in key order, the last of a repeated name kept. -/
def sorted : Json → Json
  | arr xs => arr (sortedList xs)
  | obj ms => obj (Dict.ofList (sortedMembers ms)).entries
  | x => x

/-- The elements, each sorted. -/
def sortedList : List Json → List Json
  | [] => []
  | x :: xs => x.sorted :: sortedList xs

/-- The members, the value of each sorted. -/
def sortedMembers : List (String × Json) → List (String × Json)
  | [] => []
  | (k, x) :: ms => (k, x.sorted) :: sortedMembers ms

end

/-- How deep a tree may be nested that is read whole. -/
def depthLimit : Nat := 127

/-- The tree in key order, if all of it stands for something and it is not nested too deep. -/
def whole? (j : Json) : Option Json := if j.clear && j.depth ≤ depthLimit then some j.sorted else none

/-! ## Parts -/

/-- The text of a string. -/
def str? : Json → Option String
  | str s => some s
  | _ => none

/-- A truth value. -/
def bool? : Json → Option Bool
  | bool b => some b
  | _ => none

/-- A natural number below `bound`. -/
def natBelow? (bound : Nat) : Json → Option Nat
  | num (.nat n) => if n < bound then some n else none
  | _ => none

/-- A natural number of 64 bits. -/
def nat64? : Json → Option Nat := natBelow? (1 <<< 64)

/-- A natural number of 32 bits. -/
def nat32? : Json → Option Nat := natBelow? (1 <<< 32)

/-- Any number as a float. -/
def float? : Json → Option Float
  | num (.nat n) => some n.toUInt64.toFloat
  | num (.neg n) => some (-n.toUInt64.toFloat)
  | num (.float x) => some x
  | _ => none

/-- The elements of an array, each read by `f`. -/
def list? {α : Type} (f : Json → Option α) : Json → Option (List α)
  | arr xs => xs.mapM f
  | _ => none

/-- `null`, or a value read by `f`. -/
def nullable? {α : Type} (f : Json → Option α) : Json → Option (Option α)
  | null => some none
  | j => (f j).map some

/-- An object with values read by `f`, the last of a repeated name kept. -/
def dict? {α : Type} (f : Json → Option α) : Json → Option (Dict α)
  | obj ms => (ms.mapM fun m => (f m.2).map fun v => (m.1, v)).map Dict.ofList
  | _ => none

/-- A number as a tree. -/
def ofNat (n : Nat) : Json := num (.nat n)

/-- `null` or a string. -/
def ofText? : Option String → Json
  | some s => str s
  | none => null

end Json

end ContentMesh
