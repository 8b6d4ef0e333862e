/-!
# ContentMesh.Storage.Path — names of files

A path is text with slashes.  The extension of a name is what follows its last dot, unless only an empty part
stands before that dot.
-/

namespace ContentMesh.Path

/-- The characters up to the last `c`, and those after it; `none` without one. -/
def splitLast (c : Char) : List Char → Option (List Char × List Char)
  | [] => none
  | d :: ds =>
    match splitLast c ds with
    | some (a, b) => some (d :: a, b)
    | none => if d = c then some ([], ds) else none

/-- The directory of a path and the name in it. -/
def split (p : String) : String × String :=
  match splitLast '/' p.toList with
  | some (d, n) => (String.ofList d, String.ofList n)
  | none => ("", p)

/-- The directory of a path. -/
def directory (p : String) : String := (split p).1

/-- The name of a path in its directory. -/
def name (p : String) : String := (split p).2

/-- The stem of a name and its extension. -/
def stem (name : String) : String × Option String :=
  if name = ".." then (name, none)
  else
    match splitLast '.' name.toList with
    | some ([], _) | none => (name, none)
    | some (a, b) => (String.ofList a, some (String.ofList b))

/-- The extension of a path. -/
def extension? (p : String) : Option String := (stem (name p)).2

/-- A name in a directory. -/
def join (d n : String) : String := d ++ "/" ++ n

/-- The path with another extension. -/
def withExtension (p ext : String) : String :=
  let (d, n) := split p
  let n := (stem n).1 ++ "." ++ ext
  if d = "" then n else join d n

/-- The path of the file that is written before it takes the place of `p`. -/
def temporary (p : String) : String := withExtension p "tmp"

end ContentMesh.Path
