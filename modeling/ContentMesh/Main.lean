import ContentMesh.Settings.Basic

/-!
# ContentMesh.Main — checking settings from the command line

`check` reads a file of settings and says whether a node can run with them.  The sockets and the clock of a running
node belong to the program that hosts it.
-/

namespace ContentMesh

/-! ## Arguments -/

/-- The file that is read if none is named. -/
def standardPath : String := "/etc/wikimesh/repl.toml"

/-- How the program is called. -/
def usage : String := "Usage: wm-repl check [--config <CONFIG>]"

/-- The path after an option's name and an equals sign. -/
def valueOf? (option argument : String) : Option String :=
  let lead := (option ++ "=").toList
  if lead.isPrefixOf argument.toList then some (String.ofList (argument.toList.drop lead.length)) else none

/-- The path of the file to check. -/
def pathToCheck? : List String → Option String
  | ["check"] => some standardPath
  | ["check", "--config", path] | ["check", "-c", path] => some path
  | ["check", argument] => (valueOf? "--config" argument).or (valueOf? "-c" argument)
  | _ => none

/-! ## Reports -/

/-- What is said of settings that a node can run with. -/
def Settings.approval (s : Settings) : String := s.naming.uri ++ " (" ++ s.naming.name ++ ") ok"

/-- What is said of a file that gives no settings. -/
def Settings.FileFault.message (path : String) : Settings.FileFault → String
  | .unreadable => path ++ " cannot be read"
  | .badToml => path ++ " is not a TOML file of settings"
  | .badJson => path ++ " is not a JSON file of settings"
  | .badExtension e => Settings.unsupported e
  | .invalid f => f.message

/-- The content of a file, if it can be read. -/
def contentOf? (path : String) : IO (Option Bytes) := do
  match ← (IO.FS.readBinFile path).toBaseIO with
  | .ok bytes => return some bytes.toList
  | .error _ => return none

/-- Checks the settings at a path; the exit code. -/
def check (path : String) : IO UInt32 := do
  match Settings.ofFile path (← contentOf? path) with
  | .ok settings =>
    IO.println settings.approval
    return 0
  | .error fault =>
    IO.eprintln ("Error: " ++ fault.message path)
    return 1

end ContentMesh

/-- The program. -/
def main (arguments : List String) : IO UInt32 :=
  match ContentMesh.pathToCheck? arguments with
  | some path => ContentMesh.check path
  | none => do
    IO.eprintln ContentMesh.usage
    return 2
