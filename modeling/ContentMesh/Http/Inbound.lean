import ContentMesh.Http.Wire
import ContentMesh.Node.Receive

/-!
# ContentMesh.Http.Inbound — reading a message from a request

The reverse of `ContentMesh.Http.Wire`: what is missing in the query is made up, from the row of the peer that
sends the request or from the clock.
-/

namespace ContentMesh.Http

open Text

/-- The parameters of a message in a query. -/
structure MessageParameters where
  hop : String
  kind : String
  id : String
  source : Option String
  date : Option String
  receivers : Option String
  deriving DecidableEq, Repr

/-- Header lines as they arrive: names in any case, values as bytes. -/
abbrev HeaderLines := List (String × Bytes)

/-- The lines with names in lower case, those of one name together where its first one stands. -/
def grouped (lines : HeaderLines) : HeaderLines :=
  let lines := lines.map fun l => (lower l.1, l.2)
  (Questions.distinct (lines.map (·.1))).flatMap fun name => lines.filter (·.1 == name)

/-- The text of a header value: visible characters of ASCII, blanks and tabs. -/
def headerText? (b : Bytes) : Option String :=
  if b.all fun x => x == 9 || (32 ≤ x && x < 127) then some (String.ofList (b.map fun x => Char.ofNat x.toNat))
  else none

/-- The name of a metadata header without its mark. -/
def unmarked? (name : String) : Option String :=
  let mark := metadataMark.toList
  if mark.isPrefixOf name.toList then some (String.ofList (name.toList.drop mark.length)) else none

/-- The metadata of header lines. -/
def metadataOf (lines : HeaderLines) : Except Failure Metadata :=
  (grouped lines).foldlM (fun m l =>
    match unmarked? l.1 with
    | none => .ok m
    | some name => do
      let name ← decodeMetadata name
      match headerText? l.2 with
      | none => .error (.invalid (.opaqueValue name))
      | some value => return m.add name (← decodeMetadata value)) ∅

/-- The signature of header lines: the first of its name, if it is text. -/
def signatureOf (lines : HeaderLines) : Option String :=
  ((grouped lines).lookup signatureHeader).bind headerText?

/-- The date of a parameter, or now. -/
def dateOf (date : Option String) (now : Moment) : Except Failure Stamp :=
  match date with
  | none => .ok now.date
  | some s =>
    match Rfc3339.read s with
    | .ok t => .ok t
    | .error f => .error (.invalid (.badDate s f.message))

/-- The receivers in a list with commas, without blanks around them and without empty ones. -/
def receiversOf (s : String) : List String :=
  ((s.toList.splitOn ',').map fun cs => trim (String.ofList cs)).filter (· != "")

/-- The message of a request to a node. -/
def inboundOf (n : Node) (q : MessageParameters) (lines : HeaderLines) (body : Bytes) (now : Moment) :
    Except Failure Inbound :=
  if q.id = "" ∨ q.kind = "" then .error (.invalid .incomplete)
  else do
    let source := match q.source.filter (· != "") with
      | some s => s
      | none => ((n.registry.find? q.hop).map (·.uri)).getD q.hop
    let date ← dateOf q.date now
    let metadata ← metadataOf lines
    return ⟨⟨q.id, date, q.kind, source, receiversOf (q.receivers.getD ""), metadata⟩, q.hop, body,
      signatureOf lines⟩

end ContentMesh.Http
