import ContentMesh.Peer.Row

/-!
# ContentMesh.Peer.Handshake — what two instances say to each other to register

The caller presents itself and may propose a key for the link; the answer says who answers, what happened there,
which status the caller has there now, and the key that the answering side holds where it settled one.
-/

namespace ContentMesh

/-- A request to be registered. -/
structure Registration where
  id : String
  name : String
  uri : String
  key : Option String
  deriving DecidableEq, Repr

namespace Registration

/-- The request that an identity makes. -/
def of (i : Identity) (key : Option String) : Registration := ⟨i.id, i.name, i.uri, key⟩

/-- The parameters of a request, in order. -/
def parameters (r : Registration) : List (String × String) :=
  [("id", r.id), ("name", r.name), ("uri", r.uri)] ++ (r.key.map fun k => ("key", k)).toList

/-- The record of a request. -/
def toJson (r : Registration) : Json := .obj (r.parameters.map fun p => (p.1, .str p.2))

/-- The request of a record. -/
def ofJson? (j : Json) : Option Registration := do
  let m ← Json.members? ["id", "name", "uri", "key"] j
  return ⟨← m.required "id" Json.str?, ← m.required "name" Json.str?, ← m.required "uri" Json.str?,
    ← m.optional "key" none (Json.nullable? Json.str?)⟩

instance : Record Registration := ⟨toJson, ofJson?⟩

end Registration

/-- What a request led to where it arrived. -/
inductive Outcome where
  | created
  | alreadyKnown
  | confirmed
  | conflict
  deriving DecidableEq, Repr

namespace Outcome

/-- The name of an outcome in records. -/
def name : Outcome → String
  | created => "created"
  | alreadyKnown => "already_known"
  | confirmed => "confirmed"
  | conflict => "conflict"

/-- The outcomes by name. -/
def byName : List (String × Outcome) :=
  [created, alreadyKnown, confirmed, conflict].map fun o => (o.name, o)

/-- The record of an outcome. -/
def toJson (o : Outcome) : Json := .str o.name

/-- The outcome of a record. -/
def ofJson? : Json → Option Outcome := Json.case? byName

instance : Record Outcome := ⟨toJson, ofJson?⟩

end Outcome

/-- The answer to a request. -/
structure RegistrationAnswer where
  answerer : Identity
  outcome : Outcome
  status : Option Status
  key : Option String
  deriving DecidableEq, Repr

namespace RegistrationAnswer

/-- The record of an answer. -/
def toJson (a : RegistrationAnswer) : Json :=
  .obj ([("instance", a.answerer.toJson), ("outcome", a.outcome.toJson),
    ("status", (a.status.map Status.toJson).getD .null)] ++ Json.given "key" (a.key.map .str))

/-- The answer of a record. -/
def ofJson? (j : Json) : Option RegistrationAnswer := do
  let m ← Json.members? ["instance", "outcome", "status", "key"] j
  return ⟨← m.required "instance" Identity.ofJson?, ← m.required "outcome" Outcome.ofJson?,
    ← m.nullable "status" Status.ofJson?, ← m.optional "key" none (Json.nullable? Json.str?)⟩

instance : Record RegistrationAnswer := ⟨toJson, ofJson?⟩

end RegistrationAnswer

end ContentMesh
