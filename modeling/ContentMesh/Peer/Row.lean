import ContentMesh.Json.Record

/-!
# ContentMesh.Peer.Row — the instances a node knows, and itself

A row holds what one node knows of another instance: who it is, how far the two have agreed, and the key of the
link between them.
-/

namespace ContentMesh

/-- How far a node and a peer have agreed, as the node sees it. -/
inductive Status where
  | registered
  | requested
  | requesting
  deriving DecidableEq, Repr

namespace Status

/-- The name of a status in records. -/
def name : Status → String
  | registered => "registered"
  | requested => "requested"
  | requesting => "requesting"

/-- The statuses by name. -/
def byName : List (String × Status) := [registered, requested, requesting].map fun s => (s.name, s)

/-- The record of a status. -/
def toJson (s : Status) : Json := .str s.name

/-- The status of a record. -/
def ofJson? : Json → Option Status := Json.case? byName

instance : Record Status := ⟨toJson, ofJson?⟩

end Status

/-- A peer: its uri is its stable name, its id an alias. -/
structure Peer where
  id : String
  name : String
  uri : String
  status : Status
  receiveKey : Option String
  properties : Dict String
  deriving DecidableEq

namespace Peer

/-- A peer without key and properties. -/
def new (id name uri : String) (status : Status) : Peer := ⟨id, name, uri, status, none, ∅⟩

/-- Whether messages flow. -/
def isRegistered (p : Peer) : Bool := p.status == .registered

/-- Whether a text is the peer's uri or id. -/
def answersTo (p : Peer) (text : String) : Bool := p.uri == text || p.id == text

/-- The record of a peer. -/
def toJson (p : Peer) : Json :=
  .obj ([("id", .str p.id), ("name", .str p.name), ("uri", .str p.uri), ("status", p.status.toJson)]
    ++ Json.given "receive_key" (p.receiveKey.map .str)
    ++ Json.given "properties" (if p.properties.isEmpty then none else some (.obj (p.properties.map .str).entries)))

/-- The peer of a record. -/
def ofJson? (j : Json) : Option Peer := do
  let m ← Json.members? ["id", "name", "uri", "status", "receive_key", "properties"] j
  return ⟨← m.required "id" Json.str?, ← m.required "name" Json.str?, ← m.required "uri" Json.str?,
    ← m.required "status" Status.ofJson?, ← m.optional "receive_key" none (Json.nullable? Json.str?),
    ← m.optional "properties" ∅ (Json.dict? Json.str?)⟩

instance : Record Peer := ⟨toJson, ofJson?⟩

end Peer

/-- Who a node is, as it tells its peers. -/
structure Identity where
  id : String
  name : String
  uri : String
  deriving DecidableEq, Repr, Inhabited

namespace Identity

/-- The record of an identity. -/
def toJson (i : Identity) : Json := .obj [("id", .str i.id), ("name", .str i.name), ("uri", .str i.uri)]

/-- The identity of a record. -/
def ofJson? (j : Json) : Option Identity := do
  let m ← Json.members? ["id", "name", "uri"] j
  return ⟨← m.required "id" Json.str?, ← m.required "name" Json.str?, ← m.required "uri" Json.str?⟩

instance : Record Identity := ⟨toJson, ofJson?⟩

end Identity

end ContentMesh
