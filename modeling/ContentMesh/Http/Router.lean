import ContentMesh.Http.Client
import ContentMesh.Http.Inbound

/-!
# ContentMesh.Http.Router — what a node does with a request

The path and the method choose the operation; then the query must give each parameter at most once, and the
required ones.  A message is handed to `Node.takeIn`, since its handling may take time.
-/

namespace ContentMesh.Http

/-- A request as it arrives. -/
structure Arrival where
  method : String
  path : String
  query : String
  lines : HeaderLines
  body : Bytes

/-- The arrival of a request for a path with a query after a question mark; what a hash begins does not
count. -/
def Arrival.of (method uri : String) (lines : HeaderLines) (body : Bytes) : Arrival :=
  let cs := uri.toList.takeWhile (· ≠ '#')
  let path := cs.takeWhile (· ≠ '?')
  ⟨method, String.ofList path, String.ofList (cs.drop (path.length + 1)), lines, body⟩

/-- What is replied: a status, and a tree for those replies that carry one. -/
structure Response where
  status : Nat
  json : Option Json

/-- A request that was answered, or a message to be taken in. -/
inductive Routed where
  | answered (r : Response)
  | message (i : Inbound)

/-- The reply that tells a failure. -/
def failed (f : Failure) : Response := ⟨f.httpStatus, some (.obj [("error", .str f.message)])⟩

/-- A reply without a tree. -/
def bare (status : Nat) : Response := ⟨status, none⟩

/-- The reply to a message that was taken in, or was not. -/
def messageResponse : Except Failure Reception → Response
  | .ok _ => bare 200
  | .error f => failed f

/-- The largest body that is read. -/
def bodyLimit : Nat := 2 * 1024 * 1024

/-! ## Parameters -/

/-- The parameters of a query by name, none of the known names twice. -/
def parameters? (known : List String) (query : String) : Option (List (String × String)) :=
  let ps := (Percent.decodeQuery query).filter fun p => known.contains p.1
  if (ps.map (·.1)).Nodup then some ps else none

/-- The parameters of a message. -/
def messageParameters? (query : String) : Option MessageParameters := do
  let ps ← parameters? ["instance", "type", "id", "source", "date", "receivers"] query
  return ⟨← ps.lookup "instance", ← ps.lookup "type", ← ps.lookup "id", ps.lookup "source", ps.lookup "date",
    ps.lookup "receivers"⟩

/-- The parameters of a registration. -/
def registration? (query : String) : Option Registration := do
  let ps ← parameters? ["id", "name", "uri", "key"] query
  return ⟨← ps.lookup "id", ← ps.lookup "name", ← ps.lookup "uri", ps.lookup "key"⟩

/-- The parameter of taking leave. -/
def leaver? (query : String) : Option String := (parameters? ["id"] query).bind fun ps => ps.lookup "id"

/-! ## Operations -/

/-- A message arrives. -/
def routeMessage (n : Node) (a : Arrival) (now : Moment) : Routed :=
  match messageParameters? a.query with
  | none => .answered (bare 400)
  | some q =>
    if bodyLimit < a.body.length then .answered (bare 413)
    else
      match inboundOf n q a.lines a.body now with
      | .ok i => .message i
      | .error f => .answered (failed f)

/-- A peer asks to be registered. -/
def routeRegister (n : Node) (a : Arrival) : Response × Node :=
  match registration? a.query with
  | none => (bare 400, n)
  | some q =>
    match n.onRegistry fun r => r.handleRegister q with
    | (.error f, n) => (failed f, n)
    | (.ok answer, n) => (⟨if answer.outcome = .conflict then 409 else 200, some answer.toJson⟩, n)

/-- A peer takes leave. -/
def routeUnregister (n : Node) (a : Arrival) : Response × Node :=
  match leaver? a.query with
  | none => (bare 400, n)
  | some id =>
    match n.onRegistry fun r => r.handleUnregister id with
    | (.error f, n) => (failed f, n)
    | (.ok true, n) => (bare 200, n)
    | (.ok false, n) => (failed (.notFound ("instance " ++ id)), n)

/-- The state of a node. -/
def health (n : Node) : Json :=
  .obj [("status", .str (if n.running then "ok" else "stopped")), ("instance", n.self.toJson)]

/-- The peers of a node. -/
def peerList (n : Node) : Json := .arr (n.registry.rows.map Peer.toJson)

/-- Answers a request, or finds the message in it. -/
def route (n : Node) (a : Arrival) (now : Moment) : Routed × Node :=
  let post := fun (f : Unit → Routed × Node) =>
    if a.method = "POST" then f () else (.answered (bare 405), n)
  let get := fun (j : Json) =>
    if a.method = "GET" || a.method = "HEAD" then (Routed.answered ⟨200, some j⟩, n) else (.answered (bare 405), n)
  match a.path with
  | "/message" => post fun _ => (routeMessage n a now, n)
  | "/instance/register" => post fun _ => let (r, n) := routeRegister n a; (.answered r, n)
  | "/instance/unregister" => post fun _ => let (r, n) := routeUnregister n a; (.answered r, n)
  | "/instances" => get (peerList n)
  | "/health" => get (health n)
  | _ => (.answered (bare 404), n)

end ContentMesh.Http
