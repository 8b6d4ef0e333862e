import ContentMesh.Http.Url
import ContentMesh.Http.Wire
import ContentMesh.Json.Reader

/-!
# ContentMesh.Http.Client — what is asked of a peer over HTTP, and what its reply means

A request that cannot be built will not do better another time; a peer that cannot be reached may.
-/

namespace ContentMesh.Http

/-- What a peer replies. -/
structure Reply where
  status : Nat
  body : Bytes
  deriving DecidableEq, Repr

/-- Whether a status reports success. -/
def succeeded (status : Nat) : Bool := 200 ≤ status && status < 300

/-- Whether a text may stand as the value of a header: it holds no control character but tabs. -/
def headerValueFits (s : String) : Bool := s.toList.all fun c => c = '\t' || (32 ≤ c.toNat && c.toNat != 127)

/-- A request, if it can be built. -/
def checked (r : Request) : Except Failure Request :=
  if Url.sendable r.address && r.headers.all fun h => headerValueFits h.2 then .ok r
  else .error (.invalid (.other (r.address ++ ": builder error")))

/-- The failure of a request whose peer cannot be reached. -/
def unreached (r : Request) : Failure := .network (r.address ++ ": error sending request")

/-- The failure of a reply that cannot be read. -/
def unreadable (address : String) : Failure := .network (address ++ ": error decoding response body")

/-- The request that delivers a message to the peer at `uri`. -/
def deliver (self : Identity) (uri : String) (p : Parcel) (signature : Option String) : Except Failure Request :=
  checked ⟨endpoint uri messagePath, messageQuery self p, messageHeaders p.header.metadata signature, p.body⟩

/-- The request that asks the peer at `uri` to register a node. -/
def register (uri : String) (r : Registration) : Except Failure Request :=
  checked ⟨endpoint uri registerPath, r.parameters, [], []⟩

/-- The request that tells the peer at `uri` to forget a node. -/
def unregister (uri id : String) : Except Failure Request :=
  checked ⟨endpoint uri unregisterPath, [("id", id)], [], []⟩

/-- What the reply to a message means. -/
def delivered (uri : String) (r : Reply) : Except Failure Unit :=
  if succeeded r.status then .ok () else .error (.ofStatus uri r.status)

/-- What the reply to a registration means; a conflict is an answer as well. -/
def registered (uri : String) (r : Reply) : Except Failure RegistrationAnswer :=
  if succeeded r.status || r.status == 409 then
    match (Json.readBytes r.body).bind RegistrationAnswer.ofJson? with
    | some a => .ok a
    | none => .error (unreadable (endpoint uri registerPath))
  else .error (.ofStatus uri r.status)

/-- What the reply to taking leave means: whether the peer knew the node. -/
def unregistered (uri : String) (r : Reply) : Except Failure Bool :=
  if r.status == 404 then .ok false
  else if succeeded r.status then .ok true
  else .error (.ofStatus uri r.status)

end ContentMesh.Http
