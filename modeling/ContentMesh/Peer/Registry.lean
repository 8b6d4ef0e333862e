import ContentMesh.Peer.Handshake
import ContentMesh.Peer.Index
import ContentMesh.Storage.Store

/-!
# ContentMesh.Peer.Registry — who may exchange messages with a node

A peer comes from nowhere to `registered` in two steps, one at each side:

    none        — request —→       requested   — the peer confirms —→  registered
    none        — the peer asks —→ requesting  — accept —→             registered

An operation that speaks to its peer is in two halves.  `begin` claims the uri and says what to tell the peer;
`finish` takes the reply, looks at the row again, and gives the claim back.  In between anything else may happen.
-/

namespace ContentMesh

/-- The peers of a node.  `removals` are the rows removed since they were last taken. -/
structure Registry where
  self : Identity
  store : Store Peer
  index : PeerIndex
  claims : List String
  removals : List Peer

/-- An operation that speaks to the peer at `uri`; a request proposes a key. -/
inductive Errand where
  | request (uri key : String)
  | accept (uri : String)
  | decline (uri : String)
  | cancel (uri : String)
  | remove (uri : String)
  deriving DecidableEq, Repr

/-- The uri of the peer that an errand is about. -/
def Errand.uri : Errand → String
  | request uri _ | accept uri | decline uri | cancel uri | remove uri => uri

/-- What is said to a peer. -/
inductive PeerCall where
  | register (uri : String) (r : Registration)
  | unregister (uri id : String)
  deriving DecidableEq, Repr

/-- What comes back from a peer. -/
inductive PeerReply where
  | answer (a : RegistrationAnswer)
  | known (b : Bool)
  | failed (f : Failure)
  deriving DecidableEq, Repr

/-- An errand that waits for the reply of its peer. -/
inductive Waiting where
  | requesting (uri key : String)
  | accepting (row : Peer)
  | leaving (uri : String)
  deriving DecidableEq

/-- The uri that is claimed meanwhile. -/
def Waiting.uri : Waiting → String
  | requesting uri _ => uri
  | accepting row => row.uri
  | leaving uri => uri

/-- The key of a link for which both ends offered one: the smaller. -/
def agreedKey : Option String → Option String → Option String
  | some a, some b => some (if b < a then b else a)
  | a, b => a.or b

namespace Registry

/-- The registry over a store of rows. -/
def load (self : Identity) (store : Store Peer) : Except Failure Registry :=
  match store.values with
  | (.ok rows, store) => .ok ⟨self, store, .ofRows rows, [], []⟩
  | (.error f, _) => .error f

/-- A registry without rows. -/
def inMemory (self : Identity) : Registry := ⟨self, Store.inMemory, ∅, [], []⟩

/-! ## Looking up -/

/-- The peer that a uri or an id names. -/
def find? (r : Registry) (text : String) : Option Peer := r.index.find? text

/-- The peer of a uri. -/
def row? (r : Registry) (uri : String) : Option Peer := r.index.byUri.get? uri

/-- All peers, by uri. -/
def rows (r : Registry) : List Peer := r.index.byUri.values

/-- The peers of a status, by uri. -/
def withStatus (r : Registry) (s : Status) : List Peer := r.rows.filter (·.status == s)

/-- The peers with which messages flow, by uri. -/
def registered (r : Registry) : List Peer := r.withStatus .registered

/-- The peer of a uri, if messages flow with it. -/
def registered? (r : Registry) (uri : String) : Option Peer := (r.row? uri).filter Peer.isRegistered

/-! ## Changing rows -/

/-- Reads the rows anew. -/
def reload (r : Registry) : Except Failure Unit × Registry :=
  match r.store.values with
  | (.ok rows, store) => (.ok (), { r with store, index := .ofRows rows })
  | (.error f, store) => (.error f, { r with store })

/-- Writes a row. -/
def write (r : Registry) (p : Peer) : Except Failure Unit × Registry :=
  match r.store.put p.uri p with
  | (.ok (), store) => (.ok (), { r with store, index := r.index.insert p })
  | (.error f, store) => (.error f, { r with store })

/-- Writes a row, and gives `b` if that succeeds. -/
def writeThen (r : Registry) (p : Peer) (b : Bool) : Except Failure Bool × Registry :=
  match r.write p with
  | (.ok (), r) => (.ok b, r)
  | (.error f, r) => (.error f, r)

/-- Removes the row of a uri, if it has the expected status, and gives it. -/
def forget (r : Registry) (uri : String) (expected : Option Status) : Except Failure (Option Peer) × Registry :=
  if expected.isSome && (r.row? uri).map (·.status) != expected then (.ok none, r)
  else
    match r.store.delete uri with
    | (.error f, store) => (.error f, { r with store })
    | (.ok _, store) =>
      match r.row? uri with
      | none => (.ok none, { r with store })
      | some p => (.ok (some p), { r with store, index := r.index.erase uri, removals := r.removals ++ [p] })

/-- Adds a row; one with which messages flow is not overwritten. -/
def add (r : Registry) (p : Peer) : Except Failure Bool × Registry :=
  match r.registered? p.uri with
  | some _ => (.ok false, r)
  | none => r.writeThen p true

/-- Completes a request: the peer's row becomes registered, with the key given or the one it has. -/
def confirm (r : Registry) (p : Peer) : Except Failure Bool × Registry :=
  match r.row? p.uri with
  | none => (.ok false, r)
  | some row =>
    if row.status = .requested then
      r.writeThen { p with status := .registered, receiveKey := p.receiveKey.or row.receiveKey } true
    else (.ok false, r)

/-! ## Errands -/

/-- Claims a uri, unless it is claimed. -/
def claim? (r : Registry) (uri : String) : Option Registry :=
  if r.claims.contains uri then none else some { r with claims := uri :: r.claims }

/-- Gives a claim back. -/
def release (r : Registry) (uri : String) : Registry := { r with claims := r.claims.filter (· != uri) }

/-- An errand that is done, or one that waits for a call to its peer. -/
inductive Begun where
  | done (result : Except Failure Bool)
  | waits (call : PeerCall) (w : Waiting)

/-- The call that takes leave of a peer. -/
def farewell (r : Registry) (uri : String) : Begun := .waits (.unregister uri r.self.id) (.leaving uri)

/-- Begins to leave a peer whose row has the expected status. -/
def beginLeaving (r : Registry) (uri : String) (expected : Option Status) : Begun × Registry :=
  match r.claim? uri with
  | none => (.done (.ok false), r)
  | some r =>
    match r.forget uri expected with
    | (.error f, r) => (.done (.error f), r.release uri)
    | (.ok none, r) => (.done (.ok false), r.release uri)
    | (.ok (some _), r) => (r.farewell uri, r)

/-- The first half of an errand. -/
def begin (r : Registry) : Errand → Begun × Registry
  | .request uri key =>
    if uri = r.self.uri then (.done (.ok false), r)
    else
      match r.claim? uri with
      | none => (.done (.ok false), r)
      | some claimed =>
        match r.row? uri with
        | some _ => (.done (.ok false), r)
        | none => (.waits (.register uri (.of r.self (some key))) (.requesting uri key), claimed)
  | .accept uri =>
    match r.claim? uri with
    | none => (.done (.ok false), r)
    | some claimed =>
      match r.row? uri with
      | none => (.done (.ok false), r)
      | some row =>
        if row.status = .requesting then
          (.waits (.register uri (.of r.self row.receiveKey)) (.accepting row), claimed)
        else (.done (.ok false), r)
  | .decline uri => r.beginLeaving uri (some .requesting)
  | .cancel uri => r.beginLeaving uri (some .requested)
  | .remove uri => r.beginLeaving uri none

/-- The row of the peer that answered from `uri`. -/
def rowOfAnswer (uri : String) (a : RegistrationAnswer) (s : Status) (key : Option String) : Peer :=
  ⟨a.answerer.id, a.answerer.name, uri, s, key, ∅⟩

/-- A request was answered.  If the peer asked for itself meanwhile, both sides hold both keys and agree. -/
def finishRequest (r : Registry) (uri key : String) (a : RegistrationAnswer) : Except Failure Bool × Registry :=
  if a.outcome = .conflict then (.ok false, r)
  else
    let status := if a.status = some .registered then Status.registered else .requested
    let offered := a.key.or (some key)
    match r.row? uri with
    | none => r.writeThen (rowOfAnswer uri a status offered) true
    | some row =>
      if row.status = .requesting then
        r.writeThen (rowOfAnswer uri a .registered (agreedKey offered row.receiveKey)) true
      else (.ok false, r)

/-- The status after an accepted request was answered; `none` if the peer did not confirm.  A peer that had
forgotten its request has taken the confirmation for a new one. -/
def acceptedStatus (a : RegistrationAnswer) : Option Status :=
  match a.outcome, a.status with
  | .confirmed, _ => some .registered
  | .alreadyKnown, some .registered => some .registered
  | .created, _ => some .requested
  | _, _ => none

/-- An accepted request was answered. -/
def finishAccept (r : Registry) (row : Peer) (a : RegistrationAnswer) : Except Failure Bool × Registry :=
  match acceptedStatus a with
  | none => (.ok false, r)
  | some status =>
    if (r.row? row.uri).map (·.status) = some .requesting then
      r.writeThen { rowOfAnswer row.uri a status (a.key.or row.receiveKey) with properties := row.properties }
        (status == .registered)
    else (.ok false, r)

/-- The second half of an errand.  Leaving succeeds whatever the peer says. -/
def finish (r : Registry) (w : Waiting) (reply : PeerReply) : Except Failure Bool × Registry :=
  let (x, r) : Except Failure Bool × Registry := match w, reply with
    | .leaving _, _ => (.ok true, r)
    | .requesting uri key, .answer a => r.finishRequest uri key a
    | .accepting row, .answer a => r.finishAccept row a
    | _, .failed f => (.error f, r)
    | _, .known _ => (.ok false, r)
  (x, r.release w.uri)

/-! ## What peers ask -/

/-- An answer of this node. -/
def answer (r : Registry) (o : Outcome) (s : Option Status) (key : Option String) : RegistrationAnswer :=
  ⟨r.self, o, s, key⟩

/-- A peer asks to be registered. -/
def handleRegister (r : Registry) (q : Registration) : Except Failure RegistrationAnswer × Registry :=
  if q.uri = r.self.uri then (.ok (r.answer .conflict none none), r)
  else
    match r.row? q.uri with
    | none =>
      match r.write ⟨q.id, q.name, q.uri, .requesting, q.key, ∅⟩ with
      | (.ok (), r) => (.ok (r.answer .created (some .requesting) none), r)
      | (.error f, r) => (.error f, r)
    | some row =>
      if row.id ≠ q.id ∨ row.name ≠ q.name then (.ok (r.answer .conflict (some row.status) none), r)
      else if row.status = .requested then
        let key := agreedKey row.receiveKey q.key
        match r.confirm { row with receiveKey := key } with
        | (.ok _, r) => (.ok (r.answer .confirmed (some .registered) key), r)
        | (.error f, r) => (.error f, r)
      else (.ok (r.answer .alreadyKnown (some row.status) none), r)

/-- A peer, named by uri or id, takes leave; whether it was known. -/
def handleUnregister (r : Registry) (text : String) : Except Failure Bool × Registry :=
  match r.find? text with
  | none => (.ok false, r)
  | some p =>
    match r.forget p.uri none with
    | (.ok removed, r) => (.ok removed.isSome, r)
    | (.error f, r) => (.error f, r)

/-- What a node replies to a call, as the caller sees it. -/
def serve (r : Registry) : PeerCall → PeerReply × Registry
  | .register uri q =>
    match r.handleRegister q with
    | (.ok a, r) => (.answer a, r)
    | (.error f, r) => (.failed (f.seenFrom uri), r)
  | .unregister uri id =>
    match r.handleUnregister id with
    | (.ok b, r) => (.known b, r)
    | (.error f, r) => (.failed (f.seenFrom uri), r)

/-- Takes the rows removed since the last time. -/
def takeRemovals (r : Registry) : List Peer × Registry := (r.removals, { r with removals := [] })

end Registry

end ContentMesh
