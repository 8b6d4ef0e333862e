import ContentMesh.Node.Basic

/-!
# ContentMesh.Node.Relay — which peers get a copy of a message

A message goes to the registered peers that it names, or to all, but neither back to where it came from nor to
the node itself.  Copies keep its id, so that every node on the way sees that it is the same message.
-/

namespace ContentMesh

/-- The peers that a message is handed on to: the registered ones that are neither its source, nor the hop it came
from, nor the node itself, and that it names if it names any. -/
def relayTargets (peers : List Peer) (h : Header) (hop : Option String) (own : String) : List String :=
  (peers.filter fun p =>
    p.isRegistered && p.uri != h.source && p.uri != own && !(hop.any p.answersTo)
      && (h.receivers.isEmpty || h.receivers.contains p.uri)).map (·.uri)

/-- The targets that a copy was queued for, and those for which it was not, with the reason. -/
structure Summary where
  messageId : String
  queued : List String
  failed : List (String × Failure)
  deriving DecidableEq, Repr

/-- Whether every target got a copy. -/
def Summary.allQueued (s : Summary) : Bool := s.failed.isEmpty

/-- How many targets there were. -/
def Summary.total (s : Summary) : Nat := s.queued.length + s.failed.length

namespace Node

/-- Checks a parcel in for a registered peer, and logs it if it is new. -/
def checkIn (n : Node) (p : Parcel) (target : String) (now : Moment) : Except Failure Unit × Node :=
  if n.outbox.closed then (.error .shutdown, n)
  else
    match n.registry.registered? target with
    | none => (.error (.unknownInstance target), n)
    | some _ =>
      match n.onLog fun l => l.saveIfAbsent p.header .stored now.date with
      | (.error f, n) => (.error f, n)
      | (.ok _, n) => (.ok (), n)

/-- The lane in use for a peer, opened if there is none. -/
def findLane (n : Node) (target : String) : Nat × Node :=
  let (i, outbox) := n.outbox.opened target
  (i, { n with outbox })

/-- Puts a parcel in the lane that was found for a peer; if that was closed since, the peer was removed after the parcel
was checked in. -/
def push (n : Node) (p : Parcel) (target : String) (i : Nat) (now : Moment) : Except Failure Unit × Node :=
  match n.outbox.push? target i p now.tick with
  | none => (.error (.unknownInstance target), n)
  | some outbox => (.ok (), { n with outbox })

/-- Queues a parcel for a registered peer. -/
def enqueue (n : Node) (p : Parcel) (target : String) (now : Moment) : Except Failure Unit × Node :=
  match n.checkIn p target now with
  | (.error f, n) => (.error f, n)
  | (.ok (), n) =>
    let (i, n) := n.findLane target
    n.push p target i now

/-- One copy for each target, in order. -/
def enqueueAll (n : Node) (p : Parcel) (now : Moment) (s : Summary) : List String → Summary × Node
  | [] => (s, n)
  | t :: ts =>
    match n.enqueue p t now with
    | (.ok (), n) => n.enqueueAll p now { s with queued := s.queued ++ [t] } ts
    | (.error f, n) => n.enqueueAll p now { s with failed := s.failed ++ [(t, f)] } ts

/-- Hands a parcel on to given targets. -/
def relayTo (n : Node) (p : Parcel) (targets : List String) (now : Moment) : Except Failure Summary × Node :=
  match n.onLog fun l => l.saveIfAbsent p.header .stored now.date with
  | (.error f, n) => (.error f, n)
  | (.ok _, n) =>
    let (s, n) := n.enqueueAll p now ⟨p.id, [], []⟩ targets
    (.ok s, n)

/-- The peers that a parcel is handed on to. -/
def targetsFor (n : Node) (p : Parcel) : List String :=
  relayTargets n.registry.registered p.header p.hop n.self.uri

/-- Hands a parcel on to all who are to have it. -/
def relay (n : Node) (p : Parcel) (now : Moment) : Except Failure Summary × Node :=
  n.relayTo p (n.targetsFor p) now

/-- The registered peers other than the node itself. -/
def others (n : Node) : List String := (n.registry.registered.map (·.uri)).filter (· != n.self.uri)

/-- Sends a message from here to every registered peer that it is for. -/
def send (n : Node) (m : Message) (now : Moment) : Except Failure Summary × Node :=
  match m.toParcel with
  | .error f => (.error f, n)
  | .ok p => n.relay { p with hop := none } now

/-- Sends a change of an entity from here to the peers that its rules select.  The copies name them, so nobody
hands the change on beyond them. -/
def publish (n : Node) (m : Message) (e : Entity) (least : Level) (now : Moment) : Except Failure Summary × Node :=
  match m.toParcel with
  | .error f => (.error f, n)
  | .ok p =>
    let p := { p with hop := none, header.metadata := p.header.metadata.set entityKey e.text }
    match n.onResolver fun r => r.targets e n.others least with
    | (.error f, n) => (.error f, n)
    | (.ok [], n) =>
      match n.onLog fun l => l.saveIfAbsent p.header .stored now.date with
      | (.error f, n) => (.error f, n)
      | (.ok _, n) => (.ok ⟨p.id, [], []⟩, n)
    | (.ok targets, n) => n.relayTo (p.relayed targets) targets now

/-- Sends the rules of an entity to every registered peer. -/
def pushTopology (n : Node) (e : Entity) (id : String) (now : Moment) : Except Failure Summary × Node :=
  match n.onResolver fun r => r.ownRules e with
  | (.error f, n) => (.error f, n)
  | (.ok none, n) => (.error (.notFound ("topology configuration for " ++ e.text)), n)
  | (.ok (some rules), n) =>
    let h := n.newHeader topologyKind id now
    let h := { h with metadata := h.metadata.set entityKey e.text }
    n.send ⟨h, none, .held (Utf8.encode rules.toJson.chars)⟩ now

/-! ## Questions -/

/-- Sends a question and waits for the given receivers, or for every registered peer if none are given; gives the
ticket. -/
def ask (n : Node) (m : Message) (receivers : Option (List String)) (now : Moment) : Except Failure Nat × Node :=
  match m.toParcel with
  | .error f => (.error f, n)
  | .ok p =>
    let receivers := match receivers with
      | some (r :: rs) => r :: rs
      | _ => n.others
    let p := { p with hop := none, header.receivers := receivers }
    match n.onQuestions fun q => q.expect p.id receivers with
    | (.error f, n) => (.error f, n)
    | (.ok ticket, n) =>
      if receivers.isEmpty then (.ok ticket, n)
      else
        match n.relayTo p receivers now with
        | (.ok _, n) => (.ok ticket, n)
        | (.error f, n) => (.error f, (n.onQuestions fun q => q.cancel p.id).2)

/-- Answers a question; the answer goes to where the question came from. -/
def answer (n : Node) (question : Header) (body : Bytes) (id : String) (now : Moment) : Except Failure Unit × Node :=
  match n.registry.registered? question.source with
  | none => (.error (.unknownInstance question.source), n)
  | some p =>
    match n.relayTo (Questions.reply question n.self.uri id now.date body) [p.uri] now with
    | (.ok _, n) => (.ok (), n)
    | (.error f, n) => (.error f, n)

end Node

end ContentMesh
