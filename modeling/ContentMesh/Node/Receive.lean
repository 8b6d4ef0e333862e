import ContentMesh.Node.Relay

/-!
# ContentMesh.Node.Receive — what a node does with a message that comes in

The hop must be a registered peer and its signature must hold; then the rules of the entity are asked, and the log
whether the message is new.  A message for others is handed on, one for this node is handled at once or waits for
a worker.  `takeIn` goes as far as it can; where an application handles the message at once, `conclude` goes on.
-/

namespace ContentMesh

/-- A message as it comes in; `hop` is the uri or id that the sender presents. -/
structure Inbound where
  header : Header
  hop : String
  body : Bytes
  signature : Option String
  deriving DecidableEq

/-- A message as it comes in from a sender in the same process. -/
def Inbound.direct (sender : Identity) (p : Parcel) (signature : Option String) : Inbound :=
  ⟨p.header, sender.id, p.body, signature⟩

/-- What happened to a message that was taken in. -/
inductive Reception where
  | queued
  | handled
  | duplicate
  | forwarded
  | ignored
  deriving DecidableEq, Repr

/-- The name of what happened to a message. -/
def Reception.name : Reception → String
  | queued => "queued"
  | handled => "handled"
  | duplicate => "duplicate"
  | forwarded => "forwarded"
  | ignored => "ignored"

/-- How far a message was taken in: to its end, or to an application's immediate handler. -/
inductive Admission where
  | settled (r : Except Failure Reception)
  | handling (p : Parcel)

namespace Node

/-- What the sender sees of what its peer at `uri` answered. -/
def seen (uri : String) : Except Failure Reception → Except Failure Unit
  | .ok _ => .ok ()
  | .error f => .error (f.seenFrom uri)

/-! ## Handlers of the node itself -/

/-- Takes over the rules that a peer sent. -/
def handleTopology (n : Node) (m : Message) : Except Failure Decision × Node :=
  match m.header.metadata.first? entityKey with
  | none => (.error (.invalid .topologyWithoutEntity), n)
  | some text =>
    match Entity.read text, m.payload.take.1 with
    | .error f, _ => (.error f, n)
    | _, .error f => (.error f, n)
    | .ok e, .ok body =>
      match (Json.readBytes body).bind Rules.ofJson? with
      | none => (.error .serialization, n)
      | some remote =>
        let (x, n) := n.onResolver fun r => r.setRules e (some (remote.localized n.self.uri m.header.source))
        (x.map fun _ => .none, n)

/-- Takes an answer to a question. -/
def handleAnswer (n : Node) (m : Message) : Except Failure Decision × Node :=
  let (x, n) := n.onQuestions fun q => q.receive m
  (x.map fun _ => .none, n)

/-- Answers a question by a responder. -/
def handleQuestion (n : Node) (respond : Header → Bytes → Except Failure Bytes) (m : Message) (fresh : String)
    (now : Moment) : Except Failure Decision × Node :=
  match m.payload.take.1.bind (respond m.header) with
  | .error f => (.error f, n)
  | .ok body =>
    let (x, n) := n.answer m.header body fresh now
    (x.map fun _ => .none, n)

/-- Handles a message by a handler of the node itself; `none` if an application is to do it. -/
def handle (n : Node) (h : Handler) (m : Message) (fresh : String) (now : Moment) :
    Option (Except Failure Decision × Node) :=
  match h with
  | .answers => some (n.handleAnswer m)
  | .topology => some (n.handleTopology m)
  | .responder respond => some (n.handleQuestion respond m fresh now)
  | .application _ => none

/-! ## After handling -/

/-- Hands a message on as its handler decided; it is not the handler's failure if that fails. -/
def apply (n : Node) (p : Parcel) (d : Decision) (now : Moment) : Node :=
  match d with
  | .none => n
  | .all => (n.relay p now).2
  | .targets uris => (n.relayTo p uris now).2

/-- Marks a message as handled, and hands it on. -/
def finish (n : Node) (p : Parcel) (d : Decision) (now : Moment) : Node :=
  ((n.onLog fun l => l.mark p.id .handled now.date).2).apply p d now

/-- Ends the handling of a message before its sender is answered; a failure makes the message new again. -/
def conclude (n : Node) (p : Parcel) (x : Except Failure Decision) (now : Moment) : Except Failure Reception × Node :=
  match x with
  | .ok d => (.ok .handled, n.finish p d now)
  | .error f =>
    match n.onLog fun l => l.delete p.id with
    | (.ok _, n) => (.error f, n)
    | (.error g, n) => (.error g, n)

/-- Ends the handling of a message by a worker; after a failure it stays logged as received. -/
def finishWork (n : Node) (p : Parcel) (x : Except Failure Decision) (now : Moment) : Node :=
  match x with
  | .ok d => n.finish p d now
  | .error _ => n

/-! ## Taking in -/

/-- Puts a message into the queue of the workers, or makes it new again if there is no room. -/
def queueUp (n : Node) (p : Parcel) : Except Failure Reception × Node :=
  if n.inbox.length < max n.settings.capacity 1 then (.ok .queued, { n with inbox := n.inbox ++ [p] })
  else
    match n.onLog fun l => l.delete p.id with
    | (.ok _, n) => (.error .queueFull, n)
    | (.error f, n) => (.error f, n)

/-- Whether the rules of the entity that a message is about let it in.  A message of rules is always let in. -/
def letsIn (n : Node) (h : Header) (hop : Peer) : Except Failure Bool × Node :=
  if h.kind = topologyKind then (.ok true, n)
  else
    match h.metadata.first? entityKey with
    | none => (.ok true, n)
    | some text =>
      match Entity.read text with
      | .error f => (.error f, n)
      | .ok e => n.onResolver fun r => r.acceptsFrom e hop.uri

/-- Takes in a message that is new and for which there is a handler. -/
def deliver (n : Node) (p : Parcel) (h : Handler) (now : Moment) : Admission × Node :=
  if !p.header.addressedTo n.self.uri then (.settled (.ok .forwarded), n.apply p .all now)
  else
    match h with
    | .answers =>
      let (x, n) := n.handleAnswer p.toMessage
      let (r, n) := n.conclude p x now
      (.settled r, n)
    | .application true => (.handling p, n)
    | _ =>
      let (r, n) := n.queueUp p
      (.settled r, n)

/-- Takes in a message from a registered peer. -/
def takeInFrom (n : Node) (hop : Peer) (i : Inbound) (now : Moment) : Admission × Node :=
  let p : Parcel := ⟨i.header, some hop.uri, i.body⟩
  match n.signer.verify hop.receiveKey p i.signature with
  | .error f => (.settled (.error f), n)
  | .ok () =>
    match n.dispatch.get? p.header.kind with
    | none => (.settled (.error (.invalid (.noReceiver p.header.kind))), n)
    | some h =>
      match n.letsIn p.header hop with
      | (.error f, n) => (.settled (.error f), n)
      | (.ok false, n) => (.settled (.ok .ignored), n)
      | (.ok true, n) =>
        match n.onLog fun l => l.saveIfAbsent p.header .received now.date with
        | (.error f, n) => (.settled (.error f), n)
        | (.ok false, n) => (.settled (.ok .duplicate), n)
        | (.ok true, n) => n.deliver p h now

/-- Takes in a message. -/
def takeIn (n : Node) (i : Inbound) (now : Moment) : Admission × Node :=
  if !n.running then (.settled (.error .shutdown), n)
  else
    match (n.registry.find? i.hop).filter Peer.isRegistered with
    | none => (.settled (.error (.unknownInstance i.hop)), n)
    | some hop => n.takeInFrom hop i now

/-! ## Workers -/

/-- What a worker is to do. -/
inductive Work where
  | nothing
  | done
  | handling (p : Parcel)
  deriving DecidableEq

/-- Takes the next message from the queue, and handles it unless an application is to do so. -/
def work (n : Node) (fresh : String) (now : Moment) : Work × Node :=
  match n.inbox with
  | [] => (.nothing, n)
  | p :: rest =>
    let n := { n with inbox := rest }
    match n.dispatch.get? p.header.kind with
    | none => (.done, n)
    | some h =>
      match n.handle h p.toMessage fresh now with
      | none => (.handling p, n)
      | some (x, n) => (.done, n.finishWork p x now)

end Node

end ContentMesh
