import ContentMesh.Node.Basic

/-!
# ContentMesh.Node.Delivery — one attempt to deliver

An attempt is in two halves: `depart` takes the head of a lane and says what to send to whom, `land` takes what
came back.  A parcel whose target is no longer registered, or that cannot be signed, is dropped without being sent.
-/

namespace ContentMesh

/-- What is sent, to whom, with which signature. -/
structure Sending where
  target : Peer
  parcel : Parcel
  signature : Option String
  deriving DecidableEq

namespace Node

/-- What an attempt led to, by the peer's reply. -/
def attemptOf : Except Failure Unit → Attempt
  | .ok () => .delivered
  | .error f => if f.retryable then .again else .dropped

/-- Ends a flight; a delivered message is marked as sent. -/
def land (n : Node) (lane : Nat) (x : Except Failure Unit) (now : Moment) (spread : Float) : Node :=
  let a := attemptOf x
  let n := match a, (n.outbox.lane lane).flight with
    | .delivered, some f => (n.onLog fun l => l.mark f.entry.parcel.id .sent now.date).2
    | _, _ => n
  { n with outbox := n.outbox.land lane a now.tick spread }

/-- Drops the entry in flight. -/
def dropFlight (n : Node) (lane : Nat) (now : Moment) : Node :=
  { n with outbox := n.outbox.land lane .dropped now.tick 1.0 }

/-- Starts an attempt with the head of a lane. -/
def depart (n : Node) (lane : Nat) (now : Moment) : Option Sending × Node :=
  let n := { n with outbox := n.outbox.modify lane Lane.depart }
  let l := n.outbox.lane lane
  match l.flight with
  | none => (none, n)
  | some f =>
    match n.registry.registered? l.uri with
    | none => (none, n.dropFlight lane now)
    | some target =>
      match n.signer.sign target.receiveKey f.entry.parcel with
      | .error _ => (none, n.dropFlight lane now)
      | .ok signature => (some ⟨target, f.entry.parcel, signature⟩, n)

end Node

end ContentMesh
