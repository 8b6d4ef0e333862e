import ContentMesh.Failure
import ContentMesh.Message.Header

/-!
# ContentMesh.Message.Parcel — messages with their bodies

A `Message` is what producers hand in and receivers are handed: its payload may still have to be opened, and is
read once.  A `Parcel` has its body in memory, so that it can be queued for several targets and sent again.
-/

namespace ContentMesh

/-! ## Payload -/

/-- A body that can be read once. -/
inductive Payload where
  | held (b : Bytes)
  | unopened (content : Except Failure Bytes)
  | consumed

namespace Payload

/-- Reads the whole body; afterwards it is consumed, also where reading failed. -/
def take : Payload → Except Failure Bytes × Payload
  | held b => (.ok b, consumed)
  | unopened content => (content, consumed)
  | consumed => (.error (.invalid .consumed), consumed)

/-- Whether the body was read. -/
def isConsumed : Payload → Bool
  | consumed => true
  | _ => false

/-- A payload as it shows itself in a log. -/
def describe : Payload → String
  | held b => "Payload::Bytes(" ++ toString b.length ++ " bytes)"
  | unopened _ => "Payload::Lazy"
  | consumed => "Payload::Consumed"

end Payload

/-! ## Messages and parcels -/

/-- A message ready to be queued; `hop` is the instance that handed it over, if it came from one. -/
structure Parcel where
  header : Header
  hop : Option String
  body : Bytes
  deriving DecidableEq

/-- A message as producers and receivers see it. -/
structure Message where
  header : Header
  hop : Option String
  payload : Payload

namespace Parcel

instance : Inhabited Parcel := ⟨⟨default, none, []⟩⟩

/-- The identifier of the message. -/
def id (p : Parcel) : String := p.header.id

/-- The copy for other receivers. -/
def relayed (p : Parcel) (receivers : List String) : Parcel :=
  { p with header := { p.header with receivers } }

/-- The message that a receiver sees. -/
def toMessage (p : Parcel) : Message := ⟨p.header, p.hop, .held p.body⟩

end Parcel

/-- Reads the body of a message into memory. -/
def Message.toParcel (m : Message) : Except Failure Parcel := do
  let body ← m.payload.take.1
  return ⟨m.header, m.hop, body⟩

end ContentMesh
