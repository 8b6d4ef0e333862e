import ContentMesh.Outbox.Lane

/-!
# ContentMesh.Outbox.Basic — the lanes of a node

Lanes stand in the order of their opening and are never taken away, so that a flight finds its lane again; `live`
names the lane in use for each peer.  A closed lane only waits for its flight to end.  `signals` are the lanes
whose sender has something to look at, for whoever runs the senders.
-/

namespace ContentMesh

/-- A delivery that succeeded. -/
structure Report where
  messageId : String
  target : String
  attempts : Nat
  deriving DecidableEq, Repr

/-- The lanes of a node. -/
structure Outbox where
  retry : Retry
  lanes : Array Lane
  live : Dict Nat
  closed : Bool
  reports : List Report
  signals : List Nat

namespace Outbox

/-- An outbox without lanes. -/
def new (retry : Retry) : Outbox := ⟨retry, #[], ∅, false, [], []⟩

instance : Inhabited Outbox := ⟨new default⟩

/-- The number of the lane in use for a peer. -/
def laneOf? (o : Outbox) (uri : String) : Option Nat := o.live.get? uri

/-- A lane by its number. -/
def lane (o : Outbox) (i : Nat) : Lane := o.lanes.getD i default

/-- The outbox with a lane changed. -/
def modify (o : Outbox) (i : Nat) (f : Lane → Lane) : Outbox := { o with lanes := o.lanes.modify i f }

/-- The lane in use for a peer, opened if there is none. -/
def opened (o : Outbox) (uri : String) : Nat × Outbox :=
  match o.laneOf? uri with
  | some i => (i, o)
  | none => (o.lanes.size, { o with lanes := o.lanes.push (.new uri), live := o.live.insert uri o.lanes.size })

/-- A parcel at the end of a lane that was found for a peer, unless the lane was closed since: then it is not in use any
more. -/
def push? (o : Outbox) (uri : String) (i : Nat) (p : Parcel) (now : Nat) : Option Outbox :=
  if o.laneOf? uri = some i then
    some { o.modify i fun l => l.enqueue p now with signals := o.signals ++ [i] }
  else none

/-- A parcel at the end of a peer's lane. -/
def enqueue (o : Outbox) (uri : String) (p : Parcel) (now : Nat) : Outbox :=
  let (i, o) := o.opened uri
  { o.modify i fun l => l.enqueue p now with signals := o.signals ++ [i] }

/-- Discards what waits for a peer, and tells how much that was. -/
def purge (o : Outbox) (uri : String) : Nat × Outbox :=
  match o.laneOf? uri with
  | some i => ((o.lane i).purge.1, o.modify i fun l => l.purge.2)
  | none => (0, o)

/-- Closes a peer's lane, and tells how many entries waited in it. -/
def close (o : Outbox) (uri : String) : Nat × Outbox :=
  match o.laneOf? uri with
  | some i =>
    let n := (o.lane i).close.1
    let o := o.modify i fun l => l.close.2
    (n, { o with live := o.live.erase uri, signals := o.signals ++ [i] })
  | none => (0, o)

/-- Ends the flight of a lane; a delivery is reported. -/
def land (o : Outbox) (i : Nat) (a : Attempt) (now : Nat) (spread : Float) : Outbox :=
  let reports := match a, (o.lane i).flight with
    | .delivered, some f => o.reports ++ [⟨f.entry.parcel.id, (o.lane i).uri, f.entry.attempts⟩]
    | _, _ => o.reports
  { o.modify i fun l => l.land o.retry a now spread with reports }

/-- Closes the outbox: every sender is to stop. -/
def shut (o : Outbox) : Outbox := { o with closed := true, signals := o.signals ++ List.range o.lanes.size }

/-- Takes the signals. -/
def takeSignals (o : Outbox) : List Nat × Outbox := (o.signals, { o with signals := [] })

/-- Takes the reports. -/
def takeReports (o : Outbox) : List Report × Outbox := (o.reports, { o with reports := [] })

/-- How many peers have a lane in use. -/
def laneCount (o : Outbox) : Nat := o.live.size

/-- How many entries wait for a peer. -/
def depth (o : Outbox) (uri : String) : Nat := ((o.laneOf? uri).map fun i => (o.lane i).depth).getD 0

/-- How many entries wait in all lanes in use. -/
def totalDepth (o : Outbox) : Nat := (o.live.values.map fun i => (o.lane i).depth).foldl (· + ·) 0

/-- The depth and the tally of a peer's lane. -/
def stats? (o : Outbox) (uri : String) : Option (Nat × Tally) :=
  (o.laneOf? uri).map fun i => ((o.lane i).depth, (o.lane i).tally)

end Outbox

end ContentMesh
