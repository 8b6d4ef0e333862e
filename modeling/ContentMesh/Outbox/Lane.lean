import ContentMesh.Message.Parcel
import ContentMesh.Outbox.Retry

/-!
# ContentMesh.Outbox.Lane — parcels on their way to one peer

A lane is a queue with at most one parcel in flight.  A parcel whose attempt fails in passing goes back to the
head, so the order is kept; a purge in the meantime is noticed by the lane's generation.
-/

namespace ContentMesh

/-- A parcel that waits; it is not tried before `due`.  Attempts are counted in 32 bits, which hold the greatest limit
that can be set; without a limit they hold as many attempts as no lane gets to make. -/
structure Entry where
  parcel : Parcel
  attempts : Nat
  due : Nat
  deriving DecidableEq

/-- What became of the parcels of a lane. -/
structure Tally where
  enqueued : Nat
  delivered : Nat
  retried : Nat
  dropped : Nat
  purged : Nat
  deriving DecidableEq, Repr, Inhabited

/-- An entry in flight, and the lane's generation when it left. -/
structure Flight where
  entry : Entry
  generation : Nat
  deriving DecidableEq

/-- Parcels on their way to one peer. -/
structure Lane where
  uri : String
  waiting : List Entry
  flight : Option Flight
  generation : Nat
  closed : Bool
  tally : Tally
  deriving DecidableEq

/-- What an attempt led to. -/
inductive Attempt where
  | delivered
  | again
  | dropped
  deriving DecidableEq, Repr

namespace Lane

/-- An empty lane. -/
def new (uri : String) : Lane := ⟨uri, [], none, 0, false, ⟨0, 0, 0, 0, 0⟩⟩

instance : Inhabited Lane := ⟨new ""⟩

/-- A parcel at the end. -/
def enqueue (l : Lane) (p : Parcel) (now : Nat) : Lane :=
  { l with
    waiting := l.waiting ++ [⟨p, 0, now⟩]
    tally := { l.tally with enqueued := l.tally.enqueued + 1 } }

/-- When the head may be tried. -/
def due? (l : Lane) : Option Nat := l.waiting.head?.map (·.due)

/-- Puts the head in flight, one attempt older. -/
def depart (l : Lane) : Lane :=
  match l.flight, l.waiting with
  | none, e :: rest =>
    { l with waiting := rest, flight := some ⟨{ e with attempts := e.attempts + 1 }, l.generation⟩ }
  | _, _ => l

/-- Ends the flight.  An attempt that may be repeated puts its entry back at the head, unless it was the last one
allowed or the lane was purged meanwhile. -/
def land (l : Lane) (retry : Retry) (a : Attempt) (now : Nat) (spread : Float) : Lane :=
  match l.flight with
  | none => l
  | some f =>
    let l := { l with flight := none }
    match a with
    | .delivered => { l with tally := { l.tally with delivered := l.tally.delivered + 1 } }
    | .dropped => { l with tally := { l.tally with dropped := l.tally.dropped + 1 } }
    | .again =>
      if retry.exhausted f.entry.attempts then { l with tally := { l.tally with dropped := l.tally.dropped + 1 } }
      else if l.generation != f.generation then l
      else
        { l with
          waiting := { f.entry with due := now + retry.delay f.entry.attempts spread } :: l.waiting
          tally := { l.tally with retried := l.tally.retried + 1 } }

/-- Discards what waits, and tells how much that was. -/
def purge (l : Lane) : Nat × Lane :=
  (l.waiting.length,
    { l with
      waiting := []
      generation := l.generation + 1
      tally := { l.tally with purged := l.tally.purged + l.waiting.length } })

/-- Purges the lane for good. -/
def close (l : Lane) : Nat × Lane :=
  let (n, l) := l.purge
  (n, { l with closed := true })

/-- How many entries wait. -/
def depth (l : Lane) : Nat := l.waiting.length

end Lane

end ContentMesh
