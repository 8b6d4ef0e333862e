import ContentMesh.Message.Header
import ContentMesh.Storage.Store

/-!
# ContentMesh.Message.Log — which messages a node has seen

A message that is logged is not accepted again.  The row says how far it got and when that was.
-/

namespace ContentMesh

/-- How far a message got. -/
inductive Progress where
  | stored
  | sent
  | received
  | handled
  deriving DecidableEq, Repr

namespace Progress

/-- The name of a progress in records. -/
def name : Progress → String
  | stored => "stored"
  | sent => "sent"
  | received => "received"
  | handled => "handled"

/-- All by name. -/
def byName : List (String × Progress) := [stored, sent, received, handled].map fun p => (p.name, p)

/-- The record of a progress. -/
def toJson (p : Progress) : Json := .str p.name

/-- The progress of a record. -/
def ofJson? : Json → Option Progress := Json.case? byName

instance : Record Progress := ⟨toJson, ofJson?⟩

end Progress

/-- A row of the log. -/
structure LogRow where
  id : String
  kind : String
  source : String
  date : Stamp
  progress : Progress
  updated : Stamp
  deriving DecidableEq

namespace LogRow

/-- The row of a message. -/
def of (h : Header) (p : Progress) (now : Stamp) : LogRow := ⟨h.id, h.kind, h.source, h.date, p, now⟩

/-- The record of a row. -/
def toJson (r : LogRow) : Json :=
  .obj [("id", .str r.id), ("type", .str r.kind), ("source", .str r.source),
    ("date", .str (Rfc3339.recordText r.date)), ("status", r.progress.toJson),
    ("updated_at", .str (Rfc3339.recordText r.updated))]

/-- The row of a record. -/
def ofJson? (j : Json) : Option LogRow := do
  let m ← Json.members? ["id", "type", "source", "date", "status", "updated_at"] j
  return ⟨← m.required "id" Json.str?, ← m.required "type" Json.str?, ← m.required "source" Json.str?,
    ← m.required "date" Header.stampOfJson?, ← m.required "status" Progress.ofJson?,
    ← m.required "updated_at" Header.stampOfJson?⟩

instance : Record LogRow := ⟨toJson, ofJson?⟩

end LogRow

/-- The log of messages, by id. -/
structure Log where
  store : Store LogRow

namespace Log

variable {α : Type}

/-- An empty log in memory. -/
def inMemory : Log := ⟨Store.inMemory⟩

/-- The log after a call of its table. -/
def after (x : Except Failure α × Store LogRow) : Except Failure α × Log := (x.1, ⟨x.2⟩)

/-- Whether a message is logged. -/
def exists? (l : Log) (id : String) : Except Failure Bool × Log := after (l.store.contains id)

/-- Writes the row of a message, over an older one. -/
def save (l : Log) (h : Header) (p : Progress) (now : Stamp) : Except Failure Unit × Log :=
  after (l.store.put h.id (.of h p now))

/-- Writes the row of a message unless there is one, and says whether it did. -/
def saveIfAbsent (l : Log) (h : Header) (p : Progress) (now : Stamp) : Except Failure Bool × Log :=
  match l.store.contains h.id with
  | (.error f, store) => (.error f, ⟨store⟩)
  | (.ok true, store) => (.ok false, ⟨store⟩)
  | (.ok false, store) =>
    match store.put h.id (.of h p now) with
    | (.error f, store) => (.error f, ⟨store⟩)
    | (.ok (), store) => (.ok true, ⟨store⟩)

/-- Changes the progress of a logged message, and says whether it is logged. -/
def mark (l : Log) (id : String) (p : Progress) (now : Stamp) : Except Failure Bool × Log :=
  match l.store.get id with
  | (.error f, store) => (.error f, ⟨store⟩)
  | (.ok none, store) => (.ok false, ⟨store⟩)
  | (.ok (some row), store) =>
    match store.put id { row with progress := p, updated := now } with
    | (.error f, store) => (.error f, ⟨store⟩)
    | (.ok (), store) => (.ok true, ⟨store⟩)

/-- Removes a row, and says whether there was one. -/
def delete (l : Log) (id : String) : Except Failure Bool × Log := after (l.store.delete id)

/-- The row of a message. -/
def get (l : Log) (id : String) : Except Failure (Option LogRow) × Log := after (l.store.get id)

/-- The progress of a message. -/
def progress (l : Log) (id : String) : Except Failure (Option Progress) × Log :=
  let (x, l) := l.get id
  (x.map fun r => r.map (·.progress), l)

/-- How many rows there are. -/
def size (l : Log) : Except Failure Nat × Log :=
  let (x, l) := after l.store.values
  (x.map List.length, l)

end Log

end ContentMesh
