import ContentMesh.Message.Parcel

/-!
# ContentMesh.Questions — collecting the answers to a question

A question names who is to answer.  Each answer is taken once from each of them; the last one completes the
question.  Whoever asked holds a ticket, and finds under it the answers, or that the question was given up.
-/

namespace ContentMesh

/-- An answer to a question. -/
structure Answer where
  source : String
  header : Header
  body : Bytes
  deriving DecidableEq

/-- A question that waits for answers. -/
structure Pending where
  ticket : Nat
  outstanding : List String
  answers : List Answer
  deriving DecidableEq

/-- The questions of a node; completed ones wait under their ticket until they are taken. -/
structure Questions where
  pending : Dict Pending
  completed : List (Nat × List Answer)
  nextTicket : Nat

/-- How a question stands for the holder of its ticket. -/
inductive Standing where
  | waiting
  | answered (answers : List Answer)
  | givenUp
  deriving DecidableEq

namespace Questions

/-- The name under which an answer carries the id of its question. -/
def key : String := "question"

/-- The kind of answers. -/
def answerKind : String := "answer"

/-- No questions. -/
def initial : Questions := ⟨∅, [], 0⟩

instance : Inhabited Questions := ⟨initial⟩

/-- A list with each text once. -/
def distinct (uris : List String) : List String :=
  uris.foldl (fun ds u => if ds.contains u then ds else ds ++ [u]) []

/-- Begins to wait for the answers of exactly these instances, and gives the ticket.  Without any, the question
is complete. -/
def expect (q : Questions) (id : String) (receivers : List String) : Except Failure Nat × Questions :=
  let ticket := q.nextTicket
  if receivers.isEmpty then
    (.ok ticket, { q with completed := (ticket, []) :: q.completed, nextTicket := ticket + 1 })
  else if q.pending.contains id then (.error (.invalid (.questionPending id)), q)
  else
    (.ok ticket,
      { q with pending := q.pending.insert id ⟨ticket, distinct receivers, []⟩, nextTicket := ticket + 1 })

/-- Takes an answer. -/
def receive (q : Questions) (m : Message) : Except Failure Unit × Questions :=
  match m.header.metadata.first? key with
  | none => (.error (.invalid .noQuestionId), q)
  | some id =>
    match q.pending.get? id with
    | none => (.error (.invalid (.unknownQuestion id)), q)
    | some p =>
      let source := m.header.source
      if !p.outstanding.contains source then (.error (.invalid (.unexpectedAnswer source id)), q)
      else
        match m.payload.take.1 with
        | .error f => (.error f, q)
        | .ok body =>
          let outstanding := p.outstanding.filter (· != source)
          let answers := p.answers ++ [⟨source, m.header, body⟩]
          if outstanding.isEmpty then
            (.ok (),
              { q with pending := q.pending.erase id, completed := (p.ticket, answers) :: q.completed })
          else (.ok (), { q with pending := q.pending.insert id { p with outstanding, answers } })

/-- Gives a question up, and tells whether it was waiting. -/
def cancel (q : Questions) (id : String) : Bool × Questions :=
  (q.pending.contains id, { q with pending := q.pending.erase id })

/-- How the question of a ticket stands. -/
def standing (q : Questions) (ticket : Nat) : Standing :=
  match q.completed.lookup ticket with
  | some answers => .answered answers
  | none => if q.pending.values.any (·.ticket == ticket) then .waiting else .givenUp

/-- Forgets what waits under a ticket. -/
def discard (q : Questions) (ticket : Nat) : Questions :=
  { q with completed := q.completed.filter (·.1 != ticket) }

/-- How many questions wait. -/
def count (q : Questions) : Nat := q.pending.size

/-- Who has not answered a question yet, in order. -/
def outstanding? (q : Questions) (id : String) : Option (List String) :=
  (q.pending.get? id).map fun p => p.outstanding.mergeSort fun a b => !(b < a)

/-- The answer to a question, as a message from `source`. -/
def reply (question : Header) (source id : String) (date : Stamp) (body : Bytes) : Parcel :=
  let h := Header.new id answerKind source date
  ⟨{ h with receivers := [question.source], metadata := (∅ : Metadata).set key question.id }, none, body⟩

end Questions

end ContentMesh
