import ContentMesh.Http.Router
import ContentMesh.Node.Delivery

/-!
# ContentMesh.Mesh.Basic — a mesh with a clock of its own

A mesh is a few nodes with what is around them: the way each reaches its peers, the receivers of its application,
the tasks that are ready to run and those that wait for a time.  Time is a number that moves only when nothing is
left to do, so a run has one course.
-/

namespace ContentMesh.Mesh

/-! ## Scripted peers -/

/-- The three things that a peer is asked. -/
inductive CallKind where
  | send
  | register
  | unregister
  deriving DecidableEq, Repr

/-- An operation on a registry, as data. -/
inductive Deed where
  | find (text : String)
  | row (uri : String)
  | list (status : Option Status)
  | self
  | add (p : Peer)
  | confirm (p : Peer)
  | request (uri : String)
  | accept (uri : String)
  | decline (uri : String)
  | cancel (uri : String)
  | remove (uri : String)
  | handleRegister (q : Registration)
  | handleUnregister (text : String)
  | reload
  | tablePut (key : String) (p : Peer)
  | tableDelete (key : String)
  | tableValues
  | removed

/-- What a deed gives. -/
inductive DeedResult where
  | peer (p : Option Peer)
  | peers (ps : List Peer)
  | self (i : Identity)
  | flag (r : Except Failure Bool)
  | answer (r : Except Failure RegistrationAnswer)
  | unit (r : Except Failure Unit)
  | rows (r : Except Failure (List Peer))
  | uris (us : List String)

/-- How a scripted peer replies: it waits, then deeds are done on the node that asks, then it fails or gives the
answer that fits the question. -/
structure Scripted where
  delay : Nat
  during : List Deed
  failure : Option Failure
  answer : RegistrationAnswer
  known : Bool

/-- The reply of a peer for which nothing is scripted. -/
def Scripted.usual (uri : String) : Scripted :=
  ⟨0, [], none, ⟨⟨"peer-id", "peer", uri⟩, .created, some .requesting, none⟩, true⟩

/-- A call as it reached a scripted peer, with the key of its link for a delivery. -/
inductive CallContent where
  | send (p : Parcel) (signature key : Option String)
  | register (r : Registration)
  | unregister (id : String)

/-- A recorded call, and what the deeds during it gave. -/
structure CallRecord where
  number : Nat
  uri : String
  time : Nat
  content : CallContent
  during : List DeedResult

/-- Scripted replies by kind of call and uri, oldest first. -/
abbrev Scripts := List ((CallKind × String) × List Scripted)

/-! ## Receivers -/

/-- A receiver of an application.  `failures` is how often it still fails, `none` for always. -/
structure Receiver where
  kind : String
  immediate : Bool
  decision : Decision
  delay : Nat
  failure : Option Failure
  failures : Option Nat

/-- A message as a receiver saw it. -/
structure Sighting where
  header : Header
  hop : Option String
  body : Bytes

/-! ## Stations -/

/-- How a node reaches its peers. -/
inductive Link where
  | scripted
  | loopback
  | http
  deriving DecidableEq, Repr

/-- A responder: it answers with its text, the id of the question, a colon and the body, or fails. -/
structure ResponderPlan where
  kind : String
  lead : String
  failure : Option Failure

/-- The function of a responder. -/
def ResponderPlan.respond (r : ResponderPlan) (h : Header) (body : Bytes) : Except Failure Bytes :=
  match r.failure with
  | some f => .error f
  | none => .ok (Bytes.ofText (r.lead ++ h.id ++ ":") ++ body)

/-- Where the tables of a node are: given to it, in its data directory, or made by itself in memory. -/
inductive Keeping where
  | given
  | directory
  | own
  deriving DecidableEq, Repr

/-- What a node is built from. -/
structure Plan where
  name : String
  settings : Settings
  link : Link
  signer : Option Signer
  keeping : Keeping
  rows : List Peer
  receivers : List Receiver
  responders : List ResponderPlan
  start : Bool

instance : Inhabited Plan := ⟨⟨"", default, .scripted, none, .given, [], [], [], true⟩⟩

/-- A node and what is kept beside it.  Workers with a number below `stopBelow` are to stop; `idle` are those that
wait for a message, the first of them is told of the next one. -/
structure Station where
  plan : Plan
  node : Node
  idDisk : Disk
  receivers : List Receiver
  seen : List Sighting
  scripts : Scripts
  calls : List CallRecord
  idle : List Nat
  alive : List Nat
  nextWorker : Nat
  stopBelow : Nat

instance : Inhabited Station := ⟨⟨default, default, default, [], [], [], [], [], [], 0, 0⟩⟩

/-- The tables of a node. -/
inductive TableName where
  | peers
  | messages
  | rules
  deriving DecidableEq, Repr

/-! ## Tasks -/

/-- Who runs. -/
inductive TaskId where
  | main
  | lane (station lane : Nat)
  | worker (station number : Nat)
  deriving DecidableEq, Repr

/-- What a part of a task gives to the part that waits for it. -/
inductive Outcome where
  | sent (r : Except Failure Unit)
  | reply (r : PeerReply)
  | flag (r : Except Failure Bool)
  | received (r : Except Failure Reception)
  | decided (r : Except Failure Decision)
  | done

/-- What a part of a task does next. -/
inductive Action where
  | give (v : Outcome)
  | drive (station lane : Nat)
  | toil (station number : Nat)
  | send (station : Nat) (x : Sending)
  | ask (station : Nat) (c : PeerCall)
  | reply (station number : Nat) (kind : CallKind) (x : Scripted)
  | during (station number : Nat) (kind : CallKind) (x : Scripted) (left : List Deed) (results : List DeedResult)
  | errand (station : Nat) (e : Errand)
  | inbound (station : Nat) (i : Inbound)
  | handle (station : Nat) (p : Parcel)
  | decide (station : Nat) (kind : String)
  | greet (station : Nat) (peers : List String)

/-- A part of a task that waits for what another part gives. -/
inductive Frame where
  | landing (station lane : Nat)
  | finishing (station : Nat) (waiting : Waiting)
  | arriving (uri : String)
  | concluding (station : Nat) (p : Parcel)
  | working (station number : Nat) (p : Parcel)
  | scripting (station number : Nat) (kind : CallKind) (x : Scripted) (left : List Deed) (results : List DeedResult)
  | greeting (station : Nat) (peers : List String)

/-- A task that is to go on. -/
structure Resumption where
  task : TaskId
  action : Action
  stack : List Frame

/-- A task that waits for a time; of those of one time the first to wait goes first. -/
structure Timer where
  deadline : Nat
  number : Nat
  task : Resumption

/-! ## The mesh -/

/-- How a link of the network fails. -/
structure LinkFault where
  down : Bool
  failures : Nat
  deriving Inhabited

/-- The network of loopback links. -/
structure Network where
  routes : Dict Nat
  faults : Dict LinkFault
  delivered : Nat

end ContentMesh.Mesh

namespace ContentMesh

/-- A mesh with a clock of its own. -/
structure Mesh where
  stations : Array Mesh.Station
  network : Mesh.Network
  now : Nat
  ready : List Mesh.Resumption
  timers : List Mesh.Timer
  nextNumber : Nat
  keys : List String
  ids : List String

namespace Mesh

/-- A mesh without nodes. -/
def empty : Mesh := ⟨#[], ⟨∅, ∅, 0⟩, 0, [], [], 0, [], []⟩

instance : Inhabited Mesh := ⟨empty⟩

/-- The date of the mesh: one moment, as time in it is told by ticks. -/
def date : Stamp := ⟨1983, 7, 19, 4, 26, 53, 172839406, by decide⟩

/-- The moment. -/
def moment (mesh : Mesh) : Moment := ⟨mesh.now, date⟩

/-- A station. -/
def station (mesh : Mesh) (s : Nat) : Station := mesh.stations.getD s default

/-- The node of a station. -/
def node (mesh : Mesh) (s : Nat) : Node := (mesh.station s).node

/-- The mesh with a station changed. -/
def modify (mesh : Mesh) (s : Nat) (f : Station → Station) : Mesh :=
  { mesh with stations := mesh.stations.modify s f }

/-! ## Fresh values -/

/-- A digest of a purpose and a number. -/
def seed (purpose : String) (n : Nat) : List Char :=
  (Hex.encode (Sha256.digest (Bytes.ofText (purpose ++ toString n)))).toList

/-- A key that was not used before. -/
def freshKey (mesh : Mesh) : String × Mesh :=
  let k := String.ofList (seed "link key " mesh.keys.length)
  (k, { mesh with keys := mesh.keys ++ [k] })

/-- An id that was not used before. -/
def freshId (mesh : Mesh) : String × Mesh :=
  let cs := seed "id " mesh.ids.length
  let part := fun (start n : Nat) => String.ofList ((cs.drop start).take n)
  let id := "-".intercalate [part 0 8, part 8 4, part 12 4, part 16 4, part 20 12]
  (id, { mesh with ids := mesh.ids ++ [id] })

/-! ## Waking tasks -/

/-- A task at the end of those that are ready. -/
def push (mesh : Mesh) (r : Resumption) : Mesh := { mesh with ready := mesh.ready ++ [r] }

/-- Whether a task is ready. -/
def isReady (mesh : Mesh) (t : TaskId) : Bool := mesh.ready.any fun r => r.task == t

/-- Lets a task go on at a later time. -/
def sleepUntil (mesh : Mesh) (deadline : Nat) (r : Resumption) : Mesh :=
  { mesh with timers := mesh.timers ++ [⟨deadline, mesh.nextNumber, r⟩], nextNumber := mesh.nextNumber + 1 }

/-- Wakes the sender of a lane, unless it is at work.  One that waits to try again looks at its lane at once. -/
def wakeLane (mesh : Mesh) (s l : Nat) : Mesh :=
  let t := TaskId.lane s l
  if ((mesh.node s).outbox.lane l).flight.isSome || mesh.isReady t then mesh
  else { mesh with timers := mesh.timers.filter fun x => x.task.task != t }.push ⟨t, .drive s l, []⟩

/-- Wakes the worker that is told of the next message. -/
def wakeWorker (mesh : Mesh) (s : Nat) : Mesh :=
  match (mesh.station s).idle with
  | k :: _ => if mesh.isReady (.worker s k) then mesh else mesh.push ⟨.worker s k, .toil s k, []⟩
  | [] => mesh

variable {α : Type}

/-- An operation on a node, after which the tasks that it concerns are woken. -/
def atNode (mesh : Mesh) (s : Nat) (f : Node → Moment → α × Node) : α × Mesh :=
  let old := (mesh.node s).inbox.length
  let (x, n) := f (mesh.node s) mesh.moment
  let (signals, outbox) := n.outbox.takeSignals
  let mesh := mesh.modify s fun st => { st with node := { n with outbox } }
  let mesh := signals.foldl (fun mesh l => mesh.wakeLane s l) mesh
  (x, if old < n.inbox.length then mesh.wakeWorker s else mesh)

end Mesh

end ContentMesh
