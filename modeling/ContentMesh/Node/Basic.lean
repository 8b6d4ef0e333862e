import ContentMesh.Message.Log
import ContentMesh.Message.Signature
import ContentMesh.Outbox.Basic
import ContentMesh.Peer.Registry
import ContentMesh.Questions
import ContentMesh.Settings.Basic
import ContentMesh.Topology.Resolver

/-!
# ContentMesh.Node.Basic — one instance of the mesh

A node holds its peers, its log of messages, its lanes, the rules of entities, its questions, and the parcels that
wait for a worker.  Each kind of message has one handler.
-/

namespace ContentMesh

/-- A moment: ticks for waiting, and the date. -/
structure Moment where
  tick : Nat
  date : Stamp
  deriving DecidableEq

/-- What becomes of a message after it was handled. -/
inductive Decision where
  | none
  | all
  | targets (uris : List String)
  deriving DecidableEq, Repr

/-- Who handles a kind of message.  Answers and an application's immediate receivers are handled before the sender
is answered, all others by a worker. -/
inductive Handler where
  | answers
  | topology
  | responder (respond : Header → Bytes → Except Failure Bytes)
  | application (immediate : Bool)

/-- One instance of the mesh.  `removed` are the uris of removed peers, for those who listen. -/
structure Node where
  settings : Settings
  self : Identity
  signer : Signer
  registry : Registry
  log : Log
  outbox : Outbox
  resolver : Resolver
  questions : Questions
  inbox : List Parcel
  dispatch : Dict Handler
  running : Bool
  removed : List String

instance : Inhabited Node :=
  ⟨⟨default, default, .unsigned, .inMemory default, .inMemory, default, .new .inMemory ∅, default, [], ∅, false, []⟩⟩

namespace Node

/-- The kind of messages that carry rules. -/
def topologyKind : String := "topology"

/-- The name under which a message carries the entity it is about. -/
def entityKey : String := "entity"

/-! ## Assembling -/

/-- The tables of a node. -/
structure Stores where
  peers : Store Peer
  messages : Store LogRow
  rules : Store Rules

/-- Empty tables in memory. -/
def Stores.inMemory : Stores := ⟨.inMemory, .inMemory, .inMemory⟩

/-- An opened table as a store. -/
def opened {V : Type} (x : Except Failure (Table V) × Disk) : Except Failure (Store V) := x.1.map Store.of

/-- The tables of a node in a directory, each with the files that it keeps there: the log, which is written for
every message, is a journal, the others are documents. -/
def Stores.openIn (directory : String) (peers messages rules : Disk) : Except Failure Stores := do
  let p ← opened (Table.openAt .document peers (Path.join directory "instances.json"))
  let m ← opened (Table.openAt .journal messages (Path.join directory "messages.journal"))
  let r ← opened (Table.openAt .document rules (Path.join directory "topology.json"))
  return ⟨p, m, r⟩

/-- The handlers of a node: its own replace an application's of the same kind, and responders replace both. -/
def handlers (receivers : List (String × Bool))
    (responders : List (String × (Header → Bytes → Except Failure Bytes))) : Dict Handler :=
  .ofList (receivers.map (fun r => (r.1, .application r.2))
    ++ [(Questions.answerKind, .answers), (topologyKind, .topology)]
    ++ responders.map fun r => (r.1, .responder r.2))

/-- A node over its tables. -/
def assemble (settings : Settings) (self : Identity) (signer : Option Signer) (stores : Stores)
    (dispatch : Dict Handler) : Except Failure Node := do
  let registry ← Registry.load self stores.peers
  return {
    settings, self, registry, dispatch
    signer := signer.getD (if settings.signs then .keyed else .unsigned)
    log := ⟨stores.messages⟩
    outbox := .new settings.retry
    resolver := .new stores.rules settings.fallback
    questions := .initial
    inbox := []
    running := false
    removed := [] }

/-! ## Running -/

/-- Lets messages come in. -/
def start (n : Node) : Node := { n with running := true }

/-- Lets no more messages come in. -/
def stop (n : Node) : Node := { n with running := false }

/-- Stops the senders. -/
def shut (n : Node) : Node := { n with outbox := n.outbox.shut }

/-! ## Parts -/

variable {α : Type}

/-- Closes the lanes of removed peers, and tells those who listen. -/
def heedRemovals (n : Node) : Node :=
  let (gone, registry) := n.registry.takeRemovals
  { n with
    registry
    outbox := gone.foldl (fun o p => (o.close p.uri).2) n.outbox
    removed := n.removed ++ gone.map (·.uri) }

/-- An operation on the registry, with what removals lead to. -/
def onRegistry (n : Node) (f : Registry → α × Registry) : α × Node :=
  let (x, registry) := f n.registry
  (x, { n with registry }.heedRemovals)

/-- An operation on the log. -/
def onLog (n : Node) (f : Log → α × Log) : α × Node :=
  let (x, log) := f n.log
  (x, { n with log })

/-- An operation on the resolver. -/
def onResolver (n : Node) (f : Resolver → α × Resolver) : α × Node :=
  let (x, resolver) := f n.resolver
  (x, { n with resolver })

/-- An operation on the questions. -/
def onQuestions (n : Node) (f : Questions → α × Questions) : α × Node :=
  let (x, questions) := f n.questions
  (x, { n with questions })

/-- A header of a message that comes from here. -/
def newHeader (n : Node) (kind id : String) (now : Moment) : Header := .new id kind n.self.uri now.date

end Node

end ContentMesh
