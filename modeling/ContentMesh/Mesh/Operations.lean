import ContentMesh.Mesh.Run

/-!
# ContentMesh.Mesh.Operations — building a mesh and acting on it from outside

What is done from outside runs as the main task.  Where it has to wait, time passes and all other tasks go on;
`settle` lets them finish what is due afterwards.
-/

namespace ContentMesh.Mesh

/-! ## Building -/

/-- The tables of a new station, with its rows. -/
def storesOf (p : Plan) (directory : String) : Except Failure Node.Stores := do
  let stores ← match p.keeping with
    | .directory => Node.Stores.openIn directory (.root directory) (.root directory) (.root directory)
    | _ => .ok .inMemory
  match p.keeping with
  | .own => return stores
  | _ => return { stores with peers := p.rows.foldl (fun s r => (s.put r.uri r).2) stores.peers }

/-- The node of a plan over its tables. -/
def nodeOf (p : Plan) (self : Identity) (stores : Node.Stores) : Except Failure Node :=
  Node.assemble p.settings self p.signer stores
    (Node.handlers (p.receivers.map fun r => (r.kind, r.immediate)) (p.responders.map fun r => (r.kind, r.respond)))

/-- The directory of a node's tables. -/
def directoryOf (p : Plan) : String := p.settings.dataDirectory.getD ""

/-- Makes a station known to the network, unless its node speaks HTTP. -/
def attach (mesh : Mesh) (s : Nat) : Mesh :=
  if (mesh.station s).plan.link = .http then mesh
  else { mesh with network.routes := mesh.network.routes.insert (mesh.node s).self.uri s }

/-- Adds a station. -/
def add (mesh : Mesh) (p : Plan) : Except Failure Mesh := do
  p.settings.validate
  let (id, mesh) := mesh.freshId
  let (self, disk) := p.settings.identify (.root (directoryOf p)) id
  let node ← nodeOf p (← self) (← storesOf p (directoryOf p))
  let st : Station := {
    plan := p, node, idDisk := disk, receivers := p.receivers
    seen := [], scripts := [], calls := [], idle := [], alive := [], nextWorker := 0, stopBelow := 0 }
  return { mesh with stations := mesh.stations.push st }.attach mesh.stations.size

/-! ## Lifecycle -/

/-- Starts workers. -/
def employ (mesh : Mesh) (s count : Nat) : Mesh :=
  let first := (mesh.station s).nextWorker
  let numbers := (List.range count).map (first + ·)
  let mesh := mesh.modify s fun st => { st with alive := st.alive ++ numbers, nextWorker := first + count }
  numbers.foldl (fun mesh k => mesh.push ⟨.worker s k, .toil s k, []⟩) mesh

/-- Starts a node: its workers, then requests to the peers it is configured with. -/
def start (mesh : Mesh) (s : Nat) : Mesh :=
  let n := mesh.node s
  if n.running then mesh
  else
    let mesh := mesh.modify s fun st => { st with node := st.node.start }
    let mesh := mesh.employ s (max n.settings.workers 1)
    (mesh.finish (.greet s n.settings.peers)).1

/-- Whether no lane of a station has a parcel in flight. -/
def grounded (s : Nat) (mesh : Mesh) : Bool := (mesh.node s).outbox.lanes.all fun l => l.flight.isNone

/-- Stops the senders of a node, and waits for those at work. -/
def shutOutbox (mesh : Mesh) (s : Nat) : Mesh :=
  let ((), mesh) := mesh.atNode s fun n _ => ((), n.shut)
  (awaitThat (grounded s) none budget mesh).2

/-- Stops the workers of a node, and waits for those at work. -/
def dismiss (mesh : Mesh) (s : Nat) : Mesh :=
  let mesh := mesh.modify s fun st => { st with stopBelow := st.nextWorker }
  let mesh := (mesh.station s).idle.foldl (fun mesh k =>
    if mesh.isReady (.worker s k) then mesh else mesh.push ⟨.worker s k, .toil s k, []⟩) mesh
  (awaitThat (fun mesh => (mesh.station s).alive.isEmpty) none budget mesh).2

/-- Stops a node: first it takes in nothing more, then its workers stop, then its senders. -/
def shutdown (mesh : Mesh) (s : Nat) : Mesh :=
  if !(mesh.node s).running then mesh
  else ((mesh.modify s fun st => { st with node := st.node.stop }).dismiss s).shutOutbox s

/-- Forgets the tasks of a station. -/
def dropTasks (mesh : Mesh) (s : Nat) : Mesh :=
  let other := fun (r : Resumption) => match r.task with
    | .main => true
    | .lane t _ | .worker t _ => t != s
  { mesh with ready := mesh.ready.filter other, timers := mesh.timers.filter fun x => other x.task }

/-- The tables of a station for another node over them. -/
def keptStores (st : Station) : Except Failure Node.Stores :=
  let n := st.node
  match st.plan.keeping with
  | .given => .ok ⟨n.registry.store, n.log.store, n.resolver.store⟩
  | .own => .ok .inMemory
  | .directory => Node.Stores.openIn (directoryOf st.plan) n.registry.store.table.disk n.log.store.table.disk
      n.resolver.store.table.disk

/-- Stops a node and builds another one in its place.  Questions that were answered stay so, the others are given
up.  Where the rows cannot be read the old node stays, and the attempt counts as a call of its table. -/
def rebuild (mesh : Mesh) (s : Nat) : Except Failure Unit × Mesh :=
  let mesh := (mesh.shutdown s).shutOutbox s |>.dropTasks s
  let st := mesh.station s
  let (id, mesh) := mesh.freshId
  let (self, disk) := st.plan.settings.identify st.idDisk id
  let built : Except Failure Node := do nodeOf st.plan (← self) (← keptStores st)
  let questions := { st.node.questions with pending := ∅ }
  match built with
  | .error f =>
    (.error f, mesh.modify s fun st => { st with node := { (st.node.onRegistry Registry.reload).2 with questions } })
  | .ok node =>
    let node := { node with questions, removed := st.node.removed }
    let mesh := mesh.modify s fun st =>
      { st with node, idDisk := disk, receivers := st.plan.receivers, idle := [], alive := [] }
    (.ok (), mesh.attach s)

/-- Lets all tasks finish what is due. -/
def settle (mesh : Mesh) : Mesh := mesh.drain

/-- Lets time pass. -/
def advance (mesh : Mesh) (ms : Nat) : Mesh := (awaitThat (fun _ => false) (some (mesh.now + ms)) budget mesh).2

/-! ## Acting -/

/-- Does a deed. -/
def deed (mesh : Mesh) (s : Nat) (d : Deed) : DeedResult × Mesh :=
  match mesh.deedNow s d with
  | some x => x
  | none =>
    let (e, mesh) := mesh.errandOf d
    match mesh.finish (.errand s e) with
    | (mesh, some (.flag r)) => (.flag r, mesh)
    | (mesh, _) => (.flag (.ok false), mesh)

/-- A message comes in. -/
def receive (mesh : Mesh) (s : Nat) (i : Inbound) : Except Failure Reception × Mesh :=
  match mesh.finish (.inbound s i) with
  | (mesh, some (.received r)) => (r, mesh)
  | (mesh, _) => (.error .shutdown, mesh)

/-- A request comes in. -/
def request (mesh : Mesh) (s : Nat) (a : Http.Arrival) : Http.Response × Mesh :=
  let (x, mesh) := mesh.atNode s fun n now => Http.route n a now
  match x with
  | .answered r => (r, mesh)
  | .message i =>
    let (r, mesh) := mesh.receive s i
    (Http.messageResponse r, mesh)

/-- How the question of a ticket of a node stands. -/
def standing (mesh : Mesh) (s ticket : Nat) : Standing := (mesh.node s).questions.standing ticket

/-- Asks a question and waits for the answers, up to a time. -/
def askWithin (mesh : Mesh) (s : Nat) (m : Message) (receivers : Option (List String)) (ms : Nat) :
    Except Failure (List Answer) × Mesh :=
  let (x, mesh) := mesh.atNode s fun n now => n.ask m receivers now
  match x with
  | .error f => (.error f, mesh)
  | .ok ticket =>
    let settled := fun (mesh : Mesh) => mesh.standing s ticket != .waiting
    let mesh := if settled mesh || ms = 0 then mesh else (awaitThat settled (some (mesh.now + ms)) budget mesh).2
    match mesh.standing s ticket with
    | .answered answers => (.ok answers, mesh)
    | .givenUp => (.error .shutdown, mesh)
    | .waiting =>
      let (_, mesh) := mesh.atNode s fun n _ => n.onQuestions fun q => q.cancel m.header.id
      (.error (.timeout ms), mesh)

/-- Plans that the next calls of a kind on a link fail, or takes it down. -/
def disturb (mesh : Mesh) (uri : String) (f : LinkFault → LinkFault) : Mesh :=
  let fault := (mesh.network.faults.get? uri).getD ⟨false, 0⟩
  { mesh with network.faults := mesh.network.faults.insert uri (f fault) }

/-- Takes a route away, and tells whether there was one. -/
def detach (mesh : Mesh) (uri : String) : Bool × Mesh :=
  (mesh.network.routes.contains uri, { mesh with network.routes := mesh.network.routes.erase uri })

/-- Takes the calls that reached the scripted peers of a station. -/
def takeCalls (mesh : Mesh) (s : Nat) : List CallRecord × Mesh :=
  ((mesh.station s).calls, mesh.modify s fun st => { st with calls := [] })

/-- Takes what the receivers of a station have seen. -/
def takeSeen (mesh : Mesh) (s : Nat) : List Sighting × Mesh :=
  ((mesh.station s).seen, mesh.modify s fun st => { st with seen := [] })

/-- Plans that the next calls of a table fail. -/
def drill (mesh : Mesh) (s : Nat) (t : TableName) (c : TableCall) (count : Nat) : Mesh :=
  mesh.modify s fun st =>
    match t with
    | .peers => { st with node.registry.store.faults := st.node.registry.store.faults.plan c count }
    | .messages => { st with node.log.store.faults := st.node.log.store.faults.plan c count }
    | .rules => { st with node.resolver.store.faults := st.node.resolver.store.faults.plan c count }

/-- Adds scripted replies. -/
def script (mesh : Mesh) (s : Nat) (kind : CallKind) (uri : String) (xs : List Scripted) : Mesh :=
  mesh.modify s fun st =>
    let old := (st.scripts.lookup (kind, uri)).getD []
    { st with scripts := ((kind, uri), old ++ xs) :: st.scripts.filter (·.1 != (kind, uri)) }

/-- The disks of a station. -/
def disks (mesh : Mesh) (s : Nat) : List Disk :=
  let st := mesh.station s
  [st.idDisk, st.node.registry.store.table.disk, st.node.log.store.table.disk, st.node.resolver.store.table.disk]

/-- The names in the data directory of a station. -/
def files (mesh : Mesh) (s : Nat) : List String :=
  let directory := directoryOf (mesh.station s).plan
  let names := (mesh.disks s).flatMap fun d => d.list directory
  (Dict.ofList (names.map fun n => (n, ()))).keys

/-- The bytes of a file in the data directory of a station. -/
def file? (mesh : Mesh) (s : Nat) (name : String) : Option Bytes :=
  let path := Path.join (directoryOf (mesh.station s).plan) name
  (mesh.disks s).findSome? fun d => d.read? path

end ContentMesh.Mesh
