import ContentMesh.Mesh.Basic

/-!
# ContentMesh.Mesh.Run — letting a mesh go on

A task is an action with a stack of parts that wait for it.  `step` does one action; it ends in another action, in
a value for the part on top of the stack, or in a wait.  `drain` runs what is ready, first come first served;
`finish` runs one task to its end and lets time pass while it waits.  Runs are bounded by a budget of steps.
-/

namespace ContentMesh.Mesh

/-- How a task goes on after a step. -/
inductive Next where
  | go (a : Action) (stack : List Frame)
  | rest
  | finished (v : Outcome)

/-- A step: the mesh after it, and how the task goes on. -/
abbrev Stepped := Mesh × Next

/-! ## Deeds -/

/-- A deed that does not speak to a peer. -/
def deedNow (mesh : Mesh) (s : Nat) : Deed → Option (DeedResult × Mesh)
  | .find text => some (.peer ((mesh.node s).registry.find? text), mesh)
  | .row uri => some (.peer ((mesh.node s).registry.row? uri), mesh)
  | .list none => some (.peers (mesh.node s).registry.rows, mesh)
  | .list (some st) => some (.peers ((mesh.node s).registry.withStatus st), mesh)
  | .self => some (.self (mesh.node s).self, mesh)
  | .add p => some (flag (mesh.atNode s fun n _ => n.onRegistry fun r => r.add p))
  | .confirm p => some (flag (mesh.atNode s fun n _ => n.onRegistry fun r => r.confirm p))
  | .handleRegister q =>
    let (x, mesh) := mesh.atNode s fun n _ => n.onRegistry fun r => r.handleRegister q
    some (.answer x, mesh)
  | .handleUnregister text => some (flag (mesh.atNode s fun n _ => n.onRegistry fun r => r.handleUnregister text))
  | .reload =>
    let (x, mesh) := mesh.atNode s fun n _ => n.onRegistry Registry.reload
    some (.unit x, mesh)
  | .tablePut key p =>
    let (x, mesh) := mesh.atNode s fun n _ => n.onRegistry fun r =>
      let (x, store) := r.store.put key p
      (x, { r with store })
    some (.unit x, mesh)
  | .tableDelete key => some (flag (mesh.atNode s fun n _ => n.onRegistry fun r =>
      let (x, store) := r.store.delete key
      (x, { r with store })))
  | .tableValues =>
    let (x, mesh) := mesh.atNode s fun n _ => n.onRegistry fun r =>
      let (x, store) := r.store.values
      (x, { r with store })
    some (.rows x, mesh)
  | .removed =>
    let (x, mesh) := mesh.atNode s fun n _ => (n.removed, { n with removed := [] })
    some (.uris x, mesh)
  | .request _ | .accept _ | .decline _ | .cancel _ | .remove _ => none
where
  /-- The result of a deed that succeeds or not. -/
  flag (x : Except Failure Bool × Mesh) : DeedResult × Mesh := (.flag x.1, x.2)

/-- The errand of a deed that speaks to a peer. -/
def errandOf (mesh : Mesh) : Deed → Errand × Mesh
  | .request uri =>
    let (key, mesh) := mesh.freshKey
    (.request uri key, mesh)
  | .accept uri => (.accept uri, mesh)
  | .decline uri => (.decline uri, mesh)
  | .cancel uri => (.cancel uri, mesh)
  | .remove uri => (.remove uri, mesh)
  | _ => (.remove "", mesh)

/-! ## Peers -/

/-- The kind of a call. -/
def kindOf : PeerCall → CallKind × String
  | .register uri _ => (.register, uri)
  | .unregister uri _ => (.unregister, uri)

/-- Takes the next scripted reply. -/
def takeScript (mesh : Mesh) (s : Nat) (kind : CallKind) (uri : String) : Scripted × Mesh :=
  let scripts := (mesh.station s).scripts
  match scripts.lookup (kind, uri) with
  | some (x :: xs) =>
    let rest := scripts.map fun e => if e.1 = (kind, uri) then (e.1, xs) else e
    (x, mesh.modify s fun st => { st with scripts := rest })
  | _ => (.usual uri, mesh)

/-- A scripted peer is called: the call is recorded, and the reply comes after its delay. -/
def callScripted (mesh : Mesh) (t : TaskId) (s : Nat) (kind : CallKind) (uri : String) (content : CallContent)
    (stack : List Frame) : Stepped :=
  let (x, mesh) := mesh.takeScript s kind uri
  let number := mesh.nextNumber
  let record : CallRecord := ⟨number, uri, mesh.now, content, []⟩
  let mesh := { mesh.modify s fun st => { st with calls := st.calls ++ [record] } with nextNumber := number + 1 }
  if x.delay = 0 then (mesh, .go (.reply s number kind x) stack)
  else (mesh.sleepUntil (mesh.now + x.delay) ⟨t, .reply s number kind x, stack⟩, .rest)

/-- What a scripted reply gives. -/
def outcomeOf (kind : CallKind) (x : Scripted) : Outcome :=
  match kind, x.failure with
  | .send, some f => .sent (.error f)
  | .send, none => .sent (.ok ())
  | _, some f => .reply (.failed f)
  | .register, none => .reply (.answer x.answer)
  | .unregister, none => .reply (.known x.known)

/-- The station that a loopback link leads to. -/
def route (mesh : Mesh) (uri : String) : Except Failure Nat × Mesh :=
  let fault := (mesh.network.faults.get? uri).getD ⟨false, 0⟩
  if fault.down then (.error (.network (uri ++ " unreachable")), mesh)
  else if 0 < fault.failures then
    (.error (.network (uri ++ ": injected failure")),
      { mesh with network.faults := mesh.network.faults.insert uri { fault with failures := fault.failures - 1 } })
  else
    match mesh.network.routes.get? uri with
    | some t => (.ok t, mesh)
    | none => (.error (.network ("no route to " ++ uri)), mesh)

/-- Delivers a parcel. -/
def send (mesh : Mesh) (t : TaskId) (s : Nat) (x : Sending) (stack : List Frame) : Stepped :=
  match (mesh.station s).plan.link with
  | .scripted =>
    mesh.callScripted t s .send x.target.uri (.send x.parcel x.signature x.target.receiveKey) stack
  | .loopback =>
    match mesh.route x.target.uri with
    | (.error f, mesh) => (mesh, .go (.give (.sent (.error f))) stack)
    | (.ok there, mesh) =>
      let i := Inbound.direct (mesh.node s).self x.parcel x.signature
      (mesh, .go (.inbound there i) (.arriving x.target.uri :: stack))
  | .http =>
    let f := match Http.deliver (mesh.node s).self x.target.uri x.parcel x.signature with
      | .ok r => Http.unreached r
      | .error f => f
    (mesh, .go (.give (.sent (.error f))) stack)

/-- Asks a peer about registration. -/
def ask (mesh : Mesh) (t : TaskId) (s : Nat) (c : PeerCall) (stack : List Frame) : Stepped :=
  let (kind, uri) := kindOf c
  match (mesh.station s).plan.link with
  | .scripted =>
    let content := match c with
      | .register _ r => CallContent.register r
      | .unregister _ id => .unregister id
    mesh.callScripted t s kind uri content stack
  | .loopback =>
    match mesh.route uri with
    | (.error f, mesh) => (mesh, .go (.give (.reply (.failed f))) stack)
    | (.ok there, mesh) =>
      let (reply, mesh) := mesh.atNode there fun n _ => n.onRegistry fun r => r.serve c
      (mesh, .go (.give (.reply reply)) stack)
  | .http =>
    let request := match c with
      | .register uri r => Http.register uri r
      | .unregister uri id => Http.unregister uri id
    let f := match request with
      | .ok r => Http.unreached r
      | .error f => f
    (mesh, .go (.give (.reply (.failed f))) stack)

/-! ## Tasks -/

/-- The sender of a lane looks at it. -/
def drive (mesh : Mesh) (s l : Nat) (stack : List Frame) : Stepped :=
  let o := (mesh.node s).outbox
  let lane := o.lane l
  if o.closed || lane.closed then (mesh, .rest)
  else
    match lane.due? with
    | none => (mesh, .rest)
    | some due =>
      if mesh.now < due then (mesh.sleepUntil due ⟨.lane s l, .drive s l, []⟩, .rest)
      else
        let (x, mesh) := mesh.atNode s fun n now => n.depart l now
        match x with
        | none => (mesh, .go (.drive s l) stack)
        | some x => (mesh, .go (.send s x) (.landing s l :: stack))

/-- A worker looks for a message.  The first of those that wait is the one to take it, and the next one is told. -/
def toil (mesh : Mesh) (s k : Nat) (stack : List Frame) : Stepped :=
  let st := mesh.station s
  if k < st.stopBelow then
    (mesh.modify s fun st => { st with idle := st.idle.filter (· != k), alive := st.alive.filter (· != k) }, .rest)
  else
    let waits := fun (mesh : Mesh) =>
      mesh.modify s fun st => { st with idle := if st.idle.contains k then st.idle else st.idle ++ [k] }
    if (st.idle.isEmpty || st.idle.head? == some k) && !st.node.inbox.isEmpty then
      let mesh := mesh.modify s fun st => { st with idle := st.idle.filter (· != k) }
      let mesh := if 1 < st.node.inbox.length then mesh.wakeWorker s else mesh
      let (id, mesh) := mesh.freshId
      let (x, mesh) := mesh.atNode s fun n now => n.work id now
      match x with
      | .handling p => (mesh, .go (.handle s p) (.working s k p :: stack))
      | _ => (mesh, .go (.toil s k) stack)
    else (waits mesh, .rest)

/-- The receiver of a kind of message: the last one that was given for it. -/
def receiver? (mesh : Mesh) (s : Nat) (kind : String) : Option Receiver :=
  (mesh.station s).receivers.reverse.find? fun r => r.kind == kind

/-- A receiver of an application sees a message. -/
def handle (mesh : Mesh) (t : TaskId) (s : Nat) (p : Parcel) (stack : List Frame) : Stepped :=
  let mesh := mesh.modify s fun st => { st with seen := st.seen ++ [⟨p.header, p.hop, p.body⟩] }
  let delay := ((mesh.receiver? s p.header.kind).map (·.delay)).getD 0
  let next := Action.decide s p.header.kind
  if delay = 0 then (mesh, .go next stack) else (mesh.sleepUntil (mesh.now + delay) ⟨t, next, stack⟩, .rest)

/-- A receiver of an application decides, or fails. -/
def decide (mesh : Mesh) (s : Nat) (kind : String) (stack : List Frame) : Stepped :=
  match mesh.receiver? s kind with
  | none => (mesh, .go (.give (.decided (.ok .none))) stack)
  | some r =>
    match r.failure, r.failures with
    | some f, none => (mesh, .go (.give (.decided (.error f))) stack)
    | some f, some (n + 1) =>
      let spent := fun (x : Receiver) => if x.kind == kind then { x with failures := some n } else x
      (mesh.modify s fun st => { st with receivers := st.receivers.map spent }, .go (.give (.decided (.error f))) stack)
    | _, _ => (mesh, .go (.give (.decided (.ok r.decision))) stack)

/-- The deeds during a scripted call, one after the other. -/
def during (mesh : Mesh) (s number : Nat) (kind : CallKind) (x : Scripted) (left : List Deed)
    (results : List DeedResult) (stack : List Frame) : Stepped :=
  match left with
  | [] =>
    let noted := fun (c : CallRecord) => if c.number = number then { c with during := results } else c
    (mesh.modify s fun st => { st with calls := st.calls.map noted }, .go (.give (outcomeOf kind x)) stack)
  | d :: left =>
    match mesh.deedNow s d with
    | some (r, mesh) => (mesh, .go (.during s number kind x left (results ++ [r])) stack)
    | none =>
      let (e, mesh) := mesh.errandOf d
      (mesh, .go (.errand s e) (.scripting s number kind x left results :: stack))

/-- An errand begins. -/
def errand (mesh : Mesh) (s : Nat) (e : Errand) (stack : List Frame) : Stepped :=
  let (x, mesh) := mesh.atNode s fun n _ => n.onRegistry fun r => r.begin e
  match x with
  | .done r => (mesh, .go (.give (.flag r)) stack)
  | .waits call waiting => (mesh, .go (.ask s call) (.finishing s waiting :: stack))

/-- Configured peers that are not known yet are asked one after the other. -/
def greet (mesh : Mesh) (s : Nat) (peers : List String) (stack : List Frame) : Stepped :=
  match peers with
  | [] => (mesh, .go (.give .done) stack)
  | p :: ps =>
    match (mesh.node s).registry.row? p with
    | some _ => (mesh, .go (.greet s ps) stack)
    | none =>
      let (e, mesh) := mesh.errandOf (.request p)
      (mesh, .go (.errand s e) (.greeting s ps :: stack))

/-- A message comes in. -/
def inbound (mesh : Mesh) (s : Nat) (i : Inbound) (stack : List Frame) : Stepped :=
  let (x, mesh) := mesh.atNode s fun n now => n.takeIn i now
  match x with
  | .settled r => (mesh, .go (.give (.received r)) stack)
  | .handling p => (mesh, .go (.handle s p) (.concluding s p :: stack))

/-- The part on top of the stack gets a value.  A value that it does not wait for is passed on. -/
def give (mesh : Mesh) (v : Outcome) : List Frame → Stepped
  | [] => (mesh, .finished v)
  | f :: stack =>
    match f, v with
    | .landing s l, .sent r =>
      let ((), mesh) := mesh.atNode s fun n now => ((), n.land l r now 1.0)
      (mesh, .go (.drive s l) stack)
    | .finishing s waiting, .reply r =>
      let (x, mesh) := mesh.atNode s fun n _ => n.onRegistry fun reg => reg.finish waiting r
      (mesh, .go (.give (.flag x)) stack)
    | .arriving uri, .received r =>
      let delivered := mesh.network.delivered + if r.toBool then 1 else 0
      ({ mesh with network.delivered := delivered }, .go (.give (.sent (Node.seen uri r))) stack)
    | .concluding s p, .decided x =>
      let (r, mesh) := mesh.atNode s fun n now => n.conclude p x now
      (mesh, .go (.give (.received r)) stack)
    | .working s k p, .decided x =>
      let ((), mesh) := mesh.atNode s fun n now => ((), n.finishWork p x now)
      (mesh, .go (.toil s k) stack)
    | .scripting s number kind x left results, .flag r =>
      (mesh, .go (.during s number kind x left (results ++ [.flag r])) stack)
    | .greeting s peers, .flag _ => (mesh, .go (.greet s peers) stack)
    | _, v => (mesh, .go (.give v) stack)

/-- One action of a task. -/
def step (mesh : Mesh) (t : TaskId) (a : Action) (stack : List Frame) : Stepped :=
  match a with
  | .give v => mesh.give v stack
  | .drive s l => mesh.drive s l stack
  | .toil s k => mesh.toil s k stack
  | .send s x => mesh.send t s x stack
  | .ask s c => mesh.ask t s c stack
  | .reply s number kind x => mesh.during s number kind x x.during [] stack
  | .during s number kind x left results => mesh.during s number kind x left results stack
  | .errand s e => mesh.errand s e stack
  | .inbound s i => mesh.inbound s i stack
  | .handle s p => mesh.handle t s p stack
  | .decide s kind => mesh.decide s kind stack
  | .greet s peers => mesh.greet s peers stack

/-- Lets a task run until it waits or ends. -/
def runTask : Nat → Mesh → TaskId → Action → List Frame → Mesh × Option Outcome
  | 0, mesh, _, _, _ => (mesh, none)
  | budget + 1, mesh, t, a, stack =>
    match mesh.step t a stack with
    | (mesh, .go a stack) => runTask budget mesh t a stack
    | (mesh, .rest) => (mesh, none)
    | (mesh, .finished v) => (mesh, some v)

/-- How many steps a task may take without waiting, and how many tasks may run. -/
def budget : Nat := 1000000

/-- Runs what is ready until nothing is. -/
def drainFor : Nat → Mesh → Mesh
  | 0, mesh => mesh
  | rounds + 1, mesh =>
    match mesh.ready with
    | [] => mesh
    | r :: ready => drainFor rounds (runTask budget { mesh with ready } r.task r.action r.stack).1

/-- Runs what is ready until nothing is. -/
def drain (mesh : Mesh) : Mesh := drainFor budget mesh

/-! ## Time -/

/-- The next time for which a task waits. -/
def nextDeadline? (mesh : Mesh) : Option Nat := (mesh.timers.map (·.deadline)).min?

/-- Moves the clock, and makes the tasks that waited for that time ready; gives the main one, if it was among
them. -/
def moveTo (mesh : Mesh) (time : Nat) : Option Resumption × Mesh :=
  let due := mesh.timers.filter fun x => x.deadline ≤ time
  let due := due.mergeSort fun x y => x.deadline < y.deadline || (x.deadline == y.deadline && x.number ≤ y.number)
  let mesh := { mesh with now := max mesh.now time, timers := mesh.timers.filter fun x => time < x.deadline }
  let tasks := due.map (·.task)
  ((tasks.find? fun r => r.task == .main),
    { mesh with ready := mesh.ready ++ tasks.filter fun r => r.task != .main })

/-- Lets time pass until the main task ends. -/
def awaitMain : Nat → Mesh → Mesh × Option Outcome
  | 0, mesh => (mesh, none)
  | rounds + 1, mesh =>
    let mesh := mesh.drain
    match mesh.nextDeadline? with
    | none => (mesh, none)
    | some t =>
      match mesh.moveTo t with
      | (none, mesh) => awaitMain rounds mesh
      | (some r, mesh) =>
        match runTask budget mesh .main r.action r.stack with
        | (mesh, some v) => (mesh, some v)
        | (mesh, none) => awaitMain rounds mesh

/-- Runs an action as the main task to its end. -/
def finish (mesh : Mesh) (a : Action) : Mesh × Option Outcome :=
  match runTask budget mesh .main a [] with
  | (mesh, some v) => (mesh, some v)
  | (mesh, none) => awaitMain budget mesh

/-- Lets time pass until a condition holds, looking at it whenever nothing is ready, or until `deadline`; whether
the condition holds. -/
def awaitThat (holds : Mesh → Bool) (deadline : Option Nat) : Nat → Mesh → Bool × Mesh
  | 0, mesh => (false, mesh)
  | rounds + 1, mesh =>
    let mesh := mesh.drain
    if holds mesh then (true, mesh)
    else
      match mesh.nextDeadline?, deadline with
      | none, none => (false, mesh)
      | none, some d => (false, (mesh.moveTo d).2)
      | some t, none => awaitThat holds deadline rounds (mesh.moveTo t).2
      | some t, some d =>
        if d ≤ t then (false, (mesh.moveTo d).2) else awaitThat holds deadline rounds (mesh.moveTo t).2

end ContentMesh.Mesh
