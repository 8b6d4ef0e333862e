import ContentMesh.Node.Receive
import ContentMesh.Proofs.Message.Folded
import ContentMesh.Proofs.Node.Relaying

/-!
# ContentMesh.Proofs.Node.Folded — nodes up to the case of the names of metadata

A node is folded by folding every message in it.  Taking a message in commutes with folding (`Node.takeIn_folded`), and
so does all that is done with it afterwards.  So two messages that fold to the same have the same fate at a node, and
leave it as nodes that fold to the same.
-/

namespace ContentMesh

/-! ## Questions -/

/-- The answer with its header folded. -/
def Answer.folded (a : Answer) : Answer := { a with header := a.header.folded }

/-- The question with its answers folded. -/
def Pending.folded (p : Pending) : Pending := { p with answers := p.answers.map Answer.folded }

/-- The questions with all answers folded. -/
def Questions.folded (q : Questions) : Questions :=
  { q with
    pending := q.pending.map Pending.folded
    completed := q.completed.map fun c => (c.1, c.2.map Answer.folded) }

theorem Questions.receive_folded (q : Questions) (m : Message) :
    q.folded.receive m.folded = ((q.receive m).1, (q.receive m).2.folded) := by
  have hfirst : m.folded.header.metadata.first? key = m.header.metadata.first? key := Metadata.first?_folded _ _
  have hsource : m.folded.header.source = m.header.source := rfl
  have hpayload : m.folded.payload = m.payload := rfl
  have hpending (id : String) : q.folded.pending.get? id = (q.pending.get? id).map Pending.folded := Dict.get?_map _ _ _
  unfold receive
  rw [hfirst, hsource, hpayload]
  cases m.header.metadata.first? key with
  | none => rfl
  | some id =>
    dsimp only
    rw [hpending]
    cases q.pending.get? id with
    | none => rfl
    | some p =>
      have houtstanding : p.folded.outstanding = p.outstanding := rfl
      dsimp only [Option.map_some]
      rw [houtstanding]
      by_cases hs : m.header.source ∈ p.outstanding
      · rw [if_neg (by simp [hs]), if_neg (by simp [hs])]
        cases m.payload.take.1 with
        | error f => rfl
        | ok body =>
          dsimp only
          by_cases hlast : (p.outstanding.filter (· != m.header.source)).isEmpty = true
          · rw [if_pos hlast, if_pos hlast]
            simp [folded, Dict.map_erase, Pending.folded, Answer.folded, Message.folded]
          · rw [if_neg hlast, if_neg hlast]
            simp [folded, Dict.map_insert, Pending.folded, Answer.folded, Message.folded]
      · rw [if_pos (by simp [hs]), if_pos (by simp [hs])]

/-! ## Lanes -/

/-- The entry with its parcel folded. -/
def Entry.folded (e : Entry) : Entry := { e with parcel := e.parcel.folded }

/-- The flight with its parcel folded. -/
def Flight.folded (f : Flight) : Flight := { f with entry := f.entry.folded }

/-- The lane with all its parcels folded. -/
def Lane.folded (l : Lane) : Lane :=
  { l with waiting := l.waiting.map Entry.folded, flight := l.flight.map Flight.folded }

/-- The outbox with all its parcels folded. -/
def Outbox.folded (o : Outbox) : Outbox := { o with lanes := o.lanes.map Lane.folded }

theorem Lane.enqueue_folded (l : Lane) (p : Parcel) (now : Nat) :
    l.folded.enqueue p.folded now = (l.enqueue p now).folded := by
  simp [enqueue, folded, Entry.folded]

namespace Outbox

theorem modify_folded (o : Outbox) (i : Nat) {f g : Lane → Lane} (h : ∀ l, g l.folded = (f l).folded) :
    o.folded.modify i g = (o.modify i f).folded := by
  have hlanes : (o.lanes.map Lane.folded).modify i g = (o.lanes.modify i f).map Lane.folded := by
    refine Array.ext_getElem? fun j => ?_
    rw [Array.getElem?_modify, Array.getElem?_map, Array.getElem?_map, Array.getElem?_modify]
    by_cases hij : i = j
    · rw [if_pos hij, if_pos hij, Option.map_map, Option.map_map]
      exact congrArg (Option.map · o.lanes[j]?) (funext h)
    · rw [if_neg hij, if_neg hij]
  unfold modify folded
  dsimp only
  rw [hlanes]

theorem opened_folded (o : Outbox) (uri : String) :
    o.folded.opened uri = ((o.opened uri).1, (o.opened uri).2.folded) := by
  have hlane : o.folded.laneOf? uri = o.laneOf? uri := rfl
  unfold opened
  rw [hlane]
  cases o.laneOf? uri with
  | some i => rfl
  | none =>
    simp only [folded, Array.size_map, Array.map_push]
    rfl

theorem enqueue_folded (o : Outbox) (uri : String) (p : Parcel) (now : Nat) :
    o.folded.enqueue uri p.folded now = (o.enqueue uri p now).folded := by
  unfold enqueue
  rw [opened_folded]
  dsimp only
  rw [(o.opened uri).2.modify_folded _ fun l => l.enqueue_folded p now]
  rfl

end Outbox

/-! ## Nodes -/

/-- The node with all its messages folded. -/
def Node.folded (n : Node) : Node :=
  { n with outbox := n.outbox.folded, questions := n.questions.folded, inbox := n.inbox.map Parcel.folded }

namespace Node

variable {α : Type}

theorem onLog_folded (n : Node) (f : Log → α × Log) : n.folded.onLog f = ((n.onLog f).1, (n.onLog f).2.folded) := rfl

/-! ### Handing on -/

theorem checkIn_folded (n : Node) (p : Parcel) (target : String) (now : Moment) :
    n.folded.checkIn p.folded target now = ((n.checkIn p target now).1, (n.checkIn p target now).2.folded) := by
  have hclosed : n.folded.outbox.closed = n.outbox.closed := rfl
  have hregistry : n.folded.registry = n.registry := rfl
  have hheader : p.folded.header = p.header.folded := rfl
  unfold checkIn
  rw [hclosed, hregistry, hheader]
  by_cases hc : n.outbox.closed = true
  · rw [if_pos hc, if_pos hc]
  · rw [if_neg hc, if_neg hc]
    cases n.registry.registered? target with
    | none => rfl
    | some t =>
      dsimp only [Log.saveIfAbsent_folded]
      rw [onLog_folded]
      rcases n.onLog fun l => l.saveIfAbsent p.header .stored now.date with ⟨x, n'⟩
      cases x <;> rfl

theorem enqueue_folded (n : Node) (p : Parcel) (target : String) (now : Moment) :
    n.folded.enqueue p.folded target now = ((n.enqueue p target now).1, (n.enqueue p target now).2.folded) := by
  rw [enqueue_eq, enqueue_eq, checkIn_folded]
  rcases n.checkIn p target now with ⟨f | ⟨⟩, n'⟩
  · rfl
  · have houtbox : n'.folded.outbox = n'.outbox.folded := rfl
    dsimp only
    rw [houtbox, Outbox.enqueue_folded]
    rfl

theorem enqueueAll_folded (n : Node) (p : Parcel) (now : Moment) (s : Summary) (ts : List String) :
    n.folded.enqueueAll p.folded now s ts = ((n.enqueueAll p now s ts).1, (n.enqueueAll p now s ts).2.folded) := by
  induction ts generalizing n s with
  | nil => rfl
  | cons t ts ih =>
    rw [enqueueAll, enqueueAll, enqueue_folded]
    rcases n.enqueue p t now with ⟨x, n'⟩
    cases x with
    | error f => exact ih n' _
    | ok b => exact ih n' _

theorem relayTo_folded (n : Node) (p : Parcel) (ts : List String) (now : Moment) :
    n.folded.relayTo p.folded ts now = ((n.relayTo p ts now).1, (n.relayTo p ts now).2.folded) := by
  have hheader : p.folded.header = p.header.folded := rfl
  unfold relayTo
  rw [hheader]
  dsimp only [Log.saveIfAbsent_folded]
  rw [onLog_folded]
  rcases n.onLog fun l => l.saveIfAbsent p.header .stored now.date with ⟨x, n'⟩
  cases x with
  | error f => rfl
  | ok b =>
    dsimp only
    rw [enqueueAll_folded]
    rfl

theorem relay_folded (n : Node) (p : Parcel) (now : Moment) :
    n.folded.relay p.folded now = ((n.relay p now).1, (n.relay p now).2.folded) := relayTo_folded n p (n.targetsFor p) now

/-! ### Handling -/

theorem apply_folded (n : Node) (p : Parcel) (d : Decision) (now : Moment) :
    n.folded.apply p.folded d now = (n.apply p d now).folded := by
  cases d with
  | none => rfl
  | all => rw [apply, relay_folded, apply]
  | targets uris => rw [apply, relayTo_folded, apply]

theorem conclude_folded (n : Node) (p : Parcel) (x : Except Failure Decision) (now : Moment) :
    n.folded.conclude p.folded x now = ((n.conclude p x now).1, (n.conclude p x now).2.folded) := by
  have hid : p.folded.id = p.id := rfl
  cases x with
  | ok d =>
    unfold conclude finish
    dsimp only
    rw [hid, onLog_folded, apply_folded]
  | error f =>
    unfold conclude
    dsimp only
    rw [hid, onLog_folded]
    rcases n.onLog fun l => l.delete p.id with ⟨y, n'⟩
    cases y <;> rfl

theorem handleAnswer_folded (n : Node) (m : Message) :
    n.folded.handleAnswer m.folded = ((n.handleAnswer m).1, (n.handleAnswer m).2.folded) := by
  unfold handleAnswer onQuestions
  dsimp only [folded]
  rw [Questions.receive_folded]

theorem queueUp_folded (n : Node) (p : Parcel) :
    n.folded.queueUp p.folded = ((n.queueUp p).1, (n.queueUp p).2.folded) := by
  have hid : p.folded.id = p.id := rfl
  have hlength : n.folded.inbox.length = n.inbox.length := List.length_map _
  have hcapacity : n.folded.settings = n.settings := rfl
  unfold queueUp
  rw [hlength, hcapacity]
  by_cases hroom : n.inbox.length < max n.settings.capacity 1
  · rw [if_pos hroom, if_pos hroom]
    simp [folded]
  · rw [if_neg hroom, if_neg hroom, hid, onLog_folded]
    rcases n.onLog fun l => l.delete p.id with ⟨y, n'⟩
    cases y <;> rfl

end Node

/-! ## Taking in -/

/-- What comes in, with its message folded. -/
def Inbound.folded (i : Inbound) : Inbound := { i with header := i.header.folded }

/-- How far a message was taken in, with its parcel folded. -/
def Admission.folded : Admission → Admission
  | .settled r => .settled r
  | .handling p => .handling p.folded

namespace Node

theorem letsIn_folded (n : Node) (h : Header) (hop : Peer) :
    n.folded.letsIn h.folded hop = ((n.letsIn h hop).1, (n.letsIn h hop).2.folded) := by
  have hkind : h.folded.kind = h.kind := rfl
  have hentity : h.folded.metadata.first? entityKey = h.metadata.first? entityKey := Metadata.first?_folded _ _
  unfold letsIn
  rw [hkind, hentity]
  by_cases ht : h.kind = topologyKind
  · rw [if_pos ht, if_pos ht]
  · rw [if_neg ht, if_neg ht]
    cases h.metadata.first? entityKey with
    | none => rfl
    | some text =>
      dsimp only
      cases Entity.read text <;> rfl

theorem deliver_folded (n : Node) (p : Parcel) (h : Handler) (now : Moment) :
    n.folded.deliver p.folded h now = ((n.deliver p h now).1.folded, (n.deliver p h now).2.folded) := by
  have haddressed : p.folded.header.addressedTo n.folded.self.uri = p.header.addressedTo n.self.uri := rfl
  unfold deliver
  rw [haddressed]
  by_cases ha : (!p.header.addressedTo n.self.uri) = true
  · rw [if_pos ha, if_pos ha, apply_folded]
    rfl
  · rw [if_neg ha, if_neg ha]
    cases h with
    | answers =>
      dsimp only
      rw [p.toMessage_folded, handleAnswer_folded]
      dsimp only
      rw [conclude_folded]
      rfl
    | topology =>
      dsimp only
      rw [queueUp_folded]
      rfl
    | responder respond =>
      dsimp only
      rw [queueUp_folded]
      rfl
    | application immediate =>
      cases immediate with
      | true => rfl
      | false =>
        dsimp only
        rw [queueUp_folded]
        rfl

theorem takeInFrom_folded (n : Node) (hop : Peer) (i : Inbound) (now : Moment) :
    n.folded.takeInFrom hop i.folded now = ((n.takeInFrom hop i now).1.folded, (n.takeInFrom hop i now).2.folded) := by
  have hparcel : (⟨i.folded.header, some hop.uri, i.folded.body⟩ : Parcel)
    = Parcel.folded ⟨i.header, some hop.uri, i.body⟩ := rfl
  have hsignature : i.folded.signature = i.signature := rfl
  have hsigner : n.folded.signer = n.signer := rfl
  have hdispatch : n.folded.dispatch = n.dispatch := rfl
  unfold takeInFrom
  rw [hparcel, hsignature, hsigner, hdispatch]
  generalize (⟨i.header, some hop.uri, i.body⟩ : Parcel) = p
  have hheader : p.folded.header = p.header.folded := rfl
  have hkind : p.header.folded.kind = p.header.kind := rfl
  dsimp only
  rw [n.signer.verify_folded, hheader, hkind, letsIn_folded]
  cases n.signer.verify hop.receiveKey p i.signature with
  | error f => rfl
  | ok u =>
    dsimp only
    cases n.dispatch.get? p.header.kind with
    | none => rfl
    | some h =>
      dsimp only
      rcases n.letsIn p.header hop with ⟨lets, n'⟩
      rcases lets with f | b
      · rfl
      cases b with
      | false => rfl
      | true =>
        dsimp only [Log.saveIfAbsent_folded]
        rw [onLog_folded]
        rcases n'.onLog fun l => l.saveIfAbsent p.header .received now.date with ⟨new, n''⟩
        rcases new with f | b
        · rfl
        cases b with
        | false => rfl
        | true => exact deliver_folded n'' p h now

theorem takeIn_folded (n : Node) (i : Inbound) (now : Moment) :
    n.folded.takeIn i.folded now = ((n.takeIn i now).1.folded, (n.takeIn i now).2.folded) := by
  have hrunning : n.folded.running = n.running := rfl
  have hregistry : n.folded.registry = n.registry := rfl
  have hhop : i.folded.hop = i.hop := rfl
  unfold takeIn
  rw [hrunning, hregistry, hhop]
  by_cases hr : (!n.running) = true
  · rw [if_pos hr, if_pos hr]
    rfl
  · rw [if_neg hr, if_neg hr]
    cases (n.registry.find? i.hop).filter Peer.isRegistered with
    | none => rfl
    | some hop => exact takeInFrom_folded n hop i now

end Node

/-! ## Taking in to the end -/

/-- What an application does with a message that it handles at once: how it decides, what becomes of the node in the
meantime, and when it is done.  It does not heed the case of names of metadata. -/
structure Application where
  decide : Parcel → Node → Except Failure Decision
  meanwhile : Parcel → Node → Node
  ending : Moment → Moment
  decide_alike : ∀ (p q : Parcel) (n m : Node), p.folded = q.folded → n.folded = m.folded → decide p n = decide q m
  meanwhile_alike : ∀ (p q : Parcel) (n m : Node), p.folded = q.folded → n.folded = m.folded →
    (meanwhile p n).folded = (meanwhile q m).folded

namespace Node

/-- Takes in a message to the end, with an application for those that it handles at once. -/
def receive (n : Node) (app : Application) (i : Inbound) (now : Moment) : Except Failure Reception × Node :=
  match n.takeIn i now with
  | (.settled r, n) => (r, n)
  | (.handling p, n) => (app.meanwhile p n).conclude p (app.decide p n) (app.ending now)

/-- Messages that differ in the case of names have the same fate at a node, and leave it in states that differ in no
more. -/
theorem receive_alike {i j : Inbound} (h : i.folded = j.folded) (n : Node) (app : Application) (now : Moment) :
    (n.receive app i now).1 = (n.receive app j now).1 ∧
      (n.receive app i now).2.folded = (n.receive app j now).2.folded := by
  have hi := n.takeIn_folded i now
  rw [h, n.takeIn_folded j now, Prod.mk.injEq] at hi
  obtain ⟨hadmission, hnode⟩ := hi
  unfold receive
  generalize n.takeIn i now = x at hadmission hnode ⊢
  generalize n.takeIn j now = y at hadmission hnode ⊢
  obtain ⟨x, m⟩ := x
  obtain ⟨y, m'⟩ := y
  cases x with
  | settled r =>
    cases y with
    | settled r' => exact ⟨(Admission.settled.inj hadmission).symm, hnode.symm⟩
    | handling p' => cases hadmission
  | handling p =>
    cases y with
    | settled r' => cases hadmission
    | handling p' =>
      have hparcel : p.folded = p'.folded := (Admission.handling.inj hadmission).symm
      have hdecide : app.decide p m = app.decide p' m' := app.decide_alike p p' m m' hparcel hnode.symm
      have hmeanwhile : (app.meanwhile p m).folded = (app.meanwhile p' m').folded :=
        app.meanwhile_alike p p' m m' hparcel hnode.symm
      have hp := (app.meanwhile p m).conclude_folded p (app.decide p m) (app.ending now)
      rw [hmeanwhile, hparcel, hdecide, conclude_folded, Prod.mk.injEq] at hp
      dsimp only
      rw [hdecide]
      exact ⟨hp.1.symm, hp.2.symm⟩

end Node

end ContentMesh
