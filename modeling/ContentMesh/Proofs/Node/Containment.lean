import ContentMesh.Proofs.Node.Publishing
import ContentMesh.Proofs.Node.Redelivery
import ContentMesh.Proofs.Outbox.Sweeps

/-!
# ContentMesh.Proofs.Node.Containment — a message that names its receivers stays with them

Whatever a node does with a message that names its receivers, it queues copies for receivers only, with the same list,
and handles the message only if it is a receiver itself (`Node.Contained`).  Nothing is asked of the log here.
-/

namespace ContentMesh

/-- A message that names the receivers `sel`, if its id is one of `ids`. -/
def Header.Bound (ids : String → Prop) (sel : List String) (h : Header) : Prop := ids h.id → h.receivers = sel ∧ sel ≠ []

/-- Such a message is handled by none but its receivers. -/
theorem Header.Bound.addressed {ids : String → Prop} {sel : List String} {h : Header} (hb : h.Bound ids sel) {uri : String}
    (ha : h.addressedTo uri = true) (hid : ids h.id) : uri ∈ sel := by
  obtain ⟨hreceivers, hne⟩ := hb hid
  simpa [addressedTo, hreceivers, hne] using ha

/-- Emptying a lane brings nothing in. -/
theorem Lane.Emptied.mem_load {l l' : Lane} (h : l.Emptied l') {p : Parcel} (hp : p ∈ l'.load) : p ∈ l.load := by
  unfold load at hp ⊢
  rw [h.flight] at hp
  rcases List.mem_append.mp hp with hp | hp
  · exact List.mem_append_left _ hp
  · rcases h.waiting with ⟨hw, -⟩ | ⟨hw, -⟩
    · exact List.mem_append_right _ (hw ▸ hp)
    · rw [hw] at hp
      cases hp

/-- A receiver that is run at once is shown as an application's. -/
def Handler.shown : Handler → Handler
  | .answers => .application true
  | h => h

namespace Node

variable {n n' : Node} {ids : String → Prop} {uri : String} {sel : List String}

/-! ## Receivers that run -/

/-- Whatever the log does, a message that comes in is turned away, or it is delivered. -/
theorem takeIn_split (n : Node) (i : Inbound) (now : Moment) :
    (∃ r resolver l, n.takeIn i now = (.settled r, { n with resolver, log := l })) ∨
      ∃ hop handler resolver l, n.takeIn i now
        = { n with resolver, log := l }.deliver ⟨i.header, some hop, i.body⟩ handler now := by
  unfold takeIn
  split
  · exact .inl ⟨_, n.resolver, n.log, rfl⟩
  · split
    · exact .inl ⟨_, n.resolver, n.log, rfl⟩
    · rename_i hop _
      unfold takeInFrom
      dsimp only
      split
      · exact .inl ⟨_, n.resolver, n.log, rfl⟩
      · split
        · exact .inl ⟨_, n.resolver, n.log, rfl⟩
        · rename_i handler _
          obtain ⟨x, resolver, hl⟩ := letsIn_eq n i.header hop
          rw [hl]
          rcases x with f | (_ | _)
          · exact .inl ⟨_, resolver, n.log, rfl⟩
          · exact .inl ⟨_, resolver, n.log, rfl⟩
          · dsimp only [onLog]
            rcases n.log.saveIfAbsent i.header .received now.date with ⟨f | (_ | _), l⟩
            · exact .inl ⟨_, resolver, l, rfl⟩
            · exact .inl ⟨_, resolver, l, rfl⟩
            · exact .inr ⟨hop.uri, handler, resolver, l, rfl⟩

/-- What is handed to an application at once is a message for the node. -/
theorem addressed_of_handling {i : Inbound} {now : Moment} {p : Parcel} (h : n.takeIn i now = (.handling p, n')) :
    p.header = i.header ∧ i.header.addressedTo n.self.uri = true := by
  rcases takeIn_split n i now with ⟨r, resolver, l, heq⟩ | ⟨hop, handler, resolver, l, heq⟩
  · rw [heq] at h
    cases h
  · rw [heq] at h
    unfold deliver at h
    split at h
    · cases h
    · rename_i ha
      cases handler with
      | application b =>
        cases b with
        | true =>
          cases h
          exact ⟨rfl, by simpa using ha⟩
        | false => cases h
      | answers => cases h
      | topology => cases h
      | responder respond => cases h

/-- The messages on which a receiver is run while a message is taken in: what would be handed to applications if all
receivers that are run at once were theirs. -/
def runsAtOnce (n : Node) (i : Inbound) (now : Moment) : List String :=
  match (takeIn { n with dispatch := n.dispatch.map Handler.shown } i now).1 with
  | .handling p => [p.id]
  | .settled _ => []

/-- The message on which a receiver is run when a worker takes the next parcel. -/
def runsNext (n : Node) : List String :=
  (n.inbox.head?.toList.filter fun p => n.dispatch.contains p.header.kind).map Parcel.id

theorem addressed_of_runsAtOnce {i : Inbound} {now : Moment} {id : String} (h : id ∈ n.runsAtOnce i now) :
    id = i.header.id ∧ i.header.addressedTo n.self.uri = true := by
  unfold runsAtOnce at h
  split at h
  · rename_i p hp
    obtain ⟨hheader, ha⟩ := addressed_of_handling (Prod.ext hp rfl)
    exact ⟨(List.mem_singleton.mp h).trans (congrArg Header.id hheader), ha⟩
  · cases h

theorem mem_inbox_of_runsNext {id : String} (h : id ∈ n.runsNext) : ∃ p ∈ n.inbox, p.id = id := by
  unfold runsNext at h
  obtain ⟨p, hp, rfl⟩ := List.mem_map.mp h
  have hhead := Option.mem_toList.mp (List.mem_filter.mp hp).1
  exact ⟨p, List.mem_of_mem_head? hhead, rfl⟩

/-- The copies of messages with the ids at a node: those in its lanes name the receivers `sel` and are for one of them, and
where one waits for a worker, the node is among them.  Without receivers there are no copies. -/
structure Contained (ids : String → Prop) (sel : List String) (uri : String) (n : Node) : Prop where
  self : n.self.uri = uri
  named : n.registry.Named
  tidy : n.outbox.Tidy
  lanes : ∀ i, ∀ p ∈ (n.outbox.lane i).load, ids p.id → p.header.receivers = sel ∧ (n.outbox.lane i).uri ∈ sel
  inbox : ∀ p ∈ n.inbox, ids p.id → p.header.receivers = sel ∧ uri ∈ sel

theorem of_map_none {y : Except Failure Unit} {d : Decision} (h : (y.map fun _ => Decision.none) = .ok d) :
    d = .none := by
  cases y with
  | error f => cases h
  | ok u => exact (Except.ok.inj h).symm

/-- The node's own receivers hand no message on. -/
theorem handle_decides {handler : Handler} {x : Message} {fresh : String} {now : Moment} {d : Decision}
    (heq : n.handle handler x fresh now = some (.ok d, n')) : d = .none := by
  cases handler with
  | answers => exact of_map_none (congrArg Prod.fst (Option.some.inj heq))
  | topology =>
    have hd : (n.handleTopology x).1 = .ok d := congrArg Prod.fst (Option.some.inj heq)
    unfold handleTopology at hd
    split at hd
    · cases hd
    · split at hd
      · cases hd
      · cases hd
      · split at hd
        · cases hd
        · exact of_map_none hd
  | responder respond =>
    have hd : (n.handleQuestion respond x fresh now).1 = .ok d := congrArg Prod.fst (Option.some.inj heq)
    unfold handleQuestion at hd
    split at hd
    · cases hd
    · exact of_map_none hd
  | application b => cases heq

/-- What a receiver may make of a message with one of the ids: it hands it on to nobody or to all, or fails. -/
def Modest (ids : String → Prop) (h : Header) (x : Except Failure Decision) : Prop :=
  ids h.id → ∀ d, x = .ok d → d = .none ∨ d = .all

namespace Contained

theorem parts (h : n.Contained ids sel uri) (l : Log) (r : Resolver) (q : Questions) :
    Contained ids sel uri { n with log := l, resolver := r, questions := q } :=
  ⟨h.self, h.named, h.tidy, h.lanes, h.inbox⟩

variable {α : Type} {x : α}

theorem onLog (h : n.Contained ids sel uri) {f : Log → α × Log} (heq : n.onLog f = (x, n')) : n'.Contained ids sel uri := by
  cases heq
  exact h.parts (f n.log).2 n.resolver n.questions

theorem onResolver (h : n.Contained ids sel uri) {f : Resolver → α × Resolver} (heq : n.onResolver f = (x, n')) :
    n'.Contained ids sel uri := by
  cases heq
  exact h.parts n.log (f n.resolver).2 n.questions

theorem onQuestions (h : n.Contained ids sel uri) {f : Questions → α × Questions} (heq : n.onQuestions f = (x, n')) :
    n'.Contained ids sel uri := by
  cases heq
  exact h.parts n.log n.resolver (f n.questions).2

/-! ## Queueing -/

theorem enqueue (h : n.Contained ids sel uri) {p : Parcel} {t : String}
    (hp : ids p.id → p.header.receivers = sel ∧ t ∈ sel) (now : Moment) : (n.enqueue p t now).2.Contained ids sel uri := by
  rcases he : n.enqueue p t now with ⟨f | ⟨⟩, n'⟩
  · rw [enqueue_error he]
    exact h.parts n'.log n.resolver n.questions
  · have hadds := Outbox.adds_enqueue h.tidy t p now.tick
    rw [enqueue_ok he]
    refine ⟨h.self, h.named, hadds.tidy, fun i q hq hid => ?_, h.inbox⟩
    rcases hadds.only i q hq with ⟨hold, huri⟩ | ⟨huri, rfl⟩
    · exact huri.symm ▸ h.lanes i q hold hid
    · exact huri.symm ▸ hp hid

theorem enqueueAll (h : n.Contained ids sel uri) {p : Parcel} {ts : List String}
    (hp : ids p.id → p.header.receivers = sel ∧ ∀ t ∈ ts, t ∈ sel) (now : Moment) (s : Summary) :
    (n.enqueueAll p now s ts).2.Contained ids sel uri := by
  induction ts generalizing n s with
  | nil => exact h
  | cons t ts ih =>
    have hone := h.enqueue (fun hid => ⟨(hp hid).1, (hp hid).2 t List.mem_cons_self⟩) now
    have hrest := fun hid => And.intro (hp hid).1 fun u hu => (hp hid).2 u (List.mem_cons_of_mem t hu)
    unfold Node.enqueueAll
    generalize n.enqueue p t now = y at hone
    obtain ⟨f | ⟨⟩, n'⟩ := y
    · exact ih hone hrest _
    · exact ih hone hrest _

theorem relayTo (h : n.Contained ids sel uri) {p : Parcel} {ts : List String}
    (hp : ids p.id → p.header.receivers = sel ∧ ∀ t ∈ ts, t ∈ sel) (now : Moment) :
    (n.relayTo p ts now).2.Contained ids sel uri := by
  unfold Node.relayTo
  split
  · rename_i heq
    exact h.onLog heq
  · rename_i heq
    exact (h.onLog heq).enqueueAll hp now _

theorem relayOther (h : n.Contained ids sel uri) {p : Parcel} (hp : ¬ ids p.id) {ts : List String} {now : Moment}
    {x : Except Failure Summary} (heq : n.relayTo p ts now = (x, n')) : n'.Contained ids sel uri := by
  have hrelayed : (n.relayTo p ts now).2.Contained ids sel uri := h.relayTo (fun hid => absurd hid hp) now
  rw [heq] at hrelayed
  exact hrelayed

/-- A message that names receivers is handed on to none but them. -/
theorem relay (h : n.Contained ids sel uri) {p : Parcel} (hp : p.header.Bound ids sel) (now : Moment) :
    (n.relay p now).2.Contained ids sel uri := by
  refine h.relayTo (fun hid => ⟨(hp hid).1, fun t ht => ?_⟩) now
  obtain ⟨hreceivers, hne⟩ := hp hid
  obtain ⟨q, hq, rfl⟩ := List.mem_map.mp ht
  have hnamed := (List.mem_filter.mp hq).2
  simp only [hreceivers, Bool.and_eq_true, Bool.or_eq_true, List.isEmpty_iff, hne, false_or, List.contains_iff_mem]
    at hnamed
  exact hnamed.2

/-! ## Handling -/

theorem apply (h : n.Contained ids sel uri) {p : Parcel} (hp : p.header.Bound ids sel) {d : Decision}
    (hd : ids p.id → d = .none ∨ d = .all) (now : Moment) : (n.apply p d now).Contained ids sel uri := by
  cases d with
  | none => exact h
  | all => exact h.relay hp now
  | targets uris => exact h.relayTo (fun hid => absurd (hd hid) (by simp)) now

theorem finish (h : n.Contained ids sel uri) {p : Parcel} (hp : p.header.Bound ids sel) {d : Decision}
    (hd : ids p.id → d = .none ∨ d = .all) (now : Moment) : (n.finish p d now).Contained ids sel uri :=
  (h.parts (n.log.mark p.id .handled now.date).2 n.resolver n.questions).apply hp hd now

theorem conclude (h : n.Contained ids sel uri) {p : Parcel} (hp : p.header.Bound ids sel) {x : Except Failure Decision}
    (hx : Modest ids p.header x) (now : Moment) : (n.conclude p x now).2.Contained ids sel uri := by
  cases x with
  | ok d => exact h.finish hp (fun hid => hx hid d rfl) now
  | error f =>
    unfold Node.conclude
    dsimp only
    split
    · rename_i heq
      exact h.onLog heq
    · rename_i heq
      exact h.onLog heq

theorem finishWork (h : n.Contained ids sel uri) {p : Parcel} (hp : p.header.Bound ids sel) {x : Except Failure Decision}
    (hx : Modest ids p.header x) (now : Moment) : (n.finishWork p x now).Contained ids sel uri := by
  cases x with
  | ok d => exact h.finish hp (fun hid => hx hid d rfl) now
  | error f => exact h

/-! ## Messages of the node's own -/

theorem send (h : n.Contained ids sel uri) {x : Message} (hx : ¬ ids x.header.id) (now : Moment) :
    (n.send x now).2.Contained ids sel uri := by
  unfold Node.send
  cases hp : x.toParcel with
  | error f => exact h
  | ok p =>
    have hother : ¬ ids p.id := id_toParcel hp ▸ hx
    exact h.relay (p := { p with hop := none }) (fun hid => absurd hid hother) now

theorem publish (h : n.Contained ids sel uri) {x : Message} (hx : ¬ ids x.header.id) (e : Entity) (least : Level)
    (now : Moment) : (n.publish x e least now).2.Contained ids sel uri := by
  unfold Node.publish
  cases hp : x.toParcel with
  | error f => exact h
  | ok p =>
    have hother : ¬ ids p.id := id_toParcel hp ▸ hx
    dsimp only
    split
    · rename_i heq
      exact h.onResolver heq
    · rename_i heq
      split
      · rename_i hlog
        exact (h.onResolver heq).onLog hlog
      · rename_i hlog
        exact (h.onResolver heq).onLog hlog
    · rename_i heq
      exact (h.onResolver heq).relayOther (p := publication p e _) hother rfl

theorem pushTopology (h : n.Contained ids sel uri) (e : Entity) {id : String} (hid : ¬ ids id) (now : Moment) :
    (n.pushTopology e id now).2.Contained ids sel uri := by
  unfold Node.pushTopology
  split
  · rename_i heq
    exact h.onResolver heq
  · rename_i heq
    exact h.onResolver heq
  · rename_i heq
    exact (h.onResolver heq).send hid now

theorem ask (h : n.Contained ids sel uri) {x : Message} (hx : ¬ ids x.header.id) (receivers : Option (List String))
    (now : Moment) : (n.ask x receivers now).2.Contained ids sel uri := by
  unfold Node.ask
  cases hp : x.toParcel with
  | error f => exact h
  | ok p =>
    have hother : ¬ ids p.id := id_toParcel hp ▸ hx
    dsimp -zeta only
    extract_lets targets _ p'
    clear_value targets
    split
    · rename_i heq
      exact h.onQuestions heq
    · rename_i heq
      split
      · exact h.onQuestions heq
      · split
        · rename_i hrelay
          exact (h.onQuestions heq).relayOther (p := p') hother hrelay
        · rename_i hrelay
          exact ((h.onQuestions heq).relayOther (p := p') hother hrelay).parts _ _ _

theorem answer (h : n.Contained ids sel uri) (question : Header) (body : Bytes) {id : String} (hid : ¬ ids id)
    (now : Moment) : (n.answer question body id now).2.Contained ids sel uri := by
  unfold Node.answer
  split
  · exact h
  · have hother : ¬ ids (Questions.reply question n.self.uri id now.date body).id := hid
    split
    · rename_i hrelay
      exact h.relayOther hother hrelay
    · rename_i hrelay
      exact h.relayOther hother hrelay

theorem produce (h : n.Contained ids sel uri) {o : Production} (ho : ¬ ids o.id) (now : Moment) :
    (n.produce o now).Contained ids sel uri := by
  cases o with
  | send x => exact h.send ho now
  | publish x e least => exact h.publish ho e least now
  | pushTopology e id => exact h.pushTopology e ho now
  | ask x receivers => exact h.ask ho receivers now
  | answer question body id => exact h.answer question body ho now

/-! ## Taking in and working -/

theorem handle (h : n.Contained ids sel uri) {handler : Handler} {x : Message} {fresh : String} (hf : ¬ ids fresh)
    {now : Moment} {d : Except Failure Decision} (heq : n.handle handler x fresh now = some (d, n')) :
    n'.Contained ids sel uri := by
  cases handler with
  | answers =>
    cases heq
    exact h.parts n.log n.resolver _
  | topology =>
    have hn : (n.handleTopology x).2 = n' := congrArg Prod.snd (Option.some.inj heq)
    rw [← hn]
    unfold handleTopology
    split
    · exact h
    · split
      · exact h
      · exact h
      · split
        · exact h
        · exact h.parts n.log _ n.questions
  | responder respond =>
    have hn : (n.handleQuestion respond x fresh now).2 = n' := congrArg Prod.snd (Option.some.inj heq)
    rw [← hn]
    unfold handleQuestion
    split
    · exact h
    · exact h.answer _ _ hf now
  | application b => cases heq

theorem deliver (h : n.Contained ids sel uri) {p : Parcel} (hp : p.header.Bound ids sel) (handler : Handler) (now : Moment) :
    (n.deliver p handler now).2.Contained ids sel uri := by
  unfold Node.deliver
  by_cases ha : p.header.addressedTo n.self.uri = true
  · rw [if_neg (by simp [ha])]
    have hqueue : (n.queueUp p).2.Contained ids sel uri := by
      unfold queueUp
      split
      · refine ⟨h.self, h.named, h.tidy, h.lanes, fun q hq hid => ?_⟩
        rcases List.mem_append.mp hq with hq | hq
        · exact h.inbox q hq hid
        · obtain rfl := List.mem_singleton.mp hq
          exact ⟨(hp hid).1, h.self ▸ hp.addressed ha hid⟩
      · split
        · rename_i heq
          exact h.onLog heq
        · rename_i heq
          exact h.onLog heq
    cases handler with
    | answers =>
      have hx : Modest ids p.header (n.handleAnswer p.toMessage).1 := by
        intro _ d hd
        exact .inl (of_map_none hd)
      exact (h.parts n.log n.resolver (n.questions.receive p.toMessage).2).conclude hp hx now
    | topology => exact hqueue
    | responder respond => exact hqueue
    | application b =>
      cases b with
      | true => exact h
      | false => exact hqueue
  · rw [if_pos (by simp [ha])]
    exact h.apply hp (fun _ => .inr rfl) now

theorem takeIn (h : n.Contained ids sel uri) {i : Inbound} (hi : i.header.Bound ids sel) (now : Moment) :
    (n.takeIn i now).2.Contained ids sel uri := by
  rcases takeIn_split n i now with ⟨r, resolver, l, heq⟩ | ⟨hop, handler, resolver, l, heq⟩
  · rw [heq]
    exact h.parts l resolver n.questions
  · rw [heq]
    exact (h.parts l resolver n.questions).deliver hi handler now

/-- A worker hands a parcel of the inbox to an application, or the node's own receiver has it. -/
theorem work (h : n.Contained ids sel uri) {fresh : String} (hf : ¬ ids fresh) (now : Moment) :
    (n.work fresh now).2.Contained ids sel uri ∧ ∀ p, (n.work fresh now).1 = .handling p → p.header.Bound ids sel := by
  unfold Node.work
  split
  · exact ⟨h, fun p hp => by cases hp⟩
  · rename_i p rest hi
    have hrest : Contained ids sel uri { n with inbox := rest } := by
      refine ⟨h.self, h.named, h.tidy, h.lanes, fun q hq => h.inbox q ?_⟩
      rw [hi]
      exact List.mem_cons_of_mem p hq
    have hbound : p.header.Bound ids sel := fun hid => by
      obtain ⟨hreceivers, huri⟩ := h.inbox p (hi ▸ List.mem_cons_self) hid
      exact ⟨hreceivers, List.ne_nil_of_mem huri⟩
    dsimp only
    split
    · exact ⟨hrest, fun q hq => by cases hq⟩
    · split
      · refine ⟨hrest, fun q hq => ?_⟩
        cases hq
        exact hbound
      · rename_i x next heq
        have hx : Modest ids p.header x := fun _ d hd => .inl (handle_decides (hd ▸ heq))
        exact ⟨(hrest.handle hf heq).finishWork hbound hx now, fun q hq => by cases hq⟩

/-! ## Attempts and removals -/

/-- What empties lanes brings no copies. -/
theorem sweep (h : n.Contained ids sel uri) {o : Outbox} (ho : n.outbox.Sweeps o) :
    Contained ids sel uri { n with outbox := o } := by
  refine ⟨h.self, h.named, ho.tidy h.tidy, fun i p hp hid => ?_, h.inbox⟩
  have huri : (o.lane i).uri = (n.outbox.lane i).uri := (ho.lane i).uri
  exact huri.symm ▸ h.lanes i p ((ho.lane i).mem_load hp) hid

theorem heedRemovals (h : n.Contained ids sel uri) : n.heedRemovals.Contained ids sel uri := by
  obtain ⟨hself, hnamed, htidy, hlanes, hinbox⟩ := h.sweep (Outbox.sweeps_closeEach h.tidy n.registry.removals)
  exact ⟨hself, hnamed, htidy, hlanes, hinbox⟩

theorem land (h : n.Contained ids sel uri) (lane : Nat) (x : Except Failure Unit) (now : Moment) (spread : Float) :
    (n.land lane x now spread).Contained ids sel uri := by
  rw [land_frame]
  refine ⟨h.self, h.named, h.tidy.land lane _ now.tick spread, fun i p hp hid => ?_, h.inbox⟩
  obtain ⟨hold, huri⟩ := Outbox.mem_load_of_lane_land hp
  exact huri.symm ▸ h.lanes i p hold hid

/-- What departs was in a lane. -/
theorem depart (h : n.Contained ids sel uri) (lane : Nat) (now : Moment) :
    (n.depart lane now).2.Contained ids sel uri ∧ ∀ x, (n.depart lane now).1 = some x → x.parcel.header.Bound ids sel := by
  have hload : ∀ i, ((n.outbox.modify lane Lane.depart).lane i).load = (n.outbox.lane i).load ∧
      ((n.outbox.modify lane Lane.depart).lane i).uri = (n.outbox.lane i).uri := by
    intro i
    rw [Outbox.lane_depart]
    split
    · exact ⟨Lane.load_depart _, Lane.uri_depart _⟩
    · exact ⟨rfl, rfl⟩
  have hgone : Contained ids sel uri { n with outbox := n.outbox.modify lane Lane.depart } := by
    refine ⟨h.self, h.named, h.tidy.modify lane Lane.uri_depart, fun i p hp hid => ?_, h.inbox⟩
    rw [(hload i).1] at hp
    exact (hload i).2.symm ▸ h.lanes i p hp hid
  rcases depart_outcomes n lane now with ⟨-, heq⟩ | ⟨f, target, t, hf, -, -, heq⟩ | ⟨f, -, -, heq⟩
  · rw [heq]
    exact ⟨hgone, fun x hx => by cases hx⟩
  · rw [heq]
    refine ⟨hgone, fun x hx hid => ?_⟩
    cases hx
    have hin : f.entry.parcel ∈ (n.outbox.lane lane).load := by
      rw [← Lane.load_depart, Lane.load_of_flight hf]
      exact List.mem_cons_self
    obtain ⟨hreceivers, huri⟩ := h.lanes lane _ hin hid
    exact ⟨hreceivers, List.ne_nil_of_mem huri⟩
  · rw [heq]
    refine ⟨⟨h.self, h.named, hgone.tidy.land lane .dropped now.tick 1.0, fun i p hp hid => ?_, h.inbox⟩,
      fun x hx => by cases hx⟩
    obtain ⟨hold, huri⟩ := Outbox.mem_load_of_lane_land hp
    exact huri.symm ▸ hgone.lanes i p hold hid

/-! ## Publishing -/

theorem none_yet (h : n.Contained ids [] uri) (sel : List String) : n.Contained ids sel uri := by
  refine ⟨h.self, h.named, h.tidy, fun i p hp hid => ?_, fun p hp hid => ?_⟩
  · exact absurd (h.lanes i p hp hid).2 List.not_mem_nil
  · exact absurd (h.inbox p hp hid).2 List.not_mem_nil

/-- The copies of a message that is published name those that are selected, and are for them. -/
theorem published (h : n.Contained ids [] uri) {x : Message} {p : Parcel} (hp : x.toParcel = .ok p) {e : Entity}
    {a : Resolved} {r : Resolver} (ha : n.resolver.resolve e = (.ok a, r)) (least : Level) (now : Moment) :
    (n.publish x e least now).2.Contained ids (n.selection a.rules least) uri := by
  have hnew := h.none_yet (n.selection a.rules least)
  by_cases hnone : n.selection a.rules least = []
  · obtain ⟨y, l, heq, -⟩ := publish_nobody hp ha hnone now
    rw [heq]
    exact hnew.parts l r n.questions
  · rw [publish_somebody hp ha hnone now]
    exact (hnew.parts n.log r n.questions).relayTo (fun _ => ⟨rfl, fun _ ht => ht⟩) now

end Contained

end Node

end ContentMesh
