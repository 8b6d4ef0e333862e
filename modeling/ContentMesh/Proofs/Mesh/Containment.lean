import Mathlib.Logic.Relation
import Mathlib.Logic.Function.Basic
import ContentMesh.Proofs.Http.RoundTrip
import ContentMesh.Proofs.Node.Containment
import ContentMesh.Proofs.Peer.Rows

/-!
# ContentMesh.Proofs.Mesh.Containment — a change that is published stays with those it is for

Any number of nodes, with whatever peers and rules, that send, receive and work in any order.  What is sent may come in
at any node, any number of times or never, in the same process or over HTTP; peers and rules may change, lanes may be
purged and nodes started anew at any time.

Copies of a published message name the peers that were selected, and no node widens that list or takes it for
a broadcast (`Containment.Contains`).  So none but they are sent a copy, and none but they handle the message
(`Containment.publish_contained`).
-/

namespace ContentMesh.Containment

open Node (Contained Modest)

/-! ## Runs -/

/-- Nodes, what was ever sent and by whom, the messages that applications have in hand, and on which message a receiver
was run at which node. -/
structure State (ι : Type) where
  node : ι → Node
  sent : List (Identity × Sending)
  hands : List (ι × Parcel)
  ran : List (ι × String)

/-- What may come in of something sent: in the same process it is as it was; over HTTP it is what a node reads in the
request, whatever headers that has on arrival. -/
inductive ComesIn (self : Identity) (x : Sending) (n : Node) (now : Moment) : Inbound → Prop where
  | direct : ComesIn self x n now ⟨x.parcel.header, self.id, x.parcel.body, x.signature⟩
  | read {r : Http.Request} {lines : Http.HeaderLines} {i : Inbound}
      (hr : Http.deliver self x.target.uri x.parcel x.signature = .ok r)
      (hi : Http.routeMessage n ⟨"POST", "/message", Percent.encodeQuery r.query, lines, r.body⟩ now = .message i) :
      ComesIn self x n now i

/-- A node that has just begun. -/
structure AtRest (n : Node) : Prop where
  outbox : ∃ retry, n.outbox = .new retry
  inbox : n.inbox = []
  named : n.registry.Named

variable {ι : Type} [DecidableEq ι]

namespace State

def start (node : ι → Node) : State ι := ⟨node, [], [], []⟩

/-- The mesh with one node changed. -/
def put (s : State ι) (v : ι) (n : Node) : State ι := { s with node := Function.update s.node v n }

/-- The parcel that a reception leaves to an application. -/
def handedTo (v : ι) : Admission → List (ι × Parcel)
  | .handling p => [(v, p)]
  | .settled _ => []

/-- A message comes in at a node. -/
def takes (s : State ι) (v : ι) (i : Inbound) (now : Moment) : State ι :=
  { s.put v ((s.node v).takeIn i now).2 with
    hands := handedTo v ((s.node v).takeIn i now).1 ++ s.hands
    ran := ((s.node v).runsAtOnce i now).map (v, ·) ++ s.ran }

/-- A worker of a node takes the next parcel. -/
def works (s : State ι) (v : ι) (fresh : String) (now : Moment) : State ι :=
  { s.put v ((s.node v).work fresh now).2 with
    hands := ((s.node v).work fresh now).1.job.map (v, ·) ++ s.hands
    ran := (s.node v).runsNext.map (v, ·) ++ s.ran }

/-- The sender of a lane begins an attempt. -/
def departs (s : State ι) (v : ι) (lane : Nat) (now : Moment) : State ι :=
  { s.put v ((s.node v).depart lane now).2 with
    sent := ((s.node v).depart lane now).1.toList.map ((s.node v).self, ·) ++ s.sent }

end State

/-- What happens in a mesh in which nobody begins messages with the ids, and whoever handles one hands it on to nobody or
to all.  An attempt may end in any way at any time.  `other` is whatever leaves lanes, inbox and peers alone. -/
inductive Step (ids : String → Prop) : State ι → State ι → Prop where
  | produce (s : State ι) (v : ι) {o : Node.Production} (now : Moment) (ho : ¬ ids o.id) :
      Step ids s (s.put v ((s.node v).produce o now))
  | enqueue (s : State ι) (v : ι) {p : Parcel} (target : String) (now : Moment) (hp : ¬ ids p.id) :
      Step ids s (s.put v ((s.node v).enqueue p target now).2)
  | depart (s : State ι) (v : ι) (lane : Nat) (now : Moment) : Step ids s (s.departs v lane now)
  | land (s : State ι) (v : ι) (lane : Nat) (x : Except Failure Unit) (now : Moment) (spread : Float) :
      Step ids s (s.put v ((s.node v).land lane x now spread))
  | arrive (s : State ι) (v : ι) {x : Identity × Sending} {i : Inbound} (now : Moment) (hx : x ∈ s.sent)
      (hi : ComesIn x.1 x.2 (s.node v) now i) : Step ids s (s.takes v i now)
  | visit (s : State ι) (v : ι) {i : Inbound} (now : Moment) (hi : ¬ ids i.header.id) : Step ids s (s.takes v i now)
  | conclude (s : State ι) {v : ι} {p : Parcel} {rest : List (ι × Parcel)} {x : Except Failure Decision} (now : Moment)
      (hp : s.hands.Perm ((v, p) :: rest)) (hx : Modest ids p.header x) :
      Step ids s { s.put v ((s.node v).conclude p x now).2 with hands := rest }
  | work (s : State ι) (v : ι) {fresh : String} (now : Moment) (hf : ¬ ids fresh) : Step ids s (s.works v fresh now)
  | finishWork (s : State ι) {v : ι} {p : Parcel} {rest : List (ι × Parcel)} {x : Except Failure Decision}
      (now : Moment) (hp : s.hands.Perm ((v, p) :: rest)) (hx : Modest ids p.header x) :
      Step ids s { s.put v ((s.node v).finishWork p x now) with hands := rest }
  | registry (s : State ι) (v : ι) {r : Registry} (hr : r.Named) :
      Step ids s (s.put v { s.node v with registry := r }.heedRemovals)
  | purge (s : State ι) (v : ι) (uri : String) :
      Step ids s (s.put v { s.node v with outbox := ((s.node v).outbox.purge uri).2 })
  | other (s : State ι) (v : ι) {n : Node} (hself : n.self = (s.node v).self) (hr : n.registry = (s.node v).registry)
      (hlanes : n.outbox.lanes = (s.node v).outbox.lanes) (hlive : n.outbox.live = (s.node v).outbox.live)
      (hi : n.inbox = (s.node v).inbox) : Step ids s (s.put v n)
  | restart (s : State ι) (v : ι) {n : Node} {hands : List (ι × Parcel)} (hself : n.self.uri = (s.node v).self.uri)
      (hn : AtRest n) (hh : hands ⊆ s.hands) : Step ids s { s.put v n with hands }

/-! ## The invariant -/

/-- Every copy of a message with one of the ids names the receivers `sel`, and a receiver is run on it at none but
those. -/
structure Contains (ids : String → Prop) (sel : List String) (uri : ι → String) (s : State ι) : Prop where
  nodes : ∀ v, (s.node v).Contained ids sel (uri v)
  sent : ∀ x ∈ s.sent, x.2.parcel.header.Bound ids sel
  hands : ∀ x ∈ s.hands, x.2.header.Bound ids sel
  ran : ∀ v k, (v, k) ∈ s.ran → ids k → uri v ∈ sel

variable {s t : State ι} {ids : String → Prop} {sel : List String} {uri : ι → String} {v : ι}

theorem contained_at_rest {n : Node} (hn : AtRest n) {k : String} (hk : n.self.uri = k) (ids : String → Prop)
    (sel : List String) : n.Contained ids sel k := by
  obtain ⟨⟨retry, ho⟩, hi, hnamed⟩ := hn
  refine ⟨hk, hnamed, ?_, fun i p hp => ?_, fun p hp => ?_⟩
  · rw [ho]
    exact Outbox.tidy_new retry
  · rw [ho, Outbox.lane_of_size_le (Nat.zero_le i)] at hp
    cases hp
  · rw [hi] at hp
    cases hp

omit [DecidableEq ι] in
theorem contains_start {node : ι → Node} (hnode : ∀ v, AtRest (node v)) (ids : String → Prop) (sel : List String) :
    Contains ids sel (fun v => (node v).self.uri) (.start node) :=
  ⟨fun v => contained_at_rest (hnode v) rfl ids sel, fun x hx => (by cases hx), fun x hx => (by cases hx),
    fun v k hv => (by cases hv)⟩

/-- What comes in of something sent names the same receivers. -/
theorem ComesIn.bound {self : Identity} {x : Sending} {n : Node} {now : Moment} {i : Inbound}
    (h : ComesIn self x n now i) (hplain : ∀ u ∈ sel, Http.Plain u) (hx : x.parcel.header.Bound ids sel) :
    i.header.Bound ids sel := by
  cases h with
  | direct => exact hx
  | read hr hi =>
    obtain ⟨hid, hreceivers⟩ := Http.header_routed hr hi
    intro hm
    obtain ⟨hsel, hne⟩ := hx (hid ▸ hm)
    refine ⟨?_, hne⟩
    rw [hreceivers, Http.receiversOf_sent (hsel ▸ hplain), hsel]

namespace Contains

omit [DecidableEq ι] in
/-- Where there is no copy yet, there is none for any receivers. -/
theorem none_yet (h : Contains ids [] uri s) (sel : List String) : Contains ids sel uri s where
  nodes v := (h.nodes v).none_yet sel
  sent x hx hid := absurd rfl (h.sent x hx hid).2
  hands x hx hid := absurd rfl (h.hands x hx hid).2
  ran v k hv hk := absurd (h.ran v k hv hk) List.not_mem_nil

/-- One node changes, and what is in hand may become less. -/
theorem put (h : Contains ids sel uri s) {n : Node} (hn : n.Contained ids sel (uri v)) {hands : List (ι × Parcel)}
    (hh : hands ⊆ s.hands) : Contains ids sel uri { s.put v n with hands } where
  nodes w := by
    show (Function.update s.node v n w).Contained ids sel (uri w)
    by_cases hw : w = v
    · subst hw
      rw [Function.update_self]
      exact hn
    · rw [Function.update_of_ne hw]
      exact h.nodes w
  sent := h.sent
  hands x hx := h.hands x (hh hx)
  ran := h.ran

theorem takes (h : Contains ids sel uri s) {i : Inbound} (hi : i.header.Bound ids sel) (v : ι) (now : Moment) :
    Contains ids sel uri (s.takes v i now) := by
  have hput := h.put ((h.nodes v).takeIn hi now) (List.Subset.refl s.hands)
  refine ⟨hput.nodes, h.sent, fun x hx => ?_, fun w k hw hk => ?_⟩
  · rcases List.mem_append.mp hx with hx | hx
    · cases ha : ((s.node v).takeIn i now).1 with
      | settled r =>
        rw [ha] at hx
        cases hx
      | handling p =>
        rw [ha] at hx
        obtain rfl := List.mem_singleton.mp hx
        exact (Node.addressed_of_handling (Prod.ext ha rfl)).1 ▸ hi
    · exact h.hands x hx
  · rcases List.mem_append.mp hw with hw | hw
    · obtain ⟨id, hid, heq⟩ := List.mem_map.mp hw
      cases heq
      obtain ⟨rfl, ha⟩ := Node.addressed_of_runsAtOnce hid
      exact (h.nodes v).self ▸ hi.addressed ha hk
    · exact h.ran w k hw hk

theorem works (h : Contains ids sel uri s) (v : ι) {fresh : String} (hf : ¬ ids fresh) (now : Moment) :
    Contains ids sel uri (s.works v fresh now) := by
  obtain ⟨hnode, hjob⟩ := (h.nodes v).work hf now
  have hput := h.put hnode (List.Subset.refl s.hands)
  refine ⟨hput.nodes, h.sent, fun x hx => ?_, fun w k hw hk => ?_⟩
  · rcases List.mem_append.mp hx with hx | hx
    · obtain ⟨p, hp, rfl⟩ := List.mem_map.mp hx
      cases hwork : ((s.node v).work fresh now).1 with
      | handling q =>
        rw [hwork] at hp
        obtain rfl := List.mem_singleton.mp hp
        exact hjob p hwork
      | nothing =>
        rw [hwork] at hp
        cases hp
      | done =>
        rw [hwork] at hp
        cases hp
    · exact h.hands x hx
  · rcases List.mem_append.mp hw with hw | hw
    · obtain ⟨id, hid, heq⟩ := List.mem_map.mp hw
      cases heq
      obtain ⟨p, hp, rfl⟩ := Node.mem_inbox_of_runsNext hid
      exact ((h.nodes v).inbox p hp hk).2
    · exact h.ran w k hw hk

theorem departs (h : Contains ids sel uri s) (v : ι) (lane : Nat) (now : Moment) :
    Contains ids sel uri (s.departs v lane now) := by
  obtain ⟨hnode, hsent⟩ := (h.nodes v).depart lane now
  have hput := h.put hnode (List.Subset.refl s.hands)
  refine ⟨hput.nodes, fun x hx => ?_, h.hands, h.ran⟩
  rcases List.mem_append.mp hx with hx | hx
  · obtain ⟨y, hy, rfl⟩ := List.mem_map.mp hx
    exact hsent y (Option.mem_toList.mp hy)
  · exact h.sent x hx

/-- Every step keeps the message with its receivers. -/
theorem step (h : Contains ids sel uri s) (hplain : ∀ u ∈ sel, Http.Plain u) (hstep : Step ids s t) :
    Contains ids sel uri t := by
  have hsame := List.Subset.refl s.hands
  cases hstep with
  | produce v now ho => exact h.put ((h.nodes v).produce ho now) hsame
  | enqueue v target now hp => exact h.put ((h.nodes v).enqueue (fun hid => absurd hid hp) now) hsame
  | depart v lane now => exact h.departs v lane now
  | land v lane x now spread => exact h.put ((h.nodes v).land lane x now spread) hsame
  | arrive v now hx hi => exact h.takes (hi.bound hplain (h.sent _ hx)) v now
  | visit v now hi => exact h.takes (fun hid => absurd hid hi) v now
  | @conclude v p rest x now hp hx =>
    refine h.put ((h.nodes v).conclude (h.hands (v, p) (hp.mem_iff.mpr List.mem_cons_self)) hx now) fun y hy => ?_
    exact hp.mem_iff.mpr (List.mem_cons_of_mem _ hy)
  | work v now hf => exact h.works v hf now
  | @finishWork v p rest x now hp hx =>
    refine h.put ((h.nodes v).finishWork (h.hands (v, p) (hp.mem_iff.mpr List.mem_cons_self)) hx now) fun y hy => ?_
    exact hp.mem_iff.mpr (List.mem_cons_of_mem _ hy)
  | @registry v r hr =>
    obtain ⟨hself, -, htidy, hlanes, hinbox⟩ := h.nodes v
    have hn : Contained ids sel (uri v) { s.node v with registry := r } := ⟨hself, hr, htidy, hlanes, hinbox⟩
    exact h.put hn.heedRemovals hsame
  | purge v u => exact h.put ((h.nodes v).sweep ((s.node v).outbox.sweeps_purge u)) hsame
  | @other v n hself hr hlanes hlive hi =>
    refine h.put ⟨?_, ?_, ?_, ?_, ?_⟩ hsame
    · rw [hself]
      exact (h.nodes v).self
    · rw [hr]
      exact (h.nodes v).named
    · intro k i hk
      unfold Outbox.laneOf? Outbox.lane at *
      rw [hlanes]
      rw [hlive] at hk
      exact (h.nodes v).tidy k i hk
    · intro i p hp
      unfold Outbox.lane at *
      rw [hlanes] at hp ⊢
      exact (h.nodes v).lanes i p hp
    · rw [hi]
      exact (h.nodes v).inbox
  | @restart v n hands hself hn hh =>
    exact h.put (contained_at_rest hn (hself.trans (h.nodes v).self) ids sel) hh

theorem run (h : Contains ids sel uri s) (hplain : ∀ u ∈ sel, Http.Plain u) (hrun : Relation.ReflTransGen (Step ids) s t) :
    Contains ids sel uri t := by
  induction hrun with
  | refl => exact h
  | tail _ hstep ih => exact ih.step hplain hstep

end Contains

/-! ## Publishing -/

/-- In every state that a mesh can come to, a node that was not shut down publishes a change to the peers that the rules
of its entity select, one copy each; where these are none it queues nothing, whatever becomes of the log.  If no other
message has the id, then however the mesh goes on, no copy stands in a lane for anybody else, and nobody else runs a
receiver on the message. -/
theorem publish_contained {node : ι → Node} (hnode : ∀ v, AtRest (node v)) {s : State ι}
    (hs : Relation.ReflTransGen (Step fun _ => False) (.start node) s) {u : ι}
    (hopen : (s.node u).outbox.closed = false) {x : Message} {p : Parcel} (hp : x.toParcel = .ok p) {e : Entity}
    {a : Resolved} {r : Resolver} (ha : (s.node u).resolver.resolve e = (.ok a, r)) (least : Level) (now : Moment) :
    ((s.node u).log.Reliable → ∃ y n copy, (s.node u).publish x e least now = (.ok y, n) ∧ y.failed = [] ∧
      (∀ k, k ∈ y.queued ↔ (s.node u).Selects a.rules least k) ∧
      copy.id = x.header.id ∧ copy.body = p.body ∧ copy.header.receivers = y.queued ∧
      (∀ k, (n.outbox.laneFor k).load = ((s.node u).outbox.laneFor k).load ++ if k ∈ y.queued then [copy] else [])) ∧
    ((∀ k, ¬ (s.node u).Selects a.rules least k) →
      ((s.node u).publish x e least now).2.outbox = (s.node u).outbox) ∧
    (Relation.ReflTransGen (Step (· = x.header.id)) (.start node) s →
      (∀ k, (s.node u).Selects a.rules least k → Http.Plain k) →
      ∀ t, Relation.ReflTransGen (Step (· = x.header.id)) (s.put u ((s.node u).publish x e least now).2) t →
        (∀ v i, ∀ q ∈ ((t.node v).outbox.lane i).load, q.id = x.header.id →
          (s.node u).Selects a.rules least ((t.node v).outbox.lane i).uri) ∧
        ∀ v, (v, x.header.id) ∈ t.ran → (s.node u).Selects a.rules least (t.node v).self.uri) := by
  have hnobody : ∀ k ∈ [], Http.Plain k := fun k hk => absurd hk List.not_mem_nil
  have hu := ((contains_start hnode (fun _ => False) []).run hnobody hs).nodes u
  have hselects : ∀ k, k ∈ (s.node u).selection a.rules least ↔ (s.node u).Selects a.rules least k :=
    fun k => Node.mem_selection hu.named
  refine ⟨fun hlog => ?_, fun hnone => ?_, fun hnew hplain t hrun => ?_⟩
  · obtain ⟨n, heq, hload⟩ := Node.publish_selects hu.tidy hu.named hopen hlog hp ha least now
    have hid : p.id = x.header.id := Node.id_toParcel hp
    exact ⟨_, n, Node.publication p e _, heq, rfl, hselects, hid, rfl, rfl, hload⟩
  · have hempty : (s.node u).selection a.rules least = [] :=
      List.eq_nil_iff_forall_not_mem.mpr fun k hk => hnone k ((hselects k).mp hk)
    obtain ⟨y, l, heq, -⟩ := Node.publish_nobody hp ha hempty now
    rw [heq]
  · have hbefore := (contains_start hnode (· = x.header.id) []).run hnobody hnew
    have hpublished := (hbefore.none_yet _).put ((hbefore.nodes u).published hp ha least now) (List.Subset.refl s.hands)
    have hafter := hpublished.run (fun k hk => hplain k ((hselects k).mp hk)) hrun
    refine ⟨fun v i q hq hid => (hselects _).mp ((hafter.nodes v).lanes i q hq hid).2, fun v hv => ?_⟩
    rw [(hafter.nodes v).self]
    exact (hselects _).mp (hafter.ran v _ hv rfl)

/-- Rules by which all is sent but to the peer at `w`. -/
def guarded : Rules := ⟨some ⟨.full, .both⟩, (∅ : Dict Rule).insert "w" ⟨.none, .both⟩⟩

/-- Two nodes that know each other; the first one also knows a peer at `w`. -/
def pair (second : Bool) : Node :=
  if second then
    { Node.knowing ⟨"b", "", "v"⟩ ⟨"a", "", "u", .registered, none, ∅⟩ "note" (.application true) with
      resolver := .new .inMemory guarded }
  else
    { Node.knowing ⟨"a", "", "u"⟩ ⟨"b", "", "v", .registered, none, ∅⟩ "note" (.application true) with
      registry := { Registry.inMemory ⟨"a", "", "u"⟩ with
        index := .ofRows [⟨"b", "", "v", .registered, none, ∅⟩, ⟨"c", "", "w", .registered, none, ∅⟩] }
      resolver := .new .inMemory guarded }

/-- A change of a wiki. -/
def change : Message := ⟨.new "m" "note" "u" .epoch, none, .held []⟩

/-- The pair after the change was published by the first node. -/
def told : State Bool :=
  (State.start pair).put false ((pair false).publish change (.wiki "x") .reference ⟨0, .epoch⟩).2

/-- The copy for the second node. -/
def copy : Sending :=
  ⟨⟨"b", "", "v", .registered, none, ∅⟩, Node.publication ⟨change.header, none, []⟩ (.wiki "x") ["v"], none⟩

/-- The change is published to one of two peers, and is handled there. -/
theorem publish_contained_pair : (∀ v, AtRest (pair v)) ∧ ∃ a r y n t,
    (pair false).resolver.resolve (.wiki "x") = (.ok a, r) ∧
      (pair false).publish change (.wiki "x") .reference ⟨0, .epoch⟩ = (.ok y, n) ∧ y.failed = [] ∧
      (∀ k, k ∈ y.queued ↔ (pair false).Selects a.rules .reference k) ∧
      (∀ k, (pair false).Selects a.rules .reference k → Http.Plain k) ∧
      Relation.ReflTransGen (Step (· = "m")) told t ∧ (true, "m") ∈ t.ran ∧
      (pair false).Selects a.rules .reference "v" := by
  have hrest : ∀ v, AtRest (pair v) := by
    intro v
    cases v with
    | false => exact ⟨⟨_, rfl⟩, rfl, fun _ _ => PeerIndex.uri_ofRows _⟩
    | true => exact ⟨⟨_, rfl⟩, rfl, fun _ _ => PeerIndex.uri_ofRows _⟩
  have hresolve : (pair false).resolver.resolve (.wiki "x")
      = (.ok ⟨guarded, true, none⟩, ((pair false).resolver.resolve (.wiki "x")).2) := rfl
  have hplain : ∀ k, (pair false).Selects guarded .reference k → Http.Plain k := by
    intro k hk
    have hsel : (pair false).selection guarded .reference = ["v"] := by decide +kernel
    rw [← Node.mem_selection (hrest false).named, hsel, List.mem_singleton] at hk
    exact hk ▸ (by decide)
  have hin : ((pair false).self, copy) ∈ (told.departs false 0 ⟨1, .epoch⟩).sent := by decide +kernel
  have hrun : Relation.ReflTransGen (Step (· = "m")) told
      ((told.departs false 0 ⟨1, .epoch⟩).takes true ⟨copy.parcel.header, "a", [], none⟩ ⟨2, .epoch⟩) :=
    (Relation.ReflTransGen.single (.depart told false 0 ⟨1, .epoch⟩)).tail (.arrive _ true ⟨2, .epoch⟩ hin .direct)
  have hran : (true, "m") ∈ ((told.departs false 0 ⟨1, .epoch⟩).takes true ⟨copy.parcel.header, "a", [], none⟩
      ⟨2, .epoch⟩).ran := by
    decide +kernel
  obtain ⟨hpublish, -, hcontained⟩ := publish_contained (x := change) hrest .refl (u := false) rfl rfl hresolve .reference
    ⟨0, .epoch⟩
  obtain ⟨y, n, -, hy, hfailed, hselects, -⟩ := hpublish Log.reliable_inMemory
  obtain ⟨-, hreceivers⟩ := hcontained .refl hplain _ hrun
  exact ⟨hrest, _, _, y, n, _, hresolve, hy, hfailed, hselects, hplain, hrun, hran, hreceivers true hran⟩

end ContentMesh.Containment
