import ContentMesh.Proofs.Node.Relaying
import ContentMesh.Proofs.Peer.Registered

/-!
# ContentMesh.Proofs.Node.Publishing — whom a change is published to

A change goes to the registered peers that the rules of its entity select (`Node.Selects`), one copy each
(`Node.publish_selects`).
-/

namespace ContentMesh

theorem Registry.nodup_registered {r : Registry} (hnamed : r.Named) :
    (r.registered.map (·.uri)).Nodup := by
  have hkeys : r.rows.map (·.uri) = r.index.byUri.keys := by
    unfold rows Dict.values Dict.keys
    rw [List.map_map]
    refine List.map_congr_left fun e he => hnamed e.1 e.2 ?_
    exact Dict.lookup_of_mem r.index.byUri.ascending he
  have hnodup : (r.rows.map (·.uri)).Nodup := by
    rw [hkeys]
    refine List.Pairwise.imp ?_ (List.pairwise_map.mpr r.index.byUri.ascending)
    rintro a b hlt rfl
    exact String.lt_irrefl a hlt
  exact hnodup.sublist (List.filter_sublist.map _)

/-- Each lane gets as many copies as there are of its peer among those that are to get some. -/
theorem Outbox.load_enqueueEach_count {o : Outbox} (h : o.Tidy) (uris : List String) (p : Parcel) (now : Nat)
    (uri : String) : ((o.enqueueEach uris p now).laneFor uri).load
      = (o.laneFor uri).load ++ List.replicate (uris.count uri) p := by
  induction uris generalizing o with
  | nil => simp [enqueueEach]
  | cons u uris ih =>
    rw [enqueueEach_cons, ih (h.enqueue u p now), laneFor_enqueue h]
    by_cases hone : uri = u
    · rw [if_pos hone, Lane.load_enqueue, ← hone, List.count_cons_self, List.replicate_succ, List.append_assoc]
      rfl
    · rw [if_neg hone, List.count_cons_of_ne (Ne.symm hone)]

theorem Outbox.load_enqueueEach {o : Outbox} (h : o.Tidy) {uris : List String} (hu : uris.Nodup) (p : Parcel) (now : Nat)
    (uri : String) : ((o.enqueueEach uris p now).laneFor uri).load
      = (o.laneFor uri).load ++ if uri ∈ uris then [p] else [] := by
  rw [load_enqueueEach_count h, hu.count]
  split <;> rfl

namespace Node

variable {n : Node}

/-! ## Every target is reached -/

theorem reached_eq_self (hc : n.outbox.closed = false) {ts : List String}
    (ht : ∀ t ∈ ts, (n.registry.registered? t).isSome = true) : n.reached ts = ts := by
  unfold reached
  rw [if_neg (by simp [hc]), List.filter_eq_self]
  exact ht

theorem enqueueAll_queued (h : n.log.Reliable) (hc : n.outbox.closed = false) {ts : List String}
    (ht : ∀ t ∈ ts, (n.registry.registered? t).isSome = true) (p : Parcel) (now : Moment) (s : Summary) :
    (n.enqueueAll p now s ts).1 = { s with queued := s.queued ++ ts } := by
  induction ts generalizing n s with
  | nil => simp [enqueueAll]
  | cons t ts ih =>
    obtain ⟨hfirst, hrest⟩ := List.forall_mem_cons.mp ht
    rcases enqueue_cases h p t now with ⟨hr, -⟩ | ⟨-, l, hext, -, he⟩
    · rw [reached_eq_self hc (by simpa using hfirst)] at hr
      cases hr
    · rw [enqueueAll, he]
      dsimp only
      rw [@ih { n with log := l, outbox := n.outbox.enqueue t p now.tick } hext.reliable
        ((Outbox.closed_enqueue _ _ _ _).trans hc) hrest, List.append_assoc]
      rfl

theorem relayTo_queued (h : n.log.Reliable) (hc : n.outbox.closed = false) {ts : List String}
    (ht : ∀ t ∈ ts, (n.registry.registered? t).isSome = true) (p : Parcel) (now : Moment) :
    ∃ l, n.relayTo p ts now = (.ok ⟨p.id, ts, []⟩, { n with log := l, outbox := n.outbox.enqueueEach ts p now.tick }) := by
  obtain ⟨s, l, -, -, heq⟩ := relayTo_eq h p ts now
  obtain ⟨b, l', hsave, hext, -⟩ := h.saveIfAbsent p.header .stored now.date
  have hqueued := @enqueueAll_queued { n with log := l' } hext.reliable hc ts ht p now ⟨p.id, [], []⟩
  have hs : (n.relayTo p ts now).1 = .ok ⟨p.id, ts, []⟩ := by
    simp only [relayTo, onLog, hsave]
    rw [hqueued]
    rfl
  refine ⟨l, ?_⟩
  rw [heq] at hs ⊢
  rw [reached_eq_self hc ht]
  exact congrArg (·, _) hs

/-! ## Selection -/

/-- The rules select a peer for a level: it is registered, not the node itself, and its rule has at least the level,
is above none, and lets the node send. -/
structure Selects (n : Node) (rules : Rules) (least : Level) (uri : String) : Prop where
  registered : ∃ q, n.registry.row? uri = some q ∧ q.status = .registered
  other : uri ≠ n.self.uri
  level : least.rank ≤ (rules.ruleFor uri).level.rank
  above : (rules.ruleFor uri).level ≠ .none
  direction : (rules.ruleFor uri).direction.allowsSend = true

/-- The peers that rules select, by uri. -/
def selection (n : Node) (rules : Rules) (least : Level) : List String :=
  n.others.filter fun uri => (rules.ruleFor uri).sends least

variable {rules : Rules} {least : Level}

theorem mem_selection (hnamed : n.registry.Named) {uri : String} :
    uri ∈ n.selection rules least ↔ n.Selects rules least uri := by
  have hregistered : uri ∈ n.registry.registered.map (·.uri) ↔
      ∃ q, n.registry.row? uri = some q ∧ q.status = .registered := by
    rw [List.mem_map]
    constructor
    · rintro ⟨q, hq, rfl⟩
      obtain ⟨k, hk⟩ := Registry.mem_registered.mp hq
      obtain ⟨hrow, hs⟩ := Registry.registered?_iff_status.mp hk
      exact ⟨q, (hnamed k q hrow).symm ▸ hrow, hs⟩
    · rintro ⟨q, hrow, hs⟩
      exact ⟨q, Registry.mem_registered.mpr ⟨uri, Registry.registered?_iff_status.mpr ⟨hrow, hs⟩⟩, hnamed uri q hrow⟩
  unfold selection others Rule.sends Level.atLeast
  rw [List.mem_filter, List.mem_filter, hregistered]
  simp only [bne_iff_ne, ne_eq, Bool.and_eq_true, decide_eq_true_eq]
  constructor
  · rintro ⟨⟨hq, hother⟩, ⟨habove, hlevel⟩, hdirection⟩
    exact ⟨hq, hother, hlevel, habove, hdirection⟩
  · rintro ⟨hq, hother, hlevel, habove, hdirection⟩
    exact ⟨⟨hq, hother⟩, ⟨habove, hlevel⟩, hdirection⟩

theorem nodup_selection (hnamed : n.registry.Named) :
    (n.selection rules least).Nodup :=
  ((Registry.nodup_registered hnamed).filter _).filter _

/-! ## Publishing -/

/-- The copies of a parcel that is published. -/
def publication (p : Parcel) (e : Entity) (targets : List String) : Parcel :=
  Parcel.relayed { p with hop := none, header.metadata := p.header.metadata.set entityKey e.text } targets

variable {m : Message} {p : Parcel} {e : Entity} {a : Resolved} {r : Resolver}

/-- Where nobody is selected, the message is logged, and that is all. -/
theorem publish_nobody (hp : m.toParcel = .ok p) (ha : n.resolver.resolve e = (.ok a, r))
    (hnone : n.selection a.rules least = []) (now : Moment) :
    ∃ x l, n.publish m e least now = (x, { n with resolver := r, log := l }) ∧
      (n.log.Reliable → x = .ok ⟨p.id, [], []⟩) := by
  have htargets : n.resolver.targets e n.others least = (.ok [], r) := by
    unfold Resolver.targets
    rw [ha]
    exact congrArg (fun ts => (Except.ok ts, r)) hnone
  simp only [publish, hp, onResolver, htargets, onLog]
  cases hsave : (n.log.saveIfAbsent { p.header with metadata := p.header.metadata.set entityKey e.text } .stored
    now.date).1 with
  | error f =>
    refine ⟨_, _, rfl, fun h => ?_⟩
    obtain ⟨b, l, heq, -⟩ := h.saveIfAbsent { p.header with metadata := p.header.metadata.set entityKey e.text } .stored
      now.date
    rw [heq] at hsave
    cases hsave
  | ok b => exact ⟨_, _, rfl, fun _ => rfl⟩

theorem publish_somebody (hp : m.toParcel = .ok p) (ha : n.resolver.resolve e = (.ok a, r))
    (hsome : n.selection a.rules least ≠ []) (now : Moment) :
    n.publish m e least now = relayTo { n with resolver := r } (publication p e (n.selection a.rules least))
      (n.selection a.rules least) now := by
  have htargets : n.resolver.targets e n.others least = (.ok (n.selection a.rules least), r) := by
    unfold Resolver.targets
    rw [ha]
    rfl
  simp only [publish, hp, onResolver, htargets]
  cases hsel : n.selection a.rules least with
  | nil => exact absurd hsel hsome
  | cons t ts => rfl

/-- A node that works publishes a change to all that are selected, one copy each, and to nobody else. -/
theorem publish_selects (hn : n.outbox.Tidy) (hnamed : n.registry.Named)
    (hopen : n.outbox.closed = false) (hlog : n.log.Reliable) (hp : m.toParcel = .ok p)
    (ha : n.resolver.resolve e = (.ok a, r)) (least : Level) (now : Moment) :
    ∃ n', n.publish m e least now = (.ok ⟨p.id, n.selection a.rules least, []⟩, n') ∧
      (∀ uri, (n'.outbox.laneFor uri).load = (n.outbox.laneFor uri).load ++
        if uri ∈ n.selection a.rules least then [publication p e (n.selection a.rules least)] else []) := by
  by_cases hnone : n.selection a.rules least = []
  · obtain ⟨x, l, heq, hx⟩ := publish_nobody hp ha hnone now
    refine ⟨{ n with resolver := r, log := l }, ?_, fun uri => ?_⟩
    · rw [heq, hx hlog, hnone]
    · simp [hnone]
  · have hreached : ∀ t ∈ n.selection a.rules least, (n.registry.registered? t).isSome = true := by
      intro t ht
      obtain ⟨q, hrow, hs⟩ := ((mem_selection hnamed).mp ht).registered
      rw [Registry.registered?_iff_status.mpr ⟨hrow, hs⟩]
      rfl
    obtain ⟨l, heq⟩ := @relayTo_queued { n with resolver := r } hlog hopen _ hreached
      (publication p e (n.selection a.rules least)) now
    refine ⟨_, (publish_somebody hp ha hnone now).trans heq, fun uri => ?_⟩
    exact Outbox.load_enqueueEach hn (nodup_selection hnamed) _ _ uri

end Node

end ContentMesh
