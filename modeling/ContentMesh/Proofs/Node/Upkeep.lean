import ContentMesh.Proofs.Node.Containment
import ContentMesh.Proofs.Node.Lifecycle
import ContentMesh.Proofs.Node.Removal

/-!
# ContentMesh.Proofs.Node.Upkeep — what is in order at a node at any time of its life

Each peer stands under its uri, the lane in use for a peer is the lane of that peer, and the numbers that are shown for
a lane account for what came into it.  This holds of a node from its start on whatever happens to it (`Node.Life.named`,
`Node.Life.tidy`, `Node.Life.stats`), and nothing is asked of its tables: a row that stands elsewhere in a table is put
under its uri when it is read.
-/

namespace ContentMesh

/-! ## Rows under their uris -/

namespace Registry

variable {r r' : Registry} {uri : String} {x : Option Peer}

theorem Sets.named (hs : r.Sets uri x r') (h : r.Named) (hx : ∀ p, x = some p → p.uri = uri) : r'.Named := by
  intro v p hp
  rw [hs.row] at hp
  split at hp
  · rename_i hv
    rw [hx p hp, hv]
  · exact h v p hp

/-- Where every row stays, each stays under its uri. -/
theorem Sets.named_same (hs : r.Sets uri (r.row? uri) r') (h : r.Named) : r'.Named := hs.named h fun p hp => h uri p hp

theorem Named.write (h : r.Named) (p : Peer) : (r.write p).2.Named := by
  rcases r.write_cases p with ⟨r', hw, hs⟩ | ⟨f, r', hw, hs⟩
  · rw [hw]
    exact hs.named h fun q hq => Option.some.inj hq ▸ rfl
  · rw [hw]
    exact hs.named_same h

theorem Named.writeThen (h : r.Named) (p : Peer) (b : Bool) : (r.writeThen p b).2.Named := by
  rcases r.writeThen_cases p b with ⟨r', hw, hs⟩ | ⟨f, r', hw, hs⟩
  · rw [hw]
    exact hs.named h fun q hq => Option.some.inj hq ▸ rfl
  · rw [hw]
    exact hs.named_same h

theorem Named.add (h : r.Named) (p : Peer) : (r.add p).2.Named := by
  unfold Registry.add
  split
  · exact h
  · exact h.writeThen p true

theorem Named.confirm (h : r.Named) (p : Peer) : (r.confirm p).2.Named := by
  unfold Registry.confirm
  split
  · exact h
  · split
    · exact h.writeThen _ true
    · exact h

theorem Named.reload (h : r.Named) : r.reload.2.Named := by
  unfold Registry.reload
  rcases r.store.values_cases with ⟨f, s, hv, -⟩ | hv
  · rw [hv]
    exact h
  · rw [hv]
    exact fun v p hp => PeerIndex.uri_ofRows _ hp

theorem Named.begin (h : r.Named) (e : Errand) : (r.begin e).2.Named := by
  rcases hb : r.begin e with ⟨y | ⟨call, w⟩, r'⟩
  · exact (begin_done hb).named_same h
  · obtain ⟨-, x, hout, hs⟩ := begin_waits hb
    have hclaimed : Named { r with claims := e.uri :: r.claims } := h
    refine hs.named hclaimed fun p hp => ?_
    cases hout with
    | request key hself hrow => cases hp
    | accept hrow hstatus =>
      cases hp
      exact h _ _ hrow
    | leave hrow hleaves => cases hp

theorem Named.finish (h : r.Named) (w : Waiting) (reply : PeerReply) : (r.finish w reply).2.Named := by
  cases w with
  | leaving uri => exact h
  | requesting uri key =>
    cases reply with
    | answer a =>
      show (r.finishRequest uri key a).2.Named
      unfold finishRequest
      split
      · exact h
      · dsimp only
        split
        · exact h.writeThen _ true
        · split
          · exact h.writeThen _ true
          · exact h
    | known b => exact h
    | failed f => exact h
  | accepting row =>
    cases reply with
    | answer a =>
      show (r.finishAccept row a).2.Named
      unfold finishAccept
      split
      · exact h
      · split
        · exact h.writeThen _ _
        · exact h
    | known b => exact h
    | failed f => exact h

theorem Named.handleRegister (h : r.Named) (q : Registration) : (r.handleRegister q).2.Named := by
  unfold Registry.handleRegister
  split
  · exact h
  · split
    · have hw := h.write ⟨q.id, q.name, q.uri, .requesting, q.key, ∅⟩
      split
      · rename_i heq
        exact congrArg Prod.snd heq ▸ hw
      · rename_i heq
        exact congrArg Prod.snd heq ▸ hw
    · rename_i row hrow
      split
      · exact h
      · split
        · have hc := h.confirm { row with receiveKey := agreedKey row.receiveKey q.key }
          dsimp only
          split
          · rename_i heq
            exact congrArg Prod.snd heq ▸ hc
          · rename_i heq
            exact congrArg Prod.snd heq ▸ hc
        · exact h

theorem Named.handleUnregister (h : r.Named) (text : String) : (r.handleUnregister text).2.Named := by
  unfold Registry.handleUnregister
  split
  · exact h
  · rename_i p hp
    rcases r.forget_cases p.uri none with ⟨q, r', hf, -, -, hs⟩ | ⟨y, r', hf, -, hs⟩
    · rw [hf]
      exact hs.named h fun x hx => by cases hx
    · rw [hf]
      cases y <;> exact hs.named_same h

theorem load_named {self : Identity} {s : Store Peer} (h : load self s = .ok r) : r.Named := by
  obtain rfl := load_ok h
  exact fun v p hp => PeerIndex.uri_ofRows _ hp

/-- Whatever happens at a registry, and whatever its table does, each peer stays under its uri. -/
theorem Office.step_named {o : Office} (h : o.registry.Named) (e : Event) : (o.step e).registry.Named := by
  cases e with
  | adds p => exact h.add p
  | confirms p => exact h.confirm p
  | begins e =>
    have hb := h.begin e
    unfold step
    dsimp only
    rcases hbegin : o.registry.begin e with ⟨y | ⟨call, w⟩, r⟩
    · rw [hbegin] at hb
      exact hb
    · rw [hbegin] at hb
      exact hb
  | returns w reply =>
    unfold step
    dsimp only
    split
    · exact h.finish w reply
    · exact h
  | registers q => exact h.handleRegister q
  | unregisters text => exact h.handleUnregister text
  | reloads => exact h.reload

end Registry

/-! ## Nodes -/

namespace Node

variable {n : Node} {uri : String}

/-- A node that is assembled has no lanes yet. -/
theorem contained_assemble {settings : Settings} {self : Identity} {signer : Option Signer} {stores : Stores}
    {dispatch : Dict Handler} (hn : assemble settings self signer stores dispatch = .ok n) :
    n.Contained (fun _ => False) [] n.self.uri := by
  obtain ⟨hload, hnew⟩ := assemble_ok hn
  exact ⟨rfl, Registry.load_named hload, hnew ▸ Outbox.tidy_new _, fun _ _ _ hid => hid.elim, fun _ _ hid => hid.elim⟩

/-- Messages of no id are always contained: what that says is that rows stand under their uris, and lanes are those of
their peers. -/
theorem Contained.perform (h : n.Contained (fun _ => False) [] uri) (errands : List Waiting) (a : Activity) :
    (n.perform errands a).1.Contained (fun _ => False) [] uri := by
  have hbound : ∀ x : Header, x.Bound (fun _ => False) [] := fun _ hid => hid.elim
  have hmodest : ∀ (x : Header) (d : Except Failure Decision), Modest (fun _ => False) x d := fun _ _ hid => hid.elim
  cases a with
  | takeIn i now => exact h.takeIn (hbound _) now
  | conclude p x now => exact h.conclude (hbound _) (hmodest _ _) now
  | work fresh now => exact (h.work id now).1
  | finishWork p x now => exact h.finishWork (hbound _) (hmodest _ _) now
  | produce o now => exact h.produce id now
  | enqueue p uri now => exact h.enqueue (fun hid => hid.elim) now
  | depart lane now => exact (h.depart lane now).1
  | land lane x now spread => exact h.land lane x now spread
  | purge uri => exact h.sweep (n.outbox.sweeps_purge uri)
  | setRules e rules => exact h.parts n.log (n.resolver.setRules e rules).2 n.questions
  | registry e =>
    have hnamed := Registry.Office.step_named (o := ⟨n.registry, errands⟩) h.named e
    have hoffice : Contained (fun _ => False) [] uri
        { n with registry := (Registry.Office.step ⟨n.registry, errands⟩ e).registry } :=
      ⟨h.self, hnamed, h.tidy, h.lanes, h.inbox⟩
    exact hoffice.heedRemovals

namespace Life

theorem contained_step {s : Life} (h : s.node.Contained (fun _ => False) [] uri) (e : Event) :
    (s.step e).node.Contained (fun _ => False) [] uri := by
  cases e with
  | starts => exact ⟨h.self, h.named, h.tidy, h.lanes, h.inbox⟩
  | stops =>
    unfold step
    dsimp only
    split
    · exact ⟨h.self, h.named, h.tidy, h.lanes, h.inbox⟩
    · exact h
  | shuts =>
    unfold step
    dsimp only
    split
    · exact ⟨h.self, h.named, h.tidy, h.lanes, h.inbox⟩
    · exact h
  | acts a => exact h.perform s.errands a

variable {settings : Settings} {self : Identity} {signer : Option Signer} {stores : Stores} {dispatch : Dict Handler}

theorem contained_after (hn : assemble settings self signer stores dispatch = .ok n) (es : List Event) :
    ((of n).after es).node.Contained (fun _ => False) [] n.self.uri := by
  induction es using List.reverseRecOn with
  | nil => exact contained_assemble hn
  | append_singleton es e ih =>
    rw [after_concat]
    exact contained_step ih e

/-- At any time of the life of a node each peer stands under its uri. -/
theorem named (hn : assemble settings self signer stores dispatch = .ok n) (es : List Event) :
    ((of n).after es).node.registry.Named :=
  (contained_after hn es).named

/-- At any time of the life of a node the lane in use for a peer is the lane of that peer. -/
theorem tidy (hn : assemble settings self signer stores dispatch = .ok n) (es : List Event) :
    ((of n).after es).node.outbox.Tidy :=
  (contained_after hn es).tidy

theorem recorded_step {s : Life} (h : s.node.outbox.Recorded) (e : Event) : (s.step e).node.outbox.Recorded := by
  cases e with
  | starts => exact h
  | stops =>
    unfold step
    dsimp only
    split
    · exact h
    · exact h
  | shuts =>
    unfold step
    dsimp only
    split
    · exact h
    · exact h
  | acts a =>
    obtain ⟨edits, hedited⟩ := (s.node.works_perform s.errands a).outbox
    show (s.node.perform s.errands a).1.outbox.Recorded
    rw [hedited]
    exact h.edited edits

theorem recorded (hn : assemble settings self signer stores dispatch = .ok n) (es : List Event) :
    ((of n).after es).node.outbox.Recorded := by
  induction es using List.reverseRecOn with
  | nil =>
    obtain ⟨-, hnew⟩ := assemble_ok hn
    show n.outbox.Recorded
    rw [hnew]
    exact Outbox.recorded_new _
  | append_singleton es e ih =>
    rw [after_concat]
    exact recorded_step ih e

/-- At any time of the life of a node the numbers that are shown for a peer account for what came into its lane: each
entry was delivered, dropped or purged, waits, or is in flight, but for the attempts that failed in passing after a
purge. -/
theorem stats (hn : assemble settings self signer stores dispatch = .ok n) (es : List Event) {depth : Nat} {t : Tally}
    (hs : ((of n).after es).node.outbox.stats? uri = some (depth, t)) :
    let o := ((of n).after es).node.outbox
    ∃ i lane ms, o.laneOf? uri = some i ∧ o.lane i = (Lane.new lane).after o.retry ms ∧
      t.enqueued = t.delivered + t.dropped + t.purged + depth + (o.lane i).flight.toList.length
        + Lane.times o.retry (Lane.strays o.retry) (.new lane) ms :=
  (recorded hn es).stats hs

end Life

end Node

end ContentMesh
