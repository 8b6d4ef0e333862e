import ContentMesh.Node.Receive
import ContentMesh.Proofs.Topology.Coherence
import ContentMesh.Proofs.Topology.Localized
import ContentMesh.Proofs.Topology.Record

/-!
# ContentMesh.Proofs.Node.Pushing — what a node lets in after it took over rules

A node pushes the rules of an entity, and another one takes them over.  Whoever gets the changes of the entity by these
rules is to let them in.  It does where changes only go its way; where they go both ways nothing is set for the node
that pushed, and what that node's rules say of itself decides (`Node.pushed_rules_let_in`).
-/

namespace ContentMesh

/-- A message that brings the rules of an entity from the node that owns them. -/
structure Message.Pushes (m : Message) (owner : String) (e : Entity) (rules : Rules) : Prop where
  source : m.header.source = owner
  entity : m.header.metadata.first? Node.entityKey = some e.text
  payload : m.payload = .held (Utf8.encode rules.toJson.chars)

namespace Resolver

variable {r : Resolver} {e : Entity} {rules : Rules}

/-- Rules that were set are those that are found next. -/
theorem setRules_cases (r : Resolver) (e : Entity) (rules : Rules) :
    (∃ r', r.setRules e (some rules) = (.ok (), r') ∧ r'.answers.get? e = none ∧
        r'.store.rows.get? e.text = some rules) ∨
      ∃ f r', r.setRules e (some rules) = (.error f, r') := by
  unfold setRules write
  dsimp only
  rcases r.store.put_cases e.text rules with ⟨s, hput, hrows⟩ | ⟨f, s, hput, -⟩
  · rw [hput]
    refine Or.inl ⟨_, rfl, ?_, ?_⟩
    · obtain ⟨-, hgone, -⟩ := Answers.evicted_evict r.answers.length r.answers e (Nat.le_refl _)
      unfold invalidate
      dsimp only
      cases e.parent? with
      | none => exact hgone
      | some p =>
        rw [Answers.get?_dropChild]
        simp only [Option.map_eq_none_iff]
        exact hgone
    · show s.rows.get? e.text = some rules
      rw [hrows, Dict.get?_insert, if_pos rfl]
  · rw [hput]
    exact Or.inr ⟨f, _, rfl⟩

theorem setRules_reliable (h : r.store.Reliable) (e : Entity) (rules : Rules) :
    ∃ r', r.setRules e (some rules) = (.ok (), r') ∧ r'.store.Reliable := by
  obtain ⟨s, hput, hs, -⟩ := h.put e.text rules
  unfold setRules write
  dsimp only
  rw [hput]
  exact ⟨_, rfl, hs⟩

/-- An entity with rules of its own lets in what these accept. -/
theorem acceptsFrom_own (hkept : r.answers.get? e = none) (hown : r.store.rows.get? e.text = some rules)
    (hget : r.store.faults.get = 0) (uri : String) : (r.acceptsFrom e uri).1 = .ok (rules.ruleFor uri).accepts := by
  rcases r.store.get_cases e.text with ⟨hfaults, -⟩ | ⟨-, hread⟩
  · exact absurd hget hfaults
  · rw [hown] at hread
    unfold acceptsFrom ruleFor
    rw [resolve_own hkept hread]
    rfl

end Resolver

namespace Node

variable {a b b' : Node} {m : Message} {e : Entity} {rules : Rules} {r : Resolver} {owner : String}

/-! ## One push -/

/-- A push is a message with the rules, sent to every peer. -/
theorem pushTopology_sends (h : a.resolver.ownRules e = (.ok (some rules), r)) (id : String) (now : Moment) :
    ∃ m, Message.Pushes m a.self.uri e rules ∧ a.pushTopology e id now = send { a with resolver := r } m now := by
  refine ⟨⟨{ a.newHeader topologyKind id now with metadata := (∅ : Metadata).set entityKey e.text }, none,
    .held (Utf8.encode rules.toJson.chars)⟩, ⟨rfl, ?_, rfl⟩, ?_⟩
  · simp [Metadata.first?, Metadata.getAll, Metadata.entry?, Metadata.set, Dict.get?_insert]
  · have hrules : (a.onResolver fun r => r.ownRules e) = (.ok (some rules), { a with resolver := r }) := by
      simp only [onResolver, h]
    unfold pushTopology
    rw [hrules]
    rfl

theorem handleTopology_eq (he : e.WellNamed) (hm : m.Pushes owner e rules) :
    b.handleTopology m = (((b.resolver.setRules e (some (rules.localized b.self.uri owner))).1.map fun _ => Decision.none),
      { b with resolver := (b.resolver.setRules e (some (rules.localized b.self.uri owner))).2 }) := by
  have hread : Entity.read e.text = .ok e := by
    unfold Entity.read
    rw [Entity.ofText?_text he]
  unfold handleTopology onResolver
  rw [hm.entity, hm.payload]
  dsimp only [Payload.take]
  rw [hread, hm.source]
  dsimp only
  rw [rules.read_text]

theorem handleTopology_reliable (he : e.WellNamed) (hm : m.Pushes owner e rules) (h : b.resolver.store.Reliable) :
    ∃ b', b.handleTopology m = (.ok .none, b') ∧ b'.resolver.store.Reliable := by
  obtain ⟨r, hr, hreliable⟩ := Resolver.setRules_reliable h e (rules.localized b.self.uri owner)
  rw [handleTopology_eq he hm, hr]
  exact ⟨_, rfl, hreliable⟩

/-- A node that took over rules lets in what they accept as they stand there. -/
theorem acceptsFrom_handled (he : e.WellNamed) (hm : m.Pushes owner e rules) {d : Decision}
    (hb : b.handleTopology m = (.ok d, b')) (hget : b'.resolver.store.faults.get = 0) (uri : String) :
    (b'.resolver.acceptsFrom e uri).1 = .ok ((rules.localized b.self.uri owner).ruleFor uri).accepts := by
  rw [handleTopology_eq he hm] at hb
  rcases b.resolver.setRules_cases e (rules.localized b.self.uri owner) with ⟨r, hr, hkept, hrows⟩ | ⟨f, r, hr⟩
  · rw [hr] at hb
    cases hb
    exact Resolver.acceptsFrom_own hkept hrows hget uri
  · rw [hr] at hb
    cases hb

/-! ## Rules that let their owner's changes in -/

/-- A node pushes its rules for an entity, and by these sends the changes of the entity to another node, which takes
the rules over; it does if its table works.  Where the rules say that changes only go to that node, it lets them in,
but maybe where the rules have nothing for their owner and for everybody else what they have for that node.  Where
changes go both ways, it lets them in exactly if the rules have something for their owner. -/
theorem pushed_rules_let_in (he : e.WellNamed) (hown : a.resolver.ownRules e = (.ok (some rules), r)) (id : String)
    (now : Moment) :
    (∃ m, Message.Pushes m a.self.uri e rules ∧ a.pushTopology e id now = send { a with resolver := r } m now) ∧
      ∀ (b : Node) (m : Message), a.self.uri ≠ b.self.uri → m.Pushes a.self.uri e rules →
        (rules.ruleFor b.self.uri).sends .none = true →
          (b.resolver.store.Reliable → ∃ b', b.handleTopology m = (.ok .none, b') ∧ b'.resolver.store.Reliable) ∧
          ∀ (d : Decision) (b' : Node), b.handleTopology m = (.ok d, b') → b'.resolver.store.faults.get = 0 →
            ((rules.ruleFor b.self.uri).direction = .sendOnly →
              (∀ own, rules.instances.get? a.self.uri = some own → own.level = .none →
                rules.common.turned ≠ rules.back b.self.uri) →
              (b'.resolver.acceptsFrom e a.self.uri).1 = .ok true) ∧
            ((rules.ruleFor b.self.uri).direction = .both →
              (b'.resolver.acceptsFrom e a.self.uri).1 = .ok ((rules.ruleFor a.self.uri).level != .none)) := by
  refine ⟨pushTopology_sends hown id now, fun b m hne hm hsends => ⟨handleTopology_reliable he hm, ?_⟩⟩
  intro d b' hb hget
  have hanswer := acceptsFrom_handled he hm hb hget a.self.uri
  obtain ⟨hlevel, -⟩ := Rule.sends_none.mp hsends
  refine ⟨fun hdirection hsource => ?_, fun hdirection => ?_⟩
  · rw [hanswer, Rules.accepts_localized_sendOnly hne hlevel hdirection hsource]
  · rw [hanswer, Rules.accepts_localized_both hne hdirection]

/-! ### Two nodes and a wiki -/

/-- A node with rules for the wiki `main`. -/
def wikiOwner (rules : Rules) : Node :=
  { (default : Node) with
    self := ⟨"a-id", "a", "http://a"⟩
    resolver := .new (Store.inMemory.put "wiki:main" rules).2 ∅ }

/-- A node without rules. -/
def wikiReader : Node := { (default : Node) with self := ⟨"b-id", "b", "http://b"⟩, resolver := .new .inMemory ∅ }

/-- The message with rules for the wiki `main`. -/
def wikiRules (rules : Rules) : Message :=
  ⟨⟨"m1", .epoch, topologyKind, "http://a", [], (∅ : Metadata).set entityKey "wiki:main"⟩, none,
    .held (Utf8.encode rules.toJson.chars)⟩

theorem wellNamed_main : (Entity.wiki "main").WellNamed := Entity.exists_ofText?_iff.mp ⟨"wiki:main", by decide +kernel⟩

theorem ownRules_wikiOwner (rules : Rules) :
    (wikiOwner rules).resolver.ownRules (.wiki "main") = (.ok (some rules), (wikiOwner rules).resolver) := rfl

theorem pushes_wikiRules (rules : Rules) : (wikiRules rules).Pushes "http://a" (.wiki "main") rules := by
  have hentity : ((∅ : Metadata).set entityKey "wiki:main").first? entityKey = some "wiki:main" := by decide +kernel
  exact ⟨rfl, hentity, rfl⟩

theorem reliable_wikiReader : wikiReader.resolver.store.Reliable := Store.reliable_of_memory rfl rfl

theorem faults_wikiReader {rules : Rules} (h : wikiReader.handleTopology (wikiRules rules) = (.ok .none, b')) :
    b'.resolver.store.faults.get = 0 := by
  have hb : b' = (wikiReader.handleTopology (wikiRules rules)).2 := by rw [h]
  rw [hb, handleTopology_eq wellNamed_main (pushes_wikiRules rules)]
  rfl

/-- Nothing for anybody but one peer, which only gets. -/
theorem pushed_rules_let_in_reader : ∃ (rules : Rules) (b' : Node),
    (wikiOwner rules).resolver.ownRules (.wiki "main") = (.ok (some rules), (wikiOwner rules).resolver) ∧
      (rules.ruleFor wikiReader.self.uri).sends .none = true ∧
      wikiReader.handleTopology (wikiRules rules) = (.ok .none, b') ∧
      (b'.resolver.acceptsFrom (.wiki "main") "http://a").1 = .ok true := by
  let rules := (Rules.all ⟨.none, .both⟩).set (some "http://b") ⟨.full, .sendOnly⟩
  have hsends : (rules.ruleFor wikiReader.self.uri).sends .none = true := by decide +kernel
  obtain ⟨-, h⟩ := pushed_rules_let_in wellNamed_main (ownRules_wikiOwner rules) "m1" ⟨0, .epoch⟩
  obtain ⟨happlied, haccepts⟩ := h wikiReader (wikiRules rules) (by decide) (pushes_wikiRules rules) hsends
  obtain ⟨b', hb, -⟩ := happlied reliable_wikiReader
  obtain ⟨honly, -⟩ := haccepts _ b' hb (faults_wikiReader hb)
  exact ⟨rules, b', ownRules_wikiOwner rules, hsends, hb, honly (by decide +kernel) fun own hown => by cases hown⟩

/-- A peer that gets everything and may send, and nothing is said of anybody else: it does not let the changes in. -/
theorem pushed_rules_shut_out : ∃ (rules : Rules) (b' : Node),
    (wikiOwner rules).resolver.ownRules (.wiki "main") = (.ok (some rules), (wikiOwner rules).resolver) ∧
      (wikiOwner rules).self.uri ≠ wikiReader.self.uri ∧ (wikiRules rules).Pushes "http://a" (.wiki "main") rules ∧
      (rules.ruleFor wikiReader.self.uri).sends .none = true ∧
      wikiReader.handleTopology (wikiRules rules) = (.ok .none, b') ∧
      (b'.resolver.acceptsFrom (.wiki "main") "http://a").1 = .ok false := by
  let rules := (∅ : Rules).set (some "http://b") ⟨.full, .both⟩
  obtain ⟨b', hb, -⟩ := handleTopology_reliable wellNamed_main (pushes_wikiRules rules) reliable_wikiReader
  have haccepts := acceptsFrom_handled wellNamed_main (pushes_wikiRules rules) hb (faults_wikiReader hb) "http://a"
  refine ⟨rules, b', ownRules_wikiOwner rules, by decide, pushes_wikiRules rules, by decide +kernel, hb, ?_⟩
  rw [haccepts]
  exact congrArg Except.ok (by decide +kernel)

end Node

end ContentMesh
