import ContentMesh.Node.Relay
import ContentMesh.Proofs.Message.Log
import ContentMesh.Proofs.Outbox.Lanes

/-!
# ContentMesh.Proofs.Node.Relaying — what handing on leaves behind

Over a log that never fails, `Node.relayTo` logs the parcel and puts a copy of it into the lane of each target that
is registered, and does nothing else (`relayTo_eq`).  Whatever a node sends of its own accord adds rows and copies
of the messages that it sends, and leaves the rest of the node as it is (`Node.Grown`).
-/

namespace ContentMesh

namespace Node

variable {n : Node}

/-! ## Handing on -/

/-- The targets among some that a parcel can be queued for. -/
def reached (n : Node) (targets : List String) : List String :=
  if n.outbox.closed then [] else targets.filter fun t => (n.registry.registered? t).isSome

theorem reached_nil (n : Node) : n.reached [] = [] := by
  unfold reached
  split <;> rfl

theorem reached_cons (n : Node) (t : String) (ts : List String) :
    n.reached (t :: ts) = n.reached [t] ++ n.reached ts := by
  unfold reached
  split
  · rfl
  · rw [← List.filter_append, List.singleton_append]

/-- A lane that was just found takes a parcel. -/
theorem push_findLane (n : Node) (p : Parcel) (t : String) (now : Moment) :
    (n.findLane t).2.push p t (n.findLane t).1 now = (.ok (), { n with outbox := n.outbox.enqueue t p now.tick }) := by
  have hpush : (n.findLane t).2.outbox.push? t (n.findLane t).1 p now.tick = some (n.outbox.enqueue t p now.tick) :=
    n.outbox.push?_opened t p now.tick
  unfold push
  rw [hpush]
  rfl

/-- What is checked in goes to the end of the lane of its target, if nothing comes between. -/
theorem enqueue_eq (n : Node) (p : Parcel) (t : String) (now : Moment) :
    n.enqueue p t now = match n.checkIn p t now with
      | (.error f, n) => (.error f, n)
      | (.ok (), n) => (.ok (), { n with outbox := n.outbox.enqueue t p now.tick }) := by
  unfold enqueue
  rcases n.checkIn p t now with ⟨f | ⟨⟩, n'⟩
  · rfl
  · exact n'.push_findLane p t now

/-- A parcel is queued if it is checked in. -/
theorem enqueue_result (n : Node) (p : Parcel) (t : String) (now : Moment) :
    (n.enqueue p t now).1 = (n.checkIn p t now).1 := by
  rw [enqueue_eq]
  rcases n.checkIn p t now with ⟨f | ⟨⟩, n'⟩ <;> rfl

/-- Only the log knows of what is checked in. -/
theorem checkIn_frame (n : Node) (p : Parcel) (t : String) (now : Moment) :
    (n.checkIn p t now).2 = { n with log := (n.checkIn p t now).2.log } := by
  unfold checkIn
  split
  · rfl
  · split
    · rfl
    · split
      all_goals
        rename_i heq
        obtain rfl := congrArg Prod.snd heq
        rfl

/-- What is checked in is for a registered peer. -/
theorem registered_of_checkIn (n : Node) (p : Parcel) (t : String) (now : Moment) (h : (n.checkIn p t now).1 = .ok ()) :
    ∃ q, n.registry.registered? t = some q := by
  unfold checkIn at h
  split at h
  · cases h
  · split at h
    · cases h
    · rename_i q hq
      exact ⟨q, hq⟩

/-- What is queued goes to a registered peer. -/
theorem registered_of_enqueue {p : Parcel} {t : String} {now : Moment} {n' : Node}
    (h : n.enqueue p t now = (.ok (), n')) : ∃ q, n.registry.registered? t = some q :=
  n.registered_of_checkIn p t now ((n.enqueue_result p t now).symm.trans (congrArg Prod.fst h))

/-- A parcel goes to the end of the lane that was found for it if that is still in use; else nothing happens. -/
theorem push_cases (n : Node) (p : Parcel) (t : String) (i : Nat) (now : Moment) :
    (n.outbox.laneOf? t = some i ∧
        n.push p t i now = (.ok (), { n with outbox := n.outbox.enqueue t p now.tick })) ∨
      n.outbox.laneOf? t ≠ some i ∧ n.push p t i now = (.error (.unknownInstance t), n) := by
  unfold push
  by_cases hi : n.outbox.laneOf? t = some i
  · rw [Outbox.push?_of_live hi]
    exact .inl ⟨hi, rfl⟩
  · rw [Outbox.push?, if_neg hi]
    exact .inr ⟨hi, rfl⟩

/-- A parcel is logged and queued if the target can be reached; else nothing happens. -/
theorem enqueue_cases (h : n.log.Reliable) (p : Parcel) (t : String) (now : Moment) :
    (n.reached [t] = [] ∧ ∃ f, n.enqueue p t now = (.error f, n)) ∨
      (n.reached [t] = [t] ∧ ∃ l, n.log.Extends (· = p.id) l ∧ l.Has p.id ∧
        n.enqueue p t now = (.ok (), { n with log := l, outbox := n.outbox.enqueue t p now.tick })) := by
  rw [enqueue_eq]
  unfold checkIn reached
  by_cases hc : n.outbox.closed
  · rw [if_pos hc, if_pos hc]
    exact Or.inl ⟨rfl, _, rfl⟩
  · rw [if_neg hc, if_neg hc]
    cases hr : n.registry.registered? t with
    | none => exact Or.inl ⟨by simp [hr], _, rfl⟩
    | some q =>
      obtain ⟨b, l, hsave, hext, hhas⟩ := h.saveIfAbsent p.header .stored now.date
      refine Or.inr ⟨by simp [hr], l, hext, hhas, ?_⟩
      simp only [onLog, hsave]

/-- Whatever the log does, a parcel that was queued is at the end of the lane of its target. -/
theorem enqueue_ok {p : Parcel} {t : String} {now : Moment} {n' : Node} (h : n.enqueue p t now = (.ok (), n')) :
    n' = { n with log := n'.log, outbox := n.outbox.enqueue t p now.tick } := by
  have hframe := n.checkIn_frame p t now
  rw [enqueue_eq] at h
  generalize n.checkIn p t now = y at h hframe
  obtain ⟨f | ⟨⟩, n₁⟩ := y
  · cases h
  · cases h
    rw [show n₁ = { n with log := n₁.log } from hframe]

/-- Whatever becomes of it, a parcel that was not queued left the lanes alone. -/
theorem enqueue_error {n n' : Node} {p : Parcel} {t : String} {now : Moment} {f : Failure}
    (h : n.enqueue p t now = (.error f, n')) : n' = { n with log := n'.log } := by
  have hframe := n.checkIn_frame p t now
  rw [enqueue_eq] at h
  generalize n.checkIn p t now = y at h hframe
  obtain ⟨g | ⟨⟩, n₁⟩ := y
  · cases h
    exact hframe
  · cases h

/-- One copy is queued for each target that can be reached. -/
theorem enqueueAll_eq (h : n.log.Reliable) (p : Parcel) (now : Moment) (s : Summary) (ts : List String) :
    ∃ s' l, n.log.Extends (· = p.id) l ∧ n.enqueueAll p now s ts
      = (s', { n with log := l, outbox := n.outbox.enqueueEach (n.reached ts) p now.tick }) := by
  induction ts generalizing n s with
  | nil =>
    refine ⟨s, n.log, .refl h, ?_⟩
    rw [reached_nil]
    rfl
  | cons t ts ih =>
    rw [reached_cons]
    rcases enqueue_cases h p t now with ⟨hr, f, he⟩ | ⟨hr, l, hext, -, he⟩
    · obtain ⟨s', l, hl, heq⟩ := ih h { s with failed := s.failed ++ [(t, f)] }
      refine ⟨s', l, hl, ?_⟩
      rw [hr, List.nil_append, enqueueAll, he]
      exact heq
    · obtain ⟨s', l', hl, heq⟩ :=
        @ih { n with log := l, outbox := n.outbox.enqueue t p now.tick } hext.reliable
          { s with queued := s.queued ++ [t] }
      refine ⟨s', l', hext.trans hl, ?_⟩
      have hsame : reached { n with log := l, outbox := n.outbox.enqueue t p now.tick } ts = n.reached ts := by
        unfold reached
        rw [Outbox.closed_enqueue]
      rw [hsame] at heq
      rw [hr, List.singleton_append, Outbox.enqueueEach_cons, enqueueAll, he]
      exact heq

/-- A parcel that is handed on is logged, and a copy is queued for each target that can be reached. -/
theorem relayTo_eq (h : n.log.Reliable) (p : Parcel) (ts : List String) (now : Moment) :
    ∃ s l, n.log.Extends (· = p.id) l ∧ l.Has p.id ∧ n.relayTo p ts now
      = (.ok s, { n with log := l, outbox := n.outbox.enqueueEach (n.reached ts) p now.tick }) := by
  obtain ⟨b, l, hsave, hext, hhas⟩ := h.saveIfAbsent p.header .stored now.date
  obtain ⟨s, l', hl, heq⟩ := @enqueueAll_eq { n with log := l } hext.reliable p now ⟨p.id, [], []⟩ ts
  refine ⟨s, l', hext.trans hl, hl.kept _ hhas, ?_⟩
  have hsame : reached { n with log := l } ts = n.reached ts := rfl
  rw [hsame] at heq
  simp only [relayTo, onLog, hsave]
  rw [heq]

/-! ## Sending -/

/-- `n'` is `n` after messages with `ids` were sent: rows and copies of them are there in addition, and rules and
questions may have changed. -/
structure Grown (n : Node) (ids : String → Prop) (n' : Node) : Prop where
  log : n.log.Extends ids n'.log
  frame : n' = { n with log := n'.log, outbox := n'.outbox, resolver := n'.resolver, questions := n'.questions }
  outbox : ∃ copies : List (String × Parcel × Nat), (∀ c ∈ copies, ids c.2.1.id) ∧
    n'.outbox = copies.foldl (fun o c => o.enqueue c.1 c.2.1 c.2.2) n.outbox

variable {n' n'' : Node} {ids : String → Prop}

theorem Grown.refl (h : n.log.Reliable) : n.Grown ids n := ⟨.refl h, rfl, [], fun _ hc => (by cases hc), rfl⟩

theorem Grown.trans (h : n.Grown ids n') (h' : n'.Grown ids n'') : n.Grown ids n'' := by
  obtain ⟨copies, hid, ho⟩ := h.outbox
  obtain ⟨copies', hid', ho'⟩ := h'.outbox
  refine ⟨h.log.trans h'.log, ?_, copies ++ copies', fun c hc => ?_, ?_⟩
  · rw [h'.frame, h.frame]
  · rcases List.mem_append.mp hc with hc | hc
    · exact hid c hc
    · exact hid' c hc
  · rw [List.foldl_append, ← ho, ho']

theorem Grown.mono {ids' : String → Prop} (h : n.Grown ids n') (hi : ∀ id, ids id → ids' id) : n.Grown ids' n' := by
  obtain ⟨copies, hid, ho⟩ := h.outbox
  exact ⟨h.log.mono hi, h.frame, copies, fun c hc => hi _ (hid c hc), ho⟩

theorem Grown.reliable (h : n.Grown ids n') : n'.log.Reliable := h.log.reliable

/-- A change of rules or questions adds no row and no copy. -/
theorem Grown.of_parts (h : n.log.Reliable) (r : Resolver) (q : Questions) :
    n.Grown ids { n with resolver := r, questions := q } :=
  ⟨.refl h, rfl, [], fun _ hc => (by cases hc), rfl⟩

theorem grown_copies {l : Log} {p : Parcel} (hl : n.log.Extends (· = p.id) l) (uris : List String) (now : Nat) :
    n.Grown (· = p.id) { n with log := l, outbox := n.outbox.enqueueEach uris p now } := by
  refine ⟨hl, rfl, uris.map fun uri => (uri, p, now), fun c hc => ?_, ?_⟩
  · obtain ⟨uri, -, rfl⟩ := List.mem_map.mp hc
    rfl
  · rw [List.foldl_map]
    rfl

theorem grown_relayTo (h : n.log.Reliable) (p : Parcel) (ts : List String) (now : Moment) :
    n.Grown (· = p.id) (n.relayTo p ts now).2 := by
  obtain ⟨s, l, hl, -, heq⟩ := relayTo_eq h p ts now
  rw [heq]
  exact grown_copies hl _ _

/-- A message and its parcel have one header. -/
theorem header_toParcel {m : Message} {p : Parcel} (h : m.toParcel = .ok p) : p.header = m.header := by
  unfold Message.toParcel at h
  cases hb : m.payload.take.1 with
  | error f => rw [hb] at h; cases h
  | ok body => rw [hb] at h; cases h; rfl

theorem id_toParcel {m : Message} {p : Parcel} (h : m.toParcel = .ok p) : p.id = m.header.id :=
  congrArg Header.id (header_toParcel h)

theorem grown_send (h : n.log.Reliable) {m : Message} {id : String} (hid : m.header.id = id) (now : Moment) :
    n.Grown (· = id) (n.send m now).2 := by
  unfold send
  cases hp : m.toParcel with
  | error f => exact .refl h
  | ok p => exact hid ▸ (id_toParcel hp) ▸ grown_relayTo h { p with hop := none } _ now

/-- A message that is sent is logged, and a copy is queued for each link that it is for. -/
theorem send_eq (h : n.log.Reliable) {m : Message} {s : Summary} {n' : Node} {now : Moment}
    (heq : n.send m now = (.ok s, n')) : ∃ p l, p.header = m.header ∧ p.hop = none ∧ n.log.Extends (· = p.id) l ∧
      l.Has p.id ∧ n' = { n with log := l, outbox := n.outbox.enqueueEach (n.reached (n.targetsFor p)) p now.tick } := by
  unfold send at heq
  cases hp : m.toParcel with
  | error f =>
    rw [hp] at heq
    cases heq
  | ok p =>
    obtain ⟨s', l, hext, hhas, hrelay⟩ := relayTo_eq h { p with hop := none } (n.targetsFor { p with hop := none }) now
    have hheader : p.header = m.header := header_toParcel hp
    rw [hp] at heq
    refine ⟨{ p with hop := none }, l, hheader, rfl, hext, hhas, ?_⟩
    exact (congrArg Prod.snd (hrelay.symm.trans heq)).symm

theorem grown_publish (h : n.log.Reliable) (m : Message) (e : Entity) (least : Level) (now : Moment) :
    n.Grown (· = m.header.id) (n.publish m e least now).2 := by
  unfold publish
  cases hp : m.toParcel with
  | error f => exact .refl h
  | ok p =>
    have hid : p.header.id = m.header.id := id_toParcel hp
    have hr : ∀ r, n.Grown (· = m.header.id) { n with resolver := r } := fun r => .of_parts h r n.questions
    simp only [onResolver]
    rcases n.resolver.targets e n.others least with ⟨x, r⟩
    cases x with
    | error f => exact hr r
    | ok targets =>
      cases targets with
      | nil =>
        obtain ⟨b, l, hsave, hext, -⟩ := h.saveIfAbsent
          { p.header with metadata := p.header.metadata.set entityKey e.text } .stored now.date
        simp only [onLog, hsave]
        exact ⟨hid ▸ hext, rfl, [], fun _ hc => (by cases hc), rfl⟩
      | cons t ts =>
        refine (hr r).trans ?_
        exact hid ▸ @grown_relayTo { n with resolver := r } h
          (Parcel.relayed ⟨{ p.header with metadata := p.header.metadata.set entityKey e.text }, none, p.body⟩
            (t :: ts)) (t :: ts) now

theorem grown_pushTopology (h : n.log.Reliable) (e : Entity) (id : String) (now : Moment) :
    n.Grown (· = id) (n.pushTopology e id now).2 := by
  unfold pushTopology
  simp only [onResolver]
  rcases n.resolver.ownRules e with ⟨x, r⟩
  have hr : n.Grown (· = id) { n with resolver := r } := .of_parts h r n.questions
  cases x with
  | error f => exact hr
  | ok o =>
    cases o with
    | none => exact hr
    | some rules =>
      refine hr.trans ?_
      dsimp only
      exact @grown_send { n with resolver := r } h _ id rfl now

theorem grown_ask (h : n.log.Reliable) (m : Message) (receivers : Option (List String)) (now : Moment) :
    n.Grown (· = m.header.id) (n.ask m receivers now).2 := by
  unfold ask
  cases hp : m.toParcel with
  | error f => exact .refl h
  | ok p =>
    have hid : p.header.id = m.header.id := id_toParcel hp
    dsimp -zeta only
    extract_lets targets _ p'
    clear_value targets
    simp only [onQuestions]
    rcases n.questions.expect p'.id targets with ⟨x, q⟩
    have hq : n.Grown (· = m.header.id) { n with questions := q } := .of_parts h n.resolver q
    cases x with
    | error f => exact hq
    | ok ticket =>
      dsimp only
      split
      · exact hq
      · obtain ⟨s, l, hl, -, heq⟩ := @relayTo_eq { n with questions := q } h p' targets now
        rw [heq]
        exact hq.trans (hid ▸ @grown_copies { n with questions := q } l _ hl _ _)

theorem grown_answer (h : n.log.Reliable) (question : Header) (body : Bytes) (id : String) (now : Moment) :
    n.Grown (· = id) (n.answer question body id now).2 := by
  unfold answer
  cases n.registry.registered? question.source with
  | none => exact .refl h
  | some p =>
    obtain ⟨s, l, hl, -, heq⟩ := relayTo_eq h (Questions.reply question n.self.uri id now.date body) [p.uri] now
    dsimp only
    rw [heq]
    exact grown_copies hl _ _

end Node

end ContentMesh
