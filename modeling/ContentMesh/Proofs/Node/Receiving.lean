import ContentMesh.Node.Receive
import ContentMesh.Proofs.Node.Relaying

/-!
# ContentMesh.Proofs.Node.Receiving — what taking a message in leaves behind

The halves of a reception over a log that never fails.  A message that is taken in has no row before and one
afterwards; where the call fails, every row is as it was (`takeIn_leaves`).  Without a row a message is taken in as
it would be by a node that has logged nothing (`takeIn_unlogged`).
-/

namespace ContentMesh

/-- Whether a message was taken over by the node. -/
def Reception.takes : Reception → Bool
  | .duplicate | .ignored => false
  | _ => true

/-- How the log after a reception stands to the log before: a message that is taken over, or is being handled, has
got its row by this reception, and a failure leaves all rows as they were. -/
def Admission.Leaves (l : Log) (h : Header) : Admission → Log → Prop
  | .settled (.ok r), l' => l.Extends (· = h.id) l' ∧ (r.takes = true → ¬ l.Has h.id ∧ l'.Has h.id)
  | .settled (.error _), l' => l'.Reliable ∧ ∀ id, l'.row? id = l.row? id
  | .handling p, l' => p.header = h ∧ l.Extends (· = h.id) l' ∧ ¬ l.Has h.id ∧ l'.Has h.id

/-- Whether the messages of a handler wait for a worker. -/
def Handler.waits : Handler → Bool
  | .answers | .application true => false
  | _ => true

/-- Whether a handler of the node itself sends a message. -/
def Handler.responds : Handler → Bool
  | .responder _ => true
  | _ => false

namespace Node

variable {n : Node}

/-! ## Ending -/

/-- The targets that a parcel is handed on to after it was handled. -/
def handedOn (n : Node) (p : Parcel) : Decision → List String
  | .none => []
  | .all => n.targetsFor p
  | .targets uris => uris

/-- A parcel is handed on as decided; it is logged then. -/
theorem apply_eq (h : n.log.Reliable) (p : Parcel) (d : Decision) (now : Moment) :
    ∃ l, n.log.Extends (· = p.id) l ∧ (d ≠ .none → l.Has p.id) ∧ n.apply p d now
      = { n with log := l, outbox := n.outbox.enqueueEach (n.reached (n.handedOn p d)) p now.tick } := by
  cases d with
  | none =>
    refine ⟨n.log, .refl h, fun hd => absurd rfl hd, ?_⟩
    rw [handedOn, reached_nil]
    rfl
  | all =>
    obtain ⟨s, l, hl, hhas, heq⟩ := relayTo_eq h p (n.targetsFor p) now
    refine ⟨l, hl, fun _ => hhas, ?_⟩
    rw [apply, relay, heq]
    rfl
  | targets uris =>
    obtain ⟨s, l, hl, hhas, heq⟩ := relayTo_eq h p uris now
    refine ⟨l, hl, fun _ => hhas, ?_⟩
    rw [apply, heq]
    rfl

/-- After a parcel was handled its row stays, and it is handed on as decided. -/
theorem finish_eq (h : n.log.Reliable) (p : Parcel) (d : Decision) (now : Moment) :
    ∃ l, n.log.Extends (· = p.id) l ∧ n.finish p d now
      = { n with log := l, outbox := n.outbox.enqueueEach (n.reached (n.handedOn p d)) p now.tick } := by
  obtain ⟨l, hm, hl, -⟩ := h.mark p.id .handled now.date
  obtain ⟨l', hl', -, heq⟩ := @apply_eq { n with log := l } hl.reliable p d now
  refine ⟨l', hl.trans hl', ?_⟩
  rw [finish, onLog, hm]
  refine heq.trans ?_
  cases d <;> rfl

theorem conclude_ok (h : n.log.Reliable) (p : Parcel) (d : Decision) (now : Moment) :
    ∃ l, n.log.Extends (· = p.id) l ∧ n.conclude p (.ok d) now = (.ok .handled,
      { n with log := l, outbox := n.outbox.enqueueEach (n.reached (n.handedOn p d)) p now.tick }) := by
  obtain ⟨l, hl, heq⟩ := finish_eq h p d now
  exact ⟨l, hl, by rw [conclude, heq]⟩

theorem conclude_error (h : n.log.Reliable) (p : Parcel) (f : Failure) (now : Moment) :
    ∃ l, l.Reliable ∧ (∀ j, l.row? j = if j = p.id then none else n.log.row? j) ∧
      n.conclude p (.error f) now = (.error f, { n with log := l }) := by
  obtain ⟨l, hd, hl, hrow⟩ := h.delete p.id
  refine ⟨l, hl, hrow, ?_⟩
  simp only [conclude, onLog, hd]

/-- A parcel waits for a worker, or its row is gone because there is no room. -/
theorem queueUp_cases (h : n.log.Reliable) (p : Parcel) :
    (n.inbox.length < max n.settings.capacity 1 ∧
      n.queueUp p = (.ok .queued, { n with inbox := n.inbox ++ [p] })) ∨
    (max n.settings.capacity 1 ≤ n.inbox.length ∧
      ∃ l, l.Reliable ∧ (∀ j, l.row? j = if j = p.id then none else n.log.row? j) ∧
        n.queueUp p = (.error .queueFull, { n with log := l })) := by
  unfold queueUp
  by_cases hroom : n.inbox.length < max n.settings.capacity 1
  · rw [if_pos hroom]
    exact Or.inl ⟨hroom, rfl⟩
  · rw [if_neg hroom]
    obtain ⟨l, hd, hl, hrow⟩ := h.delete p.id
    refine Or.inr ⟨Nat.le_of_not_lt hroom, l, hl, hrow, ?_⟩
    simp only [onLog, hd]

/-! ## Admission -/

/-- A registered peer named by the hop of a message, under whose key the signature holds. -/
def Trusted (n : Node) (i : Inbound) (hop : Peer) : Prop :=
  (n.registry.find? i.hop).filter Peer.isRegistered = some hop ∧
    n.signer.verify hop.receiveKey ⟨i.header, some hop.uri, i.body⟩ i.signature = .ok ()

/-- A message from nobody that is trusted changes nothing at all. -/
theorem takeIn_untrusted {i : Inbound} (h : ∀ hop, ¬ n.Trusted i hop) (now : Moment) :
    ∃ f, n.takeIn i now = (.settled (.error f), n) := by
  unfold takeIn
  by_cases hr : n.running
  · rw [if_neg (by simp [hr])]
    cases hf : (n.registry.find? i.hop).filter Peer.isRegistered with
    | none => exact ⟨_, rfl⟩
    | some hop =>
      dsimp only
      unfold takeInFrom
      cases hv : n.signer.verify hop.receiveKey ⟨i.header, some hop.uri, i.body⟩ i.signature with
      | error f => exact ⟨f, by dsimp only; rw [hv]⟩
      | ok u => exact absurd ⟨hf, hv⟩ (h hop)
  · rw [if_pos (by simp [hr])]
    exact ⟨_, rfl⟩

theorem letsIn_eq (n : Node) (h : Header) (hop : Peer) : ∃ x resolver, n.letsIn h hop = (x, { n with resolver }) := by
  unfold letsIn
  split
  · exact ⟨_, n.resolver, rfl⟩
  · split
    · exact ⟨_, n.resolver, rfl⟩
    · split
      · exact ⟨_, n.resolver, rfl⟩
      · exact ⟨_, _, rfl⟩

/-- What becomes of a message from a trusted peer that the rules let in. -/
theorem takeIn_trusted {i : Inbound} {hop : Peer} {handler : Handler} {resolver : Resolver}
    (hrun : n.running = true) (ht : n.Trusted i hop) (hd : n.dispatch.get? i.header.kind = some handler)
    (hlet : n.letsIn i.header hop = (.ok true, { n with resolver })) (now : Moment) :
    n.takeIn i now = match n.log.saveIfAbsent i.header .received now.date with
      | (.error f, log) => (.settled (.error f), { n with resolver, log })
      | (.ok false, log) => (.settled (.ok .duplicate), { n with resolver, log })
      | (.ok true, log) => { n with resolver, log }.deliver ⟨i.header, some hop.uri, i.body⟩ handler now := by
  unfold takeIn
  rw [if_neg (by simp [hrun]), ht.1]
  dsimp only
  unfold takeInFrom
  simp only [ht.2, hd, hlet, onLog]
  rcases n.log.saveIfAbsent i.header .received now.date with ⟨x, log⟩
  rcases x with f | b
  · rfl
  · cases b <;> rfl

/-- What is answered at once for a message that the log knows nothing of, or that is not let that far. -/
inductive TurnedAway (n : Node) (i : Inbound) : Except Failure Reception → Prop where
  | failed (f : Failure) : TurnedAway n i (.error f)
  | ignored : TurnedAway n i (.ok .ignored)
  | duplicate (h : n.log.Has i.header.id) : TurnedAway n i (.ok .duplicate)

/-- A message is turned away, and then no more than the kept answers change, or it is new and is delivered. -/
theorem takeIn_cases (h : n.log.Reliable) (i : Inbound) (now : Moment) :
    (∃ r resolver, TurnedAway n i r ∧ n.takeIn i now = (.settled r, { n with resolver })) ∨
      (∃ hop handler resolver l, n.Trusted i hop ∧ n.dispatch.get? i.header.kind = some handler ∧
        ¬ n.log.Has i.header.id ∧ n.log.Extends (· = i.header.id) l ∧ l.Has i.header.id ∧
        n.takeIn i now = { n with resolver, log := l }.deliver ⟨i.header, some hop.uri, i.body⟩ handler now) := by
  unfold takeIn
  by_cases hr : n.running
  · rw [if_neg (by simp [hr])]
    cases hf : (n.registry.find? i.hop).filter Peer.isRegistered with
    | none => exact Or.inl ⟨_, n.resolver, .failed _, rfl⟩
    | some hop =>
      dsimp only
      unfold takeInFrom
      dsimp only
      cases hv : n.signer.verify hop.receiveKey ⟨i.header, some hop.uri, i.body⟩ i.signature with
      | error f => exact Or.inl ⟨_, n.resolver, .failed f, rfl⟩
      | ok u =>
        dsimp only
        cases hd : n.dispatch.get? i.header.kind with
        | none => exact Or.inl ⟨_, n.resolver, .failed _, rfl⟩
        | some handler =>
          obtain ⟨x, resolver, hl⟩ := letsIn_eq n i.header hop
          dsimp only
          rw [hl]
          cases x with
          | error f => exact Or.inl ⟨_, resolver, .failed f, rfl⟩
          | ok b =>
            cases b with
            | false => exact Or.inl ⟨_, resolver, .ignored, rfl⟩
            | true =>
              by_cases hk : n.log.Has i.header.id
              · simp only [onLog, h.saveIfAbsent_known hk]
                exact Or.inl ⟨_, resolver, .duplicate hk, rfl⟩
              · obtain ⟨l, hsave, hext, hhas⟩ := h.saveIfAbsent_new hk .received now.date
                simp only [onLog, hsave]
                exact Or.inr ⟨hop, handler, resolver, l, ⟨hf, hv⟩, rfl, hk, hext, hhas, rfl⟩
  · rw [if_pos (by simp [hr])]
    exact Or.inl ⟨_, n.resolver, .failed _, rfl⟩

theorem row?_undone {l l' l'' : Log} {id : String} (hn : ¬ l.Has id) (hext : l.Extends (· = id) l')
    (hdel : ∀ j, l''.row? j = if j = id then none else l'.row? j) (j : String) : l''.row? j = l.row? j := by
  rw [hdel]
  by_cases hj : j = id
  · rw [if_pos hj, hj]
    exact (Option.not_isSome_iff_eq_none.mp hn).symm
  · rw [if_neg hj, hext.other j hj]

section LetIn

variable {i : Inbound} {hop : Peer} {handler : Handler}

/-- A message from a trusted peer that the rules let in is a duplicate, or is new, gets its row and is delivered. -/
theorem takeIn_letIn (h : n.log.Reliable) (hrun : n.running = true) (ht : n.Trusted i hop)
    (hd : n.dispatch.get? i.header.kind = some handler) (hlet : (n.letsIn i.header hop).1 = .ok true) (now : Moment) :
    ∃ resolver,
      (n.log.Has i.header.id ∧ n.takeIn i now = (.settled (.ok .duplicate), { n with resolver })) ∨
      (¬ n.log.Has i.header.id ∧ ∃ l, n.log.Extends (· = i.header.id) l ∧ l.Has i.header.id ∧
        n.takeIn i now = { n with resolver, log := l }.deliver ⟨i.header, some hop.uri, i.body⟩ handler now) := by
  obtain ⟨x, resolver, hl⟩ := letsIn_eq n i.header hop
  rw [hl] at hlet
  obtain rfl : x = .ok true := hlet
  have htake := takeIn_trusted hrun ht hd hl now
  refine ⟨resolver, ?_⟩
  by_cases hk : n.log.Has i.header.id
  · rw [h.saveIfAbsent_known hk] at htake
    exact Or.inl ⟨hk, htake⟩
  · obtain ⟨l, hsave, hext, hhas⟩ := h.saveIfAbsent_new hk .received now.date
    rw [hsave] at htake
    exact Or.inr ⟨hk, l, hext, hhas, htake⟩

theorem deliver_waits {p : Parcel} (haddr : p.header.addressedTo n.self.uri = true) (hw : handler.waits = true)
    (now : Moment) : n.deliver p handler now = (.settled (n.queueUp p).1, (n.queueUp p).2) := by
  unfold deliver
  rw [if_neg (by simp [haddr])]
  cases handler with
  | answers => cases hw
  | topology => rfl
  | responder respond => rfl
  | application imm =>
    cases imm with
    | true => cases hw
    | false => rfl

theorem deliver_immediate {p : Parcel} (haddr : p.header.addressedTo n.self.uri = true) (now : Moment) :
    n.deliver p (.application true) now = (.handling p, n) := by
  unfold deliver
  rw [if_neg (by simp [haddr])]

/-- A message for this node of which the handler can wait: it is a duplicate, or it is new and is queued, or there is
no room for it and all rows stay as they were. -/
theorem takeIn_waits (h : n.log.Reliable) (hrun : n.running = true) (ht : n.Trusted i hop)
    (hd : n.dispatch.get? i.header.kind = some handler) (hw : handler.waits = true)
    (haddr : i.header.addressedTo n.self.uri = true) (hlet : (n.letsIn i.header hop).1 = .ok true) (now : Moment) :
    ∃ resolver,
      (n.log.Has i.header.id ∧ n.takeIn i now = (.settled (.ok .duplicate), { n with resolver })) ∨
      (¬ n.log.Has i.header.id ∧ ∃ l, n.log.Extends (· = i.header.id) l ∧ l.Has i.header.id ∧
        n.takeIn i now = (.settled (.ok .queued),
          { n with resolver, log := l, inbox := n.inbox ++ [⟨i.header, some hop.uri, i.body⟩] })) ∨
      (¬ n.log.Has i.header.id ∧ ∃ l, l.Reliable ∧ (∀ id, l.row? id = n.log.row? id) ∧
        n.takeIn i now = (.settled (.error .queueFull), { n with resolver, log := l })) := by
  obtain ⟨resolver, hdup | ⟨hk, l, hext, hhas, heq⟩⟩ := takeIn_letIn h hrun ht hd hlet now
  · exact ⟨resolver, Or.inl hdup⟩
  · refine ⟨resolver, Or.inr ?_⟩
    have hq := heq.trans (deliver_waits (n := { n with resolver, log := l }) haddr hw now)
    rcases @queueUp_cases { n with resolver, log := l } hext.reliable ⟨i.header, some hop.uri, i.body⟩ with
      ⟨-, hqueue⟩ | ⟨-, l', hl', hrows, hqueue⟩
    · rw [hqueue] at hq
      exact Or.inl ⟨hk, l, hext, hhas, hq⟩
    · rw [hqueue] at hq
      exact Or.inr ⟨hk, l', hl', row?_undone hk hext hrows, hq⟩

/-- A message for this node that an application handles: it is a duplicate, or it is new and waits for a worker or is
handled at once, or there is no room for it and all rows stay as they were. -/
theorem takeIn_application {imm : Bool} (h : n.log.Reliable) (hrun : n.running = true) (ht : n.Trusted i hop)
    (hd : n.dispatch.get? i.header.kind = some (.application imm))
    (haddr : i.header.addressedTo n.self.uri = true) (hlet : (n.letsIn i.header hop).1 = .ok true) (now : Moment) :
    ∃ resolver,
      (n.log.Has i.header.id ∧ n.takeIn i now = (.settled (.ok .duplicate), { n with resolver })) ∨
      (¬ n.log.Has i.header.id ∧ ∃ l, n.log.Extends (· = i.header.id) l ∧ l.Has i.header.id ∧
        (n.takeIn i now = (.settled (.ok .queued),
            { n with resolver, log := l, inbox := n.inbox ++ [⟨i.header, some hop.uri, i.body⟩] }) ∨
          n.takeIn i now = (.handling ⟨i.header, some hop.uri, i.body⟩, { n with resolver, log := l }))) ∨
      (¬ n.log.Has i.header.id ∧ ∃ l, l.Reliable ∧ (∀ id, l.row? id = n.log.row? id) ∧
        n.takeIn i now = (.settled (.error .queueFull), { n with resolver, log := l })) := by
  cases imm with
  | false =>
    obtain ⟨resolver, hdup | ⟨hn, l, hext, hhas, heq⟩ | hfull⟩ := takeIn_waits h hrun ht hd rfl haddr hlet now
    · exact ⟨resolver, Or.inl hdup⟩
    · exact ⟨resolver, Or.inr (Or.inl ⟨hn, l, hext, hhas, Or.inl heq⟩)⟩
    · exact ⟨resolver, Or.inr (Or.inr hfull)⟩
  | true =>
    obtain ⟨resolver, hdup | ⟨hk, l, hext, hhas, heq⟩⟩ := takeIn_letIn h hrun ht hd hlet now
    · exact ⟨resolver, Or.inl hdup⟩
    · have himm := heq.trans (deliver_immediate (n := { n with resolver, log := l }) haddr now)
      exact ⟨resolver, Or.inr (Or.inl ⟨hk, l, hext, hhas, Or.inr himm⟩)⟩

end LetIn

/-! ## Rows -/

/-- Delivering keeps a row that was just written, or takes it back and fails. -/
theorem deliver_leaves {l : Log} {p : Parcel} (hn : ¬ l.Has p.id) (hext : l.Extends (· = p.id) n.log)
    (hhas : n.log.Has p.id) (handler : Handler) (now : Moment) :
    Admission.Leaves l p.header (n.deliver p handler now).1 (n.deliver p handler now).2.log := by
  have h : n.log.Reliable := hext.reliable
  have queue : Admission.Leaves l p.header (.settled (n.queueUp p).1) (n.queueUp p).2.log := by
    rcases queueUp_cases h p with ⟨-, heq⟩ | ⟨-, l', hl, hdel, heq⟩
    · rw [heq]
      exact ⟨hext, fun _ => ⟨hn, hhas⟩⟩
    · rw [heq]
      exact ⟨hl, row?_undone hn hext hdel⟩
  unfold deliver
  split
  · obtain ⟨l', hl, -, heq⟩ := apply_eq h p .all now
    rw [heq]
    exact ⟨hext.trans hl, fun _ => ⟨hn, hl.kept _ hhas⟩⟩
  · cases handler with
    | answers =>
      simp only [handleAnswer, onQuestions]
      rcases n.questions.receive p.toMessage with ⟨x, q⟩
      cases x with
      | ok u =>
        obtain ⟨l', hl, heq⟩ := @conclude_ok { n with questions := q } h p .none now
        simp only [Except.map, heq]
        exact ⟨hext.trans hl, fun _ => ⟨hn, hl.kept _ hhas⟩⟩
      | error f =>
        obtain ⟨l', hl, hdel, heq⟩ := @conclude_error { n with questions := q } h p f now
        simp only [Except.map, heq]
        exact ⟨hl, row?_undone hn hext hdel⟩
    | application imm =>
      cases imm with
      | true => exact ⟨rfl, hext, hn, hhas⟩
      | false => exact queue
    | topology => exact queue
    | responder respond => exact queue

/-- A message that is taken in has no row before and one afterwards; a failure leaves every row as it was. -/
theorem takeIn_leaves (h : n.log.Reliable) (i : Inbound) (now : Moment) :
    Admission.Leaves n.log i.header (n.takeIn i now).1 (n.takeIn i now).2.log := by
  rcases takeIn_cases h i now with ⟨r, resolver, hr, heq⟩ | ⟨hop, handler, resolver, l, -, -, hn, hext, hhas, heq⟩
  · rw [heq]
    cases hr with
    | failed f => exact ⟨h, fun _ => rfl⟩
    | ignored => exact ⟨.refl h, fun hr => (by cases hr)⟩
    | duplicate hk => exact ⟨.refl h, fun hr => (by cases hr)⟩
  · rw [heq]
    exact @deliver_leaves { n with resolver, log := l } n.log ⟨i.header, some hop.uri, i.body⟩ hn hext hhas handler now

/-! ## Messages without a row -/

/-- A node that has logged nothing. -/
def unlogged (n : Node) : Node := { n with log := .inMemory }

theorem apply_unlogged (h : n.log.Reliable) (p : Parcel) (d : Decision) (now : Moment) :
    (n.apply p d now).unlogged = (n.unlogged.apply p d now).unlogged := by
  obtain ⟨l, -, -, heq⟩ := apply_eq h p d now
  obtain ⟨l', -, -, heq'⟩ := @apply_eq n.unlogged Log.reliable_inMemory p d now
  rw [heq, heq']
  cases d <;> rfl

theorem conclude_unlogged (h : n.log.Reliable) (p : Parcel) (x : Except Failure Decision) (now : Moment) :
    (n.conclude p x now).1 = (n.unlogged.conclude p x now).1 ∧
      (n.conclude p x now).2.unlogged = (n.unlogged.conclude p x now).2.unlogged := by
  cases x with
  | ok d =>
    obtain ⟨l, -, heq⟩ := conclude_ok h p d now
    obtain ⟨l', -, heq'⟩ := @conclude_ok n.unlogged Log.reliable_inMemory p d now
    rw [heq, heq']
    cases d <;> exact ⟨rfl, rfl⟩
  | error f =>
    obtain ⟨l, -, -, heq⟩ := conclude_error h p f now
    obtain ⟨l', -, -, heq'⟩ := @conclude_error n.unlogged Log.reliable_inMemory p f now
    rw [heq, heq']
    exact ⟨rfl, rfl⟩

theorem queueUp_unlogged (h : n.log.Reliable) (p : Parcel) :
    (n.queueUp p).1 = (n.unlogged.queueUp p).1 ∧ (n.queueUp p).2.unlogged = (n.unlogged.queueUp p).2.unlogged := by
  rcases queueUp_cases h p with ⟨hroom, heq⟩ | ⟨hfull, l, -, -, heq⟩
  · rcases @queueUp_cases n.unlogged Log.reliable_inMemory p with ⟨-, heq'⟩ | ⟨hfull, -⟩
    · rw [heq, heq']
      exact ⟨rfl, rfl⟩
    · exact absurd hroom (Nat.not_lt_of_le hfull)
  · rcases @queueUp_cases n.unlogged Log.reliable_inMemory p with ⟨hroom, -⟩ | ⟨-, l', -, -, heq'⟩
    · exact absurd hroom (Nat.not_lt_of_le hfull)
    · rw [heq, heq']
      exact ⟨rfl, rfl⟩

theorem deliver_unlogged (h : n.log.Reliable) (p : Parcel) (handler : Handler) (now : Moment) :
    (n.deliver p handler now).1 = (n.unlogged.deliver p handler now).1 ∧
      (n.deliver p handler now).2.unlogged = (n.unlogged.deliver p handler now).2.unlogged := by
  have queue := queueUp_unlogged h p
  unfold deliver
  have haddr : p.header.addressedTo n.unlogged.self.uri = p.header.addressedTo n.self.uri := rfl
  rw [haddr]
  split
  · exact ⟨rfl, apply_unlogged h p .all now⟩
  · cases handler with
    | answers =>
      simp only [handleAnswer, onQuestions]
      have hq : n.unlogged.questions = n.questions := rfl
      rw [hq]
      rcases n.questions.receive p.toMessage with ⟨x, q⟩
      obtain ⟨h1, h2⟩ := @conclude_unlogged { n with questions := q } h p (x.map fun _ => .none) now
      exact ⟨congrArg Admission.settled h1, h2⟩
    | application imm =>
      cases imm with
      | true => exact ⟨rfl, rfl⟩
      | false => exact ⟨congrArg Admission.settled queue.1, queue.2⟩
    | topology => exact ⟨congrArg Admission.settled queue.1, queue.2⟩
    | responder respond => exact ⟨congrArg Admission.settled queue.1, queue.2⟩

theorem letsIn_unlogged (n : Node) (h : Header) (hop : Peer) :
    (n.unlogged.letsIn h hop).1 = (n.letsIn h hop).1 ∧
      (n.unlogged.letsIn h hop).2 = (n.letsIn h hop).2.unlogged := by
  unfold letsIn
  split
  · exact ⟨rfl, rfl⟩
  · split
    · exact ⟨rfl, rfl⟩
    · split <;> exact ⟨rfl, rfl⟩

/-- A message without a row is taken in as by a node that has logged nothing. -/
theorem takeIn_unlogged (h : n.log.Reliable) {i : Inbound} (hn : ¬ n.log.Has i.header.id) (now : Moment) :
    (n.takeIn i now).1 = (n.unlogged.takeIn i now).1 ∧
      (n.takeIn i now).2.unlogged = (n.unlogged.takeIn i now).2.unlogged := by
  unfold takeIn
  have hrun : n.unlogged.running = n.running := rfl
  have hreg : n.unlogged.registry = n.registry := rfl
  rw [hrun, hreg]
  by_cases hr : n.running
  · rw [if_neg (by simp [hr]), if_neg (by simp [hr])]
    cases (n.registry.find? i.hop).filter Peer.isRegistered with
    | none => exact ⟨rfl, rfl⟩
    | some hop =>
      dsimp only
      unfold takeInFrom
      have hsig : n.unlogged.signer = n.signer := rfl
      have hdis : n.unlogged.dispatch = n.dispatch := rfl
      dsimp only
      rw [hsig, hdis]
      cases n.signer.verify hop.receiveKey ⟨i.header, some hop.uri, i.body⟩ i.signature with
      | error f => exact ⟨rfl, rfl⟩
      | ok u =>
        cases n.dispatch.get? i.header.kind with
        | none => exact ⟨rfl, rfl⟩
        | some handler =>
          obtain ⟨x, resolver, hl⟩ := letsIn_eq n i.header hop
          have hl' : n.unlogged.letsIn i.header hop = (x, { n with resolver }.unlogged) := by
            obtain ⟨h1, h2⟩ := letsIn_unlogged n i.header hop
            rw [hl] at h1 h2
            exact Prod.ext h1 h2
          dsimp only
          rw [hl, hl']
          cases x with
          | error f => exact ⟨rfl, rfl⟩
          | ok b =>
            cases b with
            | false => exact ⟨rfl, rfl⟩
            | true =>
              obtain ⟨l, hsave, hext, -⟩ := h.saveIfAbsent_new hn .received now.date
              have hn' : ¬ Log.inMemory.Has i.header.id := fun hk => by cases hk
              obtain ⟨l', hsave', hext', -⟩ := Log.reliable_inMemory.saveIfAbsent_new hn' .received now.date
              have e1 := @deliver_unlogged { n with resolver, log := l } hext.reliable
                ⟨i.header, some hop.uri, i.body⟩ handler now
              have e2 := @deliver_unlogged { n with resolver, log := l' } hext'.reliable
                ⟨i.header, some hop.uri, i.body⟩ handler now
              simp only [onLog, unlogged, hsave, hsave']
              exact ⟨e1.1.trans e2.1.symm, e1.2.trans e2.2.symm⟩
  · rw [if_pos (by simp [hr]), if_pos (by simp [hr])]
    exact ⟨rfl, rfl⟩

/-! ## Workers -/

theorem grown_finish (h : n.log.Reliable) (p : Parcel) (d : Decision) (now : Moment) :
    n.Grown (· = p.id) (n.finish p d now) := by
  obtain ⟨l, hl, heq⟩ := finish_eq h p d now
  rw [heq]
  exact grown_copies hl _ _

theorem grown_finishWork (h : n.log.Reliable) (p : Parcel) (x : Except Failure Decision) (now : Moment) :
    n.Grown (· = p.id) (n.finishWork p x now) := by
  cases x with
  | ok d => exact grown_finish h p d now
  | error f => exact .refl h

theorem grown_handle (h : n.log.Reliable) {handler : Handler} {m : Message} {fresh : String} {now : Moment}
    {x : Except Failure Decision} {n' : Node} (heq : n.handle handler m fresh now = some (x, n')) :
    n.Grown (fun id => handler.responds = true ∧ id = fresh) n' := by
  cases handler with
  | answers =>
    cases heq
    exact .of_parts h n.resolver _
  | topology =>
    have hn : (n.handleTopology m).2 = n' := congrArg Prod.snd (Option.some.inj heq)
    rw [← hn]
    unfold handleTopology
    split
    · exact .refl h
    · split
      · exact .refl h
      · exact .refl h
      · split
        · exact .refl h
        · exact .of_parts h _ n.questions
  | responder respond =>
    have hn : (n.handleQuestion respond m fresh now).2 = n' := congrArg Prod.snd (Option.some.inj heq)
    rw [← hn]
    unfold handleQuestion
    split
    · exact .refl h
    · exact (grown_answer h _ _ _ _).mono fun _ hid => ⟨rfl, hid⟩
  | application imm => cases heq

/-- What a worker has in hand after it took something. -/
def Work.job : Work → List Parcel
  | .handling p => [p]
  | _ => []

/-- A worker takes the first parcel of which there is a handler: it is left to an application, or handled by the node
itself. -/
theorem work_served (h : n.log.Reliable) {p : Parcel} {rest : List Parcel} {handler : Handler}
    (hi : n.inbox = p :: rest) (hd : n.dispatch.get? p.header.kind = some handler) (fresh : String) (now : Moment) :
    (handle { n with inbox := rest } handler p.toMessage fresh now = none ∧
      n.work fresh now = (.handling p, { n with inbox := rest })) ∨
    ∃ x n', handle { n with inbox := rest } handler p.toMessage fresh now = some (x, n') ∧
      n.work fresh now = (.done, n'.finishWork p x now) ∧
      { n with inbox := rest }.Grown (fun id => handler.responds = true ∧ id = fresh) n' := by
  unfold work
  rw [hi]
  dsimp only
  rw [hd]
  dsimp only
  cases hh : handle { n with inbox := rest } handler p.toMessage fresh now with
  | none => exact Or.inl ⟨rfl, rfl⟩
  | some r =>
    obtain ⟨x, n'⟩ := r
    exact Or.inr ⟨x, n', rfl, rfl, @grown_handle { n with inbox := rest } h _ _ _ _ _ _ hh⟩

/-- A worker takes the first parcel; it is left to an application, or handled by the node itself. -/
theorem work_cases (h : n.log.Reliable) (fresh : String) (now : Moment) :
    (n.inbox = [] ∧ n.work fresh now = (.nothing, n)) ∨
      ∃ p rest, n.inbox = p :: rest ∧
        (n.work fresh now = (.handling p, { n with inbox := rest }) ∨
          ∃ n', n.work fresh now = (.done, n') ∧
            { n with inbox := rest }.Grown (fun id => id = p.id ∨ id = fresh) n') := by
  cases hi : n.inbox with
  | nil =>
    refine Or.inl ⟨rfl, ?_⟩
    unfold work
    rw [hi]
  | cons p rest =>
    refine Or.inr ⟨p, rest, rfl, ?_⟩
    cases hd : n.dispatch.get? p.header.kind with
    | none =>
      refine Or.inr ⟨{ n with inbox := rest }, ?_, .refl h⟩
      unfold work
      rw [hi]
      dsimp only
      rw [hd]
    | some handler =>
      rcases work_served h hi hd fresh now with ⟨-, hw⟩ | ⟨x, n', -, hw, hg⟩
      · exact Or.inl hw
      · have hfresh : Grown _ (fun id => id = p.id ∨ id = fresh) n' := hg.mono fun _ hid => Or.inr hid.2
        exact Or.inr ⟨_, hw, hfresh.trans ((grown_finishWork hg.reliable p x now).mono fun _ => Or.inl)⟩

theorem work_application {p : Parcel} {rest : List Parcel} {imm : Bool} (hi : n.inbox = p :: rest)
    (hd : n.dispatch.get? p.header.kind = some (.application imm)) (fresh : String) (now : Moment) :
    n.work fresh now = (.handling p, { n with inbox := rest }) := by
  unfold work
  rw [hi]
  dsimp only
  rw [hd]
  rfl

/-! ## What is left alone -/

/-- `n'` differs from `n` in its log, its lanes, its inbox, its kept answers and its questions at most. -/
def Steady (n n' : Node) : Prop :=
  n' = { n with
    log := n'.log, outbox := n'.outbox, resolver := n'.resolver, questions := n'.questions, inbox := n'.inbox }

/-- `n'` is `n` after something happened to messages with `ids`: no row of another message has changed, and what was
added to the lanes and to the inbox are such messages. -/
structure Touched (n : Node) (ids : String → Prop) (n' : Node) : Prop where
  reliable : n'.log.Reliable
  rows : ∀ id, ¬ ids id → n'.log.row? id = n.log.row? id
  steady : n.Steady n'
  outbox : ∃ copies : List (String × Parcel × Nat), (∀ c ∈ copies, ids c.2.1.id) ∧
    n'.outbox = copies.foldl (fun o c => o.enqueue c.1 c.2.1 c.2.2) n.outbox
  inbox : ∃ ps : List Parcel, n'.inbox = n.inbox ++ ps ∧ ∀ p ∈ ps, ids p.id

variable {n' n'' : Node} {ids : String → Prop}

theorem Grown.touched (h : n.Grown ids n') : n.Touched ids n' := by
  have hinbox : n'.inbox = n.inbox := by rw [h.frame]
  refine ⟨h.reliable, h.log.other, ?_, h.outbox, [], by rw [hinbox, List.append_nil], fun p hp => (by cases hp)⟩
  unfold Steady
  rw [hinbox]
  exact h.frame

theorem Steady.refl (n : Node) : n.Steady n := rfl

theorem Steady.trans (h : n.Steady n') (h' : n'.Steady n'') : n.Steady n'' := by
  unfold Steady
  rw [h', h]

/-- What is fixed while a node runs. -/
theorem Steady.fields (h : n.Steady n') : n'.self = n.self ∧ n'.signer = n.signer ∧ n'.registry = n.registry ∧
    n'.dispatch = n.dispatch ∧ n'.running = n.running ∧ n'.settings = n.settings := by
  rw [h]
  exact ⟨rfl, rfl, rfl, rfl, rfl, rfl⟩

theorem Touched.trans (h : n.Touched ids n') (h' : n'.Touched ids n'') : n.Touched ids n'' := by
  obtain ⟨copies, hid, ho⟩ := h.outbox
  obtain ⟨copies', hid', ho'⟩ := h'.outbox
  obtain ⟨ps, hi, hps⟩ := h.inbox
  obtain ⟨ps', hi', hps'⟩ := h'.inbox
  refine ⟨h'.reliable, fun id hid => (h'.rows id hid).trans (h.rows id hid), ?_, ⟨copies ++ copies', fun c hc => ?_, ?_⟩,
    ps ++ ps', by rw [hi', hi, List.append_assoc], fun p hp => ?_⟩
  · exact h.steady.trans h'.steady
  · rcases List.mem_append.mp hc with hc | hc
    · exact hid c hc
    · exact hid' c hc
  · rw [List.foldl_append, ← ho, ho']
  · rcases List.mem_append.mp hp with hp | hp
    · exact hps p hp
    · exact hps' p hp

theorem touched_log {l : Log} (hl : l.Reliable) (hrows : ∀ id, ¬ ids id → l.row? id = n.log.row? id) (r : Resolver)
    (q : Questions) : n.Touched ids { n with log := l, resolver := r, questions := q } :=
  ⟨hl, hrows, rfl, ⟨[], fun _ hc => (by cases hc), rfl⟩, [], (List.append_nil _).symm, fun p hp => (by cases hp)⟩

theorem touched_conclude (h : n.log.Reliable) (p : Parcel) (x : Except Failure Decision) (now : Moment) :
    n.Touched (· = p.id) (n.conclude p x now).2 := by
  cases x with
  | ok d => exact (grown_finish h p d now).touched
  | error f =>
    obtain ⟨l, hl, hrows, heq⟩ := conclude_error h p f now
    rw [heq]
    exact touched_log hl (fun id hid => by rw [hrows, if_neg hid]) n.resolver n.questions

theorem touched_queueUp (h : n.log.Reliable) (p : Parcel) : n.Touched (· = p.id) (n.queueUp p).2 := by
  rcases queueUp_cases h p with ⟨-, heq⟩ | ⟨-, l, hl, hrows, heq⟩
  · rw [heq]
    refine ⟨h, fun _ _ => rfl, rfl, ⟨[], fun _ hc => (by cases hc), rfl⟩, [p], rfl, fun q hq => ?_⟩
    rw [List.mem_singleton.mp hq]
  · rw [heq]
    exact touched_log hl (fun id hid => by rw [hrows, if_neg hid]) n.resolver n.questions

theorem touched_deliver (h : n.log.Reliable) (p : Parcel) (handler : Handler) (now : Moment) :
    n.Touched (· = p.id) (n.deliver p handler now).2 := by
  have queue := touched_queueUp h p
  unfold deliver
  split
  · obtain ⟨s, l, hl, -, heq⟩ := relayTo_eq h p (n.targetsFor p) now
    rw [apply, relay, heq]
    exact (grown_copies hl _ _).touched
  · cases handler with
    | answers =>
      simp only [handleAnswer, onQuestions]
      rcases n.questions.receive p.toMessage with ⟨x, q⟩
      have hq : n.Touched (· = p.id) { n with questions := q } := touched_log h (fun _ _ => rfl) n.resolver q
      exact hq.trans (@touched_conclude { n with questions := q } h p (x.map fun _ => .none) now)
    | application imm =>
      cases imm with
      | true => exact touched_log h (fun _ _ => rfl) n.resolver n.questions
      | false => exact queue
    | topology => exact queue
    | responder respond => exact queue

/-- Taking a message in touches nothing but that message. -/
theorem touched_takeIn (h : n.log.Reliable) (i : Inbound) (now : Moment) :
    n.Touched (· = i.header.id) (n.takeIn i now).2 := by
  rcases takeIn_cases h i now with ⟨r, resolver, -, heq⟩ | ⟨hop, handler, resolver, l, -, -, -, hext, -, heq⟩
  · rw [heq]
    exact touched_log h (fun _ _ => rfl) resolver n.questions
  · rw [heq]
    have hl : n.Touched (· = i.header.id) { n with resolver, log := l } :=
      touched_log hext.reliable hext.other resolver n.questions
    exact hl.trans
      (@touched_deliver { n with resolver, log := l } hext.reliable ⟨i.header, some hop.uri, i.body⟩ handler now)

/-! ## A small node -/

/-- A running node in memory that knows one peer and handles one kind of messages. -/
def knowing (self : Identity) (peer : Peer) (kind : String) (handler : Handler) : Node :=
  { (default : Node) with
    self
    registry := { Registry.inMemory self with index := .ofRows [peer] }
    dispatch := .ofList [(kind, handler)]
    running := true }

end Node

end ContentMesh
