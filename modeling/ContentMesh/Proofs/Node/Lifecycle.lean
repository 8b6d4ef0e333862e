import ContentMesh.Proofs.Node.Redelivery
import ContentMesh.Proofs.Node.Refusing
import ContentMesh.Proofs.Outbox.Accounts
import ContentMesh.Proofs.Peer.Trust

/-!
# ContentMesh.Proofs.Node.Lifecycle — a node that is started and shut down

A node is told to start and to shut down at any time and more than once, and between these calls it does all that a
node does.  A shutdown is in two parts: at once no messages come in any more, and when the workers have ended the
senders stop.  Nothing else that a node does changes whether it runs or whether its senders have stopped
(`Node.works_perform`).  A running node takes messages in, but a node whose senders have stopped does not send again,
though it be started again (`Life.running_serves`, `Life.restarted_refuses`).
-/

namespace ContentMesh.Node

variable {n n' n'' : Node} {α : Type}

/-! ## What the work of a node comes to -/

/-- Whether messages come in, and whether the senders have stopped. -/
def mode (n : Node) : Bool × Bool := (n.running, n.outbox.closed)

/-- `n'` is `n` after some work: it runs or not as before, and what was done to its outbox was done to lanes. -/
structure Works (n n' : Node) : Prop where
  running : n'.running = n.running
  outbox : ∃ es, n'.outbox = n.outbox.edited es

theorem Works.idle (hr : n'.running = n.running) (ho : n'.outbox = n.outbox) : n.Works n' := ⟨hr, [], ho⟩

theorem Works.edit (hr : n'.running = n.running) (e : Outbox.Edit) (ho : n'.outbox = n.outbox.edit e) : n.Works n' :=
  ⟨hr, [e], ho⟩

theorem Works.trans (h : n.Works n') (h' : n'.Works n'') : n.Works n'' := by
  obtain ⟨es, ho⟩ := h.outbox
  obtain ⟨es', ho'⟩ := h'.outbox
  refine ⟨h'.running.trans h.running, es ++ es', ?_⟩
  rw [ho', ho, Outbox.edited_append]

theorem Works.mode (h : n.Works n') : n'.mode = n.mode := by
  obtain ⟨es, ho⟩ := h.outbox
  unfold Node.mode
  rw [h.running, ho, Outbox.closed_edited]

theorem works_of_eq {y : α × Node} {x : α} (heq : y = (x, n')) (h : n.Works y.2) : n.Works n' := by
  rw [heq] at h
  exact h

/-- A call of the log, the resolver or the questions is no work on lanes. -/
theorem works_of_onLog {f : Log → α × Log} {x : α} (heq : n.onLog f = (x, n')) : n.Works n' :=
  works_of_eq heq (.idle rfl rfl)

theorem works_of_onResolver {f : Resolver → α × Resolver} {x : α} (heq : n.onResolver f = (x, n')) : n.Works n' :=
  works_of_eq heq (.idle rfl rfl)

theorem works_of_onQuestions {f : Questions → α × Questions} {x : α} (heq : n.onQuestions f = (x, n')) : n.Works n' :=
  works_of_eq heq (.idle rfl rfl)

theorem works_heedRemovals (n : Node) : n.Works n.heedRemovals := by
  refine ⟨rfl, n.registry.removals.map fun p => .close p.uri, ?_⟩
  unfold Outbox.edited
  rw [List.foldl_map]
  rfl

/-! ### Sending -/

theorem works_enqueue (n : Node) (p : Parcel) (t : String) (now : Moment) : n.Works (n.enqueue p t now).2 := by
  rcases heq : n.enqueue p t now with ⟨f | u, n'⟩
  · rw [enqueue_error heq]
    exact .idle rfl rfl
  · rw [enqueue_ok heq]
    exact .edit rfl (.enqueue t p now.tick) rfl

theorem works_enqueueAll (n : Node) (p : Parcel) (now : Moment) (s : Summary) (ts : List String) :
    n.Works (n.enqueueAll p now s ts).2 := by
  induction ts generalizing n s with
  | nil => exact .idle rfl rfl
  | cons t ts ih =>
    unfold enqueueAll
    split
    · rename_i n' heq
      exact (works_of_eq heq (n.works_enqueue p t now)).trans (ih n' _)
    · rename_i n' heq
      exact (works_of_eq heq (n.works_enqueue p t now)).trans (ih n' _)

theorem works_relayTo (n : Node) (p : Parcel) (ts : List String) (now : Moment) : n.Works (n.relayTo p ts now).2 := by
  unfold relayTo
  split
  · rename_i heq
    exact works_of_onLog heq
  · rename_i n' heq
    exact (works_of_onLog heq).trans (n'.works_enqueueAll p now _ ts)

theorem works_send (n : Node) (m : Message) (now : Moment) : n.Works (n.send m now).2 := by
  unfold send
  split
  · exact .idle rfl rfl
  · exact n.works_relayTo _ _ now

theorem works_publish (n : Node) (m : Message) (e : Entity) (least : Level) (now : Moment) :
    n.Works (n.publish m e least now).2 := by
  unfold publish
  split
  · exact .idle rfl rfl
  · dsimp only
    split
    · rename_i heq
      exact works_of_onResolver heq
    · rename_i n' heq
      have hasked : n.Works n' := works_of_onResolver heq
      split
      · rename_i hlog
        exact hasked.trans (works_of_onLog hlog)
      · rename_i hlog
        exact hasked.trans (works_of_onLog hlog)
    · rename_i n' hne heq
      have hasked : n.Works n' := works_of_onResolver heq
      exact hasked.trans (n'.works_relayTo _ _ now)

theorem works_pushTopology (n : Node) (e : Entity) (id : String) (now : Moment) :
    n.Works (n.pushTopology e id now).2 := by
  unfold pushTopology
  split
  · rename_i heq
    exact works_of_onResolver heq
  · rename_i heq
    exact works_of_onResolver heq
  · rename_i n' heq
    exact (works_of_onResolver heq).trans (n'.works_send _ now)

theorem works_ask (n : Node) (m : Message) (receivers : Option (List String)) (now : Moment) :
    n.Works (n.ask m receivers now).2 := by
  unfold ask
  cases m.toParcel with
  | error f => exact .idle rfl rfl
  | ok p =>
    dsimp -zeta only
    extract_lets targets _ p
    clear_value targets
    split
    · rename_i heq
      exact works_of_onQuestions heq
    · rename_i n' heq
      have hasked : n.Works n' := works_of_onQuestions heq
      split
      · exact hasked
      · have hsent := n'.works_relayTo p targets now
        split
        · rename_i hrelay
          exact hasked.trans (works_of_eq hrelay hsent)
        · -- the question is given up, which concerns the questions alone
          rename_i n'' hrelay
          have hgiven : n.Works n'' := hasked.trans (works_of_eq hrelay hsent)
          exact hgiven.trans (.idle rfl rfl)

theorem works_answer (n : Node) (question : Header) (body : Bytes) (id : String) (now : Moment) :
    n.Works (n.answer question body id now).2 := by
  unfold answer
  split
  · exact .idle rfl rfl
  · split
    · rename_i hrelay
      exact works_of_eq hrelay (n.works_relayTo _ _ now)
    · rename_i hrelay
      exact works_of_eq hrelay (n.works_relayTo _ _ now)

theorem works_produce (n : Node) (o : Production) (now : Moment) : n.Works (n.produce o now) := by
  cases o with
  | send m => exact n.works_send m now
  | publish m e least => exact n.works_publish m e least now
  | pushTopology e id => exact n.works_pushTopology e id now
  | ask m receivers => exact n.works_ask m receivers now
  | answer question body id => exact n.works_answer question body id now

/-- Each copy that was not queued was refused for the senders' sake if they have stopped, and only then. -/
theorem enqueueAll_shutdown {p : Parcel} {now : Moment} {s : Summary} {ts : List String}
    (hs : ∀ x ∈ s.failed, x.2 = .shutdown ↔ n.outbox.closed = true) :
    ∀ x ∈ (n.enqueueAll p now s ts).1.failed, x.2 = .shutdown ↔ n.outbox.closed = true := by
  induction ts generalizing n s with
  | nil => exact hs
  | cons t ts ih =>
    have hone := n.enqueue_shutdown p t now
    unfold enqueueAll
    split
    · rename_i n' heq
      have hclosed : n'.outbox.closed = n.outbox.closed :=
        congrArg Prod.snd (works_of_eq heq (n.works_enqueue p t now)).mode
      rw [← hclosed] at hs ⊢
      exact ih hs
    · rename_i f n' heq
      have hclosed : n'.outbox.closed = n.outbox.closed :=
        congrArg Prod.snd (works_of_eq heq (n.works_enqueue p t now)).mode
      rw [heq] at hone
      rw [← hclosed] at hs hone ⊢
      apply ih
      intro x hx
      rcases List.mem_append.mp hx with hx | hx
      · exact hs x hx
      · rw [List.mem_singleton.mp hx, ← hone]
        simp

theorem relayTo_shutdown {p : Parcel} {ts : List String} {now : Moment} {s : Summary}
    (h : (n.relayTo p ts now).1 = .ok s) : ∀ x ∈ s.failed, x.2 = .shutdown ↔ n.outbox.closed = true := by
  unfold relayTo at h
  split at h
  · cases h
  · rename_i n' heq
    have hclosed : n'.outbox.closed = n.outbox.closed := congrArg Prod.snd (works_of_onLog heq).mode
    cases h
    rw [← hclosed]
    apply enqueueAll_shutdown
    intro x hx
    cases hx

/-! ### Delivering -/

theorem works_depart (n : Node) (lane : Nat) (now : Moment) : n.Works (n.depart lane now).2 := by
  rcases n.depart_outcomes lane now with ⟨-, heq⟩ | ⟨f, target, t, -, -, -, heq⟩ | ⟨f, -, -, heq⟩
  · rw [heq]
    exact .edit rfl (.depart lane) rfl
  · rw [heq]
    exact .edit rfl (.depart lane) rfl
  · rw [heq]
    exact ⟨rfl, [.depart lane, .land lane .dropped now.tick 1.0], rfl⟩

theorem works_land (n : Node) (lane : Nat) (x : Except Failure Unit) (now : Moment) (spread : Float) :
    n.Works (n.land lane x now spread) := by
  rw [land_frame]
  exact .edit rfl (.land lane (attemptOf x) now.tick spread) rfl

/-! ### Receiving -/

theorem works_apply (n : Node) (p : Parcel) (d : Decision) (now : Moment) : n.Works (n.apply p d now) := by
  cases d with
  | none => exact .idle rfl rfl
  | all => exact n.works_relayTo p _ now
  | targets uris => exact n.works_relayTo p uris now

theorem works_finish (n : Node) (p : Parcel) (d : Decision) (now : Moment) : n.Works (n.finish p d now) := by
  have hmarked : n.Works (n.onLog fun l => l.mark p.id .handled now.date).2 := .idle rfl rfl
  exact hmarked.trans (works_apply _ p d now)

theorem works_conclude (n : Node) (p : Parcel) (x : Except Failure Decision) (now : Moment) :
    n.Works (n.conclude p x now).2 := by
  unfold conclude
  split
  · exact n.works_finish p _ now
  · split
    · rename_i heq
      exact works_of_onLog heq
    · rename_i heq
      exact works_of_onLog heq

theorem works_finishWork (n : Node) (p : Parcel) (x : Except Failure Decision) (now : Moment) :
    n.Works (n.finishWork p x now) := by
  cases x with
  | ok d => exact n.works_finish p d now
  | error f => exact .idle rfl rfl

theorem works_handle {handler : Handler} {m : Message} {fresh : String} {now : Moment} {x : Except Failure Decision}
    (heq : n.handle handler m fresh now = some (x, n')) : n.Works n' := by
  cases handler with
  | answers =>
    cases heq
    exact .idle rfl rfl
  | topology =>
    have hn : (n.handleTopology m).2 = n' := congrArg Prod.snd (Option.some.inj heq)
    rw [← hn]
    unfold handleTopology
    split
    · exact .idle rfl rfl
    · split
      · exact .idle rfl rfl
      · exact .idle rfl rfl
      · split
        · exact .idle rfl rfl
        · exact .idle rfl rfl
  | responder respond =>
    have hn : (n.handleQuestion respond m fresh now).2 = n' := congrArg Prod.snd (Option.some.inj heq)
    rw [← hn]
    unfold handleQuestion
    split
    · exact .idle rfl rfl
    · exact n.works_answer m.header _ fresh now
  | application immediate => cases heq

theorem works_queueUp (n : Node) (p : Parcel) : n.Works (n.queueUp p).2 := by
  unfold queueUp
  split
  · exact .idle rfl rfl
  · split
    · rename_i heq
      exact works_of_onLog heq
    · rename_i heq
      exact works_of_onLog heq

theorem works_deliver (n : Node) (p : Parcel) (handler : Handler) (now : Moment) :
    n.Works (n.deliver p handler now).2 := by
  unfold deliver
  split
  · exact n.works_apply p .all now
  · split
    · have hheard : n.Works (n.handleAnswer p.toMessage).2 := .idle rfl rfl
      exact hheard.trans (works_conclude _ p _ now)
    · exact .idle rfl rfl
    · exact n.works_queueUp p

theorem works_takeIn (n : Node) (i : Inbound) (now : Moment) : n.Works (n.takeIn i now).2 := by
  unfold takeIn
  split
  · exact .idle rfl rfl
  · split
    · exact .idle rfl rfl
    · rename_i hop hfind
      unfold takeInFrom
      dsimp only
      split
      · exact .idle rfl rfl
      · split
        · exact .idle rfl rfl
        · obtain ⟨x, resolver, hlet⟩ := letsIn_eq n i.header hop
          rw [hlet]
          have hasked : n.Works { n with resolver } := .idle rfl rfl
          rcases x with f | b
          · exact hasked
          · cases b with
            | false => exact hasked
            | true =>
              dsimp only
              split
              · rename_i heq
                exact hasked.trans (works_of_onLog heq)
              · rename_i heq
                exact hasked.trans (works_of_onLog heq)
              · rename_i n' heq
                exact (hasked.trans (works_of_onLog heq)).trans (n'.works_deliver _ _ now)

theorem works_work (n : Node) (fresh : String) (now : Moment) : n.Works (n.work fresh now).2 := by
  unfold work
  split
  · exact .idle rfl rfl
  · rename_i p inbox hinbox
    have htaken : n.Works { n with inbox } := .idle rfl rfl
    dsimp only
    split
    · exact htaken
    · split
      · exact htaken
      · rename_i n' heq
        exact (htaken.trans (works_handle heq)).trans (n'.works_finishWork _ _ now)

/-! ## All that a node does -/

/-- What goes on at a node beside its being started and shut down: messages come in and are handled, messages are sent
and queued, senders work, rules are set, and something happens at the registry. -/
inductive Activity where
  | takeIn (i : Inbound) (now : Moment)
  | conclude (p : Parcel) (x : Except Failure Decision) (now : Moment)
  | work (fresh : String) (now : Moment)
  | finishWork (p : Parcel) (x : Except Failure Decision) (now : Moment)
  | produce (o : Production) (now : Moment)
  | enqueue (p : Parcel) (uri : String) (now : Moment)
  | depart (lane : Nat) (now : Moment)
  | land (lane : Nat) (x : Except Failure Unit) (now : Moment) (spread : Float)
  | purge (uri : String)
  | setRules (e : Entity) (rules : Option Rules)
  | registry (e : Registry.Event)

/-- A node and the errands of its registry that wait, after an activity. -/
def perform (n : Node) (errands : List Waiting) : Activity → Node × List Waiting
  | .takeIn i now => ((n.takeIn i now).2, errands)
  | .conclude p x now => ((n.conclude p x now).2, errands)
  | .work fresh now => ((n.work fresh now).2, errands)
  | .finishWork p x now => (n.finishWork p x now, errands)
  | .produce o now => (n.produce o now, errands)
  | .enqueue p uri now => ((n.enqueue p uri now).2, errands)
  | .depart lane now => ((n.depart lane now).2, errands)
  | .land lane x now spread => (n.land lane x now spread, errands)
  | .purge uri => ({ n with outbox := (n.outbox.purge uri).2 }, errands)
  | .setRules e rules => ((n.onResolver fun r => r.setRules e rules).2, errands)
  | .registry e =>
    let o := Registry.Office.step ⟨n.registry, errands⟩ e
    ({ n with registry := o.registry }.heedRemovals, o.waiting)

/-- Whatever a node does, it goes on running or not, and its lanes are worked on. -/
theorem works_perform (n : Node) (errands : List Waiting) (a : Activity) : n.Works (n.perform errands a).1 := by
  cases a with
  | takeIn i now => exact n.works_takeIn i now
  | conclude p x now => exact n.works_conclude p x now
  | work fresh now => exact n.works_work fresh now
  | finishWork p x now => exact n.works_finishWork p x now
  | produce o now => exact n.works_produce o now
  | enqueue p uri now => exact n.works_enqueue p uri now
  | depart lane now => exact n.works_depart lane now
  | land lane x now spread => exact n.works_land lane x now spread
  | purge uri => exact .edit rfl (.purge uri) rfl
  | setRules e rules => exact .idle rfl rfl
  | registry e =>
    have hoffice : n.Works { n with registry := (Registry.Office.step ⟨n.registry, errands⟩ e).registry } := .idle rfl rfl
    exact hoffice.trans (works_heedRemovals _)

/-! ## Lives -/

/-- A node in the hands of its owner, with the errands that wait, how many shutdowns wait for the workers to end, and
how many have got to the senders. -/
structure Life where
  node : Node
  errands : List Waiting
  stopping : Nat
  shut : Nat

namespace Life

/-- What happens to a node: it is started, a shutdown begins, a shutdown gets to the senders, or something else. -/
inductive Event where
  | starts
  | stops
  | shuts
  | acts (a : Activity)

/-- A node that nothing has happened to. -/
def of (n : Node) : Life := ⟨n, [], 0, 0⟩

/-- A node that runs is not started again, and one that does not run is not shut down. -/
def step (s : Life) : Event → Life
  | .starts => { s with node := s.node.start }
  | .stops => if s.node.running then { s with node := s.node.stop, stopping := s.stopping + 1 } else s
  | .shuts =>
    if 0 < s.stopping then { s with node := s.node.shut, stopping := s.stopping - 1, shut := s.shut + 1 } else s
  | .acts a => { s with node := (s.node.perform s.errands a).1, errands := (s.node.perform s.errands a).2 }

def after (s : Life) (es : List Event) : Life := es.foldl step s

theorem after_concat (s : Life) (es : List Event) (e : Event) : s.after (es ++ [e]) = (s.after es).step e := by
  simp [after, List.foldl_append]

/-- Whether the last call of the owner was to start. -/
def started (es : List Event) : Bool :=
  es.foldl (fun b e => match e with
    | .starts => true
    | .stops => false
    | _ => b) false

theorem started_concat (es : List Event) (e : Event) : started (es ++ [e]) = match e with
    | .starts => true
    | .stops => false
    | _ => started es := by
  unfold started
  rw [List.foldl_append]
  rfl

/-- What a node shows of the calls of its owner. -/
structure Shows (es : List Event) (s : Life) : Prop where
  running : s.node.running = started es
  closed : s.node.outbox.closed = true ↔ 0 < s.shut
  fresh : (∀ e ∈ es, e ≠ .stops) → s.stopping = 0 ∧ s.shut = 0

variable {s : Life} {es : List Event}

theorem Shows.step (h : Shows es s) (e : Event) : Shows (es ++ [e]) (s.step e) := by
  have hfresh : (∀ x ∈ es ++ [e], x ≠ .stops) → s.stopping = 0 ∧ s.shut = 0 :=
    fun hne => h.fresh fun x hx => hne x (List.mem_append_left _ hx)
  cases e with
  | starts =>
    refine ⟨?_, h.closed, hfresh⟩
    rw [started_concat]
    rfl
  | stops =>
    have hmem : ¬ ∀ x ∈ es ++ [Event.stops], x ≠ .stops := fun hne => hne .stops (by simp) rfl
    unfold Life.step
    dsimp only
    split
    · exact ⟨by rw [started_concat]; rfl, h.closed, fun hne => absurd hne hmem⟩
    · rename_i hrun
      exact ⟨by rw [started_concat]; simpa using hrun, h.closed, fun hne => absurd hne hmem⟩
  | shuts =>
    unfold Life.step
    dsimp only
    split
    · rename_i hstopping
      refine ⟨by rw [started_concat]; exact h.running, ?_, ?_⟩
      · show (true = true) ↔ 0 < s.shut + 1
        simp
      · intro hne
        have hzero := (hfresh hne).1
        omega
    · exact ⟨by rw [started_concat]; exact h.running, h.closed, hfresh⟩
  | acts a =>
    have hmode := (s.node.works_perform s.errands a).mode
    unfold mode at hmode
    obtain ⟨hrun, hclosed⟩ := Prod.mk.inj hmode
    refine ⟨?_, ?_, hfresh⟩
    · rw [started_concat]
      exact hrun.trans h.running
    · show (s.node.perform s.errands a).1.outbox.closed = true ↔ _
      rw [hclosed]
      exact h.closed

theorem Shows.after {n : Node} (h : Shows [] (of n)) (es : List Event) : Shows es ((of n).after es) := by
  induction es using List.reverseRecOn with
  | nil => exact h
  | append_singleton es e ih =>
    rw [after_concat]
    exact ih.step e

/-- Over every run of a node, in which it is started and shut down at any time and as often as its owner likes.  It runs
while the last call was to start, and then no message that comes in is refused as by a node that is shut down; nor is
one whose handler ends later, but by its handler.  A copy for a registered target is refused so if a shutdown has ever
got to the senders, and else, which is the case as long as the node was never shut down, it is queued unless the log
fails. -/
theorem running_serves {settings : Settings} {self : Identity} {signer : Option Signer} {stores : Stores}
    {dispatch : Dict Handler} {n : Node} (hn : assemble settings self signer stores dispatch = .ok n)
    (es : List Event) :
    let s := (of n).after es
    s.node.running = started es ∧
      (∀ i now, (s.node.takeIn i now).1 = .settled (.error .shutdown) ↔ s.node.running = false) ∧
      (∀ p x now, (s.node.conclude p x now).1 = .error .shutdown → x = .error .shutdown) ∧
      (∀ p uri now, (s.node.registry.registered? uri).isSome = true →
        ((s.node.enqueue p uri now).1 = .error .shutdown ↔ 0 < s.shut) ∧
          (s.shut = 0 → (∃ n', s.node.enqueue p uri now = (.ok (), n') ∧
              n'.outbox = s.node.outbox.enqueue uri p now.tick) ∨
            ∃ f, f.OfTable ∧ (s.node.enqueue p uri now).1 = .error f)) ∧
      (∀ p uris now summary, (s.node.relayTo p uris now).1 = .ok summary →
        ∀ x ∈ summary.failed, x.2 = .shutdown ↔ 0 < s.shut) ∧
      ((∀ e ∈ es, e ≠ .stops) → s.shut = 0) := by
  intro s
  have hnew : Shows [] (of n) := by
    unfold assemble at hn
    cases hload : Registry.load self stores.peers with
    | error f =>
      rw [hload] at hn
      cases hn
    | ok r =>
      rw [hload] at hn
      cases hn
      exact ⟨rfl, by simp [of, Outbox.new], fun _ => ⟨rfl, rfl⟩⟩
  have hs : Shows es s := hnew.after es
  refine ⟨hs.running, s.node.takeIn_shutdown, ?_, ?_, ?_, fun hne => (hs.fresh hne).2⟩
  · intro p x now hx
    exact (conclude_failure hx).resolve_right fun htable => htable.ne_shutdown rfl
  · intro p uri now hregistered
    refine ⟨(s.node.enqueue_shutdown p uri now).trans hs.closed, fun hzero => ?_⟩
    rcases heq : s.node.enqueue p uri now with ⟨f | u, n'⟩
    · right
      refine ⟨f, ?_, rfl⟩
      rcases enqueue_failure (congrArg Prod.fst heq) with ⟨hclosed, -⟩ | ⟨-, ⟨hunknown, -⟩ | htable⟩
      · have hshut := hs.closed.mp hclosed
        omega
      · rw [hunknown] at hregistered
        cases hregistered
      · exact htable
    · left
      refine ⟨n', rfl, ?_⟩
      rw [enqueue_ok heq]
  · intro p uris now summary hsummary x hx
    exact (relayTo_shutdown hsummary x hx).trans hs.closed

/-- A node is started, a peer is added, and a message is sent before one comes in. -/
theorem running_serves_peer : ∃ (n : Node) (b : Peer) (es : List Event) (i : Inbound),
    assemble default ⟨"a", "", "t"⟩ none .inMemory ∅ = .ok n ∧ b.isRegistered = true ∧
      es = [.starts, .acts (.registry (.adds b)), .acts (.enqueue default b.uri ⟨0, .epoch⟩)] ∧ i.hop = b.uri ∧
      ((of n).after es).node.running = true ∧
      (((of n).after es).node.takeIn i ⟨1, .epoch⟩).1 ≠ .settled (.error .shutdown) ∧
      (((of n).after es).node.enqueue default b.uri ⟨2, .epoch⟩).1 ≠ .error .shutdown := by
  let b : Peer := ⟨"b", "", "u", .registered, some "8", ∅⟩
  let es : List Event := [.starts, .acts (.registry (.adds b)), .acts (.enqueue default "u" ⟨0, .epoch⟩)]
  have hn : assemble default ⟨"a", "", "t"⟩ none .inMemory ∅ = .ok _ := rfl
  obtain ⟨hrunning, htakes, -, hqueues, -, hnever⟩ := running_serves hn es
  have hregistered := hqueues default b.uri ⟨2, .epoch⟩ (by decide +kernel)
  refine ⟨_, b, es, ⟨default, b.uri, [], none⟩, hn, rfl, rfl, rfl, hrunning, ?_, ?_⟩
  · intro hshut
    exact absurd (hrunning.symm.trans ((htakes _ _).mp hshut)) (by decide)
  · intro hshut
    have hcount := hregistered.1.mp hshut
    rw [hnever (by simp [es])] at hcount
    exact absurd hcount (by decide)

/-- A node with a registered peer is started, shut down to the end, and started again.  It runs, and messages come in,
but no copy is queued any more. -/
theorem restarted_refuses : ∃ n : Node,
    assemble default ⟨"a-id", "a", "http://a"⟩ none
        ⟨(Store.inMemory.put "http://b" (.new "b-id" "b" "http://b" .registered)).2, .inMemory, .inMemory⟩ ∅ = .ok n ∧
      let s := (of n).after [.starts, .stops, .shuts, .starts]
      s.node.running = true ∧ (s.node.registry.registered? "http://b").isSome = true ∧
        (∀ i now, (s.node.takeIn i now).1 ≠ .settled (.error .shutdown)) ∧
        ∀ p now, (s.node.enqueue p "http://b" now).1 = .error .shutdown := by
  refine ⟨_, rfl, rfl, by decide +kernel, ?_, ?_⟩
  · intro i now hshut
    have hstopped := (takeIn_shutdown _ i now).mp hshut
    cases hstopped
  · intro p now
    exact (enqueue_shutdown _ p "http://b" now).mpr rfl

end Life

end ContentMesh.Node
