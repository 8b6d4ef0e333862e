import ContentMesh.Proofs.Node.Delivering
import ContentMesh.Proofs.Node.Receiving

/-!
# ContentMesh.Proofs.Node.Redelivery — what a duplicate stands for

A message that has a row is refused as a duplicate when it comes in again.  Rows outlive the queue of a node and all
that its handlers have in hand: handlers fail, and a node is started anew over the same table.  The invariant
(`Service.Accounted`) is that every message with a row waits for a worker, is in the hands of a handler, or has met its
fate.  So a duplicate is not always safe to refuse: its row also stays after a worker has failed on it and after
a restart has lost it (`Service.duplicate_accounted`, `Service.duplicate_failed`).
-/

namespace ContentMesh.Node

variable {n : Node}

/-! ## Fates -/

/-- What became of a message: it was handled, a worker failed on it, it was lost in a restart, it was for others and
was handed on, or it is the node's own. -/
inductive Fate where
  | handled
  | failed
  | lost
  | passed
  | produced
  deriving DecidableEq

def Fate.ofWork : Except Failure Decision → Fate
  | .ok _ => .handled
  | .error _ => .failed

/-- What a call that has returned made of a message. -/
def received (id : String) : Except Failure Reception → List (String × Fate)
  | .ok .handled => [(id, .handled)]
  | .ok .forwarded => [(id, .passed)]
  | _ => []

/-! ## Messages of the node's own -/

/-- What a node sends of its own accord. -/
inductive Production where
  | send (m : Message)
  | publish (m : Message) (e : Entity) (least : Level)
  | pushTopology (e : Entity) (id : String)
  | ask (m : Message) (receivers : Option (List String))
  | answer (question : Header) (body : Bytes) (id : String)

def Production.id : Production → String
  | send m | publish m _ _ | ask m _ => m.header.id
  | pushTopology _ id | answer _ _ id => id

def produce (n : Node) (o : Production) (now : Moment) : Node :=
  match o with
  | .send m => (n.send m now).2
  | .publish m e least => (n.publish m e least now).2
  | .pushTopology e id => (n.pushTopology e id now).2
  | .ask m receivers => (n.ask m receivers now).2
  | .answer question body id => (n.answer question body id now).2

theorem grown_produce (h : n.log.Reliable) (o : Production) (now : Moment) : n.Grown (· = o.id) (n.produce o now) := by
  cases o with
  | send m => exact grown_send h rfl now
  | publish m e least => exact grown_publish h m e least now
  | pushTopology e id => exact grown_pushTopology h e id now
  | ask m receivers => exact grown_ask h m receivers now
  | answer question body id => exact grown_answer h question body id now

/-! ## Where a message goes -/

/-- Where a reception leaves a message: nowhere, with all rows as they were, or in the inbox, in the hands of
a handler, or at its end. -/
inductive Took (n : Node) (h : Header) : Admission → Node → Prop where
  | spared {r : Except Failure Reception} {n' : Node} (hr : r = .ok .duplicate → n.log.Has h.id)
      (hrows : ∀ id, n'.log.row? id = n.log.row? id) (hi : n'.inbox = n.inbox) : Took n h (.settled r) n'
  | queued {p : Parcel} {n' : Node} (hp : p.header = h) (hd : (n.dispatch.get? h.kind).isSome = true)
      (hi : n'.inbox = n.inbox ++ [p]) : Took n h (.settled (.ok .queued)) n'
  | ended {r : Except Failure Reception} {f : Fate} {n' : Node} (hf : (h.id, f) ∈ received h.id r)
      (hi : n'.inbox = n.inbox) : Took n h (.settled r) n'
  | handling {p : Parcel} {n' : Node} (hp : p.header = h) (hi : n'.inbox = n.inbox) : Took n h (.handling p) n'

theorem deliver_took {m : Node} {p : Parcel} {handler : Handler} (hn : ¬ n.log.Has p.id)
    (hext : n.log.Extends (· = p.id) m.log) (hi : m.inbox = n.inbox)
    (hd : (n.dispatch.get? p.header.kind).isSome = true) (now : Moment) :
    Took n p.header (m.deliver p handler now).1 (m.deliver p handler now).2 := by
  have h : m.log.Reliable := hext.reliable
  have queue : Took n p.header (.settled (m.queueUp p).1) (m.queueUp p).2 := by
    rcases queueUp_cases h p with ⟨-, heq⟩ | ⟨-, l, -, hdel, heq⟩
    · rw [heq]
      exact .queued rfl hd (congrArg (· ++ [p]) hi)
    · rw [heq]
      exact .spared (fun hr => (by cases hr)) (row?_undone hn hext hdel) hi
  unfold deliver
  split
  · obtain ⟨l, -, -, heq⟩ := apply_eq h p .all now
    rw [heq]
    exact .ended (List.mem_singleton_self _) hi
  · cases handler with
    | answers =>
      simp only [handleAnswer, onQuestions]
      rcases m.questions.receive p.toMessage with ⟨x, q⟩
      cases x with
      | ok u =>
        obtain ⟨l, -, heq⟩ := @conclude_ok { m with questions := q } h p .none now
        simp only [Except.map, heq]
        exact .ended (List.mem_singleton_self _) hi
      | error f =>
        obtain ⟨l, -, hdel, heq⟩ := @conclude_error { m with questions := q } h p f now
        simp only [Except.map, heq]
        exact .spared (fun hr => (by cases hr)) (row?_undone hn hext hdel) hi
    | application imm =>
      cases imm with
      | true => exact .handling rfl hi
      | false => exact queue
    | topology => exact queue
    | responder respond => exact queue

theorem takeIn_took (h : n.log.Reliable) (i : Inbound) (now : Moment) :
    Took n i.header (n.takeIn i now).1 (n.takeIn i now).2 := by
  rcases takeIn_cases h i now with ⟨r, resolver, hr, heq⟩ | ⟨hop, handler, resolver, l, -, hd, hn, hext, -, heq⟩
  · rw [heq]
    refine .spared (fun hdup => ?_) (fun _ => rfl) rfl
    subst hdup
    cases hr with
    | duplicate hk => exact hk
  · rw [heq]
    have hserved : (n.dispatch.get? i.header.kind).isSome = true := by rw [hd]; rfl
    exact deliver_took (m := { n with resolver, log := l }) (p := ⟨i.header, some hop.uri, i.body⟩) hn hext rfl hserved
      now

/-- What is refused as a duplicate has a row. -/
theorem has_of_duplicate (h : n.log.Reliable) {i : Inbound} {now : Moment} {n' : Node}
    (hdup : n.takeIn i now = (.settled (.ok .duplicate), n')) : n.log.Has i.header.id := by
  have htook := takeIn_took h i now
  rw [hdup] at htook
  cases htook with
  | spared hr hrows hi => exact hr rfl
  | ended hf hi => cases hf

/-- What the node's own handlers make of the first parcel that waits, and the message that one of them may send. -/
def workFates (n : Node) (fresh : String) (now : Moment) : List (String × Fate) :=
  match n.inbox with
  | [] => []
  | p :: rest =>
    match n.dispatch.get? p.header.kind with
    | none => []
    | some handler =>
      match handle { n with inbox := rest } handler p.toMessage fresh now with
      | none => []
      | some (x, _) => (p.id, .ofWork x) :: if handler.responds then [(fresh, .produced)] else []

/-- A worker leaves the first parcel to an application, or the parcel meets its fate; the rows that are written then
are of messages that have met theirs. -/
theorem work_fates (h : n.log.Reliable) {p : Parcel} {rest : List Parcel} (hi : n.inbox = p :: rest)
    (hd : (n.dispatch.get? p.header.kind).isSome = true) (fresh : String) (now : Moment) :
    n.work fresh now = (.handling p, { n with inbox := rest }) ∨
      ∃ n', n.work fresh now = (.done, n') ∧ (∃ f, (p.id, f) ∈ n.workFates fresh now) ∧
        { n with inbox := rest }.Grown (fun id => ∃ f, (id, f) ∈ n.workFates fresh now) n' := by
  obtain ⟨handler, hd⟩ := Option.isSome_iff_exists.mp hd
  rcases work_served h hi hd fresh now with ⟨-, hw⟩ | ⟨x, n', hh, hw, hg⟩
  · exact Or.inl hw
  · have hfates : n.workFates fresh now
        = (p.id, .ofWork x) :: if handler.responds then [(fresh, .produced)] else [] := by
      unfold workFates
      rw [hi]
      dsimp only
      rw [hd]
      dsimp only
      rw [hh]
    have hfirst : ∃ f, (p.id, f) ∈ n.workFates fresh now := ⟨.ofWork x, hfates ▸ List.mem_cons_self⟩
    refine Or.inr ⟨_, hw, hfirst, ?_⟩
    have hanswer : Grown _ (fun id => ∃ f, (id, f) ∈ n.workFates fresh now) n' := hg.mono fun id hid => by
      refine ⟨.produced, ?_⟩
      rw [hfates, if_pos hid.1, hid.2]
      exact List.mem_cons_of_mem _ List.mem_cons_self
    exact hanswer.trans ((grown_finishWork hg.reliable p x now).mono fun id hid => hid ▸ hfirst)

/-! ## Runs -/

/-- A node in the service of one table: what its handlers and its workers have in hand, and what became of messages. -/
structure Service where
  node : Node
  suspended : List Parcel
  jobs : List Parcel
  fates : List (String × Fate)

namespace Service

/-- The messages that wait, and those in hand. -/
def held (s : Service) : List Parcel := s.node.inbox ++ (s.suspended ++ s.jobs)

/-- A message is held, or has met its fate. -/
def Knows (s : Service) (id : String) : Prop := (∃ p ∈ s.held, p.id = id) ∨ ∃ f, (id, f) ∈ s.fates

/-- What happens to a node.  `other` is whatever leaves the log, the inbox and the dispatch alone.  After a restart the
inbox is empty; what was held is lost, but for calls that still come to their end over the same table. -/
inductive Step : Service → Service → Prop where
  | settle (s : Service) (i : Inbound) (now : Moment) {r : Except Failure Reception} {n : Node}
      (h : s.node.takeIn i now = (.settled r, n)) :
      Step s { s with node := n, fates := received i.header.id r ++ s.fates }
  | suspend (s : Service) (i : Inbound) (now : Moment) {p : Parcel} {n : Node}
      (h : s.node.takeIn i now = (.handling p, n)) : Step s { s with node := n, suspended := p :: s.suspended }
  | resume (s : Service) {p : Parcel} (hp : p ∈ s.suspended) (x : Except Failure Decision) (now : Moment)
      {r : Except Failure Reception} {n : Node} (h : s.node.conclude p x now = (r, n)) :
      Step s { s with node := n, suspended := s.suspended.erase p, fates := received p.id r ++ s.fates }
  | work (s : Service) (fresh : String) (now : Moment) {w : Work} {n : Node} (h : s.node.work fresh now = (w, n)) :
      Step s { s with node := n, jobs := w.job ++ s.jobs, fates := s.node.workFates fresh now ++ s.fates }
  | finishWork (s : Service) {p : Parcel} (hp : p ∈ s.jobs) (x : Except Failure Decision) (now : Moment) :
      Step s { s with
        node := s.node.finishWork p x now, jobs := s.jobs.erase p, fates := (p.id, .ofWork x) :: s.fates }
  | produce (s : Service) (o : Production) (now : Moment) :
      Step s { s with node := s.node.produce o now, fates := (o.id, .produced) :: s.fates }
  | depart (s : Service) (lane : Nat) (now : Moment) : Step s { s with node := (s.node.depart lane now).2 }
  | land (s : Service) (lane : Nat) (x : Except Failure Unit) (now : Moment) (spread : Float) :
      Step s { s with node := s.node.land lane x now spread }
  | other (s : Service) {n : Node} (hl : n.log = s.node.log) (hi : n.inbox = s.node.inbox)
      (hd : n.dispatch = s.node.dispatch) : Step s { s with node := n }
  | restart (s : Service) {n : Node} {suspended jobs gone : List Parcel} (h : n.log.Reliable)
      (hrows : ∀ id, n.log.row? id = s.node.log.row? id) (hi : n.inbox = [])
      (hheld : s.held.Perm (gone ++ (suspended ++ jobs))) :
      Step s ⟨n, suspended, jobs, gone.map (fun p => (p.id, .lost)) ++ s.fates⟩

/-- The states that a node can come to. -/
inductive Reachable (n : Node) : Service → Prop where
  | start : Reachable n ⟨n, [], [], []⟩
  | next {s t : Service} : Reachable n s → Step s t → Reachable n t

/-! ## The invariant -/

/-- Every message with a row is held or has met its fate, and for every message that waits there is a handler. -/
structure Accounted (s : Service) : Prop where
  reliable : s.node.log.Reliable
  rows : ∀ id, s.node.log.Has id → s.Knows id
  served : ∀ p ∈ s.node.inbox, (s.node.dispatch.get? p.header.kind).isSome = true

variable {s t : Service}

/-- The rows of a state are accounted for if those that are new are, and if none is left of what was held before and
is held no more. -/
theorem Accounted.next (h : s.Accounted) (hl : t.node.log.Reliable)
    (hrows : ∀ id, t.node.log.Has id → s.node.log.Has id ∨ t.Knows id)
    (hheld : ∀ p ∈ s.held, t.node.log.Has p.id → p ∈ t.held ∨ ∃ f, (p.id, f) ∈ t.fates)
    (hfates : s.fates ⊆ t.fates)
    (hserved : ∀ p ∈ t.node.inbox, (t.node.dispatch.get? p.header.kind).isSome = true) : t.Accounted where
  reliable := hl
  rows id hid := by
    rcases hrows id hid with hold | hnew
    · rcases h.rows id hold with ⟨p, hp, rfl⟩ | ⟨f, hf⟩
      · rcases hheld p hp hid with hp | hf
        · exact Or.inl ⟨p, hp, rfl⟩
        · exact Or.inr hf
      · exact Or.inr ⟨f, hfates hf⟩
    · exact hnew
  served := hserved

/-- What is done with nothing but messages that meet their fate keeps all rows accounted for. -/
theorem Accounted.of_extends (h : s.Accounted) (fs : List (String × Fate))
    (hl : s.node.log.Extends (fun id => ∃ f, (id, f) ∈ fs) t.node.log)
    (hheld : ∀ p ∈ s.held, p ∈ t.held ∨ ∃ f, (p.id, f) ∈ fs) (hfates : t.fates = fs ++ s.fates)
    (hserved : ∀ p ∈ t.node.inbox, (t.node.dispatch.get? p.header.kind).isSome = true) : t.Accounted := by
  have hold : s.fates ⊆ t.fates := hfates ▸ List.subset_append_right fs s.fates
  have hnew : fs ⊆ t.fates := hfates ▸ List.subset_append_left fs s.fates
  refine h.next hl.reliable (fun id hid => ?_) (fun p hp _ => ?_) hold hserved
  · by_cases hf : ∃ f, (id, f) ∈ fs
    · obtain ⟨f, hf⟩ := hf
      exact Or.inr (Or.inr ⟨f, hnew hf⟩)
    · exact Or.inl ((hl.has_iff hf).mp hid)
  · rcases hheld p hp with hp | ⟨f, hf⟩
    · exact Or.inl hp
    · exact Or.inr ⟨f, hnew hf⟩

section Receiving

variable {i : Inbound} {now : Moment} {p : Parcel} {n : Node}

/-- A reception leaves the rows of other messages alone and takes nothing out of the inbox, so that only its own message
is to be accounted for. -/
theorem Accounted.of_touched (h : s.Accounted) (htouch : s.node.Touched (· = i.header.id) t.node)
    (hown : t.node.log.Has i.header.id → s.node.log.Has i.header.id ∨ t.Knows i.header.id)
    (hserved : ∀ p ∈ t.node.inbox, p ∈ s.node.inbox ∨ (s.node.dispatch.get? p.header.kind).isSome = true)
    (hsuspended : s.suspended ⊆ t.suspended) (hjobs : t.jobs = s.jobs) (hfates : s.fates ⊆ t.fates) : t.Accounted := by
  have hdispatch : t.node.dispatch = s.node.dispatch := htouch.steady.fields.2.2.2.1
  obtain ⟨ps, hinbox, -⟩ := htouch.inbox
  refine h.next htouch.reliable (fun id hid => ?_) (fun p hp _ => Or.inl ?_) hfates fun p hp => ?_
  · by_cases hi : id = i.header.id
    · exact hi ▸ hown (hi ▸ hid)
    · unfold Log.Has at hid
      rw [htouch.rows id hi] at hid
      exact Or.inl hid
  · simp only [held, hinbox, hjobs, List.mem_append] at hp ⊢
    rcases hp with hp | hp | hp
    · exact Or.inl (Or.inl hp)
    · exact Or.inr (Or.inl (hsuspended hp))
    · exact Or.inr (Or.inr hp)
  · rw [hdispatch]
    rcases hserved p hp with hp | hp
    · exact h.served p hp
    · exact hp

theorem Accounted.settle (h : s.Accounted) {r : Except Failure Reception}
    (heq : s.node.takeIn i now = (.settled r, n)) :
    Accounted { s with node := n, fates := received i.header.id r ++ s.fates } := by
  have htook := takeIn_took h.reliable i now
  have htouch := touched_takeIn h.reliable i now
  rw [heq] at htook htouch
  have hfates : s.fates ⊆ received i.header.id r ++ s.fates := List.subset_append_right _ _
  cases htook with
  | spared hr hrows hi =>
    refine h.of_touched htouch (fun hid => Or.inl ?_) (fun p hp => ?_) (List.Subset.refl _) rfl hfates
    · unfold Log.Has at hid
      rwa [hrows] at hid
    · exact Or.inl (hi ▸ hp)
  | @queued p _ hp hd hi =>
    have hinbox : n.inbox = s.node.inbox ++ [p] := hi
    have hheld : p ∈ n.inbox ++ (s.suspended ++ s.jobs) := by simp [hinbox]
    refine h.of_touched htouch (fun _ => Or.inr ?_) (fun q hq => ?_) (List.Subset.refl _) rfl hfates
    · exact Or.inl ⟨p, hheld, congrArg Header.id hp⟩
    · have hq' : q ∈ s.node.inbox ∨ q = p := by simpa [hinbox] using hq
      rcases hq' with hq' | rfl
      · exact Or.inl hq'
      · rw [hp]
        exact Or.inr hd
  | @ended _ f _ hf hi =>
    refine h.of_touched htouch (fun _ => Or.inr ?_) (fun p hp => ?_) (List.Subset.refl _) rfl hfates
    · exact Or.inr ⟨f, List.mem_append_left _ hf⟩
    · exact Or.inl (hi ▸ hp)

theorem Accounted.suspend (h : s.Accounted) (heq : s.node.takeIn i now = (.handling p, n)) :
    Accounted { s with node := n, suspended := p :: s.suspended } := by
  have htook := takeIn_took h.reliable i now
  have htouch := touched_takeIn h.reliable i now
  rw [heq] at htook htouch
  cases htook with
  | handling hp hi =>
    have hheld : p ∈ n.inbox ++ (p :: s.suspended ++ s.jobs) := by simp
    refine h.of_touched htouch (fun _ => Or.inr ?_) (fun q hq => ?_) (List.subset_cons_self _ _) rfl
      (List.Subset.refl _)
    · exact Or.inl ⟨p, hheld, congrArg Header.id hp⟩
    · exact Or.inl (hi ▸ hq)

end Receiving

/-- A message meets its fate, and it alone may be held no longer. -/
theorem Accounted.of_grown {n : Node} {id : String} {suspended jobs : List Parcel} (h : s.Accounted)
    (hg : s.node.Grown (· = id) n) (f : Fate)
    (hrest : ∀ p ∈ s.suspended ++ s.jobs, p ∈ suspended ++ jobs ∨ p.id = id) :
    Accounted ⟨n, suspended, jobs, (id, f) :: s.fates⟩ := by
  have hinbox : n.inbox = s.node.inbox := by rw [hg.frame]
  have hdispatch : n.dispatch = s.node.dispatch := by rw [hg.frame]
  refine h.of_extends [(id, f)] (hg.log.mono fun j hj => ⟨f, ?_⟩) (fun p hp => ?_) rfl fun p hp => ?_
  · exact hj ▸ List.mem_singleton_self _
  · rcases List.mem_append.mp hp with hp | hp
    · exact Or.inl (List.mem_append_left _ (hinbox ▸ hp))
    · rcases hrest p hp with hp | hp
      · exact Or.inl (List.mem_append_right _ hp)
      · exact Or.inr ⟨f, hp ▸ List.mem_singleton_self _⟩
  · rw [hdispatch]
    exact h.served p (hinbox ▸ hp)

theorem mem_erase_or {l : List Parcel} (p : Parcel) {q : Parcel} (h : q ∈ l) : q ∈ l.erase p ∨ q = p := by
  by_cases hq : q = p
  · exact Or.inr hq
  · exact Or.inl ((List.mem_erase_of_ne hq).mpr h)

/-- The end of a call accounts for its message: it was handled, or its row is gone. -/
theorem Accounted.resume (h : s.Accounted) {p : Parcel} {x : Except Failure Decision} {now : Moment}
    {r : Except Failure Reception} {n : Node} (heq : s.node.conclude p x now = (r, n)) :
    Accounted { s with node := n, suspended := s.suspended.erase p, fates := received p.id r ++ s.fates } := by
  have hrest : ∀ q ∈ s.suspended ++ s.jobs, q ∈ s.suspended.erase p ++ s.jobs ∨ q = p := by
    intro q hq
    rcases List.mem_append.mp hq with hq | hq
    · exact (mem_erase_or p hq).imp_left (List.mem_append_left _)
    · exact Or.inl (List.mem_append_right _ hq)
  cases x with
  | ok d =>
    cases heq
    exact h.of_grown (grown_finish h.reliable p d now) .handled fun q hq => (hrest q hq).imp_right (congrArg Parcel.id)
  | error f =>
    obtain ⟨l, hl, hrows, hn⟩ := conclude_error h.reliable p f now
    rw [hn] at heq
    cases heq
    refine h.next hl (fun id hid => Or.inl ?_) (fun q hq hid => ?_) (List.Subset.refl _) h.served
    · unfold Log.Has at hid ⊢
      rw [hrows] at hid
      split at hid
      · cases hid
      · exact hid
    · left
      rcases List.mem_append.mp hq with hq | hq
      · exact List.mem_append_left _ hq
      · rcases hrest q hq with hq | rfl
        · exact List.mem_append_right _ hq
        · -- without its row the message is new again, and there is nothing to account for
          unfold Log.Has at hid
          rw [hrows, if_pos rfl] at hid
          cases hid

theorem Accounted.work (h : s.Accounted) {fresh : String} {now : Moment} {w : Work} {n : Node}
    (heq : s.node.work fresh now = (w, n)) :
    Accounted { s with node := n, jobs := w.job ++ s.jobs, fates := s.node.workFates fresh now ++ s.fates } := by
  cases hi : s.node.inbox with
  | nil =>
    have hn : s.node.work fresh now = (.nothing, s.node) := by rw [Node.work, hi]
    have hfates : s.node.workFates fresh now = [] := by rw [workFates, hi]
    rw [hn] at heq
    cases heq
    rw [hfates]
    exact h
  | cons p rest =>
    have hfirst := h.served p (hi ▸ List.mem_cons_self)
    have hserved : ∀ q ∈ rest, (s.node.dispatch.get? q.header.kind).isSome = true := fun q hq =>
      h.served q (hi ▸ List.mem_cons_of_mem p hq)
    have hheld : ∀ q ∈ s.held, q = p ∨ q ∈ rest ∨ q ∈ s.suspended ∨ q ∈ s.jobs := fun q hq => by
      simpa only [held, hi, List.mem_append, List.mem_cons, or_assoc] using hq
    rcases work_fates h.reliable hi hfirst fresh now with hn | ⟨n', hn, hfate, hg⟩
    · -- the parcel goes from the inbox to the jobs
      rw [hn] at heq
      cases heq
      refine h.of_extends _ (.refl h.reliable) (fun q hq => Or.inl ?_) rfl hserved
      simp only [held, Work.job, List.mem_append, List.mem_cons, List.not_mem_nil, or_false]
      rcases hheld q hq with rfl | hq | hq | hq
      · exact Or.inr (Or.inr (Or.inl rfl))
      · exact Or.inl hq
      · exact Or.inr (Or.inl hq)
      · exact Or.inr (Or.inr (Or.inr hq))
    · rw [hn] at heq
      cases heq
      have hinbox : n.inbox = rest := by rw [hg.frame]
      have hdispatch : n.dispatch = s.node.dispatch := by rw [hg.frame]
      refine h.of_extends _ hg.log (fun q hq => ?_) rfl fun q hq => ?_
      · rcases hheld q hq with rfl | hq
        · exact Or.inr hfate
        · left
          simpa only [held, hinbox, Work.job, List.nil_append, List.mem_append] using hq
      · rw [hdispatch]
        exact hserved q (hinbox ▸ hq)

theorem Accounted.finishWork (h : s.Accounted) (p : Parcel) (x : Except Failure Decision) (now : Moment) :
    Accounted { s with
      node := s.node.finishWork p x now, jobs := s.jobs.erase p, fates := (p.id, .ofWork x) :: s.fates } := by
  refine h.of_grown (grown_finishWork h.reliable p x now) (.ofWork x) fun q hq => ?_
  rcases List.mem_append.mp hq with hq | hq
  · exact Or.inl (List.mem_append_left _ hq)
  · rcases mem_erase_or p hq with hq | rfl
    · exact Or.inl (List.mem_append_right _ hq)
    · exact Or.inr rfl

/-- A message that is held before a restart is held afterwards or is lost. -/
theorem Accounted.restart (h : s.Accounted) {n : Node} {suspended jobs gone : List Parcel} (hl : n.log.Reliable)
    (hrows : ∀ id, n.log.row? id = s.node.log.row? id) (hi : n.inbox = [])
    (hheld : s.held.Perm (gone ++ (suspended ++ jobs))) :
    Accounted ⟨n, suspended, jobs, gone.map (fun p => (p.id, .lost)) ++ s.fates⟩ := by
  refine h.next hl (fun id hid => Or.inl ?_) (fun p hp _ => ?_) (List.subset_append_right _ _) fun p hp => ?_
  · unfold Log.Has at hid
    rwa [hrows] at hid
  · rcases List.mem_append.mp (hheld.mem_iff.mp hp) with hgone | hkept
    · exact Or.inr ⟨.lost, List.mem_append_left _ (List.mem_map.mpr ⟨p, hgone, rfl⟩)⟩
    · exact Or.inl (List.mem_append_right _ hkept)
  · rw [hi] at hp
    cases hp

theorem Step.accounted (hstep : Step s t) (h : s.Accounted) : t.Accounted := by
  cases hstep with
  | settle i now heq => exact h.settle heq
  | suspend i now heq => exact h.suspend heq
  | resume hp x now heq => exact h.resume heq
  | work fresh now heq => exact h.work heq
  | finishWork hp x now => exact h.finishWork _ x now
  | produce o now => exact h.of_grown (grown_produce h.reliable o now) .produced fun p hp => Or.inl hp
  | depart lane now =>
    rw [depart_frame]
    exact ⟨h.reliable, h.rows, h.served⟩
  | land lane x now spread =>
    obtain ⟨l, hl, hhas, hn⟩ := land_eq h.reliable lane x now spread
    rw [hn]
    exact ⟨hl, fun id hid => h.rows id ((hhas id).mp hid), h.served⟩
  | @other n hl hi hd =>
    refine h.next (hl ▸ h.reliable) (fun id hid => Or.inl (hl ▸ hid)) (fun p hp _ => Or.inl ?_) (List.Subset.refl _)
      fun p hp => ?_
    · simpa only [held, hi] using hp
    · rw [hd]
      exact h.served p (hi ▸ hp)
  | restart hl hrows hi hheld => exact h.restart hl hrows hi hheld

theorem Reachable.accounted {n : Node} (h : Reachable n s) (hl : n.log.Reliable) (hnew : ∀ id, ¬ n.log.Has id)
    (hi : n.inbox = []) : s.Accounted := by
  induction h with
  | start => exact ⟨hl, fun id hid => absurd hid (hnew id), fun p hp => (by rw [hi] at hp; cases hp)⟩
  | next _ hstep ih => exact hstep.accounted ih

/-- A duplicate of a message that is for this node and not its own waits for a worker, is in the hands of a handler, or
was handled; or a worker has failed on it, or a restart has lost it. -/
theorem duplicate_accounted {n n' : Node} (h : Reachable n s) (hl : n.log.Reliable) (hnew : ∀ id, ¬ n.log.Has id)
    (hi : n.inbox = []) (i : Inbound) (now : Moment) (hdup : s.node.takeIn i now = (.settled (.ok .duplicate), n'))
    (hown : (i.header.id, .produced) ∉ s.fates) (hother : (i.header.id, .passed) ∉ s.fates) :
    (∃ p ∈ s.node.inbox, p.id = i.header.id) ∨ (∃ p ∈ s.suspended ++ s.jobs, p.id = i.header.id) ∨
      (i.header.id, .handled) ∈ s.fates ∨ (i.header.id, .failed) ∈ s.fates ∨ (i.header.id, .lost) ∈ s.fates := by
  have hinv := h.accounted hl hnew hi
  rcases hinv.rows _ (has_of_duplicate hinv.reliable hdup) with ⟨p, hp, hid⟩ | ⟨f, hf⟩
  · rcases List.mem_append.mp hp with hp | hp
    · exact Or.inl ⟨p, hp, hid⟩
    · exact Or.inr (Or.inl ⟨p, hp, hid⟩)
  · cases f with
    | handled => exact Or.inr (Or.inr (Or.inl hf))
    | failed => exact Or.inr (Or.inr (Or.inr (Or.inl hf)))
    | lost => exact Or.inr (Or.inr (Or.inr (Or.inr hf)))
    | passed => exact absurd hf hother
    | produced => exact absurd hf hown

/-- A message that a worker has handled is refused when it comes in again. -/
theorem duplicate_accounted_handled : ∃ s n',
    Reachable (knowing ⟨"i", "", "u"⟩ (.new "j" "" "v" .registered) "note" (.application false)) s ∧
      s.node.takeIn ⟨.new "1" "note" "v" .epoch, "v", [], none⟩ ⟨0, .epoch⟩ = (.settled (.ok .duplicate), n') ∧
      s.fates = [("1", .handled)] ∧
      ((∃ p ∈ s.node.inbox, p.id = "1") ∨ (∃ p ∈ s.suspended ++ s.jobs, p.id = "1") ∨
        ("1", .handled) ∈ s.fates ∨ ("1", .failed) ∈ s.fates ∨ ("1", .lost) ∈ s.fates) := by
  have queued : Reachable (knowing ⟨"i", "", "u"⟩ (.new "j" "" "v" .registered) "note" (.application false)) _ :=
    .next .start (.settle _ ⟨.new "1" "note" "v" .epoch, "v", [], none⟩ ⟨0, .epoch⟩ rfl)
  have taken := queued.next (.work _ "2" ⟨0, .epoch⟩ rfl)
  have done := taken.next (.finishWork _ List.mem_cons_self (.ok .none) ⟨0, .epoch⟩)
  refine ⟨_, _, done, rfl, rfl, ?_⟩
  exact duplicate_accounted done Log.reliable_inMemory (fun id hid => (by cases hid)) rfl
    ⟨.new "1" "note" "v" .epoch, "v", [], none⟩ ⟨0, .epoch⟩ rfl (by decide) (by decide)

/-- A message on which a worker has failed is refused when it comes in again, though nobody has handled it and nobody
is going to. -/
theorem duplicate_failed : ∃ s n',
    Reachable (knowing ⟨"i", "", "u"⟩ (.new "j" "" "v" .registered) "note" (.application false)) s ∧
      s.node.takeIn ⟨.new "1" "note" "v" .epoch, "v", [], none⟩ ⟨0, .epoch⟩ = (.settled (.ok .duplicate), n') ∧
      (Header.new "1" "note" "v" .epoch).addressedTo s.node.self.uri = true ∧ s.fates = [("1", .failed)] ∧
      s.held = [] := by
  have queued : Reachable (knowing ⟨"i", "", "u"⟩ (.new "j" "" "v" .registered) "note" (.application false)) _ :=
    .next .start (.settle _ ⟨.new "1" "note" "v" .epoch, "v", [], none⟩ ⟨0, .epoch⟩ rfl)
  have taken := queued.next (.work _ "2" ⟨0, .epoch⟩ rfl)
  have failed := taken.next (.finishWork _ List.mem_cons_self (.error .serialization) ⟨0, .epoch⟩)
  exact ⟨_, _, failed, rfl, rfl, rfl, rfl⟩

end Service

end ContentMesh.Node
