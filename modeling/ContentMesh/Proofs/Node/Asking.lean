import ContentMesh.Proofs.Node.Publishing
import ContentMesh.Proofs.Node.Upkeep
import ContentMesh.Proofs.Questions

/-!
# ContentMesh.Proofs.Node.Asking — who is waited for, and who was asked

A question waits for all that it is put to, but a copy is queued only for those of them that can be reached: what became
of the copies is not looked at (`Node.Asks`).  Where nobody is named the question is put to registered peers, and these
all get a copy as long as the senders work and the log does not fail; so do those that are named if they are registered
(`Life.asked_wait`).  Else the question waits for somebody who was not asked (`Life.waits_unasked`).
-/

namespace ContentMesh

/-- A question as it goes out, from here, to those that it is put to. -/
def Parcel.asking (p : Parcel) (receivers : List String) : Parcel :=
  { p with hop := none, header.receivers := receivers }

namespace Node

variable {n n' : Node} {p : Parcel} {m : Message} {ts : List String} {now : Moment} {receivers : Option (List String)}
  {uri : String}

/-! ## Copies, whatever the log does -/

theorem mem_reached : uri ∈ n.reached ts ↔
    uri ∈ ts ∧ n.outbox.closed = false ∧ (n.registry.registered? uri).isSome = true := by
  unfold reached
  split
  · rename_i hclosed
    simp [hclosed]
  · rename_i hopen
    rw [List.mem_filter, Bool.eq_false_iff.mpr hopen]
    simp

theorem reached_of_enqueue (h : n.enqueue p uri now = (.ok (), n')) : n.reached [uri] = [uri] := by
  have hopen : n.outbox.closed = false := by
    refine Bool.eq_false_iff.mpr fun hclosed => ?_
    have hrefused := (n.enqueue_shutdown p uri now).mpr hclosed
    rw [h] at hrefused
    cases hrefused
  obtain ⟨q, hq⟩ := registered_of_enqueue h
  exact reached_eq_self hopen (by simp [hq])

/-- `n'` is `n` after a parcel was logged and queued for some of the targets that can be reached, and for all of them if
the log never fails. -/
structure HandsOn (n : Node) (p : Parcel) (ts queued : List String) (now : Moment) (n' : Node) : Prop where
  frame : n' = { n with log := n'.log, outbox := n.outbox.enqueueEach queued p now.tick }
  among : queued.Sublist (n.reached ts)
  all : n.log.Reliable → queued = n.reached ts

theorem enqueueAll_some (n : Node) (p : Parcel) (now : Moment) (s : Summary) (ts : List String) :
    ∃ queued s' l, queued.Sublist (n.reached ts) ∧
      n.enqueueAll p now s ts = (s', { n with log := l, outbox := n.outbox.enqueueEach queued p now.tick }) := by
  induction ts generalizing n s with
  | nil => exact ⟨[], s, n.log, List.nil_sublist _, rfl⟩
  | cons t ts ih =>
    rw [reached_cons]
    rcases he : n.enqueue p t now with ⟨f | ⟨⟩, n'⟩
    · have hsame : n'.reached ts = n.reached ts := by
        rw [enqueue_error he]
        rfl
      obtain ⟨queued, s', l, hsub, heq⟩ := ih n' { s with failed := s.failed ++ [(t, f)] }
      rw [hsame] at hsub
      refine ⟨queued, s', l, hsub.trans (List.sublist_append_right _ _), ?_⟩
      rw [enqueueAll, he]
      dsimp only
      rw [heq, enqueue_error he]
    · have hsame : n'.reached ts = n.reached ts := by
        rw [enqueue_ok he]
        unfold reached
        rw [Outbox.closed_enqueue]
      obtain ⟨queued, s', l, hsub, heq⟩ := ih n' { s with queued := s.queued ++ [t] }
      rw [hsame] at hsub
      refine ⟨t :: queued, s', l, ?_, ?_⟩
      · rw [reached_of_enqueue he]
        exact hsub.cons_cons t
      · rw [enqueueAll, he]
        dsimp only
        rw [heq, enqueue_ok he, Outbox.enqueueEach_cons]

/-- Handing on fails before anything is queued, or reports what was queued. -/
theorem relayTo_cases (n : Node) (p : Parcel) (ts : List String) (now : Moment) :
    (∃ f l, n.relayTo p ts now = (.error f, { n with log := l })) ∨
      ∃ s queued n', n.relayTo p ts now = (.ok s, n') ∧ n.HandsOn p ts queued now n' := by
  by_cases hlog : n.log.Reliable
  · obtain ⟨s, l, -, -, heq⟩ := relayTo_eq hlog p ts now
    exact .inr ⟨s, n.reached ts, _, heq, rfl, List.Sublist.refl _, fun _ => rfl⟩
  · unfold relayTo
    simp only [onLog]
    cases (n.log.saveIfAbsent p.header .stored now.date).1 with
    | error f => exact .inl ⟨f, _, rfl⟩
    | ok b =>
      obtain ⟨queued, s, l, hsub, heq⟩ := enqueueAll_some
        { n with log := (n.log.saveIfAbsent p.header .stored now.date).2 } p now ⟨p.id, [], []⟩ ts
      refine .inr ⟨s, queued, { n with log := l, outbox := n.outbox.enqueueEach queued p now.tick }, ?_, rfl, hsub,
        fun h => absurd h hlog⟩
      dsimp only
      rw [heq]

/-! ## What asking may come to -/

/-- Whom a question is put to: those that are named, or all other peers if nobody is. -/
def asked (n : Node) : Option (List String) → List String
  | some (r :: rs) => r :: rs
  | _ => n.others

/-- The other peers that a question is put to are registered. -/
theorem registered_others (hnamed : n.registry.Named) (hu : uri ∈ n.others) :
    (n.registry.registered? uri).isSome = true := by
  obtain ⟨q, hq, rfl⟩ := List.mem_map.mp (List.mem_filter.mp hu).1
  obtain ⟨k, hk⟩ := Registry.mem_registered.mp hq
  have hk' : q.uri = k := hnamed k q (Registry.registered?_iff_status.mp hk).1
  rw [hk', hk]
  rfl

/-- All that asking may come to: the question cannot be read, there is nobody to ask, another question with its id
waits, the log fails, or it is sent. -/
inductive Asks (n : Node) (m : Message) (receivers : Option (List String)) (now : Moment) :
    Except Failure Nat × Node → Prop where
  | unreadable {f : Failure} (h : m.toParcel = .error f) : Asks n m receivers now (.error f, n)
  | nobody (h : n.asked receivers = []) :
      Asks n m receivers now (.ok n.questions.nextTicket, { n with questions := (n.questions.expect m.header.id []).2 })
  | waits (h : n.questions.pending.contains m.header.id = true) :
      Asks n m receivers now (.error (.invalid (.questionPending m.header.id)), n)
  | unsent (f : Failure) (l : Log) :
      Asks n m receivers now (.error f, { n with log := l, questions.nextTicket := n.questions.nextTicket + 1 })
  | sent {p : Parcel} {queued : List String} {n' : Node} (hp : m.toParcel = .ok p) (hr : n.asked receivers ≠ [])
      (hid : n.questions.pending.get? m.header.id = none)
      (h : HandsOn { n with questions := (n.questions.expect m.header.id (n.asked receivers)).2 }
        (p.asking (n.asked receivers)) (n.asked receivers) queued now n') :
      Asks n m receivers now (.ok n.questions.nextTicket, n')

theorem ask_of_parcel (hp : m.toParcel = .ok p) : n.ask m receivers now =
    match n.onQuestions fun q => q.expect p.id (n.asked receivers) with
    | (.error f, n) => (.error f, n)
    | (.ok ticket, n') =>
      if (n.asked receivers).isEmpty then (.ok ticket, n')
      else
        match n'.relayTo (p.asking (n.asked receivers)) (n.asked receivers) now with
        | (.ok _, n) => (.ok ticket, n)
        | (.error f, n) => (.error f, (n.onQuestions fun q => q.cancel p.id).2) := by
  unfold ask
  rw [hp]
  rcases receivers with _ | _ | ⟨r, rs⟩ <;> rfl

theorem asks (n : Node) (m : Message) (receivers : Option (List String)) (now : Moment) :
    n.Asks m receivers now (n.ask m receivers now) := by
  cases hp : m.toParcel with
  | error f =>
    have hask : n.ask m receivers now = (.error f, n) := by
      unfold ask
      rw [hp]
    exact hask ▸ .unreadable hp
  | ok p =>
    have hpid : p.id = m.header.id := id_toParcel hp
    rw [ask_of_parcel hp, hpid]
    by_cases hr : n.asked receivers = []
    · rw [hr]
      exact .nobody hr
    · cases hid : n.questions.pending.get? m.header.id with
      | some w =>
        have hwaits : n.questions.pending.contains m.header.id = true := by simp [Dict.contains, hid]
        simp only [onQuestions, Questions.expect_pending hr hwaits]
        exact .waits hwaits
      | none =>
        have hnew := Questions.expect_new hr hid
        simp only [onQuestions, hnew]
        rw [if_neg (by simpa using hr)]
        rcases relayTo_cases { n with questions := (n.questions.expect m.header.id (n.asked receivers)).2 }
          (p.asking (n.asked receivers)) (n.asked receivers) now with ⟨f, l, heq⟩ | ⟨s, queued, n', heq, hsent⟩
        · -- the entry is given up, and the table of waiting questions is what it was
          rw [hnew] at heq
          rw [heq]
          dsimp only [Questions.cancel]
          rw [Dict.erase_insert_new hid]
          exact .unsent f l
        · rw [hnew] at heq
          rw [heq]
          exact .sent hp hr hid hsent

/-- Each uri that a parcel was handed on to was a target and could be reached; each target that it was not handed on to
could not be reached, or the log failed. -/
theorem HandsOn.mem {queued : List String} (h : n.HandsOn p ts queued now n') :
    (∀ uri ∈ queued, uri ∈ ts ∧ n.outbox.closed = false ∧ (n.registry.registered? uri).isSome = true) ∧
      ∀ uri ∈ ts, uri ∈ queued ∨ n.outbox.closed = true ∨ n.registry.registered? uri = none ∨ ¬ n.log.Reliable := by
  refine ⟨fun uri hu => mem_reached.mp (h.among.subset hu), fun uri hu => ?_⟩
  by_cases hlog : n.log.Reliable
  · rw [h.all hlog, mem_reached]
    cases hclosed : n.outbox.closed with
    | true => exact .inr (.inl rfl)
    | false =>
      cases hq : n.registry.registered? uri with
      | none => exact .inr (.inr (.inl rfl))
      | some q => exact .inl ⟨hu, rfl, rfl⟩
  · exact .inr (.inr (.inr hlog))

namespace Life

/-- At any time of the life of a node, where asking fails the same questions wait as before.  Else there is nobody to
ask, and the question is answered at once; or it waits for each that it is put to, and goes into the lanes of those for
which it is queued, once for each time that they are named.  That is each of those it waits for, unless the senders have
stopped, the log fails, or it is not registered.  The peers to ask where nobody is named are all registered. -/
theorem asked_wait {settings : Settings} {self : Identity} {signer : Option Signer} {stores : Stores}
    {dispatch : Dict Handler} {n : Node} (hn : assemble settings self signer stores dispatch = .ok n)
    (es : List Event) (m : Message) (receivers : Option (List String)) (now : Moment) :
    let s := ((of n).after es).node
    let asked := s.asked receivers
    (∀ f s', s.ask m receivers now = (.error f, s') →
        s'.questions.pending = s.questions.pending ∧ s'.outbox = s.outbox) ∧
      (∀ ticket s', s.ask m receivers now = (.ok ticket, s') →
        (asked = [] ∧ s'.questions.standing ticket = .answered [] ∧
          s'.questions.pending = s.questions.pending ∧ s'.outbox = s.outbox) ∨
        ∃ (p : Parcel) (queued : List String), m.toParcel = .ok p ∧
          s'.questions.pending = s.questions.pending.insert m.header.id ⟨ticket, Questions.distinct asked, []⟩ ∧
          (∀ uri, (s'.outbox.laneFor uri).load =
            (s.outbox.laneFor uri).load ++ List.replicate (queued.count uri) (p.asking asked)) ∧
          (∀ uri ∈ queued, uri ∈ Questions.distinct asked ∧ s.outbox.closed = false ∧
            (s.registry.registered? uri).isSome = true) ∧
          ∀ uri ∈ Questions.distinct asked, uri ∈ queued ∨ s.outbox.closed = true ∨
            s.registry.registered? uri = none ∨ ¬ s.log.Reliable) ∧
      (receivers.getD [] = [] → ∀ uri ∈ asked, (s.registry.registered? uri).isSome = true) := by
  intro s asked
  have hasks := s.asks m receivers now
  refine ⟨fun f s' heq => ?_, fun ticket s' heq => ?_, fun hnone uri hu => ?_⟩
  · rw [heq] at hasks
    cases hasks with
    | unreadable h => exact ⟨rfl, rfl⟩
    | waits h => exact ⟨rfl, rfl⟩
    | unsent f l => exact ⟨rfl, rfl⟩
  · rw [heq] at hasks
    cases hasks with
    | nobody h =>
      refine .inl ⟨h, ?_, rfl, rfl⟩
      simp [Questions.expect_nil, Questions.standing]
    | @sent p queued _ hp hr hid h =>
      obtain ⟨hqueued, hasked⟩ := h.mem
      refine .inr ⟨p, queued, hp, ?_, fun uri => ?_, fun uri hu => ?_, fun uri hu => ?_⟩
      · rw [h.frame, Questions.expect_new hr hid]
      · rw [h.frame]
        exact Outbox.load_enqueueEach_count (Life.tidy hn es) queued _ now.tick uri
      · obtain ⟨hmem, hreached⟩ := hqueued uri hu
        exact ⟨Questions.mem_distinct.mpr hmem, hreached⟩
      · exact hasked uri (Questions.mem_distinct.mp hu)
  · refine registered_others (Life.named hn es) ?_
    rcases receivers with _ | _ | ⟨r, rs⟩
    · exact hu
    · exact hu
    · cases hnone

/-- A node with one registered peer puts a question to all: it waits for the peer, whose lane gets the question. -/
theorem asked_wait_peer : ∃ n : Node,
    assemble default ⟨"a-id", "a", "http://a"⟩ none
        ⟨(Store.inMemory.put "http://b" (.new "b-id" "b" "http://b" .registered)).2, .inMemory, .inMemory⟩ ∅ = .ok n ∧
      let s := ((of n).after [.starts]).node
      let question : Message := ⟨.new "q1" "question" "http://a" .epoch, none, .held []⟩
      s.running = true ∧ s.asked none = ["http://b"] ∧
        ∃ s' p, s.ask question none ⟨0, .epoch⟩ = (.ok 0, s') ∧ question.toParcel = .ok p ∧
          s'.questions.pending.get? "q1" = some ⟨0, ["http://b"], []⟩ ∧
          p.asking (s.asked none) ∈ (s'.outbox.laneFor "http://b").load := by
  let question : Message := ⟨.new "q1" "question" "http://a" .epoch, none, .held []⟩
  have hrun : ∃ n : Node, assemble default ⟨"a-id", "a", "http://a"⟩ none
      ⟨(Store.inMemory.put "http://b" (.new "b-id" "b" "http://b" .registered)).2, .inMemory, .inMemory⟩ ∅ = .ok n ∧
      let s := ((of n).after [.starts]).node
      s.running = true ∧ s.outbox.closed = false ∧ s.log = .inMemory ∧ s.asked none = ["http://b"] ∧
        ∃ s', s.ask question none ⟨0, .epoch⟩ = (.ok 0, s') ∧
          s'.questions.pending.get? "q1" = some ⟨0, ["http://b"], []⟩ :=
    ⟨_, rfl, rfl, rfl, rfl, by decide +kernel, _, rfl, by decide +kernel⟩
  obtain ⟨n, hn, hrunning, hopen, hlog, hasked, s', hask, hpending⟩ := hrun
  obtain ⟨-, hok, hregistered⟩ := asked_wait hn [.starts] question none ⟨0, .epoch⟩
  refine ⟨n, hn, hrunning, hasked, s', _, hask, rfl, hpending, ?_⟩
  rw [hasked] at hok hregistered
  rcases hok 0 s' hask with ⟨hnobody, -⟩ | ⟨p, queued, hp, -, hlanes, -, hall⟩
  · cases hnobody
  · cases hp
    have hqueued : "http://b" ∈ queued := by
      rcases hall "http://b" (by decide) with hqueued | hclosed | hunknown | hfails
      · exact hqueued
      · rw [hopen] at hclosed
        cases hclosed
      · have hsome := hregistered rfl "http://b" (by decide)
        rw [hunknown] at hsome
        cases hsome
      · exact absurd (hlog ▸ Log.reliable_inMemory) hfails
    rw [hasked, hlanes, List.mem_append, List.mem_replicate]
    exact .inr ⟨Nat.ne_of_gt (List.count_pos_iff.mpr hqueued), rfl⟩

/-- A running node without peers puts a question to somebody: the question waits, but no lane has it. -/
theorem waits_unasked : ∃ n : Node,
    assemble default ⟨"a-id", "a", "http://a"⟩ none .inMemory ∅ = .ok n ∧
      let s := ((of n).after [.starts]).node
      let question : Message := ⟨.new "q1" "question" "http://a" .epoch, none, .held []⟩
      s.running = true ∧ ∃ s', s.ask question (some ["http://b"]) ⟨0, .epoch⟩ = (.ok 0, s') ∧
        s'.questions.standing 0 = .waiting ∧ s'.questions.pending.get? "q1" = some ⟨0, ["http://b"], []⟩ ∧
        ∀ i, (s'.outbox.lane i).load = [] := by
  refine ⟨_, rfl, rfl, _, rfl, by decide +kernel, by decide +kernel, fun i => ?_⟩
  rw [Outbox.lane_of_size_le (Nat.zero_le i)]
  rfl

end Life

end Node

end ContentMesh
