import Mathlib.Data.List.Induction
import ContentMesh.Proofs.Peer.Registered
import ContentMesh.Questions

/-!
# ContentMesh.Proofs.Questions — every question gets its answers, once

Questions are put, answered and given up in any order, and answers come twice, late, from strangers and to questions
that nobody put.  A question that waits has the answers of some of those it was put to and waits for the others
(`Waits`), and so it goes on until the last of these answers, or until the question is given up; then it is over for
good (`Settled`).  What became of a question is its `Fate`, and `answers_correlate` says that there is no other.
-/

namespace ContentMesh

/-- A message that answers a question. -/
structure Message.Answers (m : Message) (id : String) (a : Answer) : Prop where
  question : m.header.metadata.first? Questions.key = some id
  source : a.source = m.header.source
  header : a.header = m.header
  body : m.payload.take.1 = .ok a.body

namespace Questions

/-! ## Lists with each text once -/

/-- The fold that makes a list distinct keeps what it has, and adds what it meets. -/
theorem foldl_distinct (names ds : List String) (hds : ds.Nodup) :
    (names.foldl (fun ds u => if ds.contains u then ds else ds ++ [u]) ds).Nodup ∧
      ∀ name, name ∈ names.foldl (fun ds u => if ds.contains u then ds else ds ++ [u]) ds ↔ name ∈ ds ∨ name ∈ names := by
  induction names generalizing ds with
  | nil => exact ⟨hds, fun name => by simp⟩
  | cons u names ih =>
    rw [List.foldl_cons]
    by_cases hu : u ∈ ds
    · obtain ⟨hnodup, hmem⟩ := ih ds hds
      rw [if_pos (List.contains_iff_mem.mpr hu)]
      refine ⟨hnodup, fun name => (hmem name).trans ?_⟩
      rw [List.mem_cons]
      constructor
      · exact Or.imp_right .inr
      · rintro (h | rfl | h)
        · exact .inl h
        · exact .inl hu
        · exact .inr h
    · have hnodup : (ds ++ [u]).Nodup := List.nodup_append.mpr ⟨hds, List.pairwise_singleton _ u, fun d hd e he h =>
        hu (List.mem_singleton.mp he ▸ h ▸ hd)⟩
      obtain ⟨hfold, hmem⟩ := ih (ds ++ [u]) hnodup
      rw [if_neg (mt List.contains_iff_mem.mp hu)]
      refine ⟨hfold, fun name => (hmem name).trans ?_⟩
      rw [List.mem_append, List.mem_singleton, List.mem_cons, or_assoc]

theorem nodup_distinct (names : List String) : (distinct names).Nodup := (foldl_distinct names [] .nil).1

theorem mem_distinct {name : String} {names : List String} : name ∈ distinct names ↔ name ∈ names :=
  ((foldl_distinct names [] .nil).2 name).trans (by simp)

variable {q q' : Questions} {id id' : String} {receivers owing : List String} {m : Message} {a : Answer} {p : Pending}
  {as : List Answer} {t : Nat} {outcome : Option (List Answer)}

/-! ## Runs -/

/-- What may happen to questions. -/
inductive Event where
  | expects (id : String) (receivers : List String)
  | receives (m : Message)
  | cancels (id : String)

/-- What an event makes of questions. -/
def step (q : Questions) : Event → Questions
  | .expects id receivers => (q.expect id receivers).2
  | .receives m => (q.receive m).2
  | .cancels id => (q.cancel id).2

/-- Questions after events. -/
def run (q : Questions) (es : List Event) : Questions := es.foldl step q

theorem run_append (q : Questions) (es es' : List Event) : q.run (es ++ es') = (q.run es).run es' :=
  List.foldl_append

theorem run_split (q : Questions) (es es' : List Event) (e : Event) :
    q.run (es ++ e :: es') = (q.run (es ++ [e])).run es' := by
  rw [← run_append, List.append_assoc]
  rfl

theorem run_concat (q : Questions) (es : List Event) (e : Event) : q.run (es ++ [e]) = (q.run es).step e :=
  run_append q es [e]

/-- The answer to a question that an event brings, if it is taken. -/
def taken? (q : Questions) (id : String) : Event → Option Answer
  | .receives m =>
    match m.header.metadata.first? key, (q.receive m).1, m.payload.take.1 with
    | some id', .ok _, .ok body => if id' = id then some ⟨m.header.source, m.header, body⟩ else none
    | _, _, _ => none
  | _ => none

/-- The answers to a question that are taken in a run, in the order in which they arrive. -/
def collected (id : String) (q : Questions) : List Event → List Answer
  | [] => []
  | e :: es => (q.taken? id e).toList ++ collected id (q.step e) es

theorem collected_concat (id : String) (q : Questions) (es : List Event) (e : Event) :
    collected id q (es ++ [e]) = collected id q es ++ ((q.run es).taken? id e).toList := by
  induction es generalizing q with
  | nil => simp [collected, run]
  | cons x es ih =>
    rw [List.cons_append, collected, collected, ih, List.append_assoc]
    rfl

/-! ## What an event does -/

/-- Why a message is refused. -/
inductive Refuses (q : Questions) (m : Message) : Failure → Prop where
  | noQuestion (h : m.header.metadata.first? key = none) : Refuses q m (.invalid .noQuestionId)
  | unknown (id : String) (h : m.header.metadata.first? key = some id) (hp : q.pending.get? id = none) :
      Refuses q m (.invalid (.unknownQuestion id))
  | unexpected (id : String) (p : Pending) (h : m.header.metadata.first? key = some id)
      (hp : q.pending.get? id = some p) (hs : m.header.source ∉ p.outstanding) :
      Refuses q m (.invalid (.unexpectedAnswer m.header.source id))
  | unreadable (id : String) (p : Pending) (f : Failure) (h : m.header.metadata.first? key = some id)
      (hp : q.pending.get? id = some p) (hs : m.header.source ∈ p.outstanding) (hb : m.payload.take.1 = .error f) :
      Refuses q m f

/-- A message answers a question that waits for it. -/
structure Takes (q : Questions) (m : Message) (id : String) (p : Pending) (a : Answer) : Prop where
  answers : m.Answers id a
  pending : q.pending.get? id = some p
  owed : m.header.source ∈ p.outstanding

theorem taken?_of_takes (h : q.Takes m id p a) (hok : (q.receive m).1 = .ok ()) (id' : String) :
    q.taken? id' (.receives m) = if id = id' then some a else none := by
  have ha : (⟨m.header.source, m.header, a.body⟩ : Answer) = a := by
    rw [← h.answers.source, ← h.answers.header]
  simp only [taken?, h.answers.question, hok, h.answers.body, ha]

/-- A message is refused, and nothing changes, or its answer is taken, and maybe was the last. -/
theorem receive_cases (q : Questions) (m : Message) :
    (∃ f, q.Refuses m f ∧ q.receive m = (.error f, q)) ∨
      ∃ id p a, q.Takes m id p a ∧
        (p.outstanding.filter (· != m.header.source) ≠ [] ∧
            q.receive m = (.ok (), { q with
              pending := q.pending.insert id
                ⟨p.ticket, p.outstanding.filter (· != m.header.source), p.answers ++ [a]⟩ }) ∨
          p.outstanding.filter (· != m.header.source) = [] ∧
            q.receive m = (.ok (), { q with
              pending := q.pending.erase id
              completed := (p.ticket, p.answers ++ [a]) :: q.completed })) := by
  unfold receive
  cases hid : m.header.metadata.first? key with
  | none => exact .inl ⟨_, .noQuestion hid, rfl⟩
  | some id =>
    dsimp only
    cases hp : q.pending.get? id with
    | none => exact .inl ⟨_, .unknown id hid hp, rfl⟩
    | some p =>
      dsimp only
      by_cases hs : m.header.source ∈ p.outstanding
      · rw [if_neg (by simp [hs])]
        cases hb : m.payload.take.1 with
        | error f => exact .inl ⟨f, .unreadable id p f hid hp hs hb, rfl⟩
        | ok body =>
          refine .inr ⟨id, p, ⟨m.header.source, m.header, body⟩, ⟨⟨hid, rfl, rfl, hb⟩, hp, hs⟩, ?_⟩
          dsimp only
          by_cases hlast : p.outstanding.filter (· != m.header.source) = []
          · rw [hlast]
            exact .inr ⟨rfl, rfl⟩
          · rw [if_neg (by simpa using hlast)]
            exact .inl ⟨hlast, rfl⟩
      · rw [if_pos (by simp [hs])]
        exact .inl ⟨_, .unexpected id p hid hp hs, rfl⟩

theorem expect_nil (q : Questions) (id : String) :
    q.expect id [] = (.ok q.nextTicket, { q with
      completed := (q.nextTicket, []) :: q.completed
      nextTicket := q.nextTicket + 1 }) := rfl

theorem expect_pending (hr : receivers ≠ []) (hp : q.pending.contains id = true) :
    q.expect id receivers = (.error (.invalid (.questionPending id)), q) := by
  unfold expect
  dsimp only
  rw [if_neg (by simp [hr]), if_pos hp]

theorem expect_new (hr : receivers ≠ []) (hp : q.pending.get? id = none) :
    q.expect id receivers = (.ok q.nextTicket, { q with
      pending := q.pending.insert id ⟨q.nextTicket, distinct receivers, []⟩
      nextTicket := q.nextTicket + 1 }) := by
  unfold expect
  dsimp only
  rw [if_neg (by simp [hr]), if_neg (by simp [Dict.contains, hp])]

theorem expect_refused {f : Failure} (hf : (q.expect id receivers).1 = .error f) : (q.expect id receivers).2 = q := by
  by_cases hr : receivers = []
  · rw [hr, expect_nil] at hf
    cases hf
  · cases hp : q.pending.get? id with
    | none =>
      rw [expect_new hr hp] at hf
      cases hf
    | some p => rw [expect_pending hr (by simp [Dict.contains, hp])]

theorem receive_refused {f : Failure} (hf : (q.receive m).1 = .error f) : q.Refuses m f ∧ (q.receive m).2 = q := by
  rcases q.receive_cases m with ⟨f', hrefuses, heq⟩ | ⟨id, p, a, -, ⟨-, heq⟩ | ⟨-, heq⟩⟩
  · rw [heq] at hf ⊢
    obtain rfl := Except.error.inj hf
    exact ⟨hrefuses, rfl⟩
  · rw [heq] at hf
    cases hf
  · rw [heq] at hf
    cases hf

/-- All that an event may do to questions. -/
inductive Moves (q : Questions) : Event → Questions → Prop where
  | stays {e : Event} (htaken : ∀ id, q.taken? id e = none) (hcancel : ∀ id, e ≠ .cancels id) : Moves q e q
  | resolves (id : String) :
      Moves q (.expects id []) { q with
        completed := (q.nextTicket, []) :: q.completed
        nextTicket := q.nextTicket + 1 }
  | opens {id : String} {receivers : List String} (hr : receivers ≠ []) (hid : q.pending.get? id = none) :
      Moves q (.expects id receivers) { q with
        pending := q.pending.insert id ⟨q.nextTicket, distinct receivers, []⟩
        nextTicket := q.nextTicket + 1 }
  | collects {m : Message} {id : String} {p : Pending} {a : Answer} (h : q.Takes m id p a)
      (htaken : ∀ id', q.taken? id' (.receives m) = if id = id' then some a else none)
      (hmore : p.outstanding.filter (· != m.header.source) ≠ []) :
      Moves q (.receives m) { q with
        pending := q.pending.insert id ⟨p.ticket, p.outstanding.filter (· != m.header.source), p.answers ++ [a]⟩ }
  | completes {m : Message} {id : String} {p : Pending} {a : Answer} (h : q.Takes m id p a)
      (htaken : ∀ id', q.taken? id' (.receives m) = if id = id' then some a else none)
      (hlast : p.outstanding.filter (· != m.header.source) = []) :
      Moves q (.receives m) { q with
        pending := q.pending.erase id
        completed := (p.ticket, p.answers ++ [a]) :: q.completed }
  | drops (id : String) : Moves q (.cancels id) { q with pending := q.pending.erase id }

theorem moves_step (q : Questions) (e : Event) : q.Moves e (q.step e) := by
  cases e with
  | expects id receivers =>
    by_cases hr : receivers = []
    · rw [hr]
      exact .resolves id
    · cases hp : q.pending.get? id with
      | none =>
        rw [step, expect_new hr hp]
        exact .opens hr hp
      | some p =>
        rw [step, expect_pending hr (by simp [Dict.contains, hp])]
        exact .stays (fun _ => rfl) (by simp)
  | receives m =>
    rcases q.receive_cases m with ⟨f, -, heq⟩ | ⟨id, p, a, h, ⟨hmore, heq⟩ | ⟨hlast, heq⟩⟩
    · rw [step, heq]
      refine .stays (fun id => ?_) (by simp)
      simp only [taken?, heq]
      cases m.header.metadata.first? key <;> rfl
    · have htaken := taken?_of_takes h (by rw [heq])
      rw [step, heq]
      exact .collects h htaken hmore
    · have htaken := taken?_of_takes h (by rw [heq])
      rw [step, heq]
      exact .completes h htaken hlast
  | cancels id => exact .drops id

/-! ## Tickets -/

theorem lookup_completed (t k : Nat) (as : List Answer) (cs : List (Nat × List Answer)) :
    ((t, as) :: cs).lookup k = if k = t then some as else cs.lookup k := by
  by_cases h : k = t
  · rw [if_pos h, h, List.lookup_cons_self]
  · rw [if_neg h, List.lookup_cons, beq_false_of_ne h]

/-- The ticket under which a question waits. -/
def ticket? (q : Questions) (id : String) : Option Nat := (q.pending.get? id).map (·.ticket)

theorem ticket?_insert (q : Questions) (id id' : String) (p : Pending) (cs : List (Nat × List Answer)) (n : Nat) :
    ticket? ⟨q.pending.insert id p, cs, n⟩ id' = if id' = id then some p.ticket else q.ticket? id' := by
  unfold ticket?
  rw [Dict.get?_insert]
  split <;> rfl

theorem ticket?_erase (q : Questions) (id id' : String) (cs : List (Nat × List Answer)) (n : Nat) :
    ticket? ⟨q.pending.erase id, cs, n⟩ id' = if id' = id then none else q.ticket? id' := by
  unfold ticket?
  rw [Dict.get?_erase]
  split <;> rfl

theorem Takes.ticket? (h : q.Takes m id p a) : q.ticket? id = some p.ticket :=
  congrArg (Option.map Pending.ticket) h.pending

/-- An answer that is not the last one leaves the ticket as it was. -/
theorem Takes.ticket?_insert (h : q.Takes m id p a) (owing : List String) (as : List Answer) (id' : String) :
    Questions.ticket? { q with pending := q.pending.insert id ⟨p.ticket, owing, as⟩ } id' = q.ticket? id' := by
  rw [Questions.ticket?_insert]
  by_cases hi : id' = id
  · rw [if_pos hi, hi, h.ticket?]
  · rw [if_neg hi]

/-- Every ticket is given out once, and waits or is completed. -/
structure Tidy (q : Questions) : Prop where
  waiting_lt : ∀ id t, q.ticket? id = some t → t < q.nextTicket
  completed_lt : ∀ t as, q.completed.lookup t = some as → t < q.nextTicket
  apart : ∀ id t, q.ticket? id = some t → q.completed.lookup t = none
  unique : ∀ id id' t, q.ticket? id = some t → q.ticket? id' = some t → id = id'

/-- A ticket that waits no more, and what it was completed with. -/
structure Settled (q : Questions) (t : Nat) (outcome : Option (List Answer)) : Prop where
  lt : t < q.nextTicket
  ended : ∀ id, q.ticket? id ≠ some t
  outcome : q.completed.lookup t = outcome

theorem tidy_initial : initial.Tidy where
  waiting_lt := nofun
  completed_lt := nofun
  apart := nofun
  unique := nofun

/-- Questions that wait under the tickets they had, or wait no more. -/
theorem Tidy.fewer (h : q.Tidy) (hsub : ∀ id t, q'.ticket? id = some t → q.ticket? id = some t)
    (hcompleted : q'.completed = q.completed) (hnext : q'.nextTicket = q.nextTicket) : q'.Tidy := by
  refine ⟨?_, ?_, ?_, ?_⟩
  · intro id t hid
    rw [hnext]
    exact h.waiting_lt id t (hsub id t hid)
  · rw [hcompleted, hnext]
    exact h.completed_lt
  · intro id t hid
    rw [hcompleted]
    exact h.apart id t (hsub id t hid)
  · intro id id' t hid hid'
    exact h.unique id id' t (hsub id t hid) (hsub id' t hid')

/-- A ticket that does not wait is completed. -/
theorem Tidy.complete (h : q.Tidy) (ht : t < q.nextTicket) (hover : ∀ id, q.ticket? id ≠ some t) (as : List Answer) :
    Tidy { q with completed := (t, as) :: q.completed } := by
  refine ⟨h.waiting_lt, ?_, ?_, h.unique⟩
  · intro k bs hk
    rw [lookup_completed] at hk
    by_cases hkt : k = t
    · rw [hkt]
      exact ht
    · rw [if_neg hkt] at hk
      exact h.completed_lt k bs hk
  · intro id k hid
    have hk : k ≠ t := by
      rintro rfl
      exact hover id hid
    rw [lookup_completed, if_neg hk]
    exact h.apart id k hid

/-- The next ticket is given out. -/
theorem Tidy.advance (h : q.Tidy) : Tidy { q with nextTicket := q.nextTicket + 1 } :=
  ⟨fun id t hid => Nat.lt_succ_of_lt (h.waiting_lt id t hid), fun t as ht => Nat.lt_succ_of_lt (h.completed_lt t as ht),
    h.apart, h.unique⟩

theorem Tidy.fresh (h : q.Tidy) (id : String) : q.ticket? id ≠ some q.nextTicket := fun hid =>
  Nat.lt_irrefl _ (h.waiting_lt id _ hid)

theorem Tidy.completed_fresh (h : q.Tidy) : q.completed.lookup q.nextTicket = none := by
  cases hc : q.completed.lookup q.nextTicket with
  | none => rfl
  | some as => exact absurd (h.completed_lt _ as hc) (Nat.lt_irrefl _)

theorem Tidy.open (h : q.Tidy) (id : String) (owing : List String) :
    Tidy { q with pending := q.pending.insert id ⟨q.nextTicket, owing, []⟩, nextTicket := q.nextTicket + 1 } := by
  -- whatever waits is the new question under the new ticket, or one that waited
  have hcases : ∀ id' t, (if id' = id then some q.nextTicket else q.ticket? id') = some t →
      id' = id ∧ t = q.nextTicket ∨ q.ticket? id' = some t ∧ t < q.nextTicket := by
    intro id' t hid
    by_cases hi : id' = id
    · rw [if_pos hi] at hid
      exact .inl ⟨hi, (Option.some.inj hid).symm⟩
    · rw [if_neg hi] at hid
      exact .inr ⟨hid, h.waiting_lt id' t hid⟩
  refine ⟨?_, h.advance.completed_lt, ?_, ?_⟩
  · intro id' t hid
    rw [ticket?_insert] at hid
    show t < q.nextTicket + 1
    rcases hcases id' t hid with ⟨-, ht⟩ | ⟨-, ht⟩ <;> omega
  · intro id' t hid
    rw [ticket?_insert] at hid
    rcases hcases id' t hid with ⟨-, rfl⟩ | ⟨hwaits, -⟩
    · exact h.completed_fresh
    · exact h.apart id' t hwaits
  · intro id' id'' t hid hid'
    rw [ticket?_insert] at hid hid'
    rcases hcases id' t hid with ⟨hi, ht⟩ | ⟨hwaits, hlt⟩ <;>
      rcases hcases id'' t hid' with ⟨hi', ht'⟩ | ⟨hwaits', hlt'⟩
    · rw [hi, hi']
    · omega
    · omega
    · exact h.unique id' id'' t hwaits hwaits'

/-- Whatever waits after a question has left did so before, under another id. -/
theorem ticket?_left {cs : List (Nat × List Answer)} {n : Nat} (h : ticket? ⟨q.pending.erase id, cs, n⟩ id' = some t) :
    id' ≠ id ∧ q.ticket? id' = some t := by
  rw [ticket?_erase] at h
  by_cases hi : id' = id
  · rw [if_pos hi] at h
    cases h
  · rw [if_neg hi] at h
    exact ⟨hi, h⟩

theorem Tidy.leave (h : q.Tidy) (id : String) : Tidy { q with pending := q.pending.erase id } :=
  h.fewer (fun _ _ hid => (ticket?_left hid).2) rfl rfl

/-- The ticket of a question that has left waits no more. -/
theorem Tidy.ended (h : q.Tidy) (hid : q.ticket? id = some t) (cs : List (Nat × List Answer)) (n : Nat) (id' : String) :
    ticket? ⟨q.pending.erase id, cs, n⟩ id' ≠ some t := by
  intro hid'
  obtain ⟨hne, hwaits⟩ := ticket?_left hid'
  exact hne (h.unique id' id t hwaits hid)

theorem Moves.tidy {e : Event} (hm : q.Moves e q') (h : q.Tidy) : q'.Tidy := by
  cases hm with
  | stays => exact h
  | resolves id => exact h.advance.complete (Nat.lt_succ_self _) h.fresh []
  | opens hr hid => exact h.open _ _
  | collects htakes htaken hmore =>
    refine h.fewer (fun id t hid => ?_) rfl rfl
    rwa [htakes.ticket?_insert] at hid
  | completes htakes htaken hlast =>
    exact (h.leave _).complete (h.waiting_lt _ _ htakes.ticket?) (h.ended htakes.ticket? _ _) _
  | drops id => exact h.leave id

theorem Tidy.run (h : q.Tidy) (es : List Event) : (q.run es).Tidy := by
  induction es generalizing q with
  | nil => exact h
  | cons e es ih => exact ih ((q.moves_step e).tidy h)

/-- What is over stays over. -/
theorem Moves.settled {e : Event} (hm : q.Moves e q') (h : q.Settled t outcome) : q'.Settled t outcome := by
  have hnext : t ≠ q.nextTicket := Nat.ne_of_lt h.lt
  cases hm with
  | stays => exact h
  | resolves id =>
    refine ⟨Nat.lt_succ_of_lt h.lt, h.ended, ?_⟩
    rw [lookup_completed, if_neg hnext]
    exact h.outcome
  | @opens id receivers hr hid =>
    refine ⟨Nat.lt_succ_of_lt h.lt, fun id' hid' => ?_, h.outcome⟩
    rw [ticket?_insert] at hid'
    by_cases hi : id' = id
    · rw [if_pos hi] at hid'
      exact hnext (Option.some.inj hid').symm
    · rw [if_neg hi] at hid'
      exact h.ended id' hid'
  | collects htakes htaken hmore =>
    refine ⟨h.lt, fun id hid => ?_, h.outcome⟩
    rw [htakes.ticket?_insert] at hid
    exact h.ended id hid
  | @completes m id p a htakes htaken hlast =>
    have ht : t ≠ p.ticket := fun ht => h.ended id (ht ▸ htakes.ticket?)
    refine ⟨h.lt, fun id' hid => h.ended id' (ticket?_left hid).2, ?_⟩
    rw [lookup_completed, if_neg ht]
    exact h.outcome
  | drops id => exact ⟨h.lt, fun id' hid => h.ended id' (ticket?_left hid).2, h.outcome⟩

theorem Settled.run (h : q.Settled t outcome) (es : List Event) : (q.run es).Settled t outcome := by
  induction es generalizing q with
  | nil => exact h
  | cons e es ih => exact ih ((q.moves_step e).settled h)

/-! ### How a ticket stands -/

theorem any_ticket (q : Questions) (t : Nat) :
    q.pending.values.any (·.ticket == t) = true ↔ ∃ id, q.ticket? id = some t := by
  rw [List.any_eq_true]
  constructor
  · rintro ⟨p, hp, ht⟩
    obtain ⟨id, hid⟩ := Dict.mem_values.mp hp
    refine ⟨id, ?_⟩
    rw [ticket?, hid, ← eq_of_beq ht]
    rfl
  · rintro ⟨id, hid⟩
    obtain ⟨p, hp, ht⟩ := Option.map_eq_some_iff.mp hid
    exact ⟨p, Dict.mem_values.mpr ⟨id, hp⟩, beq_iff_eq.mpr ht⟩

theorem Settled.answered (h : q.Settled t (some as)) : q.standing t = .answered as := by
  rw [standing, h.outcome]

theorem Settled.givenUp (h : q.Settled t none) : q.standing t = .givenUp := by
  rw [standing, h.outcome]
  refine if_neg fun hany => ?_
  obtain ⟨id, hid⟩ := (q.any_ticket t).mp hany
  exact h.ended id hid

theorem Tidy.standing (h : q.Tidy) (hid : q.ticket? id = some t) : q.standing t = .waiting := by
  rw [Questions.standing, h.apart id t hid]
  exact if_pos ((q.any_ticket t).mpr ⟨id, hid⟩)

/-! ## Who has answered -/

/-- Those that a question was put to are those that have answered, each once, and those that owe an answer. -/
structure Shares (receivers : List String) (as : List Answer) (owing : List String) : Prop where
  nodup : (as.map Answer.source ++ owing).Nodup
  covers : ∀ uri, uri ∈ receivers ↔ uri ∈ as.map Answer.source ∨ uri ∈ owing

theorem shares_start (receivers : List String) : Shares receivers [] (distinct receivers) :=
  ⟨nodup_distinct receivers, fun uri => by simp [mem_distinct]⟩

theorem Shares.answer (h : Shares receivers as owing) (hs : a.source ∈ owing) :
    Shares receivers (as ++ [a]) (owing.filter (· != a.source)) := by
  obtain ⟨has, howing, hapart⟩ := List.nodup_append.mp h.nodup
  refine ⟨?_, fun uri => ?_⟩
  · rw [List.map_append, List.append_assoc]
    refine List.nodup_append.mpr ⟨has, ?_, ?_⟩
    · exact List.nodup_cons.mpr ⟨by simp, howing.filter _⟩
    · intro s hs' u hu
      rcases List.mem_cons.mp hu with rfl | hu
      · exact hapart s hs' _ hs
      · exact hapart s hs' u (List.mem_filter.mp hu).1
  · rw [h.covers uri]
    by_cases hu : uri = a.source
    · simp [hu, hs]
    · simp [hu]

/-- Who gives the last answer was the only one to owe one. -/
theorem Shares.last (h : Shares receivers as owing) (hs : a.source ∈ owing)
    (hlast : owing.filter (· != a.source) = []) : owing = [a.source] := by
  obtain ⟨-, howing, -⟩ := List.nodup_append.mp h.nodup
  have hall : ∀ u ∈ owing, u = a.source := by
    intro u hu
    simpa using List.filter_eq_nil_iff.mp hlast u hu
  have hlength : 0 < owing.length := List.length_pos_of_mem hs
  rw [List.eq_replicate_of_mem hall, List.nodup_replicate] at howing
  rw [List.eq_replicate_of_mem hall, Nat.le_antisymm howing hlength]
  rfl

/-- A question that was put to `receivers` waits: it has the answers `as`, and `owing` owe one. -/
structure Waits (q : Questions) (id : String) (t : Nat) (receivers : List String) (as : List Answer)
    (owing : List String) : Prop where
  pending : q.pending.get? id = some ⟨t, owing, as⟩
  standing : q.standing t = .waiting
  some_owe : owing ≠ []
  shares : Shares receivers as owing

theorem Tidy.waits (hq : q.Tidy) (hp : q.pending.get? id = some ⟨t, owing, as⟩) (ho : owing ≠ [])
    (hs : Shares receivers as owing) : q.Waits id t receivers as owing :=
  ⟨hp, hq.standing (congrArg (Option.map Pending.ticket) hp), ho, hs⟩

/-- A question waits for everybody it is put to. -/
theorem waits_start (hq : q.Tidy) (hr : receivers ≠ []) (hok : (q.expect id receivers).1 = .ok t) :
    (q.step (.expects id receivers)).Waits id t receivers [] (distinct receivers) := by
  have htidy := (q.moves_step (.expects id receivers)).tidy hq
  cases hid : q.pending.get? id with
  | some p =>
    rw [expect_pending hr (by simp [Dict.contains, hid])] at hok
    cases hok
  | none =>
    rw [expect_new hr hid] at hok
    rw [step, expect_new hr hid] at htidy ⊢
    obtain rfl := Except.ok.inj hok
    refine htidy.waits ?_ ?_ (shares_start receivers)
    · rw [Dict.get?_insert, if_pos rfl]
    · obtain ⟨uri, huri⟩ := List.exists_mem_of_ne_nil receivers hr
      exact List.ne_nil_of_mem (mem_distinct.mpr huri)

/-- An event that is about other questions. -/
theorem Waits.kept {e : Event} (h : q.Waits id t receivers as owing) (hq' : q'.Tidy)
    (hp : q'.pending.get? id = q.pending.get? id) (htaken : q.taken? id e = none) :
    ∃ owing', q'.Waits id t receivers (as ++ (q.taken? id e).toList) owing' := by
  rw [htaken, Option.toList_none, List.append_nil]
  exact ⟨owing, hq'.waits (hp.trans h.pending) h.some_owe h.shares⟩

/-- A question that waits does so after an event too, maybe with one more answer, or the event is its last answer, or
that it is given up. -/
theorem Waits.step (hq : q.Tidy) (h : q.Waits id t receivers as owing) (e : Event) :
    (e ≠ .cancels id ∧ ∃ owing', (q.step e).Waits id t receivers (as ++ (q.taken? id e).toList) owing') ∨
      (∃ m a, e = .receives m ∧ m.Answers id a ∧ owing = [m.header.source] ∧ Shares receivers (as ++ [a]) [] ∧
        (q.step e).Settled t (some (as ++ [a]))) ∨
      e = .cancels id ∧ (q.step e).Settled t none := by
  have hm := q.moves_step e
  have hq' := hm.tidy hq
  have hticket : q.ticket? id = some t := congrArg (Option.map Pending.ticket) h.pending
  have hlt : t < q.nextTicket := hq.waiting_lt id t hticket
  generalize q.step e = q' at hm hq' ⊢
  cases hm with
  | stays htaken hcancel => exact .inl ⟨hcancel id, h.kept hq' rfl (htaken id)⟩
  | resolves id' => exact .inl ⟨by simp, h.kept hq' rfl rfl⟩
  | @opens id' receivers' hr hid =>
    have hne : id ≠ id' := by
      rintro rfl
      rw [h.pending] at hid
      cases hid
    refine .inl ⟨by simp, h.kept hq' ?_ rfl⟩
    rw [Dict.get?_insert, if_neg hne]
  | @collects m id' p a htakes htaken hmore =>
    refine .inl ⟨by simp, ?_⟩
    by_cases hi : id' = id
    · obtain rfl := hi
      obtain rfl := Option.some.inj (h.pending.symm.trans htakes.pending)
      have hshares := h.shares.answer (htakes.answers.source ▸ htakes.owed)
      rw [htakes.answers.source] at hshares
      rw [htaken, if_pos rfl]
      refine ⟨_, hq'.waits ?_ hmore hshares⟩
      rw [Dict.get?_insert, if_pos rfl]
      rfl
    · refine h.kept hq' ?_ (by rw [htaken, if_neg hi])
      rw [Dict.get?_insert, if_neg (Ne.symm hi)]
  | @completes m id' p a htakes htaken hlast =>
    by_cases hi : id' = id
    · obtain rfl := hi
      obtain rfl := Option.some.inj (h.pending.symm.trans htakes.pending)
      have howed : a.source ∈ owing := htakes.answers.source ▸ htakes.owed
      rw [← htakes.answers.source] at hlast
      have hshares := h.shares.answer howed
      rw [hlast] at hshares
      refine .inr (.inl ⟨m, a, rfl, htakes.answers, ?_, hshares, hlt, hq.ended hticket _ _, ?_⟩)
      · rw [h.shares.last howed hlast, htakes.answers.source]
      · rw [lookup_completed, if_pos rfl]
    · refine .inl ⟨by simp, h.kept hq' ?_ (by rw [htaken, if_neg hi])⟩
      rw [Dict.get?_erase, if_neg (Ne.symm hi)]
  | drops id' =>
    by_cases hi : id' = id
    · obtain rfl := hi
      exact .inr (.inr ⟨rfl, hlt, hq.ended hticket _ _, hq.apart id' t hticket⟩)
    · refine .inl ⟨by simpa using hi, h.kept hq' ?_ rfl⟩
      rw [Dict.get?_erase, if_neg (Ne.symm hi)]

/-! ## What becomes of a question -/

/-- What became of a question that was put to `receivers` and began to wait under the ticket `t` at `start`, in the
events since: it waits; or its last answer came and it has been completed from then on, with one answer from each of
the receivers in the order in which they came; or it was given up, and has been so from then on. -/
inductive Fate (start : Questions) (id : String) (t : Nat) (receivers : List String) (later : List Event) : Prop where
  | waits (owing : List String) (hw : (start.run later).Waits id t receivers (collected id start later) owing)
      (hc : Event.cancels id ∉ later)
  | answered (es es' : List Event) (m : Message) (a : Answer) (hl : later = es ++ .receives m :: es')
      (hw : (start.run es).Waits id t receivers (collected id start es) [m.header.source])
      (hc : Event.cancels id ∉ es) (ha : m.Answers id a) (hs : Shares receivers (collected id start es ++ [a]) [])
      (hdone : ∀ more, (start.run (es ++ .receives m :: more)).standing t = .answered (collected id start es ++ [a]))
  | givenUp (es es' : List Event) (owing : List String) (hl : later = es ++ .cancels id :: es')
      (hw : (start.run es).Waits id t receivers (collected id start es) owing) (hc : Event.cancels id ∉ es)
      (hdone : ∀ more, (start.run (es ++ .cancels id :: more)).standing t = .givenUp)

theorem fate_run (hq : q.Tidy) (h : q.Waits id t receivers [] owing) (later : List Event) :
    Fate q id t receivers later := by
  induction later using List.reverseRecOn with
  | nil => exact .waits owing h (by simp)
  | append_singleton es e ih =>
    cases ih with
    | answered es₁ es₂ m a hl hw hc ha hs hdone =>
      exact .answered es₁ (es₂ ++ [e]) m a (by rw [hl]; simp) hw hc ha hs hdone
    | givenUp es₁ es₂ owing hl hw hc hdone => exact .givenUp es₁ (es₂ ++ [e]) owing (by rw [hl]; simp) hw hc hdone
    | waits owing hw hc =>
      have hrun (more : List Event) : q.run (es ++ e :: more) = ((q.run es).step e).run more := by
        rw [run_split, run_concat]
      rcases hw.step (hq.run es) e with ⟨hne, owing', hw'⟩ | ⟨m, a, rfl, ha, rfl, hs, hsettled⟩ | ⟨rfl, hsettled⟩
      · refine .waits owing' ?_ ?_
        · rw [run_concat, collected_concat]
          exact hw'
        · simp [hc, Ne.symm hne]
      · refine .answered es [] m a rfl hw hc ha hs fun more => ?_
        rw [hrun]
        exact (hsettled.run more).answered
      · refine .givenUp es [] owing rfl hw hc fun more => ?_
        rw [hrun]
        exact (hsettled.run more).givenUp

/-- No question that was put has another fate. -/
theorem fate_of_put {before : List Event} (hr : receivers ≠ []) (hok : ((initial.run before).expect id receivers).1 = .ok t)
    (later : List Event) : Fate (initial.run (before ++ [.expects id receivers])) id t receivers later := by
  have hq : (initial.run before).Tidy := tidy_initial.run before
  rw [run_concat]
  exact fate_run ((moves_step _ _).tidy hq) (waits_start hq hr hok) later

/-- A question that was put to nobody is complete from then on. -/
theorem answered_of_put_nobody {before : List Event} (hok : ((initial.run before).expect id []).1 = .ok t)
    (later : List Event) : ((initial.run (before ++ [.expects id []])).run later).standing t = .answered [] := by
  have hq : (initial.run before).Tidy := tidy_initial.run before
  rw [expect_nil] at hok
  obtain rfl := Except.ok.inj hok
  rw [run_concat]
  have hover : ((initial.run before).step (.expects id [])).Settled (initial.run before).nextTicket (some []) :=
    ⟨Nat.lt_succ_self _, hq.fresh, by rw [step, expect_nil, lookup_completed, if_pos rfl]⟩
  exact (hover.run later).answered

/-- A ticket that waits after an event did so before, or the event is the question to which it is given. -/
theorem Moves.put {e : Event} (hm : q.Moves e q') (hid : q'.ticket? id = some t) :
    q.ticket? id = some t ∨ t = q.nextTicket ∧
      ∃ receivers, e = .expects id receivers ∧ receivers ≠ [] ∧ q.pending.get? id = none := by
  cases hm with
  | stays => exact .inl hid
  | resolves => exact .inl hid
  | @opens id' receivers hr hnone =>
    rw [ticket?_insert] at hid
    by_cases hi : id = id'
    · rw [if_pos hi] at hid
      exact .inr ⟨(Option.some.inj hid).symm, receivers, by rw [hi], hr, hi ▸ hnone⟩
    · rw [if_neg hi] at hid
      exact .inl hid
  | collects htakes =>
    rw [htakes.ticket?_insert] at hid
    exact .inl hid
  | completes => exact .inl (ticket?_left hid).2
  | drops => exact .inl (ticket?_left hid).2

/-- Every question that waits was put. -/
theorem put_of_waiting (es : List Event) (hid : (initial.run es).ticket? id = some t) :
    ∃ before receivers later, es = before ++ .expects id receivers :: later ∧ receivers ≠ [] ∧
      ((initial.run before).expect id receivers).1 = .ok t := by
  induction es using List.reverseRecOn with
  | nil => cases hid
  | append_singleton es e ih =>
    rw [run_concat] at hid
    rcases ((initial.run es).moves_step e).put hid with hwaits | ⟨rfl, receivers, rfl, hr, hnone⟩
    · obtain ⟨before, receivers, later, rfl, hr, hok⟩ := ih hwaits
      exact ⟨before, receivers, later ++ [e], by simp, hr, hok⟩
    · exact ⟨es, receivers, [], rfl, hr, by rw [expect_new hr hnone]⟩

/-- Over every run of questions, answers and cancellations.  A question that waits was put, and has been neither
completed nor given up since: those it was put to are those whose answers came, each once, and those, some of them at
least, who owe one.  Whatever question was put has one of three fates, and one put to nobody is complete at once.  A
question that waits is not put again, except to nobody, which changes nothing that waits; and what is refused, a
question or an answer, changes nothing. -/
theorem answers_correlate (es : List Event) :
    let q := initial.run es
    (∀ id p, q.pending.get? id = some p →
      ∃ before receivers later, es = before ++ .expects id receivers :: later ∧
        ((initial.run before).expect id receivers).1 = .ok p.ticket ∧ .cancels id ∉ later ∧
        p.answers = collected id (initial.run (before ++ [.expects id receivers])) later ∧
        q.Waits id p.ticket receivers p.answers p.outstanding) ∧
    (∀ before id receivers later t, es = before ++ .expects id receivers :: later →
      ((initial.run before).expect id receivers).1 = .ok t →
        (receivers ≠ [] → Fate (initial.run (before ++ [.expects id receivers])) id t receivers later) ∧
        (receivers = [] → q.standing t = .answered [])) ∧
    (∀ id receivers, q.pending.contains id = true → receivers ≠ [] →
      q.expect id receivers = (.error (.invalid (.questionPending id)), q)) ∧
    (∀ id, ∃ t, (q.expect id []).1 = .ok t ∧ (q.expect id []).2.pending = q.pending) ∧
    (∀ id receivers f, (q.expect id receivers).1 = .error f → (q.expect id receivers).2 = q) ∧
    ∀ m f, (q.receive m).1 = .error f → q.Refuses m f ∧ (q.receive m).2 = q := by
  intro q
  have hq : q.Tidy := tidy_initial.run es
  refine ⟨?_, ?_, fun id receivers hp hr => expect_pending hr hp, fun id => ⟨_, rfl, rfl⟩,
    fun id receivers f => expect_refused, fun m f => receive_refused⟩
  · intro id p hp
    have hticket : q.ticket? id = some p.ticket := congrArg (Option.map Pending.ticket) hp
    have hstanding : q.standing p.ticket = .waiting := hq.standing hticket
    obtain ⟨before, receivers, later, hes, hr, hok⟩ := put_of_waiting es hticket
    have hrun : q = (initial.run (before ++ [.expects id receivers])).run later := by
      rw [← run_split, ← hes]
    refine ⟨before, receivers, later, hes, hok, ?_⟩
    cases fate_of_put hr hok later with
    | waits owing hw hc =>
      rw [← hrun] at hw
      rw [Option.some.inj (hp.symm.trans hw.pending)] at hw ⊢
      exact ⟨hc, rfl, hw⟩
    | answered es₁ es₂ m a hl hw hc ha hs hdone =>
      have hover := hdone es₂
      rw [← hl, ← hrun, hstanding] at hover
      cases hover
    | givenUp es₁ es₂ owing hl hw hc hdone =>
      have hover := hdone es₂
      rw [← hl, ← hrun, hstanding] at hover
      cases hover
  · intro before id receivers later t hes hok
    refine ⟨fun hr => fate_of_put hr hok later, fun hr => ?_⟩
    obtain rfl := hr
    show (initial.run es).standing t = .answered []
    rw [hes, run_split]
    exact answered_of_put_nobody hok later

/-- An answer to the question `id`. -/
def answerOf (id source : String) (body : Bytes) : Message :=
  ⟨{ Header.new "m" answerKind source .epoch with metadata := (∅ : Metadata).set key id }, none, .held body⟩

/-- Two questions at once, one of which is given up; an answer comes twice, and one from a stranger. -/
theorem answers_correlate_interleaved : ∃ later : List Event,
    later = [.expects "r" ["b"], .receives (answerOf "q" "b" [1]), .receives (answerOf "q" "b" [2]), .cancels "r",
      .receives (answerOf "q" "c" [3]), .receives (answerOf "q" "a" [4]), .receives (answerOf "r" "b" [5])] ∧
      Fate (initial.run [.expects "q" ["a", "b"]]) "q" 0 ["a", "b"] later ∧
      (initial.run (.expects "q" ["a", "b"] :: later)).standing 0
        = .answered [⟨"b", (answerOf "q" "b" [1]).header, [1]⟩, ⟨"a", (answerOf "q" "a" [4]).header, [4]⟩] ∧
      (initial.run (.expects "q" ["a", "b"] :: later)).standing 1 = .givenUp := by
  let later : List Event :=
    [.expects "r" ["b"], .receives (answerOf "q" "b" [1]), .receives (answerOf "q" "b" [2]), .cancels "r",
      .receives (answerOf "q" "c" [3]), .receives (answerOf "q" "a" [4]), .receives (answerOf "r" "b" [5])]
  obtain ⟨-, hput, -⟩ := answers_correlate (.expects "q" ["a", "b"] :: later)
  obtain ⟨hfate, -⟩ := hput [] "q" ["a", "b"] later 0 rfl rfl
  exact ⟨later, rfl, hfate (by simp), by decide +kernel, by decide +kernel⟩

end Questions

end ContentMesh
