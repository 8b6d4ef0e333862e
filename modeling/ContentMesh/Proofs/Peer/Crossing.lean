import ContentMesh.Proofs.Peer.Pair

/-!
# ContentMesh.Proofs.Peer.Crossing — two instances that ask each other

Both ends of a link may ask for it at the same time and as often as they like.  At most one call of each gets an
answer, and the key that it offers settles with the key of the other one: what an instance keeps is a function of what
both have offered (`met` while its own call is out, `settled` after that).
-/

namespace ContentMesh.Pair

open Dealings (Move)

variable {ids : Side → Identity} {s t : Pair} {h h' : Dealings} {e : Event} {es : List Event} {i : Side}

/-! ## Runs in which only requests are made -/

/-- Requests may fail on their way, but an answer that comes is stored. -/
def Event.Requests : Event → Prop
  | begins _ e | refuses _ e => ∃ uri key, e = .request uri key
  | arrives _ _ _ => True
  | returns _ f x => (∃ a, f.reply = some (.answer a)) → ∃ b, x = .ok b
  | fails _ f => f.reply = none

/-- The key that a call of one side offers, if it reaches its peer and is answered. -/
def Event.offer (i : Side) : Event → Option String
  | arrives j (.register _ q) (.answer _) => if j = i then q.key else none
  | _ => none

/-- The keys that one side has offered, the latest first. -/
def offered (i : Side) (es : List Event) : List String := es.filterMap (Event.offer i)

theorem offer_arrives_of_no_answer {j : Side} {call : PeerCall} {reply : PeerReply} (h : ∀ a, reply ≠ .answer a) :
    (Event.arrives j call reply).offer i = none := by
  cases call with
  | unregister uri id => rfl
  | register uri q =>
    cases reply with
    | answer a => exact absurd rfl (h a)
    | _ => rfl

theorem offered_of_none (he : e.offer i = none) : offered i (e :: es) = offered i es := List.filterMap_cons_none he

theorem offered_of_some {key : String} (he : e.offer i = some key) : offered i (e :: es) = key :: offered i es :=
  List.filterMap_cons_some he

/-! ## The invariant -/

/-- How an instance stands with a peer that has offered keys, as long as it has no answer of its own. -/
def met : List String → Stance
  | [] => none
  | key :: _ => some (.requesting, key)

/-- How an instance whose request was answered stands with a peer that has offered keys. -/
def settled (key : String) : List String → Stance
  | [] => some (.requested, key)
  | key' :: _ => some (.registered, min key key')

/-- How far one side has come, given what the other has offered: the keys it has offered itself, how it stands, and
its call. -/
inductive Course (theirs : List String) : List String → Stance → Option (Purpose × Phase) → Prop where
  | quiet : Course theirs [] (met theirs) none
  | calling (key : String) {ph : Phase} (hph : ph = .underway ∨ ph = .unanswered) :
      Course theirs [] (met theirs) (some (.ask key, ph))
  | answered (key : String) {v : Verdict} (held : String)
      (hv : v = .created ∨ ∃ key', theirs = [key'] ∧ v = .confirmed (min key key')) :
      Course theirs [key] (met theirs) (some (.ask key, .answered v held))
  | settled (key : String) : Course theirs [key] (settled key theirs) none

section Course

variable {theirs mine : List String} {x : Stance}

/-- A side without a call has offered nothing, or is settled. -/
theorem Course.of_idle (hc : Course theirs mine x none) :
    mine = [] ∧ x = met theirs ∨ ∃ key, mine = [key] ∧ x = Pair.settled key theirs := by
  cases hc with
  | quiet => exact Or.inl ⟨rfl, rfl⟩
  | settled key => exact Or.inr ⟨key, rfl, rfl⟩

/-- A side with a call has not used its answer. -/
theorem Course.of_busy {q : Purpose} {ph : Phase} (hc : Course theirs mine x (some (q, ph))) :
    x = met theirs ∧ ∃ key, q = .ask key ∧
      (mine = [] ∧ (ph = .underway ∨ ph = .unanswered) ∨ mine = [key] ∧ ∃ v held, ph = .answered v held ∧
        (v = .created ∨ ∃ key', theirs = [key'] ∧ v = .confirmed (min key key'))) := by
  cases hc with
  | calling key hph => exact ⟨rfl, key, rfl, Or.inl ⟨rfl, hph⟩⟩
  | answered key held hv => exact ⟨rfl, key, rfl, Or.inr ⟨rfl, _, held, rfl, hv⟩⟩

/-- A call that was not answered leaves no trace. -/
theorem Course.forget {q : Purpose} {ph : Phase} (hc : Course theirs mine x (some (q, ph)))
    (hph : ∀ v held, ph ≠ .answered v held) : Course theirs mine x none := by
  cases hc with
  | calling key _ => exact .quiet
  | answered key held hv => exact absurd rfl (hph _ held)

/-- A request that reaches a peer: the peer is on its course, and the verdict fits the caller's. -/
theorem Course.weigh {c : Option (Purpose × Phase)} (hc : Course [] mine x c) (key : String) :
    Course [key] mine (x.weigh key).2 c ∧
      ((x.weigh key).1 = .created ∨ ∃ key', mine = [key'] ∧ (x.weigh key).1 = .confirmed (min key key')) := by
  cases hc with
  | quiet => exact ⟨.quiet, Or.inl rfl⟩
  | calling k hph => exact ⟨.calling k hph, Or.inl rfl⟩
  | settled k => exact ⟨.settled k, Or.inr ⟨k, rfl, congrArg Verdict.confirmed (min_comm k key)⟩⟩
  | @answered k v held hv =>
    have hcreated : v = .created := by
      rcases hv with hv | ⟨key', hnil, -⟩
      · exact hv
      · cases hnil
    exact ⟨.answered k held (Or.inl hcreated), Or.inl rfl⟩

/-- The answer to a request settles both keys. -/
theorem settle_met {key : String} {v : Verdict}
    (hv : v = .created ∨ ∃ key', theirs = [key'] ∧ v = .confirmed (min key key')) :
    (Purpose.ask key).settle v (met theirs) = settled key theirs := by
  rcases hv with rfl | ⟨key', rfl, rfl⟩
  · cases theirs <;> rfl
  · show some (Status.registered, min (min key key') key') = some (.registered, min key key')
    rw [min_assoc, min_self]

end Course

/-- Both sides are on their course. -/
def OnCourse (es : List Event) (h : Dealings) : Prop :=
  ∀ i, Course (offered i.other es) (offered i es) (h.standing i) (h.call i)

/-- What happens at one side, when nothing is offered. -/
theorem OnCourse.put (hI : OnCourse es h) {x : Stance} {c : Option (Purpose × Phase)}
    (hoffer : ∀ j, e.offer j = none) (hc : Course (offered i.other es) (offered i es) x c) :
    OnCourse (e :: es) ⟨Function.update h.standing i x, Function.update h.call i c⟩ := by
  intro j
  rw [offered_of_none (hoffer j), offered_of_none (hoffer j.other)]
  by_cases hj : j = i
  · subst hj
    simpa using hc
  · simpa [Function.update_of_ne hj] using hI j

theorem OnCourse.put_call (hI : OnCourse es h) {c : Option (Purpose × Phase)} (hoffer : ∀ j, e.offer j = none)
    (hc : Course (offered i.other es) (offered i es) (h.standing i) c) :
    OnCourse (e :: es) ⟨h.standing, Function.update h.call i c⟩ := by
  have hput := hI.put hoffer hc
  rwa [Function.update_eq_self] at hput

theorem OnCourse.admitted {key : String} {v : Verdict} {y : Status × String} (hI : OnCourse es h)
    (hcall : h.call i = some (.ask key, .underway)) (hoffer : ∀ j, e.offer j = if j = i then some key else none)
    (hweigh : (h.standing i.other).weigh key = (v, some y)) :
    OnCourse (e :: es) ⟨Function.update h.standing i.other (some y),
      Function.update h.call i (some (.ask key, .answered v y.2))⟩ := by
  have hself : offered i (e :: es) = key :: offered i es := offered_of_some (by rw [hoffer, if_pos rfl])
  have hother : offered i.other (e :: es) = offered i.other es :=
    offered_of_none (by rw [hoffer, if_neg i.other_ne])
  -- the caller has offered nothing before
  have hcaller := hI i
  rw [hcall] at hcaller
  obtain ⟨hmet, k, -, ⟨hnil, -⟩ | ⟨-, _, _, hph, -⟩⟩ := hcaller.of_busy
  swap
  · cases hph
  have hpeer := hI i.other
  rw [Side.other_other, hnil] at hpeer
  have hstep := hpeer.weigh key
  rw [hweigh] at hstep
  intro j
  rcases i.eq_or_other j with rfl | rfl
  · rw [hself, hother, hnil]
    simp only [Function.update_self, Function.update_of_ne j.ne_other, hmet]
    exact .answered key y.2 hstep.2
  · rw [Side.other_other, hself, hother, hnil]
    simp only [Function.update_self, Function.update_of_ne i.other_ne]
    exact hstep.1

theorem OnCourse.move (he : e.Requests) (hI : OnCourse es h) (hmove : Move ids h e h') : OnCourse (e :: es) h' := by
  have hbusy : ∀ {i q ph}, h.call i = some (q, ph) →
      Course (offered i.other es) (offered i es) (h.standing i) (some (q, ph)) := by
    intro i q ph hc
    have hcourse := hI i
    rwa [hc] at hcourse
  cases hmove with
  | @begins i e q x hfree hopen =>
    obtain ⟨uri, key, rfl⟩ := he
    have hcourse := hI i
    rw [hfree] at hcourse
    generalize hx : h.standing i = x₀ at hopen hcourse
    cases hopen with
    | leave e y hl => exact absurd hl id
    | ask uri key =>
      -- only a side that has offered nothing is without a row
      rcases hcourse.of_idle with ⟨hnil, hmet⟩ | ⟨k, -, hsettled⟩
      · refine hI.put (fun _ => rfl) ?_
        rw [hnil, hmet]
        exact .calling key (Or.inl rfl)
      · cases htheirs : offered i.other es <;> rw [htheirs] at hsettled <;> cases hsettled
  | refuses i e =>
    intro j
    rw [offered_of_none rfl, offered_of_none rfl]
    exact hI j
  | @admitted i q key hcall hkey v y hweigh =>
    obtain ⟨-, k, rfl, -⟩ := (hbusy hcall).of_busy
    cases hkey
    refine hI.admitted hcall (fun j => ?_) hweigh
    show (if i = j then some key else none) = if j = i then some key else none
    simp only [eq_comm]
  | ignored hcall hreply =>
    obtain ⟨hmet, k, rfl, ⟨hnil, -⟩ | ⟨-, _, _, hph, -⟩⟩ := (hbusy hcall).of_busy
    · refine hI.put_call (fun j => offer_arrives_of_no_answer hreply) ?_
      rw [hnil, hmet]
      exact .calling k (Or.inr rfl)
    · cases hph
  | dismissed hcall hreply =>
    obtain ⟨-, k, hq, -⟩ := (hbusy hcall).of_busy
    cases hq
  | settles hcall hf =>
    obtain ⟨hmet, k, rfl, ⟨-, hph⟩ | ⟨hone, v, held, hph, hv⟩⟩ := (hbusy hcall).of_busy
    · rcases hph with hph | hph <;> cases hph
    · cases hph
      refine hI.put (fun _ => rfl) ?_
      rw [hmet, settle_met hv, hone]
      exact .settled k
  | lapses hcall hf hx =>
    refine hI.put_call (fun _ => rfl) ((hbusy hcall).forget fun v held hph => ?_)
    rcases hx with rfl | ⟨v', held', failure, rfl, rfl⟩
    · cases hph
    · -- an answer that comes is stored
      cases hf with
      | answered hw v held =>
        obtain ⟨b, hb⟩ := he ⟨_, rfl⟩
        cases hb
  | fails hcall hf =>
    refine hI.put_call (fun _ => rfl) ((hbusy hcall).forget fun v held hph => ?_)
    subst hph
    cases hf with
    | answered hw v held => cases he

/-! ## Crossing requests settle -/

/-- When no call is under way, the two know nothing of each other, or one has asked the other, or they are registered
under the smaller of the keys that they have offered. -/
theorem crossing_requests_settle (hrun : Run s es t) (hs : s.Strangers) (hes : ∀ e ∈ es, e.Requests)
    (hidle : ∀ i, t.trips i = []) :
    (∀ i, t.Keeps i none) ∨
      (∃ i key, t.Keeps i (some (.requested, key)) ∧ t.Keeps i.other (some (.requesting, key))) ∨
      ∃ key key', offered .near es = [key] ∧ offered .far es = [key'] ∧
        ∀ i, t.Keeps i (some (.registered, min key key')) := by
  have hstart : OnCourse [] .fresh := fun _ => .quiet
  obtain ⟨h, hI, hh⟩ := hrun.invariant hs hes hstart fun he hI hmove => hI.move he hmove
  have hkeeps : ∀ i, t.Keeps i (h.standing i) := hh.kept
  have hcourse : ∀ i, Course (offered i.other es) (offered i es) (h.standing i) none := by
    intro i
    have hc := hI i
    rwa [hh.call_eq_none (hidle i)] at hc
  rcases (hcourse .near).of_idle with ⟨hn, hnear⟩ | ⟨key, hn, hnear⟩ <;>
    rcases (hcourse .far).of_idle with ⟨hf, hfar⟩ | ⟨key', hf, hfar⟩
  all_goals
    have hn' : offered Side.far.other es = _ := hn
    have hf' : offered Side.near.other es = _ := hf
    rw [hf'] at hnear
    rw [hn'] at hfar
    have hknear := hkeeps .near
    have hkfar := hkeeps .far
    rw [hnear] at hknear
    rw [hfar] at hkfar
  · refine Or.inl fun i => ?_
    cases i
    · exact hknear
    · exact hkfar
  · exact Or.inr (Or.inl ⟨.far, key', hkfar, hknear⟩)
  · exact Or.inr (Or.inl ⟨.near, key, hknear, hkfar⟩)
  · refine Or.inr (Or.inr ⟨key, key', hn, hf, fun i => ?_⟩)
    cases i
    · exact hknear
    · have hmin : settled key' [key] = some (.registered, min key key') := by
        unfold settled
        rw [min_comm]
      rwa [hmin] at hkfar

/-- Two instances that have asked each other at the same time. -/
theorem crossed : ∃ es t, Run (fresh ⟨"a", "", "u"⟩ ⟨"b", "", "v"⟩) es t ∧ (∀ e ∈ es, e.Requests) ∧
    (∀ i, t.trips i = []) ∧ offered .near es = ["1"] ∧ offered .far es = ["0"] ∧
    ∀ i, ((t.registry i).row? (t.self i.other).uri).map Peer.status = some .registered := by
  have begun := (Run.start (s := fresh ⟨"a", "", "u"⟩ ⟨"b", "", "v"⟩)).next (.begins _ .near (.request "v" "1") rfl rfl)
  have both := begun.next (.begins _ .far (.request "u" "0") rfl rfl)
  have asked := (both.next (.arrives (l := []) _ .near rfl rfl rfl)).next (.arrives (l := []) _ .far rfl rfl rfl)
  have ended := (asked.next (.returns (l := []) (x := .ok true) _ .near rfl rfl rfl)).next
    (.returns (l := []) (x := .ok true) _ .far rfl rfl rfl)
  refine ⟨_, _, ended, ?_, fun i => by cases i <;> rfl, rfl, rfl, fun i => by cases i <;> rfl⟩
  simp only [List.forall_mem_cons]
  exact ⟨fun _ => ⟨true, rfl⟩, fun _ => ⟨true, rfl⟩, trivial, trivial, ⟨"u", "0", rfl⟩, ⟨"v", "1", rfl⟩,
    List.forall_mem_nil _⟩

theorem crossing_requests_settle_both : ∃ es t, Run (fresh ⟨"a", "", "u"⟩ ⟨"b", "", "v"⟩) es t ∧
    offered .near es = ["1"] ∧ offered .far es = ["0"] ∧ ∀ i, t.Keeps i (some (.registered, "0")) := by
  obtain ⟨es, t, hrun, hes, hidle, hnear, hfar, hstatus⟩ := crossed
  refine ⟨es, t, hrun, hnear, hfar, ?_⟩
  rcases crossing_requests_settle hrun (strangers_fresh (by decide)) hes hidle with
    hnone | ⟨i, key, ⟨properties, hrow⟩, -⟩ | ⟨key, key', hn, hf, hrows⟩
  · have hnear := hstatus .near
    rw [(hnone .near : _ = none)] at hnear
    cases hnear
  · have hi := hstatus i
    rw [hrow] at hi
    cases hi
  · rw [hnear] at hn
    rw [hfar] at hf
    cases hn
    cases hf
    exact hrows

end ContentMesh.Pair
