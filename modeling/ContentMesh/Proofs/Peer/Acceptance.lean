import ContentMesh.Proofs.Peer.Pair

/-!
# ContentMesh.Proofs.Peer.Acceptance — a request that is accepted

The near side asks, and the far side accepts as soon as it has the request, over a network that loses nothing.  Both
end up registered, unless the confirmation of the far side arrives before the near side has the answer to its request
(`overtaken`).  The near side has no row yet then and takes the confirmation for a request of the far side; it
registers the far side in the end, and the far side waits for a confirmation that nobody sends.
-/

namespace ContentMesh.Pair

open Dealings (Move)
open Function (update)

variable {ids : Side → Identity} {s t : Pair} {h h' : Dealings} {e : Event} {es : List Event} {key : String}

/-! ## Runs of a request and its acceptance -/

/-- The near side makes requests and the far side accepts them; every call is answered, and every answer stored. -/
def Event.Accepts : Event → Prop
  | begins i e | refuses i e => i = .near ∧ (∃ uri key, e = .request uri key) ∨ i = .far ∧ ∃ uri, e = .accept uri
  | arrives _ _ reply => ∃ a, reply = .answer a
  | returns _ _ x => ∃ b, x = .ok b
  | fails _ _ => False

/-- Whether the call of a side comes to its end. -/
def Event.ends (i : Side) : Event → Bool
  | returns j _ _ | fails j _ => j == i
  | _ => false

/-- Whether a confirmation of the far side arrives before the near side has the answer to its request. -/
def overtaken : List Event → Bool
  | [] => false
  | .arrives .far _ _ :: es => overtaken es || !es.any (Event.ends .near)
  | _ :: es => overtaken es

/-! ## The invariant -/

/-- The call of the near side, until it has the answer. -/
def asking (key held : String) (back : Bool) : Option (Purpose × Phase) :=
  if back then none else some (.ask key, .answered .created held)

theorem asking_eq_some {held : String} {back : Bool} {q : Purpose} {ph : Phase}
    (h : asking key held back = some (q, ph)) : back = false ∧ q = .ask key ∧ ph = .answered .created held := by
  cases back with
  | true => cases h
  | false =>
    cases h
    exact ⟨rfl, rfl, rfl⟩

/-- How far the two have come; `back` and `done` are whether the near and the far side have their answer, and `late`
is whether the confirmation has overtaken the answer to the request. -/
inductive Stage (h : Dealings) : (back done late : Bool) → Prop where
  | unheard (hn : h.standing .near = none) (hf : h.standing .far = none)
      (hcn : h.call .near = none ∨ ∃ key, h.call .near = some (.ask key, .underway)) (hcf : h.call .far = none) :
      Stage h false false false
  | waiting {back : Bool} (key held : String) (hn : h.standing .near = if back then some (.requested, key) else none)
      (hf : h.standing .far = some (.requesting, key)) (hcn : h.call .near = asking key held back)
      (hcf : h.call .far = none ∨ h.call .far = some (.accept key, .underway)) : Stage h back false false
  | confirmed {back late : Bool} (key held held' : String) (hb : (back || late) = true)
      (hn : h.standing .near = some (if back then .registered else .requesting, key))
      (hf : h.standing .far = some (.requesting, key)) (hcn : h.call .near = asking key held back)
      (hcf : h.call .far = some (.accept key, .answered (if late then .created else .confirmed key) held')) :
      Stage h back false late
  | done {back late : Bool} (key held : String) (hb : (back || late) = true)
      (hn : h.standing .near = some (if back then .registered else .requesting, key))
      (hf : h.standing .far = some (if late then .requested else .registered, key))
      (hcn : h.call .near = asking key held back) (hcf : h.call .far = none) : Stage h back true late

section Moves

variable {back done late : Bool}

theorem Stage.ask (hS : Stage h back done late) (hn : h.standing .near = none) (hfree : h.call .near = none)
    (key : String) : Stage { h with call := update h.call .near (some (.ask key, .underway)) } back done late := by
  cases hS with
  | unheard _ hf hcn hcf => exact .unheard hn hf (Or.inr ⟨key, rfl⟩) hcf
  | waiting key' held hn' hf hcn hcf => cases back <;> simp_all [asking]
  | confirmed key' held held' hb hn' hf hcn hcf => simp_all
  | done key' held hb hn' hf hcn hcf => simp_all

theorem Stage.accept (hS : Stage h back done late) (hf : h.standing .far = some (.requesting, key))
    (hfree : h.call .far = none) :
    Stage { h with call := update h.call .far (some (.accept key, .underway)) } back done late := by
  cases hS with
  | unheard _ hf' hcn hcf => simp_all
  | waiting key' held hn hf' hcn hcf =>
    rw [hf] at hf'
    cases hf'
    exact .waiting key held hn hf hcn (Or.inr rfl)
  | confirmed key' held held' hb hn' hf hcn hcf => simp_all
  | done key' held hb hn' hf' hcn hcf => cases late <;> simp_all

/-- The request reaches the far side. -/
theorem Stage.requested {q : Purpose} {v : Verdict} {y : Status × String} (hS : Stage h back done late)
    (hcall : h.call .near = some (q, .underway)) (hkey : q.key? = some key)
    (hweigh : (h.standing .far).weigh key = (v, some y)) :
    Stage ⟨update h.standing .far (some y), update h.call .near (some (q, .answered v y.2))⟩ back done late := by
  cases hS with
  | unheard hn hf hcn hcf =>
    obtain ⟨key', rfl⟩ : ∃ key', q = .ask key' := by simp_all
    cases hkey
    rw [hf] at hweigh
    cases hweigh
    exact .waiting key key hn rfl rfl (Or.inl hcf)
  | waiting key' held hn hf hcn hcf => cases (asking_eq_some (hcn.symm.trans hcall)).2.2
  | confirmed key' held held' hb hn hf hcn hcf => cases (asking_eq_some (hcn.symm.trans hcall)).2.2
  | done key' held hb hn hf hcn hcf => cases (asking_eq_some (hcn.symm.trans hcall)).2.2

/-- The confirmation reaches the near side, which has the answer to its request or not. -/
theorem Stage.confirmation {q : Purpose} {v : Verdict} {y : Status × String} (hS : Stage h back done late)
    (hcall : h.call .far = some (q, .underway)) (hkey : q.key? = some key)
    (hweigh : (h.standing .near).weigh key = (v, some y)) :
    Stage ⟨update h.standing .near (some y), update h.call .far (some (q, .answered v y.2))⟩ back done
      (late || !back) := by
  cases hS with
  | unheard hn hf hcn hcf => simp_all
  | waiting key' held hn hf hcn hcf =>
    have hq : q = .accept key' := by simp_all
    subst hq
    cases hkey
    cases back with
    | false =>
      have hnone : h.standing .near = none := hn
      rw [hnone] at hweigh
      cases hweigh
      exact .confirmed key held key rfl rfl hf hcn rfl
    | true =>
      have hsome : h.standing .near = some (.requested, key) := hn
      rw [hsome] at hweigh
      cases hweigh
      rw [min_self]
      exact .confirmed key held key rfl rfl hf hcn rfl
  | confirmed key' held held' hb hn hf hcn hcf => simp_all
  | done key' held hb hn hf hcn hcf => simp_all

/-- The near side has the answer to its request. -/
theorem Stage.answered {q : Purpose} {v : Verdict} {held : String} (hS : Stage h back done late)
    (hcall : h.call .near = some (q, .answered v held)) :
    Stage ⟨update h.standing .near (q.settle v (h.standing .near)), update h.call .near none⟩ true done late := by
  -- its row is there already if the confirmation of the far side is
  have hcrossed : ∀ {key}, (Purpose.ask key).settle .created (some (.requesting, key)) = some (.registered, key) :=
    congrArg (fun k => some (_, k)) (min_self _)
  cases hS with
  | unheard hn hf hcn hcf => simp_all
  | waiting key held' hn hf hcn hcf =>
    obtain ⟨rfl, rfl, hph⟩ := asking_eq_some (hcn.symm.trans hcall)
    cases hph
    have hnone : h.standing .near = none := hn
    rw [hnone]
    exact .waiting key held rfl hf rfl hcf
  | confirmed key held' held'' hb hn hf hcn hcf =>
    obtain ⟨rfl, rfl, hph⟩ := asking_eq_some (hcn.symm.trans hcall)
    cases hph
    have hsome : h.standing .near = some (.requesting, key) := hn
    rw [hsome, hcrossed]
    exact .confirmed key held held'' rfl rfl hf rfl hcf
  | done key held' hb hn hf hcn hcf =>
    obtain ⟨rfl, rfl, hph⟩ := asking_eq_some (hcn.symm.trans hcall)
    cases hph
    have hsome : h.standing .near = some (.requesting, key) := hn
    rw [hsome, hcrossed]
    exact .done key held rfl rfl hf rfl hcf

/-- The far side has the answer to its confirmation. -/
theorem Stage.accepted {q : Purpose} {v : Verdict} {held : String} (hS : Stage h back done late)
    (hcall : h.call .far = some (q, .answered v held)) :
    Stage ⟨update h.standing .far (q.settle v (h.standing .far)), update h.call .far none⟩ back true late := by
  cases hS with
  | unheard hn hf hcn hcf => simp_all
  | waiting key held' hn hf hcn hcf => simp_all
  | done key held' hb hn hf hcn hcf => simp_all
  | confirmed key held' held'' hb hn hf hcn hcf =>
    rw [hcf] at hcall
    cases hcall
    rw [hf]
    have hsettled : (Purpose.accept key).settle (if late then .created else .confirmed key) (some (.requesting, key))
        = some (if late then .requested else .registered, key) := by cases late <;> rfl
    rw [hsettled]
    exact .done key held' hb hn rfl hcn rfl

/-- Every call that arrives is answered. -/
theorem Stage.call_ne_unanswered (hS : Stage h back done late) (i : Side) (q : Purpose) :
    h.call i ≠ some (q, .unanswered) := by
  intro hcall
  cases i with
  | near =>
    cases hS with
    | unheard hn hf hcn hcf => simp_all
    | waiting key held hn hf hcn hcf => cases (asking_eq_some (hcn.symm.trans hcall)).2.2
    | confirmed key held held' hb hn hf hcn hcf => cases (asking_eq_some (hcn.symm.trans hcall)).2.2
    | done key held hb hn hf hcn hcf => cases (asking_eq_some (hcn.symm.trans hcall)).2.2
  | far => cases hS <;> simp_all

end Moves

/-- The stage that the two have come to. -/
def OnStage (es : List Event) (h : Dealings) : Prop :=
  Stage h (es.any (Event.ends .near)) (es.any (Event.ends .far)) (overtaken es)

theorem OnStage.move (he : e.Accepts) (hI : OnStage es h) (hmove : Move ids h e h') : OnStage (e :: es) h' := by
  have hS : Stage h (es.any (Event.ends .near)) (es.any (Event.ends .far)) (overtaken es) := hI
  cases hmove with
  | @begins i e q x hfree hopen =>
    rcases he with ⟨rfl, uri, key, rfl⟩ | ⟨rfl, uri, rfl⟩
    · generalize hx : h.standing .near = y at hopen
      cases hopen with
      | leave e y hl => exact absurd hl id
      | ask uri key =>
        have hask := hS.ask hx hfree key
        have hsame : update h.standing .near none = h.standing := by rw [← hx, Function.update_eq_self]
        rw [hsame]
        exact hask
    · generalize hx : h.standing .far = y at hopen
      cases hopen with
      | leave e y hl => exact absurd hl id
      | accept uri key =>
        have haccept := hS.accept hx hfree
        have hsame : update h.standing .far (some (.requesting, key)) = h.standing := by
          rw [← hx, Function.update_eq_self]
        rw [hsame]
        exact haccept
  | refuses i e => exact hS
  | @admitted i q key hcall hkey v y hweigh =>
    cases i with
    | near => exact hS.requested hcall hkey hweigh
    | far => exact hS.confirmation hcall hkey hweigh
  | ignored hcall hreply =>
    obtain ⟨a, rfl⟩ := he
    exact absurd rfl (hreply a)
  | dismissed hcall hreply =>
    obtain ⟨a, rfl⟩ := he
    exact absurd rfl (hreply a)
  | @settles i q v held f b hcall hf =>
    cases i with
    | near => exact hS.answered hcall
    | far => exact hS.accepted hcall
  | @lapses i q ph f x hcall hf hx =>
    obtain ⟨b, rfl⟩ := he
    rcases hx with rfl | ⟨v, held, failure, -, hfailure⟩
    · exact absurd hcall (hS.call_ne_unanswered i q)
    · cases hfailure
  | fails hcall hf => exact absurd he id

/-- When both calls have come to their end, both sides are registered under one key; if the confirmation has overtaken
the answer to the request, the far side is left with a request of its own. -/
theorem accept_completes (hrun : Run s es t) (hs : s.Strangers) (hes : ∀ e ∈ es, e.Accepts)
    (hnear : es.any (Event.ends .near)) (hfar : es.any (Event.ends .far)) :
    ∃ key, t.Keeps .near (some (.registered, key)) ∧
      t.Keeps .far (some (if overtaken es then .requested else .registered, key)) := by
  have hstart : OnStage [] .fresh := .unheard rfl rfl (Or.inl rfl) rfl
  obtain ⟨h, hI, hh⟩ := hrun.invariant hs hes hstart fun he hI hmove => hI.move he hmove
  unfold OnStage at hI
  rw [hnear, hfar] at hI
  cases hI with
  | done key held hb hn hf hcn hcf =>
    refine ⟨key, ?_, ?_⟩
    · have hkept := hh.kept .near
      rwa [hn] at hkept
    · have hkept := hh.kept .far
      rwa [hf] at hkept

theorem accept_completes_in_order : ∃ es t, Run (fresh ⟨"a", "", "u"⟩ ⟨"b", "", "v"⟩) es t ∧ overtaken es = false ∧
    ∃ key, t.Keeps .near (some (.registered, key)) ∧ t.Keeps .far (some (.registered, key)) := by
  have asked := ((Run.start (s := fresh ⟨"a", "", "u"⟩ ⟨"b", "", "v"⟩)).next
    (.begins _ .near (.request "v" "0") rfl rfl)).next (.arrives (l := []) _ .near rfl rfl rfl)
  have answered := asked.next (.returns (l := []) (x := .ok true) _ .near rfl rfl rfl)
  have accepted := (answered.next (.begins _ .far (.accept "u") rfl rfl)).next
    (.arrives (l := []) _ .far rfl rfl rfl)
  have settled := accepted.next (.returns (l := []) (x := .ok true) _ .far rfl rfl rfl)
  refine ⟨_, _, settled, rfl, accept_completes settled (strangers_fresh (by decide)) ?_ rfl rfl⟩
  simp only [List.forall_mem_cons]
  exact ⟨⟨true, rfl⟩, ⟨_, rfl⟩, Or.inr ⟨rfl, "u", rfl⟩, ⟨true, rfl⟩, ⟨_, rfl⟩, Or.inl ⟨rfl, "v", "0", rfl⟩,
    List.forall_mem_nil _⟩

/-- A confirmation that overtakes the answer to the request leaves one side registered and the other one waiting. -/
theorem accept_overtaken : ∃ es t, Run (fresh ⟨"a", "", "u"⟩ ⟨"b", "", "v"⟩) es t ∧ (∀ e ∈ es, e.Accepts) ∧
    (∀ i, es.any (Event.ends i)) ∧ (∀ i, t.trips i = []) ∧ t.Keeps .near (some (.registered, "0")) ∧
    t.Keeps .far (some (.requested, "0")) := by
  have asked := ((Run.start (s := fresh ⟨"a", "", "u"⟩ ⟨"b", "", "v"⟩)).next
    (.begins _ .near (.request "v" "0") rfl rfl)).next (.arrives (l := []) _ .near rfl rfl rfl)
  have accepted := (asked.next (.begins _ .far (.accept "u") rfl rfl)).next (.arrives (l := []) _ .far rfl rfl rfl)
  have answered := accepted.next (.returns (l := []) (x := .ok true) _ .near rfl rfl rfl)
  have settled := answered.next (.returns (l := []) (x := .ok false) _ .far rfl rfl rfl)
  refine ⟨_, _, settled, ?_, fun i => by cases i <;> rfl, fun i => by cases i <;> rfl, ⟨_, rfl⟩, ⟨_, rfl⟩⟩
  simp only [List.forall_mem_cons]
  exact ⟨⟨false, rfl⟩, ⟨true, rfl⟩, ⟨_, rfl⟩, Or.inr ⟨rfl, "u", rfl⟩, ⟨_, rfl⟩, Or.inl ⟨rfl, "v", "0", rfl⟩,
    List.forall_mem_nil _⟩

end ContentMesh.Pair
