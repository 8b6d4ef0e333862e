import ContentMesh.Proofs.Node.Traffic
import ContentMesh.Proofs.Peer.Deeds

/-!
# ContentMesh.Proofs.Node.Removal — removing a peer ends its traffic

Every row that goes is announced (`Registry.Announces`), and as soon as the node hears of it, it closes the lane of that
peer.  So a lane in use is that of a registered peer, or of one of whose removal the node has yet to hear, or it was
opened by a call that a removal overtook between its check and its look-up; and the entries of a lane that is not in
use are spent (`Traffic.Linked`): none of them is sent again, not even when the peer is registered anew, for it gets a
new lane then.  Where the node does one thing at a time (`Traffic.Act`), so that only errands and attempts wait while
other things happen, lanes in use are those of registered peers.
-/

namespace ContentMesh

/-! ## Rows that go -/

namespace Registry

variable {r r' : Registry} {uri : String} {b : Bool}

/-- At most one row goes, and it is announced. -/
def Announces (r r' : Registry) : Prop := ∃ ps, r'.removals = r.removals ++ ps ∧ ps.length ≤ 1 ∧
  ∀ uri p, r.row? uri = some p → r'.row? uri = none → p ∈ ps

theorem announces_of_rows (hremovals : r'.removals = r.removals) (h : ∀ uri p, r.row? uri = some p → r'.row? uri ≠ none) :
    r.Announces r' :=
  ⟨[], by simpa using hremovals, Nat.zero_le _, fun uri p hp hgone => absurd hgone (h uri p hp)⟩

theorem Acts.announces (h : r.Acts uri b r') : r.Announces r' := by
  cases h with
  | idle b hs => exact announces_of_rows rfl fun v p hp hgone => absurd (hgone.symm.trans hp) (by simp)
  | @wrote p s hp hs =>
    refine announces_of_rows rfl fun v q hq hgone => ?_
    change (r.index.insert p).byUri.get? v = none at hgone
    rw [PeerIndex.byUri_insert] at hgone
    split at hgone
    · cases hgone
    · exact absurd (hgone.symm.trans hq) (by simp)
  | @removed p s hrow hs =>
    refine ⟨[p], rfl, Nat.le_refl _, fun v q hq hgone => ?_⟩
    change (r.index.erase uri).byUri.get? v = none at hgone
    rw [PeerIndex.byUri_erase] at hgone
    by_cases hv : v = uri
    · rw [hv, hrow] at hq
      exact List.mem_singleton.mpr (Option.some.inj hq).symm
    · rw [if_neg hv] at hgone
      exact absurd (hgone.symm.trans hq) (by simp)

theorem removals_reload (r : Registry) : r.reload.2.removals = r.removals := by
  unfold reload
  rcases r.store.values_cases with ⟨f, s, hv, -⟩ | hv
  · rw [hv]
  · rw [hv]

/-- Whatever happens at a registry, a row that goes is announced. -/
theorem Office.step_announces {o : Office} (hf : o.registry.Faithful) (e : Event) :
    o.registry.Announces (o.step e).registry := by
  have hstirs := step_stirs hf e
  generalize (o.step e).registry = r at hstirs ⊢
  cases hstirs with
  | acts claims claims' h => exact h.announces
  | reloads =>
    refine announces_of_rows o.registry.removals_reload fun v p hp => ?_
    rw [(reload_changes hf v).row, if_pos rfl, hp]
    simp

theorem removals_load {self : Identity} {s : Store Peer} {r : Registry} (h : load self s = .ok r) : r.removals = [] := by
  rw [load_ok h]

end Registry

namespace Node

/-- A node that is assembled knows the rows of its table and has no lanes. -/
theorem assemble_ok {n : Node} {settings : Settings} {self : Identity} {signer : Option Signer} {stores : Stores}
    {dispatch : Dict Handler} (h : assemble settings self signer stores dispatch = .ok n) :
    Registry.load self stores.peers = .ok n.registry ∧ n.outbox = .new settings.retry := by
  unfold assemble at h
  cases hload : Registry.load self stores.peers with
  | error f =>
    rw [hload] at h
    cases h
  | ok r =>
    rw [hload] at h
    cases h
    exact ⟨rfl, rfl⟩

namespace Traffic

variable {s : Traffic} {retry : Retry}

/-! ## Lanes and rows -/

/-- A lane in use is that of a registered peer, or of one of whose removal the node has yet to hear, or a stray; and
what is in the others is spent. -/
structure Linked (s : Traffic) : Prop where
  faithful : s.node.registry.Faithful
  live : ∀ uri i, s.node.outbox.laneOf? uri = some i → (∃ p, s.node.registry.registered? uri = some p) ∨
    (∃ p ∈ s.node.registry.removals, p.uri = uri) ∨ i ∈ s.strays
  gone : ∀ i, (∀ uri, s.node.outbox.laneOf? uri ≠ some i) → ∀ k ∈ numbers s.entered i, s.Spent k

theorem linked_of {n : Node} {self : Identity} {peers : Store Peer} (hload : Registry.load self peers = .ok n.registry)
    (hnamed : ∀ uri p, peers.rows.get? uri = some p → p.uri = uri) (hn : n.outbox = .new retry) : (of n).Linked where
  faithful := Registry.load_faithful hload hnamed
  live uri i hi := by
    change n.outbox.laneOf? uri = some i at hi
    rw [hn] at hi
    cases hi
  gone i _ k hk := by
    obtain ⟨d, hd, -⟩ := mem_numbers.mp hk
    cases hd

namespace Linked

theorem spent_step (h : s.Linked) (hkept : s.Kept retry) (e : Event) {i k : Nat}
    (hi : ∀ uri, s.node.outbox.laneOf? uri ≠ some i) (hk : k ∈ numbers s.entered i) : (s.step e).Spent k :=
  ((h.gone i hi k hk).step hkept (lt_of_numbers hk) e).1

/-- What leaves the rows, the lanes in use and the entries alone. -/
theorem of_same (h : s.Linked) (hkept : s.Kept retry) {e : Event} (hregistry : (s.step e).node.registry = s.node.registry)
    (hlive : ∀ uri, (s.step e).node.outbox.laneOf? uri = s.node.outbox.laneOf? uri)
    (hstrays : (s.step e).strays = s.strays) (hentered : (s.step e).entered = s.entered) : (s.step e).Linked where
  faithful := hregistry ▸ h.faithful
  live uri i hi := by
    rw [hregistry, hstrays]
    exact h.live uri i (hlive uri ▸ hi)
  gone i hi k hk := by
    rw [hentered] at hk
    exact h.spent_step hkept e (fun uri huri => hi uri ((hlive uri).trans huri)) hk

theorem find (h : s.Linked) (hkept : s.Kept retry) (j : Nat) : (s.step (.find j)).Linked := by
  have hspent := fun i k => h.spent_step hkept (.find j) (i := i) (k := k)
  change ∀ i k, _ → _ → (s.find j).Spent k at hspent
  show (s.find j).Linked
  rcases s.find_cases j with heq | ⟨p, uri, -, heq⟩
  · rw [heq]
    exact h
  · rw [heq] at hspent ⊢
    obtain ⟨-, -, hlaneOf⟩ := s.node.outbox.opened_frame uri
    have hkeeps : ∀ v i, s.node.outbox.laneOf? v = some i → (s.node.outbox.opened uri).2.laneOf? v = some i := by
      intro v i hv
      rw [hlaneOf]
      by_cases hu : v = uri
      · rw [if_pos hu, Outbox.opened_of_live (hu ▸ hv)]
      · rw [if_neg hu, hv]
    refine ⟨h.faithful, fun v i hi => ?_, fun i hi k hk => hspent i k (fun v hv => hi v (hkeeps v i hv)) hk⟩
    -- a lane that is opened for nobody who is registered is a stray
    have hcame : s.node.outbox.laneOf? v = some i ∨ s.node.outbox.laneOf? uri = none ∧ v = uri ∧
        (s.node.outbox.opened uri).1 = i := by
      change (s.node.outbox.opened uri).2.laneOf? v = some i at hi
      rw [hlaneOf] at hi
      by_cases hu : v = uri
      · rw [if_pos hu] at hi
        cases hlane : s.node.outbox.laneOf? uri with
        | none => exact .inr ⟨rfl, hu, Option.some.inj hi⟩
        | some l =>
          rw [Outbox.opened_of_live hlane] at hi
          exact .inl (hu ▸ hlane.trans hi)
      · rw [if_neg hu] at hi
        exact .inl hi
    rcases hcame with hi | ⟨hnone, rfl, rfl⟩
    · exact (h.live v i hi).imp_right (·.imp_right (List.mem_append_left _))
    · cases hq : s.node.registry.registered? v with
      | some q => exact .inl ⟨q, rfl⟩
      | none => exact .inr (.inr (List.mem_append_right _ (by simp [hnone])))

theorem push (h : s.Linked) (hkept : s.Kept retry) (j : Nat) (now : Moment) : (s.step (.push j now)).Linked := by
  have hspent := fun i k => h.spent_step hkept (.push j now) (i := i) (k := k)
  change ∀ i k, _ → _ → (s.push j now).Spent k at hspent
  show (s.push j now).Linked
  rcases s.push_cases j now with heq | heq | ⟨p, uri, i, -, hi, heq⟩
  · rw [heq]
    exact h
  · rw [heq]
    exact ⟨h.faithful, h.live, h.gone⟩
  · rw [heq] at hspent ⊢
    have hput := Outbox.puts_of_live hkept.tidy hi p now.tick
    have hlive : ∀ v, (s.node.outbox.enqueue uri p now.tick).laneOf? v = s.node.outbox.laneOf? v := by
      intro v
      rw [hput.live]
      by_cases hv : v = uri
      · rw [if_pos hv, hv, hi]
      · rw [if_neg hv]
    refine ⟨h.faithful, fun v l hl => h.live v l ((hlive v).symm.trans hl), fun l hl k hk => ?_⟩
    have hother : i ≠ l := fun he => hl uri ((hlive uri).trans (he ▸ hi))
    change k ∈ numbers (s.entered ++ [_]) l at hk
    rw [numbers_concat, if_neg hother, List.append_nil] at hk
    exact hspent l k (fun v hv => hl v ((hlive v).trans hv)) hk

theorem registry (h : s.Linked) (hkept : s.Kept retry) (e : Registry.Event) : (s.step (.registry e)).Linked := by
  obtain ⟨ps, hremovals, -, hannounced⟩ := Registry.Office.step_announces (o := s.office) h.faithful e
  refine ⟨Registry.Office.step_faithful h.faithful e, fun uri i hi => ?_, fun i hi k hk => h.spent_step hkept _ hi hk⟩
  show (∃ p, (s.office.step e).registry.registered? uri = some p) ∨
    (∃ p ∈ (s.office.step e).registry.removals, p.uri = uri) ∨ i ∈ s.strays
  rw [hremovals]
  rcases h.live uri i hi with ⟨p, hp⟩ | ⟨p, hp, hu⟩ | hstray
  · obtain ⟨hp, hs⟩ := Registry.registered?_iff_status.mp hp
    rcases Registry.Office.registered_kept (o := s.office) h.faithful e hp hs with hstays | hgoes
    · exact .inl ⟨p, Registry.registered?_iff_status.mpr ⟨hstays, hs⟩⟩
    · have hin := List.mem_append_right s.office.registry.removals (hannounced uri p hp hgoes)
      exact .inr (.inl ⟨p, hin, h.faithful.named uri p hp⟩)
  · exact .inr (.inl ⟨p, List.mem_append_left _ hp, hu⟩)
  · exact .inr (.inr hstray)

theorem heed (h : s.Linked) (hkept : s.Kept retry) (j : Nat) : (s.step (.heed j)).Linked := by
  have hsweeps : s.node.outbox.Sweeps (s.node.heed j).outbox := sweeps_heed hkept.tidy j
  refine ⟨?_, fun uri i hi => ?_, fun i hi k hk => ?_⟩
  · show (s.node.heed j).registry.Faithful
    rcases heed_cases s.node j with heq | ⟨p, -, heq⟩
    · rw [heq]
      exact h.faithful
    · rw [heq]
      exact h.faithful.of_rows rfl fun _ => rfl
  · have hlive := h.live uri i (hsweeps.live uri i hi)
    change (s.node.heed j).outbox.laneOf? uri = some i at hi
    show (∃ p, (s.node.heed j).registry.registered? uri = some p) ∨
      (∃ p ∈ (s.node.heed j).registry.removals, p.uri = uri) ∨ i ∈ s.strays
    rcases heed_cases s.node j with heq | ⟨p, hp, heq⟩
    · rw [heq]
      exact hlive
    · -- the lane of the peer that is heard of is not in use any more, so the lane is another's
      have hother : p.uri ≠ uri := by
        rintro rfl
        rw [laneOf?_heed hp] at hi
        cases hi
      rw [heq]
      rcases hlive with hq | ⟨q, hq, hu⟩ | hstray
      · exact .inl hq
      · have hne : s.node.registry.removals[j]? ≠ some q := by
          rw [hp]
          rintro ⟨rfl⟩
          exact hother hu
        obtain ⟨l, hl⟩ := List.mem_iff_getElem?.mp hq
        have hin : q ∈ s.node.registry.removals.eraseIdx j :=
          List.mem_eraseIdx_iff_getElem?.mpr ⟨l, fun he => hne (he ▸ hl), hl⟩
        exact .inr (.inl ⟨q, hin, hu⟩)
      · exact .inr (.inr hstray)
  · by_cases hlive : ∃ uri, s.node.outbox.laneOf? uri = some i
    · obtain ⟨uri, huri⟩ := hlive
      have hretired : (s.node.heed j).outbox.laneOf? uri = none := by
        cases hnow : (s.node.heed j).outbox.laneOf? uri with
        | none => rfl
        | some l =>
          obtain rfl : l = i := Option.some.inj ((hsweeps.live uri l hnow).symm.trans huri)
          exact absurd hnow (hi uri)
      exact hkept.spent_of_purged hk hsweeps (hsweeps.retired uri i huri hretired)
    · exact h.spent_step hkept _ (fun uri huri => hlive ⟨uri, huri⟩) hk

theorem step (h : s.Linked) (hkept : s.Kept retry) (e : Event) : (s.step e).Linked := by
  cases e with
  | checkIn p uri now =>
    have hframe : (s.checkIn p uri now).node.outbox = s.node.outbox ∧ (s.checkIn p uri now).strays = s.strays := by
      obtain ⟨l, heq | ⟨-, heq⟩⟩ := s.checkIn_cases p uri now
      all_goals
        rw [heq]
        exact ⟨rfl, rfl⟩
    exact h.of_same hkept (registry_step s (by simp) (by simp)) (fun uri => congrArg (·.laneOf? uri) hframe.1) hframe.2
      (entered_step s (by simp))
  | find j => exact h.find hkept j
  | push j now => exact h.push hkept j now
  | depart i now =>
    obtain ⟨o, roll, sent, hlive, heq⟩ := s.depart_frame i now
    have hstep : s.step (.depart i now) = { s with node := { s.node with outbox := o }, roll, sent } := heq
    refine h.of_same hkept (registry_step s (by simp) (by simp)) (fun uri => ?_) ?_ (entered_step s (by simp))
    · rw [hstep]
      exact hlive uri
    · rw [hstep]
  | land i x now spread =>
    refine h.of_same hkept (registry_step s (by simp) (by simp)) (fun uri => ?_) rfl rfl
    show (s.node.land i x now spread).outbox.laneOf? uri = _
    rw [land_frame]
    rfl
  | purge uri => exact h.of_same hkept rfl (s.node.outbox.laneOf?_purge uri) rfl rfl
  | registry e => exact h.registry hkept e
  | heed j => exact h.heed hkept j

theorem after (h : s.Linked) (hkept : s.Kept retry) (es : List Event) : (s.after es).Linked := by
  induction es using List.reverseRecOn with
  | nil => exact h
  | append_singleton es e ih =>
    rw [after_concat]
    exact ih.step (hkept.after es) e

/-- A row that goes leaves a removal to hear of. -/
theorem removal_of_gone (h : s.Linked) {e : Event} {uri : String} (hrow : s.node.registry.row? uri ≠ none)
    (hgone : (s.step e).node.registry.row? uri = none) : ∃ p ∈ (s.step e).node.registry.removals, p.uri = uri := by
  by_cases he : ∃ x, e = .registry x
  · obtain ⟨x, rfl⟩ := he
    obtain ⟨p, hp⟩ := Option.ne_none_iff_exists'.mp hrow
    obtain ⟨ps, hremovals, -, hannounced⟩ := Registry.Office.step_announces (o := s.office) h.faithful x
    refine ⟨p, ?_, h.faithful.named uri p hp⟩
    show p ∈ (s.office.step x).registry.removals
    rw [hremovals]
    exact List.mem_append_right _ (hannounced uri p hp hgone)
  · exact absurd ((row_step s (fun x hx => he ⟨x, hx⟩) uri).symm.trans hgone) hrow

/-- The entries for a peer that has no lane in use are spent. -/
theorem spent (h : s.Linked) (hkept : s.Kept retry) {uri : String} (hnone : s.node.outbox.laneOf? uri = none) {k : Nat}
    {d : Docket} (hd : s.entered[k]? = some d) (huri : d.uri = uri) : s.Spent k := by
  refine h.gone d.lane (fun v hv => ?_) k (mem_numbers.mpr ⟨d, hd, rfl⟩)
  have hlane : v = uri := by
    rw [← (hkept.tidy v d.lane hv).2, (hkept.docket d (List.mem_of_getElem? hd)).2, huri]
  rw [hlane, hnone] at hv
  cases hv

end Linked

/-! ## Closed lanes -/

/-- A lane is closed exactly if it is not in use, and a lane that a call has found is there, and is one of its peer. -/
structure Marked (s : Traffic) : Prop where
  lanes : s.node.outbox.Sealed
  calls : ∀ c ∈ s.calls, ∀ i, c.lane = some i → i < s.node.outbox.lanes.size ∧ (s.node.outbox.lane i).uri = c.uri

theorem marked_of {n : Node} (hn : n.outbox = .new retry) : (of n).Marked where
  lanes := hn ▸ Outbox.sealed_new retry
  calls _ hc := absurd hc List.not_mem_nil

namespace Marked

/-- Calls come and go, but know no other lanes. -/
theorem of_calls (h : s.Marked) {n : Node} {errands : List Waiting} {calls : List Call} {strays : List Nat}
    {entered : List Docket} {roll : Nat → Roll} {sent : List (Nat × Sending)} {delivered : List Nat}
    (hlanes : n.outbox.Sealed) (hkeeps : s.node.outbox.Keeps n.outbox)
    (hcalls : ∀ c ∈ calls, c ∈ s.calls ∨ c.lane = none) :
    Marked ⟨n, errands, calls, strays, entered, roll, sent, delivered⟩ := by
  refine ⟨hlanes, fun c hc i hi => ?_⟩
  rcases hcalls c hc with hc | hnone
  · obtain ⟨hlt, huri⟩ := h.calls c hc i hi
    exact ⟨Nat.lt_of_lt_of_le hlt hkeeps.size, (hkeeps.uri i hlt).trans huri⟩
  · exact absurd (hnone.symm.trans hi) (by simp)

theorem find (h : s.Marked) (hkept : s.Kept retry) (j : Nat) : (s.find j).Marked := by
  rcases s.find_cases j with heq | ⟨p, uri, -, heq⟩
  · rw [heq]
    exact h
  · rw [heq]
    obtain ⟨htidy, hlive, -⟩ := Outbox.opened_spec hkept.tidy uri
    have hkeeps := s.node.outbox.keeps_opened uri
    refine ⟨h.lanes.opened uri, fun c hc i hi => ?_⟩
    rcases List.mem_or_eq_of_mem_set hc with hc | rfl
    · obtain ⟨hlt, huri⟩ := h.calls c hc i hi
      exact ⟨Nat.lt_of_lt_of_le hlt hkeeps.size, (hkeeps.uri i hlt).trans huri⟩
    · obtain rfl := Option.some.inj hi
      exact htidy uri _ hlive

theorem depart (h : s.Marked) (i : Nat) (now : Moment) : (s.depart i now).Marked := by
  have hsame : ∀ c ∈ s.calls, c ∈ s.calls ∨ c.lane = none := fun c hc => .inl hc
  have hkeeps := s.node.outbox.keeps_modify i Lane.uri_depart
  unfold Traffic.depart
  split
  · exact h
  · rcases depart_outcomes s.node i now with ⟨-, heq⟩ | ⟨f, target, t, -, -, -, heq⟩ | ⟨f, -, -, heq⟩
    · rw [heq]
      exact h.of_calls (h.lanes.depart i) hkeeps hsame
    · rw [heq]
      exact h.of_calls (h.lanes.depart i) hkeeps hsame
    · rw [heq]
      exact h.of_calls ((h.lanes.depart i).land i .dropped now.tick 1.0)
        (hkeeps.trans (Outbox.keeps_land _ i .dropped now.tick 1.0)) hsame

theorem step (h : s.Marked) (hkept : s.Kept retry) (e : Event) : (s.step e).Marked := by
  have hsame : ∀ c ∈ s.calls, c ∈ s.calls ∨ c.lane = none := fun c hc => .inl hc
  cases e with
  | checkIn p uri now =>
    show (s.checkIn p uri now).Marked
    obtain ⟨l, heq | ⟨-, heq⟩⟩ := s.checkIn_cases p uri now
    · rw [heq]
      exact ⟨h.lanes, h.calls⟩
    · rw [heq]
      refine h.of_calls h.lanes (.refl _) fun c hc => ?_
      rcases List.mem_append.mp hc with hc | hc
      · exact .inl hc
      · exact .inr (List.mem_singleton.mp hc ▸ rfl)
  | find j => exact h.find hkept j
  | push j now =>
    show (s.push j now).Marked
    rcases s.push_cases j now with heq | heq | ⟨p, uri, i, -, -, heq⟩
    · rw [heq]
      exact h
    · rw [heq]
      exact h.of_calls h.lanes (.refl _) fun c hc => .inl (List.mem_of_mem_eraseIdx hc)
    · rw [heq]
      exact h.of_calls (h.lanes.enqueue uri p now.tick) (s.node.outbox.keeps_enqueue uri p now.tick)
        fun c hc => .inl (List.mem_of_mem_eraseIdx hc)
  | depart i now => exact h.depart i now
  | land i x now spread =>
    show (s.land i x now spread).Marked
    unfold Traffic.land
    rw [land_frame]
    exact h.of_calls (h.lanes.land i _ now.tick spread) (s.node.outbox.keeps_land i _ now.tick spread) hsame
  | purge uri => exact h.of_calls (h.lanes.purge uri) (s.node.outbox.sweeps_purge uri).keeps hsame
  | registry e => exact ⟨h.lanes, h.calls⟩
  | heed j =>
    have hlanes : (s.node.heed j).outbox.Sealed := by
      rcases heed_cases s.node j with heq | ⟨p, -, heq⟩
      · rw [heq]
        exact h.lanes
      · rw [heq]
        exact h.lanes.close hkept.tidy p.uri
    exact h.of_calls hlanes (sweeps_heed hkept.tidy j).keeps hsame

theorem after (h : s.Marked) (hkept : s.Kept retry) (es : List Event) : (s.after es).Marked := by
  induction es using List.reverseRecOn with
  | nil => exact h
  | append_singleton es e ih =>
    rw [after_concat]
    exact ih.step (hkept.after es) e

end Marked

/-- Over every run, a parcel is refused on its way into the lane that its call has found exactly if that was closed
since. -/
theorem push_refused {n : Node} (hn : n.outbox = .new retry) {es : List Event} {j i : Nat} {p : Parcel} {uri : String}
    (hcall : ((of n).after es).calls[j]? = some ⟨p, uri, some i⟩) (now : Moment) :
    (((of n).after es).node.push p uri i now).1 = .error (.unknownInstance uri) ↔
      (((of n).after es).node.outbox.lane i).closed = true := by
  have hmarked := (marked_of hn).after (kept_of hn) es
  generalize (of n).after es = s at hcall hmarked
  obtain ⟨hlt, huri⟩ := hmarked.calls _ (List.mem_of_getElem? hcall) i rfl
  rw [hmarked.lanes i hlt, huri]
  rcases s.node.push_cases p uri i now with ⟨hi, heq⟩ | ⟨hi, heq⟩
  · rw [heq]
    exact ⟨fun h => (by cases h), fun h => absurd hi h⟩
  · rw [heq]
    exact ⟨fun _ => hi, fun _ => rfl⟩

/-! ## One thing at a time -/

/-- What happens at a node that does one thing at a time.  A call that queues a parcel waits for nothing, and the node
hears at once of a row that goes; errands wait for their peers, and attempts for what the peer replies, while anything
else happens. -/
inductive Act where
  | enqueue (p : Parcel) (uri : String) (now : Moment)
  | depart (lane : Nat) (now : Moment)
  | land (lane : Nat) (x : Except Failure Unit) (now : Moment) (spread : Float)
  | purge (uri : String)
  | registry (e : Registry.Event)

/-- The steps of an act. -/
def Act.events : Act → List Event
  | enqueue p uri now => [.checkIn p uri now, .find 0, .push 0 now]
  | depart i now => [.depart i now]
  | land i x now spread => [.land i x now spread]
  | purge uri => [.purge uri]
  | registry e => [.registry e, .heed 0]

/-- A call that nothing comes between queues its parcel as `Node.enqueue` does. -/
theorem after_enqueue (hcalls : s.calls = []) (p : Parcel) (uri : String) (now : Moment) :
    s.after (Act.enqueue p uri now).events = match s.node.enqueue p uri now with
      | (.error _, n) => { s with node := n }
      | (.ok (), n) => { s with
          node := n
          entered := s.entered ++ [⟨(s.node.outbox.opened uri).1, uri, p⟩]
          roll := Function.update s.roll (s.node.outbox.opened uri).1
            ((s.roll (s.node.outbox.opened uri).1).enter s.entered.length) } := by
  have hframe := s.node.checkIn_frame p uri now
  have hregistered := s.node.registered_of_checkIn p uri now
  rw [enqueue_eq]
  show ((s.checkIn p uri now).find 0).push 0 now = _
  unfold checkIn
  generalize s.node.checkIn p uri now = y at hframe hregistered
  obtain ⟨f | ⟨⟩, n⟩ := y
  · simp [find, push, hcalls]
  · obtain ⟨q, hq⟩ := hregistered rfl
    obtain ⟨hregistry, houtbox⟩ : n.registry = s.node.registry ∧ n.outbox = s.node.outbox := by
      rw [show n = _ from hframe]
      exact ⟨rfl, rfl⟩
    have hfind : find { s with node := n, calls := s.calls ++ [⟨p, uri, none⟩] } 0
        = { s with node := (n.findLane uri).2, calls := [⟨p, uri, some (n.findLane uri).1⟩] } := by
      simp [find, hcalls, hregistry, hq]
    rw [show _ = _ from hfind]
    simp only [push, List.getElem?_cons_zero, n.push_findLane p uri now, List.eraseIdx_cons_zero, hcalls]
    rw [← houtbox]
    rfl

/-- An operation on the registry that nothing comes between does what it does where removals are heeded at once. -/
theorem after_registry (hf : s.node.registry.Faithful) (htold : s.node.registry.removals = []) (e : Registry.Event) :
    s.after (Act.registry e).events = { s.sweep { s.node with registry := (s.office.step e).registry }.heedRemovals with
      errands := (s.office.step e).waiting } := by
  obtain ⟨ps, hremovals, hone, -⟩ := Registry.Office.step_announces (o := s.office) hf e
  have hps : (s.office.step e).registry.removals = ps := by
    rw [hremovals]
    exact (congrArg (· ++ ps) htold).trans (List.nil_append ps)
  have hheed : Node.heed { s.node with registry := (s.office.step e).registry } 0
      = Node.heedRemovals { s.node with registry := (s.office.step e).registry } := by
    match ps with
    | [] =>
      rw [heedRemovals_nil hps]
      unfold Node.heed
      rw [hps]
      rfl
    | [p] =>
      rw [heedRemovals_cons hps, heedRemovals_nil]
      unfold Node.heed
      rw [hps]
      rfl
    | p :: q :: ps => simp at hone
  exact congrArg (Traffic.sweep { s with
    node := { s.node with registry := (s.office.step e).registry }, errands := (s.office.step e).waiting }) hheed

/-- No call is under way, the node has heard of every row that went, and no lane is a stray. -/
structure Settled (s : Traffic) : Prop where
  calls : s.calls = []
  told : s.node.registry.removals = []
  strays : s.strays = []

namespace Settled

theorem act (h : s.Settled) (hlinked : s.Linked) (a : Act) : (s.after a.events).Settled := by
  cases a with
  | enqueue p uri now =>
    rw [after_enqueue h.calls]
    rcases heq : s.node.enqueue p uri now with ⟨f | ⟨⟩, n⟩
    · rw [enqueue_error heq]
      exact ⟨h.calls, h.told, h.strays⟩
    · rw [enqueue_ok heq]
      exact ⟨h.calls, h.told, h.strays⟩
  | depart i now =>
    show (s.depart i now).Settled
    obtain ⟨o, roll, sent, -, heq⟩ := s.depart_frame i now
    rw [heq]
    exact ⟨h.calls, h.told, h.strays⟩
  | land i x now spread =>
    show (s.land i x now spread).Settled
    unfold Traffic.land
    rw [land_frame]
    exact ⟨h.calls, h.told, h.strays⟩
  | purge uri => exact ⟨h.calls, h.told, h.strays⟩
  | registry e =>
    rw [after_registry hlinked.faithful h.told]
    exact ⟨h.calls, rfl, h.strays⟩

theorem run (h : s.Settled) (hlinked : s.Linked) (hkept : s.Kept retry) (as : List Act) :
    (s.after (as.flatMap Act.events)).Settled := by
  induction as using List.reverseRecOn with
  | nil => exact h
  | append_singleton as a ih =>
    have hrun : s.after ((as ++ [a]).flatMap Act.events) = (s.after (as.flatMap Act.events)).after a.events := by
      simp [after, List.foldl_append]
    rw [hrun]
    exact ih.act (hlinked.after hkept _) a

/-- Then a lane is in use only for a registered peer. -/
theorem live (h : s.Settled) (hlinked : s.Linked) {uri : String} {i : Nat} (hi : s.node.outbox.laneOf? uri = some i) :
    ∃ p, s.node.registry.row? uri = some p ∧ p.status = .registered := by
  rcases hlinked.live uri i hi with ⟨p, hp⟩ | ⟨p, hp, -⟩ | hstray
  · exact ⟨p, Registry.registered?_iff_status.mp hp⟩
  · rw [h.told] at hp
    cases hp
  · rw [h.strays] at hstray
    cases hstray

end Settled

/-! ## Runs -/

/-- Where the row of a peer is not registered, nothing is sent from its lane. -/
theorem sent_depart {i : Nat} (hnone : s.node.registry.registered? (s.node.outbox.lane i).uri = none) (now : Moment) :
    (s.step (.depart i now)).sent = s.sent := by
  show (s.depart i now).sent = _
  unfold Traffic.depart
  split
  · rfl
  · rcases depart_outcomes s.node i now with ⟨-, heq⟩ | ⟨f, target, t, -, htarget, -⟩ | ⟨f, -, -, heq⟩
    · rw [heq]
      exact List.append_nil _
    · rw [hnone] at htarget
      cases htarget
    · rw [heq]
      exact List.append_nil _

/-- An entry that is spent is not sent any more, and does not wait. -/
theorem Spent.ended (hkept : s.Kept retry) {k : Nat} {d : Docket} (hk : s.Spent k) (hd : s.entered[k]? = some d)
    (es : List Event) : (s.after es).sends k = s.sends k ∧ ∀ i, k ∉ ((s.after es).roll i).waiting := by
  obtain ⟨hlater, hsends⟩ := hk.after hkept (List.getElem?_eq_some_iff.mp hd).1 es
  exact ⟨hsends, fun i => (hlater i).waiting⟩

/-- A node in memory without peers. -/
def alone : Node := { (default : Node) with
  self := ⟨"a", "", "t"⟩
  registry := .inMemory ⟨"a", "", "t"⟩
  resolver := .new .inMemory Settings.standard.fallback
  signer := .keyed }

/-- A peer is added, and one parcel for it is in flight while another one waits. -/
def joining : List Act :=
  [.registry (.adds ⟨"b", "", "u", .registered, some "8", ∅⟩), .enqueue default "u" ⟨0, .epoch⟩,
    .enqueue default "u" ⟨0, .epoch⟩, .depart 0 ⟨1, .epoch⟩]

/-- The peer is added again and gets a third parcel, after which the attempt fails that was in flight. -/
def rejoining : List Act :=
  [.registry (.adds ⟨"b", "", "u", .registered, some "8", ∅⟩), .enqueue default "u" ⟨2, .epoch⟩,
    .land 0 (.error .io) ⟨3, .epoch⟩ 1.0, .depart 0 ⟨4, .epoch⟩, .depart 1 ⟨4, .epoch⟩]

/-- A call that is overtaken between its check and its look-up leaves a stray lane. -/
example :
    let s := (of alone).after [.registry (.adds ⟨"b", "", "u", .registered, some "8", ∅⟩), .checkIn default "u" ⟨0, .epoch⟩,
      .registry (.begins (.remove "u")), .heed 0, .find 0]
    s.node.outbox.laneOf? "u" = some 0 ∧ s.node.registry.row? "u" = none ∧ s.strays = [0] := by
  decide +kernel

end Traffic

end Node

end ContentMesh
