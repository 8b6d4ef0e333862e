import ContentMesh.Proofs.Peer.Pair

/-!
# ContentMesh.Proofs.Peer.LinkKey — one key for both ends of a link

Two instances ask, accept, decline, cancel and remove as they like, and any call or answer may be lost.  Two rows that
are both registered hold one key, as long as no caller goes by an answer that it is known already under another key
than the one it offered (`Event.Frank`).  Such an answer does not say the key, and the caller takes its own for it.

The invariant (`Agreed`) is about what a caller with an answer will make of it (`Answered`): it does not know what has
become of the row of its peer since, except that the peer has not asked again.
-/

namespace ContentMesh

/-- The keys of two rows fit, as far as the two have come. -/
def Stance.Agree : Stance → Stance → Prop
  | some (.registered, a), some (.registered, b) => a = b
  | some (.registered, a), some (.requesting, b) => a ≤ b
  | some (.requesting, a), some (.registered, b) => b ≤ a
  | some (.requested, a), some (.requesting, b) => a = b
  | some (.requesting, a), some (.requested, b) => a = b
  | _, _ => True

namespace Stance

variable {x y : Stance}

theorem Agree.symm (h : x.Agree y) : y.Agree x := by
  rcases x with _ | ⟨s, a⟩ <;> rcases y with _ | ⟨s', b⟩
  · trivial
  · cases s' <;> trivial
  · cases s <;> trivial
  · cases s <;> cases s' <;> first | exact Eq.symm h | exact h

theorem agree_none (x : Stance) : x.Agree none := by
  rcases x with _ | ⟨s, a⟩
  · trivial
  · cases s <;> trivial

/-- A peer that has a call out: it has no row, or one that it got meanwhile. -/
def Aloof (x : Stance) : Prop := ∀ s k, x = some (s, k) → s = .requesting

theorem aloof_none : Aloof none := fun s k h => by cases h

theorem aloof_requesting (k : String) : Aloof (some (.requesting, k)) := fun s k' h => by cases h; rfl

theorem Aloof.cases (h : x.Aloof) : x = none ∨ ∃ k, x = some (.requesting, k) := by
  rcases x with _ | ⟨s, k⟩
  · exact Or.inl rfl
  · obtain rfl := h s k rfl
    exact Or.inr ⟨k, rfl⟩

/-- A peer that has a call out waits for a caller that reaches it. -/
theorem weigh_aloof {key : String} {v : Verdict} {y : Status × String} (h : x.Aloof)
    (hweigh : x.weigh key = (v, some y)) : Aloof (some y) ∧ v.status ≠ .registered := by
  rcases h.cases with rfl | ⟨k, rfl⟩
  · cases hweigh
    exact ⟨aloof_requesting key, nofun⟩
  · cases hweigh
    exact ⟨aloof_requesting k, nofun⟩

end Stance

namespace Dealings

open Function (update)
open Stance (Aloof Agree)

variable {ids : Side → Identity} {h h' : Dealings} {x y x' : Stance} {q : Purpose} {v : Verdict}
  {held : String} {i : Side}

/-- An answer under which the key that the caller offers is the one that its peer holds. -/
def Frank (q : Purpose) (v : Verdict) (held : String) : Prop :=
  ∀ s offered, v = .known s → q.key? = some offered → offered = held

/-- What an answer of which nothing was made yet says, given how the caller and its peer stand. -/
structure Answered (x y : Stance) (q : Purpose) (v : Verdict) (held : String) : Prop where
  created : v = .created → ∀ offered, q.key? = some offered → offered = held
  waiting : v.status ≠ .registered → ∀ k, y = some (.requesting, k) → k = held
  registered : v.status = .registered → ∀ k, y ≠ some (.requesting, k)
  settled : Frank q v held → ∀ a b, q.settle v x = some (.registered, a) → y = some (.registered, b) → a = b

/-- The rows of both sides agree, and so they do after every answer that is still to come. -/
structure Agreed (h : Dealings) : Prop where
  aloof : ∀ i c, h.call i = some c → (h.standing i).Aloof
  rows : ∀ i, (h.standing i).Agree (h.standing i.other)
  answered : ∀ i q v held, h.call i = some (q, .answered v held) →
    Answered (h.standing i) (h.standing i.other) q v held
  once : ∀ i q v held q' v' held', h.call i = some (q, .answered v held) →
    h.call i.other = some (q', .answered v' held') → v.status = .registered → v'.status ≠ .registered

/-! ## Answers -/

theorem Answered.of_none (ha : Answered x y q v held) : Answered x none q v held where
  created := ha.created
  waiting _ k hk := by cases hk
  registered _ k hk := by cases hk
  settled _ a b _ hb := by cases hb

/-- The row of a caller does not matter as long as its peer is not registered with it. -/
theorem Answered.of_aloof (ha : Answered x y q v held) (hy : y.Aloof) (x' : Stance) :
    Answered x' y q v held where
  created := ha.created
  waiting := ha.waiting
  registered := ha.registered
  settled _ a b _ hb := by
    have hs := hy _ _ hb
    cases hs

/-- A peer that is not registered with the caller holds the key that the caller offers. -/
theorem Answered.offer (ha : Answered x y q v held) (hf : Frank q v held) (hv : v.status ≠ .registered)
    {offered : String} (ho : q.key? = some offered) : offered = held := by
  cases v with
  | created => exact ha.created rfl offered ho
  | confirmed k => exact absurd rfl hv
  | known s => exact hf s offered rfl ho

/-- What is settled by an answer that leaves the caller unregistered with its peer. -/
theorem settle_of_waiting (hv : v.status ≠ .registered) (hx : x.Aloof) :
    q.settle v x = x ∨ (∃ k, q.key? = some k ∧ q.settle v x = some (.requested, k)) ∨
      ∃ k j, q.key? = some k ∧ x = some (.requesting, j) ∧ q.settle v x = some (.registered, min k j) := by
  have hkey : ∀ k, v.key k = k := by
    intro k
    cases v with
    | confirmed k' => exact absurd rfl hv
    | _ => rfl
  rcases hx.cases with rfl | ⟨j, rfl⟩
  · cases q with
    | ask k => exact Or.inr (Or.inl ⟨k, rfl, by simp only [Purpose.settle, if_neg hv, hkey]⟩)
    | accept k => exact Or.inl rfl
    | leave => exact Or.inl rfl
  · cases q with
    | ask k => exact Or.inr (Or.inr ⟨k, j, rfl, rfl, by simp only [Purpose.settle, hkey]⟩)
    | accept k =>
      cases v with
      | created => exact Or.inr (Or.inl ⟨k, rfl, rfl⟩)
      | confirmed k' => exact absurd rfl hv
      | known s =>
        cases s with
        | registered => exact absurd rfl hv
        | _ => exact Or.inl rfl
    | leave => exact Or.inl rfl

/-- No answer makes a peer ask. -/
theorem settle_eq_requesting {a : String} (h : q.settle v x = some (.requesting, a)) : x = some (.requesting, a) := by
  cases q with
  | leave => exact h
  | ask k =>
    rcases x with _ | ⟨s, j⟩
    · simp only [Purpose.settle, Option.some.injEq, Prod.mk.injEq] at h
      by_cases hv : v.status = .registered
      · rw [if_pos hv] at h
        cases h.1
      · rw [if_neg hv] at h
        cases h.1
    · cases s with
      | requesting => cases h
      | _ => exact h
  | accept k =>
    rcases x with _ | ⟨s, j⟩
    · exact h
    · cases s with
      | requesting =>
        cases v with
        | created => cases h
        | confirmed k' => cases h
        | known s =>
          cases s with
          | registered => cases h
          | _ => exact h
      | _ => exact h

/-- What a caller makes of its answer agrees with the row of its peer. -/
theorem Answered.agree (ha : Answered x y q v held) (hf : Frank q v held) (hx : x.Aloof) (hxy : x.Agree y) :
    (q.settle v x).Agree y := by
  have hsame : ∀ {a}, q.settle v x = some (.requesting, a) → Agree (some (.requesting, a)) y := by
    intro a hs
    rw [← settle_eq_requesting hs]
    exact hxy
  rcases y with _ | ⟨s, b⟩
  · exact Stance.agree_none _
  · cases s with
    | registered =>
      rcases hs : q.settle v x with _ | ⟨s, a⟩
      · trivial
      · cases s with
        | registered => exact ha.settled hf a b hs rfl
        | requested => trivial
        | requesting => exact hsame hs
    | requested =>
      rcases hs : q.settle v x with _ | ⟨s, a⟩
      · trivial
      · cases s with
        | registered => trivial
        | requested => trivial
        | requesting => exact hsame hs
    | requesting =>
      have hv : v.status ≠ .registered := fun hv => ha.registered hv b rfl
      have hb : b = held := ha.waiting hv b rfl
      rcases settle_of_waiting hv hx with hs | ⟨k, hk, hs⟩ | ⟨k, j, hk, -, hs⟩
      · rw [hs]
        exact hxy
      · rw [hs, hb]
        exact ha.offer hf hv hk
      · rw [hs, hb, ha.offer hf hv hk]
        exact min_le_left held j

/-- What is settled by an answer that registers the caller with its peer. -/
theorem settle_of_registered {a : String} (hv : v.status = .registered) (hx : x.Aloof)
    (hs : q.settle v x = some (.registered, a)) :
    ∃ o, q.key? = some o ∧ (a = v.key o ∨ ∃ j, x = some (.requesting, j) ∧ a = min (v.key o) j) := by
  rcases hx.cases with rfl | ⟨j, rfl⟩
  · cases q with
    | ask o =>
      simp only [Purpose.settle, if_pos hv, Option.some.injEq, Prod.mk.injEq, true_and] at hs
      exact ⟨o, rfl, Or.inl hs.symm⟩
    | accept o => cases hs
    | leave => cases hs
  · cases q with
    | ask o =>
      cases hs
      exact ⟨o, rfl, Or.inr ⟨j, rfl, rfl⟩⟩
    | accept o =>
      refine ⟨o, rfl, Or.inl ?_⟩
      cases v with
      | created => cases hv
      | confirmed k =>
        cases hs
        rfl
      | known s =>
        have hknown : s = .registered := hv
        subst hknown
        cases hs
        rfl
    | leave => cases hs

/-- The answer of a peer that waits for the caller. -/
theorem answered_requesting {k : String} (hv : v.status ≠ .registered)
    (hcreated : v = .created → ∀ offered, q.key? = some offered → offered = k) :
    Answered x (some (.requesting, k)) q v k where
  created := hcreated
  waiting _ j hj := by
    cases hj
    rfl
  registered hv' := absurd hv' hv
  settled _ a b _ hb := by cases hb

/-- The answer of a peer that is registered with the caller. -/
theorem answered_registered {k : String} (hv : v.status = .registered) (hx : x.Aloof)
    (hxy : x.Agree (some (.registered, k))) (hoffer : Frank q v k → ∀ o, q.key? = some o → v.key o = k) :
    Answered x (some (.registered, k)) q v k where
  created hc := by
    rw [hc] at hv
    cases hv
  waiting hv' := absurd hv hv'
  registered _ j hj := by cases hj
  settled hf a b hs hb := by
    cases hb
    obtain ⟨o, ho, ha | ⟨j, rfl, ha⟩⟩ := settle_of_registered hv hx hs
    · rw [ha, hoffer hf o ho]
    · have hle : k ≤ j := hxy
      rw [ha, hoffer hf o ho]
      exact min_eq_left hle

/-- A call that reaches its peer: the rows agree after it, and the answer fits. -/
theorem answered_weigh {key : String} {y' : Status × String} (hx : x.Aloof) (hxy : x.Agree y)
    (hkey : q.key? = some key) (hweigh : y.weigh key = (v, some y')) :
    x.Agree (some y') ∧ Answered x (some y') q v y'.2 := by
  rcases y with _ | ⟨s, k⟩
  · cases hweigh
    refine ⟨?_, answered_requesting nofun fun _ o ho => Option.some.inj (ho.symm.trans hkey)⟩
    rcases hx.cases with rfl | ⟨j, rfl⟩ <;> trivial
  · cases s with
    | requesting =>
      cases hweigh
      exact ⟨hxy, answered_requesting nofun nofun⟩
    | registered =>
      cases hweigh
      refine ⟨hxy, answered_registered rfl hx hxy fun hf o ho => ?_⟩
      exact hf _ o rfl ho
    | requested =>
      cases hweigh
      have hagree : x.Agree (some (.registered, min k key)) := by
        rcases hx.cases with rfl | ⟨j, rfl⟩
        · trivial
        · obtain rfl : j = k := hxy
          exact min_le_left j key
      exact ⟨hagree, answered_registered rfl hx hagree fun _ _ _ => rfl⟩

/-- Both have an answer, and one of them settles. -/
theorem Answered.settle {q' : Purpose} {v' : Verdict} {held' : String} (ha : Answered x y q v held)
    (ha' : Answered y x q' v' held') (hf : Frank q v held) (hx : x.Aloof) (hy : y.Aloof)
    (honce : v.status = .registered → v'.status ≠ .registered) : Answered y (q.settle v x) q' v' held' := by
  refine ⟨ha'.created, fun hv k hk => ha'.waiting hv k (settle_eq_requesting hk),
    fun hv k hk => ha'.registered hv k (settle_eq_requesting hk), fun hf' a b hs hb => ?_⟩
  by_cases hv : v.status = .registered
  · -- the peer has no row, and its own answer registers nobody
    have hnone : y = none := hy.cases.resolve_right fun ⟨k, hk⟩ => ha.registered hv k hk
    rcases settle_of_waiting (honce hv) hy with hs' | ⟨k, -, hs'⟩ | ⟨k, j, -, hyj, -⟩
    · rw [hs', hnone] at hs
      cases hs
    · rw [hs'] at hs
      cases hs
    · rw [hnone] at hyj
      cases hyj
  · rcases settle_of_waiting hv hx with hs' | ⟨k, -, hs'⟩ | ⟨k, j, hk, hxj, hs'⟩
    · rw [hs'] at hb
      cases hx _ _ hb
    · rw [hs'] at hb
      cases hb
    · -- both have asked, and each has the key of the other
      have hv' : v'.status ≠ .registered := fun hv' => ha'.registered hv' j hxj
      rcases settle_of_waiting hv' hy with hs'' | ⟨k', -, hs''⟩ | ⟨k', j', hk', hyj, hs''⟩
      · rw [hs''] at hs
        cases hy _ _ hs
      · rw [hs''] at hs
        cases hs
      · have hkj : k = j' := (ha.offer hf hv hk).trans (ha.waiting hv j' hyj).symm
        have hkj' : k' = j := (ha'.offer hf' hv' hk').trans (ha'.waiting hv' j hxj).symm
        rw [hs'] at hb
        rw [hs''] at hs
        cases hb
        cases hs
        rw [hkj, hkj', min_comm]

/-! ## Moves -/

/-- One side changes: its row, its call, or both. -/
theorem Agreed.put (hI : Agreed h) {c : Option (Purpose × Phase)} (haloof : c ≠ none → x.Aloof)
    (hrows : x.Agree (h.standing i.other))
    (hmine : ∀ q v held, c = some (q, .answered v held) → Answered x (h.standing i.other) q v held)
    (htheirs : ∀ q v held, h.call i.other = some (q, .answered v held) → Answered (h.standing i.other) x q v held)
    (honce : ∀ q v held q' v' held', c = some (q, .answered v held) →
      h.call i.other = some (q', .answered v' held') → ¬ (v.status = .registered ∧ v'.status = .registered)) :
    Agreed ⟨update h.standing i x, update h.call i c⟩ := by
  refine ⟨fun j c' hc => ?_, fun j => ?_, fun j q v held hc => ?_, fun j q v held q' v' held' hc hc' hv hv' => ?_⟩
  all_goals
    dsimp only at *
    rcases i.eq_or_other j with rfl | rfl
    all_goals simp only [Side.other_other, Function.update_self,
      Function.update_of_ne (Side.other_ne _)] at *
  · exact haloof (by rw [hc]; exact Option.some_ne_none c')
  · exact hI.aloof _ c' hc
  · exact hrows
  · exact hrows.symm
  · exact hmine q v held hc
  · exact htheirs q v held hc
  · exact honce q v held q' v' held' hc hc' ⟨hv, hv'⟩
  · exact honce q' v' held' q v held hc' hc ⟨hv', hv⟩

/-- An answer of the peer, as the peer sees it. -/
theorem Agreed.theirs (hI : Agreed h) (hc : h.call i.other = some (q, .answered v held)) :
    Answered (h.standing i.other) (h.standing i) q v held := by
  have ha := hI.answered i.other q v held hc
  rwa [Side.other_other] at ha

/-- The row of a side changes, and the peer has no answer or does not mind. -/
theorem Agreed.turn (hI : Agreed h) (haloof : h.call i ≠ none → x.Aloof) (hrows : x.Agree (h.standing i.other))
    (hmine : ∀ q v held, h.call i = some (q, .answered v held) → Answered x (h.standing i.other) q v held)
    (htheirs : ∀ q v held, h.call i.other = some (q, .answered v held) → Answered (h.standing i.other) x q v held) :
    Agreed { h with standing := update h.standing i x } := by
  have hput : Agreed ⟨update h.standing i x, update h.call i (h.call i)⟩ :=
    hI.put haloof hrows hmine htheirs fun q v held q' v' held' hc hc' hv => hI.once i _ _ _ _ _ _ hc hc' hv.1 hv.2
  rwa [Function.update_eq_self] at hput

/-- A call comes further. -/
theorem Agreed.travel (hI : Agreed h) {c : Option (Purpose × Phase)} (haloof : c ≠ none → (h.standing i).Aloof)
    (hmine : ∀ q v held, c = some (q, .answered v held) → Answered (h.standing i) (h.standing i.other) q v held)
    (honce : ∀ q v held q' v' held', c = some (q, .answered v held) →
      h.call i.other = some (q', .answered v' held') → ¬ (v.status = .registered ∧ v'.status = .registered)) :
    Agreed { h with call := update h.call i c } := by
  have hput : Agreed ⟨update h.standing i (h.standing i), update h.call i c⟩ :=
    hI.put haloof (hI.rows i) hmine (fun q v held hc => hI.theirs hc) honce
  rwa [Function.update_eq_self] at hput

/-- A call that was not answered, or of which nothing is made. -/
theorem Agreed.drop (hI : Agreed h) {c : Option (Purpose × Phase)} (haloof : c ≠ none → (h.standing i).Aloof)
    (hc : ∀ q v held, c ≠ some (q, .answered v held)) : Agreed { h with call := update h.call i c } :=
  hI.travel haloof (fun q v held h => absurd h (hc q v held)) fun q v held _ _ _ h => absurd h (hc q v held)

end Dealings

namespace Pair

open Dealings (Move Agreed)
open Function (update)

variable {ids : Side → Identity} {s t : Pair} {h h' : Dealings} {e : Event} {es : List Event}

/-- No caller goes by an answer that it is known already, while its peer holds another key than the caller offers. -/
def Event.Frank : Event → Prop
  | returns _ f _ => ∀ a uri q, f.reply = some (.answer a) → a.outcome = .alreadyKnown →
      f.call = .register uri q → f.held = q.key
  | _ => True

theorem Event.Frank.of_bears {me peer : Identity} {i : Side} {f : Trip} {x : Except Failure Bool} {q : Purpose}
    {v : Verdict} {held : String} (he : (Event.returns i f x).Frank) (hf : f.Bears me peer q (.answered v held)) :
    Dealings.Frank q v held := by
  rintro s offered rfl hq
  cases hf with
  | answered hw v held =>
    have hcall : q.call me peer = .register peer.uri (.of me (some offered)) := by
      cases q <;> cases hq <;> rfl
    exact (Option.some.inj (he _ _ _ rfl rfl hcall)).symm

/-- An errand sets out with the row that is there, or without one. -/
theorem opens_cases {q : Purpose} {e : Errand} {x x' : Stance} (h : q.Opens e x x') :
    x' = none ∨ x' = x ∧ x.Aloof := by
  cases h with
  | ask uri key => exact Or.inl rfl
  | accept uri key => exact Or.inr ⟨rfl, Stance.aloof_requesting key⟩
  | leave e y hl => exact Or.inl rfl

theorem agreed_move (he : e.Frank) (hI : Agreed h) (hmove : Move ids h e h') : Agreed h' := by
  cases hmove with
  | @begins i e q x hfree hopen =>
    have hx : x.Aloof ∧ x.Agree (h.standing i.other) ∧ ∀ {q v held}, h.call i.other = some (q, .answered v held) →
        Dealings.Answered (h.standing i.other) x q v held := by
      rcases opens_cases hopen with rfl | ⟨rfl, ha⟩
      · exact ⟨Stance.aloof_none, (Stance.agree_none _).symm, fun hc => (hI.theirs hc).of_none⟩
      · exact ⟨ha, hI.rows i, hI.theirs⟩
    exact hI.put (fun _ => hx.1) hx.2.1 nofun (fun _ _ _ hc => hx.2.2 hc) nofun
  | refuses i e => exact hI
  | @admitted i q key hcall hkey v y hweigh =>
    have hx := hI.aloof i _ hcall
    obtain ⟨hrows, hmine⟩ := Dealings.answered_weigh hx (hI.rows i) hkey hweigh
    have hnone : ∀ q' v' held', h.call i ≠ some (q', .answered v' held') := by
      intro q' v' held' hc
      rw [hcall] at hc
      cases hc
    -- a peer that has a call out has no row for the caller yet, or waits for it
    have hpeer : h.call i.other ≠ none → Stance.Aloof (some y) ∧ v.status ≠ .registered := by
      intro hc
      obtain ⟨c, hc⟩ := Option.ne_none_iff_exists'.mp hc
      exact Stance.weigh_aloof (hI.aloof i.other c hc) hweigh
    have hturn : Agreed { h with standing := update h.standing i.other (some y) } := by
      refine hI.turn (fun hc => (hpeer hc).1) ?_ (fun q' v' held' hc => ?_) fun q' v' held' hc => ?_
      · rw [Side.other_other]
        exact hrows.symm
      · rw [Side.other_other]
        exact (hI.theirs hc).of_aloof hx (some y)
      · rw [Side.other_other] at hc
        exact absurd hc (hnone q' v' held')
    refine hturn.travel (fun _ => ?_) (fun q' v' held' hc => ?_) fun q' v' held' q'' v'' held'' hc hc' hv => ?_
    · simpa using hx
    · cases hc
      simpa using hmine
    · cases hc
      exact (hpeer (by rw [hc']; exact Option.some_ne_none _)).2 hv.1
  | @ignored i q call reply hcall hreply => exact hI.drop (fun _ => hI.aloof i _ hcall) nofun
  | @dismissed i call reply hcall hreply =>
    have hx := hI.aloof i _ hcall
    have hturn : Agreed { h with standing := update h.standing i.other none } := by
      refine hI.turn (fun _ => Stance.aloof_none) (Stance.agree_none _).symm (fun q v held hc => ?_)
        fun q v held hc => ?_
      · rw [Side.other_other]
        exact (hI.theirs hc).of_aloof hx none
      · rw [Side.other_other, hcall] at hc
        cases hc
    refine hturn.drop (fun _ => ?_) nofun
    simpa using hx
  | @settles i q v held f b hcall hf =>
    have hx := hI.aloof i _ hcall
    have hmine := hI.answered i q v held hcall
    have hfrank := he.of_bears hf
    refine hI.put nofun (hmine.agree hfrank hx (hI.rows i)) nofun (fun q' v' held' hc => ?_) nofun
    have hy := hI.aloof i.other _ hc
    exact hmine.settle (hI.theirs hc) hfrank hx hy (hI.once i _ _ _ _ _ _ hcall hc)
  | lapses hcall hf hx => exact hI.drop nofun nofun
  | fails hcall hf => exact hI.drop nofun nofun

theorem agreed_fresh : Agreed .fresh where
  aloof _ _ hc := by cases hc
  rows _ := trivial
  answered _ _ _ _ hc := by cases hc
  once _ _ _ _ _ _ _ hc := by cases hc

/-- Rows that are registered with each other hold one key. -/
theorem same_link_key (hrun : Run s es t) (hs : s.Strangers) (hes : ∀ e ∈ es, e.Frank) {p q : Peer}
    (hp : (t.registry .near).row? (t.self .far).uri = some p) (hps : p.status = .registered)
    (hq : (t.registry .far).row? (t.self .near).uri = some q) (hqs : q.status = .registered) :
    p.receiveKey = q.receiveKey := by
  obtain ⟨h, hI, hh⟩ := hrun.invariant hs hes agreed_fresh fun he hI hmove => agreed_move he hI hmove
  obtain ⟨a, hnear, ha⟩ := (hh.kept .near).of_row hp
  obtain ⟨b, hfar, hb⟩ := (hh.kept .far).of_row hq
  have hrows : (h.standing .near).Agree (h.standing .far) := hI.rows .near
  rw [hnear, hps, hfar, hqs] at hrows
  have hab : a = b := hrows
  rw [ha, hb, hab]

/-- A request that was accepted, of which the confirmation was lost at first. -/
theorem accepted_again : ∃ es t p q, Run (fresh ⟨"a", "", "u"⟩ ⟨"b", "", "v"⟩) es t ∧ (∀ e ∈ es, e.Frank) ∧
    (t.registry .near).row? (t.self .far).uri = some p ∧ p.status = .registered ∧
    (t.registry .far).row? (t.self .near).uri = some q ∧ q.status = .registered := by
  have asked := ((Run.start (s := fresh ⟨"a", "", "u"⟩ ⟨"b", "", "v"⟩)).next
    (.begins _ .near (.request "v" "1") rfl rfl)).next (.arrives (l := []) _ .near rfl rfl rfl)
  have requested := asked.next (.returns (l := []) (x := .ok true) _ .near rfl rfl rfl)
  have confirmed := (requested.next (.begins _ .far (.accept "u") rfl rfl)).next (.arrives (l := []) _ .far rfl rfl rfl)
  have lost := confirmed.next (.fails (l := []) (x := .error .io) _ .far .io rfl rfl)
  have again := (lost.next (.begins _ .far (.accept "u") rfl rfl)).next (.arrives (l := []) _ .far rfl rfl rfl)
  have settled := again.next (.returns (l := []) (x := .ok true) _ .far rfl rfl rfl)
  refine ⟨_, _, _, _, settled, ?_, rfl, rfl, rfl, rfl⟩
  simp only [List.forall_mem_cons]
  refine ⟨fun a uri q ha _ hq => ?_, trivial, trivial, trivial, trivial, trivial, fun a uri q ha hk hq => ?_, trivial,
    trivial, List.forall_mem_nil _⟩
  · cases hq
    rfl
  · cases ha
    cases hk

theorem same_link_key_accepted_again : ∃ es t p q, Run (fresh ⟨"a", "", "u"⟩ ⟨"b", "", "v"⟩) es t ∧
    (t.registry .near).registered? (t.self .far).uri = some p ∧
    (t.registry .far).registered? (t.self .near).uri = some q ∧ p.receiveKey = q.receiveKey := by
  obtain ⟨es, t, p, q, hrun, hes, hp, hps, hq, hqs⟩ := accepted_again
  refine ⟨es, t, p, q, hrun, ?_, ?_, same_link_key hrun (strangers_fresh (by decide)) hes hp hps hq hqs⟩
  · rw [Registry.registered?, hp, Option.filter_some, Peer.isRegistered, hps]
    rfl
  · rw [Registry.registered?, hq, Option.filter_some, Peer.isRegistered, hqs]
    rfl

/-- A request that is answered with nothing but that the caller is known already leaves each end with its own key. -/
theorem link_keys_differ : ∃ es t, Run (fresh ⟨"a", "", "u"⟩ ⟨"b", "", "v"⟩) es t ∧
    t.Keeps .near (some (.registered, "2")) ∧ t.Keeps .far (some (.registered, "1")) := by
  have asked := ((Run.start (s := fresh ⟨"a", "", "u"⟩ ⟨"b", "", "v"⟩)).next
    (.begins _ .near (.request "v" "1") rfl rfl)).next (.arrives (l := []) _ .near rfl rfl rfl)
  have requested := asked.next (.returns (l := []) (x := .ok true) _ .near rfl rfl rfl)
  have accepted := (requested.next (.begins _ .far (.accept "u") rfl rfl)).next (.arrives (l := []) _ .far rfl rfl rfl)
  have registered := accepted.next (.returns (l := []) (x := .ok true) _ .far rfl rfl rfl)
  have removed := (registered.next (.begins _ .near (.remove "v") rfl rfl)).next
    (.fails (l := []) (x := .ok true) _ .near .io rfl rfl)
  have again := (removed.next (.begins _ .near (.request "v" "2") rfl rfl)).next
    (.arrives (l := []) _ .near rfl rfl rfl)
  have settled := again.next (.returns (l := []) (x := .ok true) _ .near rfl rfl rfl)
  exact ⟨_, _, settled, ⟨_, rfl⟩, ⟨_, rfl⟩⟩

end Pair

end ContentMesh
