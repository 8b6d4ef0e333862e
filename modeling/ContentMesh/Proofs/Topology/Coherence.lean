import ContentMesh.Proofs.Storage.Calls
import ContentMesh.Proofs.Topology.Eviction
import ContentMesh.Proofs.Topology.Hierarchy

/-!
# ContentMesh.Proofs.Topology.Coherence — kept answers never go stale unnoticed

Any number of callers resolve entities, invalidate them and change their rules, where a change is a write of the
table and, later, an invalidation.  In between, answers may be stale.  The invariant (`Coherent`) ties the table, the
answers and the lists of dependants together: an answer that was taken over stands in the list of its parent's
answer, and an answer that differs from the table hangs, through answers that were taken over, under an entity whose
invalidation is still to come.  So once no caller is inside a change, an answer is what the table says.
-/

namespace ContentMesh

namespace Resolver

open Entity

/-! ## Runs -/

/-- A resolver in the hands of its callers; `pending` are the changes that wait for their second half. -/
structure Shared where
  resolver : Resolver
  pending : List Entity

/-- An entity that some text names. -/
def Readable (e : Entity) : Prop := ∃ t, ofText? t = some e

/-- What a caller does: resolve, invalidate, one half of a change.  A table whose write fails is not changed, and
calls of it may be made to fail at any time. -/
inductive Step : Shared → Shared → Prop where
  | resolve (s : Shared) {e : Entity} (he : Readable e) : Step s ⟨(s.resolver.resolve e).2, s.pending⟩
  | invalidate (s : Shared) {e : Entity} (he : Readable e) : Step s ⟨s.resolver.invalidate e, s.pending⟩
  | write (s : Shared) {e : Entity} {rules : Option Rules} (he : Readable e)
      (hw : (s.resolver.write e rules).1 = .ok ()) : Step s ⟨(s.resolver.write e rules).2, e :: s.pending⟩
  | refused (s : Shared) {e : Entity} {rules : Option Rules} {f : Failure} (he : Readable e)
      (hw : (s.resolver.write e rules).1 = .error f) : Step s ⟨(s.resolver.write e rules).2, s.pending⟩
  | finish (s : Shared) {e : Entity} (he : e ∈ s.pending) :
      Step s ⟨s.resolver.invalidate e, s.pending.erase e⟩
  | fail (s : Shared) (faults : Faults) :
      Step s ⟨{ s.resolver with store.faults := faults }, s.pending⟩

/-- The states that callers can lead a new resolver to. -/
inductive Reachable (store : Store Rules) (fallback : Rules) : Shared → Prop where
  | start : Reachable store fallback ⟨.new store fallback, []⟩
  | next {s t : Shared} : Reachable store fallback s → Step s t → Reachable store fallback t

/-! ## The invariant -/

/-- An answer depends on that of `x`: it is that of `x`, or was taken over from one that depends on it. -/
inductive Hangs (as : Answers) : Entity → Entity → Prop where
  | here (x : Entity) : Hangs as x x
  | above {e p x : Entity} {a : Answered} (he : as.get? e = some a) (hi : a.resolved.inherited = true)
      (hp : e.parent? = some p) (h : Hangs as p x) : Hangs as e x

/-- The table, the answers and the lists of dependants fit together, up to the invalidations to come. -/
structure Coherent (rows : Dict Rules) (fallback : Rules) (as : Answers) (pending : List Entity) : Prop where
  named : ∀ e a, as.get? e = some a → e.WellNamed
  listed : ∀ e a p, as.get? e = some a → a.resolved.inherited = true → e.parent? = some p →
    ∃ b, as.get? p = some b ∧ e ∈ b.children
  current : ∀ e a, as.get? e = some a →
    a.resolved = lookup rows fallback e ∨ ∃ x ∈ pending, Hangs as e x

variable {rows : Dict Rules} {fallback : Rules} {as : Answers} {pending : List Entity}

theorem coherent_empty : Coherent rows fallback [] pending where
  named e a h := by cases h
  listed e a p h := by cases h
  current e a h := by cases h

/-- Answers only move on to where they were: what hangs under `x` still does. -/
theorem Hangs.mono {as' : Answers} {e x : Entity} (h : Hangs as e x)
    (hk : ∀ e a, as.get? e = some a → ∃ b, as'.get? e = some b ∧ b.resolved = a.resolved) : Hangs as' e x := by
  induction h with
  | here x => exact .here x
  | above he hi hp _ ih =>
    obtain ⟨b, hb, hr⟩ := hk _ _ he
    exact .above hb (hr ▸ hi) hp ih

/-! ## Invalidating -/

/-- Among answers that an eviction left, what hung under `x` still does. -/
theorem Hangs.evicted {as' : Answers} {e x : Entity} {a : Answered} (hc : Coherent rows fallback as pending)
    (hev : Answers.Evicted as as') (h : Hangs as e x) (he : as'.get? e = some a) :
    Hangs as' e x ∧ (x = e ∨ ∃ b, as'.get? x = some b) := by
  induction h generalizing a with
  | here x => exact ⟨.here x, Or.inl rfl⟩
  | above he' hi hp _ ih =>
    have ha := hev.of_some he
    rw [ha] at he'
    cases he'
    obtain ⟨b, hb, hmem⟩ := hc.listed _ _ _ ha hi hp
    rcases hev.kept _ with hk | hk
    · obtain ⟨h1, h2⟩ := ih (hk.trans hb)
      refine ⟨.above he hi hp h1, Or.inr ?_⟩
      rcases h2 with rfl | h2
      · exact ⟨b, hk.trans hb⟩
      · exact h2
    · -- the parent's answer is gone, so this one is gone with it
      rw [hev.closed _ b hb hk _ hmem _ ha hi] at he
      cases he

/-- The invariant looks at the answers, and at the lists of dependants only as far as these have answers. -/
theorem Coherent.relist {as' : Answers} (h : Coherent rows fallback as pending)
    (hback : ∀ e a, as'.get? e = some a → ∃ b, as.get? e = some b ∧ a.resolved = b.resolved)
    (hkept : ∀ e b, as.get? e = some b → ∃ a, as'.get? e = some a ∧ a.resolved = b.resolved ∧
      ∀ c ∈ b.children, as.get? c ≠ none → c ∈ a.children) : Coherent rows fallback as' pending := by
  refine ⟨fun e a he => ?_, fun e a q he hi hq => ?_, fun e a he => ?_⟩
  · obtain ⟨b, hb, -⟩ := hback e a he
    exact h.named e b hb
  · obtain ⟨b, hb, hr⟩ := hback e a he
    obtain ⟨d, hd, hmem⟩ := h.listed e b q hb (hr ▸ hi) hq
    obtain ⟨d', hd', -, hchildren⟩ := hkept q d hd
    exact ⟨d', hd', hchildren e hmem (by rw [hb]; exact Option.some_ne_none b)⟩
  · obtain ⟨b, hb, hr⟩ := hback e a he
    rw [hr]
    refine (h.current e b hb).imp_right fun ⟨x, hx, hh⟩ => ⟨x, hx, hh.mono fun e a he => ?_⟩
    obtain ⟨a', ha', hr', -⟩ := hkept e a he
    exact ⟨a', ha', hr'⟩

theorem Coherent.dropChild {p c : Entity} (h : Coherent rows fallback as pending) (hc : as.get? c = none) :
    Coherent rows fallback (as.dropChild p c) pending := by
  refine h.relist (fun e a he => ?_) fun e b hb => ?_
  · rw [Answers.get?_dropChild] at he
    obtain ⟨b, hb, rfl⟩ := Option.map_eq_some_iff.mp he
    refine ⟨b, hb, ?_⟩
    split <;> rfl
  · rw [Answers.get?_dropChild, hb, Option.map_some]
    refine ⟨_, rfl, by split <;> rfl, fun d hd hkept => ?_⟩
    have hne : d ≠ c := fun hdc => hkept (hdc ▸ hc)
    split
    · exact List.mem_filter.mpr ⟨hd, by simp [hne]⟩
    · exact hd

/-- An invalidation keeps the invariant, and is one that no answer waits for any more. -/
theorem Coherent.invalidate {as' : Answers} {x : Entity} {pending' : List Entity}
    (h : Coherent rows fallback as pending) (hev : Answers.Evicted as as') (hx : as'.get? x = none)
    (hp : ∀ y ∈ pending, y = x ∨ y ∈ pending') : Coherent rows fallback as' pending' := by
  refine ⟨fun e a he => h.named e a (hev.of_some he), fun e a q he hi hq => ?_, fun e a he => ?_⟩
  · obtain ⟨b, hb, hmem⟩ := h.listed e a q (hev.of_some he) hi hq
    rcases hev.kept q with hk | hk
    · exact ⟨b, hk.trans hb, hmem⟩
    · rw [hev.closed q b hb hk e hmem a (hev.of_some he) hi] at he
      cases he
  · refine (h.current e a (hev.of_some he)).imp_right fun ⟨y, hy, hh⟩ => ?_
    obtain ⟨h1, h2⟩ := hh.evicted h hev he
    rcases hp y hy with rfl | hy'
    · rcases h2 with rfl | ⟨b, hb⟩
      · rw [hx] at he; cases he
      · rw [hx] at hb; cases hb
    · exact ⟨y, hy', h1⟩

/-- The invariant of a resolver. -/
def Sound (r : Resolver) (pending : List Entity) : Prop :=
  Coherent r.store.rows r.fallback r.answers pending

theorem Sound.invalidate {r : Resolver} {x : Entity} {pending' : List Entity} (h : r.Sound pending)
    (hp : ∀ y ∈ pending, y = x ∨ y ∈ pending') : (r.invalidate x).Sound pending' := by
  obtain ⟨hev, hx, -⟩ := Answers.evicted_evict r.answers.length r.answers x (Nat.le_refl _)
  have hc := Coherent.invalidate h hev hx hp
  unfold Sound Resolver.invalidate
  cases x.parent? with
  | none => exact hc
  | some p => exact hc.dropChild hx

/-! ## Resolving -/

theorem resolve_kept {r : Resolver} {e : Entity} {a : Answered} (h : r.answers.get? e = some a) :
    r.resolve e = (.ok a.resolved, r) := by
  obtain ⟨es, hes⟩ := line_eq_cons e
  rw [resolve, ← line, hes, resolveAlong, h]

section Missed

variable {r : Resolver} {e p : Entity} {st : Store Rules}

theorem resolve_failed {f : Failure} (h : r.answers.get? e = none) (hg : r.store.get e.text = (.error f, st)) :
    r.resolve e = (.error f, { r with store := st }) := by
  obtain ⟨es, hes⟩ := line_eq_cons e
  rw [resolve, ← line, hes, resolveAlong, h, hg]

theorem resolve_own {rules : Rules} (h : r.answers.get? e = none)
    (hg : r.store.get e.text = (.ok (some rules), st)) :
    r.resolve e = (.ok ⟨rules, false, some e⟩, (keep { r with store := st } e ⟨rules, false, some e⟩).2) := by
  obtain ⟨es, hes⟩ := line_eq_cons e
  rw [resolve, ← line, hes, resolveAlong, h, hg]
  rfl

theorem resolve_root (h : r.answers.get? e = none) (hg : r.store.get e.text = (.ok none, st))
    (hp : e.parent? = none) :
    r.resolve e = (.ok ⟨r.fallback, true, none⟩, (keep { r with store := st } e ⟨r.fallback, true, none⟩).2) := by
  rw [resolve, ← line, line_of_root hp, resolveAlong, h, hg]
  rfl

/-- Without rules of its own an entity takes over the answer of its parent and is listed with it. -/
theorem resolve_child (h : r.answers.get? e = none) (hg : r.store.get e.text = (.ok none, st))
    (hp : e.parent? = some p) :
    r.resolve e = match resolve { r with store := st } p with
      | (.error f, r) => (.error f, r)
      | (.ok above, r) =>
        (.ok { above with inherited := true },
          (keep { r with answers := r.answers.addChild p e } e { above with inherited := true }).2) := by
  obtain ⟨es, hes⟩ := line_eq_cons p
  have hpline : resolve { r with store := st } p = resolveAlong { r with store := st } (p :: es) := by
    rw [resolve, ← line, hes]
  rw [hpline, resolve, ← line, line_of_child hp, hes, resolveAlong.eq_def r (e :: p :: es)]
  simp only [h, hg]
  rcases resolveAlong { r with store := st } (p :: es) with ⟨x, r'⟩
  cases x <;> rfl

end Missed

/-- A new answer keeps the invariant if it is listed where it depends on another one and it is what the table says or
hangs under a change. -/
theorem Coherent.insert {e : Entity} {a : Resolved} (h : Coherent rows fallback as pending) (hn : as.get? e = none)
    (he : e.WellNamed)
    (hl : a.inherited = true → ∀ p, e.parent? = some p → ∃ b, as.get? p = some b ∧ e ∈ b.children)
    (hcur : a = lookup rows fallback e ∨ ∃ x ∈ pending, Hangs (as.insert e ⟨a, []⟩) e x) :
    Coherent rows fallback (as.insert e ⟨a, []⟩) pending := by
  have hold : ∀ c b, as.get? c = some b → (as.insert e ⟨a, []⟩).get? c = some b := by
    intro c b hc
    rw [Answers.get?_insert, if_neg, hc]
    rintro rfl
    rw [hn] at hc
    cases hc
  refine ⟨fun c b hc => ?_, fun c b q hc hi hq => ?_, fun c b hc => ?_⟩
  · rw [Answers.get?_insert] at hc
    by_cases hce : c = e
    · exact hce ▸ he
    · rw [if_neg hce] at hc
      exact h.named c b hc
  · rw [Answers.get?_insert] at hc
    have hlisted : ∃ d, as.get? q = some d ∧ c ∈ d.children := by
      by_cases hce : c = e
      · rw [if_pos hce] at hc
        cases hc
        subst hce
        exact hl hi q hq
      · rw [if_neg hce] at hc
        exact h.listed c b q hc hi hq
    obtain ⟨d, hd, hmem⟩ := hlisted
    exact ⟨d, hold q d hd, hmem⟩
  · rw [Answers.get?_insert] at hc
    by_cases hce : c = e
    · rw [if_pos hce] at hc
      cases hc
      subst hce
      exact hcur
    · rw [if_neg hce] at hc
      refine (h.current c b hc).imp_right fun ⟨x, hx, hh⟩ => ⟨x, hx, hh.mono fun c b hc => ?_⟩
      exact ⟨b, hold c b hc, rfl⟩

theorem Coherent.addChild {p c : Entity} (h : Coherent rows fallback as pending) :
    Coherent rows fallback (as.addChild p c) pending := by
  refine h.relist (fun e a he => ?_) fun e b hb => ?_
  · rw [Answers.get?_addChild] at he
    obtain ⟨b, hb, rfl⟩ := Option.map_eq_some_iff.mp he
    refine ⟨b, hb, ?_⟩
    split <;> rfl
  · rw [Answers.get?_addChild, hb, Option.map_some]
    refine ⟨_, rfl, by split <;> rfl, fun d hd _ => ?_⟩
    split
    · by_cases hdc : d = c
      · exact hdc ▸ List.mem_cons_self
      · exact List.mem_cons_of_mem _ (List.mem_filter.mpr ⟨hd, by simp [hdc]⟩)
    · exact hd

/-- What resolving an entity does: an answer is given unless the table fails, it is kept, and the table stays. -/
structure Resolves (r r' : Resolver) (pending : List Entity) (e : Entity) (x : Except Failure Resolved) : Prop where
  rows : r'.store.rows = r.store.rows
  fallback : r'.fallback = r.fallback
  sound : r'.Sound pending
  answers : ∀ a, x = .ok a → ∃ b, r'.answers.get? e = some b ∧ b.resolved = a
  fails : ∀ f, x = .error f → r.store.faults.get ≠ 0
  below : ∀ c, height e < height c → r.answers.get? c = none → r'.answers.get? c = none

theorem resolves_keep {r : Resolver} {e : Entity} {a : Resolved} (hs : r.Sound pending) (he : e.WellNamed)
    (hn : r.answers.get? e = none) (hl : a.inherited = true → e.parent? = none)
    (ha : a = lookup r.store.rows r.fallback e) : Resolves r (keep r e a).2 pending e (.ok a) where
  rows := rfl
  fallback := rfl
  sound := hs.insert hn he (fun hi p hp => by rw [hl hi] at hp; cases hp) (Or.inl ha)
  answers b hb := by
    cases hb
    exact ⟨⟨a, []⟩, by rw [keep, Answers.get?_insert, if_pos rfl], rfl⟩
  fails f hf := by cases hf
  below c hc hnone := by
    rw [keep, Answers.get?_insert, if_neg (fun hce => by rw [hce] at hc; omega), hnone]

/-- An entity with an answer or with rules of its own is resolved without its parent, as is any where the table fails. -/
theorem resolves_at_once {r : Resolver} {e : Entity} (hs : r.Sound pending) (he : e.WellNamed) :
    Resolves r (r.resolve e).2 pending e (r.resolve e).1 ∨
      (r.answers.get? e = none ∧ r.store.get e.text = (.ok none, r.store) ∧ r.store.rows.get? e.text = none) := by
  cases hn : r.answers.get? e with
  | some a =>
    left
    rw [resolve_kept hn]
    refine ⟨rfl, rfl, hs, fun b hb => ?_, fun f hf => (by cases hf), fun _ _ h => h⟩
    cases hb
    exact ⟨a, hn, rfl⟩
  | none =>
    rcases r.store.get_cases e.text with ⟨hf, f, st, hg, hr⟩ | ⟨-, hg⟩
    · left
      rw [resolve_failed hn hg]
      exact ⟨hr, rfl, by rw [Sound, hr]; exact hs, fun b hb => (by cases hb), fun _ _ => hf, fun _ _ h => h⟩
    · cases hr : r.store.rows.get? e.text with
      | none => exact Or.inr ⟨rfl, hr ▸ hg, rfl⟩
      | some rules =>
        left
        rw [hr] at hg
        rw [resolve_own hn hg]
        exact resolves_keep hs he hn (fun hi => by cases hi) (lookup_own hr).symm

/-- An answer of the parent is taken over. -/
theorem resolves_taken_over {r r' : Resolver} {e p : Entity} {a : Resolved} (he : e.WellNamed)
    (hp : e.parent? = some p) (hn : r.answers.get? e = none) (hr : r.store.rows.get? e.text = none)
    (above : Resolves r r' pending p (.ok a)) :
    Resolves r (keep { r' with answers := r'.answers.addChild p e } e { a with inherited := true }).2 pending e
      (.ok { a with inherited := true }) := by
  have hlt := height_parent hp
  obtain ⟨b, hb, hba⟩ := above.answers a rfl
  have hn' : (r'.answers.addChild p e).get? e = none := by
    rw [Answers.get?_addChild, above.below e hlt hn]
    rfl
  have hlist : ∀ q, e.parent? = some q → ∃ d, (r'.answers.addChild p e).get? q = some d ∧ e ∈ d.children := by
    intro q hq
    obtain rfl := Option.some.inj (hp.symm.trans hq)
    refine ⟨{ b with children := e :: b.children.filter (· != e) }, ?_, List.mem_cons_self⟩
    rw [Answers.get?_addChild, hb, Option.map_some, if_pos rfl]
  refine ⟨above.rows, above.fallback, ?_, fun a' ha' => ?_, fun f hf => (by cases hf), fun c hc hnc => ?_⟩
  · refine (Coherent.addChild above.sound).insert hn' he (fun _ => hlist) ?_
    rcases above.sound.current p b hb with hcur | ⟨x, hx, hh⟩
    · left
      rw [lookup_child hp (by rw [above.rows]; exact hr), ← hcur, hba]
    · -- the parent's answer hangs under a change, and now this one does
      refine Or.inr ⟨x, hx, .above (by rw [Answers.get?_insert, if_pos rfl]) rfl hp (hh.mono ?_)⟩
      intro c d hc
      by_cases hce : c = e
      · rw [hce, above.below e hlt hn] at hc
        cases hc
      · rw [Answers.get?_insert, if_neg hce, Answers.get?_addChild, hc, Option.map_some]
        refine ⟨_, rfl, ?_⟩
        split <;> rfl
  · cases ha'
    exact ⟨⟨{ a with inherited := true }, []⟩, by rw [keep, Answers.get?_insert, if_pos rfl], rfl⟩
  · rw [keep, Answers.get?_insert, if_neg (fun hce => by rw [hce] at hc; omega), Answers.get?_addChild,
      above.below c (by omega) hnc]
    rfl

/-- Resolving keeps the invariant. -/
theorem resolves (pending : List Entity) (e : Entity) (he : e.WellNamed) (r : Resolver) (hs : r.Sound pending) :
    Resolves r (r.resolve e).2 pending e (r.resolve e).1 := by
  induction e using downward generalizing r with
  | root e hp =>
    rcases resolves_at_once hs he with hdone | ⟨hn, hg, hr⟩
    · exact hdone
    · rw [resolve_root hn hg hp]
      exact resolves_keep hs he hn (fun _ => hp) (lookup_root hp hr).symm
  | child e p hp ih =>
    rcases resolves_at_once hs he with hdone | ⟨hn, hg, hr⟩
    · exact hdone
    · have above := ih (he.parent hp) r hs
      rw [resolve_child hn hg hp]
      rcases hres : r.resolve p with ⟨x, r'⟩
      rw [hres] at above
      cases x with
      | error f =>
        have hlt := height_parent hp
        exact ⟨above.rows, above.fallback, above.sound, fun b hb => (by cases hb),
          fun _ _ => above.fails f rfl, fun c hc => above.below c (by omega)⟩
      | ok a => exact resolves_taken_over he hp hn hr above

/-! ## Writing -/

/-- After a change of one row an answer that was what the table says still is, unless it hangs under the change. -/
theorem Coherent.stale {rows' : Dict Rules} {x : Entity} (h : Coherent rows fallback as pending) (hx : x.WellNamed)
    (hr : ∀ k, k ≠ x.text → rows'.get? k = rows.get? k) (e : Entity) :
    ∀ a, as.get? e = some a → a.resolved = lookup rows fallback e →
      a.resolved = lookup rows' fallback e ∨ ∃ y ∈ x :: pending, Hangs as e y := by
  have same : ∀ e a, as.get? e = some a → e ≠ x → rows'.get? e.text = rows.get? e.text := fun e a ha hne =>
    hr _ fun ht => hne (text_inj (h.named e a ha) hx ht)
  induction e using downward with
  | root e hp =>
    intro a ha hcur
    by_cases hex : e = x
    · exact Or.inr ⟨x, List.mem_cons_self, hex ▸ .here e⟩
    · have hsame := same e a ha hex
      left
      cases ho : rows.get? e.text with
      | some rules => rw [hcur, lookup_own ho, lookup_own (hsame.trans ho)]
      | none => rw [hcur, lookup_root hp ho, lookup_root hp (hsame.trans ho)]
  | child e p hp ih =>
    intro a ha hcur
    by_cases hex : e = x
    · exact Or.inr ⟨x, List.mem_cons_self, hex ▸ .here e⟩
    · have hsame := same e a ha hex
      cases ho : rows.get? e.text with
      | some rules =>
        left
        rw [hcur, lookup_own ho, lookup_own (hsame.trans ho)]
      | none =>
        rw [lookup_child hp ho] at hcur
        have hi : a.resolved.inherited = true := by rw [hcur]
        obtain ⟨b, hb, -⟩ := h.listed e a p ha hi hp
        rcases h.current p b hb with hbc | ⟨y, hy, hh⟩
        · rcases ih b hb hbc with hbc' | ⟨y, hy, hh⟩
          · left
            rw [hcur, lookup_child hp (hsame.trans ho), ← hbc', hbc]
          · exact Or.inr ⟨y, hy, .above ha hi hp hh⟩
        · exact Or.inr ⟨y, List.mem_cons_of_mem _ hy, .above ha hi hp hh⟩

/-- A change of one row keeps the invariant, with an invalidation to come. -/
theorem Coherent.write {rows' : Dict Rules} {x : Entity} (h : Coherent rows fallback as pending) (hx : x.WellNamed)
    (hr : ∀ k, k ≠ x.text → rows'.get? k = rows.get? k) : Coherent rows' fallback as (x :: pending) where
  named := h.named
  listed := h.listed
  current e a ha := by
    rcases h.current e a ha with hcur | ⟨y, hy, hh⟩
    · exact h.stale hx hr e a ha hcur
    · exact Or.inr ⟨y, List.mem_cons_of_mem _ hy, hh⟩

/-- A write changes the row of its entity alone, and none if it fails. -/
theorem write_rows (r : Resolver) (e : Entity) (rules : Option Rules) :
    (∀ k, k ≠ e.text → (r.write e rules).2.store.rows.get? k = r.store.rows.get? k) ∧
      (∀ f, (r.write e rules).1 = .error f → (r.write e rules).2.store.rows = r.store.rows) := by
  cases rules with
  | some rs =>
    rcases r.store.put_cases e.text rs with ⟨st, hg, hr⟩ | ⟨f, st, hg, hr⟩
    · refine ⟨fun k hk => ?_, fun f hf => ?_⟩
      · rw [write, hg, hr, Dict.get?_insert, if_neg hk]
      · rw [write, hg] at hf
        cases hf
    · refine ⟨fun k _ => ?_, fun _ _ => ?_⟩
      · rw [write, hg, hr]
      · rw [write, hg, hr]
  | none =>
    rcases r.store.delete_cases e.text with ⟨st, hg, hr⟩ | ⟨f, st, hg, hr⟩
    · refine ⟨fun k hk => ?_, fun f hf => ?_⟩
      · rw [write, hg, hr, if_neg hk]
      · rw [write, hg] at hf
        cases hf
    · refine ⟨fun k _ => ?_, fun _ _ => ?_⟩
      · rw [write, hg, hr]
      · rw [write, hg, hr]

theorem write_frame (r : Resolver) (e : Entity) (rules : Option Rules) :
    (r.write e rules).2.fallback = r.fallback ∧ (r.write e rules).2.answers = r.answers := by
  cases rules <;> exact ⟨rfl, rfl⟩

/-! ## Whole runs -/

/-- Every step keeps the invariant and the fallback. -/
theorem Step.sound {s t : Shared} (h : Step s t) (hs : s.resolver.Sound s.pending) :
    t.resolver.Sound t.pending ∧ t.resolver.fallback = s.resolver.fallback := by
  cases h with
  | resolve he =>
    have := resolves s.pending _ (exists_ofText?_iff.mp he) s.resolver hs
    exact ⟨this.sound, this.fallback⟩
  | invalidate he => exact ⟨hs.invalidate fun y hy => Or.inr hy, rfl⟩
  | @write e rules he hw =>
    obtain ⟨hf, ha⟩ := write_frame s.resolver e rules
    refine ⟨?_, hf⟩
    rw [Sound, hf, ha]
    exact Coherent.write hs (exists_ofText?_iff.mp he) (write_rows s.resolver e rules).1
  | @refused e rules f he hw =>
    obtain ⟨hf, ha⟩ := write_frame s.resolver e rules
    refine ⟨?_, hf⟩
    rw [Sound, hf, ha, (write_rows s.resolver e rules).2 f hw]
    exact hs
  | @finish e he =>
    refine ⟨hs.invalidate fun y hy => ?_, rfl⟩
    by_cases hye : y = e
    · exact Or.inl hye
    · exact Or.inr ((List.mem_erase_of_ne hye).mpr hy)
  | fail faults => exact ⟨hs, rfl⟩

/-- The invariant holds in every state that callers can lead a new resolver to. -/
theorem Reachable.sound {store : Store Rules} {s : Shared} (h : Reachable store fallback s) :
    s.resolver.Sound s.pending ∧ s.resolver.fallback = fallback := by
  induction h with
  | start => exact ⟨coherent_empty, rfl⟩
  | next _ hstep ih =>
    obtain ⟨hs, hf⟩ := hstep.sound ih.1
    exact ⟨hs, hf.trans ih.2⟩

/-- Whenever no caller is inside a change, resolving gives what the table says: it is that of the uncached look-up,
which is the answer of the nearest entity with rules, and it is given unless the table fails. -/
theorem resolve_describes {store : Store Rules} {s : Shared} (h : Reachable store fallback s) (hq : s.pending = [])
    {e : Entity} (he : Readable e) :
    Describes s.resolver.store.rows fallback e (lookup s.resolver.store.rows fallback e) ∧
      ((s.resolver.resolve e).1 = .ok (lookup s.resolver.store.rows fallback e) ∨
        s.resolver.store.faults.get ≠ 0 ∧ ∃ f, (s.resolver.resolve e).1 = .error f) := by
  refine ⟨lookup_describes e, ?_⟩
  obtain ⟨hs, hf⟩ := h.sound
  have hres := resolves s.pending e (exists_ofText?_iff.mp he) s.resolver hs
  cases hx : (s.resolver.resolve e).1 with
  | error f => exact Or.inr ⟨hres.fails f hx, f, rfl⟩
  | ok a =>
    left
    obtain ⟨b, hb, rfl⟩ := hres.answers a hx
    rcases hres.sound.current e b hb with hcur | ⟨x, hx, -⟩
    · rw [hcur, hres.rows, hres.fallback, hf]
    · rw [hq] at hx
      cases hx

/-- A document of which the answer was kept before its wiki got rules follows them once the change is over. -/
theorem resolve_describes_after_change :
    (resolve (invalidate (write (resolve (new .inMemory ∅) (document "w" ["s"] "n")).2 (wiki "w")
      (some (.all ⟨.full, .both⟩))).2 (wiki "w")) (document "w" ["s"] "n")).1
      = .ok ⟨.all ⟨.full, .both⟩, true, some (wiki "w")⟩ := by
  have hd : Readable (document "w" ["s"] "n") := ⟨_, ofText?_text (by simp [WellNamed, HasPath, names, PlainName])⟩
  have hw : Readable (wiki "w") := ⟨_, ofText?_text (by simp [WellNamed, HasPath, names, PlainName])⟩
  have hkept : Reachable .inMemory ∅ ⟨(resolve (new .inMemory ∅) (document "w" ["s"] "n")).2, []⟩ :=
    .next .start (.resolve _ hd)
  have hwritten : Reachable .inMemory ∅ ⟨(write _ (wiki "w") (some (.all ⟨.full, .both⟩))).2, [wiki "w"]⟩ :=
    hkept.next (.write _ hw rfl)
  have hrun := hwritten.next (.finish _ List.mem_cons_self)
  obtain ⟨-, h | ⟨hf, -⟩⟩ := resolve_describes hrun rfl hd
  · exact h
  · exact absurd rfl hf

end Resolver

end ContentMesh
