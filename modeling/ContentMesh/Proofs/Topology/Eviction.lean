import ContentMesh.Topology.Resolver

/-!
# ContentMesh.Proofs.Topology.Eviction — what an eviction takes away

An eviction only drops answers, and with each answer that it drops it drops those that were taken over from it
(`Evicted`).  `Answers.evicted_evict` says this of `Answers.evict`, whose bound on the depth is never reached when
it starts from the number of answers.
-/

namespace ContentMesh.Answers

/-! ## Looking up -/

theorem get?_cons (e : Entity) (p : Entity × Answered) (as : Answers) :
    Answers.get? (p :: as) e = if e = p.1 then some p.2 else Answers.get? as e := by
  by_cases h : e = p.1
  · rw [if_pos h, h]
    exact List.lookup_cons_self
  · rw [if_neg h]
    show (match e == p.1 with | true => some p.2 | false => as.lookup e) = as.lookup e
    rw [beq_false_of_ne h]

theorem get?_erase (as : Answers) (e e' : Entity) :
    (as.erase e).get? e' = if e' = e then none else as.get? e' := by
  induction as with
  | nil => exact (ite_self none).symm
  | cons p as ih =>
    rw [get?_cons, erase]
    by_cases hp : p.1 = e
    · rw [List.filter_cons_of_neg (by simp [hp]), ← erase, ih, hp]
      by_cases h : e' = e
      · rw [if_pos h, if_pos h]
      · rw [if_neg h, if_neg h, if_neg h]
    · rw [List.filter_cons_of_pos (by simp [hp]), get?_cons, ← erase, ih]
      by_cases h : e' = p.1
      · rw [if_pos h, if_pos h, if_neg (h ▸ hp)]
      · rw [if_neg h, if_neg h]

theorem get?_insert (as : Answers) (e e' : Entity) (a : Answered) :
    (as.insert e a).get? e' = if e' = e then some a else as.get? e' := by
  rw [insert, get?_cons]
  by_cases h : e' = e
  · rw [if_pos h, if_pos h]
  · rw [if_neg h, if_neg h, ← erase, get?_erase, if_neg h]

/-- Changing the list of one answer changes no other answer. -/
theorem get?_map_children (as : Answers) (p e : Entity) (f : List Entity → List Entity) :
    Answers.get? (as.map fun x => if x.1 = p then (x.1, { x.2 with children := f x.2.children }) else x) e
      = (as.get? e).map fun a => if e = p then { a with children := f a.children } else a := by
  induction as with
  | nil => rfl
  | cons x as ih =>
    rw [List.map_cons, get?_cons, get?_cons, ih]
    by_cases hx : x.1 = p
    · rw [if_pos hx]
      by_cases he : e = x.1
      · rw [if_pos he, if_pos he, Option.map_some, if_pos (he.trans hx)]
      · rw [if_neg he, if_neg he]
    · rw [if_neg hx]
      by_cases he : e = x.1
      · rw [if_pos he, if_pos he, Option.map_some, if_neg (he ▸ hx)]
      · rw [if_neg he, if_neg he]

theorem get?_addChild (as : Answers) (p c e : Entity) :
    (as.addChild p c).get? e
      = (as.get? e).map fun a => if e = p then { a with children := c :: a.children.filter (· != c) } else a :=
  get?_map_children as p e fun cs => c :: cs.filter (· != c)

theorem get?_dropChild (as : Answers) (p c e : Entity) :
    (as.dropChild p c).get? e
      = (as.get? e).map fun a => if e = p then { a with children := a.children.filter (· != c) } else a :=
  get?_map_children as p e fun cs => cs.filter (· != c)

theorem length_erase_lt {as : Answers} {e : Entity} {a : Answered} (h : as.get? e = some a) :
    (as.erase e).length < as.length := by
  induction as with
  | nil => cases h
  | cons p as ih =>
    rw [get?_cons] at h
    unfold erase
    by_cases hp : p.1 = e
    · rw [List.filter_cons_of_neg (by simp [hp])]
      exact Nat.lt_succ_of_le (List.length_filter_le _ _)
    · rw [if_neg (Ne.symm hp)] at h
      rw [List.filter_cons_of_pos (by simp [hp])]
      exact Nat.succ_lt_succ (ih h)

/-! ## Evicting -/

/-- `as'` are the answers of `as` less some, and with each answer that is gone those taken over from it are gone. -/
structure Evicted (as as' : Answers) : Prop where
  kept : ∀ e, as'.get? e = as.get? e ∨ as'.get? e = none
  closed : ∀ p a, as.get? p = some a → as'.get? p = none → ∀ c ∈ a.children, ∀ b,
    as.get? c = some b → b.resolved.inherited = true → as'.get? c = none

theorem Evicted.refl (as : Answers) : Evicted as as where
  kept _ := Or.inl rfl
  closed p a h h' := by rw [h] at h'; cases h'

theorem Evicted.gone {as as' : Answers} (h : Evicted as as') {e : Entity} (he : as.get? e = none) :
    as'.get? e = none := by
  rcases h.kept e with h | h
  · rw [h, he]
  · exact h

theorem Evicted.of_some {as as' : Answers} (h : Evicted as as') {e : Entity} {a : Answered}
    (he : as'.get? e = some a) : as.get? e = some a := by
  rcases h.kept e with h | h
  · rw [← h, he]
  · rw [h] at he; cases he

theorem Evicted.trans {as bs cs : Answers} (h : Evicted as bs) (h' : Evicted bs cs) : Evicted as cs where
  kept e := by
    rcases h'.kept e with h1 | h1
    · rw [h1]
      exact h.kept e
    · exact Or.inr h1
  closed p a hp hp' c hc b hb hi := by
    rcases h.kept p with h1 | h1
    · rcases h.kept c with h2 | h2
      · exact h'.closed p a (h1.trans hp) hp' c hc b (h2.trans hb) hi
      · exact h'.gone h2
    · exact h'.gone (h.closed p a hp h1 c hc b hb hi)

/-- Evicts an entity whose answer was taken over. -/
def evictInherited (depth : Nat) (as : Answers) (c : Entity) : Answers :=
  match as.get? c with
  | some b => if b.resolved.inherited then evict depth as c else as
  | none => as

theorem evict_succ (depth : Nat) (as : Answers) (e : Entity) :
    evict (depth + 1) as e = match as.get? e with
      | none => as
      | some a => a.children.foldl (evictInherited depth) (as.erase e) := rfl

/-- What is to be shown of an eviction of `e`. -/
def Evicts (as as' : Answers) (e : Entity) : Prop := Evicted as as' ∧ as'.get? e = none ∧ as'.length ≤ as.length

theorem foldl_evictInherited {depth : Nat} (ih : ∀ as e, as.length ≤ depth → Evicts as (evict depth as e) e)
    (cs : List Entity) (as : Answers) (hl : as.length ≤ depth) :
    Evicted as (cs.foldl (evictInherited depth) as) ∧ (cs.foldl (evictInherited depth) as).length ≤ as.length ∧
      ∀ c ∈ cs, ∀ b, as.get? c = some b → b.resolved.inherited = true →
        Answers.get? (cs.foldl (evictInherited depth) as) c = none := by
  induction cs generalizing as with
  | nil => exact ⟨.refl as, Nat.le_refl _, fun c hc => by cases hc⟩
  | cons c cs ihc =>
    have one : Evicted as (evictInherited depth as c) ∧ (evictInherited depth as c).length ≤ as.length ∧
        ∀ b, as.get? c = some b → b.resolved.inherited = true → (evictInherited depth as c).get? c = none := by
      unfold evictInherited
      cases hc : as.get? c with
      | none => exact ⟨.refl as, Nat.le_refl _, fun b hb => by cases hb⟩
      | some b =>
        by_cases hi : b.resolved.inherited = true
        · simp only [hi, if_true]
          obtain ⟨h1, h2, h3⟩ := ih as c hl
          exact ⟨h1, h3, fun _ _ _ => h2⟩
        · simp only [hi]
          refine ⟨.refl as, Nat.le_refl _, fun b' hb' hi' => ?_⟩
          cases hb'
          exact absurd hi' hi
    obtain ⟨h1, hlen, hgone⟩ := one
    obtain ⟨h2, hlen2, hgone2⟩ := ihc (evictInherited depth as c) (Nat.le_trans hlen hl)
    refine ⟨h1.trans h2, Nat.le_trans hlen2 hlen, fun c' hc' b hb hi => ?_⟩
    rcases List.mem_cons.mp hc' with rfl | hc'
    · exact h2.gone (hgone b hb hi)
    · -- `c'` may have gone with `c`; else it still has its answer
      rcases h1.kept c' with hk | hk
      · exact hgone2 c' hc' b (hk.trans hb) hi
      · exact h2.gone hk

/-- An eviction drops an answer and those taken over from it. -/
theorem evicted_evict (depth : Nat) (as : Answers) (e : Entity) (hl : as.length ≤ depth) :
    Evicts as (evict depth as e) e := by
  induction depth generalizing as e with
  | zero =>
    obtain rfl : as = [] := List.length_eq_zero_iff.mp (Nat.le_zero.mp hl)
    exact ⟨.refl [], rfl, Nat.le_refl _⟩
  | succ depth ih =>
    rw [evict_succ]
    cases he : as.get? e with
    | none => exact ⟨.refl as, he, Nat.le_refl _⟩
    | some a =>
      have hlt := length_erase_lt he
      obtain ⟨h1, h2, h3⟩ := foldl_evictInherited ih a.children (as.erase e) (by omega)
      have hgone : Answers.get? (a.children.foldl (evictInherited depth) (as.erase e)) e = none :=
        h1.gone (by rw [get?_erase, if_pos rfl])
      refine ⟨⟨fun e' => ?_, ?_⟩, hgone, Nat.le_of_lt (Nat.lt_of_le_of_lt h2 hlt)⟩
      · rcases h1.kept e' with hk | hk
        · rw [hk, get?_erase]
          by_cases hee : e' = e
          · exact Or.inr (if_pos hee)
          · exact Or.inl (if_neg hee)
        · exact Or.inr hk
      · intro p b hp hp' c hc d hd hi
        by_cases hce : c = e
        · rw [hce]
          exact hgone
        · have hd' : (as.erase e).get? c = some d := by rw [get?_erase, if_neg hce, hd]
          by_cases hpe : p = e
          · rw [hpe, he] at hp
            cases hp
            exact h3 c hc d hd' hi
          · exact h1.closed p b (by rw [get?_erase, if_neg hpe, hp]) hp' c hc d hd' hi

end ContentMesh.Answers
