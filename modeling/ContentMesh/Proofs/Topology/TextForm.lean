import ContentMesh.Proofs.Topology.Hierarchy

/-!
# ContentMesh.Proofs.Topology.TextForm — which texts name an entity, and how far it is from the root

A text names an entity if it has one of four forms: `global`, or a kind, a colon and as many names as the kind asks for,
joined by slashes (`Entity.TextForm`).  The text is then that of the entity and of no other, and every level of the
hierarchy takes one name away, so that the names count the steps up to `global` (`Entity.text_names_entity`).
-/

namespace ContentMesh.Entity

variable {s : String} {e : Entity}

/-! ## Reading -/

/-- What is read is a well-named entity with this text. -/
theorem read_eq_ok_iff : read s = .ok e ↔ e.WellNamed ∧ e.text = s := by
  unfold read
  constructor
  · intro h
    cases hs : ofText? s with
    | none =>
      rw [hs] at h
      cases h
    | some a =>
      rw [hs] at h
      cases h
      exact of_ofText? hs
  · rintro ⟨he, rfl⟩
    rw [ofText?_text he]

/-- A text that names nothing is reported as such. -/
theorem read_eq_error (h : ∀ e, read s ≠ .ok e) : read s = .error (.invalid (.malformedEntity s)) := by
  unfold read at *
  cases hs : ofText? s with
  | none => rfl
  | some a =>
    rw [hs] at h
    exact absurd rfl (h a)

/-! ## Forms -/

/-- The texts that name an entity. -/
inductive TextForm : String → Prop where
  | global : TextForm "global"
  | wiki {names : List String} (plain : ∀ n ∈ names, PlainName n) (count : names.length = 1) :
      TextForm ("wiki:" ++ joined names)
  | space {names : List String} (plain : ∀ n ∈ names, PlainName n) (count : 2 ≤ names.length) :
      TextForm ("space:" ++ joined names)
  | document {names : List String} (plain : ∀ n ∈ names, PlainName n) (count : 3 ≤ names.length) :
      TextForm ("document:" ++ joined names)

/-- The text of a well-named entity has the form of its kind. -/
theorem WellNamed.textForm (h : e.WellNamed) : TextForm e.text := by
  obtain ⟨hpath, hnames⟩ := h
  by_cases hg : e = global
  · subst hg
    exact .global
  · rw [text_eq hg hpath]
    cases e with
    | global => exact absurd rfl hg
    | wiki w => exact .wiki hnames rfl
    | space w path =>
      have hlength : 0 < path.length := List.length_pos_iff.mpr hpath
      exact .space hnames (by simp only [names, List.length_cons]; omega)
    | document w path name =>
      have hlength : 0 < path.length := List.length_pos_iff.mpr hpath
      exact .document hnames (by simp only [names, List.length_cons, List.length_append, List.length_nil]; omega)

/-- Every text of a form is the text of a well-named entity. -/
theorem TextForm.wellNamed (h : TextForm s) : ∃ e, WellNamed e ∧ e.text = s := by
  -- the entity is put together from the names; `text_eq` then says that its text is the one at hand
  have hthere : ∀ {e : Entity}, e ≠ Entity.global → e.HasPath → (∀ n ∈ e.names, PlainName n) →
      e.WellNamed ∧ e.text = e.kindName ++ ":" ++ joined e.names :=
    fun hg hpath hnames => ⟨⟨hpath, hnames⟩, text_eq hg hpath⟩
  cases h with
  | global => exact ⟨Entity.global, ⟨trivial, fun n hn => absurd hn List.not_mem_nil⟩, rfl⟩
  | @wiki ns plain count =>
    obtain ⟨w, rfl⟩ := List.length_eq_one_iff.mp count
    exact ⟨.wiki w, hthere (by simp) trivial plain⟩
  | @space ns plain count =>
    obtain ⟨w, path, rfl⟩ := List.exists_cons_of_length_pos (by omega : 0 < ns.length)
    rw [List.length_cons] at count
    have hpath : path ≠ [] := List.length_pos_iff.mp (by omega)
    exact ⟨.space w path, hthere (by simp) hpath plain⟩
  | @document ns plain count =>
    obtain ⟨w, rest, rfl⟩ := List.exists_cons_of_length_pos (by omega : 0 < ns.length)
    rw [List.length_cons] at count
    have hrest : rest ≠ [] := List.length_pos_iff.mp (by omega)
    obtain ⟨path, name, rfl⟩ : ∃ path name, rest = path ++ [name] := ⟨_, _, (List.dropLast_concat_getLast hrest).symm⟩
    rw [List.length_append, List.length_singleton] at count
    have hpath : path ≠ [] := List.length_pos_iff.mp (by omega)
    exact ⟨.document w path name, hthere (by simp) hpath plain⟩

/-- A text names an entity if and only if it has a form. -/
theorem exists_read_iff : (∃ e, read s = .ok e) ↔ TextForm s := by
  simp only [read_eq_ok_iff]
  exact ⟨fun ⟨_, he, hs⟩ => hs ▸ he.textForm, TextForm.wellNamed⟩

/-! ## The way up -/

/-- A level up there is one name less. -/
theorem length_names_parent {p : Entity} (h : e.HasPath) (hp : e.parent? = some p) :
    e.names.length = p.names.length + 1 := by
  cases e with
  | global => cases hp
  | wiki w =>
    cases hp
    rfl
  | space w path =>
    have hlength : 0 < path.length := List.length_pos_iff.mpr h
    rw [parent?] at hp
    split at hp
    · cases hp
      simp only [names, List.length_cons, List.length_nil]
      omega
    · cases hp
      simp only [names, List.length_cons, List.length_dropLast]
      omega
  | document w path name =>
    cases hp
    simp [names]

theorem parent?_eq_none_iff : e.parent? = none ↔ e = global := by
  cases e with
  | global => simp [parent?]
  | wiki w => simp [parent?]
  | space w path =>
    simp only [parent?, reduceCtorEq, iff_false]
    split <;> simp
  | document w path name => simp [parent?]

theorem names_eq_nil_iff : e.names = [] ↔ e = global := by
  cases e <;> simp [names]

/-- All that is above a well-named entity is well-named. -/
theorem WellNamed.ancestor {a : Entity} {k : Nat} (h : e.WellNamed) (ha : ancestor? k e = some a) : a.WellNamed := by
  induction k generalizing e with
  | zero =>
    cases ha
    exact h
  | succ k ih =>
    obtain ⟨p, hp, ha⟩ := Option.bind_eq_some_iff.mp ha
    exact ih (h.parent hp) ha

/-- The root is as many levels above as there are names. -/
theorem WellNamed.ancestor_eq_global (h : e.WellNamed) (k : Nat) : ancestor? k e = some global ↔ k = e.names.length := by
  induction k generalizing e with
  | zero =>
    rw [ancestor?, Option.some_inj, ← names_eq_nil_iff, ← List.length_eq_zero_iff, eq_comm]
  | succ k ih =>
    rw [ancestor?]
    cases hp : e.parent? with
    | none =>
      rw [parent?_eq_none_iff.mp hp]
      simp [names]
    | some p =>
      rw [Option.bind_some, ih (h.parent hp), length_names_parent h.1 hp, Nat.succ_inj]

/-! ## Texts and entities -/

/-- Texts and entities fit together.  The text of what is read is the text that was read, and reading gives back what was
written, so that no two entities share a text.  Exactly the texts of the four forms are read, and all else is reported.
The names of what is read are the segments of its text; all that is above it can be read as well, and `global` is as many
steps up as there are names. -/
theorem text_names_entity :
    (∀ s e, read s = .ok e → e.text = s) ∧
    (∀ e, WellNamed e → read e.text = .ok e) ∧
    (∀ a b, WellNamed a → WellNamed b → a ≠ b → a.text ≠ b.text) ∧
    (∀ s, (∃ e, read s = .ok e) ↔ TextForm s) ∧
    (∀ s, ¬ TextForm s → read s = .error (.invalid (.malformedEntity s))) ∧
    ∀ s e, read s = .ok e → (s = "global" ∧ e.names = [] ∨ s = e.kindName ++ ":" ++ joined e.names) ∧
      (∀ p, e.parent? = some p → ∃ t, read t = .ok p) ∧
      (∀ k a, ancestor? k e = some a → read a.text = .ok a) ∧
      ∀ k, ancestor? k e = some global ↔ k = e.names.length := by
  refine ⟨fun s e h => (read_eq_ok_iff.mp h).2, fun e he => read_eq_ok_iff.mpr ⟨he, rfl⟩,
    fun a b ha hb hne hab => hne (text_inj ha hb hab), fun s => exists_read_iff, fun s h => ?_, fun s e h => ?_⟩
  · exact read_eq_error fun e he => h (exists_read_iff.mp ⟨e, he⟩)
  · obtain ⟨he, rfl⟩ := read_eq_ok_iff.mp h
    refine ⟨?_, fun p hp => ⟨p.text, read_eq_ok_iff.mpr ⟨he.parent hp, rfl⟩⟩,
      fun k a ha => read_eq_ok_iff.mpr ⟨he.ancestor ha, rfl⟩, he.ancestor_eq_global⟩
    by_cases hg : e = global
    · subst hg
      exact .inl ⟨rfl, rfl⟩
    · exact .inr (text_eq hg he.1)

/-- A document whose names hold colons and blanks. -/
def webHome : Entity := .document "x:wiki" ["Main", "a: b"] "Web:Home"

/-- It is read back from its text, and is four steps below the root. -/
theorem text_names_entity_webHome : webHome.WellNamed ∧ webHome.text = "document:x:wiki/Main/a: b/Web:Home" ∧
    read "document:x:wiki/Main/a: b/Web:Home" = .ok webHome ∧ ancestor? 4 webHome = some global := by
  have hnamed : webHome.WellNamed := by
    refine ⟨by simp [HasPath, webHome], fun n hn => ?_⟩
    simp only [webHome, names, List.cons_append, List.nil_append, List.mem_cons, List.not_mem_nil, or_false] at hn
    rcases hn with rfl | rfl | rfl | rfl <;> exact ⟨by decide, by decide⟩
  obtain ⟨-, hread, -, -, -, hall⟩ := text_names_entity
  have htext : webHome.text = "document:x:wiki/Main/a: b/Web:Home" := by decide
  have hback := hread webHome hnamed
  obtain ⟨-, -, -, hsteps⟩ := hall _ _ hback
  exact ⟨hnamed, htext, htext ▸ hback, (hsteps 4).mpr rfl⟩

end ContentMesh.Entity
