import ContentMesh.Topology.Resolver

/-!
# ContentMesh.Proofs.Topology.Hierarchy — entities, their texts and their ancestors

`Entity.WellNamed` are the entities that some text names: no name is empty or holds a slash, and a space has a
path.  Reading and writing are inverse to each other between these entities and the texts that can be read
(`ofText?_text`, `of_ofText?`), so two of them never share a text (`text_inj`), and the ancestors of one are
such entities too (`WellNamed.parent`).  `Resolver.line_of_child` unrolls the list of ancestors by one.
-/

namespace ContentMesh

namespace Entity

/-! ## Names -/

/-- The kind of an entity, as its text spells it. -/
def kindName : Entity → String
  | global => "global"
  | wiki _ => "wiki"
  | space .. => "space"
  | document .. => "document"

/-- The names on the way to an entity. -/
def names : Entity → List String
  | global => []
  | wiki w => [w]
  | space w path => w :: path
  | document w path name => w :: (path ++ [name])

/-- Whether the space of an entity, if it has one, has a path. -/
def HasPath : Entity → Prop
  | space _ path => path ≠ []
  | document _ path _ => path ≠ []
  | _ => True

/-- A name that can stand between slashes. -/
def PlainName (n : String) : Prop := n ≠ "" ∧ '/' ∉ n.toList

/-- An entity that some text names. -/
def WellNamed (e : Entity) : Prop := e.HasPath ∧ ∀ n ∈ e.names, PlainName n

/-- The parent of a well-named entity is well-named. -/
theorem WellNamed.parent {e p : Entity} (h : e.WellNamed) (hp : e.parent? = some p) : p.WellNamed := by
  obtain ⟨hpath, hn⟩ := h
  cases e with
  | global => cases hp
  | wiki w =>
    cases hp
    exact ⟨trivial, fun n hn => by cases hn⟩
  | space w path =>
    simp only [parent?] at hp
    split at hp
    · cases hp
      exact ⟨trivial, fun n hm => hn n (by simp only [names, List.mem_singleton] at hm; simp [names, hm])⟩
    · rename_i hlen
      cases hp
      refine ⟨fun hd => ?_, fun n hm => hn n ?_⟩
      · have := congrArg List.length hd
        simp only [List.length_dropLast, List.length_nil] at this
        omega
      · rcases List.mem_cons.mp hm with rfl | hm
        · exact List.mem_cons_self
        · exact List.mem_cons_of_mem _ (List.dropLast_subset _ hm)
  | document w path name =>
    cases hp
    refine ⟨hpath, fun n hm => hn n ?_⟩
    rcases List.mem_cons.mp hm with rfl | hm
    · exact List.mem_cons_self
    · exact List.mem_cons_of_mem _ (List.mem_append_left _ hm)

/-! ## Texts -/

theorem segments_eq_splitOn (cs : List Char) : segments cs = cs.splitOn '/' := by
  induction cs with
  | nil => rfl
  | cons c cs ih =>
    rw [segments, List.splitOn_cons_eq_if_modifyHead, ih]
    by_cases hc : c = '/'
    · rw [if_pos hc, if_pos (by simp [hc])]
    · rw [if_neg hc, if_neg (by simp [hc])]
      cases hs : cs.splitOn '/' with
      | nil => exact absurd hs (List.splitOn_ne_nil _ _)
      | cons s ss => rfl

theorem not_mem_of_mem_segments {cs s : List Char} (h : s ∈ segments cs) : '/' ∉ s := by
  induction cs generalizing s with
  | nil =>
    rw [segments, List.mem_singleton] at h
    simp [h]
  | cons c cs ih =>
    rw [segments] at h
    split at h
    · rcases List.mem_cons.mp h with rfl | h
      · simp
      · exact ih h
    · rename_i hc
      split at h
      · rename_i t ts ht
        rcases List.mem_cons.mp h with rfl | h
        · have := ih (s := t) (by simp [ht])
          simp [this, Ne.symm hc]
        · exact ih (by simp [ht, h])
      · rw [List.mem_singleton] at h
        simp [h, Ne.symm hc]

theorem splitKind_append {kind : List Char} (h : ':' ∉ kind) (rest : List Char) :
    splitKind (kind ++ ':' :: rest) = some (kind, rest) := by
  induction kind with
  | nil => simp [splitKind]
  | cons c cs ih =>
    obtain ⟨hc, hcs⟩ : ':' ≠ c ∧ ':' ∉ cs := by simpa using h
    rw [List.cons_append, splitKind, if_neg (Ne.symm hc), ih hcs]
    rfl

theorem eq_of_splitKind {cs kind rest : List Char} (h : splitKind cs = some (kind, rest)) :
    cs = kind ++ ':' :: rest := by
  induction cs generalizing kind with
  | nil => cases h
  | cons c cs ih =>
    rw [splitKind] at h
    split at h
    · rename_i hc
      cases h
      rw [hc, List.nil_append]
    · obtain ⟨p, hp, he⟩ := Option.map_eq_some_iff.mp h
      cases he
      rw [ih hp, List.cons_append]

/-- The text of a kind and names. -/
theorem text_eq {e : Entity} (hg : e ≠ global) (h : e.HasPath) :
    e.text = e.kindName ++ ":" ++ "/".intercalate e.names := by
  cases e with
  | global => exact absurd rfl hg
  | wiki w => simp [text, kindName, names]
  | space w path =>
    simp only [text, kindName, names, joined]
    rw [String.intercalate_cons_of_ne_nil h]
    simp [← String.toList_inj]
  | document w path name =>
    simp only [text, kindName, names, joined]
    rw [String.intercalate_cons_of_ne_nil (by simp), String.intercalate_append_of_ne_nil h (by simp)]
    simp [← String.toList_inj]

theorem ofNames?_names {e : Entity} (hg : e ≠ global) (h : e.WellNamed) : ofNames? e.kindName e.names = some e := by
  have hne : e.names.contains "" = false := by
    rw [List.contains_eq_mem, decide_eq_false_iff_not]
    exact fun hm => (h.2 "" hm).1 rfl
  unfold ofNames?
  rw [hne, if_neg Bool.false_ne_true]
  cases e with
  | global => exact absurd rfl hg
  | wiki w => rfl
  | space w path =>
    cases path with
    | nil => exact absurd rfl h.1
    | cons s path => rfl
  | document w path name =>
    cases path with
    | nil => exact absurd rfl h.1
    | cons s path => simp [kindName, names]

/-- Reading gives back an entity that was written. -/
theorem ofText?_text {e : Entity} (h : e.WellNamed) : ofText? e.text = some e := by
  by_cases hg : e = global
  · subst hg
    rfl
  · have hlist : e.text.toList = e.kindName.toList ++ ':' :: "/".toList.intercalate (e.names.map String.toList) := by
      rw [text_eq hg h.1]
      simp
    have hcolon : ':' ∉ e.kindName.toList := by cases e <;> simp [kindName]
    have hne : e.text ≠ "global" := fun he => by
      rw [he] at hlist
      have : ':' ∈ "global".toList := by rw [hlist]; simp
      simp at this
    rw [ofText?, if_neg hne, hlist, splitKind_append hcolon]
    have hnames : e.names.map String.toList ≠ [] := by cases e <;> simp_all [names]
    have hslash : ∀ cs ∈ e.names.map String.toList, '/' ∉ cs := by
      intro cs hcs
      obtain ⟨n, hn, rfl⟩ := List.mem_map.mp hcs
      exact (h.2 n hn).2
    have hseg : segments ("/".toList.intercalate (e.names.map String.toList)) = e.names.map String.toList := by
      rw [segments_eq_splitOn]
      exact List.splitOn_intercalate '/' hslash hnames
    simp only [hseg, List.map_map, String.ofList_toList]
    rw [show e.names.map (String.ofList ∘ String.toList) = e.names by simp [Function.comp_def]]
    exact ofNames?_names hg h

theorem of_ofNames? {kind : String} {ns : List String} {e : Entity} (h : ofNames? kind ns = some e) :
    e ≠ global ∧ e.HasPath ∧ e.kindName = kind ∧ e.names = ns ∧ "" ∉ ns := by
  unfold ofNames? at h
  split at h
  · cases h
  · rename_i hc
    have hne : "" ∉ ns := by simpa [List.contains_eq_mem] using hc
    split at h
    · cases h
      exact ⟨by simp, trivial, rfl, rfl, hne⟩
    · cases h
      exact ⟨by simp, by simp [HasPath], rfl, rfl, hne⟩
    · split at h
      · rename_i w s path name hl
        cases h
        refine ⟨by simp, by simp [HasPath], rfl, ?_, hne⟩
        obtain ⟨init, rfl⟩ := List.getLast?_eq_some_iff.mp hl
        simp [names]
      · cases h
    · cases h

/-- An entity that a text names is well-named, and the text is its text. -/
theorem of_ofText? {s : String} {e : Entity} (h : ofText? s = some e) : e.WellNamed ∧ e.text = s := by
  rw [ofText?] at h
  split at h
  · rename_i hs
    cases h
    exact ⟨⟨trivial, fun n hn => by cases hn⟩, hs.symm⟩
  · cases hk : splitKind s.toList with
    | none => rw [hk] at h; cases h
    | some p =>
      obtain ⟨kind, rest⟩ := p
      rw [hk] at h
      obtain ⟨hg, hpath, hkind, hnames, hne⟩ := of_ofNames? h
      refine ⟨⟨hpath, fun n hn => ⟨fun he => hne (hnames ▸ he ▸ hn), ?_⟩⟩, ?_⟩
      · rw [hnames] at hn
        obtain ⟨cs, hcs, rfl⟩ := List.mem_map.mp hn
        rw [String.toList_ofList]
        exact not_mem_of_mem_segments hcs
      · rw [text_eq hg hpath, hkind, hnames, ← String.toList_inj, eq_of_splitKind hk, segments_eq_splitOn]
        simp [List.intercalate_splitOn]

/-- The entities that texts name are the well-named ones. -/
theorem exists_ofText?_iff {e : Entity} : (∃ s, ofText? s = some e) ↔ e.WellNamed :=
  ⟨fun ⟨_, h⟩ => (of_ofText? h).1, fun h => ⟨_, ofText?_text h⟩⟩

/-- Two entities that texts name have different texts. -/
theorem text_inj {a b : Entity} (ha : a.WellNamed) (hb : b.WellNamed) (h : a.text = b.text) : a = b := by
  have := ofText?_text ha
  rw [h, ofText?_text hb] at this
  exact (Option.some.inj this).symm

/-! ## Ancestors -/

/-- The entity that is `k` levels above. -/
def ancestor? : Nat → Entity → Option Entity
  | 0, e => some e
  | k + 1, e => e.parent?.bind (ancestor? k)

theorem height_parent {e p : Entity} (h : e.parent? = some p) : Resolver.height p < Resolver.height e := by
  cases e with
  | global => cases h
  | wiki w => cases h; exact Nat.zero_lt_one
  | space w path =>
    simp only [parent?] at h
    split at h
    · cases h
      simp only [Resolver.height]
      omega
    · cases h
      simp only [Resolver.height, List.length_dropLast]
      omega
  | document w path name =>
    cases h
    simp only [Resolver.height]
    omega

/-- Induction from the root of the hierarchy down. -/
theorem downward {P : Entity → Prop} (root : ∀ e, e.parent? = none → P e)
    (child : ∀ e p, e.parent? = some p → P p → P e) (e : Entity) : P e := by
  induction hn : Resolver.height e using Nat.strongRecOn generalizing e with
  | _ n ih =>
    cases hp : e.parent? with
    | none => exact root e hp
    | some p => exact child e p hp (ih _ (hn ▸ height_parent hp) p rfl)

theorem height_ancestor {k : Nat} {e a : Entity} (h : ancestor? k e = some a) :
    Resolver.height a + k ≤ Resolver.height e := by
  induction k generalizing e with
  | zero => cases h; exact Nat.le_refl _
  | succ k ih =>
    obtain ⟨p, hp, ha⟩ := Option.bind_eq_some_iff.mp h
    have := height_parent hp
    have := ih ha
    omega

end Entity

namespace Resolver

open Entity

theorem lineage_of_le {depth : Nat} {e : Entity} (h : height e ≤ depth) : lineage depth e = lineage (height e) e := by
  induction e using downward generalizing depth with
  | root e hp =>
    cases depth <;> cases hh : height e <;> simp [lineage, hp]
  | child e p hp ih =>
    have hlt := height_parent hp
    obtain ⟨d, rfl⟩ : ∃ d, depth = d + 1 := ⟨depth - 1, by omega⟩
    obtain ⟨n, hn⟩ : ∃ n, height e = n + 1 := ⟨height e - 1, by omega⟩
    rw [hn, lineage, lineage, hp, Option.map_some, Option.map_some, ih (show height p ≤ d by omega),
      ih (show height p ≤ n by omega)]

/-- An entity and its ancestors, nearest first. -/
def line (e : Entity) : List Entity := lineage (height e) e

theorem line_of_root {e : Entity} (h : e.parent? = none) : line e = [e] := by
  unfold line
  cases height e <;> simp [lineage, h]

theorem line_of_child {e p : Entity} (h : e.parent? = some p) : line e = e :: line p := by
  have hlt := height_parent h
  obtain ⟨n, hn⟩ : ∃ n, height e = n + 1 := ⟨height e - 1, by omega⟩
  rw [line, hn, lineage, h, Option.map_some, Option.getD_some, lineage_of_le (by omega), line]

theorem line_eq_cons (e : Entity) : ∃ es, line e = e :: es := by
  cases hp : e.parent? with
  | none => exact ⟨_, line_of_root hp⟩
  | some p => exact ⟨_, line_of_child hp⟩

/-! ## The table's answer -/

variable {rows : Dict Rules} {fallback : Rules}

theorem lookup_own {e : Entity} {rules : Rules} (h : rows.get? e.text = some rules) :
    lookup rows fallback e = ⟨rules, false, some e⟩ := by
  obtain ⟨es, hes⟩ := line_eq_cons e
  have hf : (line e).find? (fun a => (rows.get? a.text).isSome) = some e := by
    rw [hes, List.find?_cons_of_pos (by simp [h])]
  rw [lookup, ← line, hf]
  simp [h]

theorem lookup_root {e : Entity} (hp : e.parent? = none) (h : rows.get? e.text = none) :
    lookup rows fallback e = ⟨fallback, true, none⟩ := by
  have hf : (line e).find? (fun a => (rows.get? a.text).isSome) = none := by
    rw [line_of_root hp, List.find?_cons_of_neg (by simp [h]), List.find?_nil]
  rw [lookup, ← line, hf]

theorem height_le_of_mem_line {e a : Entity} (h : a ∈ line e) : height a ≤ height e := by
  induction e using downward with
  | root e hp =>
    rw [line_of_root hp, List.mem_singleton] at h
    exact h ▸ Nat.le_refl _
  | child e p hp ih =>
    rw [line_of_child hp] at h
    rcases List.mem_cons.mp h with rfl | h
    · exact Nat.le_refl _
    · exact Nat.le_of_lt (Nat.lt_of_le_of_lt (ih h) (height_parent hp))

theorem lookup_child {e p : Entity} (hp : e.parent? = some p) (h : rows.get? e.text = none) :
    lookup rows fallback e = { lookup rows fallback p with inherited := true } := by
  have hf : (line e).find? (fun a => (rows.get? a.text).isSome)
      = (line p).find? (fun a => (rows.get? a.text).isSome) := by
    rw [line_of_child hp, List.find?_cons_of_neg (by simp [h])]
  rw [lookup, lookup, ← line, ← line, hf]
  cases hfind : (line p).find? (fun a => (rows.get? a.text).isSome) with
  | none => rfl
  | some a =>
    have hne : a ≠ e := fun hae => by
      have := height_le_of_mem_line (List.mem_of_find?_eq_some hfind)
      have := height_parent hp
      rw [hae] at *
      omega
    simp [hne]

/-- What a table says of an entity: the rules of the nearest of it and its ancestors that has some, which are its
own unless they come from another one; and the fallback where none has any. -/
def Describes (rows : Dict Rules) (fallback : Rules) (e : Entity) (a : Resolved) : Prop :=
  (∃ k o rules, ancestor? k e = some o ∧ rows.get? o.text = some rules ∧
    (∀ j < k, ∀ b, ancestor? j e = some b → rows.get? b.text = none) ∧ a = ⟨rules, decide (o ≠ e), some o⟩) ∨
  ((∀ j b, ancestor? j e = some b → rows.get? b.text = none) ∧ a = ⟨fallback, true, none⟩)

theorem Describes.above {e p : Entity} {a : Resolved} (hp : e.parent? = some p) (he : rows.get? e.text = none)
    (h : Describes rows fallback p a) : Describes rows fallback e { a with inherited := true } := by
  have hj : ∀ j b, ancestor? (j + 1) e = some b ↔ ancestor? j p = some b := by
    intro j b
    rw [ancestor?, hp, Option.bind_some]
  rcases h with ⟨k, o, rules, ho, hr, hbelow, rfl⟩ | ⟨hnone, rfl⟩
  · have hne : o ≠ e := fun hoe => by
      have := height_ancestor ho
      have := height_parent hp
      rw [hoe] at *
      omega
    refine Or.inl ⟨k + 1, o, rules, (hj k o).mpr ho, hr, ?_, by simp [hne]⟩
    intro j hlt b hb
    cases j with
    | zero => cases hb; exact he
    | succ j => exact hbelow j (by omega) b ((hj j b).mp hb)
  · refine Or.inr ⟨?_, rfl⟩
    intro j b hb
    cases j with
    | zero => cases hb; exact he
    | succ j => exact hnone j b ((hj j b).mp hb)

/-- The uncached look-up gives what the table says. -/
theorem lookup_describes (e : Entity) : Describes rows fallback e (lookup rows fallback e) := by
  have own : ∀ e rules, rows.get? e.text = some rules → Describes rows fallback e (lookup rows fallback e) := by
    intro e rules h
    rw [lookup_own h]
    exact Or.inl ⟨0, e, rules, rfl, h, fun j hj => absurd hj (Nat.not_lt_zero j), by simp⟩
  induction e using downward with
  | root e hp =>
    cases h : rows.get? e.text with
    | some rules => exact own e rules h
    | none =>
      rw [lookup_root hp h]
      refine Or.inr ⟨?_, rfl⟩
      intro j b hb
      cases j with
      | zero => cases hb; exact h
      | succ j => rw [ancestor?, hp] at hb; cases hb
  | child e p hp ih =>
    cases h : rows.get? e.text with
    | some rules => exact own e rules h
    | none =>
      rw [lookup_child hp h]
      exact ih.above hp h

end Resolver

end ContentMesh
