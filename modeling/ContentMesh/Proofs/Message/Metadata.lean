import Mathlib.Data.List.Basic
import ContentMesh.Message.Metadata
import ContentMesh.Proofs.Text.Pieces

/-!
# ContentMesh.Proofs.Message.Metadata — what stands under a name

The pairs of metadata, with their names in lower case, are what it holds (`Metadata.under`).  Where every entry stands
under its own spelling, as adding and setting keep it, that is what a look-up finds (`Metadata.Kept.getAll`).
-/

namespace ContentMesh.Metadata

open Text

/-- The pairs with their names in lower case. -/
def lowered (m : Metadata) : List (String × String) := m.pairs.map fun p => (lower p.1, p.2)

/-- The values of the pairs whose name is this one, in any case. -/
def under (m : Metadata) (name : String) : List String := (m.lowered.filter (·.1 == lower name)).map (·.2)

/-- Every entry stands under its spelling in lower case. -/
def Kept (m : Metadata) : Prop := ∀ e ∈ m.entries.entries, e.1 = lower e.2.spelling

/-! ## Look-ups -/

theorem under_eq (m : Metadata) (name : String) :
    m.under name = (m.pairs.filter (lower ·.1 == lower name)).map (·.2) := by
  rw [under, lowered, List.filter_map, List.map_map]
  rfl

theorem lowered_eq (m : Metadata) :
    m.lowered = m.entries.entries.flatMap fun e => e.2.values.map fun v => (lower e.2.spelling, v) := by
  simp only [lowered, pairs, Dict.values, List.flatMap_map, List.map_flatMap, List.map_map]
  rfl

/-- The pairs of ascending entries whose name is a key are those of the entry at the key. -/
theorem filter_entries (k : String) {es : List (String × MetadataEntry)} (hes : es.Pairwise (·.1 < ·.1))
    (hk : ∀ e ∈ es, e.1 = lower e.2.spelling) :
    (es.flatMap fun e => e.2.values.map fun v => (e.2.spelling, v)).filter (lower ·.1 == k)
      = ((es.lookup k).map fun e => e.values.map fun v => (e.spelling, v)).getD [] := by
  induction es with
  | nil => rfl
  | cons e es ih =>
    obtain ⟨hfirst, hrest⟩ := List.pairwise_cons.mp hes
    have he : lower e.2.spelling = e.1 := (hk e List.mem_cons_self).symm
    have ih := ih hrest fun x hx => hk x (List.mem_cons_of_mem _ hx)
    rw [List.flatMap_cons, List.filter_append, ih, Dict.lookup_cons]
    by_cases hek : k = e.1
    · have hnone : es.lookup k = none := Dict.lookup_eq_none_of_forall_lt fun x hx => hek ▸ hfirst x hx
      have hall : ∀ p ∈ e.2.values.map fun v => (e.2.spelling, v), (lower p.1 == k) = true := by
        intro p hp
        obtain ⟨v, -, rfl⟩ := List.mem_map.mp hp
        exact beq_iff_eq.mpr (he.trans hek.symm)
      rw [if_pos hek, hnone, List.filter_eq_self.mpr hall]
      exact List.append_nil _
    · have hall : ∀ p ∈ e.2.values.map fun v => (e.2.spelling, v), ¬ (lower p.1 == k) = true := by
        intro p hp hpk
        obtain ⟨v, -, rfl⟩ := List.mem_map.mp hp
        exact hek ((eq_of_beq hpk).symm.trans he)
      rw [if_neg hek, List.filter_eq_nil_iff.mpr hall, List.nil_append]

/-- The pairs of a name are those of its entry. -/
theorem Kept.filter_pairs {m : Metadata} (h : m.Kept) (name : String) : m.pairs.filter (lower ·.1 == lower name)
    = ((m.entry? name).map fun e => e.values.map fun v => (e.spelling, v)).getD [] := by
  rw [pairs, Dict.values, List.flatMap_map]
  exact filter_entries _ m.entries.ascending h

theorem Kept.getAll {m : Metadata} (h : m.Kept) (name : String) : m.getAll name = m.under name := by
  rw [under_eq, h.filter_pairs, Metadata.getAll]
  cases m.entry? name with
  | none => rfl
  | some e => simp [Function.comp_def]

theorem getAll_empty (name : String) : (∅ : Metadata).getAll name = [] := rfl

theorem getAll_add (m : Metadata) (name value n : String) :
    (m.add name value).getAll n = m.getAll n ++ if lower name = lower n then [value] else [] := by
  unfold getAll add entry?
  dsimp only
  rw [Dict.get?_insert]
  by_cases h : lower n = lower name
  · rw [if_pos h, if_pos h.symm, h]
    cases m.entries.get? (lower name) <;> rfl
  · rw [if_neg h, if_neg fun he => h he.symm, List.append_nil]

/-- What pairs put under a name comes after what stood there. -/
theorem getAll_foldl (ps : List (String × String)) (m : Metadata) (n : String) :
    (ps.foldl (fun m p => m.add p.1 p.2) m).getAll n
      = m.getAll n ++ (ps.filter fun p => lower p.1 == lower n).map (·.2) := by
  induction ps generalizing m with
  | nil => simp
  | cons p ps ih =>
    rw [List.foldl_cons, ih, getAll_add]
    by_cases h : lower p.1 = lower n
    · simp [h]
    · simp [h, beq_eq_false_iff_ne.mpr h]

/-! ## Spellings -/

theorem kept_empty : (∅ : Metadata).Kept := fun _ h => absurd h List.not_mem_nil

theorem Kept.spelling {m : Metadata} (h : m.Kept) {k : String} {e : MetadataEntry} (he : m.entries.get? k = some e) :
    lower e.spelling = k := by
  obtain ⟨before, after, hes, -⟩ := List.lookup_eq_some_iff.mp he
  exact (h (k, e) (hes ▸ List.mem_append_right _ List.mem_cons_self)).symm

theorem Kept.add {m : Metadata} (h : m.Kept) (name value : String) : (m.add name value).Kept := by
  intro e he
  rcases Dict.mem_put he with rfl | he
  · dsimp only
    cases hold : m.entry? name with
    | none => rfl
    | some old => exact (h.spelling hold).symm
  · exact h e he

theorem Kept.set {m : Metadata} (h : m.Kept) (name value : String) : (m.set name value).Kept := by
  intro e he
  rcases Dict.mem_put he with rfl | he
  · rfl
  · exact h e he

theorem kept_foldl (ps : List (String × String)) {m : Metadata} (h : m.Kept) :
    (ps.foldl (fun m p => m.add p.1 p.2) m).Kept := by
  induction ps generalizing m with
  | nil => exact h
  | cons p ps ih => exact ih (h.add p.1 p.2)

/-! ## Pairs in any order -/

theorem lower_of_mem_lowered {m : Metadata} {p : String × String} (h : p ∈ m.lowered) : lower p.1 = p.1 := by
  obtain ⟨q, -, rfl⟩ := List.mem_map.mp h
  exact lower_lower q.1

theorem count_lowered (m : Metadata) {name : String} (hname : lower name = name) (value : String) :
    m.lowered.count (name, value) = (m.under name).count value := by
  rw [under, hname, List.count_eq_countP, List.count_eq_countP, List.countP_map, List.countP_filter]
  exact List.countP_congr fun p _ => by simp [Prod.ext_iff, and_comm]

/-- Metadata with the same values under every name has the same pairs, though maybe in another order. -/
theorem lowered_perm {m n : Metadata} (h : ∀ name, m.under name = n.under name) : m.lowered.Perm n.lowered := by
  rw [List.perm_iff_count]
  rintro ⟨name, value⟩
  by_cases hname : lower name = name
  · rw [count_lowered m hname, count_lowered n hname, h]
  · have hnot : ∀ m : Metadata, (name, value) ∉ m.lowered := fun m hm => hname (lower_of_mem_lowered hm)
    rw [List.count_eq_zero_of_not_mem (hnot m), List.count_eq_zero_of_not_mem (hnot n)]

end ContentMesh.Metadata
