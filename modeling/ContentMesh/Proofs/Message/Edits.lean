import Mathlib.Data.Finset.Sort
import Mathlib.Data.String.Basic
import ContentMesh.Proofs.Message.Folded

/-!
# ContentMesh.Proofs.Message.Edits — what changes of metadata come to

What stands under a name is decided by the changes to that name alone, in whatever case they spell it, and of these by
those from the last `set` or `remove` on (`Metadata.current`).  Look-ups, sizes and listings of metadata say just that
(`Metadata.after_shows`), and the pairs of a listing make the metadata anew.
-/

namespace ContentMesh

/-- The bound keys are those that are looked up with success. -/
theorem Dict.mem_keys {V : Type} {d : Dict V} {k : String} : k ∈ d.keys ↔ ∃ v, d.get? k = some v := by
  constructor
  · intro h
    obtain ⟨⟨k, v⟩, hm, rfl⟩ := List.mem_map.mp h
    exact ⟨v, lookup_of_mem d.ascending hm⟩
  · rintro ⟨v, h⟩
    exact List.mem_map.mpr ⟨(k, v), mem_of_lookup h, rfl⟩

namespace Metadata

open Text

/-! ## Changes -/

/-- A change of metadata. -/
inductive Edit where
  | add (name value : String)
  | set (name value : String)
  | remove (name : String)
  deriving DecidableEq, Repr

namespace Edit

/-- The name that is changed, as the change spells it. -/
def name : Edit → String
  | add n _ => n
  | set n _ => n
  | remove n => n

/-- Metadata after a change. -/
def apply (m : Metadata) : Edit → Metadata
  | add n v => m.add n v
  | set n v => m.set n v
  | remove n => (m.remove n).2

/-- Whether a change is to a name, in any case. -/
def concerns (e : Edit) (name : String) : Bool := lower e.name == lower name

/-- Whether a change does away with what stood under its name. -/
def clears : Edit → Bool
  | add .. => false
  | set .. => true
  | remove _ => true

/-- What a change puts under its name, with the spelling of the name. -/
def puts : Edit → List (String × String)
  | add n v => [(n, v)]
  | set n v => [(n, v)]
  | remove _ => []

end Edit

/-- The metadata that changes make, beginning with none. -/
def after (edits : List Edit) : Metadata := edits.foldl Edit.apply ∅

theorem after_concat (edits : List Edit) (e : Edit) : after (edits ++ [e]) = e.apply (after edits) := by
  rw [after, List.foldl_append]
  rfl

theorem formed_after (edits : List Edit) : (after edits).Formed := by
  induction edits using List.reverseRecOn with
  | nil => exact formed_empty
  | append_singleton edits e ih =>
    rw [after_concat]
    cases e with
    | add n v => exact ih.add n v
    | set n v => exact ih.set n v
    | remove n => exact ih.erase n

/-! ## What stands under a name -/

/-- The elements from the last one with a property on; all of them, if none has it. -/
def fromLast {α : Type} (p : α → Bool) : List α → List α
  | [] => []
  | a :: as => if as.any p then fromLast p as else a :: as

theorem fromLast_concat {α : Type} (p : α → Bool) (as : List α) (a : α) :
    fromLast p (as ++ [a]) = if p a then [a] else fromLast p as ++ [a] := by
  induction as with
  | nil => simp [fromLast]
  | cons b as ih =>
    rw [List.cons_append, fromLast, fromLast, List.any_append, ih]
    by_cases ha : p a = true
    · simp [ha]
    · by_cases has : as.any p = true
      · simp [ha, has]
      · simp [ha, has]

/-- What was put under a name since it was last set or removed, by that `set` too, each value with the spelling of the
name that it came with. -/
def current (edits : List Edit) (name : String) : List (String × String) :=
  (fromLast Edit.clears (edits.filter (·.concerns name))).flatMap Edit.puts

theorem current_concat (edits : List Edit) (e : Edit) (name : String) : current (edits ++ [e]) name =
    if e.concerns name then (if e.clears then e.puts else current edits name ++ e.puts) else current edits name := by
  unfold current
  by_cases he : e.concerns name = true
  · have hfilter : [e].filter (·.concerns name) = [e] := List.filter_cons_of_pos he
    rw [List.filter_append, hfilter, fromLast_concat, if_pos he]
    by_cases hclears : e.clears = true
    · rw [if_pos hclears, if_pos hclears, List.flatMap_singleton]
    · rw [if_neg hclears, if_neg hclears, List.flatMap_append, List.flatMap_singleton]
  · have hfilter : [e].filter (·.concerns name) = [] := List.filter_cons_of_neg he
    rw [List.filter_append, hfilter, List.append_nil, if_neg he]

/-- The entry of these values: it is spelled as the first of them came. -/
def entryOf? : List (String × String) → Option MetadataEntry
  | [] => none
  | p :: ps => some ⟨p.1, p.2 :: ps.map (·.2)⟩

/-- The same values, all under the spelling of the first. -/
def shown : List (String × String) → List (String × String)
  | [] => []
  | p :: ps => (p :: ps).map fun q => (p.1, q.2)

theorem entryOf?_concat (ps : List (String × String)) (n v : String) : entryOf? (ps ++ [(n, v)]) =
    some ⟨((entryOf? ps).getD ⟨n, []⟩).spelling, ((entryOf? ps).getD ⟨n, []⟩).values ++ [v]⟩ := by
  cases ps with
  | nil => rfl
  | cons p ps => simp [entryOf?]

theorem values_entryOf? (ps : List (String × String)) : ((entryOf? ps).map (·.values)).getD [] = ps.map (·.2) := by
  cases ps <;> rfl

theorem entryOf?_shown (ps : List (String × String)) : entryOf? (shown ps) = entryOf? ps := by
  cases ps with
  | nil => rfl
  | cons p ps => simp [shown, entryOf?, Function.comp_def]

theorem pairs_entryOf? (ps : List (String × String)) :
    ((entryOf? ps).map fun e => e.values.map fun v => (e.spelling, v)).getD [] = shown ps := by
  cases ps with
  | nil => rfl
  | cons p ps => simp [shown, entryOf?, Function.comp_def]

theorem entry?_of_lower {m : Metadata} {k : String} (hk : lower k = k) : m.entry? k = m.entries.get? k :=
  congrArg m.entries.get? hk

theorem entry?_insert (m : Metadata) (n : String) (x : MetadataEntry) (name : String) :
    entry? ⟨m.entries.insert (lower n) x⟩ name = if lower n = lower name then some x else m.entry? name := by
  show (m.entries.insert (lower n) x).get? (lower name) = _
  rw [Dict.get?_insert]
  by_cases h : lower n = lower name
  · rw [if_pos h, if_pos h.symm]
  · rw [if_neg h, if_neg (Ne.symm h)]
    rfl

theorem entry?_erase (m : Metadata) (n name : String) :
    entry? (m.erase n) name = if lower n = lower name then none else m.entry? name := by
  show (m.entries.erase (lower n)).get? (lower name) = _
  rw [Dict.get?_erase]
  by_cases h : lower n = lower name
  · rw [if_pos h, if_pos h.symm]
  · rw [if_neg h, if_neg (Ne.symm h)]
    rfl

/-- A change to a name adds to what its entry is made of, or makes it anew; the entries of other names stay. -/
theorem entry?_apply {m : Metadata} {name : String} {ps : List (String × String)} (h : m.entry? name = entryOf? ps)
    (e : Edit) : entry? (e.apply m) name =
      entryOf? (if e.concerns name then (if e.clears then e.puts else ps ++ e.puts) else ps) := by
  have hconcerns : e.concerns name = true ↔ lower e.name = lower name := beq_iff_eq
  cases e with
  | add n v =>
    rw [Edit.apply, Metadata.add, entry?_insert]
    by_cases hn : lower n = lower name
    · have hentry : m.entry? n = entryOf? ps := (congrArg m.entries.get? hn).trans h
      rw [if_pos hn, if_pos (hconcerns.mpr hn), hentry]
      exact (entryOf?_concat ps n v).symm
    · rw [if_neg hn, if_neg (mt hconcerns.mp hn), h]
  | set n v =>
    rw [Edit.apply, Metadata.set, entry?_insert]
    by_cases hn : lower n = lower name
    · rw [if_pos hn, if_pos (hconcerns.mpr hn)]
      rfl
    · rw [if_neg hn, if_neg (mt hconcerns.mp hn), h]
  | remove n =>
    rw [Edit.apply, Metadata.remove, entry?_erase]
    by_cases hn : lower n = lower name
    · rw [if_pos hn, if_pos (hconcerns.mpr hn)]
      rfl
    · rw [if_neg hn, if_neg (mt hconcerns.mp hn), h]

/-- The entry of a name is made of what was put under it since it was last cleared. -/
theorem entry?_after (edits : List Edit) (name : String) : entry? (after edits) name = entryOf? (current edits name) := by
  induction edits using List.reverseRecOn with
  | nil => rfl
  | append_singleton edits e ih => rw [after_concat, entry?_apply ih, current_concat]

theorem getAll_after (edits : List Edit) (name : String) :
    (after edits).getAll name = (current edits name).map (·.2) := by
  rw [getAll, entry?_after, values_entryOf?]

theorem contains_after (edits : List Edit) (name : String) :
    (after edits).contains name = true ↔ current edits name ≠ [] := by
  have hcontains : (after edits).contains name = Option.isSome ( entry? (after edits) name) := rfl
  rw [hcontains, entry?_after]
  cases current edits name <;> simp [entryOf?]

/-! ## Names -/

/-- The names under which something stands, in lower case. -/
def named (edits : List Edit) : Finset String :=
  (edits.map fun e => lower e.name).toFinset.filter fun k => current edits k ≠ []

theorem current_eq_nil {edits : List Edit} {name : String} (h : ∀ e ∈ edits, lower e.name ≠ lower name) :
    current edits name = [] := by
  have hnone : edits.filter (·.concerns name) = [] :=
    List.filter_eq_nil_iff.mpr fun e he hc => h e he (eq_of_beq hc)
  rw [current, hnone]
  rfl

theorem mem_keys_after {edits : List Edit} {k : String} :
    k ∈ (after edits).entries.keys ↔ lower k = k ∧ current edits k ≠ [] := by
  have hentry : lower k = k → (after edits).entries.get? k = entryOf? (current edits k) := by
    intro hk
    rw [← entry?_after, entry?_of_lower hk]
  rw [Dict.mem_keys]
  constructor
  · rintro ⟨x, hx⟩
    have hk : lower k = k := by
      rw [← (formed_after edits).kept.spelling hx, lower_lower]
    rw [hentry hk] at hx
    refine ⟨hk, fun hnil => ?_⟩
    rw [hnil] at hx
    cases hx
  · rintro ⟨hk, hne⟩
    rw [hentry hk]
    cases hc : current edits k with
    | nil => exact absurd hc hne
    | cons p ps => exact ⟨_, rfl⟩

theorem toFinset_keys_after (edits : List Edit) : (after edits).entries.keys.toFinset = named edits := by
  ext k
  rw [List.mem_toFinset, mem_keys_after, named, Finset.mem_filter, List.mem_toFinset, List.mem_map]
  refine and_congr_left fun hne => ⟨fun hk => ?_, ?_⟩
  · by_contra hnone
    exact hne (current_eq_nil fun e he hek => hnone ⟨e, he, hek.trans hk⟩)
  · rintro ⟨e, -, rfl⟩
    exact lower_lower e.name

theorem keys_ascending (edits : List Edit) : (after edits).entries.keys.Pairwise (· < ·) :=
  List.pairwise_map.mpr (after edits).entries.ascending

/-- The keys are the names under which something stands, in order. -/
theorem keys_after (edits : List Edit) : (after edits).entries.keys = (named edits).sort := by
  have hsorted := keys_ascending edits
  have hnodup : (after edits).entries.keys.Nodup := hsorted.imp fun h => ne_of_lt h
  rw [← toFinset_keys_after]
  exact ((List.toFinset_sort (· ≤ ·) hnodup).mpr (hsorted.imp fun h => le_of_lt h)).symm

theorem size_after (edits : List Edit) : (after edits).size = (named edits).card := by
  rw [← Finset.length_sort (· ≤ ·), ← keys_after, Dict.keys, List.length_map]
  rfl

/-! ## Listings -/

/-- A listing goes through the names in order, and under each through what stands there. -/
theorem pairs_after (edits : List Edit) :
    (after edits).pairs = (named edits).sort.flatMap fun k => shown (current edits k) := by
  rw [← keys_after, pairs, Dict.values, Dict.keys, List.flatMap_map, List.flatMap_map]
  refine List.flatMap_congr fun x hx => ?_
  have hk : lower x.1 = x.1 := (mem_keys_after.mp (List.mem_map.mpr ⟨x, hx, rfl⟩)).1
  have hget : entry? (after edits) x.1 = some x.2 := by
    rw [entry?_of_lower hk]
    exact Dict.lookup_of_mem (after edits).entries.ascending hx
  rw [← pairs_entryOf?, ← entry?_after, hget]
  rfl

/-- What a listing says of a name. -/
theorem filter_pairs_after (edits : List Edit) (name : String) :
    (after edits).pairs.filter (lower ·.1 == lower name) = shown (current edits name) := by
  rw [(formed_after edits).kept.filter_pairs, entry?_after, pairs_entryOf?]

theorem current_map_add (ps : List (String × String)) (name : String) :
    current (ps.map fun p => Edit.add p.1 p.2) name = ps.filter (lower ·.1 == lower name) := by
  induction ps using List.reverseRecOn with
  | nil => rfl
  | append_singleton ps p ih =>
    rw [List.map_append, List.map_singleton, current_concat, ih, List.filter_append]
    by_cases h : lower p.1 = lower name
    · simp [Edit.concerns, Edit.name, Edit.clears, Edit.puts, h]
    · simp [Edit.concerns, Edit.name, h]

theorem ofPairs_eq (ps : List (String × String)) : ofPairs ps = after (ps.map fun p => Edit.add p.1 p.2) := by
  rw [ofPairs, after, List.foldl_map]
  rfl

/-- Metadata is what is looked up in it. -/
theorem Formed.ext_entry {m n : Metadata} (hm : m.Formed) (hn : n.Formed) (h : ∀ name, m.entry? name = n.entry? name) :
    m = n := by
  have hkey : ∀ {m : Metadata}, m.Formed → ∀ {k}, lower k ≠ k → m.entries.get? k = none := by
    intro m hm k hk
    cases he : m.entries.get? k with
    | none => rfl
    | some e =>
      rw [← hm.kept.spelling he] at hk
      exact absurd (lower_lower _) hk
  refine congrArg Metadata.mk (Dict.ext_get? fun k => ?_)
  by_cases hk : lower k = k
  · have hk' := h k
    rwa [entry?_of_lower hk, entry?_of_lower hk] at hk'
  · rw [hkey hm hk, hkey hn hk]

theorem ofPairs_pairs_after (edits : List Edit) : ofPairs (after edits).pairs = after edits := by
  refine (formed_ofPairs _).ext_entry (formed_after edits) fun name => ?_
  rw [ofPairs_eq, entry?_after, entry?_after, current_map_add, filter_pairs_after, entryOf?_shown]

/-! ## Changes and look-ups -/

/-- Metadata shows what changes come to.  Under every name, in any case, there is what was put there since it was last set
or removed: all of it, the first of it, whether there is any, and what is taken out by removing it.  The size is the
number of the names under which there is something; a listing goes through them in order, each under the spelling that
its first value came with; and the pairs of a listing make the same metadata. -/
theorem after_shows (edits : List Edit) :
    (∀ name, (after edits).getAll name = (current edits name).map (·.2) ∧
      (after edits).first? name = ((current edits name).map (·.2)).head? ∧
      ((after edits).contains name = true ↔ (current edits name).map (·.2) ≠ []) ∧
      (after edits).remove name = ((current edits name).map (·.2), after (edits ++ [.remove name]))) ∧
    (after edits).size = (named edits).card ∧
    (after edits).pairs = (named edits).sort.flatMap (fun k => shown (current edits k)) ∧
    ofPairs (after edits).pairs = after edits := by
  refine ⟨fun name => ⟨getAll_after edits name, ?_, ?_, ?_⟩, size_after edits, pairs_after edits,
    ofPairs_pairs_after edits⟩
  · rw [first?, getAll_after]
  · rw [contains_after, Ne, Ne, List.map_eq_nil_iff]
  · rw [remove, getAll_after, after_concat]
    rfl

/-- After a name was removed, its next value brings a spelling of its own. -/
example : (after [.add "Tag" "1", .add "TAG" "2", .set "b" "x", .remove "tag", .add "taG" "3", .add "tag" "4"]).pairs
    = [("b", "x"), ("taG", "3"), ("taG", "4")] := by decide

end Metadata

end ContentMesh
