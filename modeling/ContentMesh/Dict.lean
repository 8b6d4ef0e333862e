/-!
# ContentMesh.Dict — finite maps from text, in key order

Every table, index and listing of a node is a `Dict`.  The entries are kept strictly ascending by key, so a key has
one entry, a listing is sorted, and two maps with the same look-ups are equal (`Dict.ext_get?`).
-/

namespace ContentMesh

variable {V W : Type}

/-- A finite map from text: entries in strictly ascending key order. -/
structure Dict (V : Type) where
  entries : List (String × V)
  ascending : entries.Pairwise (·.1 < ·.1)

namespace Dict

instance [DecidableEq V] : DecidableEq (Dict V) := fun a b =>
  decidable_of_iff (a.entries = b.entries) (by cases a; cases b; simp)

/-- The map without entries. -/
def empty : Dict V := ⟨[], .nil⟩

instance : EmptyCollection (Dict V) := ⟨empty⟩
instance : Inhabited (Dict V) := ⟨empty⟩

/-! ## Entries -/

/-- The entries with `k` bound to `v`, an older binding of `k` replaced. -/
def put (k : String) (v : V) : List (String × V) → List (String × V)
  | [] => [(k, v)]
  | (k', v') :: es =>
    if k < k' then (k, v) :: (k', v') :: es
    else if k' < k then (k', v') :: put k v es
    else (k, v) :: es

theorem eq_of_not_lt {a b : String} (h : ¬ a < b) (h' : ¬ b < a) : a = b :=
  String.le_antisymm (String.not_lt.mp h') (String.not_lt.mp h)

theorem mem_put {k : String} {v : V} {es : List (String × V)} {e : String × V} (h : e ∈ put k v es) :
    e = (k, v) ∨ e ∈ es := by
  induction es with
  | nil => simpa [put] using h
  | cons x es ih =>
    simp only [put] at h
    split at h
    · simpa using h
    · split at h
      · rcases List.mem_cons.mp h with rfl | h
        · simp
        · rcases ih h with h | h <;> simp [h]
      · rcases List.mem_cons.mp h with rfl | h <;> simp [*]

theorem mem_put_self (k : String) (v : V) (es : List (String × V)) : (k, v) ∈ put k v es := by
  induction es with
  | nil => simp [put]
  | cons x es ih =>
    simp only [put]
    split
    · exact List.mem_cons_self
    · split
      · exact List.mem_cons_of_mem _ ih
      · exact List.mem_cons_self

theorem put_ascending (k : String) (v : V) {es : List (String × V)} (h : es.Pairwise (·.1 < ·.1)) :
    (put k v es).Pairwise (·.1 < ·.1) := by
  induction es with
  | nil => simp [put]
  | cons x es ih =>
    obtain ⟨hx, hes⟩ := List.pairwise_cons.mp h
    simp only [put]
    split
    · rename_i hk
      refine List.pairwise_cons.mpr ⟨fun e he => ?_, h⟩
      rcases List.mem_cons.mp he with rfl | he
      · exact hk
      · exact String.lt_trans hk (hx e he)
    · rename_i hk
      split
      · rename_i hk'
        refine List.pairwise_cons.mpr ⟨fun e he => ?_, ih hes⟩
        rcases mem_put he with rfl | he
        · exact hk'
        · exact hx e he
      · rename_i hk'
        have := eq_of_not_lt hk hk'
        exact List.pairwise_cons.mpr ⟨fun e he => this ▸ hx e he, hes⟩

/-! ## Operations -/

/-- The value bound to `k`. -/
def get? (d : Dict V) (k : String) : Option V := d.entries.lookup k

/-- Whether `k` is bound. -/
def contains (d : Dict V) (k : String) : Bool := (d.get? k).isSome

/-- Binds `k` to `v`. -/
def insert (d : Dict V) (k : String) (v : V) : Dict V := ⟨put k v d.entries, put_ascending k v d.ascending⟩

/-- Unbinds `k`. -/
def erase (d : Dict V) (k : String) : Dict V :=
  ⟨d.entries.filter (·.1 != k), d.ascending.filter _⟩

/-- Changes the value at `k`, if there is one. -/
def modify (d : Dict V) (k : String) (f : V → V) : Dict V :=
  match d.get? k with
  | some v => d.insert k (f v)
  | none => d

/-- The bound keys, ascending. -/
def keys (d : Dict V) : List String := d.entries.map (·.1)

/-- The values, in key order. -/
def values (d : Dict V) : List V := d.entries.map (·.2)

/-- How many keys are bound. -/
def size (d : Dict V) : Nat := d.entries.length

/-- Whether no key is bound. -/
def isEmpty (d : Dict V) : Bool := d.entries.isEmpty

/-- The bindings of a list, a later one replacing an earlier one of the same key. -/
def ofList (es : List (String × V)) : Dict V := es.foldl (fun d e => d.insert e.1 e.2) empty

/-- The values bound to each key of a list, in their order. -/
def group (es : List (String × V)) : Dict (List V) :=
  es.foldl (fun d e => d.insert e.1 ((d.get? e.1).getD [] ++ [e.2])) empty

/-- The map with `f` applied to every value. -/
def map (f : V → W) (d : Dict V) : Dict W :=
  ⟨d.entries.map (fun e => (e.1, f e.2)), List.pairwise_map.mpr d.ascending⟩

/-! ## Sizes -/

theorem size_insert_le (d : Dict V) (k : String) (v : V) : (d.insert k v).size ≤ d.size + 1 := by
  show (put k v d.entries).length ≤ d.entries.length + 1
  induction d.entries with
  | nil => exact Nat.le_refl _
  | cons e es ih =>
    simp only [put]
    split
    · exact Nat.le_refl _
    · split
      · exact Nat.succ_le_succ ih
      · exact Nat.le_succ _

theorem size_erase_le (d : Dict V) (k : String) : (d.erase k).size ≤ d.size := List.length_filter_le _ _

/-! ## Looking up -/

theorem lookup_cons (k : String) (e : String × V) (es : List (String × V)) :
    (e :: es).lookup k = if k = e.1 then some e.2 else es.lookup k := by
  by_cases h : k = e.1
  · rw [if_pos h, h]
    exact List.lookup_cons_self
  · rw [if_neg h]
    show (match k == e.1 with | true => some e.2 | false => es.lookup k) = es.lookup k
    rw [beq_false_of_ne h]

theorem lookup_put (k k' : String) (v : V) (es : List (String × V)) :
    (put k v es).lookup k' = if k' = k then some v else es.lookup k' := by
  induction es with
  | nil => exact lookup_cons k' (k, v) []
  | cons e es ih =>
    simp only [put]
    split
    · exact lookup_cons k' (k, v) (e :: es)
    · split
      · rename_i hk
        rw [lookup_cons, lookup_cons, ih]
        by_cases h : k' = e.1
        · have he : e.1 ≠ k := fun he => String.lt_irrefl k (he ▸ hk)
          rw [if_pos h, if_neg (fun h' => he (h ▸ h')), if_pos h]
        · rw [if_neg h, if_neg h]
      · rename_i hk hk'
        have h : k = e.1 := eq_of_not_lt hk hk'
        rw [lookup_cons, lookup_cons, ← h]
        by_cases h : k' = k
        · rw [if_pos h, if_pos h]
        · rw [if_neg h, if_neg h, if_neg h]

theorem lookup_erased (k k' : String) (es : List (String × V)) :
    (es.filter (·.1 != k)).lookup k' = if k' = k then none else es.lookup k' := by
  induction es with
  | nil => exact (ite_self none).symm
  | cons e es ih =>
    rw [lookup_cons]
    by_cases he : e.1 = k
    · rw [List.filter_cons_of_neg (by simp [he]), ih, he]
      by_cases h : k' = k
      · rw [if_pos h, if_pos h]
      · rw [if_neg h, if_neg h, if_neg h]
    · rw [List.filter_cons_of_pos (by simp [he]), lookup_cons, ih]
      by_cases h : k' = e.1
      · rw [if_pos h, if_pos h, if_neg (h ▸ he)]
      · rw [if_neg h, if_neg h]

theorem lookup_mapped (f : V → W) (k : String) (es : List (String × V)) :
    (es.map fun e => (e.1, f e.2)).lookup k = (es.lookup k).map f := by
  induction es with
  | nil => rfl
  | cons e es ih =>
    rw [List.map_cons, lookup_cons, lookup_cons, ih]
    split <;> rfl

theorem get?_insert (d : Dict V) (k k' : String) (v : V) :
    (d.insert k v).get? k' = if k' = k then some v else d.get? k' := lookup_put k k' v d.entries

theorem get?_erase (d : Dict V) (k k' : String) :
    (d.erase k).get? k' = if k' = k then none else d.get? k' := lookup_erased k k' d.entries

theorem get?_map (f : V → W) (d : Dict V) (k : String) : (d.map f).get? k = (d.get? k).map f :=
  lookup_mapped f k d.entries

theorem lookup_eq_none_of_forall_lt {k : String} {es : List (String × V)} (h : ∀ e ∈ es, k < e.1) :
    es.lookup k = none := by
  induction es with
  | nil => rfl
  | cons e es ih =>
    have he : k ≠ e.1 := fun hk => String.lt_irrefl k (hk ▸ h e List.mem_cons_self)
    rw [lookup_cons, if_neg he, ih fun e he => h e (List.mem_cons_of_mem _ he)]

theorem lookup_eq_none_of_lt_head {k : String} {e : String × V} {es : List (String × V)}
    (he : (e :: es).Pairwise (·.1 < ·.1)) (h : k < e.1) : (e :: es).lookup k = none := by
  refine lookup_eq_none_of_forall_lt fun x hx => ?_
  rcases List.mem_cons.mp hx with rfl | hx
  · exact h
  · exact String.lt_trans h ((List.pairwise_cons.mp he).1 x hx)

theorem eq_of_lookup_eq {es fs : List (String × V)} (he : es.Pairwise (·.1 < ·.1))
    (hf : fs.Pairwise (·.1 < ·.1)) (h : ∀ k, es.lookup k = fs.lookup k) : es = fs := by
  induction es generalizing fs with
  | nil =>
    cases fs with
    | nil => rfl
    | cons y fs => exact absurd (h y.1) (by rw [lookup_cons, if_pos rfl]; simp)
  | cons x es ih =>
    cases fs with
    | nil => exact absurd (h x.1) (by rw [lookup_cons, if_pos rfl]; simp)
    | cons y fs =>
      obtain ⟨hx, hes⟩ := List.pairwise_cons.mp he
      obtain ⟨hy, hfs⟩ := List.pairwise_cons.mp hf
      have hxy : ¬ x.1 < y.1 := fun hlt => by
        have := h x.1
        rw [lookup_eq_none_of_lt_head hf hlt, lookup_cons, if_pos rfl] at this
        cases this
      have hyx : ¬ y.1 < x.1 := fun hlt => by
        have := h y.1
        rw [lookup_eq_none_of_lt_head he hlt, lookup_cons, if_pos rfl] at this
        cases this
      have hk : x.1 = y.1 := eq_of_not_lt hxy hyx
      have hv : some x.2 = some y.2 := by
        have := h x.1
        rwa [lookup_cons, lookup_cons, if_pos rfl, if_pos hk] at this
      have hxy : x = y := Prod.ext hk (Option.some.inj hv)
      subst hxy
      rw [ih hes hfs fun k => ?_]
      by_cases hkx : k = x.1
      · rw [hkx, lookup_eq_none_of_forall_lt hx, lookup_eq_none_of_forall_lt hy]
      · have := h k
        rwa [lookup_cons, lookup_cons, if_neg hkx, if_neg hkx] at this

/-- Two maps with the same look-ups are equal. -/
theorem ext_get? {d e : Dict V} (h : ∀ k, d.get? k = e.get? k) : d = e := by
  obtain ⟨es, he⟩ := d
  obtain ⟨fs, hf⟩ := e
  congr 1
  exact eq_of_lookup_eq he hf h

theorem put_of_forall_lt {k : String} {v : V} {es : List (String × V)} (h : ∀ e ∈ es, e.1 < k) :
    put k v es = es ++ [(k, v)] := by
  induction es with
  | nil => rfl
  | cons e es ih =>
    have he : e.1 < k := h e List.mem_cons_self
    rw [put, if_neg (String.lt_asymm he), if_pos he, ih fun x hx => h x (List.mem_cons_of_mem _ hx)]
    rfl

theorem entries_foldl_insert (es : List (String × V)) (d : Dict V) (h : (d.entries ++ es).Pairwise (·.1 < ·.1)) :
    (es.foldl (fun d e => d.insert e.1 e.2) d).entries = d.entries ++ es := by
  induction es generalizing d with
  | nil => simp
  | cons e es ih =>
    have hlt : ∀ x ∈ d.entries, x.1 < e.1 := fun x hx =>
      (List.pairwise_append.mp h).2.2 x hx e List.mem_cons_self
    have hput : (d.insert e.1 e.2).entries = d.entries ++ [e] := put_of_forall_lt hlt
    rw [List.foldl_cons, ih, hput, List.append_assoc]
    · rfl
    · rw [hput, List.append_assoc]
      exact h

/-- A map is the one that its entries make. -/
theorem ofList_entries (d : Dict V) : ofList d.entries = d := by
  have h := entries_foldl_insert d.entries empty d.ascending
  obtain ⟨es, hes⟩ := d
  rw [ofList]
  generalize es.foldl _ _ = r at h
  obtain ⟨fs, hfs⟩ := r
  congr 1

/-- Unbinding a key that is not bound changes nothing. -/
theorem erase_of_not_contains {d : Dict V} {k : String} (h : d.contains k = false) : d.erase k = d := by
  refine ext_get? fun j => ?_
  rw [get?_erase]
  by_cases hj : j = k
  · rw [if_pos hj, hj]
    exact (Option.not_isSome_iff_eq_none.mp (Bool.eq_false_iff.mp h)).symm
  · rw [if_neg hj]

/-- Unbinding a key that was bound anew leaves what was there before. -/
theorem erase_insert_new {d : Dict V} {k : String} (h : d.get? k = none) (v : V) : (d.insert k v).erase k = d := by
  refine ext_get? fun j => ?_
  rw [get?_erase, get?_insert]
  by_cases hj : j = k
  · rw [if_pos hj, hj, h]
  · rw [if_neg hj, if_neg hj]

end Dict

end ContentMesh
