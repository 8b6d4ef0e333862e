import ContentMesh.Json.Record
import ContentMesh.Proofs.Json.RoundTrip

/-!
# ContentMesh.Proofs.Json.Record — values that come back from their records

A value comes back if the text of its record is read and what is read is decoded to the value (`Record.Returns`).  For the
text it is enough that the tree is put together from what can be read, and how deep it is shows on the way
(`Json.Fits`).
-/

namespace ContentMesh

variable {V : Type}

namespace Json

/-! ## Clear trees -/

theorem clear_arr {xs : List Json} : (arr xs).clear = true ↔ ∀ x ∈ xs, x.clear = true := by
  have helements : anyElement isGarbled xs = false ↔ ∀ x ∈ xs, x.any isGarbled = false := by
    induction xs with
    | nil => simp [anyElement]
    | cons x xs ih => simp [anyElement, Bool.or_eq_false_iff, ih]
  simp only [clear, any, isGarbled, Bool.false_or, Bool.not_eq_true', helements]

theorem clear_obj {ms : List (String × Json)} : (obj ms).clear = true ↔ ∀ m ∈ ms, m.2.clear = true := by
  have hmembers : anyMember isGarbled ms = false ↔ ∀ m ∈ ms, m.2.any isGarbled = false := by
    induction ms with
    | nil => simp [anyMember]
    | cons m ms ih => simp [anyMember, Bool.or_eq_false_iff, ih]
  simp only [clear, any, isGarbled, Bool.false_or, Bool.not_eq_true', hmembers]

/-- What can be read back stands for something in every part. -/
theorem Legible.clear {j : Json} (h : j.Legible) : j.clear = true := by
  induction h with
  | null => rfl
  | bool b => rfl
  | num h => rfl
  | str x => rfl
  | arr _ ih => exact clear_arr.mpr ih
  | obj _ ih => exact clear_obj.mpr ih

/-! ## Maps and members -/

theorem mapM_members {f : Json → Option V} {g : V → Json} {es : List (String × V)}
    (h : ∀ e ∈ es, f (g e.2) = some e.2) :
    (es.map fun e => (e.1, g e.2)).mapM (fun m => (f m.2).map fun v => (m.1, v)) = some es := by
  induction es with
  | nil => rfl
  | cons e es ih =>
    rw [List.map_cons, List.mapM_cons, h e List.mem_cons_self, ih fun x hx => h x (List.mem_cons_of_mem _ hx)]
    rfl

/-- A map comes back from the object of its entries. -/
theorem dict?_entries {f : Json → Option V} {g : V → Json} {d : Dict V} (h : ∀ e ∈ d.entries, f (g e.2) = some e.2) :
    dict? f (obj (d.map g).entries) = some d := by
  have hdict := congrArg (Option.map Dict.ofList) (mapM_members h)
  rw [Option.map_some, Dict.ofList_entries] at hdict
  exact hdict

theorem mem_given {name : String} {x : Option Json} {m : String × Json} :
    m ∈ given name x ↔ ∃ j, x = some j ∧ m = (name, j) := by
  cases x <;> simp [given]

/-! ## Depth -/

theorem depthOfMembers_le {ms : List (String × Json)} {n : Nat} (h : ∀ m ∈ ms, m.2.depth ≤ n) :
    depthOfMembers ms ≤ n := by
  induction ms with
  | nil => exact Nat.zero_le n
  | cons m ms ih => exact Nat.max_le.mpr ⟨h m List.mem_cons_self, ih fun x hx => h x (List.mem_cons_of_mem m hx)⟩

/-- A tree can be read back, and is no deeper than this. -/
structure Fits (n : Nat) (j : Json) : Prop where
  legible : j.Legible
  depth_le : j.depth ≤ n

namespace Fits

variable {n : Nat}

theorem mono {m : Nat} {j : Json} (h : Fits n j) (hm : n ≤ m) : Fits m j := ⟨h.legible, Nat.le_trans h.depth_le hm⟩

theorem null : Fits n null := ⟨.null, Nat.zero_le n⟩

theorem str (x : String) : Fits n (str x) := ⟨.str x, Nat.zero_le n⟩

theorem obj {ms : List (String × Json)} (h : ∀ m ∈ ms, Fits n m.2) : Fits (n + 1) (obj ms) :=
  ⟨.obj fun m hm => (h m hm).legible, Nat.succ_le_succ (depthOfMembers_le fun m hm => (h m hm).depth_le)⟩

theorem dict {f : V → Json} (h : ∀ v, Fits n (f v)) (d : Dict V) : Fits (n + 1) (Json.obj (d.map f).entries) := by
  refine obj fun m hm => ?_
  obtain ⟨e, -, rfl⟩ := List.mem_map.mp hm
  exact h e.2

theorem given {name : String} {x : Option Json} (h : ∀ j, x = some j → Fits n j) : ∀ m ∈ Json.given name x, Fits n m.2 := by
  intro m hm
  obtain ⟨j, hj, rfl⟩ := mem_given.mp hm
  exact h j hj

end Fits

end Json

/-! ## Values -/

/-- A value comes back: the text of its record is read, also one level deeper, where it stands in a file, and what is read
is decoded to the value. -/
structure Record.Returns [Record V] (v : V) : Prop where
  legible : (Record.toJson v).Legible
  shallow : (Record.toJson v).depth < Json.depthLimit
  decodes : Record.ofJson? (Record.toJson v) = some v

namespace Record.Returns

variable [Record V] {v : V}

theorem of_fits {n : Nat} (h : (Record.toJson v).Fits n) (hn : n < Json.depthLimit)
    (hdecodes : Record.ofJson? (Record.toJson v) = some v) : Record.Returns v :=
  ⟨h.legible, Nat.lt_of_le_of_lt h.depth_le hn, hdecodes⟩

/-- Reading the text of a value gives the value. -/
theorem read_text (h : Record.Returns v) :
    (Json.readBytes (Utf8.encode (Record.toJson v).chars)).bind Record.ofJson? = some v := by
  rw [Json.readBytes_chars h.legible, Option.bind_some, h.decodes]

end Record.Returns

end ContentMesh
