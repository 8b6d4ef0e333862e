import ContentMesh.Proofs.Json.Record
import ContentMesh.Storage.Table

/-!
# ContentMesh.Proofs.Storage.Lines — maps come back from documents and journals

A document of rows that come back gives its map back, and a journal the map that its changes make, whatever their number
(`Journal.replay_lines`).  What holds of each row of a map (`Dict.All`) and of each row that changes put (`Change.Puts`)
holds of the rows of the map that the changes make.
-/

namespace ContentMesh

/-- Decoding a row undoes encoding it: it comes back if it can be encoded at all. -/
def Record.Recovers {V : Type} [Record V] (v : V) : Prop := (Record.toJson v).clear = true → Record.Returns v

variable {V : Type} {p : V → Prop}

/-! ## Rows -/

/-- The row that a change puts, if it puts one, has a property. -/
def Change.Puts (p : V → Prop) : Change V → Prop
  | put _ v => p v
  | delete _ => True

/-- Every row of a map has a property. -/
def Dict.All (p : V → Prop) (rows : Dict V) : Prop := ∀ e ∈ rows.entries, p e.2

theorem Change.Puts.imp {q : V → Prop} (hpq : ∀ v, p v → q v) {c : Change V} (h : c.Puts p) : c.Puts q := by
  cases c with
  | put k v => exact hpq v h
  | delete k => trivial

/-- The changes that write a map anew. -/
def Journal.changesOf (rows : Dict V) : List (Change V) := rows.entries.map fun e => .put e.1 e.2

theorem Journal.foldl_changesOf (rows : Dict V) : (changesOf rows).foldl Change.apply ∅ = rows := by
  rw [changesOf, List.foldl_map]
  exact Dict.ofList_entries rows

namespace Dict.All

variable {rows : Dict V}

theorem empty : (∅ : Dict V).All p := fun _ h => absurd h List.not_mem_nil

theorem imp {q : V → Prop} (hpq : ∀ v, p v → q v) (h : rows.All p) : rows.All q := fun e he => hpq e.2 (h e he)

theorem apply (h : rows.All p) {c : Change V} (hc : c.Puts p) : (c.apply rows).All p := by
  intro e he
  cases c with
  | put k v =>
    rcases Dict.mem_put he with rfl | he
    · exact hc
    · exact h e he
  | delete k => exact h e (List.mem_filter.mp he).1

theorem puts {c : Change V} (h : (c.apply rows).All p) : c.Puts p := by
  cases c with
  | put k v => exact h (k, v) (Dict.mem_put_self k v rows.entries)
  | delete k => trivial

theorem foldl_apply (h : rows.All p) {cs : List (Change V)} (hcs : ∀ c ∈ cs, c.Puts p) :
    (cs.foldl Change.apply rows).All p := by
  induction cs generalizing rows with
  | nil => exact h
  | cons c cs ih =>
    exact ih (h.apply (hcs c List.mem_cons_self)) fun x hx => hcs x (List.mem_cons_of_mem c hx)

theorem changesOf (h : rows.All p) : ∀ c ∈ Journal.changesOf rows, c.Puts p := by
  intro c hc
  obtain ⟨e, he, rfl⟩ := List.mem_map.mp hc
  exact h e he

end Dict.All

variable [Record V]

/-! ## Changes -/

namespace Change

/-- A change can be written: a row that it puts can be encoded. -/
def Encodable (c : Change V) : Prop := c.Puts fun v => (Record.toJson v).clear = true

theorem clear_toJson {c : Change V} : c.toJson.clear = true ↔ c.Encodable := by
  cases c with
  | put k v =>
    rw [toJson, Json.clear_obj, Encodable, Puts]
    constructor
    · exact fun h => h ("value", Record.toJson v) (by simp)
    · intro h m hm
      simp only [List.mem_cons, List.not_mem_nil, or_false] at hm
      rcases hm with rfl | rfl | rfl
      · rfl
      · rfl
      · exact h
  | delete k => exact ⟨fun _ => trivial, fun _ => rfl⟩

/-- A change comes back: a row that it puts does. -/
def Returns (c : Change V) : Prop := c.Puts Record.Returns

/-- A change comes back if it can be written. -/
def Recovers (c : Change V) : Prop := c.Puts Record.Recovers

theorem Returns.encodable {c : Change V} (h : c.Returns) : c.Encodable := Puts.imp (fun _ hv => hv.legible.clear) h

theorem Recovers.returns {c : Change V} (h : c.Recovers) (hc : c.Encodable) : c.Returns := by
  cases c with
  | put k v => exact h hc
  | delete k => trivial

theorem Returns.legible {c : Change V} (h : c.Returns) : c.toJson.Legible := by
  cases c with
  | put k v =>
    refine .obj fun m hm => ?_
    simp only [List.mem_cons, List.not_mem_nil, or_false] at hm
    rcases hm with rfl | rfl | rfl
    · exact .str "put"
    · exact .str k
    · exact Record.Returns.legible h
  | delete k =>
    refine .obj fun m hm => ?_
    simp only [List.mem_cons, List.not_mem_nil, or_false] at hm
    rcases hm with rfl | rfl
    · exact .str "delete"
    · exact .str k

theorem Returns.ofJson? {c : Change V} (h : c.Returns) : Change.ofJson? c.toJson = some c := by
  have hclear := h.legible.clear
  cases c with
  | put k v =>
    have hdepth : (toJson (put k v)).depth ≤ Json.depthLimit := by
      simpa [toJson, Json.depth, Json.depthOfMembers] using Nat.succ_le_of_lt (Record.Returns.shallow h)
    have hread : ofMembers? "put" (.obj [("key", .str k), ("value", Record.toJson v)]) = some (put k v) := by
      simp [ofMembers?, Json.members?, Json.Members.required, Dict.lookup_cons, Json.str?, Record.Returns.decodes h]
    unfold Change.ofJson?
    rw [if_pos (Bool.and_eq_true_iff.mpr ⟨hclear, decide_eq_true hdepth⟩)]
    exact hread
  | delete k =>
    have hdepth : (toJson (delete k : Change V)).depth ≤ Json.depthLimit := by
      simp [toJson, Json.depth, Json.depthOfMembers, Json.depthLimit]
    have hread : ofMembers? "delete" (.obj [("key", .str k)]) = some (delete k : Change V) := by
      simp [ofMembers?, Json.members?, Json.Members.required, Json.str?]
    unfold Change.ofJson?
    rw [if_pos (Bool.and_eq_true_iff.mpr ⟨hclear, decide_eq_true hdepth⟩)]
    exact hread

/-- The bytes of a line without its newline. -/
def text (c : Change V) : Bytes := Utf8.encode c.toJson.chars

theorem text_ne_nil (c : Change V) : c.text ≠ [] := by
  cases c <;> exact List.cons_ne_nil _ _

theorem Returns.ofLine? {c : Change V} (h : c.Returns) : Change.ofLine? c.text = some c := by
  rw [Change.ofLine?, text, Json.readBytes_chars h.legible]
  exact h.ofJson?

theorem newline_notMem (c : Change V) : (10 : UInt8) ∉ c.text := c.toJson.newline_notMem_encode

end Change

/-! ## Journals -/

namespace Journal

theorem foldl_splitStep {l : Bytes} (h : (10 : UInt8) ∉ l) (p : Bytes) (ps : List Bytes) :
    l.foldl splitStep (p :: ps) = (l.reverse ++ p) :: ps := by
  induction l generalizing p with
  | nil => rfl
  | cons b l ih =>
    have hb : ¬ (b == 10) = true := fun hb => h (eq_of_beq hb ▸ List.mem_cons_self)
    have hl : (10 : UInt8) ∉ l := fun hl => h (List.mem_cons_of_mem b hl)
    have hstep : splitStep (p :: ps) b = (b :: p) :: ps := by rw [splitStep, if_neg hb]
    rw [List.foldl_cons, hstep, ih hl, List.reverse_cons, List.append_assoc]
    rfl

/-- Older pieces are left alone. -/
theorem foldl_splitStep_append (bs p : Bytes) (ps qs : List Bytes) :
    bs.foldl splitStep (p :: ps ++ qs) = bs.foldl splitStep (p :: ps) ++ qs := by
  induction bs generalizing p ps with
  | nil => rfl
  | cons b bs ih =>
    by_cases hb : (b == 10) = true
    · simp only [List.foldl_cons, splitStep, if_pos hb]
      exact ih [] (p :: ps)
    · simp only [List.foldl_cons, List.cons_append, splitStep, if_neg hb]
      exact ih (b :: p) ps

/-- What stands before the first newline is the first line. -/
theorem lines_cons {l : Bytes} (h : (10 : UInt8) ∉ l) (hne : l ≠ []) (bs : Bytes) :
    lines (l ++ 10 :: bs) = l :: lines bs := by
  have hfold : (l ++ 10 :: bs).foldl splitStep [[]] = bs.foldl splitStep [[]] ++ [l.reverse] := by
    rw [List.foldl_append, foldl_splitStep h, List.append_nil, List.foldl_cons]
    exact foldl_splitStep_append bs [] [] [l.reverse]
  rw [lines, hfold]
  simp [lines, hne]

/-- Text without a newline is a line, unless it is empty. -/
theorem lines_last {l : Bytes} (h : (10 : UInt8) ∉ l) : lines l = if l = [] then [] else [l] := by
  rw [lines, foldl_splitStep h, List.append_nil]
  by_cases hne : l = [] <;> simp [hne]

/-- Lines that each end in a newline are cut apart again. -/
theorem lines_flatMap {ls : List Bytes} (h : ∀ l ∈ ls, (10 : UInt8) ∉ l ∧ l ≠ []) :
    lines (ls.flatMap (· ++ [10])) = ls := by
  induction ls with
  | nil => rfl
  | cons l ls ih =>
    obtain ⟨hnewline, hne⟩ := h l List.mem_cons_self
    rw [List.flatMap_cons, List.append_assoc, List.singleton_append, lines_cons hnewline hne,
      ih fun x hx => h x (List.mem_cons_of_mem l hx)]

/-- The lines of changes are replayed one by one; none is torn. -/
theorem replayFrom_text {cs : List (Change V)} (h : ∀ c ∈ cs, c.Returns) (d : Dict V) (number : Nat) :
    replayFrom d number (cs.map Change.text) = .ok (cs.foldl Change.apply d) := by
  induction cs generalizing d number with
  | nil => rfl
  | cons c cs ih =>
    rw [List.map_cons, replayFrom, (h c List.mem_cons_self).ofLine?]
    exact ih (fun x hx => h x (List.mem_cons_of_mem _ hx)) _ _

/-- A journal has one line for each change. -/
theorem lines_line (cs : List (Change V)) : lines (cs.flatMap Change.line) = cs.map Change.text := by
  have hbytes : cs.flatMap Change.line = (cs.map Change.text).flatMap (· ++ [10]) := by
    rw [List.flatMap_map]
    rfl
  rw [hbytes]
  refine lines_flatMap fun l hl => ?_
  obtain ⟨c, -, rfl⟩ := List.mem_map.mp hl
  exact ⟨c.newline_notMem, c.text_ne_nil⟩

/-- A journal gives the map that its changes make. -/
theorem replay_lines {cs : List (Change V)} (h : ∀ c ∈ cs, c.Returns) :
    replay (cs.flatMap Change.line) = .ok (cs.foldl Change.apply ∅) := by
  rw [replay, lines_line, replayFrom_text h]

theorem image_eq (rows : Dict V) : image rows = (changesOf rows).flatMap Change.line := by
  rw [image, changesOf, List.flatMap_map]

end Journal

/-! ## Documents -/

/-- Every row of a map can be encoded. -/
def Dict.Encodable (rows : Dict V) : Prop := rows.All fun v => (Record.toJson v).clear = true

/-- A document can be written if its rows can be encoded. -/
theorem Dict.clear_documentOf {rows : Dict V} : (Table.documentOf rows).clear = true ↔ rows.Encodable := by
  rw [Table.documentOf, Json.clear_obj]
  constructor
  · exact fun h e he => h (e.1, Record.toJson e.2) (List.mem_map.mpr ⟨e, he, rfl⟩)
  · intro h m hm
    obtain ⟨e, he, rfl⟩ := List.mem_map.mp hm
    exact h e he

/-- Every row of a map comes back. -/
def Dict.Returns (rows : Dict V) : Prop := rows.All Record.Returns

namespace Dict.Returns

variable {rows : Dict V}

theorem encodable (h : rows.Returns) : rows.Encodable := All.imp (fun _ hv => hv.legible.clear) h

theorem legible (h : rows.Returns) : (Table.documentOf rows).Legible := by
  refine .obj fun m hm => ?_
  obtain ⟨e, he, rfl⟩ := List.mem_map.mp hm
  exact (h e he).legible

/-- A document gives its map back. -/
theorem readDocument (h : rows.Returns) :
    Table.readDocument (Utf8.encode (Table.documentOf rows).chars) = .ok rows := by
  have hnil : (Utf8.encode (Table.documentOf rows).chars).isEmpty = false := rfl
  have hdict : Json.dict? Record.ofJson? (Table.documentOf rows) = some rows :=
    Json.dict?_entries fun e he => (h e he).decodes
  rw [Table.readDocument, hnil, if_neg Bool.false_ne_true, Json.readBytes_chars h.legible, Option.bind_some, hdict]

/-- A map that is written as a journal is replayed from it. -/
theorem replay_image (h : rows.Returns) : Journal.replay (Journal.image rows) = .ok rows := by
  rw [Journal.image_eq, Journal.replay_lines (All.changesOf h), Journal.foldl_changesOf]

end Dict.Returns

end ContentMesh
