import ContentMesh.Storage.Store

/-!
# ContentMesh.Proofs.Storage.Calls — what the calls of a table do to its rows

A change that a table reports as done is done in its map, and one that fails leaves the map alone, whatever the
table keeps on disk (`Table.rows_commit`).  Through a store, a call either fails as planned, and then changes only
the plan, or is a call of the table.  `Store.Reliable` is a table of which no call fails, however it is used.
-/

namespace ContentMesh

variable {V α : Type} [Record V]

/-! ## Tables -/

namespace Table

theorem rows_renewed (t : Table V) (path : String) (h : Handle) (length : Nat) :
    (t.renewed path h length).rows = t.rows := by
  unfold renewed
  split <;> rfl

/-- The map after a change is the changed map or, where the change failed, the map before. -/
theorem rows_commit (t : Table V) (c : Change V) :
    ((t.commit c).1 = .ok () ∧ (t.commit c).2.rows = c.apply t.rows) ∨
      ((∃ f, (t.commit c).1 = .error f) ∧ (t.commit c).2.rows = t.rows) := by
  unfold commit
  cases t.backing with
  | memory => exact Or.inl ⟨rfl, rfl⟩
  | document path =>
    dsimp only
    split
    · exact Or.inl ⟨rfl, rfl⟩
    · exact Or.inr ⟨⟨_, rfl⟩, rfl⟩
  | journal path h length =>
    dsimp only
    split
    · exact Or.inr ⟨⟨_, rfl⟩, rows_renewed t path h length⟩
    · split
      · exact Or.inr ⟨⟨_, rfl⟩, rows_renewed _ path _ length⟩
      · split
        · exact Or.inl ⟨rfl, rows_renewed _ path _ _⟩
        · exact Or.inl ⟨rfl, rfl⟩

end Table

/-! ### Failures -/

/-- The failures of tables: of encoding, of the disk, or of storing. -/
def Failure.OfTable (f : Failure) : Prop := f = .serialization ∨ f = .io ∨ ∃ text, f = .store text

namespace Table

variable {f : Failure}

theorem writeDocument_failure {d : Disk} {path : String} {rows : Dict V} (h : (writeDocument d path rows).1 = .error f) :
    f.OfTable := by
  unfold writeDocument at h
  dsimp only at h
  split at h
  · cases h
    exact .inl rfl
  · split at h
    · cases h
      exact .inr (.inl rfl)
    · unfold settle at h
      split at h
      · cases h
      · rename_i g hg
        cases h
        split at hg
        · cases hg
        · cases hg
          exact .inr (.inr ⟨_, rfl⟩)

theorem commit_failure {t : Table V} {c : Change V} (h : (t.commit c).1 = .error f) : f.OfTable := by
  unfold commit at h
  cases hb : t.backing with
  | memory =>
    rw [hb] at h
    cases h
  | document path =>
    rw [hb] at h
    dsimp only at h
    split at h
    · cases h
    · rename_i g disk hg
      cases h
      exact writeDocument_failure (congrArg Prod.fst hg)
  | journal path file length =>
    rw [hb] at h
    dsimp only at h
    split at h
    · cases h
      exact .inl rfl
    · split at h
      · cases h
        exact .inr (.inl rfl)
      · split at h <;> cases h

theorem delete_failure {t : Table V} {k : String} (h : (t.delete k).1 = .error f) : f.OfTable := by
  unfold delete at h
  split at h
  · split at h
    · cases h
    · rename_i g t' hg
      cases h
      exact commit_failure (congrArg Prod.fst hg)
  · cases h

end Table

/-! ## Stores -/

namespace Store

/-- The rows that a store answers from. -/
def rows (s : Store V) : Dict V := s.table.rows

omit [Record V] in
/-- A call fails as planned, or is a call of the table. -/
theorem call_cases (s : Store V) (c : TableCall) (f : Table V → Except Failure α × Table V) :
    (s.faults.count c ≠ 0 ∧ (∃ n, s.call c f = (.error c.injected, { s with faults := s.faults.plan c n }))) ∨
      (s.faults.count c = 0 ∧ s.call c f = ((f s.table).1, { s with table := (f s.table).2 })) := by
  unfold call
  cases h : s.faults.count c with
  | zero => exact Or.inr ⟨rfl, rfl⟩
  | succ n => exact Or.inl ⟨Nat.succ_ne_zero n, n, rfl⟩

omit [Record V] in
theorem get_cases (s : Store V) (k : String) :
    (s.faults.get ≠ 0 ∧ ∃ f s', s.get k = (.error f, s') ∧ s'.rows = s.rows) ∨
      (s.faults.get = 0 ∧ s.get k = (.ok (s.rows.get? k), s)) := by
  rcases s.call_cases .get fun t => (.ok (t.rows.get? k), t) with ⟨hc, n, h⟩ | ⟨hc, h⟩
  · exact Or.inl ⟨hc, _, _, h, rfl⟩
  · exact Or.inr ⟨hc, h⟩

omit [Record V] in
theorem contains_cases (s : Store V) (k : String) :
    (∃ f s', s.contains k = (.error f, s') ∧ s'.rows = s.rows) ∨ s.contains k = (.ok (s.rows.contains k), s) := by
  rcases s.call_cases .contains fun t => (.ok (t.rows.contains k), t) with ⟨-, n, h⟩ | ⟨-, h⟩
  · exact Or.inl ⟨_, _, h, rfl⟩
  · exact Or.inr h

omit [Record V] in
theorem values_cases (s : Store V) :
    (∃ f s', s.values = (.error f, s') ∧ s'.rows = s.rows) ∨ s.values = (.ok s.rows.values, s) := by
  rcases s.call_cases .values fun t => (.ok t.rows.values, t) with ⟨-, n, h⟩ | ⟨-, h⟩
  · exact Or.inl ⟨_, _, h, rfl⟩
  · exact Or.inr h

/-- A row that is put is there, or the call fails and nothing changed. -/
theorem put_cases (s : Store V) (k : String) (v : V) :
    (∃ s', s.put k v = (.ok (), s') ∧ s'.rows = s.rows.insert k v) ∨
      (∃ f s', s.put k v = (.error f, s') ∧ s'.rows = s.rows) := by
  rcases s.call_cases .put fun t => t.put k v with ⟨-, n, h⟩ | ⟨-, h⟩
  · exact Or.inr ⟨_, _, h, rfl⟩
  · rcases s.table.rows_commit (.put k v) with ⟨h1, h2⟩ | ⟨⟨f, h1⟩, h2⟩
    · exact Or.inl ⟨⟨(s.table.commit (.put k v)).2, s.faults⟩, h.trans (by rw [Table.put, h1]), h2⟩
    · exact Or.inr ⟨f, ⟨(s.table.commit (.put k v)).2, s.faults⟩, h.trans (by rw [Table.put, h1]), h2⟩

/-- A row that is deleted is not there, or the call fails and nothing changed. -/
theorem delete_cases (s : Store V) (k : String) :
    (∃ s', s.delete k = (.ok (s.rows.contains k), s') ∧ ∀ j, s'.rows.get? j = if j = k then none else s.rows.get? j) ∨
      (∃ f s', s.delete k = (.error f, s') ∧ s'.rows = s.rows) := by
  rcases s.call_cases .delete fun t => t.delete k with ⟨-, n, h⟩ | ⟨-, h⟩
  · exact Or.inr ⟨_, _, h, rfl⟩
  · cases hk : s.rows.contains k with
    | false =>
      have hk' : s.table.rows.contains k = false := hk
      have hd : s.table.delete k = (.ok false, s.table) := by
        unfold Table.delete
        rw [hk', if_neg Bool.false_ne_true]
      refine Or.inl ⟨s, by rw [delete, h, hd], fun j => ?_⟩
      by_cases hj : j = k
      · subst hj
        rw [if_pos rfl]
        simpa [Dict.contains] using hk
      · rw [if_neg hj]
    | true =>
      have hk' : s.table.rows.contains k = true := hk
      rcases s.table.rows_commit (.delete k) with ⟨h1, h2⟩ | ⟨⟨f, h1⟩, h2⟩
      · have hd : s.table.delete k = (.ok true, (s.table.commit (.delete k)).2) := by
          unfold Table.delete
          rw [hk', if_pos rfl]
          split <;> simp_all
        refine Or.inl ⟨⟨(s.table.commit (.delete k)).2, s.faults⟩, by rw [delete, h, hd, ← hk], fun j => ?_⟩
        rw [rows, h2]
        exact Dict.get?_erase s.table.rows k j
      · have hd : s.table.delete k = (.error f, (s.table.commit (.delete k)).2) := by
          unfold Table.delete
          rw [hk', if_pos rfl]
          split <;> simp_all
        exact Or.inr ⟨f, ⟨(s.table.commit (.delete k)).2, s.faults⟩, by rw [delete, h, hd], h2⟩

section Failures

variable {s : Store V} {k : String} {f : Failure}

omit [Record V] in
/-- A call fails as planned, or as the call of the table fails. -/
theorem call_failure {c : TableCall} {g : Table V → Except Failure α × Table V} (h : (s.call c g).1 = .error f) :
    f.OfTable ∨ (g s.table).1 = .error f := by
  rcases s.call_cases c g with ⟨-, n, hcall⟩ | ⟨-, hcall⟩
  · rw [hcall] at h
    cases h
    exact .inl (.inr (.inr ⟨_, rfl⟩))
  · rw [hcall] at h
    exact .inr h

omit [Record V] in
theorem get_failure (h : (s.get k).1 = .error f) : f.OfTable :=
  (call_failure h).resolve_right fun hg => by cases hg

omit [Record V] in
theorem contains_failure (h : (s.contains k).1 = .error f) : f.OfTable :=
  (call_failure h).resolve_right fun hg => by cases hg

theorem put_failure {v : V} (h : (s.put k v).1 = .error f) : f.OfTable :=
  (call_failure h).elim id Table.commit_failure

theorem delete_failure (h : (s.delete k).1 = .error f) : f.OfTable :=
  (call_failure h).elim id Table.delete_failure

end Failures

/-! ## Reliable tables -/

/-- A call of a table, as data. -/
inductive Op (V : Type) where
  | get (k : String)
  | contains (k : String)
  | values
  | put (k : String) (v : V)
  | delete (k : String)

/-- A call: whether it succeeds, and the store after it. -/
def perform (s : Store V) : Op V → Bool × Store V
  | .get k => ((s.get k).1.isOk, (s.get k).2)
  | .contains k => ((s.contains k).1.isOk, (s.contains k).2)
  | .values => (s.values.1.isOk, s.values.2)
  | .put k v => ((s.put k v).1.isOk, (s.put k v).2)
  | .delete k => ((s.delete k).1.isOk, (s.delete k).2)

/-- The store after calls. -/
def after (s : Store V) (ops : List (Op V)) : Store V := ops.foldl (fun s o => (s.perform o).2) s

/-- A table of which no call fails, whatever was called before. -/
def Reliable (s : Store V) : Prop := ∀ ops o, ((s.after ops).perform o).1 = true

namespace Reliable

variable {s : Store V}

theorem performed (h : s.Reliable) (o : Op V) : (s.perform o).2.Reliable := fun ops o' => h (o :: ops) o'

theorem get (h : s.Reliable) (k : String) : s.get k = (.ok (s.rows.get? k), s) := by
  rcases s.get_cases k with ⟨-, f, s', hg, -⟩ | ⟨-, hg⟩
  · have : (s.perform (.get k)).1 = true := h [] (.get k)
    rw [perform, hg] at this
    cases this
  · exact hg

theorem contains (h : s.Reliable) (k : String) : s.contains k = (.ok (s.rows.contains k), s) := by
  rcases s.contains_cases k with ⟨f, s', hg, -⟩ | hg
  · have : (s.perform (.contains k)).1 = true := h [] (.contains k)
    rw [perform, hg] at this
    cases this
  · exact hg

theorem put (h : s.Reliable) (k : String) (v : V) :
    ∃ s', s.put k v = (.ok (), s') ∧ s'.Reliable ∧ s'.rows = s.rows.insert k v := by
  have hp := h.performed (.put k v)
  rcases s.put_cases k v with ⟨s', hg, hr⟩ | ⟨f, s', hg, -⟩
  · rw [perform, hg] at hp
    exact ⟨s', hg, hp, hr⟩
  · have : (s.perform (.put k v)).1 = true := h [] (.put k v)
    rw [perform, hg] at this
    cases this

theorem delete (h : s.Reliable) (k : String) :
    ∃ s', s.delete k = (.ok (s.rows.contains k), s') ∧ s'.Reliable ∧
      ∀ j, s'.rows.get? j = if j = k then none else s.rows.get? j := by
  have hp := h.performed (.delete k)
  rcases s.delete_cases k with ⟨s', hg, hr⟩ | ⟨f, s', hg, -⟩
  · rw [perform, hg] at hp
    exact ⟨s', hg, hp, hr⟩
  · have : (s.perform (.delete k)).1 = true := h [] (.delete k)
    rw [perform, hg] at this
    cases this

end Reliable

theorem perform_of_memory {s : Store V} (hf : s.faults = .none) (hb : s.table.backing = .memory) (o : Op V) :
    (s.perform o).1 = true ∧ (s.perform o).2.faults = .none ∧ (s.perform o).2.table.backing = .memory := by
  obtain ⟨⟨rows, backing, disk⟩, faults⟩ := s
  subst hf hb
  cases o with
  | get k => exact ⟨rfl, rfl, rfl⟩
  | contains k => exact ⟨rfl, rfl, rfl⟩
  | values => exact ⟨rfl, rfl, rfl⟩
  | put k v => exact ⟨rfl, rfl, rfl⟩
  | delete k =>
    simp only [perform, Store.delete, call, Faults.count, Faults.none, Table.delete]
    split
    · exact ⟨rfl, trivial, rfl⟩
    · exact ⟨rfl, trivial, rfl⟩

/-- A table in memory is reliable unless failures of it are planned. -/
theorem reliable_of_memory {s : Store V} (hf : s.faults = .none) (hb : s.table.backing = .memory) : s.Reliable := by
  intro ops
  induction ops generalizing s with
  | nil => exact fun o => (perform_of_memory hf hb o).1
  | cons o ops ih =>
    obtain ⟨-, hf', hb'⟩ := perform_of_memory hf hb o
    exact ih hf' hb'

end Store

end ContentMesh
