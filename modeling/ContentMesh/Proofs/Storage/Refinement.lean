import ContentMesh.Proofs.Peer.Record
import ContentMesh.Proofs.Storage.Backings

/-!
# ContentMesh.Proofs.Storage.Refinement — a table is a map ordered by key

A history calls a table, and closes and opens it again, while the disk refuses what it will.  Its outcomes are those
of a map (`Desk.Gives`): a call answers as the map does and changes it likewise, or fails for a reason and changes
nothing, and what is opened again is the map as it was.  One event keeps the table and the map together
(`Desk.Mirrors.step`), and so does a history (`Desk.Mirrors.gives`).
-/

namespace ContentMesh

variable {V : Type}

namespace Store

/-- What a call of a table answers. -/
inductive Reply (V : Type) where
  | row (v : Option V)
  | bound (b : Bool)
  | rows (vs : List V)
  | done
  deriving DecidableEq, Repr

variable [Record V]

/-- The reply of a store to a call, and the store after it. -/
def reply (s : Store V) : Op V → Except Failure (Reply V) × Store V
  | .get k => ((s.get k).1.map .row, (s.get k).2)
  | .contains k => ((s.contains k).1.map .bound, (s.contains k).2)
  | .values => (s.values.1.map .rows, s.values.2)
  | .put k v => ((s.put k v).1.map fun _ => .done, (s.put k v).2)
  | .delete k => ((s.delete k).1.map .bound, (s.delete k).2)

/-- The store with this trouble with its disk. -/
def under (s : Store V) (τ : Trouble) : Store V := { s with table := { s.table with disk := s.table.disk.under τ } }

end Store

/-- The reply of a map to a call, and the map after it. -/
def Dict.reply (m : Dict V) : Store.Op V → Store.Reply V × Dict V
  | .get k => (.row (m.get? k), m)
  | .contains k => (.bound (m.contains k), m)
  | .values => (.rows m.values, m)
  | .put k v => (.done, m.insert k v)
  | .delete k => (.bound (m.contains k), m.erase k)

/-- A table between two events: the disk that keeps it while it is closed, or the open table. -/
inductive Desk (V : Type) where
  | closed (d : Disk)
  | opened (s : Store V)

namespace Desk

/-! ## Histories -/

/-- What is done with a table: it is opened, and closed before that if it was open, or it is called. -/
inductive Deed (V : Type) where
  | opening
  | calling (op : Store.Op V)

/-- A deed, and the trouble with the disk meanwhile. -/
structure Event (V : Type) where
  deed : Deed V
  trouble : Trouble

/-- What comes of an event; a table that is closed cannot be called. -/
inductive Outcome (V : Type) where
  | opened
  | replied (r : Store.Reply V)
  | failed (f : Failure)
  | shut
  deriving DecidableEq, Repr

/-- The disk of a table. -/
def disk : Desk V → Disk
  | closed d => d
  | opened s => s.table.disk

variable [Record V]

/-- An event that a table is made for: decoding the row that is put undoes encoding it, and a journal that cannot be added
to can be written anew. -/
structure Event.Fair (e : Event V) : Prop where
  recovers : ∀ k v, e.deed = .calling (.put k v) → Record.Recovers v
  mends : e.trouble.append ≠ none → e.trouble.Renews

/-- What comes of an event, and the table after it. -/
def step (kind : TableKind) (path : String) (desk : Desk V) (e : Event V) : Outcome V × Desk V :=
  match e.deed, desk with
  | .opening, desk =>
    match Table.openAt kind (desk.disk.under e.trouble) path with
    | (.ok t, _) => (.opened, opened (.of t))
    | (.error f, d) => (.failed f, closed d)
  | .calling op, opened s =>
    match (s.under e.trouble).reply op with
    | (.ok r, s) => (.replied r, opened s)
    | (.error f, s) => (.failed f, opened s)
  | .calling _, closed d => (.shut, closed d)

/-- What comes of the events of a history, one after the other. -/
def outcomes (kind : TableKind) (path : String) (desk : Desk V) : List (Event V) → List (Outcome V)
  | [] => []
  | e :: es => (desk.step kind path e).1 :: outcomes kind path (desk.step kind path e).2 es

/-! ## The map -/

/-- The map that a table stands for, and whether the table is open. -/
structure Ideal (V : Type) where
  map : Dict V
  isOpen : Bool

/-- Why a call may fail: it changes the map, and the change is obstructed. -/
def Hindered (kind : TableKind) (τ : Trouble) (m : Dict V) : Store.Op V → Prop
  | .put k v => Table.Obstructed kind τ (.put k v)
  | .delete k => m.contains k = true ∧ Table.Obstructed kind τ (.delete k : Change V)
  | _ => False

/-- What may come of an event for the map.  A call that fails was hindered, and leaves the map alone. -/
inductive Step (kind : TableKind) : Ideal V → Event V → Outcome V → Ideal V → Prop where
  | opened (m : Dict V) (b : Bool) (τ : Trouble) :
    Step kind ⟨m, b⟩ ⟨.opening, τ⟩ .opened ⟨Table.reopened kind m, true⟩
  | unopened (m : Dict V) (b : Bool) {τ : Trouble} (f : Failure) (hkind : kind = .journal) (hτ : ¬ τ.Renews) :
    Step kind ⟨m, b⟩ ⟨.opening, τ⟩ (.failed f) ⟨m, false⟩
  | replied (m : Dict V) (op : Store.Op V) (τ : Trouble) :
    Step kind ⟨m, true⟩ ⟨.calling op, τ⟩ (.replied (m.reply op).1) ⟨(m.reply op).2, true⟩
  | failed {m : Dict V} {op : Store.Op V} {τ : Trouble} (f : Failure) (h : Hindered kind τ m op) :
    Step kind ⟨m, true⟩ ⟨.calling op, τ⟩ (.failed f) ⟨m, true⟩
  | shut (m : Dict V) (op : Store.Op V) (τ : Trouble) : Step kind ⟨m, false⟩ ⟨.calling op, τ⟩ .shut ⟨m, false⟩

/-- What may come of the events of a history for the map. -/
inductive Gives (kind : TableKind) : Ideal V → List (Event V) → List (Outcome V) → Prop where
  | nil (i : Ideal V) : Gives kind i [] []
  | cons {i i' : Ideal V} {e : Event V} {o : Outcome V} {es : List (Event V)} {os : List (Outcome V)}
    (h : Step kind i e o i') (hs : Gives kind i' es os) : Gives kind i (e :: es) (o :: os)

end Desk

/-! ## One event -/

variable [Record V] {kind : TableKind} {path : String}

theorem Table.Stands.under {t : Table V} (h : Table.Stands path t kind) (τ : Trouble) :
    Table.Stands path { t with disk := t.disk.under τ } kind := by
  cases kind with
  | memory => exact h
  | document => exact ⟨h.1, h.2.site.under τ, h.2.returns, h.2.content⟩
  | journal =>
    obtain ⟨o, length, hb, hjournal⟩ := h
    obtain ⟨cs, hcs, hrows, hholds⟩ := hjournal.lines
    exact ⟨o, length, hb, hjournal.site.under τ, hjournal.returns, cs, hcs, hrows, hholds.under τ⟩

/-- A store keeps its map on disk, and none of its calls is planned to fail. -/
structure Store.Serves (kind : TableKind) (path : String) (s : Store V) : Prop where
  unplanned : s.faults = .none
  stands : Table.Stands path s.table kind

/-- A store replies to a call as its map does, or the call was hindered and fails. -/
theorem Store.Serves.reply {s : Store V} (h : s.Serves kind path) {op : Store.Op V}
    (hrecovers : ∀ k v, op = .put k v → Record.Recovers v)
    (hmends : s.table.disk.trouble.append ≠ none → s.table.disk.trouble.Renews) :
    (∃ s', s.reply op = (.ok (s.rows.reply op).1, s') ∧ s'.rows = (s.rows.reply op).2 ∧ s'.Serves kind path) ∨
      (Desk.Hindered kind s.table.disk.trouble s.rows op ∧
        ∃ f s', s.reply op = (.error f, s') ∧ s'.rows = s.rows ∧ s'.Serves kind path) := by
  obtain ⟨t, faults⟩ := s
  obtain ⟨hfaults, hstands⟩ := h
  subst hfaults
  cases op with
  | get k => exact .inl ⟨_, rfl, rfl, rfl, hstands⟩
  | contains k => exact .inl ⟨_, rfl, rfl, rfl, hstands⟩
  | values => exact .inl ⟨_, rfl, rfl, rfl, hstands⟩
  | put k v =>
    have hput : (Store.mk t .none).reply (.put k v)
        = ((t.commit (.put k v)).1.map fun _ => .done, ⟨(t.commit (.put k v)).2, .none⟩) := rfl
    have hput' : (Change.put k v).Recovers := hrecovers k v rfl
    rcases hstands.commit hput' hmends with ⟨t', hc, hs, hrows⟩ | ⟨hwhy, f, t', hc, hs, hrows⟩
    · rw [hput, hc]
      exact .inl ⟨_, rfl, hrows, rfl, hs⟩
    · rw [hput, hc]
      exact .inr ⟨hwhy, f, _, rfl, hrows, rfl, hs⟩
  | delete k =>
    have hdelete : (Store.mk t .none).reply (.delete k) = ((t.delete k).1.map .bound, ⟨(t.delete k).2, .none⟩) := rfl
    rw [hdelete, Table.delete]
    by_cases hk : t.rows.contains k = true
    · rw [if_pos hk]
      rcases hstands.commit (c := .delete k) trivial hmends with ⟨t', hc, hs, hrows⟩ | ⟨hwhy, f, t', hc, hs, hrows⟩
      · rw [hc]
        exact .inl ⟨_, congrArg (fun b => (Except.ok (Store.Reply.bound b), _)) hk.symm, hrows, rfl, hs⟩
      · rw [hc]
        exact .inr ⟨⟨hk, hwhy⟩, f, _, rfl, hrows, rfl, hs⟩
    · have hk := Bool.eq_false_iff.mpr hk
      rw [hk, if_neg Bool.false_ne_true]
      exact .inl ⟨_, congrArg (fun b => (Except.ok (Store.Reply.bound b), _)) hk.symm,
        (t.rows.erase_of_not_contains hk).symm, rfl, hstands⟩

namespace Desk

/-- A table and a map that belong together. -/
def Mirrors (kind : TableKind) (path : String) : Desk V → Ideal V → Prop
  | closed d, i => i.isOpen = false ∧ Table.Kept kind path d i.map
  | opened s, i => i.isOpen = true ∧ s.rows = i.map ∧ s.Serves kind path

variable {desk : Desk V} {i : Ideal V}

theorem Mirrors.kept (h : desk.Mirrors kind path i) : Table.Kept kind path desk.disk i.map := by
  cases desk with
  | closed d => exact h.2
  | opened s =>
    obtain ⟨-, hrows, hserves⟩ := h
    exact hrows ▸ hserves.stands.kept

/-- What comes of an event may come of it for the map, and table and map still belong together. -/
theorem Mirrors.step (h : desk.Mirrors kind path i) {e : Event V} (he : e.Fair) :
    ∃ i', Step kind i e (desk.step kind path e).1 i' ∧ (desk.step kind path e).2.Mirrors kind path i' := by
  have hkept := h.kept
  obtain ⟨m, isOpen⟩ := i
  obtain ⟨deed, τ⟩ := e
  unfold Desk.step
  cases deed with
  | opening =>
    dsimp only
    rcases Table.openAt_cases hkept τ with ⟨t, d', ho, hs, hrows⟩ | ⟨hkind, hτ, f, d', ho, hk⟩
    · rw [ho]
      exact ⟨_, .opened m isOpen τ, rfl, hrows, rfl, hs⟩
    · rw [ho]
      exact ⟨_, .unopened m isOpen f hkind hτ, rfl, hk⟩
  | calling op =>
    cases desk with
    | closed d =>
      obtain ⟨rfl, hk⟩ := h
      exact ⟨_, .shut m op τ, rfl, hk⟩
    | opened s =>
      obtain ⟨rfl, rfl, hserves⟩ := h
      have hunder : (s.under τ).Serves kind path := ⟨hserves.unplanned, hserves.stands.under τ⟩
      dsimp only
      rcases hunder.reply (fun k v hop => he.recovers k v (congrArg Deed.calling hop)) he.mends with
        ⟨s', hr, hrows, hs'⟩ | ⟨hwhy, f, s', hr, hrows, hs'⟩
      · rw [hr]
        exact ⟨_, .replied s.rows op τ, rfl, hrows, hs'⟩
      · rw [hr]
        exact ⟨_, .failed f hwhy, rfl, hrows, hs'⟩

/-! ## All events -/

/-- The outcomes of a history may come of it for the map. -/
theorem Mirrors.gives (h : desk.Mirrors kind path i) {es : List (Event V)} (hes : ∀ e ∈ es, e.Fair) :
    Gives kind i es (desk.outcomes kind path es) := by
  induction es generalizing desk i with
  | nil => exact .nil i
  | cons e es ih =>
    obtain ⟨i', hstep, hmirrors⟩ := h.step (hes e List.mem_cons_self)
    exact .cons hstep (ih hmirrors fun x hx => hes x (List.mem_cons_of_mem e hx))

/-- Where no table was yet, an empty map is kept. -/
theorem mirrors_empty {d : Disk} (h : kind = .memory ∨ d.Vacant path) :
    (closed d : Desk V).Mirrors kind path ⟨∅, false⟩ := by
  refine ⟨rfl, h.imp_right fun hvacant => ?_⟩
  obtain ⟨d', hway, hsite, hfree⟩ := hvacant.site
  refine ⟨.empty, d', hway, hsite, ?_⟩
  rw [Table.load, hfree, if_neg Bool.false_ne_true]

/-- A table is one finite map, whatever it keeps on disk: from its first opening on, any history of it has the
outcomes of a map ordered by key. -/
theorem outcomes_of_map {d : Disk} (h : kind = .memory ∨ d.Vacant path) {es : List (Event V)} (hes : ∀ e ∈ es, e.Fair) :
    Gives kind ⟨∅, false⟩ es ((closed d).outcomes kind path es) :=
  (mirrors_empty h).gives hes

/-- A peer is put, there is no room for another, and the table is opened again. -/
def peerEvents : List (Event Peer) :=
  [⟨.opening, .none⟩, ⟨.calling (.put "a" (.new "1" "A" "a" .registered)), .none⟩,
    ⟨.calling (.put "b" (.new "2" "B" "b" .requested)), ⟨false, some 7, none, none⟩⟩, ⟨.opening, .none⟩,
    ⟨.calling .values, .none⟩]

/-- The peers of a new node. -/
theorem outcomes_of_peers :
    (Disk.root "data").Vacant "data/instances.json" ∧ (∀ e ∈ peerEvents, e.Fair) ∧
      Gives .document ⟨∅, false⟩ peerEvents
        ((closed (Disk.root "data")).outcomes .document "data/instances.json" peerEvents) := by
  have hvacant : (Disk.root "data").Vacant "data/instances.json" :=
    ⟨_, Disk.makeWay?_of_forall (by decide +kernel), by decide +kernel, by decide +kernel, by decide +kernel,
      by decide +kernel⟩
  have happends : ∀ e ∈ peerEvents, e.trouble.append = none := by decide
  have hfair : ∀ e ∈ peerEvents, e.Fair := fun e he => ⟨fun _ v _ _ => v.returns, fun h => absurd (happends e he) h⟩
  exact ⟨hvacant, hfair, outcomes_of_map (.inr hvacant) hfair⟩

end Desk

end ContentMesh
