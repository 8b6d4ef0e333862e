import ContentMesh.Proofs.Peer.Trust

/-!
# ContentMesh.Proofs.Peer.Listing — what a registry shows is what its table keeps

A registry looks its peers up in an index and keeps them in a table, and writes the two one after the other.  Here
the table may begin to fail at any time.  Whatever happens, the index and the table hold the same rows, each under its
own uri, the listing shows them in order, and the listings by status share them out (`Office.index_matches_table`).
-/

namespace ContentMesh

namespace Dict

variable {V : Type}

/-- Values that know their keys are listed in order of what they know. -/
theorem values_ascending {d : Dict V} {key : V → String} (h : ∀ k v, d.get? k = some v → key v = k) :
    (d.values.map key).Pairwise (· < ·) := by
  have hkeys : d.values.map key = d.keys := by
    unfold values keys
    rw [List.map_map]
    exact List.map_congr_left fun e he => h e.1 e.2 (lookup_of_mem d.ascending he)
  rw [hkeys]
  exact List.pairwise_map.mpr d.ascending

end Dict

/-- Every peer has one of three statuses. -/
theorem Peer.perm_statuses (ps : List Peer) :
    (ps.filter (·.status == .registered) ++ ps.filter (·.status == .requesting)
      ++ ps.filter (·.status == .requested)).Perm ps := by
  induction ps with
  | nil => exact .nil
  | cons p ps ih =>
    cases hp : p.status with
    | registered => simpa [hp] using ih
    | requesting =>
      simp only [List.filter_cons, hp]
      exact (List.perm_middle.append_right _).trans (ih.cons p)
    | requested =>
      simp only [List.filter_cons, hp]
      exact List.perm_middle.trans (ih.cons p)

namespace Registry

variable {r : Registry}

/-! ## One set of rows -/

/-- The index holds the rows of the table. -/
theorem Faithful.byUri (h : r.Faithful) : r.index.byUri = r.store.rows :=
  Dict.ext_get? fun uri => (h.kept uri).symm

theorem Faithful.ascending (h : r.Faithful) : (r.rows.map Peer.uri).Pairwise (· < ·) :=
  Dict.values_ascending h.named

theorem Faithful.nodup (h : r.Faithful) : r.rows.Nodup := by
  have huris := h.ascending
  rw [List.pairwise_map] at huris
  refine huris.imp ?_
  intro p q hpq he
  exact String.lt_irrefl p.uri (he ▸ hpq)

theorem Faithful.mem_rows (h : r.Faithful) (p : Peer) : p ∈ r.rows ↔ r.row? p.uri = some p := by
  unfold rows
  rw [Dict.mem_values]
  constructor
  · rintro ⟨uri, hp⟩
    rwa [h.named uri p hp]
  · intro hp
    exact ⟨p.uri, hp⟩

namespace Office

/-! ## A table that may fail -/

/-- What may happen at a registry whose table is not to be relied on: an event, that those who listen hear of the
rows removed, or that from now on other calls of the table fail, and its disk refuses other things. -/
inductive Turn where
  | happens (e : Event)
  | heeds
  | fails (faults : Faults) (trouble : Trouble)

/-- What a turn makes of a registry; that calls are to fail changes no row. -/
def turn (o : Office) : Turn → Office
  | .happens e => o.step e
  | .heeds => { o with registry := o.registry.takeRemovals.2 }
  | .fails faults trouble =>
    { o with
      registry.store.faults := faults
      registry.store.table.disk.trouble := trouble }

/-- A registry after turns. -/
def through (o : Office) (ts : List Turn) : Office := ts.foldl turn o

theorem through_concat (o : Office) (ts : List Turn) (t : Turn) : o.through (ts ++ [t]) = (o.through ts).turn t := by
  simp [through, List.foldl_append]

variable {o : Office}

theorem turn_faithful (h : o.registry.Faithful) (t : Turn) : (o.turn t).registry.Faithful := by
  cases t with
  | happens e => exact step_faithful h e
  | heeds => exact h.of_rows rfl fun _ => rfl
  | fails faults trouble => exact h.of_rows rfl fun _ => rfl

theorem through_faithful (h : o.registry.Faithful) (ts : List Turn) : (o.through ts).registry.Faithful := by
  induction ts using List.reverseRecOn with
  | nil => exact h
  | append_singleton ts t ih =>
    rw [through_concat]
    exact turn_faithful ih t

/-- A registry that was opened over a table of rows under their uris: over every run, whatever calls of the table fail
in it, the look-up by uri, the listing and the table give the same rows.  Each of them stands under its own uri, the
listing is strictly in order of these, and its rows are those of the three listings by status, each in one of them. -/
theorem index_matches_table {self : Identity} {s : Store Peer} (hload : load self s = .ok r)
    (hnamed : ∀ uri p, s.rows.get? uri = some p → p.uri = uri) (ts : List Turn) :
    let q := ((of r).through ts).registry
    (∀ uri, q.row? uri = q.store.rows.get? uri) ∧ q.rows = q.store.rows.values ∧
      (∀ uri p, q.row? uri = some p → p.uri = uri) ∧ (∀ p, p ∈ q.rows ↔ q.row? p.uri = some p) ∧
      (q.rows.map Peer.uri).Pairwise (· < ·) ∧
      q.rows.Nodup ∧ (q.registered ++ q.withStatus .requesting ++ q.withStatus .requested).Perm q.rows := by
  intro q
  have hq : q.Faithful := through_faithful (o := of r) (load_faithful hload hnamed) ts
  refine ⟨fun uri => (hq.kept uri).symm, ?_, hq.named, hq.mem_rows, hq.ascending, hq.nodup, Peer.perm_statuses q.rows⟩
  rw [rows, hq.byUri]

/-- A peer that had asked is accepted, another one asks for itself while the table cannot be written, and again. -/
theorem index_matches_table_after_failure : ∃ (s : Store Peer) (r : Registry) (row : Peer) (ts : List Turn),
    load ⟨"a", "", "t"⟩ s = .ok r ∧ (∀ uri p, s.rows.get? uri = some p → p.uri = uri) ∧ s.rows.values = [row] ∧
      ts = [.happens (.begins (.accept row.uri)), .fails { Faults.none with put := 1 } .none,
        .happens (.registers ⟨"c", "", "s", some "9"⟩), .happens (.registers ⟨"c", "", "s", some "9"⟩),
        .happens (.returns (.accepting row) (.answer ⟨⟨"b", "", "u"⟩, .confirmed, some .registered, some "7"⟩)),
        .happens .reloads] ∧
      ((of r).through ts).registry.rows.map (fun p => (p.uri, p.status)) = [("s", .requesting), ("u", .registered)] ∧
      ((of r).through ts).registry.store.rows.values = ((of r).through ts).registry.rows := by
  let row : Peer := ⟨"b", "", "u", .requesting, some "8", ∅⟩
  let s : Store Peer := (Store.inMemory.put "u" row).2
  have hload : load ⟨"a", "", "t"⟩ s = .ok ⟨⟨"a", "", "t"⟩, s, .ofRows [row], [], []⟩ := rfl
  have hnamed : ∀ uri p, s.rows.get? uri = some p → p.uri = uri := by
    intro uri p hp
    have hrow : (Dict.insert ∅ "u" row).get? uri = some p := hp
    rw [Dict.get?_insert] at hrow
    by_cases hu : uri = "u"
    · rw [if_pos hu] at hrow
      rw [← Option.some.inj hrow, hu]
    · rw [if_neg hu] at hrow
      cases hrow
  refine ⟨s, _, row, _, hload, hnamed, rfl, rfl, by decide +kernel, ?_⟩
  obtain ⟨-, hrows, -⟩ := index_matches_table hload hnamed
    [.happens (.begins (.accept row.uri)), .fails { Faults.none with put := 1 } .none,
      .happens (.registers ⟨"c", "", "s", some "9"⟩), .happens (.registers ⟨"c", "", "s", some "9"⟩),
      .happens (.returns (.accepting row) (.answer ⟨⟨"b", "", "u"⟩, .confirmed, some .registered, some "7"⟩)),
      .happens .reloads]
  exact hrows.symm

end Office

end Registry

end ContentMesh
