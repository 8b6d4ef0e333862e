import ContentMesh.Proofs.Storage.Calls
import ContentMesh.Proofs.Storage.Files
import ContentMesh.Proofs.Storage.Lines

/-!
# ContentMesh.Proofs.Storage.Backings — what a table keeps on disk is the map it answers from

While a table is open, its file holds its map (`Table.Stands`): a document as a whole, a journal as the changes that
make it.  A change either is made in both or in neither (`Table.Stands.commit`), and opening the file again gives the
map back (`Table.openAt_cases`).
-/

namespace ContentMesh

variable {V : Type} [Record V]

namespace Table

/-- How the file of a kind of table is read. -/
def contentOf (path : String) : TableKind → Bytes → Except Failure (Dict V)
  | .memory => fun _ => .ok ∅
  | .document => readDocument
  | .journal => readJournal path

/-- What a disk keeps of a table that is not open. -/
def Kept (kind : TableKind) (path : String) (d : Disk) (rows : Dict V) : Prop :=
  kind = .memory ∨
    rows.Returns ∧ ∃ d', d.makeWay? path = some d' ∧ d'.Site path ∧ load d' path (contentOf path kind) = .ok rows

/-- A document holds a map. -/
structure InDocument (path : String) (d : Disk) (rows : Dict V) : Prop where
  site : d.Site path
  returns : rows.Returns
  content : load d path readDocument = .ok rows

/-- A journal that is open for appending holds the changes that make a map. -/
structure InJournal (path : String) (d : Disk) (rows : Dict V) (o : Handle) : Prop where
  site : d.Site path
  returns : rows.Returns
  lines : ∃ cs : List (Change V), (∀ c ∈ cs, c.Returns) ∧ cs.foldl Change.apply ∅ = rows ∧
    d.Holds path o (cs.flatMap Change.line)

/-- What an open table keeps on disk is the map it answers from. -/
def Stands (path : String) (t : Table V) : TableKind → Prop
  | .memory => t.backing = .memory
  | .document => t.backing = .document path ∧ InDocument path t.disk t.rows
  | .journal => ∃ o length, t.backing = .journal path o length ∧ InJournal path t.disk t.rows o

variable {d d' : Disk} {path : String} {rows : Dict V} {t : Table V} {o : Handle} {length : Nat}

/-! ## Loading -/

omit [Record V] in
theorem load_spared (hd : d.Spared d' path) (f : Bytes → Except Failure (Dict V)) : load d' path f = load d path f := by
  rw [load, load, hd.taken, hd.read?]

omit [Record V] in
theorem load_holds {b : Bytes} (h : d.Holds path o b) (f : Bytes → Except Failure (Dict V)) : load d path f = f b := by
  rw [load, if_pos h.taken, h.read?]

theorem readJournal_lines {cs : List (Change V)} (h : ∀ c ∈ cs, c.Returns) :
    readJournal path (cs.flatMap Change.line) = .ok (cs.foldl Change.apply ∅) := by
  rw [readJournal, Journal.replay_lines h]

/-! ## Writing anew -/

omit [Record V] in
/-- A new file takes the place of the old one, or there is trouble. -/
theorem settle_cases {b : Bytes} (hs : d.Site path) (hh : d.Holds (Path.temporary path) o b) :
    (∃ d', settle d path = .ok d' ∧ d'.Site path ∧ d'.Holds path o b) ∨
      (¬ d.trouble.Renews ∧ ∃ f, settle d path = .error f) := by
  unfold settle
  rcases hs.rename hh with ⟨d', hrename, hsite, hholds⟩ | ⟨ht, hrename⟩
  · rw [hrename]
    exact .inl ⟨d', rfl, hsite, hholds⟩
  · rw [hrename]
    exact .inr ⟨ht, _, rfl⟩

/-- A journal is written anew, or it is spared because a row cannot be encoded or there is trouble. -/
theorem renewJournal_cases (hs : d.Site path) (rows : Dict V) :
    (rows.Encodable ∧ ∃ o d', renewJournal d path rows = (.ok o, d') ∧ d'.Site path ∧
        d'.Holds path o ((Journal.changesOf rows).flatMap Change.line)) ∨
      ((¬ rows.Encodable ∨ ¬ d.trouble.Renews) ∧
        ∃ f d', renewJournal d path rows = (.error f, d') ∧ d.Spared d' path) := by
  unfold renewJournal
  cases hc : d.create? (Path.temporary path) with
  | none => exact .inr ⟨.inr (Disk.create?_eq_none hs hc), _, _, rfl, .refl hs⟩
  | some x =>
    obtain ⟨d₁, o₁⟩ := x
    obtain ⟨hspared, hholds⟩ := hs.create hc
    dsimp only
    by_cases hrows : rows.Encodable
    · have hclear : (!(documentOf rows).clear) = false := by rw [Dict.clear_documentOf.mpr hrows]; rfl
      rw [hclear, if_neg Bool.false_ne_true, Journal.image_eq]
      rcases hspared.site.fill hholds ((Journal.changesOf rows).flatMap Change.line) with
        ⟨o₂, d₂, hfill, hspared₂, hholds₂⟩ | ⟨ht, d₂, hfill, hspared₂⟩
      · rw [hfill]
        dsimp only
        rcases settle_cases hspared₂.site hholds₂ with ⟨d₃, hsettle, hsite, hholds₃⟩ | ⟨ht, f, hsettle⟩
        · rw [hsettle]
          exact .inl ⟨hrows, o₂, d₃, rfl, hsite, hholds₃⟩
        · rw [hsettle]
          exact .inr ⟨.inr ((hspared.trans hspared₂).trouble ▸ ht), f, _, rfl, hspared.trans hspared₂⟩
      · rw [hfill]
        exact .inr ⟨.inr (hspared.trouble ▸ ht), _, _, rfl, hspared.trans hspared₂⟩
    · have hclear : (!(documentOf rows).clear) = true := by
        rw [Bool.eq_false_iff.mpr (mt Dict.clear_documentOf.mp hrows)]
        rfl
      rw [hclear, if_pos rfl]
      exact .inr ⟨.inl hrows, _, _, rfl, hspared⟩

/-- A document is written anew, or it is spared because a row cannot be encoded or there is trouble. -/
theorem writeDocument_cases (hs : d.Site path) (rows : Dict V) :
    (rows.Encodable ∧ ∃ d', writeDocument d path rows = (.ok (), d') ∧ (rows.Returns → InDocument path d' rows)) ∨
      ((¬ rows.Encodable ∨ ¬ d.trouble.Renews) ∧
        ∃ f d', writeDocument d path rows = (.error f, d') ∧ d.Spared d' path) := by
  unfold writeDocument Disk.writeFile
  dsimp only
  by_cases hrows : rows.Encodable
  · have hclear : (!(documentOf rows).clear) = false := by rw [Dict.clear_documentOf.mpr hrows]; rfl
    rw [hclear, if_neg Bool.false_ne_true]
    cases hc : d.create? (Path.temporary path) with
    | none => exact .inr ⟨.inr (Disk.create?_eq_none hs hc), _, _, rfl, .refl hs⟩
    | some x =>
      obtain ⟨d₁, o₁⟩ := x
      obtain ⟨hspared, hholds⟩ := hs.create hc
      dsimp only
      rcases hspared.site.fill hholds (Utf8.encode (documentOf rows).chars) with
        ⟨o₂, d₂, hfill, hspared₂, hholds₂⟩ | ⟨ht, d₂, hfill, hspared₂⟩
      · rw [hfill]
        dsimp only [Option.isSome_some]
        rcases settle_cases hspared₂.site hholds₂ with ⟨d₃, hsettle, hsite, hholds₃⟩ | ⟨ht, f, hsettle⟩
        · rw [hsettle]
          exact .inl ⟨hrows, d₃, rfl, fun hreturns =>
            ⟨hsite, hreturns, (load_holds hholds₃ readDocument).trans hreturns.readDocument⟩⟩
        · rw [hsettle]
          exact .inr ⟨.inr ((hspared.trans hspared₂).trouble ▸ ht), f, _, rfl, hspared.trans hspared₂⟩
      · rw [hfill]
        exact .inr ⟨.inr (hspared.trouble ▸ ht), _, _, rfl, hspared.trans hspared₂⟩
  · have hclear : (!(documentOf rows).clear) = true := by
      rw [Bool.eq_false_iff.mpr (mt Dict.clear_documentOf.mp hrows)]
      rfl
    rw [hclear, if_pos rfl]
    exact .inr ⟨.inl hrows, _, _, rfl, .refl hs⟩

/-! ## Changes -/

theorem InJournal.spared (h : InJournal path d rows o) (hd : d.Spared d' path) : InJournal path d' rows o :=
  let ⟨cs, hcs, hrows, hholds⟩ := h.lines
  ⟨hd.site, h.returns, cs, hcs, hrows, hd.holds hholds⟩

/-- A journal that was written anew holds the map. -/
theorem inJournal_image (hs : d.Site path) (hrows : rows.Returns)
    (hholds : d.Holds path o ((Journal.changesOf rows).flatMap Change.line)) : InJournal path d rows o :=
  ⟨hs, hrows, _, Dict.All.changesOf hrows, Journal.foldl_changesOf rows, hholds⟩

/-- A renewed journal holds the map as before. -/
theorem InJournal.renewed (h : InJournal path t.disk t.rows o) (length : Nat) :
    Stands path (t.renewed path o length) .journal := by
  unfold Table.renewed
  rcases renewJournal_cases h.site t.rows with ⟨-, o', d', hr, hsite, hholds⟩ | ⟨-, f, d', hr, hspared⟩
  · rw [hr]
    exact ⟨o', _, rfl, inJournal_image hsite h.returns hholds⟩
  · rw [hr]
    exact ⟨o, length, rfl, h.spared hspared⟩

/-- Where nothing stands in the way of that, a journal is renewed whatever was in it. -/
theorem stands_renewed (hs : t.disk.Site path) (hrows : t.rows.Returns) (hτ : t.disk.trouble.Renews) (o : Handle)
    (length : Nat) : Stands path (t.renewed path o length) .journal := by
  unfold Table.renewed
  rcases renewJournal_cases hs t.rows with ⟨-, o', d', hr, hsite, hholds⟩ | ⟨hwhy, -⟩
  · rw [hr]
    exact ⟨o', _, rfl, inJournal_image hsite hrows hholds⟩
  · rcases hwhy with hwhy | hwhy
    · exact absurd hrows.encodable hwhy
    · exact absurd hτ hwhy

/-- A journal with a further line holds the changed map. -/
theorem InJournal.append (h : InJournal path d rows o) {c : Change V} (hc : c.Returns) :
    InJournal path (d.write o c.line).1 (c.apply rows) (d.write o c.line).2 := by
  obtain ⟨cs, hcs, hrows, hholds⟩ := h.lines
  refine ⟨h.site.append _, Dict.All.apply h.returns hc, cs ++ [c], fun x hx => ?_, ?_, ?_⟩
  · rcases List.mem_append.mp hx with hx | hx
    · exact hcs x hx
    · exact List.mem_singleton.mp hx ▸ hc
  · rw [List.foldl_append, hrows]
    rfl
  · rw [List.flatMap_append, List.flatMap_singleton]
    exact hholds.write c.line

/-- Why a change of a table may fail: its row cannot be encoded, a document cannot be written, or a journal cannot be added
to. -/
def Obstructed (kind : TableKind) (trouble : Trouble) (c : Change V) : Prop :=
  kind ≠ .memory ∧ ¬ c.Encodable ∨ kind = .document ∧ ¬ trouble.Renews ∨ kind = .journal ∧ trouble.append ≠ none

/-- A change is made in the map and on disk, or it fails for a reason and is made in neither. -/
theorem Stands.commit {kind : TableKind} (h : Stands path t kind) {c : Change V} (hrecovers : c.Recovers)
    (hmends : t.disk.trouble.append ≠ none → t.disk.trouble.Renews) :
    (∃ t', t.commit c = (.ok (), t') ∧ Stands path t' kind ∧ t'.rows = c.apply t.rows) ∨
      (Obstructed kind t.disk.trouble c ∧ ∃ f t', t.commit c = (.error f, t') ∧ Stands path t' kind ∧ t'.rows = t.rows) := by
  unfold Table.commit
  cases kind with
  | memory =>
    have hb : t.backing = .memory := h
    rw [hb]
    exact .inl ⟨_, rfl, rfl, rfl⟩
  | document =>
    obtain ⟨hb, hdocument⟩ := h
    rw [hb]
    dsimp only
    rcases writeDocument_cases hdocument.site (c.apply t.rows) with ⟨hrows, d', hw, hd⟩ | ⟨hwhy, f, d', hw, hspared⟩
    · rw [hw]
      have hc : c.Returns := hrecovers.returns (Dict.All.puts hrows)
      exact .inl ⟨_, rfl, ⟨rfl, hd (Dict.All.apply hdocument.returns hc)⟩, rfl⟩
    · rw [hw]
      refine .inr ⟨?_, f, _, rfl, ⟨rfl, hspared.site, hdocument.returns, ?_⟩, rfl⟩
      · rcases hwhy with hrows | ht
        · exact .inl ⟨by decide, fun hc => hrows (Dict.All.apply hdocument.returns.encodable hc)⟩
        · exact .inr (.inl ⟨rfl, ht⟩)
      · exact (load_spared hspared readDocument).trans hdocument.content
  | journal =>
    obtain ⟨o, length, hb, hjournal⟩ := h
    rw [hb]
    dsimp only
    by_cases hc : c.Encodable
    · have hclear : (!c.toJson.clear) = false := by rw [Change.clear_toJson.mpr hc]; rfl
      rw [hclear, if_neg Bool.false_ne_true]
      rcases t.disk.extend_cases o c.line with ⟨-, hextend⟩ | ⟨htrouble, n, hextend⟩
      · rw [hextend]
        have happend := hjournal.append (hrecovers.returns hc)
        -- the change is made once it is appended: whether a journal that is too long can be renewed no longer matters
        by_cases hlong : Journal.overdue (length + 1) (c.apply t.rows).size = true
        · dsimp only
          rw [if_pos hlong]
          exact .inl ⟨_, rfl, InJournal.renewed happend _, rows_renewed _ _ _ _⟩
        · dsimp only
          rw [if_neg hlong]
          exact .inl ⟨_, rfl, ⟨_, _, rfl, happend⟩, rfl⟩
      · rw [hextend]
        -- part of the line may be in the file, and nothing may follow it
        have hstands := stands_renewed (t := ⟨t.rows, .journal path o length, (t.disk.write o (c.line.take n)).1⟩)
          (hjournal.site.append _) hjournal.returns (hmends htrouble) (t.disk.write o (c.line.take n)).2 length
        exact .inr ⟨.inr (.inr ⟨rfl, htrouble⟩), _, _, rfl, hstands, rows_renewed _ _ _ _⟩
    · have hclear : (!c.toJson.clear) = true := by
        rw [Bool.eq_false_iff.mpr (mt Change.clear_toJson.mp hc)]
        rfl
      rw [hclear, if_pos rfl]
      -- nothing was appended, so the journal that is renewed holds the map as it was
      exact .inr ⟨.inl ⟨by decide, hc⟩, _, _, rfl, hjournal.renewed length, rows_renewed _ _ _ _⟩

/-! ## Opening -/

/-- The map that a table which is opened answers from. -/
def reopened (kind : TableKind) (rows : Dict V) : Dict V := if kind = .memory then ∅ else rows

/-- What is kept of an open table is its map. -/
theorem Stands.kept {kind : TableKind} (h : Stands path t kind) : Kept kind path t.disk t.rows := by
  cases kind with
  | memory => exact .inl rfl
  | document => exact .inr ⟨h.2.returns, _, h.2.site.makeWay?, h.2.site, h.2.content⟩
  | journal =>
    obtain ⟨o, length, -, hjournal⟩ := h
    obtain ⟨cs, hcs, hrows, hholds⟩ := hjournal.lines
    refine .inr ⟨hjournal.returns, _, hjournal.site.makeWay?, hjournal.site, ?_⟩
    rw [load_holds hholds, contentOf, readJournal_lines hcs, hrows]

/-- A table that is opened answers from what was kept of it; a journal may fail to open for trouble, and is kept. -/
theorem openAt_cases {kind : TableKind} (h : Kept kind path d rows) (τ : Trouble) :
    (∃ t d', openAt kind (d.under τ) path = (.ok t, d') ∧ Stands path t kind ∧ t.rows = reopened kind rows) ∨
      (kind = .journal ∧ ¬ τ.Renews ∧
        ∃ f d', openAt (V := V) kind (d.under τ) path = (.error f, d') ∧ Kept kind path d' rows) := by
  unfold openAt
  cases kind with
  | memory => exact .inl ⟨_, _, rfl, rfl, rfl⟩
  | document =>
    obtain ⟨hrows, d', hway, hsite, hload⟩ := h.resolve_left (by decide)
    have hload : load (d'.under τ) path (readDocument (V := V)) = .ok rows := hload
    dsimp only
    rw [Disk.makeWay?_under, hway]
    dsimp only [Option.map_some]
    rw [hload]
    exact .inl ⟨_, _, rfl, ⟨rfl, hsite.under τ, hrows, hload⟩, rfl⟩
  | journal =>
    obtain ⟨hrows, d', hway, hsite, hload⟩ := h.resolve_left (by decide)
    have hload : load (d'.under τ) path (readJournal (V := V) path) = .ok rows := hload
    dsimp only
    rw [Disk.makeWay?_under, hway]
    dsimp only [Option.map_some]
    rw [hload]
    dsimp only
    rcases renewJournal_cases (hsite.under τ) rows with ⟨-, o, d₁, hr, hsite₁, hholds⟩ | ⟨hwhy, f, d₁, hr, hspared⟩
    · rw [hr]
      exact .inl ⟨_, _, rfl, ⟨o, _, rfl, inJournal_image hsite₁ hrows hholds⟩, rfl⟩
    · rw [hr]
      exact .inr ⟨rfl, hwhy.resolve_left (not_not_intro hrows.encodable), f, d₁, rfl,
        .inr ⟨hrows, d₁, hspared.site.makeWay?, hspared.site, (load_spared hspared _).trans hload⟩⟩

end Table

end ContentMesh
