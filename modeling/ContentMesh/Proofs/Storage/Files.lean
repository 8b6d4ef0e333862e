import ContentMesh.Storage.Disk

/-!
# ContentMesh.Proofs.Storage.Files — what becomes of a file while another is written beside it

A table writes its file anew beside it and then gives the new file its name.  Whatever the disk refuses on the way,
the file is spared until the new one takes its place (`Disk.Spared`), and what an open file holds is what was written
to it (`Disk.Holds`).
-/

namespace ContentMesh

/-- No trouble stands in the way of a file that is written anew: one can be made beside, filled, and given its name. -/
structure Trouble.Renews (τ : Trouble) : Prop where
  create : τ.create = false
  fill : τ.fill = .none
  rename : τ.rename = .none

theorem Trouble.renews_none : Trouble.none.Renews := ⟨rfl, rfl, rfl⟩

namespace Disk

variable {d d' : Disk} {path : String} {o : Handle} {b : Bytes}

/-! ## Places -/

/-- A place for the file of a table: its directories are there, and the names of the file and of the one written
beside it lead to no directory, and not to one node. -/
structure Site (d : Disk) (path : String) : Prop where
  way : ∀ a ∈ ancestors path, d.names.get? a = some .directory
  room : d.names.get? (Path.directory (Path.temporary path)) = some .directory
  apart : Path.temporary path ≠ path
  file : d.names.get? path ≠ some .directory
  spare : d.names.get? (Path.temporary path) ≠ some .directory
  nodes : ∀ n, d.names.get? path = some (.file n) ∨ d.names.get? (Path.temporary path) = some (.file n) → n < d.nodes.size
  separate : ∀ n, d.names.get? path = some (.file n) → d.names.get? (Path.temporary path) ≠ some (.file n)

/-- An open file: its name leads to the bytes, and all of them stand before the next write. -/
structure Holds (d : Disk) (path : String) (o : Handle) (b : Bytes) : Prop where
  name : d.names.get? path = some (.file o.node)
  node : d.nodes[o.node]? = some b.toArray
  position : o.position = b.length

/-- The file at a place is as it was, and there is still a place for it. -/
structure Spared (d d' : Disk) (path : String) : Prop where
  site : d'.Site path
  name : d'.names.get? path = d.names.get? path
  node : ∀ n, d.names.get? path = some (.file n) → d'.nodes[n]? = d.nodes[n]?
  trouble : d'.trouble = d.trouble

theorem Spared.refl (hs : d.Site path) : d.Spared d path := ⟨hs, rfl, fun _ _ => rfl, rfl⟩

theorem Spared.trans {d'' : Disk} (h : d.Spared d' path) (h' : d'.Spared d'' path) : d.Spared d'' path :=
  ⟨h'.site, h'.name.trans h.name, fun n hn => (h'.node n (h.name.trans hn)).trans (h.node n hn),
    h'.trouble.trans h.trouble⟩

theorem Spared.holds (hd : d.Spared d' path) (h : d.Holds path o b) : d'.Holds path o b :=
  ⟨hd.name.trans h.name, (hd.node _ h.name).trans h.node, h.position⟩

theorem Spared.taken (hd : d.Spared d' path) : d'.taken path = d.taken path := by
  rw [Disk.taken, Disk.taken, Dict.contains, Dict.contains, hd.name]

theorem Spared.read? (hd : d.Spared d' path) : d'.read? path = d.read? path := by
  rw [Disk.read?, Disk.read?, hd.name]
  cases hp : d.names.get? path with
  | none => rfl
  | some p =>
    cases p with
    | directory => rfl
    | file n =>
      show (d'.nodes[n]?).map Array.toList = (d.nodes[n]?).map Array.toList
      rw [hd.node n hp]

theorem Holds.read? (h : d.Holds path o b) : d.read? path = some b := by
  rw [Disk.read?, h.name]
  show (d.nodes[_]?).map Array.toList = some b
  rw [h.node]
  rfl

theorem Holds.taken (h : d.Holds path o b) : d.taken path = true := by
  rw [Disk.taken, Dict.contains, h.name]
  rfl

/-! ## Trouble -/

/-- The disk with this trouble. -/
def under (d : Disk) (t : Trouble) : Disk := { d with trouble := t }

theorem Site.under (hs : d.Site path) (t : Trouble) : (d.under t).Site path :=
  ⟨hs.way, hs.room, hs.apart, hs.file, hs.spare, hs.nodes, hs.separate⟩

theorem Holds.under (h : d.Holds path o b) (t : Trouble) : (d.under t).Holds path o b := ⟨h.name, h.node, h.position⟩

/-! ## Making a file beside -/

theorem create?_eq_none (hs : d.Site path) (h : d.create? (Path.temporary path) = none) : ¬ d.trouble.Renews := by
  intro ht
  have hcreate : ¬ d.trouble.create = true := Bool.eq_false_iff.mp ht.create
  unfold create? at h
  rw [if_neg hcreate] at h
  cases hp : d.names.get? (Path.temporary path) with
  | some p =>
    cases p with
    | directory => exact absurd hp hs.spare
    | file n =>
      rw [hp] at h
      cases h
  | none =>
    have hroom : d.reachable (Path.temporary path) = true := by rw [reachable, hs.room]
    rw [hp] at h
    dsimp only at h
    rw [if_pos hroom] at h
    cases h

/-- A file that is left beside from before is emptied. -/
theorem Site.emptied (hs : d.Site path) {n : Nat} (hp : d.names.get? (Path.temporary path) = some (.file n)) :
    d.Spared { d with nodes := d.nodes.setIfInBounds n #[] } path ∧
      Holds { d with nodes := d.nodes.setIfInBounds n #[] } (Path.temporary path) ⟨n, 0⟩ [] := by
  have hn := hs.nodes n (.inr hp)
  have hsize : (d.nodes.setIfInBounds n #[]).size = d.nodes.size := Array.size_setIfInBounds
  refine ⟨⟨⟨hs.way, hs.room, hs.apart, hs.file, hs.spare, fun m hm => ?_, hs.separate⟩, rfl, fun m hm => ?_, rfl⟩,
    ⟨hp, ?_, rfl⟩⟩
  · rw [hsize]
    exact hs.nodes m hm
  · have hne : n ≠ m := fun he => hs.separate m hm (he ▸ hp)
    exact Array.getElem?_setIfInBounds_ne hne
  · exact Array.getElem?_setIfInBounds_self_of_lt hn

/-- A file that was not there yet gets a node of its own. -/
theorem Site.added (hs : d.Site path) (hp : d.names.get? (Path.temporary path) = none) :
    d.Spared { d with names := d.names.insert (Path.temporary path) (.file d.nodes.size), nodes := d.nodes.push #[] }
        path ∧
      Holds { d with names := d.names.insert (Path.temporary path) (.file d.nodes.size), nodes := d.nodes.push #[] }
        (Path.temporary path) ⟨d.nodes.size, 0⟩ [] := by
  have hdirectory : ∀ a, d.names.get? a = some .directory →
      (d.names.insert (Path.temporary path) (.file d.nodes.size)).get? a = some .directory := by
    intro a ha
    have hne : a ≠ Path.temporary path := fun he => by
      rw [he, hp] at ha
      cases ha
    rw [Dict.get?_insert, if_neg hne, ha]
  have hpath : (d.names.insert (Path.temporary path) (.file d.nodes.size)).get? path = d.names.get? path := by
    rw [Dict.get?_insert, if_neg hs.apart.symm]
  have htemporary : (d.names.insert (Path.temporary path) (.file d.nodes.size)).get? (Path.temporary path)
      = some (.file d.nodes.size) := by rw [Dict.get?_insert, if_pos rfl]
  refine ⟨⟨⟨fun a ha => hdirectory a (hs.way a ha), hdirectory _ hs.room, hs.apart, ?_, ?_, fun m hm => ?_,
    fun m hm he => ?_⟩, hpath, fun m hm => ?_, rfl⟩, ⟨htemporary, ?_, rfl⟩⟩
  · rw [hpath]
    exact hs.file
  · rw [htemporary]
    exact fun he => by cases he
  · rw [Array.size_push]
    rw [hpath, htemporary] at hm
    rcases hm with hm | hm
    · exact Nat.lt_succ_of_lt (hs.nodes m (.inl hm))
    · cases hm
      exact Nat.lt_succ_self _
  · -- the node of the file is an old one
    rw [hpath] at hm
    rw [htemporary] at he
    cases he
    exact Nat.lt_irrefl _ (hs.nodes _ (.inl hm))
  · exact Array.getElem?_push_lt (hs.nodes m (.inl hm)) |>.trans (Array.getElem?_eq_getElem _).symm
  · exact Array.getElem?_push_size

theorem Site.create (hs : d.Site path) (hc : d.create? (Path.temporary path) = some (d', o)) :
    d.Spared d' path ∧ d'.Holds (Path.temporary path) o [] := by
  unfold create? at hc
  by_cases ht : d.trouble.create = true
  · rw [if_pos ht] at hc
    cases hc
  rw [if_neg ht] at hc
  cases hp : d.names.get? (Path.temporary path) with
  | some p =>
    rw [hp] at hc
    cases p with
    | directory => exact absurd hp hs.spare
    | file n =>
      cases hc
      exact hs.emptied hp
  | none =>
    rw [hp] at hc
    dsimp only at hc
    by_cases hr : d.reachable (Path.temporary path) = true
    · rw [if_pos hr] at hc
      cases hc
      exact hs.added hp
    · rw [if_neg hr] at hc
      cases hc

/-! ## Writing -/

theorem Holds.write (hh : d.Holds path o b) (c : Bytes) : (d.write o c).1.Holds path (d.write o c).2 (b ++ c) := by
  refine ⟨hh.name, ?_, ?_⟩
  · show (d.nodes.modify o.node _)[o.node]? = _
    have hend : overwrite b.toArray o.position c = (b ++ c).toArray := by
      rw [overwrite, if_pos (by rw [hh.position]; rfl)]
      simp
    rw [Array.getElem?_modify, if_pos rfl, hh.node, Option.map_some, hend]
  · show o.position + c.length = (b ++ c).length
    rw [hh.position, List.length_append]

/-- Writing to the file beside spares the file. -/
theorem Site.write (hs : d.Site path) (hh : d.Holds (Path.temporary path) o b) (c : Bytes) :
    d.Spared (d.write o c).1 path := by
  have hsize : (d.nodes.modify o.node (overwrite · o.position c)).size = d.nodes.size := Array.size_modify
  refine ⟨⟨hs.way, hs.room, hs.apart, hs.file, hs.spare, fun n hn => ?_, hs.separate⟩, rfl, fun n hn => ?_, rfl⟩
  · exact hsize.symm ▸ hs.nodes n hn
  · have hne : o.node ≠ n := fun he => hs.separate n hn (he ▸ hh.name)
    show (d.nodes.modify o.node _)[n]? = _
    rw [Array.getElem?_modify, if_neg hne]

/-- Writing to the file itself leaves a place for it. -/
theorem Site.append (hs : d.Site path) (c : Bytes) : (d.write o c).1.Site path := by
  have hsize : (d.nodes.modify o.node (overwrite · o.position c)).size = d.nodes.size := Array.size_modify
  exact ⟨hs.way, hs.room, hs.apart, hs.file, hs.spare, fun n hn => hsize.symm ▸ hs.nodes n hn, hs.separate⟩

theorem Site.fill (hs : d.Site path) (hh : d.Holds (Path.temporary path) o b) (c : Bytes) :
    (∃ o' d', d.fill o c = (some o', d') ∧ d.Spared d' path ∧ d'.Holds (Path.temporary path) o' (b ++ c)) ∨
      (¬ d.trouble.Renews ∧ ∃ d', d.fill o c = (none, d') ∧ d.Spared d' path) := by
  unfold Disk.fill
  cases ht : d.trouble.fill with
  | none => exact .inl ⟨_, _, rfl, hs.write hh c, hh.write c⟩
  | some n => exact .inr ⟨fun h => (nomatch ht.symm.trans h.fill), _, rfl, hs.write hh (c.take n)⟩

/-- What is added to an open file stands at its end, or it is refused and the file takes part of it. -/
theorem extend_cases (d : Disk) (o : Handle) (c : Bytes) :
    (d.trouble.append = none ∧ d.extend o c = (true, d.write o c)) ∨
      (d.trouble.append ≠ none ∧ ∃ n, d.extend o c = (false, d.write o (c.take n))) := by
  unfold extend
  cases d.trouble.append with
  | none => exact .inl ⟨rfl, rfl⟩
  | some n => exact .inr ⟨nofun, n, rfl⟩

/-! ## Renaming -/

/-- The disk on which the file beside has taken the name of the file. -/
def moved (d : Disk) (path : String) (node : Nat) : Disk :=
  { d with names := (d.names.erase (Path.temporary path)).insert path (.file node) }

theorem Site.moved (hs : d.Site path) (hh : d.Holds (Path.temporary path) o b) :
    (d.moved path o.node).Site path ∧ (d.moved path o.node).Holds path o b := by
  have hnames : ∀ q, (d.moved path o.node).names.get? q
      = if q = path then some (.file o.node) else if q = Path.temporary path then none else d.names.get? q := by
    intro q
    rw [Disk.moved, Dict.get?_insert, Dict.get?_erase]
  -- neither name was that of a directory, so every directory is still there
  have hdirectory : ∀ a, d.names.get? a = some .directory → (d.moved path o.node).names.get? a = some .directory := by
    intro a ha
    have hpath : a ≠ path := fun he => hs.file (he ▸ ha)
    have htemporary : a ≠ Path.temporary path := fun he => hs.spare (he ▸ ha)
    rw [hnames, if_neg hpath, if_neg htemporary, ha]
  have hnew : (d.moved path o.node).names.get? path = some (.file o.node) := by rw [hnames, if_pos rfl]
  have hgone : (d.moved path o.node).names.get? (Path.temporary path) = none := by
    rw [hnames, if_neg hs.apart, if_pos rfl]
  refine ⟨⟨fun a ha => hdirectory a (hs.way a ha), hdirectory _ hs.room, hs.apart, ?_, ?_, fun n hn => ?_, fun n _ => ?_⟩,
    ⟨hnew, hh.node, hh.position⟩⟩
  · rw [hnew]
    exact fun he => by cases he
  · rw [hgone]
    exact fun he => by cases he
  · rw [hnew, hgone] at hn
    rcases hn with hn | hn
    · cases hn
      exact hs.nodes _ (.inr hh.name)
    · cases hn
  · rw [hgone]
    exact fun he => by cases he

/-- The file beside takes the place of the file. -/
theorem Site.rename (hs : d.Site path) (hh : d.Holds (Path.temporary path) o b) :
    (∃ d', d.rename? (Path.temporary path) path = some d' ∧ d'.Site path ∧ d'.Holds path o b) ∨
      (¬ d.trouble.Renews ∧ d.rename? (Path.temporary path) path = none) := by
  unfold Disk.rename?
  by_cases ht : d.trouble.rename.isSome = true
  · rw [if_pos ht]
    exact .inr ⟨fun h => (by rw [h.rename] at ht; cases ht), rfl⟩
  · rw [if_neg ht, hh.name]
    refine .inl ⟨d.moved path o.node, ?_, hs.moved hh⟩
    cases hp : d.names.get? path with
    | none => rfl
    | some p =>
      cases p with
      | directory => exact absurd hp hs.file
      | file n => rfl

/-! ## Directories -/

/-- Makes one directory on a way, unless a file stands there. -/
def enter? (d : Disk) (a : String) : Option Disk :=
  match d.names.get? a with
  | some .directory => some d
  | some (.file _) => none
  | none => some { d with names := d.names.insert a .directory }

theorem makeWay?_eq (d : Disk) (path : String) : d.makeWay? path = (ancestors path).foldlM enter? d := rfl

theorem enter?_under (d : Disk) (a : String) (t : Trouble) : (d.under t).enter? a = (d.enter? a).map (·.under t) := by
  have hnames : (d.under t).names = d.names := rfl
  unfold enter?
  rw [hnames]
  cases d.names.get? a with
  | none => rfl
  | some p => cases p <;> rfl

theorem makeWay?_under (d : Disk) (path : String) (t : Trouble) :
    (d.under t).makeWay? path = (d.makeWay? path).map (·.under t) := by
  rw [makeWay?_eq, makeWay?_eq]
  induction ancestors path generalizing d with
  | nil => rfl
  | cons a as ih =>
    rw [List.foldlM_cons, List.foldlM_cons, enter?_under]
    cases d.enter? a with
    | none => rfl
    | some d' => exact ih d'

theorem directory_enter? (he : d.enter? path = some d') {q : String}
    (hq : q = path ∨ d.names.get? q = some .directory) : d'.names.get? q = some .directory := by
  unfold enter? at he
  cases hp : d.names.get? path with
  | none =>
    rw [hp] at he
    cases he
    by_cases hqp : q = path
    · exact (Dict.get?_insert _ _ _ _).trans (if_pos hqp)
    · exact (Dict.get?_insert _ _ _ _).trans ((if_neg hqp).trans (hq.resolve_left hqp))
  | some p =>
    rw [hp] at he
    cases p with
    | directory =>
      cases he
      rcases hq with rfl | hq
      · exact hp
      · exact hq
    | file n => cases he

/-- Making a way leaves directories on all of it. -/
theorem directory_makeWay? (hw : d.makeWay? path = some d') {q : String}
    (hq : q ∈ ancestors path ∨ d.names.get? q = some .directory) : d'.names.get? q = some .directory := by
  rw [makeWay?_eq] at hw
  generalize ancestors path = as at hw hq
  induction as generalizing d with
  | nil =>
    cases hw
    exact hq.resolve_left List.not_mem_nil
  | cons a as ih =>
    rw [List.foldlM_cons] at hw
    obtain ⟨e, he, hw⟩ := Option.bind_eq_some_iff.mp hw
    refine ih hw ?_
    rcases hq with hq | hq
    · rcases List.mem_cons.mp hq with hqa | hq
      · exact .inr (directory_enter? he (.inl hqa))
      · exact .inl hq
    · exact .inr (directory_enter? he (.inr hq))

/-- Nothing is to be made on a way that is there. -/
theorem makeWay?_of_forall (h : ∀ a ∈ ancestors path, d.names.get? a = some .directory) : d.makeWay? path = some d := by
  rw [makeWay?_eq]
  generalize ancestors path = as at h
  induction as with
  | nil => rfl
  | cons a as ih =>
    rw [List.foldlM_cons, enter?, h a List.mem_cons_self]
    exact ih fun x hx => h x (List.mem_cons_of_mem _ hx)

theorem Site.makeWay? (hs : d.Site path) : d.makeWay? path = some d := makeWay?_of_forall hs.way

/-- A place where no table was yet: its directories are there or can be made, and the names of the file and of the one
written beside it are free, and two. -/
def Vacant (d : Disk) (path : String) : Prop :=
  ∃ d', d.makeWay? path = some d' ∧ d'.reachable (Path.temporary path) = true ∧ d'.names.get? path = none ∧
    d'.names.get? (Path.temporary path) = none ∧ Path.temporary path ≠ path

theorem Vacant.site (hv : d.Vacant path) : ∃ d', d.makeWay? path = some d' ∧ d'.Site path ∧ d'.taken path = false := by
  obtain ⟨d', hw, hroom, hpath, htemporary, hapart⟩ := hv
  have hdirectory : d'.names.get? (Path.directory (Path.temporary path)) = some .directory := by
    rw [reachable] at hroom
    split at hroom
    · assumption
    · cases hroom
  refine ⟨d', hw, ⟨fun a ha => directory_makeWay? hw (.inl ha), hdirectory, hapart, ?_, ?_, ?_, ?_⟩, ?_⟩
  · exact fun he => by rw [hpath] at he; cases he
  · exact fun he => by rw [htemporary] at he; cases he
  · rintro n (hn | hn)
    · rw [hpath] at hn
      cases hn
    · rw [htemporary] at hn
      cases hn
  · intro n hn
    rw [hpath] at hn
    cases hn
  · rw [taken, Dict.contains, hpath]
    rfl

end Disk

end ContentMesh
