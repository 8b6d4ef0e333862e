import ContentMesh.Proofs.Message.Record
import ContentMesh.Proofs.Storage.Refinement

/-!
# ContentMesh.Proofs.Storage.Length — how long a journal gets

A journal keeps count of its lines.  The count is right, there is a line for each row at least, and no call leaves more
lines than twice the rows where they are more than `Journal.shortLength`, as long as the journal can be written anew
when that is due (`Table.journal_stays_short`).  Nothing is asked of the place of the file or of the rows for that: whatever
was written anew with success is what the name leads to (`Table.renewJournal_ok`), and any row is written in one line.
-/

namespace ContentMesh

/-! ## Disks -/

namespace Disk

variable {d d' : Disk} {path : String} {o : Handle} {b : Bytes}

/-- Names lead to nodes that are there. -/
def Sound (d : Disk) : Prop := ∀ p n, d.names.get? p = some (.file n) → n < d.nodes.size

theorem sound_root (directory : String) : (root directory).Sound := by
  intro p n hp
  have hp : (Dict.empty.insert directory Place.directory).get? p = some (.file n) := hp
  rw [Dict.get?_insert] at hp
  split at hp
  · cases hp
  · cases hp

theorem Sound.under (h : d.Sound) (τ : Trouble) : (d.under τ).Sound := h

theorem Sound.directory (h : d.Sound) (a : String) : Sound { d with names := d.names.insert a .directory } := by
  intro p n hp
  have hp : (d.names.insert a Place.directory).get? p = some (.file n) := hp
  rw [Dict.get?_insert] at hp
  split at hp
  · cases hp
  · exact h p n hp

theorem Sound.makeWay (h : d.Sound) (hway : d.makeWay? path = some d') : d'.Sound := by
  unfold makeWay? at hway
  generalize ancestors path = as at hway
  induction as generalizing d with
  | nil =>
    cases hway
    exact h
  | cons a as ih =>
    rw [List.foldlM_cons] at hway
    obtain ⟨d₁, hstep, hrest⟩ := Option.bind_eq_some_iff.mp hway
    refine ih ?_ hrest
    split at hstep
    · cases hstep
      exact h
    · cases hstep
    · cases hstep
      exact h.directory a

theorem Sound.write (h : d.Sound) (o : Handle) (b : Bytes) : (d.write o b).1.Sound := by
  intro p n hp
  have hsize : (d.nodes.modify o.node (overwrite · o.position b)).size = d.nodes.size := Array.size_modify
  exact hsize.symm ▸ h p n hp

/-- A file that was made is empty and open. -/
theorem Sound.create (h : d.Sound) (hc : d.create? path = some (d', o)) : d'.Sound ∧ d'.Holds path o [] := by
  unfold create? at hc
  split at hc
  · cases hc
  · split at hc
    · cases hc
    · rename_i n hn
      cases hc
      have hsize : (d.nodes.setIfInBounds n #[]).size = d.nodes.size := Array.size_setIfInBounds
      exact ⟨fun p m hp => hsize.symm ▸ h p m hp, hn, Array.getElem?_setIfInBounds_self_of_lt (h path n hn), rfl⟩
    · split at hc
      · cases hc
        refine ⟨fun p m hp => ?_, (Dict.get?_insert ..).trans (if_pos rfl), Array.getElem?_push_size, rfl⟩
        have hp : (d.names.insert path (.file d.nodes.size)).get? p = some (.file m) := hp
        rw [Dict.get?_insert] at hp
        rw [Array.size_push]
        split at hp
        · cases hp
          exact Nat.lt_succ_self _
        · exact Nat.lt_succ_of_lt (h p m hp)
      · cases hc

/-- A file keeps what it holds under its new name. -/
theorem Sound.rename (h : d.Sound) {source : String} (hh : d.Holds source o b) (hr : d.rename? source path = some d') :
    d'.Sound ∧ d'.Holds path o b := by
  unfold rename? at hr
  split at hr
  · cases hr
  · rw [hh.name] at hr
    -- the target is a directory or not; only the second lets the file move
    have hmoved : d' = { d with names := (d.names.erase source).insert path (.file o.node) } := by
      split at hr
      · cases hr
      · rename_i heq _
        cases heq
        cases hr
        rfl
      · cases hr
    rw [hmoved]
    refine ⟨fun p n hp => ?_, (Dict.get?_insert ..).trans (if_pos rfl), hh.node, hh.position⟩
    have hp : ((d.names.erase source).insert path (.file o.node)).get? p = some (.file n) := hp
    rw [Dict.get?_insert, Dict.get?_erase] at hp
    split at hp
    · cases hp
      exact h source _ hh.name
    · split at hp
      · cases hp
      · exact h p n hp

end Disk

variable {V : Type} [Record V]

/-! ## Journals -/

namespace Journal

omit [Record V] in
theorem length_changesOf (rows : Dict V) : (changesOf rows).length = rows.size := List.length_map _

omit [Record V] in
theorem size_apply_le (rows : Dict V) (c : Change V) : (c.apply rows).size ≤ rows.size + 1 := by
  cases c with
  | put k v => exact rows.size_insert_le k v
  | delete k => exact Nat.le_succ_of_le (rows.size_erase_le k)

omit [Record V] in
/-- A map has no more rows than it took changes to make it. -/
theorem size_foldl_apply_le (cs : List (Change V)) (rows : Dict V) :
    (cs.foldl Change.apply rows).size ≤ rows.size + cs.length := by
  induction cs generalizing rows with
  | nil => exact Nat.le_refl _
  | cons c cs ih =>
    have hstep := size_apply_le rows c
    have hrest := ih (c.apply rows)
    rw [List.foldl_cons, List.length_cons]
    omega

/-- The most lines that a journal is left with for so many rows. -/
def limit (live : Nat) : Nat := max shortLength (2 * live)

theorem overdue_eq_false {length live : Nat} : overdue length live = false ↔ length ≤ limit live := by
  unfold overdue limit
  rw [Bool.and_eq_false_iff, decide_eq_false_iff_not, decide_eq_false_iff_not]
  omega

theorem size_le_limit (live : Nat) : live ≤ limit live := by
  unfold limit
  omega

end Journal

namespace Table

variable {d d' : Disk} {path : String} {rows : Dict V} {t : Table V} {o : Handle} {cs : List (Change V)} {c : Change V}

/-! ## Calls -/

/-- The table with this trouble with its disk. -/
def under (t : Table V) (τ : Trouble) : Table V := { t with disk := t.disk.under τ }

/-- The table after a call that asks for a change. -/
def call (t : Table V) : Change V → Table V
  | .put k v => (t.put k v).2
  | .delete k => (t.delete k).2

/-- The table after calls, each under the trouble of its time. -/
def through (t : Table V) (calls : List (Change V × Trouble)) : Table V :=
  calls.foldl (fun t x => (t.under x.2).call x.1) t

omit [Record V] in
/-- Whether there is something to change: a key that is not bound is not unbound. -/
def Due (t : Table V) : Change V → Prop
  | .put _ _ => True
  | .delete k => t.rows.contains k = true

omit [Record V] in
instance (t : Table V) (c : Change V) : Decidable (t.Due c) :=
  match c with
  | .put _ _ => inferInstanceAs (Decidable True)
  | .delete k => inferInstanceAs (Decidable (t.rows.contains k = true))

/-- What it comes to to write the journal anew in the course of a call, where the call has that done: after a change that
cannot be encoded or added, or once the journal is too long. -/
def rewriting? (t : Table V) (c : Change V) : Option (Except Failure Handle) :=
  match t.backing with
  | .journal path o length =>
    if !t.Due c then none
    else if !c.toJson.clear then some (renewJournal t.disk path t.rows).1
    else
      match t.disk.extend o c.line with
      | (false, disk, _) => some (renewJournal disk path t.rows).1
      | (true, disk, _) =>
        if Journal.overdue (length + 1) (c.apply t.rows).size then some (renewJournal disk path (c.apply t.rows)).1
        else none
  | _ => none

/-- Whenever the calls have the journal written anew, that succeeds. -/
def Rewrites (t : Table V) : List (Change V × Trouble) → Prop
  | [] => True
  | (c, τ) :: calls => (∀ f, (t.under τ).rewriting? c ≠ some (.error f)) ∧ ((t.under τ).call c).Rewrites calls

/-- The line that a call adds to the journal, whatever else it does to it. -/
def added (t : Table V) (c : Change V) : List (Change V) :=
  if t.Due c ∧ c.toJson.clear = true ∧ t.disk.trouble.append = none then [c] else []

theorem call_eq (t : Table V) (c : Change V) : t.call c = if t.Due c then (t.commit c).2 else t := by
  cases c with
  | put k v => exact (if_pos trivial).symm
  | delete k =>
    unfold call delete
    dsimp only
    by_cases hk : t.rows.contains k = true
    · rw [if_pos hk, if_pos (show t.Due (.delete k) from hk)]
      rcases t.commit (.delete k) with ⟨_ | _, t'⟩ <;> rfl
    · rw [if_neg hk, if_neg (show ¬ t.Due (.delete k) from hk)]

theorem added_cases (t : Table V) (c : Change V) : t.added c = [] ∨ t.added c = [c] ∧ c.Encodable := by
  unfold added
  split
  · rename_i hadd
    exact .inr ⟨rfl, Change.clear_toJson.mp hadd.2.1⟩
  · exact .inl rfl

/-! ## Writing anew -/

theorem renewJournal_ok (hd : d.Sound) (h : renewJournal d path rows = (.ok o, d')) :
    d'.Sound ∧ d'.Holds path o ((Journal.changesOf rows).flatMap Change.line) := by
  unfold renewJournal at h
  split at h
  · cases h
  · rename_i d₁ o₁ hcreate
    obtain ⟨hd₁, hholds₁⟩ := hd.create hcreate
    split at h
    · cases h
    · unfold Disk.fill at h
      rw [Journal.image_eq] at h
      cases hfill : d₁.trouble.fill with
      | some n =>
        rw [hfill] at h
        cases h
      | none =>
        rw [hfill] at h
        dsimp only at h
        unfold settle at h
        split at h
        · rename_i d₂ hsettle
          split at hsettle
          · rename_i d₃ hrename
            cases hsettle
            cases h
            exact (hd₁.write o₁ _).rename (hholds₁.write _) hrename
          · cases hsettle
        · cases h

/-! ## One call -/

variable {p : V → Prop}

/-- A journal that is open holds these changes, they make the map, and the table knows how many they are.  The rows that they
put have a property. -/
structure Counted (p : V → Prop) (path : String) (t : Table V) (o : Handle) (cs : List (Change V)) : Prop where
  sound : t.disk.Sound
  backing : t.backing = .journal path o cs.length
  puts : ∀ c ∈ cs, c.Puts p
  rows : cs.foldl Change.apply ∅ = t.rows
  holds : t.disk.Holds path o (cs.flatMap Change.line)

theorem Counted.under (h : Counted p path t o cs) (τ : Trouble) : Counted p path (t.under τ) o cs :=
  ⟨h.sound, h.backing, h.puts, h.rows, h.holds.under τ⟩

theorem Counted.live (h : Counted p path t o cs) : t.rows.size ≤ cs.length := by
  have hle := Journal.size_foldl_apply_le cs ∅
  rw [h.rows] at hle
  exact Nat.le_trans hle (Nat.le_of_eq (Nat.zero_add _))

theorem Counted.all (h : Counted p path t o cs) : t.rows.All p := by
  rw [← h.rows]
  exact Dict.All.empty.foldl_apply h.puts

theorem Counted.append (h : Counted p path t o cs) (hc : c.Puts p) :
    Counted p path ⟨c.apply t.rows, .journal path (t.disk.write o c.line).2 (cs.length + 1), (t.disk.write o c.line).1⟩
      (t.disk.write o c.line).2 (cs ++ [c]) := by
  refine ⟨h.sound.write o _, ?_, fun x hx => ?_, ?_, ?_⟩
  · rw [List.length_append]
    rfl
  · rcases List.mem_append.mp hx with hx | hx
    · exact h.puts x hx
    · exact List.mem_singleton.mp hx ▸ hc
  · rw [List.foldl_append, h.rows]
    rfl
  · rw [List.flatMap_append, List.flatMap_singleton]
    exact h.holds.write c.line

/-- A journal that was written anew has one line for each row, whatever was in it. -/
theorem counted_renewed (hd : t.disk.Sound) (hrows : t.rows.All p) (hok : ∀ f, (renewJournal t.disk path t.rows).1 ≠ .error f)
    (o : Handle) (length : Nat) :
    ∃ o' cs', Counted p path (t.renewed path o length) o' cs' ∧
      cs'.length ≤ Journal.limit (t.renewed path o length).rows.size ∧ cs'.foldl Change.apply ∅ = t.rows := by
  rw [rows_renewed]
  unfold renewed
  rcases hr : renewJournal t.disk path t.rows with ⟨f | o', d'⟩
  · exact absurd (congrArg Prod.fst hr) (hok f)
  · obtain ⟨hsound, hholds⟩ := renewJournal_ok hd hr
    have hlength := Journal.length_changesOf t.rows
    refine ⟨o', _, ⟨hsound, ?_, hrows.changesOf, Journal.foldl_changesOf t.rows, hholds⟩, ?_, Journal.foldl_changesOf t.rows⟩
    · rw [hlength]
    · rw [hlength]
      exact Journal.size_le_limit _

/-- A call keeps the count, and the limit unless the journal should have been written anew and was not.  What its lines
make is what they would make had only the line of the call been added. -/
theorem Counted.call (h : Counted p path t o cs) (hshort : cs.length ≤ Journal.limit t.rows.size)
    (hputs : c.Encodable → c.Puts p) (hok : ∀ f, t.rewriting? c ≠ some (.error f)) :
    ∃ o' cs', Counted p path (t.call c) o' cs' ∧ cs'.length ≤ Journal.limit (t.call c).rows.size ∧
      cs'.foldl Change.apply ∅ = (cs ++ t.added c).foldl Change.apply ∅ := by
  rw [call_eq]
  unfold rewriting? at hok
  rw [h.backing] at hok
  dsimp only at hok
  by_cases hdue : t.Due c
  · rw [if_neg (by simpa using hdue)] at hok
    rw [if_pos hdue]
    unfold commit
    rw [h.backing]
    dsimp only
    by_cases hc : c.Encodable
    · have hclear := Change.clear_toJson.mpr hc
      rw [hclear] at hok ⊢
      simp only [Bool.not_true, Bool.false_eq_true, if_false] at hok ⊢
      rcases t.disk.extend_cases o c.line with ⟨hcalm, hextend⟩ | ⟨htrouble, n, hextend⟩
      · have hadded : t.added c = [c] := if_pos ⟨hdue, hclear, hcalm⟩
        have happend := h.append (hputs hc)
        rw [hextend] at hok ⊢
        dsimp only at hok ⊢
        rw [hadded, happend.rows]
        by_cases hlong : Journal.overdue (cs.length + 1) (c.apply t.rows).size = true
        · rw [if_pos hlong] at hok
          rw [if_pos hlong]
          -- the line was added, and then the journal was compacted
          exact counted_renewed happend.sound happend.all (fun f hf => hok f (congrArg some hf)) _ _
        · rw [if_neg hlong]
          refine ⟨_, _, happend, ?_, happend.rows⟩
          rw [List.length_append]
          exact Journal.overdue_eq_false.mp (Bool.eq_false_iff.mpr hlong)
      · have hadded : t.added c = [] := if_neg fun hand => htrouble hand.2.2
        rw [hextend] at hok ⊢
        dsimp only at hok ⊢
        rw [hadded, List.append_nil, h.rows]
        -- a part of the line was added, and the journal was repaired
        exact counted_renewed (t := ⟨t.rows, .journal path o cs.length, (t.disk.write o (c.line.take n)).1⟩)
          (h.sound.write o _) h.all (fun f hf => hok f (congrArg some hf)) _ _
    · have hclear := Bool.eq_false_iff.mpr (mt Change.clear_toJson.mp hc)
      have hadded : t.added c = [] := if_neg fun hand => Bool.false_ne_true (hclear.symm.trans hand.2.1)
      rw [hclear] at hok ⊢
      simp only [Bool.not_false, if_true] at hok ⊢
      rw [hadded, List.append_nil, h.rows]
      -- nothing was added, and the journal was repaired
      exact counted_renewed h.sound h.all (fun f hf => hok f (congrArg some hf)) o cs.length
  · have hadded : t.added c = [] := if_neg fun hand => hdue hand.1
    rw [if_neg hdue, hadded, List.append_nil]
    exact ⟨o, cs, h, hshort, rfl⟩

/-! ## All calls -/

theorem Counted.through (h : Counted p path t o cs) (hshort : cs.length ≤ Journal.limit t.rows.size)
    {calls : List (Change V × Trouble)} (hputs : ∀ x ∈ calls, x.1.Encodable → x.1.Puts p) (hcalls : t.Rewrites calls) :
    ∃ o' cs', Counted p path (t.through calls) o' cs' ∧ cs'.length ≤ Journal.limit (t.through calls).rows.size := by
  induction calls generalizing t o cs with
  | nil => exact ⟨o, cs, h, hshort⟩
  | cons x calls ih =>
    obtain ⟨c, τ⟩ := x
    obtain ⟨o', cs', h', hshort', -⟩ := (h.under τ).call hshort (hputs (c, τ) List.mem_cons_self) hcalls.1
    exact ih h' hshort' (fun x hx => hputs x (List.mem_cons_of_mem _ hx)) hcalls.2

/-- A journal that opens was written anew. -/
theorem counted_openAt (hd : d.Sound) (hopen : openAt .journal d path = (.ok t, d')) (hrows : t.rows.All p) :
    ∃ o, Counted p path t o (Journal.changesOf t.rows) := by
  unfold openAt at hopen
  dsimp only at hopen
  split at hopen
  · cases hopen
  · rename_i d₁ hway
    split at hopen
    · cases hopen
    · rename_i rows hload
      split at hopen
      · rename_i o d₂ hr
        cases hopen
        obtain ⟨hsound, hholds⟩ := renewJournal_ok (hd.makeWay hway) hr
        refine ⟨o, hsound, ?_, hrows.changesOf, Journal.foldl_changesOf rows, hholds⟩
        rw [Journal.length_changesOf]
      · cases hopen

/-- After calls of a journal that was opened, there is a line for each row at least, and no more lines than the limit. -/
theorem counted_through (hd : d.Sound) (hopen : openAt .journal d path = (.ok t, d')) (hrows : t.rows.All p)
    {calls : List (Change V × Trouble)} (hputs : ∀ x ∈ calls, x.1.Encodable → x.1.Puts p) (hcalls : t.Rewrites calls) :
    ∃ o cs, Counted p path (t.through calls) o cs ∧ cs.length ≤ Journal.limit (t.through calls).rows.size := by
  obtain ⟨o, hopened⟩ := counted_openAt hd hopen hrows
  refine hopened.through ?_ hputs hcalls
  rw [Journal.length_changesOf]
  exact Journal.size_le_limit _

/-- The journal stays short.  After any calls since it was opened, with rows that cannot be encoded and lines that cannot be
added among them, as long as it can be written anew when a call has that done: the count is the number of lines of the
file, it is the number of rows at least and the limit at most.  Where decoding the rows undoes encoding them, the file is
replayed to the map, and whatever the next call does to the file, it is replayed as if only the line of that call had been
added. -/
theorem journal_stays_short (hd : d.Sound) (hopen : openAt .journal d path = (.ok t, d'))
    {calls : List (Change V × Trouble)} (hcalls : t.Rewrites calls) :
    ∃ o length bytes, (t.through calls).backing = .journal path o length ∧
      (t.through calls).disk.read? path = some bytes ∧ (Journal.lines bytes).length = length ∧
      (t.through calls).rows.size ≤ length ∧ length ≤ max 1024 (2 * (t.through calls).rows.size) ∧
      (t.rows.Returns → (∀ x ∈ calls, x.1.Recovers) → Journal.replay bytes = .ok (t.through calls).rows ∧
        ∀ c τ, c.Recovers → (∀ f, ((t.through calls).under τ).rewriting? c ≠ some (.error f)) →
          ∃ bytes', (((t.through calls).under τ).call c).disk.read? path = some bytes' ∧
            Journal.replay (V := V) bytes'
              = Journal.replay (bytes ++ (((t.through calls).under τ).added c).flatMap Change.line)) := by
  have htrivial : ∀ c : Change V, c.Puts fun _ => True := fun c => by cases c <;> trivial
  obtain ⟨o, cs, h, hshort⟩ := counted_through hd hopen (fun _ _ => trivial) (fun x _ _ => htrivial x.1) hcalls
  have hread := h.holds.read?
  refine ⟨o, cs.length, _, h.backing, hread, ?_, h.live, hshort, fun hrows hrecovers => ?_⟩
  · rw [Journal.lines_line, List.length_map]
  · -- the same file, with what is known of the rows in it
    obtain ⟨o₁, cs₁, h₁, hshort₁⟩ := counted_through hd hopen hrows (fun x hx => (hrecovers x hx).returns) hcalls
    rw [Option.some.inj (hread.symm.trans h₁.holds.read?)]
    refine ⟨by rw [Journal.replay_lines h₁.puts, h₁.rows], fun c τ hc hok => ?_⟩
    obtain ⟨o', cs', h', -, hsame⟩ := (h₁.under τ).call hshort₁ hc.returns hok
    have hadded : ∀ x ∈ cs₁ ++ ((t.through calls).under τ).added c, x.Returns := by
      intro x hx
      rcases List.mem_append.mp hx with hx | hx
      · exact h₁.puts x hx
      · rcases ((t.through calls).under τ).added_cases c with hnone | ⟨hone, hclear⟩
        · rw [hnone] at hx
          cases hx
        · rw [hone] at hx
          exact List.mem_singleton.mp hx ▸ hc.returns hclear
    refine ⟨_, h'.holds.read?, ?_⟩
    rw [← List.flatMap_append, Journal.replay_lines h'.puts, Journal.replay_lines hadded]
    exact congrArg Except.ok hsame

/-! ## Disks that let it be written anew -/

/-- Where nothing stands in the way of that, the journal is written anew with success. -/
theorem Stands.rewriting? (h : Stands path t .journal) (hτ : t.disk.trouble.Renews) (hc : c.Recovers) (f : Failure) :
    t.rewriting? c ≠ some (.error f) := by
  obtain ⟨o, length, hb, hjournal⟩ := h
  have hrenews : ∀ {d : Disk} {rows : Dict V}, d.Site path → rows.Returns → d.trouble.Renews →
      some (renewJournal d path rows).1 ≠ some (.error f) := by
    intro d rows hs hrows htrouble hf
    rcases renewJournal_cases hs rows with ⟨-, o', d', hr, -⟩ | ⟨hwhy, -⟩
    · rw [hr] at hf
      cases hf
    · rcases hwhy with hwhy | hwhy
      · exact hwhy hrows.encodable
      · exact hwhy htrouble
  unfold Table.rewriting?
  rw [hb]
  dsimp only
  split
  · exact nofun
  · split
    · exact hrenews hjournal.site hjournal.returns hτ
    · rename_i hclear
      have hreturns : c.Returns := hc.returns (Change.clear_toJson.mp (by simpa using hclear))
      rcases t.disk.extend_cases o c.line with ⟨-, hextend⟩ | ⟨-, n, hextend⟩
      · rw [hextend]
        dsimp only
        split
        · exact hrenews (hjournal.append hreturns).site (hjournal.append hreturns).returns hτ
        · exact nofun
      · rw [hextend]
        exact hrenews (hjournal.site.append _) hjournal.returns hτ

theorem Stands.call (h : Stands path t .journal) (hτ : t.disk.trouble.Renews) (hc : c.Recovers) :
    Stands path (t.call c) .journal := by
  rw [call_eq]
  split
  · rcases h.commit hc fun _ => hτ with ⟨t', hcommit, hs, -⟩ | ⟨-, f, t', hcommit, hs, -⟩
    · rw [hcommit]
      exact hs
    · rw [hcommit]
      exact hs
  · exact h

theorem Stands.rewrites (h : Stands path t .journal) {calls : List (Change V × Trouble)}
    (hcalls : ∀ x ∈ calls, x.1.Recovers ∧ x.2.Renews) : t.Rewrites calls := by
  induction calls generalizing t with
  | nil => trivial
  | cons x calls ih =>
    obtain ⟨c, τ⟩ := x
    obtain ⟨hc, hτ⟩ := hcalls (c, τ) List.mem_cons_self
    have hunder : Stands path (t.under τ) .journal := h.under τ
    exact ⟨hunder.rewriting? hτ hc, ih (hunder.call hτ hc) fun x hx => hcalls x (List.mem_cons_of_mem _ hx)⟩

/-- One message is logged, the next cannot be, and then the first is logged again and again, more often than a journal is
long. -/
def rowPuts : List (Change LogRow × Trouble) :=
  let first : Change LogRow := .put "m1" ⟨"m1", "page", "http://a", .epoch, .received, .epoch⟩
  let second : Change LogRow := .put "m2" ⟨"m2", "page", "http://a", .epoch, .received, .epoch⟩
  (first, .none) :: (second, ⟨false, none, none, some 7⟩) :: List.replicate 3000 (first, .none)

/-- The journal of a new node stays short meanwhile. -/
theorem journal_stays_short_repeated : ∃ (t : Table LogRow) (d' : Disk),
    openAt .journal (Disk.root "data") "data/messages.journal" = (.ok t, d') ∧ t.Rewrites rowPuts ∧
      ∃ o length bytes, (t.through rowPuts).backing = .journal "data/messages.journal" o length ∧
        (t.through rowPuts).disk.read? "data/messages.journal" = some bytes ∧
        (Journal.lines bytes).length = length ∧ length ≤ max 1024 (2 * (t.through rowPuts).rows.size) ∧
        Journal.replay bytes = .ok (t.through rowPuts).rows := by
  have hvacant : (Disk.root "data").Vacant "data/messages.journal" :=
    ⟨_, Disk.makeWay?_of_forall (by decide +kernel), by decide +kernel, by decide +kernel, by decide +kernel,
      by decide +kernel⟩
  have hmirrors : (Desk.closed (Disk.root "data") : Desk LogRow).Mirrors .journal "data/messages.journal" ⟨∅, false⟩ :=
    Desk.mirrors_empty (.inr hvacant)
  have hrecovers : ∀ c : Change LogRow, c.Recovers := by
    intro c
    cases c with
    | put k v => exact fun _ => v.returns
    | delete k => trivial
  have hrenews : ∀ x ∈ rowPuts, x.2.Renews := by
    intro x hx
    rcases List.mem_cons.mp hx with rfl | hx
    · exact Trouble.renews_none
    · rcases List.mem_cons.mp hx with rfl | hx
      · exact ⟨rfl, rfl, rfl⟩
      · exact List.eq_of_mem_replicate hx ▸ Trouble.renews_none
  rcases openAt_cases hmirrors.2 .none with ⟨t, d', hopen, hstands, hrows⟩ | ⟨-, hne, -⟩
  · have hcalls : t.Rewrites rowPuts := hstands.rewrites fun x hx => ⟨hrecovers x.1, hrenews x hx⟩
    obtain ⟨o, length, bytes, hb, hread, hcount, -, hlength, hreplay⟩ :=
      journal_stays_short (Disk.sound_root "data") hopen hcalls
    have hreturns : t.rows.Returns := fun e _ => e.2.returns
    exact ⟨t, d', hopen, hcalls, o, length, bytes, hb, hread, hcount, hlength,
      (hreplay hreturns fun x _ => hrecovers x.1).1⟩
  · exact absurd Trouble.renews_none hne

end Table

end ContentMesh
