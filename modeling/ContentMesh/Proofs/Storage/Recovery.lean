import ContentMesh.Proofs.Json.Prefix
import ContentMesh.Proofs.Message.Record
import ContentMesh.Proofs.Storage.Refinement

/-!
# ContentMesh.Proofs.Storage.Recovery — a journal that was cut off

Writing may stop anywhere in a journal, so what is opened later is any beginning of it.  The entries whose text is
whole there take effect and a torn one does not (`Journal.replayFrom_cut`), for a proper beginning of an entry is
neither readable nor more than one line.  Opening writes the journal anew, so nothing is ever appended to a torn
entry; where that fails, the file is as it was (`Table.openAt_of_cut`).
-/

namespace ContentMesh

variable {V : Type} [Record V]

/-! ## Entries -/

namespace Change

theorem length_line (c : Change V) : c.line.length = c.text.length + 1 := List.length_append

/-- A torn entry is no entry. -/
theorem Returns.ofLine?_cut {c : Change V} (h : c.Returns) {b : Bytes} (hb : b <+: c.text)
    (hne : b ≠ c.text) : Change.ofLine? (V := V) b = none := by
  have hread : Json.readBytes b = none := by
    cases c with
    | put k v => exact Json.readBytes_obj_cut h.legible hb hne
    | delete k => exact Json.readBytes_obj_cut h.legible hb hne
  rw [Change.ofLine?, hread, Option.bind_none]

end Change

/-! ## Replaying -/

namespace Journal

/-- How many entries have their whole text, with or without its newline, in the first `size` bytes of a journal. -/
def whole : List (Change V) → Nat → Nat
  | [], _ => 0
  | c :: cs, size => if c.text.length ≤ size then whole cs (size - c.line.length) + 1 else 0

theorem whole_zero (cs : List (Change V)) : whole cs 0 = 0 := by
  cases cs with
  | nil => rfl
  | cons c cs =>
    have hpos := List.length_pos_iff.mpr c.text_ne_nil
    rw [whole, if_neg (by omega)]

theorem lt_whole_iff_length {cs : List (Change V)} {c : Change V} {i : Nat} (hc : cs[i]? = some c) (size : Nat) :
    i < whole cs size ↔ ((cs.take i).flatMap Change.line ++ c.text).length ≤ size := by
  induction cs generalizing i size with
  | nil => simp at hc
  | cons x cs ih =>
    have hline := x.length_line
    rw [whole]
    cases i with
    | zero =>
      obtain rfl : x = c := by simpa using hc
      split <;> simp_all
    | succ i =>
      have hrest := ih (by simpa using hc) (size - x.line.length)
      have hpos := List.length_pos_iff.mpr c.text_ne_nil
      simp only [List.length_append] at hrest
      simp only [List.take_succ_cons, List.flatMap_cons, List.length_append]
      split <;> omega

/-- In a beginning of a journal, the entries that count are those whose text it has to the end. -/
theorem lt_whole_iff {cs : List (Change V)} {c : Change V} {i : Nat} {b : Bytes} (hb : b <+: cs.flatMap Change.line)
    (hc : cs[i]? = some c) : i < whole cs b.length ↔ (cs.take i).flatMap Change.line ++ c.text <+: b := by
  have htext : (cs.take i).flatMap Change.line ++ c.text <+: cs.flatMap Change.line := by
    obtain ⟨hi, rfl⟩ := List.getElem?_eq_some_iff.mp hc
    have hsplit : cs.flatMap Change.line
        = (cs.take i).flatMap Change.line ++ (cs[i].line ++ (cs.drop (i + 1)).flatMap Change.line) := by
      rw [← List.flatMap_cons, ← List.drop_eq_getElem_cons hi, ← List.flatMap_append, List.take_append_drop]
    refine ⟨10 :: (cs.drop (i + 1)).flatMap Change.line, ?_⟩
    rw [hsplit]
    simp [Change.line, Change.text]
  rw [lt_whole_iff_length hc]
  exact ⟨List.prefix_of_prefix_length_le htext hb, List.IsPrefix.length_le⟩

/-- A beginning of a journal either ends in its first entry or goes on after that. -/
theorem cut_cases {c : Change V} {b rest : Bytes} (hb : b <+: c.line ++ rest) :
    b <+: c.text ∨ ∃ b', b = c.line ++ b' ∧ b' <+: rest := by
  have hline := c.length_line
  by_cases hlen : b.length ≤ c.text.length
  · have htext : c.text <+: c.line ++ rest := ⟨10 :: rest, by simp [Change.line, Change.text]⟩
    exact .inl (List.prefix_of_prefix_length_le hb htext hlen)
  · obtain ⟨b', rfl⟩ := List.prefix_of_prefix_length_le (List.prefix_append c.line rest) hb (by omega)
    exact .inr ⟨b', rfl, (List.prefix_append_right_inj _).mp hb⟩

/-- A beginning of a journal is replayed as its whole entries. -/
theorem replayFrom_cut {cs : List (Change V)} (h : ∀ c ∈ cs, c.Returns) {b : Bytes}
    (hb : b <+: cs.flatMap Change.line) (d : Dict V) (number : Nat) :
    replayFrom d number (lines b) = .ok ((cs.take (whole cs b.length)).foldl Change.apply d) := by
  induction cs generalizing b d number with
  | nil =>
    rw [List.flatMap_nil, List.prefix_nil] at hb
    subst hb
    rfl
  | cons c cs ih =>
    have hc := h c List.mem_cons_self
    have hnewline := c.newline_notMem
    rcases cut_cases hb with htext | ⟨b', rfl, hb'⟩
    · have hlines := lines_last fun hmem => hnewline (htext.subset hmem)
      by_cases hwhole : b = c.text
      · -- only the newline is missing
        subst hwhole
        rw [hlines, if_neg c.text_ne_nil, replayFrom, hc.ofLine?, whole, if_pos le_rfl,
          Nat.sub_eq_zero_of_le (by rw [c.length_line]; omega), whole_zero]
        rfl
      · have hshort : ¬ c.text.length ≤ b.length := fun hlen => hwhole (htext.eq_of_length_le hlen)
        rw [hlines, whole, if_neg hshort]
        by_cases hnil : b = []
        · rw [if_pos hnil]
          rfl
        · rw [if_neg hnil, replayFrom, hc.ofLine?_cut htext hwhole]
          rfl
    · have hlines : lines (c.line ++ b') = c.text :: lines b' := by
        rw [show c.line ++ b' = c.text ++ 10 :: b' by simp [Change.line, Change.text]]
        exact lines_cons hnewline c.text_ne_nil b'
      have hsize : whole (c :: cs) (c.line ++ b').length = whole cs b'.length + 1 := by
        have hline := c.length_line
        rw [List.length_append, whole, if_pos (by omega), Nat.add_sub_cancel_left]
      rw [hlines, replayFrom, hc.ofLine?, hsize, List.take_succ_cons]
      exact ih (fun x hx => h x (List.mem_cons_of_mem c hx)) hb' _ _

end Journal

/-! ## Opening -/

namespace Table

variable {d : Disk} {path : String} {b : Bytes}

omit [Record V] in
theorem load_read (hb : d.read? path = some b) (f : Bytes → Except Failure (Dict V)) : load d path f = f b := by
  have htaken : d.taken path = true := by
    unfold Disk.read? at hb
    rw [Disk.taken, Dict.contains]
    split at hb
    · simp [*]
    · cases hb
  rw [load, if_pos htaken, hb]

/-- A journal is opened and written anew with the map that it holds, and is kept from then on if the rows come back; or it
does not open and is as it was. -/
theorem openAt_journal_cases (hs : d.Site path) :
    (∃ t d', openAt (V := V) .journal d path = (.ok t, d') ∧ t.disk = d' ∧ (t.rows.Returns → Stands path t .journal)) ∨
      ∃ f d', openAt (V := V) .journal d path = (.error f, d') ∧ d.Spared d' path := by
  unfold openAt
  dsimp only
  rw [hs.makeWay?]
  dsimp only
  cases load d path (readJournal (V := V) path) with
  | error f => exact .inr ⟨f, d, rfl, .refl hs⟩
  | ok rows =>
    dsimp only
    rcases renewJournal_cases hs rows with ⟨hrows, o, d', hr, hsite, hholds⟩ | ⟨-, f, d', hr, hspared⟩
    · rw [hr]
      exact .inl ⟨_, d', rfl, rfl, fun hreturns => ⟨o, _, rfl, inJournal_image hsite hreturns hholds⟩⟩
    · rw [hr]
      exact .inr ⟨f, d', rfl, hspared⟩

/-- A journal that was cut off is still kept: it holds the map that its whole entries make. -/
theorem kept_of_cut (hs : d.Site path) (hb : d.read? path = some b) {cs : List (Change V)} (h : ∀ c ∈ cs, c.Returns)
    (hcut : b <+: cs.flatMap Change.line) :
    Kept .journal path d ((cs.take (Journal.whole cs b.length)).foldl Change.apply ∅) := by
  refine .inr ⟨Dict.All.empty.foldl_apply fun c hc => h c (List.mem_of_mem_take hc), d, hs.makeWay?, hs, ?_⟩
  rw [load_read hb, contentOf, readJournal, Journal.replay, Journal.replayFrom_cut h hcut]

/-- A table whose journal was cut off anywhere opens with the map that the whole entries make, and from then on is
that map, whatever is done with it.  Whatever else a file holds, it does not open and is as it was, or the file that
it leaves opens with the same map, if decoding the rows of that map undoes encoding them. -/
theorem openAt_of_cut (hs : d.Site path) (hb : d.read? path = some b) :
    (∀ (rows : Dict V) (appended cs : List (Change V)), rows.Returns → (∀ c ∈ appended, c.Returns) →
        cs = Journal.changesOf rows ++ appended →
        b <+: Journal.image rows ++ appended.flatMap Change.line → d.trouble.Renews →
        ∃ k t d', openAt .journal d path = (.ok t, d') ∧ t.rows = (cs.take k).foldl Change.apply ∅ ∧
          (∀ i c, cs[i]? = some c → (i < k ↔ (cs.take i).flatMap Change.line ++ c.text <+: b)) ∧
          ∀ es, (∀ e ∈ es, e.Fair) →
            Desk.Gives .journal ⟨t.rows, true⟩ es ((Desk.opened (.of t)).outcomes .journal path es)) ∧
      ((∃ f d', openAt (V := V) .journal d path = (.error f, d') ∧ d'.read? path = some b) ∨
        ∃ t d', openAt (V := V) .journal d path = (.ok t, d') ∧
          (t.rows.Returns → ∃ t' d'', openAt .journal (d'.under .none) path = (.ok t', d'') ∧ t'.rows = t.rows)) := by
  constructor
  · intro rows appended cs hrows happended hcs hcut hcalm
    subst hcs
    have hall : ∀ c ∈ Journal.changesOf rows ++ appended, c.Returns := by
      intro c hc
      rcases List.mem_append.mp hc with hc | hc
      · exact Dict.All.changesOf hrows c hc
      · exact happended c hc
    rw [Journal.image_eq, ← List.flatMap_append] at hcut
    rcases openAt_cases (kept_of_cut hs hb hall hcut) d.trouble with ⟨t, d', ho, hstands, ht⟩ | ⟨-, hne, -⟩
    · have hmirrors : (Desk.opened (.of t)).Mirrors .journal path ⟨t.rows, true⟩ := ⟨rfl, rfl, rfl, hstands⟩
      exact ⟨_, t, d', ho, ht, fun i c hc => Journal.lt_whole_iff hcut hc, fun _ hes => hmirrors.gives hes⟩
    · exact absurd hcalm hne
  · rcases openAt_journal_cases (V := V) hs with ⟨t, d', ho, rfl, hstands⟩ | ⟨f, d', ho, hspared⟩
    · refine .inr ⟨t, t.disk, ho, fun hreturns => ?_⟩
      rcases openAt_cases (hstands hreturns).kept .none with ⟨t', d'', ho', -, ht'⟩ | ⟨-, hne, -⟩
      · exact ⟨t', d'', ho', ht'⟩
      · exact absurd Trouble.renews_none hne
    · exact .inl ⟨f, d', ho, hspared.read?.trans hb⟩

omit [Record V]

/-- Two messages were logged, the entry of the second without its last brace. -/
def tornRows : List (Change LogRow) :=
  [.put "m1" ⟨"m1", "page", "http://a", ⟨2024, 2, 29, 23, 59, 59, 120000000, by decide⟩, .stored, .epoch⟩,
    .put "m2" ⟨"m2", "page", "http://b", ⟨-1, 1, 1, 0, 0, 0, 0, by decide⟩, .received, .epoch⟩]

/-- The disk of a node that went down while it wrote these. -/
def tornDisk : Disk :=
  ⟨(Disk.root "data").names.insert "data/messages.journal" (.file 0),
    #[(tornRows.flatMap Change.line).dropLast.dropLast.toArray], .none⟩

/-- The first of the two messages is known when the node comes up again, and whenever it does after that. -/
theorem openAt_torn_rows :
    tornDisk.Site "data/messages.journal" ∧
      tornDisk.read? "data/messages.journal" = some (tornRows.flatMap Change.line).dropLast.dropLast ∧
      (∀ c ∈ tornRows, c.Returns) ∧ tornDisk.trouble.Renews ∧
      ∃ t d', openAt .journal tornDisk "data/messages.journal" = (.ok t, d') ∧
        t.rows = (tornRows.take 1).foldl Change.apply ∅ ∧
        ∃ t' d'', openAt .journal (d'.under .none) "data/messages.journal" = (.ok t', d'') ∧ t'.rows = t.rows := by
  have hsite : tornDisk.Site "data/messages.journal" := by
    refine ⟨by decide +kernel, by decide +kernel, by decide +kernel, by decide +kernel, by decide +kernel, ?_, ?_⟩
    · rintro n (hn | hn)
      · have hnode : tornDisk.names.get? "data/messages.journal" = some (.file 0) := by decide +kernel
        obtain rfl : 0 = n := by simpa [hnode] using hn
        exact Nat.one_pos
      · have hnone : tornDisk.names.get? (Path.temporary "data/messages.journal") = none := by decide +kernel
        simp [hnone] at hn
    · have hnone : tornDisk.names.get? (Path.temporary "data/messages.journal") = none := by decide +kernel
      simp [hnone]
  have hread : tornDisk.read? "data/messages.journal" = some (tornRows.flatMap Change.line).dropLast.dropLast := by
    decide +kernel
  have hreturns : ∀ c ∈ tornRows, c.Returns := by
    intro c _
    cases c with
    | put k v => exact v.returns
    | delete k => trivial
  have hrenews : tornDisk.trouble.Renews := Trouble.renews_none
  obtain ⟨k, t, d', ho, ht, hk, -⟩ := (openAt_of_cut hsite hread).1 ∅ tornRows tornRows .empty hreturns rfl
    ((List.dropLast_prefix _).trans (List.dropLast_prefix _)) hrenews
  have hfirst : 0 < k := (hk 0 _ rfl).mpr (by decide +kernel)
  have hsecond : ¬ 1 < k := mt (hk 1 _ rfl).mp (by decide +kernel)
  obtain rfl : k = 1 := by omega
  have hagain := (openAt_of_cut (V := LogRow) hsite hread).2
  rw [ho] at hagain
  rcases hagain with ⟨f, d₁, hf, -⟩ | ⟨t₁, d₁, ho₁, hagain⟩
  · cases hf
  · cases ho₁
    exact ⟨hsite, hread, hreturns, hrenews, t, d', ho, ht, hagain fun e _ => e.2.returns⟩

end Table

end ContentMesh
