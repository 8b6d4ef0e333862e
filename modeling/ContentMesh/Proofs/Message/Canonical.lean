import ContentMesh.Proofs.Bytes.Utf8
import ContentMesh.Proofs.Calendar.Written
import ContentMesh.Proofs.Message.Metadata
import ContentMesh.Proofs.Message.Signing
import ContentMesh.Proofs.Text.Pieces

/-!
# ContentMesh.Proofs.Message.Canonical — what a signature says about a parcel

The canonical bytes are lines and then the body.  Where no text of the header holds the mark that ends it, the lines
give the header back; but nothing says how many of them are metadata.  So two parcels are signed alike if they mean
the same, or if one has in its body, as lines, the last of the other's metadata (`Parcel.canonical_binds`).
-/

namespace ContentMesh

open Text

namespace Parcel

/-! ## Metadata in canonical order -/

theorem pairLe_iff {a b : String × String} : pairLe a b = true ↔ a.1 < b.1 ∨ a.1 = b.1 ∧ a.2 ≤ b.2 := by
  simp only [pairLe, Bool.or_eq_true, Bool.and_eq_true, decide_eq_true_eq, beq_iff_eq, Bool.not_eq_true',
    decide_eq_false_iff_not, String.not_lt]

theorem pairLe_trans (a b c : String × String) (hab : pairLe a b = true) (hbc : pairLe b c = true) :
    pairLe a c = true := by
  rw [pairLe_iff] at hab hbc ⊢
  rcases hab with hab | ⟨hab, hab'⟩ <;> rcases hbc with hbc | ⟨hbc, hbc'⟩
  · exact .inl (String.lt_trans hab hbc)
  · exact .inl (hbc ▸ hab)
  · exact .inl (hab ▸ hbc)
  · exact .inr ⟨hab.trans hbc, String.le_trans hab' hbc'⟩

theorem pairLe_total (a b : String × String) : (pairLe a b || pairLe b a) = true := by
  rw [Bool.or_eq_true, pairLe_iff, pairLe_iff]
  by_cases h : a.1 < b.1
  · exact .inl (.inl h)
  by_cases h' : b.1 < a.1
  · exact .inr (.inl h')
  have he : a.1 = b.1 := Dict.eq_of_not_lt h h'
  exact (String.le_total a.2 b.2).imp (fun h => .inr ⟨he, h⟩) fun h => .inr ⟨he.symm, h⟩

theorem pairLe_antisymm {a b : String × String} (hab : pairLe a b = true) (hba : pairLe b a = true) : a = b := by
  rw [pairLe_iff] at hab hba
  rcases hab with hab | ⟨hab, hab'⟩ <;> rcases hba with hba | ⟨hba, hba'⟩
  · exact absurd hba (String.lt_asymm hab)
  · exact absurd hab (hba ▸ String.lt_irrefl _)
  · exact absurd hba (hab ▸ String.lt_irrefl _)
  · exact Prod.ext hab (String.le_antisymm hab' hba')

theorem canonicalPairs_perm (m : Metadata) : (canonicalPairs m).Perm m.lowered := List.mergeSort_perm _ _

/-- The canonical order forgets in which order the pairs stand, and only that. -/
theorem canonicalPairs_eq_iff {m n : Metadata} : canonicalPairs m = canonicalPairs n ↔ m.lowered.Perm n.lowered := by
  constructor
  · intro h
    exact (canonicalPairs_perm m).symm.trans (h ▸ canonicalPairs_perm n)
  · intro h
    have hperm := (canonicalPairs_perm m).trans (h.trans (canonicalPairs_perm n).symm)
    exact hperm.eq_of_pairwise (fun _ _ _ _ => pairLe_antisymm) (List.pairwise_mergeSort pairLe_trans pairLe_total _)
      (List.pairwise_mergeSort pairLe_trans pairLe_total _)

/-! ## Lines -/

/-- The line of a metadata pair. -/
def pairLine (m : String × String) : Bytes := line (m.1 ++ "=" ++ m.2)

theorem newline_mem_ofText {s : String} : (10 : UInt8) ∈ Bytes.ofText s ↔ '\n' ∈ s.toList :=
  Utf8.mem_encode_ascii (c := '\n') (by decide)

theorem line_append_inj {s t : String} {r r' : Bytes} (hs : '\n' ∉ s.toList) (ht : '\n' ∉ t.toList)
    (h : line s ++ r = line t ++ r') : s = t ∧ r = r' := by
  rw [line, line, List.append_assoc, List.append_assoc] at h
  obtain ⟨hst, hr⟩ := cut_inj (mt newline_mem_ofText.mp hs) (mt newline_mem_ofText.mp ht) h
  exact ⟨Bytes.ofText_inj hst, hr⟩

/-- A pair can be read off its line: no newline in it and no equals sign in its name. -/
def PlainPair (m : String × String) : Prop := '\n' ∉ m.1.toList ∧ '=' ∉ m.1.toList ∧ '\n' ∉ m.2.toList

instance (m : String × String) : Decidable (PlainPair m) := by
  unfold PlainPair
  infer_instance

theorem pairLine_append_inj {m n : String × String} {r r' : Bytes} (hm : PlainPair m) (hn : PlainPair n)
    (h : pairLine m ++ r = pairLine n ++ r') : m = n ∧ r = r' := by
  have hline : ∀ {m : String × String}, PlainPair m → '\n' ∉ (m.1 ++ "=" ++ m.2).toList := by
    intro m hm
    simpa using ⟨hm.1, hm.2.2⟩
  obtain ⟨htext, hr⟩ := line_append_inj (hline hm) (hline hn) h
  have hlist := congrArg String.toList htext
  simp only [String.toList_append, List.append_assoc] at hlist
  obtain ⟨hname, hvalue⟩ := cut_inj hm.2.1 hn.2.1 hlist
  exact ⟨Prod.ext (String.toList_inj.mp hname) (String.toList_inj.mp hvalue), hr⟩

/-- Lines of pairs before bodies: one list of pairs begins the other, and what it lacks begins the body after it. -/
theorem pairLines_append {ms ns : List (String × String)} {b c : Bytes} (hms : ∀ m ∈ ms, PlainPair m)
    (hns : ∀ n ∈ ns, PlainPair n) (h : ms.flatMap pairLine ++ b = ns.flatMap pairLine ++ c) :
    (∃ extra, ms = ns ++ extra ∧ c = extra.flatMap pairLine ++ b) ∨
      ∃ extra, ns = ms ++ extra ∧ b = extra.flatMap pairLine ++ c := by
  induction ms generalizing ns with
  | nil => exact .inr ⟨ns, rfl, h⟩
  | cons m ms ih =>
    cases ns with
    | nil => exact .inl ⟨m :: ms, rfl, h.symm⟩
    | cons n ns =>
      simp only [List.flatMap_cons, List.append_assoc] at h
      obtain ⟨rfl, hrest⟩ := pairLine_append_inj (hms _ List.mem_cons_self) (hns _ List.mem_cons_self) h
      rcases ih (fun x hx => hms x (List.mem_cons_of_mem _ hx)) (fun x hx => hns x (List.mem_cons_of_mem _ hx)) hrest
        with ⟨extra, rfl, hc⟩ | ⟨extra, rfl, hb⟩
      · exact .inl ⟨extra, rfl, hc⟩
      · exact .inr ⟨extra, rfl, hb⟩

/-! ## Fields -/

theorem newline_notMem_date (s : Stamp) : '\n' ∉ (Rfc3339.text s).toList := by
  have hdigits : ∀ w n, '\n' ∉ padded w n := fun w n h => absurd (digit_of_mem_padded w n h) (by decide)
  have hyear : '\n' ∉ Rfc3339.yearText s.year := by
    unfold Rfc3339.yearText
    by_cases hy : 0 ≤ s.year ∧ s.year ≤ 9999
    · rw [if_pos hy]
      exact hdigits 4 _
    · rw [if_neg hy]
      have hlong := (Rfc3339.longYear s.year.natAbs).1
      exact List.not_mem_cons_of_ne_of_not_mem (by split <;> decide) fun h => absurd (hlong _ h) (by decide)
  have hfraction : '\n' ∉ Rfc3339.fractionText (s.nano % 1000000000) := by
    rcases Rfc3339.fractionText_cases (Nat.mod_lt s.nano (by omega : 1000000000 > 0)) with ⟨-, hf⟩ | ⟨k, m, -, -, -, -, hf⟩
    · rw [hf]
      exact List.not_mem_nil
    · rw [hf]
      exact List.not_mem_cons_of_ne_of_not_mem (by decide) (hdigits k m)
  rw [Rfc3339.toList_text]
  simp [hdigits, hyear, hfraction]

/-- A receiver can be read off the list: it is not empty and holds neither newline nor comma. -/
def PlainReceiver (r : String) : Prop := r ≠ "" ∧ '\n' ∉ r.toList ∧ ',' ∉ r.toList

instance (r : String) : Decidable (PlainReceiver r) := by
  unfold PlainReceiver
  infer_instance

theorem toList_commas (rs : List String) :
    (",".intercalate rs).toList = [','].intercalate (rs.map String.toList) := String.toList_intercalate

theorem newline_notMem_commas {rs : List String} (h : ∀ r ∈ rs, PlainReceiver r) :
    '\n' ∉ (",".intercalate rs).toList := by
  rw [toList_commas]
  intro hm
  rcases mem_of_mem_intercalate hm with hcomma | ⟨cs, hcs, hc⟩
  · exact absurd hcomma (by decide)
  · obtain ⟨r, hr, rfl⟩ := List.mem_map.mp hcs
    exact (h r hr).2.1 hc

/-- A list with commas gives its texts back. -/
theorem splitOn_commas {rs : List String} (hne : rs ≠ []) (h : ∀ r ∈ rs, ',' ∉ r.toList) :
    (",".intercalate rs).toList.splitOn ',' = rs.map String.toList := by
  rw [toList_commas]
  refine List.splitOn_intercalate ',' (fun cs hcs => ?_) fun hnil => hne (List.map_eq_nil_iff.mp hnil)
  obtain ⟨r, hr, rfl⟩ := List.mem_map.mp hcs
  exact h r hr

theorem commas_ne_empty {rs : List String} (hne : rs ≠ []) (h : ∀ r ∈ rs, PlainReceiver r) :
    ",".intercalate rs ≠ "" := by
  intro he
  have hsplit := splitOn_commas hne fun r hr => (h r hr).2.2
  rw [he] at hsplit
  have hmem : ([] : List Char) ∈ rs.map String.toList := hsplit ▸ List.mem_singleton_self []
  obtain ⟨r, hr, hnil⟩ := List.mem_map.mp hmem
  exact (h r hr).1 (String.toList_inj.mp hnil)

theorem commas_inj {rs ss : List String} (hr : ∀ r ∈ rs, PlainReceiver r) (hs : ∀ s ∈ ss, PlainReceiver s)
    (h : ",".intercalate rs = ",".intercalate ss) : rs = ss := by
  by_cases hrs : rs = []
  · by_cases hss : ss = []
    · rw [hrs, hss]
    · exact absurd (h.symm.trans (by rw [hrs]; rfl)) (commas_ne_empty hss hs)
  · by_cases hss : ss = []
    · exact absurd (h.trans (by rw [hss]; rfl)) (commas_ne_empty hrs hr)
    · have hsplit := splitOn_commas hrs fun r h => (hr r h).2.2
      rw [h, splitOn_commas hss fun s h => (hs s h).2.2] at hsplit
      exact (List.map_inj_right fun _ _ => String.toList_inj.mp).mp hsplit.symm

/-! ## Parcels -/

/-- No text of the header holds the mark that ends it on its line. -/
structure Plain (p : Parcel) : Prop where
  id : '\n' ∉ p.header.id.toList
  kind : '\n' ∉ p.header.kind.toList
  source : '\n' ∉ p.header.source.toList
  receivers : ∀ r ∈ p.header.receivers, PlainReceiver r
  metadata : ∀ m ∈ p.header.metadata.lowered, PlainPair m

/-- Two parcels agree in everything but metadata and body. -/
structure SameFields (p q : Parcel) : Prop where
  id : p.header.id = q.header.id
  kind : p.header.kind = q.header.kind
  source : p.header.source = q.header.source
  date : p.header.date = q.header.date
  receivers : p.header.receivers = q.header.receivers

/-- Two parcels mean the same: the case of names and the order of the metadata do not matter. -/
structure SameMeaning (p q : Parcel) : Prop extends SameFields p q where
  metadata : p.header.metadata.lowered.Perm q.header.metadata.lowered
  body : p.body = q.body

/-- One parcel has in its body, as lines before what is in it, the last of the metadata of the other. -/
structure Spilt (p q : Parcel) (extra : List (String × String)) : Prop extends SameFields p q where
  metadata : canonicalPairs p.header.metadata = canonicalPairs q.header.metadata ++ extra
  body : q.body = extra.flatMap pairLine ++ p.body

theorem canonical_eq (p : Parcel) : p.canonical = line p.header.id ++ (line p.header.kind ++ (line p.header.source ++
    (line (Rfc3339.text p.header.date) ++ (line (",".intercalate p.header.receivers) ++
      ((canonicalPairs p.header.metadata).flatMap pairLine ++ p.body))))) := by
  simp only [canonical, List.flatMap_cons, List.flatMap_nil, List.append_nil, List.append_assoc]
  rfl

theorem SameMeaning.canonical {p q : Parcel} (h : p.SameMeaning q) : p.canonical = q.canonical := by
  rw [canonical_eq, canonical_eq, h.id, h.kind, h.source, h.date, h.receivers, h.body,
    canonicalPairs_eq_iff.mpr h.metadata]

theorem Spilt.canonical {p q : Parcel} {extra : List (String × String)} (h : p.Spilt q extra) :
    p.canonical = q.canonical := by
  rw [canonical_eq, canonical_eq, h.id, h.kind, h.source, h.date, h.receivers, h.body, h.metadata,
    List.flatMap_append, List.append_assoc]

/-- What is signed alike means the same, or metadata of the one begins the body of the other. -/
theorem canonical_binds {p q : Parcel} (hp : p.Plain) (hq : q.Plain) : p.canonical = q.canonical ↔
    p.SameMeaning q ∨ ∃ extra ≠ [], p.Spilt q extra ∨ q.Spilt p extra := by
  constructor
  · intro h
    rw [canonical_eq, canonical_eq] at h
    obtain ⟨hid, h⟩ := line_append_inj hp.id hq.id h
    obtain ⟨hkind, h⟩ := line_append_inj hp.kind hq.kind h
    obtain ⟨hsource, h⟩ := line_append_inj hp.source hq.source h
    obtain ⟨hdate, h⟩ := line_append_inj (newline_notMem_date _) (newline_notMem_date _) h
    obtain ⟨hreceivers, h⟩ := line_append_inj (newline_notMem_commas hp.receivers) (newline_notMem_commas hq.receivers) h
    have hfields : p.SameFields q :=
      ⟨hid, hkind, hsource, Rfc3339.text_inj hdate, commas_inj hp.receivers hq.receivers hreceivers⟩
    have hfields' : q.SameFields p := ⟨hid.symm, hkind.symm, hsource.symm, hfields.date.symm, hfields.receivers.symm⟩
    have hpairs : ∀ {p : Parcel}, p.Plain → ∀ m ∈ canonicalPairs p.header.metadata, PlainPair m :=
      fun hp m hm => hp.metadata m ((canonicalPairs_perm _).mem_iff.mp hm)
    -- the fields are cut off, and nothing in what is left says where the metadata ends and the body begins
    rcases pairLines_append (hpairs hp) (hpairs hq) h with ⟨extra, hmeta, hbody⟩ | ⟨extra, hmeta, hbody⟩
    · by_cases hextra : extra = []
      · subst hextra
        rw [List.append_nil] at hmeta
        exact .inl ⟨hfields, canonicalPairs_eq_iff.mp hmeta, hbody.symm⟩
      · exact .inr ⟨extra, hextra, .inl ⟨hfields, hmeta, hbody⟩⟩
    · by_cases hextra : extra = []
      · subst hextra
        rw [List.append_nil] at hmeta
        exact .inl ⟨hfields, canonicalPairs_eq_iff.mp hmeta.symm, hbody⟩
      · exact .inr ⟨extra, hextra, .inr ⟨hfields', hmeta, hbody⟩⟩
  · rintro (h | ⟨extra, -, h | h⟩)
    · exact h.canonical
    · exact h.canonical
    · exact h.canonical.symm

/-- A parcel that names the entity it is about. -/
def tagged : Parcel := ⟨⟨"m1", .epoch, "update", "http://a", [], Metadata.ofPairs [("Entity", "wiki:main")]⟩, none, []⟩

/-- A parcel that names none, with that line in its body. -/
def untagged : Parcel := ⟨⟨"m1", .epoch, "update", "http://a", [], ∅⟩, none, Bytes.ofText "entity=wiki:main\n"⟩

theorem tagged_spilt : tagged.Spilt untagged [("entity", "wiki:main")] := by
  refine ⟨⟨rfl, rfl, rfl, rfl, rfl⟩, ?_, by decide⟩
  have hpairs : tagged.header.metadata.lowered = [("entity", "wiki:main")] := by decide
  have hnone : untagged.header.metadata.lowered = [] := by decide
  have hcanonical : canonicalPairs tagged.header.metadata = tagged.header.metadata.lowered.mergeSort pairLe := rfl
  have hcanonical' : canonicalPairs untagged.header.metadata = untagged.header.metadata.lowered.mergeSort pairLe := rfl
  rw [hcanonical, hcanonical', hpairs, hnone, List.mergeSort_singleton, List.mergeSort_nil, List.nil_append]

theorem canonical_binds_tagged : tagged.Plain ∧ untagged.Plain ∧ tagged.canonical = untagged.canonical := by
  have htagged : tagged.Plain := ⟨by decide, by decide, by decide, by decide, by decide⟩
  have huntagged : untagged.Plain := ⟨by decide, by decide, by decide, by decide, by decide⟩
  exact ⟨htagged, huntagged, (canonical_binds htagged huntagged).mpr (.inr ⟨_, by decide, .inl tagged_spilt⟩)⟩

/-- One signature holds for both under every key, though they differ in metadata and body. -/
theorem canonical_ambiguous : tagged.canonical = untagged.canonical ∧ ¬ tagged.SameMeaning untagged ∧
    ∀ key, Signer.keyed.verify (some key) untagged (some (tagged.signature key)) = .ok () := by
  have hsame : tagged.canonical = untagged.canonical := tagged_spilt.canonical
  refine ⟨hsame, fun h => absurd h.body (by decide), fun key => ?_⟩
  have htag : tagged.tag key = untagged.tag key := by rw [tag, tag, hsame]
  simp only [Signer.verify, signature, Hex.decode_encode, htag, if_true]

end Parcel

end ContentMesh
