import Mathlib.Data.Set.List
import ContentMesh.Http.Client
import ContentMesh.Http.Inbound
import ContentMesh.Proofs.Bytes.Percent
import ContentMesh.Proofs.Message.Metadata
import ContentMesh.Proofs.Questions

/-!
# ContentMesh.Proofs.Http.Headers — metadata and signatures come back from header lines

What carries a request may write the names of headers in another case, bring the names in another order, and add
headers of its own; the values of one name stay in order (`Http.Brings`).  From such lines a node reads the metadata
whose headers were sent, and the signature.
-/

namespace ContentMesh.Http

open Text

/-! ## Lines by name -/

theorem filter_flatMap {lines : HeaderLines} {names : List String} (h : names.Nodup) (name : String) :
    (names.flatMap fun n => lines.filter (·.1 == n)).filter (·.1 == name)
      = if name ∈ names then lines.filter (·.1 == name) else [] := by
  induction names with
  | nil => rfl
  | cons n names ih =>
    obtain ⟨hn, hnames⟩ := List.nodup_cons.mp h
    rw [List.flatMap_cons, List.filter_append, ih hnames, List.filter_filter]
    by_cases hname : name = n
    · subst hname
      rw [if_neg hn, if_pos List.mem_cons_self, List.append_nil]
      exact List.filter_congr fun l _ => Bool.and_self _
    · have hnone : lines.filter (fun l => l.1 == name && l.1 == n) = [] := by
        refine List.filter_eq_nil_iff.mpr fun l _ hl => hname ?_
        obtain ⟨h1, h2⟩ := Bool.and_eq_true_iff.mp hl
        exact (eq_of_beq h1).symm.trans (eq_of_beq h2)
      rw [hnone, List.nil_append]
      simp [hname]

/-- The lines with their names in lower case. -/
def loweredLines (lines : HeaderLines) : HeaderLines := lines.map fun l => (lower l.1, l.2)

theorem grouped_eq (lines : HeaderLines) : grouped lines =
    (Questions.distinct ((loweredLines lines).map (·.1))).flatMap fun name => (loweredLines lines).filter (·.1 == name) :=
  rfl

/-- Grouping keeps the lines of each name as they were. -/
theorem filter_grouped (lines : HeaderLines) (name : String) :
    (grouped lines).filter (·.1 == name) = (loweredLines lines).filter (·.1 == name) := by
  rw [grouped_eq, filter_flatMap (Questions.nodup_distinct _)]
  by_cases h : name ∈ Questions.distinct ((loweredLines lines).map (·.1))
  · rw [if_pos h]
  · rw [if_neg h, eq_comm, List.filter_eq_nil_iff]
    intro l hl hname
    exact h (Questions.mem_distinct.mpr (List.mem_map.mpr ⟨l, hl, eq_of_beq hname⟩))

theorem lookup_eq_head? {V : Type} (k : String) (es : List (String × V)) :
    es.lookup k = ((es.filter (·.1 == k)).map (·.2)).head? := by
  induction es with
  | nil => rfl
  | cons e es ih =>
    rw [Dict.lookup_cons]
    by_cases h : k = e.1
    · rw [if_pos h, List.filter_cons_of_pos (by simp [h])]
      rfl
    · rw [if_neg h, List.filter_cons_of_neg (by simp [Ne.symm h]), ih]

/-! ## Texts of visible characters -/

/-- A text of visible characters and blanks of ASCII. -/
def Visible (s : String) : Prop := ∀ c ∈ s.toList, 32 ≤ c.toNat ∧ c.toNat < 0x7F

theorem visible_encode (s : String) : Visible (Percent.encode s) := fun _ h =>
  ⟨Nat.le_of_lt (Percent.visible_of_mem_encode h).1, (Percent.visible_of_mem_encode h).2⟩

theorem Visible.headerText? {s : String} (h : Visible s) : headerText? (Bytes.ofText s) = some s := by
  have hbytes : Bytes.ofText s = s.toList.map fun c => c.toNat.toUInt8 :=
    Utf8.encode_ascii fun c hc => Nat.lt_succ_of_lt (h c hc).2
  have hnat : ∀ c ∈ s.toList, c.toNat.toUInt8.toNat = c.toNat := fun c hc =>
    Utf8.toNat_toUInt8 (Nat.lt_trans (h c hc).2 (by decide))
  have hall : (Bytes.ofText s).all (fun x => x == 9 || (32 ≤ x && x < 127)) = true := by
    rw [hbytes, List.all_map, List.all_eq_true]
    intro c hc
    obtain ⟨hlow, hhigh⟩ := h c hc
    have hc := hnat c hc
    simp only [Function.comp_apply, Bool.or_eq_true, Bool.and_eq_true, decide_eq_true_eq, UInt8.le_iff_toNat_le,
      UInt8.lt_iff_toNat_lt, hc]
    exact .inr ⟨hlow, hhigh⟩
  have hback : (Bytes.ofText s).map (fun x => Char.ofNat x.toNat) = s.toList := by
    rw [hbytes, List.map_map]
    refine (List.map_congr_left fun c hc => ?_).trans (List.map_id s.toList)
    rw [Function.comp_apply, hnat c hc, Char.ofNat_toNat, id]
  rw [Http.headerText?, if_pos hall, hback, String.ofList_toList]

theorem Visible.fits {s : String} (h : Visible s) : headerValueFits s = true := by
  refine List.all_eq_true.mpr fun c hc => ?_
  obtain ⟨hlow, hhigh⟩ := h c hc
  simp only [Bool.or_eq_true, Bool.and_eq_true, decide_eq_true_eq, bne_iff_ne]
  exact .inr ⟨hlow, by omega⟩

/-! ## Names -/

/-- The name under which the header of a metadata name arrives. -/
def arriving (name : String) : String := metadataMark ++ lower (Percent.encode (lower name))

theorem lower_metadataHeader (name value : String) : lower (metadataHeader name value).1 = arriving name := by
  rw [metadataHeader, lower_append, arriving]
  rfl

theorem unmarked?_mark (s : String) : unmarked? (metadataMark ++ s) = some s := by
  have hprefix : metadataMark.toList.isPrefixOf (metadataMark ++ s).toList = true := by
    rw [List.isPrefixOf_iff_prefix, String.toList_append]
    exact List.prefix_append _ _
  rw [unmarked?, if_pos hprefix, String.toList_append, List.drop_left, String.ofList_toList]

theorem decodeMetadata_name (name : String) : decodeMetadata (lower (Percent.encode (lower name))) = .ok (lower name) := by
  rw [decodeMetadata, Percent.decode_lower_encode, Bytes.text?_ofText]

theorem decodeMetadata_encode (value : String) : decodeMetadata (Percent.encode value) = .ok value := by
  rw [decodeMetadata, Percent.decode_encode, Bytes.text?_ofText]

/-- Names arrive under one header only if they are the same but for case. -/
theorem arriving_inj {m n : String} (h : arriving m = arriving n) : lower m = lower n := by
  have hname := congrArg unmarked? h
  rw [arriving, arriving, unmarked?_mark, unmarked?_mark] at hname
  have hdecoded := decodeMetadata_name m
  rw [Option.some.inj hname, decodeMetadata_name n] at hdecoded
  exact (Except.ok.inj hdecoded).symm

theorem arriving_ne_signature (name : String) : arriving name ≠ signatureHeader := by
  intro h
  have hnone : unmarked? signatureHeader = none := by decide
  rw [← h, arriving, unmarked?_mark] at hnone
  cases hnone

/-! ## Reading metadata -/

/-- The line of a metadata value as it arrives. -/
def arrivingLine (p : String × String) : String × Bytes := (arriving p.1, Bytes.ofText (Percent.encode p.2))

theorem arrivingLine_eq (p : String × String) :
    arrivingLine p = (lower (metadataHeader p.1 p.2).1, Bytes.ofText (metadataHeader p.1 p.2).2) := by
  rw [lower_metadataHeader]
  rfl

/-- What one line adds to the metadata read so far. -/
def readLine (m : Metadata) (l : String × Bytes) : Except Failure Metadata :=
  match unmarked? l.1 with
  | none => .ok m
  | some name => do
    let name ← decodeMetadata name
    match headerText? l.2 with
    | none => .error (.invalid (.opaqueValue name))
    | some value => return m.add name (← decodeMetadata value)

/-- What gives a result gives one at every step. -/
theorem ok_of_bind {α β : Type} {x : Except Failure α} {f : α → Except Failure β} {b : β} (h : x >>= f = .ok b) :
    ∃ a, x = .ok a ∧ f a = .ok b := by
  cases x with
  | ok a => exact ⟨a, rfl, h⟩
  | error e => cases h

theorem metadataOf_eq (lines : HeaderLines) : metadataOf lines = (grouped lines).foldlM readLine ∅ := rfl

theorem readLine_arriving (m : Metadata) (p : String × String) :
    readLine m (arrivingLine p) = .ok (m.add (lower p.1) p.2) := by
  rw [readLine, arrivingLine, arriving]
  dsimp only
  rw [unmarked?_mark]
  dsimp only
  rw [decodeMetadata_name, (visible_encode p.2).headerText?]
  simp only [bind, Except.bind, decodeMetadata_encode]
  rfl

/-- Whether a line is one of metadata. -/
def marked (l : String × Bytes) : Bool := (unmarked? l.1).isSome

theorem foldlM_marked (lines : HeaderLines) (m : Metadata) :
    lines.foldlM readLine m = (lines.filter marked).foldlM readLine m := by
  have hstep : ∀ m l, (if marked l = true then readLine m l else pure m) = readLine m l := by
    intro m l
    by_cases hl : marked l = true
    · rw [if_pos hl]
    · have hnone : unmarked? l.1 = none := Option.not_isSome_iff_eq_none.mp hl
      rw [if_neg hl, readLine, hnone]
      rfl
  simp only [List.foldlM_filter, hstep]

theorem foldlM_arriving (ps : List (String × String)) (m : Metadata) :
    (ps.map arrivingLine).foldlM readLine m = .ok ((ps.map fun p => (lower p.1, p.2)).foldl (fun m p => m.add p.1 p.2) m) := by
  induction ps generalizing m with
  | nil => rfl
  | cons p ps ih =>
    rw [List.map_cons, List.foldlM_cons, readLine_arriving]
    exact ih _

/-! ## What arrives -/

/-- The lines bring the headers that were sent: under the names that messages use, in whatever case, the values stand
in order.  Names may come in any order, and other lines may stand among them. -/
def Brings (sent : List (String × String)) (lines : HeaderLines) : Prop :=
  ∀ name, (unmarked? name).isSome ∨ name = signatureHeader →
    (lines.filter (lower ·.1 == name)).map (·.2) = (sent.filter (lower ·.1 == name)).map fun h => Bytes.ofText h.2

/-- Lines that are the headers as they were sent bring them. -/
theorem brings_sent (sent : List (String × String)) : Brings sent (sent.map fun h => (h.1, Bytes.ofText h.2)) := by
  intro name _
  rw [List.filter_map, List.map_map]
  rfl

theorem Brings.grouped {sent : List (String × String)} {lines : HeaderLines} (h : Brings sent lines) {name : String}
    (hname : (unmarked? name).isSome ∨ name = signatureHeader) : ((Http.grouped lines).filter (·.1 == name)).map (·.2)
      = (sent.filter (lower ·.1 == name)).map fun h => Bytes.ofText h.2 := by
  rw [filter_grouped, loweredLines, List.filter_map, List.map_map]
  exact h name hname

theorem marked_arriving (name : String) : (unmarked? (arriving name)).isSome := by
  rw [arriving, unmarked?_mark]
  rfl

theorem lower_signatureHeader : lower signatureHeader = signatureHeader := by decide

theorem unmarked?_signatureHeader : unmarked? signatureHeader = none := by decide

/-- Every line of metadata brings a pair that was sent. -/
theorem Brings.arrivingLine {m : Metadata} {signature : Option String} {lines : HeaderLines}
    (h : Brings (messageHeaders m signature) lines) {l : String × Bytes} (hl : l ∈ Http.grouped lines)
    (hmarked : marked l = true) : ∃ p, Http.arrivingLine p = l := by
  have hvalue : l.2 ∈ ((Http.grouped lines).filter (·.1 == l.1)).map (·.2) :=
    List.mem_map_of_mem (List.mem_filter.mpr ⟨hl, beq_self_eq_true _⟩)
  rw [h.grouped (.inl hmarked)] at hvalue
  obtain ⟨s, hs, hvalue⟩ := List.mem_map.mp hvalue
  obtain ⟨hs, hname⟩ := List.mem_filter.mp hs
  have hname : lower s.1 = l.1 := eq_of_beq hname
  rcases List.mem_append.mp hs with hs | hs
  · obtain ⟨p, -, rfl⟩ := List.mem_map.mp hs
    exact ⟨p, by rw [arrivingLine_eq, hname, hvalue]⟩
  · obtain ⟨t, -, rfl⟩ : ∃ t, signature = some t ∧ (signatureHeader, t) = s := by simpa using hs
    rw [marked, ← hname, lower_signatureHeader, unmarked?_signatureHeader] at hmarked
    cases hmarked

/-- A value as it arrives. -/
def arrivingValue (value : String) : Bytes := Bytes.ofText (Percent.encode value)

theorem arrivingValue_inj {v w : String} (h : arrivingValue v = arrivingValue w) : v = w := by
  have hdecoded := decodeMetadata_encode v
  rw [Bytes.ofText_inj h, decodeMetadata_encode w] at hdecoded
  exact (Except.ok.inj hdecoded).symm

/-- The lines of pairs bring, under the header of a name, the values of that name. -/
theorem values_arriving (ps : List (String × String)) (name : String) :
    ((ps.map arrivingLine).filter (·.1 == arriving name)).map (·.2)
      = ((ps.filter (lower ·.1 == lower name)).map (·.2)).map arrivingValue := by
  have hsame : ∀ p : String × String, (arriving p.1 == arriving name) = (lower p.1 == lower name) := by
    intro p
    rw [Bool.eq_iff_iff, beq_iff_eq, beq_iff_eq]
    exact ⟨arriving_inj, fun h => by rw [arriving, arriving, h]⟩
  rw [List.filter_map, List.map_map, List.map_map]
  simp only [Function.comp_def, Http.arrivingLine, hsame]
  rfl

theorem values_sent (m : Metadata) (signature : Option String) (name : String) :
    ((messageHeaders m signature).filter (lower ·.1 == arriving name)).map (fun h => Bytes.ofText h.2)
      = (m.under name).map arrivingValue := by
  have hsignature : ((signature.map fun s => (signatureHeader, s)).toList.filter (lower ·.1 == arriving name)) = [] := by
    refine List.filter_eq_nil_iff.mpr fun h hh he => ?_
    obtain ⟨s, -, rfl⟩ : ∃ s, signature = some s ∧ (signatureHeader, s) = h := by simpa using hh
    rw [beq_iff_eq, lower_signatureHeader] at he
    exact arriving_ne_signature name he.symm
  rw [messageHeaders, List.filter_append, hsignature, List.append_nil, List.filter_map, List.map_map, Metadata.under_eq,
    ← values_arriving, List.filter_map, List.map_map]
  simp only [Function.comp_def, arrivingLine_eq]

/-- What is read is metadata with the values that were sent under every name. -/
theorem Brings.metadata {m : Metadata} {signature : Option String} {lines : HeaderLines}
    (h : Brings (messageHeaders m signature) lines) :
    ∃ r, metadataOf lines = .ok r ∧ r.Kept ∧ ∀ name, r.under name = m.under name := by
  obtain ⟨ps, hps⟩ : (Http.grouped lines).filter marked ∈ Set.range (List.map Http.arrivingLine) := by
    rw [Set.range_list_map]
    intro l hl
    exact h.arrivingLine (List.mem_filter.mp hl).1 (List.mem_filter.mp hl).2
  have hkept := Metadata.kept_foldl (ps.map fun p => (lower p.1, p.2)) Metadata.kept_empty
  refine ⟨_, ?_, hkept, fun name => ?_⟩
  · rw [metadataOf_eq, foldlM_marked, ← hps, foldlM_arriving]
  · have hread : (ps.filter (lower ·.1 == lower name)).map (·.2) = m.under name := by
      -- what is known to be alike are the lines, so the values are compared as they arrive
      refine (List.map_inj_right fun _ _ => arrivingValue_inj).mp ?_
      rw [← values_arriving, hps, ← values_sent m signature, ← h.grouped (.inl (marked_arriving name)),
        List.filter_filter]
      refine congrArg _ (List.filter_congr fun l _ => ?_)
      by_cases hl : l.1 = arriving name
      · rw [marked, hl, marked_arriving, Bool.and_true]
      · rw [beq_eq_false_iff_ne.mpr hl, Bool.false_and]
    rw [← hkept.getAll, Metadata.getAll_foldl, Metadata.getAll_empty, List.nil_append, List.filter_map, List.map_map,
      ← hread]
    simp only [Function.comp_def, lower_lower]

/-- The signature that is read is the one that was sent. -/
theorem Brings.signature {m : Metadata} {signature : Option String} {lines : HeaderLines}
    (h : Brings (messageHeaders m signature) lines) (hs : ∀ s ∈ signature, Visible s) : signatureOf lines = signature := by
  have hmetadata : (m.pairs.map fun p => metadataHeader p.1 p.2).filter (lower ·.1 == signatureHeader) = [] := by
    refine List.filter_eq_nil_iff.mpr fun l hl he => ?_
    obtain ⟨p, -, rfl⟩ := List.mem_map.mp hl
    rw [lower_metadataHeader, beq_iff_eq] at he
    exact arriving_ne_signature p.1 he
  rw [signatureOf, lookup_eq_head?, h.grouped (.inr rfl), messageHeaders, List.filter_append, hmetadata, List.nil_append]
  cases signature with
  | none => rfl
  | some s =>
    simp only [Option.map_some, Option.toList_some, List.filter_cons, lower_signatureHeader, beq_self_eq_true, if_true,
      List.filter_nil, List.map_cons, List.map_nil, List.head?_cons, Option.bind_some]
    exact (hs s rfl).headerText?

end ContentMesh.Http
