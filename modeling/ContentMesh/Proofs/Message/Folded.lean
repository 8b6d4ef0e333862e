import ContentMesh.Message.Log
import ContentMesh.Message.Signature
import ContentMesh.Proofs.Message.Metadata
import ContentMesh.Proofs.Peer.Registered

/-!
# ContentMesh.Proofs.Message.Folded — messages up to the case of the names of their metadata

A message is folded by writing the names of its metadata in lower case.  That changes nothing that is looked up in it,
nothing that is logged of it and nothing that is signed.  Metadata that was made by adding and setting has the same
values under every name exactly as other metadata if the two fold to the same (`Metadata.Formed.folded_eq`).
-/

namespace ContentMesh

namespace Dict

variable {V W : Type}

theorem map_insert (f : V → W) (d : Dict V) (k : String) (v : V) : (d.insert k v).map f = (d.map f).insert k (f v) := by
  refine ext_get? fun j => ?_
  rw [get?_map, get?_insert, get?_insert, get?_map]
  split <;> rfl

theorem map_erase (f : V → W) (d : Dict V) (k : String) : (d.erase k).map f = (d.map f).erase k := by
  refine ext_get? fun j => ?_
  rw [get?_map, get?_erase, get?_erase, get?_map]
  split <;> rfl

end Dict

namespace Metadata

open Text

/-! ## Metadata as it is made -/

/-- Metadata as adding, setting and erasing make it: every entry stands under its spelling in lower case, and has some
value. -/
structure Formed (m : Metadata) : Prop where
  kept : m.Kept
  valued : ∀ k e, m.entries.get? k = some e → e.values ≠ []

variable {m n : Metadata}

theorem formed_empty : (∅ : Metadata).Formed := ⟨kept_empty, nofun⟩

theorem Formed.insert (h : m.Formed) {name : String} {e : MetadataEntry} (hkept : Kept ⟨m.entries.insert (lower name) e⟩)
    (he : e.values ≠ []) : Formed ⟨m.entries.insert (lower name) e⟩ := by
  refine ⟨hkept, fun k e' hk => ?_⟩
  rw [Dict.get?_insert] at hk
  by_cases hname : k = lower name
  · rw [if_pos hname] at hk
    rwa [← Option.some.inj hk]
  · rw [if_neg hname] at hk
    exact h.valued k e' hk

theorem Formed.add (h : m.Formed) (name value : String) : (m.add name value).Formed :=
  h.insert (h.kept.add name value) (by simp)

theorem Formed.set (h : m.Formed) (name value : String) : (m.set name value).Formed :=
  h.insert (h.kept.set name value) (by simp)

theorem Formed.erase (h : m.Formed) (name : String) : (m.erase name).Formed := by
  refine ⟨fun e he => h.kept e (List.mem_filter.mp he).1, fun k e hk => ?_⟩
  have hk : (m.entries.erase (lower name)).get? k = some e := hk
  rw [Dict.get?_erase] at hk
  by_cases hname : k = lower name
  · rw [if_pos hname] at hk
    cases hk
  · rw [if_neg hname] at hk
    exact h.valued k e hk

theorem formed_ofPairs (ps : List (String × String)) : (ofPairs ps).Formed := by
  suffices h : ∀ m : Metadata, m.Formed → (ps.foldl (fun m p => m.add p.1 p.2) m).Formed from h ∅ formed_empty
  induction ps with
  | nil => exact fun m hm => hm
  | cons p ps ih => exact fun m hm => ih _ (hm.add p.1 p.2)

/-! ## Folding -/

/-- The entry with its name in lower case. -/
def foldedEntry (e : MetadataEntry) : MetadataEntry := { e with spelling := lower e.spelling }

/-- The metadata with its names in lower case. -/
def folded (m : Metadata) : Metadata := ⟨m.entries.map foldedEntry⟩

@[simp] theorem getAll_folded (m : Metadata) (name : String) : m.folded.getAll name = m.getAll name := by
  unfold getAll entry? folded
  rw [Dict.get?_map, Option.map_map]
  rfl

@[simp] theorem first?_folded (m : Metadata) (name : String) : m.folded.first? name = m.first? name := by
  rw [first?, getAll_folded, first?]

theorem lowered_folded (m : Metadata) : m.folded.lowered = m.lowered := by
  simp only [lowered_eq, folded, Dict.map, foldedEntry, List.flatMap_map, lower_lower]

/-- The entry of a name, by the values that are looked up under it. -/
theorem Formed.get?_folded (h : m.Formed) (k : String) :
    m.folded.entries.get? k =
      if lower k = k ∧ m.getAll k ≠ [] then some ⟨k, m.getAll k⟩ else none := by
  have hfolded : m.folded.entries.get? k = (m.entries.get? k).map foldedEntry := Dict.get?_map _ _ _
  rw [hfolded]
  cases he : m.entries.get? k with
  | none =>
    refine (if_neg fun hk => hk.2 ?_).symm
    rw [getAll, entry?, hk.1, he]
    rfl
  | some e =>
    have hspelling : lower e.spelling = k := h.kept.spelling he
    have hlower : lower k = k := by rw [← hspelling, lower_lower]
    have hvalues : m.getAll k = e.values := by
      rw [getAll, entry?, hlower, he]
      rfl
    rw [hvalues, if_pos ⟨hlower, h.valued k e he⟩, Option.map_some, foldedEntry, hspelling]

/-- Metadata with the same values under every name is the same up to the case of names. -/
theorem Formed.folded_eq (hm : m.Formed) (hn : n.Formed) (h : ∀ name, m.getAll name = n.getAll name) :
    m.folded = n.folded := by
  have hentries : m.folded.entries = n.folded.entries := by
    refine Dict.ext_get? fun k => ?_
    rw [hm.get?_folded, hn.get?_folded, h k]
  rw [folded, folded]
  exact congrArg Metadata.mk hentries

end Metadata

/-! ## Messages -/

/-- The header with the names of its metadata in lower case. -/
def Header.folded (h : Header) : Header := { h with metadata := h.metadata.folded }

/-- The parcel with the names of its metadata in lower case. -/
def Parcel.folded (p : Parcel) : Parcel := { p with header := p.header.folded }

/-- The message with the names of its metadata in lower case. -/
def Message.folded (m : Message) : Message := { m with header := m.header.folded }

theorem Parcel.toMessage_folded (p : Parcel) : p.folded.toMessage = p.toMessage.folded := rfl

/-- What is signed of a message says nothing of the case of names. -/
theorem Parcel.canonical_folded (p : Parcel) : p.folded.canonical = p.canonical := by
  have hpairs : canonicalPairs p.header.metadata.folded = canonicalPairs p.header.metadata :=
    congrArg (List.mergeSort · pairLe) p.header.metadata.lowered_folded
  unfold canonical folded Header.folded
  dsimp only
  rw [hpairs]

theorem Signer.verify_folded (s : Signer) (key : Option String) (p : Parcel) (signature : Option String) :
    s.verify key p.folded signature = s.verify key p signature := by
  cases s with
  | unsigned => rfl
  | keyed =>
    cases key with
    | none => rfl
    | some key =>
      have htag : p.folded.tag key = p.tag key := by rw [Parcel.tag, p.canonical_folded, Parcel.tag]
      have hid : p.folded.id = p.id := rfl
      cases signature with
      | none => rfl
      | some t => rw [verify, verify, htag, hid]

/-- What is logged of a message says nothing of its metadata. -/
theorem Log.saveIfAbsent_folded (l : Log) (h : Header) (p : Progress) (now : Stamp) :
    l.saveIfAbsent h.folded p now = l.saveIfAbsent h p now := rfl

end ContentMesh
