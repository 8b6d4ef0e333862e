import ContentMesh.Proofs.Message.Record
import ContentMesh.Proofs.Peer.Record
import ContentMesh.Proofs.Storage.Lines
import ContentMesh.Proofs.Topology.Record

/-!
# ContentMesh.Proofs.Storage.Records — what is stored and sent survives being written

Peers, rules, rows of the log and answers to registrations are written as one line of JSON each and read as what they were:
alone, in a document and in a journal (`Record.records_survive`).  A member that is not given, or an empty map, is left out
of the line.
-/

namespace ContentMesh

namespace Json

/-- The names of the members of an object. -/
def memberNames : Json → List String
  | obj ms => ms.map (·.1)
  | _ => []

theorem mem_names_given {name n : String} {x : Option Json} : n ∈ (given name x).map (·.1) ↔ n = name ∧ x ≠ none := by
  cases x <;> simp [given]

end Json

namespace Record

variable {V : Type} [Record V]

/-- The values with a property survive: each is read from its text, from the entry of a journal that puts it, and with others
from a document and from a journal that was written anew.  No text of a value, an entry or a document holds a newline. -/
structure Survive (p : V → Prop) : Prop where
  value : ∀ v, p v → (Json.readBytes (Utf8.encode (toJson v).chars)).bind ofJson? = some v ∧
    (10 : UInt8) ∉ Utf8.encode (toJson v).chars
  entry : ∀ k v, p v → (Change.put k v).line = (Change.put k v).text ++ [10] ∧
    Change.ofLine? (Change.put k v).text = some (.put k v) ∧ (10 : UInt8) ∉ (Change.put k v).text
  document : ∀ rows : Dict V, (∀ e ∈ rows.entries, p e.2) →
    Table.readDocument (Utf8.encode (Table.documentOf rows).chars) = .ok rows ∧
      (10 : UInt8) ∉ Utf8.encode (Table.documentOf rows).chars
  journal : ∀ rows : Dict V, (∀ e ∈ rows.entries, p e.2) → Journal.replay (Journal.image rows) = .ok rows

theorem Survive.of_returns {p : V → Prop} (h : ∀ v, p v → Record.Returns v) : Survive p where
  value v hv := ⟨(h v hv).read_text, (Record.toJson v).newline_notMem_encode⟩
  entry k v hv :=
    have hput : (Change.put k v).Returns := h v hv
    ⟨rfl, hput.ofLine?, (Change.put k v).newline_notMem⟩
  document rows hrows :=
    have hreturns : rows.Returns := fun e he => h e.2 (hrows e he)
    ⟨hreturns.readDocument, (Table.documentOf rows).newline_notMem_encode⟩
  journal _ hrows := Dict.Returns.replay_image fun e he => h e.2 (hrows e he)

end Record

theorem Dict.isEmpty_iff {V : Type} {d : Dict V} : d.isEmpty = true ↔ d = ∅ := by
  obtain ⟨es, hes⟩ := d
  constructor
  · intro h
    obtain rfl := List.isEmpty_iff.mp h
    rfl
  · intro h
    cases h
    rfl

/-- What a peer does not have is left out of its record. -/
theorem Peer.memberNames_toJson (p : Peer) :
    ("receive_key" ∈ p.toJson.memberNames ↔ p.receiveKey ≠ none) ∧
      ("properties" ∈ p.toJson.memberNames ↔ p.properties ≠ ∅) := by
  simp [toJson, Json.memberNames, Json.mem_names_given, Dict.isEmpty_iff]

/-- What rules do not have is left out of their record. -/
theorem Rules.memberNames_toJson (rs : Rules) :
    ("wildcard" ∈ rs.toJson.memberNames ↔ rs.wildcard ≠ none) ∧
      ("instances" ∈ rs.toJson.memberNames ↔ rs.instances ≠ ∅) := by
  simp [toJson, Json.memberNames, Json.mem_names_given, Dict.isEmpty_iff]

/-- An answer without a key has none in its record. -/
theorem RegistrationAnswer.memberNames_toJson (a : RegistrationAnswer) :
    "key" ∈ a.toJson.memberNames ↔ a.key ≠ none := by
  simp [toJson, Json.memberNames, Json.mem_names_given]

namespace Record

/-- What is stored and sent survives: peers, rules, rows of the log and answers to registrations, with any texts and any
stamps.  In their records those members stand that have a value, and those maps that are not empty. -/
theorem records_survive :
    Survive (fun _ : Peer => True) ∧ Survive (fun _ : Rules => True) ∧ Survive (fun _ : LogRow => True) ∧
    Survive (fun _ : RegistrationAnswer => True) ∧
    (∀ p : Peer, ("receive_key" ∈ p.toJson.memberNames ↔ p.receiveKey ≠ none) ∧
      ("properties" ∈ p.toJson.memberNames ↔ p.properties ≠ ∅)) ∧
    (∀ rs : Rules, ("wildcard" ∈ rs.toJson.memberNames ↔ rs.wildcard ≠ none) ∧
      ("instances" ∈ rs.toJson.memberNames ↔ rs.instances ≠ ∅)) ∧
    ∀ a : RegistrationAnswer, "key" ∈ a.toJson.memberNames ↔ a.key ≠ none :=
  ⟨.of_returns fun p _ => p.returns, .of_returns fun rs _ => rs.returns, .of_returns fun r _ => r.returns,
    .of_returns fun a _ => a.returns, Peer.memberNames_toJson, Rules.memberNames_toJson,
    RegistrationAnswer.memberNames_toJson⟩

/-- A row whose texts hold what is escaped, and whose stamps are a leap second of the first year and the last moment that
there is. -/
def oddRow : LogRow :=
  ⟨"\"m\\1\"\n\x01é", "up\tdate", "http://a/?q=ü", ⟨0, 2, 29, 23, 59, 59, 1000000001, by decide⟩, .received,
    ⟨262142, 12, 31, 23, 59, 59, 999999999, by decide⟩⟩

theorem records_survive_oddRow :
    (Json.readBytes (Utf8.encode oddRow.toJson.chars)).bind LogRow.ofJson? = some oddRow ∧
      (10 : UInt8) ∉ Utf8.encode oddRow.toJson.chars := by
  obtain ⟨-, -, hrows, -⟩ := records_survive
  exact hrows.value oddRow trivial

end Record

end ContentMesh
