import ContentMesh.Peer.Handshake
import ContentMesh.Proofs.Json.Record

/-!
# ContentMesh.Proofs.Peer.Record — peers come back from their records, and so do answers to registrations

A member that is left out of a record is read as its default, and it is left out only where it is the default.
-/

namespace ContentMesh

theorem Status.ofJson?_toJson (s : Status) : Status.ofJson? s.toJson = some s := by cases s <;> rfl

namespace Peer

theorem fits (p : Peer) : p.toJson.Fits 2 := by
  refine .obj (List.forall_mem_append.mpr ⟨List.forall_mem_append.mpr ⟨?_, ?_⟩, ?_⟩)
  · simp only [List.forall_mem_cons]
    exact ⟨.str _, .str _, .str _, .str _, nofun⟩
  · refine .given fun j hj => ?_
    obtain ⟨k, -, rfl⟩ := Option.map_eq_some_iff.mp hj
    exact .str k
  · refine .given fun j hj => ?_
    by_cases he : p.properties.isEmpty = true
    · rw [if_pos he] at hj
      cases hj
    · rw [if_neg he] at hj
      cases hj
      exact .dict .str p.properties

theorem ofJson?_toJson (p : Peer) : ofJson? p.toJson = some p := by
  obtain ⟨id, name, uri, status, receiveKey, properties⟩ := p
  have hproperties : Json.dict? Json.str? (.obj (properties.map .str).entries) = some properties :=
    Json.dict?_entries fun _ _ => rfl
  have hstatus := Status.ofJson?_toJson status
  cases h : properties.isEmpty with
  | true =>
    have hempty : ∅ = properties := by
      cases properties with
      | mk es _ => cases es with
        | nil => rfl
        | cons e es => cases h
    cases receiveKey <;>
      simp [toJson, ofJson?, Json.given, Json.members?, Json.Members.required, Json.Members.optional,
        Dict.lookup_cons, Json.str?, Json.nullable?, hstatus, h, hempty]
  | false =>
    cases receiveKey <;>
      simp [toJson, ofJson?, Json.given, Json.members?, Json.Members.required, Json.Members.optional,
        Dict.lookup_cons, Json.str?, Json.nullable?, hstatus, hproperties, h]

theorem returns (p : Peer) : Record.Returns p := .of_fits p.fits (by decide) p.ofJson?_toJson

end Peer

/-! ## Answers to registrations -/

theorem Outcome.ofJson?_toJson (o : Outcome) : Outcome.ofJson? o.toJson = some o := by cases o <;> rfl

namespace Identity

theorem fits (i : Identity) : i.toJson.Fits 1 := by
  refine .obj ?_
  simp only [List.forall_mem_cons]
  exact ⟨.str _, .str _, .str _, nofun⟩

theorem ofJson?_toJson (i : Identity) : ofJson? i.toJson = some i := by
  simp [toJson, ofJson?, Json.members?, Json.Members.required, Dict.lookup_cons, Json.str?]

end Identity

namespace RegistrationAnswer

theorem fits (a : RegistrationAnswer) : a.toJson.Fits 2 := by
  refine .obj (List.forall_mem_append.mpr ⟨?_, ?_⟩)
  · have hstatus : ((a.status.map Status.toJson).getD .null).Fits 1 := by
      cases a.status with
      | none => exact .null
      | some s => exact .str _
    simp only [List.forall_mem_cons]
    exact ⟨a.answerer.fits, .str _, hstatus, nofun⟩
  · refine .given fun j hj => ?_
    obtain ⟨k, -, rfl⟩ := Option.map_eq_some_iff.mp hj
    exact .str k

theorem ofJson?_toJson (a : RegistrationAnswer) : ofJson? a.toJson = some a := by
  obtain ⟨answerer, outcome, status, key⟩ := a
  have hstatus : Json.nullable? Status.ofJson? ((status.map Status.toJson).getD .null) = some status := by
    cases status with
    | none => rfl
    | some s => exact congrArg (Option.map some) s.ofJson?_toJson
  have hkey : ∀ k : String, Json.nullable? Json.str? (.str k) = some (some k) := fun k => rfl
  cases key <;>
    simp [toJson, ofJson?, Json.given, Json.members?, Json.Members.required, Json.Members.optional,
      Json.Members.nullable, Dict.lookup_cons, answerer.ofJson?_toJson, outcome.ofJson?_toJson, hstatus, hkey]

theorem returns (a : RegistrationAnswer) : Record.Returns a := .of_fits a.fits (by decide) a.ofJson?_toJson

/-- Reading an answer undoes writing it. -/
theorem read_text (a : RegistrationAnswer) : (Json.readBytes (Utf8.encode a.toJson.chars)).bind ofJson? = some a :=
  a.returns.read_text

end RegistrationAnswer

end ContentMesh
