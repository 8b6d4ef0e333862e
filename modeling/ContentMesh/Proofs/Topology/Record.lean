import ContentMesh.Proofs.Json.Record
import ContentMesh.Topology.Rules

/-!
# ContentMesh.Proofs.Topology.Record — rules come back from their records

A rule is an object of two names, and rules are an object of rules.  What is left out of the record of rules is read as
there being none.
-/

namespace ContentMesh

theorem Level.ofJson?_toJson (l : Level) : Level.ofJson? l.toJson = some l := by cases l <;> rfl

theorem Direction.ofJson?_toJson (d : Direction) : Direction.ofJson? d.toJson = some d := by cases d <;> rfl

namespace Rule

theorem fits (r : Rule) : r.toJson.Fits 1 := by
  refine .obj ?_
  simp only [List.forall_mem_cons]
  exact ⟨.str _, .str _, nofun⟩

theorem ofJson?_toJson (r : Rule) : ofJson? r.toJson = some r := by
  simp [toJson, ofJson?, Json.members?, Json.Members.required, Dict.lookup_cons, Level.ofJson?_toJson,
    Direction.ofJson?_toJson]

end Rule

namespace Rules

theorem fits (rs : Rules) : rs.toJson.Fits 3 := by
  refine .obj (List.forall_mem_append.mpr ⟨?_, ?_⟩)
  · refine .given fun j hj => ?_
    obtain ⟨r, -, rfl⟩ := Option.map_eq_some_iff.mp hj
    exact r.fits.mono (by omega)
  · refine .given fun j hj => ?_
    by_cases he : rs.instances.isEmpty = true
    · rw [if_pos he] at hj
      cases hj
    · rw [if_neg he] at hj
      cases hj
      exact .dict Rule.fits rs.instances

/-- Decoding rules undoes encoding them. -/
theorem ofJson?_toJson (rs : Rules) : ofJson? rs.toJson = some rs := by
  obtain ⟨wildcard, instances⟩ := rs
  have hinstances : Json.dict? Rule.ofJson? (.obj (instances.map Rule.toJson).entries) = some instances :=
    Json.dict?_entries fun e _ => e.2.ofJson?_toJson
  have hwildcard : ∀ r : Rule, Json.nullable? Rule.ofJson? r.toJson = some (some r) := by
    intro r
    rw [← Option.map_some, ← r.ofJson?_toJson]
    rfl
  cases he : instances.isEmpty with
  | true =>
    have hempty : ∅ = instances := Dict.ext_get? fun k => by
      obtain ⟨es, hes⟩ := instances
      obtain rfl := List.isEmpty_iff.mp he
      rfl
    cases wildcard <;>
      simp [toJson, ofJson?, Json.given, Json.members?, Json.Members.optional, Dict.lookup_cons, hwildcard, he, hempty]
  | false =>
    cases wildcard <;>
      simp [toJson, ofJson?, Json.given, Json.members?, Json.Members.optional, Dict.lookup_cons, hwildcard, hinstances, he]

theorem returns (rs : Rules) : Record.Returns rs := .of_fits rs.fits (by decide) rs.ofJson?_toJson

/-- Rules come back from their text. -/
theorem read_text (rs : Rules) : (Json.readBytes (Utf8.encode rs.toJson.chars)).bind ofJson? = some rs :=
  rs.returns.read_text

end Rules

end ContentMesh
