import ContentMesh.Message.Log
import ContentMesh.Proofs.Calendar.Written
import ContentMesh.Proofs.Json.Record

/-!
# ContentMesh.Proofs.Message.Record — rows of the log come back from their records
-/

namespace ContentMesh

theorem Progress.ofJson?_toJson (p : Progress) : Progress.ofJson? p.toJson = some p := by cases p <;> rfl

theorem Header.stampOfJson?_recordText (s : Stamp) : Header.stampOfJson? (.str (Rfc3339.recordText s)) = some s := by
  rw [Header.stampOfJson?, Json.str?, Option.bind_some, Rfc3339.readLoose_recordText]

namespace LogRow

variable (r : LogRow)

theorem fits : r.toJson.Fits 1 := by
  refine .obj ?_
  simp only [List.forall_mem_cons]
  exact ⟨.str _, .str _, .str _, .str _, .str _, .str _, nofun⟩

theorem ofJson?_toJson : ofJson? r.toJson = some r := by
  simp [toJson, ofJson?, Json.members?, Json.Members.required, Dict.lookup_cons, Json.str?,
    r.progress.ofJson?_toJson, Header.stampOfJson?_recordText]

theorem returns : Record.Returns r := .of_fits r.fits (by decide) r.ofJson?_toJson

end LogRow

end ContentMesh
