import ContentMesh.Calendar.Rfc3339
import ContentMesh.Message.Metadata

/-!
# ContentMesh.Message.Header — what is known of a message without its body
-/

namespace ContentMesh

/-- What is known of a message without its body.  No receivers means that it is for everybody. -/
structure Header where
  id : String
  date : Stamp
  kind : String
  source : String
  receivers : List String
  metadata : Metadata
  deriving DecidableEq

namespace Header

instance : Inhabited Header := ⟨⟨"", .epoch, "", "", [], ∅⟩⟩

/-- A header without receivers and metadata. -/
def new (id kind source : String) (date : Stamp) : Header := ⟨id, date, kind, source, [], ∅⟩

/-- Whether the instance at `uri` is to handle the message. -/
def addressedTo (h : Header) (uri : String) : Bool := h.receivers.isEmpty || h.receivers.contains uri

/-- The record of a header. -/
def toJson (h : Header) : Json :=
  .obj [("id", .str h.id), ("date", .str (Rfc3339.recordText h.date)), ("type", .str h.kind),
    ("source", .str h.source), ("receivers", .arr (h.receivers.map .str)), ("metadata", h.metadata.toJson)]

/-- A stamp of a record. -/
def stampOfJson? (j : Json) : Option Stamp := j.str?.bind Rfc3339.readLoose

/-- The header of a record. -/
def ofJson? (j : Json) : Option Header := do
  let m ← Json.members? ["id", "date", "type", "source", "receivers", "metadata"] j
  return ⟨← m.required "id" Json.str?, ← m.required "date" stampOfJson?, ← m.required "type" Json.str?,
    ← m.required "source" Json.str?, ← m.required "receivers" (Json.list? Json.str?),
    ← m.required "metadata" Metadata.ofJson?⟩

instance : Record Header := ⟨toJson, ofJson?⟩

end Header

end ContentMesh
