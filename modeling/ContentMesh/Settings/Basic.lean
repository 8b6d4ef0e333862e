import ContentMesh.Outbox.Retry
import ContentMesh.Peer.Row
import ContentMesh.Settings.SocketAddress
import ContentMesh.Storage.Disk
import ContentMesh.Toml.Document
import ContentMesh.Topology.Rules
import ContentMesh.Failure
import ContentMesh.Json.Reader

/-!
# ContentMesh.Settings.Basic — what a node is started with

Settings are read from a file in TOML or JSON, by its extension; every setting has a default.  A node without a
configured id makes one and keeps it in its data directory, so that its peers know it again.
-/

namespace ContentMesh

/-- Who a node is to be; without an id it makes one. -/
structure Naming where
  id : Option String
  name : String
  uri : String
  deriving DecidableEq, Repr

namespace Naming

/-- The name and uri of a node that was given none. -/
def standard : Naming := ⟨none, "wikimesh", "http://localhost:8080"⟩

/-- The record of a naming. -/
def toJson (n : Naming) : Json := .obj [("id", Json.ofText? n.id), ("name", .str n.name), ("uri", .str n.uri)]

/-- The naming of a record, each part with its default. -/
def ofJson? (j : Json) : Option Naming := do
  let m ← Json.members? ["id", "name", "uri"] j
  return ⟨← m.optional "id" none (Json.nullable? Json.str?), ← m.optional "name" standard.name Json.str?,
    ← m.optional "uri" standard.uri Json.str?⟩

end Naming

/-- What a node is started with; times in milliseconds. -/
structure Settings where
  bind : SocketAddress
  naming : Naming
  dataDirectory : Option String
  workers : Nat
  capacity : Nat
  timeout : Nat
  signs : Bool
  retry : Retry
  defaultRule : Rule
  peers : List String

namespace Settings

/-- The settings of a node that was given none. -/
def standard : Settings :=
  ⟨⟨.v4 [0, 0, 0, 0], 8080⟩, .standard, none, 4, 1024, 10000, true, .standard, ⟨.full, .both⟩, []⟩

instance : Inhabited Settings := ⟨standard⟩

/-- The record of settings. -/
def toJson (s : Settings) : Json :=
  .obj [("bind_addr", .str s.bind.text), ("identity", s.naming.toJson), ("data_dir", Json.ofText? s.dataDirectory),
    ("receive_workers", .ofNat s.workers), ("receive_queue_capacity", .ofNat s.capacity),
    ("request_timeout_ms", .ofNat s.timeout), ("sign_messages", .bool s.signs), ("retry", s.retry.toJson),
    ("default_rule", s.defaultRule.toJson), ("peers", .arr (s.peers.map .str))]

/-- The settings of a record, each with its default. -/
def ofJson? (j : Json) : Option Settings := do
  let m ← Json.members? ["bind_addr", "identity", "data_dir", "receive_workers", "receive_queue_capacity",
    "request_timeout_ms", "sign_messages", "retry", "default_rule", "peers"] j
  let d := standard
  return ⟨← m.optional "bind_addr" d.bind (fun j => j.str?.bind SocketAddress.ofText?),
    ← m.optional "identity" d.naming Naming.ofJson?,
    ← m.optional "data_dir" d.dataDirectory (Json.nullable? Json.str?),
    ← m.optional "receive_workers" d.workers Json.nat64?,
    ← m.optional "receive_queue_capacity" d.capacity Json.nat64?,
    ← m.optional "request_timeout_ms" d.timeout Json.nat64?,
    ← m.optional "sign_messages" d.signs Json.bool?,
    ← m.optional "retry" d.retry Retry.ofJson?,
    ← m.optional "default_rule" d.defaultRule Rule.ofJson?,
    ← m.optional "peers" d.peers (Json.list? Json.str?)⟩

instance : Record Settings := ⟨toJson, ofJson?⟩

/-! ## Validity -/

/-- The first setting that a node cannot run with. -/
def fault? (s : Settings) : Option String :=
  if Text.trim s.naming.uri = "" then some "identity.uri must not be empty"
  else if s.workers = 0 then some "receive_workers must be at least 1"
  else if s.capacity = 0 then some "receive_queue_capacity must be at least 1"
  else if s.retry.multiplier < 1.0 then some "retry.backoff_multiplier must be >= 1.0"
  else if s.peers.contains s.naming.uri then some "peers must not contain our own uri"
  else none

/-- Refuses settings that a node cannot run with. -/
def validate (s : Settings) : Except Failure Unit :=
  match s.fault? with
  | some t => .error (.config t)
  | none => .ok ()

/-- The rules where no entity has any. -/
def fallback (s : Settings) : Rules := .all s.defaultRule

/-! ## Files -/

/-- Why a file gives no settings. -/
inductive FileFault where
  | unreadable
  | badToml
  | badJson
  | badExtension (text : String)
  | invalid (f : Failure)
  deriving DecidableEq, Repr

/-- The wording for a file of another extension. -/
def unsupported (extension : String) : String := "Unsupported config file extension: " ++ extension

/-- The settings in a text of a format named by an extension. -/
def ofText (extension : String) (s : String) : Except FileFault Settings :=
  match Text.lower extension with
  | "toml" => ((Toml.read s).bind ofJson?).elim (.error .badToml) .ok
  | "json" => ((Json.read s).bind ofJson?).elim (.error .badJson) .ok
  | _ => .error (.badExtension extension)

/-- The settings in a file, of which the content is given if it exists. -/
def ofFile (path : String) (content : Option Bytes) : Except FileFault Settings :=
  match content.bind Bytes.text? with
  | none => .error .unreadable
  | some s => do
    let settings ← ofText ((Path.extension? path).getD "") s
    match settings.validate with
    | .ok () => .ok settings
    | .error f => .error (.invalid f)

/-! ## Identity -/

/-- The file that keeps a made id. -/
def idFile (directory : String) : String := Path.join directory "instance_id"

/-- The id kept in a data directory, or a fresh one, which is kept there from now on. -/
def keptId (directory : String) (d : Disk) (fresh : String) : Except Failure String × Disk :=
  let path := idFile directory
  if d.taken path then
    match (d.read? path).bind Bytes.text? with
    | none => (.error .io, d)
    | some s =>
      let id := Text.trim s
      if id = "" then (.error (.config (path ++ " is empty")), d) else (.ok id, d)
  else
    match d.makeWay? path with
    | none => (.error .io, d)
    | some d =>
      match d.writeFile (Path.temporary path) (Bytes.ofText fresh) with
      | (false, d) => (.error .io, d)
      | (true, d) =>
        match d.rename? (Path.temporary path) path with
        | none => (.error .io, d)
        | some d => (.ok fresh, d)

/-- Who a node is: the configured id wins over a kept one. -/
def identify (s : Settings) (d : Disk) (fresh : String) : Except Failure Identity × Disk :=
  let (id, d) : Except Failure String × Disk := match s.naming.id, s.dataDirectory with
    | some id, _ => (.ok id, d)
    | none, some directory => keptId directory d fresh
    | none, none => (.ok fresh, d)
  (id.map fun id => ⟨id, s.naming.name, s.naming.uri⟩, d)

end Settings

end ContentMesh
