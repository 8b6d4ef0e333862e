import ContentMesh.Json.Record

/-!
# ContentMesh.Topology.Rules — which peers get how much of an entity

A rule gives a level and a direction.  The rules of an entity name peers by uri, and may have a wildcard for all
others.  `Rules.localized` turns the rules that a peer sent into rules of the node that got them.
-/

namespace ContentMesh

/-- How much of an entity a peer gets. -/
inductive Level where
  | none
  | reference
  | full
  deriving DecidableEq, Repr, Inhabited

namespace Level

/-- The name of a level in records. -/
def name : Level → String
  | none => "none"
  | reference => "reference"
  | full => "full"

/-- The levels by name. -/
def byName : List (String × Level) := [none, reference, full].map fun l => (l.name, l)

/-- The record of a level. -/
def toJson (l : Level) : Json := .str l.name

/-- The level of a record. -/
def ofJson? : Json → Option Level := Json.case? byName

/-- The place of a level in the order. -/
def rank : Level → Nat
  | none => 0
  | reference => 1
  | full => 2

/-- Whether a level is at least another. -/
def atLeast (l least : Level) : Bool := least.rank ≤ l.rank

instance : Record Level := ⟨toJson, ofJson?⟩

end Level

/-- Which way messages flow between a node and a peer. -/
inductive Direction where
  | sendOnly
  | receiveOnly
  | both
  deriving DecidableEq, Repr

namespace Direction

instance : Inhabited Direction := ⟨both⟩

/-- The name of a direction in records. -/
def name : Direction → String
  | sendOnly => "send_only"
  | receiveOnly => "receive_only"
  | both => "both"

/-- The directions by name. -/
def byName : List (String × Direction) := [sendOnly, receiveOnly, both].map fun d => (d.name, d)

/-- The record of a direction. -/
def toJson (d : Direction) : Json := .str d.name

/-- The direction of a record. -/
def ofJson? : Json → Option Direction := Json.case? byName

/-- Whether the node may send. -/
def allowsSend : Direction → Bool
  | receiveOnly => false
  | _ => true

/-- Whether the node may accept. -/
def allowsReceive : Direction → Bool
  | sendOnly => false
  | _ => true

/-- The direction as the peer sees it. -/
def inverted : Direction → Direction
  | sendOnly => receiveOnly
  | receiveOnly => sendOnly
  | both => both

instance : Record Direction := ⟨toJson, ofJson?⟩

end Direction

/-- A level and a direction. -/
structure Rule where
  level : Level
  direction : Direction
  deriving DecidableEq, Repr

namespace Rule

/-- The rule where nothing is said. -/
def silent : Rule := ⟨.none, .both⟩

instance : Inhabited Rule := ⟨silent⟩

/-- The record of a rule. -/
def toJson (r : Rule) : Json := .obj [("level", r.level.toJson), ("direction", r.direction.toJson)]

/-- The rule of a record. -/
def ofJson? (j : Json) : Option Rule := do
  let m ← Json.members? ["level", "direction"] j
  return ⟨← m.required "level" Level.ofJson?, ← m.required "direction" Direction.ofJson?⟩

instance : Record Rule := ⟨toJson, ofJson?⟩

/-- Whether the node may send at a level or above. -/
def sends (r : Rule) (least : Level) : Bool :=
  r.level != .none && r.level.atLeast least && r.direction.allowsSend

/-- Whether the node accepts. -/
def accepts (r : Rule) : Bool := r.level != .none && r.direction.allowsReceive

/-- A peer's rule seen from here: what it only sends is only received. -/
def turned (r : Rule) : Rule :=
  match r.direction with
  | .sendOnly => { r with direction := .receiveOnly }
  | _ => r

end Rule

/-- The rules of an entity. -/
structure Rules where
  wildcard : Option Rule
  instances : Dict Rule
  deriving DecidableEq

namespace Rules

instance : EmptyCollection Rules := ⟨⟨none, ∅⟩⟩
instance : Inhabited Rules := ⟨∅⟩

/-- One rule for everybody. -/
def all (r : Rule) : Rules := ⟨some r, ∅⟩

/-- Sets the rule of a peer, or the wildcard. -/
def set (rs : Rules) (uri : Option String) (r : Rule) : Rules :=
  match uri with
  | some u => { rs with instances := rs.instances.insert u r }
  | none => { rs with wildcard := some r }

/-- The rule that stands for a peer, or the wildcard. -/
def rule? (rs : Rules) : Option String → Option Rule
  | some u => rs.instances.get? u
  | none => rs.wildcard

/-- The rule in force for a peer: its own, else the wildcard, else `Rule.silent`. -/
def ruleFor (rs : Rules) (uri : String) : Rule :=
  ((rs.instances.get? uri).or rs.wildcard).getD .silent

/-- The rules a node takes over from a peer.  Each rule is turned, the one about the node itself is dropped, and
those equal to the wildcard are left out.  The peer gets a rule of its own only where the node becomes receiving
towards it. -/
def localized (remote : Rules) (own source : String) : Rules :=
  let wildcard := remote.wildcard.map Rule.turned
  let fallback := wildcard.getD .silent
  let others := (remote.instances.map Rule.turned).entries.filter fun e => e.1 != own && e.2 != fallback
  let merged : Rules := ⟨wildcard, Dict.ofList others⟩
  let towards := remote.ruleFor own
  let back : Rule := ⟨towards.level, towards.direction.inverted⟩
  if back.direction = .receiveOnly ∧ back ≠ fallback then merged.set (some source) back else merged

/-- The record of rules. -/
def toJson (rs : Rules) : Json :=
  .obj (Json.given "wildcard" (rs.wildcard.map Rule.toJson)
    ++ Json.given "instances"
      (if rs.instances.isEmpty then none else some (.obj (rs.instances.map Rule.toJson).entries)))

/-- The rules of a record. -/
def ofJson? (j : Json) : Option Rules := do
  let m ← Json.members? ["wildcard", "instances"] j
  return ⟨← m.optional "wildcard" none (Json.nullable? Rule.ofJson?),
    ← m.optional "instances" ∅ (Json.dict? Rule.ofJson?)⟩

instance : Record Rules := ⟨toJson, ofJson?⟩

end Rules

end ContentMesh
