import ContentMesh.Storage.Store
import ContentMesh.Topology.Entity
import ContentMesh.Topology.Rules

/-!
# ContentMesh.Topology.Resolver — the rules that apply to an entity

The rules of an entity are its own, or those of its nearest ancestor that has some, or a fallback.  Answers are
kept: an answer taken over from an ancestor is listed with the answer of the parent, so that a change of rules
evicts all that depend on it.
-/

namespace ContentMesh

/-- The rules that apply to an entity; `origin` is the entity they are written for. -/
structure Resolved where
  rules : Rules
  inherited : Bool
  origin : Option Entity
  deriving DecidableEq

/-- A kept answer, and the entities whose answers were taken over from it. -/
structure Answered where
  resolved : Resolved
  children : List Entity
  deriving DecidableEq

/-- Kept answers by entity. -/
abbrev Answers := List (Entity × Answered)

/-- The rules of entities, with answers kept. -/
structure Resolver where
  store : Store Rules
  fallback : Rules
  answers : Answers

namespace Answers

/-- The answer kept for an entity. -/
def get? (as : Answers) (e : Entity) : Option Answered := as.lookup e

/-- Keeps an answer in place of an older one. -/
def insert (as : Answers) (e : Entity) (a : Answered) : Answers := (e, a) :: as.filter (·.1 != e)

/-- Drops an answer. -/
def erase (as : Answers) (e : Entity) : Answers := as.filter (·.1 != e)

/-- Lists an entity with the answer it depends on. -/
def addChild (as : Answers) (parent child : Entity) : Answers :=
  as.map fun p => if p.1 = parent then (p.1, { p.2 with children := child :: p.2.children.filter (· != child) }) else p

/-- Takes an entity off the list of the answer it depended on. -/
def dropChild (as : Answers) (parent child : Entity) : Answers :=
  as.map fun p => if p.1 = parent then (p.1, { p.2 with children := p.2.children.filter (· != child) }) else p

/-- Drops an answer and those taken over from it.  `depth` bounds how far the hierarchy is followed. -/
def evict : Nat → Answers → Entity → Answers
  | 0, as, e => as.erase e
  | depth + 1, as, e =>
    match as.get? e with
    | none => as
    | some a =>
      a.children.foldl (fun as c =>
        match as.get? c with
        | some b => if b.resolved.inherited then evict depth as c else as
        | none => as) (as.erase e)

end Answers

namespace Resolver

/-- A resolver without answers. -/
def new (store : Store Rules) (fallback : Rules) : Resolver := ⟨store, fallback, []⟩

/-- The ancestors of an entity, nearest first, the entity itself at the head.  `depth` bounds their number. -/
def lineage : Nat → Entity → List Entity
  | 0, e => [e]
  | depth + 1, e => e :: (e.parent?.map (lineage depth)).getD []

/-- How many names lead to an entity: a bound of the number of its ancestors. -/
def height : Entity → Nat
  | .global => 0
  | .wiki _ => 1
  | .space _ path => path.length + 2
  | .document _ space _ => space.length + 3

/-- Keeps and gives an answer. -/
def keep (r : Resolver) (e : Entity) (a : Resolved) : Resolved × Resolver :=
  (a, { r with answers := r.answers.insert e ⟨a, []⟩ })

/-- The answer for the first of a lineage; the rest are its ancestors. -/
def resolveAlong (r : Resolver) : List Entity → Except Failure Resolved × Resolver
  | [] => (.ok ⟨r.fallback, true, none⟩, r)
  | e :: ancestors =>
    match r.answers.get? e with
    | some a => (.ok a.resolved, r)
    | none =>
      match r.store.get e.text with
      | (.error f, store) => (.error f, { r with store })
      | (.ok (some rules), store) =>
        let (a, r) := keep { r with store } e ⟨rules, false, some e⟩
        (.ok a, r)
      | (.ok none, store) =>
        match resolveAlong { r with store } ancestors with
        | (.error f, r) => (.error f, r)
        | (.ok above, r) =>
          let r := match ancestors with
            | p :: _ => { r with answers := r.answers.addChild p e }
            | [] => r
          let (a, r) := keep r e { above with inherited := true }
          (.ok a, r)

/-- The rules that apply to an entity. -/
def resolve (r : Resolver) (e : Entity) : Except Failure Resolved × Resolver :=
  r.resolveAlong (lineage (height e) e)

/-- Drops the answer for an entity and those taken over from it. -/
def invalidate (r : Resolver) (e : Entity) : Resolver :=
  let answers := r.answers.evict r.answers.length e
  { r with answers := match e.parent? with
    | some p => answers.dropChild p e
    | none => answers }

/-- The rules written for an entity itself. -/
def ownRules (r : Resolver) (e : Entity) : Except Failure (Option Rules) × Resolver :=
  let (x, store) := r.store.get e.text
  (x, { r with store })

/-- The first half of a change: writes the rules of an entity, or removes them. -/
def write (r : Resolver) (e : Entity) (rules : Option Rules) : Except Failure Unit × Resolver :=
  match rules with
  | some rs =>
    let (x, store) := r.store.put e.text rs
    (x, { r with store })
  | none =>
    let (x, store) := r.store.delete e.text
    (x.map fun _ => (), { r with store })

/-- Writes the rules of an entity and drops the answers that depend on them. -/
def setRules (r : Resolver) (e : Entity) (rules : Option Rules) : Except Failure Unit × Resolver :=
  match r.write e rules with
  | (.ok (), r) => (.ok (), r.invalidate e)
  | (.error f, r) => (.error f, r)

/-- The rule in force for a peer. -/
def ruleFor (r : Resolver) (e : Entity) (uri : String) : Except Failure Rule × Resolver :=
  let (x, r) := r.resolve e
  (x.map fun a => a.rules.ruleFor uri, r)

/-- The candidates that an entity may be sent to at a level or above. -/
def targets (r : Resolver) (e : Entity) (candidates : List String) (least : Level) :
    Except Failure (List String) × Resolver :=
  let (x, r) := r.resolve e
  (x.map fun a => candidates.filter fun uri => (a.rules.ruleFor uri).sends least, r)

/-- Whether changes of an entity are taken from a peer. -/
def acceptsFrom (r : Resolver) (e : Entity) (uri : String) : Except Failure Bool × Resolver :=
  let (x, r) := r.ruleFor e uri
  (x.map Rule.accepts, r)

/-- Whether an answer is kept for an entity. -/
def isKept (r : Resolver) (e : Entity) : Bool := (r.answers.get? e).isSome

/-- How many answers are kept. -/
def keptCount (r : Resolver) : Nat := r.answers.length

/-! ## Without kept answers -/

/-- The rules that apply along a lineage, looked up in the table alone. -/
def lookup (rows : Dict Rules) (fallback : Rules) (e : Entity) : Resolved :=
  match (lineage (height e) e).find? fun a => (rows.get? a.text).isSome with
  | some a => ⟨(rows.get? a.text).getD fallback, a != e, some a⟩
  | none => ⟨fallback, true, none⟩

end Resolver

end ContentMesh
