import ContentMesh.Storage.Table

/-!
# ContentMesh.Storage.Store — tables whose calls may be made to fail

A drill plans that the next calls of one kind fail.  Such a call changes nothing but the plan, so everything built
on a store can be shown to stand a failing table.
-/

namespace ContentMesh

/-- The calls of a table. -/
inductive TableCall where
  | get
  | put
  | delete
  | contains
  | values
  deriving DecidableEq, Repr

namespace TableCall

/-- The name of a call. -/
def name : TableCall → String
  | get => "get"
  | put => "put"
  | delete => "delete"
  | contains => "contains"
  | values => "values"

/-- All calls. -/
def all : List TableCall := [get, put, delete, contains, values]

/-- The failure of a call that was made to fail. -/
def injected (c : TableCall) : Failure := .store ("injected " ++ c.name ++ " failure")

end TableCall

/-- How many further calls of each kind fail. -/
structure Faults where
  get : Nat
  put : Nat
  delete : Nat
  contains : Nat
  values : Nat
  deriving DecidableEq, Repr, Inhabited

namespace Faults

/-- No failures. -/
def none : Faults := ⟨0, 0, 0, 0, 0⟩

/-- How many further calls of a kind fail. -/
def count (f : Faults) : TableCall → Nat
  | .get => f.get
  | .put => f.put
  | .delete => f.delete
  | .contains => f.contains
  | .values => f.values

/-- Plans that the next `n` calls of a kind fail. -/
def plan (f : Faults) (c : TableCall) (n : Nat) : Faults :=
  match c with
  | .get => { f with get := n }
  | .put => { f with put := n }
  | .delete => { f with delete := n }
  | .contains => { f with contains := n }
  | .values => { f with values := n }

end Faults

/-- A table with planned failures. -/
structure Store (V : Type) where
  table : Table V
  faults : Faults

namespace Store

variable {V : Type} {α : Type} [Record V]

/-- A store of an opened table. -/
def of (t : Table V) : Store V := ⟨t, .none⟩

/-- An empty store in memory. -/
def inMemory : Store V := of Table.inMemory

/-- A call: a planned failure, or what the table answers. -/
def call (s : Store V) (c : TableCall) (f : Table V → Except Failure α × Table V) : Except Failure α × Store V :=
  match s.faults.count c with
  | n + 1 => (.error c.injected, { s with faults := s.faults.plan c n })
  | 0 =>
    let (r, table) := f s.table
    (r, { s with table })

/-- The row of a key. -/
def get (s : Store V) (k : String) : Except Failure (Option V) × Store V :=
  s.call .get fun t => (.ok (t.rows.get? k), t)

/-- Whether a key has a row. -/
def contains (s : Store V) (k : String) : Except Failure Bool × Store V :=
  s.call .contains fun t => (.ok (t.rows.contains k), t)

/-- All rows, in key order. -/
def values (s : Store V) : Except Failure (List V) × Store V := s.call .values fun t => (.ok t.rows.values, t)

/-- Puts a row under a key. -/
def put (s : Store V) (k : String) (v : V) : Except Failure Unit × Store V := s.call .put fun t => t.put k v

/-- Deletes the row of a key and says whether there was one. -/
def delete (s : Store V) (k : String) : Except Failure Bool × Store V := s.call .delete fun t => t.delete k

end Store

end ContentMesh
