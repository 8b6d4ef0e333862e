import ContentMesh.Json.Record

/-!
# ContentMesh.Outbox.Retry — how long to wait before another attempt

The delay grows by a factor with each failure, up to a bound, unless it is fixed.  A spread factor between 0.75
and 1.25 keeps senders from trying in step.
-/

namespace ContentMesh

/-- How failed deliveries are repeated; times in milliseconds.  A limit of attempts is a number of 32 bits. -/
structure Retry where
  initial : Nat
  bound : Nat
  multiplier : Float
  jitter : Bool
  fixed : Option Nat
  maxAttempts : Option Nat

namespace Retry

/-- From 100 ms doubling up to 10 s, spread, without end. -/
def standard : Retry := ⟨100, 10000, 2.0, true, none, none⟩

instance : Inhabited Retry := ⟨standard⟩

/-- A power by repeated squaring; `n` is below `2^fuel`. -/
def power (x : Float) (n : Nat) : Nat → Float → Float
  | 0, r => r
  | fuel + 1, r =>
    let r := if n % 2 = 1 then r * x else r
    if n / 2 = 0 then r else power (x * x) (n / 2) fuel r

/-- The smaller of two floats, the other one if one is no number. -/
def smaller (a b : Float) : Float := if a.isNaN then b else if b.isNaN then a else if b < a then b else a

/-- The delay before the attempt after `failures` failures, under a spread factor. -/
def delay (r : Retry) (failures : Nat) (spread : Float) : Nat :=
  match r.fixed with
  | some ms => ms
  | none =>
    let growth := power r.multiplier (min (failures - 1) 32) 6 1.0
    let bound := r.bound.toUInt64.toFloat
    let capped := smaller (r.initial.toUInt64.toFloat * growth) bound
    let ms := if r.jitter then smaller (capped * spread) bound else capped
    if ms < 0 then 0 else ms.toUInt64.toNat

/-- Spread factors between 0.75 and 1.25, for `n` delays. -/
def spreads (n : Nat) : List Float := (List.range n).map fun i => 0.75 + (i * 7919 % 5001).toFloat / 10000.0

/-- Whether an entry tried this often is given up. -/
def exhausted (r : Retry) (attempts : Nat) : Bool :=
  match r.maxAttempts with
  | some n => n ≤ attempts
  | none => false

/-- `null` or a number. -/
def optionToJson : Option Nat → Json
  | some n => .ofNat n
  | none => .null

/-- The record of retry settings. -/
def toJson (r : Retry) : Json :=
  .obj [("initial_backoff_ms", .ofNat r.initial), ("max_backoff_ms", .ofNat r.bound),
    ("backoff_multiplier", .num (.float r.multiplier)), ("jitter", .bool r.jitter),
    ("fixed_delay_ms", optionToJson r.fixed), ("max_attempts", optionToJson r.maxAttempts)]

/-- The retry settings of a record, each with its default. -/
def ofJson? (j : Json) : Option Retry := do
  let m ← Json.members? ["initial_backoff_ms", "max_backoff_ms", "backoff_multiplier", "jitter", "fixed_delay_ms",
    "max_attempts"] j
  return ⟨← m.optional "initial_backoff_ms" standard.initial Json.nat64?,
    ← m.optional "max_backoff_ms" standard.bound Json.nat64?,
    ← m.optional "backoff_multiplier" standard.multiplier Json.float?,
    ← m.optional "jitter" standard.jitter Json.bool?,
    ← m.optional "fixed_delay_ms" none (Json.nullable? Json.nat64?),
    ← m.optional "max_attempts" none (Json.nullable? Json.nat32?)⟩

instance : Record Retry := ⟨toJson, ofJson?⟩

end Retry

end ContentMesh
