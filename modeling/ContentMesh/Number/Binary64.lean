/-!
# ContentMesh.Number.Binary64 — shortest decimal text of a 64-bit float, and reading one

`Decimal.ofFloat` finds the fewest digits that read back as the float, and among those the nearest, by exact
arithmetic on the float's bits.  `text` fixes how a record writes the result.  `ofParts` is the reading rule of
records: a significand of at most 64 bits, scaled by one power of ten at a time.
-/

namespace ContentMesh.Binary64

/-! ## Shortest digits -/

/-- A positive decimal: `0.d₁d₂… × 10^(exponent + 1)`, so `exponent` is that of the first digit. -/
structure Decimal where
  digits : List Nat
  exponent : Int
  deriving Repr, DecidableEq

/-- The decimal digits of a number, most significant first. -/
def digitsOf (n : Nat) : List Nat := (Nat.toDigits 10 n).map fun c => c.toNat - 48

/-- The value `num / den` lies in `[10^e, 10^(e+1))` for this `e`. -/
def magnitude (num den : Nat) : Int :=
  if den ≤ num then ((digitsOf (num / den)).length : Int) - 1
  else
    let d := (digitsOf (den / num)).length
    if num * Nat.pow 10 (d - 1) = den then -(((d - 1 : Nat)) : Int) else -(d : Int)

/-- The float's value as a quotient, with the interval of numbers that round to it. -/
structure Neighbourhood where
  num : Nat
  den : Nat
  low : Nat
  high : Nat
  closed : Bool

/-- Numerators over a common denominator: four times the significand, and its two half-way points. -/
def Neighbourhood.ofBits (bits : Nat) : Neighbourhood :=
  let field : Nat := bits / (1 <<< 52) % (1 <<< 11)
  let fraction : Nat := bits % (1 <<< 52)
  let m : Nat := if field = 0 then fraction else (1 <<< 52) + fraction
  let q : Int := (if field = 0 then 1 else (field : Int)) - 1077
  let below : Nat := if fraction = 0 ∧ field > 1 then 1 else 2
  let up : Nat := 1 <<< q.toNat
  let down : Nat := 1 <<< (-q).toNat
  ⟨4 * m * up, down, (4 * m - below) * up, (4 * m + 2) * up, m % 2 == 0⟩

/-- The nearest point of the grid of `n` digits that lies in the neighbourhood, as a multiple of the grid unit. -/
def Neighbourhood.onGrid (v : Neighbourhood) (e : Int) (n : Nat) : Option Nat :=
  let u : Int := e - (n : Int) + 1
  let scale := Nat.pow 10 (-u).toNat
  let den := v.den * Nat.pow 10 u.toNat
  let num := v.num * scale
  let low := v.low * scale
  let high := v.high * scale
  let inside := fun d => let x := d * den
    if v.closed then low ≤ x && x ≤ high else low < x && x < high
  let d := num / den
  let above := (d + 1) * den - num
  let beneath := num - d * den
  if inside d && (!(inside (d + 1)) || beneath < above || (beneath == above && d % 2 == 0)) then some d
  else if inside (d + 1) then some (d + 1)
  else none

/-- Digits without the zeros at their end. -/
def trim (ds : List Nat) : List Nat := (ds.reverse.dropWhile (· == 0)).reverse

/-- The fewest digits that lie in the neighbourhood: the first of the grids of 1 to 17 digits with a point in it. -/
def Neighbourhood.shortest (v : Neighbourhood) : Decimal :=
  let e := magnitude v.num v.den
  match (List.range 17).findSome? fun i => (v.onGrid e (i + 1)).map fun d => (i + 1, d) with
  | some (n, d) =>
    let ds := digitsOf d
    ⟨trim ds, e + ((ds.length : Int) - (n : Int))⟩
  | none => ⟨[0], 0⟩

/-- The decimal of a finite positive float. -/
def Decimal.ofFloat (x : Float) : Decimal := (Neighbourhood.ofBits (x.toBits.toNat % (1 <<< 63))).shortest

/-! ## Writing -/

/-- Digits as text. -/
def digitText (ds : List Nat) : String := String.ofList (ds.map fun d => Char.ofNat (48 + d))

/-- Zeros as text. -/
def zeros (n : Nat) : String := String.ofList (List.replicate n '0')

/-- Positional between `1e-5` and `1e16`, with a fraction always; beyond, one digit before the point, a signed
exponent of at least two digits. -/
def Decimal.text (x : Decimal) : String :=
  let ds := x.digits
  if -5 ≤ x.exponent ∧ x.exponent ≤ 15 then
    if x.exponent < 0 then "0." ++ zeros (-x.exponent - 1).toNat ++ digitText ds
    else
      let e := x.exponent.toNat
      if ds.length ≤ e + 1 then digitText ds ++ zeros (e + 1 - ds.length) ++ ".0"
      else digitText (ds.take (e + 1)) ++ "." ++ digitText (ds.drop (e + 1))
  else
    let rest := ds.drop 1
    let a := x.exponent.natAbs
    digitText (ds.take 1) ++ (if rest.isEmpty then "" else "." ++ digitText rest) ++ "e"
      ++ (if x.exponent < 0 then "-" else "+") ++ (if a < 10 then "0" else "") ++ toString a

/-- A finite float as text; `none` for a NaN or an infinity, which a record cannot hold. -/
def text? (x : Float) : Option String :=
  if x.isNaN || x.isInf then none
  else
    let sign := if x.toBits.toNat ≥ 1 <<< 63 then "-" else ""
    if x == 0 then some (sign ++ "0.0") else some (sign ++ (Decimal.ofFloat x).text)

/-! ## Reading -/

/-- A power of ten up to `1e308`, correctly rounded. -/
def powerOfTen (n : Nat) : Float := Float.ofScientific 1 false n

/-- Divides by `1e308` until the exponent is in range, then by what is left. -/
def scaleDown (x : Float) (n : Nat) : Float :=
  if n ≤ 308 then x / powerOfTen n
  else if x == 0 then x
  else scaleDown (x / powerOfTen 308) (n - 308)
termination_by n

/-- `significand × 10^exponent` by one multiplication or by divisions; `none` where it is too large. -/
def ofParts (significand : Nat) (exponent : Int) : Option Float :=
  let x := significand.toUInt64.toFloat
  if exponent < 0 then some (scaleDown x exponent.natAbs)
  else if exponent > 308 then (if x == 0 then some x else none)
  else
    let y := x * powerOfTen exponent.toNat
    if y.isInf then none else some y

end ContentMesh.Binary64
