import ContentMesh.Calendar.Stamp
import ContentMesh.Json.Value
import ContentMesh.Text.Blank

/-!
# ContentMesh.Toml.Scalar — strings, numbers and dates of TOML

Each reader takes characters and gives a value with what follows, or nothing.  Values are JSON values, because
settings are decoded from one form of record; a date is `Json.garbled`, as no setting is a date.
-/

namespace ContentMesh.Toml

open Text

/-- What is read, and what follows. -/
abbrev Reading (α : Type) := List Char → Option (α × List Char)

/-! ## Characters -/

/-- A blank inside a line. -/
def blank (c : Char) : Bool := c = ' ' || c = '\t'

/-- What follows the blanks. -/
def skipBlanks (cs : List Char) : List Char := cs.dropWhile blank

/-- Whether a character may stand in a comment or a string: no control character but the tab. -/
def printable (c : Char) : Bool := c = '\t' || (32 ≤ c.toNat && c.toNat != 127)

/-- What follows a newline. -/
def newline? : List Char → Option (List Char)
  | '\n' :: r => some r
  | '\r' :: '\n' :: r => some r
  | _ => none

/-- What follows a comment; its line ends there. -/
def skipComment : List Char → List Char
  | '#' :: r => r.dropWhile printable
  | cs => cs

/-- The value of a hexadecimal digit. -/
def hexValue? (c : Char) : Option Nat :=
  let n := c.toNat
  if 48 ≤ n ∧ n ≤ 57 then some (n - 48)
  else if 97 ≤ n ∧ n ≤ 102 then some (n - 87)
  else if 65 ≤ n ∧ n ≤ 70 then some (n - 55)
  else none

/-! ## Strings -/

/-- The character of `width` hexadecimal digits. -/
def codePoint (width : Nat) : Reading Char := fun cs =>
  let ds := cs.take width
  if ds.length = width && ds.all fun c => (hexValue? c).isSome then
    let n := ds.foldl (fun n d => 16 * n + (hexValue? d).getD 0) 0
    if n.isValidChar then some (Char.ofNat n, cs.drop width) else none
  else none

/-- The character of an escape, after its backslash. -/
def escape : Reading Char
  | 'b' :: r => some ('\x08', r)
  | 't' :: r => some ('\t', r)
  | 'n' :: r => some ('\n', r)
  | 'f' :: r => some ('\x0c', r)
  | 'r' :: r => some ('\r', r)
  | '"' :: r => some ('"', r)
  | '\\' :: r => some ('\\', r)
  | 'u' :: r => codePoint 4 r
  | 'U' :: r => codePoint 8 r
  | _ => none

/-- A string in double quotes after the first of them. -/
def basic : Nat → List Char → Reading String
  | 0, _, _ => none
  | fuel + 1, done, cs =>
    match cs with
    | '"' :: r => some (String.ofList done.reverse, r)
    | '\\' :: r =>
      match escape r with
      | some (c, r) => basic fuel (c :: done) r
      | none => none
    | c :: r => if printable c then basic fuel (c :: done) r else none
    | [] => none

/-- A string in single quotes after the first of them. -/
def literal (cs : List Char) : Option (String × List Char) :=
  let body := cs.takeWhile fun c => c ≠ '\'' && printable c
  match cs.drop body.length with
  | '\'' :: r => some (String.ofList body, r)
  | _ => none

/-- How many of the first five characters are the given quote. -/
def quoteCount (q : Char) (cs : List Char) : Nat := ((cs.take 5).takeWhile (· = q)).length

/-- What follows blanks and newlines. -/
def skipLines (cs : List Char) : List Char := cs.dropWhile fun c => blank c || c = '\n' || c = '\r'

/-- A string over several lines, after its opening quotes: three quotes end it, and up to two may stand before
those.  Between double quotes escapes count, and a backslash at the end of a line joins it with the next text. -/
def multiline (q : Char) : Nat → List Char → Reading String
  | 0, _, _ => none
  | fuel + 1, done, cs =>
    let n := quoteCount q cs
    if 3 ≤ n then some (String.ofList (List.replicate (n - 3) q ++ done).reverse, cs.drop n)
    else
      match cs with
      | '\\' :: r =>
        if q = '"' then
          match newline? (skipBlanks r) with
          | some r => multiline q fuel done (skipLines r)
          | none =>
            match escape r with
            | some (c, r) => multiline q fuel (c :: done) r
            | none => none
        else multiline q fuel ('\\' :: done) r
      | '\n' :: r => multiline q fuel ('\n' :: done) r
      | '\r' :: '\n' :: r => multiline q fuel ('\n' :: done) r
      | c :: r => if printable c then multiline q fuel (c :: done) r else none
      | [] => none

/-- A string on one line. -/
def lineString : Reading String
  | '"' :: r => basic (r.length + 1) [] r
  | '\'' :: r => literal r
  | _ => none

/-- A string; a newline right after three opening quotes does not count. -/
def string : Reading String
  | '"' :: '"' :: '"' :: r => multiline '"' (r.length + 1) [] ((newline? r).getD r)
  | '\'' :: '\'' :: '\'' :: r => multiline '\'' (r.length + 1) [] ((newline? r).getD r)
  | cs => lineString cs

/-! ## Numbers -/

/-- Digits of a class with single underscores between them, the underscores left out. -/
def digitRun (ok : Char → Bool) : Reading (List Char) := fun cs =>
  let rec go : List Char → List Char × List Char
    | '_' :: d :: r =>
      if ok d then
        let (ds, r) := go r
        (d :: ds, r)
      else ([], '_' :: d :: r)
    | c :: r =>
      if ok c then
        let (ds, r) := go r
        (c :: ds, r)
      else ([], c :: r)
    | [] => ([], [])
  match cs with
  | c :: r =>
    if ok c then
      let (ds, r) := go r
      some (c :: ds, r)
    else none
  | [] => none

/-- A sign, minus or not. -/
def sign : List Char → Bool × List Char
  | '+' :: r => (false, r)
  | '-' :: r => (true, r)
  | cs => (false, cs)

/-- An integer of 64 bits with a sign. -/
def integerOf (negative : Bool) (n : Nat) : Option Json :=
  if negative then
    if n = 0 then some (.ofNat 0) else if n ≤ 1 <<< 63 then some (.num (.neg n)) else none
  else if n < 1 <<< 63 then some (.ofNat n)
  else none

/-- An integer in another radix, after its two letters. -/
def radixInteger (radix : Nat) : Reading Json := fun cs => do
  let (ds, r) ← digitRun (fun c => (hexValue? c).any (· < radix)) cs
  let j ← integerOf false (ds.foldl (fun n d => radix * n + (hexValue? d).getD 0) 0)
  return (j, r)

/-- `digits × 10^exponent`, correctly rounded; infinite where it is too large. -/
def floatOf (digits : List Char) (exponent : Int) : Float :=
  let m := number digits
  let size : Int := (Nat.toDigits 10 m).length + exponent
  if m = 0 then 0.0
  else if 400 < size then 1.0 / 0.0
  else if size < -400 then 0.0
  else if exponent < 0 then Float.ofScientific m true exponent.natAbs
  else Float.ofScientific m false exponent.natAbs

/-- The exponent of a float, after its letter. -/
def exponent : Reading Int := fun cs => do
  let (negative, cs) := sign cs
  let (ds, r) ← digitRun digit cs
  let n : Int := number ds
  return (if negative then -n else n, r)

/-- A float with a fraction or an exponent; one too large is refused if it is positive. -/
def float : Reading Json := fun cs => do
  let (negative, cs) := sign cs
  let (whole, cs) ← digitRun digit cs
  guard (whole.length = 1 || whole.head? != some '0')
  let (fraction, cs, marked) ← match cs with
    | '.' :: r => (digitRun digit r).map fun p => (p.1, p.2, true)
    | r => some ([], r, false)
  let (e, cs, marked) ← match cs with
    | 'e' :: r | 'E' :: r => (exponent r).map fun p => (p.1, p.2, true)
    | r => some (0, r, marked)
  guard marked
  let x := floatOf (whole ++ fraction) (e - fraction.length)
  guard (negative || !x.isInf)
  return (.num (.float (if negative then -x else x)), cs)

/-- An infinity or the value that is no number. -/
def special : Reading Json := fun cs =>
  let (negative, cs) := sign cs
  match cs with
  | 'i' :: 'n' :: 'f' :: r => some (.num (.float (if negative then -1.0 / 0.0 else 1.0 / 0.0)), r)
  | 'n' :: 'a' :: 'n' :: r => some (.num (.float (0.0 / 0.0)), r)
  | _ => none

/-- An integer. -/
def integer : Reading Json
  | '0' :: 'x' :: r => radixInteger 16 r
  | '0' :: 'o' :: r => radixInteger 8 r
  | '0' :: 'b' :: r => radixInteger 2 r
  | cs => do
    let (negative, cs) := sign cs
    let (ds, r) ← digitRun digit cs
    guard (ds.length = 1 || ds.head? != some '0')
    let j ← integerOf negative (number ds)
    return (j, r)

/-! ## Dates and times -/

/-- A number of exactly `n` digits between two bounds. -/
def fixed (n low high : Nat) : Reading Nat := fun cs =>
  let ds := cs.take n
  if ds.length = n && ds.all digit && low ≤ number ds && number ds ≤ high then some (number ds, cs.drop n) else none

/-- What follows an expected character. -/
def after (c : Char) : List Char → Option (List Char)
  | d :: r => if c = d then some r else none
  | [] => none

/-- A date. -/
def date : Reading Unit := fun cs => do
  let (y, cs) ← fixed 4 0 9999 cs
  let (m, cs) ← (after '-' cs).bind (fixed 2 1 12)
  let (_, cs) ← (after '-' cs).bind (fixed 2 1 (daysIn y m))
  return ((), cs)

/-- A time of day. -/
def time : Reading Unit := fun cs => do
  let (_, cs) ← fixed 2 0 23 cs
  let (_, cs) ← (after ':' cs).bind (fixed 2 0 59)
  let (_, cs) ← (after ':' cs).bind (fixed 2 0 60)
  match cs with
  | '.' :: d :: r => if digit d then some ((), r.dropWhile digit) else some ((), cs)
  | cs => some ((), cs)

/-- An offset from UTC. -/
def zone : Reading Unit
  | 'Z' :: r | 'z' :: r => some ((), r)
  | '+' :: r | '-' :: r => do
    let (_, r) ← fixed 2 0 23 r
    let (_, r) ← (after ':' r).bind (fixed 2 0 59)
    return ((), r)
  | _ => none

/-- A date, a time, or both with or without an offset. -/
def dateTime : Reading Json := fun cs =>
  match date cs with
  | some (_, r) =>
    let timed := match r with
      | 'T' :: r | 't' :: r | ' ' :: r => time r
      | _ => none
    match timed with
    | some (_, r) => some (.garbled, ((zone r).map (·.2)).getD r)
    | none => some (.garbled, r)
  | none => (time cs).map fun p => (.garbled, p.2)

/-- A number or a date. -/
def numeric (cs : List Char) : Option (Json × List Char) :=
  (dateTime cs).or ((special cs).or ((float cs).or (integer cs)))

/-- A value that holds no others. -/
def scalar (cs : List Char) : Option (Json × List Char) :=
  match cs with
  | 't' :: 'r' :: 'u' :: 'e' :: r => some (.bool true, r)
  | 'f' :: 'a' :: 'l' :: 's' :: 'e' :: r => some (.bool false, r)
  | '"' :: _ | '\'' :: _ => (string cs).map fun p => (.str p.1, p.2)
  | _ => numeric cs

end ContentMesh.Toml
