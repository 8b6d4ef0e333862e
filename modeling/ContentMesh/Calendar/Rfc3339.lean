import ContentMesh.Calendar.Stamp
import ContentMesh.Text.Blank

/-!
# ContentMesh.Calendar.Rfc3339 — stamps as text

One way of writing: four digits for a year up to 9999, a sign and more digits beyond, and a fraction of none,
three, six or nine digits.  Two ways of reading: `read` takes the profile of RFC 3339 with a fixed layout, and
says what is wrong with other text; `readLoose` also takes blanks between the fields, short fields and signed
years, as stored records do.
-/

namespace ContentMesh.Rfc3339

open Text

/-! ## Writing -/

/-- The year field. -/
def yearText (y : Int) : List Char :=
  if 0 ≤ y ∧ y ≤ 9999 then padded 4 y.toNat
  else
    let a := y.natAbs
    (if y < 0 then '-' else '+') :: (if a < 10000 then padded 4 a else Nat.toDigits 10 a)

/-- The fraction of a second, of as many groups of three digits as it needs. -/
def fractionText (n : Nat) : List Char :=
  if n = 0 then []
  else if n % 1000000 = 0 then '.' :: padded 3 (n / 1000000)
  else if n % 1000 = 0 then '.' :: padded 6 (n / 1000)
  else '.' :: padded 9 n

/-- A stamp up to its zone. -/
def body (s : Stamp) : List Char :=
  let second := if s.nano < 1000000000 then s.second else s.second + 1
  yearText s.year ++ '-' :: padded 2 s.month ++ '-' :: padded 2 s.day ++ 'T' :: padded 2 s.hour ++
    ':' :: padded 2 s.minute ++ ':' :: padded 2 second ++ fractionText (s.nano % 1000000000)

/-- A stamp with its offset written out, as messages carry it. -/
def text (s : Stamp) : String := String.ofList (body s ++ ['+', '0', '0', ':', '0', '0'])

/-- A stamp with the zone letter, as records hold it. -/
def recordText (s : Stamp) : String := String.ofList (body s ++ ['Z'])

/-! ## Reading the fixed layout -/

/-- What is wrong with a text that is no stamp. -/
inductive Fault where
  | short
  | invalid
  | range
  | trailing
  deriving DecidableEq, Repr

/-- The wording of a fault. -/
def Fault.message : Fault → String
  | .short => "premature end of input"
  | .invalid => "input contains invalid characters"
  | .range => "input is out of range"
  | .trailing => "trailing input"

/-- The number of `n` digits, and what follows them. -/
def digits : Nat → List Char → Except Fault (Nat × List Char)
  | 0, cs => .ok (0, cs)
  | _ + 1, [] => .error .short
  | n + 1, c :: cs =>
    if digit c then do
      let (v, r) ← digits n cs
      return ((c.toNat - 48) * Nat.pow 10 n + v, r)
    else .error .invalid

/-- What follows an expected character. -/
def skip (c : Char) : List Char → Except Fault (List Char)
  | [] => .error .short
  | d :: r => if c = d then .ok r else .error .invalid

/-- How many bytes a character takes. -/
def width (c : Char) : Nat := c.utf8Size

/-- The fault of text with fewer than two characters: it is short unless it fills two bytes. -/
def tooFew : List Char → Fault
  | [c] => if 2 ≤ width c then .invalid else .short
  | _ => .short

/-- The minutes of an offset: two digits below 60. -/
def offsetMinutes : List Char → Except Fault (Nat × List Char)
  | a :: b :: r =>
    if '0' ≤ a ∧ a ≤ '5' ∧ digit b then .ok ((a.toNat - 48) * 10 + (b.toNat - 48), r)
    else if '6' ≤ a ∧ a ≤ '9' ∧ digit b then .error .range
    else .error .invalid
  | cs => .error (tooFew cs)

/-- The hours of an offset: two digits. -/
def offsetHours : List Char → Except Fault (Nat × List Char)
  | a :: b :: r =>
    if digit a ∧ digit b then .ok ((a.toNat - 48) * 10 + (b.toNat - 48), r) else .error .invalid
  | cs => .error (tooFew cs)

/-- An offset from UTC in minutes; `separator` reads what stands between its hours and minutes. -/
def offset (separator : List Char → Except Fault (List Char)) : List Char → Except Fault (Int × List Char)
  | [] => .error .short
  | c :: r =>
    if c = 'Z' ∨ c = 'z' then .ok (0, r)
    else if c = '+' ∨ c = '-' ∨ c = '−' then do
      let (h, r) ← offsetHours r
      let r ← separator r
      let (m, r) ← offsetMinutes r
      let total : Int := 60 * h + m
      return (if c = '+' then total else -total, r)
    else .error .invalid

/-- A fraction of a second after its point: nine digits count, more are passed over. -/
def fraction (cs : List Char) : Except Fault (Nat × List Char) :=
  let ds := cs.takeWhile digit
  match cs, ds with
  | [], _ => .error .short
  | _, [] => .error .invalid
  | _, _ =>
    let kept := ds.take 9
    .ok (number kept * Nat.pow 10 (9 - kept.length), cs.dropWhile digit)

/-- Second 60 is the leap second after second 59. -/
def leap (second nano : Nat) : Nat × Nat := if second = 60 then (59, nano + 1000000000) else (second, nano)

/-- The stamp that a text of the fixed layout names. -/
def read (s : String) : Except Fault Stamp := do
  let cs := s.toList
  if (cs.map width).foldl (· + ·) 0 < 19 then throw .short
  let (year, cs) ← digits 4 cs
  let cs ← skip '-' cs
  let (month, cs) ← digits 2 cs
  let cs ← skip '-' cs
  let (day, cs) ← digits 2 cs
  unless 1 ≤ month ∧ month ≤ 12 ∧ 1 ≤ day ∧ day ≤ daysIn year month do throw .range
  let cs ← match cs with
    | 'T' :: r | 't' :: r | ' ' :: r => .ok r
    | _ => .error .invalid
  let (hour, cs) ← digits 2 cs
  let cs ← skip ':' cs
  let (minute, cs) ← digits 2 cs
  let cs ← skip ':' cs
  let (second, cs) ← digits 2 cs
  let (nano, cs) ← match cs with
    | '.' :: r => fraction r
    | r => .ok (0, r)
  let (second, nano) := leap second nano
  unless hour ≤ 23 ∧ minute ≤ 59 ∧ second ≤ 59 do throw .range
  let (ahead, cs) ← offset (skip ':') cs
  unless cs.isEmpty do throw .trailing
  unless ahead.natAbs ≤ 1439 do throw .range
  match Stamp.ofLocal? year month day hour minute second nano ahead with
  | some t => .ok t
  | none => .error .range

/-! ## Reading records -/

/-- A number of one to `n` digits after blanks. -/
def shortNumber (n : Nat) (cs : List Char) : Option (Nat × List Char) :=
  let cs := trimStart cs
  let ds := (cs.takeWhile digit).take n
  if ds.isEmpty then none else some (number ds, cs.drop ds.length)

/-- A year after blanks: up to four digits, or a sign and any number of them. -/
def looseYear (cs : List Char) : Option (Int × List Char) :=
  let long := fun (sign : Int) (r : List Char) =>
    let ds := r.takeWhile digit
    if ds.isEmpty then none else some (sign * (number ds : Int), r.dropWhile digit)
  match trimStart cs with
  | '-' :: r => long (-1) r
  | '+' :: r => long 1 r
  | r => (shortNumber 4 r).map fun p => ((p.1 : Int), p.2)

/-- What follows blanks and an expected character. -/
def looseSkip (c : Char) (cs : List Char) : Option (List Char) :=
  match trimStart cs with
  | d :: r => if c = d then some r else none
  | [] => none

/-- The zone of a record: `UTC` in any case, the zone letter, or an offset with blanks and colons inside. -/
def looseZone (cs : List Char) : Option (Int × List Char) :=
  let cs := trimStart cs
  match cs with
  | a :: b :: c :: r =>
    if lower (String.ofList [a, b, c]) = "utc" then some (0, r)
    else (offset (fun r => .ok (r.dropWhile fun c => c = ':' || blank c)) cs).toOption
  | _ => (offset (fun r => .ok (r.dropWhile fun c => c = ':' || blank c)) cs).toOption

/-- The stamp that a record's text names. -/
def readLoose (s : String) : Option Stamp := do
  let (year, cs) ← looseYear s.toList
  let (month, cs) ← (looseSkip '-' cs).bind (shortNumber 2)
  let (day, cs) ← (looseSkip '-' cs).bind (shortNumber 2)
  let cs ← match cs with
    | 'T' :: r | 't' :: r | ' ' :: r => some r
    | _ => none
  let (hour, cs) ← shortNumber 2 cs
  let (minute, cs) ← (looseSkip ':' cs).bind (shortNumber 2)
  let (second, cs) ← (looseSkip ':' cs).bind (shortNumber 2)
  let (nano, cs) ← match cs with
    | '.' :: r => (fraction r).toOption
    | r => some (0, r)
  let (ahead, cs) ← looseZone cs
  guard (trimStart cs).isEmpty
  let (second, nano) := leap second nano
  guard (ahead.natAbs ≤ 1439)
  Stamp.ofLocal? year month day hour minute second nano ahead

end ContentMesh.Rfc3339
