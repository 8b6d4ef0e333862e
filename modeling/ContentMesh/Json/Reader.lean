import ContentMesh.Json.Value

/-!
# ContentMesh.Json.Reader — reading JSON trees from bytes

The reader is a machine over single bytes with a stack of open arrays and objects, so what is read of a prefix does
not depend on what follows it.  What a string or a number stands for is decided when it ends.
-/

namespace ContentMesh.Json

/-! ## Numbers -/

/-- A number as it stands in the text: sign, digits of the integer part and of the fraction, signed exponent. -/
structure Lexeme where
  negative : Bool
  whole : List Nat
  fraction : List Nat
  exponent : Option (Bool × List Nat)

/-- The largest significand that is kept exactly. -/
def significandLimit : Nat := 1 <<< 64

/-- Takes digits into a significand while it stays below the limit; the rest is returned. -/
def absorb (n : Nat) : List Nat → Nat × List Nat
  | [] => (n, [])
  | d :: ds => if 10 * n + d < significandLimit then absorb (10 * n + d) ds else (n, d :: ds)

/-- The number that digits spell. -/
def numberOf (ds : List Nat) : Nat := ds.foldl (fun n d => 10 * n + d) 0

/-- The bound of exponents that are looked at; a larger one makes zero or no number. -/
def exponentLimit : Nat := 1 <<< 31

/-- A float with a sign. -/
def signed (negative : Bool) (x : Float) : Numeral := .float (if negative then -x else x)

/-- The number of a lexeme: an integer of 64 bits stays one, all else becomes a float.  Digits beyond the
significand's limit count by their place only, a fraction's not at all. -/
def Lexeme.value? (l : Lexeme) : Option Numeral :=
  let (n, beyond) := absorb 0 l.whole
  if beyond.isEmpty && l.fraction.isEmpty && l.exponent.isNone then
    if !l.negative then some (.nat n)
    else if n = 0 then some (.float (-0.0))
    else if n ≤ 1 <<< 63 then some (.neg n)
    else some (.float (-n.toUInt64.toFloat))
  else
    let (m, unread) := absorb n l.fraction
    let place : Int := (beyond.length : Int) - ((l.fraction.length - unread.length : Nat) : Int)
    match l.exponent with
    | none => (Binary64.ofParts m place).map (signed l.negative)
    | some (down, ds) =>
      let e := numberOf ds
      if e < exponentLimit then (Binary64.ofParts m (if down then place - e else place + e)).map (signed l.negative)
      else if m ≠ 0 && !down then none
      else some (signed l.negative 0.0)

/-! ## Machine -/

/-- Where a number stands. -/
inductive Phase where
  | sign
  | zero
  | whole
  | point
  | fraction
  | mark
  | markSign
  | exponent
  deriving DecidableEq

/-- A number being read, its digits newest first. -/
structure NumberSoFar where
  phase : Phase
  negative : Bool
  whole : List Nat
  fraction : List Nat
  down : Bool
  exponent : List Nat

/-- Where a string stands: in plain text, after a backslash, or inside the digits of an escape. -/
inductive Escape where
  | plain
  | backslash
  | digits (owed code : Nat)

/-- A string being read: its bytes newest first, the first half of a surrogate pair that waits for the second,
and whether some escape stood for nothing. -/
structure TextSoFar where
  bytes : Bytes
  half : Option Nat
  broken : Bool
  escape : Escape

/-- An open array, or an open object, its contents newest first; a name that stands for nothing is `none`. -/
inductive Frame where
  | arr (done : List Json)
  | obj (done : List (Option String × Json))
  | member (done : List (Option String × Json)) (name : Option String)

/-- What the next byte may be. -/
inductive Mode where
  | value
  | firstElement
  | firstName
  | name
  | colon (name : Option String)
  | more
  | text (isName : Bool) (t : TextSoFar)
  | number (n : NumberSoFar)
  | word (rest : Bytes) (v : Json)
  | finished (v : Json)

/-- The reader between two bytes. -/
structure State where
  mode : Mode
  stack : List Frame

/-- A blank between tokens. -/
def blank (b : UInt8) : Bool := b == 32 || b == 9 || b == 10 || b == 13

/-- A complete value goes into the container on top of the stack, or is the whole text. -/
def complete (v : Json) : List Frame → Option State
  | [] => some ⟨.finished v, []⟩
  | .arr done :: s => some ⟨.more, .arr (v :: done) :: s⟩
  | .member done name :: s => some ⟨.more, .obj ((name, v) :: done) :: s⟩
  | .obj _ :: _ => none

/-- The object of members that are newest first. -/
def objectOf (done : List (Option String × Json)) : Json :=
  match done.reverse.mapM fun m => m.1.map fun k => (k, m.2) with
  | some ms => obj ms
  | none => garbled

/-- The value of an ended string. -/
def TextSoFar.value? (t : TextSoFar) : Option String :=
  if t.broken || t.half.isSome then none else Bytes.text? t.bytes.reverse

/-- Ends a string as a name or as a value. -/
def endText (isName : Bool) (t : TextSoFar) (s : List Frame) : Option State :=
  if isName then some ⟨.colon t.value?, s⟩
  else complete ((t.value?.map str).getD garbled) s

/-- A string with a further byte. -/
def TextSoFar.push (t : TextSoFar) (b : UInt8) : TextSoFar :=
  { t with bytes := b :: t.bytes, broken := t.broken || t.half.isSome, half := none, escape := .plain }

/-- The value of a hexadecimal digit. -/
def hexValue? (b : UInt8) : Option Nat :=
  if 48 ≤ b && b ≤ 57 then some (b.toNat - 48)
  else if 97 ≤ b && b ≤ 102 then some (b.toNat - 87)
  else if 65 ≤ b && b ≤ 70 then some (b.toNat - 55)
  else none

/-- A string with the code unit of an escape: a first half waits, a second half completes it, and a half alone
breaks the string. -/
def TextSoFar.pushUnit (t : TextSoFar) (u : Nat) : TextSoFar :=
  let t := { t with escape := .plain }
  match t.half with
  | some h =>
    if 0xDC00 ≤ u ∧ u ≤ 0xDFFF then
      let c := Char.ofNat (0x10000 + (h - 0xD800) * 1024 + (u - 0xDC00))
      { t with bytes := (Utf8.encodeChar c).reverse ++ t.bytes, half := none }
    else { t with half := none, broken := true }
  | none =>
    if 0xD800 ≤ u ∧ u ≤ 0xDBFF then { t with half := some u }
    else if 0xDC00 ≤ u ∧ u ≤ 0xDFFF then { t with broken := true }
    else { t with bytes := (Utf8.encodeChar (Char.ofNat u)).reverse ++ t.bytes }

/-- One byte inside a string. -/
def stepText (isName : Bool) (t : TextSoFar) (s : List Frame) (b : UInt8) : Option State :=
  let next := fun (t : TextSoFar) => some (⟨.text isName t, s⟩ : State)
  match t.escape with
  | .plain =>
    if b == 34 then endText isName t s
    else if b == 92 then next { t with escape := .backslash }
    else if b < 32 then none
    else next (t.push b)
  | .backslash =>
    if b == 34 || b == 92 || b == 47 then next (t.push b)
    else if b == 98 then next (t.push 8)
    else if b == 102 then next (t.push 12)
    else if b == 110 then next (t.push 10)
    else if b == 114 then next (t.push 13)
    else if b == 116 then next (t.push 9)
    else if b == 117 then next { t with escape := .digits 4 0 }
    else none
  | .digits owed code =>
    match hexValue? b with
    | none => none
    | some d =>
      if owed ≤ 1 then next (t.pushUnit (16 * code + d))
      else next { t with escape := .digits (owed - 1) (16 * code + d) }

/-- Whether a byte is a digit. -/
def isDigit (b : UInt8) : Bool := 48 ≤ b && b ≤ 57

/-- A number with a further byte; `none` where the byte does not belong to it. -/
def NumberSoFar.push? (n : NumberSoFar) (b : UInt8) : Option NumberSoFar :=
  let d := b.toNat - 48
  match n.phase with
  | .sign =>
    if b == 48 then some { n with phase := .zero, whole := [0] }
    else if isDigit b then some { n with phase := .whole, whole := [d] }
    else none
  | .zero =>
    if b == 46 then some { n with phase := .point }
    else if b == 101 || b == 69 then some { n with phase := .mark }
    else none
  | .whole =>
    if isDigit b then some { n with whole := d :: n.whole }
    else if b == 46 then some { n with phase := .point }
    else if b == 101 || b == 69 then some { n with phase := .mark }
    else none
  | .point => if isDigit b then some { n with phase := .fraction, fraction := [d] } else none
  | .fraction =>
    if isDigit b then some { n with fraction := d :: n.fraction }
    else if b == 101 || b == 69 then some { n with phase := .mark }
    else none
  | .mark =>
    if isDigit b then some { n with phase := .exponent, exponent := [d] }
    else if b == 43 then some { n with phase := .markSign }
    else if b == 45 then some { n with phase := .markSign, down := true }
    else none
  | .markSign => if isDigit b then some { n with phase := .exponent, exponent := [d] } else none
  | .exponent => if isDigit b then some { n with exponent := d :: n.exponent } else none

/-- The value of a number that ends here. -/
def NumberSoFar.end? (n : NumberSoFar) : Option Json :=
  let exponent := fun (e : Option (Bool × List Nat)) =>
    let l : Lexeme := ⟨n.negative, n.whole.reverse, n.fraction.reverse, e⟩
    some ((l.value?.map num).getD garbled)
  match n.phase with
  | .zero | .whole | .fraction => exponent none
  | .exponent => exponent (some (n.down, n.exponent.reverse))
  | _ => none

/-- The first byte of a value. -/
def stepValue (s : List Frame) (b : UInt8) : Option State :=
  if b == 34 then some ⟨.text false ⟨[], none, false, .plain⟩, s⟩
  else if b == 91 then some ⟨.firstElement, .arr [] :: s⟩
  else if b == 123 then some ⟨.firstName, .obj [] :: s⟩
  else if b == 45 then some ⟨.number ⟨.sign, true, [], [], false, []⟩, s⟩
  else if isDigit b then
    ((⟨.sign, false, [], [], false, []⟩ : NumberSoFar).push? b).map fun n => ⟨.number n, s⟩
  else if b == 110 then some ⟨.word [117, 108, 108] null, s⟩
  else if b == 116 then some ⟨.word [114, 117, 101] (bool true), s⟩
  else if b == 102 then some ⟨.word [97, 108, 115, 101] (bool false), s⟩
  else none

/-- The first byte of a member. -/
def stepName (s : List Frame) (b : UInt8) : Option State :=
  if b == 34 then some ⟨.text true ⟨[], none, false, .plain⟩, s⟩ else none

/-- A byte after a value in a container: a comma, or the bracket that closes it. -/
def stepMore : List Frame → UInt8 → Option State
  | .arr done :: s, b =>
    if b == 44 then some ⟨.value, .arr done :: s⟩
    else if b == 93 then complete (arr done.reverse) s
    else none
  | .obj done :: s, b =>
    if b == 44 then some ⟨.name, .obj done :: s⟩
    else if b == 125 then complete (objectOf done) s
    else none
  | _, _ => none

/-- A byte outside strings, numbers and words. -/
def stepOutside (mode : Mode) (s : List Frame) (b : UInt8) : Option State :=
  if blank b then some ⟨mode, s⟩
  else
    match mode, s with
    | .value, s => stepValue s b
    | .firstElement, s => if b == 93 then stepMore s b else stepValue s b
    | .firstName, s => if b == 125 then stepMore s b else stepName s b
    | .name, s => stepName s b
    | .colon name, .obj done :: s => if b == 58 then some ⟨.value, .member done name :: s⟩ else none
    | .more, s => stepMore s b
    | _, _ => none

/-- One byte. -/
def step (t : State) (b : UInt8) : Option State :=
  match t.mode with
  | .text isName x => stepText isName x t.stack b
  | .number n =>
    match n.push? b with
    | some n => some ⟨.number n, t.stack⟩
    | none => n.end?.bind fun v => (complete v t.stack).bind fun u => stepOutside u.mode u.stack b
  | .word rest v =>
    match rest with
    | [] => none
    | c :: rest =>
      if b == c then (if rest.isEmpty then complete v t.stack else some ⟨.word rest v, t.stack⟩) else none
  | mode => stepOutside mode t.stack b

/-- Reads bytes from a state on. -/
def run : State → Bytes → Option State
  | t, [] => some t
  | t, b :: bs =>
    match step t b with
    | some u => run u bs
    | none => none

/-- The value of a text that ends here. -/
def State.result? (t : State) : Option Json :=
  match t.mode, t.stack with
  | .finished v, [] => some v
  | .number n, [] => n.end?
  | _, _ => none

/-- The tree that bytes spell, blanks around it allowed. -/
def readBytes (b : Bytes) : Option Json := (run ⟨.value, []⟩ b).bind State.result?

/-- The tree that a text spells. -/
def read (s : String) : Option Json := readBytes (Bytes.ofText s)

end ContentMesh.Json
