/-!
# ContentMesh.Bytes.Utf8 — text as bytes

`encode` writes text in UTF-8.  Reading is a machine over single bytes: between characters it waits for a lead
byte, inside a character it knows how many continuation bytes are owed and in which range the next one lies.
`decode` refuses what the machine refuses; `decodeLossy` puts U+FFFD in place of each refused piece.
-/

namespace ContentMesh

/-- A byte string. -/
abbrev Bytes := List UInt8

namespace Utf8

/-! ## Writing -/

/-- The bytes of one character. -/
def encodeChar (c : Char) : Bytes :=
  let n := c.toNat
  if n < 0x80 then [n.toUInt8]
  else if n < 0x800 then [(0xC0 + n / 64).toUInt8, (0x80 + n % 64).toUInt8]
  else if n < 0x10000 then
    [(0xE0 + n / 4096).toUInt8, (0x80 + n / 64 % 64).toUInt8, (0x80 + n % 64).toUInt8]
  else
    [(0xF0 + n / 262144).toUInt8, (0x80 + n / 4096 % 64).toUInt8, (0x80 + n / 64 % 64).toUInt8,
      (0x80 + n % 64).toUInt8]

/-- The bytes of a list of characters. -/
def encode (cs : List Char) : Bytes := cs.flatMap encodeChar

/-! ## Reading -/

/-- Inside a character: bytes owed, the range of the next one, the bits read so far. -/
structure Partial where
  owed : Nat
  low : Nat
  high : Nat
  code : Nat
  deriving Repr, DecidableEq

/-- What one byte does. -/
inductive Step where
  | char (c : Char)
  | more (p : Partial)
  | refuse
  deriving Repr, DecidableEq

/-- A lead byte. -/
def lead (b : Nat) : Step :=
  if b < 0x80 then .char (Char.ofNat b)
  else if b < 0xC2 then .refuse
  else if b < 0xE0 then .more ⟨1, 0x80, 0xBF, b - 0xC0⟩
  else if b = 0xE0 then .more ⟨2, 0xA0, 0xBF, 0⟩
  else if b = 0xED then .more ⟨2, 0x80, 0x9F, 13⟩
  else if b < 0xF0 then .more ⟨2, 0x80, 0xBF, b - 0xE0⟩
  else if b = 0xF0 then .more ⟨3, 0x90, 0xBF, 0⟩
  else if b < 0xF4 then .more ⟨3, 0x80, 0xBF, b - 0xF0⟩
  else if b = 0xF4 then .more ⟨3, 0x80, 0x8F, 4⟩
  else .refuse

/-- A byte inside a character. -/
def Partial.next (p : Partial) (b : Nat) : Step :=
  if p.low ≤ b ∧ b ≤ p.high then
    let code := p.code * 64 + (b - 0x80)
    if p.owed ≤ 1 then .char (Char.ofNat code) else .more ⟨p.owed - 1, 0x80, 0xBF, code⟩
  else .refuse

/-- One byte, between characters (`none`) or inside one. -/
def step : Option Partial → UInt8 → Step
  | none, b => lead b.toNat
  | some p, b => p.next b.toNat

/-- Reads on from a state, with the characters read so far newest first. -/
def decodeFrom (p : Option Partial) (read : List Char) : Bytes → Option (List Char)
  | [] => if p.isNone then some read.reverse else none
  | b :: r =>
    match step p b with
    | .char c => decodeFrom none (c :: read) r
    | .more q => decodeFrom (some q) read r
    | .refuse => none

/-- The characters of well-formed bytes. -/
def decode (b : Bytes) : Option (List Char) := decodeFrom none [] b

/-- The character that stands for a piece which is no UTF-8. -/
def replacement : Char := '\uFFFD'

/-- Reads on, putting `replacement` for each refused piece; a byte that breaks off a character starts anew. -/
def decodeLossyFrom (p : Option Partial) (read : List Char) : Bytes → List Char
  | [] => (if p.isNone then read else replacement :: read).reverse
  | b :: r =>
    match step p b with
    | .char c => decodeLossyFrom none (c :: read) r
    | .more q => decodeLossyFrom (some q) read r
    | .refuse =>
      if p.isNone then decodeLossyFrom none (replacement :: read) r
      else
        match step none b with
        | .char c => decodeLossyFrom none (c :: replacement :: read) r
        | .more q => decodeLossyFrom (some q) (replacement :: read) r
        | .refuse => decodeLossyFrom none (replacement :: replacement :: read) r

/-- The characters of any bytes. -/
def decodeLossy (b : Bytes) : List Char := decodeLossyFrom none [] b

end Utf8

/-! ## Strings -/

/-- The bytes of a string. -/
def Bytes.ofText (s : String) : Bytes := Utf8.encode s.toList

/-- The string that bytes spell, if they are well-formed. -/
def Bytes.text? (b : Bytes) : Option String := (Utf8.decode b).map String.ofList

/-- The string that bytes spell, refused pieces replaced. -/
def Bytes.textLossy (b : Bytes) : String := String.ofList (Utf8.decodeLossy b)

end ContentMesh
