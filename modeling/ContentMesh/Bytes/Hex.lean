import ContentMesh.Bytes.Utf8

/-!
# ContentMesh.Bytes.Hex — bytes as hexadecimal digits

Written in lower case, read in either case; a text of odd length or with another character is refused.
-/

namespace ContentMesh.Hex

/-- The lower-case digit of a number below 16. -/
def digit (n : Nat) : Char := if n < 10 then Char.ofNat (48 + n) else Char.ofNat (87 + n)

/-- The value of a digit. -/
def value? (c : Char) : Option Nat :=
  if '0' ≤ c ∧ c ≤ '9' then some (c.toNat - 48)
  else if 'a' ≤ c ∧ c ≤ 'f' then some (c.toNat - 87)
  else if 'A' ≤ c ∧ c ≤ 'F' then some (c.toNat - 55)
  else none

/-- The digits of bytes. -/
def encode (b : Bytes) : String :=
  String.ofList (b.flatMap fun x => [digit (x.toNat / 16), digit (x.toNat % 16)])

/-- The bytes of digits. -/
def decodeChars : List Char → Option Bytes
  | [] => some []
  | [_] => none
  | h :: l :: r => do
    let h ← value? h
    let l ← value? l
    return (16 * h + l).toUInt8 :: (← decodeChars r)

/-- The bytes that a text of digits stands for. -/
def decode (s : String) : Option Bytes := decodeChars s.toList

end ContentMesh.Hex
