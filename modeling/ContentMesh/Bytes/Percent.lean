import ContentMesh.Bytes.Hex

/-!
# ContentMesh.Bytes.Percent — text in headers and queries

`encode` keeps letters, digits and `-_.~` and writes every other byte as `%XX`.  Reading takes a `%` before two
hexadecimal digits as a byte and keeps every other character, a lone `%` included.  A query is a list of pairs in
the form encoding, where a blank is `+`.
-/

namespace ContentMesh.Percent

/-- The upper-case digit of a number below 16. -/
def digit (n : Nat) : Char := if n < 10 then Char.ofNat (48 + n) else Char.ofNat (55 + n)

/-- A byte as an escape. -/
def escape (b : UInt8) : List Char := ['%', digit (b.toNat / 16), digit (b.toNat % 16)]

/-- Whether a byte is a letter or a digit of ASCII. -/
def alphanumeric (b : UInt8) : Bool :=
  (48 ≤ b && b ≤ 57) || (65 ≤ b && b ≤ 90) || (97 ≤ b && b ≤ 122)

/-- Whether a byte stands for itself in encoded text: letters, digits and `-_.~`. -/
def unreserved (b : UInt8) : Bool := alphanumeric b || b == 45 || b == 46 || b == 95 || b == 126

/-- Text with every byte escaped that is not unreserved. -/
def encode (s : String) : String :=
  String.ofList ((Bytes.ofText s).flatMap fun b => if unreserved b then [Char.ofNat b.toNat] else escape b)

/-- The bytes of characters with their escapes undone. -/
def decodeChars : List Char → Bytes
  | [] => []
  | '%' :: h :: l :: r =>
    match Hex.value? h, Hex.value? l with
    | some h, some l => (16 * h + l).toUInt8 :: decodeChars r
    | _, _ => 37 :: decodeChars (h :: l :: r)
  | c :: r => Utf8.encodeChar c ++ decodeChars r
termination_by cs => cs.length

/-- The bytes that encoded text stands for. -/
def decode (s : String) : Bytes := decodeChars s.toList

/-! ## Queries -/

/-- A name or value of a query: letters, digits and `*-._` stand for themselves, a blank is `+`. -/
def encodeForm (s : String) : String :=
  String.ofList <| (Bytes.ofText s).flatMap fun b =>
    if b == 32 then ['+']
    else if alphanumeric b || b == 42 || b == 45 || b == 46 || b == 95 then [Char.ofNat b.toNat]
    else escape b

/-- Undoes `encodeForm`; bytes that spell no text are replaced. -/
def decodeForm (cs : List Char) : String :=
  Bytes.textLossy (decodeChars (cs.map fun c => if c = '+' then ' ' else c))

/-- The text of a query. -/
def encodeQuery (q : List (String × String)) : String :=
  "&".intercalate (q.map fun p => encodeForm p.1 ++ "=" ++ encodeForm p.2)

/-- One piece of a query: the name up to the first `=`, the value after it. -/
def decodePair (cs : List Char) : String × String :=
  (decodeForm (cs.takeWhile (· ≠ '=')), decodeForm ((cs.dropWhile (· ≠ '=')).drop 1))

/-- The pairs of a query, empty pieces left out. -/
def decodeQuery (s : String) : List (String × String) :=
  ((s.toList.splitOn '&').filter (fun p => !p.isEmpty)).map decodePair

end ContentMesh.Percent
