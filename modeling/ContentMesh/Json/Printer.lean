import ContentMesh.Json.Value

/-!
# ContentMesh.Json.Printer — JSON trees as compact text

No blanks; a string escapes the quote, the backslash and the characters below U+0020, five of those by a letter
and the rest by four lower-case hexadecimal digits.  Such text holds no newline, so one line of a journal holds
one entry.
-/

namespace ContentMesh.Json

/-- A lower-case hexadecimal digit. -/
def hexDigit (n : Nat) : Char := if n < 10 then Char.ofNat (48 + n) else Char.ofNat (87 + n)

/-- A character inside a string. -/
def escaped (c : Char) : List Char :=
  if c = '"' then ['\\', '"']
  else if c = '\\' then ['\\', '\\']
  else if c = '\x08' then ['\\', 'b']
  else if c = '\x0c' then ['\\', 'f']
  else if c = '\n' then ['\\', 'n']
  else if c = '\r' then ['\\', 'r']
  else if c = '\t' then ['\\', 't']
  else if c.toNat < 32 then ['\\', 'u', '0', '0', hexDigit (c.toNat / 16), hexDigit (c.toNat % 16)]
  else [c]

/-- A string in quotes. -/
def quoted (s : String) : List Char := '"' :: s.toList.flatMap escaped ++ ['"']

/-- A number; a float without a finite value is written as `null`. -/
def Numeral.chars : Numeral → List Char
  | .nat n => Nat.toDigits 10 n
  | .neg n => '-' :: Nat.toDigits 10 n
  | .float x => ((Binary64.text? x).getD "null").toList

mutual

/-- A tree as characters. -/
def chars : Json → List Char
  | null | garbled => ['n', 'u', 'l', 'l']
  | bool true => ['t', 'r', 'u', 'e']
  | bool false => ['f', 'a', 'l', 's', 'e']
  | num n => Numeral.chars n
  | str s => quoted s
  | arr xs => '[' :: charsOfList xs
  | obj ms => '{' :: charsOfMembers ms

/-- The elements of an array and its closing bracket. -/
def charsOfList : List Json → List Char
  | [] => [']']
  | x :: xs => x.chars ++ charsOfRest xs

/-- Further elements, each after a comma, and the closing bracket. -/
def charsOfRest : List Json → List Char
  | [] => [']']
  | x :: xs => ',' :: x.chars ++ charsOfRest xs

/-- The members of an object and its closing brace. -/
def charsOfMembers : List (String × Json) → List Char
  | [] => ['}']
  | (k, x) :: ms => quoted k ++ ':' :: x.chars ++ charsOfMoreMembers ms

/-- Further members, each after a comma, and the closing brace. -/
def charsOfMoreMembers : List (String × Json) → List Char
  | [] => ['}']
  | (k, x) :: ms => ',' :: quoted k ++ ':' :: x.chars ++ charsOfMoreMembers ms

end

/-- A tree as text. -/
def text (j : Json) : String := String.ofList j.chars

end ContentMesh.Json
