/-!
# ContentMesh.Text.Blank — blank characters, and text without blanks at its ends

The blank characters are those of the Unicode property White_Space.  `trim` is what identity files, receiver
lists and configured uris are read through.
-/

namespace ContentMesh.Text

/-- The property White_Space. -/
def blank (c : Char) : Bool :=
  let n := c.toNat
  (0x9 ≤ n && n ≤ 0xD) || n == 0x20 || n == 0x85 || n == 0xA0 || n == 0x1680 || (0x2000 ≤ n && n ≤ 0x200A)
    || n == 0x2028 || n == 0x2029 || n == 0x202F || n == 0x205F || n == 0x3000

/-- Characters without the blanks before them. -/
def trimStart (cs : List Char) : List Char := cs.dropWhile blank

/-- Characters without the blanks after them. -/
def trimEnd (cs : List Char) : List Char := (cs.reverse.dropWhile blank).reverse

/-- Text without the blanks at either end. -/
def trim (s : String) : String := String.ofList (trimEnd (trimStart s.toList))

/-- A letter of ASCII in lower case, every other character as it is. -/
def lowerChar (c : Char) : Char := if 'A' ≤ c ∧ c ≤ 'Z' then Char.ofNat (c.toNat + 32) else c

/-- Text with the letters of ASCII in lower case. -/
def lower (s : String) : String := String.ofList (s.toList.map lowerChar)

/-- Whether a character is a digit of ASCII. -/
def digit (c : Char) : Bool := '0' ≤ c && c ≤ '9'

/-- The number that digits spell. -/
def number (ds : List Char) : Nat := ds.foldl (fun n d => 10 * n + (d.toNat - 48)) 0

/-- A number below `10^width` in that many digits. -/
def padded (width n : Nat) : List Char :=
  (List.range width).map fun i => Char.ofNat (48 + n / Nat.pow 10 (width - 1 - i) % 10)

end ContentMesh.Text
