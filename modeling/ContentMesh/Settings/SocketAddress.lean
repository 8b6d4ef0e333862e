import ContentMesh.Text.Blank

/-!
# ContentMesh.Settings.SocketAddress — an address and a port to listen on

Four numbers below 256 with dots, or eight groups of up to four hexadecimal digits in brackets, of which a run of
zeros may be `::` and the last two may be written as four numbers; then a colon and the port.
-/

namespace ContentMesh

open Text

/-- An internet address: four bytes, or eight groups with a zone. -/
inductive HostAddress where
  | v4 (octets : List Nat)
  | v6 (groups : List Nat) (zone : Nat)
  deriving DecidableEq, Repr

/-- An address to listen on. -/
structure SocketAddress where
  host : HostAddress
  port : Nat
  deriving DecidableEq, Repr

namespace SocketAddress

/-- What is read, and what follows. -/
abbrev Reading (α : Type) := List Char → Option (α × List Char)

/-- The value of a digit of a radix. -/
def digitValue? (radix : Nat) (c : Char) : Option Nat :=
  let n := c.toNat
  let v := if 48 ≤ n ∧ n ≤ 57 then n - 48 else if 97 ≤ n ∧ n ≤ 102 then n - 87 else if 65 ≤ n ∧ n ≤ 70 then n - 55
    else radix
  if v < radix then some v else none

/-- A number below `bound` of at most `width` digits where one is given. -/
def number (radix : Nat) (width : Option Nat) (leadingZero : Bool) (bound : Nat) : Reading Nat := fun cs =>
  let ds := cs.takeWhile fun c => (digitValue? radix c).isSome
  let n := ds.foldl (fun n d => n * radix + (digitValue? radix d).getD 0) 0
  if ds.isEmpty || (width.any fun w => w < ds.length) || bound ≤ n
      || (!leadingZero && ds.head? == some '0' && 1 < ds.length) then none
  else some (n, cs.drop ds.length)

/-- What follows an expected character. -/
def expect (c : Char) : List Char → Option (List Char)
  | d :: r => if c = d then some r else none
  | [] => none

/-- One of several parts: those after the first follow a separator. -/
def part {α : Type} (separator : Char) (i : Nat) (f : Reading α) : Reading α := fun cs =>
  if i = 0 then f cs else (expect separator cs).bind f

/-- Four numbers below 256. -/
def octets : Reading (List Nat) := fun cs => do
  let octet := number 10 (some 3) false 256
  let (a, cs) ← octet cs
  let (b, cs) ← part '.' 1 octet cs
  let (c, cs) ← part '.' 2 octet cs
  let (d, cs) ← part '.' 3 octet cs
  return ([a, b, c, d], cs)

/-- Groups from number `i` on, as long as there are any, at most `room`; the last two may be four numbers, and
then nothing may follow. -/
def groups (i : Nat) : Nat → List Char → List Nat × Bool × List Char
  | 0, cs => ([], false, cs)
  | room + 1, cs =>
    let tail := if room = 0 then none else part ':' i octets cs
    match tail with
    | some ([a, b, c, d], cs) => ([a * 256 + b, c * 256 + d], true, cs)
    | _ =>
      match part ':' i (number 16 (some 4) true 65536) cs with
      | some (g, cs) =>
        let (gs, dotted, cs) := groups (i + 1) room cs
        (g :: gs, dotted, cs)
      | none => ([], false, cs)

/-- Eight groups, or some before and some after `::`. -/
def allGroups : Reading (List Nat) := fun cs =>
  let (front, dotted, cs) := groups 0 8 cs
  if front.length = 8 then some (front, cs)
  else if dotted then none
  else do
    let cs ← (expect ':' cs).bind (expect ':')
    let (back, _, cs) := groups 0 (8 - (front.length + 1)) cs
    return (front ++ List.replicate (8 - front.length - back.length) 0 ++ back, cs)

/-- A colon and a port. -/
def portNumber : Reading Nat := fun cs => (expect ':' cs).bind (number 10 none true 65536)

/-- An address of four bytes. -/
def readV4 (cs : List Char) : Option SocketAddress := do
  let (o, cs) ← octets cs
  let (p, cs) ← portNumber cs
  guard cs.isEmpty
  return ⟨.v4 o, p⟩

/-- An address of eight groups, with a zone after a percent sign. -/
def readV6 (cs : List Char) : Option SocketAddress := do
  let (g, cs) ← (expect '[' cs).bind allGroups
  let (zone, cs) := ((expect '%' cs).bind (number 10 none true (1 <<< 32))).getD (0, cs)
  let cs ← expect ']' cs
  let (p, cs) ← portNumber cs
  guard cs.isEmpty
  return ⟨.v6 g zone, p⟩

/-- The address that a text names. -/
def ofText? (s : String) : Option SocketAddress := (readV4 s.toList).or (readV6 s.toList)

/-! ## Writing -/

/-- A number in decimal digits. -/
def decimal (n : Nat) : List Char := Nat.toDigits 10 n

/-- Four numbers with dots. -/
def octetsText (o : List Nat) : List Char := ['.'].intercalate (o.map decimal)

/-- Groups with colons. -/
def groupsText (g : List Nat) : List Char := [':'].intercalate (g.map (Nat.toDigits 16))

/-- The start and length of the first longest run of zeros. -/
def zeroRun (g : List Nat) : Nat × Nat :=
  let runAt := fun i => ((g.drop i).takeWhile (· == 0)).length
  (List.range g.length).foldl (fun best i => if best.2 < runAt i then (i, runAt i) else best) (0, 0)

/-- Eight groups in their shortest form; an address of four bytes inside is written as such. -/
def v6Text (g : List Nat) : List Char :=
  match g with
  | [0, 0, 0, 0, 0, 65535, a, b] =>
    [':', ':', 'f', 'f', 'f', 'f', ':'] ++ octetsText [a / 256, a % 256, b / 256, b % 256]
  | g =>
    let (start, n) := zeroRun g
    if 1 < n then groupsText (g.take start) ++ [':', ':'] ++ groupsText (g.drop (start + n)) else groupsText g

/-- The text of an address. -/
def text (a : SocketAddress) : String :=
  String.ofList <| match a.host with
    | .v4 o => octetsText o ++ ':' :: decimal a.port
    | .v6 g zone =>
      '[' :: v6Text g ++ (if zone = 0 then [] else '%' :: decimal zone) ++ [']', ':'] ++ decimal a.port

end SocketAddress

end ContentMesh
