import ContentMesh.Bytes.Percent
import ContentMesh.Settings.SocketAddress

/-!
# ContentMesh.Http.Url — which texts a request can be sent to

An address is `http` or `https`, a host and maybe a port.  Blanks around it and line breaks in it do not count;
the host is a name without reserved characters, four numbers, or eight groups in brackets.
-/

namespace ContentMesh.Http.Url

open Text

/-- The scheme and what follows its colon. -/
def scheme? (cs : List Char) : Option (String × List Char) :=
  let name := cs.takeWhile (· ≠ ':')
  let letter := fun (c : Char) => c.isAlpha
  match name, cs.drop name.length with
  | c :: rest, _ :: after =>
    if letter c && rest.all fun c => letter c || digit c || c = '+' || c = '-' || c = '.' then
      some (lower (String.ofList name), after)
    else none
  | _, _ => none

/-- A character that no host name holds. -/
def reserved (c : Char) : Bool :=
  c.toNat ≤ 32 || c.toNat == 127 || "#/:<>?@[\\]^|%".toList.contains c

/-- A number of an address in dots: decimal, octal after a zero, hexadecimal after `0x`. -/
def hostNumber? (cs : List Char) : Option Nat :=
  let read := fun radix (ds : List Char) =>
    if ds.all fun c => (SocketAddress.digitValue? radix c).isSome then
      some (ds.foldl (fun n d => radix * n + (SocketAddress.digitValue? radix d).getD 0) 0)
    else none
  match cs with
  | [] => none
  | '0' :: 'x' :: r | '0' :: 'X' :: r => read 16 r
  | ['0'] => some 0
  | '0' :: r => read 8 r
  | ds => read 10 ds

/-- The labels of a host, without an empty one at the end. -/
def labels (cs : List Char) : List (List Char) :=
  let ls := cs.splitOn '.'
  if 1 < ls.length && ls.getLast? == some [] then ls.dropLast else ls

/-- Whether a host is to be read as numbers. -/
def endsInNumber (cs : List Char) : Bool :=
  match (labels cs).getLast? with
  | some l =>
    (!l.isEmpty && l.all digit) || ((l.take 2 == ['0', 'x'] || l.take 2 == ['0', 'X']) && (hostNumber? l).isSome)
  | none => false

/-- Whether numbers in dots make an address: all but the last below 256, the last in what is left. -/
def numbersFit (ls : List (List Char)) : Bool :=
  match ls.mapM hostNumber? with
  | none => false
  | some ns => ns.length ≤ 4 && ns.dropLast.all (· < 256) && (ns.getLast?.getD 0) < 1 <<< (8 * (5 - ns.length))

/-- Whether characters are a host. -/
def hostFits (cs : List Char) : Bool :=
  match cs with
  | '[' :: r =>
    match SocketAddress.allGroups r with
    | some (_, [']']) => true
    | _ => false
  | cs =>
    let name := (Bytes.textLossy (Percent.decodeChars cs)).toList
    !name.isEmpty && !name.any reserved && (!endsInNumber name || numbersFit (labels name))

/-- The host and the port of an authority. -/
def hostAndPort (cs : List Char) : List Char × List Char :=
  match cs with
  | '[' :: _ =>
    let host := cs.takeWhile (· ≠ ']')
    (host ++ (cs.drop host.length).take 1, cs.drop (host.length + 1))
  | cs =>
    let host := cs.takeWhile (· ≠ ':')
    (host, cs.drop host.length)

/-- Whether what follows a host is a port or nothing. -/
def portFits : List Char → Bool
  | [] => true
  | ':' :: ds => ds.all digit && number ds < 65536
  | _ => false

/-- Characters after the last `c`, all of them if there is none. -/
def afterLast (c : Char) (cs : List Char) : List Char := (cs.reverse.takeWhile (· ≠ c)).reverse

/-- Whether a request can be sent to a text. -/
def sendable (s : String) : Bool :=
  let edge := fun (c : Char) => decide (c.toNat ≤ 32)
  let cs := ((s.toList.dropWhile edge).reverse.dropWhile edge).reverse
  let cs := cs.filter fun c => c ≠ '\t' && c ≠ '\n' && c ≠ '\r'
  match scheme? cs with
  | some (scheme, rest) =>
    let slash := fun (c : Char) => c = '/' || c = '\\'
    let authority := (rest.dropWhile slash).takeWhile fun c => !slash c && c ≠ '?' && c ≠ '#'
    let (host, port) := hostAndPort (afterLast '@' authority)
    (scheme == "http" || scheme == "https") && hostFits host && portFits port
  | none => false

end ContentMesh.Http.Url
