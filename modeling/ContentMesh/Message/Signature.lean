import ContentMesh.Bytes.Hex
import ContentMesh.Bytes.Sha256
import ContentMesh.Message.Parcel

/-!
# ContentMesh.Message.Signature — signing parcels on a link

The two ends of a link hold one key.  The sender's signature is the keyed digest of the parcel's canonical bytes,
in hexadecimal digits; the receiver computes it again.
-/

namespace ContentMesh

open Text

namespace Parcel

/-- The bytes of a text and a newline. -/
def line (s : String) : Bytes := Bytes.ofText s ++ [10]

/-- The order of canonical metadata: by name, then by value. -/
def pairLe (a b : String × String) : Bool := a.1 < b.1 || (a.1 == b.1 && !(b.2 < a.2))

/-- The metadata with lower-case names, in canonical order. -/
def canonicalPairs (m : Metadata) : List (String × String) :=
  (m.pairs.map fun p => (lower p.1, p.2)).mergeSort pairLe

/-- The bytes that are signed: a line for each field of the header, a line for each metadata pair, the body. -/
def canonical (p : Parcel) : Bytes :=
  let h := p.header
  let fields := [h.id, h.kind, h.source, Rfc3339.text h.date, ",".intercalate h.receivers]
  fields.flatMap line ++ (canonicalPairs h.metadata).flatMap (fun m => line (m.1 ++ "=" ++ m.2)) ++ p.body

/-- The keyed digest of a parcel. -/
def tag (p : Parcel) (key : String) : Bytes := Sha256.hmac (Bytes.ofText key) p.canonical

/-- The tag of a parcel under a key, as it is sent along. -/
def signature (p : Parcel) (key : String) : String := Hex.encode (p.tag key)

end Parcel

/-- How parcels are signed: not at all, or under the link's key. -/
inductive Signer where
  | unsigned
  | keyed
  deriving DecidableEq, Repr

namespace Signer

/-- The signature to send along on a link. -/
def sign : Signer → Option String → Parcel → Except Failure (Option String)
  | unsigned, _, _ => .ok none
  | keyed, none, _ => .error (.signature .noKeyForTarget)
  | keyed, some key, p => .ok (some (p.signature key))

/-- Checks a signature that came along on a link. -/
def verify : Signer → Option String → Parcel → Option String → Except Failure Unit
  | unsigned, _, _, _ => .ok ()
  | keyed, none, _, _ => .error (.signature .noKeyForSender)
  | keyed, some _, _, none => .error (.signature .missing)
  | keyed, some key, p, some s =>
    match Hex.decode s with
    | none => .error (.signature .notHex)
    | some t => if t = p.tag key then .ok () else .error (.signature (.mismatch p.id))

end Signer

end ContentMesh
