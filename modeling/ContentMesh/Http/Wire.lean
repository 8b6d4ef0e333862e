import ContentMesh.Bytes.Percent
import ContentMesh.Message.Parcel
import ContentMesh.Peer.Handshake

/-!
# ContentMesh.Http.Wire — how messages look in requests

The fields of a message travel in the query, its metadata in one header for each value, its body as the body.
Names and values of metadata headers are escaped, so any text fits.
-/

namespace ContentMesh.Http

open Text

/-- A request as it leaves a client: the text of the query is not yet encoded. -/
structure Request where
  address : String
  query : List (String × String)
  headers : List (String × String)
  body : Bytes
  deriving DecidableEq, Repr

/-- The last part of the address of messages. -/
def messagePath : String := "message"

/-- The last part of the address of registrations. -/
def registerPath : String := "instance/register"

/-- The last part of the address of those who leave. -/
def unregisterPath : String := "instance/unregister"

/-- How the names of metadata headers begin. -/
def metadataMark : String := "x-wikimesh-meta-"

/-- The name of the header with the signature. -/
def signatureHeader : String := "x-wikimesh-signature"

/-- A path at an address, of which slashes at the end do not count. -/
def endpoint (base path : String) : String :=
  String.ofList (base.toList.reverse.dropWhile (· = '/')).reverse ++ "/" ++ path

/-- The query of a message that `self` sends. -/
def messageQuery (self : Identity) (p : Parcel) : List (String × String) :=
  let h := p.header
  [("instance", self.id), ("type", h.kind), ("id", h.id), ("source", h.source), ("date", Rfc3339.text h.date)]
    ++ if h.receivers.isEmpty then [] else [("receivers", ",".intercalate h.receivers)]

/-- The header of a metadata value. -/
def metadataHeader (name value : String) : String × String :=
  (metadataMark ++ Percent.encode (lower name), Percent.encode value)

/-- The text that was escaped in a metadata header. -/
def decodeMetadata (s : String) : Except Failure String :=
  match Bytes.text? (Percent.decode s) with
  | some t => .ok t
  | none => .error (.invalid (.undecodable s))

/-- The headers of a message and its signature. -/
def messageHeaders (m : Metadata) (signature : Option String) : List (String × String) :=
  m.pairs.map (fun p => metadataHeader p.1 p.2) ++ (signature.map fun s => (signatureHeader, s)).toList

end ContentMesh.Http
