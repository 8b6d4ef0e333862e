import ContentMesh.Peer.Row

/-!
# ContentMesh.Peer.Index — looking up peers by uri or id

Peers are kept by uri.  An id leads to the uri of the peer that took it last, so a peer whose id another one has
taken is found by its uri only.
-/

namespace ContentMesh

/-- Peers by uri, and uris by id. -/
structure PeerIndex where
  byUri : Dict Peer
  uriById : Dict String

namespace PeerIndex

instance : EmptyCollection PeerIndex := ⟨⟨∅, ∅⟩⟩
instance : Inhabited PeerIndex := ⟨∅⟩

/-- Puts a peer in place of an older row of its uri. -/
def insert (i : PeerIndex) (p : Peer) : PeerIndex :=
  let ids := match i.byUri.get? p.uri with
    | some old => if old.id = p.id then i.uriById else i.uriById.erase old.id
    | none => i.uriById
  ⟨i.byUri.insert p.uri p, ids.insert p.id p.uri⟩

/-- Removes the peer of a uri; its id is free again if it led there. -/
def erase (i : PeerIndex) (uri : String) : PeerIndex :=
  match i.byUri.get? uri with
  | none => i
  | some p =>
    ⟨i.byUri.erase uri, if i.uriById.get? p.id = some uri then i.uriById.erase p.id else i.uriById⟩

/-- The index of rows, a later one in place of an earlier one of its uri. -/
def ofRows (rows : List Peer) : PeerIndex := rows.foldl insert ∅

/-- The peer that a text names: by uri first, then by id. -/
def find? (i : PeerIndex) (text : String) : Option Peer :=
  (i.byUri.get? text).or ((i.uriById.get? text).bind i.byUri.get?)

end PeerIndex

end ContentMesh
