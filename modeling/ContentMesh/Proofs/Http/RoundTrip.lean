import ContentMesh.Http.Router
import ContentMesh.Proofs.Http.Headers
import ContentMesh.Proofs.Message.Canonical

/-!
# ContentMesh.Proofs.Http.RoundTrip — a message comes out of its request as it went in

The query brings the fields, each header line a metadata value, the body itself.  So whatever node reads the request
finds the message that was sent (`Http.message_round_trip`), in the same canonical bytes, and its signature holds.
-/

namespace ContentMesh

open Text

/-- A message that fits into a request: the query has room for its fields, and the body is read in full. -/
structure Parcel.Wired (p : Parcel) : Prop where
  id : p.header.id ≠ ""
  kind : p.header.kind ≠ ""
  source : p.header.source ≠ ""
  receivers : ∀ r ∈ p.header.receivers, r ≠ "" ∧ ',' ∉ r.toList ∧ trim r = r
  years : 0 ≤ p.header.date.year ∧ p.header.date.year ≤ 9999
  body : p.body.length ≤ Http.bodyLimit

/-- What comes in is the message that a node sent, with its signature.  Names of metadata may have another case. -/
structure Inbound.Carries (i : Inbound) (sender : Identity) (p : Parcel) (signature : Option String) : Prop where
  hop : i.hop = sender.id
  id : i.header.id = p.header.id
  kind : i.header.kind = p.header.kind
  source : i.header.source = p.header.source
  date : i.header.date = p.header.date
  receivers : i.header.receivers = p.header.receivers
  body : i.body = p.body
  signature : i.signature = signature
  metadata : ∀ name, i.header.metadata.under name = p.header.metadata.under name
  lookedUp : p.header.metadata.Kept → ∀ name, i.header.metadata.getAll name = p.header.metadata.getAll name

/-- Whatever is signed of a message is signed of what came in. -/
theorem Inbound.Carries.canonical {i : Inbound} {self : Identity} {p : Parcel} {signature : Option String}
    (h : i.Carries self p signature) (hop : Option String) : Parcel.canonical ⟨i.header, hop, i.body⟩ = p.canonical :=
  Parcel.SameMeaning.canonical
    ⟨⟨h.id, h.kind, h.source, h.date, h.receivers⟩, Metadata.lowered_perm h.metadata, h.body⟩

theorem Signer.verify_carried {s : Signer} {key : String} {p : Parcel} {signature : Option String} {i : Inbound}
    {self : Identity} (hs : s.sign (some key) p = .ok signature) (h : i.Carries self p signature) (hop : Option String) :
    s.verify (some key) ⟨i.header, hop, i.body⟩ i.signature = .ok () := by
  rw [h.signature]
  cases s with
  | unsigned => rfl
  | keyed =>
    cases hs
    have htag : Parcel.tag ⟨i.header, hop, i.body⟩ key = p.tag key := by
      rw [Parcel.tag, Parcel.tag, h.canonical hop]
    simp only [Signer.verify, Parcel.signature, Hex.decode_encode, htag, if_true]

namespace Http

/-! ## The query -/

/-- A list with commas gives its texts back. -/
theorem receiversOf_commas {rs : List String} (h : ∀ r ∈ rs, r ≠ "" ∧ ',' ∉ r.toList ∧ trim r = r) :
    receiversOf (",".intercalate rs) = rs := by
  by_cases hrs : rs = []
  · subst hrs
    decide
  have htrim : (rs.map String.toList).map (fun cs => trim (String.ofList cs)) = rs := by
    rw [List.map_map]
    refine (List.map_congr_left fun r hr => ?_).trans (List.map_id rs)
    rw [Function.comp_apply, String.ofList_toList, (h r hr).2.2, id]
  rw [receiversOf, Parcel.splitOn_commas hrs fun r hr => (h r hr).2.1, htrim]
  exact List.filter_eq_self.mpr fun r hr => bne_iff_ne.mpr (h r hr).1

/-- The parameters of the message that `self` sends. -/
def sentParameters (self : Identity) (p : Parcel) : MessageParameters :=
  ⟨self.id, p.header.kind, p.header.id, some p.header.source, some (Rfc3339.text p.header.date),
    if p.header.receivers.isEmpty then none else some (",".intercalate p.header.receivers)⟩

theorem messageParameters?_sent (self : Identity) (p : Parcel) :
    messageParameters? (Percent.encodeQuery (messageQuery self p)) = some (sentParameters self p) := by
  unfold messageParameters? parameters? sentParameters
  rw [Percent.decodeQuery_encodeQuery, messageQuery]
  cases p.header.receivers.isEmpty <;> simp [Dict.lookup_cons]

/-- A uri that stands in a list with commas as it is. -/
def Plain (uri : String) : Prop := uri ≠ "" ∧ ',' ∉ uri.toList ∧ trim uri = uri

instance (uri : String) : Decidable (Plain uri) := inferInstanceAs (Decidable (_ ∧ _ ∧ _))

/-- The receivers of a message that is sent are read again. -/
theorem receiversOf_sent {self : Identity} {p : Parcel} (h : ∀ r ∈ p.header.receivers, Plain r) :
    receiversOf ((sentParameters self p).receivers.getD "") = p.header.receivers := by
  have hcommas := receiversOf_commas h
  unfold sentParameters
  by_cases hnone : p.header.receivers = []
  · rw [hnone] at hcommas ⊢
    exact hcommas
  · have hempty : p.header.receivers.isEmpty = false := by
      rw [List.isEmpty_eq_false_iff]
      exact hnone
    simp only [hempty, Bool.false_eq_true, if_false, Option.getD_some]
    exact hcommas

/-! ## The request -/

/-- A request that can be built is as it was asked for. -/
theorem checked_eq {r r' : Request} (h : checked r = .ok r') : r' = r := by
  unfold checked at h
  split at h
  · exact (Except.ok.inj h).symm
  · cases h

theorem visible_digit : ∀ n < 16, 32 ≤ (Hex.digit n).toNat ∧ (Hex.digit n).toNat < 0x7F := by decide

theorem visible_hex (b : Bytes) : Visible (Hex.encode b) := by
  intro c hc
  rw [Hex.encode, String.toList_ofList] at hc
  obtain ⟨x, -, hc⟩ := List.mem_flatMap.mp hc
  have hlt := x.toNat_lt
  simp only [List.mem_cons, List.not_mem_nil, or_false] at hc
  rcases hc with rfl | rfl
  · exact visible_digit _ (by omega)
  · exact visible_digit _ (by omega)

theorem visible_signature {s : Signer} {key : Option String} {p : Parcel} {signature : Option String}
    (h : s.sign key p = .ok signature) : ∀ t ∈ signature, Visible t := by
  intro t ht
  cases s with
  | unsigned =>
    cases h
    cases ht
  | keyed =>
    cases key with
    | none => cases h
    | some key =>
      cases h
      cases ht
      exact visible_hex _

/-- A message can be sent to every peer that has an address, whatever its metadata. -/
theorem deliver_sendable {self : Identity} {uri : String} {p : Parcel} {signature : Option String}
    (huri : Url.sendable (endpoint uri messagePath) = true) (hs : ∀ t ∈ signature, Visible t) :
    deliver self uri p signature = .ok ⟨endpoint uri messagePath, messageQuery self p,
      messageHeaders p.header.metadata signature, p.body⟩ := by
  have hfits : ((messageHeaders p.header.metadata signature).all fun h => headerValueFits h.2) = true := by
    rw [List.all_eq_true]
    intro h hh
    rcases List.mem_append.mp hh with hh | hh
    · obtain ⟨m, -, rfl⟩ := List.mem_map.mp hh
      exact (visible_encode m.2).fits
    · obtain ⟨t, ht, rfl⟩ : ∃ t, signature = some t ∧ (signatureHeader, t) = h := by simpa using hh
      exact (hs t ht).fits
  rw [deliver, checked, huri, hfits]
  rfl

/-! ## The message -/

theorem inboundOf_sent {self : Identity} {p : Parcel} {signature : Option String} (hp : p.Wired)
    (hs : ∀ t ∈ signature, Visible t) {lines : HeaderLines} (h : Brings (messageHeaders p.header.metadata signature) lines)
    (n : Node) (now : Moment) :
    ∃ i, inboundOf n (sentParameters self p) lines p.body now = .ok i ∧ i.Carries self p signature := by
  obtain ⟨m, hm, hkept, hunder⟩ := h.metadata
  have hdate : dateOf (some (Rfc3339.text p.header.date)) now = .ok p.header.date := by
    rw [dateOf, Rfc3339.read_text _ hp.years.1 hp.years.2]
  have hsource : (some p.header.source).filter (· != "") = some p.header.source := by
    rw [Option.filter, if_pos (bne_iff_ne.mpr hp.source)]
  have hreceivers : receiversOf ((sentParameters self p).receivers.getD "") = p.header.receivers :=
    receiversOf_sent hp.receivers
  have hfields : ¬ ((sentParameters self p).id = "" ∨ (sentParameters self p).kind = "") := fun he =>
    he.elim hp.id hp.kind
  refine ⟨⟨⟨p.header.id, p.header.date, p.header.kind, p.header.source, p.header.receivers, m⟩, self.id, p.body,
    signature⟩, ?_, rfl, rfl, rfl, rfl, rfl, rfl, rfl, rfl, hunder, fun hk name => ?_⟩
  · rw [inboundOf, if_neg hfields, hreceivers, h.signature hs]
    simp only [sentParameters, hsource, hdate, hm, bind, Except.bind]
    rfl
  · rw [hkept.getAll, hk.getAll, hunder]

theorem header_inboundOf {n : Node} {q : MessageParameters} {lines : HeaderLines} {body : Bytes} {now : Moment}
    {i : Inbound} (h : inboundOf n q lines body now = .ok i) :
    i.header.id = q.id ∧ i.header.receivers = receiversOf (q.receivers.getD "") ∧
      metadataOf lines = .ok i.header.metadata := by
  unfold inboundOf at h
  split at h
  · cases h
  · obtain ⟨date, -, h⟩ := ok_of_bind h
    obtain ⟨m, hm, h⟩ := ok_of_bind h
    cases h
    exact ⟨rfl, rfl, hm⟩

/-- Whatever headers a request has, its query tells which message it brings, and for whom. -/
theorem header_routed {self : Identity} {uri : String} {p : Parcel} {signature : Option String} {r : Request}
    (hr : deliver self uri p signature = .ok r) {n : Node} {lines : HeaderLines} {now : Moment} {i : Inbound}
    (hi : routeMessage n ⟨"POST", "/message", Percent.encodeQuery r.query, lines, r.body⟩ now = .message i) :
    i.header.id = p.header.id ∧ i.header.receivers = receiversOf ((sentParameters self p).receivers.getD "") := by
  have hquery : r.query = messageQuery self p := by
    rw [checked_eq hr]
  simp only [routeMessage, hquery, messageParameters?_sent] at hi
  split at hi
  · cases hi
  · cases hin : inboundOf n (sentParameters self p) lines r.body now with
    | error f =>
      rw [hin] at hi
      cases hi
    | ok j =>
      rw [hin] at hi
      cases hi
      obtain ⟨hid, hreceivers, -⟩ := header_inboundOf hin
      exact ⟨hid, hreceivers⟩

/-- A message that is sent to a peer comes in there as it was, and its signature holds under the key of the link,
whatever carried the request so long as it brings the headers. -/
theorem message_round_trip {uri : String} {p : Parcel} (hp : p.Wired)
    (huri : Url.sendable (endpoint uri messagePath) = true) (self : Identity) (s : Signer) (key : String) :
    ∃ signature r, s.sign (some key) p = .ok signature ∧ deliver self uri p signature = .ok r ∧
      ∀ lines, Brings r.headers lines → ∀ (n : Node) (now : Moment),
        ∃ i, routeMessage n ⟨"POST", "/message", Percent.encodeQuery r.query, lines, r.body⟩ now = .message i ∧
          i.Carries self p signature ∧ ∀ hop, s.verify (some key) ⟨i.header, hop, i.body⟩ i.signature = .ok () := by
  obtain ⟨signature, hsign, -⟩ := s.verify_sign key p none
  have hs := visible_signature hsign
  refine ⟨signature, _, hsign, deliver_sendable huri hs, fun lines hlines n now => ?_⟩
  obtain ⟨i, hi, hcarries⟩ : ∃ i, inboundOf n (sentParameters self p) lines p.body now = .ok i ∧
    i.Carries self p signature := inboundOf_sent hp hs hlines n now
  refine ⟨i, ?_, hcarries, Signer.verify_carried hsign hcarries⟩
  rw [routeMessage]
  simp only [messageParameters?_sent, hi, if_neg (Nat.not_lt.mpr hp.body)]

/-- A message in several scripts, with a value that is empty and a name in two cases. -/
def letter : Parcel :=
  ⟨⟨"m1", .epoch, "update", "http://a", ["http://b", "http://c/é"],
    Metadata.ofPairs [("Page Title", "Café\ntwo lines"), ("entity", ""), ("PAGE title", "100 %")]⟩, none, [0, 255]⟩

theorem letter_round_trip : letter.Wired ∧ Url.sendable (endpoint "http://b/" messagePath) = true ∧
    ∃ signature r, Signer.keyed.sign (some "k") letter = .ok signature ∧
      deliver ⟨"a-id", "a", "http://a"⟩ "http://b/" letter signature = .ok r ∧ ∀ (n : Node) (now : Moment),
        ∃ i, routeMessage n ⟨"POST", "/message", Percent.encodeQuery r.query,
            r.headers.map fun h => (h.1, Bytes.ofText h.2), r.body⟩ now = .message i ∧
          i.Carries ⟨"a-id", "a", "http://a"⟩ letter signature ∧
            ∀ hop, Signer.keyed.verify (some "k") ⟨i.header, hop, i.body⟩ i.signature = .ok () := by
  have hletter : letter.Wired := ⟨by decide, by decide, by decide, by decide, by decide, by decide⟩
  have huri : Url.sendable (endpoint "http://b/" messagePath) = true := by decide +kernel
  obtain ⟨signature, r, hsign, hr, h⟩ := message_round_trip hletter huri ⟨"a-id", "a", "http://a"⟩ .keyed "k"
  exact ⟨hletter, huri, signature, r, hsign, hr, h _ (brings_sent r.headers)⟩

end Http

end ContentMesh
