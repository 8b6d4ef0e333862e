import ContentMesh.Proofs.Http.RoundTrip
import ContentMesh.Proofs.Node.Folded
import ContentMesh.Proofs.Node.Receiving
import ContentMesh.Proofs.Peer.Record
import ContentMesh.Proofs.Storage.Calls

/-!
# ContentMesh.Proofs.Http.Transport — HTTP leads to the same as a call in the process

A message, a registration or a farewell reaches a node in the same process as it is, or over HTTP as a request, of which
a status and perhaps a body come back.  The caller sees the same and the node does the same either way
(`Http.transports_agree`): failures are told apart by their status alone on both ways, and the record of an answer is
read as the answer that was written.
-/

namespace ContentMesh

/-! ## Statuses -/

namespace Failure

/-- No failure is answered with a status of success, or with that of a conflict. -/
theorem httpStatus_fails (f : Failure) : Http.succeeded f.httpStatus = false ∧ (f.httpStatus == 409) = false := by
  cases f <;> exact ⟨rfl, rfl⟩

/-- No failure of a table is answered with the status of something unknown. -/
theorem OfTable.httpStatus {f : Failure} (h : f.OfTable) : (f.httpStatus == 404) = false := by
  rcases h with rfl | rfl | ⟨text, rfl⟩ <;> rfl

end Failure

namespace Registry

theorem forget_failure {r : Registry} {uri : String} {f : Failure} (h : (r.forget uri none).1 = .error f) :
    f.OfTable := by
  unfold forget at h
  rw [if_neg (by simp)] at h
  rcases hdelete : r.store.delete uri with ⟨x, s⟩
  rw [hdelete] at h
  cases x with
  | ok b =>
    cases hrow : r.row? uri with
    | none =>
      rw [hrow] at h
      cases h
    | some p =>
      rw [hrow] at h
      cases h
  | error g =>
    cases h
    exact Store.delete_failure (congrArg Prod.fst hdelete)

theorem handleUnregister_failure {r : Registry} {text : String} {f : Failure}
    (h : (r.handleUnregister text).1 = .error f) : f.OfTable := by
  unfold handleUnregister at h
  split at h
  · cases h
  · rename_i p hp
    split at h
    · cases h
    · rename_i g r' hr
      cases h
      exact forget_failure (congrArg Prod.fst hr)

end Registry

/-- What comes in over HTTP is what comes in directly, up to the case of names. -/
theorem Inbound.Carries.folded_eq {i : Inbound} {self : Identity} {p : Parcel} {signature : Option String}
    (h : i.Carries self p signature) (hi : i.header.metadata.Formed) (hp : p.header.metadata.Formed) :
    i.folded = (Inbound.direct self p signature).folded := by
  have hmetadata : i.header.metadata.folded = p.header.metadata.folded := hi.folded_eq hp (h.lookedUp hp.kept)
  have hheader : i.header.folded = p.header.folded := by
    unfold Header.folded
    rw [h.id, h.date, h.kind, h.source, h.receivers, hmetadata]
  unfold Inbound.folded Inbound.direct
  dsimp only
  rw [hheader, h.hop, h.body, h.signature]

namespace Http

/-! ## A request and its reply -/

/-- A request for a path as it arrives at the router of a peer, with header lines that bring its headers. -/
def Request.arrival (r : Request) (path : String) (lines : HeaderLines) : Arrival :=
  ⟨"POST", "/" ++ path, Percent.encodeQuery r.query, lines, r.body⟩

/-- What comes back of a response: its status, and its tree as text. -/
def Response.reply (r : Response) : Reply := ⟨r.status, (r.json.map fun j => Utf8.encode j.chars).getD []⟩

/-- A node answers a request.  A message in it is taken in to the end. -/
def answer (n : Node) (app : Application) (a : Arrival) (now : Moment) : Response × Node :=
  match route n a now with
  | (.answered r, n) => (r, n)
  | (.message i, n) =>
    let (x, n) := n.receive app i now
    (messageResponse x, n)

/-- A registration as its caller sees it. -/
def heard : Except Failure RegistrationAnswer → PeerReply
  | .ok a => .answer a
  | .error f => .failed f

/-- A farewell as its caller sees it. -/
def heardLeave : Except Failure Bool → PeerReply
  | .ok b => .known b
  | .error f => .failed f

variable {n : Node} {app : Application} {now : Moment} {uri : String} {self : Identity} {lines : HeaderLines}

/-! ## Messages -/

/-- Whatever became of a message, its sender sees as much in the response as in the process. -/
theorem delivered_messageResponse (uri : String) (x : Except Failure Reception) :
    delivered uri (messageResponse x).reply = Node.seen uri x := by
  cases x with
  | ok r => rfl
  | error f =>
    unfold delivered messageResponse failed Response.reply Node.seen Failure.seenFrom
    dsimp only
    rw [if_neg (by simp [f.httpStatus_fails])]

theorem formed_readLine {m r : Metadata} (hm : m.Formed) {l : String × Bytes} (h : readLine m l = .ok r) : r.Formed := by
  unfold readLine at h
  split at h
  · cases h
    exact hm
  · obtain ⟨name, -, h⟩ := ok_of_bind h
    split at h
    · cases h
    · obtain ⟨value, -, h⟩ := ok_of_bind h
      cases h
      exact hm.add name value

/-- Metadata that is read from header lines is such as is made by adding. -/
theorem formed_metadataOf {r : Metadata} (h : metadataOf lines = .ok r) : r.Formed := by
  rw [metadataOf_eq] at h
  suffices hall : ∀ (ls : HeaderLines) (m : Metadata), m.Formed → ls.foldlM readLine m = .ok r → r.Formed from
    hall (grouped lines) ∅ Metadata.formed_empty h
  intro ls
  induction ls with
  | nil =>
    intro m hm h
    cases h
    exact hm
  | cons l ls ih =>
    intro m hm h
    rw [List.foldlM_cons] at h
    obtain ⟨m', hl, h⟩ := ok_of_bind h
    exact ih m' (formed_readLine hm hl) h

/-- A message that is sent over HTTP has the same fate as in the process. -/
theorem answer_message {p : Parcel} (hp : p.Wired) (hm : p.header.metadata.Formed) {signature : Option String}
    (hs : ∀ s ∈ signature, Visible s) {r : Request} (hr : deliver self uri p signature = .ok r)
    (hlines : Brings r.headers lines) (n : Node) (app : Application) (now : Moment) :
    delivered uri (answer n app (r.arrival messagePath lines) now).1.reply
        = Node.seen uri (n.receive app (.direct self p signature) now).1 ∧
      (answer n app (r.arrival messagePath lines) now).2.folded
        = (n.receive app (.direct self p signature) now).2.folded := by
  have hr : r = ⟨endpoint uri messagePath, messageQuery self p, messageHeaders p.header.metadata signature, p.body⟩ :=
    checked_eq hr
  rw [hr] at hlines
  obtain ⟨i, hi, hcarries⟩ : ∃ i, inboundOf n (sentParameters self p) lines p.body now = .ok i ∧
    i.Carries self p signature := inboundOf_sent hp hs hlines n now
  have hformed : i.header.metadata.Formed := formed_metadataOf (header_inboundOf hi).2.2
  have hroute : route n (r.arrival messagePath lines) now = (.message i, n) := by
    have hmessage : routeMessage n (r.arrival messagePath lines) now = .message i := by
      rw [hr, routeMessage]
      simp only [Request.arrival, messageParameters?_sent, hi, if_neg (Nat.not_lt.mpr hp.body)]
    rw [← hmessage]
    rfl
  obtain ⟨hresult, hnode⟩ := Node.receive_alike (hcarries.folded_eq hformed hm) n app now
  unfold answer
  rw [hroute]
  dsimp only
  rw [delivered_messageResponse, hresult]
  exact ⟨rfl, hnode⟩

/-! ## Registrations -/

/-- What has no headers and no body can be asked of every peer that has an address. -/
theorem checked_sendable {address : String} (h : Url.sendable address = true) (query : List (String × String)) :
    checked ⟨address, query, [], []⟩ = .ok ⟨address, query, [], []⟩ := by
  rw [checked, h]
  rfl

theorem registration?_sent (q : Registration) : registration? (Percent.encodeQuery q.parameters) = some q := by
  obtain ⟨id, name, address, key⟩ := q
  unfold registration? parameters?
  rw [Percent.decodeQuery_encodeQuery, Registration.parameters]
  cases key <;> simp [Dict.lookup_cons]

theorem onRegistry_register (n : Node) (uri : String) (q : Registration) :
    n.onRegistry (fun r => r.serve (.register uri q)) =
      (match (n.onRegistry fun r => r.handleRegister q).1 with
        | .ok a => .answer a
        | .error f => .failed (f.seenFrom uri), (n.onRegistry fun r => r.handleRegister q).2) := by
  unfold Node.onRegistry Registry.serve
  dsimp only
  rcases n.registry.handleRegister q with ⟨x, r⟩
  cases x <;> rfl

/-- A failed registration is a failure for the caller, which sees its status. -/
theorem registered_failed (uri : String) (f : Failure) :
    heard (registered uri (failed f).reply) = .failed (f.seenFrom uri) := by
  have hstatus : (failed f).reply.status = f.httpStatus := rfl
  obtain ⟨hsuccess, hconflict⟩ := f.httpStatus_fails
  unfold registered
  rw [hstatus, hsuccess, hconflict]
  rfl

/-- The answer to a registration is read as it was written, also that of a conflict. -/
theorem registered_answer (uri : String) (a : RegistrationAnswer) :
    heard (registered uri (Response.reply ⟨if a.outcome = .conflict then 409 else 200, some a.toJson⟩)) = .answer a := by
  have hstatus : (succeeded (if a.outcome = .conflict then 409 else 200)
      || (if a.outcome = .conflict then 409 else 200) == 409) = true := by
    split <;> rfl
  unfold registered Response.reply
  dsimp only
  rw [if_pos hstatus, Option.map_some, Option.getD_some, a.read_text]
  rfl

/-- A registration over HTTP, a conflict among them, is answered as in the process. -/
theorem answer_register {q : Registration} {r : Request} (hr : register uri q = .ok r) (lines : HeaderLines) (n : Node)
    (app : Application) (now : Moment) :
    (heard (registered uri (answer n app (r.arrival registerPath lines) now).1.reply),
        (answer n app (r.arrival registerPath lines) now).2)
      = n.onRegistry fun reg => reg.serve (.register uri q) := by
  have hquery : r.query = q.parameters := by
    rw [checked_eq hr]
  have hanswer : answer n app (r.arrival registerPath lines) now
      = routeRegister n (r.arrival registerPath lines) := rfl
  rw [hanswer, onRegistry_register]
  unfold routeRegister
  simp only [Request.arrival, hquery, registration?_sent]
  rcases n.onRegistry fun reg => reg.handleRegister q with ⟨x, n'⟩
  cases x with
  | error f => rw [registered_failed]
  | ok a => rw [registered_answer]

/-! ## Farewells -/

theorem leaver?_sent (id : String) : leaver? (Percent.encodeQuery [("id", id)]) = some id := by
  unfold leaver? parameters?
  rw [Percent.decodeQuery_encodeQuery]
  simp

theorem onRegistry_unregister (n : Node) (uri id : String) :
    n.onRegistry (fun r => r.serve (.unregister uri id)) =
      (match (n.onRegistry fun r => r.handleUnregister id).1 with
        | .ok b => .known b
        | .error f => .failed (f.seenFrom uri), (n.onRegistry fun r => r.handleUnregister id).2) := by
  unfold Node.onRegistry Registry.serve
  dsimp only
  rcases n.registry.handleUnregister id with ⟨x, r⟩
  cases x <;> rfl

/-- A failed farewell is a failure for the caller, which sees its status. -/
theorem unregistered_failed (uri : String) {f : Failure} (h : f.OfTable) :
    heardLeave (unregistered uri (failed f).reply) = .failed (f.seenFrom uri) := by
  have hstatus : (failed f).reply.status = f.httpStatus := rfl
  unfold unregistered
  rw [hstatus, h.httpStatus, f.httpStatus_fails.1]
  rfl

/-- A farewell over HTTP is answered as in the process, whether or not the node is known. -/
theorem answer_unregister {id : String} {r : Request} (hr : unregister uri id = .ok r) (lines : HeaderLines) (n : Node)
    (app : Application) (now : Moment) :
    (heardLeave (unregistered uri (answer n app (r.arrival unregisterPath lines) now).1.reply),
        (answer n app (r.arrival unregisterPath lines) now).2)
      = n.onRegistry fun reg => reg.serve (.unregister uri id) := by
  have hquery : r.query = [("id", id)] := by
    rw [checked_eq hr]
  have hanswer : answer n app (r.arrival unregisterPath lines) now
      = routeUnregister n (r.arrival unregisterPath lines) := rfl
  have hfailure {f : Failure} : (n.onRegistry fun reg => reg.handleUnregister id).1 = .error f → f.OfTable :=
    Registry.handleUnregister_failure
  rw [hanswer, onRegistry_unregister]
  unfold routeUnregister
  simp only [Request.arrival, hquery, leaver?_sent]
  generalize (n.onRegistry fun reg => reg.handleUnregister id) = x at hfailure ⊢
  obtain ⟨x, n'⟩ := x
  cases x with
  | error f => rw [unregistered_failed uri (hfailure rfl)]
  | ok known => cases known <;> rfl

/-! ## The transports -/

/-- To a peer with an address, every message that fits into a request, every registration and every farewell goes out
over HTTP.  It comes back to the caller as from the peer in the same process, and leaves the peer as it would there, up
to the case of names of metadata in messages. -/
theorem transports_agree (n : Node) (app : Application) (now : Moment) (self : Identity) (uri : String) :
    (∀ (p : Parcel) (signature : Option String), p.Wired → p.header.metadata.Formed → (∀ s ∈ signature, Visible s) →
      Url.sendable (endpoint uri messagePath) = true →
      ∃ r, deliver self uri p signature = .ok r ∧ ∀ lines, Brings r.headers lines →
        delivered uri (answer n app (r.arrival messagePath lines) now).1.reply
            = Node.seen uri (n.receive app (.direct self p signature) now).1 ∧
          (answer n app (r.arrival messagePath lines) now).2.folded
            = (n.receive app (.direct self p signature) now).2.folded) ∧
    (∀ q, Url.sendable (endpoint uri registerPath) = true →
      ∃ r, register uri q = .ok r ∧ ∀ lines,
        (heard (registered uri (answer n app (r.arrival registerPath lines) now).1.reply),
            (answer n app (r.arrival registerPath lines) now).2)
          = n.onRegistry fun reg => reg.serve (.register uri q)) ∧
    (∀ id, Url.sendable (endpoint uri unregisterPath) = true →
      ∃ r, unregister uri id = .ok r ∧ ∀ lines,
        (heardLeave (unregistered uri (answer n app (r.arrival unregisterPath lines) now).1.reply),
            (answer n app (r.arrival unregisterPath lines) now).2)
          = n.onRegistry fun reg => reg.serve (.unregister uri id)) := by
  refine ⟨fun p signature hp hm hs huri => ?_, fun q huri => ?_, fun id huri => ?_⟩
  · have hr : deliver self uri p signature = .ok _ := deliver_sendable huri hs
    exact ⟨_, hr, fun lines hlines => answer_message hp hm hs hr hlines n app now⟩
  · have hr := checked_sendable huri q.parameters
    exact ⟨_, hr, fun lines => answer_register hr lines n app now⟩
  · have hr := checked_sendable huri [("id", id)]
    exact ⟨_, hr, fun lines => answer_unregister hr lines n app now⟩

/-- An application that hands nothing on. -/
def keeper : Application := ⟨fun _ _ => .ok .none, fun _ n => n, id, fun _ _ _ _ _ _ => rfl, fun _ _ _ _ _ h => h⟩

/-- A message with a name of metadata in mixed case. -/
def note : Parcel :=
  ⟨⟨"m1", .epoch, "note", "http://a", ["http://b"], Metadata.ofPairs [("Page Title", "Café")]⟩, none, [0, 255]⟩

/-- The node at `http://b`, which knows the one at `http://a`. -/
def host : Node :=
  .knowing ⟨"b-id", "b", "http://b"⟩ ⟨"a-id", "a", "http://a", .registered, none, ∅⟩ "note" (.application true)

/-- The message is taken in, a registration of another node at the same address is answered as a conflict, and a
stranger is told that it is not known. -/
theorem transports_agree_note : note.Wired ∧ note.header.metadata.Formed ∧
    (∃ r, deliver ⟨"a-id", "a", "http://a"⟩ "http://b" note none = .ok r ∧
      delivered "http://b" (answer host keeper
        (r.arrival messagePath (r.headers.map fun h => (h.1, Bytes.ofText h.2))) ⟨0, .epoch⟩).1.reply = .ok ()) ∧
    (∃ r, register "http://b" ⟨"c-id", "c", "http://a", none⟩ = .ok r ∧
      heard (registered "http://b" (answer host keeper (r.arrival registerPath []) ⟨0, .epoch⟩).1.reply)
        = .answer ⟨⟨"b-id", "b", "http://b"⟩, .conflict, some .registered, none⟩) ∧
    ∃ r, unregister "http://b" "c-id" = .ok r ∧
      heardLeave (unregistered "http://b" (answer host keeper (r.arrival unregisterPath []) ⟨0, .epoch⟩).1.reply)
        = .known false := by
  have hnote : note.Wired := ⟨by decide, by decide, by decide, by decide, by decide, by decide⟩
  have hformed : note.header.metadata.Formed := Metadata.formed_ofPairs _
  obtain ⟨hmessage, hregister, hunregister⟩ :=
    transports_agree host keeper ⟨0, .epoch⟩ ⟨"a-id", "a", "http://a"⟩ "http://b"
  refine ⟨hnote, hformed, ?_, ?_, ?_⟩
  · obtain ⟨r, hr, h⟩ := hmessage note none hnote hformed nofun (by decide +kernel)
    refine ⟨r, hr, ?_⟩
    rw [(h _ (brings_sent r.headers)).1]
    rfl
  · obtain ⟨r, hr, h⟩ := hregister ⟨"c-id", "c", "http://a", none⟩ (by decide +kernel)
    refine ⟨r, hr, ?_⟩
    have hreply := congrArg Prod.fst (h [])
    dsimp only at hreply
    rw [hreply]
    rfl
  · obtain ⟨r, hr, h⟩ := hunregister "c-id" (by decide +kernel)
    refine ⟨r, hr, ?_⟩
    have hreply := congrArg Prod.fst (h [])
    dsimp only at hreply
    rw [hreply]
    rfl

end Http

end ContentMesh
