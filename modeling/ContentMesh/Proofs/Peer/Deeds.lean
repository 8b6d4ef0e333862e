import ContentMesh.Proofs.Peer.Trust

/-!
# ContentMesh.Proofs.Peer.Deeds — all that an operation does to a registry

`Registry.Sets` and `Registry.Effect` say what becomes of the rows.  `Registry.Acts` says all of what an operation does
to table, index and removals, and that is one of three things: calls of the table that change nothing, one row
written, or one row removed.  Each operation is opened here once, with the result that it reports: one that does not
report success has done nothing, but for an acceptance that the peer took for a new request (`Registry.Reverts`).
-/

namespace ContentMesh

/-- Whether an errand that waits takes leave of its peer. -/
def Waiting.leaves : Waiting → Bool
  | leaving _ => true
  | _ => false

namespace Registry

/-! ## Results -/

/-- Whether an operation reports that it did what it was called for. -/
def succeeded : Except Failure Bool → Bool
  | .ok b => b
  | .error _ => false

/-- Whether the answer to a registration says that it led to something here. -/
def granted : Except Failure RegistrationAnswer → Bool
  | .ok a => a.outcome == .created || a.outcome == .confirmed
  | .error _ => false

/-! ## Deeds -/

/-- All that an operation about the peer of a uri does to a registry.  The mark says whether it may report success. -/
inductive Acts (r : Registry) (uri : String) : Bool → Registry → Prop where
  | idle (b : Bool) {s : Store Peer} (hs : s.rows = r.store.rows) : Acts r uri b { r with store := s }
  | wrote {p : Peer} {s : Store Peer} (hp : p.uri = uri) (hs : s.rows = r.store.rows.insert p.uri p) :
      Acts r uri true { r with store := s, index := r.index.insert p }
  | removed {p : Peer} {s : Store Peer} (hrow : r.row? uri = some p) (hs : s.rows = r.store.rows.erase uri) :
      Acts r uri true { r with store := s, index := r.index.erase uri, removals := r.removals ++ [p] }

/-- What an acceptance does whose peer took the confirmation for a new request: the row waits for the peer now. -/
inductive Reverts (r : Registry) : Waiting → PeerReply → Registry → Prop where
  | intro {row p : Peer} {a : RegistrationAnswer} {s : Store Peer} (ha : a.outcome = .created)
      (hold : (r.row? row.uri).map Peer.status = some .requesting) (hp : p.uri = row.uri) (hnew : p.status = .requested)
      (hs : s.rows = r.store.rows.insert p.uri p) :
      Reverts r (.accepting row) (.answer a) { r with store := s, index := r.index.insert p }

variable {r r' : Registry} {uri : String} {b : Bool}

theorem Acts.refl (r : Registry) (uri : String) (b : Bool) : r.Acts uri b r := .idle b rfl

/-- What reports no success might as well report one. -/
theorem Acts.mark (h : r.Acts uri false r') (b : Bool) : r.Acts uri b r' := by
  cases h with
  | idle _ hs => exact .idle b hs

theorem Reverts.acts {w : Waiting} {reply : PeerReply} (h : r.Reverts w reply r') : r.Acts w.uri true r' := by
  cases h with
  | intro ha hold hp hnew hs => exact .wrote hp hs

/-! ## Writing and removing -/

/-- A row is written in table and index, or the call of the table fails. -/
theorem write_deed (r : Registry) (p : Peer) :
    (∃ s, s.rows = r.store.rows.insert p.uri p ∧
        r.write p = (.ok (), { r with store := s, index := r.index.insert p })) ∨
      ∃ f s, s.rows = r.store.rows ∧ r.write p = (.error f, { r with store := s }) := by
  unfold write
  rcases r.store.put_cases p.uri p with ⟨s, hput, hs⟩ | ⟨f, s, hput, hs⟩
  · exact .inl ⟨s, hs, by rw [hput]⟩
  · exact .inr ⟨f, s, hs, by rw [hput]⟩

theorem writeThen_deed (r : Registry) (p : Peer) (b : Bool) :
    (∃ s, s.rows = r.store.rows.insert p.uri p ∧
        r.writeThen p b = (.ok b, { r with store := s, index := r.index.insert p })) ∨
      ∃ f s, s.rows = r.store.rows ∧ r.writeThen p b = (.error f, { r with store := s }) := by
  unfold writeThen
  rcases r.write_deed p with ⟨s, hs, hw⟩ | ⟨f, s, hs, hw⟩
  · exact .inl ⟨s, hs, by rw [hw]⟩
  · exact .inr ⟨f, s, hs, by rw [hw]⟩

theorem writeThen_acts (r : Registry) {p : Peer} (hp : p.uri = uri) :
    r.Acts uri (succeeded (r.writeThen p true).1) (r.writeThen p true).2 := by
  subst hp
  rcases r.writeThen_deed p true with ⟨s, hs, hw⟩ | ⟨f, s, hs, hw⟩
  · rw [hw]
    exact .wrote rfl hs
  · rw [hw]
    exact .idle _ hs

/-- Either a row is removed and handed over, or nothing happens. -/
theorem forget_acts (hr : r.Faithful) (uri : String) (expected : Option Status) :
    (∃ p r', r.forget uri expected = (.ok (some p), r') ∧ r.Acts uri true r') ∨
      ∃ x r', r.forget uri expected = (x, r') ∧ (∀ p, x ≠ .ok (some p)) ∧ r.Acts uri false r' := by
  unfold forget
  by_cases he : (expected.isSome && (r.row? uri).map (·.status) != expected) = true
  · rw [if_pos he]
    exact .inr ⟨_, _, rfl, by simp, .refl r uri false⟩
  · rw [if_neg he]
    rcases r.store.delete_cases uri with ⟨s, hd, hs⟩ | ⟨f, s, hd, hs⟩
    · rw [hd]
      cases hrow : r.row? uri with
      | none =>
        -- a row that the index does not show is not in the table either
        have hsame : s.rows = r.store.rows := by
          apply Dict.ext_get?
          intro v
          rw [hs]
          by_cases hv : v = uri
          · rw [if_pos hv, hv, hr.kept, hrow]
          · rw [if_neg hv]
        exact .inr ⟨_, _, rfl, by simp, .idle false hsame⟩
      | some p =>
        have herased : s.rows = r.store.rows.erase uri := by
          apply Dict.ext_get?
          intro v
          rw [hs, Dict.get?_erase]
        exact .inl ⟨p, _, rfl, .removed hrow herased⟩
    · rw [hd]
      exact .inr ⟨_, _, rfl, by simp, .idle false hs⟩

/-! ## Operations in one part -/

theorem add_acts (r : Registry) (p : Peer) : r.Acts p.uri (succeeded (r.add p).1) (r.add p).2 := by
  unfold add
  cases r.registered? p.uri with
  | some row => exact .refl r p.uri _
  | none => exact r.writeThen_acts rfl

theorem confirm_requested {p row : Peer} (hrow : r.row? p.uri = some row) (hs : row.status = .requested) :
    r.confirm p
      = r.writeThen { p with status := .registered, receiveKey := p.receiveKey.or row.receiveKey } true := by
  unfold confirm
  rw [hrow]
  dsimp only
  rw [if_pos hs]

theorem confirm_acts (r : Registry) (p : Peer) : r.Acts p.uri (succeeded (r.confirm p).1) (r.confirm p).2 := by
  unfold confirm
  cases r.row? p.uri with
  | none => exact .refl r p.uri _
  | some row =>
    dsimp only
    split
    · apply r.writeThen_acts
      rfl
    · exact .refl r p.uri _

theorem handleRegister_acts (hr : r.Faithful) (q : Registration) :
    r.Acts q.uri (granted (r.handleRegister q).1) (r.handleRegister q).2 := by
  unfold handleRegister
  split
  · exact .refl r q.uri _
  · cases hrow : r.row? q.uri with
    | none =>
      dsimp only
      rcases r.write_deed ⟨q.id, q.name, q.uri, .requesting, q.key, ∅⟩ with ⟨s, hs, hw⟩ | ⟨f, s, hs, hw⟩
      · rw [hw]
        exact .wrote rfl hs
      · rw [hw]
        exact .idle _ hs
    | some row =>
      dsimp only
      split
      · exact .refl r q.uri _
      · split
        · rename_i hstatus
          -- the row is the one that was looked at just before
          have huri : row.uri = q.uri := hr.named q.uri row hrow
          have hrow' : r.row? row.uri = some row := by rw [huri, hrow]
          rw [confirm_requested (p := { row with receiveKey := agreedKey row.receiveKey q.key }) hrow' hstatus]
          rcases r.writeThen_deed { row with
              status := .registered
              receiveKey := (agreedKey row.receiveKey q.key).or row.receiveKey } true with
            ⟨s, hs, hw⟩ | ⟨f, s, hs, hw⟩
          · rw [hw]
            exact .wrote huri hs
          · rw [hw]
            exact .idle _ hs
        · exact .refl r q.uri _

theorem handleUnregister_acts (hr : r.Faithful) {text : String} {p : Peer} (hp : r.find? text = some p) :
    r.Acts p.uri (succeeded (r.handleUnregister text).1) (r.handleUnregister text).2 := by
  unfold handleUnregister
  rw [hp]
  dsimp only
  rcases forget_acts hr p.uri none with ⟨q, r', hf, hacts⟩ | ⟨x, r', hf, hx, hacts⟩
  · rw [hf]
    exact hacts
  · rw [hf]
    cases x with
    | error f => exact hacts.mark _
    | ok o => exact hacts.mark _

/-! ## Errands -/

/-- What an errand does before it speaks to its peer, or ends: it claims the uri, and acts if it takes leave, or it
reports no success, has done nothing, and the claims are as they were. -/
def Departs (r : Registry) (e : Errand) (y : Begun × Registry) : Prop :=
  match y.1 with
  | .waits _ w => w.uri = e.uri ∧ e.uri ∉ r.claims ∧ { r with claims := e.uri :: r.claims }.Acts e.uri w.leaves y.2
  | .done x => succeeded x = false ∧ r.Acts e.uri false y.2

/-- What did nothing under a claim that was free has done nothing when the claim is given back. -/
theorem Acts.release (hc : uri ∉ r.claims) (h : { r with claims := uri :: r.claims }.Acts uri false r') :
    r.Acts uri false (r'.release uri) := by
  cases h with
  | @idle _ s hs =>
    let claimed : Registry := { r with claims := uri :: r.claims, store := s }
    have hclaims : (claimed.release uri).claims = r.claims := release_claims hc rfl
    have heq : claimed.release uri = { r with store := s } := by
      show { r with store := s, claims := (claimed.release uri).claims } = _
      rw [hclaims]
    show r.Acts uri false (claimed.release uri)
    rw [heq]
    exact .idle false hs

theorem beginLeaving_departs (hr : r.Faithful) (e : Errand) (expected : Option Status) :
    r.Departs e (r.beginLeaving e.uri expected) := by
  unfold beginLeaving
  by_cases hc : e.uri ∈ r.claims
  · rw [claim?_of_mem hc]
    exact ⟨rfl, .refl r e.uri false⟩
  · rw [claim?_of_not_mem hc]
    have hclaimed : { r with claims := e.uri :: r.claims }.Faithful := hr.of_rows rfl fun _ => rfl
    dsimp only
    rcases forget_acts hclaimed e.uri expected with ⟨p, r', hf, hacts⟩ | ⟨x, r', hf, hx, hacts⟩
    · rw [hf]
      exact ⟨rfl, hc, hacts⟩
    · rw [hf]
      cases x with
      | error f => exact ⟨rfl, hacts.release hc⟩
      | ok o =>
        cases o with
        | none => exact ⟨rfl, hacts.release hc⟩
        | some p => exact absurd rfl (hx p)

theorem begin_departs (hr : r.Faithful) (e : Errand) : r.Departs e (r.begin e) := by
  cases e with
  | request uri key =>
    unfold begin
    dsimp only
    split
    · exact ⟨rfl, .refl r uri false⟩
    · by_cases hc : uri ∈ r.claims
      · rw [claim?_of_mem hc]
        exact ⟨rfl, .refl r uri false⟩
      · rw [claim?_of_not_mem hc]
        dsimp only
        cases r.row? uri with
        | some row => exact ⟨rfl, .refl r uri false⟩
        | none => exact ⟨rfl, hc, .refl _ uri false⟩
  | accept uri =>
    unfold begin
    dsimp only
    by_cases hc : uri ∈ r.claims
    · rw [claim?_of_mem hc]
      exact ⟨rfl, .refl r uri false⟩
    · rw [claim?_of_not_mem hc]
      dsimp only
      cases hrow : r.row? uri with
      | none => exact ⟨rfl, .refl r uri false⟩
      | some row =>
        dsimp only
        split
        · exact ⟨hr.named uri row hrow, hc, .refl _ uri false⟩
        · exact ⟨rfl, .refl r uri false⟩
  | decline uri => exact beginLeaving_departs hr (.decline uri) _
  | cancel uri => exact beginLeaving_departs hr (.cancel uri) _
  | remove uri => exact beginLeaving_departs hr (.remove uri) _

theorem finishRequest_acts (r : Registry) (uri key : String) (a : RegistrationAnswer) :
    r.Acts uri (succeeded (r.finishRequest uri key a).1) (r.finishRequest uri key a).2 := by
  unfold finishRequest
  split
  · exact .refl r uri _
  · dsimp only
    cases r.row? uri with
    | none =>
      apply r.writeThen_acts
      rfl
    | some row =>
      dsimp only
      split
      · apply r.writeThen_acts
        rfl
      · exact .refl r uri _

theorem acceptedStatus_cases {a : RegistrationAnswer} {s : Status} (h : acceptedStatus a = some s) :
    s = .registered ∨ s = .requested ∧ a.outcome = .created := by
  unfold acceptedStatus at h
  split at h
  · exact .inl (Option.some.inj h).symm
  · exact .inl (Option.some.inj h).symm
  · rename_i ho
    exact .inr ⟨(Option.some.inj h).symm, ho⟩
  · cases h

theorem finishAccept_acts (r : Registry) (row : Peer) (a : RegistrationAnswer) :
    r.Acts row.uri (succeeded (r.finishAccept row a).1) (r.finishAccept row a).2 ∨
      r.Reverts (.accepting row) (.answer a) (r.finishAccept row a).2 := by
  unfold finishAccept
  cases ha : acceptedStatus a with
  | none => exact .inl (.refl r row.uri _)
  | some status =>
    dsimp only
    split
    · rename_i hold
      rcases r.writeThen_deed
          { rowOfAnswer row.uri a status (a.key.or row.receiveKey) with properties := row.properties }
          (status == .registered) with ⟨s, hs, hw⟩ | ⟨f, s, hs, hw⟩
      · rw [hw]
        rcases acceptedStatus_cases ha with rfl | ⟨rfl, hcreated⟩
        · exact .inl (.wrote rfl hs)
        · exact .inr (.intro hcreated hold rfl rfl hs)
      · rw [hw]
        exact .inl (.idle _ hs)
    · exact .inl (.refl r row.uri _)

/-- An errand whose peer replied acts, if it reports success, and gives its claim back. -/
theorem finish_acts (r : Registry) (w : Waiting) (reply : PeerReply) :
    ∃ r', (r.finish w reply).2 = r'.release w.uri ∧
      (r.Acts w.uri (succeeded (r.finish w reply).1) r' ∨ r.Reverts w reply r') := by
  cases w with
  | leaving uri => exact ⟨r, rfl, .inl (.refl r uri _)⟩
  | requesting uri key =>
    cases reply with
    | answer a => exact ⟨_, rfl, .inl (r.finishRequest_acts uri key a)⟩
    | known b => exact ⟨r, rfl, .inl (.refl r uri _)⟩
    | failed f => exact ⟨r, rfl, .inl (.refl r uri _)⟩
  | accepting row =>
    cases reply with
    | answer a => exact ⟨_, rfl, r.finishAccept_acts row a⟩
    | known b => exact ⟨r, rfl, .inl (.refl r row.uri _)⟩
    | failed f => exact ⟨r, rfl, .inl (.refl r row.uri _)⟩

/-! ## Events -/

/-- All that an event does to a registry: something is done about the peer of one uri, whatever becomes of the claims, or
the rows are read anew. -/
inductive Stirs (r : Registry) : Registry → Prop where
  | acts (claims claims' : List String) {uri : String} {b : Bool} {r' : Registry}
      (h : { r with claims }.Acts uri b r') : Stirs r { r' with claims := claims' }
  | reloads : Stirs r r.reload.2

theorem Acts.stirs (h : r.Acts uri b r') : r.Stirs r' := .acts r.claims r'.claims h

theorem Office.step_stirs {o : Office} (hf : o.registry.Faithful) (e : Event) :
    o.registry.Stirs (o.step e).registry := by
  cases e with
  | adds p => exact (o.registry.add_acts p).stirs
  | confirms p => exact (o.registry.confirm_acts p).stirs
  | begins e =>
    have hd := begin_departs hf e
    unfold step
    dsimp only
    rcases hb : o.registry.begin e with ⟨x | ⟨call, w⟩, r⟩
    · rw [hb] at hd
      exact hd.2.stirs
    · rw [hb] at hd
      exact .acts _ r.claims hd.2.2
  | returns w reply =>
    unfold step
    dsimp only
    split
    · obtain ⟨r, hr, hacts⟩ := o.registry.finish_acts w reply
      rw [hr]
      rcases hacts with hacts | hreverts
      · exact .acts o.registry.claims _ hacts
      · exact .acts o.registry.claims _ hreverts.acts
    · exact (Acts.refl o.registry w.uri true).stirs
  | registers q => exact (handleRegister_acts hf q).stirs
  | unregisters text =>
    cases hfind : o.registry.find? text with
    | none =>
      unfold step handleUnregister
      dsimp only
      rw [hfind]
      exact (Acts.refl o.registry text true).stirs
    | some p => exact (handleUnregister_acts hf hfind).stirs
  | reloads => exact .reloads

end Registry

end ContentMesh
