import ContentMesh.Peer.Registry
import ContentMesh.Proofs.Storage.Calls

/-!
# ContentMesh.Proofs.Peer.Rows — what an operation of a registry does to its rows

Every operation changes the row of one uri or none (`Registry.Sets`).  A row is written or removed if the store does
its part, and otherwise all rows stay.  An errand that waits for its peer has claimed the uri (`Registry.begin_waits`).
-/

namespace ContentMesh

theorem PeerIndex.byUri_insert (i : PeerIndex) (p : Peer) (uri : String) :
    (i.insert p).byUri.get? uri = if uri = p.uri then some p else i.byUri.get? uri :=
  Dict.get?_insert i.byUri p.uri uri p

/-- An index shows each peer under its uri, whatever rows it is made of. -/
theorem PeerIndex.uri_ofRows (ps : List Peer) {uri : String} {p : Peer} (h : (ofRows ps).byUri.get? uri = some p) :
    p.uri = uri := by
  have hfold : ∀ (ps : List Peer) (i : PeerIndex), (∀ k q, i.byUri.get? k = some q → q.uri = k) →
      ∀ k q, (ps.foldl insert i).byUri.get? k = some q → q.uri = k := by
    intro ps
    induction ps with
    | nil => exact fun i hi => hi
    | cons x ps ih =>
      refine fun i hi => ih (i.insert x) fun k q hq => ?_
      rw [byUri_insert] at hq
      by_cases hk : k = x.uri
      · rw [if_pos hk] at hq
        rw [← Option.some.inj hq, hk]
      · rw [if_neg hk] at hq
        exact hi k q hq
  exact hfold ps ∅ (fun k q hq => by cases hq) uri p h

theorem PeerIndex.byUri_erase (i : PeerIndex) (u uri : String) :
    (i.erase u).byUri.get? uri = if uri = u then none else i.byUri.get? uri := by
  unfold erase
  cases h : i.byUri.get? u with
  | none =>
    by_cases hu : uri = u
    · rw [if_pos hu, hu]
      exact h
    · rw [if_neg hu]
  | some p => exact Dict.get?_erase i.byUri u uri

/-- The errands that leave a peer whose row has a status. -/
def Errand.Leaves : Errand → Status → Prop
  | request _ _, _ | accept _, _ => False
  | decline _, s => s = .requesting
  | cancel _, s => s = .requested
  | remove _, _ => True

namespace Registry

variable {r r' : Registry} {uri : String}

/-- A registry shows what its table keeps, each row under the uri of its peer. -/
structure Faithful (r : Registry) : Prop where
  kept : ∀ uri, r.store.rows.get? uri = r.row? uri
  named : ∀ uri p, r.row? uri = some p → p.uri = uri

theorem Faithful.of_rows (hr : r.Faithful) (hstore : r'.store.rows = r.store.rows)
    (hrow : ∀ uri, r'.row? uri = r.row? uri) : r'.Faithful where
  kept uri := by rw [hstore, hrow, hr.kept]
  named uri p hp := hr.named uri p (by rwa [hrow] at hp)

/-- The row of a uri becomes `x`; every other row, who the node is, and the claims stay, and the table goes along. -/
structure Sets (r : Registry) (uri : String) (x : Option Peer) (r' : Registry) : Prop where
  self : r'.self = r.self
  claims : r'.claims = r.claims
  row : ∀ v, r'.row? v = if v = uri then x else r.row? v
  faithful : r.Faithful → r'.Faithful

theorem Sets.row_eq {x : Option Peer} (h : r.Sets uri x r') : r'.row? uri = x := by
  rw [h.row, if_pos rfl]

/-- What changes only the store, the removals or the lookup by id. -/
theorem Sets.same (hself : r'.self = r.self) (hclaims : r'.claims = r.claims) (hrow : ∀ v, r'.row? v = r.row? v)
    (hfaithful : r.Faithful → r'.Faithful) (uri : String) : r.Sets uri (r.row? uri) r' := by
  refine ⟨hself, hclaims, fun v => ?_, hfaithful⟩
  by_cases hv : v = uri
  · rw [if_pos hv, hrow, hv]
  · rw [if_neg hv, hrow]

theorem Sets.refl (r : Registry) (uri : String) : r.Sets uri (r.row? uri) r :=
  .same rfl rfl (fun _ => rfl) id uri

theorem Sets.stored (r : Registry) {s : Store Peer} (hs : s.rows = r.store.rows) (uri : String) :
    r.Sets uri (r.row? uri) { r with store := s } := by
  refine .same ?_ ?_ (fun v => ?_) (fun hr => hr.of_rows hs fun v => ?_) uri <;> rfl

theorem write_cases (r : Registry) (p : Peer) :
    (∃ r', r.write p = (.ok (), r') ∧ r.Sets p.uri (some p) r') ∨
      (∃ f r', r.write p = (.error f, r') ∧ r.Sets p.uri (r.row? p.uri) r') := by
  unfold write
  rcases r.store.put_cases p.uri p with ⟨s, hput, hs⟩ | ⟨f, s, hput, hs⟩
  · rw [hput]
    refine Or.inl ⟨_, rfl, rfl, rfl, fun v => r.index.byUri_insert p v, fun hr => ⟨fun v => ?_, fun v q hq => ?_⟩⟩
    · show s.rows.get? v = (r.index.insert p).byUri.get? v
      rw [hs, Dict.get?_insert, PeerIndex.byUri_insert, hr.kept]
      rfl
    · have hrow : (r.index.insert p).byUri.get? v = some q := hq
      rw [PeerIndex.byUri_insert] at hrow
      by_cases hv : v = p.uri
      · rw [if_pos hv] at hrow
        rw [← Option.some.inj hrow, hv]
      · rw [if_neg hv] at hrow
        exact hr.named v q hrow
  · rw [hput]
    exact Or.inr ⟨f, _, rfl, .stored r hs p.uri⟩

theorem writeThen_cases (r : Registry) (p : Peer) (b : Bool) :
    (∃ r', r.writeThen p b = (.ok b, r') ∧ r.Sets p.uri (some p) r') ∨
      (∃ f r', r.writeThen p b = (.error f, r') ∧ r.Sets p.uri (r.row? p.uri) r') := by
  unfold writeThen
  rcases r.write_cases p with ⟨r', hw, hr⟩ | ⟨f, r', hw, hr⟩
  · exact Or.inl ⟨r', by rw [hw], hr⟩
  · exact Or.inr ⟨f, r', by rw [hw], hr⟩

/-- Either a row is removed, which had the expected status if there is one, or every row stays. -/
theorem forget_cases (r : Registry) (uri : String) (expected : Option Status) :
    (∃ p r', r.forget uri expected = (.ok (some p), r') ∧ r.row? uri = some p ∧
        (∀ s, expected = some s → p.status = s) ∧ r.Sets uri none r') ∨
      (∃ x r', r.forget uri expected = (x, r') ∧ (∀ p, x ≠ .ok (some p)) ∧ r.Sets uri (r.row? uri) r') := by
  unfold forget
  by_cases he : (expected.isSome && (r.row? uri).map (·.status) != expected) = true
  · rw [if_pos he]
    exact Or.inr ⟨_, _, rfl, fun p hp => (by cases hp), .refl r uri⟩
  · rw [if_neg he]
    rcases r.store.delete_cases uri with ⟨s, hd, hs⟩ | ⟨f, s, hd, hs⟩
    · rw [hd]
      -- the table has lost the row, whether the index shows one or not
      have hkept : ∀ {i : PeerIndex}, (∀ v, i.byUri.get? v = if v = uri then none else r.row? v) → r.Faithful →
          ∀ removals, Faithful { r with store := s, index := i, removals } := by
        intro i hi hr removals
        refine ⟨fun v => ?_, fun v q hq => ?_⟩
        · show s.rows.get? v = i.byUri.get? v
          rw [hs, hi, hr.kept]
        · have hrow : i.byUri.get? v = some q := hq
          rw [hi] at hrow
          by_cases hv : v = uri
          · rw [if_pos hv] at hrow
            cases hrow
          · rw [if_neg hv] at hrow
            exact hr.named v q hrow
      cases hrow : r.row? uri with
      | none =>
        refine Or.inr ⟨_, _, rfl, fun p hp => (by cases hp), rfl, rfl, fun v => ?_, fun hr => hkept (fun v => ?_) hr _⟩
        all_goals
          by_cases hv : v = uri
          · rw [if_pos hv, hv]
            exact hrow
          · rw [if_neg hv]
            rfl
      | some p =>
        refine Or.inl ⟨p, _, rfl, rfl, fun s hs => ?_, rfl, rfl, fun v => ?_, fun hr => ?_⟩
        · rw [hrow, hs] at he
          simpa using he
        · exact r.index.byUri_erase uri v
        · exact hkept (fun v => r.index.byUri_erase uri v) hr _
    · rw [hd]
      exact Or.inr ⟨_, _, rfl, fun p hp => (by cases hp), .stored r hs uri⟩

/-! ## Claims -/

theorem claim?_of_mem (h : uri ∈ r.claims) : r.claim? uri = none := by
  unfold claim?
  rw [if_pos (List.contains_iff_mem.mpr h)]

theorem claim?_of_not_mem (h : uri ∉ r.claims) : r.claim? uri = some { r with claims := uri :: r.claims } := by
  unfold claim?
  rw [if_neg (fun hc => h (List.contains_iff_mem.mp hc))]

theorem row?_release (r : Registry) (u v : String) : (r.release u).row? v = r.row? v := rfl

theorem not_mem_release (r : Registry) (uri : String) : uri ∉ (r.release uri).claims := by
  unfold release
  simp

/-- A claim that was free is free again after it is given back. -/
theorem release_claims (h : uri ∉ r.claims) (hr : r'.claims = uri :: r.claims) :
    (r'.release uri).claims = r.claims := by
  unfold release
  dsimp only
  rw [hr, List.filter_cons_of_neg (by simp), List.filter_eq_self]
  intro v hv
  have hne : v ≠ uri := fun he => h (he ▸ hv)
  simpa using hne

/-! ## The first half of an errand -/

/-- The errands that set out from a registry: what is said to the peer, what waits for its reply, and the row of the
peer meanwhile. -/
inductive SetsOut (r : Registry) : Errand → PeerCall → Waiting → Option Peer → Prop where
  | request {uri : String} (key : String) (hself : uri ≠ r.self.uri) (hrow : r.row? uri = none) :
      SetsOut r (.request uri key) (.register uri (.of r.self (some key))) (.requesting uri key) none
  | accept {uri : String} {row : Peer} (hrow : r.row? uri = some row) (hs : row.status = .requesting) :
      SetsOut r (.accept uri) (.register uri (.of r.self row.receiveKey)) (.accepting row) (some row)
  | leave {e : Errand} {row : Peer} (hrow : r.row? e.uri = some row) (hs : e.Leaves row.status) :
      SetsOut r e (.unregister e.uri r.self.id) (.leaving e.uri) none

/-- An errand sets out and claims the uri, or is done with all rows and claims as they were. -/
def Begins (r : Registry) (e : Errand) (b : Begun) (r' : Registry) : Prop :=
  match b with
  | .waits call w =>
    e.uri ∉ r.claims ∧ ∃ x, r.SetsOut e call w x ∧ { r with claims := e.uri :: r.claims }.Sets e.uri x r'
  | .done _ => r.Sets e.uri (r.row? e.uri) r'

theorem beginLeaving_begins (r : Registry) {e : Errand} {expected : Option Status}
    (he : ∀ s, (∀ t, expected = some t → s = t) → e.Leaves s) :
    r.Begins e (r.beginLeaving e.uri expected).1 (r.beginLeaving e.uri expected).2 := by
  unfold beginLeaving
  by_cases hc : e.uri ∈ r.claims
  · rw [claim?_of_mem hc]
    exact .refl r e.uri
  · rw [claim?_of_not_mem hc]
    rcases forget_cases { r with claims := e.uri :: r.claims } e.uri expected with
      ⟨p, r', hf, hrow, hs, hr⟩ | ⟨x, r', hf, hx, hr⟩
    · dsimp only
      rw [hf]
      have hout : r.SetsOut e _ _ _ := .leave hrow (he p.status hs)
      dsimp only [farewell]
      rw [hr.self]
      exact ⟨hc, none, hout, hr⟩
    · have hsame : r.Sets e.uri (r.row? e.uri) (r'.release e.uri) := by
        have hself : (r'.release e.uri).self = r.self := hr.self
        have hfaithful : r.Faithful → (r'.release e.uri).Faithful :=
          fun h => (hr.faithful (h.of_rows rfl fun _ => rfl)).of_rows rfl fun _ => rfl
        refine .same hself (release_claims hc hr.claims) (fun v => ?_) hfaithful e.uri
        have hrow : r'.row? v = if v = e.uri then r.row? e.uri else r.row? v := hr.row v
        rw [row?_release, hrow]
        by_cases hv : v = e.uri
        · rw [if_pos hv, hv]
        · rw [if_neg hv]
      dsimp only
      rw [hf]
      cases x with
      | error f => exact hsame
      | ok o =>
        cases o with
        | none => exact hsame
        | some p => exact absurd rfl (hx p)

theorem begin_begins (r : Registry) (e : Errand) : r.Begins e (r.begin e).1 (r.begin e).2 := by
  cases e with
  | request uri key =>
    unfold begin
    dsimp only
    by_cases hu : uri = r.self.uri
    · rw [if_pos hu]
      exact .refl r uri
    · rw [if_neg hu]
      by_cases hc : uri ∈ r.claims
      · rw [claim?_of_mem hc]
        exact .refl r uri
      · rw [claim?_of_not_mem hc]
        dsimp only
        cases hrow : r.row? uri with
        | some row => exact .refl r uri
        | none =>
          have hr := Sets.refl { r with claims := uri :: r.claims } uri
          have hnone : { r with claims := uri :: r.claims }.row? uri = none := hrow
          rw [hnone] at hr
          exact ⟨hc, none, .request key hu hrow, hr⟩
  | accept uri =>
    unfold begin
    dsimp only
    by_cases hc : uri ∈ r.claims
    · rw [claim?_of_mem hc]
      exact .refl r uri
    · rw [claim?_of_not_mem hc]
      dsimp only
      cases hrow : r.row? uri with
      | none => exact .refl r uri
      | some row =>
        dsimp only
        by_cases hs : row.status = .requesting
        · rw [if_pos hs]
          have hr := Sets.refl { r with claims := uri :: r.claims } uri
          have hsome : { r with claims := uri :: r.claims }.row? uri = some row := hrow
          rw [hsome] at hr
          exact ⟨hc, some row, .accept hrow hs, hr⟩
        · rw [if_neg hs]
          exact .refl r uri
  | decline uri => exact r.beginLeaving_begins fun s hs => hs _ rfl
  | cancel uri => exact r.beginLeaving_begins fun s hs => hs _ rfl
  | remove uri => exact r.beginLeaving_begins fun _ _ => trivial

theorem begin_done {e : Errand} {x : Except Failure Bool} (h : r.begin e = (.done x, r')) :
    r.Sets e.uri (r.row? e.uri) r' := by
  have hb := r.begin_begins e
  rw [h] at hb
  exact hb

theorem begin_waits {e : Errand} {call : PeerCall} {w : Waiting} (h : r.begin e = (.waits call w, r')) :
    e.uri ∉ r.claims ∧ ∃ x, r.SetsOut e call w x ∧ { r with claims := e.uri :: r.claims }.Sets e.uri x r' := by
  have hb := r.begin_begins e
  rw [h] at hb
  exact hb

end Registry

end ContentMesh
