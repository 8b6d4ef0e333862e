import Mathlib.Data.List.Induction
import ContentMesh.Proofs.Node.Receiving
import ContentMesh.Proofs.Peer.Registered
import ContentMesh.Proofs.Peer.Rows

/-!
# ContentMesh.Proofs.Peer.Trust — how a peer comes to be trusted

One registry over its table, with all that can happen to it: calls of its own node, calls of peers, and errands that
wait while anything else goes on and may get any reply.  What an event writes is said once (`Event.Writes`), as the
status that was there and the one that comes, and so the status of a uri moves as in `ContentMesh.Peer.Registry`, a
registered row stays as it is until it goes, and no peer becomes registered by what peers say alone.
-/

namespace ContentMesh

/-! ## The index of a table -/

namespace PeerIndex

/-- The rows of a table stand in the index under their uris. -/
theorem byUri_foldl_insert {es : List (String × Peer)} (ha : es.Pairwise (·.1 < ·.1))
    (hnamed : ∀ e ∈ es, e.2.uri = e.1) (i : PeerIndex) (uri : String) :
    ((es.map (·.2)).foldl insert i).byUri.get? uri = (es.lookup uri).or (i.byUri.get? uri) := by
  induction es generalizing i with
  | nil => rfl
  | cons e es ih =>
    obtain ⟨hlt, hes⟩ := List.pairwise_cons.mp ha
    have he : e.2.uri = e.1 := hnamed e List.mem_cons_self
    rw [List.map_cons, List.foldl_cons, ih hes fun x hx => hnamed x (List.mem_cons_of_mem _ hx), byUri_insert,
      Dict.lookup_cons, he]
    by_cases hu : uri = e.1
    · rw [if_pos hu, if_pos hu, hu, Dict.lookup_eq_none_of_forall_lt hlt]
      rfl
    · rw [if_neg hu, if_neg hu]

theorem byUri_ofRows {d : Dict Peer} (hnamed : ∀ uri p, d.get? uri = some p → p.uri = uri) (uri : String) :
    (ofRows d.values).byUri.get? uri = d.get? uri := by
  have hrows := byUri_foldl_insert d.ascending (fun e he => hnamed e.1 e.2 (Dict.lookup_of_mem d.ascending he)) ∅ uri
  exact hrows.trans (Option.or_none ..)

end PeerIndex

namespace Registry

/-- A registry that was opened shows the rows of its table, and nothing has happened to it. -/
theorem load_ok {self : Identity} {s : Store Peer} {r : Registry} (h : load self s = .ok r) :
    r = ⟨self, s, .ofRows s.rows.values, [], []⟩ := by
  unfold load at h
  rcases s.values_cases with ⟨f, s', hv, -⟩ | hv
  · rw [hv] at h
    cases h
  · rw [hv] at h
    exact (Except.ok.inj h).symm

/-- A registry over a table whose rows stand under their uris. -/
theorem load_faithful {self : Identity} {s : Store Peer} {r : Registry} (h : load self s = .ok r)
    (hnamed : ∀ uri p, s.rows.get? uri = some p → p.uri = uri) : r.Faithful := by
  obtain rfl := load_ok h
  exact ⟨fun uri => (PeerIndex.byUri_ofRows hnamed uri).symm,
    fun uri p hp => hnamed uri p ((PeerIndex.byUri_ofRows hnamed uri).symm.trans hp)⟩

/-- The row of one uri becomes `x`, and the table goes along. -/
structure Changes (r : Registry) (uri : String) (x : Option Peer) (r' : Registry) : Prop where
  row : ∀ v, r'.row? v = if v = uri then x else r.row? v
  faithful : r.Faithful → r'.Faithful

variable {r r' : Registry} {uri : String} {x : Option Peer}

theorem Sets.changes (h : r.Sets uri x r') : r.Changes uri x r' := ⟨h.row, h.faithful⟩

theorem Changes.release (h : r.Changes uri x r') (v : String) : r.Changes uri x (r'.release v) :=
  ⟨h.row, fun hr => (h.faithful hr).of_rows rfl fun _ => rfl⟩

theorem reload_changes (hr : r.Faithful) (uri : String) : r.Changes uri (r.row? uri) r.reload.2 := by
  have hnamed : ∀ uri p, r.store.rows.get? uri = some p → p.uri = uri :=
    fun v p hp => hr.named v p ((hr.kept v).symm.trans hp)
  have hsame : ∀ v, r.reload.2.row? v = r.row? v ∧ r.reload.2.store.rows = r.store.rows := by
    intro v
    unfold reload
    rcases r.store.values_cases with ⟨f, s, hv, hs⟩ | hv
    · rw [hv]
      exact ⟨rfl, hs⟩
    · rw [hv]
      exact ⟨(PeerIndex.byUri_ofRows hnamed v).trans (hr.kept v), rfl⟩
  refine ⟨fun v => ?_, fun hr => hr.of_rows (hsame uri).2 fun v => (hsame v).1⟩
  rw [(hsame v).1]
  by_cases hv : v = uri
  · rw [if_pos hv, hv]
  · rw [if_neg hv]

/-! ## A registry at work -/

/-- A registry and its errands that wait for their peers. -/
structure Office where
  registry : Registry
  waiting : List Waiting

/-- What happens at a registry.  An errand that is given up, as one whose peer fails, returns with a failure. -/
inductive Event where
  | adds (p : Peer)
  | confirms (p : Peer)
  | begins (e : Errand)
  | returns (w : Waiting) (reply : PeerReply)
  | registers (q : Registration)
  | unregisters (text : String)
  | reloads

namespace Event

/-- Whether the node itself has to do with a uri in a way that leads to trust. -/
def Trusts (uri : String) : Event → Prop
  | adds p => p.uri = uri
  | begins (.request u _) | begins (.accept u) => u = uri
  | _ => False

/-- Whether a row of a uri is added. -/
def Adds (uri : String) : Event → Prop
  | adds p => p.uri = uri
  | _ => False

/-- Whether an event takes leave of a peer. -/
def Leaves : Event → Prop
  | begins (.decline _) | begins (.cancel _) | begins (.remove _) | unregisters _ => True
  | _ => False

/-- The row that an event may write: its uri, the status that was there, and the one that comes. -/
inductive Writes : Event → String → Option Status → Status → Prop where
  | added (p : Peer) {old : Option Status} (h : old ≠ some .registered) : Writes (.adds p) p.uri old p.status
  | confirmed (p : Peer) : Writes (.confirms p) p.uri (some .requested) .registered
  | asked (uri key : String) (reply : PeerReply) {new : Status} (h : new ≠ .requesting) :
      Writes (.returns (.requesting uri key) reply) uri none new
  | met (uri key : String) (reply : PeerReply) :
      Writes (.returns (.requesting uri key) reply) uri (some .requesting) .registered
  | accepted (row : Peer) (reply : PeerReply) {new : Status} (h : new ≠ .requesting) :
      Writes (.returns (.accepting row) reply) row.uri (some .requesting) new
  | came (q : Registration) : Writes (.registers q) q.uri none .requesting
  | answered (q : Registration) : Writes (.registers q) q.uri (some .requested) .registered

end Event

namespace Office

/-- A registry without errands under way. -/
def of (r : Registry) : Office := ⟨r, []⟩

/-- The status of a uri. -/
def status? (o : Office) (uri : String) : Option Status := (o.registry.row? uri).map Peer.status

/-- What an event makes of a registry.  A reply to an errand that does not wait is no event. -/
def step (o : Office) : Event → Office
  | .adds p => { o with registry := (o.registry.add p).2 }
  | .confirms p => { o with registry := (o.registry.confirm p).2 }
  | .begins e =>
    match o.registry.begin e with
    | (.waits _ w, r) => ⟨r, w :: o.waiting⟩
    | (.done _, r) => ⟨r, o.waiting⟩
  | .returns w reply =>
    if w ∈ o.waiting then ⟨(o.registry.finish w reply).2, o.waiting.erase w⟩ else o
  | .registers q => { o with registry := (o.registry.handleRegister q).2 }
  | .unregisters text => { o with registry := (o.registry.handleUnregister text).2 }
  | .reloads => { o with registry := o.registry.reload.2 }

/-- A registry after events. -/
def after (o : Office) (es : List Event) : Office := es.foldl step o

theorem after_concat (o : Office) (es : List Event) (e : Event) : o.after (es ++ [e]) = (o.after es).step e := by
  simp [after, List.foldl_append]

end Office

/-! ## What an event writes -/

/-- At most the row of one uri changes: it is removed by taking leave, or written as the event may write it. -/
def Effect (e : Event) (r r' : Registry) : Prop :=
  ∃ uri x, r.Changes uri x r' ∧
    (x = r.row? uri ∨ x = none ∧ e.Leaves ∨ ∃ p, x = some p ∧ e.Writes uri ((r.row? uri).map Peer.status) p.status)

variable {e : Event}

theorem Effect.same (h : r.Changes uri (r.row? uri) r') : Effect e r r' := ⟨uri, _, h, Or.inl rfl⟩

theorem Effect.refl (e : Event) (r : Registry) : Effect e r r := .same (Sets.refl r "").changes

theorem Effect.writeThen {p : Peer} {old : Option Status} (hold : (r.row? p.uri).map Peer.status = old)
    (he : e.Writes p.uri old p.status) (b : Bool) : Effect e r (r.writeThen p b).2 := by
  subst hold
  rcases r.writeThen_cases p b with ⟨r', hw, hr⟩ | ⟨f, r', hw, hr⟩
  · rw [hw]
    exact ⟨p.uri, some p, hr.changes, Or.inr (Or.inr ⟨p, rfl, he⟩)⟩
  · rw [hw]
    exact .same hr.changes

theorem Effect.release (h : Effect e r r') (v : String) : Effect e r (r'.release v) := by
  obtain ⟨uri, x, hr, hx⟩ := h
  exact ⟨uri, x, hr.release v, hx⟩

theorem add_effect (r : Registry) (p : Peer) : Effect (.adds p) r (r.add p).2 := by
  unfold add registered?
  cases hrow : (r.row? p.uri).filter Peer.isRegistered with
  | some q => exact .refl _ r
  | none =>
    refine .writeThen rfl (.added p fun hs => ?_) true
    obtain ⟨q, hq, hstatus⟩ := Option.map_eq_some_iff.mp hs
    rw [hq] at hrow
    simp [Peer.isRegistered, hstatus] at hrow

theorem confirm_effect (r : Registry) (p : Peer) : Effect (.confirms p) r (r.confirm p).2 := by
  unfold confirm
  cases hrow : r.row? p.uri with
  | none => exact .refl _ r
  | some row =>
    dsimp only
    by_cases hs : row.status = .requested
    · rw [if_pos hs]
      refine .writeThen ?_ (.confirmed p) true
      show (r.row? p.uri).map Peer.status = _
      rw [hrow, Option.map_some, hs]
    · rw [if_neg hs]
      exact .refl _ r

theorem finishRequest_effect (r : Registry) (uri key : String) (a : RegistrationAnswer) (reply : PeerReply) :
    Effect (.returns (.requesting uri key) reply) r (r.finishRequest uri key a).2 := by
  unfold finishRequest
  by_cases hc : a.outcome = .conflict
  · rw [if_pos hc]
    exact .refl _ r
  · rw [if_neg hc]
    cases hrow : r.row? uri with
    | none =>
      refine .writeThen ?_ (.asked uri key reply ?_) true
      · show (r.row? uri).map Peer.status = _
        rw [hrow, Option.map_none]
      · show (if a.status = some .registered then Status.registered else .requested) ≠ .requesting
        split <;> simp
    | some row =>
      dsimp only
      by_cases hs : row.status = .requesting
      · rw [if_pos hs]
        refine .writeThen ?_ (.met uri key reply) true
        show (r.row? uri).map Peer.status = _
        rw [hrow, Option.map_some, hs]
      · rw [if_neg hs]
        exact .refl _ r

theorem acceptedStatus_ne_requesting {a : RegistrationAnswer} {s : Status} (h : acceptedStatus a = some s) :
    s ≠ .requesting := by
  unfold acceptedStatus at h
  split at h <;> cases h <;> simp

theorem finishAccept_effect (r : Registry) (row : Peer) (a : RegistrationAnswer) (reply : PeerReply) :
    Effect (.returns (.accepting row) reply) r (r.finishAccept row a).2 := by
  unfold finishAccept
  cases ha : acceptedStatus a with
  | none => exact .refl _ r
  | some s =>
    dsimp only
    by_cases hs : (r.row? row.uri).map (·.status) = some .requesting
    · rw [if_pos hs]
      exact .writeThen (p := { rowOfAnswer row.uri a s (a.key.or row.receiveKey) with properties := row.properties })
        hs (.accepted row reply (acceptedStatus_ne_requesting ha)) _
    · rw [if_neg hs]
      exact .refl _ r

theorem finish_effect (r : Registry) (w : Waiting) (reply : PeerReply) :
    Effect (.returns w reply) r (r.finish w reply).2 := by
  have hidle : Effect (.returns w reply) r (r.release w.uri) := (Effect.refl _ r).release w.uri
  cases w with
  | leaving uri => exact hidle
  | requesting uri key =>
    cases reply with
    | answer a => exact (r.finishRequest_effect uri key a (.answer a)).release uri
    | known b => exact hidle
    | failed f => exact hidle
  | accepting row =>
    cases reply with
    | answer a => exact (r.finishAccept_effect row a (.answer a)).release row.uri
    | known b => exact hidle
    | failed f => exact hidle

theorem handleRegister_effect (hr : r.Faithful) (q : Registration) :
    Effect (.registers q) r (r.handleRegister q).2 := by
  unfold handleRegister
  by_cases hself : q.uri = r.self.uri
  · rw [if_pos hself]
    exact .refl _ r
  · rw [if_neg hself]
    cases hrow : r.row? q.uri with
    | none =>
      dsimp only
      rcases r.write_cases ⟨q.id, q.name, q.uri, .requesting, q.key, ∅⟩ with ⟨r', hw, hs⟩ | ⟨f, r', hw, hs⟩
      · rw [hw]
        refine ⟨q.uri, _, hs.changes, Or.inr (Or.inr ⟨_, rfl, ?_⟩)⟩
        rw [hrow]
        exact .came q
      · rw [hw]
        exact .same hs.changes
    | some row =>
      dsimp only
      by_cases hc : row.id ≠ q.id ∨ row.name ≠ q.name
      · rw [if_pos hc]
        exact .refl _ r
      · rw [if_neg hc]
        by_cases hs : row.status = .requested
        · rw [if_pos hs]
          have hu : row.uri = q.uri := hr.named _ _ hrow
          have hrow' : r.row? row.uri = some row := by rwa [hu]
          have hw := Effect.writeThen (e := .registers q) (r := r)
            (p := { row with
              status := .registered
              receiveKey := (agreedKey row.receiveKey q.key).or row.receiveKey })
            (by rw [hrow', Option.map_some, hs]) (by rw [hu]; exact .answered q) true
          unfold confirm
          rw [hrow']
          dsimp only
          rw [if_pos hs]
          generalize r.writeThen _ true = y at hw ⊢
          obtain ⟨f | b, r'⟩ := y
          · exact hw
          · exact hw
        · rw [if_neg hs]
          exact .refl _ r

theorem handleUnregister_effect (r : Registry) (text : String) :
    Effect (.unregisters text) r (r.handleUnregister text).2 := by
  unfold handleUnregister
  cases r.find? text with
  | none => exact .refl _ r
  | some p =>
    dsimp only
    rcases r.forget_cases p.uri none with ⟨q, r', hf, -, -, hr⟩ | ⟨y, r', hf, -, hr⟩
    · rw [hf]
      exact ⟨p.uri, none, hr.changes, Or.inr (Or.inl ⟨rfl, trivial⟩)⟩
    · rw [hf]
      cases y <;> exact .same hr.changes

/-! ## Runs -/

/-- The statuses that a uri may have after another one. -/
def nextStatuses : Option Status → List (Option Status)
  | none => [some .requested, some .requesting, some .registered]
  | some .requested => [some .registered, none]
  | some .requesting => [some .registered, some .requested, none]
  | some .registered => [none]

/-- A status stays, or moves on as it may. -/
def Moves (s t : Option Status) : Prop := t = s ∨ t ∈ nextStatuses s

instance (s t : Option Status) : Decidable (Moves s t) := by
  unfold Moves
  infer_instance

theorem moves_none (s : Option Status) : Moves s none := by
  rcases s with _ | s
  · decide
  · cases s <;> decide

theorem Event.Writes.moves {old : Option Status} {new : Status} (h : e.Writes uri old new) (ha : ¬ e.Adds uri) :
    Moves old (some new) := by
  cases h with
  | added p => exact absurd rfl ha
  | confirmed p => decide
  | asked key reply hn => cases new <;> simp_all [Moves, nextStatuses]
  | met key reply => decide
  | accepted row reply hn => cases new <;> simp_all [Moves, nextStatuses]
  | came q => decide
  | answered q => decide

theorem Event.Writes.not_registered {old : Option Status} {new : Status} (h : e.Writes uri old new) :
    old ≠ some .registered := by
  cases h with
  | added p h => exact h
  | _ => simp

namespace Office

variable {o : Office}

theorem step_effect (hf : o.registry.Faithful) (e : Event) : Effect e o.registry (o.step e).registry := by
  cases e with
  | adds p => exact o.registry.add_effect p
  | confirms p => exact o.registry.confirm_effect p
  | begins e =>
    unfold step
    dsimp only
    rcases hb : o.registry.begin e with ⟨x | ⟨call, w⟩, r⟩
    · exact .same (begin_done hb).changes
    · obtain ⟨-, x, hout, hr⟩ := begin_waits hb
      have hchanges : o.registry.Changes e.uri x r := ⟨hr.row, fun hf => hr.faithful (hf.of_rows rfl fun _ => rfl)⟩
      refine ⟨e.uri, x, hchanges, ?_⟩
      cases hout with
      | request key hself hrow => exact Or.inl hrow.symm
      | accept hrow hs => exact Or.inl hrow.symm
      | @leave e row hrow hs =>
        refine Or.inr (Or.inl ⟨rfl, ?_⟩)
        cases e with
        | request | accept => exact hs.elim
        | decline | cancel | remove => trivial
  | returns w reply =>
    unfold step
    dsimp only
    by_cases hw : w ∈ o.waiting
    · rw [if_pos hw]
      exact o.registry.finish_effect w reply
    · rw [if_neg hw]
      exact .refl _ _
  | registers q => exact handleRegister_effect hf q
  | unregisters text => exact o.registry.handleUnregister_effect text
  | reloads => exact .same (reload_changes hf "")

theorem step_faithful (hf : o.registry.Faithful) (e : Event) : (o.step e).registry.Faithful := by
  obtain ⟨uri, x, hr, -⟩ := step_effect hf e
  exact hr.faithful hf

theorem after_faithful (hf : o.registry.Faithful) (es : List Event) : (o.after es).registry.Faithful := by
  induction es using List.reverseRecOn with
  | nil => exact hf
  | append_singleton es e ih =>
    rw [after_concat]
    exact step_faithful ih e

theorem status_moves (hf : o.registry.Faithful) {e : Event} (ha : ¬ e.Adds uri) :
    Moves (o.status? uri) ((o.step e).status? uri) := by
  obtain ⟨u, x, hr, hx⟩ := step_effect hf e
  unfold status?
  rw [hr.row]
  by_cases hu : uri = u
  · subst hu
    rw [if_pos rfl]
    rcases hx with rfl | ⟨rfl, -⟩ | ⟨p, rfl, hw⟩
    · exact Or.inl rfl
    · exact moves_none _
    · exact hw.moves ha
  · rw [if_neg hu]
    exact Or.inl rfl

/-- A registered row stays as it is, or goes. -/
theorem registered_kept (hf : o.registry.Faithful) (e : Event) {p : Peer} (hp : o.registry.row? uri = some p)
    (hs : p.status = .registered) :
    (o.step e).registry.row? uri = some p ∨ (o.step e).registry.row? uri = none := by
  obtain ⟨u, x, hr, hx⟩ := step_effect hf e
  rw [hr.row]
  by_cases hu : uri = u
  · subst hu
    rw [if_pos rfl]
    rcases hx with rfl | ⟨rfl, -⟩ | ⟨q, rfl, hw⟩
    · exact Or.inl hp
    · exact Or.inr rfl
    · refine absurd ?_ hw.not_registered
      rw [hp, Option.map_some, hs]
  · rw [if_neg hu]
    exact Or.inl hp

/-! ## Trust needs a call of the node itself -/

/-- Whether an errand that waits may write the row of a uri. -/
def Binds (uri : String) : Waiting → Prop
  | .requesting u _ => u = uri
  | .accepting row => row.uri = uri
  | .leaving _ => False

/-- A uri with which the node itself has nothing to do: it has no row but one that its peer asked for, and no errand
that waits is about to write one. -/
structure Unbound (o : Office) (uri : String) : Prop where
  row : ∀ p, o.registry.row? uri = some p → p.status = .requesting
  waiting : ∀ w ∈ o.waiting, ¬ Binds uri w

theorem Unbound.status (h : o.Unbound uri) : o.status? uri ≠ some .requested ∧ o.status? uri ≠ some .registered := by
  unfold status?
  cases hp : o.registry.row? uri with
  | none => exact ⟨by simp, by simp⟩
  | some p =>
    rw [Option.map_some, h.row p hp]
    exact ⟨by simp, by simp⟩

/-- What begins for a peer is no errand about a uri that is not trusted, unless it takes leave. -/
theorem Unbound.waiting_step (h : o.Unbound uri) (hf : o.registry.Faithful) {e : Event} (he : ¬ e.Trusts uri) :
    ∀ w ∈ (o.step e).waiting, ¬ Binds uri w := by
  cases e with
  | begins e =>
    unfold step
    dsimp only
    rcases hb : o.registry.begin e with ⟨x | ⟨call, w⟩, r⟩
    · exact h.waiting
    · obtain ⟨-, x, hout, -⟩ := begin_waits hb
      refine List.forall_mem_cons.mpr ⟨fun hw => ?_, h.waiting⟩
      cases hout with
      | request key hself hrow => exact he hw
      | accept hrow hs => exact he ((hf.named _ _ hrow).symm.trans hw)
      | leave hrow hs => exact hw
  | returns w reply =>
    unfold step
    dsimp only
    by_cases hw : w ∈ o.waiting
    · rw [if_pos hw]
      exact fun w' hw' => h.waiting w' (List.mem_of_mem_erase hw')
    · rw [if_neg hw]
      exact h.waiting
  | _ => exact h.waiting

theorem Unbound.step (h : o.Unbound uri) (hf : o.registry.Faithful) {e : Event} (he : ¬ e.Trusts uri) :
    (o.step e).Unbound uri := by
  refine ⟨fun q hq => ?_, h.waiting_step hf he⟩
  by_cases hidle : ∃ w reply, e = .returns w reply ∧ w ∉ o.waiting
  · -- a reply to an errand that does not wait changes nothing
    obtain ⟨w, reply, rfl, hw⟩ := hidle
    unfold Office.step at hq
    dsimp only at hq
    rw [if_neg hw] at hq
    exact h.row q hq
  · have hbusy : ∀ w reply, e = .returns w reply → w ∈ o.waiting :=
      fun w reply hw => Classical.byContradiction fun hn => hidle ⟨w, reply, hw, hn⟩
    obtain ⟨u, x, hr, hx⟩ := step_effect hf e
    rw [hr.row] at hq
    by_cases hu : uri = u
    · subst hu
      rw [if_pos rfl] at hq
      rcases hx with rfl | ⟨rfl, -⟩ | ⟨p, rfl, hw⟩
      · exact h.row q hq
      · cases hq
      · obtain rfl := Option.some.inj hq
        have hstatus := h.status
        unfold status? at hstatus
        generalize (o.registry.row? uri).map Peer.status = old at hw hstatus
        generalize p.status = new at hw ⊢
        cases hw with
        | added p => exact absurd rfl he
        | confirmed p => exact absurd rfl hstatus.1
        | asked _ key reply => exact absurd rfl (h.waiting _ (hbusy _ reply rfl))
        | met _ key reply => exact absurd rfl (h.waiting _ (hbusy _ reply rfl))
        | accepted row reply => exact absurd rfl (h.waiting _ (hbusy _ reply rfl))
        | came q => rfl
        | answered q => exact absurd rfl hstatus.1
    · rw [if_neg hu] at hq
      exact h.row q hq

theorem Unbound.after (h : o.Unbound uri) (hf : o.registry.Faithful) {es : List Event} (he : ∀ e ∈ es, ¬ e.Trusts uri) :
    (o.after es).Unbound uri := by
  induction es using List.reverseRecOn with
  | nil => exact h
  | append_singleton es e ih =>
    rw [after_concat]
    exact (ih fun e he' => he e (List.mem_append_left _ he')).step (after_faithful hf es) (he e (by simp))

/-- No message comes in from a hop that names nobody but a peer that is not trusted. -/
theorem Unbound.refused (h : o.Unbound uri) (hf : o.registry.Faithful) {n : Node} (hn : n.registry = o.registry)
    {i : Inbound} (hi : ∀ p, o.registry.find? i.hop = some p → p.uri = uri) (now : Moment) :
    ∃ f, n.takeIn i now = (.settled (.error f), n) := by
  refine Node.takeIn_untrusted (fun hop ht => ?_) now
  have hfind := ht.1
  rw [hn] at hfind
  obtain ⟨hfound, hreg⟩ := Option.filter_eq_some_iff.mp hfind
  -- whether it was found by uri or by id, it is the row of its own uri
  have hrow : ∃ v, o.registry.row? v = some hop := by
    unfold Registry.find? PeerIndex.find? at hfound
    rcases Option.or_eq_some_iff.mp hfound with hrow | ⟨-, hid⟩
    · exact ⟨_, hrow⟩
    · obtain ⟨v, -, hrow⟩ := Option.bind_eq_some_iff.mp hid
      exact ⟨v, hrow⟩
  obtain ⟨v, hrow⟩ := hrow
  have hv : v = uri := (hf.named v hop hrow).symm.trans (hi hop hfound)
  have hs := h.row hop (hv ▸ hrow)
  simp [Peer.isRegistered, hs] at hreg

/-- Over every run of a registry that was opened over a table of rows under their uris: the status of a uri moves as
it may, unless a row is added; a registered row stays as it is until it goes; and a uri without a row, with which the
node itself had nothing to do that leads to trust, is not registered, and no message comes in from its peer. -/
theorem trust_follows {self : Identity} {s : Store Peer} {r : Registry} (hload : load self s = .ok r)
    (hnamed : ∀ uri p, s.rows.get? uri = some p → p.uri = uri) (es : List Event) (uri : String) :
    (∀ e : Event, ¬ e.Adds uri →
        Moves (((Office.of r).after es).status? uri) (((Office.of r).after (es ++ [e])).status? uri)) ∧
      (∀ e p, ((Office.of r).after es).registry.row? uri = some p → p.status = .registered →
        ((Office.of r).after (es ++ [e])).registry.row? uri = some p ∨
          ((Office.of r).after (es ++ [e])).registry.row? uri = none) ∧
      (r.row? uri = none → (∀ e ∈ es, ¬ e.Trusts uri) →
        ((Office.of r).after es).status? uri ≠ some .registered ∧
          ∀ (n : Node) (i : Inbound) (now : Moment), n.registry = ((Office.of r).after es).registry →
            (∀ p, n.registry.find? i.hop = some p → p.uri = uri) →
              ∃ f, n.takeIn i now = (.settled (.error f), n)) := by
  have hf : ((Office.of r).after es).registry.Faithful := after_faithful (load_faithful hload hnamed) es
  refine ⟨fun e ha => ?_, fun e p hp hs => ?_, fun hrow he => ?_⟩
  · rw [after_concat]
    exact status_moves hf ha
  · rw [after_concat]
    exact registered_kept hf e hp hs
  · have hnone : (Office.of r).Unbound uri := ⟨fun p hp => absurd (hrow.symm.trans hp) (by simp), fun w hw => by cases hw⟩
    have hunbound := hnone.after (load_faithful hload hnamed) he
    exact ⟨hunbound.status.2, fun n i now hn hi => hunbound.refused hf hn (fun p hp => hi p (hn ▸ hp)) now⟩

/-- A peer that has asked, and its acceptance while another one asks. -/
theorem trust_follows_acceptance : ∃ (s : Store Peer) (r : Registry) (row : Peer) (es : List Event),
    load ⟨"a", "", "t"⟩ s = .ok r ∧ r.row? "u" = some row ∧ row.status = .requesting ∧
      es = [.begins (.accept "u"), .registers ⟨"c", "", "v", some "9"⟩,
        .returns (.accepting row) (.answer ⟨⟨"b", "", "u"⟩, .confirmed, some .registered, some "7"⟩)] ∧
      ((Office.of r).after es).status? "u" = some .registered ∧
      ((Office.of r).after es).status? "v" = some .requesting ∧
      (∀ e : Event, ((Office.of r).after (es ++ [e])).status? "u" ∈ [some .registered, none]) ∧
      ∀ (n : Node) (i : Inbound) (now : Moment), n.registry = ((Office.of r).after es).registry → i.hop = "v" →
        ∃ f, n.takeIn i now = (.settled (.error f), n) := by
  let row : Peer := ⟨"b", "", "u", .requesting, some "8", ∅⟩
  let s : Store Peer := (Store.inMemory.put "u" row).2
  let es : List Event := [.begins (.accept "u"), .registers ⟨"c", "", "v", some "9"⟩,
    .returns (.accepting row) (.answer ⟨⟨"b", "", "u"⟩, .confirmed, some .registered, some "7"⟩)]
  have hload : load ⟨"a", "", "t"⟩ s = .ok ⟨⟨"a", "", "t"⟩, s, .ofRows [row], [], []⟩ := rfl
  have hnamed : ∀ uri p, s.rows.get? uri = some p → p.uri = uri := by
    intro uri p hp
    have hrow : (Dict.insert ∅ "u" row).get? uri = some p := hp
    rw [Dict.get?_insert] at hrow
    by_cases hu : uri = "u"
    · rw [if_pos hu] at hrow
      rw [← Option.some.inj hrow, hu]
    · rw [if_neg hu] at hrow
      cases hrow
  refine ⟨s, _, row, es, hload, rfl, rfl, rfl, by decide +kernel, by decide +kernel, fun e => ?_, fun n i now hn hi => ?_⟩
  · obtain ⟨-, hkept, -⟩ := trust_follows hload hnamed es "u"
    rcases hkept e ⟨"b", "", "u", .registered, some "7", ∅⟩ (by decide +kernel) rfl with hrow | hrow
    · simp [status?, hrow]
    · simp [status?, hrow]
  · obtain ⟨-, -, hrefused⟩ := trust_follows hload hnamed es "v"
    refine (hrefused rfl ?_).2 n i now hn fun p hp => ?_
    · simp [es, Event.Trusts]
    · rw [hn, hi] at hp
      have hv : ((Office.of ⟨⟨"a", "", "t"⟩, s, .ofRows [row], [], []⟩).after es).registry.find? "v"
          = some ⟨"c", "", "v", .requesting, some "9", ∅⟩ := by decide +kernel
      rw [hv] at hp
      rw [← Option.some.inj hp]

end Office

end Registry

end ContentMesh
