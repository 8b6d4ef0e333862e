import ContentMesh.Proofs.Peer.Deeds
import ContentMesh.Proofs.Peer.Listing

/-!
# ContentMesh.Proofs.Peer.Failing — an operation that fails changes nothing

An operation is followed from its call to its end, with whatever may happen at the registry while it waits for its
peer (`Office.perform`), and held against what it did itself, part by part.  If it reports no success it has done
nothing in any of its parts, and it keeps no claim; it touches the row of its own uri alone
(`Office.failure_changes_nothing`).
-/

namespace ContentMesh

namespace Registry

/-- An operation that a node, or a peer of it, calls. -/
inductive Operation where
  | add (p : Peer)
  | confirm (p : Peer)
  | errand (e : Errand)
  | register (q : Registration)
  | unregister (text : String)

/-- The uri of the peer that an operation is about, if it is about one. -/
def Operation.uri? (r : Registry) : Operation → Option String
  | add p | confirm p => p.uri
  | errand e => e.uri
  | register q => q.uri
  | unregister text => (r.find? text).map Peer.uri

/-- What an operation came to: whether it reports success, and the registry before and after each of its parts. -/
structure Account where
  success : Bool
  parts : List (Registry × Registry)

/-- An operation from its call to its end.  One that waits for its peer is in two parts, and then anything may happen
in between. -/
def Office.perform (o : Office) (op : Operation) (meanwhile : List Turn) (reply : PeerReply) : Account :=
  let r := o.registry
  match op with
  | .add p => ⟨succeeded (r.add p).1, [(r, (r.add p).2)]⟩
  | .confirm p => ⟨succeeded (r.confirm p).1, [(r, (r.confirm p).2)]⟩
  | .register q => ⟨granted (r.handleRegister q).1, [(r, (r.handleRegister q).2)]⟩
  | .unregister text => ⟨succeeded (r.handleUnregister text).1, [(r, (r.handleUnregister text).2)]⟩
  | .errand e =>
    match r.begin e with
    | (.done x, ended) => ⟨succeeded x, [(r, ended)]⟩
    | (.waits _ w, called) =>
      let m := (Office.through ⟨called, o.waiting⟩ meanwhile).registry
      ⟨succeeded (m.finish w reply).1, [(r, called), (m, (m.finish w reply).2)]⟩

/-! ## Parts -/

/-- Rows, table and removals are as they were; calls of the table may have been made. -/
structure Untouched (r r' : Registry) : Prop where
  index : r'.index = r.index
  table : r'.store.rows = r.store.rows
  removals : r'.removals = r.removals

/-- The row of a uri waited for this node and waits for its peer now; nothing else changed. -/
structure Reverted (r : Registry) (uri : String) (r' : Registry) : Prop where
  old : (r.row? uri).map Peer.status = some .requesting
  new : (r'.row? uri).map Peer.status = some .requested
  other : ∀ v, v ≠ uri → r'.row? v = r.row? v
  removals : r'.removals = r.removals

variable {r r' : Registry} {uri : String} {b : Bool}

theorem Untouched.of_claimed {claims : List String} (h : { r with claims }.Untouched r') : r.Untouched r' :=
  ⟨h.index, h.table, h.removals⟩

theorem Untouched.release (h : r.Untouched r') (v : String) : r.Untouched (r'.release v) :=
  ⟨h.index, h.table, h.removals⟩

theorem Reverted.release (h : r.Reverted uri r') (v : String) : r.Reverted uri (r'.release v) :=
  ⟨h.old, h.new, h.other, h.removals⟩

theorem Acts.claims (h : r.Acts uri b r') : r'.claims = r.claims := by
  cases h <;> rfl

theorem Acts.untouched (h : r.Acts uri false r') : r.Untouched r' := by
  cases h with
  | idle b hs => exact ⟨rfl, hs, rfl⟩

theorem Acts.other (h : r.Acts uri b r') {v : String} (hv : v ≠ uri) : r'.row? v = r.row? v := by
  cases h with
  | idle b hs => rfl
  | @wrote p s hp hs =>
    have hrow := r.index.byUri_insert p v
    rw [hp, if_neg hv] at hrow
    exact hrow
  | removed hrow hs =>
    have hrow := r.index.byUri_erase uri v
    rw [if_neg hv] at hrow
    exact hrow

theorem Reverts.reverted {w : Waiting} {reply : PeerReply} (h : r.Reverts w reply r') : r.Reverted w.uri r' := by
  have hother : ∀ v, v ≠ w.uri → r'.row? v = r.row? v := fun v hv => h.acts.other hv
  cases h with
  | @intro row p a s ha hold hp hnew hs =>
    refine ⟨hold, ?_, hother, rfl⟩
    show ((r.index.insert p).byUri.get? row.uri).map Peer.status = some .requested
    rw [PeerIndex.byUri_insert, if_pos hp.symm, Option.map_some, hnew]

/-- An errand that takes leave succeeds, whatever the peer replies. -/
theorem finish_leaves (r : Registry) {w : Waiting} (hw : w.leaves = true) (reply : PeerReply) :
    succeeded (r.finish w reply).1 = true := by
  cases w with
  | leaving uri => rfl
  | requesting uri key => cases hw
  | accepting row => cases hw

namespace Office

variable {o : Office}

/-! ## Operations -/

/-- What is to be shown of an operation: what it has changed if it failed, which claims are left, and what it leaves
alone in any case. -/
structure Accounts (o : Office) (op : Operation) (reply : PeerReply) (a : Account) : Prop where
  failed : a.success = false → (∀ part ∈ a.parts, part.1.Untouched part.2) ∨
    ∃ uri answer called m ended, op = .errand (.accept uri) ∧ reply = .answer answer ∧ answer.outcome = .created ∧
      a.parts = [(o.registry, called), (m, ended)] ∧ o.registry.Untouched called ∧ m.Reverted uri ended
  claims : (∃ ended, a.parts = [(o.registry, ended)] ∧ ended.claims = o.registry.claims) ∨
    ∃ e called m ended, op = .errand e ∧ a.parts = [(o.registry, called), (m, ended)] ∧
      e.uri ∉ o.registry.claims ∧ e.uri ∈ called.claims ∧ e.uri ∉ ended.claims
  other : ∀ v, op.uri? o.registry ≠ some v → ∀ part ∈ a.parts, part.2.row? v = part.1.row? v

/-- An operation in one part. -/
theorem Accounts.of_part {op : Operation} {reply : PeerReply} {ended : Registry}
    (hfail : b = false → o.registry.Untouched ended) (hclaims : ended.claims = o.registry.claims)
    (hother : ∀ v, op.uri? o.registry ≠ some v → ended.row? v = o.registry.row? v) :
    o.Accounts op reply ⟨b, [(o.registry, ended)]⟩ where
  failed hb := Or.inl (List.forall_mem_singleton.mpr (hfail hb))
  claims := Or.inl ⟨ended, rfl, hclaims⟩
  other v hv := List.forall_mem_singleton.mpr (hother v hv)

theorem Accounts.of_acts {op : Operation} {reply : PeerReply} {ended : Registry}
    (huri : op.uri? o.registry = some uri) (h : o.registry.Acts uri b ended) :
    o.Accounts op reply ⟨b, [(o.registry, ended)]⟩ := by
  refine .of_part ?_ h.claims ?_
  · rintro rfl
    exact h.untouched
  · intro v hv
    apply h.other
    rintro rfl
    exact hv huri

/-- An errand that waits for its peer, and ends when the registry has become another one. -/
theorem accounts_waits {e : Errand} {call : PeerCall} {w : Waiting} {called : Registry}
    (hf : o.registry.Faithful) (hb : o.registry.begin e = (.waits call w, called)) (m : Registry) (reply : PeerReply) :
    o.Accounts (.errand e) reply
      ⟨succeeded (m.finish w reply).1, [(o.registry, called), (m, (m.finish w reply).2)]⟩ := by
  have hd := begin_departs hf e
  rw [hb] at hd
  obtain ⟨hw, hfree, hcalled⟩ := hd
  obtain ⟨ended, hended, hacts⟩ := m.finish_acts w reply
  have hmine : e.uri ∈ called.claims := by
    rw [hcalled.claims]
    exact List.mem_cons_self
  rw [hended]
  refine ⟨fun hfail => ?_, ?_, fun v hv => ?_⟩
  · -- one that takes leave would not fail, so that nothing was done before the call
    dsimp only at hfail
    have hstays : w.leaves = false := by
      cases hl : w.leaves with
      | false => rfl
      | true => rw [m.finish_leaves hl reply] at hfail; cases hfail
    rw [hstays] at hcalled
    have hfirst : o.registry.Untouched called := hcalled.untouched.of_claimed
    rw [hfail] at hacts
    rcases hacts with hacts | hreverts
    · have hsecond : m.Untouched (ended.release w.uri) := hacts.untouched.release w.uri
      exact Or.inl (List.forall_mem_cons.mpr ⟨hfirst, List.forall_mem_singleton.mpr hsecond⟩)
    · have hsecond : m.Reverted e.uri (ended.release w.uri) := hw ▸ hreverts.reverted.release w.uri
      cases hreverts with
      | @intro row p a s ha hold hp hnew hs =>
        obtain ⟨-, x, hout, -⟩ := begin_waits hb
        cases hout with
        | accept hrow hstatus => exact Or.inr ⟨_, a, called, m, _, rfl, rfl, ha, rfl, hfirst, hsecond⟩
  · refine Or.inr ⟨e, called, m, _, rfl, rfl, hfree, hmine, ?_⟩
    rw [hw]
    exact not_mem_release ended e.uri
  · have hne : v ≠ e.uri := by
      rintro rfl
      exact hv rfl
    have hother : (ended.release w.uri).row? v = m.row? v := by
      rw [row?_release]
      rcases hacts with hacts | hreverts
      · exact hacts.other (hw.symm ▸ hne)
      · exact hreverts.acts.other (hw.symm ▸ hne)
    exact List.forall_mem_cons.mpr ⟨hcalled.other hne, List.forall_mem_singleton.mpr hother⟩

theorem perform_accounts (hf : o.registry.Faithful) (op : Operation) (meanwhile : List Turn) (reply : PeerReply) :
    o.Accounts op reply (o.perform op meanwhile reply) := by
  cases op with
  | add p => exact .of_acts rfl (o.registry.add_acts p)
  | confirm p => exact .of_acts rfl (o.registry.confirm_acts p)
  | register q => exact .of_acts rfl (handleRegister_acts hf q)
  | unregister text =>
    cases hfind : o.registry.find? text with
    | some p => exact .of_acts (congrArg (Option.map Peer.uri) hfind) (handleUnregister_acts hf hfind)
    | none =>
      have hunknown : o.registry.handleUnregister text = (.ok false, o.registry) := by
        unfold handleUnregister
        rw [hfind]
      unfold perform
      dsimp only
      rw [hunknown]
      exact .of_part (fun _ => ⟨rfl, rfl, rfl⟩) rfl fun v _ => rfl
  | errand e =>
    unfold perform
    dsimp only
    rcases hb : o.registry.begin e with ⟨x | ⟨call, w⟩, called⟩
    · have hd := begin_departs hf e
      rw [hb] at hd
      obtain ⟨hfails, hacts⟩ := hd
      dsimp only
      rw [hfails]
      exact .of_acts rfl hacts
    · exact accounts_waits hf hb _ reply

/-- At a registry that was opened over a table of rows under their uris, after any run in which calls of the table may
fail, whatever the peer replies and whatever happens while the operation waits for it.  An operation that reports no
success has changed no row and has told nobody of a removal, in any of its parts; only an acceptance that the peer
answers with `created` may have turned its own row from one that waits for this node into one that waits for the peer.
The claims are as they were if it did not set out, and it has given its claim back if it did.  And no operation, failed
or not, changes the row of another uri. -/
theorem failure_changes_nothing {self : Identity} {s : Store Peer} (hload : load self s = .ok r)
    (hnamed : ∀ uri p, s.rows.get? uri = some p → p.uri = uri) (ts : List Turn) (op : Operation)
    (meanwhile : List Turn) (reply : PeerReply) :
    let o := (of r).through ts
    let a := o.perform op meanwhile reply
    (a.success = false → (∀ part ∈ a.parts, part.1.Untouched part.2) ∨
        ∃ uri answer called m ended, op = .errand (.accept uri) ∧ reply = .answer answer ∧ answer.outcome = .created ∧
          a.parts = [(o.registry, called), (m, ended)] ∧ o.registry.Untouched called ∧ m.Reverted uri ended) ∧
      ((∃ ended, a.parts = [(o.registry, ended)] ∧ ended.claims = o.registry.claims) ∨
        ∃ e called m ended, op = .errand e ∧ a.parts = [(o.registry, called), (m, ended)] ∧
          e.uri ∉ o.registry.claims ∧ e.uri ∈ called.claims ∧ e.uri ∉ ended.claims) ∧
      ∀ v, op.uri? o.registry ≠ some v → ∀ part ∈ a.parts, part.2.row? v = part.1.row? v := by
  intro o a
  have hf : o.registry.Faithful := through_faithful (o := of r) (load_faithful hload hnamed) ts
  have haccounts : o.Accounts op reply a := perform_accounts hf op meanwhile reply
  exact ⟨haccounts.failed, haccounts.claims, haccounts.other⟩

/-- An acceptance that the peer confirms, while another one asks and the table begins to fail. -/
theorem failure_changes_nothing_accepting : ∃ (s : Store Peer) (r : Registry) (row : Peer) (meanwhile : List Turn)
    (reply : PeerReply),
    load ⟨"a", "", "t"⟩ s = .ok r ∧ (∀ uri p, s.rows.get? uri = some p → p.uri = uri) ∧ s.rows.values = [row] ∧
      meanwhile = [.happens (.registers ⟨"c", "", "v", some "9"⟩), .fails { Faults.none with put := 1 } .none] ∧
      reply = .answer ⟨⟨"b", "", "u"⟩, .confirmed, some .registered, some "7"⟩ ∧
      ((of r).perform (.errand (.accept "u")) meanwhile reply).success = false ∧
      ((of r).perform (.errand (.accept "u")) meanwhile reply).parts.length = 2 ∧
      ∀ part ∈ ((of r).perform (.errand (.accept "u")) meanwhile reply).parts, part.1.Untouched part.2 := by
  let row : Peer := ⟨"b", "", "u", .requesting, some "8", ∅⟩
  let s : Store Peer := (Store.inMemory.put "u" row).2
  let meanwhile : List Turn :=
    [.happens (.registers ⟨"c", "", "v", some "9"⟩), .fails { Faults.none with put := 1 } .none]
  let reply : PeerReply := .answer ⟨⟨"b", "", "u"⟩, .confirmed, some .registered, some "7"⟩
  have hload : load ⟨"a", "", "t"⟩ s = .ok ⟨⟨"a", "", "t"⟩, s, .ofRows [row], [], []⟩ := rfl
  have hnamed : ∀ uri p, s.rows.get? uri = some p → p.uri = uri := by
    intro uri p hp
    have hrow : (Dict.insert ∅ "u" row).get? uri = some p := hp
    rw [Dict.get?_insert] at hrow
    by_cases hu : uri = "u"
    · rw [if_pos hu] at hrow
      rw [← Option.some.inj hrow, hu]
    · rw [if_neg hu] at hrow
      cases hrow
  have hfails : ((of ⟨⟨"a", "", "t"⟩, s, .ofRows [row], [], []⟩).perform (.errand (.accept "u")) meanwhile reply).success
      = false := by decide +kernel
  obtain ⟨hfailed, -, -⟩ := failure_changes_nothing hload hnamed [] (.errand (.accept "u")) meanwhile reply
  refine ⟨s, _, row, meanwhile, reply, hload, hnamed, rfl, rfl, rfl, hfails, by decide +kernel, ?_⟩
  rcases hfailed hfails with huntouched | ⟨uri, answer, called, m, ended, -, hreply, hcreated, -⟩
  · exact huntouched
  · -- the peer did not answer with `created`
    rw [← PeerReply.answer.inj hreply] at hcreated
    cases hcreated

end Office

end Registry

end ContentMesh
