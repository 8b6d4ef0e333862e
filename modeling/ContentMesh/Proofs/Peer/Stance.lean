import Mathlib.Data.String.Basic
import ContentMesh.Proofs.Peer.Rows

/-!
# ContentMesh.Proofs.Peer.Stance — one end of a link in short

Two instances that deal with each other keep little: a status and a key, in a row that names the other one
(`Registry.Keeps`).  What a registry does with a call of its peer, and with the answer to a call of its own, is then
a function of that pair: `Stance.weigh` and `Purpose.settle`.
-/

namespace ContentMesh

theorem agreedKey_some (a b : String) : agreedKey (some a) (some b) = some (min a b) := by
  show some (if b < a then b else a) = some (min a b)
  rcases lt_or_ge b a with h | h
  · rw [if_pos h, min_eq_right (le_of_lt h)]
  · rw [if_neg (not_lt.mpr h), min_eq_left h]

/-! ## Calls and answers -/

/-- How an instance stands with a peer: the status and the key of its row, or no row. -/
abbrev Stance := Option (Status × String)

/-- What the answer to a registration says. -/
inductive Verdict where
  | created
  | confirmed (key : String)
  | known (status : Status)
  deriving DecidableEq

namespace Verdict

def answer (i : Identity) : Verdict → RegistrationAnswer
  | created => ⟨i, .created, some .requesting, none⟩
  | confirmed key => ⟨i, .confirmed, some .registered, some key⟩
  | known s => ⟨i, .alreadyKnown, some s, none⟩

/-- How the caller stands with the answering side. -/
def status : Verdict → Status
  | created => .requesting
  | confirmed _ => .registered
  | known s => s

/-- The key of a link for which the caller offered one. -/
def key (offered : String) : Verdict → String
  | confirmed key => key
  | _ => offered

/-- The status that an accepted request comes to have. -/
def accepted? : Verdict → Option Status
  | created => some .requested
  | confirmed _ => some .registered
  | known .registered => some .registered
  | known _ => none

variable (v : Verdict) (i : Identity)

theorem outcome_answer : (v.answer i).outcome ≠ .conflict := by
  cases v <;> simp [answer]

theorem status_answer : (v.answer i).status = some v.status := by
  cases v <;> rfl

theorem key_answer (offered : String) : (v.answer i).key.or (some offered) = some (v.key offered) := by
  cases v <;> rfl

theorem acceptedStatus_answer : Registry.acceptedStatus (v.answer i) = v.accepted? := by
  cases v with
  | known s => cases s <;> rfl
  | _ => rfl

end Verdict

/-- What a call is for; a request and its acceptance offer a key. -/
inductive Purpose where
  | ask (key : String)
  | accept (key : String)
  | leave
  deriving DecidableEq

namespace Purpose

/-- The key that a call offers. -/
def key? : Purpose → Option String
  | ask key | accept key => some key
  | leave => none

/-- What the caller says. -/
def call (me peer : Identity) : Purpose → PeerCall
  | ask key | accept key => .register peer.uri (.of me (some key))
  | leave => .unregister peer.uri me.id

/-- What waits at the caller. -/
inductive Waits (peer : Identity) : Purpose → Waiting → Prop where
  | ask (key : String) : Waits peer (.ask key) (.requesting peer.uri key)
  | accept (key : String) (properties : Dict String) :
      Waits peer (.accept key) (.accepting ⟨peer.id, peer.name, peer.uri, .requesting, some key, properties⟩)
  | leave : Waits peer .leave (.leaving peer.uri)

/-- The errands that make such a call, with what the caller has of its peer before and after it has set out. -/
inductive Opens : Purpose → Errand → Stance → Stance → Prop where
  | ask (uri key : String) : Opens (.ask key) (.request uri key) none none
  | accept (uri key : String) :
      Opens (.accept key) (.accept uri) (some (.requesting, key)) (some (.requesting, key))
  | leave (e : Errand) (y : Status × String) (h : e.Leaves y.1) : Opens .leave e (some y) none

/-- How the caller stands with its peer after the answer. -/
def settle (v : Verdict) : Purpose → Stance → Stance
  | ask key, none => some (if v.status = .registered then .registered else .requested, v.key key)
  | ask key, some (.requesting, k) => some (.registered, min (v.key key) k)
  | accept key, some (.requesting, k) => some ((v.accepted?.map fun s => (s, v.key key)).getD (.requesting, k))
  | _, x => x

end Purpose

namespace Stance

/-- What a peer is told that offers a key, and how it stands then. -/
def weigh (key : String) : Stance → Verdict × Stance
  | none => (.created, some (.requesting, key))
  | some (.requested, k) => (.confirmed (min k key), some (.registered, min k key))
  | some (s, k) => (.known s, some (s, k))

theorem weigh_some (x : Stance) (key : String) : ∃ y, (x.weigh key).2 = some y := by
  rcases x with _ | ⟨s, k⟩
  · exact ⟨_, rfl⟩
  · cases s <;> exact ⟨_, rfl⟩

/-- The row of a peer that stands so. -/
def Row (x : Stance) (peer : Identity) (row : Option Peer) : Prop :=
  match x with
  | none => row = none
  | some (s, k) => ∃ properties, row = some ⟨peer.id, peer.name, peer.uri, s, some k, properties⟩

end Stance

/-! ## What a registry does -/

namespace Registry

variable {r r' : Registry} {peer : Identity} {x : Stance}

/-- The row that a registry has for a peer. -/
def Keeps (r : Registry) (peer : Identity) (x : Stance) : Prop := x.Row peer (r.row? peer.uri)

theorem Keeps.receiveKey {y : Status × String} (hk : r.Keeps peer (some y)) :
    (r.row? peer.uri).bind Peer.receiveKey = some y.2 := by
  obtain ⟨properties, hrow⟩ := hk
  rw [hrow]
  rfl

/-- The status and the key of a row that is kept for a peer. -/
theorem Keeps.of_row (hk : r.Keeps peer x) {p : Peer} (hp : r.row? peer.uri = some p) :
    ∃ k, x = some (p.status, k) ∧ p.receiveKey = some k := by
  rcases x with _ | ⟨s, k⟩
  · exact absurd (hp.symm.trans hk) (Option.some_ne_none p)
  · obtain ⟨properties, hrow⟩ := hk
    obtain rfl := Option.some.inj (hp.symm.trans hrow)
    exact ⟨k, rfl, rfl⟩

/-- A peer comes to stand so; who the node is and its claims stay. -/
structure Turns (r : Registry) (peer : Identity) (x : Stance) (r' : Registry) : Prop where
  self : r'.self = r.self
  claims : r'.claims = r.claims
  keeps : r'.Keeps peer x

theorem Sets.turns {row : Option Peer} (h : r.Sets peer.uri row r') (hx : x.Row peer row) : r.Turns peer x r' := by
  refine ⟨h.self, h.claims, ?_⟩
  unfold Keeps
  rwa [h.row_eq]

theorem Keeps.turns (hk : r.Keeps peer x) : r.Turns peer x r := ⟨rfl, rfl, hk⟩

theorem Turns.release (h : r.Turns peer x r') (uri : String) : (r.release uri).Turns peer x (r'.release uri) := by
  refine ⟨h.self, ?_, h.keeps⟩
  unfold Registry.release
  rw [h.claims]

/-- A peer that stood as `x` comes to stand as `x'`, unless the store fails. -/
def Writes (r : Registry) (peer : Identity) (x x' : Stance) (result : Except Failure Bool × Registry) : Prop :=
  match result.1 with
  | .ok _ => r.Turns peer x' result.2
  | .error _ => r.Turns peer x result.2

theorem Keeps.writeThen (hk : r.Keeps peer x) (s : Status) (k : String) (properties : Dict String) (b : Bool) :
    r.Writes peer x (some (s, k)) (r.writeThen ⟨peer.id, peer.name, peer.uri, s, some k, properties⟩ b) := by
  rcases r.writeThen_cases ⟨peer.id, peer.name, peer.uri, s, some k, properties⟩ b with ⟨r', hw, hr⟩ | ⟨f, r', hw, hr⟩
  · rw [hw]
    exact hr.turns ⟨properties, rfl⟩
  · rw [hw]
    exact hr.turns hk

theorem Keeps.handleRegister (hk : r.Keeps peer x) (hu : peer.uri ≠ r.self.uri) (key : String) :
    (∃ r', r.handleRegister (.of peer (some key)) = (.ok ((x.weigh key).1.answer r.self), r') ∧
        r.Turns peer (x.weigh key).2 r') ∨
      (∃ f r', r.handleRegister (.of peer (some key)) = (.error f, r') ∧ r.Turns peer x r') := by
  unfold Registry.handleRegister Registration.of
  rw [if_neg hu]
  have hrow := hk
  unfold Keeps at hrow
  cases x with
  | none =>
    have hnone : r.row? peer.uri = none := hrow
    dsimp only
    rw [hnone]
    rcases r.write_cases ⟨peer.id, peer.name, peer.uri, .requesting, some key, ∅⟩ with ⟨r', hw, hr⟩ | ⟨f, r', hw, hr⟩
    · refine Or.inl ⟨r', ?_, hr.turns ⟨∅, rfl⟩⟩
      dsimp only
      rw [hw]
      exact Prod.ext (congrArg (fun i => Except.ok (Verdict.created.answer i)) hr.self) rfl
    · refine Or.inr ⟨f, r', ?_, hr.turns hk⟩
      dsimp only
      rw [hw]
  | some y =>
    obtain ⟨s, k⟩ := y
    obtain ⟨properties, hsome⟩ := hrow
    dsimp only
    rw [hsome]
    dsimp only
    rw [if_neg (by simp)]
    cases s with
    | registered => exact Or.inl ⟨r, rfl, hk.turns⟩
    | requesting => exact Or.inl ⟨r, rfl, hk.turns⟩
    | requested =>
      rw [if_pos rfl, agreedKey_some]
      dsimp only [confirm]
      rw [hsome]
      dsimp only
      rw [if_pos rfl]
      have hr := hk.writeThen .registered (min k key) properties true
      rw [Option.some_or]
      rcases hw : r.writeThen ⟨peer.id, peer.name, peer.uri, .registered, some (min k key), properties⟩ true with
        ⟨f | b, r'⟩
      · rw [hw] at hr
        exact Or.inr ⟨f, r', rfl, hr⟩
      · rw [hw] at hr
        refine Or.inl ⟨r', ?_, hr⟩
        exact Prod.ext (congrArg (fun i => Except.ok ((Verdict.confirmed (min k key)).answer i)) hr.self) rfl

/-- A peer that takes leave has its row removed; it stays if another peer goes by the text, or the store fails. -/
theorem Keeps.handleUnregister (hk : r.Keeps peer x) (text : String) :
    r.Turns peer x (r.handleUnregister text).2 ∨ r.Turns peer none (r.handleUnregister text).2 := by
  unfold Registry.handleUnregister
  cases r.find? text with
  | none => exact Or.inl hk.turns
  | some p =>
    dsimp only
    rcases r.forget_cases p.uri none with ⟨q, r', hf, -, -, hr⟩ | ⟨y, r', hf, -, hr⟩
    · rw [hf]
      by_cases hp : p.uri = peer.uri
      · rw [hp] at hr
        exact Or.inr (hr.turns rfl)
      · refine Or.inl ⟨hr.self, hr.claims, ?_⟩
        unfold Keeps
        rw [hr.row, if_neg (fun he => hp he.symm)]
        exact hk
    · rw [hf]
      have hsame : r.Turns peer x r' := by
        refine ⟨hr.self, hr.claims, ?_⟩
        unfold Keeps
        rw [hr.row]
        by_cases hp : peer.uri = p.uri
        · rw [if_pos hp, ← hp]
          exact hk
        · rw [if_neg hp]
          exact hk
      cases y <;> exact Or.inl hsame

/-- A call of a peer is answered, or there is no answer and its row stays or, when it takes leave, goes. -/
theorem Keeps.serve (hk : r.Keeps peer x) (hu : peer.uri ≠ r.self.uri) (q : Purpose) {reply : PeerReply}
    (h : r.serve (q.call peer r.self) = (reply, r')) :
    (∃ key, q.key? = some key ∧ reply = .answer ((x.weigh key).1.answer r.self) ∧ r.Turns peer (x.weigh key).2 r') ∨
      ((∀ a, reply ≠ .answer a) ∧ (r.Turns peer x r' ∨ q = .leave ∧ r.Turns peer none r')) := by
  have hregister : ∀ key, r.serve (.register r.self.uri (.of peer (some key))) = (reply, r') →
      (reply = .answer ((x.weigh key).1.answer r.self) ∧ r.Turns peer (x.weigh key).2 r') ∨
        ((∀ a, reply ≠ .answer a) ∧ r.Turns peer x r') := by
    intro key hserve
    unfold Registry.serve at hserve
    dsimp only at hserve
    rcases hk.handleRegister hu key with ⟨r₁, hq, hr⟩ | ⟨f, r₁, hq, hr⟩
    · rw [hq] at hserve
      cases hserve
      exact Or.inl ⟨rfl, hr⟩
    · rw [hq] at hserve
      cases hserve
      exact Or.inr ⟨fun a ha => (by cases ha), hr⟩
  cases q with
  | ask key => exact (hregister key h).imp (fun hr => ⟨key, rfl, hr⟩) fun hr => ⟨hr.1, Or.inl hr.2⟩
  | accept key => exact (hregister key h).imp (fun hr => ⟨key, rfl, hr⟩) fun hr => ⟨hr.1, Or.inl hr.2⟩
  | leave =>
    have hr := hk.handleUnregister peer.id
    unfold Purpose.call Registry.serve at h
    dsimp only at h
    rcases hq : r.handleUnregister peer.id with ⟨f | b, r₁⟩
    all_goals
      rw [hq] at h hr
      cases h
      exact Or.inr ⟨fun a ha => (by cases ha), hr.imp_right fun hr => ⟨rfl, hr⟩⟩

/-- An errand to a peer sets out as a call with its purpose. -/
theorem Keeps.begin_waits {e : Errand} {call : PeerCall} {w : Waiting} (hk : r.Keeps peer x) (he : e.uri = peer.uri)
    (h : r.begin e = (.waits call w, r')) :
    peer.uri ∉ r.claims ∧ ∃ q x', Purpose.Opens q e x x' ∧ q.Waits peer w ∧ call = q.call r.self peer ∧
      { r with claims := peer.uri :: r.claims }.Turns peer x' r' := by
  obtain ⟨hfree, row, hout, hr⟩ := Registry.begin_waits h
  rw [he] at hfree hr
  refine ⟨hfree, ?_⟩
  unfold Keeps at hk
  -- an errand that finds a row finds the one that is kept
  have hkept : ∀ {p : Peer}, r.row? peer.uri = some p → ∃ s k properties,
      x = some (s, k) ∧ p = ⟨peer.id, peer.name, peer.uri, s, some k, properties⟩ := by
    intro p hp
    cases x with
    | none => exact absurd (hk.symm.trans hp) (by simp)
    | some y =>
      obtain ⟨properties, hy⟩ := hk
      exact ⟨y.1, y.2, properties, rfl, Option.some.inj (hp.symm.trans hy)⟩
  cases hout with
  | @request uri key hself hrow =>
    have hu : uri = peer.uri := he
    subst hu
    have hx : x = none := by
      cases x with
      | none => rfl
      | some y =>
        obtain ⟨properties, hy⟩ := hk
        exact absurd (hrow.symm.trans hy) (by simp)
    subst hx
    exact ⟨.ask key, none, .ask _ key, .ask key, rfl, hr.turns rfl⟩
  | @accept uri p hrow hs =>
    have hu : uri = peer.uri := he
    subst hu
    obtain ⟨s, k, properties, rfl, rfl⟩ := hkept hrow
    have hrequesting : s = .requesting := hs
    subst hrequesting
    exact ⟨.accept k, some (.requesting, k), .accept _ k, .accept k properties, rfl, hr.turns ⟨properties, rfl⟩⟩
  | @leave e p hrow hs =>
    rw [he] at hrow
    obtain ⟨s, k, properties, rfl, rfl⟩ := hkept hrow
    rw [he]
    exact ⟨.leave, none, .leave e (s, k) hs, .leave, rfl, hr.turns rfl⟩

theorem Keeps.begin_done {e : Errand} {y : Except Failure Bool} (hk : r.Keeps peer x) (he : e.uri = peer.uri)
    (h : r.begin e = (.done y, r')) : r.Turns peer x r' := by
  have hr := Registry.begin_done h
  rw [he] at hr
  exact hr.turns hk

theorem rowOfAnswer_answer (v : Verdict) (s : Status) (key : Option String) :
    rowOfAnswer peer.uri (v.answer peer) s key = ⟨peer.id, peer.name, peer.uri, s, key, ∅⟩ := by
  cases v <;> rfl

theorem Keeps.finishRequest (hk : r.Keeps peer x) (key : String) (v : Verdict) :
    r.Writes peer x ((Purpose.ask key).settle v x) (r.finishRequest peer.uri key (v.answer peer)) := by
  unfold Registry.finishRequest
  rw [if_neg (v.outcome_answer peer), v.status_answer, v.key_answer]
  have hrow := hk
  unfold Keeps at hrow
  cases x with
  | none =>
    have hnone : r.row? peer.uri = none := hrow
    have hstatus : (if some v.status = some Status.registered then Status.registered else .requested)
        = if v.status = .registered then .registered else .requested := by simp only [Option.some.injEq]
    rw [hnone]
    dsimp only
    rw [rowOfAnswer_answer, hstatus]
    exact hk.writeThen _ (v.key key) ∅ true
  | some y =>
    obtain ⟨s, k⟩ := y
    obtain ⟨properties, hsome⟩ := hrow
    rw [hsome]
    dsimp only
    cases s with
    | requesting =>
      rw [if_pos rfl, agreedKey_some, rowOfAnswer_answer]
      exact hk.writeThen .registered (min (v.key key) k) ∅ true
    | requested => exact hk.turns
    | registered => exact hk.turns

theorem Keeps.finishAccept (hk : r.Keeps peer x) (key : String) (properties : Dict String) (v : Verdict) :
    r.Writes peer x ((Purpose.accept key).settle v x)
      (r.finishAccept ⟨peer.id, peer.name, peer.uri, .requesting, some key, properties⟩ (v.answer peer)) := by
  unfold Registry.finishAccept
  rw [v.acceptedStatus_answer, v.key_answer]
  have hrow := hk
  unfold Keeps at hrow
  cases x with
  | none =>
    have hnone : r.row? peer.uri = none := hrow
    rw [hnone]
    cases v.accepted? <;> exact hk.turns
  | some y =>
    obtain ⟨s, k⟩ := y
    obtain ⟨properties', hsome⟩ := hrow
    rw [hsome]
    cases s with
    | requesting =>
      unfold Purpose.settle
      cases v.accepted? with
      | none => exact hk.turns
      | some s' =>
        dsimp only
        rw [Option.map_some, Option.map_some, if_pos rfl, rowOfAnswer_answer]
        exact hk.writeThen s' (v.key key) properties (s' == .registered)
    | requested => cases v.accepted? <;> exact hk.turns
    | registered => cases v.accepted? <;> exact hk.turns

theorem Writes.release {x' : Stance} {y : Except Failure Bool} (h : r.Writes peer x x' (y, r')) (uri : String) :
    (r.release uri).Writes peer x x' (y, r'.release uri) := by
  cases y <;> exact Turns.release h uri

/-- The second half of a call that was answered. -/
theorem Keeps.finish_answer {q : Purpose} {w : Waiting} (hk : r.Keeps peer x) (hw : q.Waits peer w) (v : Verdict) :
    (r.release peer.uri).Writes peer x (q.settle v x) (r.finish w (.answer (v.answer peer))) := by
  cases hw with
  | ask key => exact (hk.finishRequest key v).release peer.uri
  | accept key properties => exact (hk.finishAccept key properties v).release peer.uri
  | leave => exact hk.turns.release peer.uri

/-- A call that was not answered changes nothing any more. -/
theorem Keeps.finish_unanswered {q : Purpose} {w : Waiting} {reply : PeerReply} (hk : r.Keeps peer x)
    (hw : q.Waits peer w) (hreply : ∀ a, reply ≠ .answer a) :
    (r.release peer.uri).Turns peer x (r.finish w reply).2 := by
  cases reply with
  | answer a => exact absurd rfl (hreply a)
  | known b => cases hw <;> exact hk.turns.release peer.uri
  | failed f => cases hw <;> exact hk.turns.release peer.uri

end Registry

end ContentMesh
