import ContentMesh.Proofs.Mesh.Network
import ContentMesh.Proofs.Peer.Registered

/-!
# ContentMesh.Proofs.Mesh.Links — networks of which both ends of each link agree

What is sent over a link is trusted at its other end (`Meshed.trusted`), and a node that hands a message on reaches all
its links but those to the source of the message and to the hop it came from (`Meshed.reached`).
-/

namespace ContentMesh.Network

variable {ι : Type} {node : ι → Node} {u v w : ι}

/-- Messages flow from `u` to `v`. -/
def Linked (node : ι → Node) (u v : ι) : Prop := ∃ p, (node u).registry.registered? (node v).self.uri = some p

/-- The row in which `u` keeps `v`, under its uri and its id, with the key of their link. -/
structure Row (node : ι → Node) (u v : ι) (key : String) (p : Peer) : Prop where
  uri : p.uri = (node v).self.uri
  id : p.id = (node v).self.id
  byUri : (node u).registry.registered? p.uri = some p
  byId : (node u).registry.find? p.id = some p
  key : p.receiveKey = some key

/-- Running nodes that never give a message up; messages flow between two of them in both directions or not at all, and
then each keeps the other under the same key. -/
structure Meshed (node : ι → Node) : Prop where
  running : ∀ v, (node v).running = true
  opened : ∀ v, (node v).outbox.closed = false
  unlimited : ∀ v, (node v).outbox.retry.maxAttempts = none
  uris : ∀ v w, (node v).self.uri = (node w).self.uri → v = w
  links : ∀ u k p, (node u).registry.registered? k = some p → ∃ v key q,
    k = (node v).self.uri ∧ Row node u v key p ∧ Row node v u key q ∧ (node v).signer = (node u).signer

namespace Meshed

/-- The rows at both ends of a link. -/
theorem ends (h : Meshed node) (hl : Linked node u v) : ∃ key p q,
    Row node u v key p ∧ Row node v u key q ∧ (node v).signer = (node u).signer := by
  obtain ⟨p, hp⟩ := hl
  obtain ⟨w, key, q, hk, hrow, hback, hsigner⟩ := h.links u _ p hp
  obtain rfl := h.uris v w hk
  exact ⟨key, p, q, hrow, hback, hsigner⟩

theorem symm (h : Meshed node) (hl : Linked node u v) : Linked node v u := by
  obtain ⟨key, p, q, -, hback, -⟩ := h.ends hl
  exact ⟨q, hback.uri ▸ hback.byUri⟩

theorem target (h : Meshed node) {k : String} {p : Peer} (hp : (node u).registry.registered? k = some p) :
    p.uri = k ∧ ∃ v, Linked node u v ∧ p.uri = (node v).self.uri := by
  obtain ⟨v, key, q, rfl, hrow, -, -⟩ := h.links u k p hp
  exact ⟨hrow.uri, v, ⟨p, hp⟩, hrow.uri⟩

/-- What is signed for the other end of a link is trusted there. -/
theorem trusted (h : Meshed node) {k : String} {target : Peer} {p : Parcel} {t : Option String}
    (hp : (node u).registry.registered? k = some target) (hs : (node u).signer.sign target.receiveKey p = .ok t) :
    ∃ v hop, target.uri = (node v).self.uri ∧ Linked node u v ∧ hop.uri = (node u).self.uri ∧
      (node v).Trusted ⟨p.header, (node u).self.id, p.body, t⟩ hop := by
  obtain ⟨v, key, q, rfl, hrow, hback, hsigner⟩ := h.links u k target hp
  refine ⟨v, q, hrow.uri, ⟨target, hp⟩, hback.uri, ?_, ?_⟩
  · show ((node v).registry.find? (node u).self.id).filter Peer.isRegistered = some q
    rw [← hback.id, hback.byId, Option.filter_eq_some_iff]
    exact ⟨rfl, (Registry.registered?_eq_some.mp hback.byUri).2⟩
  · obtain ⟨t', hsign, hverify⟩ := (node u).signer.verify_sign key p (some q.uri)
    rw [hrow.key, hsign] at hs
    cases hs
    rw [hsigner, hback.key]
    exact hverify

theorem signs (h : Meshed node) {k : String} {target : Peer} (hp : (node u).registry.registered? k = some target)
    (p : Parcel) : ∃ t, (node u).signer.sign target.receiveKey p = .ok t := by
  obtain ⟨v, key, q, -, hrow, -, -⟩ := h.links u k target hp
  obtain ⟨t, hsign, -⟩ := (node u).signer.verify_sign key p none
  exact ⟨t, hrow.key ▸ hsign⟩

/-- No two ends of links answer to the uri of one of them. -/
theorem not_answersTo (h : Meshed node) {key : String} {q : Peer} (hq : Row node v w key q) (hl : Linked node v u)
    (hne : u ≠ w) : q.answersTo (node u).self.uri = false := by
  obtain ⟨key', r, -, hr, -, -⟩ := h.ends hl
  unfold Peer.answersTo
  rw [Bool.or_eq_false_iff, beq_eq_false_iff_ne, beq_eq_false_iff_ne]
  refine ⟨fun huri => hne (h.uris u w (huri.symm.trans hq.uri)), fun hid => ?_⟩
  have hfound : (node v).registry.find? (node u).self.uri = some r := by
    rw [← hr.uri]
    exact Registry.find?_of_row (Registry.registered?_eq_some.mp hr.byUri).1
  have hsame : q = r := by
    have hbyId := hq.byId
    rw [hid, hfound] at hbyId
    exact (Option.some.inj hbyId).symm
  exact hne (h.uris u w (hr.uri.symm.trans (hsame ▸ hq.uri)))

/-- A message for all is handed on over every link but those to its source and to its hop. -/
theorem reached {n : Node} {p : Parcel} (h : Meshed node) (hn : InShape (node v) n) (hl : Linked node v w)
    (hreceivers : p.header.receivers = []) (hsource : (node w).self.uri ≠ p.header.source) (hself : w ≠ v)
    (hhop : ∀ k, p.hop = some k → ∃ u, k = (node u).self.uri ∧ Linked node v u ∧ u ≠ w) :
    (node w).self.uri ∈ n.reached (n.targetsFor p) := by
  obtain ⟨hid, -, hreg, -⟩ := hn.steady.fields
  obtain ⟨key, q, -, hq, -, -⟩ := h.ends hl
  have hregistered := (Registry.registered?_eq_some.mp hq.byUri).2
  have hown : (node w).self.uri ≠ (node v).self.uri := fun he => hself (h.uris w v he)
  have hnot : p.hop.any q.answersTo = false := by
    cases hp : p.hop with
    | none => rfl
    | some k =>
      obtain ⟨u, rfl, hu, hne⟩ := hhop k hp
      exact h.not_answersTo hq hu hne
  have htarget : (node w).self.uri ∈ n.targetsFor p := by
    unfold Node.targetsFor relayTargets
    rw [hid, hreg, ← hq.uri]
    refine List.mem_map_of_mem (List.mem_filter.mpr ⟨Registry.mem_registered.mpr ⟨_, hq.byUri⟩, ?_⟩)
    simp [hregistered, hown, hnot, hreceivers, hq.uri, hsource]
  unfold Node.reached
  rw [if_neg (by simp [hn.closed, h.opened v]), List.mem_filter, hreg]
  refine ⟨htarget, ?_⟩
  rw [← hq.uri, hq.byUri]
  rfl

theorem told {n : Node} {p : Parcel} (h : Meshed node) (hn : InShape (node v) n) (hl : Linked node v w)
    (hreceivers : p.header.receivers = []) (hsource : (node w).self.uri ≠ p.header.source) (hself : w ≠ v)
    (hhop : ∀ k, p.hop = some k → ∃ u, k = (node u).self.uri ∧ Linked node v u ∧ u ≠ w) (now : Nat) :
    p ∈ ((n.outbox.enqueueEach (n.reached (n.targetsFor p)) p now).laneFor (node w).self.uri).load :=
  (Outbox.adds_enqueueEach hn.tidy _ p now).added _ p ⟨h.reached hn hl hreceivers hsource hself hhop, rfl⟩

end Meshed

end ContentMesh.Network
