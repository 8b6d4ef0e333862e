import ContentMesh.Node.Delivery
import ContentMesh.Node.Receive
import ContentMesh.Proofs.Message.Log
import ContentMesh.Proofs.Message.Signing
import ContentMesh.Proofs.Outbox.Lanes

/-!
# ContentMesh.Proofs.Node.Delivering — what an attempt to deliver leaves behind

Both halves of an attempt change the lane that it is made from, and nothing else but the progress of a message that
was delivered.
-/

namespace ContentMesh.Node

variable {n : Node}

theorem depart_frame (n : Node) (lane : Nat) (now : Moment) :
    (n.depart lane now).2 = { n with outbox := (n.depart lane now).2.outbox } := by
  unfold depart
  dsimp only
  split
  · rfl
  · split
    · rfl
    · split <;> rfl

/-- The lane departs.  Its head, if it has one, is sent to the registered peer of the lane, or is dropped where there is
no such peer or no signature for it. -/
theorem depart_outcomes (n : Node) (lane : Nat) (now : Moment) :
    ((n.outbox.lane lane).depart.flight = none ∧
      n.depart lane now = (none, { n with outbox := n.outbox.modify lane Lane.depart })) ∨
    (∃ f target t, (n.outbox.lane lane).depart.flight = some f ∧
      n.registry.registered? (n.outbox.lane lane).uri = some target ∧
      n.signer.sign target.receiveKey f.entry.parcel = .ok t ∧
      n.depart lane now
        = (some ⟨target, f.entry.parcel, t⟩, { n with outbox := n.outbox.modify lane Lane.depart })) ∨
    (∃ f, (n.outbox.lane lane).depart.flight = some f ∧
      (∀ target, n.registry.registered? (n.outbox.lane lane).uri = some target →
        ∃ e, n.signer.sign target.receiveKey f.entry.parcel = .error e) ∧
      n.depart lane now = (none, { n with
        outbox := (n.outbox.modify lane Lane.depart).land lane .dropped now.tick 1.0 })) := by
  have hlane : (n.outbox.modify lane Lane.depart).lane lane = (n.outbox.lane lane).depart := by
    rw [Outbox.lane_depart, if_pos rfl]
  unfold depart dropFlight
  dsimp only
  rw [hlane, Lane.uri_depart]
  cases hf : (n.outbox.lane lane).depart.flight with
  | none => exact Or.inl ⟨rfl, rfl⟩
  | some f =>
    dsimp only
    cases hr : n.registry.registered? (n.outbox.lane lane).uri with
    | none =>
      refine Or.inr (Or.inr ⟨f, rfl, fun target ht => ?_, rfl⟩)
      cases ht
    | some target =>
      dsimp only
      cases hs : n.signer.sign target.receiveKey f.entry.parcel with
      | ok t => exact Or.inr (Or.inl ⟨f, target, t, rfl, rfl, hs, rfl⟩)
      | error e =>
        refine Or.inr (Or.inr ⟨f, rfl, fun target' ht => ?_, rfl⟩)
        cases ht
        exact ⟨e, hs⟩

/-- Towards a registered peer with a key the lane departs, and its head is sent; nothing is dropped. -/
theorem depart_cases (ht : n.outbox.Tidy) {uri key : String} {lane : Nat} {target : Peer}
    (hl : n.outbox.laneOf? uri = some lane) (hr : n.registry.registered? uri = some target)
    (hk : target.receiveKey = some key) (now : Moment) :
    ((n.outbox.laneFor uri).depart.flight = none ∧
      n.depart lane now = (none, { n with outbox := n.outbox.modify lane Lane.depart })) ∨
    ∃ f t, (n.outbox.laneFor uri).depart.flight = some f ∧ n.signer.sign (some key) f.entry.parcel = .ok t ∧
      n.depart lane now
        = (some ⟨target, f.entry.parcel, t⟩, { n with outbox := n.outbox.modify lane Lane.depart }) := by
  obtain ⟨-, huri⟩ := ht uri lane hl
  rw [Outbox.laneFor_eq hl]
  rcases depart_outcomes n lane now with h | ⟨f, target', t, hf, hr', hs, h⟩ | ⟨f, -, hnone, -⟩
  · exact Or.inl h
  · rw [huri, hr] at hr'
    cases hr'
    exact Or.inr ⟨f, t, hf, hk ▸ hs, h⟩
  · obtain ⟨e, he⟩ := hnone target (huri.symm ▸ hr)
    obtain ⟨t, hs, -⟩ := n.signer.verify_sign key f.entry.parcel none
    rw [hk, hs] at he
    cases he

/-- Whatever becomes of the log, the second half ends the flight. -/
theorem land_frame (n : Node) (lane : Nat) (x : Except Failure Unit) (now : Moment) (spread : Float) :
    n.land lane x now spread = { n with
      log := (n.land lane x now spread).log
      outbox := n.outbox.land lane (attemptOf x) now.tick spread } := by
  unfold land
  dsimp only
  split <;> rfl

theorem attemptOf_again {f : Failure} (h : f.retryable = true) : attemptOf (.error f) = .again := by
  show (if f.retryable then Attempt.again else .dropped) = .again
  rw [if_pos h]

theorem attemptOf_queueFull (uri : String) : attemptOf (seen uri (.error .queueFull)) = .again := by
  refine attemptOf_again ?_
  show (Failure.ofStatus uri 503).retryable = true
  rw [Failure.ofStatus, if_pos (by decide)]
  rfl

/-- The second half ends the flight, and writes no row. -/
theorem land_eq (h : n.log.Reliable) (lane : Nat) (x : Except Failure Unit) (now : Moment) (spread : Float) :
    ∃ l, l.Reliable ∧ (∀ id, l.Has id ↔ n.log.Has id) ∧
      n.land lane x now spread = { n with log := l, outbox := n.outbox.land lane (attemptOf x) now.tick spread } := by
  unfold land
  dsimp only
  split
  · rename_i f _ _
    obtain ⟨l, hm, hl, hhas⟩ := h.mark f.entry.parcel.id .sent now.date
    refine ⟨l, hl.reliable, fun id => ?_, by rw [onLog, hm]⟩
    by_cases hid : id = f.entry.parcel.id
    · rw [hid]
      exact hhas
    · exact hl.has_iff hid
  · exact ⟨n.log, h, fun _ => Iff.rfl, rfl⟩

/-! ## Copies that are left -/

/-- A parcel stands in one of the lanes. -/
def Queues (n : Node) (p : Parcel) : Prop := ∃ i, p ∈ (n.outbox.lane i).load

/-- A message is still to be delivered to the peer at `uri`. -/
def Owes (n : Node) (m uri : String) : Prop := ∃ p ∈ (n.outbox.laneFor uri).load, p.id = m

variable {p : Parcel} {m uri : String} {lane : Nat} {x : Except Failure Unit} {now : Moment} {spread : Float}

theorem queues_depart (h : (n.depart lane now).2.Queues p) : n.Queues p := by
  obtain ⟨i, hp⟩ := h
  have hgone : ((n.outbox.modify lane Lane.depart).lane i).load = (n.outbox.lane i).load := by
    rw [Outbox.lane_depart]
    split
    · exact Lane.load_depart _
    · rfl
  refine ⟨i, ?_⟩
  rw [← hgone]
  rcases depart_outcomes n lane now with ⟨-, heq⟩ | ⟨f, target, t, -, -, -, heq⟩ | ⟨f, -, -, heq⟩
  · rw [heq] at hp
    exact hp
  · rw [heq] at hp
    exact hp
  · rw [heq] at hp
    exact (Outbox.mem_load_of_lane_land hp).1

theorem queues_land (h : (n.land lane x now spread).Queues p) : n.Queues p := by
  obtain ⟨i, hp⟩ := h
  rw [land_frame] at hp
  exact ⟨i, (Outbox.mem_load_of_lane_land hp).1⟩

/-- An attempt takes nothing out of the lane of a registered peer before it is answered. -/
theorem owes_depart (ht : n.outbox.Tidy) {target : Peer} (hr : n.registry.registered? uri = some target)
    (hs : ∀ p, ∃ t, n.signer.sign target.receiveKey p = .ok t) (h : n.Owes m uri) :
    (n.depart lane now).2.Owes m uri := by
  obtain ⟨p, hp, hm⟩ := h
  have hgone : ((n.outbox.modify lane Lane.depart).laneFor uri).load = (n.outbox.laneFor uri).load := by
    rw [Outbox.laneFor_modify ht]
    split
    · exact Lane.load_depart _
    · rfl
  refine ⟨p, ?_, hm⟩
  rw [← hgone] at hp
  rcases depart_outcomes n lane now with ⟨-, heq⟩ | ⟨f, target', t, -, -, -, heq⟩ | ⟨f, -, hnone, heq⟩
  · rw [heq]
    exact hp
  · rw [heq]
    exact hp
  · rw [heq]
    show p ∈ (((n.outbox.modify lane Lane.depart).land lane .dropped now.tick 1.0).laneFor uri).load
    have hother : (n.outbox.modify lane Lane.depart).laneOf? uri ≠ some lane := by
      intro hl
      have huri : (n.outbox.lane lane).uri = uri := (ht uri lane hl).2
      obtain ⟨e, he⟩ := hnone target (huri.symm ▸ hr)
      obtain ⟨t, hsign⟩ := hs f.entry.parcel
      rw [hsign] at he
      cases he
    rw [Outbox.laneFor_land (ht.modify lane Lane.uri_depart), if_neg hother]
    exact hp

/-- The end of a flight takes a message out of a lane only where it was the one in flight and is not to be tried again. -/
theorem owes_land (ht : n.outbox.Tidy) (hu : n.outbox.retry.maxAttempts = none) (hf : (n.outbox.laneFor uri).Fresh)
    (h : n.Owes m uri) : (n.land lane x now spread).Owes m uri ∨
      (attemptOf x ≠ .again ∧ ∃ f, (n.outbox.lane lane).flight = some f ∧ f.entry.parcel.id = m ∧
        (n.outbox.lane lane).uri = uri) := by
  obtain ⟨p, hp, hm⟩ := h
  rw [land_frame]
  unfold Owes
  dsimp only
  rw [Outbox.laneFor_land ht]
  by_cases hl : n.outbox.laneOf? uri = some lane
  · rw [if_pos hl]
    cases hflight : (n.outbox.laneFor uri).flight with
    | none =>
      left
      refine ⟨p, ?_, hm⟩
      unfold Lane.land
      rw [hflight]
      exact hp
    | some f =>
      by_cases ha : attemptOf x = .again
      · left
        rw [ha, Lane.load_land_again hflight _ _ _ hu hf]
        exact ⟨p, hp, hm⟩
      · rcases Lane.mem_load_of_land hflight n.outbox.retry (attemptOf x) now.tick spread hp with rfl | hkept
        · rw [Outbox.laneFor_eq hl] at hflight
          exact Or.inr ⟨ha, f, hflight, hm, (ht uri lane hl).2⟩
        · exact Or.inl ⟨p, hkept, hm⟩
  · rw [if_neg hl]
    exact Or.inl ⟨p, hp, hm⟩

end ContentMesh.Node
