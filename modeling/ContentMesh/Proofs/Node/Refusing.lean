import ContentMesh.Node.Receive
import ContentMesh.Proofs.Node.Relaying
import ContentMesh.Proofs.Storage.Calls

/-!
# ContentMesh.Proofs.Node.Refusing — why a message that comes in is refused

Each failure of a reception has its own place.  A node that does not run says so and nothing else
(`Node.takeIn_shutdown`), a hop that names no registered peer is unknown (`Node.takeIn_unknown`), and what a running
node refuses from a registered peer it refuses for what came or for want of room, or because a table failed
(`Node.takeInFrom_failure`).  A copy that is to be queued is likewise refused for one of three reasons
(`Node.enqueue_failure`).  No assumption is made about the tables.
-/

namespace ContentMesh

/-- The failures with which a running node refuses a message of a registered peer. -/
def Failure.OfReception (f : Failure) : Prop :=
  f.OfTable ∨ f = .queueFull ∨ (∃ fault, f = .invalid fault) ∨ ∃ fault, f = .signature fault

namespace Failure

variable {f : Failure}

theorem OfTable.ofReception (h : f.OfTable) : f.OfReception := .inl h

theorem OfTable.ne_shutdown (h : f.OfTable) : f ≠ .shutdown := by
  rcases h with rfl | rfl | ⟨text, rfl⟩ <;> simp

theorem OfReception.ne_shutdown (h : f.OfReception) : f ≠ .shutdown := by
  rcases h with h | rfl | ⟨fault, rfl⟩ | ⟨fault, rfl⟩
  · exact h.ne_shutdown
  all_goals simp

theorem OfReception.ne_unknown (h : f.OfReception) (name : String) : f ≠ .unknownInstance name := by
  rcases h with (rfl | rfl | ⟨text, rfl⟩) | rfl | ⟨fault, rfl⟩ | ⟨fault, rfl⟩ <;> simp

end Failure

variable {f : Failure}

/-! ## The parts of a node -/

theorem Signer.verify_failure {s : Signer} {key signature : Option String} {p : Parcel}
    (h : s.verify key p signature = .error f) : ∃ fault, f = .signature fault := by
  unfold verify at h
  split at h
  · cases h
  · cases h
    exact ⟨_, rfl⟩
  · cases h
    exact ⟨_, rfl⟩
  · split at h
    · cases h
      exact ⟨_, rfl⟩
    · split at h
      · cases h
      · cases h
        exact ⟨_, rfl⟩

theorem Entity.read_failure {text : String} (h : Entity.read text = .error f) : ∃ fault, f = .invalid fault := by
  unfold read at h
  split at h
  · cases h
  · cases h
    exact ⟨_, rfl⟩

theorem Log.saveIfAbsent_failure {l : Log} {h : Header} {p : Progress} {now : Stamp}
    (hf : (l.saveIfAbsent h p now).1 = .error f) : f.OfTable := by
  unfold saveIfAbsent at hf
  split at hf
  · rename_i g s hc
    cases hf
    exact Store.contains_failure (congrArg Prod.fst hc)
  · cases hf
  · split at hf
    · rename_i g s hp
      cases hf
      exact Store.put_failure (congrArg Prod.fst hp)
    · cases hf

theorem Log.delete_failure {l : Log} {id : String} (h : (l.delete id).1 = .error f) : f.OfTable :=
  Store.delete_failure h

/-- Whatever is looked up along a lineage, only the table can fail. -/
theorem Resolver.resolveAlong_failure {es : List Entity} {r : Resolver} (h : (r.resolveAlong es).1 = .error f) :
    f.OfTable := by
  induction es generalizing r with
  | nil => cases h
  | cons e ancestors ih =>
    unfold resolveAlong at h
    split at h
    · cases h
    · split at h
      · rename_i g s hg
        cases h
        exact Store.get_failure (congrArg Prod.fst hg)
      · cases h
      · split at h
        · rename_i g r' habove
          cases h
          exact ih (congrArg Prod.fst habove)
        · cases h

theorem Resolver.acceptsFrom_failure {r : Resolver} {e : Entity} {uri : String}
    (h : (r.acceptsFrom e uri).1 = .error f) : f.OfTable := by
  unfold acceptsFrom ruleFor at h
  dsimp only at h
  cases hr : (r.resolve e).1 with
  | error g =>
    rw [hr] at h
    cases h
    exact resolveAlong_failure hr
  | ok a =>
    rw [hr] at h
    cases h

/-- An answer whose body is at hand is refused only for what it is. -/
theorem Questions.receive_failure {q : Questions} {p : Parcel} (h : (q.receive p.toMessage).1 = .error f) :
    ∃ fault, f = .invalid fault := by
  unfold receive at h
  split at h
  · cases h
    exact ⟨_, rfl⟩
  · split at h
    · cases h
      exact ⟨_, rfl⟩
    · dsimp only [Parcel.toMessage, Payload.take] at h
      split at h
      · cases h
        exact ⟨_, rfl⟩
      · split at h <;> cases h

/-! ## A message that comes in -/

namespace Node

variable {n : Node} {now : Moment}

theorem letsIn_failure {h : Header} {hop : Peer} (hf : (n.letsIn h hop).1 = .error f) : f.OfReception := by
  unfold letsIn at hf
  split at hf
  · cases hf
  · split at hf
    · cases hf
    · split at hf
      · rename_i g hg
        cases hf
        exact .inr (.inr (.inl (Entity.read_failure hg)))
      · exact (Resolver.acceptsFrom_failure hf).ofReception

theorem queueUp_failure {p : Parcel} (h : (n.queueUp p).1 = .error f) : f.OfReception := by
  unfold queueUp at h
  split at h
  · cases h
  · split at h
    · cases h
      exact .inr (.inl rfl)
    · rename_i g n' hg
      cases h
      exact (Log.delete_failure (congrArg Prod.fst hg)).ofReception

/-- The handling of a message fails as its handler did, or the row of the message cannot be removed. -/
theorem conclude_failure {p : Parcel} {x : Except Failure Decision} (h : (n.conclude p x now).1 = .error f) :
    x = .error f ∨ f.OfTable := by
  unfold conclude at h
  cases x with
  | ok d => cases h
  | error g =>
    dsimp only at h
    split at h
    · cases h
      exact .inl rfl
    · rename_i g' n' hg
      cases h
      exact .inr (Log.delete_failure (congrArg Prod.fst hg))

theorem handleAnswer_failure {p : Parcel} (h : (n.handleAnswer p.toMessage).1 = .error f) :
    ∃ fault, f = .invalid fault := by
  unfold handleAnswer onQuestions at h
  dsimp only at h
  cases hq : (n.questions.receive p.toMessage).1 with
  | error g =>
    rw [hq] at h
    cases h
    exact Questions.receive_failure hq
  | ok u =>
    rw [hq] at h
    cases h

theorem deliver_failure {p : Parcel} {handler : Handler} (h : (n.deliver p handler now).1 = .settled (.error f)) :
    f.OfReception := by
  unfold deliver at h
  split at h
  · cases h
  · split at h
    · have hc : ((n.handleAnswer p.toMessage).2.conclude p (n.handleAnswer p.toMessage).1 now).1 = .error f :=
        (Admission.settled.inj h)
      rcases conclude_failure hc with hx | hx
      · exact .inr (.inr (.inl (handleAnswer_failure hx)))
      · exact hx.ofReception
    · cases h
    · exact queueUp_failure (Admission.settled.inj h)

/-- A message of a registered peer is refused for what it is, for want of room, or because a table failed. -/
theorem takeInFrom_failure {hop : Peer} {i : Inbound} (h : (n.takeInFrom hop i now).1 = .settled (.error f)) :
    f.OfReception := by
  unfold takeInFrom at h
  dsimp only at h
  split at h
  · rename_i g hg
    cases h
    exact .inr (.inr (.inr (Signer.verify_failure hg)))
  · split at h
    · cases h
      exact .inr (.inr (.inl ⟨_, rfl⟩))
    · split at h
      · rename_i g n' hg
        cases h
        exact letsIn_failure (congrArg Prod.fst hg)
      · cases h
      · split at h
        · rename_i g n' hg
          cases h
          exact (Log.saveIfAbsent_failure (congrArg Prod.fst hg)).ofReception
        · cases h
        · exact deliver_failure h

/-- A node answers that it is shut down if it does not run, and only then. -/
theorem takeIn_shutdown (n : Node) (i : Inbound) (now : Moment) :
    (n.takeIn i now).1 = .settled (.error .shutdown) ↔ n.running = false := by
  unfold takeIn
  cases hrun : n.running with
  | false => simp
  | true =>
    simp only [Bool.not_true, Bool.false_eq_true, if_false]
    cases hfind : (n.registry.find? i.hop).filter Peer.isRegistered with
    | none => simp
    | some hop =>
      simp only [reduceCtorEq, iff_false]
      exact fun h => (takeInFrom_failure h).ne_shutdown rfl

/-- A node answers that the hop is unknown if it runs and the hop names no registered peer, and only then. -/
theorem takeIn_unknown (n : Node) (i : Inbound) (now : Moment) (name : String) :
    (n.takeIn i now).1 = .settled (.error (.unknownInstance name)) ↔
      n.running = true ∧ name = i.hop ∧ (n.registry.find? i.hop).filter Peer.isRegistered = none := by
  unfold takeIn
  cases hrun : n.running with
  | false => simp
  | true =>
    simp only [Bool.not_true, Bool.false_eq_true, if_false]
    cases hfind : (n.registry.find? i.hop).filter Peer.isRegistered with
    | none => simp [eq_comm]
    | some hop =>
      simp only [reduceCtorEq, and_false, iff_false]
      exact fun h => (takeInFrom_failure h).ne_unknown name rfl

/-- A hop that names a registered peer is not unknown. -/
theorem takeIn_found {i : Inbound} {p : Peer} (hp : n.registry.find? i.hop = some p) (hr : p.isRegistered = true)
    (now : Moment) (name : String) : (n.takeIn i now).1 ≠ .settled (.error (.unknownInstance name)) := by
  intro h
  have hnone := ((n.takeIn_unknown i now name).mp h).2.2
  have hsome : (n.registry.find? i.hop).filter Peer.isRegistered = some p := Option.filter_eq_some_iff.mpr ⟨hp, hr⟩
  rw [hsome] at hnone
  cases hnone

/-! ## A copy that is to be queued -/

/-- A copy is refused because the senders have stopped, because its target is not registered, or because the log
fails. -/
theorem enqueue_failure {p : Parcel} {target : String} (h : (n.enqueue p target now).1 = .error f) :
    n.outbox.closed = true ∧ f = .shutdown ∨
      n.outbox.closed = false ∧ (n.registry.registered? target = none ∧ f = .unknownInstance target ∨ f.OfTable) := by
  have hchecked := (n.enqueue_result p target now).symm.trans h
  unfold checkIn at hchecked
  split at hchecked
  · rename_i hclosed
    cases hchecked
    exact .inl ⟨hclosed, rfl⟩
  · rename_i hopen
    refine .inr ⟨by simpa using hopen, ?_⟩
    split at hchecked
    · rename_i hrow
      cases hchecked
      exact .inl ⟨hrow, rfl⟩
    · split at hchecked
      · rename_i g n' hg
        cases hchecked
        exact .inr (Log.saveIfAbsent_failure (congrArg Prod.fst hg))
      · cases hchecked

/-- A copy is refused as by a node that is shut down if its senders have stopped, and only then. -/
theorem enqueue_shutdown (n : Node) (p : Parcel) (target : String) (now : Moment) :
    (n.enqueue p target now).1 = .error .shutdown ↔ n.outbox.closed = true := by
  constructor
  · intro h
    rcases enqueue_failure h with ⟨hclosed, -⟩ | ⟨-, ⟨-, hunknown⟩ | htable⟩
    · exact hclosed
    · cases hunknown
    · exact absurd rfl htable.ne_shutdown
  · intro hclosed
    rw [enqueue_result, checkIn, if_pos hclosed]

end Node

end ContentMesh
