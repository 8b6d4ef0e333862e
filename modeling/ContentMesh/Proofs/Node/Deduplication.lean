import ContentMesh.Proofs.Node.Delivering
import ContentMesh.Proofs.Node.Receiving

/-!
# ContentMesh.Proofs.Node.Deduplication — a message is taken over once

One node for as long as the table of its log lives.  Messages come in from anybody and in any order, handlers of an
application take their time and may fail, workers work, the node sends of its own accord, and it may be started anew
over the same table.  The invariant (`Run.Once`) is that a message which was taken over, or which a handler has in
hand, has a row, and that this happened to one call.
-/

namespace ContentMesh.Node

/-! ## Runs -/

/-- A call whose message a handler has in hand; `found` is the row that was there when the call began. -/
structure Suspended where
  inbound : Inbound
  found : Option LogRow
  parcel : Parcel
  deriving DecidableEq

/-- A call that has returned, with the rows that were there at its begin and at its end. -/
structure Returned where
  inbound : Inbound
  found : Option LogRow
  result : Except Failure Reception
  left : Option LogRow

/-- A node in a run: the calls under way, what its workers have in hand, and the calls that returned. -/
structure Run where
  node : Node
  suspended : List Suspended
  jobs : List Parcel
  returned : List Returned

/-- Whether a call took a message of an id over. -/
def Returned.takesOver (c : Returned) (id : String) : Bool :=
  match c.result with
  | .ok r => r.takes && c.inbound.header.id == id
  | .error _ => false

namespace Run

/-- What happens to a node.  `other` is whatever leaves the log alone; a restart loses what was not kept in the
table, and calls under way may still come to their end over the same table. -/
inductive Step : Run → Run → Prop where
  | settle (s : Run) (i : Inbound) (now : Moment) {r : Except Failure Reception} {n : Node}
      (h : s.node.takeIn i now = (.settled r, n)) :
      Step s { s with
        node := n
        returned := ⟨i, s.node.log.row? i.header.id, r, n.log.row? i.header.id⟩ :: s.returned }
  | suspend (s : Run) (i : Inbound) (now : Moment) {p : Parcel} {n : Node}
      (h : s.node.takeIn i now = (.handling p, n)) :
      Step s { s with node := n, suspended := ⟨i, s.node.log.row? i.header.id, p⟩ :: s.suspended }
  | resume (s : Run) {c : Suspended} (hc : c ∈ s.suspended) (x : Except Failure Decision) (now : Moment)
      {r : Except Failure Reception} {n : Node} (h : s.node.conclude c.parcel x now = (r, n)) :
      Step s { s with
        node := n
        suspended := s.suspended.erase c
        returned := ⟨c.inbound, c.found, r, n.log.row? c.inbound.header.id⟩ :: s.returned }
  | work (s : Run) (fresh : String) (now : Moment) {w : Work} {n : Node} (h : s.node.work fresh now = (w, n)) :
      Step s { s with node := n, jobs := w.job ++ s.jobs }
  | finishWork (s : Run) {p : Parcel} (hp : p ∈ s.jobs) (x : Except Failure Decision) (now : Moment) :
      Step s { s with node := s.node.finishWork p x now, jobs := s.jobs.erase p }
  | send (s : Run) (m : Message) (now : Moment) : Step s { s with node := (s.node.send m now).2 }
  | publish (s : Run) (m : Message) (e : Entity) (least : Level) (now : Moment) :
      Step s { s with node := (s.node.publish m e least now).2 }
  | pushTopology (s : Run) (e : Entity) (id : String) (now : Moment) :
      Step s { s with node := (s.node.pushTopology e id now).2 }
  | ask (s : Run) (m : Message) (receivers : Option (List String)) (now : Moment) :
      Step s { s with node := (s.node.ask m receivers now).2 }
  | answer (s : Run) (question : Header) (body : Bytes) (id : String) (now : Moment) :
      Step s { s with node := (s.node.answer question body id now).2 }
  | depart (s : Run) (lane : Nat) (now : Moment) : Step s { s with node := (s.node.depart lane now).2 }
  | land (s : Run) (lane : Nat) (x : Except Failure Unit) (now : Moment) (spread : Float) :
      Step s { s with node := s.node.land lane x now spread }
  | other (s : Run) {n : Node} (h : n.log = s.node.log) : Step s { s with node := n }
  | restart (s : Run) {n : Node} {suspended : List Suspended} (hrows : ∀ id, n.log.row? id = s.node.log.row? id)
      (h : n.log.Reliable) (hs : suspended.Sublist s.suspended) : Step s ⟨n, suspended, [], s.returned⟩

/-- The states that a node can come to. -/
inductive Reachable (n : Node) : Run → Prop where
  | start : Reachable n ⟨n, [], [], []⟩
  | next {s t : Run} : Reachable n s → Step s t → Reachable n t

/-! ## The invariant -/

/-- How many calls took a message over or let a handler do so. -/
def entered (suspended : List Suspended) (returned : List Returned) (id : String) : Nat :=
  returned.countP (·.takesOver id) + suspended.countP (·.inbound.header.id == id)

/-- A message that a call took over, or that a handler has in hand, has a row, and there is one such call; and a call
that failed has left the row that it found. -/
structure Once (s : Run) : Prop where
  reliable : s.node.log.Reliable
  logged : ∀ id, 0 < entered s.suspended s.returned id → s.node.log.Has id
  once : ∀ id, entered s.suspended s.returned id ≤ 1
  fresh : ∀ c ∈ s.suspended, c.found = none ∧ c.parcel.header = c.inbound.header
  restored : ∀ c ∈ s.returned, ∀ f, c.result = .error f → c.left = c.found

variable {s t : Run}

/-- What only adds rows keeps the invariant. -/
theorem Once.of_extends {ids : String → Prop} {n : Node} {jobs : List Parcel} (h : s.Once)
    (hl : s.node.log.Extends ids n.log) : Once { s with node := n, jobs } where
  reliable := hl.reliable
  logged id hid := hl.kept id (h.logged id hid)
  once := h.once
  fresh := h.fresh
  restored := h.restored

section Counting

variable (suspended : List Suspended) (returned : List Returned) (id : String)

theorem entered_returned (c : Returned) :
    entered suspended (c :: returned) id = entered suspended returned id + if c.takesOver id = true then 1 else 0 := by
  unfold entered
  rw [List.countP_cons]
  omega

theorem entered_suspended (c : Suspended) :
    entered (c :: suspended) returned id
      = entered suspended returned id + if c.inbound.header.id = id then 1 else 0 := by
  unfold entered
  rw [List.countP_cons]
  simp only [beq_iff_eq]
  omega

theorem entered_erase {c : Suspended} (hc : c ∈ suspended) :
    entered (suspended.erase c) returned id + (if c.inbound.header.id = id then 1 else 0)
      = entered suspended returned id := by
  have hperm := (List.perm_cons_erase hc).countP_eq (·.inbound.header.id == id)
  rw [List.countP_cons] at hperm
  simp only [beq_iff_eq] at hperm
  unfold entered
  omega

end Counting

theorem takesOver_ok {i : Inbound} {found left : Option LogRow} {r : Reception} (id : String) :
    Returned.takesOver ⟨i, found, .ok r, left⟩ id = true ↔ r.takes = true ∧ i.header.id = id := by
  simp [Returned.takesOver]

theorem Once.settle (h : s.Once) {i : Inbound} {now : Moment} {r : Except Failure Reception} {n : Node}
    (heq : s.node.takeIn i now = (.settled r, n)) :
    Once { s with
      node := n
      returned := ⟨i, s.node.log.row? i.header.id, r, n.log.row? i.header.id⟩ :: s.returned } := by
  have hl := takeIn_leaves h.reliable i now
  rw [heq] at hl
  cases r with
  | error f =>
    obtain ⟨hrel, hrows⟩ := hl
    refine ⟨hrel, fun id hid => ?_, fun id => ?_, h.fresh, fun c hc f' hf => ?_⟩
    · rw [entered_returned s.suspended s.returned id] at hid
      unfold Log.Has
      rw [hrows]
      exact h.logged id hid
    · rw [entered_returned s.suspended s.returned id]
      exact h.once id
    · rcases List.mem_cons.mp hc with rfl | hc
      · exact hrows _
      · exact h.restored c hc f' hf
  | ok r =>
    obtain ⟨hext, htakes⟩ := hl
    refine ⟨hext.reliable, fun id hid => ?_, fun id => ?_, h.fresh, fun c hc f' hf => ?_⟩
    · rw [entered_returned s.suspended s.returned id] at hid
      by_cases ht : r.takes = true ∧ i.header.id = id
      · exact ht.2 ▸ (htakes ht.1).2
      · rw [if_neg (fun h => ht ((takesOver_ok id).mp h))] at hid
        exact hext.kept id (h.logged id hid)
    · rw [entered_returned s.suspended s.returned id]
      by_cases ht : r.takes = true ∧ i.header.id = id
      · -- there was no row, so no call had come this far
        have hzero : ¬ 0 < entered s.suspended s.returned id := fun hpos => (htakes ht.1).1 (ht.2 ▸ h.logged id hpos)
        rw [if_pos ((takesOver_ok id).mpr ht)]
        omega
      · rw [if_neg (fun h => ht ((takesOver_ok id).mp h))]
        exact h.once id
    · rcases List.mem_cons.mp hc with rfl | hc
      · cases hf
      · exact h.restored c hc f' hf

theorem Once.suspend (h : s.Once) {i : Inbound} {now : Moment} {p : Parcel} {n : Node}
    (heq : s.node.takeIn i now = (.handling p, n)) :
    Once { s with node := n, suspended := ⟨i, s.node.log.row? i.header.id, p⟩ :: s.suspended } := by
  have hl := takeIn_leaves h.reliable i now
  rw [heq] at hl
  obtain ⟨hp, hext, hnot, hhas⟩ := hl
  refine ⟨hext.reliable, fun id hid => ?_, fun id => ?_, fun c hc => ?_, h.restored⟩
  · rw [entered_suspended s.suspended s.returned id] at hid
    by_cases hi : i.header.id = id
    · exact hi ▸ hhas
    · rw [if_neg hi] at hid
      exact hext.kept id (h.logged id hid)
  · rw [entered_suspended s.suspended s.returned id]
    by_cases hi : i.header.id = id
    · have hzero : ¬ 0 < entered s.suspended s.returned id := fun hpos => hnot (hi ▸ h.logged id hpos)
      rw [if_pos hi]
      omega
    · rw [if_neg hi]
      exact h.once id
  · rcases List.mem_cons.mp hc with rfl | hc
    · exact ⟨Option.not_isSome_iff_eq_none.mp hnot, hp⟩
    · exact h.fresh c hc

/-- The end of a call keeps the invariant: a failure takes back the row of a message that no other call entered. -/
theorem Once.resume (h : s.Once) {c : Suspended} (hc : c ∈ s.suspended) {x : Except Failure Decision} {now : Moment}
    {r : Except Failure Reception} {n : Node} (heq : s.node.conclude c.parcel x now = (r, n)) :
    Once { s with
      node := n
      suspended := s.suspended.erase c
      returned := ⟨c.inbound, c.found, r, n.log.row? c.inbound.header.id⟩ :: s.returned } := by
  obtain ⟨hfound, hheader⟩ := h.fresh c hc
  have hid : c.parcel.id = c.inbound.header.id := congrArg Header.id hheader
  have hfresh : ∀ d ∈ s.suspended.erase c, d.found = none ∧ d.parcel.header = d.inbound.header :=
    fun d hd => h.fresh d (List.mem_of_mem_erase hd)
  cases x with
  | ok d =>
    obtain ⟨l, hext, hn⟩ := conclude_ok h.reliable c.parcel d now
    rw [hn] at heq
    cases heq
    -- the call counts as before, only no longer as one under way
    have hsame : ∀ left id, entered (s.suspended.erase c) (⟨c.inbound, c.found, .ok .handled, left⟩ :: s.returned) id
        = entered s.suspended s.returned id := by
      intro left id
      have hless := entered_erase s.suspended s.returned id hc
      rw [entered_returned]
      by_cases hi : c.inbound.header.id = id
      · rw [if_pos ((takesOver_ok id).mpr ⟨rfl, hi⟩), ← hless, if_pos hi]
      · rw [if_neg (fun h => hi ((takesOver_ok id).mp h).2), ← hless, if_neg hi]
    refine ⟨hext.reliable, fun id hpos => ?_, fun id => ?_, hfresh, fun d hd f hf => ?_⟩
    · rw [hsame] at hpos
      exact hext.kept id (h.logged id hpos)
    · rw [hsame]
      exact h.once id
    · rcases List.mem_cons.mp hd with rfl | hd
      · cases hf
      · exact h.restored d hd f hf
  | error f =>
    obtain ⟨l, hrel, hrows, hn⟩ := conclude_error h.reliable c.parcel f now
    rw [hn] at heq
    cases heq
    have hless : ∀ left id, entered (s.suspended.erase c) (⟨c.inbound, c.found, .error f, left⟩ :: s.returned) id
        + (if c.inbound.header.id = id then 1 else 0) = entered s.suspended s.returned id :=
      fun _ id => entered_erase s.suspended s.returned id hc
    refine ⟨hrel, fun id hpos => ?_, fun id => ?_, hfresh, fun d hd f' hf => ?_⟩
    · have hle := hless (l.row? c.inbound.header.id) id
      have hone := h.once id
      by_cases hi : c.inbound.header.id = id
      · rw [if_pos hi] at hle
        dsimp only at hpos
        omega
      · rw [if_neg hi] at hle
        have hold := h.logged id (hle ▸ hpos)
        unfold Log.Has
        rw [hrows, if_neg (fun he => hi (hid ▸ he.symm))]
        exact hold
    · exact Nat.le_trans (Nat.le_of_add_right_le (Nat.le_of_eq (hless _ id))) (h.once id)
    · rcases List.mem_cons.mp hd with rfl | hd
      · show l.row? c.inbound.header.id = c.found
        rw [hrows, if_pos hid.symm, hfound]
      · exact h.restored d hd f' hf

/-- Every step keeps the invariant. -/
theorem Step.once (hstep : Step s t) (h : s.Once) : t.Once := by
  cases hstep with
  | settle i now heq => exact h.settle heq
  | suspend i now heq => exact h.suspend heq
  | resume hc x now heq => exact h.resume hc heq
  | work fresh now heq =>
    rcases work_cases h.reliable fresh now with ⟨-, hn⟩ | ⟨p, rest, -, hn | ⟨n', hn, hg⟩⟩
    · rw [hn] at heq
      cases heq
      exact h
    · rw [hn] at heq
      cases heq
      exact h.of_extends (.refl h.reliable : s.node.log.Extends (fun _ => True) _)
    · rw [hn] at heq
      cases heq
      exact h.of_extends hg.log
  | finishWork hp x now => exact h.of_extends (grown_finishWork h.reliable _ x now).log
  | send m now => exact h.of_extends (grown_send h.reliable rfl now).log
  | publish m e least now => exact h.of_extends (grown_publish h.reliable m e least now).log
  | pushTopology e id now => exact h.of_extends (grown_pushTopology h.reliable e id now).log
  | ask m receivers now => exact h.of_extends (grown_ask h.reliable m receivers now).log
  | answer question body id now => exact h.of_extends (grown_answer h.reliable question body id now).log
  | depart lane now =>
    rw [depart_frame]
    exact h.of_extends (.refl h.reliable : s.node.log.Extends (fun _ => True) _)
  | land lane x now spread =>
    obtain ⟨l, hl, hhas, hn⟩ := land_eq h.reliable lane x now spread
    rw [hn]
    exact ⟨hl, fun id hid => (hhas id).mpr (h.logged id hid), h.once, h.fresh, h.restored⟩
  | @other n hn =>
    exact ⟨hn ▸ h.reliable, fun id hid => hn ▸ h.logged id hid, h.once, h.fresh, h.restored⟩
  | @restart n suspended hrows hrel hs =>
    have hle : ∀ id, entered suspended s.returned id ≤ entered s.suspended s.returned id := fun id =>
      Nat.add_le_add_left hs.countP_le _
    refine ⟨hrel, fun id hid => ?_, fun id => Nat.le_trans (hle id) (h.once id), fun c hc => ?_, h.restored⟩
    · unfold Log.Has
      rw [hrows]
      exact h.logged id (Nat.lt_of_lt_of_le hid (hle id))
    · exact h.fresh c (hs.subset hc)

theorem Reachable.once {n : Node} (h : Reachable n s) (hl : n.log.Reliable) : s.Once := by
  induction h with
  | start =>
    exact ⟨hl, fun id hid => absurd hid (Nat.lt_irrefl 0), fun id => Nat.zero_le 1, fun c hc => (by cases hc),
      fun c hc => (by cases hc)⟩
  | next _ hstep ih => exact hstep.once ih

/-- Over a log that never fails, at most one call takes a message over, and every other call that succeeds finds it
a duplicate or ignores it.  A call that fails leaves the row that it found, and a message without a row is taken in as
by a node that has logged nothing.  What comes from nobody that is trusted changes nothing. -/
theorem takes_over_once {n : Node} (h : Reachable n s) (hl : n.log.Reliable) :
    (∀ id, s.returned.countP (·.takesOver id) ≤ 1) ∧
      (∀ c ∈ s.returned, ∀ r, c.result = .ok r →
        c.takesOver c.inbound.header.id = true ∨ r = .duplicate ∨ r = .ignored) ∧
      (∀ c ∈ s.returned, ∀ f, c.result = .error f → c.left = c.found) ∧
      (∀ i now, ¬ s.node.log.Has i.header.id → (s.node.takeIn i now).1 = (s.node.unlogged.takeIn i now).1 ∧
        (s.node.takeIn i now).2.unlogged = (s.node.unlogged.takeIn i now).2.unlogged) ∧
      (∀ i now, (∀ hop, ¬ s.node.Trusted i hop) → ∃ f, s.node.takeIn i now = (.settled (.error f), s.node)) := by
  have hinv := h.once hl
  refine ⟨fun id => ?_, fun c hc r hr => ?_, hinv.restored, fun i now hn => takeIn_unlogged hinv.reliable hn now,
    fun i now ht => takeIn_untrusted ht now⟩
  · exact Nat.le_trans (Nat.le_add_right _ _) (hinv.once id)
  · cases r with
    | duplicate => exact Or.inr (Or.inl rfl)
    | ignored => exact Or.inr (Or.inr rfl)
    | queued => exact Or.inl (by rw [Returned.takesOver, hr]; simp [Reception.takes])
    | handled => exact Or.inl (by rw [Returned.takesOver, hr]; simp [Reception.takes])
    | forwarded => exact Or.inl (by rw [Returned.takesOver, hr]; simp [Reception.takes])

/-- A message that comes in twice waits for a worker once. -/
theorem takes_over_once_twice : ∃ s,
    Reachable (knowing ⟨"i", "", "u"⟩ (.new "j" "" "v" .registered) "note" (.application false)) s ∧
      s.returned.map (·.result) = [.ok .duplicate, .ok .queued] ∧ s.returned.countP (·.takesOver "1") ≤ 1 := by
  have first : Reachable (knowing ⟨"i", "", "u"⟩ (.new "j" "" "v" .registered) "note" (.application false)) _ :=
    .next .start (.settle _ ⟨.new "1" "note" "v" .epoch, "v", [], none⟩ ⟨0, .epoch⟩ rfl)
  have second := first.next (.settle _ ⟨.new "1" "note" "v" .epoch, "v", [], none⟩ ⟨0, .epoch⟩ rfl)
  exact ⟨_, second, rfl, (takes_over_once second Log.reliable_inMemory).1 "1"⟩

end Run

end ContentMesh.Node
