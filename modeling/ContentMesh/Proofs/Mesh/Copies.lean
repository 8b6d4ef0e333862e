import ContentMesh.Proofs.Mesh.Network

/-!
# ContentMesh.Proofs.Mesh.Copies — where the copies of a message are

A node that takes a copy over puts it into its inbox or leaves it to an application; from the inbox a worker leaves it to
an application too.  `State.pending` are these copies, and `State.times` counts those that were handled.
-/

namespace ContentMesh.Network

variable {ι : Type} [DecidableEq ι]

/-- The copy of a message that a worker at `v` has in hand. -/
def jobAt (m : String) (v : ι) (j : ι × Parcel) : Option Parcel := if j.1 = v ∧ j.2.id = m then some j.2 else none

/-- The copy of a message that an application at `v` has in hand by a call. -/
def callAt (m : String) (v : ι) (c : Call ι) : Option Parcel :=
  match c.stage with
  | .handling w p => if w = v ∧ p.id = m then some p else none
  | _ => none

/-- The copies of a message that applications at a node have in hand. -/
def State.atWork (s : State ι) (m : String) (v : ι) : List Parcel :=
  s.jobs.filterMap (jobAt m v) ++ s.calls.filterMap (callAt m v)

/-- The copies of a message that a node has taken over and not handled yet. -/
def State.pending (s : State ι) (m : String) (v : ι) : List Parcel :=
  (s.node v).inbox.filter (fun p => p.id = m) ++ s.atWork m v

/-- How often a node has handled a message. -/
def State.times (s : State ι) (m : String) (v : ι) : Nat := s.handled.count (v, m)

/-- A node has a row of a message. -/
def State.Knows (s : State ι) (m : String) (v : ι) : Prop := (s.node v).log.Has m

/-- No copy of a message waits in a lane, for a worker or with an application. -/
structure Quiet (s : State ι) (m : String) : Prop where
  lanes : ∀ v uri, ¬ (s.node v).Owes m uri
  pending : ∀ v, s.pending m v = []

variable {s t : State ι} {m : String} {v w : ι} {n : Node}

/-! ## One node changed -/

theorem knows_put (hnode : t.node = (s.put v n).node) (hn : s.Knows m v → n.log.Has m) (hk : s.Knows m w) :
    t.Knows m w := by
  unfold State.Knows
  rw [hnode]
  by_cases hw : w = v
  · rw [hw, put_self]
    exact hn (hw ▸ hk)
  · rw [put_other s hw]
    exact hk

theorem knows_of_put (hnode : t.node = (s.put v n).node) (hn : n.log.Has m → s.Knows m v) (hk : t.Knows m w) :
    s.Knows m w := by
  unfold State.Knows at hk
  rw [hnode] at hk
  by_cases hw : w = v
  · rw [hw, put_self] at hk
    exact hw ▸ hn hk
  · rw [put_other s hw] at hk
    exact hk

theorem inbox_put (hi : n.inbox = (s.node v).inbox) (w : ι) : ((s.put v n).node w).inbox = (s.node w).inbox :=
  forall_put (P := fun w n => n.inbox = (s.node w).inbox) hi (fun _ _ => rfl) w

/-! ## Copies in hand -/

theorem callAt_onWay {c : Call ι} (h : c.stage = .onWay) : callAt m v c = none := by
  unfold callAt
  rw [h]

theorem callAt_answered {c : Call ι} {r : Except Failure Reception} (h : c.stage = .answered r) :
    callAt m v c = none := by
  unfold callAt
  rw [h]

theorem callAt_handling {c : Call ι} {p : Parcel} (h : c.stage = .handling w p) :
    callAt m v c = if w = v ∧ p.id = m then some p else none := by
  unfold callAt
  rw [h]

theorem perm_filterMap {α : Type} {f : α → Option Parcel} {a : α} {l l' : List α} (h : l.Perm (a :: l')) :
    (l.filterMap f).Perm ((f a).toList ++ l'.filterMap f) := by
  have hcons : (a :: l').filterMap f = (f a).toList ++ l'.filterMap f := by
    rw [List.filterMap_cons]
    cases f a <;> rfl
  rw [← hcons]
  exact h.filterMap f

/-- Without one call there is one copy less in hand, if that call was about one. -/
theorem atWork_call {c : Call ι} (hj : t.jobs = s.jobs) (hc : s.calls.Perm (c :: t.calls)) (m : String) (v : ι) :
    (s.atWork m v).Perm ((callAt m v c).toList ++ t.atWork m v) := by
  unfold State.atWork
  rw [hj]
  exact ((perm_filterMap hc).append_left _).trans (List.perm_append_comm_assoc _ _ _)

theorem atWork_job {j : ι × Parcel} (hc : t.calls = s.calls) (hj : s.jobs.Perm (j :: t.jobs)) (m : String) (v : ι) :
    (s.atWork m v).Perm ((jobAt m v j).toList ++ t.atWork m v) := by
  unfold State.atWork
  rw [hc, ← List.append_assoc]
  exact (perm_filterMap hj).append_right _

theorem atWork_replace {c c' : Call ι} {rest : List (Call ι)} (hj : t.jobs = s.jobs) (hc : s.calls.Perm (c :: rest))
    (ht : t.calls = c' :: rest) (m : String) (v : ι) : ∃ left : List Parcel,
      (s.atWork m v).Perm ((callAt m v c).toList ++ left) ∧ (t.atWork m v).Perm ((callAt m v c').toList ++ left) :=
  ⟨State.atWork { s with calls := rest } m v, atWork_call (s := s) (t := { s with calls := rest }) rfl hc m v,
    atWork_call (t := { s with calls := rest }) hj.symm (List.Perm.of_eq ht) m v⟩

theorem pending_perm (hi : (t.node v).inbox.filter (fun p => p.id = m) = (s.node v).inbox.filter (fun p => p.id = m))
    (hw : (t.atWork m v).Perm (s.atWork m v)) : (t.pending m v).Perm (s.pending m v) := by
  unfold State.pending
  rw [hi]
  exact hw.append_left _

/-- One copy more in hand. -/
theorem pending_cons {p : Parcel} (hi : (t.node v).inbox = (s.node v).inbox)
    (hw : (t.atWork m v).Perm (p :: s.atWork m v)) : (t.pending m v).Perm (p :: s.pending m v) := by
  unfold State.pending
  rw [hi]
  exact (hw.append_left _).trans List.perm_middle

theorem pending_queue {p : Parcel} (hi : (t.node v).inbox = (s.node v).inbox ++ [p]) (hp : p.id = m)
    (hw : (t.atWork m v).Perm (s.atWork m v)) : (t.pending m v).Perm (p :: s.pending m v) := by
  unfold State.pending
  rw [hi, List.filter_append, List.filter_cons_of_pos (by simp [hp]), List.filter_nil, List.append_assoc]
  exact List.perm_middle.trans ((hw.append_left _).cons p)

/-- A copy goes from the inbox into the hands of a worker. -/
theorem pending_taken {p : Parcel} {rest : List Parcel} (hi : (s.node v).inbox = p :: rest)
    (hi' : (t.node v).inbox = rest) (hw : (t.atWork m v).Perm ((jobAt m v (v, p)).toList ++ s.atWork m v)) :
    (t.pending m v).Perm (s.pending m v) := by
  have hfirst : (jobAt m v (v, p)).toList = [p].filter fun p => p.id = m := by
    unfold jobAt
    by_cases hid : p.id = m <;> simp [hid]
  rw [hfirst] at hw
  unfold State.pending
  rw [hi, hi', ← List.singleton_append, List.filter_append, List.append_assoc]
  exact (hw.append_left _).trans (List.perm_append_comm_assoc _ _ _)

theorem times_handledBy (v w : ι) {p : Parcel} (hp : p.id ≠ m) (x : Except Failure Decision) :
    (handledBy v p x ++ s.handled).count (w, m) = s.handled.count (w, m) := by
  cases x with
  | error f => rfl
  | ok d =>
    refine List.count_cons_of_ne fun he => hp ?_
    exact congrArg Prod.snd he

end ContentMesh.Network
