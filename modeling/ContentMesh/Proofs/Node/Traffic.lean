import ContentMesh.Proofs.Node.Delivering
import ContentMesh.Proofs.Node.Relaying
import ContentMesh.Proofs.Outbox.Rolls
import ContentMesh.Proofs.Peer.Trust

/-!
# ContentMesh.Proofs.Node.Traffic — what is sent, how often, and in which order

A node queues parcels, makes attempts to deliver them, purges lanes and works on its registry, all of it in any order.
Its work is cut into steps where something else may come between.  A call that queues a parcel first checks it in and
logs it, then looks up the lane, then pushes the parcel; in between the peer may be removed, or removed and added
again.  An attempt begins as its entry leaves the lane for the peer, and ends with what the peer replied.  A row that
goes is one step, and that the node hears of it and closes the lane is another.

A history goes along that only looks on: it numbers the entries, keeps a roll of each lane, and notes what is sent.
Each event keeps node and history together (`Traffic.Kept.step`), and so no entry is lost, repeated or overtaken but
by a purge.
-/

namespace ContentMesh.Node

/-- A call that queues a parcel, under way: the parcel was checked in, and the lane is known once it was looked up. -/
structure Call where
  parcel : Parcel
  uri : String
  lane : Option Nat

/-- A node and its history: the errands that wait, the calls under way, the lanes that were opened for a peer without
a row, the entries that came in, the roll of each lane, what was sent for which entry, and the entries that were
delivered. -/
structure Traffic where
  node : Node
  errands : List Waiting
  calls : List Call
  strays : List Nat
  entered : List Docket
  roll : Nat → Roll
  sent : List (Nat × Sending)
  delivered : List Nat

/-- The node hears of one of the rows that went, closes the lane of that peer, and tells those who listen. -/
def heed (n : Node) (j : Nat) : Node :=
  match n.registry.removals[j]? with
  | none => n
  | some p => { n with
      registry := { n.registry with removals := n.registry.removals.eraseIdx j }
      outbox := (n.outbox.close p.uri).2
      removed := n.removed ++ [p.uri] }

theorem heedRemovals_nil {n : Node} (h : n.registry.removals = []) : n.heedRemovals = n := by
  have htaken : n.registry.takeRemovals = ([], n.registry) := by
    unfold Registry.takeRemovals
    rw [← h]
  unfold heedRemovals
  rw [htaken]
  simp

/-- All rows that went are heard of one after the other. -/
theorem heedRemovals_cons {n : Node} {p : Peer} {ps : List Peer} (h : n.registry.removals = p :: ps) :
    n.heedRemovals = (n.heed 0).heedRemovals := by
  unfold heedRemovals heed Registry.takeRemovals
  simp [h]

/-- An attempt touches no other lane. -/
theorem lane_depart_ne (n : Node) {i j : Nat} (now : Moment) (hj : j ≠ i) :
    (n.depart i now).2.outbox.lane j = n.outbox.lane j := by
  have hlane : (n.outbox.modify i Lane.depart).lane j = n.outbox.lane j := by
    rw [Outbox.lane_depart, if_neg (Ne.symm hj)]
  rcases depart_outcomes n i now with ⟨-, heq⟩ | ⟨f, target, t, -, -, -, heq⟩ | ⟨f, -, -, heq⟩
  · rw [heq]
    exact hlane
  · rw [heq]
    exact hlane
  · rw [heq]
    show ((n.outbox.modify i Lane.depart).land i .dropped now.tick 1.0).lane j = _
    rw [Outbox.lane_land, if_neg (Ne.symm hj), hlane]

namespace Traffic

/-! ## Events -/

/-- What happens at a node: a call checks its parcel in, finds the lane, or pushes the parcel, an attempt begins or ends
with what the peer replied, what waits for a peer is discarded, something happens at the registry, or the node hears
of a row that went. -/
inductive Event where
  | checkIn (p : Parcel) (uri : String) (now : Moment)
  | find (call : Nat)
  | push (call : Nat) (now : Moment)
  | depart (lane : Nat) (now : Moment)
  | land (lane : Nat) (x : Except Failure Unit) (now : Moment) (spread : Float)
  | purge (uri : String)
  | registry (e : Registry.Event)
  | heed (removal : Nat)

/-- A node whose history begins. -/
def of (n : Node) : Traffic := ⟨n, [], [], [], [], fun _ => .blank, [], []⟩

/-- How often an entry was sent. -/
def sends (s : Traffic) (k : Nat) : Nat := (s.sent.map (·.1)).count k

/-- The parcel of an entry. -/
def parcel? (s : Traffic) (k : Nat) : Option Parcel := (s.entered[k]?).map (·.parcel)

/-- What is to be reported of an entry. -/
def report? (s : Traffic) (k : Nat) : Option Report :=
  (s.entered[k]?).map fun d => ⟨d.parcel.id, d.uri, s.sends k⟩

/-- A call is under way once its parcel is checked in. -/
def checkIn (s : Traffic) (p : Parcel) (uri : String) (now : Moment) : Traffic :=
  match s.node.checkIn p uri now with
  | (.error _, n) => { s with node := n }
  | (.ok (), n) => { s with node := n, calls := s.calls ++ [⟨p, uri, none⟩] }

/-- A call finds the lane, which is opened if there is none, also where the row has gone since. -/
def find (s : Traffic) (j : Nat) : Traffic :=
  match s.calls[j]? with
  | some ⟨p, uri, none⟩ =>
    let (i, n) := s.node.findLane uri
    { s with
      node := n
      calls := s.calls.set j ⟨p, uri, some i⟩
      strays := s.strays ++
        if (s.node.outbox.laneOf? uri).isNone && (s.node.registry.registered? uri).isNone then [i] else [] }
  | _ => s

/-- A parcel that is pushed gets the next number, and its call ends. -/
def push (s : Traffic) (j : Nat) (now : Moment) : Traffic :=
  match s.calls[j]? with
  | some ⟨p, uri, some i⟩ =>
    match s.node.push p uri i now with
    | (.error _, n) => { s with node := n, calls := s.calls.eraseIdx j }
    | (.ok (), n) =>
      { s with
        node := n
        calls := s.calls.eraseIdx j
        entered := s.entered ++ [⟨i, uri, p⟩]
        roll := Function.update s.roll i ((s.roll i).enter s.entered.length) }
  | _ => s

/-- The sender of a lane waits for the end of its attempt before it begins another. -/
def depart (s : Traffic) (i : Nat) (now : Moment) : Traffic :=
  if (s.node.outbox.lane i).flight.isSome then s
  else
    let (x, n) := s.node.depart i now
    { s with
      node := n
      roll := Function.update s.roll i ((s.roll i).depart x.isSome)
      sent := s.sent ++ x.toList.map fun x => ((s.roll i).waiting.headD s.entered.length, x) }

def land (s : Traffic) (i : Nat) (x : Except Failure Unit) (now : Moment) (spread : Float) : Traffic :=
  let n := s.node.land i x now spread
  { s with
    node := n
    roll := Function.update s.roll i ((s.roll i).land (s.node.outbox.lane i) (n.outbox.lane i))
    delivered := s.delivered ++ if attemptOf x = .delivered then (s.roll i).flying.toList else [] }

/-- The node has become one in which lanes may have been emptied. -/
def sweep (s : Traffic) (n : Node) : Traffic :=
  { s with node := n, roll := fun i => (s.roll i).sweep (s.node.outbox.lane i) (n.outbox.lane i) }

/-- The registry of the node, with the errands that wait. -/
def office (s : Traffic) : Registry.Office := ⟨s.node.registry, s.errands⟩

def step (s : Traffic) : Event → Traffic
  | .checkIn p uri now => s.checkIn p uri now
  | .find j => s.find j
  | .push j now => s.push j now
  | .depart i now => s.depart i now
  | .land i x now spread => s.land i x now spread
  | .purge uri => s.sweep { s.node with outbox := (s.node.outbox.purge uri).2 }
  | .registry e => { s with
      node := { s.node with registry := (s.office.step e).registry }
      errands := (s.office.step e).waiting }
  | .heed j => s.sweep (s.node.heed j)

def after (s : Traffic) (es : List Event) : Traffic := es.foldl step s

theorem after_concat (s : Traffic) (es : List Event) (e : Event) : s.after (es ++ [e]) = (s.after es).step e := by
  simp [after, List.foldl_append]

/-! ### Calls -/

variable {s : Traffic} {retry : Retry} {i k : Nat}

/-- What is checked in makes a call, and only the log knows of it. -/
theorem checkIn_cases (s : Traffic) (p : Parcel) (uri : String) (now : Moment) : ∃ l,
    s.checkIn p uri now = { s with node := { s.node with log := l } } ∨
      (∃ q, s.node.registry.registered? uri = some q) ∧
        s.checkIn p uri now = { s with node := { s.node with log := l }, calls := s.calls ++ [⟨p, uri, none⟩] } := by
  have hframe := s.node.checkIn_frame p uri now
  have hregistered := s.node.registered_of_checkIn p uri now
  refine ⟨(s.node.checkIn p uri now).2.log, ?_⟩
  rw [← hframe]
  unfold checkIn
  generalize s.node.checkIn p uri now = y at hregistered
  obtain ⟨f | ⟨⟩, n⟩ := y
  · exact .inl rfl
  · exact .inr ⟨hregistered rfl, rfl⟩

theorem find_cases (s : Traffic) (j : Nat) : s.find j = s ∨ ∃ p uri, s.calls[j]? = some ⟨p, uri, none⟩ ∧
    s.find j = { s with
      node := { s.node with outbox := (s.node.outbox.opened uri).2 }
      calls := s.calls.set j ⟨p, uri, some (s.node.outbox.opened uri).1⟩
      strays := s.strays ++ if (s.node.outbox.laneOf? uri).isNone && (s.node.registry.registered? uri).isNone
        then [(s.node.outbox.opened uri).1] else [] } := by
  unfold find
  split
  · rename_i p uri hcall
    exact .inr ⟨p, uri, hcall, rfl⟩
  · exact .inl rfl

theorem push_cases (s : Traffic) (j : Nat) (now : Moment) : s.push j now = s ∨
    s.push j now = { s with calls := s.calls.eraseIdx j } ∨
    ∃ p uri i, s.calls[j]? = some ⟨p, uri, some i⟩ ∧ s.node.outbox.laneOf? uri = some i ∧
      s.push j now = { s with
        node := { s.node with outbox := s.node.outbox.enqueue uri p now.tick }
        calls := s.calls.eraseIdx j
        entered := s.entered ++ [⟨i, uri, p⟩]
        roll := Function.update s.roll i ((s.roll i).enter s.entered.length) } := by
  unfold push
  split
  · rename_i p uri i hcall
    rcases s.node.push_cases p uri i now with ⟨hi, heq⟩ | ⟨-, heq⟩
    · rw [heq]
      exact .inr (.inr ⟨p, uri, i, hcall, hi, rfl⟩)
    · rw [heq]
      exact .inr (.inl rfl)
  · exact .inl rfl

/-- What a departure leaves alone. -/
theorem depart_frame (s : Traffic) (i : Nat) (now : Moment) : ∃ o roll sent,
    (∀ uri, o.laneOf? uri = s.node.outbox.laneOf? uri) ∧
      s.depart i now = { s with node := { s.node with outbox := o }, roll, sent } := by
  unfold depart
  split
  · exact ⟨s.node.outbox, s.roll, s.sent, fun _ => rfl, rfl⟩
  · rcases depart_outcomes s.node i now with ⟨-, heq⟩ | ⟨f, target, t, -, -, -, heq⟩ | ⟨f, -, -, heq⟩
    all_goals
      rw [heq]
      refine ⟨_, _, _, ?_, rfl⟩
      exact fun _ => rfl

theorem heed_cases (n : Node) (j : Nat) : n.heed j = n ∨ ∃ p, n.registry.removals[j]? = some p ∧
    n.heed j = { n with
      registry := { n.registry with removals := n.registry.removals.eraseIdx j }
      outbox := (n.outbox.close p.uri).2
      removed := n.removed ++ [p.uri] } := by
  unfold heed
  cases hp : n.registry.removals[j]? with
  | none => exact .inl rfl
  | some p => exact .inr ⟨p, rfl, rfl⟩

/-- The lane of a peer of whose removal a node hears is not in use any more. -/
theorem laneOf?_heed {n : Node} {j : Nat} {p : Peer} (hp : n.registry.removals[j]? = some p) :
    (n.heed j).outbox.laneOf? p.uri = none := by
  unfold heed
  rw [hp]
  exact (Outbox.laneOf?_close _ _ _).trans (if_pos rfl)

theorem sweeps_heed {n : Node} (h : n.outbox.Tidy) (j : Nat) : n.outbox.Sweeps (n.heed j).outbox := by
  rcases heed_cases n j with heq | ⟨p, -, heq⟩
  · rw [heq]
    exact .refl n.outbox
  · rw [heq]
    exact Outbox.sweeps_close h p.uri

/-! ### What a step leaves alone -/

/-- Only a departure sends. -/
theorem sends_step (s : Traffic) {e : Event} (he : ∀ i now, e ≠ .depart i now) (k : Nat) :
    (s.step e).sends k = s.sends k := by
  have hsent : (s.step e).sent = s.sent := by
    cases e with
    | checkIn p uri now =>
      show (s.checkIn p uri now).sent = _
      obtain ⟨l, heq | ⟨-, heq⟩⟩ := s.checkIn_cases p uri now
      all_goals rw [heq]
    | find j =>
      show (s.find j).sent = _
      rcases s.find_cases j with heq | ⟨p, uri, -, heq⟩
      all_goals rw [heq]
    | push j now =>
      show (s.push j now).sent = _
      rcases s.push_cases j now with heq | heq | ⟨p, uri, i, -, hi, heq⟩
      all_goals rw [heq]
    | depart i now => exact absurd rfl (he i now)
    | _ => rfl
  unfold sends
  rw [hsent]

/-- Only what is pushed enters. -/
theorem entered_step (s : Traffic) {e : Event} (he : ∀ j now, e ≠ .push j now) : (s.step e).entered = s.entered := by
  cases e with
  | checkIn p uri now =>
    show (s.checkIn p uri now).entered = _
    obtain ⟨l, heq | ⟨-, heq⟩⟩ := s.checkIn_cases p uri now
    all_goals rw [heq]
  | find j =>
    show (s.find j).entered = _
    rcases s.find_cases j with heq | ⟨p, uri, -, heq⟩
    all_goals rw [heq]
  | push j now => exact absurd rfl (he j now)
  | depart i now =>
    show (s.depart i now).entered = _
    obtain ⟨o, roll, sent, -, heq⟩ := s.depart_frame i now
    rw [heq]
  | _ => rfl

/-- Only what happens at the registry, and hearing of it, changes the registry. -/
theorem registry_step (s : Traffic) {e : Event} (hr : ∀ x, e ≠ .registry x) (hh : ∀ j, e ≠ .heed j) :
    (s.step e).node.registry = s.node.registry := by
  cases e with
  | checkIn p uri now =>
    show (s.checkIn p uri now).node.registry = _
    obtain ⟨l, heq | ⟨-, heq⟩⟩ := s.checkIn_cases p uri now
    all_goals rw [heq]
  | find j =>
    show (s.find j).node.registry = _
    rcases s.find_cases j with heq | ⟨p, uri, -, heq⟩
    all_goals rw [heq]
  | push j now =>
    show (s.push j now).node.registry = _
    rcases s.push_cases j now with heq | heq | ⟨p, uri, i, -, -, heq⟩
    all_goals rw [heq]
  | depart i now =>
    show (s.depart i now).node.registry = _
    obtain ⟨o, roll, sent, -, heq⟩ := s.depart_frame i now
    rw [heq]
  | land i x now spread =>
    show (s.node.land i x now spread).registry = _
    rw [land_frame]
  | purge uri => rfl
  | registry x => exact absurd rfl (hr x)
  | heed j => exact absurd rfl (hh j)

/-- Hearing of a removal changes no row. -/
theorem row_step (s : Traffic) {e : Event} (hr : ∀ x, e ≠ .registry x) (uri : String) :
    (s.step e).node.registry.row? uri = s.node.registry.row? uri := by
  by_cases he : ∃ j, e = .heed j
  · obtain ⟨j, rfl⟩ := he
    show (s.node.heed j).registry.row? uri = _
    rcases heed_cases s.node j with heq | ⟨q, -, heq⟩
    · rw [heq]
    · rw [heq]
      rfl
  · rw [registry_step s hr fun j hj => he ⟨j, hj⟩]

/-! ## Node and history -/

/-- Node and history belong together. -/
structure Kept (retry : Retry) (s : Traffic) : Prop where
  tidy : s.node.outbox.Tidy
  policy : s.node.outbox.retry = retry
  tells : ∀ i, (s.roll i).Tells s.entered s.sends retry i (s.node.outbox.lane i)
  docket : ∀ d ∈ s.entered, d.lane < s.node.outbox.lanes.size ∧ (s.node.outbox.lane d.lane).uri = d.uri
  sent : ∀ x ∈ s.sent, (s.entered[x.1]?).map (·.parcel) = some x.2.parcel
  bound : ∀ m, retry.maxAttempts = some m → ∀ k, s.sends k ≤ max 1 m
  delivered : ∀ k ∈ s.delivered, ∃ i, k ∈ (s.roll i).finished
  once : s.delivered.Nodup
  reports : s.node.outbox.reports.map some = s.delivered.map s.report?

theorem kept_of {n : Node} (hn : n.outbox = .new retry) : (of n).Kept retry := by
  have hlane : ∀ i, (of n).node.outbox.lane i = .new "" := by
    intro i
    show n.outbox.lane i = _
    rw [hn]
    exact Outbox.lane_of_size_le (Nat.zero_le i)
  refine ⟨?_, ?_, fun i => ?_, ?_, ?_, ?_, ?_, .nil, ?_⟩
  · show n.outbox.Tidy
    rw [hn]
    exact Outbox.tidy_new retry
  · show n.outbox.retry = retry
    rw [hn]
    rfl
  · rw [hlane]
    exact Roll.tells_blank [] _ retry rfl ""
  · exact fun d hd => absurd hd List.not_mem_nil
  · exact fun x hx => absurd hx List.not_mem_nil
  · exact fun m _ k => Nat.zero_le _
  · exact fun k hk => absurd hk List.not_mem_nil
  · show n.outbox.reports.map some = []
    rw [hn]
    rfl

namespace Kept

/-- An entry that was not yet there was not sent. -/
theorem sends_fresh (h : s.Kept retry) (hk : s.entered.length ≤ k) : s.sends k = 0 := by
  refine List.count_eq_zero.mpr fun hmem => ?_
  obtain ⟨x, hx, rfl⟩ := List.mem_map.mp hmem
  have hparcel := h.sent x hx
  rw [List.getElem?_eq_none hk] at hparcel
  cases hparcel

theorem lt_of_finished (h : s.Kept retry) (hk : k ∈ (s.roll i).finished) : k < s.entered.length :=
  lt_of_numbers ((h.tells i).mem (.inl hk))

/-- An entry that was delivered is not on its way any more. -/
theorem not_mem_delivered (h : s.Kept retry) (hk : (s.roll i).flying = some k ∨ k ∈ (s.roll i).waiting) :
    k ∉ s.delivered := by
  intro hdone
  obtain ⟨j, hj⟩ := h.delivered k hdone
  obtain rfl := numbers_unique ((h.tells j).mem (.inl hj)) ((h.tells i).mem (.inr hk))
  exact (h.tells j).not_mem_finished hk hj

/-! ### Events -/

/-- An event that leaves the history alone but for the calls and rolls, and the reports. -/
theorem of_rolls (h : s.Kept retry) {n : Node} {roll : Nat → Roll} {errands : List Waiting} {calls : List Call}
    {strays : List Nat} (ht : n.outbox.Tidy) (hretry : n.outbox.retry = s.node.outbox.retry)
    (hreports : n.outbox.reports = s.node.outbox.reports) (hkeeps : s.node.outbox.Keeps n.outbox)
    (htells : ∀ i, (roll i).Tells s.entered s.sends retry i (n.outbox.lane i))
    (hfinished : ∀ i, ∀ k ∈ (s.roll i).finished, k ∈ (roll i).finished) :
    Kept retry { s with node := n, errands, calls, strays, roll } where
  tidy := ht
  policy := hretry.trans h.policy
  tells := htells
  docket d hd := by
    obtain ⟨hlt, hpeer⟩ := h.docket d hd
    exact ⟨Nat.lt_of_lt_of_le hlt hkeeps.size, (hkeeps.uri _ hlt).trans hpeer⟩
  sent := h.sent
  bound := h.bound
  delivered k hk := by
    obtain ⟨i, hi⟩ := h.delivered k hk
    exact ⟨i, hfinished i k hi⟩
  once := h.once
  reports := (congrArg (List.map some) hreports).trans h.reports

/-- An event that leaves the outbox alone. -/
theorem of_outbox (h : s.Kept retry) {n : Node} (hn : n.outbox = s.node.outbox) (errands : List Waiting)
    (calls : List Call) : Kept retry { s with node := n, errands, calls } := by
  refine h.of_rolls (hn.symm ▸ h.tidy) ?_ ?_ ?_ (fun i => hn.symm ▸ h.tells i) fun _ _ hk => hk
  · rw [hn]
  · rw [hn]
  · rw [hn]
    exact .refl _

theorem sweep (h : s.Kept retry) {n : Node} (hn : s.node.outbox.Sweeps n.outbox) : (s.sweep n).Kept retry :=
  h.of_rolls (hn.tidy h.tidy) hn.retry hn.reports hn.keeps (fun i => (h.tells i).sweep (hn.lane i))
    fun _ _ hk => (Roll.finished_sweep _ _ _).symm ▸ hk

theorem find (h : s.Kept retry) (j : Nat) : (s.find j).Kept retry := by
  rcases s.find_cases j with heq | ⟨p, uri, -, heq⟩
  · rw [heq]
    exact h
  · rw [heq]
    obtain ⟨-, hreports, -⟩ := s.node.outbox.opened_frame uri
    exact h.of_rolls (Outbox.opened_spec h.tidy uri).1 (s.node.outbox.retry_opened uri) hreports
      (s.node.outbox.keeps_opened uri) (fun i => (h.tells i).alike (s.node.outbox.alike_opened uri i)) fun _ _ hk => hk

theorem push (h : s.Kept retry) (j : Nat) (now : Moment) : (s.push j now).Kept retry := by
  rcases s.push_cases j now with heq | heq | ⟨p, uri, i, -, hi, heq⟩
  · rw [heq]
    exact h
  · rw [heq]
    exact h.of_outbox rfl s.errands _
  · rw [heq]
    have hput := Outbox.puts_of_live h.tidy hi p now.tick
    have hfresh := h.sends_fresh (Nat.le_refl _)
    have hkept : ∀ k, k < s.entered.length → (s.entered ++ [⟨i, uri, p⟩])[k]? = s.entered[k]? :=
      fun k hk => List.getElem?_append_left hk
    refine ⟨h.tidy.enqueue uri p now.tick, (Outbox.retry_enqueue _ _ _ _).trans h.policy, fun j => ?_, fun d hd => ?_,
      fun x hx => Roll.parcel_concat (h.sent x hx) _, h.bound, fun k hk => ?_, h.once, ?_⟩
    · by_cases hj : j = i
      · subst hj
        dsimp only
        rw [Function.update_self]
        exact (h.tells j).enter rfl hfresh hput.waiting hput.flight hput.generation
      · dsimp only
        rw [Function.update_of_ne hj, hput.others j hj]
        exact (h.tells j).other (Ne.symm hj)
    · rcases List.mem_append.mp hd with hd | hd
      · obtain ⟨hlt, huri⟩ := h.docket d hd
        exact ⟨Nat.lt_of_lt_of_le hlt hput.keeps.size, (hput.keeps.uri _ hlt).trans huri⟩
      · obtain rfl := List.mem_singleton.mp hd
        exact ⟨hput.there, hput.peer⟩
    · obtain ⟨j, hj⟩ := h.delivered k hk
      exact ⟨j, Roll.finished_update (fun _ hk => hk) hj⟩
    · rw [hput.reports, h.reports]
      refine List.map_congr_left fun k hk => ?_
      obtain ⟨j, hj⟩ := h.delivered k hk
      unfold report?
      rw [hkept k (h.lt_of_finished hj)]
      rfl

/-- The head of a lane is sent. -/
theorem flies (h : s.Kept retry) (hfree : (s.node.outbox.lane i).flight = none) {e : Entry} {es : List Entry}
    (hw : (s.node.outbox.lane i).waiting = e :: es) {x : Sending} (hx : x.parcel = e.parcel) {n : Node}
    (hn : n.outbox = s.node.outbox.modify i Lane.depart) : ∃ k ks, (s.roll i).waiting = k :: ks ∧
      Kept retry { s with
        node := n, roll := Function.update s.roll i ((s.roll i).depart true), sent := s.sent ++ [(k, x)] } := by
  obtain ⟨k, ks, hr, hmark, htells⟩ := (h.tells i).depart hfree hw
  refine ⟨k, ks, hr, ?_⟩
  have hin : k ∈ numbers s.entered i := (h.tells i).mem (.inr (.inr (by simp [hr])))
  have hlane := s.node.outbox.lane_depart i
  have hsize : (s.node.outbox.modify i Lane.depart).lanes.size = s.node.outbox.lanes.size := Outbox.size_modify _ _ _
  have hsends : ∀ j, ((s.sent ++ [(k, x)]).map (·.1)).count j = Function.update s.sends k (s.sends k + 1) j := by
    intro j
    by_cases hj : j = k
    · subst hj
      simp [sends]
    · rw [Function.update_of_ne hj]
      simp [sends, Ne.symm hj]
  have hdelivered := h.not_mem_delivered (k := k) (.inr (by rw [hr]; exact List.mem_cons_self))
  refine ⟨?_, ?_, fun j => ?_, fun d hd => ?_, fun y hy => ?_, fun m hm j => ?_, fun j hj => ?_, h.once, ?_⟩
  · rw [hn]
    exact h.tidy.modify i Lane.uri_depart
  · rw [hn]
    exact h.policy
  · show (Function.update s.roll i ((s.roll i).depart true) j).Tells s.entered
      (fun j => ((s.sent ++ [(k, x)]).map (·.1)).count j) retry j (n.outbox.lane j)
    rw [funext hsends, hn, hlane]
    by_cases hj : j = i
    · subst hj
      rw [Function.update_self, if_pos rfl]
      exact htells
    · rw [Function.update_of_ne hj, if_neg (Ne.symm hj)]
      refine (h.tells j).congr_sends fun k' hk' => Function.update_of_ne ?_ _ _
      rintro rfl
      exact hj (numbers_unique hk' hin)
  · rw [hn, hsize, hlane]
    split
    · rw [Lane.uri_depart]
      exact h.docket d hd
    · exact h.docket d hd
  · rcases List.mem_append.mp hy with hy | hy
    · exact h.sent y hy
    · rw [List.mem_singleton.mp hy, hx]
      exact hmark.parcel
  · show ((s.sent ++ [(k, x)]).map (·.1)).count j ≤ _
    rw [hsends]
    by_cases hj : j = k
    · subst hj
      rw [Function.update_self, hmark.sends]
      rcases hmark.allowed with hzero | hnot
      · omega
      · simp only [Retry.exhausted, hm, decide_eq_false_iff_not] at hnot
        omega
    · rw [Function.update_of_ne hj]
      exact h.bound m hm j
  · obtain ⟨i', hi'⟩ := h.delivered j hj
    exact ⟨i', Roll.finished_update (fun _ hk => Roll.finished_depart _ _ hk) hi'⟩
  · rw [hn]
    refine h.reports.trans (List.map_congr_left fun j hj => ?_)
    have hne : j ≠ k := fun he => hdelivered (he ▸ hj)
    have hsame : ((s.sent ++ [(k, x)]).map (·.1)).count j = s.sends j := by
      rw [hsends, Function.update_of_ne hne]
    unfold report? sends
    rw [hsame]
    rfl

/-- Nothing waits in the lane. -/
theorem idles (h : s.Kept retry) (hw : (s.node.outbox.lane i).waiting = []) {n : Node}
    (hn : n.outbox = s.node.outbox.modify i Lane.depart) :
    Kept retry { s with node := n, roll := Function.update s.roll i ((s.roll i).depart false) } := by
  have hlanes : ∀ j, n.outbox.lane j = s.node.outbox.lane j := by
    intro j
    rw [hn, Outbox.lane_depart]
    split
    · rename_i hij
      rw [← hij, Lane.depart_of_waiting_nil hw]
    · rfl
  have hroll : (s.roll i).depart false = s.roll i := by
    unfold Roll.depart
    rw [(h.tells i).waiting_nil hw]
  rw [hroll, Function.update_eq_self]
  refine h.of_rolls ?_ ?_ ?_ ?_ (fun j => hlanes j ▸ h.tells j) fun _ _ hk => hk
  · exact hn ▸ h.tidy.modify i Lane.uri_depart
  · rw [hn]
    rfl
  · rw [hn]
    rfl
  · exact hn ▸ s.node.outbox.keeps_modify i Lane.uri_depart

/-- The head of a lane is dropped without being sent. -/
theorem drops (h : s.Kept retry) (hfree : (s.node.outbox.lane i).flight = none) {e : Entry} {es : List Entry}
    (hw : (s.node.outbox.lane i).waiting = e :: es) {now : Nat} {spread : Float} {n : Node}
    (hn : n.outbox = (s.node.outbox.modify i Lane.depart).land i .dropped now spread) :
    Kept retry { s with node := n, roll := Function.update s.roll i ((s.roll i).depart false) } := by
  have htidy : (s.node.outbox.modify i Lane.depart).Tidy := h.tidy.modify i Lane.uri_depart
  have hpolicy : (s.node.outbox.modify i Lane.depart).retry = retry := h.policy
  have hlane : ∀ j, n.outbox.lane j = if i = j then
      (s.node.outbox.lane j).depart.land retry .dropped now spread else s.node.outbox.lane j := by
    intro j
    rw [hn, Outbox.lane_land, Outbox.lane_depart, hpolicy]
    split <;> rfl
  refine h.of_rolls ?_ ?_ ?_ ?_ (fun j => ?_)
    fun _ _ hk => Roll.finished_update (fun _ hk => Roll.finished_depart _ _ hk) hk
  · exact hn ▸ htidy.land i .dropped now spread
  · rw [hn]
    rfl
  · rw [hn]
    rfl
  · rw [hn]
    exact (s.node.outbox.keeps_modify i Lane.uri_depart).trans (Outbox.keeps_land _ i .dropped now spread)
  · rw [hlane]
    by_cases hj : j = i
    · subst hj
      rw [Function.update_self, if_pos rfl]
      exact (h.tells j).drop hfree hw now spread
    · rw [Function.update_of_ne hj, if_neg (Ne.symm hj)]
      exact h.tells j

theorem depart (h : s.Kept retry) (i : Nat) (now : Moment) : (s.depart i now).Kept retry := by
  unfold Traffic.depart
  cases hfree : (s.node.outbox.lane i).flight with
  | some f => exact h
  | none =>
    rw [if_neg (by simp)]
    cases hw : (s.node.outbox.lane i).waiting with
    | nil =>
      have hflight : (s.node.outbox.lane i).depart.flight = none := by rw [Lane.depart_of_waiting_nil hw, hfree]
      rcases depart_outcomes s.node i now with ⟨-, heq⟩ | ⟨f, target, t, hf, -⟩ | ⟨f, hf, -⟩
      · rw [heq]
        simpa using h.idles hw rfl
      · cases hflight.symm.trans hf
      · cases hflight.symm.trans hf
    | cons e es =>
      have hdepart := Lane.depart_of_waiting_cons hfree hw
      rcases depart_outcomes s.node i now with ⟨hf, -⟩ | ⟨f, target, t, hf, -, -, heq⟩ | ⟨f, hf, -, heq⟩
      · rw [hdepart] at hf
        cases hf
      · rw [hdepart] at hf
        obtain rfl := Option.some.inj hf
        rw [heq]
        obtain ⟨k, ks, hr, hkept⟩ := h.flies hfree hw (x := ⟨target, e.parcel, t⟩) rfl
          (n := { s.node with outbox := s.node.outbox.modify i Lane.depart }) rfl
        rw [hr]
        exact hkept
      · rw [heq]
        simpa using h.drops hfree hw rfl

/-- A delivery is reported as it is due. -/
theorem report?_of_flight (h : s.Kept retry) {f : Flight} (hk : (s.roll i).flying = some k)
    (hf : Roll.Follows s.entered s.sends (s.node.outbox.lane i).generation k f) :
    s.report? k = some ⟨f.entry.parcel.id, (s.node.outbox.lane i).uri, f.entry.attempts⟩ := by
  obtain ⟨d, hd, rfl⟩ := mem_numbers.mp ((h.tells i).mem (.inr (.inl hk)))
  have hparcel := hf.parcel
  rw [hd, Option.map_some, Option.some.injEq] at hparcel
  rw [report?, hd, Option.map_some, hparcel, hf.sends, (h.docket d (List.mem_of_getElem? hd)).2]

theorem land (h : s.Kept retry) (i : Nat) (x : Except Failure Unit) (now : Moment) (spread : Float) :
    (s.land i x now spread).Kept retry := by
  unfold Traffic.land
  rw [land_frame]
  dsimp only
  generalize attemptOf x = a
  have hlane := fun j => s.node.outbox.lane_land i j a now.tick spread
  have hpolicy := h.policy
  refine ⟨h.tidy.land i a now.tick spread, hpolicy, fun j => ?_, fun d hd => ?_, h.sent, h.bound, fun k hk => ?_, ?_, ?_⟩
  · show (Function.update s.roll i _ j).Tells s.entered s.sends retry j _
    rw [hlane, hlane, if_pos rfl, hpolicy]
    by_cases hj : j = i
    · subst hj
      rw [Function.update_self, if_pos rfl]
      exact (h.tells j).land a now.tick spread
    · rw [Function.update_of_ne hj, if_neg (Ne.symm hj)]
      exact h.tells j
  · obtain ⟨hlt, huri⟩ := h.docket d hd
    refine ⟨(Outbox.size_modify _ _ _).symm ▸ hlt, ?_⟩
    rw [hlane]
    split
    · rw [Lane.uri_land, huri]
    · exact huri
  · rcases List.mem_append.mp hk with hk | hk
    · obtain ⟨j, hj⟩ := h.delivered k hk
      exact ⟨j, Roll.finished_update (fun _ hk => Roll.finished_land _ _ _ hk) hj⟩
    · by_cases ha : a = .delivered
      · rw [if_pos ha, Option.mem_toList] at hk
        cases hf : (s.node.outbox.lane i).flight with
        | none =>
          rw [(h.tells i).flying_iff.mpr hf] at hk
          cases hk
        | some f =>
          have hdone := (Roll.land_done hk hf retry now.tick spread (a := a) (.inl (by simp [ha]))).1
          refine ⟨i, ?_⟩
          show k ∈ (Function.update s.roll i _ i).finished
          rw [Function.update_self, hlane, if_pos rfl, hpolicy, hdone]
          simp
      · rw [if_neg ha] at hk
        cases hk
  · refine List.nodup_append.mpr ⟨h.once, ?_, fun k hk j hj => ?_⟩
    · split
      · cases (s.roll i).flying <;> simp
      · exact .nil
    · by_cases ha : a = .delivered
      · rw [if_pos ha, Option.mem_toList] at hj
        rintro rfl
        exact h.not_mem_delivered (.inl hj) hk
      · rw [if_neg ha] at hj
        cases hj
  · rw [Outbox.reports_land, List.map_append, List.map_append]
    congr 1
    · exact h.reports
    · by_cases ha : a = .delivered
      · rw [if_pos ha, if_pos ha]
        cases hf : (s.node.outbox.lane i).flight with
        | none =>
          rw [(h.tells i).flying_iff.mpr hf]
          rfl
        | some f =>
          obtain ⟨k, hk, hfollows⟩ := (h.tells i).flying_of_flight hf
          have hreport := h.report?_of_flight hk hfollows
          rw [hk]
          exact congrArg (fun x => [x]) hreport.symm
      · rw [if_neg ha, if_neg ha]
        rfl

/-- An event keeps node and history together. -/
theorem step (h : s.Kept retry) (e : Event) : (s.step e).Kept retry := by
  cases e with
  | checkIn p uri now =>
    show (s.checkIn p uri now).Kept retry
    obtain ⟨l, heq | ⟨-, heq⟩⟩ := s.checkIn_cases p uri now
    · rw [heq]
      exact h.of_outbox (n := { s.node with log := l }) rfl s.errands s.calls
    · rw [heq]
      exact h.of_outbox (n := { s.node with log := l }) rfl s.errands _
  | find j => exact h.find j
  | push j now => exact h.push j now
  | depart i now => exact h.depart i now
  | land i x now spread => exact h.land i x now spread
  | purge uri => exact h.sweep (s.node.outbox.sweeps_purge uri)
  | registry e =>
    exact h.of_outbox (n := { s.node with registry := (s.office.step e).registry }) rfl _ s.calls
  | heed j => exact h.sweep (sweeps_heed h.tidy j)

theorem after (h : s.Kept retry) (es : List Event) : (s.after es).Kept retry := by
  induction es using List.reverseRecOn with
  | nil => exact h
  | append_singleton es e ih =>
    rw [after_concat]
    exact ih.step e

end Kept

/-- Over every run, no entry has been tried more often than the settings allow; so a count that holds the limit holds
the attempts too. -/
theorem attempts_le {n : Node} (hn : n.outbox = .new retry) {m : Nat} (hm : retry.maxAttempts = some m) (es : List Event)
    (i : Nat) : (∀ e ∈ (((of n).after es).node.outbox.lane i).waiting, e.attempts ≤ max 1 m) ∧
      ∀ f, (((of n).after es).node.outbox.lane i).flight = some f → f.entry.attempts ≤ max 1 m := by
  have h := (kept_of hn).after es
  generalize (of n).after es = s at h
  refine ⟨fun e he => ?_, fun f hf => ?_⟩
  · obtain ⟨k, hmarks⟩ := (h.tells i).marks_of_mem he
    exact hmarks.sends ▸ h.bound m hm k
  · obtain ⟨k, -, hfollows⟩ := (h.tells i).flying_of_flight hf
    exact hfollows.sends ▸ h.bound m hm k

/-! ## Entries that are spent -/

/-- An entry that will not be sent any more; it may be in flight. -/
def Spent (s : Traffic) (k : Nat) : Prop := ∀ i, (s.roll i).Past (s.node.outbox.lane i) k

namespace Spent

theorem sweep (hk : s.Spent k) {n : Node} (hn : s.node.outbox.Sweeps n.outbox) : (s.sweep n).Spent k :=
  fun i => (hk i).sweep (hn.lane i)

theorem find (hk : s.Spent k) (j : Nat) : (s.find j).Spent k := by
  rcases s.find_cases j with heq | ⟨p, uri, -, heq⟩
  · rw [heq]
    exact hk
  · rw [heq]
    exact fun i => (hk i).alike (s.node.outbox.alike_opened uri i)

theorem push (hk : s.Spent k) (h : s.Kept retry) (hlt : k < s.entered.length) (j : Nat) (now : Moment) :
    (s.push j now).Spent k := by
  rcases s.push_cases j now with heq | heq | ⟨p, uri, i, -, hi, heq⟩
  · rw [heq]
    exact hk
  · rw [heq]
    exact hk
  · have hput := Outbox.puts_of_live h.tidy hi p now.tick
    rw [heq]
    intro j
    show (Function.update s.roll i _ j).Past ((s.node.outbox.enqueue uri p now.tick).lane j) k
    by_cases hj : j = i
    · subst hj
      rw [Function.update_self]
      exact (hk j).enter (Nat.ne_of_lt hlt) hput.flight hput.generation
    · rw [Function.update_of_ne hj, hput.others j hj]
      exact hk j

theorem depart (hk : s.Spent k) (h : s.Kept retry) (hlt : k < s.entered.length) (i : Nat) (now : Moment) :
    (s.depart i now).Spent k ∧ (s.depart i now).sends k = s.sends k := by
  unfold Traffic.depart
  cases hfree : (s.node.outbox.lane i).flight with
  | some f => exact ⟨hk, rfl⟩
  | none =>
    rw [if_neg (by simp)]
    refine ⟨fun j => ?_, ?_⟩
    · show (Function.update s.roll i _ j).Past ((s.node.depart i now).2.outbox.lane j) k
      by_cases hj : j = i
      · subst hj
        rw [Function.update_self]
        exact (hk j).depart ((h.tells j).flying_iff.mpr hfree) _ _
      · rw [Function.update_of_ne hj, lane_depart_ne s.node now hj]
        exact hk j
    · have hwaiting := (hk i).waiting
      have hhead : (s.roll i).waiting.headD s.entered.length ≠ k := by
        cases hr : (s.roll i).waiting with
        | nil => exact Nat.ne_of_gt hlt
        | cons j ks =>
          rw [hr, List.mem_cons, not_or] at hwaiting
          exact Ne.symm hwaiting.1
      show ((s.sent ++ (s.node.depart i now).1.toList.map fun x => ((s.roll i).waiting.headD _, x)).map (·.1)).count k = _
      rw [List.map_append, List.count_append, sends, Nat.add_eq_left, List.count_eq_zero, List.map_map]
      intro hmem
      obtain ⟨x, -, hx⟩ := List.mem_map.mp hmem
      exact hhead hx

theorem land (hk : s.Spent k) (h : s.Kept retry) (i : Nat) (x : Except Failure Unit) (now : Moment) (spread : Float) :
    (s.land i x now spread).Spent k := by
  have hlane := fun j => s.node.outbox.lane_land i j (attemptOf x) now.tick spread
  unfold Traffic.land
  rw [land_frame]
  intro j
  show (Function.update s.roll i _ j).Past ((s.node.outbox.land i (attemptOf x) now.tick spread).lane j) k
  by_cases hj : j = i
  · subst hj
    rw [Function.update_self]
    dsimp only
    rw [hlane, if_pos rfl, h.policy]
    exact (hk j).land (h.tells j) _ _ _
  · rw [Function.update_of_ne hj, hlane, if_neg (Ne.symm hj)]
    exact hk j

theorem step (hk : s.Spent k) (h : s.Kept retry) (hlt : k < s.entered.length) (e : Event) :
    (s.step e).Spent k ∧ (s.step e).sends k = s.sends k := by
  cases e with
  | checkIn p uri now =>
    refine ⟨?_, sends_step s (by simp) k⟩
    show (s.checkIn p uri now).Spent k
    obtain ⟨l, heq | ⟨-, heq⟩⟩ := s.checkIn_cases p uri now
    all_goals
      rw [heq]
      exact hk
  | find j => exact ⟨hk.find j, sends_step s (by simp) k⟩
  | push j now => exact ⟨hk.push h hlt j now, sends_step s (by simp) k⟩
  | depart i now => exact hk.depart h hlt i now
  | land i x now spread => exact ⟨hk.land h i x now spread, rfl⟩
  | purge uri => exact ⟨hk.sweep (s.node.outbox.sweeps_purge uri), rfl⟩
  | registry e => exact ⟨hk, rfl⟩
  | heed j => exact ⟨hk.sweep (sweeps_heed h.tidy j), rfl⟩

end Spent

theorem length_step (s : Traffic) (e : Event) : s.entered.length ≤ (s.step e).entered.length := by
  by_cases he : ∃ j now, e = .push j now
  · obtain ⟨j, now, rfl⟩ := he
    show _ ≤ (s.push j now).entered.length
    rcases s.push_cases j now with heq | heq | ⟨p, uri, i, -, -, heq⟩
    · exact Nat.le_of_eq (by rw [heq])
    · exact Nat.le_of_eq (by rw [heq])
    · rw [heq]
      simp
  · exact Nat.le_of_eq (congrArg List.length (entered_step s fun j now h => he ⟨j, now, h⟩)).symm

/-- An entry that is spent is not sent any more, whatever happens. -/
theorem Spent.after (hk : s.Spent k) (h : s.Kept retry) (hlt : k < s.entered.length) (es : List Event) :
    (s.after es).Spent k ∧ (s.after es).sends k = s.sends k := by
  have hlater : ∀ es, k < (s.after es).entered.length := by
    intro es
    induction es using List.reverseRecOn with
    | nil => exact hlt
    | append_singleton es e ih =>
      rw [after_concat]
      exact Nat.lt_of_lt_of_le ih (length_step _ e)
  induction es using List.reverseRecOn with
  | nil => exact ⟨hk, rfl⟩
  | append_singleton es e ih =>
    rw [after_concat]
    obtain ⟨hspent, hsends⟩ := ih.1.step (h.after es) (hlater es) e
    exact ⟨hspent, hsends.trans ih.2⟩

/-- The entries of a lane that is purged are spent. -/
theorem Kept.spent_of_purged (h : s.Kept retry) (hk : k ∈ numbers s.entered i) {n : Node}
    (hn : s.node.outbox.Sweeps n.outbox) (hg : (s.node.outbox.lane i).generation < (n.outbox.lane i).generation) :
    (s.sweep n).Spent k := by
  intro j
  by_cases hj : j = i
  · subst hj
    exact .of_purged (h.tells j) (hn.lane j) hg k
  · have hother : (s.roll j).Past (s.node.outbox.lane j) k := by
      refine ⟨fun hmem => ?_, fun f hf => ?_⟩
      · exact absurd (numbers_unique ((h.tells j).mem (.inr (.inr hmem))) hk) hj
      · exact absurd (numbers_unique ((h.tells j).mem (.inr (.inl hf))) hk) hj
    exact hother.sweep (hn.lane j)

/-- The last attempt for an entry that is spent, if it may be repeated, is not. -/
theorem Spent.land_again (hk : s.Spent k) (h : s.Kept retry) (hf : (s.roll i).flying = some k) {x : Except Failure Unit}
    (hx : attemptOf x = .again) (now : Moment) (spread : Float) :
    k ∈ if retry.exhausted (s.sends k) then ((s.land i x now spread).roll i).finished
      else ((s.land i x now spread).roll i).discarded := by
  cases hflight : (s.node.outbox.lane i).flight with
  | none => simp [(h.tells i).flying_iff.mpr hflight] at hf
  | some f =>
    obtain ⟨j, hj, hfollows⟩ := (h.tells i).flying_of_flight hflight
    obtain rfl := Option.some.inj (hj.symm.trans hf)
    have hstale := Nat.ne_of_lt ((hk i).flying f hf hflight)
    have hroll : (s.land i x now spread).roll i = (s.roll i).land (s.node.outbox.lane i)
        ((s.node.outbox.lane i).land retry .again now.tick spread) := by
      show Function.update s.roll i _ i = _
      rw [Function.update_self, land_frame]
      dsimp only
      rw [Outbox.lane_land, if_pos rfl, hx, h.policy]
    rw [hroll, hfollows.sends]
    by_cases hex : retry.exhausted f.entry.attempts = true
    · rw [if_pos hex, (Roll.land_done hf hflight retry now.tick spread (.inr hex)).1]
      simp
    · rw [if_neg hex, (Roll.land_stale hf hflight retry now.tick spread (by simpa using hex) hstale).1]
      simp

/-- Over every run of a node that begins without lanes: the entries of a lane in the order of their coming, without
those discarded, are those finished in their order, the one in flight, and those that wait, front to back.  None is
discarded but that a purge met it waiting or in flight.  A delivery is reported once, with the number of times that its
entry was sent, which has a bound.  An entry in flight while its lane is purged is never sent again, and if it might
have been, it counts as discarded, or as finished where no attempt was left. -/
theorem conserved {n : Node} {retry : Retry} (hn : n.outbox = .new retry) {es : List Event} {s : Traffic}
    (hs : (of n).after es = s) (i : Nat) :
    (numbers s.entered i).filter (· ∉ (s.roll i).discarded)
        = (s.roll i).finished ++ (s.roll i).flying.toList ++ (s.roll i).waiting ∧
      (∀ k ∈ (s.roll i).discarded, k ∈ (s.roll i).purged) ∧
      List.Forall₂ (fun k f => s.parcel? k = some f.entry.parcel) (s.roll i).flying.toList
        (s.node.outbox.lane i).flight.toList ∧
      List.Forall₂ (fun k e => s.parcel? k = some e.parcel) (s.roll i).waiting (s.node.outbox.lane i).waiting ∧
      (∀ x ∈ s.sent, s.parcel? x.1 = some x.2.parcel) ∧
      s.delivered.Nodup ∧ s.node.outbox.reports.map some = s.delivered.map s.report? ∧
      (∀ m, retry.maxAttempts = some m → ∀ k, s.sends k ≤ max 1 m) ∧
      ∀ k uri, (s.roll i).flying = some k → s.node.outbox.laneOf? uri = some i →
        ∀ es' s', (s.step (.purge uri)).after es' = s' → s'.sends k = s.sends k ∧
          ((s'.roll i).flying = some k → ∀ x now spread, attemptOf x = .again →
            k ∈ if retry.exhausted (s.sends k) then ((s'.step (.land i x now spread)).roll i).finished
              else ((s'.step (.land i x now spread)).roll i).discarded) := by
  subst hs
  have h := (kept_of hn).after es
  generalize (of n).after es = s at h
  refine ⟨(h.tells i).order, (h.tells i).purged, (h.tells i).flying.imp fun _ _ hf => hf.parcel,
    (h.tells i).waiting.imp fun _ _ hm => hm.parcel, h.sent, h.once, h.reports, h.bound, ?_⟩
  rintro k uri hk hlive es' s' rfl
  have hin : k ∈ numbers s.entered i := (h.tells i).mem (.inr (.inl hk))
  have hlt := lt_of_numbers hin
  have hpurged : (s.node.outbox.purge uri).2.lane i = (s.node.outbox.lane i).purge.2 := by
    unfold Outbox.purge
    rw [hlive]
    dsimp only
    rw [Outbox.lane_modify, if_pos ⟨rfl, (h.tidy uri i hlive).1⟩]
  have hspent : (s.step (.purge uri)).Spent k :=
    h.spent_of_purged hin (s.node.outbox.sweeps_purge uri) (hpurged ▸ Nat.lt_succ_self _)
  have hkept := h.step (.purge uri)
  obtain ⟨hlater, hsends⟩ := hspent.after hkept hlt es'
  have hsame : ((s.step (.purge uri)).after es').sends k = s.sends k := hsends
  refine ⟨hsame, fun hf x now spread hx => ?_⟩
  rw [← hsame]
  exact hlater.land_again (hkept.after es') hf hx now spread

/-- A node that is registered with one peer. -/
def lone : Node := .knowing default ⟨"b", "", "u", .registered, none, ∅⟩ "note" (.application false)

/-- A parcel is queued in one go. -/
def queued (tick : Nat) : List Event := [.checkIn default "u" ⟨tick, .epoch⟩, .find 0, .push 0 ⟨tick, .epoch⟩]

/-- Two parcels are queued, and the first is sent. -/
def lonely : List Event := queued 0 ++ queued 0 ++ [.depart 0 ⟨1, .epoch⟩]

/-- After a purge and another parcel, the first one is discarded with the second. -/
theorem conserved_purged : ∃ s s' s'', lone.outbox = .new .standard ∧ (of lone).after lonely = s ∧
    (s.step (.purge "u")).after (queued 2) = s' ∧
    s'.step (.land 0 (.error .io) ⟨3, .epoch⟩ 1.0) = s'' ∧ s'.sends 0 = 1 ∧ 0 ∈ (s''.roll 0).discarded := by
  have hnew : lone.outbox = .new .standard := rfl
  have hrun : (of lone).after lonely = (of lone).after lonely := rfl
  obtain ⟨-, -, -, -, -, -, -, -, hpurge⟩ := conserved hnew hrun 0
  have hflying : (((of lone).after lonely).roll 0).flying = some 0 := by decide +kernel
  have hlive : ((of lone).after lonely).node.outbox.laneOf? "u" = some 0 := by decide +kernel
  obtain ⟨hsends, hland⟩ := hpurge 0 "u" hflying hlive (queued 2) _ rfl
  refine ⟨_, _, _, hnew, rfl, rfl, rfl, hsends.trans (by decide +kernel), ?_⟩
  exact hland (by decide +kernel) (.error .io) ⟨3, .epoch⟩ 1.0 rfl

end Traffic

end ContentMesh.Node
