import Mathlib.Data.List.Nodup
import ContentMesh.Proofs.Node.Delivering
import ContentMesh.Proofs.Node.Receiving

/-!
# ContentMesh.Proofs.Mesh.Link — a list of messages over a link that loses some

One node queues messages for another one, with which it is registered.  An attempt may be lost on the way, its answer
may be lost, the receiver may have no room; a copy that was given up may still arrive later.  The receiver's workers
go on meanwhile, and others send to it too.

The invariant (`InOrder`) cuts what was sent into what has left the lane and what is still in it.  The receiver has
accepted the first part and at most one message more: the head of the lane, of which the answer was lost.
-/

namespace ContentMesh.Link

/-! ## Runs -/

/-- What is sent of a parcel. -/
def content (p : Parcel) : Header × Bytes := (p.header, p.body)

/-- An attempt that is not over: its copy is on the way, or was answered. -/
inductive Call where
  | onWay (i : Inbound)
  | answered (r : Except Failure Reception)

/-- What may still arrive of an attempt that is given up. -/
def Call.astray : Call → List Inbound
  | onWay i => [i]
  | answered _ => []

/-- Sender and receiver: what is to be queued and what was, the attempt that is made, the copies that were given up,
what the receiver's workers have in hand, and what the receiver has accepted. -/
structure State where
  a : Node
  b : Node
  rest : List Parcel
  sent : List Parcel
  call : Option Call
  late : List Inbound
  jobs : List Parcel
  accepted : List (Header × Bytes)

/-- The ids of the messages that the sender has for the receiver. -/
def State.ids (s : State) : List String := (s.sent ++ s.rest).map Parcel.id

/-- What is accepted by an answer. -/
def acceptedBy (i : Inbound) : Except Failure Reception → List (Header × Bytes)
  | .ok .queued => [(i.header, i.body)]
  | _ => []

/-- The rules of the receiver do not refuse a message. -/
def Admits (b : Node) (i : Inbound) : Prop := ∀ hop, b.Trusted i hop → (b.letsIn i.header hop).1 = .ok true

/-- The copy that goes out for a sending. -/
def copyOf (a : Node) (x : Sending) : Inbound := ⟨x.parcel.header, a.self.id, x.parcel.body, x.signature⟩

/-- What sender and receiver do.  `giveUp` is an attempt of which the copy or the answer is lost, or comes too late;
`visit` and `conclude` are messages of others. -/
inductive Step : State → State → Prop where
  | enqueue (s : State) {p : Parcel} {rest : List Parcel} {a' : Node} (now : Moment) (hr : s.rest = p :: rest)
      (h : s.a.enqueue p s.b.self.uri now = (.ok (), a')) :
      Step s { s with a := a', rest, sent := s.sent ++ [p] }
  | depart (s : State) {lane : Nat} {x : Option Sending} {a' : Node} (now : Moment) (hc : s.call = none)
      (hl : s.a.outbox.laneOf? s.b.self.uri = some lane) (h : s.a.depart lane now = (x, a')) :
      Step s { s with a := a', call := x.map fun x => .onWay (copyOf s.a x) }
  | arrive (s : State) {i : Inbound} {r : Except Failure Reception} {b' : Node} (now : Moment)
      (hc : s.call = some (.onWay i)) (hlet : Admits s.b i) (h : s.b.takeIn i now = (.settled r, b')) :
      Step s { s with b := b', call := some (.answered r), accepted := s.accepted ++ acceptedBy i r }
  | arriveLate (s : State) {i : Inbound} {r : Except Failure Reception} {b' : Node} (now : Moment)
      (hi : i ∈ s.late) (hlet : Admits s.b i) (h : s.b.takeIn i now = (.settled r, b')) :
      Step s { s with b := b', late := s.late.erase i, accepted := s.accepted ++ acceptedBy i r }
  | land (s : State) {lane : Nat} {r : Except Failure Reception} (now : Moment) (spread : Float)
      (hc : s.call = some (.answered r)) (hl : s.a.outbox.laneOf? s.b.self.uri = some lane) :
      Step s { s with a := s.a.land lane (Node.seen s.b.self.uri r) now spread, call := none }
  | giveUp (s : State) {lane : Nat} {c : Call} {f : Failure} (now : Moment) (spread : Float) (hc : s.call = some c)
      (hl : s.a.outbox.laneOf? s.b.self.uri = some lane) (hf : f.retryable = true) :
      Step s { s with a := s.a.land lane (.error f) now spread, call := none, late := c.astray ++ s.late }
  | work (s : State) {fresh : String} {w : Node.Work} {b' : Node} (now : Moment) (hf : fresh ∉ s.ids)
      (h : s.b.work fresh now = (w, b')) : Step s { s with b := b', jobs := w.job ++ s.jobs }
  | finishWork (s : State) {p : Parcel} (hp : p ∈ s.jobs) (x : Except Failure Decision) (now : Moment) :
      Step s { s with b := s.b.finishWork p x now, jobs := s.jobs.erase p }
  | visit (s : State) {i : Inbound} (now : Moment) (hi : i.header.id ∉ s.ids) :
      Step s { s with b := (s.b.takeIn i now).2 }
  | conclude (s : State) {p : Parcel} (x : Except Failure Decision) (now : Moment) (hp : p.id ∉ s.ids) :
      Step s { s with b := (s.b.conclude p x now).2 }

/-- The states that sender and receiver can come to. -/
inductive Reachable (a b : Node) (ps : List Parcel) : State → Prop where
  | start : Reachable a b ps ⟨a, b, ps, [], none, [], [], []⟩
  | next {s t : State} : Reachable a b ps s → Step s t → Reachable a b ps t

/-- Each end knows the other one as registered, under the same key; the sender never gives a message up for good, and
has nothing for the receiver yet.  The receiver knows none of the messages, which are for it and can wait there. -/
structure Ready (a b : Node) (key : String) (ps : List Parcel) : Prop where
  running : b.running = true
  target : ∃ t, a.registry.registered? b.self.uri = some t ∧ t.receiveKey = some key
  hop : ∃ h, (b.registry.find? a.self.id).filter Peer.isRegistered = some h ∧ h.receiveKey = some key
  signer : b.signer = a.signer
  unlimited : a.outbox.retry.maxAttempts = none
  tidy : a.outbox.Tidy
  empty : (a.outbox.laneFor b.self.uri).load = []
  log : b.log.Reliable
  ids : (ps.map Parcel.id).Nodup
  unknown : ∀ p ∈ ps, ¬ b.log.Has p.id ∧ ∀ q ∈ b.inbox, q.id ≠ p.id
  addressed : ∀ p ∈ ps, p.header.addressedTo b.self.uri = true
  waits : ∀ p ∈ ps, ∃ h, b.dispatch.get? p.header.kind = some h ∧ h.waits = true

/-! ## The invariant -/

/-- A copy of a parcel as the sender signs it. -/
def IsCopy (a : Node) (key : String) (p : Parcel) (i : Inbound) : Prop :=
  i.header = p.header ∧ i.hop = a.self.id ∧ i.body = p.body ∧ a.signer.sign (some key) p = .ok i.signature

/-- An attempt to deliver `p`: its copy is on the way; or it was answered, and then `p` was accepted unless there was
no room. -/
def Fits (a : Node) (key : String) (accepted : List (Header × Bytes)) (p : Parcel) : Call → Prop
  | .onWay i => IsCopy a key p i
  | .answered r => (∃ x, r = .ok x ∧ content p ∈ accepted) ∨ r = .error .queueFull

/-- What was sent is what has left the lane and what is in it; accepted is the first part and at most the head of the
second. -/
structure InOrder (a b : Node) (key : String) (ps done : List Parcel) (s : State) : Prop where
  sender : a.Steady s.a
  receiver : b.Steady s.b
  list : s.sent ++ s.rest = ps
  cut : s.sent = done ++ (s.a.outbox.laneFor b.self.uri).load
  retry : s.a.outbox.retry = a.outbox.retry
  tidy : s.a.outbox.Tidy
  fresh : (s.a.outbox.laneFor b.self.uri).Fresh
  log : s.b.log.Reliable
  accepted : ∃ k, k ≤ 1 ∧ k ≤ (s.a.outbox.laneFor b.self.uri).load.length ∧
    s.accepted = (done ++ (s.a.outbox.laneFor b.self.uri).load.take k).map content
  idle : s.call = none → (s.a.outbox.laneFor b.self.uri).flight = none
  busy : ∀ c, s.call = some c → ∃ f, (s.a.outbox.laneFor b.self.uri).flight = some f ∧
    Fits a key s.accepted f.entry.parcel c
  late : ∀ i ∈ s.late, ∃ p, IsCopy a key p i ∧
    (p ∈ done ∨ (s.a.outbox.laneFor b.self.uri).load.head? = some p)
  rows : ∀ p ∈ ps, (s.b.log.Has p.id ↔ content p ∈ s.accepted)
  held : ∀ q ∈ s.b.inbox ++ s.jobs, ∀ p ∈ ps, q.id = p.id → s.b.log.Has p.id

variable {a b : Node} {key : String} {ps done : List Parcel} {s t : State}

theorem Ready.inOrder (h : Ready a b key ps) : InOrder a b key ps [] ⟨a, b, ps, [], none, [], [], []⟩ := by
  have hflight : (a.outbox.laneFor b.self.uri).flight = none := by
    cases hf : (a.outbox.laneFor b.self.uri).flight with
    | none => rfl
    | some f =>
      have hload := h.empty
      rw [Lane.load_of_flight hf] at hload
      cases hload
  refine ⟨.refl a, .refl b, rfl, h.empty.symm, rfl, h.tidy, fun f hf => ?_, h.log, ⟨0, by omega, by omega, rfl⟩,
    fun _ => hflight, fun c hc => (by cases hc), fun i hi => (by cases hi), fun p hp => ?_, fun q hq p hp hid => ?_⟩
  · rw [hflight] at hf
    cases hf
  · exact ⟨fun hk => absurd hk (h.unknown p hp).1, fun hm => (by cases hm)⟩
  · rw [List.append_nil] at hq
    exact absurd hid ((h.unknown p hp).2 q hq)

/-- Two of the messages with one id are the same. -/
theorem Ready.eq_of_id (h : Ready a b key ps) {p q : Parcel} (hp : p ∈ ps) (hq : q ∈ ps) (hid : p.id = q.id) : p = q :=
  List.inj_on_of_nodup_map h.ids hp hq hid

theorem Ready.eq_of_content (h : Ready a b key ps) {p q : Parcel} (hp : p ∈ ps) (hq : q ∈ ps)
    (hc : content p = content q) : p = q :=
  h.eq_of_id hp hq (congrArg (fun c => c.1.id) hc)

theorem InOrder.mem_done (h : InOrder a b key ps done s) {p : Parcel} (hp : p ∈ done) : p ∈ ps := by
  rw [← h.list, h.cut]
  exact List.mem_append_left _ (List.mem_append_left _ hp)

theorem InOrder.mem_load (h : InOrder a b key ps done s) {p : Parcel}
    (hp : p ∈ (s.a.outbox.laneFor b.self.uri).load) : p ∈ ps := by
  rw [← h.list, h.cut]
  exact List.mem_append_left _ (List.mem_append_right _ hp)

/-- Nothing that has left the lane is in it. -/
theorem InOrder.not_mem_done (hr : Ready a b key ps) (h : InOrder a b key ps done s) {p : Parcel}
    (hp : p ∈ (s.a.outbox.laneFor b.self.uri).load) : p ∉ done := by
  intro hd
  have hnd : (s.sent.map Parcel.id).Nodup := by
    have := hr.ids
    rw [← h.list, List.map_append] at this
    exact (List.nodup_append.mp this).1
  rw [h.cut, List.map_append] at hnd
  exact (List.nodup_append.mp hnd).2.2 p.id (List.mem_map_of_mem hd) p.id (List.mem_map_of_mem hp) rfl

/-! ## What the receiver does -/

/-- Whatever the receiver does with other messages, or with those that it has accepted. -/
theorem InOrder.other {b' : Node} {jobs : List Parcel} (h : InOrder a b key ps done s) (hsteady : s.b.Steady b')
    (hlog : b'.log.Reliable) (hrows : ∀ p ∈ ps, (b'.log.Has p.id ↔ s.b.log.Has p.id))
    (hheld : ∀ q ∈ b'.inbox ++ jobs, ∀ p ∈ ps, q.id = p.id → s.b.log.Has p.id) :
    InOrder a b key ps done { s with b := b', jobs } where
  sender := h.sender
  receiver := h.receiver.trans hsteady
  list := h.list
  cut := h.cut
  retry := h.retry
  tidy := h.tidy
  fresh := h.fresh
  log := hlog
  accepted := h.accepted
  idle := h.idle
  busy := h.busy
  late := h.late
  rows p hp := (hrows p hp).trans (h.rows p hp)
  held q hq p hp hid := (hrows p hp).mpr (hheld q hq p hp hid)

/-- What is done about messages with other ids. -/
theorem InOrder.touched {b' : Node} {ids : String → Prop} (h : InOrder a b key ps done s) (ht : s.b.Touched ids b')
    (hids : ∀ p ∈ ps, ¬ ids p.id) : InOrder a b key ps done { s with b := b' } := by
  obtain ⟨new, hinbox, hnew⟩ := ht.inbox
  refine h.other ht.steady ht.reliable (fun p hp => ?_) (fun q hq p hp hid => ?_)
  · unfold Log.Has
    rw [ht.rows p.id (hids p hp)]
  · rw [hinbox, List.append_assoc] at hq
    rcases List.mem_append.mp hq with hq | hq
    · exact h.held q (List.mem_append_left _ hq) p hp hid
    · rcases List.mem_append.mp hq with hq | hq
      · exact absurd (hid ▸ hnew q hq) (hids p hp)
      · exact h.held q (List.mem_append_right _ hq) p hp hid

/-- What is done about messages that were accepted, or have other ids. -/
theorem InOrder.grown {b' : Node} {ids : String → Prop} {inbox jobs : List Parcel} (h : InOrder a b key ps done s)
    (hg : { s.b with inbox }.Grown ids b') (hids : ∀ p ∈ ps, ids p.id → s.b.log.Has p.id)
    (hheld : ∀ q ∈ inbox ++ jobs, q ∈ s.b.inbox ++ s.jobs) : InOrder a b key ps done { s with b := b', jobs } := by
  have hinbox : b'.inbox = inbox := by rw [hg.frame]
  have hpop : s.b.Steady { s.b with inbox } := rfl
  refine h.other (hpop.trans hg.touched.steady) hg.reliable (fun p hp => ⟨fun hk => ?_, fun hk => hg.log.kept _ hk⟩)
    (fun q hq p hp hid => ?_)
  · by_cases hi : ids p.id
    · exact hids p hp hi
    · exact (hg.log.has_iff hi).mp hk
  · rw [hinbox] at hq
    exact h.held q (hheld q hq) p hp hid

theorem IsCopy.trusted {p : Parcel} {i : Inbound} (hr : Ready a b key ps) (h : InOrder a b key ps done s)
    (hi : IsCopy a key p i) : ∃ hop, s.b.Trusted i hop := by
  obtain ⟨-, hsigner, hreg, -⟩ := h.receiver.fields
  obtain ⟨hop, hfind, hkey⟩ := hr.hop
  obtain ⟨hheader, hhop, hbody, hsign⟩ := hi
  obtain ⟨sig, hs, hv⟩ := a.signer.verify_sign key p (some hop.uri)
  refine ⟨hop, by rw [hreg, hhop, hfind], ?_⟩
  rw [hs] at hsign
  cases hsign
  rw [hsigner, hr.signer, hkey, hheader, hbody]
  exact hv

/-- A message that is not accepted yet is the head of the lane, and then nothing in the lane is accepted. -/
theorem InOrder.unaccepted {p : Parcel} (h : InOrder a b key ps done s)
    (hp : p ∈ done ∨ (s.a.outbox.laneFor b.self.uri).load.head? = some p) (hnew : content p ∉ s.accepted) :
    (s.a.outbox.laneFor b.self.uri).load.head? = some p ∧ s.accepted = done.map content := by
  obtain ⟨k, hk, -, hacc⟩ := h.accepted
  have hmap : ∀ q ∈ done ++ (s.a.outbox.laneFor b.self.uri).load.take k, content q ∈ s.accepted := by
    intro q hq
    rw [hacc]
    exact List.mem_map_of_mem hq
  have hhead : (s.a.outbox.laneFor b.self.uri).load.head? = some p := by
    rcases hp with hp | hp
    · exact absurd (hmap p (List.mem_append_left _ hp)) hnew
    · exact hp
  refine ⟨hhead, ?_⟩
  obtain ⟨rest, hload⟩ := List.head?_eq_some_iff.mp hhead
  have hzero : k = 0 := by
    by_cases h0 : k = 0
    · exact h0
    · -- then the head of the lane is accepted
      obtain rfl : k = 1 := by omega
      refine absurd (hmap p (List.mem_append_right _ ?_)) hnew
      rw [hload]
      exact List.mem_cons_self
  rw [hacc, hzero, List.take_zero, List.append_nil]

/-- The receiver accepts the head of the lane. -/
theorem InOrder.accept {p q : Parcel} {l : Log} {resolver : Resolver} (hr : Ready a b key ps)
    (h : InOrder a b key ps done s) (hhead : (s.a.outbox.laneFor b.self.uri).load.head? = some p)
    (hacc : s.accepted = done.map content) (hq : q.id = p.id) (hext : s.b.log.Extends (· = p.id) l)
    (hhas : l.Has p.id) :
    InOrder a b key ps done { s with
      b := { s.b with resolver, log := l, inbox := s.b.inbox ++ [q] }, accepted := s.accepted ++ [content p] } := by
  obtain ⟨rest, hload⟩ := List.head?_eq_some_iff.mp hhead
  have hmem : p ∈ ps := h.mem_load (List.mem_of_mem_head? hhead)
  refine ⟨h.sender, h.receiver.trans rfl, h.list, h.cut, h.retry, h.tidy, h.fresh, hext.reliable,
    ⟨1, Nat.le_refl 1, by rw [hload]; exact Nat.succ_le_succ (Nat.zero_le _), ?_⟩, h.idle, fun c hc => ?_, h.late,
    fun p' hp' => ?_, fun q' hq' p' hp' hid => ?_⟩
  · dsimp only
    rw [hacc, hload]
    simp
  · obtain ⟨f, hf, hfits⟩ := h.busy c hc
    refine ⟨f, hf, ?_⟩
    cases c with
    | onWay j => exact hfits
    | answered r => exact hfits.imp_left fun ⟨x, hx, hm⟩ => ⟨x, hx, List.mem_append_left _ hm⟩
  · dsimp only
    by_cases hp : p' = p
    · subst hp
      exact ⟨fun _ => List.mem_append_right _ List.mem_cons_self, fun _ => hhas⟩
    · have hid : p'.id ≠ p.id := fun he => hp (hr.eq_of_id hp' hmem he)
      rw [hext.has_iff hid, h.rows p' hp', List.mem_append, List.mem_singleton]
      exact ⟨Or.inl, fun ho => ho.resolve_right fun hc => hp (hr.eq_of_content hp' hmem hc)⟩
  · by_cases hp : p'.id = p.id
    · rw [hp]
      exact hhas
    · rw [List.append_assoc, List.mem_append] at hq'
      rcases hq' with hq' | hq'
      · exact hext.kept _ (h.held q' (List.mem_append_left _ hq') p' hp' hid)
      · rcases List.mem_append.mp hq' with hq' | hq'
        · rw [List.mem_singleton.mp hq'] at hid
          exact absurd (hid.symm.trans hq) hp
        · exact hext.kept _ (h.held q' (List.mem_append_right _ hq') p' hp' hid)

/-- A copy that arrives is a duplicate, or is the next message in order and is accepted, or finds no room. -/
theorem InOrder.arrival {p : Parcel} {i : Inbound} {r : Except Failure Reception} {b' : Node} {now : Moment}
    (hr : Ready a b key ps) (h : InOrder a b key ps done s) (hi : IsCopy a key p i)
    (hp : p ∈ done ∨ (s.a.outbox.laneFor b.self.uri).load.head? = some p) (hlet : Admits s.b i)
    (heq : s.b.takeIn i now = (.settled r, b')) :
    InOrder a b key ps done { s with b := b', accepted := s.accepted ++ acceptedBy i r } ∧
      Fits a key (s.accepted ++ acceptedBy i r) p (.answered r) := by
  have hmem : p ∈ ps := by
    rcases hp with hp | hp
    · exact h.mem_done hp
    · exact h.mem_load (List.mem_of_mem_head? hp)
  obtain ⟨hself, -, -, hdis, hrun, -⟩ := h.receiver.fields
  obtain ⟨hop, ht⟩ := hi.trusted hr h
  obtain ⟨handler, hd, hw⟩ := hr.waits p hmem
  have hheader := hi.1
  have hid : i.header.id = p.id := congrArg Header.id hheader
  have hcontent : (i.header, i.body) = content p := Prod.ext hheader hi.2.2.1
  obtain ⟨resolver, htake⟩ := Node.takeIn_waits h.log (hrun.trans hr.running) ht (by rw [hdis, hheader, hd]) hw
    (by rw [hself, hheader]; exact hr.addressed p hmem) (hlet hop ht) now
  rw [heq, hid] at htake
  rcases htake with ⟨hk, htake⟩ | ⟨hk, l, hext, hhas, htake⟩ | ⟨hk, l, hl, hsame, htake⟩
  · cases htake
    have hacc : s.accepted ++ acceptedBy i (.ok .duplicate) = s.accepted := List.append_nil _
    rw [hacc]
    exact ⟨h.other rfl h.log (fun _ _ => Iff.rfl) h.held, Or.inl ⟨_, rfl, (h.rows p hmem).mp hk⟩⟩
  · cases htake
    obtain ⟨hhead, hacc⟩ := h.unaccepted hp fun hm => hk ((h.rows p hmem).mpr hm)
    have hadded : s.accepted ++ acceptedBy i (.ok .queued) = s.accepted ++ [content p] := by rw [← hcontent]; rfl
    rw [hadded]
    exact ⟨h.accept hr hhead hacc hid hext hhas, Or.inl ⟨_, rfl, List.mem_append_right _ List.mem_cons_self⟩⟩
  · cases htake
    have hacc : s.accepted ++ acceptedBy i (.error .queueFull) = s.accepted := List.append_nil _
    rw [hacc]
    refine ⟨h.other rfl hl (fun q hq => ?_) h.held, Or.inr rfl⟩
    unfold Log.Has
    rw [hsame]

/-! ## What the sender does -/

/-- Whatever the sender does while its lane still has the same to deliver. -/
theorem InOrder.same_load {a' : Node} {call : Option Call} {late : List Inbound} (h : InOrder a b key ps done s)
    (hsteady : s.a.Steady a') (hretry : a'.outbox.retry = s.a.outbox.retry) (htidy : a'.outbox.Tidy)
    (hfresh : (a'.outbox.laneFor b.self.uri).Fresh)
    (hload : (a'.outbox.laneFor b.self.uri).load = (s.a.outbox.laneFor b.self.uri).load)
    (hidle : call = none → (a'.outbox.laneFor b.self.uri).flight = none)
    (hbusy : ∀ c, call = some c → ∃ f, (a'.outbox.laneFor b.self.uri).flight = some f ∧
      Fits a key s.accepted f.entry.parcel c)
    (hlate : ∀ i ∈ late, ∃ p, IsCopy a key p i ∧ (p ∈ done ∨ (s.a.outbox.laneFor b.self.uri).load.head? = some p)) :
    InOrder a b key ps done { s with a := a', call, late } where
  sender := h.sender.trans hsteady
  receiver := h.receiver
  list := h.list
  cut := hload ▸ h.cut
  retry := hretry.trans h.retry
  tidy := htidy
  fresh := hfresh
  log := h.log
  accepted := hload ▸ h.accepted
  idle := hidle
  busy := hbusy
  late := hload ▸ hlate
  rows := h.rows
  held := h.held

theorem InOrder.enqueue {p : Parcel} {rest : List Parcel} {a' : Node} {now : Moment} (h : InOrder a b key ps done s)
    (hrest : s.rest = p :: rest) (heq : s.a.enqueue p s.b.self.uri now = (.ok (), a')) :
    InOrder a b key ps done { s with a := a', rest, sent := s.sent ++ [p] } := by
  obtain ⟨hself, -⟩ := h.receiver.fields
  have ha' := Node.enqueue_ok heq
  have hlane : a'.outbox.laneFor b.self.uri = (s.a.outbox.laneFor b.self.uri).enqueue p now.tick := by
    rw [ha', hself]
    exact (Outbox.laneFor_enqueue h.tidy _ _ p now.tick).trans (if_pos rfl)
  have hload := Lane.load_enqueue (s.a.outbox.laneFor b.self.uri) p now.tick
  obtain ⟨k, hk1, hklen, hacc⟩ := h.accepted
  refine ⟨h.sender.trans (by rw [ha']; rfl), h.receiver, ?_, ?_, ?_, ?_, ?_, h.log, ⟨k, hk1, ?_, ?_⟩, ?_, ?_, ?_, h.rows,
    h.held⟩
  · rw [← h.list, hrest]
    simp
  · dsimp only
    rw [hlane, hload, h.cut, List.append_assoc]
  · rw [ha']
    exact (Outbox.retry_enqueue _ _ _ _).trans h.retry
  · rw [ha']
    exact h.tidy.enqueue _ _ _
  · dsimp only
    rw [hlane]
    exact h.fresh.enqueue p now.tick
  · dsimp only
    rw [hlane, hload, List.length_append]
    omega
  · dsimp only
    rw [hacc, hlane, hload, List.take_append_of_le_length hklen]
  · dsimp only
    rw [hlane]
    exact h.idle
  · dsimp only
    rw [hlane]
    exact h.busy
  · dsimp only
    rw [hlane, hload]
    intro i hi
    obtain ⟨q, hq, hplace⟩ := h.late i hi
    refine ⟨q, hq, hplace.imp_right fun hhead => ?_⟩
    obtain ⟨qs, hqs⟩ := List.head?_eq_some_iff.mp hhead
    rw [hqs]
    rfl

theorem InOrder.depart {lane : Nat} {x : Option Sending} {a' : Node} {now : Moment} (hr : Ready a b key ps)
    (h : InOrder a b key ps done s) (hl : s.a.outbox.laneOf? s.b.self.uri = some lane)
    (heq : s.a.depart lane now = (x, a')) :
    InOrder a b key ps done { s with a := a', call := x.map fun x => .onWay (copyOf s.a x) } := by
  obtain ⟨hbself, -⟩ := h.receiver.fields
  obtain ⟨haself, hasigner, hareg, -⟩ := h.sender.fields
  obtain ⟨target, htarget, hkey⟩ := hr.target
  rw [hbself] at hl
  have hlane : (s.a.outbox.modify lane Lane.depart).laneFor b.self.uri = (s.a.outbox.laneFor b.self.uri).depart :=
    (Outbox.laneFor_modify h.tidy lane Lane.depart b.self.uri).trans (if_pos hl)
  have hload := Lane.load_depart (s.a.outbox.laneFor b.self.uri)
  have htidy := h.tidy.modify lane Lane.uri_depart
  rcases Node.depart_cases h.tidy hl (by rw [hareg]; exact htarget) hkey now with
    ⟨hf, hd⟩ | ⟨f, t, hf, hs, hd⟩
  · rw [heq] at hd
    cases hd
    refine h.same_load rfl rfl htidy (hlane ▸ h.fresh.depart) (hlane ▸ hload) (fun _ => hlane ▸ hf)
      (fun c hc => (by cases hc)) h.late
  · rw [heq] at hd
    cases hd
    refine h.same_load rfl rfl htidy (hlane ▸ h.fresh.depart) (hlane ▸ hload) (fun hc => (by cases hc)) (fun c hc => ?_)
      h.late
    cases hc
    exact ⟨f, hlane ▸ hf, rfl, congrArg Identity.id haself, rfl, hasigner ▸ hs⟩

theorem InOrder.laneFor_land {lane : Nat} (h : InOrder a b key ps done s)
    (hl : s.a.outbox.laneOf? b.self.uri = some lane) (y : Except Failure Unit) (now : Moment) (spread : Float) :
    (s.a.land lane y now spread).outbox.laneFor b.self.uri
      = (s.a.outbox.laneFor b.self.uri).land s.a.outbox.retry (Node.attemptOf y) now.tick spread := by
  rw [Node.land_frame]
  exact (Outbox.laneFor_land h.tidy lane _ _ _ _).trans (if_pos hl)

/-- An attempt that is to be repeated leaves everything as it was, with no attempt being made. -/
theorem InOrder.again {lane : Nat} {late : List Inbound} {y : Except Failure Unit} {now : Moment} {spread : Float}
    {c : Call} (hr : Ready a b key ps) (h : InOrder a b key ps done s) (hc : s.call = some c)
    (hl : s.a.outbox.laneOf? s.b.self.uri = some lane) (hy : Node.attemptOf y = .again)
    (hlate : ∀ i ∈ late, ∃ p, IsCopy a key p i ∧ (p ∈ done ∨ (s.a.outbox.laneFor b.self.uri).load.head? = some p)) :
    InOrder a b key ps done { s with a := s.a.land lane y now spread, call := none, late } := by
  obtain ⟨hbself, -⟩ := h.receiver.fields
  obtain ⟨f, hf, -⟩ := h.busy c hc
  rw [hbself] at hl
  have hland := Node.land_frame s.a lane y now spread
  have hlane := h.laneFor_land hl y now spread
  rw [hy] at hlane
  have hretry : s.a.outbox.retry.maxAttempts = none := by rw [h.retry, hr.unlimited]
  refine h.same_load (by rw [hland]; rfl) (by rw [hland]; rfl) (by rw [hland]; exact h.tidy.land _ _ _ _) ?_ ?_ ?_
    (fun c hc => (by cases hc)) hlate
  · rw [hlane]
    exact h.fresh.land _ _ _ _
  · rw [hlane]
    exact Lane.load_land_again hf _ _ _ hretry h.fresh
  · intro _
    rw [hlane]
    exact Lane.flight_land hf _ _ _ _

/-- The message of an attempt that was answered without failure has left the lane, and is accepted. -/
theorem InOrder.delivered {lane : Nat} {x : Reception} {now : Moment} {spread : Float} (hr : Ready a b key ps)
    (h : InOrder a b key ps done s) (hc : s.call = some (.answered (.ok x)))
    (hl : s.a.outbox.laneOf? s.b.self.uri = some lane) :
    ∃ p, InOrder a b key ps (done ++ [p])
      { s with a := s.a.land lane (Node.seen s.b.self.uri (.ok x)) now spread, call := none } := by
  obtain ⟨hbself, -⟩ := h.receiver.fields
  obtain ⟨f, hf, hfits⟩ := h.busy _ hc
  have haccp : content f.entry.parcel ∈ s.accepted := by
    rcases hfits with ⟨-, -, hm⟩ | he
    · exact hm
    · cases he
  rw [hbself] at hl ⊢
  have hland := Node.land_frame s.a lane (Node.seen b.self.uri (.ok x)) now spread
  have hlane : (s.a.land lane (Node.seen b.self.uri (.ok x)) now spread).outbox.laneFor b.self.uri
      = (s.a.outbox.laneFor b.self.uri).land s.a.outbox.retry .delivered now.tick spread :=
    h.laneFor_land hl (Node.seen b.self.uri (.ok x)) now spread
  have hload := Lane.load_of_flight hf
  have hload' : ((s.a.outbox.laneFor b.self.uri).land s.a.outbox.retry .delivered now.tick spread).load
      = (s.a.outbox.laneFor b.self.uri).waiting.map (·.parcel) :=
    Lane.load_land_done hf _ _ _ (by simp)
  obtain ⟨k, hk1, hklen, hacc⟩ := h.accepted
  have hhead : f.entry.parcel ∈ (s.a.outbox.laneFor b.self.uri).load := by
    rw [hload]
    exact List.mem_cons_self
  have hk : k = 1 := by
    by_cases h0 : k = 0
    · -- then the head of the lane would have left it before
      rw [hacc, h0, List.take_zero, List.append_nil] at haccp
      obtain ⟨q, hq, hqc⟩ := List.mem_map.mp haccp
      have hqp := hr.eq_of_content (h.mem_done hq) (h.mem_load hhead) hqc
      exact absurd (hqp ▸ hq) (h.not_mem_done hr hhead)
    · omega
  refine ⟨f.entry.parcel, h.sender.trans (by rw [hland]; rfl), h.receiver, h.list, ?_, ?_, ?_, ?_, h.log,
    ⟨0, Nat.zero_le 1, Nat.zero_le _, ?_⟩, fun _ => ?_, fun c hc => (by cases hc), fun i hi => ?_, h.rows, h.held⟩
  · dsimp only
    rw [hlane, hload', h.cut, hload]
    simp
  · rw [hland]
    exact h.retry
  · rw [hland]
    exact h.tidy.land _ _ _ _
  · dsimp only
    rw [hlane]
    exact h.fresh.land _ _ _ _
  · dsimp only
    rw [hacc, hk, hload]
    simp
  · dsimp only
    rw [hlane]
    exact Lane.flight_land hf _ _ _ _
  · obtain ⟨q, hq, hplace⟩ := h.late i hi
    refine ⟨q, hq, Or.inl (List.mem_append.mpr (hplace.imp_right fun hhq => ?_))⟩
    rw [hload] at hhq
    exact List.mem_singleton.mpr (Option.some.inj hhq).symm

/-! ## Whole runs -/

theorem InOrder.mem_ids (h : InOrder a b key ps done s) {p : Parcel} (hp : p ∈ ps) : p.id ∈ s.ids := by
  unfold State.ids
  rw [h.list]
  exact List.mem_map_of_mem hp

theorem InOrder.work {fresh : String} {w : Node.Work} {b' : Node} {now : Moment} (h : InOrder a b key ps done s)
    (hfresh : fresh ∉ s.ids) (heq : s.b.work fresh now = (w, b')) :
    InOrder a b key ps done { s with b := b', jobs := w.job ++ s.jobs } := by
  rcases Node.work_cases h.log fresh now with ⟨-, hw⟩ | ⟨p, rest, hinbox, hw | ⟨n', hw, hg⟩⟩
  · rw [heq] at hw
    cases hw
    exact h.other rfl h.log (fun _ _ => Iff.rfl) h.held
  · rw [heq] at hw
    cases hw
    refine h.other rfl h.log (fun _ _ => Iff.rfl) fun q hq => h.held q ?_
    rw [hinbox]
    simp only [Node.Work.job, List.mem_append, List.mem_cons, List.not_mem_nil, or_false] at hq ⊢
    rcases hq with hq | hq | hq
    · exact Or.inl (Or.inr hq)
    · exact Or.inl (Or.inl hq)
    · exact Or.inr hq
  · rw [heq] at hw
    cases hw
    refine h.grown hg (fun q hq hid => ?_) fun q hq => ?_
    · rcases hid with hid | hid
      · exact h.held p (by rw [hinbox]; exact List.mem_append_left _ List.mem_cons_self) q hq hid.symm
      · exact absurd (hid ▸ h.mem_ids hq) hfresh
    · rw [hinbox]
      exact List.mem_cons_of_mem _ hq

/-- Every step keeps the invariant, with the cut where it is or one message further. -/
theorem Step.inOrder (hstep : Step s t) (hr : Ready a b key ps) (h : InOrder a b key ps done s) :
    ∃ done', InOrder a b key ps done' t := by
  cases hstep with
  | enqueue now hrest heq => exact ⟨done, h.enqueue hrest heq⟩
  | depart now hc hl heq => exact ⟨done, h.depart hr hl heq⟩
  | arrive now hc hlet heq =>
    obtain ⟨f, hf, hcopy⟩ := h.busy _ hc
    have hhead : (s.a.outbox.laneFor b.self.uri).load.head? = some f.entry.parcel := by
      rw [Lane.load_of_flight hf]
      rfl
    obtain ⟨hnext, hfits⟩ := h.arrival hr hcopy (Or.inr hhead) hlet heq
    refine ⟨done, hnext.same_load rfl rfl hnext.tidy hnext.fresh rfl (fun hc => (by cases hc)) (fun c hc => ?_) hnext.late⟩
    cases hc
    exact ⟨f, hf, hfits⟩
  | arriveLate now hi hlet heq =>
    obtain ⟨p, hcopy, hp⟩ := h.late _ hi
    have hnext := (h.arrival hr hcopy hp hlet heq).1
    exact ⟨done, hnext.same_load rfl rfl hnext.tidy hnext.fresh rfl hnext.idle hnext.busy fun i hi =>
      hnext.late i (List.mem_of_mem_erase hi)⟩
  | @land lane r now spread hc hl =>
    cases r with
    | ok x =>
      obtain ⟨p, hnext⟩ := h.delivered hr hc hl
      exact ⟨done ++ [p], hnext⟩
    | error f =>
      obtain ⟨g, hg, ⟨x, hx, -⟩ | hfull⟩ := h.busy _ hc
      · cases hx
      · cases hfull
        exact ⟨done, h.again hr hc hl (Node.attemptOf_queueFull _) h.late⟩
  | @giveUp lane c f now spread hc hl hf =>
    refine ⟨done, h.again hr hc hl (Node.attemptOf_again hf) fun i hi => ?_⟩
    rcases List.mem_append.mp hi with hi | hi
    · obtain ⟨g, hg, hfits⟩ := h.busy _ hc
      cases c with
      | onWay j =>
        rw [List.mem_singleton.mp hi]
        refine ⟨g.entry.parcel, hfits, Or.inr ?_⟩
        rw [Lane.load_of_flight hg]
        rfl
      | answered r => cases hi
    · exact h.late i hi
  | work now hf heq => exact ⟨done, h.work hf heq⟩
  | @finishWork p hp x now =>
    have hg : Node.Grown { s.b with inbox := s.b.inbox } (· = p.id) (s.b.finishWork p x now) :=
      Node.grown_finishWork h.log p x now
    refine ⟨done, h.grown hg (fun q hq hid => ?_) fun q hq => ?_⟩
    · exact h.held p (List.mem_append_right _ hp) q hq hid.symm
    · exact List.mem_append.mpr ((List.mem_append.mp hq).imp_right List.mem_of_mem_erase)
  | @visit i now hi =>
    refine ⟨done, h.touched (Node.touched_takeIn h.log i now) fun p hp he => hi ?_⟩
    rw [← he]
    exact h.mem_ids hp
  | @conclude p x now hp =>
    refine ⟨done, h.touched (Node.touched_conclude h.log p x now) fun q hq he => hp ?_⟩
    rw [← he]
    exact h.mem_ids hq

theorem Reachable.inOrder (h : Reachable a b ps s) (hr : Ready a b key ps) : ∃ done, InOrder a b key ps done s := by
  induction h with
  | start => exact ⟨[], hr.inOrder⟩
  | next _ hstep ih =>
    obtain ⟨done, hd⟩ := ih
    exact hstep.inOrder hr hd

/-- Whatever is lost, the receiver has accepted the messages in the order of sending and each one once; and when the
sender has nothing left for it and makes no attempt, it has accepted them all. -/
theorem accepted_in_order (h : Reachable a b ps s) (hr : Ready a b key ps) :
    s.accepted <+: s.sent.map content ∧ (s.accepted.map (·.1.id)).Nodup ∧
      (s.a.outbox.depth s.b.self.uri = 0 → s.call = none → s.accepted = s.sent.map content) := by
  obtain ⟨done, hinv⟩ := h.inOrder hr
  obtain ⟨k, -, -, hacc⟩ := hinv.accepted
  have hinitial : s.accepted <+: s.sent.map content := by
    rw [hacc, hinv.cut]
    exact List.IsPrefix.map _ ((List.prefix_append_right_inj done).mpr (List.take_prefix k _))
  refine ⟨hinitial, ?_, fun hdepth hidle => ?_⟩
  · have hids : (s.sent.map content).map (fun c => c.1.id) = s.sent.map Parcel.id := by
      rw [List.map_map]
      rfl
    have hnodup : (s.sent.map Parcel.id).Nodup := by
      have hall := hr.ids
      rw [← hinv.list, List.map_append] at hall
      exact (List.nodup_append.mp hall).1
    exact ((hinitial.map fun c => c.1.id).sublist).nodup (hids ▸ hnodup)
  · have hflight := hinv.idle hidle
    have hempty : (s.a.outbox.laneFor b.self.uri).load = [] := by
      rw [hinv.receiver.fields.1] at hdepth
      unfold Outbox.depth at hdepth
      unfold Outbox.laneFor at hflight ⊢
      cases hl : s.a.outbox.laneOf? b.self.uri with
      | none => rfl
      | some i =>
        rw [hl] at hdepth hflight
        have hwait : (s.a.outbox.lane i).waiting = [] := List.length_eq_zero_iff.mp hdepth
        dsimp only at hflight ⊢
        rw [Lane.load, hflight, hwait]
        rfl
    rw [hacc, hinv.cut, hempty]
    simp

/-- A node in memory that is registered with another one. -/
def linked (self peer : Identity) : Node :=
  .knowing self ⟨peer.id, peer.name, peer.uri, .registered, some "k", ∅⟩ "note" (.application false)

/-- A message of which the first answer is lost is sent twice and accepted once. -/
theorem accepted_in_order_after_loss : ∃ s,
    Reachable (linked ⟨"i", "", "u"⟩ ⟨"j", "", "v"⟩) (linked ⟨"j", "", "v"⟩ ⟨"i", "", "u"⟩)
      [⟨.new "1" "note" "u" .epoch, none, []⟩] s ∧
      s.a.outbox.reports.map (·.attempts) = [2] ∧ s.accepted = s.sent.map content ∧ s.sent.length = 1 := by
  have hready : Ready (linked ⟨"i", "", "u"⟩ ⟨"j", "", "v"⟩) (linked ⟨"j", "", "v"⟩ ⟨"i", "", "u"⟩) "k"
      [⟨.new "1" "note" "u" .epoch, none, []⟩] := by
    refine ⟨rfl, ⟨_, rfl, rfl⟩, ⟨_, rfl, rfl⟩, rfl, rfl, Outbox.tidy_new _, rfl, Log.reliable_inMemory, by simp, ?_, ?_, ?_⟩
    · intro p hp
      rw [List.mem_singleton.mp hp]
      exact ⟨fun hk => (by cases hk), fun q hq => (by cases hq)⟩
    · intro p hp
      rw [List.mem_singleton.mp hp]
      rfl
    · intro p hp
      rw [List.mem_singleton.mp hp]
      exact ⟨.application false, rfl, rfl⟩
  have begun : Reachable (linked ⟨"i", "", "u"⟩ ⟨"j", "", "v"⟩) (linked ⟨"j", "", "v"⟩ ⟨"i", "", "u"⟩)
    [⟨.new "1" "note" "u" .epoch, none, []⟩] _ := .start
  have queued := begun.next (.enqueue _ ⟨0, .epoch⟩ rfl rfl)
  have arrived := (queued.next (.depart _ ⟨0, .epoch⟩ rfl rfl rfl)).next
    (.arrive _ ⟨0, .epoch⟩ rfl (fun _ _ => rfl) rfl)
  have lost := arrived.next (.giveUp (f := .io) _ ⟨0, .epoch⟩ 1.0 rfl rfl rfl)
  have arrivedAgain := (lost.next (.depart _ ⟨0, .epoch⟩ rfl rfl rfl)).next
    (.arrive _ ⟨0, .epoch⟩ rfl (fun _ _ => rfl) rfl)
  have landed := arrivedAgain.next (.land _ ⟨0, .epoch⟩ 1.0 rfl rfl)
  exact ⟨_, landed, rfl, (accepted_in_order landed hready).2.2 rfl rfl, rfl⟩

end ContentMesh.Link
