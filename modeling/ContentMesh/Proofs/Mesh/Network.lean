import Mathlib.Logic.Function.Basic
import ContentMesh.Proofs.Node.Delivering
import ContentMesh.Proofs.Node.Receiving

/-!
# ContentMesh.Proofs.Mesh.Network — many nodes and what is under way between them

Any number of nodes that send, receive and work in any order.  An attempt to deliver is a call of the peer: its copy
is on the way, an application has it in hand there, or it was answered.  The sender may give a call up at any time,
and takes its answer only while it waits for it.

`Orderly` is what holds of every run: nodes keep their identity and their peers, lanes stay in order, and each call
that is waited for belongs to the flight of its own lane.
-/

namespace ContentMesh.Network

/-! ## Runs -/

/-- How far a call has come; `handling` names the node at which an application has the message in hand. -/
inductive Stage (ι : Type) where
  | onWay
  | handling (v : ι) (p : Parcel)
  | answered (r : Except Failure Reception)

/-- An attempt of `sender` to deliver to the node at `uri`. -/
structure Call (ι : Type) where
  sender : ι
  lane : Nat
  uri : String
  inbound : Inbound
  awaited : Bool
  stage : Stage ι

/-- Nodes, the calls between them, what workers have in hand, and which node handled which message. -/
structure State (ι : Type) where
  node : ι → Node
  calls : List (Call ι)
  jobs : List (ι × Parcel)
  handled : List (ι × String)

variable {ι : Type} [DecidableEq ι]

/-- The network with one node changed. -/
def State.put (s : State ι) (v : ι) (n : Node) : State ι := { s with node := Function.update s.node v n }

/-- The call that a sending begins. -/
def callOf (n : Node) (u : ι) (lane : Nat) (x : Sending) : Call ι :=
  ⟨u, lane, x.target.uri, ⟨x.parcel.header, n.self.id, x.parcel.body, x.signature⟩, true, .onWay⟩

/-- How far a call has come after its message was taken in at `v`. -/
def stageOf (v : ι) : Admission → Stage ι
  | .settled r => .answered r
  | .handling p => .handling v p

/-- What a handler's result adds to what was handled. -/
def handledBy (v : ι) (p : Parcel) : Except Failure Decision → List (ι × String)
  | .ok _ => [(v, p.id)]
  | .error _ => []

/-- What happens in a network in which every application handles the message `m` and decides to hand it on to all.
A `visit` is a message from outside. -/
inductive Step (m : String) : State ι → State ι → Prop where
  | depart (s : State ι) (u : ι) {lane : Nat} {x : Option Sending} {n : Node} (now : Moment)
      (hfree : ∀ c ∈ s.calls, c.awaited = true → ¬ (c.sender = u ∧ c.lane = lane))
      (h : (s.node u).depart lane now = (x, n)) :
      Step m s { s.put u n with calls := (x.map (callOf (s.node u) u lane)).toList ++ s.calls }
  | arrive (s : State ι) (v : ι) {c : Call ι} {rest : List (Call ι)} {a : Admission} {n : Node} (now : Moment)
      (hc : s.calls.Perm (c :: rest)) (hs : c.stage = .onWay) (hv : (s.node v).self.uri = c.uri)
      (h : (s.node v).takeIn c.inbound now = (a, n)) :
      Step m s { s.put v n with calls := { c with stage := stageOf v a } :: rest }
  | conclude (s : State ι) {v : ι} {p : Parcel} {c : Call ι} {rest : List (Call ι)} {x : Except Failure Decision}
      {r : Except Failure Reception} {n : Node} (now : Moment)
      (hc : s.calls.Perm (c :: rest)) (hs : c.stage = .handling v p) (hx : p.id = m → x = .ok .all)
      (h : (s.node v).conclude p x now = (r, n)) :
      Step m s { s.put v n with
        calls := { c with stage := .answered r } :: rest, handled := handledBy v p x ++ s.handled }
  | land (s : State ι) {c : Call ι} {rest : List (Call ι)} {r : Except Failure Reception} (now : Moment)
      (spread : Float) (hc : s.calls.Perm (c :: rest)) (ha : c.awaited = true) (hs : c.stage = .answered r) :
      Step m s { s.put c.sender ((s.node c.sender).land c.lane (Node.seen c.uri r) now spread) with calls := rest }
  | giveUp (s : State ι) {c : Call ι} {rest : List (Call ι)} {f : Failure} (now : Moment) (spread : Float)
      (hc : s.calls.Perm (c :: rest)) (ha : c.awaited = true) (hf : f.retryable = true) :
      Step m s { s.put c.sender ((s.node c.sender).land c.lane (.error f) now spread) with
        calls := { c with awaited := false } :: rest }
  | work (s : State ι) (v : ι) {fresh : String} {w : Node.Work} {n : Node} (now : Moment) (hf : fresh ≠ m)
      (h : (s.node v).work fresh now = (w, n)) :
      Step m s { s.put v n with jobs := w.job.map (v, ·) ++ s.jobs }
  | finishWork (s : State ι) {v : ι} {p : Parcel} {rest : List (ι × Parcel)} {x : Except Failure Decision} (now : Moment)
      (hp : s.jobs.Perm ((v, p) :: rest)) (hx : p.id = m → x = .ok .all) :
      Step m s { s.put v ((s.node v).finishWork p x now) with jobs := rest, handled := handledBy v p x ++ s.handled }
  | visit (s : State ι) (v : ι) {i : Inbound} (now : Moment) (hi : i.header.id ≠ m) :
      Step m s (s.put v ((s.node v).takeIn i now).2)

variable {s t : State ι} {m : String}

theorem put_self (s : State ι) (v : ι) (n : Node) : (s.put v n).node v = n := Function.update_self _ _ _

theorem put_other (s : State ι) {v w : ι} (h : w ≠ v) (n : Node) : (s.put v n).node w = s.node w :=
  Function.update_of_ne h _ _

theorem forall_put {P : ι → Node → Prop} {v : ι} {n : Node} (hv : P v n) (hw : ∀ w, w ≠ v → P w (s.node w)) (w : ι) :
    P w ((s.put v n).node w) := by
  by_cases h : w = v
  · rw [h, put_self]
    exact hv
  · rw [put_other s h]
    exact hw w h

/-! ## One node -/

/-- What a node keeps, and the order of its lanes and its log. -/
structure InShape (n₀ n : Node) : Prop where
  steady : n₀.Steady n
  retry : n.outbox.retry = n₀.outbox.retry
  closed : n.outbox.closed = n₀.outbox.closed
  tidy : n.outbox.Tidy
  fresh : ∀ uri, (n.outbox.laneFor uri).Fresh
  log : n.log.Reliable

variable {n₀ n n' : Node} {ids : String → Prop}

/-- What is added to the lanes are parcels with the ids. -/
theorem touched_adds (ht : n.outbox.Tidy) (h : n.Touched ids n') :
    ∃ new : String → Parcel → Prop, n.outbox.Adds new n'.outbox ∧ ∀ uri p, new uri p → ids p.id := by
  obtain ⟨copies, hids, ho⟩ := h.outbox
  refine ⟨_, ho ▸ Outbox.adds_foldl ht copies, ?_⟩
  rintro uri p ⟨c, hc, -, rfl⟩
  exact hids c hc

theorem InShape.touched (h : InShape n₀ n) (ht : n.Touched ids n') : InShape n₀ n' := by
  obtain ⟨new, hadds, -⟩ := touched_adds h.tidy ht
  exact ⟨h.steady.trans ht.steady, hadds.retry.trans h.retry, hadds.closed.trans h.closed, hadds.tidy,
    hadds.fresh h.fresh, ht.reliable⟩

theorem InShape.of_outbox {o : Outbox} {l : Log} (h : InShape n₀ n) (hl : l.Reliable) (ho : o.Tidy)
    (hr : o.retry = n.outbox.retry) (hc : o.closed = n.outbox.closed) (hf : ∀ uri, (o.laneFor uri).Fresh) :
    InShape n₀ { n with log := l, outbox := o } :=
  ⟨h.steady.trans rfl, hr.trans h.retry, hc.trans h.closed, ho, hf, hl⟩

theorem fresh_modify {o : Outbox} (ht : o.Tidy) (hf : ∀ uri, (o.laneFor uri).Fresh) (i : Nat) {f : Lane → Lane}
    (h : ∀ l, l.Fresh → (f l).Fresh) (uri : String) : ((o.modify i f).laneFor uri).Fresh := by
  rw [Outbox.laneFor_modify ht]
  split
  · exact h _ (hf uri)
  · exact hf uri

theorem InShape.land (h : InShape n₀ n) (lane : Nat) (x : Except Failure Unit) (now : Moment) (spread : Float) :
    InShape n₀ (n.land lane x now spread) := by
  obtain ⟨l, hl, -, heq⟩ := Node.land_eq h.log lane x now spread
  rw [heq]
  refine h.of_outbox hl (h.tidy.land _ _ _ _) rfl rfl fun uri => ?_
  exact fresh_modify h.tidy h.fresh lane (fun l hl => hl.land n.outbox.retry (Node.attemptOf x) now.tick spread) uri

theorem InShape.depart (h : InShape n₀ n) (lane : Nat) (now : Moment) : InShape n₀ (n.depart lane now).2 := by
  have htidy : (n.outbox.modify lane Lane.depart).Tidy := h.tidy.modify lane Lane.uri_depart
  have hfresh := fresh_modify h.tidy h.fresh lane fun l hl => hl.depart
  have hgone : InShape n₀ { n with outbox := n.outbox.modify lane Lane.depart } := h.of_outbox h.log htidy rfl rfl hfresh
  rcases Node.depart_outcomes n lane now with ⟨-, heq⟩ | ⟨f, target, t, -, -, -, heq⟩ | ⟨f, -, -, heq⟩
  · rw [heq]
    exact hgone
  · rw [heq]
    exact hgone
  · rw [heq]
    refine h.of_outbox h.log (htidy.land _ _ _ _) rfl rfl fun uri => ?_
    exact fresh_modify htidy hfresh lane (fun l hl => hl.land n.outbox.retry .dropped now.tick 1.0) uri

/-! ## The order of a run -/

/-- The call belongs to the flight of its lane. -/
def Flying (s : State ι) (c : Call ι) : Prop :=
  ∃ f, ((s.node c.sender).outbox.lane c.lane).flight = some f ∧ f.entry.parcel.header = c.inbound.header ∧
    ((s.node c.sender).outbox.lane c.lane).uri = c.uri

/-- Two calls are not waited for on one lane. -/
def Apart (c d : Call ι) : Prop := c.awaited = true → d.awaited = true → ¬ (c.sender = d.sender ∧ c.lane = d.lane)

omit [DecidableEq ι] in
theorem Apart.symm {c d : Call ι} (h : Apart c d) : Apart d c := fun hd hc he => h hc hd ⟨he.1.symm, he.2.symm⟩

/-- What holds of every run that began with the nodes `node`. -/
structure Orderly (node : ι → Node) (s : State ι) : Prop where
  shape : ∀ v, InShape (node v) (s.node v)
  flying : ∀ c ∈ s.calls, c.awaited = true → Flying s c
  apart : s.calls.Pairwise Apart
  handed : ∀ c ∈ s.calls, ∀ v p, c.stage = .handling v p → p.header = c.inbound.header

variable {node : ι → Node}

omit [DecidableEq ι] in
theorem orderly_at_rest (hl : ∀ v, (node v).log.Reliable) (ho : ∀ v, ∃ retry, (node v).outbox = .new retry) :
    Orderly node ⟨node, [], [], []⟩ := by
  refine ⟨fun v => ?_, fun c hc => (by cases hc), .nil, fun c hc => (by cases hc)⟩
  obtain ⟨retry, hnew⟩ := ho v
  refine ⟨.refl _, rfl, rfl, ?_, fun uri => ?_, hl v⟩
  · show (node v).outbox.Tidy
    rw [hnew]
    exact Outbox.tidy_new retry
  · show ((node v).outbox.laneFor uri).Fresh
    rw [hnew]
    exact Lane.fresh_new uri

/-- A change of one node that ends no flight of a call that is waited for. -/
theorem Orderly.put {v : ι} (h : Orderly node s) (hn : InShape (node v) n)
    (hf : ∀ c ∈ s.calls, c.awaited = true → c.sender = v → ∀ f,
      ((s.node v).outbox.lane c.lane).flight = some f → (n.outbox.lane c.lane).flight = some f ∧
        (n.outbox.lane c.lane).uri = ((s.node v).outbox.lane c.lane).uri) :
    Orderly node (s.put v n) := by
  refine ⟨forall_put hn fun w _ => h.shape w, fun c hc ha => ?_, h.apart, h.handed⟩
  obtain ⟨f, hflight, hheader, huri⟩ := h.flying c hc ha
  unfold Flying
  by_cases hv : c.sender = v
  · rw [hv] at hflight huri
    obtain ⟨h1, h2⟩ := hf c hc ha hv f hflight
    rw [hv, put_self]
    exact ⟨f, h1, hheader, h2.trans huri⟩
  · rw [put_other s hv]
    exact ⟨f, hflight, hheader, huri⟩

/-- A change of one node that only adds to its lanes, whatever becomes of its inbox. -/
theorem Orderly.touched {v : ι} {inbox : List Parcel} (h : Orderly node s) (ht : { s.node v with inbox }.Touched ids n) :
    Orderly node (s.put v n) := by
  have hv := h.shape v
  have hbase : InShape (node v) { s.node v with inbox } :=
    ⟨hv.steady.trans rfl, hv.retry, hv.closed, hv.tidy, hv.fresh, hv.log⟩
  obtain ⟨new, hadds, -⟩ := touched_adds hbase.tidy ht
  exact h.put (hbase.touched ht) fun c _ _ _ f hf => hadds.flight c.lane f hf

omit [DecidableEq ι] in
/-- One call goes on to another stage, or is no longer waited for. -/
theorem Orderly.renew {c c' : Call ι} {rest : List (Call ι)} (h : Orderly node s) (hc : s.calls.Perm (c :: rest))
    (hsame : c'.sender = c.sender ∧ c'.lane = c.lane ∧ c'.uri = c.uri ∧ c'.inbound = c.inbound)
    (ha : c'.awaited = true → c.awaited = true)
    (hs : ∀ v p, c'.stage = .handling v p → p.header = c.inbound.header) :
    Orderly node { s with calls := c' :: rest } := by
  obtain ⟨hsender, hlane, huri, hinbound⟩ := hsame
  have hmem : ∀ d ∈ c :: rest, d ∈ s.calls := fun d hd => hc.mem_iff.mpr hd
  have hapart := List.pairwise_cons.mp ((hc.pairwise_iff Apart.symm).mp h.apart)
  refine ⟨h.shape, fun d hd hda => ?_, List.pairwise_cons.mpr ⟨fun d hd ha' hda he => ?_, hapart.2⟩, fun d hd v p hp => ?_⟩
  · rcases List.mem_cons.mp hd with rfl | hd
    · unfold Flying
      rw [hsender, hlane, huri, hinbound]
      exact h.flying c (hmem c List.mem_cons_self) (ha hda)
    · exact h.flying d (hmem d (List.mem_cons_of_mem _ hd)) hda
  · rw [hsender, hlane] at he
    exact hapart.1 d hd (ha ha') hda he
  · rcases List.mem_cons.mp hd with rfl | hd
    · rw [hinbound]
      exact hs v p hp
    · exact h.handed d (hmem d (List.mem_cons_of_mem _ hd)) v p hp

omit [DecidableEq ι] in
theorem Orderly.without {c : Call ι} {rest : List (Call ι)} (h : Orderly node s) (hc : s.calls.Perm (c :: rest)) :
    Orderly node { s with calls := rest } ∧ ∀ d ∈ rest, Apart c d := by
  have hmem : ∀ d ∈ rest, d ∈ s.calls := fun d hd => hc.mem_iff.mpr (List.mem_cons_of_mem _ hd)
  have hapart := List.pairwise_cons.mp ((hc.pairwise_iff Apart.symm).mp h.apart)
  exact ⟨⟨h.shape, fun d hd => h.flying d (hmem d hd), hapart.2, fun d hd => h.handed d (hmem d hd)⟩, hapart.1⟩

/-- The end of the flight of a call leaves the calls on other lanes alone. -/
theorem Orderly.landed {u : ι} {lane : Nat} (h : Orderly node s)
    (hfree : ∀ c ∈ s.calls, c.awaited = true → ¬ (c.sender = u ∧ c.lane = lane)) (x : Except Failure Unit) (now : Moment)
    (spread : Float) : Orderly node (s.put u ((s.node u).land lane x now spread)) := by
  refine h.put ((h.shape u).land _ _ _ _) fun c hc ha hu f hf => ?_
  have hlane : lane ≠ c.lane := fun he => hfree c hc ha ⟨hu, he.symm⟩
  rw [Node.land_frame, Outbox.lane_land, if_neg hlane]
  exact ⟨hf, rfl⟩

theorem Orderly.depart {u : ι} {lane : Nat} {x : Option Sending} {now : Moment} (h : Orderly node s)
    (hstored : ∀ k p, (node u).registry.registered? k = some p → p.uri = k)
    (hfree : ∀ c ∈ s.calls, c.awaited = true → ¬ (c.sender = u ∧ c.lane = lane))
    (heq : (s.node u).depart lane now = (x, n)) :
    Orderly node { s.put u n with calls := (x.map (callOf (s.node u) u lane)).toList ++ s.calls } := by
  have hshape := (h.shape u).depart lane now
  have hothers : ∀ c ∈ s.calls, c.awaited = true → c.sender = u → lane ≠ c.lane :=
    fun c hc ha hu he => hfree c hc ha ⟨hu, he.symm⟩
  have hgone : Orderly node (s.put u { s.node u with outbox := (s.node u).outbox.modify lane Lane.depart }) := by
    have hn : InShape (node u) { s.node u with outbox := (s.node u).outbox.modify lane Lane.depart } :=
      (h.shape u).of_outbox (h.shape u).log ((h.shape u).tidy.modify lane Lane.uri_depart) rfl rfl
        (fresh_modify (h.shape u).tidy (h.shape u).fresh lane fun l hl => hl.depart)
    refine h.put hn fun c hc ha hu f hf => ?_
    rw [Outbox.lane_depart, if_neg (hothers c hc ha hu)]
    exact ⟨hf, rfl⟩
  rcases Node.depart_outcomes (s.node u) lane now with ⟨-, hd⟩ | ⟨f, target, t, hf, hr, -, hd⟩ | ⟨f, -, -, hd⟩
  · rw [heq] at hd
    cases hd
    exact hgone
  · rw [heq] at hd
    cases hd
    have huri : target.uri = ((s.node u).outbox.lane lane).uri := by
      rw [(h.shape u).steady.fields.2.2.1] at hr
      exact hstored _ target hr
    refine ⟨hgone.shape, fun c hc ha => ?_, List.pairwise_cons.mpr ⟨fun c hc _ ha he => ?_, h.apart⟩, fun c hc v p hp => ?_⟩
    · rcases List.mem_cons.mp hc with rfl | hc
      · -- the new call belongs to the flight that just departed
        refine ⟨f, ?_, rfl, ?_⟩
        · show ((s.put u _).node u |>.outbox.lane lane).flight = some f
          rw [put_self, Outbox.lane_depart, if_pos rfl]
          exact hf
        · show ((s.put u _).node u |>.outbox.lane lane).uri = target.uri
          rw [put_self, Outbox.lane_depart, if_pos rfl, Lane.uri_depart, huri]
      · exact hgone.flying c hc ha
    · exact hfree c hc ha ⟨he.1.symm, he.2.symm⟩
    · rcases List.mem_cons.mp hc with rfl | hc
      · cases hp
      · exact h.handed c hc v p hp
  · rw [heq] at hd hshape
    cases hd
    refine h.put hshape fun c hc ha hu f hf => ?_
    rw [Outbox.lane_land, if_neg (hothers c hc ha hu), Outbox.lane_depart, if_neg (hothers c hc ha hu)]
    exact ⟨hf, rfl⟩

/-- Every step keeps the order. -/
theorem Step.orderly (hstep : Step m s t) (hstored : ∀ v k p, (node v).registry.registered? k = some p → p.uri = k)
    (h : Orderly node s) : Orderly node t := by
  cases hstep with
  | depart u now hfree heq => exact h.depart (hstored u) hfree heq
  | @arrive v c rest a n now hc hs hv heq =>
    have htouched := Node.touched_takeIn (h.shape v).log c.inbound now
    have hleaves := Node.takeIn_leaves (h.shape v).log c.inbound now
    rw [heq] at htouched hleaves
    refine (h.touched htouched).renew hc ⟨rfl, rfl, rfl, rfl⟩ id fun w p hw => ?_
    cases a with
    | settled r => cases hw
    | handling q =>
      cases hw
      exact hleaves.1
  | @conclude v p c rest x r n now hc hs hx heq =>
    have htouched := Node.touched_conclude (h.shape v).log p x now
    rw [heq] at htouched
    have hnext : Orderly node { s.put v n with calls := { c with stage := .answered r } :: rest } :=
      (h.touched htouched).renew hc ⟨rfl, rfl, rfl, rfl⟩ id fun w p hw => (by cases hw)
    exact ⟨hnext.shape, hnext.flying, hnext.apart, hnext.handed⟩
  | @land c rest r now spread hc ha hs =>
    obtain ⟨hrest, hapart⟩ := h.without hc
    exact hrest.landed (fun d hd hda he => hapart d hd ha hda ⟨he.1.symm, he.2.symm⟩) (Node.seen c.uri r) now spread
  | @giveUp c rest f now spread hc ha hf =>
    obtain ⟨-, hapart⟩ := h.without hc
    have hrenewed : Orderly node { s with calls := { c with awaited := false } :: rest } :=
      h.renew hc ⟨rfl, rfl, rfl, rfl⟩ (fun hfalse => (by cases hfalse)) (h.handed c (hc.mem_iff.mpr List.mem_cons_self))
    refine hrenewed.landed (fun d hd hda he => ?_) (.error f) now spread
    rcases List.mem_cons.mp hd with rfl | hd
    · cases hda
    · exact hapart d hd ha hda ⟨he.1.symm, he.2.symm⟩
  | @work v fresh w n now hf heq =>
    have hlog := (h.shape v).log
    have hn : Orderly node (s.put v n) := by
      rcases Node.work_cases hlog fresh now with ⟨-, hw⟩ | ⟨p, rest, -, hw | ⟨n', hw, hg⟩⟩
      · rw [heq] at hw
        cases hw
        exact h.touched (Node.Grown.refl hlog : (s.node v).Grown (fun _ => True) _).touched
      · rw [heq] at hw
        cases hw
        exact h.touched (Node.Grown.refl hlog : Node.Grown _ (fun _ => True) { s.node v with inbox := rest }).touched
      · rw [heq] at hw
        cases hw
        exact h.touched hg.touched
    exact ⟨hn.shape, hn.flying, hn.apart, hn.handed⟩
  | @finishWork v p rest x now hp hx =>
    have hnext := h.touched (Node.grown_finishWork (h.shape v).log p x now).touched
    exact ⟨hnext.shape, hnext.flying, hnext.apart, hnext.handed⟩
  | @visit v i now hi => exact h.touched (Node.touched_takeIn (h.shape v).log i now)

end ContentMesh.Network
