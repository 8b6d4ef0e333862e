import Mathlib.Logic.Relation
import ContentMesh.Proofs.Mesh.Copies
import ContentMesh.Proofs.Mesh.Links

/-!
# ContentMesh.Proofs.Mesh.Flooding — a message for all reaches everyone exactly once

One node sends a message for all, and every node hands it on after handling it.  Copies come to a node over several
links, attempts are repeated, peers have no room at times; still each node handles the message once at most, and when
no copy is left, the nodes that have handled it are those connected to the source.

The invariant (`Floods`) counts: a node that has a row of the message has one copy in its hands, or has handled it
once.  A node that is done has told its links: each has a row, or a copy for it is still in the lane.
-/

namespace ContentMesh.Network

variable {ι : Type} [DecidableEq ι]

variable {s t : State ι} {m : String} {u v w : ι} {n : Node}

/-! ## The invariant -/

/-- The message of a call: it goes over a link to `v` and is trusted there, its sender has a row of it, and where it was
answered, `v` has one too unless it had no room. -/
structure Carries (node : ι → Node) (h : Header) (s : State ι) (c : Call ι) (v : ι) : Prop where
  header : c.inbound.header = h
  uri : c.uri = (node v).self.uri
  linked : Linked node c.sender v
  trusted : ∃ hop, hop.uri = (node c.sender).self.uri ∧ (node v).Trusted c.inbound hop
  sent : s.Knows h.id c.sender
  place : ∀ w p, c.stage = .handling w p → w = v
  taken : ∀ r, c.stage = .answered r → s.Knows h.id v ∨ r = .error .queueFull

/-- How far a message has come that `x` sent to all. -/
structure Floods (node : ι → Node) (x : ι) (h : Header) (s : State ι) : Prop where
  source : s.Knows h.id x
  joined : ∀ v, s.Knows h.id v → Relation.ReflTransGen (Linked node) x v
  queued : ∀ v p, (s.node v).Queues p → p.id = h.id → p.header = h ∧ s.Knows h.id v
  calls : ∀ c ∈ s.calls, c.inbound.header.id = h.id → ∃ v, Carries node h s c v
  pending : ∀ v, ∀ p ∈ s.pending h.id v, p.header = h ∧
    ∃ u, p.hop = some (node u).self.uri ∧ Linked node v u ∧ s.Knows h.id u
  once : ∀ v, v ≠ x → s.Knows h.id v → (s.pending h.id v).length + s.times h.id v = 1
  never : ∀ v, v = x ∨ ¬ s.Knows h.id v → s.pending h.id v = [] ∧ s.times h.id v = 0
  spread : ∀ u v, Linked node u v → u = x ∨ 0 < s.times h.id u →
    s.Knows h.id v ∨ (s.node u).Owes h.id (node v).self.uri

variable {node : ι → Node} {x : ι} {h : Header}

omit [DecidableEq ι] in
theorem Carries.mono {c : Call ι} (hc : Carries node h s c v) (hk : ∀ w, s.Knows h.id w → t.Knows h.id w) :
    Carries node h t c v where
  header := hc.header
  uri := hc.uri
  linked := hc.linked
  trusted := hc.trusted
  sent := hk _ hc.sent
  place := hc.place
  taken r hr := (hc.taken r hr).imp_left (hk v)

omit [DecidableEq ι] in
/-- A call that goes on at `v`, or is no longer waited for. -/
theorem Carries.renew {c c' : Call ι} (hc : Carries node h s c v)
    (hsame : c'.sender = c.sender ∧ c'.uri = c.uri ∧ c'.inbound = c.inbound)
    (hplace : ∀ w p, c'.stage = .handling w p → w = v)
    (htaken : ∀ r, c'.stage = .answered r → s.Knows h.id v ∨ r = .error .queueFull) : Carries node h s c' v := by
  obtain ⟨hsender, huri, hinbound⟩ := hsame
  refine ⟨hinbound ▸ hc.header, huri ▸ hc.uri, hsender ▸ hc.linked, ?_, hsender ▸ hc.sent, hplace, htaken⟩
  rw [hsender, hinbound]
  exact hc.trusted

/-! ## One node changed -/

section Change

variable (hf : Floods node x h s) (hnode : t.node = (s.put v n).node) (hk : ∀ w, s.Knows h.id w → t.Knows h.id w)

include hf hk in
theorem Floods.came {p : Parcel} (hp : p ∈ s.pending h.id w) :
    p.header = h ∧ ∃ u, p.hop = some (node u).self.uri ∧ Linked node w u ∧ t.Knows h.id u := by
  obtain ⟨hheader, u, hhop, hl, hu⟩ := hf.pending w p hp
  exact ⟨hheader, u, hhop, hl, hk u hu⟩

include hf hnode hk

theorem Floods.queued_put
    (hn : ∀ p, n.Queues p → p.id = h.id → (s.node v).Queues p ∨ (p.header = h ∧ t.Knows h.id v)) {p : Parcel}
    (hp : (t.node w).Queues p) (hid : p.id = h.id) : p.header = h ∧ t.Knows h.id w := by
  rw [hnode] at hp
  by_cases hw : w = v
  · rw [hw, put_self] at hp
    rcases hn p hp hid with hold | hnew
    · obtain ⟨hheader, hkv⟩ := hf.queued v p hold hid
      exact ⟨hheader, hw ▸ hk v hkv⟩
    · exact hw ▸ hnew
  · rw [put_other s hw] at hp
    obtain ⟨hheader, hkw⟩ := hf.queued w p hp hid
    exact ⟨hheader, hk w hkw⟩

theorem Floods.spread_put
    (hn : ∀ w, Linked node v w → v = x ∨ 0 < t.times h.id v → s.Knows h.id w ∨ n.Owes h.id (node w).self.uri)
    (htimes : ∀ w, w ≠ v → t.times h.id w = s.times h.id w) (hl : Linked node u w)
    (hdone : u = x ∨ 0 < t.times h.id u) : t.Knows h.id w ∨ (t.node u).Owes h.id (node w).self.uri := by
  rw [hnode]
  by_cases hu : u = v
  · subst hu
    rw [put_self]
    exact (hn w hl hdone).imp_left (hk w)
  · rw [put_other s hu]
    rw [htimes u hu] at hdone
    exact (hf.spread u w hl hdone).imp_left (hk w)

end Change

/-- Something happens at one node that gives the message no row, takes over no copy and handles none. -/
theorem Floods.keep (hf : Floods node x h s) (hnode : t.node = (s.put v n).node)
    (hrow : n.log.Has h.id ↔ s.Knows h.id v)
    (hqueues : ∀ p, n.Queues p → p.id = h.id → (s.node v).Queues p)
    (howes : ∀ w, Linked node v w → (s.node v).Owes h.id (node w).self.uri →
      s.Knows h.id w ∨ n.Owes h.id (node w).self.uri)
    (hcalls : ∀ c ∈ t.calls, c.inbound.header.id = h.id → ∃ w, Carries node h s c w)
    (hpending : ∀ w, (t.pending h.id w).Perm (s.pending h.id w))
    (hhandled : ∀ w, t.times h.id w = s.times h.id w) : Floods node x h t := by
  have hmono : ∀ w, s.Knows h.id w → t.Knows h.id w := fun w => knows_put hnode hrow.mpr
  have hback : ∀ w, t.Knows h.id w → s.Knows h.id w := fun w => knows_of_put hnode hrow.mp
  refine ⟨hmono x hf.source, fun w hw => hf.joined w (hback w hw),
    fun w p => hf.queued_put hnode hmono fun p hp hid => Or.inl (hqueues p hp hid), fun c hc hid => ?_,
    fun w p hp => hf.came hmono ((hpending w).mem_iff.mp hp), fun w hne hw => ?_, fun w hw => ?_,
    fun u w => hf.spread_put hnode hmono (fun w hl hdone => ?_) fun w _ => hhandled w⟩
  · obtain ⟨w, hcarries⟩ := hcalls c hc hid
    exact ⟨w, hcarries.mono hmono⟩
  · rw [(hpending w).length_eq, hhandled]
    exact hf.once w hne (hback w hw)
  · obtain ⟨hnone, hzero⟩ := hf.never w (hw.imp_right fun hn hk => hn (hmono w hk))
    exact ⟨(hnone ▸ hpending w).eq_nil, (hhandled w).trans hzero⟩
  · rw [hhandled] at hdone
    rcases hf.spread v w hl hdone with hk | how
    · exact Or.inl hk
    · exact howes w hl how

/-- Something happens at one node about other messages. -/
theorem Floods.other {ids : String → Prop} {inbox : List Parcel} (hf : Floods node x h s) (ho : Orderly node s)
    (ht : { s.node v with inbox }.Touched ids n) (hids : ¬ ids h.id)
    (hinbox : inbox.filter (fun p => p.id = h.id) = (s.node v).inbox.filter (fun p => p.id = h.id))
    (hnode : t.node = (s.put v n).node)
    (hcalls : ∀ c ∈ t.calls, c.inbound.header.id = h.id → ∃ w, Carries node h s c w)
    (hwork : ∀ w, (t.atWork h.id w).Perm (s.atWork h.id w)) (hhandled : ∀ w, t.times h.id w = s.times h.id w) :
    Floods node x h t := by
  obtain ⟨new, hadds, hnew⟩ := @touched_adds { s.node v with inbox } n ids (ho.shape v).tidy ht
  obtain ⟨ps, hps, hpids⟩ := ht.inbox
  refine hf.keep hnode ?_ (fun p hp hid => ?_) (fun w _ how => Or.inr ?_) hcalls (fun w => pending_perm ?_ (hwork w))
    hhandled
  · unfold State.Knows Log.Has
    rw [ht.rows h.id hids]
  · obtain ⟨i, hp⟩ := hp
    rcases hadds.only i p hp with ⟨hold, -⟩ | hn
    · exact ⟨i, hold⟩
    · exact absurd (hid ▸ hnew _ _ hn) hids
  · obtain ⟨p, hp, hid⟩ := how
    exact ⟨p, hadds.kept _ p hp, hid⟩
  · rw [hnode]
    by_cases hw : w = v
    · have hnone : ps.filter (fun p => p.id = h.id) = [] := by
        refine List.filter_eq_nil_iff.mpr fun p hp => ?_
        rw [decide_eq_true_eq]
        exact fun hid => hids (hid ▸ hpids p hp)
      rw [hw, put_self, hps, List.filter_append, hnone, List.append_nil]
      exact hinbox
    · rw [put_other s hw]

/-- A node takes over a copy of the message, which is new to it. -/
theorem Floods.take {p : Parcel} (hf : Floods node x h s) (hnode : t.node = (s.put v n).node)
    (hnew : ¬ s.Knows h.id v) (hrow : n.log.Has h.id) (hout : n.outbox = (s.node v).outbox) (hheader : p.header = h)
    (hfrom : ∃ u, p.hop = some (node u).self.uri ∧ Linked node v u ∧ Linked node u v ∧ s.Knows h.id u)
    (hcalls : ∀ c ∈ t.calls, c.inbound.header.id = h.id → ∃ w, Carries node h t c w)
    (hself : (t.pending h.id v).Perm (p :: s.pending h.id v))
    (hothers : ∀ w, w ≠ v → (t.pending h.id w).Perm (s.pending h.id w)) (hhandled : t.handled = s.handled) :
    Floods node x h t := by
  obtain ⟨u, hhop, hback, hl, hu⟩ := hfrom
  obtain ⟨hnone, hzero⟩ := hf.never v (Or.inr hnew)
  have htimes : ∀ w, t.times h.id w = s.times h.id w := fun w => by rw [State.times, hhandled]; rfl
  have hnow : t.Knows h.id v := by
    unfold State.Knows
    rw [hnode, put_self]
    exact hrow
  have hmono : ∀ w, s.Knows h.id w → t.Knows h.id w := fun w => knows_put hnode fun _ => hrow
  have hold : ∀ w, w ≠ v → t.Knows h.id w → s.Knows h.id w := by
    intro w hw hk
    unfold State.Knows at hk
    rw [hnode, put_other s hw] at hk
    exact hk
  refine ⟨hmono x hf.source, fun w hk => ?_, fun w q => hf.queued_put hnode hmono fun q hq _ => Or.inl ?_, hcalls,
    fun w q hq => ?_, fun w hne hk => ?_, fun w hw => ?_,
    fun w w' => hf.spread_put hnode hmono (fun w hl hdone => ?_) fun w _ => htimes w⟩
  · by_cases hw : w = v
    · rw [hw]
      exact (hf.joined u hu).tail hl
    · exact hf.joined w (hold w hw hk)
  · unfold Node.Queues at hq
    rw [hout] at hq
    exact hq
  · by_cases hw : w = v
    · subst hw
      -- `w` had no copy before, so this is the new one
      have hmem := hself.mem_iff.mp hq
      rw [hnone, List.mem_singleton] at hmem
      rw [hmem]
      exact ⟨hheader, u, hhop, hback, hmono u hu⟩
    · exact hf.came hmono ((hothers w hw).mem_iff.mp hq)
  · rw [htimes]
    by_cases hw : w = v
    · rw [hw, hself.length_eq, hnone, hzero]
      rfl
    · rw [(hothers w hw).length_eq]
      exact hf.once w hne (hold w hw hk)
  · have hne : w ≠ v := by
      rintro rfl
      rcases hw with rfl | hn
      · exact hnew hf.source
      · exact hn hnow
    obtain ⟨hnone', hzero'⟩ := hf.never w (hw.imp_right fun hn hk => hn (hmono w hk))
    exact ⟨(hnone' ▸ hothers w hne).eq_nil, (htimes w).trans hzero'⟩
  · rw [htimes] at hdone
    unfold Node.Owes
    rw [hout]
    exact hf.spread v w hl hdone

/-! ## Handing on -/

/-- A message that `x` sends to all, about no entity, which every node leaves to an application. -/
structure Broadcast (node : ι → Node) (x : ι) (h : Header) : Prop where
  source : h.source = (node x).self.uri
  receivers : h.receivers = []
  entity : h.metadata.first? Node.entityKey = none
  handler : ∀ v, ∃ imm, (node v).dispatch.get? h.kind = some (.application imm)

/-- A node that has a copy in hand has a row, and did not send the message. -/
theorem Floods.knows_of_pending {p : Parcel} (hf : Floods node x h s) (hp : p ∈ s.pending h.id v) :
    s.Knows h.id v ∧ v ≠ x := by
  constructor
  · by_contra hn
    rw [(hf.never v (Or.inr hn)).1] at hp
    cases hp
  · rintro rfl
    rw [(hf.never v (Or.inl rfl)).1] at hp
    cases hp

/-- A node that hands a copy on queues it for each of its links whose other end has no row. -/
theorem Floods.told {p : Parcel} (hf : Floods node x h s) (hm : Meshed node) (hb : Broadcast node x h)
    (ho : Orderly node s) (hp : p ∈ s.pending h.id v) (now : Nat) (hl : Linked node v w) : s.Knows h.id w ∨
      p ∈ (((s.node v).outbox.enqueueEach ((s.node v).reached ((s.node v).targetsFor p)) p now).laneFor
        (node w).self.uri).load := by
  obtain ⟨hheader, u, hhop, hlink, hu⟩ := hf.pending v p hp
  obtain ⟨hkv, -⟩ := hf.knows_of_pending hp
  by_cases hk : s.Knows h.id w
  · exact Or.inl hk
  · have hself : w ≠ v := fun he => hk (he ▸ hkv)
    have hsource : (node w).self.uri ≠ p.header.source := by
      rw [hheader, hb.source]
      exact fun he => hk (hm.uris w x he ▸ hf.source)
    refine Or.inr (hm.told (ho.shape v) hl (hheader ▸ hb.receivers) hsource hself (fun k hk' => ?_) now)
    rw [hhop] at hk'
    cases hk'
    exact ⟨u, rfl, hlink, fun he => hk (he ▸ hu)⟩

/-- A node has handled a copy of the message and hands it on to all. -/
theorem Floods.finish {p : Parcel} {l : Log} (hf : Floods node x h s) (hm : Meshed node)
    (hb : Broadcast node x h) (ho : Orderly node s) (hid : p.id = h.id) (hl : (s.node v).log.Extends (· = p.id) l)
    (now : Moment) (hnode : t.node = (s.put v { s.node v with
      log := l, outbox := (s.node v).outbox.enqueueEach ((s.node v).reached ((s.node v).targetsFor p)) p now.tick }).node)
    (hcalls : ∀ c ∈ t.calls, c.inbound.header.id = h.id → ∃ w, Carries node h s c w)
    (hself : (s.atWork h.id v).Perm (p :: t.atWork h.id v))
    (hothers : ∀ w, w ≠ v → (t.atWork h.id w).Perm (s.atWork h.id w)) (hhandled : t.handled = (v, p.id) :: s.handled) :
    Floods node x h t := by
  have hinbox : ∀ w, (t.node w).inbox = (s.node w).inbox := by
    rw [hnode]
    exact inbox_put rfl
  have hpself : (s.pending h.id v).Perm (p :: t.pending h.id v) := pending_cons (hinbox v).symm hself
  have hpothers : ∀ w, w ≠ v → (t.pending h.id w).Perm (s.pending h.id w) := fun w hw =>
    pending_perm (congrArg _ (hinbox w)) (hothers w hw)
  have hp : p ∈ s.pending h.id v := hpself.mem_iff.mpr List.mem_cons_self
  obtain ⟨hheader, -⟩ := hf.pending v p hp
  obtain ⟨hkv, hnotx⟩ := hf.knows_of_pending hp
  have hmono : ∀ w, s.Knows h.id w → t.Knows h.id w := fun w => knows_put hnode (hl.kept _)
  have hback : ∀ w, t.Knows h.id w → s.Knows h.id w := fun w => knows_of_put hnode fun _ => hkv
  rw [hid] at hhandled
  have htimes_self : t.times h.id v = s.times h.id v + 1 := by
    unfold State.times
    rw [hhandled, List.count_cons_self]
  have htimes : ∀ w, w ≠ v → t.times h.id w = s.times h.id w := by
    intro w hw
    unfold State.times
    rw [hhandled]
    exact List.count_cons_of_ne fun he => hw (congrArg Prod.fst he).symm
  refine ⟨hmono x hf.source, fun w hk => hf.joined w (hback w hk),
    fun w q => hf.queued_put hnode hmono fun q hq _ => ?_, fun c hc hid => ?_, fun w q hq => ?_, fun w hne hk => ?_,
    fun w hw => ?_, fun w w' => hf.spread_put hnode hmono (fun w hl' _ => ?_) htimes⟩
  · obtain ⟨i, hq⟩ := hq
    rcases (Outbox.adds_enqueueEach (ho.shape v).tidy _ p now.tick).only i q hq with ⟨hold, -⟩ | ⟨-, rfl⟩
    · exact Or.inl ⟨i, hold⟩
    · exact Or.inr ⟨hheader, hmono v hkv⟩
  · obtain ⟨w, hcarries⟩ := hcalls c hc hid
    exact ⟨w, hcarries.mono hmono⟩
  · refine hf.came hmono ?_
    by_cases hw : w = v
    · subst hw
      exact hpself.mem_iff.mpr (List.mem_cons_of_mem _ hq)
    · exact (hpothers w hw).mem_iff.mp hq
  · have hone := hf.once w hne (hback w hk)
    by_cases hw : w = v
    · subst hw
      rw [hpself.length_eq, List.length_cons] at hone
      rw [htimes_self]
      omega
    · rw [(hpothers w hw).length_eq, htimes w hw]
      exact hone
  · have hne : w ≠ v := by
      rintro rfl
      exact hw.elim hnotx fun hn => hn (hmono w hkv)
    obtain ⟨hnone, hzero⟩ := hf.never w (hw.imp_right fun hn hk => hn (hmono w hk))
    exact ⟨(hnone ▸ hpothers w hne).eq_nil, (htimes w hne).trans hzero⟩
  · exact (hf.told hm hb ho hp now.tick hl').imp_right fun hq => ⟨p, hq, hid⟩

/-! ## Sending -/

/-- Nothing of a message is anywhere. -/
structure Unheard (s : State ι) (m : String) : Prop where
  rows : ∀ v, ¬ s.Knows m v
  queued : ∀ v p, (s.node v).Queues p → p.id ≠ m
  calls : ∀ c ∈ s.calls, c.inbound.header.id ≠ m
  pending : ∀ v, s.pending m v = []
  handled : ∀ v, s.times m v = 0

/-- The invariant holds once the message was sent. -/
theorem Unheard.floods {msg : Message} {sum : Summary} {now : Moment} (hu : Unheard s h.id) (hm : Meshed node)
    (hb : Broadcast node x h) (hn : InShape (node x) (s.node x)) (hmsg : msg.header = h)
    (heq : (s.node x).send msg now = (.ok sum, n)) : Floods node x h (s.put x n) := by
  obtain ⟨p, l, hheader, hhop, hext, hhas, hsent⟩ := Node.send_eq hn.log heq
  have hp : p.header = h := hheader.trans hmsg
  have hid : p.id = h.id := congrArg Header.id hp
  have hx : (s.put x n).Knows h.id x := by
    unfold State.Knows
    rw [put_self, hsent, ← hid]
    exact hhas
  have hothers : ∀ v, v ≠ x → ¬ (s.put x n).Knows h.id v := by
    intro v hv hk
    unfold State.Knows at hk
    rw [put_other s hv] at hk
    exact hu.rows v hk
  have hpending : ∀ v, (s.put x n).pending h.id v = [] := by
    intro v
    have hinbox : ((s.put x n).node v).inbox = (s.node v).inbox := inbox_put (by rw [hsent]) v
    rw [← hu.pending v]
    unfold State.pending
    rw [hinbox]
    rfl
  refine ⟨hx, fun v hk => ?_, fun v q hq hqid => ?_, fun c hc hcid => absurd hcid (hu.calls c hc), fun v q hq => ?_,
    fun v hne hk => absurd hk (hothers v hne), fun v _ => ⟨hpending v, hu.handled v⟩, fun u v hl hdone => ?_⟩
  · by_cases hv : v = x
    · rw [hv]
    · exact absurd hk (hothers v hv)
  · by_cases hv : v = x
    · rw [hv, put_self, hsent] at hq
      obtain ⟨i, hq⟩ := hq
      rcases (Outbox.adds_enqueueEach hn.tidy _ p now.tick).only i q hq with ⟨hold, -⟩ | ⟨-, rfl⟩
      · exact absurd hqid (hu.queued x q ⟨i, hold⟩)
      · exact ⟨hp, hv ▸ hx⟩
    · rw [put_other s hv] at hq
      exact absurd hqid (hu.queued v q hq)
  · rw [hpending v] at hq
    cases hq
  · have hux : u = x := by
      rcases hdone with hux | hpos
      · exact hux
      · exact absurd (hu.handled u) (Nat.ne_of_gt hpos)
    subst hux
    by_cases hv : v = u
    · exact Or.inl (hv ▸ hx)
    · refine Or.inr ⟨p, ?_, hid⟩
      rw [put_self, hsent]
      have hsource : (node v).self.uri ≠ p.header.source := by
        rw [hp, hb.source]
        exact fun he => hv (hm.uris v u he)
      refine hm.told hn hl (hp ▸ hb.receivers) hsource hv (fun k hk => ?_) now.tick
      rw [hhop] at hk
      cases hk

/-! ## Steps -/

omit [DecidableEq ι] in
theorem Broadcast.addressed (hb : Broadcast node x h) (uri : String) : h.addressedTo uri = true := by
  unfold Header.addressedTo
  rw [hb.receivers]
  rfl

omit [DecidableEq ι] in
theorem Broadcast.letsIn (hb : Broadcast node x h) (n : Node) (hop : Peer) : n.letsIn h hop = (.ok true, n) := by
  unfold Node.letsIn
  split
  · rfl
  · rw [hb.entity]

/-- A call is answered, and nothing else happens to the message. -/
theorem Floods.answer {c c' : Call ι} {rest : List (Call ι)} {l : Log} {resolver : Resolver} (hf : Floods node x h s)
    (hc : s.calls.Perm (c :: rest)) (hrow : l.Has h.id ↔ s.Knows h.id v)
    (hc' : c'.inbound.header.id = h.id → ∃ w, Carries node h s c' w)
    (hsame : ∀ w, callAt h.id w c' = callAt h.id w c) :
    Floods node x h { s.put v { s.node v with resolver, log := l } with calls := c' :: rest } := by
  refine hf.keep rfl hrow (fun _ hp _ => hp) (fun _ _ ho => Or.inr ho) (List.forall_mem_cons.mpr ⟨hc', fun d hd => ?_⟩)
    (fun w => pending_perm ?_ ?_) fun _ => rfl
  · exact hf.calls d (hc.mem_iff.mpr (List.mem_cons_of_mem _ hd))
  · exact congrArg _ (inbox_put (by rfl) w)
  · obtain ⟨left, hs, ht⟩ := atWork_replace (s := s)
      (t := { s.put v { s.node v with resolver, log := l } with calls := c' :: rest }) rfl hc rfl h.id w
    rw [hsame] at ht
    exact ht.trans hs.symm

/-- A copy arrives at a node that takes it over, for a worker or at once. -/
theorem Floods.accept {c : Call ι} {rest : List (Call ι)} {stage : Stage ι} {header : Header} {hop : Option String}
    {body : Bytes} (hf : Floods node x h s) (hm : Meshed node) (hc : s.calls.Perm (c :: rest)) (hs : c.stage = .onWay)
    (hcar : Carries node h s c v) (hnew : ¬ s.Knows h.id v) (hrow : n.log.Has h.id)
    (hout : n.outbox = (s.node v).outbox) (hheader : header = h) (hhop : hop = some (node c.sender).self.uri)
    (hcase : (n.inbox = (s.node v).inbox ++ [⟨header, hop, body⟩] ∧ ∃ r, stage = .answered r) ∨
      (n.inbox = (s.node v).inbox ∧ stage = .handling v ⟨header, hop, body⟩)) :
    Floods node x h { s.put v n with calls := { c with stage } :: rest } := by
  have hmono : ∀ w, s.Knows h.id w → (s.put v n).Knows h.id w :=
    fun w => knows_put rfl fun hk => absurd hk hnew
  have hnow : (s.put v n).Knows h.id v := by
    unfold State.Knows
    rw [put_self]
    exact hrow
  have hplace : ∀ w p, stage = .handling w p → w = v := by
    rintro w p rfl
    rcases hcase with ⟨-, r, hst⟩ | ⟨-, hst⟩
    · cases hst
    · cases hst
      rfl
  have hwork : ∀ w, (State.atWork { s.put v n with calls := { c with stage } :: rest } h.id w).Perm
      ((callAt h.id w { c with stage }).toList ++ s.atWork h.id w) := by
    intro w
    obtain ⟨left, hleft, ht⟩ := atWork_replace (s := s) (t := { s.put v n with calls := { c with stage } :: rest })
      rfl hc rfl h.id w
    rw [callAt_onWay hs] at hleft
    exact ht.trans (hleft.symm.append_left _)
  refine hf.take (p := ⟨header, hop, body⟩) rfl hnew hrow hout hheader
    ⟨c.sender, hhop, hm.symm hcar.linked, hcar.linked, hcar.sent⟩ (List.forall_mem_cons.mpr ⟨fun _ => ⟨v, ?_⟩, ?_⟩)
    ?_ (fun w hw => ?_) rfl
  · have hcar' : Carries node h { s.put v n with calls := { c with stage } :: rest } c v := hcar.mono hmono
    exact hcar'.renew ⟨rfl, rfl, rfl⟩ hplace fun r _ => Or.inl hnow
  · intro d hd hid
    obtain ⟨w, hd'⟩ := hf.calls d (hc.mem_iff.mpr (List.mem_cons_of_mem _ hd)) hid
    exact ⟨w, hd'.mono hmono⟩
  · have hnode : (State.node { s.put v n with calls := { c with stage } :: rest } v) = n := put_self s v n
    have hself := hwork v
    rcases hcase with ⟨hinbox, r, rfl⟩ | ⟨hinbox, rfl⟩
    · rw [callAt_answered rfl] at hself
      exact pending_queue (by rw [hnode, hinbox]) (congrArg Header.id hheader) hself
    · rw [callAt_handling rfl, if_pos ⟨rfl, congrArg Header.id hheader⟩] at hself
      exact pending_cons (by rw [hnode, hinbox]) hself
  · have hother := hwork w
    have hnone : callAt h.id w { c with stage } = none := by
      rcases hcase with ⟨-, r, rfl⟩ | ⟨-, rfl⟩
      · exact callAt_answered rfl
      · rw [callAt_handling rfl, if_neg fun he => hw he.1.symm]
    rw [hnone] at hother
    refine pending_perm ?_ hother
    show ((s.put v n).node w).inbox.filter _ = _
    rw [put_other s hw]

theorem Floods.arrive {c : Call ι} {rest : List (Call ι)} {a : Admission} {now : Moment} (hf : Floods node x h s)
    (hm : Meshed node) (hb : Broadcast node x h) (ho : Orderly node s) (hc : s.calls.Perm (c :: rest))
    (hs : c.stage = .onWay) (hv : (s.node v).self.uri = c.uri) (heq : (s.node v).takeIn c.inbound now = (a, n)) :
    Floods node x h { s.put v n with calls := { c with stage := stageOf v a } :: rest } := by
  have hrest : ∀ d ∈ rest, d.inbound.header.id = h.id → ∃ w, Carries node h s d w :=
    fun d hd => hf.calls d (hc.mem_iff.mpr (List.mem_cons_of_mem _ hd))
  by_cases hid : c.inbound.header.id = h.id
  · -- a copy of the message: its call carries it to `v`, where it is trusted and let in
    obtain ⟨w, hcar⟩ := hf.calls c (hc.mem_iff.mpr List.mem_cons_self) hid
    obtain ⟨hself, hsigner, hreg, hdis, hrun, -⟩ := (ho.shape v).steady.fields
    obtain rfl : v = w := hm.uris v w (by rw [← hself, hv, hcar.uri])
    have hheader := hcar.header
    obtain ⟨hop, huri, htrust⟩ := hcar.trusted
    have htrusted : (s.node v).Trusted c.inbound hop := by
      unfold Node.Trusted
      rw [hreg, hsigner]
      exact htrust
    obtain ⟨imm, hd⟩ := hb.handler v
    obtain ⟨resolver, hcase⟩ := Node.takeIn_application (ho.shape v).log (hrun.trans (hm.running v)) htrusted
      (by rw [hdis, hheader, hd]) (by rw [hheader]; exact hb.addressed _) (by rw [hheader, hb.letsIn]) now
    rw [heq, hid] at hcase
    have hnone : ∀ w, callAt h.id w c = none := fun w => callAt_onWay hs
    have hanswered : ∀ w r, callAt h.id w { c with stage := .answered r } = none := fun w r => callAt_answered rfl
    rcases hcase with ⟨hk, he⟩ | ⟨hk, l, hext, hhas, he⟩ | ⟨hk, l, hl, hrows, he⟩
    · cases he
      refine hf.answer hc Iff.rfl (fun _ => ⟨v, hcar.renew ⟨rfl, rfl, rfl⟩ (fun w p hp => (by cases hp)) ?_⟩)
        fun w => (hanswered w _).trans (hnone w).symm
      exact fun r _ => Or.inl hk
    · have hhop : some hop.uri = some (node c.sender).self.uri := congrArg some huri
      rcases he with he | he
      · cases he
        exact hf.accept hm hc hs hcar hk hhas rfl hheader hhop (Or.inl ⟨rfl, _, rfl⟩)
      · cases he
        exact hf.accept hm hc hs hcar hk hhas rfl hheader hhop (Or.inr ⟨rfl, rfl⟩)
    · cases he
      have hrow : l.Has h.id ↔ s.Knows h.id v := by
        unfold State.Knows Log.Has
        rw [hrows]
      refine hf.answer hc hrow (fun _ => ⟨v, hcar.renew ⟨rfl, rfl, rfl⟩ (fun w p hp => (by cases hp)) ?_⟩)
        fun w => (hanswered w _).trans (hnone w).symm
      rintro r hr
      cases hr
      exact Or.inr rfl
  · have htouched := Node.touched_takeIn (ho.shape v).log c.inbound now
    have hleaves := Node.takeIn_leaves (ho.shape v).log c.inbound now
    rw [heq] at htouched hleaves
    have hsame : ∀ w, callAt h.id w { c with stage := stageOf v a } = callAt h.id w c := by
      intro w
      rw [callAt_onWay hs]
      cases a with
      | settled r => exact callAt_answered rfl
      | handling p =>
        have hp : p.id ≠ h.id := fun he => hid (hleaves.1 ▸ he)
        rw [callAt_handling (p := p) rfl, if_neg fun he => hp he.2]
    refine hf.other ho htouched (fun he => hid he.symm) rfl rfl
      (List.forall_mem_cons.mpr ⟨fun he => absurd he hid, hrest⟩) (fun w => ?_) fun _ => rfl
    obtain ⟨left, hs', ht⟩ := atWork_replace (s := s)
      (t := { s.put v n with calls := { c with stage := stageOf v a } :: rest }) rfl hc rfl h.id w
    rw [hsame] at ht
    exact ht.trans hs'.symm

theorem Floods.depart {lane : Nat} {y : Option Sending} {now : Moment} (hf : Floods node x h s) (hm : Meshed node)
    (ho : Orderly node s) (heq : (s.node u).depart lane now = (y, n)) :
    Floods node x h { s.put u n with calls := (y.map (callOf (s.node u) u lane)).toList ++ s.calls } := by
  obtain ⟨hself, hsigner, hreg, -⟩ := (ho.shape u).steady.fields
  have hn : n = ((s.node u).depart lane now).2 := by rw [heq]
  have hframe := Node.depart_frame (s.node u) lane now
  rw [← hn] at hframe
  have hcalls : ∀ c ∈ (y.map (callOf (s.node u) u lane)).toList, c.inbound.header.id = h.id →
      ∃ w, Carries node h s c w := by
    intro c hc hid
    rcases Node.depart_outcomes (s.node u) lane now with ⟨-, hd⟩ | ⟨f, target, t, hflight, hr, hs, hd⟩ | ⟨f, -, -, hd⟩
    · rw [heq] at hd
      cases hd
      cases hc
    · rw [heq] at hd
      cases hd
      rw [List.mem_singleton.mp hc] at hid ⊢
      have hload : f.entry.parcel ∈ ((s.node u).outbox.lane lane).load := by
        rw [← Lane.load_depart, Lane.load_of_flight hflight]
        exact List.mem_cons_self
      obtain ⟨hheader, hk⟩ := hf.queued u f.entry.parcel ⟨lane, hload⟩ hid
      rw [hreg] at hr
      rw [hsigner] at hs
      obtain ⟨v, hop, huri, hl, hhop, htrust⟩ := hm.trusted hr hs
      refine ⟨v, hheader, huri, hl, ⟨hop, hhop, ?_⟩, hk, fun w p hp => (by cases hp), fun r hr => (by cases hr)⟩
      unfold callOf
      rw [hself]
      exact htrust
    · rw [heq] at hd
      cases hd
      cases hc
  refine hf.keep rfl (by rw [hframe]; rfl) (fun p hp _ => Node.queues_depart (hn ▸ hp)) (fun w hl how => Or.inr ?_)
    (fun c hc hid => ?_) (fun w => pending_perm ?_ ?_) fun _ => rfl
  · obtain ⟨target, hr⟩ := hl
    rw [hn]
    exact Node.owes_depart (ho.shape u).tidy (hreg ▸ hr) (hsigner ▸ hm.signs hr) how
  · rcases List.mem_append.mp hc with hc | hc
    · exact hcalls c hc hid
    · exact hf.calls c hc hid
  · exact congrArg _ (inbox_put (by rw [hframe]) w)
  · cases y with
    | none => exact .refl _
    | some y => exact .refl _

theorem Floods.conclude {p : Parcel} {c : Call ι} {rest : List (Call ι)} {y : Except Failure Decision}
    {r : Except Failure Reception} {now : Moment} (hf : Floods node x h s) (hm : Meshed node) (hb : Broadcast node x h)
    (ho : Orderly node s) (hc : s.calls.Perm (c :: rest)) (hs : c.stage = .handling v p)
    (hy : p.id = h.id → y = .ok .all) (heq : (s.node v).conclude p y now = (r, n)) :
    Floods node x h { s.put v n with
      calls := { c with stage := .answered r } :: rest, handled := handledBy v p y ++ s.handled } := by
  have hmem : c ∈ s.calls := hc.mem_iff.mpr List.mem_cons_self
  have hheader : p.header = c.inbound.header := ho.handed c hmem v p hs
  have hrest : ∀ d ∈ rest, d.inbound.header.id = h.id → ∃ w, Carries node h s d w :=
    fun d hd => hf.calls d (hc.mem_iff.mpr (List.mem_cons_of_mem _ hd))
  have hwork : ∀ w, (s.atWork h.id w).Perm ((callAt h.id w c).toList ++ State.atWork { s.put v n with
      calls := { c with stage := .answered r } :: rest, handled := handledBy v p y ++ s.handled } h.id w) := by
    intro w
    obtain ⟨left, hleft, ht⟩ := atWork_replace (s := s) (t := { s.put v n with
      calls := { c with stage := .answered r } :: rest, handled := handledBy v p y ++ s.handled }) rfl hc rfl h.id w
    rw [callAt_answered rfl] at ht
    exact hleft.trans (ht.symm.append_left _)
  by_cases hid : p.id = h.id
  · obtain ⟨w, hcar⟩ := hf.calls c hmem (hheader ▸ hid)
    obtain rfl := hcar.place v p hs
    obtain ⟨l, hext, hn⟩ := Node.conclude_ok (ho.shape v).log p .all now
    rw [hy hid, hn] at heq
    cases heq
    have hself := hwork v
    rw [callAt_handling hs, if_pos ⟨rfl, hid⟩] at hself
    have hkv : s.Knows h.id v := by
      refine (hf.knows_of_pending (p := p) ?_).1
      exact List.mem_append_right _ (hself.mem_iff.mpr List.mem_cons_self)
    refine hf.finish hm hb ho hid hext now rfl (List.forall_mem_cons.mpr ⟨fun _ => ⟨v, ?_⟩, hrest⟩) hself
      (fun w hw => ?_) (by rw [hy hid]; rfl)
    · exact hcar.renew ⟨rfl, rfl, rfl⟩ (fun w p hp => (by cases hp)) fun r _ => Or.inl hkv
    · have hother := hwork w
      rw [callAt_handling hs, if_neg fun he => hw he.1.symm] at hother
      exact hother.symm
  · have htouched := Node.touched_conclude (ho.shape v).log p y now
    rw [heq] at htouched
    refine hf.other ho htouched (fun he => hid he.symm) rfl rfl
      (List.forall_mem_cons.mpr ⟨fun he => absurd ((congrArg Header.id hheader).trans he) hid, hrest⟩) (fun w => ?_)
      fun w => times_handledBy v w hid y
    have hother := hwork w
    rw [callAt_handling hs, if_neg fun he => hid he.2] at hother
    exact hother.symm

theorem Floods.finishWork {p : Parcel} {rest : List (ι × Parcel)} {y : Except Failure Decision} {now : Moment}
    (hf : Floods node x h s) (hm : Meshed node) (hb : Broadcast node x h) (ho : Orderly node s)
    (hp : s.jobs.Perm ((v, p) :: rest)) (hy : p.id = h.id → y = .ok .all) :
    Floods node x h { s.put v ((s.node v).finishWork p y now) with
      jobs := rest, handled := handledBy v p y ++ s.handled } := by
  have hwork : ∀ w, (s.atWork h.id w).Perm ((jobAt h.id w (v, p)).toList ++ State.atWork {
      s.put v ((s.node v).finishWork p y now) with jobs := rest, handled := handledBy v p y ++ s.handled } h.id w) := by
    intro w
    refine atWork_job ?_ ?_ h.id w
    · rfl
    · exact hp
  by_cases hid : p.id = h.id
  · obtain ⟨l, hext, hn⟩ := Node.finish_eq (ho.shape v).log p .all now
    have hself := hwork v
    rw [jobAt, if_pos ⟨rfl, hid⟩] at hself
    refine hf.finish hm hb ho hid hext now ?_ hf.calls hself (fun w hw => ?_) (by rw [hy hid]; rfl)
    · show (s.put v _).node = _
      rw [hy hid, Node.finishWork, hn]
      rfl
    · have hother := hwork w
      rw [jobAt, if_neg fun he => hw he.1.symm] at hother
      exact hother.symm
  · refine hf.other ho (Node.grown_finishWork (ho.shape v).log p y now).touched (fun he => hid he.symm) rfl rfl hf.calls
      (fun w => ?_) fun w => times_handledBy v w hid y
    have hother := hwork w
    rw [jobAt, if_neg fun he => hid he.2] at hother
    exact hother.symm

/-- The end of an attempt: where the message leaves the lane, its target has a row. -/
theorem Floods.land {lane : Nat} {y : Except Failure Unit} {calls : List (Call ι)} {now : Moment} {spread : Float}
    (hf : Floods node x h s) (hm : Meshed node) (ho : Orderly node s)
    (hdone : Node.attemptOf y ≠ .again → ∀ f, ((s.node u).outbox.lane lane).flight = some f → f.entry.parcel.id = h.id →
      ∀ w, ((s.node u).outbox.lane lane).uri = (node w).self.uri → s.Knows h.id w)
    (hcalls : ∀ c ∈ calls, c.inbound.header.id = h.id → ∃ w, Carries node h s c w)
    (hwork : ∀ w, (calls.filterMap (callAt h.id w)).Perm (s.calls.filterMap (callAt h.id w))) :
    Floods node x h { s.put u ((s.node u).land lane y now spread) with calls } := by
  obtain ⟨l, -, hhas, heq⟩ := Node.land_eq (ho.shape u).log lane y now spread
  refine hf.keep rfl (by rw [heq]; exact hhas h.id) (fun p hp _ => Node.queues_land hp) (fun w _ how => ?_) hcalls
    (fun w => pending_perm ?_ ((hwork w).append_left _)) fun _ => rfl
  · have hunlimited : (s.node u).outbox.retry.maxAttempts = none := by
      rw [(ho.shape u).retry]
      exact hm.unlimited u
    rcases Node.owes_land (ho.shape u).tidy hunlimited ((ho.shape u).fresh _) how with
      hkept | ⟨hnot, f, hflight, hid, huri⟩
    · exact Or.inr hkept
    · exact Or.inl (hdone hnot f hflight hid w huri)
  · exact congrArg _ (inbox_put (by rw [heq]) w)

theorem Floods.landed {c : Call ι} {rest : List (Call ι)} {r : Except Failure Reception} {now : Moment} {spread : Float}
    (hf : Floods node x h s) (hm : Meshed node) (ho : Orderly node s) (hc : s.calls.Perm (c :: rest))
    (ha : c.awaited = true) (hs : c.stage = .answered r) :
    Floods node x h
      { s.put c.sender ((s.node c.sender).land c.lane (Node.seen c.uri r) now spread) with calls := rest } := by
  have hmem : c ∈ s.calls := hc.mem_iff.mpr List.mem_cons_self
  refine hf.land hm ho (fun hnot f hflight hid w huri => ?_)
    (fun d hd => hf.calls d (hc.mem_iff.mpr (List.mem_cons_of_mem _ hd))) fun w => ?_
  · obtain ⟨g, hg, hheader, huri'⟩ := ho.flying c hmem ha
    obtain rfl := Option.some.inj (hg.symm.trans hflight)
    obtain ⟨w', hcar⟩ := hf.calls c hmem (hheader ▸ hid)
    obtain rfl := hm.uris w w' (huri.symm.trans (huri'.trans hcar.uri))
    rcases hcar.taken r hs with hk | rfl
    · exact hk
    · exact absurd (Node.attemptOf_queueFull c.uri) hnot
  · have hperm := hc.filterMap (callAt h.id w)
    rw [List.filterMap_cons, callAt_answered hs] at hperm
    exact hperm.symm

theorem Floods.giveUp {c : Call ι} {rest : List (Call ι)} {f : Failure} {now : Moment} {spread : Float}
    (hf : Floods node x h s) (hm : Meshed node) (ho : Orderly node s) (hc : s.calls.Perm (c :: rest))
    (hr : f.retryable = true) :
    Floods node x h { s.put c.sender ((s.node c.sender).land c.lane (.error f) now spread) with
      calls := { c with awaited := false } :: rest } := by
  refine hf.land hm ho (fun hnot => absurd (Node.attemptOf_again hr) hnot)
    (List.forall_mem_cons.mpr ⟨fun hid => ?_, fun d hd => hf.calls d (hc.mem_iff.mpr (List.mem_cons_of_mem _ hd))⟩)
    fun w => ?_
  · obtain ⟨w, hcar⟩ := hf.calls c (hc.mem_iff.mpr List.mem_cons_self) hid
    exact ⟨w, hcar.renew ⟨rfl, rfl, rfl⟩ hcar.place hcar.taken⟩
  · have hsame : callAt h.id w { c with awaited := false } = callAt h.id w c := rfl
    rw [List.filterMap_cons, hsame, ← List.filterMap_cons]
    exact (hc.filterMap _).symm

theorem Floods.work {fresh : String} {y : Node.Work} {now : Moment} (hf : Floods node x h s) (hb : Broadcast node x h)
    (ho : Orderly node s) (hfresh : fresh ≠ h.id) (heq : (s.node v).work fresh now = (y, n)) :
    Floods node x h { s.put v n with jobs := y.job.map (v, ·) ++ s.jobs } := by
  rcases Node.work_cases (ho.shape v).log fresh now with ⟨-, hw⟩ | ⟨p, rest, hi, hw | ⟨n', hw, hg⟩⟩
  · rw [heq] at hw
    cases hw
    refine hf.keep rfl Iff.rfl (fun _ hp _ => hp) (fun _ _ how => Or.inr how) hf.calls
      (fun w => pending_perm ?_ (.refl _)) fun _ => rfl
    exact congrArg _ (inbox_put rfl w)
  · rw [heq] at hw
    cases hw
    refine hf.keep rfl Iff.rfl (fun _ hp _ => hp) (fun _ _ how => Or.inr how) hf.calls (fun w => ?_) fun _ => rfl
    have hwork : (State.atWork { s.put v { s.node v with inbox := rest } with jobs := (v, p) :: s.jobs } h.id w).Perm
        ((jobAt h.id w (v, p)).toList ++ s.atWork h.id w) := by
      refine atWork_job ?_ ?_ h.id w
      · rfl
      · exact .refl _
    by_cases hwv : w = v
    · subst hwv
      exact pending_taken hi (congrArg Node.inbox (put_self s w { s.node w with inbox := rest })) hwork
    · have hnone : jobAt h.id w (v, p) = none := if_neg fun he => hwv he.1.symm
      rw [hnone] at hwork
      refine pending_perm ?_ hwork
      show ((s.put v _).node w).inbox.filter _ = _
      rw [put_other s hwv]
  · rw [heq] at hw
    cases hw
    have hid : p.id ≠ h.id := by
      -- the message is never handled by the node itself
      intro hid
      have hp : p ∈ s.pending h.id v := by
        refine List.mem_append_left _ (List.mem_filter.mpr ⟨hi ▸ List.mem_cons_self, ?_⟩)
        rw [decide_eq_true_eq]
        exact hid
      obtain ⟨imm, hd⟩ := hb.handler v
      rw [← (ho.shape v).steady.fields.2.2.2.1, ← (hf.pending v p hp).1] at hd
      rw [Node.work_application hi hd] at heq
      cases heq
    refine hf.other ho hg.touched (fun he => he.elim (fun he => hid he.symm) fun he => hfresh he.symm) ?_ rfl hf.calls
      (fun _ => .refl _) fun _ => rfl
    rw [hi, List.filter_cons_of_neg (by simp [hid])]

/-- Every step keeps the invariant. -/
theorem Step.floods (hstep : Step h.id s t) (hm : Meshed node) (hb : Broadcast node x h) (ho : Orderly node s)
    (hf : Floods node x h s) : Floods node x h t := by
  cases hstep with
  | depart u now hfree heq => exact hf.depart hm ho heq
  | arrive v now hc hs hv heq => exact hf.arrive hm hb ho hc hs hv heq
  | conclude now hc hs hy heq => exact hf.conclude hm hb ho hc hs hy heq
  | land now spread hc ha hs => exact hf.landed hm ho hc ha hs
  | giveUp now spread hc ha hr => exact hf.giveUp hm ho hc hr
  | work v now hfresh heq => exact hf.work hb ho hfresh heq
  | finishWork now hp hy => exact hf.finishWork hm hb ho hp hy
  | @visit v i now hi =>
    exact hf.other ho (Node.touched_takeIn (ho.shape v).log i now) (fun he => hi he.symm) rfl rfl hf.calls
      (fun _ => .refl _) fun _ => rfl

/-! ## Runs -/

/-- The states that a network can come to after `x` sent a message in the state `s₀`. -/
inductive Reachable (s₀ : State ι) (x : ι) (msg : Message) : State ι → Prop where
  | sent {sum : Summary} {n : Node} (now : Moment) (h : (s₀.node x).send msg now = (.ok sum, n)) :
      Reachable s₀ x msg (s₀.put x n)
  | next {s t : State ι} : Reachable s₀ x msg s → Step msg.header.id s t → Reachable s₀ x msg t

variable {s₀ : State ι} {msg : Message}

theorem Reachable.orderly (hr : Reachable s₀ x msg s) (hm : Meshed s₀.node) (ho : Orderly s₀.node s₀) :
    Orderly s₀.node s := by
  induction hr with
  | @sent sum n now heq =>
    have hg := Node.grown_send (ho.shape x).log (m := msg) rfl now
    rw [heq] at hg
    exact ho.touched hg.touched
  | next _ hstep ih => exact hstep.orderly (fun _ _ _ hp => (hm.target hp).1) ih

theorem Reachable.floods (hr : Reachable s₀ x msg s) (hm : Meshed s₀.node) (ho : Orderly s₀.node s₀)
    (hb : Broadcast s₀.node x msg.header) (hu : Unheard s₀ msg.header.id) : Floods s₀.node x msg.header s := by
  induction hr with
  | sent now heq => exact hu.floods hm hb (ho.shape x) rfl heq
  | next hr hstep ih => exact hstep.floods hm hb (hr.orderly hm ho) ih

/-- When no copy is left, every node that is connected to the source has a row. -/
theorem Floods.knows_of_quiet (hf : Floods node x h s) (hq : Quiet s h.id)
    (hv : Relation.ReflTransGen (Linked node) x v) : s.Knows h.id v := by
  induction hv with
  | refl => exact hf.source
  | @tail u v _ hl ih =>
    have hdone : u = x ∨ 0 < s.times h.id u := by
      by_cases hu : u = x
      · exact Or.inl hu
      · have hone := hf.once u hu ih
        rw [hq.pending u, List.length_nil] at hone
        exact Or.inr (by omega)
    rcases hf.spread u v hl hdone with hk | how
    · exact hk
    · exact absurd how (hq.lanes u _)

/-- A message that `x` sends to all is never in the hands of the receivers of one node twice, and never in those of `x`;
and when no copy is left, the nodes that have handled it, each once, are those that are connected to `x`. -/
theorem reaches_all_once (hm : Meshed s₀.node) (ho : Orderly s₀.node s₀) (hb : Broadcast s₀.node x msg.header)
    (hu : Unheard s₀ msg.header.id) (hr : Reachable s₀ x msg s) :
    (∀ v, s.times msg.header.id v + (s.atWork msg.header.id v).length ≤ 1) ∧
      (s.times msg.header.id x = 0 ∧ s.atWork msg.header.id x = []) ∧
      (Quiet s msg.header.id →
        ∀ v, s.times msg.header.id v = 1 ↔ v ≠ x ∧ Relation.ReflTransGen (Linked s₀.node) x v) := by
  have hf := hr.floods hm ho hb hu
  refine ⟨fun v => ?_, ?_, fun hq v => ⟨fun hone => ?_, ?_⟩⟩
  · have hle : (s.atWork msg.header.id v).length ≤ (s.pending msg.header.id v).length := by
      unfold State.pending
      rw [List.length_append]
      omega
    by_cases hv : v = x ∨ ¬ s.Knows msg.header.id v
    · obtain ⟨hnone, hzero⟩ := hf.never v hv
      rw [hnone, List.length_nil] at hle
      omega
    · obtain ⟨hne, hk⟩ := not_or.mp hv
      have hone := hf.once v hne (not_not.mp hk)
      omega
  · obtain ⟨hnone, hzero⟩ := hf.never x (Or.inl rfl)
    exact ⟨hzero, (List.append_eq_nil_iff.mp hnone).2⟩
  · have hv : ¬ (v = x ∨ ¬ s.Knows msg.header.id v) := fun hv => by
      rw [(hf.never v hv).2] at hone
      cases hone
    obtain ⟨hne, hk⟩ := not_or.mp hv
    exact ⟨hne, hf.joined v (not_not.mp hk)⟩
  · rintro ⟨hne, hv⟩
    have hone := hf.once v hne (hf.knows_of_quiet hq hv)
    rw [hq.pending v, List.length_nil] at hone
    omega

/-- Two nodes in memory that are linked. -/
def pair : Bool → Node
  | false => .knowing ⟨"i", "", "u"⟩ ⟨"j", "", "v", .registered, some "k", ∅⟩ "note" (.application false)
  | true => .knowing ⟨"j", "", "v"⟩ ⟨"i", "", "u", .registered, some "k", ∅⟩ "note" (.application true)

theorem registered?_knowing {self : Identity} {peer p : Peer} {kind k : String} {handler : Handler}
    (hp : (Node.knowing self peer kind handler).registry.registered? k = some p) : k = peer.uri ∧ p = peer := by
  have hget : (Node.knowing self peer kind handler).registry.row? k = if k = peer.uri then some peer else none :=
    Dict.get?_insert ∅ peer.uri k peer
  have hrow := (Registry.registered?_eq_some.mp hp).1
  rw [hget] at hrow
  split at hrow
  · rename_i hk
    exact ⟨hk, (Option.some.inj hrow).symm⟩
  · cases hrow

theorem meshed_pair : Meshed pair := by
  refine ⟨by decide, by decide, by decide, by decide, fun u k p hp => ?_⟩
  cases u with
  | false =>
    obtain ⟨rfl, rfl⟩ := registered?_knowing hp
    exact ⟨true, "k", ⟨"i", "", "u", .registered, some "k", ∅⟩, rfl,
      ⟨rfl, rfl, rfl, rfl, rfl⟩, ⟨rfl, rfl, rfl, rfl, rfl⟩, rfl⟩
  | true =>
    obtain ⟨rfl, rfl⟩ := registered?_knowing hp
    exact ⟨false, "k", ⟨"j", "", "v", .registered, some "k", ∅⟩, rfl,
      ⟨rfl, rfl, rfl, rfl, rfl⟩, ⟨rfl, rfl, rfl, rfl, rfl⟩, rfl⟩

/-- A message sent by one of two linked nodes is handled by the other one. -/
theorem reaches_all_once_pair : ∃ s,
    Reachable ⟨pair, [], [], []⟩ false ⟨.new "1" "note" "u" .epoch, none, .held []⟩ s ∧ Quiet s "1" ∧
      s.times "1" true = 1 := by
  have hm : Meshed pair := meshed_pair
  have ho : Orderly pair ⟨pair, [], [], []⟩ := by
    refine orderly_at_rest (fun v => ?_) fun v => ⟨.standard, ?_⟩
    · cases v <;> exact Log.reliable_inMemory
    · cases v <;> rfl
  have hb : Broadcast pair false (.new "1" "note" "u" .epoch) := by
    refine ⟨rfl, rfl, rfl, fun v => ?_⟩
    cases v with
    | false => exact ⟨false, rfl⟩
    | true => exact ⟨true, rfl⟩
  have hu : Unheard (ι := Bool) ⟨pair, [], [], []⟩ "1" := by
    refine ⟨fun v hk => ?_, fun v p hp => ?_, fun c hc => (by cases hc), fun v => (by cases v <;> rfl), fun v => rfl⟩
    · cases v <;> cases hk
    · obtain ⟨i, hp⟩ := hp
      cases v <;> cases hp
  have sent : Reachable ⟨pair, [], [], []⟩ false ⟨.new "1" "note" "u" .epoch, none, .held []⟩ _ := .sent ⟨0, .epoch⟩ rfl
  have departed := sent.next (@Step.depart Bool _ "1" _ false 0 _ _ ⟨0, .epoch⟩ (fun c hc => (by cases hc)) rfl)
  have arrived := departed.next (.arrive _ true ⟨0, .epoch⟩ (.refl _) rfl rfl rfl)
  have landed := (arrived.next (.conclude _ ⟨0, .epoch⟩ (.refl _) rfl (fun _ => rfl) rfl)).next
    (.land _ ⟨0, .epoch⟩ 1.0 (.refl _) rfl rfl)
  obtain ⟨s, run, quiet⟩ : ∃ s,
      Reachable ⟨pair, [], [], []⟩ false ⟨.new "1" "note" "u" .epoch, none, .held []⟩ s ∧ Quiet s "1" := by
    refine ⟨_, landed, fun v uri how => ?_, fun v => ?_⟩
    · obtain ⟨p, hp, -⟩ := how
      rw [Outbox.load_laneFor_of_empty] at hp
      · cases hp
      · intro i
        cases v <;> cases i <;> rfl
    · cases v <;> rfl
  exact ⟨s, run, quiet, ((reaches_all_once hm ho hb hu run).2.2 quiet true).mpr ⟨by decide, .single ⟨_, rfl⟩⟩⟩

end ContentMesh.Network
