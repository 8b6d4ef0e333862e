import ContentMesh.Peer.Row
import ContentMesh.Proofs.Outbox.Lanes

/-!
# ContentMesh.Proofs.Outbox.Sweeps — lanes that are purged and closed

Purging a lane and closing it empty it (`Lane.Emptied`); whatever purges and closes lanes does nothing else to an outbox
(`Outbox.Sweeps`).  An entry that is queued goes to the end of one lane (`Outbox.Puts`).
-/

namespace ContentMesh

/-! ## Lanes that are emptied -/

namespace Lane

variable {l l' l'' : Lane}

/-- A lane is as it was, or nothing waits in it any more and its flight knows that. -/
structure Emptied (l l' : Lane) : Prop where
  uri : l'.uri = l.uri
  flight : l'.flight = l.flight
  waiting : l'.waiting = l.waiting ∧ l'.generation = l.generation ∨ l'.waiting = [] ∧ l.generation < l'.generation

theorem Emptied.refl (l : Lane) : l.Emptied l := ⟨rfl, rfl, .inl ⟨rfl, rfl⟩⟩

theorem Emptied.generation_le (h : l.Emptied l') : l.generation ≤ l'.generation := by
  rcases h.waiting with ⟨-, hg⟩ | ⟨-, hg⟩ <;> omega

theorem Emptied.trans (h : l.Emptied l') (h' : l'.Emptied l'') : l.Emptied l'' := by
  refine ⟨h'.uri.trans h.uri, h'.flight.trans h.flight, ?_⟩
  have hle := h.generation_le
  rcases h'.waiting with ⟨hw', hg'⟩ | ⟨hw', hg'⟩
  · rw [hw', hg']
    exact h.waiting
  · exact .inr ⟨hw', by omega⟩

/-- Two lanes with the same entries. -/
structure Alike (l l' : Lane) : Prop where
  waiting : l'.waiting = l.waiting
  flight : l'.flight = l.flight
  generation : l'.generation = l.generation

theorem Alike.refl (l : Lane) : l.Alike l := ⟨rfl, rfl, rfl⟩

theorem depart_of_waiting_nil (h : l.waiting = []) : l.depart = l := by
  unfold depart
  split
  · simp_all
  · rfl

theorem depart_of_waiting_cons (hf : l.flight = none) {e : Entry} {es : List Entry} (hw : l.waiting = e :: es) :
    l.depart
      = { l with waiting := es, flight := some ⟨{ e with attempts := e.attempts + 1 }, l.generation⟩ } := by
  unfold depart
  rw [hf, hw]

theorem closed_depart (l : Lane) : l.depart.closed = l.closed := by
  unfold depart
  split <;> rfl

theorem closed_land (l : Lane) (retry : Retry) (a : Attempt) (now : Nat) (spread : Float) :
    (l.land retry a now spread).closed = l.closed := by
  unfold land
  cases l.flight with
  | none => rfl
  | some f =>
    cases a with
    | delivered => rfl
    | dropped => rfl
    | again =>
      dsimp only
      split
      · rfl
      · split <;> rfl

theorem emptied_purge (l : Lane) : l.Emptied l.purge.2 := ⟨rfl, rfl, .inr ⟨rfl, Nat.lt_succ_self _⟩⟩

theorem emptied_close (l : Lane) : l.Emptied l.close.2 := ⟨rfl, rfl, .inr ⟨rfl, Nat.lt_succ_self _⟩⟩

end Lane

/-! ## Outboxes -/

namespace Outbox

variable {o o' o'' : Outbox}

/-- No lane is taken away or given to another peer. -/
structure Keeps (o o' : Outbox) : Prop where
  size : o.lanes.size ≤ o'.lanes.size
  uri : ∀ i < o.lanes.size, (o'.lane i).uri = (o.lane i).uri

theorem Keeps.refl (o : Outbox) : o.Keeps o := ⟨Nat.le_refl _, fun _ _ => rfl⟩

theorem Keeps.trans (h : o.Keeps o') (h' : o'.Keeps o'') : o.Keeps o'' :=
  ⟨Nat.le_trans h.size h'.size, fun i hi => (h'.uri i (Nat.lt_of_lt_of_le hi h.size)).trans (h.uri i hi)⟩

theorem keeps_modify (o : Outbox) (i : Nat) {f : Lane → Lane} (hf : ∀ l, (f l).uri = l.uri) : o.Keeps (o.modify i f) := by
  refine ⟨Nat.le_of_eq (size_modify o i f).symm, fun j _ => ?_⟩
  rw [lane_modify]
  split
  · exact hf _
  · rfl

theorem keeps_land (o : Outbox) (i : Nat) (a : Attempt) (now : Nat) (spread : Float) : o.Keeps (o.land i a now spread) :=
  have h := o.keeps_modify i fun l => l.uri_land o.retry a now spread
  ⟨h.size, h.uri⟩

/-- An entry was put at the end of one lane, which is the one in use for a peer. -/
structure Puts (o : Outbox) (uri : String) (e : Entry) (i : Nat) (o' : Outbox) : Prop where
  waiting : (o'.lane i).waiting = (o.lane i).waiting ++ [e]
  flight : (o'.lane i).flight = (o.lane i).flight
  generation : (o'.lane i).generation = (o.lane i).generation
  others : ∀ j, j ≠ i → o'.lane j = o.lane j
  keeps : o.Keeps o'
  there : i < o'.lanes.size
  peer : (o'.lane i).uri = uri
  live : ∀ v, o'.laneOf? v = if v = uri then some i else o.laneOf? v
  reports : o'.reports = o.reports

/-- No entry comes or goes when a lane is opened. -/
theorem alike_opened (o : Outbox) (uri : String) (j : Nat) : (o.lane j).Alike ((o.opened uri).2.lane j) := by
  rcases o.lane_opened uri j with hsame | ⟨hj, hnew⟩
  · rw [hsame]
    exact .refl _
  · rw [hnew, lane_of_size_le hj]
    exact ⟨rfl, rfl, rfl⟩

theorem keeps_opened (o : Outbox) (uri : String) : o.Keeps (o.opened uri).2 := by
  unfold opened
  cases o.laneOf? uri with
  | some i => exact .refl o
  | none =>
    refine ⟨by simp, fun j hj => ?_⟩
    dsimp only
    rw [lane_push, if_neg (Nat.ne_of_lt hj)]

theorem keeps_enqueue (o : Outbox) (uri : String) (p : Parcel) (now : Nat) : o.Keeps (o.enqueue uri p now) :=
  have h := (o.keeps_opened uri).trans
    (keeps_modify _ (o.opened uri).1 fun l => (rfl : (l.enqueue p now).uri = l.uri))
  ⟨h.size, h.uri⟩

/-- Opening a lane leaves the others alone, and puts one in use. -/
theorem opened_frame (o : Outbox) (uri : String) :
    (∀ j, j ≠ (o.opened uri).1 → (o.opened uri).2.lane j = o.lane j) ∧ (o.opened uri).2.reports = o.reports ∧
      ∀ v, (o.opened uri).2.laneOf? v = if v = uri then some (o.opened uri).1 else o.laneOf? v := by
  unfold opened
  cases hi : o.laneOf? uri with
  | some i =>
    refine ⟨fun _ _ => rfl, rfl, fun v => ?_⟩
    by_cases hv : v = uri
    · rw [if_pos hv, hv, hi]
    · rw [if_neg hv]
  | none =>
    dsimp only
    refine ⟨fun j hj => ?_, rfl, fun v => Dict.get?_insert o.live uri v _⟩
    rw [lane_push, if_neg hj]

theorem puts_enqueue (h : o.Tidy) (uri : String) (p : Parcel) (now : Nat) :
    o.Puts uri ⟨p, 0, now⟩ (o.opened uri).1 (o.enqueue uri p now) := by
  obtain ⟨ht, hlive, -⟩ := opened_spec h uri
  obtain ⟨hthere, huri⟩ := ht uri _ hlive
  obtain ⟨hwaiting, hflight, hgeneration⟩ := o.alike_opened uri (o.opened uri).1
  obtain ⟨hsame, hreports, hlaneOf⟩ := o.opened_frame uri
  have hlane : ∀ j, (o.enqueue uri p now).lane j
      = if (o.opened uri).1 = j then ((o.opened uri).2.lane j).enqueue p now else (o.opened uri).2.lane j := by
    intro j
    have hmodify := lane_modify (o.opened uri).2 (o.opened uri).1 j fun l => l.enqueue p now
    by_cases hj : (o.opened uri).1 = j
    · rw [if_pos ⟨hj, hj ▸ hthere⟩] at hmodify
      rw [if_pos hj]
      exact hmodify
    · rw [if_neg fun hand => hj hand.1] at hmodify
      rw [if_neg hj]
      exact hmodify
  have hlength : (o.enqueue uri p now).lanes.size = (o.opened uri).2.lanes.size :=
    size_modify (o.opened uri).2 (o.opened uri).1 fun l => l.enqueue p now
  refine ⟨?_, ?_, ?_, fun j hj => ?_, o.keeps_enqueue uri p now, hlength ▸ hthere, ?_, hlaneOf, hreports⟩
  · rw [hlane, if_pos rfl, ← hwaiting]
    rfl
  · rw [hlane, if_pos rfl, ← hflight]
    rfl
  · rw [hlane, if_pos rfl, ← hgeneration]
    rfl
  · rw [hlane, if_neg (Ne.symm hj), hsame j hj]
  · rw [hlane, if_pos rfl]
    exact huri

/-- An entry goes to the end of a lane that is still in use. -/
theorem puts_of_live (h : o.Tidy) {uri : String} {i : Nat} (hi : o.laneOf? uri = some i) (p : Parcel) (now : Nat) :
    o.Puts uri ⟨p, 0, now⟩ i (o.enqueue uri p now) := by
  have hput := puts_enqueue h uri p now
  rwa [opened_of_live hi] at hput

/-- Only a delivery is reported. -/
theorem reports_land (o : Outbox) (i : Nat) (a : Attempt) (now : Nat) (spread : Float) :
    (o.land i a now spread).reports = o.reports ++ if a = .delivered then
      (o.lane i).flight.toList.map fun f => ⟨f.entry.parcel.id, (o.lane i).uri, f.entry.attempts⟩ else [] := by
  unfold land
  dsimp only
  cases a with
  | delivered => cases (o.lane i).flight <;> simp
  | again => simp
  | dropped => simp

/-- Nothing was done but that lanes were emptied, and those that went out of use were purged. -/
structure Sweeps (o o' : Outbox) : Prop where
  retry : o'.retry = o.retry
  reports : o'.reports = o.reports
  size : o'.lanes.size = o.lanes.size
  lane : ∀ i, (o.lane i).Emptied (o'.lane i)
  live : ∀ uri i, o'.laneOf? uri = some i → o.laneOf? uri = some i
  retired : ∀ uri i, o.laneOf? uri = some i → o'.laneOf? uri = none → (o.lane i).generation < (o'.lane i).generation

theorem Sweeps.refl (o : Outbox) : o.Sweeps o :=
  ⟨rfl, rfl, rfl, fun i => .refl _, fun _ _ h => h, fun uri i h h' => by rw [h] at h'; cases h'⟩

theorem Sweeps.tidy (h : o.Sweeps o') (ht : o.Tidy) : o'.Tidy := by
  intro uri i hi
  obtain ⟨hlt, huri⟩ := ht uri i (h.live uri i hi)
  exact ⟨h.size.symm ▸ hlt, (h.lane i).uri.trans huri⟩

theorem Sweeps.keeps (h : o.Sweeps o') : o.Keeps o' := ⟨Nat.le_of_eq h.size.symm, fun i _ => (h.lane i).uri⟩

theorem Sweeps.trans (h : o.Sweeps o') (h' : o'.Sweeps o'') : o.Sweeps o'' := by
  refine ⟨h'.retry.trans h.retry, h'.reports.trans h.reports, h'.size.trans h.size,
    fun i => (h.lane i).trans (h'.lane i), fun uri i hi => h.live uri i (h'.live uri i hi), fun uri i hi hgone => ?_⟩
  have hle := (h.lane i).generation_le
  have hle' := (h'.lane i).generation_le
  cases hmid : o'.laneOf? uri with
  | none =>
    exact Nat.lt_of_lt_of_le (h.retired uri i hi hmid) hle'
  | some j =>
    obtain rfl : j = i := Option.some.inj ((h.live uri j hmid).symm.trans hi)
    exact Nat.lt_of_le_of_lt hle (h'.retired uri j hmid hgone)

theorem emptied_modify (o : Outbox) (i j : Nat) {f : Lane → Lane} (hf : ∀ l : Lane, l.Emptied (f l)) :
    (o.lane j).Emptied ((o.modify i f).lane j) := by
  rw [lane_modify]
  split
  · exact hf _
  · exact .refl _

theorem sweeps_purge (o : Outbox) (uri : String) : o.Sweeps (o.purge uri).2 := by
  unfold purge
  cases o.laneOf? uri with
  | none => exact .refl o
  | some i =>
    refine ⟨rfl, rfl, size_modify _ _ _, fun j => emptied_modify o i j Lane.emptied_purge, fun _ _ h => h, ?_⟩
    intro v j hj hgone
    exact absurd (hj.symm.trans hgone) (by simp)

theorem laneOf?_purge (o : Outbox) (uri v : String) : (o.purge uri).2.laneOf? v = o.laneOf? v := by
  unfold purge
  cases o.laneOf? uri <;> rfl

theorem laneOf?_close (o : Outbox) (uri v : String) :
    (o.close uri).2.laneOf? v = if v = uri then none else o.laneOf? v := by
  unfold close
  cases hi : o.laneOf? uri with
  | none =>
    by_cases hv : v = uri
    · rw [if_pos hv, hv, hi]
    · rw [if_neg hv]
  | some i => exact Dict.get?_erase o.live uri v

theorem sweeps_close (h : o.Tidy) (uri : String) : o.Sweeps (o.close uri).2 := by
  have hlive := o.laneOf?_close uri
  have hlane : ∀ i, o.laneOf? uri = some i → (o.close uri).2.lane i = (o.lane i).close.2 := by
    intro i hi
    unfold close
    rw [hi]
    show (o.modify i fun l => l.close.2).lane i = _
    rw [lane_modify, if_pos ⟨rfl, (h uri i hi).1⟩]
  refine ⟨?_, ?_, ?_, fun j => ?_, fun v j hj => ?_, fun v j hj hgone => ?_⟩
  · unfold close
    cases o.laneOf? uri <;> rfl
  · unfold close
    cases o.laneOf? uri <;> rfl
  · unfold close
    cases o.laneOf? uri with
    | none => rfl
    | some i => exact size_modify _ _ _
  · unfold close
    cases o.laneOf? uri with
    | none => exact .refl _
    | some i => exact emptied_modify o i j Lane.emptied_close
  · rw [hlive] at hj
    by_cases hv : v = uri
    · simp [hv] at hj
    · rwa [if_neg hv] at hj
  · rw [hlive] at hgone
    by_cases hv : v = uri
    · subst hv
      rw [hlane j hj]
      exact Nat.lt_succ_self _
    · rw [if_neg hv, hj] at hgone
      cases hgone

/-- A lane is closed exactly if it is not in use. -/
def Sealed (o : Outbox) : Prop := ∀ i < o.lanes.size, (o.lane i).closed = true ↔ o.laneOf? (o.lane i).uri ≠ some i

theorem sealed_new (retry : Retry) : (new retry).Sealed := fun _ hi => absurd hi (Nat.not_lt_zero _)

theorem Sealed.modify (h : o.Sealed) (i : Nat) {f : Lane → Lane} (huri : ∀ l, (f l).uri = l.uri)
    (hclosed : ∀ l, (f l).closed = l.closed) : (o.modify i f).Sealed := by
  intro j hj
  rw [size_modify] at hj
  rw [lane_modify]
  split
  · rw [huri, hclosed]
    exact h j hj
  · exact h j hj

theorem Sealed.opened (h : o.Sealed) (uri : String) : (o.opened uri).2.Sealed := by
  unfold Outbox.opened
  cases hi : o.laneOf? uri with
  | some i => exact h
  | none =>
    have hlive : ∀ v, laneOf? { o with lanes := o.lanes.push (.new uri), live := o.live.insert uri o.lanes.size } v
        = if v = uri then some o.lanes.size else o.laneOf? v := fun v => Dict.get?_insert o.live uri v _
    intro j hj
    dsimp only at hj
    rw [Array.size_push] at hj
    dsimp only
    rw [lane_push, hlive]
    by_cases hj' : j = o.lanes.size
    · rw [if_pos hj', if_pos (show (Lane.new uri).uri = uri from rfl), hj']
      exact ⟨fun hc => (by cases hc), fun hne => absurd rfl hne⟩
    · rw [if_neg hj', h j (by omega)]
      by_cases hu : (o.lane j).uri = uri
      · rw [if_pos hu, hu, hi]
        simp [Ne.symm hj']
      · rw [if_neg hu]

theorem Sealed.enqueue (h : o.Sealed) (uri : String) (p : Parcel) (now : Nat) : (o.enqueue uri p now).Sealed :=
  (h.opened uri).modify (o.opened uri).1 (fun _ => rfl) fun _ => rfl

theorem Sealed.depart (h : o.Sealed) (i : Nat) : (o.modify i Lane.depart).Sealed :=
  h.modify i Lane.uri_depart Lane.closed_depart

theorem Sealed.land (h : o.Sealed) (i : Nat) (a : Attempt) (now : Nat) (spread : Float) : (o.land i a now spread).Sealed :=
  h.modify i (fun l => l.uri_land o.retry a now spread) fun l => l.closed_land o.retry a now spread

theorem Sealed.purge (h : o.Sealed) (uri : String) : (o.purge uri).2.Sealed := by
  unfold Outbox.purge
  cases o.laneOf? uri with
  | none => exact h
  | some i => exact h.modify i (fun _ => rfl) fun _ => rfl

theorem Sealed.close (h : o.Sealed) (ht : o.Tidy) (uri : String) : (o.close uri).2.Sealed := by
  unfold Outbox.close
  cases hi : o.laneOf? uri with
  | none => exact h
  | some i =>
    obtain ⟨hlt, huri⟩ := ht uri i hi
    intro j hj
    rw [show (o.modify i fun l => l.close.2).lanes.size = o.lanes.size from size_modify _ _ _] at hj
    have hlive : ∀ v, (o.live.erase uri).get? v = if v = uri then none else o.laneOf? v := Dict.get?_erase o.live uri
    show ((o.modify i fun l => l.close.2).lane j).closed = true
      ↔ (o.live.erase uri).get? ((o.modify i fun l => l.close.2).lane j).uri ≠ some j
    rw [lane_modify, hlive]
    by_cases hij : i = j
    · rw [if_pos ⟨hij, hj⟩, if_pos (show (o.lane j).close.2.uri = uri from hij ▸ huri)]
      exact ⟨fun _ => by simp, fun _ => rfl⟩
    · rw [if_neg fun hand => hij hand.1, h j hj]
      by_cases hu : (o.lane j).uri = uri
      · rw [if_pos hu, hu, hi]
        simp [hij]
      · rw [if_neg hu]

/-- The lanes of several peers are closed. -/
theorem sweeps_closeEach (h : o.Tidy) (ps : List Peer) : o.Sweeps (ps.foldl (fun o p => (o.close p.uri).2) o) := by
  induction ps generalizing o with
  | nil => exact .refl o
  | cons p ps ih =>
    have hone := sweeps_close h p.uri
    exact hone.trans (ih (hone.tidy h))

end Outbox

end ContentMesh
