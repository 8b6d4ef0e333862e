import ContentMesh.Outbox.Basic

/-!
# ContentMesh.Proofs.Outbox.Lanes — what a lane still has to deliver

`Lane.load` are the parcels of a lane that are not delivered or dropped, the one in flight first.  A new parcel goes
to the end of it, departing does not change it, and an attempt that is to be repeated puts it back as it was.
-/

namespace ContentMesh

/-! ## One lane -/

namespace Lane

variable {l : Lane}

/-- The parcels that a lane still has to deliver, in order. -/
def load (l : Lane) : List Parcel := l.flight.toList.map (·.entry.parcel) ++ l.waiting.map (·.parcel)

/-- The lane was not purged since its flight departed. -/
def Fresh (l : Lane) : Prop := ∀ f, l.flight = some f → f.generation = l.generation

theorem fresh_new (uri : String) : (new uri).Fresh := fun f hf => by cases hf

theorem load_enqueue (l : Lane) (p : Parcel) (now : Nat) : (l.enqueue p now).load = l.load ++ [p] := by
  simp [load, enqueue]

theorem Fresh.enqueue (h : l.Fresh) (p : Parcel) (now : Nat) : (l.enqueue p now).Fresh := h

theorem load_depart (l : Lane) : l.depart.load = l.load := by
  unfold depart load
  split
  · rename_i hf hw
    rw [hf, hw]
    rfl
  · rfl

theorem Fresh.depart (h : l.Fresh) : l.depart.Fresh := by
  unfold Lane.depart
  split
  · intro f hf
    cases hf
    rfl
  · exact h

theorem uri_depart (l : Lane) : l.depart.uri = l.uri := by
  unfold depart
  split <;> rfl

section Landing

variable {f : Flight} (hf : l.flight = some f) (retry : Retry) (now : Nat) (spread : Float)
include hf

theorem load_of_flight : l.load = f.entry.parcel :: l.waiting.map (·.parcel) := by
  rw [load, hf]
  rfl

theorem flight_land (a : Attempt) : (l.land retry a now spread).flight = none := by
  unfold land
  rw [hf]
  cases a with
  | delivered => rfl
  | dropped => rfl
  | again =>
    dsimp only
    split
    · rfl
    · split <;> rfl

/-- A parcel that was delivered or dropped leaves the load. -/
theorem load_land_done {a : Attempt} (ha : a ≠ .again) :
    (l.land retry a now spread).load = l.waiting.map (·.parcel) := by
  unfold land
  rw [hf]
  cases a with
  | delivered => rfl
  | dropped => rfl
  | again => exact absurd rfl ha

/-- An attempt that is to be repeated leaves the load as it was, where attempts are not limited. -/
theorem load_land_again (hr : retry.maxAttempts = none) (hfresh : l.Fresh) :
    (l.land retry .again now spread).load = l.load := by
  have hex : retry.exhausted f.entry.attempts = false := by
    unfold Retry.exhausted
    rw [hr]
  have hgen : (l.generation != f.generation) = false := by
    rw [hfresh f hf]
    simp
  rw [load_of_flight hf]
  unfold land
  rw [hf]
  simp only [hex, hgen, Bool.false_eq_true, if_false]
  rfl

end Landing

theorem mem_load_land {retry : Retry} {a : Attempt} {now : Nat} {spread : Float} {p : Parcel}
    (hp : p ∈ (l.land retry a now spread).load) : p ∈ l.load := by
  cases hf : l.flight with
  | none =>
    unfold land at hp
    rw [hf] at hp
    exact hp
  | some f =>
    rw [load_of_flight hf]
    unfold land at hp
    rw [hf] at hp
    cases a with
    | delivered => exact List.mem_cons_of_mem _ hp
    | dropped => exact List.mem_cons_of_mem _ hp
    | again =>
      dsimp only at hp
      split at hp
      · exact List.mem_cons_of_mem _ hp
      · split at hp
        · exact List.mem_cons_of_mem _ hp
        · exact hp

/-- Landing takes no parcel away but the one in flight. -/
theorem mem_load_of_land {f : Flight} (hf : l.flight = some f) (retry : Retry) (a : Attempt) (now : Nat)
    (spread : Float) {p : Parcel} (hp : p ∈ l.load) : p = f.entry.parcel ∨ p ∈ (l.land retry a now spread).load := by
  rw [load_of_flight hf] at hp
  rcases List.mem_cons.mp hp with hp | hp
  · exact Or.inl hp
  · right
    unfold land
    rw [hf]
    cases a with
    | delivered => exact hp
    | dropped => exact hp
    | again =>
      dsimp only
      split
      · exact hp
      · split
        · exact hp
        · exact List.mem_cons_of_mem _ hp

theorem Fresh.land (h : l.Fresh) (retry : Retry) (a : Attempt) (now : Nat) (spread : Float) :
    (l.land retry a now spread).Fresh := by
  cases hf : l.flight with
  | none =>
    unfold Lane.land
    rw [hf]
    exact h
  | some f =>
    intro g hg
    rw [flight_land hf] at hg
    cases hg

theorem uri_land (l : Lane) (retry : Retry) (a : Attempt) (now : Nat) (spread : Float) :
    (l.land retry a now spread).uri = l.uri := by
  unfold land
  cases l.flight with
  | none => rfl
  | some f =>
    cases a with
    | delivered => rfl
    | dropped => rfl
    | again =>
      dsimp only
      split
      · rfl
      · split <;> rfl

end Lane

/-! ## The lanes of a node -/

namespace Outbox

variable {o : Outbox}

/-- The lane in use for a peer is there, and is the lane of that peer. -/
def Tidy (o : Outbox) : Prop := ∀ uri i, o.laneOf? uri = some i → i < o.lanes.size ∧ (o.lane i).uri = uri

theorem tidy_new (retry : Retry) : (new retry).Tidy := fun uri i h => by cases h

theorem lane_modify (o : Outbox) (i j : Nat) (f : Lane → Lane) :
    (o.modify i f).lane j = if i = j ∧ j < o.lanes.size then f (o.lane j) else o.lane j := by
  unfold lane modify
  dsimp only
  rw [Array.getD_eq_getD_getElem?, Array.getD_eq_getD_getElem?, Array.getElem?_modify]
  by_cases hij : i = j
  · rw [if_pos hij]
    by_cases hj : j < o.lanes.size
    · rw [if_pos ⟨hij, hj⟩, Array.getElem?_eq_getElem hj]
      rfl
    · rw [if_neg (fun h => hj h.2), Array.getElem?_eq_none (Nat.le_of_not_lt hj)]
      rfl
  · rw [if_neg hij, if_neg (fun h => hij h.1)]

theorem size_modify (o : Outbox) (i : Nat) (f : Lane → Lane) : (o.modify i f).lanes.size = o.lanes.size :=
  Array.size_modify

theorem Tidy.modify (h : o.Tidy) (i : Nat) {f : Lane → Lane} (hf : ∀ l, (f l).uri = l.uri) : (o.modify i f).Tidy := by
  intro uri j hj
  obtain ⟨hlt, hu⟩ := h uri j hj
  refine ⟨by rw [size_modify]; exact hlt, ?_⟩
  rw [lane_modify]
  split
  · rw [hf, hu]
  · exact hu

/-- The lane in use for a peer; a new one if there is none. -/
def laneFor (o : Outbox) (uri : String) : Lane :=
  match o.laneOf? uri with
  | some i => o.lane i
  | none => .new uri

theorem laneFor_eq {uri : String} {i : Nat} (h : o.laneOf? uri = some i) : o.laneFor uri = o.lane i := by
  unfold laneFor
  rw [h]

theorem load_laneFor_of_empty (h : ∀ i, (o.lane i).load = []) (uri : String) : (o.laneFor uri).load = [] := by
  unfold laneFor
  cases o.laneOf? uri with
  | none => rfl
  | some i => exact h i

theorem laneFor_modify (h : o.Tidy) (i : Nat) (f : Lane → Lane) (uri : String) :
    (o.modify i f).laneFor uri = if o.laneOf? uri = some i then f (o.laneFor uri) else o.laneFor uri := by
  have hlive : (o.modify i f).laneOf? uri = o.laneOf? uri := rfl
  unfold laneFor
  rw [hlive]
  cases hj : o.laneOf? uri with
  | none => rfl
  | some j =>
    dsimp only
    rw [lane_modify]
    by_cases hij : i = j
    · rw [if_pos ⟨hij, (h uri j hj).1⟩, if_pos (by rw [hij])]
    · rw [if_neg (fun h => hij h.1), if_neg (fun h => hij (Option.some.inj h).symm)]

theorem lane_push (o : Outbox) (l : Lane) (live : Dict Nat) (j : Nat) :
    lane { o with lanes := o.lanes.push l, live } j = if j = o.lanes.size then l else o.lane j := by
  unfold lane
  dsimp only
  rw [Array.getD_eq_getD_getElem?, Array.getD_eq_getD_getElem?, Array.getElem?_push]
  by_cases hj : j = o.lanes.size
  · rw [if_pos hj, if_pos hj]
    rfl
  · rw [if_neg hj, if_neg hj]

/-- Opening a lane keeps the lanes in use as they are, and gives the one for the peer. -/
theorem opened_spec (h : o.Tidy) (uri : String) :
    (o.opened uri).2.Tidy ∧ (o.opened uri).2.laneOf? uri = some (o.opened uri).1 ∧
      ∀ uri', (o.opened uri).2.laneFor uri' = o.laneFor uri' := by
  unfold opened
  cases hi : o.laneOf? uri with
  | some i => exact ⟨h, hi, fun _ => rfl⟩
  | none =>
    have hlive : ∀ uri', laneOf? { o with
        lanes := o.lanes.push (.new uri), live := o.live.insert uri o.lanes.size } uri'
          = if uri' = uri then some o.lanes.size else o.laneOf? uri' :=
      fun uri' => Dict.get?_insert o.live uri uri' o.lanes.size
    refine ⟨fun uri' j hj => ?_, by rw [hlive, if_pos rfl], fun uri' => ?_⟩
    · rw [hlive] at hj
      rw [lane_push, Array.size_push]
      by_cases hu : uri' = uri
      · rw [if_pos hu] at hj
        cases hj
        exact ⟨Nat.lt_succ_self _, by rw [if_pos rfl, hu]; rfl⟩
      · rw [if_neg hu] at hj
        obtain ⟨hlt, hlane⟩ := h uri' j hj
        rw [if_neg (Nat.ne_of_lt hlt)]
        exact ⟨Nat.lt_succ_of_lt hlt, hlane⟩
    · by_cases hu : uri' = uri
      · rw [laneFor_eq ((hlive uri').trans (if_pos hu)), lane_push, if_pos rfl, hu, laneFor, hi]
      · cases hj : o.laneOf? uri' with
        | none =>
          unfold laneFor
          rw [hlive, if_neg hu, hj]
        | some j =>
          have hne := Nat.ne_of_lt (h uri' j hj).1
          rw [laneFor_eq ((hlive uri').trans ((if_neg hu).trans hj)), lane_push, if_neg hne, laneFor_eq hj]

theorem laneOf?_opened (o : Outbox) (uri : String) : (o.opened uri).2.laneOf? uri = some (o.opened uri).1 := by
  unfold opened
  cases hi : o.laneOf? uri with
  | some i => exact hi
  | none => exact (Dict.get?_insert ..).trans (if_pos rfl)

/-- A lane that was just found takes a parcel. -/
theorem push?_opened (o : Outbox) (uri : String) (p : Parcel) (now : Nat) :
    (o.opened uri).2.push? uri (o.opened uri).1 p now = some (o.enqueue uri p now) := if_pos (o.laneOf?_opened uri)

theorem opened_of_live {uri : String} {i : Nat} (hi : o.laneOf? uri = some i) : o.opened uri = (i, o) := by
  unfold opened
  rw [hi]

/-- A lane that is still in use takes a parcel as one that is looked up now. -/
theorem push?_of_live {uri : String} {i : Nat} (hi : o.laneOf? uri = some i) (p : Parcel) (now : Nat) :
    o.push? uri i p now = some (o.enqueue uri p now) := by
  have hpush := o.push?_opened uri p now
  rwa [opened_of_live hi] at hpush

theorem Tidy.enqueue (h : o.Tidy) (uri : String) (p : Parcel) (now : Nat) : (o.enqueue uri p now).Tidy :=
  (opened_spec h uri).1.modify _ fun _ => rfl

/-- A parcel goes to the end of one lane. -/
theorem laneFor_enqueue (h : o.Tidy) (uri uri' : String) (p : Parcel) (now : Nat) :
    (o.enqueue uri p now).laneFor uri' = if uri' = uri then (o.laneFor uri').enqueue p now else o.laneFor uri' := by
  obtain ⟨ht, hlive, hsame⟩ := opened_spec h uri
  have hmod := laneFor_modify ht (o.opened uri).1 (fun l => l.enqueue p now) uri'
  rw [hsame] at hmod
  refine hmod.trans ?_
  by_cases hu : uri' = uri
  · rw [if_pos (by rw [hu, hlive]), if_pos hu]
  · refine (if_neg fun hj => hu ?_).trans (if_neg hu).symm
    rw [← (ht uri' _ hj).2, (ht uri _ hlive).2]

theorem closed_enqueue (o : Outbox) (uri : String) (p : Parcel) (now : Nat) :
    (o.enqueue uri p now).closed = o.closed := by
  unfold enqueue opened
  cases o.laneOf? uri <;> rfl

theorem retry_opened (o : Outbox) (uri : String) : (o.opened uri).2.retry = o.retry := by
  unfold opened
  cases o.laneOf? uri <;> rfl

theorem retry_enqueue (o : Outbox) (uri : String) (p : Parcel) (now : Nat) : (o.enqueue uri p now).retry = o.retry := by
  unfold enqueue opened
  cases o.laneOf? uri <;> rfl

/-- A parcel at the end of several lanes, in order. -/
def enqueueEach (o : Outbox) (uris : List String) (p : Parcel) (now : Nat) : Outbox :=
  uris.foldl (fun o uri => o.enqueue uri p now) o

theorem enqueueEach_cons (o : Outbox) (uri : String) (uris : List String) (p : Parcel) (now : Nat) :
    o.enqueueEach (uri :: uris) p now = (o.enqueue uri p now).enqueueEach uris p now := rfl

theorem Tidy.land (h : o.Tidy) (i : Nat) (a : Attempt) (now : Nat) (spread : Float) : (o.land i a now spread).Tidy :=
  h.modify i fun l => l.uri_land o.retry a now spread

theorem laneFor_land (h : o.Tidy) (i : Nat) (a : Attempt) (now : Nat) (spread : Float) (uri : String) :
    (o.land i a now spread).laneFor uri
      = if o.laneOf? uri = some i then (o.laneFor uri).land o.retry a now spread else o.laneFor uri :=
  laneFor_modify h i (fun l => l.land o.retry a now spread) uri

/-! ## Attempts -/

theorem lane_depart (o : Outbox) (i j : Nat) :
    (o.modify i Lane.depart).lane j = if i = j then (o.lane j).depart else o.lane j := by
  rw [lane_modify]
  by_cases hij : i = j
  · rw [if_pos hij]
    by_cases hj : j < o.lanes.size
    · rw [if_pos ⟨hij, hj⟩]
    · rw [if_neg (fun h => hj h.2), lane, Array.getD_eq_getD_getElem?, Array.getElem?_eq_none (Nat.le_of_not_lt hj)]
      rfl
  · rw [if_neg hij, if_neg (fun h => hij h.1)]

theorem lane_land (o : Outbox) (i j : Nat) (a : Attempt) (now : Nat) (spread : Float) :
    (o.land i a now spread).lane j = if i = j then (o.lane j).land o.retry a now spread else o.lane j := by
  refine (lane_modify o i j fun l => l.land o.retry a now spread).trans ?_
  by_cases hij : i = j
  · rw [if_pos hij]
    by_cases hj : j < o.lanes.size
    · rw [if_pos ⟨hij, hj⟩]
    · rw [if_neg (fun h => hj h.2), lane, Array.getD_eq_getD_getElem?, Array.getElem?_eq_none (Nat.le_of_not_lt hj)]
      rfl
  · rw [if_neg hij, if_neg (fun h => hij h.1)]

theorem mem_load_of_lane_land {i j : Nat} {a : Attempt} {now : Nat} {spread : Float} {p : Parcel}
    (hp : p ∈ ((o.land i a now spread).lane j).load) :
    p ∈ (o.lane j).load ∧ ((o.land i a now spread).lane j).uri = (o.lane j).uri := by
  rw [lane_land] at hp ⊢
  by_cases hij : i = j
  · rw [if_pos hij] at hp ⊢
    exact ⟨Lane.mem_load_land hp, Lane.uri_land _ _ _ _ _⟩
  · rw [if_neg hij] at hp ⊢
    exact ⟨hp, rfl⟩

/-! ## Adding parcels -/

theorem lane_of_size_le {i : Nat} (h : o.lanes.size ≤ i) : o.lane i = .new "" := by
  unfold lane
  rw [Array.getD_eq_getD_getElem?, Array.getElem?_eq_none h]
  rfl

/-- A lane that has a flight is there. -/
theorem lt_size_of_flight {i : Nat} {f : Flight} (h : (o.lane i).flight = some f) : i < o.lanes.size := by
  refine Nat.lt_of_not_le fun hle => ?_
  rw [lane_of_size_le hle] at h
  cases h

/-- Opening a lane leaves the others alone. -/
theorem lane_opened (o : Outbox) (uri : String) (j : Nat) :
    (o.opened uri).2.lane j = o.lane j ∨ (o.lanes.size ≤ j ∧ (o.opened uri).2.lane j = .new uri) := by
  unfold opened
  cases o.laneOf? uri with
  | some i => exact Or.inl rfl
  | none =>
    dsimp only
    rw [lane_push]
    by_cases hj : j = o.lanes.size
    · rw [if_pos hj]
      exact Or.inr ⟨Nat.le_of_eq hj.symm, rfl⟩
    · rw [if_neg hj]
      exact Or.inl rfl

/-- `o'` is `o` after parcels were put at the ends of lanes; `new uri p` says that `p` went to the lane for `uri`. -/
structure Adds (o : Outbox) (new : String → Parcel → Prop) (o' : Outbox) : Prop where
  tidy : o'.Tidy
  retry : o'.retry = o.retry
  closed : o'.closed = o.closed
  flight : ∀ i f, (o.lane i).flight = some f → (o'.lane i).flight = some f ∧ (o'.lane i).uri = (o.lane i).uri
  fresh : (∀ uri, (o.laneFor uri).Fresh) → ∀ uri, (o'.laneFor uri).Fresh
  kept : ∀ uri p, p ∈ (o.laneFor uri).load → p ∈ (o'.laneFor uri).load
  added : ∀ uri p, new uri p → p ∈ (o'.laneFor uri).load
  only : ∀ i p, p ∈ (o'.lane i).load →
    (p ∈ (o.lane i).load ∧ (o'.lane i).uri = (o.lane i).uri) ∨ new (o'.lane i).uri p

variable {o' o'' : Outbox} {new new' : String → Parcel → Prop}

theorem Adds.refl (h : o.Tidy) : o.Adds (fun _ _ => False) o where
  tidy := h
  retry := rfl
  closed := rfl
  flight _ _ hf := ⟨hf, rfl⟩
  fresh hf := hf
  kept _ _ hp := hp
  added _ _ hp := hp.elim
  only _ _ hp := Or.inl ⟨hp, rfl⟩

theorem Adds.trans (h : o.Adds new o') (h' : o'.Adds new' o'') : o.Adds (fun uri p => new uri p ∨ new' uri p) o'' where
  tidy := h'.tidy
  retry := h'.retry.trans h.retry
  closed := h'.closed.trans h.closed
  flight i f hf := by
    obtain ⟨h1, h2⟩ := h.flight i f hf
    obtain ⟨h3, h4⟩ := h'.flight i f h1
    exact ⟨h3, h4.trans h2⟩
  fresh hf := h'.fresh (h.fresh hf)
  kept uri p hp := h'.kept uri p (h.kept uri p hp)
  added uri p hp := by
    rcases hp with hp | hp
    · exact h'.kept uri p (h.added uri p hp)
    · exact h'.added uri p hp
  only i p hp := by
    rcases h'.only i p hp with ⟨hp', hu'⟩ | hn
    · rcases h.only i p hp' with ⟨hp, hu⟩ | hn
      · exact Or.inl ⟨hp, hu'.trans hu⟩
      · exact Or.inr (Or.inl (hu' ▸ hn))
    · exact Or.inr (Or.inr hn)

theorem Adds.congr (h : o.Adds new o') (heq : ∀ uri p, new uri p ↔ new' uri p) : o.Adds new' o' := by
  obtain rfl : new = new' := funext fun uri => funext fun p => propext (heq uri p)
  exact h

theorem adds_enqueue (h : o.Tidy) (uri : String) (p : Parcel) (now : Nat) :
    o.Adds (fun uri' q => uri' = uri ∧ q = p) (o.enqueue uri p now) := by
  obtain ⟨ht, hlive, -⟩ := opened_spec h uri
  have hfor := laneFor_enqueue h uri
  have hlane : ∀ j, (o.enqueue uri p now).lane j
      = if (o.opened uri).1 = j ∧ j < (o.opened uri).2.lanes.size then ((o.opened uri).2.lane j).enqueue p now
        else (o.opened uri).2.lane j := fun j => lane_modify _ _ _ _
  refine ⟨h.enqueue uri p now, retry_enqueue _ _ _ _, closed_enqueue _ _ _ _, fun i f hf => ?_, fun hf uri' => ?_,
    fun uri' q hq => ?_, fun uri' q hq => ?_, fun i q hq => ?_⟩
  · have hsame : (o.opened uri).2.lane i = o.lane i := by
      rcases lane_opened o uri i with hs | ⟨hle, -⟩
      · exact hs
      · exact absurd (lt_size_of_flight hf) (Nat.not_lt_of_le hle)
    rw [hlane, hsame]
    split
    · exact ⟨hf, rfl⟩
    · exact ⟨hf, rfl⟩
  · rw [hfor]
    split
    · exact (hf uri').enqueue p now
    · exact hf uri'
  · rw [hfor]
    split
    · rw [Lane.load_enqueue]
      exact List.mem_append_left _ hq
    · exact hq
  · rw [hfor, if_pos hq.1, Lane.load_enqueue, hq.2]
    exact List.mem_append_right _ List.mem_cons_self
  · have hold : q ∈ ((o.opened uri).2.lane i).load →
        q ∈ (o.lane i).load ∧ ((o.opened uri).2.lane i).uri = (o.lane i).uri := by
      intro hq
      rcases lane_opened o uri i with hs | ⟨-, hs⟩
      · rw [hs] at hq ⊢
        exact ⟨hq, rfl⟩
      · rw [hs] at hq
        cases hq
    rw [hlane] at hq ⊢
    by_cases hi : (o.opened uri).1 = i ∧ i < (o.opened uri).2.lanes.size
    · rw [if_pos hi, Lane.load_enqueue] at hq
      rw [if_pos hi]
      rcases List.mem_append.mp hq with hq | hq
      · exact Or.inl (hold hq)
      · refine Or.inr ⟨?_, List.mem_singleton.mp hq⟩
        show ((o.opened uri).2.lane i).uri = uri
        rw [← hi.1]
        exact (ht uri _ hlive).2
    · rw [if_neg hi] at hq ⊢
      exact Or.inl (hold hq)

theorem adds_foldl (h : o.Tidy) (copies : List (String × Parcel × Nat)) :
    o.Adds (fun uri p => ∃ c ∈ copies, c.1 = uri ∧ c.2.1 = p)
      (copies.foldl (fun o c => o.enqueue c.1 c.2.1 c.2.2) o) := by
  induction copies generalizing o with
  | nil =>
    refine (Adds.refl h).congr fun uri p => ⟨False.elim, ?_⟩
    rintro ⟨c, hc, -⟩
    cases hc
  | cons c cs ih =>
    have hone := adds_enqueue h c.1 c.2.1 c.2.2
    refine (hone.trans (ih hone.tidy)).congr fun uri p => ⟨?_, ?_⟩
    · rintro (⟨hu, hp⟩ | ⟨d, hd, hu, hp⟩)
      · exact ⟨c, List.mem_cons_self, hu.symm, hp.symm⟩
      · exact ⟨d, List.mem_cons_of_mem _ hd, hu, hp⟩
    · rintro ⟨d, hd, hu, hp⟩
      rcases List.mem_cons.mp hd with rfl | hd
      · exact Or.inl ⟨hu.symm, hp.symm⟩
      · exact Or.inr ⟨d, hd, hu, hp⟩

/-- A copy goes into the lane of each of several peers. -/
theorem adds_enqueueEach (h : o.Tidy) (uris : List String) (p : Parcel) (now : Nat) :
    o.Adds (fun uri q => uri ∈ uris ∧ q = p) (o.enqueueEach uris p now) := by
  have hfold : o.enqueueEach uris p now
      = (uris.map fun uri => (uri, p, now)).foldl (fun o c => o.enqueue c.1 c.2.1 c.2.2) o := by
    rw [List.foldl_map]
    rfl
  rw [hfold]
  refine (adds_foldl h _).congr fun uri q => ⟨?_, ?_⟩
  · rintro ⟨c, hc, rfl, rfl⟩
    obtain ⟨uri', hu, rfl⟩ := List.mem_map.mp hc
    exact ⟨hu, rfl⟩
  · rintro ⟨hu, rfl⟩
    exact ⟨_, List.mem_map_of_mem hu, rfl, rfl⟩

end Outbox

end ContentMesh
