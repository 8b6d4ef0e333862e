import Mathlib.Data.List.Forall2
import Mathlib.Data.List.Nodup
import ContentMesh.Proofs.Outbox.Sweeps

/-!
# ContentMesh.Proofs.Outbox.Rolls — what becomes of the entries of a lane

The entries of all lanes are numbered as they come in.  A roll is kept beside a lane and only looks on: it says which
numbers wait, which one is in flight, which were finished and in which order, and which were discarded.  The one
equation that every step of the lane keeps (`Roll.Tells`) is that the numbers of the lane in the order of their coming,
without those discarded, are those finished, the one in flight, and those that wait.
-/

namespace ContentMesh

/-! ## Rolls -/

/-- An entry as it came in. -/
structure Docket where
  lane : Nat
  uri : String
  parcel : Parcel

/-- What became of the entries of a lane; `purged` are those that a purge met, be it waiting or in flight. -/
structure Roll where
  finished : List Nat
  flying : Option Nat
  waiting : List Nat
  discarded : List Nat
  purged : List Nat

/-- The numbers of the entries that came into a lane, in the order of their coming. -/
def numbers (entered : List Docket) (i : Nat) : List Nat :=
  (List.range entered.length).filter fun k => (entered[k]?).any (·.lane == i)

theorem mem_numbers {entered : List Docket} {i k : Nat} :
    k ∈ numbers entered i ↔ ∃ d, entered[k]? = some d ∧ d.lane = i := by
  simp only [numbers, List.mem_filter, List.mem_range, Option.any_eq_true, beq_iff_eq]
  constructor
  · exact fun h => h.2
  · rintro ⟨d, hd, hi⟩
    exact ⟨(List.getElem?_eq_some_iff.mp hd).1, d, hd, hi⟩

theorem lt_of_numbers {entered : List Docket} {i k : Nat} (h : k ∈ numbers entered i) : k < entered.length := by
  obtain ⟨d, hd, -⟩ := mem_numbers.mp h
  exact (List.getElem?_eq_some_iff.mp hd).1

/-- An entry came into one lane. -/
theorem numbers_unique {entered : List Docket} {i j k : Nat} (hi : k ∈ numbers entered i) (hj : k ∈ numbers entered j) :
    i = j := by
  obtain ⟨d, hd, rfl⟩ := mem_numbers.mp hi
  obtain ⟨c, hc, rfl⟩ := mem_numbers.mp hj
  rw [Option.some.inj (hd.symm.trans hc)]

theorem nodup_numbers (entered : List Docket) (i : Nat) : (numbers entered i).Nodup := List.nodup_range.filter _

theorem numbers_concat (entered : List Docket) (d : Docket) (i : Nat) :
    numbers (entered ++ [d]) i = numbers entered i ++ if d.lane = i then [entered.length] else [] := by
  unfold numbers
  rw [List.length_append, List.length_singleton, List.range_succ, List.filter_append]
  congr 1
  · refine List.filter_congr fun k hk => ?_
    rw [List.getElem?_append_left (List.mem_range.mp hk)]
  · by_cases hd : d.lane = i <;> simp [hd]

namespace Roll

/-- The roll of a new lane. -/
def blank : Roll := ⟨[], none, [], [], []⟩

/-- A new number goes to the end. -/
def enter (r : Roll) (k : Nat) : Roll := { r with waiting := r.waiting ++ [k] }

/-- The first number goes into flight, or is finished at once. -/
def depart (r : Roll) (flies : Bool) : Roll :=
  match r.waiting with
  | [] => r
  | k :: ks =>
    if flies then { r with waiting := ks, flying := some k }
    else { r with waiting := ks, finished := r.finished ++ [k] }

/-- What became of the number in flight is seen from the lane before and after: it stands at the head again, or was
counted as delivered or dropped, or else was discarded. -/
def land (r : Roll) (l l' : Lane) : Roll :=
  match r.flying with
  | none => r
  | some k =>
    if l.waiting.length < l'.waiting.length then { r with flying := none, waiting := k :: r.waiting }
    else if l.tally.delivered + l.tally.dropped < l'.tally.delivered + l'.tally.dropped then
      { r with flying := none, finished := r.finished ++ [k] }
    else { r with flying := none, discarded := r.discarded ++ [k] }

/-- Where the lane was purged, what waited is discarded. -/
def sweep (r : Roll) (l l' : Lane) : Roll :=
  if l.generation < l'.generation then
    { r with
      waiting := []
      discarded := r.discarded ++ r.waiting
      purged := r.purged ++ (r.flying.toList ++ r.waiting) }
  else r

/-- The number of an entry that waits, sent so often, and not so often that it would be given up. -/
structure Marks (entered : List Docket) (sends : Nat → Nat) (retry : Retry) (k : Nat) (e : Entry) : Prop where
  parcel : (entered[k]?).map (·.parcel) = some e.parcel
  sends : sends k = e.attempts
  allowed : e.attempts = 0 ∨ retry.exhausted e.attempts = false

/-- The number of the entry in flight. -/
structure Follows (entered : List Docket) (sends : Nat → Nat) (generation : Nat) (k : Nat) (f : Flight) : Prop where
  parcel : (entered[k]?).map (·.parcel) = some f.entry.parcel
  sends : sends k = f.entry.attempts
  generation : f.generation ≤ generation

theorem finished_depart (r : Roll) (flies : Bool) {k : Nat} (h : k ∈ r.finished) : k ∈ (r.depart flies).finished := by
  unfold depart
  split
  · exact h
  · cases flies with
    | true => exact h
    | false => exact List.mem_append_left _ h

theorem finished_land (r : Roll) (l l' : Lane) {k : Nat} (h : k ∈ r.finished) : k ∈ (r.land l l').finished := by
  unfold land
  split
  · exact h
  · split
    · exact h
    · split
      · exact List.mem_append_left _ h
      · exact h

theorem finished_sweep (r : Roll) (l l' : Lane) : (r.sweep l l').finished = r.finished := by
  unfold sweep
  split <;> rfl

theorem flying_sweep (r : Roll) (l l' : Lane) : (r.sweep l l').flying = r.flying := by
  unfold sweep
  split <;> rfl

/-- Numbers stay finished where one roll of several goes on. -/
theorem finished_update {roll : Nat → Roll} {i j k : Nat} {r : Roll} (hr : ∀ k ∈ (roll i).finished, k ∈ r.finished)
    (hk : k ∈ (roll j).finished) : k ∈ (Function.update roll i r j).finished := by
  by_cases hj : j = i
  · subst hj
    rw [Function.update_self]
    exact hr k hk
  · rwa [Function.update_of_ne hj]

/-! ### How a flight ends -/

section Landing

variable {r : Roll} {l : Lane} {k : Nat} {f : Flight} (hk : r.flying = some k) (hf : l.flight = some f) (retry : Retry)
  (now : Nat) (spread : Float)

include hk hf

theorem land_done {a : Attempt} (ha : a ≠ .again ∨ retry.exhausted f.entry.attempts = true) :
    r.land l (l.land retry a now spread) = { r with flying := none, finished := r.finished ++ [k] } ∧
      (l.land retry a now spread).waiting = l.waiting := by
  unfold Roll.land Lane.land
  rw [hk, hf]
  cases a with
  | delivered => simp
  | dropped => simp
  | again =>
    have hx := ha.resolve_left (by simp)
    simp [hx]

theorem land_again (hx : retry.exhausted f.entry.attempts = false) (hg : f.generation = l.generation) :
    r.land l (l.land retry .again now spread) = { r with flying := none, waiting := k :: r.waiting } ∧
      (l.land retry .again now spread).waiting
        = { f.entry with due := now + retry.delay f.entry.attempts spread } :: l.waiting := by
  unfold Roll.land Lane.land
  rw [hk, hf]
  simp [hx, hg]

theorem land_stale (hx : retry.exhausted f.entry.attempts = false) (hg : f.generation ≠ l.generation) :
    r.land l (l.land retry .again now spread) = { r with flying := none, discarded := r.discarded ++ [k] } ∧
      (l.land retry .again now spread).waiting = l.waiting := by
  have hne : l.generation ≠ f.generation := Ne.symm hg
  unfold Roll.land Lane.land
  rw [hk, hf]
  simp [hx, hne]

end Landing

/-- How a flight ends: there was none; or its number is finished, stands at the head again, or is discarded because the
lane was purged meanwhile. -/
inductive Landed (retry : Retry) (r : Roll) (l : Lane) : Roll → Lane → Prop where
  | idle (hf : l.flight = none) : Landed retry r l r l
  | done {k : Nat} {f : Flight} {l' : Lane} (hk : r.flying = some k) (hf : l.flight = some f)
      (hw : l'.waiting = l.waiting) (hl : l'.flight = none) :
      Landed retry r l { r with flying := none, finished := r.finished ++ [k] } l'
  | again {k : Nat} {f : Flight} {l' : Lane} (due : Nat) (hk : r.flying = some k) (hf : l.flight = some f)
      (hx : retry.exhausted f.entry.attempts = false) (hg : f.generation = l.generation)
      (hw : l'.waiting = { f.entry with due } :: l.waiting) (hl : l'.flight = none) :
      Landed retry r l { r with flying := none, waiting := k :: r.waiting } l'
  | stale {k : Nat} {f : Flight} {l' : Lane} (hk : r.flying = some k) (hf : l.flight = some f)
      (hg : f.generation ≠ l.generation) (hw : l'.waiting = l.waiting) (hl : l'.flight = none) :
      Landed retry r l { r with flying := none, discarded := r.discarded ++ [k] } l'

theorem landed {r : Roll} {l : Lane} (h : r.flying = none ↔ l.flight = none) (retry : Retry) (a : Attempt) (now : Nat)
    (spread : Float) : Landed retry r l (r.land l (l.land retry a now spread)) (l.land retry a now spread) := by
  cases hf : l.flight with
  | none =>
    have hroll : r.land l (l.land retry a now spread) = r := by
      unfold Roll.land
      rw [h.mpr hf]
    have hland : l.land retry a now spread = l := by
      unfold Lane.land
      rw [hf]
    rw [hroll, hland]
    exact .idle hf
  | some f =>
    obtain ⟨k, hk⟩ : ∃ k, r.flying = some k :=
      Option.ne_none_iff_exists'.mp fun hnone => by simp [h.mp hnone] at hf
    have hflight := l.flight_land hf retry now spread a
    by_cases hdone : a ≠ .again ∨ retry.exhausted f.entry.attempts = true
    · obtain ⟨hroll, hwaiting⟩ := land_done hk hf retry now spread hdone
      rw [hroll]
      exact .done hk hf hwaiting hflight
    · obtain ⟨hagain, hx⟩ := not_or.mp hdone
      obtain rfl : a = .again := by simpa using hagain
      have hx : retry.exhausted f.entry.attempts = false := by simpa using hx
      by_cases hg : f.generation = l.generation
      · obtain ⟨hroll, hwaiting⟩ := land_again hk hf retry now spread hx hg
        rw [hroll]
        exact .again _ hk hf hx hg hwaiting hflight
      · obtain ⟨hroll, hwaiting⟩ := land_stale hk hf retry now spread hx hg
        rw [hroll]
        exact .stale hk hf hg hwaiting hflight

/-! ## Rolls of lanes -/

/-- A roll belongs to a lane. -/
structure Tells (entered : List Docket) (sends : Nat → Nat) (retry : Retry) (i : Nat) (r : Roll) (l : Lane) : Prop where
  known : ∀ k ∈ r.discarded, k ∈ numbers entered i
  purged : ∀ k ∈ r.discarded, k ∈ r.purged
  stale : ∀ k f, r.flying = some k → l.flight = some f → f.generation ≠ l.generation → k ∈ r.purged
  order : (numbers entered i).filter (· ∉ r.discarded) = r.finished ++ r.flying.toList ++ r.waiting
  waiting : List.Forall₂ (Marks entered sends retry) r.waiting l.waiting
  flying : List.Forall₂ (Follows entered sends l.generation) r.flying.toList l.flight.toList

variable {entered : List Docket} {sends sends' : Nat → Nat} {retry : Retry} {i k : Nat} {r : Roll} {l l' : Lane}

theorem tells_blank (entered : List Docket) (sends : Nat → Nat) (retry : Retry) {i : Nat} (hi : numbers entered i = [])
    (uri : String) : blank.Tells entered sends retry i (.new uri) :=
  ⟨fun _ hk => absurd hk List.not_mem_nil, fun _ hk => absurd hk List.not_mem_nil, fun k f hk => (by cases hk),
    (by rw [hi]; rfl), .nil, .nil⟩

/-- What holds of numbers and their entries may be weakened with the numbers at hand. -/
theorem forall₂_weaken {α : Type} {R S : Nat → α → Prop} {ks : List Nat} {xs : List α} (h : List.Forall₂ R ks xs)
    (hRS : ∀ k ∈ ks, ∀ x, R k x → S k x) : List.Forall₂ S ks xs := by
  obtain ⟨hlength, hR⟩ := List.forall₂_iff_zip.mp h
  exact List.forall₂_iff_zip.mpr ⟨hlength, fun hkx => hRS _ (List.of_mem_zip hkx).1 _ (hR hkx)⟩

theorem parcel_concat {x : Parcel} (h : (entered[k]?).map (·.parcel) = some x) (d : Docket) :
    ((entered ++ [d])[k]?).map (·.parcel) = some x := by
  obtain ⟨c, hc, -⟩ := Option.map_eq_some_iff.mp h
  rwa [List.getElem?_append_left (List.getElem?_eq_some_iff.mp hc).1]

namespace Tells

theorem waiting_nil (h : r.Tells entered sends retry i l) (hw : l.waiting = []) : r.waiting = [] := by
  have hwaiting := h.waiting
  rw [hw] at hwaiting
  exact List.forall₂_nil_right_iff.mp hwaiting

theorem mem (h : r.Tells entered sends retry i l) (hk : k ∈ r.finished ∨ r.flying = some k ∨ k ∈ r.waiting) :
    k ∈ numbers entered i := by
  have hmem : k ∈ (numbers entered i).filter (· ∉ r.discarded) := by
    rw [h.order]
    rcases hk with hk | hk | hk <;> simp [hk]
  exact (List.mem_filter.mp hmem).1

theorem nodup (h : r.Tells entered sends retry i l) : (r.finished ++ r.flying.toList ++ r.waiting).Nodup := by
  rw [← h.order]
  exact (nodup_numbers entered i).filter _

theorem not_mem_finished (h : r.Tells entered sends retry i l) (hk : r.flying = some k ∨ k ∈ r.waiting) :
    k ∉ r.finished := by
  intro hdone
  obtain ⟨hnodup, -, hwaiting⟩ := List.nodup_append.mp h.nodup
  obtain ⟨-, -, hflying⟩ := List.nodup_append.mp hnodup
  rcases hk with hk | hk
  · exact hflying k hdone k (by simp [hk]) rfl
  · exact hwaiting k (List.mem_append_left _ hdone) k hk rfl

/-- Numbers that are discarded in their turn are taken out of the middle. -/
theorem order_discard {ks d a xs b : List Nat} (hks : ks.Nodup) (h : ks.filter (· ∉ d) = a ++ xs ++ b) :
    ks.filter (· ∉ d ++ xs) = a ++ b := by
  have hnodup : (a ++ xs ++ b).Nodup := h ▸ hks.filter _
  have hsplit : ks.filter (· ∉ d ++ xs) = (ks.filter (· ∉ d)).filter (· ∉ xs) := by
    rw [List.filter_filter]
    refine List.filter_congr fun k _ => ?_
    simp [Bool.and_comm]
  obtain ⟨hax, -, hb⟩ := List.nodup_append.mp hnodup
  obtain ⟨-, -, ha⟩ := List.nodup_append.mp hax
  rw [hsplit, h, List.filter_append, List.filter_append]
  have hxs : xs.filter (· ∉ xs) = [] := List.filter_eq_nil_iff.mpr fun k hk => by simpa using hk
  have hleft : a.filter (· ∉ xs) = a := List.filter_eq_self.mpr fun k hk => by
    have hne := ha k hk
    simpa using fun hx => hne k hx rfl
  have hright : b.filter (· ∉ xs) = b := List.filter_eq_self.mpr fun k hk => by
    have hne := fun x hx => hb x (List.mem_append_right a hx) k hk
    simpa using fun hx => hne k hx rfl
  rw [hxs, hleft, hright, List.append_nil]

theorem flying_iff (h : r.Tells entered sends retry i l) : r.flying = none ↔ l.flight = none := by
  have hlength := h.flying.length_eq
  cases hx : r.flying <;> cases hy : l.flight <;> simp [hx, hy] at hlength ⊢

theorem flying_of_flight (h : r.Tells entered sends retry i l) {f : Flight} (hf : l.flight = some f) :
    ∃ k, r.flying = some k ∧ Follows entered sends l.generation k f := by
  have hflying := h.flying
  cases hk : r.flying with
  | none => simp [h.flying_iff.mp hk] at hf
  | some k =>
    rw [hk, hf] at hflying
    obtain ⟨hfollows, -⟩ := List.forall₂_cons.mp hflying
    exact ⟨k, rfl, hfollows⟩

theorem marks_of_mem (h : r.Tells entered sends retry i l) {e : Entry} (he : e ∈ l.waiting) :
    ∃ k, Marks entered sends retry k e := by
  obtain ⟨j, hj, rfl⟩ := List.getElem_of_mem he
  exact ⟨_, h.waiting.get (h.waiting.length_eq.symm ▸ hj) hj⟩

/-! ### Steps of a lane -/

theorem congr_sends (h : r.Tells entered sends retry i l) (hs : ∀ k ∈ numbers entered i, sends' k = sends k) :
    r.Tells entered sends' retry i l := by
  refine ⟨h.known, h.purged, h.stale, h.order, forall₂_weaken h.waiting fun k hk e hm => ?_,
    forall₂_weaken h.flying fun k hk f hf => ?_⟩
  · exact ⟨hm.parcel, (hs k (h.mem (.inr (.inr hk)))).trans hm.sends, hm.allowed⟩
  · exact ⟨hf.parcel, (hs k (h.mem (.inr (.inl (by simpa using hk))))).trans hf.sends, hf.generation⟩

theorem alike (h : r.Tells entered sends retry i l) (hl : l.Alike l') : r.Tells entered sends retry i l' := by
  refine ⟨h.known, h.purged, ?_, h.order, ?_, ?_⟩
  · rw [hl.flight, hl.generation]
    exact h.stale
  · rw [hl.waiting]
    exact h.waiting
  · rw [hl.flight, hl.generation]
    exact h.flying

/-- An entry comes into another lane. -/
theorem other (h : r.Tells entered sends retry i l) {d : Docket} (hd : d.lane ≠ i) :
    r.Tells (entered ++ [d]) sends retry i l := by
  have hnumbers : numbers (entered ++ [d]) i = numbers entered i := by
    rw [numbers_concat, if_neg hd, List.append_nil]
  refine ⟨hnumbers ▸ h.known, h.purged, h.stale, hnumbers ▸ h.order, ?_, ?_⟩
  · exact h.waiting.imp fun k e hm => ⟨parcel_concat hm.parcel d, hm.sends, hm.allowed⟩
  · exact h.flying.imp fun k f hf => ⟨parcel_concat hf.parcel d, hf.sends, hf.generation⟩

/-- An entry comes into the lane. -/
theorem enter (h : r.Tells entered sends retry i l) {d : Docket} (hd : d.lane = i) {due : Nat}
    (hs : sends entered.length = 0) (hw : l'.waiting = l.waiting ++ [⟨d.parcel, 0, due⟩]) (hf : l'.flight = l.flight)
    (hg : l'.generation = l.generation) : (r.enter entered.length).Tells (entered ++ [d]) sends retry i l' := by
  have hnumbers : numbers (entered ++ [d]) i = numbers entered i ++ [entered.length] := by
    rw [numbers_concat, if_pos hd]
  have hnew : entered.length ∉ r.discarded := by
    intro hk
    obtain ⟨c, hc, -⟩ := mem_numbers.mp (h.known _ hk)
    simp at hc
  refine ⟨fun k hk => ?_, h.purged, fun k f hk hfl hne => ?_, ?_, ?_, ?_⟩
  · rw [hnumbers]
    exact List.mem_append_left _ (h.known k hk)
  · exact h.stale k f hk (hf ▸ hfl) (hg ▸ hne)
  · show (numbers (entered ++ [d]) i).filter (· ∉ r.discarded)
      = r.finished ++ r.flying.toList ++ (r.waiting ++ [entered.length])
    rw [hnumbers, List.filter_append, h.order]
    simp [hnew]
  · rw [hw]
    refine List.rel_append (h.waiting.imp fun k e hm => ⟨parcel_concat hm.parcel d, hm.sends, hm.allowed⟩) ?_
    exact .cons ⟨by simp, hs, .inl rfl⟩ .nil
  · rw [hf, hg]
    exact h.flying.imp fun k f hf => ⟨parcel_concat hf.parcel d, hf.sends, hf.generation⟩

/-- The head of a lane goes into flight. -/
theorem depart (h : r.Tells entered sends retry i l) (hfree : l.flight = none) {e : Entry} {es : List Entry}
    (hw : l.waiting = e :: es) : ∃ k ks, r.waiting = k :: ks ∧ Marks entered sends retry k e ∧
      (r.depart true).Tells entered (Function.update sends k (sends k + 1)) retry i l.depart := by
  have hflying := h.flying_iff.mpr hfree
  have hwaiting := h.waiting
  rw [hw] at hwaiting
  cases hr : r.waiting with
  | nil => simp [hr] at hwaiting
  | cons k ks =>
    rw [hr] at hwaiting
    obtain ⟨hmark, hrest⟩ := List.forall₂_cons.mp hwaiting
    have hnodup := h.nodup
    rw [hr, hflying] at hnodup
    have hroll : r.depart true = { r with waiting := ks, flying := some k } := by
      unfold Roll.depart
      rw [hr]
      rfl
    rw [Lane.depart_of_waiting_cons hfree hw, hroll]
    refine ⟨k, ks, rfl, hmark, h.known, h.purged, fun j f _ hf hne => ?_, ?_, ?_, ?_⟩
    · obtain rfl := Option.some.inj hf
      exact absurd rfl hne
    · show _ = r.finished ++ [k] ++ ks
      rw [h.order, hr, hflying]
      simp
    · -- the numbers behind the head are others, so they were not sent
      refine forall₂_weaken hrest fun j hj x hm => ⟨hm.parcel, ?_, hm.allowed⟩
      have hne : j ≠ k := by
        rintro rfl
        simp_all [List.nodup_append]
      rw [Function.update_of_ne hne, hm.sends]
    · refine .cons ⟨hmark.parcel, ?_, Nat.le_refl _⟩ .nil
      rw [Function.update_self, hmark.sends]

/-- The head of a lane is dropped without being sent. -/
theorem drop (h : r.Tells entered sends retry i l) (hfree : l.flight = none) {e : Entry} {es : List Entry}
    (hw : l.waiting = e :: es) (now : Nat) (spread : Float) :
    (r.depart false).Tells entered sends retry i (l.depart.land retry .dropped now spread) := by
  have hflying := h.flying_iff.mpr hfree
  have hwaiting := h.waiting
  rw [hw] at hwaiting
  cases hr : r.waiting with
  | nil => simp [hr] at hwaiting
  | cons k ks =>
    rw [hr] at hwaiting
    have hland : (l.depart.land retry .dropped now spread).waiting = es ∧
        (l.depart.land retry .dropped now spread).flight = none := by
      rw [Lane.depart_of_waiting_cons hfree hw]
      exact ⟨rfl, rfl⟩
    have hroll : r.depart false = { r with waiting := ks, finished := r.finished ++ [k] } := by
      unfold Roll.depart
      rw [hr]
      rfl
    rw [hroll]
    refine ⟨h.known, h.purged, fun j f hj => (by simp [hflying] at hj), ?_, ?_, ?_⟩
    · show _ = r.finished ++ [k] ++ r.flying.toList ++ ks
      rw [h.order, hr, hflying]
      simp
    · rw [hland.1]
      exact (List.forall₂_cons.mp hwaiting).2
    · rw [hland.2]
      simp [hflying]

/-- A flight ends. -/
theorem land (h : r.Tells entered sends retry i l) (a : Attempt) (now : Nat) (spread : Float) :
    (r.land l (l.land retry a now spread)).Tells entered sends retry i (l.land retry a now spread) := by
  have hlanded := landed h.flying_iff retry a now spread
  generalize r.land l (l.land retry a now spread) = r' at hlanded ⊢
  generalize l.land retry a now spread = l' at hlanded ⊢
  have horder := h.order
  cases hlanded with
  | idle hf => exact h
  | done hk hf hw hl =>
    rw [hk] at horder
    refine ⟨h.known, h.purged, fun j g hj => (by cases hj), ?_, hw.symm ▸ h.waiting, hl.symm ▸ .nil⟩
    rw [horder]
    simp
  | again due hk hf hx hg hw hl =>
    rw [hk] at horder
    obtain ⟨j, hj, hfollows⟩ := h.flying_of_flight hf
    obtain rfl := Option.some.inj (hk.symm.trans hj)
    refine ⟨h.known, h.purged, fun j g hj => (by cases hj), ?_, ?_, hl.symm ▸ .nil⟩
    · rw [horder]
      simp
    · rw [hw]
      exact .cons ⟨hfollows.parcel, hfollows.sends, .inr hx⟩ h.waiting
  | stale hk hf hg hw hl =>
    rw [hk] at horder
    refine ⟨fun j hj => ?_, fun j hj => ?_, fun j g hj => (by cases hj), ?_, hw.symm ▸ h.waiting, hl.symm ▸ .nil⟩
    · rcases List.mem_append.mp hj with hj | hj
      · exact h.known j hj
      · exact List.mem_singleton.mp hj ▸ h.mem (.inr (.inl hk))
    · rcases List.mem_append.mp hj with hj | hj
      · exact h.purged j hj
      · obtain rfl := List.mem_singleton.mp hj
        exact h.stale _ _ hk hf hg
    · have hrest := order_discard (nodup_numbers entered i) horder
      simpa using hrest

/-- A lane is emptied. -/
theorem sweep (h : r.Tells entered sends retry i l) (he : l.Emptied l') :
    (r.sweep l l').Tells entered sends retry i l' := by
  have hflying : List.Forall₂ (Follows entered sends l'.generation) r.flying.toList l'.flight.toList := by
    rw [he.flight]
    exact h.flying.imp fun k f hf => ⟨hf.parcel, hf.sends, Nat.le_trans hf.generation he.generation_le⟩
  unfold Roll.sweep
  rcases he.waiting with ⟨hw, hg⟩ | ⟨hw, hg⟩
  · rw [if_neg (by omega)]
    refine ⟨h.known, h.purged, fun k f hk hf hne => ?_, h.order, hw.symm ▸ h.waiting, hflying⟩
    exact h.stale k f hk (he.flight ▸ hf) (hg ▸ hne)
  · rw [if_pos hg]
    refine ⟨fun k hk => ?_, fun k hk => ?_, fun k f hk _ _ => ?_, ?_, hw.symm ▸ .nil, hflying⟩
    · rcases List.mem_append.mp hk with hk | hk
      · exact h.known k hk
      · exact h.mem (.inr (.inr hk))
    · rcases List.mem_append.mp hk with hk | hk
      · exact List.mem_append_left _ (h.purged k hk)
      · exact List.mem_append_right _ (List.mem_append_right _ hk)
    · exact List.mem_append_right _ (List.mem_append_left _ (by simpa using hk))
    · have horder := h.order
      rw [← List.append_nil (r.finished ++ r.flying.toList ++ r.waiting)] at horder
      exact order_discard (nodup_numbers entered i) horder

end Tells

/-! ## Entries that do not come back -/

/-- A number that does not wait, and that will not wait again: if it is in flight, the lane was emptied since. -/
structure Past (r : Roll) (l : Lane) (k : Nat) : Prop where
  waiting : k ∉ r.waiting
  flying : ∀ f, r.flying = some k → l.flight = some f → f.generation < l.generation

namespace Past

theorem alike (h : r.Past l k) (hl : l.Alike l') : r.Past l' k := by
  refine ⟨h.waiting, ?_⟩
  rw [hl.flight, hl.generation]
  exact h.flying

theorem enter (h : r.Past l k) {j : Nat} (hj : k ≠ j) (hf : l'.flight = l.flight) (hg : l'.generation = l.generation) :
    (r.enter j).Past l' k := by
  refine ⟨fun hk => ?_, fun f hr hl => ?_⟩
  · rcases List.mem_append.mp hk with hk | hk
    · exact h.waiting hk
    · exact hj (List.mem_singleton.mp hk)
  · rw [hg]
    exact h.flying f hr (hf ▸ hl)

theorem depart (h : r.Past l k) (hfree : r.flying = none) (flies : Bool) (l' : Lane) : (r.depart flies).Past l' k := by
  have hwaiting := h.waiting
  unfold Roll.depart
  cases hr : r.waiting with
  | nil => exact ⟨by simp [hr], fun f hk => by simp [hfree] at hk⟩
  | cons j ks =>
    rw [hr, List.mem_cons, not_or] at hwaiting
    cases flies with
    | true => exact ⟨hwaiting.2, fun f hk => absurd (Option.some.inj hk).symm hwaiting.1⟩
    | false => exact ⟨hwaiting.2, fun f hk => by simp [hfree] at hk⟩

theorem land (h : r.Past l k) (ht : r.Tells entered sends retry i l) (a : Attempt) (now : Nat) (spread : Float) :
    (r.land l (l.land retry a now spread)).Past (l.land retry a now spread) k := by
  have hlanded := landed ht.flying_iff retry a now spread
  generalize r.land l (l.land retry a now spread) = r' at hlanded ⊢
  generalize l.land retry a now spread = l' at hlanded ⊢
  cases hlanded with
  | idle hf => exact h
  | done hk hf hw hl => exact ⟨h.waiting, fun g hg => by cases hg⟩
  | @again j f l' due hk hf hx hg hw hl =>
    refine ⟨fun hin => (List.mem_cons.mp hin).elim (fun he => ?_) h.waiting, fun g hg => by cases hg⟩
    have hlt := h.flying f (he ▸ hk) hf
    omega
  | stale hk hf hg hw hl => exact ⟨h.waiting, fun g hg => by cases hg⟩

theorem sweep (h : r.Past l k) (he : l.Emptied l') : (r.sweep l l').Past l' k := by
  refine ⟨?_, fun f hr hl => ?_⟩
  · unfold Roll.sweep
    split
    · exact List.not_mem_nil
    · exact h.waiting
  · rw [flying_sweep] at hr
    exact Nat.lt_of_lt_of_le (h.flying f hr (he.flight ▸ hl)) he.generation_le

/-- Where a lane is purged, none of its entries comes back. -/
theorem of_purged (ht : r.Tells entered sends retry i l) (he : l.Emptied l') (hg : l.generation < l'.generation) (k : Nat) :
    (r.sweep l l').Past l' k := by
  refine ⟨?_, fun f hr hl => ?_⟩
  · rw [Roll.sweep, if_pos hg]
    exact List.not_mem_nil
  · rw [flying_sweep] at hr
    rw [he.flight] at hl
    obtain ⟨_, -, hfollows⟩ := ht.flying_of_flight hl
    exact Nat.lt_of_le_of_lt hfollows.generation hg

end Past

end Roll

end ContentMesh
