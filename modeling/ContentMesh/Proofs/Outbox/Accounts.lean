import ContentMesh.Proofs.Outbox.Sweeps

/-!
# ContentMesh.Proofs.Outbox.Accounts — what the tally of a lane says

`Lane.Move` is one thing that happens to a lane, and `Lane.after` a run of them.  Every entry that came into a lane was
delivered, dropped or purged, waits, or is in flight — but for those that a purge met in flight and whose attempt then
failed in passing, which no counter shows (`Lane.tally_accounts`).  What holds of one move is `Lane.Owes.move`, with
the entries that are missing from the tally as the debt.
-/

namespace ContentMesh

namespace Lane

/-! ## Moves -/

/-- One thing that happens to a lane. -/
inductive Move where
  | enqueue (p : Parcel) (now : Nat)
  | depart
  | land (a : Attempt) (now : Nat) (spread : Float)
  | purge
  | close

/-- Whether a move discards what waits. -/
def Move.clears : Move → Bool
  | purge | close => true
  | _ => false

/-- A lane after a move. -/
def move (retry : Retry) (l : Lane) : Move → Lane
  | .enqueue p now => l.enqueue p now
  | .depart => l.depart
  | .land a now spread => l.land retry a now spread
  | .purge => l.purge.2
  | .close => l.close.2

/-- A lane after several moves. -/
def after (retry : Retry) (l : Lane) (ms : List Move) : Lane := ms.foldl (move retry) l

/-- How many moves are of some kind, each when it is its turn. -/
def times (retry : Retry) (kind : Lane → Move → Bool) : Lane → List Move → Nat
  | _, [] => 0
  | l, m :: ms => (if kind l m then 1 else 0) + times retry kind (l.move retry m) ms

/-- An attempt ends, and more entries wait than before. -/
def returns (retry : Retry) (l : Lane) : Move → Bool
  | .land a now spread => l.waiting.length < (l.land retry a now spread).waiting.length
  | _ => false

/-- An attempt that was not the last one allowed ends in passing, and the lane was purged since it began. -/
def strays (retry : Retry) (l : Lane) : Move → Bool
  | .land .again _ _ => l.flight.any fun f => !retry.exhausted f.entry.attempts && l.generation != f.generation
  | _ => false

/-- No purge falls within an attempt. -/
def Undisturbed (retry : Retry) : Lane → List Move → Prop
  | _, [] => True
  | l, m :: ms => (m.clears = true → l.flight = none) ∧ Undisturbed retry (l.move retry m) ms

variable {retry : Retry} {l : Lane}

/-! ## How an attempt ends -/

/-- How an attempt ends: there was none; or it is counted as delivered or dropped; or its entry is at the head again,
which is counted as well; or its entry is gone, and nothing is counted. -/
inductive Ended (retry : Retry) (l : Lane) (m : Move) (l' : Lane) : Prop where
  | idle (hflight : l.flight = none) (hlane : l' = l)
  | done (hflight : l.flight.isSome) (hstray : l.strays retry m = false) (hnone : l'.flight = none)
      (hwaiting : l'.waiting = l.waiting)
      (htally : l'.tally = { l.tally with delivered := l.tally.delivered + 1 } ∨
        l'.tally = { l.tally with dropped := l.tally.dropped + 1 })
  | again (f : Flight) (due : Nat) (hflight : l.flight = some f) (hstray : l.strays retry m = false)
      (hnone : l'.flight = none) (hwaiting : l'.waiting = { f.entry with due } :: l.waiting)
      (htally : l'.tally = { l.tally with retried := l.tally.retried + 1 })
  | stray (hflight : l.flight.isSome) (hstray : l.strays retry m = true) (hnone : l'.flight = none)
      (hwaiting : l'.waiting = l.waiting) (htally : l'.tally = l.tally)

theorem ended_land (retry : Retry) (l : Lane) (a : Attempt) (now : Nat) (spread : Float) :
    Ended retry l (.land a now spread) (l.land retry a now spread) := by
  unfold land
  cases hf : l.flight with
  | none => exact .idle hf rfl
  | some f =>
    have hsome : l.flight.isSome := by rw [hf]; rfl
    cases a with
    | delivered => exact .done hsome rfl rfl rfl (.inl rfl)
    | dropped => exact .done hsome rfl rfl rfl (.inr rfl)
    | again =>
      have hstrays : l.strays retry (.land .again now spread)
          = (!retry.exhausted f.entry.attempts && l.generation != f.generation) := by
        rw [strays, hf]
        rfl
      dsimp only
      by_cases hx : retry.exhausted f.entry.attempts = true
      · rw [if_pos hx]
        exact .done hsome (by rw [hstrays, hx]; rfl) rfl rfl (.inr rfl)
      · rw [if_neg hx]
        by_cases hg : (l.generation != f.generation) = true
        · rw [if_pos hg]
          exact .stray hsome (by rw [hstrays, hg, Bool.eq_false_iff.mpr hx]; rfl) rfl rfl rfl
        · rw [if_neg hg]
          exact .again f _ hf (by rw [hstrays, Bool.eq_false_iff.mpr hg, Bool.and_false]) rfl rfl rfl

/-! ## One move -/

/-- `n` of the entries that came in are neither counted nor there. -/
def Owes (l : Lane) (n : Nat) : Prop :=
  l.tally.enqueued
    = l.tally.delivered + l.tally.dropped + l.tally.purged + l.depth + l.flight.toList.length + n

theorem Owes.depart {n : Nat} (h : l.Owes n) : l.depart.Owes n := by
  cases hf : l.flight with
  | some f =>
    have hsame : l.depart = l := by
      unfold Lane.depart
      rw [hf]
    rwa [hsame]
  | none =>
    cases hw : l.waiting with
    | nil => rwa [depart_of_waiting_nil hw]
    | cons e es =>
      rw [depart_of_waiting_cons hf hw]
      have hdepth : l.depth = es.length + 1 := congrArg List.length hw
      unfold Owes at h ⊢
      rw [hf, hdepth] at h
      simp only [Option.toList_none, Option.toList_some, List.length_nil, List.length_singleton, depth] at h ⊢
      omega

theorem Owes.purge {n : Nat} (h : l.Owes n) : l.purge.2.Owes n := by
  unfold Owes at h ⊢
  simp only [Lane.purge, depth, List.length_nil] at h ⊢
  omega

theorem Owes.land {n : Nat} (h : l.Owes n) (a : Attempt) (now : Nat) (spread : Float) :
    (l.land retry a now spread).Owes (n + if l.strays retry (.land a now spread) then 1 else 0) := by
  have hin : l.flight.isSome → l.flight.toList.length = 1 := fun hsome => by
    obtain ⟨f, hf⟩ := Option.isSome_iff_exists.mp hsome
    rw [hf]
    rfl
  have hout : (none : Option Flight).toList.length = 0 := rfl
  unfold Owes depth at h ⊢
  cases ended_land retry l a now spread with
  | idle hflight hlane =>
    have hstrays : l.strays retry (.land a now spread) = false := by
      cases a with
      | again => rw [strays, hflight]; rfl
      | delivered => rfl
      | dropped => rfl
    rw [hlane, hstrays]
    exact h
  | done hflight hstray hnone hwaiting htally =>
    have hone := hin hflight
    rw [hnone, hwaiting, hstray, hout]
    rcases htally with htally | htally
    · rw [htally]
      dsimp only
      simp only [Bool.false_eq_true, if_false]
      omega
    · rw [htally]
      simp only [Bool.false_eq_true, if_false]
      omega
  | again f due hflight hstray hnone hwaiting htally =>
    have hone := hin (by rw [hflight]; rfl)
    rw [hnone, hwaiting, hstray, hout, htally, List.length_cons]
    simp only [Bool.false_eq_true, if_false]
    omega
  | stray hflight hstray hnone hwaiting htally =>
    have hone := hin hflight
    rw [hnone, hwaiting, hstray, hout, htally, if_pos rfl]
    omega

theorem Owes.move {n : Nat} (h : l.Owes n) (m : Move) :
    (l.move retry m).Owes (n + if l.strays retry m then 1 else 0) := by
  cases m with
  | enqueue p now =>
    unfold Owes at h ⊢
    simp only [Lane.move, Lane.enqueue, strays, depth, List.length_append, List.length_singleton] at h ⊢
    simp only [Bool.false_eq_true, if_false]
    omega
  | depart => exact h.depart
  | land a now spread => exact h.land a now spread
  | purge => exact h.purge
  | close => exact h.purge

/-- One more attempt is counted as repeated exactly if its entry went back. -/
theorem retried_move (retry : Retry) (l : Lane) (m : Move) :
    (l.move retry m).tally.retried = l.tally.retried + if l.returns retry m then 1 else 0 := by
  cases m with
  | enqueue p now => rfl
  | depart =>
    unfold move depart
    dsimp only
    split <;> rfl
  | purge => rfl
  | close => rfl
  | land a now spread =>
    have hback : l.returns retry (.land a now spread)
        = decide (l.waiting.length < (l.land retry a now spread).waiting.length) := rfl
    rw [hback]
    unfold move
    dsimp only
    cases ended_land retry l a now spread with
    | idle hflight hlane => simp [hlane]
    | done hflight hstray hnone hwaiting htally => rcases htally with htally | htally <;> simp [hwaiting, htally]
    | again f due hflight hstray hnone hwaiting htally => simp [hwaiting, htally]
    | stray hflight hstray hnone hwaiting htally => simp [hwaiting, htally]

/-! ## Runs -/

theorem Owes.after {n : Nat} (h : l.Owes n) (ms : List Move) :
    (l.after retry ms).Owes (n + times retry (strays retry) l ms) := by
  induction ms generalizing l n with
  | nil => exact h
  | cons m ms ih =>
    rw [times, ← Nat.add_assoc]
    exact ih (h.move m)

theorem retried_after (retry : Retry) (l : Lane) (ms : List Move) :
    (l.after retry ms).tally.retried = l.tally.retried + times retry (returns retry) l ms := by
  induction ms generalizing l with
  | nil => rfl
  | cons m ms ih =>
    rw [times, ← Nat.add_assoc, ← retried_move]
    exact ih (l.move retry m)

theorem Fresh.move (h : l.Fresh) {m : Move} (hm : m.clears = true → l.flight = none) : (l.move retry m).Fresh := by
  cases m with
  | enqueue p now => exact h.enqueue p now
  | depart => exact h.depart
  | land a now spread => exact h.land retry a now spread
  | purge =>
    intro f hf
    exact absurd (hf.symm.trans (hm rfl)) (by simp)
  | close =>
    intro f hf
    exact absurd (hf.symm.trans (hm rfl)) (by simp)

theorem Fresh.strays (h : l.Fresh) (m : Move) : l.strays retry m = false := by
  unfold Lane.strays
  split
  · cases hf : l.flight with
    | none => rfl
    | some f => simp [h f hf]
  · rfl

/-- Where no purge falls within an attempt, no entry is lost. -/
theorem Fresh.times_strays (h : l.Fresh) {ms : List Move} (hms : Undisturbed retry l ms) :
    times retry (Lane.strays retry) l ms = 0 := by
  induction ms generalizing l with
  | nil => rfl
  | cons m ms ih =>
    rw [times, h.strays m, ih (h.move hms.1) hms.2]
    rfl

theorem owes_run (retry : Retry) (uri : String) (ms : List Move) :
    ((new uri).after retry ms).Owes (times retry (strays retry) (new uri) ms) := by
  have hnew : (new uri).Owes 0 := rfl
  have hrun : ((new uri).after retry ms).Owes (0 + times retry (strays retry) (new uri) ms) := hnew.after ms
  rwa [Nat.zero_add] at hrun

/-- The tally of a lane after any run: whatever came in was delivered, dropped or purged, waits, or is in flight, but
for the entries of attempts that failed in passing after a purge; an attempt is counted as repeated if its entry went
back.  No entry is missing where no purge falls within an attempt. -/
theorem tally_accounts (retry : Retry) (uri : String) (ms : List Move) :
    let l := (new uri).after retry ms
    l.tally.enqueued = l.tally.delivered + l.tally.dropped + l.tally.purged + l.depth + l.flight.toList.length
        + times retry (strays retry) (new uri) ms ∧
      l.tally.retried = times retry (returns retry) (new uri) ms ∧
      (Undisturbed retry (new uri) ms → times retry (strays retry) (new uri) ms = 0) := by
  intro l
  refine ⟨owes_run retry uri ms, ?_, (fresh_new uri).times_strays⟩
  exact (retried_after retry (new uri) ms).trans (Nat.zero_add _)

/-- Two entries: one that is delivered at the second attempt, one that is purged before its first. -/
theorem tally_accounts_second_attempt : ∃ (retry : Retry) (ms : List Move), Undisturbed retry (new "b") ms ∧
    let l := (new "b").after retry ms
    l.tally.enqueued = 2 ∧ l.tally.retried = 1 ∧
      l.tally.enqueued
        = l.tally.delivered + l.tally.dropped + l.tally.purged + l.depth + l.flight.toList.length := by
  let ms : List Move := [.enqueue default 0, .depart, .land .again 1 1.0, .depart, .land .delivered 2 1.0,
    .enqueue default 3, .purge]
  have hms : Undisturbed .standard (new "b") ms := ⟨nofun, nofun, nofun, nofun, nofun, nofun, fun _ => rfl, trivial⟩
  obtain ⟨haccount, -, hclear⟩ := tally_accounts .standard "b" ms
  rw [hclear hms] at haccount
  exact ⟨.standard, ms, hms, rfl, rfl, haccount⟩

/-- A purge meets an entry in flight, and then the attempt fails in passing: the entry is gone, and no counter says
where to. -/
theorem purged_in_flight_uncounted : ∃ (retry : Retry) (ms : List Move),
    let l := (new "b").after retry ms
    l.tally = ⟨1, 0, 0, 0, 0⟩ ∧ l.depth = 0 ∧ l.flight = none ∧
      l.tally.enqueued
        ≠ l.tally.delivered + l.tally.dropped + l.tally.purged + l.depth + l.flight.toList.length :=
  ⟨.standard, [.enqueue default 0, .depart, .purge, .land .again 1 1.0], rfl, rfl, rfl, by decide⟩

end Lane

/-! ## The lanes of an outbox -/

namespace Outbox

variable {o : Outbox}

/-- One thing that is done to the lanes of an outbox. -/
inductive Edit where
  | enqueue (uri : String) (p : Parcel) (now : Nat)
  | depart (i : Nat)
  | land (i : Nat) (a : Attempt) (now : Nat) (spread : Float)
  | purge (uri : String)
  | close (uri : String)

/-- An outbox after an edit. -/
def edit (o : Outbox) : Edit → Outbox
  | .enqueue uri p now => o.enqueue uri p now
  | .depart i => o.modify i Lane.depart
  | .land i a now spread => o.land i a now spread
  | .purge uri => (o.purge uri).2
  | .close uri => (o.close uri).2

/-- An outbox after several edits. -/
def edited (o : Outbox) (es : List Edit) : Outbox := es.foldl edit o

theorem edited_append (o : Outbox) (es es' : List Edit) : o.edited (es ++ es') = (o.edited es).edited es' :=
  List.foldl_append

theorem closed_edit (o : Outbox) (e : Edit) : (o.edit e).closed = o.closed := by
  cases e with
  | enqueue uri p now => exact closed_enqueue o uri p now
  | depart i => rfl
  | land i a now spread => rfl
  | purge uri =>
    unfold edit Outbox.purge
    dsimp only
    split <;> rfl
  | close uri =>
    unfold edit Outbox.close
    dsimp only
    split <;> rfl

theorem closed_edited (o : Outbox) (es : List Edit) : (o.edited es).closed = o.closed := by
  induction es generalizing o with
  | nil => rfl
  | cons e es ih => exact (ih (o.edit e)).trans (o.closed_edit e)

/-- Every lane came about by moves under the retry settings of the outbox, so that its tally accounts for what came
in. -/
def Recorded (o : Outbox) : Prop := ∀ i, ∃ uri ms, o.lane i = (Lane.new uri).after o.retry ms

theorem recorded_new (retry : Retry) : (new retry).Recorded := fun i => ⟨"", [], lane_of_size_le (Nat.zero_le i)⟩

theorem Recorded.modify (h : o.Recorded) (i : Nat) (m : Lane.Move) : (o.modify i fun l => l.move o.retry m).Recorded := by
  intro j
  obtain ⟨uri, ms, hj⟩ := h j
  rw [lane_modify]
  split
  · refine ⟨uri, ms ++ [m], ?_⟩
    rw [hj, Lane.after, Lane.after, List.foldl_append]
    rfl
  · exact ⟨uri, ms, hj⟩

theorem Recorded.opened (h : o.Recorded) (uri : String) : (o.opened uri).2.Recorded := by
  intro j
  rw [retry_opened]
  rcases lane_opened o uri j with hsame | ⟨-, hnew⟩
  · rw [hsame]
    exact h j
  · exact ⟨uri, [], hnew⟩

theorem Recorded.enqueue (h : o.Recorded) (uri : String) (p : Parcel) (now : Nat) : (o.enqueue uri p now).Recorded :=
  (h.opened uri).modify (o.opened uri).1 (.enqueue p now)

theorem Recorded.depart (h : o.Recorded) (i : Nat) : (o.modify i Lane.depart).Recorded := h.modify i .depart

theorem Recorded.land (h : o.Recorded) (i : Nat) (a : Attempt) (now : Nat) (spread : Float) :
    (o.land i a now spread).Recorded :=
  h.modify i (.land a now spread)

theorem Recorded.purge (h : o.Recorded) (uri : String) : (o.purge uri).2.Recorded := by
  unfold Outbox.purge
  cases o.laneOf? uri with
  | none => exact h
  | some i => exact h.modify i .purge

theorem Recorded.close (h : o.Recorded) (uri : String) : (o.close uri).2.Recorded := by
  unfold Outbox.close
  cases o.laneOf? uri with
  | none => exact h
  | some i => exact h.modify i .close

theorem Recorded.edit (h : o.Recorded) (e : Edit) : (o.edit e).Recorded := by
  cases e with
  | enqueue uri p now => exact h.enqueue uri p now
  | depart i => exact h.depart i
  | land i a now spread => exact h.land i a now spread
  | purge uri => exact h.purge uri
  | close uri => exact h.close uri

theorem Recorded.edited (h : o.Recorded) (es : List Edit) : (o.edited es).Recorded := by
  induction es generalizing o with
  | nil => exact h
  | cons e es ih => exact ih (h.edit e)

/-- The numbers that are shown for a peer account for what came into its lane, as the run of the lane has it. -/
theorem Recorded.stats (h : o.Recorded) {uri : String} {depth : Nat} {t : Tally} (hs : o.stats? uri = some (depth, t)) :
    ∃ i lane ms, o.laneOf? uri = some i ∧ o.lane i = (Lane.new lane).after o.retry ms ∧
      t.enqueued = t.delivered + t.dropped + t.purged + depth + (o.lane i).flight.toList.length
        + Lane.times o.retry (Lane.strays o.retry) (.new lane) ms := by
  unfold stats? at hs
  obtain ⟨i, hi, heq⟩ := Option.map_eq_some_iff.mp hs
  obtain ⟨lane, ms, hlane⟩ := h i
  have hrun := Lane.owes_run o.retry lane ms
  rw [← hlane] at hrun
  cases heq
  exact ⟨i, lane, ms, hi, hlane, hrun⟩

end Outbox

end ContentMesh
