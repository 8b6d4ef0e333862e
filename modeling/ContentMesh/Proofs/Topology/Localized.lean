import ContentMesh.Proofs.Peer.Registered
import ContentMesh.Topology.Rules

/-!
# ContentMesh.Proofs.Topology.Localized — the rules that a node takes over from a peer

What the rules of a peer become in the hands of the node that gets them, uri by uri (`Rules.ruleFor_localized`): the
rule in force is turned, entries that say no more than the wildcard may be missing, the node's own entry is, and the
peer's rule is what the peer has for the node where the node is to receive only, unless that is the wildcard anyway.
Leaving out and setting never touch a third party, and what is left has no entry to spare
(`Rules.localized_keeps_others`).  Towards a peer that only sends the node is to receive only
(`Rules.receives_only_from_sender`), which an entry of the peer for itself may mask.
-/

namespace ContentMesh

/-! ## Entries left out of a map -/

namespace Dict

variable {V : Type}

theorem lookup_filter {P : String × V → Bool} {es : List (String × V)} (ha : es.Pairwise (·.1 < ·.1)) (k : String) :
    (es.filter P).lookup k = (es.lookup k).filter fun v => P (k, v) := by
  induction es with
  | nil => rfl
  | cons e es ih =>
    obtain ⟨hlt, hes⟩ := List.pairwise_cons.mp ha
    by_cases hk : k = e.1
    · have hrest : es.lookup k = none := lookup_eq_none_of_forall_lt (hk ▸ hlt)
      have he : e = (k, e.2) := by rw [hk]
      rw [lookup_cons, if_pos hk]
      by_cases hP : P e = true
      · rw [List.filter_cons_of_pos hP, lookup_cons, if_pos hk, Option.filter, ← he, if_pos hP]
      · rw [List.filter_cons_of_neg hP, ih hes, hrest, Option.filter, ← he, if_neg hP]
        rfl
    · rw [lookup_cons, if_neg hk, ← ih hes]
      by_cases hP : P e = true
      · rw [List.filter_cons_of_pos hP, lookup_cons, if_neg hk]
      · rw [List.filter_cons_of_neg hP]

/-- A map made of some of the entries of another one. -/
theorem get?_ofList_filter (d : Dict V) (P : String × V → Bool) (k : String) :
    (ofList (d.entries.filter P)).get? k = (d.get? k).filter fun v => P (k, v) := by
  have hentries : (ofList (d.entries.filter P)).entries = d.entries.filter P :=
    entries_foldl_insert _ empty (d.ascending.filter P)
  rw [get?, hentries, lookup_filter d.ascending]
  rfl

end Dict

namespace Rule

/-- A turned rule never forbids to receive. -/
theorem accepts_turned (r : Rule) : r.turned.accepts = (r.level != .none) := by
  cases r with
  | mk l d => cases d <;> simp [turned, accepts, Direction.allowsReceive]

theorem sends_none {r : Rule} : r.sends .none = true ↔
    r.level ≠ .none ∧ (r.direction = .sendOnly ∨ r.direction = .both) := by
  cases r with
  | mk l d => cases l <;> cases d <;> decide

end Rule

namespace Rules

variable {remote : Rules} {own source uri : String}

/-- The rule in force for whoever has none of its own. -/
def common (rs : Rules) : Rule := rs.wildcard.getD .silent

/-- A peer's rule for a node, as the node sees it. -/
def back (remote : Rules) (own : String) : Rule := ⟨(remote.ruleFor own).level, (remote.ruleFor own).direction.inverted⟩

theorem ruleFor_eq (rs : Rules) (uri : String) : rs.ruleFor uri = (rs.instances.get? uri).getD rs.common := by
  unfold ruleFor common
  cases rs.instances.get? uri <;> rfl

theorem ruleFor_set (rs : Rules) (u uri : String) (r : Rule) :
    (rs.set (some u) r).ruleFor uri = if uri = u then r else rs.ruleFor uri := by
  have hcommon : (rs.set (some u) r).common = rs.common := rfl
  have hget : (rs.set (some u) r).instances.get? uri = if uri = u then some r else rs.instances.get? uri :=
    Dict.get?_insert rs.instances u uri r
  rw [ruleFor_eq, hget, hcommon, ruleFor_eq]
  by_cases hu : uri = u
  · rw [if_pos hu, if_pos hu]
    rfl
  · rw [if_neg hu, if_neg hu]

/-- The rules of a peer before its own rule is looked at. -/
def turnedFor (remote : Rules) (own : String) : Rules :=
  ⟨remote.wildcard.map Rule.turned,
    .ofList ((remote.instances.map Rule.turned).entries.filter fun e => e.1 != own && e.2 != remote.common.turned)⟩

theorem common_turnedFor (remote : Rules) (own : String) : (remote.turnedFor own).common = remote.common.turned := by
  unfold common turnedFor
  cases remote.wildcard <;> rfl

theorem get?_turnedFor (remote : Rules) (own uri : String) : (remote.turnedFor own).instances.get? uri
    = ((remote.instances.get? uri).map Rule.turned).filter fun r => uri != own && r != remote.common.turned := by
  unfold turnedFor
  rw [Dict.get?_ofList_filter, Dict.get?_map]

theorem ruleFor_turnedFor (remote : Rules) (own uri : String) :
    (remote.turnedFor own).ruleFor uri = if uri = own then remote.common.turned else (remote.ruleFor uri).turned := by
  rw [ruleFor_eq, get?_turnedFor, common_turnedFor, ruleFor_eq]
  cases remote.instances.get? uri with
  | none => simp
  | some r =>
    by_cases hu : uri = own
    · simp [hu, Option.filter_some]
    · -- an entry that is left out said what the wildcard says
      by_cases hr : r.turned = remote.common.turned
      · simp [hu, hr, Option.filter_some]
      · simp [hu, hr, Option.filter_some]

theorem localized_eq (remote : Rules) (own source : String) : remote.localized own source =
    if (remote.back own).direction = .receiveOnly ∧ remote.back own ≠ remote.common.turned
    then (remote.turnedFor own).set (some source) (remote.back own) else remote.turnedFor own := by
  have hfallback : (remote.wildcard.map Rule.turned).getD .silent = remote.common.turned :=
    common_turnedFor remote own
  unfold localized turnedFor
  dsimp only
  rw [hfallback]
  rfl

/-- The rule in force for each uri after the rules of a peer are taken over. -/
theorem ruleFor_localized (remote : Rules) (own source uri : String) : (remote.localized own source).ruleFor uri =
    if uri = source ∧ (remote.back own).direction = .receiveOnly ∧ remote.back own ≠ remote.common.turned
    then remote.back own
    else if uri = own then remote.common.turned else (remote.ruleFor uri).turned := by
  rw [localized_eq, ← ruleFor_turnedFor]
  by_cases hback : (remote.back own).direction = .receiveOnly ∧ remote.back own ≠ remote.common.turned
  · rw [if_pos hback, ruleFor_set]
    by_cases hu : uri = source
    · rw [if_pos hu, if_pos ⟨hu, hback⟩]
    · rw [if_neg hu, if_neg fun h => hu h.1]
  · rw [if_neg hback, if_neg fun h => hback h.2]

/-! ## What the node keeps of the peer's rules -/

/-- No entry says what everybody gets anyway. -/
def Spare (rs : Rules) : Prop := ∀ uri r, rs.instances.get? uri = some r → r ≠ rs.common

theorem common_localized (remote : Rules) (own source : String) :
    (remote.localized own source).common = remote.common.turned := by
  rw [localized_eq]
  split
  · exact common_turnedFor remote own
  · exact common_turnedFor remote own

/-- The entries after the rules of a peer are taken over: the peer's own one, where it is set, and those that were not
left out. -/
theorem get?_localized (remote : Rules) (own source uri : String) : (remote.localized own source).instances.get? uri =
    if uri = source ∧ (remote.back own).direction = .receiveOnly ∧ remote.back own ≠ remote.common.turned
    then some (remote.back own) else (remote.turnedFor own).instances.get? uri := by
  rw [localized_eq]
  by_cases hback : (remote.back own).direction = .receiveOnly ∧ remote.back own ≠ remote.common.turned
  · have hset : ((remote.turnedFor own).set (some source) (remote.back own)).instances.get? uri
        = if uri = source then some (remote.back own) else (remote.turnedFor own).instances.get? uri :=
      Dict.get?_insert _ source uri _
    rw [if_pos hback, hset]
    simp [hback]
  · rw [if_neg hback, if_neg fun h => hback h.2]

theorem spare_turnedFor (remote : Rules) (own : String) : (remote.turnedFor own).Spare := by
  intro uri r hr
  rw [get?_turnedFor, Option.filter_eq_some_iff] at hr
  rw [common_turnedFor]
  simpa using (Bool.and_eq_true_iff.mp hr.2).2

theorem spare_localized (remote : Rules) (own source : String) : (remote.localized own source).Spare := by
  intro uri r hr
  rw [common_localized]
  rw [get?_localized] at hr
  split at hr
  · rename_i hback
    rw [← Option.some.inj hr]
    exact hback.2.2
  · rw [← common_turnedFor remote own]
    exact remote.spare_turnedFor own uri r hr

theorem get?_localized_own (hne : own ≠ source) : (remote.localized own source).instances.get? own = none := by
  rw [get?_localized, if_neg fun h => hne h.1, get?_turnedFor]
  cases remote.instances.get? own with
  | none => rfl
  | some r => simp [Option.filter_some]

/-- The rules of a peer as another node takes them over.  Whatever they have for third parties stays in force, turned;
the node itself has no entry and is left with what everybody gets, turned; and no entry is there that says no more
than the wildcard, or than silence where there is no wildcard. -/
theorem localized_keeps_others (remote : Rules) (hne : own ≠ source) :
    (∀ uri, uri ≠ own → uri ≠ source →
        (remote.localized own source).ruleFor uri = (remote.ruleFor uri).turned) ∧
      (remote.localized own source).ruleFor own = (remote.wildcard.getD .silent).turned ∧
      (remote.localized own source).instances.get? own = none ∧
      ∀ uri r, (remote.localized own source).instances.get? uri = some r →
        r ≠ (remote.localized own source).wildcard.getD .silent := by
  refine ⟨?_, ?_, get?_localized_own hne, remote.spare_localized own source⟩
  · intro uri hown hsource
    rw [ruleFor_localized, if_neg fun h => hsource h.1, if_neg hown]
  · rw [ruleFor_localized, if_neg fun h => hne h.1, if_pos rfl]
    rfl

/-- One entry equals the wildcard only once both are turned, another one before as well; and the peer only sends to the
node, at a level of its own, whatever its entry for itself says. -/
theorem localized_keeps_others_pruned : ∃ (remote : Rules) (own source : String), own ≠ source ∧
    remote.wildcard = some ⟨.full, .sendOnly⟩ ∧
    remote.instances.entries = [("a", ⟨.full, .receiveOnly⟩), ("b", ⟨.reference, .sendOnly⟩), ("c", ⟨.full, .sendOnly⟩),
      (own, ⟨.reference, .sendOnly⟩), (source, ⟨.none, .both⟩)] ∧
    (remote.localized own source).ruleFor "a" = ⟨.full, .receiveOnly⟩ ∧
    (remote.localized own source).ruleFor "b" = ⟨.reference, .receiveOnly⟩ ∧
    (remote.localized own source).ruleFor "c" = ⟨.full, .receiveOnly⟩ ∧
    (remote.localized own source).ruleFor own = ⟨.full, .receiveOnly⟩ ∧
    (remote.localized own source).instances.entries
      = [("b", ⟨.reference, .receiveOnly⟩), (source, ⟨.reference, .receiveOnly⟩)] := by
  let remote : Rules := ⟨some ⟨.full, .sendOnly⟩, .ofList [("a", ⟨.full, .receiveOnly⟩), ("b", ⟨.reference, .sendOnly⟩),
    ("c", ⟨.full, .sendOnly⟩), ("n", ⟨.reference, .sendOnly⟩), ("p", ⟨.none, .both⟩)]⟩
  have hne : "n" ≠ "p" := by decide
  obtain ⟨hothers, hown, -⟩ := remote.localized_keeps_others hne
  refine ⟨remote, "n", "p", hne, rfl, by decide +kernel, ?_, ?_, ?_, ?_, by decide +kernel⟩
  · rw [hothers "a" (by decide) (by decide)]
    decide +kernel
  · rw [hothers "b" (by decide) (by decide)]
    decide +kernel
  · rw [hothers "c" (by decide) (by decide)]
    decide +kernel
  · rw [hown]
    rfl

/-! ## What the node accepts from the peer -/

/-- The peer only sends to the node: the node accepts, but maybe where the peer's rules name the peer itself with
nothing and have for everybody else what they have for the node. -/
theorem accepts_localized_sendOnly (hne : source ≠ own) (hlevel : (remote.ruleFor own).level ≠ .none)
    (hdirection : (remote.ruleFor own).direction = .sendOnly)
    (hsource : ∀ r, remote.instances.get? source = some r → r.level = .none → remote.common.turned ≠ remote.back own) :
    ((remote.localized own source).ruleFor source).accepts = true := by
  have hback : remote.back own = ⟨(remote.ruleFor own).level, .receiveOnly⟩ := by
    unfold back
    rw [hdirection]
    rfl
  have haccepts : (remote.back own).accepts = true := by simp [hback, Rule.accepts, Direction.allowsReceive, hlevel]
  rw [ruleFor_localized]
  by_cases hcommon : remote.back own = remote.common.turned
  · rw [if_neg fun h => h.2.2 hcommon, if_neg hne, Rule.accepts_turned, ruleFor_eq]
    cases hentry : remote.instances.get? source with
    | none =>
      rw [Option.getD_none, ← Rule.accepts_turned, ← hcommon]
      exact haccepts
    | some r =>
      have hr : r.level ≠ .none := fun hr => hsource r hentry hr hcommon.symm
      simpa using hr
  · rw [if_pos ⟨rfl, by rw [hback], hcommon⟩]
    exact haccepts

/-- Messages go both ways between the peer and the node: nothing is set for the peer, so the node accepts from it what
the peer's rules have for the peer itself. -/
theorem accepts_localized_both (hne : source ≠ own) (hdirection : (remote.ruleFor own).direction = .both) :
    ((remote.localized own source).ruleFor source).accepts = ((remote.ruleFor source).level != .none) := by
  have hback : (remote.back own).direction = .both := by
    unfold back
    rw [hdirection]
    rfl
  rw [ruleFor_localized, if_neg fun h => by simp [hback] at h, if_neg hne, Rule.accepts_turned]

/-! ## The rule towards a peer that only sends -/

/-- Everybody is only received from at a level, so that nothing is set for the peer; but the peer's rules have another
rule for the peer itself, and that one stays. -/
def Masked (remote : Rules) (source : String) (l : Level) : Prop :=
  remote.common.turned = ⟨l, .receiveOnly⟩ ∧
    ∃ r, remote.instances.get? source = some r ∧ r.turned ≠ ⟨l, .receiveOnly⟩

theorem back_of_sendOnly {l : Level} (hown : remote.ruleFor own = ⟨l, .sendOnly⟩) :
    remote.back own = ⟨l, .receiveOnly⟩ := by
  unfold back
  rw [hown]
  rfl

/-- Nothing is set for the peer: whatever its rules have for itself is in force, turned. -/
theorem ruleFor_localized_unset {l : Level} (hne : own ≠ source) (hown : remote.ruleFor own = ⟨l, .sendOnly⟩)
    (hcommon : remote.common.turned = ⟨l, .receiveOnly⟩) :
    (remote.localized own source).ruleFor source = (remote.ruleFor source).turned := by
  have hback : remote.back own = remote.common.turned := (back_of_sendOnly hown).trans hcommon.symm
  rw [ruleFor_localized, if_neg fun h => h.2.2 hback, if_neg hne.symm]

theorem ruleFor_localized_set {l : Level} (hown : remote.ruleFor own = ⟨l, .sendOnly⟩)
    (hcommon : remote.common.turned ≠ ⟨l, .receiveOnly⟩) :
    (remote.localized own source).ruleFor source = ⟨l, .receiveOnly⟩ := by
  have hback := back_of_sendOnly hown
  rw [ruleFor_localized, if_pos ⟨rfl, by rw [hback], fun h => hcommon (h.symm.trans hback)⟩, hback]

/-- The peer only sends to the node at some level: the node only receives from the peer at that level, unless that
rule is masked.  If it is, the peer's rule for itself is in force. -/
theorem receives_only_from_sender {l : Level} (hne : own ≠ source) (hown : remote.ruleFor own = ⟨l, .sendOnly⟩) :
    ((remote.localized own source).ruleFor source = ⟨l, .receiveOnly⟩ ↔ ¬ remote.Masked source l) ∧
      (remote.Masked source l → (remote.localized own source).ruleFor source = (remote.ruleFor source).turned) := by
  refine ⟨⟨?_, ?_⟩, fun hmasked => ruleFor_localized_unset hne hown hmasked.1⟩
  · rintro hrule ⟨hcommon, r, hr, hother⟩
    rw [ruleFor_localized_unset hne hown hcommon, ruleFor_eq, hr] at hrule
    exact hother hrule
  · intro hclear
    by_cases hcommon : remote.common.turned = ⟨l, .receiveOnly⟩
    · rw [ruleFor_localized_unset hne hown hcommon, ruleFor_eq]
      cases hr : remote.instances.get? source with
      | none => exact hcommon
      | some r => exact Decidable.byContradiction fun hother => hclear ⟨hcommon, r, hr, hother⟩
    · exact ruleFor_localized_set hown hcommon

/-- The peer has an entry for itself, which gives way: not everybody is only received from at the level of the
references. -/
theorem receives_only_from_sender_references : ∃ (remote : Rules) (own source : String), own ≠ source ∧
    remote.ruleFor own = ⟨.reference, .sendOnly⟩ ∧ remote.instances.get? source = some ⟨.none, .both⟩ ∧
    (remote.localized own source).ruleFor source = ⟨.reference, .receiveOnly⟩ := by
  let remote : Rules :=
    ⟨some ⟨.full, .sendOnly⟩, .ofList [("n", ⟨.reference, .sendOnly⟩), ("p", ⟨.none, .both⟩)]⟩
  have hne : "n" ≠ "p" := by decide
  have hown : remote.ruleFor "n" = ⟨.reference, .sendOnly⟩ := by decide +kernel
  have hcommon : remote.common.turned ≠ ⟨.reference, .receiveOnly⟩ := by decide
  exact ⟨remote, "n", "p", hne, hown, by decide +kernel,
    (receives_only_from_sender hne hown).1.mpr fun hmasked => hcommon hmasked.1⟩

/-- The peer only sends to everybody, and its rules have nothing for itself: then it is nothing that the node takes
from it. -/
theorem sender_masked : ∃ (remote : Rules) (own source : String) (l : Level), own ≠ source ∧
    remote.ruleFor own = ⟨l, .sendOnly⟩ ∧ (remote.localized own source).ruleFor source ≠ ⟨l, .receiveOnly⟩ ∧
    (remote.localized own source).ruleFor source = .silent := by
  refine ⟨⟨some ⟨.full, .sendOnly⟩, .ofList [("p", .silent)]⟩, "n", "p", .full, ?_, ?_, ?_, ?_⟩ <;> decide +kernel

end Rules

end ContentMesh
