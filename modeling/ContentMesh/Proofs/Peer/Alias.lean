import ContentMesh.Proofs.Node.Refusing
import ContentMesh.Proofs.Peer.Deeds
import ContentMesh.Proofs.Peer.Listing

/-!
# ContentMesh.Proofs.Peer.Alias — finding a peer by its id

A row stands under its uri; its id is an alias that leads there.  Peers choose their ids, so that rows may share one,
but an id leads to one uri only.  It never leads astray (`PeerIndex.Sound`), and it leads to some row that has it
(`PeerIndex.Reaches`) until one of the rows that share it gives it up: then it may lead nowhere
(`Office.id_lost`), although a row still has it.  That is the only way for a row to become lost by its id
(`Office.found_by_id`), and reading the rows anew mends it.
-/

namespace ContentMesh

namespace PeerIndex

/-! ## Ids of an index -/

/-- Where an id leads, there is a row that has it. -/
def Sound (i : PeerIndex) : Prop :=
  ∀ id uri, i.uriById.get? id = some uri → ∃ p, i.byUri.get? uri = some p ∧ p.id = id

/-- An id that some row has leads somewhere. -/
def Reaches (i : PeerIndex) (id : String) : Prop :=
  ∀ uri p, i.byUri.get? uri = some p → p.id = id → i.uriById.get? id ≠ none

/-- At most one row has the id. -/
def Lone (i : PeerIndex) (id : String) : Prop :=
  ∀ u v p q, i.byUri.get? u = some p → i.byUri.get? v = some q → p.id = id → q.id = id → u = v

/-- From one index to the next, a row that shares the id with another one keeps it. -/
def Retains (i : PeerIndex) (id : String) (j : PeerIndex) : Prop :=
  ∀ u v p q, u ≠ v → i.byUri.get? u = some p → i.byUri.get? v = some q → p.id = id → q.id = id →
    ∃ p', j.byUri.get? u = some p' ∧ p'.id = id

variable {i j : PeerIndex} {id : String}

theorem uriById_insert (i : PeerIndex) (p : Peer) (id : String) :
    (i.insert p).uriById.get? id = if id = p.id then some p.uri
      else if (i.byUri.get? p.uri).map Peer.id = some id then none else i.uriById.get? id := by
  unfold insert
  dsimp only
  rw [Dict.get?_insert]
  by_cases hid : id = p.id
  · rw [if_pos hid, if_pos hid]
  · rw [if_neg hid, if_neg hid]
    cases i.byUri.get? p.uri with
    | none => simp
    | some old =>
      dsimp only
      by_cases hold : old.id = p.id
      · have hne : (some old).map Peer.id ≠ some id := by
          rw [Option.map_some, hold]
          simp [Ne.symm hid]
        rw [if_pos hold, if_neg hne]
      · rw [if_neg hold, Dict.get?_erase]
        simp [eq_comm]

theorem uriById_erase (i : PeerIndex) (uri id : String) :
    (i.erase uri).uriById.get? id =
      if (i.byUri.get? uri).map Peer.id = some id ∧ i.uriById.get? id = some uri then none
      else i.uriById.get? id := by
  unfold erase
  cases i.byUri.get? uri with
  | none => simp
  | some p =>
    simp only [Option.map_some, Option.some.injEq]
    by_cases hled : i.uriById.get? p.id = some uri
    · rw [if_pos hled, Dict.get?_erase]
      by_cases hid : id = p.id
      · subst hid
        rw [if_pos rfl, if_pos ⟨rfl, hled⟩]
      · rw [if_neg hid, if_neg]
        exact fun h => hid h.1.symm
    · rw [if_neg hled, if_neg]
      rintro ⟨rfl, h⟩
      exact hled h

/-! ### Soundness -/

theorem Sound.insert (h : i.Sound) (p : Peer) : (i.insert p).Sound := by
  intro id uri hled
  rw [uriById_insert] at hled
  rw [byUri_insert]
  by_cases hid : id = p.id
  · rw [if_pos hid] at hled
    rw [if_pos (Option.some.inj hled).symm]
    exact ⟨p, rfl, hid.symm⟩
  · rw [if_neg hid] at hled
    split at hled
    · cases hled
    · rename_i hold
      obtain ⟨q, hq, hqid⟩ := h id uri hled
      -- the id does not lead to the row that is overwritten, for that one's id is forgotten
      have huri : uri ≠ p.uri := by
        rintro rfl
        rw [hq, Option.map_some, hqid] at hold
        exact hold rfl
      rw [if_neg huri]
      exact ⟨q, hq, hqid⟩

theorem Sound.erase (h : i.Sound) (uri : String) : (i.erase uri).Sound := by
  intro id u hled
  rw [uriById_erase] at hled
  split at hled
  · cases hled
  · rename_i hkept
    obtain ⟨q, hq, hqid⟩ := h id u hled
    have hu : u ≠ uri := by
      rintro rfl
      exact hkept ⟨by rw [hq, Option.map_some, hqid], hled⟩
    rw [byUri_erase, if_neg hu]
    exact ⟨q, hq, hqid⟩

theorem Sound.ofRows (ps : List Peer) : (ofRows ps).Sound := by
  have hfold : ∀ (ps : List Peer) (i : PeerIndex), i.Sound → (ps.foldl PeerIndex.insert i).Sound := by
    intro ps
    induction ps with
    | nil => exact fun i hi => hi
    | cons p ps ih => exact fun i hi => ih _ (hi.insert p)
  apply hfold
  intro id uri hled
  cases hled

/-! ### Being led to a row -/

theorem Reaches.insert (h : i.Reaches id) {p : Peer} (hretains : i.Retains id (i.insert p)) :
    (i.insert p).Reaches id := by
  intro uri q hq hqid
  rw [uriById_insert]
  by_cases hid : id = p.id
  · rw [if_pos hid]
    simp
  · rw [if_neg hid]
    rw [byUri_insert] at hq
    have huri : uri ≠ p.uri := by
      rintro rfl
      rw [if_pos rfl] at hq
      rw [← Option.some.inj hq] at hqid
      exact hid hqid.symm
    rw [if_neg huri] at hq
    split
    · -- the row that is overwritten had the id as well, and would have to keep it
      rename_i hold
      obtain ⟨old, hrow, holdid⟩ := Option.map_eq_some_iff.mp hold
      obtain ⟨p', hp', hp'id⟩ := hretains p.uri uri old q (Ne.symm huri) hrow hq holdid hqid
      rw [byUri_insert, if_pos rfl] at hp'
      rw [← Option.some.inj hp'] at hp'id
      exact absurd hp'id.symm hid
    · exact h uri q hq hqid

theorem Reaches.erase (h : i.Reaches id) {uri : String} (hretains : i.Retains id (i.erase uri)) :
    (i.erase uri).Reaches id := by
  intro u q hq hqid
  rw [byUri_erase] at hq
  have hu : u ≠ uri := by
    rintro rfl
    rw [if_pos rfl] at hq
    cases hq
  rw [if_neg hu] at hq
  rw [uriById_erase]
  split
  · rename_i hold
    obtain ⟨old, hrow, holdid⟩ := Option.map_eq_some_iff.mp hold.1
    obtain ⟨p', hp', -⟩ := hretains uri u old q (Ne.symm hu) hrow hq holdid hqid
    rw [byUri_erase, if_pos rfl] at hp'
    cases hp'
  · exact h u q hq hqid

/-- Rows that are put in one after the other, each under a uri of its own, are all led to. -/
theorem Reaches.ofRows {ps : List Peer} (hps : (ps.map Peer.uri).Nodup) (id : String) : (ofRows ps).Reaches id := by
  have hfold : ∀ (ps : List Peer) (i : PeerIndex), (ps.map Peer.uri).Nodup →
      (∀ p ∈ ps, i.byUri.get? p.uri = none) → i.Reaches id → (ps.foldl PeerIndex.insert i).Reaches id := by
    intro ps
    induction ps with
    | nil => exact fun i _ _ hi => hi
    | cons p ps ih =>
      intro i hnodup hfree hi
      obtain ⟨hp, hps⟩ := List.nodup_cons.mp hnodup
      have hnone : i.byUri.get? p.uri = none := hfree p List.mem_cons_self
      have hretains : i.Retains id (i.insert p) := by
        intro u v a b huv ha hb haid hbid
        refine ⟨a, ?_, haid⟩
        rw [byUri_insert, if_neg]
        · exact ha
        · rintro rfl
          rw [hnone] at ha
          cases ha
      apply ih _ hps _ (hi.insert hretains)
      intro q hq
      rw [byUri_insert, if_neg]
      · exact hfree q (List.mem_cons_of_mem _ hq)
      · intro hqp
        exact hp (hqp ▸ List.mem_map_of_mem hq)
  apply hfold ps ∅ hps
  · intro p hp
    rfl
  · intro uri p hp
    cases hp

/-! ### Looking up -/

/-- What a text finds answers to it: it stands under that uri, or has that id. -/
theorem Sound.found (h : i.Sound) (hnamed : ∀ uri p, i.byUri.get? uri = some p → p.uri = uri) {text : String}
    {p : Peer} (hp : i.find? text = some p) : p.answersTo text = true := by
  unfold Peer.answersTo
  unfold find? at hp
  rcases Option.or_eq_some_iff.mp hp with hrow | ⟨-, hid⟩
  · simp [hnamed text p hrow]
  · obtain ⟨uri, hled, hrow⟩ := Option.bind_eq_some_iff.mp hid
    obtain ⟨q, hq, hqid⟩ := h text uri hled
    rw [hrow] at hq
    simp [Option.some.inj hq, hqid]

/-- The id of a row that is led to finds a row. -/
theorem Reaches.find? (h : i.Reaches id) (hsound : i.Sound) {uri : String} {p : Peer}
    (hp : i.byUri.get? uri = some p) (hid : p.id = id) : ∃ q, i.find? id = some q := by
  unfold PeerIndex.find?
  obtain ⟨v, hv⟩ := Option.ne_none_iff_exists'.mp (h uri p hp hid)
  obtain ⟨q, hq, -⟩ := hsound id v hv
  cases i.byUri.get? id with
  | some p => exact ⟨p, rfl⟩
  | none => exact ⟨q, by rw [hv, Option.none_or, Option.bind_some, hq]⟩

/-- An id that one row has at most, and that is led to, leads to that row. -/
theorem Reaches.led_iff (h : i.Reaches id) (hsound : i.Sound) (hlone : i.Lone id) (p : Peer) :
    (i.uriById.get? id).bind i.byUri.get? = some p ↔ ∃ uri, i.byUri.get? uri = some p ∧ p.id = id := by
  rw [Option.bind_eq_some_iff]
  constructor
  · rintro ⟨uri, hled, hp⟩
    obtain ⟨q, hq, hqid⟩ := hsound id uri hled
    rw [hp] at hq
    exact ⟨uri, hp, Option.some.inj hq ▸ hqid⟩
  · rintro ⟨uri, hp, hid⟩
    obtain ⟨v, hv⟩ := Option.ne_none_iff_exists'.mp (h uri p hp hid)
    obtain ⟨q, hq, hqid⟩ := hsound id v hv
    have huv : uri = v := hlone uri v p q hp hq hid hqid
    exact ⟨uri, huv ▸ hv, hp⟩

/-- Two indexes of the same rows find the same by an id that both lead by and one row has at most. -/
theorem find?_congr (hrows : ∀ uri, j.byUri.get? uri = i.byUri.get? uri) (hlone : i.Lone id) (hi : i.Sound)
    (hj : j.Sound) (hri : i.Reaches id) (hrj : j.Reaches id) : j.find? id = i.find? id := by
  have hlone' : j.Lone id := by
    intro u v p q hu hv
    rw [hrows] at hu hv
    exact hlone u v p q hu hv
  unfold find?
  rw [hrows]
  congr 1
  apply Option.ext
  intro p
  rw [hrj.led_iff hj hlone', hri.led_iff hi hlone]
  simp only [hrows]

/-! ## What becomes of an index -/

/-- What one step can make of the index of a registry whose table holds `rows`. -/
inductive Next (rows : Dict Peer) (i : PeerIndex) : PeerIndex → Prop where
  | same : Next rows i i
  | inserted (p : Peer) : Next rows i (i.insert p)
  | erased (uri : String) : Next rows i (i.erase uri)
  | rebuilt : Next rows i (.ofRows rows.values)

variable {rows : Dict Peer}

theorem Next.sound (h : Next rows i j) (hi : i.Sound) : j.Sound := by
  cases h with
  | same => exact hi
  | inserted p => exact hi.insert p
  | erased uri => exact hi.erase uri
  | rebuilt => exact .ofRows rows.values

/-- The rows of a table are under uris of their own. -/
theorem nodup_values (hnamed : ∀ uri p, rows.get? uri = some p → p.uri = uri) : (rows.values.map Peer.uri).Nodup := by
  apply (Dict.values_ascending hnamed).imp
  intro u v huv heq
  exact String.lt_irrefl u (heq ▸ huv)

theorem Next.reaches (h : Next rows i j) (hnamed : ∀ uri p, rows.get? uri = some p → p.uri = uri)
    (hretains : i.Retains id j) (hi : i.Reaches id) : j.Reaches id := by
  cases h with
  | same => exact hi
  | inserted p => exact hi.insert hretains
  | erased uri => exact hi.erase hretains
  | rebuilt => exact .ofRows (nodup_values hnamed) id

end PeerIndex

namespace Registry

variable {r r' : Registry}

theorem Acts.next {uri : String} {b : Bool} (h : r.Acts uri b r') :
    PeerIndex.Next r.store.rows r.index r'.index := by
  cases h with
  | idle b hs => exact .same
  | wrote hp hs => exact .inserted _
  | removed hrow hs => exact .erased uri

theorem reload_next (r : Registry) : PeerIndex.Next r.store.rows r.index r.reload.2.index := by
  unfold reload
  rcases r.store.values_cases with ⟨f, s, hv, hs⟩ | hv
  · rw [hv]
    exact .same
  · rw [hv]
    exact .rebuilt

/-- The rows of the table stand under their uris. -/
theorem Faithful.stored (h : r.Faithful) : ∀ uri p, r.store.rows.get? uri = some p → p.uri = uri := by
  intro uri p hp
  rw [h.kept] at hp
  exact h.named uri p hp

namespace Office

variable {o : Office} {id : String}

theorem step_next (hf : o.registry.Faithful) (e : Event) :
    PeerIndex.Next o.registry.store.rows o.registry.index (o.step e).registry.index := by
  have hstirs := step_stirs hf e
  generalize (o.step e).registry = r at hstirs ⊢
  cases hstirs with
  | acts claims claims' h => exact h.next
  | reloads => exact o.registry.reload_next

theorem turn_next (hf : o.registry.Faithful) (t : Turn) :
    PeerIndex.Next o.registry.store.rows o.registry.index (o.turn t).registry.index := by
  cases t with
  | happens e => exact step_next hf e
  | heeds => exact .same
  | fails faults trouble => exact .same

/-! ## Runs -/

/-- Over a run, no row gives up an id while another one has it. -/
def Retains (o : Office) (id : String) : List Turn → Prop
  | [] => True
  | t :: ts => o.registry.index.Retains id (o.turn t).registry.index ∧ (o.turn t).Retains id ts

theorem through_sound (hf : o.registry.Faithful) (hi : o.registry.index.Sound) (ts : List Turn) :
    (o.through ts).registry.index.Sound := by
  induction ts generalizing o with
  | nil => exact hi
  | cons t ts ih => exact ih (turn_faithful hf t) ((turn_next hf t).sound hi)

theorem through_reaches (hf : o.registry.Faithful) (hi : o.registry.index.Reaches id) {ts : List Turn}
    (h : o.Retains id ts) : (o.through ts).registry.index.Reaches id := by
  induction ts generalizing o with
  | nil => exact hi
  | cons t ts ih =>
    obtain ⟨ht, hts⟩ := h
    exact ih (turn_faithful hf t) ((turn_next hf t).reaches hf.stored ht hi) hts

end Office

/-! ## Reading the rows anew -/

variable {id : String}

theorem reload_row (hf : r.Faithful) (uri : String) : r.reload.2.row? uri = r.row? uri := by
  rw [(reload_changes hf uri).row, if_pos rfl]

/-- Where the rows could be read, every id leads to a row that has it. -/
theorem reload_reaches (hf : r.Faithful) (hok : r.reload.1 = .ok ()) (id : String) :
    r.reload.2.index.Reaches id := by
  unfold reload at hok ⊢
  rcases r.store.values_cases with ⟨f, s, hv, hs⟩ | hv
  · rw [hv] at hok
    cases hok
  · rw [hv]
    exact .ofRows (PeerIndex.nodup_values hf.stored) id

/-- Reading the rows anew changes nothing of what is found by an id that one row has at most and that leads to it. -/
theorem find?_reload (hf : r.Faithful) (hsound : r.index.Sound) (hreaches : r.index.Reaches id)
    (hlone : r.index.Lone id) : r.reload.2.find? id = r.find? id := by
  have hretains : r.index.Retains id r.reload.2.index := by
    intro u v p q huv hu hv hp hq
    exact absurd (hlone u v p q hu hv hp hq) huv
  exact PeerIndex.find?_congr (reload_row hf) hlone hsound (r.reload_next.sound hsound) hreaches
    (r.reload_next.reaches hf.stored hretains hreaches)

/-! ## Taking leave, and sending -/

/-- What is found, by uri or by id, stands under its own uri. -/
theorem Faithful.found_row (hf : r.Faithful) {text : String} {p : Peer} (hp : r.find? text = some p) :
    r.row? p.uri = some p := by
  have hrow : ∃ uri, r.row? uri = some p := by
    unfold find? PeerIndex.find? at hp
    rcases Option.or_eq_some_iff.mp hp with hrow | ⟨-, hled⟩
    · exact ⟨text, hrow⟩
    · obtain ⟨uri, -, hrow⟩ := Option.bind_eq_some_iff.mp hled
      exact ⟨uri, hrow⟩
  obtain ⟨uri, hrow⟩ := hrow
  rw [hf.named uri p hrow]
  exact hrow

/-- Who takes leave under a text that finds a row is not unknown. -/
theorem handleUnregister_found (hf : r.Faithful) {p : Peer} (hp : r.find? id = some p) :
    (r.handleUnregister id).1 ≠ .ok false := by
  unfold handleUnregister forget
  rw [hp]
  dsimp only
  rw [if_neg (by simp)]
  rcases r.store.delete_cases p.uri with ⟨s, hd, hs⟩ | ⟨f, s, hd, hs⟩
  · rw [hd, hf.found_row hp]
    simp
  · rw [hd]
    simp

namespace Office

/-- A registry that was opened over a table of rows under their uris, over every run, whatever calls of the table fail
in it.  A text finds only rows that answer to it; a row is found by its uri, and reading the rows anew, where that
succeeds, makes it found by its id.  If over the run no row gave up the id while another one had it, a row that has
the id is found by it all along: who takes leave under it is not unknown, and nor is the hop that presents it with a
message, if the row that it finds is registered.  If one row has the id at most, reading the rows anew does not change
what it finds. -/
theorem found_by_id {self : Identity} {s : Store Peer} (hload : load self s = .ok r)
    (hnamed : ∀ uri p, s.rows.get? uri = some p → p.uri = uri) (ts : List Turn) (id : String) :
    let q := ((of r).through ts).registry
    (∀ p, q.find? id = some p → p.answersTo id = true) ∧
      (∀ p, q.row? id = some p → q.find? id = some p ∧ q.reload.2.find? id = some p) ∧
      (∀ uri p, q.row? uri = some p → p.id = id → q.reload.1 = .ok () → ∃ f, q.reload.2.find? id = some f) ∧
      ((of r).Retains id ts →
        (∀ uri p, q.row? uri = some p → p.id = id → ∃ f, q.find? id = some f ∧ f.answersTo id = true ∧
          (q.handleUnregister id).1 ≠ .ok false ∧
          (f.isRegistered = true → ∀ (n : Node) (i : Inbound) (now : Moment) (name : String),
            n.registry = q → i.hop = id → (n.takeIn i now).1 ≠ .settled (.error (.unknownInstance name)))) ∧
        (q.index.Lone id → q.reload.2.find? id = q.find? id)) := by
  intro q
  have hf : r.Faithful := load_faithful hload hnamed
  have hindex : r.index = .ofRows s.rows.values := by rw [load_ok hload]
  have hsound : r.index.Sound := hindex ▸ .ofRows _
  have hreaches : r.index.Reaches id := hindex ▸ .ofRows (PeerIndex.nodup_values hnamed) id
  have hq : q.Faithful := through_faithful (o := of r) hf ts
  have hqsound : q.index.Sound := through_sound (o := of r) hf hsound ts
  have hanswers : ∀ p, q.find? id = some p → p.answersTo id = true := fun p hp => hqsound.found hq.named hp
  refine ⟨hanswers, ?_, ?_, ?_⟩
  · intro p hp
    exact ⟨find?_of_row hp, find?_of_row ((reload_row hq id).trans hp)⟩
  · intro uri p hp hid hok
    have hrow : q.reload.2.row? uri = some p := (reload_row hq uri).trans hp
    exact (reload_reaches hq hok id).find? (q.reload_next.sound hqsound) hrow hid
  · intro hretains
    have hqreaches : q.index.Reaches id := through_reaches (o := of r) hf hreaches hretains
    refine ⟨?_, find?_reload hq hqsound hqreaches⟩
    intro uri p hp hid
    obtain ⟨f, hfind⟩ := hqreaches.find? hqsound hp hid
    refine ⟨f, hfind, hanswers f hfind, handleUnregister_found hq hfind, ?_⟩
    intro hreg n i now name hn hi
    apply Node.takeIn_found _ hreg
    rw [hn, hi]
    exact hfind

/-- Two peers that took the same id, the second of which is found by it, and may leave under it. -/
theorem found_by_id_shared : ∃ (s : Store Peer) (r : Registry) (b c : Peer) (ts : List Turn),
    load ⟨"a", "", "t"⟩ s = .ok r ∧ (∀ uri p, s.rows.get? uri = some p → p.uri = uri) ∧
      ts = [.happens (.adds b), .happens (.adds c)] ∧ b.id = "x" ∧ c.id = "x" ∧ (of r).Retains "x" ts ∧
      ((of r).through ts).registry.row? b.uri = some b ∧
      (∃ f, ((of r).through ts).registry.find? "x" = some f ∧ f.answersTo "x" = true) ∧
      (((of r).through ts).registry.handleUnregister "x").1 ≠ .ok false := by
  let b : Peer := .new "x" "" "u" .registered
  let c : Peer := .new "x" "" "v" .registered
  let ts : List Turn := [.happens (.adds b), .happens (.adds c)]
  have hload : load ⟨"a", "", "t"⟩ Store.inMemory = .ok (inMemory ⟨"a", "", "t"⟩) := rfl
  have hnamed : ∀ uri p, (Store.inMemory : Store Peer).rows.get? uri = some p → p.uri = uri := by
    intro uri p hp
    cases hp
  have hretains : (of (inMemory ⟨"a", "", "t"⟩)).Retains "x" ts := by
    refine ⟨?_, ?_, trivial⟩
    · intro u v p q huv hu
      cases hu
    · intro u v p q huv hu hv
      have hone : ∀ k p, ((∅ : PeerIndex).insert b).byUri.get? k = some p → k = "u" := by
        intro k p hk
        rw [PeerIndex.byUri_insert] at hk
        by_cases hku : k = b.uri
        · exact hku
        · rw [if_neg hku] at hk
          cases hk
      exact absurd ((hone u p hu).trans (hone v q hv).symm) huv
  have hrow : ((of (inMemory ⟨"a", "", "t"⟩)).through ts).registry.row? "u" = some b := by decide +kernel
  obtain ⟨-, -, -, hshared⟩ := found_by_id hload hnamed ts "x"
  obtain ⟨f, hf, hanswers, hleave, -⟩ := (hshared hretains).1 "u" b hrow rfl
  exact ⟨_, _, b, c, ts, hload, hnamed, rfl, rfl, rfl, hretains, hrow, ⟨f, hf, hanswers⟩, hleave⟩

/-- A peer asks under the id `x`, another one with that id is added, and the first, when it is accepted, turns out to
have the id `y` now.  The index forgets where `x` leads, although the second peer has it still. -/
theorem id_lost :
    let c : Peer := .new "x" "c" "http://c" .registered
    let q := ((of (inMemory ⟨"a-id", "a", "http://a"⟩)).through [
      .happens (.registers ⟨"x", "b", "http://b", none⟩), .happens (.adds c),
      .happens (.begins (.accept "http://b")),
      .happens (.returns (.accepting (.new "x" "b" "http://b" .requesting))
        (.answer ⟨⟨"y", "b", "http://b"⟩, .confirmed, some .registered, none⟩))]).registry
    q.row? c.uri = some c ∧ q.find? c.id = none ∧ q.reload.2.find? c.id = some c ∧
      (q.handleUnregister c.id).1 = .ok false ∧
      ∀ (n : Node) (i : Inbound) (now : Moment), n.registry = q → n.running = true → i.hop = c.id →
        (n.takeIn i now).1 = .settled (.error (.unknownInstance c.id)) := by
  intro c q
  have hnone : q.find? c.id = none := by decide +kernel
  have hleave : (q.handleUnregister c.id).1 = .ok false := by
    unfold handleUnregister
    rw [hnone]
  refine ⟨by decide +kernel, hnone, by decide +kernel, hleave, ?_⟩
  intro n i now hn hrun hi
  apply (Node.takeIn_unknown n i now c.id).mpr
  refine ⟨hrun, hi.symm, ?_⟩
  rw [hn, hi, hnone]
  rfl

end Office

end Registry

end ContentMesh
