import ContentMesh.Message.Log
import ContentMesh.Proofs.Storage.Calls

/-!
# ContentMesh.Proofs.Message.Log — rows that come, stay and go

What the calls of a log do to its rows, for a log whose table never fails.  Writing and marking keep every row
(`Log.Extends`); only `Log.delete` takes one away.
-/

namespace ContentMesh.Log

/-- The row of a message. -/
def row? (l : Log) (id : String) : Option LogRow := l.store.rows.get? id

/-- Whether a message has a row. -/
def Has (l : Log) (id : String) : Prop := (l.row? id).isSome = true

/-- A log of which no call fails. -/
def Reliable (l : Log) : Prop := l.store.Reliable

/-- `l'` is `l` with rows written for some of `ids`, none taken away. -/
structure Extends (l : Log) (ids : String → Prop) (l' : Log) : Prop where
  reliable : l'.Reliable
  other : ∀ id, ¬ ids id → l'.row? id = l.row? id
  kept : ∀ id, l.Has id → l'.Has id

variable {l l' l'' : Log} {ids : String → Prop}

theorem Extends.refl (h : l.Reliable) : l.Extends ids l := ⟨h, fun _ _ => rfl, fun _ h => h⟩

theorem Extends.trans (h : l.Extends ids l') (h' : l'.Extends ids l'') : l.Extends ids l'' where
  reliable := h'.reliable
  other id hid := (h'.other id hid).trans (h.other id hid)
  kept id hid := h'.kept id (h.kept id hid)

theorem Extends.mono {ids' : String → Prop} (h : l.Extends ids l') (hi : ∀ id, ids id → ids' id) :
    l.Extends ids' l' where
  reliable := h.reliable
  other id hid := h.other id fun h => hid (hi id h)
  kept := h.kept

theorem Extends.has_iff (h : l.Extends ids l') {id : String} (hid : ¬ ids id) : l'.Has id ↔ l.Has id := by
  unfold Has
  rw [h.other id hid]

namespace Reliable

theorem saveIfAbsent_known (h : l.Reliable) {hd : Header} (hk : l.Has hd.id) (p : Progress) (now : Stamp) :
    l.saveIfAbsent hd p now = (.ok false, l) := by
  have hc := Store.Reliable.contains h hd.id
  have hin : l.store.rows.contains hd.id = true := hk
  rw [Log.saveIfAbsent, hc, hin]

/-- A row is written where there is none. -/
theorem saveIfAbsent_new (h : l.Reliable) {hd : Header} (hn : ¬ l.Has hd.id) (p : Progress) (now : Stamp) :
    ∃ l', l.saveIfAbsent hd p now = (.ok true, l') ∧ l.Extends (· = hd.id) l' ∧ l'.Has hd.id := by
  have hc := Store.Reliable.contains h hd.id
  have hout : l.store.rows.contains hd.id = false := Bool.eq_false_iff.mpr hn
  obtain ⟨st, hput, hr, hrows⟩ := Store.Reliable.put h hd.id (.of hd p now)
  have hget : ∀ id, row? ⟨st⟩ id = if id = hd.id then some (.of hd p now) else l.row? id := by
    intro id
    show st.rows.get? id = _
    rw [hrows, Dict.get?_insert]
    rfl
  have hhas : Has ⟨st⟩ hd.id := by
    rw [Has, hget, if_pos rfl]
    rfl
  refine ⟨⟨st⟩, by rw [Log.saveIfAbsent, hc, hout]; simp only [hput], ⟨hr, fun id hid => ?_, fun id hid => ?_⟩, hhas⟩
  · rw [hget, if_neg hid]
  · by_cases he : id = hd.id
    · exact he ▸ hhas
    · rw [Has, hget, if_neg he]
      exact hid

theorem saveIfAbsent (h : l.Reliable) (hd : Header) (p : Progress) (now : Stamp) :
    ∃ b l', l.saveIfAbsent hd p now = (.ok b, l') ∧ l.Extends (· = hd.id) l' ∧ l'.Has hd.id := by
  by_cases hk : l.Has hd.id
  · exact ⟨false, l, saveIfAbsent_known h hk p now, .refl h, hk⟩
  · obtain ⟨l', hs, hext, hhas⟩ := saveIfAbsent_new h hk p now
    exact ⟨true, l', hs, hext, hhas⟩

/-- Marking changes a row that is there, and writes none. -/
theorem mark (h : l.Reliable) (id : String) (p : Progress) (now : Stamp) :
    ∃ l', l.mark id p now = (.ok (l.row? id).isSome, l') ∧ l.Extends (· = id) l' ∧ (l'.Has id ↔ l.Has id) := by
  have hg : l.store.get id = (.ok (l.row? id), l.store) := Store.Reliable.get h id
  cases hrow : l.row? id with
  | none =>
    rw [hrow] at hg
    exact ⟨l, by rw [Log.mark, hg]; rfl, .refl h, Iff.rfl⟩
  | some row =>
    rw [hrow] at hg
    obtain ⟨st, hput, hr, hrows⟩ := Store.Reliable.put h id { row with progress := p, updated := now }
    have hget : ∀ j, row? ⟨st⟩ j = if j = id then some { row with progress := p, updated := now } else l.row? j := by
      intro j
      show st.rows.get? j = _
      rw [hrows, Dict.get?_insert]
      rfl
    have hhas : Has ⟨st⟩ id := by
      rw [Has, hget, if_pos rfl]
      rfl
    refine ⟨⟨st⟩, by rw [Log.mark, hg]; simp only [hput]; rfl, ⟨hr, fun j hj => ?_, fun j hj => ?_⟩, ?_⟩
    · rw [hget, if_neg hj]
    · by_cases hji : j = id
      · exact hji ▸ hhas
      · rw [Has, hget, if_neg hji]
        exact hj
    · exact ⟨fun _ => by rw [Has, hrow]; rfl, fun _ => hhas⟩

/-- Deleting takes one row away. -/
theorem delete (h : l.Reliable) (id : String) :
    ∃ l', l.delete id = (.ok (l.row? id).isSome, l') ∧ l'.Reliable ∧
      ∀ j, l'.row? j = if j = id then none else l.row? j := by
  obtain ⟨st, hd, hr, hrows⟩ := Store.Reliable.delete h id
  exact ⟨⟨st⟩, by rw [Log.delete, hd]; rfl, hr, hrows⟩

end Reliable

theorem reliable_inMemory : inMemory.Reliable := Store.reliable_of_memory rfl rfl

end ContentMesh.Log
