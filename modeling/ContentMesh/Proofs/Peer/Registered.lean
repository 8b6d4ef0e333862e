import ContentMesh.Peer.Registry

/-!
# ContentMesh.Proofs.Peer.Registered — the peers with which messages flow
-/

namespace ContentMesh

namespace Dict

variable {V : Type}

theorem mem_of_lookup {es : List (String × V)} {k : String} {v : V} (h : es.lookup k = some v) : (k, v) ∈ es := by
  induction es with
  | nil => cases h
  | cons e es ih =>
    rw [lookup_cons] at h
    by_cases hk : k = e.1
    · rw [if_pos hk] at h
      obtain rfl := Option.some.inj h
      rw [hk]
      exact List.mem_cons_self
    · rw [if_neg hk] at h
      exact List.mem_cons_of_mem _ (ih h)

theorem lookup_of_mem {es : List (String × V)} (ha : es.Pairwise (·.1 < ·.1)) {k : String} {v : V}
    (h : (k, v) ∈ es) : es.lookup k = some v := by
  induction es with
  | nil => cases h
  | cons e es ih =>
    obtain ⟨he, hes⟩ := List.pairwise_cons.mp ha
    rw [lookup_cons]
    rcases List.mem_cons.mp h with rfl | h
    · rw [if_pos rfl]
    · have hlt : e.1 < k := he _ h
      have hne : k ≠ e.1 := fun hk => String.lt_irrefl k (hk ▸ hlt)
      rw [if_neg hne, ih hes h]

/-- The values are those that some key is bound to. -/
theorem mem_values {d : Dict V} {v : V} : v ∈ d.values ↔ ∃ k, d.get? k = some v := by
  unfold values get?
  rw [List.mem_map]
  constructor
  · rintro ⟨⟨k, v⟩, hm, rfl⟩
    exact ⟨k, lookup_of_mem d.ascending hm⟩
  · rintro ⟨k, h⟩
    exact ⟨(k, v), mem_of_lookup h, rfl⟩

end Dict

namespace Registry

variable {r : Registry}

theorem registered?_eq_some {k : String} {p : Peer} :
    r.registered? k = some p ↔ r.row? k = some p ∧ p.isRegistered = true := by
  unfold registered?
  rw [Option.filter_eq_some_iff]

theorem registered?_iff_status {k : String} {p : Peer} :
    r.registered? k = some p ↔ r.row? k = some p ∧ p.status = .registered := by
  rw [registered?_eq_some, Peer.isRegistered, beq_iff_eq]

/-- The registered peers are those that are found under some uri. -/
theorem mem_registered {p : Peer} : p ∈ r.registered ↔ ∃ k, r.registered? k = some p := by
  unfold registered withStatus rows
  rw [List.mem_filter, Dict.mem_values]
  constructor
  · rintro ⟨⟨k, hk⟩, hs⟩
    exact ⟨k, registered?_eq_some.mpr ⟨hk, hs⟩⟩
  · rintro ⟨k, hk⟩
    obtain ⟨hrow, hs⟩ := registered?_eq_some.mp hk
    exact ⟨⟨k, hrow⟩, hs⟩

/-- Each peer stands under its uri. -/
def Named (r : Registry) : Prop := ∀ uri p, r.row? uri = some p → p.uri = uri

/-- A uri names its row, whatever ids there are. -/
theorem find?_of_row {uri : String} {p : Peer} (h : r.row? uri = some p) : r.find? uri = some p := by
  have hbyUri : r.index.byUri.get? uri = some p := h
  unfold find? PeerIndex.find?
  rw [hbyUri]
  rfl

end Registry

end ContentMesh
