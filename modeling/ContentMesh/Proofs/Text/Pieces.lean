import ContentMesh.Text.Blank

/-!
# ContentMesh.Proofs.Text.Pieces — text that is cut at a mark, and text in lower case
-/

namespace ContentMesh.Text

/-! ## Cutting and joining -/

section Pieces

variable {α : Type} {x : α}

/-- What stands before the first mark is one thing, and so is what follows it. -/
theorem cut_inj {a b r s : List α} (ha : x ∉ a) (hb : x ∉ b) (h : a ++ x :: r = b ++ x :: s) : a = b ∧ r = s := by
  induction a generalizing b with
  | nil =>
    cases b with
    | nil => exact ⟨rfl, (List.cons.inj h).2⟩
    | cons c b => exact absurd (List.cons.inj h).1 fun hx => hb (hx ▸ List.mem_cons_self)
  | cons c a ih =>
    cases b with
    | nil => exact absurd (List.cons.inj h).1.symm fun hx => ha (hx ▸ List.mem_cons_self)
    | cons d b =>
      obtain ⟨hcd, hrest⟩ := List.cons.inj h
      obtain ⟨hab, hrs⟩ := ih (fun hx => ha (List.mem_cons_of_mem _ hx)) (fun hx => hb (List.mem_cons_of_mem _ hx)) hrest
      exact ⟨by rw [hcd, hab], hrs⟩

theorem mem_of_mem_intercalate {s : List α} {ls : List (List α)} (h : x ∈ s.intercalate ls) :
    x ∈ s ∨ ∃ l ∈ ls, x ∈ l := by
  induction ls with
  | nil =>
    rw [List.intercalate_nil] at h
    exact absurd h List.not_mem_nil
  | cons l ls ih =>
    cases ls with
    | nil =>
      rw [List.intercalate_singleton] at h
      exact .inr ⟨l, List.mem_cons_self, h⟩
    | cons k ls =>
      rw [List.intercalate_cons_cons, List.mem_append, List.mem_append] at h
      rcases h with (h | h) | h
      · exact .inr ⟨l, List.mem_cons_self, h⟩
      · exact .inl h
      · exact (ih h).imp_right fun ⟨m, hm, hx⟩ => ⟨m, List.mem_cons_of_mem _ hm, hx⟩

end Pieces

/-! ## Lower case -/

theorem lowerChar_lowerChar_ofNat : ∀ n < 0x80, lowerChar (lowerChar (Char.ofNat n)) = lowerChar (Char.ofNat n) := by
  decide

theorem lowerChar_lowerChar (c : Char) : lowerChar (lowerChar c) = lowerChar c := by
  by_cases h : c.toNat < 0x80
  · have hc := lowerChar_lowerChar_ofNat c.toNat h
    rwa [Char.ofNat_toNat] at hc
  · have hc : lowerChar c = c := if_neg fun hletter => h (Nat.lt_of_le_of_lt hletter.2 (by decide))
    rw [hc, hc]

/-- Lowering again changes nothing. -/
theorem lower_lower (s : String) : lower (lower s) = lower s := by
  rw [lower, lower, String.toList_ofList, List.map_map]
  exact congrArg String.ofList (List.map_congr_left fun c _ => lowerChar_lowerChar c)

theorem lowerChar_of_mem_lower {c : Char} {s : String} (h : c ∈ (lower s).toList) : lowerChar c = c := by
  rw [lower, String.toList_ofList] at h
  obtain ⟨d, -, rfl⟩ := List.mem_map.mp h
  exact lowerChar_lowerChar d

theorem lower_append (s t : String) : lower (s ++ t) = lower s ++ lower t := by
  simp [lower, String.ofList_append]

end ContentMesh.Text
