import ContentMesh.Proofs.Json.RoundTrip

/-!
# ContentMesh.Proofs.Json.Prefix — no object is read from a part of its text

A reader that has read a whole tree has nothing open (`State.Spent`), so a closing brace leads it nowhere.  Text that
ends in a closing brace has therefore no shorter beginning that can be read: an object whose writing was cut off is
not mistaken for another tree (`readBytes_obj_cut`).
-/

namespace ContentMesh.Json

variable {t u : State} {b : UInt8}

theorem run_append (t : State) (bs cs : Bytes) : run t (bs ++ cs) = (run t bs).bind fun u => run u cs := by
  induction bs generalizing t with
  | nil => rfl
  | cons b bs ih =>
    rw [List.cons_append, run, run]
    cases step t b with
    | none => rfl
    | some u => exact ih u

/-- The reader has nothing open: it has read a tree, or a number that may go on. -/
inductive State.Spent : State → Prop where
  | finished (v : Json) : Spent ⟨.finished v, []⟩
  | number (n : NumberSoFar) : Spent ⟨.number n, []⟩

theorem State.spent_of_result {j : Json} (h : t.result? = some j) : t.Spent := by
  unfold State.result? at h
  obtain ⟨mode, stack⟩ := t
  split at h
  · rename_i hmode hstack
    simp only at hmode hstack
    subst hmode hstack
    exact .finished _
  · rename_i hmode hstack
    simp only at hmode hstack
    subst hmode hstack
    exact .number _
  · cases h

/-- After a tree there may be blanks. -/
theorem stepOutside_finished (v : Json) (b : UInt8) :
    stepOutside (.finished v) [] b = if blank b then some ⟨.finished v, []⟩ else none := by
  unfold stepOutside
  split <;> rfl

namespace State.Spent

/-- With nothing open, nothing is opened, and a brace closes nothing. -/
theorem step (ht : t.Spent) (h : step t b = some u) : u.Spent ∧ b ≠ 125 := by
  have houtside : ∀ v, stepOutside (.finished v) [] b = some u → u.Spent ∧ b ≠ 125 := by
    intro v hv
    rw [stepOutside_finished] at hv
    by_cases hb : blank b = true
    · rw [if_pos hb] at hv
      cases hv
      refine ⟨.finished v, ?_⟩
      rintro rfl
      exact absurd hb (by decide)
    · rw [if_neg hb] at hv
      cases hv
  cases ht with
  | finished v => exact houtside v h
  | number n =>
    cases hn : n.push? b with
    | some m =>
      simp only [Json.step, hn, Option.some.injEq] at h
      subst h
      refine ⟨.number m, ?_⟩
      rintro rfl
      simp [push?_closes (.inr (.inr rfl))] at hn
    | none =>
      -- the number ends before the byte, which then stands after a tree
      simp only [Json.step, hn] at h
      obtain ⟨v, -, h⟩ := Option.bind_eq_some_iff.mp h
      exact houtside v h

theorem run_brace (ht : t.Spent) (bs : Bytes) : run t (bs ++ [125]) = none := by
  induction bs generalizing t with
  | nil =>
    cases h : Json.step t 125 with
    | none => simp [run, h]
    | some u => exact absurd rfl (ht.step h).2
  | cons b bs ih =>
    cases h : Json.step t b with
    | none => simp [run, h]
    | some u =>
      rw [List.cons_append, run_cons h]
      exact ih (ht.step h).1

end State.Spent

/-- No beginning of a text that ends in a brace can be read, unless it is the whole text. -/
theorem readBytes_cut {bs cs : Bytes} {j : Json} (h : readBytes (bs ++ (cs ++ [125])) = some j) :
    readBytes bs = none := by
  unfold readBytes at *
  rw [run_append] at h
  cases hrun : run ⟨.value, []⟩ bs with
  | none => rfl
  | some t =>
    cases hresult : t.result? with
    | none => simp [hresult]
    | some v =>
      rw [hrun, Option.bind_some, (State.spent_of_result hresult).run_brace cs] at h
      cases h

/-! ## Objects -/

theorem charsOfMoreMembers_brace (ms : List (String × Json)) : ∃ cs, charsOfMoreMembers ms = cs ++ ['}'] := by
  induction ms with
  | nil => exact ⟨[], rfl⟩
  | cons m ms ih =>
    obtain ⟨cs, hcs⟩ := ih
    exact ⟨',' :: (quoted m.1 ++ ':' :: m.2.chars ++ cs), by simp [charsOfMoreMembers, hcs]⟩

theorem chars_obj_brace (ms : List (String × Json)) : ∃ cs, (obj ms).chars = cs ++ ['}'] := by
  cases ms with
  | nil => exact ⟨['{'], rfl⟩
  | cons m ms =>
    obtain ⟨cs, hcs⟩ := charsOfMoreMembers_brace ms
    exact ⟨'{' :: (quoted m.1 ++ ':' :: m.2.chars ++ cs), by simp [chars, charsOfMembers, hcs]⟩

/-- A proper beginning of the text of an object cannot be read. -/
theorem readBytes_obj_cut {ms : List (String × Json)} (h : (obj ms).Legible) {bs : Bytes}
    (hbs : bs <+: Utf8.encode (obj ms).chars) (hne : bs ≠ Utf8.encode (obj ms).chars) : readBytes bs = none := by
  obtain ⟨cs, hcs⟩ := chars_obj_brace ms
  have htext : Utf8.encode (obj ms).chars = Utf8.encode cs ++ [125] := by
    rw [hcs, Utf8.encode_append]
    rfl
  rw [htext] at hbs hne
  obtain ⟨rest, hrest⟩ := (List.prefix_concat_iff.mp hbs).resolve_left hne
  have hwhole : readBytes (bs ++ (rest ++ [125])) = some (obj ms) := by
    rw [← List.append_assoc, hrest, ← htext]
    exact readBytes_chars h
  exact readBytes_cut hwhole

end ContentMesh.Json
