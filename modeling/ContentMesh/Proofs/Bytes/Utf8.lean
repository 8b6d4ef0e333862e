import ContentMesh.Bytes.Utf8

/-!
# ContentMesh.Proofs.Bytes.Utf8 — text comes back from its bytes

The bytes of a character take the reader from between characters to that character (`spells_encodeChar`), so both
ways of reading give back what was written.  A byte of ASCII stands in the bytes of its own character alone.
-/

namespace ContentMesh

namespace Utf8

/-- Bytes that take the reader from a state to the end of a character. -/
inductive Spells : Option Partial → Bytes → Char → Prop where
  | last {p : Option Partial} {b : UInt8} {c : Char} (h : step p b = .char c) : Spells p [b] c
  | more {p : Option Partial} {b : UInt8} {q : Partial} {bs : Bytes} {c : Char} (h : step p b = .more q)
      (hs : Spells (some q) bs c) : Spells p (b :: bs) c

theorem toNat_toUInt8 {n : Nat} (h : n < 256) : n.toUInt8.toNat = n := Nat.mod_eq_of_lt h

theorem scalar (c : Char) : c.toNat < 0xD800 ∨ 0xE000 ≤ c.toNat ∧ c.toNat < 0x110000 := by
  have h := c.valid
  simp only [UInt32.isValidChar, Nat.isValidChar] at h
  have hn : c.toNat = c.val.toNat := rfl
  omega

/-! ## Steps -/

theorem step_tail {p : Partial} {k : Nat} (hp : p.low ≤ 0x80 + k) (hq : 0x80 + k ≤ p.high) (hk : k < 64)
    (ho : 1 < p.owed) : step (some p) (0x80 + k).toUInt8 = .more ⟨p.owed - 1, 0x80, 0xBF, p.code * 64 + k⟩ := by
  show p.next (0x80 + k).toUInt8.toNat = _
  unfold Partial.next
  rw [toNat_toUInt8 (by omega), if_pos ⟨hp, hq⟩, if_neg (by omega), Nat.add_sub_cancel_left]

theorem step_last {p : Partial} {k : Nat} (hp : p.low ≤ 0x80 + k) (hq : 0x80 + k ≤ p.high) (hk : k < 64)
    (ho : p.owed = 1) : step (some p) (0x80 + k).toUInt8 = .char (Char.ofNat (p.code * 64 + k)) := by
  show p.next (0x80 + k).toUInt8.toNat = _
  unfold Partial.next
  rw [toNat_toUInt8 (by omega), if_pos ⟨hp, hq⟩, if_pos (by omega), Nat.add_sub_cancel_left]

theorem step_one {n : Nat} (h : n < 0x80) : step none n.toUInt8 = .char (Char.ofNat n) := by
  show lead n.toUInt8.toNat = _
  unfold lead
  rw [toNat_toUInt8 (by omega), if_pos h]

theorem step_two {k : Nat} (h : 2 ≤ k) (hk : k < 32) : step none (0xC0 + k).toUInt8 = .more ⟨1, 0x80, 0xBF, k⟩ := by
  show lead (0xC0 + k).toUInt8.toNat = _
  unfold lead
  rw [toNat_toUInt8 (by omega), if_neg (by omega), if_neg (by omega), if_pos (by omega), Nat.add_sub_cancel_left]

theorem step_three {k : Nat} (hk : k < 16) : step none (0xE0 + k).toUInt8
    = .more ⟨2, if k = 0 then 0xA0 else 0x80, if k = 13 then 0x9F else 0xBF, k⟩ := by
  show lead (0xE0 + k).toUInt8.toNat = _
  unfold lead
  rw [toNat_toUInt8 (by omega), if_neg (by omega), if_neg (by omega), if_neg (by omega)]
  by_cases h0 : k = 0
  · subst h0
    rfl
  · by_cases h13 : k = 13
    · subst h13
      rfl
    · rw [if_neg (by omega), if_neg (by omega), if_pos (by omega), if_neg h0, if_neg h13, Nat.add_sub_cancel_left]

theorem step_four {k : Nat} (hk : k < 5) : step none (0xF0 + k).toUInt8
    = .more ⟨3, if k = 0 then 0x90 else 0x80, if k = 4 then 0x8F else 0xBF, k⟩ := by
  show lead (0xF0 + k).toUInt8.toNat = _
  unfold lead
  rw [toNat_toUInt8 (by omega), if_neg (by omega), if_neg (by omega), if_neg (by omega), if_neg (by omega),
    if_neg (by omega), if_neg (by omega)]
  by_cases h0 : k = 0
  · subst h0
    rfl
  · by_cases h4 : k = 4
    · subst h4
      rfl
    · rw [if_neg (by omega), if_pos (by omega), if_neg h0, if_neg h4, Nat.add_sub_cancel_left]

/-! ## Reading back -/

theorem spells_encodeChar (c : Char) : Spells none (encodeChar c) c := by
  have hc := scalar c
  have hback : ∀ m, m = c.toNat → Char.ofNat m = c := fun m hm => hm ▸ Char.ofNat_toNat c
  unfold encodeChar
  dsimp only
  generalize c.toNat = n at hc hback ⊢
  -- one case for each length: every byte is in its range, and the code comes back from its six-bit digits
  by_cases h1 : n < 0x80
  · rw [if_pos h1]
    exact .last ((step_one h1).trans (congrArg _ (hback n rfl)))
  rw [if_neg h1]
  by_cases h2 : n < 0x800
  · rw [if_pos h2]
    refine .more (step_two (k := n / 64) (by omega) (by omega)) (.last ?_)
    rw [step_last (by dsimp only; omega) (by dsimp only; omega) (by omega) rfl]
    exact congrArg _ (hback _ (by dsimp only; omega))
  rw [if_neg h2]
  by_cases h3 : n < 0x10000
  · rw [if_pos h3]
    refine .more (step_three (k := n / 4096) (by omega)) (.more (step_tail ?_ ?_ (by omega) (by dsimp only; omega))
      (.last ?_))
    · dsimp only
      split <;> omega
    · dsimp only
      split <;> omega
    · rw [step_last (by dsimp only; omega) (by dsimp only; omega) (by omega) rfl]
      exact congrArg _ (hback _ (by dsimp only; omega))
  rw [if_neg h3]
  refine .more (step_four (k := n / 262144) (by omega)) (.more (step_tail ?_ ?_ (by omega) (by dsimp only; omega))
    (.more (step_tail ?_ ?_ (by omega) (by dsimp only; omega)) (.last ?_)))
  · dsimp only
    split <;> omega
  · dsimp only
    split <;> omega
  · dsimp only
    omega
  · dsimp only
    omega
  · rw [step_last (by dsimp only; omega) (by dsimp only; omega) (by omega) rfl]
    exact congrArg _ (hback _ (by dsimp only; omega))

theorem Spells.decodeFrom {p : Option Partial} {bs : Bytes} {c : Char} (h : Spells p bs c) (read : List Char)
    (r : Bytes) : decodeFrom p read (bs ++ r) = Utf8.decodeFrom none (c :: read) r := by
  induction h with
  | last h => simp only [List.cons_append, List.nil_append, Utf8.decodeFrom, h]
  | more h _ ih =>
    rw [List.cons_append, Utf8.decodeFrom, h]
    exact ih

theorem Spells.decodeLossyFrom {p : Option Partial} {bs : Bytes} {c : Char} (h : Spells p bs c) (read : List Char)
    (r : Bytes) : decodeLossyFrom p read (bs ++ r) = Utf8.decodeLossyFrom none (c :: read) r := by
  induction h with
  | last h => simp only [List.cons_append, List.nil_append, Utf8.decodeLossyFrom, h]
  | more h _ ih =>
    rw [List.cons_append, Utf8.decodeLossyFrom, h]
    exact ih

theorem decodeFrom_encode (cs read : List Char) :
    decodeFrom none read (encode cs) = some (read.reverse ++ cs) := by
  induction cs generalizing read with
  | nil => simp [encode, decodeFrom]
  | cons c cs ih =>
    have h := (spells_encodeChar c).decodeFrom read (encode cs)
    rw [encode, List.flatMap_cons]
    rw [encode] at h
    rw [h, ← encode, ih, List.reverse_cons, List.append_assoc]
    rfl

theorem decodeLossyFrom_encode (cs read : List Char) :
    decodeLossyFrom none read (encode cs) = read.reverse ++ cs := by
  induction cs generalizing read with
  | nil => simp [encode, decodeLossyFrom]
  | cons c cs ih =>
    have h := (spells_encodeChar c).decodeLossyFrom read (encode cs)
    rw [encode, List.flatMap_cons]
    rw [encode] at h
    rw [h, ← encode, ih, List.reverse_cons, List.append_assoc]
    rfl

theorem decode_encode (cs : List Char) : decode (encode cs) = some cs := decodeFrom_encode cs []

theorem decodeLossy_encode (cs : List Char) : decodeLossy (encode cs) = cs := decodeLossyFrom_encode cs []

theorem encode_inj {cs ds : List Char} (h : encode cs = encode ds) : cs = ds := by
  have hd := congrArg decode h
  rw [decode_encode, decode_encode] at hd
  exact Option.some.inj hd

theorem encode_append (cs ds : List Char) : encode (cs ++ ds) = encode cs ++ encode ds := List.flatMap_append

theorem encode_cons (c : Char) (cs : List Char) : encode (c :: cs) = encodeChar c ++ encode cs := List.flatMap_cons

/-! ## Bytes of ASCII -/

theorem encodeChar_ascii {c : Char} (h : c.toNat < 0x80) : encodeChar c = [c.toNat.toUInt8] := by
  unfold encodeChar
  rw [if_pos h]

theorem encode_ascii {cs : List Char} (h : ∀ c ∈ cs, c.toNat < 0x80) : encode cs = cs.map fun c => c.toNat.toUInt8 := by
  induction cs with
  | nil => rfl
  | cons c cs ih =>
    rw [encode_cons, encodeChar_ascii (h c List.mem_cons_self), ih fun d hd => h d (List.mem_cons_of_mem _ hd)]
    rfl

/-- A character beyond ASCII has no byte of ASCII. -/
theorem le_of_mem_encodeChar {c : Char} (h : 0x80 ≤ c.toNat) {b : UInt8} (hb : b ∈ encodeChar c) : 0x80 ≤ b.toNat := by
  have hc := scalar c
  unfold encodeChar at hb
  dsimp only at hb
  rw [if_neg (by omega)] at hb
  generalize c.toNat = n at h hc hb
  split at hb
  · simp only [List.mem_cons, List.not_mem_nil, or_false] at hb
    rcases hb with rfl | rfl <;> rw [toNat_toUInt8 (by omega)] <;> omega
  · split at hb
    · simp only [List.mem_cons, List.not_mem_nil, or_false] at hb
      rcases hb with rfl | rfl | rfl <;> rw [toNat_toUInt8 (by omega)] <;> omega
    · simp only [List.mem_cons, List.not_mem_nil, or_false] at hb
      rcases hb with rfl | rfl | rfl | rfl <;> rw [toNat_toUInt8 (by omega)] <;> omega

/-- A byte of ASCII in text is that of its character. -/
theorem mem_encode_ascii {c : Char} (hc : c.toNat < 0x80) {cs : List Char} :
    c.toNat.toUInt8 ∈ encode cs ↔ c ∈ cs := by
  unfold encode
  rw [List.mem_flatMap]
  constructor
  · rintro ⟨d, hd, hb⟩
    by_cases h : d.toNat < 0x80
    · rw [encodeChar_ascii h, List.mem_singleton] at hb
      have hn := congrArg UInt8.toNat hb
      rw [toNat_toUInt8 (by omega), toNat_toUInt8 (by omega)] at hn
      have hcd : c = d := Char.toNat_inj.mp hn
      rwa [hcd]
    · have hle := le_of_mem_encodeChar (by omega) hb
      rw [toNat_toUInt8 (by omega)] at hle
      omega
  · intro h
    exact ⟨c, h, by rw [encodeChar_ascii hc]; exact List.mem_singleton_self _⟩

end Utf8

/-! ## Strings -/

namespace Bytes

theorem text?_ofText (s : String) : text? (ofText s) = some s := by
  rw [text?, ofText, Utf8.decode_encode, Option.map_some, String.ofList_toList]

theorem textLossy_ofText (s : String) : textLossy (ofText s) = s := by
  rw [textLossy, ofText, Utf8.decodeLossy_encode, String.ofList_toList]

theorem ofText_inj {s t : String} (h : ofText s = ofText t) : s = t := String.toList_inj.mp (Utf8.encode_inj h)

end Bytes

end ContentMesh
