import Mathlib.Data.List.Basic
import ContentMesh.Bytes.Percent
import ContentMesh.Proofs.Bytes.Utf8
import ContentMesh.Proofs.Text.Pieces

/-!
# ContentMesh.Proofs.Bytes.Percent — escaped text comes back

Every byte is written as characters that are read as that byte whatever follows them (`Percent.Reads`), so text that
was escaped comes back: by itself, with its escapes in lower case, and from a query.
-/

namespace ContentMesh

namespace Percent

open Text

/-! ## Characters for a byte -/

/-- Characters that are read as one byte, whatever follows them. -/
inductive Reads : List Char → UInt8 → Prop where
  | plain {c : Char} {b : UInt8} (hc : c ≠ '%') (hb : Utf8.encodeChar c = [b]) : Reads [c] b
  | escaped {h l : Char} {x y : Nat} {b : UInt8} (hh : Hex.value? h = some x) (hl : Hex.value? l = some y)
      (hb : (16 * x + y).toUInt8 = b) : Reads ['%', h, l] b

theorem Reads.decodeChars {cs : List Char} {b : UInt8} (h : Reads cs b) (r : List Char) :
    decodeChars (cs ++ r) = b :: Percent.decodeChars r := by
  cases h with
  | plain hc hb =>
    rw [List.cons_append, List.nil_append, Percent.decodeChars]
    · rw [hb, List.cons_append, List.nil_append]
    · intro _ _ _ hcs
      exact absurd hcs hc
  | escaped hh hl hb =>
    simp only [List.cons_append, List.nil_append, Percent.decodeChars, hh, hl, hb]

/-- Bytes that are written so come back. -/
theorem decodeChars_flatMap {f : UInt8 → List Char} {bs : Bytes} (h : ∀ b ∈ bs, Reads (f b) b) :
    decodeChars (bs.flatMap f) = bs := by
  induction bs with
  | nil => rw [List.flatMap_nil, decodeChars]
  | cons b bs ih =>
    rw [List.flatMap_cons, (h b List.mem_cons_self).decodeChars, ih fun b hb => h b (List.mem_cons_of_mem _ hb)]

theorem value?_digit : ∀ n < 16, Hex.value? (digit n) = some n := by decide

theorem value?_lower_digit : ∀ n < 16, Hex.value? (lowerChar (digit n)) = some n := by decide

theorem toUInt8_digits (b : UInt8) : (16 * (b.toNat / 16) + b.toNat % 16).toUInt8 = b := by
  rw [Nat.div_add_mod]
  exact UInt8.ofNat_toNat

theorem reads_escape (b : UInt8) : Reads (escape b) b :=
  have hlt := b.toNat_lt
  .escaped (value?_digit _ (by omega)) (value?_digit _ (by omega)) (toUInt8_digits b)

theorem reads_lower_escape (b : UInt8) : Reads ((escape b).map lowerChar) b :=
  have hlt := b.toNat_lt
  .escaped (value?_lower_digit _ (by omega)) (value?_lower_digit _ (by omega)) (toUInt8_digits b)

theorem toNat_ofNat : ∀ n < 0x80, (Char.ofNat n).toNat = n := by decide

theorem reads_plain {b : UInt8} (h : b.toNat < 0x80) (hb : b.toNat ≠ 37) : Reads [Char.ofNat b.toNat] b := by
  refine .plain (fun he => hb ?_) ?_
  · rw [← toNat_ofNat _ h, he]
    rfl
  · rw [Utf8.encodeChar_ascii (by rwa [toNat_ofNat _ h]), toNat_ofNat _ h]
    exact congrArg (fun x => [x]) UInt8.ofNat_toNat

/-! ## Headers -/

/-- The characters of a byte in a header. -/
def piece (b : UInt8) : List Char := if unreserved b then [Char.ofNat b.toNat] else escape b

theorem encode_eq (s : String) : encode s = String.ofList ((Bytes.ofText s).flatMap piece) := rfl

theorem of_unreserved {b : UInt8} (h : unreserved b = true) : 32 < b.toNat ∧ b.toNat < 0x7F ∧ b.toNat ≠ 37 := by
  simp only [unreserved, alphanumeric, Bool.or_eq_true, Bool.and_eq_true, decide_eq_true_eq, beq_iff_eq,
    UInt8.le_iff_toNat_le, ← UInt8.toNat_inj, UInt8.toNat_ofNat] at h
  omega

theorem reads_piece (b : UInt8) : Reads (piece b) b := by
  unfold piece
  by_cases h : unreserved b = true
  · obtain ⟨-, hlt, hne⟩ := of_unreserved h
    rw [if_pos h]
    exact reads_plain (by omega) hne
  · rw [if_neg h]
    exact reads_escape b

/-- Escaped text comes back. -/
theorem decode_encode (s : String) : decode (encode s) = Bytes.ofText s := by
  rw [decode, encode_eq, String.toList_ofList]
  exact decodeChars_flatMap fun b _ => reads_piece b

theorem reads_lower_piece {s : String} {b : UInt8} (hb : b ∈ Bytes.ofText (lower s)) :
    Reads ((piece b).map lowerChar) b := by
  unfold piece
  by_cases h : unreserved b = true
  · obtain ⟨-, hlt, hne⟩ := of_unreserved h
    have hn : (Char.ofNat b.toNat).toNat = b.toNat := toNat_ofNat _ (by omega)
    -- a byte that is not escaped is a character of a text in lower case, so lowering it again changes nothing
    have hmem : Char.ofNat b.toNat ∈ (lower s).toList :=
      (Utf8.mem_encode_ascii (by omega)).mp (by rwa [hn, show b.toNat.toUInt8 = b from UInt8.ofNat_toNat])
    rw [if_pos h, List.map_singleton, lowerChar_of_mem_lower hmem]
    exact reads_plain (by omega) hne
  · rw [if_neg h]
    exact reads_lower_escape b

/-- The name of a header comes back in lower case, though its escapes are lowered as well. -/
theorem decode_lower_encode (s : String) : decode (lower (encode (lower s))) = Bytes.ofText (lower s) := by
  rw [decode, lower, encode_eq, String.toList_ofList, String.toList_ofList, List.map_flatMap]
  exact decodeChars_flatMap fun b hb => reads_lower_piece hb

theorem visible_digit : ∀ n < 16, 32 < (digit n).toNat ∧ (digit n).toNat < 0x7F := by decide

/-- Escaped text is of visible characters. -/
theorem visible_of_mem_encode {c : Char} {s : String} (h : c ∈ (encode s).toList) : 32 < c.toNat ∧ c.toNat < 0x7F := by
  rw [encode_eq, String.toList_ofList] at h
  obtain ⟨b, -, hc⟩ := List.mem_flatMap.mp h
  unfold piece at hc
  by_cases hb : unreserved b = true
  · rw [if_pos hb, List.mem_singleton] at hc
    obtain ⟨hlow, hhigh, -⟩ := of_unreserved hb
    rw [hc, toNat_ofNat _ (by omega)]
    exact ⟨hlow, hhigh⟩
  · rw [if_neg hb] at hc
    have hlt := b.toNat_lt
    simp only [escape, List.mem_cons, List.not_mem_nil, or_false] at hc
    rcases hc with rfl | rfl | rfl
    · decide
    · exact visible_digit _ (by omega)
    · exact visible_digit _ (by omega)

/-! ## Queries -/

/-- Whether a byte stands for itself in a query. -/
def formPlain (b : UInt8) : Bool := alphanumeric b || b == 42 || b == 45 || b == 46 || b == 95

/-- The characters of a byte in a query. -/
def formPiece (b : UInt8) : List Char :=
  if b == 32 then ['+'] else if formPlain b then [Char.ofNat b.toNat] else escape b

theorem encodeForm_eq (s : String) : encodeForm s = String.ofList ((Bytes.ofText s).flatMap formPiece) := rfl

/-- What stands for a character of a query before escapes are undone. -/
def unplus (c : Char) : Char := if c = '+' then ' ' else c

theorem of_formPlain {b : UInt8} (h : formPlain b = true) :
    32 < b.toNat ∧ b.toNat < 0x80 ∧ b.toNat ≠ 37 ∧ b.toNat ≠ 38 ∧ b.toNat ≠ 43 ∧ b.toNat ≠ 61 := by
  simp only [formPlain, alphanumeric, Bool.or_eq_true, Bool.and_eq_true, decide_eq_true_eq, beq_iff_eq,
    UInt8.le_iff_toNat_le, ← UInt8.toNat_inj, UInt8.toNat_ofNat] at h
  omega

theorem ofNat_ne {n : Nat} (h : n < 0x80) {c : Char} (hc : n ≠ c.toNat) : Char.ofNat n ≠ c := fun he =>
  hc (by rw [← he, toNat_ofNat _ h])

theorem digit_unmarked : ∀ n < 16, digit n ≠ '+' ∧ digit n ≠ '&' ∧ digit n ≠ '=' := by decide

theorem unplus_escape (b : UInt8) : (escape b).map unplus = escape b := by
  have hlt := b.toNat_lt
  have hhigh := (digit_unmarked (b.toNat / 16) (by omega)).1
  have hlow := (digit_unmarked (b.toNat % 16) (by omega)).1
  simp only [escape, List.map_cons, List.map_nil, unplus, if_neg hhigh, if_neg hlow]
  rfl

theorem reads_formPiece (b : UInt8) : Reads ((formPiece b).map unplus) b := by
  unfold formPiece
  by_cases hblank : (b == 32) = true
  · rw [if_pos hblank, eq_of_beq hblank]
    exact .plain (c := ' ') (by decide) (by decide)
  · rw [if_neg hblank]
    by_cases h : formPlain b = true
    · obtain ⟨-, hlt, hne, -, hplus, -⟩ := of_formPlain h
      rw [if_pos h, List.map_singleton, unplus, if_neg (ofNat_ne (c := '+') hlt hplus)]
      exact reads_plain hlt hne
    · rw [if_neg h, unplus_escape]
      exact reads_escape b

theorem decodeForm_encodeForm (s : String) : decodeForm (encodeForm s).toList = s := by
  have hread : decodeChars (((Bytes.ofText s).flatMap formPiece).map unplus) = Bytes.ofText s := by
    rw [List.map_flatMap]
    exact decodeChars_flatMap fun b _ => reads_formPiece b
  rw [encodeForm_eq, String.toList_ofList]
  exact (congrArg Bytes.textLossy hread).trans (Bytes.textLossy_ofText s)

/-- Neither mark of a query stands in what was encoded for it. -/
theorem unmarked_encodeForm (s : String) : '&' ∉ (encodeForm s).toList ∧ '=' ∉ (encodeForm s).toList := by
  have hpiece : ∀ b, '&' ∉ formPiece b ∧ '=' ∉ formPiece b := by
    intro b
    unfold formPiece
    by_cases hblank : (b == 32) = true
    · rw [if_pos hblank]
      decide
    · rw [if_neg hblank]
      by_cases h : formPlain b = true
      · obtain ⟨-, hlt, -, hand, -, heq⟩ := of_formPlain h
        rw [if_pos h, List.mem_singleton, List.mem_singleton]
        exact ⟨(ofNat_ne (c := '&') hlt hand).symm, (ofNat_ne (c := '=') hlt heq).symm⟩
      · have hlt := b.toNat_lt
        obtain ⟨-, hand, heq⟩ := digit_unmarked (b.toNat / 16) (by omega)
        obtain ⟨-, hand', heq'⟩ := digit_unmarked (b.toNat % 16) (by omega)
        rw [if_neg h]
        simp [escape, hand.symm, hand'.symm, heq.symm, heq'.symm]
  rw [encodeForm_eq, String.toList_ofList]
  constructor <;> intro h <;> obtain ⟨b, -, hb⟩ := List.mem_flatMap.mp h
  · exact (hpiece b).1 hb
  · exact (hpiece b).2 hb

theorem decodePair_encoded (p : String × String) :
    decodePair (encodeForm p.1 ++ "=" ++ encodeForm p.2).toList = p := by
  have hname : ∀ c ∈ (encodeForm p.1).toList, decide (c ≠ '=') = true := fun c hc =>
    decide_eq_true fun he => (unmarked_encodeForm p.1).2 (he ▸ hc)
  have hlist : (encodeForm p.1 ++ "=" ++ encodeForm p.2).toList
      = (encodeForm p.1).toList ++ '=' :: (encodeForm p.2).toList := by simp
  rw [hlist, decodePair, List.takeWhile_append_of_pos hname, List.dropWhile_append_of_pos hname]
  simp [decodeForm_encodeForm]

/-- A query gives its names and values back. -/
theorem decodeQuery_encodeQuery (q : List (String × String)) : decodeQuery (encodeQuery q) = q := by
  by_cases hq : q = []
  · subst hq
    rfl
  have htext : (encodeQuery q).toList
      = ['&'].intercalate (q.map fun p => (encodeForm p.1 ++ "=" ++ encodeForm p.2).toList) := by
    rw [encodeQuery, String.toList_intercalate, List.map_map]
    rfl
  have hsplit : (encodeQuery q).toList.splitOn '&'
      = q.map fun p => (encodeForm p.1 ++ "=" ++ encodeForm p.2).toList := by
    rw [htext]
    refine List.splitOn_intercalate '&' (fun cs hcs => ?_) fun hnil => hq (List.map_eq_nil_iff.mp hnil)
    obtain ⟨p, -, rfl⟩ := List.mem_map.mp hcs
    simp [(unmarked_encodeForm p.1).1, (unmarked_encodeForm p.2).1]
  have hfilter : (q.map fun p => (encodeForm p.1 ++ "=" ++ encodeForm p.2).toList).filter (fun p => !p.isEmpty)
      = q.map fun p => (encodeForm p.1 ++ "=" ++ encodeForm p.2).toList := by
    refine List.filter_eq_self.mpr fun cs hcs => ?_
    obtain ⟨p, -, rfl⟩ := List.mem_map.mp hcs
    simp
  rw [decodeQuery, hsplit, hfilter, List.map_map]
  exact List.map_id'' decodePair_encoded q

end Percent

end ContentMesh
