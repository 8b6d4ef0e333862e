import Mathlib.Data.List.Basic
import Mathlib.Tactic.Ring
import ContentMesh.Calendar.Rfc3339
import ContentMesh.Proofs.Text.Pieces

/-!
# ContentMesh.Proofs.Calendar.Written — stamps come back from their text

A number in a fixed number of digits is read back, whatever follows it.  So is a stamp, as it stands in a record
(`Rfc3339.readLoose_recordText`), and in a message if its year is one of 0 to 9999 (`Rfc3339.read_text`).  Two stamps are
written differently (`Rfc3339.text_inj`).
-/

namespace ContentMesh

namespace Text

variable (w n : Nat)

/-! ## Numbers of a fixed width -/

theorem padded_succ : padded (w + 1) n = Char.ofNat (48 + n / 10 ^ w % 10) :: padded w n := by
  unfold padded
  rw [List.range_succ_eq_map, List.map_cons, List.map_map]
  congr 1
  refine List.map_congr_left fun i hi => ?_
  have hi : i < w := List.mem_range.mp hi
  have hw : w + 1 - 1 - (i + 1) = w - 1 - i := by omega
  simp only [Function.comp_apply, hw]

theorem length_padded : (padded w n).length = w := by
  simp [padded]

theorem toNat_digit : ∀ d < 10, (Char.ofNat (48 + d)).toNat = 48 + d := by decide

theorem digit_ofNat : ∀ d < 10, digit (Char.ofNat (48 + d)) = true := by decide

theorem digit_of_mem_padded {c : Char} (h : c ∈ padded w n) : digit c = true := by
  obtain ⟨i, -, rfl⟩ := List.mem_map.mp h
  exact digit_ofNat _ (Nat.mod_lt _ (by omega))

theorem number_padded (a : Nat) :
    (padded w n).foldl (fun m d => 10 * m + (d.toNat - 48)) a = a * 10 ^ w + n % 10 ^ w := by
  induction w generalizing a with
  | zero => simp [padded, Nat.mod_one]
  | succ w ih =>
    rw [padded_succ, List.foldl_cons, ih, toNat_digit _ (Nat.mod_lt _ (by omega)), Nat.add_sub_cancel_left,
      Nat.mod_pow_succ]
    ring

theorem padded_inj {w m n : Nat} (hm : m < 10 ^ w) (hn : n < 10 ^ w) (h : padded w m = padded w n) : m = n := by
  have hf := congrArg (List.foldl (fun m d => 10 * m + (d.toNat - 48)) 0) h
  rw [number_padded, number_padded, Nat.mod_eq_of_lt hm, Nat.mod_eq_of_lt hn] at hf
  omega

end Text

namespace Rfc3339

open Text

theorem digits_padded (w n : Nat) (r : List Char) : digits w (padded w n ++ r) = .ok (n % 10 ^ w, r) := by
  induction w with
  | zero => simp [padded, digits, Nat.mod_one]
  | succ w ih =>
    have hlt : n / 10 ^ w % 10 < 10 := Nat.mod_lt _ (by omega)
    rw [padded_succ, List.cons_append, digits, if_pos (digit_ofNat _ hlt), ih, toNat_digit _ hlt]
    show Except.ok (_, r) = _
    rw [Nat.add_sub_cancel_left, Nat.mod_pow_succ]
    congr 2
    show n / 10 ^ w % 10 * 10 ^ w + n % 10 ^ w = _
    ring

theorem digits_of_lt {w n : Nat} (h : n < 10 ^ w) (r : List Char) : digits w (padded w n ++ r) = .ok (n, r) := by
  rw [digits_padded, Nat.mod_eq_of_lt h]

theorem skip_cons (c : Char) (r : List Char) : skip c (c :: r) = .ok r := if_pos rfl

/-! ## Fractions -/

/-- A fraction is nothing, or a point and three, six or nine digits. -/
theorem fractionText_cases {n : Nat} (h : n < 1000000000) :
    (n = 0 ∧ fractionText n = []) ∨
      ∃ k m, 0 < k ∧ k ≤ 9 ∧ m < 10 ^ k ∧ m * 10 ^ (9 - k) = n ∧ fractionText n = '.' :: padded k m := by
  unfold fractionText
  by_cases h0 : n = 0
  · exact Or.inl ⟨h0, if_pos h0⟩
  · rw [if_neg h0]
    right
    by_cases h6 : n % 1000000 = 0
    · rw [if_pos h6]
      exact ⟨3, n / 1000000, by omega, by omega, by omega, by omega, rfl⟩
    · rw [if_neg h6]
      by_cases h3 : n % 1000 = 0
      · rw [if_pos h3]
        exact ⟨6, n / 1000, by omega, by omega, by omega, by omega, rfl⟩
      · rw [if_neg h3]
        exact ⟨9, n, by omega, by omega, by omega, by omega, rfl⟩

theorem fraction_padded {k m : Nat} (hk : 0 < k) (h9 : k ≤ 9) (hm : m < 10 ^ k) {c : Char} (hc : digit c = false)
    (r : List Char) : fraction (padded k m ++ c :: r) = .ok (m * 10 ^ (9 - k), c :: r) := by
  have hdigits : ∀ d ∈ padded k m, digit d = true := fun d hd => digit_of_mem_padded k m hd
  have htake : (padded k m ++ c :: r).takeWhile digit = padded k m := by
    rw [List.takeWhile_append_of_pos hdigits, List.takeWhile_cons_of_neg (by simp [hc]), List.append_nil]
  have hdrop : (padded k m ++ c :: r).dropWhile digit = c :: r := by
    rw [List.dropWhile_append_of_pos hdigits, List.dropWhile_cons_of_neg (by simp [hc])]
  have hnumber : number (padded k m) = m := by
    unfold number
    rw [number_padded, Nat.mod_eq_of_lt hm, Nat.zero_mul, Nat.zero_add]
  have hlength : (padded k m).length = k := length_padded k m
  unfold fraction
  dsimp only
  rw [htake, hdrop]
  cases hp : padded k m with
  | nil =>
    rw [hp] at hlength
    simp at hlength
    omega
  | cons d ds =>
    dsimp only [List.cons_append]
    rw [← hp, List.take_of_length_le (by omega), hnumber, hlength]
    rfl

/-! ## Reading back -/

theorem le_foldl_add (l : List Nat) (a : Nat) (h : ∀ x ∈ l, 1 ≤ x) : a + l.length ≤ l.foldl (· + ·) a := by
  induction l generalizing a with
  | nil => simp
  | cons x l ih =>
    have hx : 1 ≤ x := h x List.mem_cons_self
    have hl := ih (a + x) fun y hy => h y (List.mem_cons_of_mem _ hy)
    rw [List.foldl_cons, List.length_cons]
    omega

theorem length_le_width (cs : List Char) : cs.length ≤ (cs.map width).foldl (· + ·) 0 := by
  have h := le_foldl_add (cs.map width) 0 fun x hx => by
    obtain ⟨c, -, rfl⟩ := List.mem_map.mp hx
    exact Char.utf8Size_pos c
  rwa [Nat.zero_add, List.length_map] at h

theorem offset_zero : offset (skip ':') ['+', '0', '0', ':', '0', '0'] = .ok (0, []) := by decide

end Rfc3339

namespace Stamp

theorem ofFields?_eq (s : Stamp) : ofFields? s.year s.month s.day s.hour s.minute s.second s.nano = some s :=
  dif_pos s.valid

/-- A stamp in UTC is its own local time there. -/
theorem ofLocal?_zero (s : Stamp) : ofLocal? s.year s.month s.day s.hour s.minute s.second s.nano 0 = some s := by
  obtain ⟨-, -, -, -, -, -, hhour, hminute, -⟩ := s.valid
  unfold ofLocal?
  rw [ofFields?_eq s]
  have hlow : ¬ 60 * (s.hour : Int) + s.minute - 0 < 0 := by omega
  have hhigh : 60 * (s.hour : Int) + s.minute - 0 < 1440 := by omega
  have hrest : ((60 * (s.hour : Int) + s.minute - 0) % 1440).toNat = 60 * s.hour + s.minute := by omega
  simp only [Option.bind_eq_bind, Option.bind_some, if_neg hlow, if_pos hhigh, hrest]
  have hh : (60 * s.hour + s.minute) / 60 = s.hour := by omega
  have hm : (60 * s.hour + s.minute) % 60 = s.minute := by omega
  rw [hh, hm]
  exact ofFields?_eq s

theorem eq_of_fields {s t : Stamp} (hyear : s.year = t.year) (hmonth : s.month = t.month) (hday : s.day = t.day)
    (hhour : s.hour = t.hour) (hminute : s.minute = t.minute) (hsecond : s.second = t.second)
    (hnano : s.nano = t.nano) : s = t := by
  cases s
  cases t
  rw [Stamp.mk.injEq]
  exact ⟨hyear, hmonth, hday, hhour, hminute, hsecond, hnano⟩

end Stamp

namespace Rfc3339

open Text

theorem daysIn_le (y : Int) (m : Nat) : daysIn y m ≤ 31 := by
  unfold daysIn
  split
  · split <;> omega
  · split <;> omega

/-- A stamp before its zone, field by field. -/
theorem body_append (s : Stamp) (zone : List Char) : body s ++ zone =
    yearText s.year ++ '-' :: (padded 2 s.month ++ '-' :: (padded 2 s.day ++ 'T' :: (padded 2 s.hour ++
      ':' :: (padded 2 s.minute ++ ':' :: (padded 2 (if s.nano < 1000000000 then s.second else s.second + 1) ++
        (fractionText (s.nano % 1000000000) ++ zone)))))) := by
  unfold body
  simp only [List.append_assoc, List.cons_append]

/-- The text of a stamp, field by field. -/
theorem toList_text (s : Stamp) : (text s).toList =
    yearText s.year ++ '-' :: (padded 2 s.month ++ '-' :: (padded 2 s.day ++ 'T' :: (padded 2 s.hour ++
      ':' :: (padded 2 s.minute ++ ':' :: (padded 2 (if s.nano < 1000000000 then s.second else s.second + 1) ++
        (fractionText (s.nano % 1000000000) ++ ['+', '0', '0', ':', '0', '0'])))))) := by
  rw [text, String.toList_ofList, body_append]

/-- Second 60 of a text is the leap second of a stamp. -/
theorem leap_written (s : Stamp) : ∃ second nano, second ≤ 60 ∧ nano < 1000000000 ∧
    (if s.nano < 1000000000 then s.second else s.second + 1) = second ∧ s.nano % 1000000000 = nano ∧
      leap second nano = (s.second, s.nano) := by
  obtain ⟨-, -, -, -, -, -, -, -, hsecond, hnano⟩ := s.valid
  by_cases hn : s.nano < 1000000000
  · refine ⟨s.second, s.nano, by omega, hn, if_pos hn, Nat.mod_eq_of_lt hn, ?_⟩
    unfold leap
    rw [if_neg (by omega)]
  · obtain ⟨h59, hlt⟩ := hnano.resolve_left hn
    refine ⟨60, s.nano - 1000000000, le_refl _, by omega, by rw [if_neg hn, h59], by omega, ?_⟩
    unfold leap
    rw [if_pos rfl, h59, Nat.sub_add_cancel (by omega)]

theorem read_text (s : Stamp) (h : 0 ≤ s.year) (h' : s.year ≤ 9999) : read (text s) = .ok s := by
  obtain ⟨-, -, hmonth, hmonth', hday, hday', hhour, hminute, hsecond, -⟩ := s.valid
  have hday31 : s.day ≤ 31 := hday'.trans (daysIn_le s.year s.month)
  have hcast : ((s.year.toNat : Nat) : Int) = s.year := Int.toNat_of_nonneg h
  have hyear : yearText s.year = padded 4 s.year.toNat := if_pos ⟨h, h'⟩
  have hwidth : ¬ ((text s).toList.map width).foldl (· + ·) 0 < 19 := by
    have hlength : 19 ≤ (text s).toList.length := by
      rw [toList_text, hyear]
      simp [length_padded]
      omega
    exact Nat.not_lt.mpr (hlength.trans (length_le_width _))
  obtain ⟨second, nano, hs60, hn, hsecond', hmod, hleap⟩ := leap_written s
  have hyears := digits_of_lt (w := 4) (n := s.year.toNat) (by omega)
  have hmonths := digits_of_lt (w := 2) (n := s.month) (by omega)
  have hdays := digits_of_lt (w := 2) (n := s.day) (by omega)
  have hhours := digits_of_lt (w := 2) (n := s.hour) (by omega)
  have hminutes := digits_of_lt (w := 2) (n := s.minute) (by omega)
  have hseconds := digits_of_lt (w := 2) (n := second) (by omega)
  have hdate : 1 ≤ s.month ∧ s.month ≤ 12 ∧ 1 ≤ s.day ∧ s.day ≤ daysIn s.year s.month := ⟨hmonth, hmonth', hday, hday'⟩
  unfold read
  dsimp only
  rw [if_neg hwidth, toList_text, hyear, hsecond']
  simp only [hyears, hmonths, hdays, hhours, hminutes, hseconds, skip_cons, bind, Except.bind, hcast, if_pos hdate]
  have hclock : s.hour ≤ 23 ∧ s.minute ≤ 59 ∧ s.second ≤ 59 := ⟨hhour, hminute, hsecond⟩
  have hzone : (0 : Int).natAbs ≤ 1439 := by decide
  rw [hmod]
  rcases fractionText_cases hn with ⟨rfl, hf⟩ | ⟨k, m, hk, h9, hm, rfl, hf⟩
  · rw [hf, List.nil_append]
    split
    · rename_i hpoint
      cases hpoint
    simp only [hleap, if_pos hclock, offset_zero, List.isEmpty_nil, if_true, if_pos hzone, s.ofLocal?_zero]
  · rw [hf, List.cons_append]
    have hplus : digit '+' = false := by decide
    simp only [fraction_padded hk h9 hm hplus, hleap, if_pos hclock, offset_zero, List.isEmpty_nil, if_true,
      if_pos hzone, s.ofLocal?_zero]

/-! ## Reading records back -/

theorem blank_of_digit {c : Char} (h : digit c = true) : Text.blank c = false := by
  have hc : 48 ≤ c.toNat ∧ c.toNat ≤ 57 := by
    simp only [digit, Bool.and_eq_true, decide_eq_true_eq, Char.le_def, UInt32.le_iff_toNat_le] at h
    exact h
  simp only [Text.blank, Bool.or_eq_false_iff, Bool.and_eq_false_iff, decide_eq_false_iff_not, beq_eq_false_iff_ne]
  omega

/-- Before digits there are no blanks to be passed over. -/
theorem trimStart_padded {w : Nat} (hw : 0 < w) (n : Nat) (r : List Char) :
    trimStart (padded w n ++ r) = padded w n ++ r := by
  obtain ⟨v, rfl⟩ : ∃ v, w = v + 1 := ⟨w - 1, by omega⟩
  have hfirst := blank_of_digit (digit_ofNat (n / 10 ^ v % 10) (Nat.mod_lt _ (by omega)))
  rw [padded_succ, List.cons_append, trimStart, List.dropWhile_cons_of_neg (by simp [hfirst])]

/-- As many digits as are asked for are taken, even if more follow. -/
theorem shortNumber_padded {w n : Nat} (hw : 0 < w) (h : n < 10 ^ w) (r : List Char) :
    shortNumber w (padded w n ++ r) = some (n, r) := by
  have hdigits : ∀ d ∈ padded w n, digit d = true := fun d hd => digit_of_mem_padded w n hd
  have hlength : (padded w n).length = w := length_padded w n
  have htake : ((padded w n ++ r).takeWhile digit).take w = padded w n := by
    rw [List.takeWhile_append_of_pos hdigits, List.take_append_of_le_length (by omega), List.take_of_length_le (by omega)]
  have hnumber : number (padded w n) = n := by
    unfold number
    rw [number_padded, Nat.mod_eq_of_lt h, Nat.zero_mul, Nat.zero_add]
  have hne : (padded w n).isEmpty = false := by
    rw [List.isEmpty_eq_false_iff, ← List.length_pos_iff]
    omega
  unfold shortNumber
  dsimp only
  rw [trimStart_padded hw, htake, hne, hnumber, List.drop_left]
  rfl

/-- The digits of a year that is written with its sign. -/
theorem longYear (a : Nat) : (∀ d ∈ (if a < 10000 then padded 4 a else Nat.toDigits 10 a), digit d = true) ∧
    number (if a < 10000 then padded 4 a else Nat.toDigits 10 a) = a := by
  by_cases ha : a < 10000
  · rw [if_pos ha]
    refine ⟨fun d hd => digit_of_mem_padded 4 a hd, ?_⟩
    unfold number
    rw [number_padded, Nat.zero_mul, Nat.zero_add]
    exact Nat.mod_eq_of_lt ha
  · rw [if_neg ha]
    refine ⟨fun d hd => ?_, Nat.ofDigitChars_ten_toDigits⟩
    have hd := Nat.isDigit_of_mem_toDigits (by omega) (by omega) hd
    simpa [digit, Char.isDigit, Char.le_def] using hd

/-- The digits of such a year are taken up to the dash after it. -/
theorem span_longYear (a : Nat) (r : List Char) :
    let ds := if a < 10000 then padded 4 a else Nat.toDigits 10 a
    (ds ++ '-' :: r).takeWhile digit = ds ∧ (ds ++ '-' :: r).dropWhile digit = '-' :: r ∧ ds.isEmpty = false := by
  intro ds
  have hdigits : ∀ d ∈ ds, digit d = true := (longYear a).1
  have hdash : ¬ digit '-' = true := by decide
  refine ⟨?_, ?_, ?_⟩
  · rw [List.takeWhile_append_of_pos hdigits, List.takeWhile_cons_of_neg hdash, List.append_nil]
  · rw [List.dropWhile_append_of_pos hdigits, List.dropWhile_cons_of_neg hdash]
  · rw [List.isEmpty_eq_false_iff]
    show (if a < 10000 then padded 4 a else Nat.toDigits 10 a) ≠ []
    split
    · rw [padded_succ]
      exact List.cons_ne_nil _ _
    · exact Nat.toDigits_ne_nil

theorem trimStart_cons {c : Char} (hc : Text.blank c = false) (r : List Char) : trimStart (c :: r) = c :: r :=
  List.dropWhile_cons_of_neg (by simp [hc])

theorem looseYear_padded {y : Nat} (h : y < 10 ^ 4) (r : List Char) :
    looseYear (padded 4 y ++ r) = some ((y : Int), r) := by
  have hshort := shortNumber_padded (by omega) h r
  -- a digit comes first, and so no sign
  have hsign : ∀ {c : Char} {cs : List Char}, padded 4 y ++ r = c :: cs → digit c = true := by
    intro c cs hcs
    rw [padded_succ, List.cons_append] at hcs
    rw [← (List.cons.inj hcs).1]
    exact digit_ofNat _ (Nat.mod_lt _ (by omega))
  unfold looseYear
  rw [trimStart_padded (by omega)]
  split
  · rename_i hcs
    exact absurd (hsign hcs) (by decide)
  · rename_i hcs
    exact absurd (hsign hcs) (by decide)
  · rw [hshort]
    rfl

/-- A year is read up to the dash after it. -/
theorem looseYear_yearText (y : Int) (r : List Char) : looseYear (yearText y ++ '-' :: r) = some (y, '-' :: r) := by
  unfold yearText
  by_cases h : 0 ≤ y ∧ y ≤ 9999
  · rw [if_pos h, looseYear_padded (by omega), Int.toNat_of_nonneg h.1]
  · obtain ⟨htake, hdrop, hne⟩ := span_longYear y.natAbs r
    have hnumber := (longYear y.natAbs).2
    rw [if_neg h]
    unfold looseYear
    by_cases hy : y < 0
    · have hvalue : -1 * ((y.natAbs : Nat) : Int) = y := by omega
      simp only [if_pos hy, List.cons_append, trimStart_cons (show Text.blank '-' = false by decide), htake, hdrop, hne,
        hnumber, hvalue]
      rfl
    · have hvalue : 1 * ((y.natAbs : Nat) : Int) = y := by omega
      simp only [if_neg hy, List.cons_append, trimStart_cons (show Text.blank '+' = false by decide), htake, hdrop, hne,
        hnumber, hvalue]
      rfl

theorem looseSkip_cons {c : Char} (hc : Text.blank c = false) (r : List Char) : looseSkip c (c :: r) = some r := by
  unfold looseSkip
  rw [trimStart_cons hc]
  exact if_pos rfl

theorem looseZone_letter : looseZone ['Z'] = some (0, []) := by decide

theorem toList_recordText (s : Stamp) : (recordText s).toList =
    yearText s.year ++ '-' :: (padded 2 s.month ++ '-' :: (padded 2 s.day ++ 'T' :: (padded 2 s.hour ++
      ':' :: (padded 2 s.minute ++ ':' :: (padded 2 (if s.nano < 1000000000 then s.second else s.second + 1) ++
        (fractionText (s.nano % 1000000000) ++ ['Z'])))))) := by
  rw [recordText, String.toList_ofList, body_append]

theorem readLoose_recordText (s : Stamp) : readLoose (recordText s) = some s := by
  obtain ⟨-, -, hmonth, hmonth', hday, hday', hhour, hminute, hsecond, -⟩ := s.valid
  have hday31 : s.day ≤ 31 := hday'.trans (daysIn_le s.year s.month)
  obtain ⟨second, nano, hs60, hn, hsecond', hmod, hleap⟩ := leap_written s
  have hyears := looseYear_yearText s.year
  have hmonths := shortNumber_padded (w := 2) (n := s.month) (by omega) (by omega)
  have hdays := shortNumber_padded (w := 2) (n := s.day) (by omega) (by omega)
  have hhours := shortNumber_padded (w := 2) (n := s.hour) (by omega) (by omega)
  have hminutes := shortNumber_padded (w := 2) (n := s.minute) (by omega) (by omega)
  have hseconds := shortNumber_padded (w := 2) (n := second) (by omega) (by omega)
  have hdash : ∀ r, looseSkip '-' ('-' :: r) = some r := looseSkip_cons (by decide)
  have hcolon : ∀ r, looseSkip ':' (':' :: r) = some r := looseSkip_cons (by decide)
  have hzone : (0 : Int).natAbs ≤ 1439 := by decide
  have hend : (trimStart []).isEmpty = true := rfl
  have hlocal := s.ofLocal?_zero
  unfold readLoose
  rw [toList_recordText, hsecond', hmod]
  simp only [hyears, hdash, hcolon, hmonths, hdays, hhours, hminutes, hseconds, Option.bind_eq_bind, Option.bind_some]
  rcases fractionText_cases hn with ⟨rfl, hf⟩ | ⟨k, m, hk, h9, hm, rfl, hf⟩
  · rw [hf, List.nil_append]
    split
    · rename_i hpoint
      cases hpoint
    simp only [looseZone_letter, Option.bind_some, hend, hleap, hzone, hlocal]
    rfl
  · rw [hf, List.cons_append]
    have hletter : digit 'Z' = false := by decide
    simp only [fraction_padded hk h9 hm hletter, Except.toOption, looseZone_letter, Option.bind_some, hend, hleap, hzone,
      hlocal]
    rfl

/-! ## Different stamps -/

theorem fractionText_inj {m n : Nat} (hm : m < 1000000000) (hn : n < 1000000000)
    (h : fractionText m = fractionText n) : m = n := by
  rcases fractionText_cases hm with ⟨rfl, hf⟩ | ⟨k, a, hk, -, ha, rfl, hf⟩ <;>
    rcases fractionText_cases hn with ⟨h0, hg⟩ | ⟨l, b, hl, -, hb, hmul, hg⟩ <;> rw [hf, hg] at h
  · exact h0.symm
  · cases h
  · cases h
  · have hp : padded k a = padded l b := (List.cons.inj h).2
    have hkl := congrArg List.length hp
    rw [length_padded, length_padded] at hkl
    subst hkl
    rw [padded_inj ha hb hp, hmul]

theorem yearText_eq_cons (y : Int) : ∃ c ds, yearText y = c :: ds ∧ ∀ d ∈ ds, digit d = true := by
  unfold yearText
  by_cases h : 0 ≤ y ∧ y ≤ 9999
  · rw [if_pos h, padded_succ]
    exact ⟨_, _, rfl, fun d hd => digit_of_mem_padded 3 _ hd⟩
  · rw [if_neg h]
    exact ⟨_, _, rfl, (longYear y.natAbs).1⟩

theorem padded_ne_sign {n : Nat} {b : Bool} {ds : List Char} : padded 4 n ≠ (if b then '-' else '+') :: ds := by
  intro h
  have hd : digit (if b then '-' else '+') = true := digit_of_mem_padded 4 n (h ▸ List.mem_cons_self)
  cases b <;> simp [digit] at hd

theorem yearText_inj {y z : Int} (h : yearText y = yearText z) : y = z := by
  unfold yearText at h
  by_cases hy : 0 ≤ y ∧ y ≤ 9999 <;> by_cases hz : 0 ≤ z ∧ z ≤ 9999
  · rw [if_pos hy, if_pos hz] at h
    have hyz := padded_inj (by omega) (by omega) h
    omega
  · rw [if_pos hy, if_neg hz] at h
    exact absurd h (by simpa using padded_ne_sign (b := decide (z < 0)))
  · rw [if_neg hy, if_pos hz] at h
    exact absurd h.symm (by simpa using padded_ne_sign (b := decide (y < 0)))
  · rw [if_neg hy, if_neg hz] at h
    obtain ⟨hsign, hdigits⟩ := List.cons.inj h
    have habs := congrArg number hdigits
    rw [(longYear y.natAbs).2, (longYear z.natAbs).2] at habs
    by_cases hy0 : y < 0 <;> by_cases hz0 : z < 0
    · omega
    · simp [hy0, hz0] at hsign
    · simp [hy0, hz0] at hsign
    · omega

theorem padded_append_inj {w m n : Nat} {r r' : List Char} (hm : m < 10 ^ w) (hn : n < 10 ^ w)
    (h : padded w m ++ r = padded w n ++ r') : m = n ∧ r = r' := by
  obtain ⟨hp, hr⟩ := List.append_inj h (by rw [length_padded, length_padded])
  exact ⟨padded_inj hm hn hp, hr⟩

/-- Stamps are told apart by their text. -/
theorem text_inj {s t : Stamp} (h : text s = text t) : s = t := by
  obtain ⟨-, -, hsm, hsm', hsd, hsd', hsh, hsmin, hss, hsn⟩ := s.valid
  obtain ⟨-, -, htm, htm', htd, htd', hth, htmin, hts, htn⟩ := t.valid
  have hsd31 := hsd'.trans (daysIn_le s.year s.month)
  have htd31 := htd'.trans (daysIn_le t.year t.month)
  have hlist : (text s).toList = (text t).toList := by rw [h]
  rw [toList_text, toList_text] at hlist
  have hdash : ∀ {ds : List Char}, (∀ d ∈ ds, digit d = true) → '-' ∉ ds := by
    intro ds hds hmem
    have hd := hds '-' hmem
    simp [digit] at hd
  obtain ⟨c, ds, hc, hds⟩ := yearText_eq_cons s.year
  obtain ⟨d, es, hd, hes⟩ := yearText_eq_cons t.year
  obtain ⟨hyear, hrest⟩ : yearText s.year = yearText t.year ∧ _ := by
    rw [hc, hd] at hlist ⊢
    obtain ⟨hcd, htail⟩ := List.cons.inj hlist
    obtain ⟨hdigits, hrest⟩ := cut_inj (hdash hds) (hdash hes) htail
    exact ⟨by rw [hcd, hdigits], hrest⟩
  obtain ⟨hmonth, hrest⟩ := padded_append_inj (by omega) (by omega) hrest
  obtain ⟨hday, hrest⟩ := padded_append_inj (by omega) (by omega) (List.cons.inj hrest).2
  obtain ⟨hhour, hrest⟩ := padded_append_inj (by omega) (by omega) (List.cons.inj hrest).2
  obtain ⟨hminute, hrest⟩ := padded_append_inj (by omega) (by omega) (List.cons.inj hrest).2
  obtain ⟨hsecond, hrest⟩ := padded_append_inj (by split <;> omega) (by split <;> omega) (List.cons.inj hrest).2
  have hfraction := fractionText_inj (Nat.mod_lt _ (by omega)) (Nat.mod_lt _ (by omega)) (List.append_cancel_right hrest)
  have hboth : s.second = t.second ∧ s.nano = t.nano := by
    split at hsecond <;> split at hsecond <;> omega
  exact Stamp.eq_of_fields (yearText_inj hyear) hmonth hday hhour hminute hboth.1 hboth.2

end Rfc3339

end ContentMesh
