import Mathlib.Tactic.SplitIfs
import ContentMesh.Json.Printer
import ContentMesh.Json.Reader
import ContentMesh.Proofs.Bytes.Utf8

/-!
# ContentMesh.Proofs.Json.RoundTrip — a tree comes back from its text

The bytes of a value take the reader from where a value may begin to where that value is complete, whatever arrays
and objects are open (`Json.Ends`).  A number alone ends only with the byte after it (`Json.Reads`).  So every tree
whose numbers come back comes back as a whole (`Json.readBytes_chars`).  The text of any tree holds no newline
(`Json.newline_notMem`).
-/

namespace ContentMesh.Json

/-! ## Runs -/

theorem run_cons {t u : State} {b : UInt8} (h : step t b = some u) (bs : Bytes) : run t (b :: bs) = run u bs := by
  rw [run, h]

/-! ## Strings -/

/-- A string of which these bytes were read, newest first, with no escape begun. -/
def TextSoFar.plain (bytes : Bytes) : TextSoFar := ⟨bytes, none, false, .plain⟩

section Text

variable (isName : Bool) (s : List Frame)

theorem step_plain {b : UInt8} (h : 32 ≤ b.toNat) (hquote : b ≠ 34) (hslash : b ≠ 92) (bytes : Bytes) :
    step ⟨.text isName (.plain bytes), s⟩ b = some ⟨.text isName (.plain (b :: bytes)), s⟩ := by
  have hlow : ¬ b < 32 := by rwa [UInt8.lt_iff_toNat_lt, Nat.not_lt]
  simp only [step, stepText, TextSoFar.plain, beq_eq_false_iff_ne.mpr hquote, beq_eq_false_iff_ne.mpr hslash, hlow,
    Bool.false_eq_true, if_false]
  rfl

theorem run_plain {cs : Bytes} (h : ∀ b ∈ cs, 32 ≤ b.toNat ∧ b ≠ 34 ∧ b ≠ 92) (bytes rest : Bytes) :
    run ⟨.text isName (.plain bytes), s⟩ (cs ++ rest) = run ⟨.text isName (.plain (cs.reverse ++ bytes)), s⟩ rest := by
  induction cs generalizing bytes with
  | nil => rfl
  | cons b cs ih =>
    obtain ⟨hlow, hquote, hslash⟩ := h b List.mem_cons_self
    rw [List.cons_append, run_cons (step_plain isName s hlow hquote hslash bytes),
      ih (fun c hc => h c (List.mem_cons_of_mem _ hc)), List.reverse_cons, List.append_assoc]
    rfl

theorem hexValue?_hexDigit : ∀ n < 16, hexValue? (hexDigit n).toNat.toUInt8 = some n := by decide

theorem hexDigit_ascii : ∀ n < 16, (hexDigit n).toNat < 0x80 := by decide

theorem step_digits {bytes : Bytes} {owed code d : Nat} {b : UInt8} (hd : hexValue? b = some d) (ho : 1 < owed) :
    step ⟨.text isName ⟨bytes, none, false, .digits owed code⟩, s⟩ b
      = some ⟨.text isName ⟨bytes, none, false, .digits (owed - 1) (16 * code + d)⟩, s⟩ := by
  simp only [step, stepText, hd, if_neg (Nat.not_le.mpr ho)]

theorem step_lastDigit {bytes : Bytes} {code d : Nat} {b : UInt8} (hd : hexValue? b = some d)
    (hu : 16 * code + d < 0xD800) : step ⟨.text isName ⟨bytes, none, false, .digits 1 code⟩, s⟩ b
      = some ⟨.text isName (.plain ((Utf8.encodeChar (Char.ofNat (16 * code + d))).reverse ++ bytes)), s⟩ := by
  have hhigh : ¬ (0xD800 ≤ 16 * code + d ∧ 16 * code + d ≤ 0xDBFF) := by omega
  have hlow : ¬ (0xDC00 ≤ 16 * code + d ∧ 16 * code + d ≤ 0xDFFF) := by omega
  simp only [step, stepText, hd, if_pos (Nat.le_refl 1), TextSoFar.pushUnit, if_neg hhigh, if_neg hlow, TextSoFar.plain]

/-- The four digits of a code below 32. -/
theorem run_unit {c : Char} (h : c.toNat < 32) (bytes rest : Bytes) :
    run ⟨.text isName (.plain bytes), s⟩
        (Utf8.encode ['\\', 'u', '0', '0', hexDigit (c.toNat / 16), hexDigit (c.toNat % 16)] ++ rest)
      = run ⟨.text isName (.plain ((Utf8.encodeChar c).reverse ++ bytes)), s⟩ rest := by
  have hencode : Utf8.encode ['\\', 'u', '0', '0', hexDigit (c.toNat / 16), hexDigit (c.toNat % 16)]
      = [92, 117, 48, 48, (hexDigit (c.toNat / 16)).toNat.toUInt8, (hexDigit (c.toNat % 16)).toNat.toUInt8] := by
    have hhigh := hexDigit_ascii (c.toNat / 16) (by omega)
    have hlow := hexDigit_ascii (c.toNat % 16) (by omega)
    rw [Utf8.encode_ascii]
    · rfl
    · intro d hd
      simp only [List.mem_cons, List.not_mem_nil, or_false] at hd
      rcases hd with rfl | rfl | rfl | rfl | rfl | rfl
      all_goals first | decide | assumption
  have hhigh := hexValue?_hexDigit (c.toNat / 16) (by omega)
  have hlow := hexValue?_hexDigit (c.toNat % 16) (by omega)
  have hcode : 16 * (c.toNat / 16) + c.toNat % 16 = c.toNat := by omega
  have hzero : hexValue? 48 = some 0 := by decide
  rw [hencode]
  simp only [List.cons_append, List.nil_append]
  rw [run_cons (u := ⟨.text isName ⟨bytes, none, false, .backslash⟩, s⟩) rfl,
    run_cons (u := ⟨.text isName ⟨bytes, none, false, .digits 4 0⟩, s⟩) rfl,
    run_cons (step_digits isName s hzero (by omega)), run_cons (step_digits isName s hzero (by omega)),
    run_cons (step_digits isName s hhigh (by omega)), run_cons (step_lastDigit isName s hlow (by omega))]
  simp only [Nat.mul_zero, Nat.zero_add, hcode, Char.ofNat_toNat]

theorem plain_encodeChar {c : Char} (hquote : c ≠ '"') (hslash : c ≠ '\\') (hlow : 32 ≤ c.toNat) :
    ∀ b ∈ Utf8.encodeChar c, 32 ≤ b.toNat ∧ b ≠ 34 ∧ b ≠ 92 := by
  intro b hb
  by_cases h : c.toNat < 0x80
  · rw [Utf8.encodeChar_ascii h, List.mem_singleton] at hb
    have hn : b.toNat = c.toNat := by rw [hb, Utf8.toNat_toUInt8 (by omega)]
    refine ⟨by omega, fun he => hquote ?_, fun he => hslash ?_⟩
    · exact Char.toNat_inj.mp (hn.symm.trans (congrArg UInt8.toNat he))
    · exact Char.toNat_inj.mp (hn.symm.trans (congrArg UInt8.toNat he))
  · have hn := Utf8.le_of_mem_encodeChar (by omega) hb
    refine ⟨by omega, ?_, ?_⟩ <;> rintro rfl <;> exact absurd hn (by decide)

theorem run_escaped (c : Char) (bytes rest : Bytes) :
    run ⟨.text isName (.plain bytes), s⟩ (Utf8.encode (escaped c) ++ rest)
      = run ⟨.text isName (.plain ((Utf8.encodeChar c).reverse ++ bytes)), s⟩ rest := by
  unfold escaped
  by_cases h1 : c = '"'
  · subst h1
    rfl
  by_cases h2 : c = '\\'
  · subst h2
    rfl
  by_cases h3 : c = '\x08'
  · subst h3
    rfl
  by_cases h4 : c = '\x0c'
  · subst h4
    rfl
  by_cases h5 : c = '\n'
  · subst h5
    rfl
  by_cases h6 : c = '\r'
  · subst h6
    rfl
  by_cases h7 : c = '\t'
  · subst h7
    rfl
  rw [if_neg h1, if_neg h2, if_neg h3, if_neg h4, if_neg h5, if_neg h6, if_neg h7]
  by_cases h8 : c.toNat < 32
  · rw [if_pos h8]
    exact run_unit isName s h8 bytes rest
  · rw [if_neg h8, Utf8.encode, List.flatMap_singleton]
    exact run_plain isName s (plain_encodeChar h1 h2 (by omega)) bytes rest

theorem run_escapedAll (cs : List Char) (bytes rest : Bytes) :
    run ⟨.text isName (.plain bytes), s⟩ (Utf8.encode (cs.flatMap escaped) ++ rest)
      = run ⟨.text isName (.plain ((Utf8.encode cs).reverse ++ bytes)), s⟩ rest := by
  induction cs generalizing bytes with
  | nil => rfl
  | cons c cs ih =>
    rw [List.flatMap_cons, Utf8.encode_append, List.append_assoc, run_escaped, ih, Utf8.encode_cons,
      List.reverse_append, List.append_assoc]

/-- A string after its opening quote is read to its end. -/
theorem run_text (x : String) (rest : Bytes) :
    run ⟨.text isName (.plain []), s⟩ (Utf8.encode (x.toList.flatMap escaped ++ ['"']) ++ rest)
      = (endText isName (.plain (Bytes.ofText x).reverse) s).elim none fun u => run u rest := by
  rw [Utf8.encode_append, List.append_assoc, run_escapedAll, List.append_nil]
  have hquote : step ⟨.text isName (.plain ((Utf8.encode x.toList).reverse)), s⟩ 34
      = endText isName (.plain (Bytes.ofText x).reverse) s := rfl
  show run _ (34 :: rest) = _
  rw [run, hquote]
  cases endText isName (.plain (Bytes.ofText x).reverse) s <;> rfl

theorem value?_plain (x : String) : (TextSoFar.plain (Bytes.ofText x).reverse).value? = some x := by
  show Bytes.text? (Bytes.ofText x).reverse.reverse = some x
  rw [List.reverse_reverse, Bytes.text?_ofText]

end Text

/-! ## Numbers -/

/-- A number that begins with a byte. -/
def NumberSoFar.start? (b : UInt8) : Option NumberSoFar :=
  if b == 45 then some ⟨.sign, true, [], [], false, []⟩
  else if isDigit b then (⟨.sign, false, [], [], false, []⟩ : NumberSoFar).push? b
  else none

/-- The text of a number is read as that number. -/
def Numeral.Kept (n : Numeral) : Prop :=
  ∃ b bs start m, Utf8.encode (Numeral.chars n) = b :: bs ∧ NumberSoFar.start? b = some start ∧
    bs.foldlM NumberSoFar.push? start = some m ∧ m.end? = some (num n)

theorem isDigit_toNat {b : UInt8} (h : isDigit b = true) : 48 ≤ b.toNat ∧ b.toNat ≤ 57 := by
  simpa only [isDigit, Bool.and_eq_true, decide_eq_true_eq, UInt8.le_iff_toNat_le, UInt8.toNat_ofNat] using h

theorem start?_toNat {b : UInt8} {n : NumberSoFar} (h : NumberSoFar.start? b = some n) :
    b.toNat = 45 ∨ 48 ≤ b.toNat ∧ b.toNat ≤ 57 := by
  unfold NumberSoFar.start? at h
  by_cases h45 : (b == 45) = true
  · exact .inl (congrArg UInt8.toNat (eq_of_beq h45))
  · rw [if_neg h45] at h
    by_cases hdigit : isDigit b = true
    · exact .inr (isDigit_toNat hdigit)
    · rw [if_neg hdigit] at h
      cases h

theorem stepValue_number {b : UInt8} {n : NumberSoFar} (h : NumberSoFar.start? b = some n) (s : List Frame) :
    stepValue s b = some ⟨.number n, s⟩ := by
  have hn := start?_toNat h
  have h34 : (b == 34) = false := beq_eq_false_iff_ne.mpr (by rintro rfl; simp at hn)
  have h91 : (b == 91) = false := beq_eq_false_iff_ne.mpr (by rintro rfl; simp at hn)
  have h123 : (b == 123) = false := beq_eq_false_iff_ne.mpr (by rintro rfl; simp at hn)
  unfold stepValue
  unfold NumberSoFar.start? at h
  rw [h34, h91, h123]
  by_cases h45 : (b == 45) = true
  · rw [if_pos h45] at h
    cases h
    rw [h45]
    rfl
  · rw [if_neg h45] at h
    by_cases hdigit : isDigit b = true
    · rw [if_pos hdigit] at h
      rw [if_neg Bool.false_ne_true, if_neg Bool.false_ne_true, if_neg Bool.false_ne_true, if_neg h45, if_pos hdigit, h]
      rfl
    · rw [if_neg hdigit] at h
      cases h

theorem run_number {bs : Bytes} {n m : NumberSoFar} (h : bs.foldlM NumberSoFar.push? n = some m) (s : List Frame)
    (rest : Bytes) : run ⟨.number n, s⟩ (bs ++ rest) = run ⟨.number m, s⟩ rest := by
  induction bs generalizing n with
  | nil =>
    cases h
    rfl
  | cons b bs ih =>
    rw [List.foldlM_cons] at h
    obtain ⟨k, hk, h⟩ := Option.bind_eq_some_iff.mp h
    have hstep : step ⟨.number n, s⟩ b = some ⟨.number k, s⟩ := by simp only [step, hk]
    rw [List.cons_append, run_cons hstep]
    exact ih h

/-- A byte that ends a value: a comma or a closing bracket. -/
def Closes (b : UInt8) : Prop := b = 44 ∨ b = 93 ∨ b = 125

theorem push?_closes {b : UInt8} (hb : Closes b) (n : NumberSoFar) : n.push? b = none := by
  obtain ⟨phase, negative, whole, fraction, down, exponent⟩ := n
  rcases hb with rfl | rfl | rfl <;> cases phase <;> rfl

/-! ## Values -/

/-- The text of a value takes the reader to where it is complete, in whatever is open. -/
def Ends (j : Json) : Prop :=
  ∀ s u, complete j s = some u → ∀ rest, run ⟨.value, s⟩ (Utf8.encode j.chars ++ rest) = run u rest

/-- The same, for a value that is followed by what ends it. -/
def Reads (j : Json) : Prop :=
  ∀ s u, complete j s = some u → ∀ b rest, Closes b →
    run ⟨.value, s⟩ (Utf8.encode j.chars ++ b :: rest) = run u (b :: rest)

theorem Ends.reads {j : Json} (h : Ends j) : Reads j := fun s u hu b rest _ => h s u hu (b :: rest)

/-- After a complete value the reader is outside of everything but what was open. -/
theorem step_complete {j : Json} {s : List Frame} {u : State} (h : complete j s = some u) (b : UInt8) :
    step u b = stepOutside u.mode u.stack b := by
  unfold complete at h
  split at h
  · cases h
    rfl
  · cases h
    rfl
  · cases h
    rfl
  · cases h

/-- The text of a number takes the reader to where that number may end. -/
theorem Numeral.Kept.run {n : Numeral} (h : Numeral.Kept n) : ∃ m : NumberSoFar, m.end? = some (num n) ∧
    ∀ s rest, Json.run ⟨.value, s⟩ (Utf8.encode (num n).chars ++ rest) = Json.run ⟨.number m, s⟩ rest := by
  obtain ⟨c, bs, start, m, htext, hstart, hpush, hend⟩ := h
  refine ⟨m, hend, fun s rest => ?_⟩
  have hblank : blank c = false := by
    have hc := start?_toNat hstart
    simp only [blank, Bool.or_eq_false_iff, beq_eq_false_iff_ne, ne_eq, ← UInt8.toNat_inj, UInt8.toNat_ofNat]
    omega
  have hfirst : step ⟨.value, s⟩ c = some ⟨.number start, s⟩ := by
    show stepOutside .value s c = _
    rw [stepOutside, hblank]
    exact stepValue_number hstart s
  show Json.run _ (Utf8.encode (Numeral.chars n) ++ rest) = _
  rw [htext, List.cons_append, run_cons hfirst, run_number hpush]

/-- A number is complete only with the byte after it. -/
theorem Numeral.Kept.reads {n : Numeral} (h : Numeral.Kept n) : Reads (num n) := by
  obtain ⟨m, hend, hrun⟩ := h.run
  intro s u hu b rest hb
  have hlast : step ⟨.number m, s⟩ b = step u b := by
    rw [step_complete hu]
    simp only [step, push?_closes hb, hend, Option.bind_some, hu]
  rw [hrun, Json.run, Json.run, hlast]

/-- The bytes that a word is still short of complete it. -/
theorem run_word {w : Bytes} (hw : w ≠ []) {v : Json} {s : List Frame} {u : State} (hu : complete v s = some u)
    (rest : Bytes) : run ⟨.word w v, s⟩ (w ++ rest) = run u rest := by
  induction w with
  | nil => exact absurd rfl hw
  | cons c w ih =>
    have hstep : step ⟨.word (c :: w) v, s⟩ c = if w.isEmpty then complete v s else some ⟨.word w v, s⟩ := by
      simp only [step, beq_self_eq_true, if_true]
    cases w with
    | nil => exact run_cons (hstep.trans hu) rest
    | cons d w => exact (run_cons hstep _).trans (ih (List.cons_ne_nil d w))

theorem ends_null : Ends null := by
  intro s u hu rest
  have hfirst : step ⟨.value, s⟩ 110 = some ⟨.word [117, 108, 108] null, s⟩ := rfl
  exact (run_cons hfirst _).trans (run_word (by decide) hu rest)

theorem ends_bool (b : Bool) : Ends (bool b) := by
  intro s u hu rest
  cases b with
  | true =>
    have hfirst : step ⟨.value, s⟩ 116 = some ⟨.word [114, 117, 101] (bool true), s⟩ := rfl
    exact (run_cons hfirst _).trans (run_word (by decide) hu rest)
  | false =>
    have hfirst : step ⟨.value, s⟩ 102 = some ⟨.word [97, 108, 115, 101] (bool false), s⟩ := rfl
    exact (run_cons hfirst _).trans (run_word (by decide) hu rest)

theorem ends_str (x : String) : Ends (str x) := by
  intro s u hu rest
  show run ⟨.text false (.plain []), s⟩ (Utf8.encode (x.toList.flatMap escaped ++ ['"']) ++ rest) = _
  rw [run_text, endText, if_neg Bool.false_ne_true, value?_plain]
  show (complete (str x) s).elim none _ = _
  rw [hu]
  rfl

/-! ## Arrays -/

theorem charsOfRest_closes (xs : List Json) : ∃ b bs, Utf8.encode (charsOfRest xs) = b :: bs ∧ Closes b := by
  cases xs with
  | nil => exact ⟨93, [], rfl, .inr (.inl rfl)⟩
  | cons x xs => exact ⟨44, _, rfl, .inl rfl⟩

theorem run_rest {xs : List Json} (hxs : ∀ x ∈ xs, Reads x) (done : List Json) {s : List Frame} {u : State}
    (hu : complete (arr (done.reverse ++ xs)) s = some u) (rest : Bytes) :
    run ⟨.more, .arr done :: s⟩ (Utf8.encode (charsOfRest xs) ++ rest) = run u rest := by
  induction xs generalizing done with
  | nil =>
    rw [List.append_nil] at hu
    exact run_cons (show step ⟨.more, .arr done :: s⟩ 93 = some u from hu) rest
  | cons x xs ih =>
    have hcomma : step ⟨.more, .arr done :: s⟩ 44 = some ⟨.value, .arr done :: s⟩ := rfl
    have hbytes : Utf8.encode (charsOfRest (x :: xs)) = 44 :: (Utf8.encode x.chars ++ Utf8.encode (charsOfRest xs)) := by
      rw [charsOfRest, List.cons_append, Utf8.encode_cons, Utf8.encode_append]
      rfl
    -- the byte after the element ends it, and is then read for what stands around it
    obtain ⟨b, bs, hclose, hb⟩ := charsOfRest_closes xs
    rw [hbytes, List.cons_append, run_cons hcomma, List.append_assoc, hclose, List.cons_append,
      hxs x List.mem_cons_self (.arr done :: s) _ rfl b _ hb, ← List.cons_append, ← hclose]
    refine ih (fun y hy => hxs y (List.mem_cons_of_mem _ hy)) _ ?_
    rwa [List.reverse_cons, List.append_assoc]

/-- Where an array may begin with an element or end, an element is read as anywhere else. -/
theorem run_firstElement {b : UInt8} (hb : b ≠ 93) (s : List Frame) (bs : Bytes) (hblank : blank b = false) :
    run ⟨.firstElement, s⟩ (b :: bs) = run ⟨.value, s⟩ (b :: bs) := by
  have hstep : step ⟨.firstElement, s⟩ b = step ⟨.value, s⟩ b := by
    show stepOutside .firstElement s b = stepOutside .value s b
    simp only [stepOutside, hblank, beq_eq_false_iff_ne.mpr hb, Bool.false_eq_true, if_false]
  rw [run, run, hstep]

/-- A first byte that begins a value: neither a blank nor what closes an array. -/
def Begins (j : Json) : Prop := ∃ b bs, Utf8.encode j.chars = b :: bs ∧ b ≠ 93 ∧ blank b = false

theorem ends_arr {xs : List Json} (hxs : ∀ x ∈ xs, Reads x) (hbegins : ∀ x ∈ xs, Begins x) : Ends (arr xs) := by
  intro s u hu rest
  show run ⟨.firstElement, .arr [] :: s⟩ (Utf8.encode (charsOfList xs) ++ rest) = run u rest
  cases xs with
  | nil => exact run_cons (show step ⟨.firstElement, .arr [] :: s⟩ 93 = some u from hu) rest
  | cons x xs =>
    obtain ⟨c, cs, hc, hne, hblank⟩ := hbegins x List.mem_cons_self
    obtain ⟨b, bs, hclose, hb⟩ := charsOfRest_closes xs
    rw [charsOfList, Utf8.encode_append, List.append_assoc, hc, List.cons_append,
      run_firstElement hne _ _ hblank, ← List.cons_append, ← hc, hclose, List.cons_append,
      hxs x List.mem_cons_self (.arr [] :: s) _ rfl b _ hb, ← List.cons_append, ← hclose]
    exact run_rest (fun y hy => hxs y (List.mem_cons_of_mem _ hy)) [x] hu rest

/-! ## Objects -/

/-- Members as the reader keeps them, newest first. -/
def kept (ms : List (String × Json)) : List (Option String × Json) := (ms.map fun m => (some m.1, m.2)).reverse

theorem kept_concat (ms : List (String × Json)) (m : String × Json) : kept (ms ++ [m]) = (some m.1, m.2) :: kept ms := by
  simp [kept]

theorem objectOf_kept (ms : List (String × Json)) : objectOf (kept ms) = obj ms := by
  have hmap : (kept ms).reverse.mapM (fun m => m.1.map fun k => (k, m.2)) = some ms := by
    rw [kept, List.reverse_reverse]
    induction ms with
    | nil => rfl
    | cons m ms ih =>
      rw [List.map_cons, List.mapM_cons, ih]
      rfl
  rw [objectOf, hmap]

theorem charsOfMoreMembers_closes (ms : List (String × Json)) :
    ∃ b bs, Utf8.encode (charsOfMoreMembers ms) = b :: bs ∧ Closes b := by
  cases ms with
  | nil => exact ⟨125, [], rfl, .inr (.inr rfl)⟩
  | cons m ms => exact ⟨44, _, rfl, .inl rfl⟩

/-- A member after the opening quote of its name. -/
def memberBytes (m : String × Json) : Bytes :=
  Utf8.encode (m.1.toList.flatMap escaped ++ ['"']) ++ 58 :: Utf8.encode m.2.chars

theorem run_member {m : String × Json} (hm : Reads m.2) (done : List (Option String × Json)) (s : List Frame) {b : UInt8}
    (hb : Closes b) (rest : Bytes) : run ⟨.text true (.plain []), .obj done :: s⟩ (memberBytes m ++ b :: rest)
      = run ⟨.more, .obj ((some m.1, m.2) :: done) :: s⟩ (b :: rest) := by
  have hcolon : step ⟨.colon (some m.1), .obj done :: s⟩ 58 = some ⟨.value, .member done (some m.1) :: s⟩ := rfl
  rw [memberBytes, List.append_assoc, run_text, endText, if_pos rfl, value?_plain]
  show run ⟨.colon (some m.1), .obj done :: s⟩ (58 :: (Utf8.encode m.2.chars ++ b :: rest)) = _
  rw [run_cons hcolon]
  exact hm (.member done (some m.1) :: s) _ rfl b rest hb

theorem encode_moreMembers (m : String × Json) (ms : List (String × Json)) : Utf8.encode (charsOfMoreMembers (m :: ms))
    = 44 :: 34 :: (memberBytes m ++ Utf8.encode (charsOfMoreMembers ms)) := by
  rw [charsOfMoreMembers, quoted, memberBytes]
  simp only [List.cons_append, List.append_assoc, Utf8.encode_cons, Utf8.encode_append]
  rfl

theorem encode_members (m : String × Json) (ms : List (String × Json)) : Utf8.encode (charsOfMembers (m :: ms))
    = 34 :: (memberBytes m ++ Utf8.encode (charsOfMoreMembers ms)) := by
  rw [charsOfMembers, quoted, memberBytes]
  simp only [List.cons_append, List.append_assoc, Utf8.encode_cons, Utf8.encode_append]
  rfl

theorem run_moreMembers {ms : List (String × Json)} (hms : ∀ m ∈ ms, Reads m.2) (done : List (String × Json))
    {s : List Frame} {u : State} (hu : complete (obj (done ++ ms)) s = some u) (rest : Bytes) :
    run ⟨.more, .obj (kept done) :: s⟩ (Utf8.encode (charsOfMoreMembers ms) ++ rest) = run u rest := by
  induction ms generalizing done with
  | nil =>
    rw [List.append_nil, ← objectOf_kept done] at hu
    exact run_cons (show step ⟨.more, .obj (kept done) :: s⟩ 125 = some u from hu) rest
  | cons m ms ih =>
    have hcomma : step ⟨.more, .obj (kept done) :: s⟩ 44 = some ⟨.name, .obj (kept done) :: s⟩ := rfl
    have hquote : step ⟨.name, .obj (kept done) :: s⟩ 34 = some ⟨.text true (.plain []), .obj (kept done) :: s⟩ := rfl
    obtain ⟨b, bs, hclose, hb⟩ := charsOfMoreMembers_closes ms
    rw [encode_moreMembers, List.cons_append, run_cons hcomma, List.cons_append, run_cons hquote, List.append_assoc,
      hclose, List.cons_append, run_member (hms m List.mem_cons_self) _ _ hb, ← kept_concat, ← List.cons_append, ← hclose]
    refine ih (fun n hn => hms n (List.mem_cons_of_mem _ hn)) _ ?_
    rwa [List.append_assoc]

theorem ends_obj {ms : List (String × Json)} (hms : ∀ m ∈ ms, Reads m.2) : Ends (obj ms) := by
  intro s u hu rest
  show run ⟨.firstName, .obj [] :: s⟩ (Utf8.encode (charsOfMembers ms) ++ rest) = run u rest
  cases ms with
  | nil => exact run_cons (show step ⟨.firstName, .obj [] :: s⟩ 125 = some u from hu) rest
  | cons m ms =>
    have hquote : step ⟨.firstName, .obj [] :: s⟩ 34 = some ⟨.text true (.plain []), .obj [] :: s⟩ := rfl
    obtain ⟨b, bs, hclose, hb⟩ := charsOfMoreMembers_closes ms
    rw [encode_members, List.cons_append, run_cons hquote, List.append_assoc, hclose, List.cons_append,
      run_member (hms m List.mem_cons_self) _ _ hb, ← List.cons_append, ← hclose]
    exact run_moreMembers (fun n hn => hms n (List.mem_cons_of_mem _ hn)) [m] hu rest

/-! ## Trees -/

/-- A tree that can be read back: every part stands for something, and every number is kept by its text. -/
inductive Legible : Json → Prop where
  | null : Legible null
  | bool (b : Bool) : Legible (bool b)
  | num {n : Numeral} (h : Numeral.Kept n) : Legible (num n)
  | str (x : String) : Legible (str x)
  | arr {xs : List Json} (h : ∀ x ∈ xs, Legible x) : Legible (arr xs)
  | obj {ms : List (String × Json)} (h : ∀ m ∈ ms, Legible m.2) : Legible (obj ms)

namespace Legible

variable {j : Json}

theorem begins (h : j.Legible) : j.Begins := by
  cases h with
  | null => exact ⟨110, _, rfl, by decide, by decide⟩
  | bool b =>
    cases b with
    | true => exact ⟨116, _, rfl, by decide, by decide⟩
    | false => exact ⟨102, _, rfl, by decide, by decide⟩
  | num h =>
    obtain ⟨b, bs, start, m, htext, hstart, -, -⟩ := h
    have hb := start?_toNat hstart
    refine ⟨b, bs, htext, by rintro rfl; simp at hb, ?_⟩
    simp only [blank, Bool.or_eq_false_iff, beq_eq_false_iff_ne, ne_eq, ← UInt8.toNat_inj, UInt8.toNat_ofNat]
    omega
  | str x => exact ⟨34, _, rfl, by decide, by decide⟩
  | arr h => exact ⟨91, _, rfl, by decide, by decide⟩
  | obj h => exact ⟨123, _, rfl, by decide, by decide⟩

theorem reads (h : j.Legible) : j.Reads := by
  induction h with
  | null => exact ends_null.reads
  | bool b => exact (ends_bool b).reads
  | num h => exact h.reads
  | str x => exact (ends_str x).reads
  | arr h ih => exact (ends_arr ih fun x hx => (h x hx).begins).reads
  | obj _ ih => exact (ends_obj ih).reads

end Legible

/-- A tree comes back from its text. -/
theorem readBytes_chars {j : Json} (h : j.Legible) : readBytes (Utf8.encode j.chars) = some j := by
  have hends : Ends j → readBytes (Utf8.encode j.chars) = some j := by
    intro he
    have hrun := he [] ⟨.finished j, []⟩ rfl []
    rw [List.append_nil] at hrun
    rw [readBytes, hrun]
    rfl
  cases h with
  | null => exact hends ends_null
  | bool b => exact hends (ends_bool b)
  | str x => exact hends (ends_str x)
  | arr h => exact hends (ends_arr (fun x hx => (h x hx).reads) fun x hx => (h x hx).begins)
  | obj h => exact hends (ends_obj fun m hm => (h m hm).reads)
  | num h =>
    obtain ⟨m, hend, hrun⟩ := h.run
    have hrun := hrun [] []
    rw [List.append_nil] at hrun
    rw [readBytes, hrun]
    exact hend

/-! ## Lines -/

theorem newline_notMem_escaped (c : Char) : '\n' ∉ escaped c := by
  have hdigits : ∀ n < 32, '\n' ∉ ['\\', 'u', '0', '0', hexDigit (n / 16), hexDigit (n % 16)] := by decide
  unfold escaped
  by_cases h : c = '\n'
  · subst h
    decide
  · split_ifs
    all_goals first | decide | exact hdigits _ ‹_› | exact fun hm => h (List.mem_singleton.mp hm).symm

theorem newline_notMem_quoted (x : String) : '\n' ∉ quoted x := by
  have hbody : '\n' ∉ x.toList.flatMap escaped := fun h =>
    let ⟨c, _, hc⟩ := List.mem_flatMap.mp h
    newline_notMem_escaped c hc
  simp [quoted, hbody]

theorem newline_notMem_toDigits (n : Nat) : '\n' ∉ Nat.toDigits 10 n := by
  intro h
  have hd := Nat.isDigit_of_mem_toDigits (by decide) (by decide) h
  revert hd
  decide

theorem newline_notMem_digitText (ds : List Nat) : '\n' ∉ (Binary64.digitText ds).toList := by
  intro h
  rw [Binary64.digitText, String.toList_ofList] at h
  obtain ⟨d, -, hd⟩ := List.mem_map.mp h
  by_cases hvalid : (48 + d).isValidChar
  · have hchar : Char.ofNat (48 + d) = Char.ofNatAux (48 + d) hvalid := dif_pos hvalid
    have hnat : 48 + d = 10 := congrArg Char.toNat (hchar.symm.trans hd)
    omega
  · have hnat : 0 = 10 := congrArg Char.toNat ((dif_neg hvalid).symm.trans hd)
    cases hnat

theorem newline_notMem_zeros (n : Nat) : '\n' ∉ (Binary64.zeros n).toList := by
  simp [Binary64.zeros]

theorem newline_notMem_decimal (x : Binary64.Decimal) : '\n' ∉ x.text.toList := by
  have hdigits := newline_notMem_digitText
  have hzeros := newline_notMem_zeros
  have hexponent := newline_notMem_toDigits x.exponent.natAbs
  unfold Binary64.Decimal.text
  dsimp only
  split_ifs <;> simp [hdigits, hzeros, hexponent]

theorem newline_notMem_numeral (n : Numeral) : '\n' ∉ Numeral.chars n := by
  cases n with
  | nat n => exact newline_notMem_toDigits n
  | neg n => simp [Numeral.chars, newline_notMem_toDigits]
  | float x =>
    unfold Numeral.chars Binary64.text?
    dsimp only
    split_ifs <;> simp [newline_notMem_decimal]

mutual

/-- The text of a tree is one line. -/
theorem newline_notMem : ∀ j : Json, '\n' ∉ j.chars
  | null | garbled | bool true | bool false => by decide
  | num n => newline_notMem_numeral n
  | str x => newline_notMem_quoted x
  | arr xs => by simp [chars, newline_notMem_list xs]
  | obj ms => by simp [chars, newline_notMem_members ms]

theorem newline_notMem_list : ∀ xs : List Json, '\n' ∉ charsOfList xs
  | [] => by decide
  | x :: xs => by simp [charsOfList, newline_notMem x, newline_notMem_rest xs]

theorem newline_notMem_rest : ∀ xs : List Json, '\n' ∉ charsOfRest xs
  | [] => by decide
  | x :: xs => by simp [charsOfRest, newline_notMem x, newline_notMem_rest xs]

theorem newline_notMem_members : ∀ ms : List (String × Json), '\n' ∉ charsOfMembers ms
  | [] => by decide
  | (k, x) :: ms => by simp [charsOfMembers, newline_notMem_quoted, newline_notMem x, newline_notMem_moreMembers ms]

theorem newline_notMem_moreMembers : ∀ ms : List (String × Json), '\n' ∉ charsOfMoreMembers ms
  | [] => by decide
  | (k, x) :: ms => by simp [charsOfMoreMembers, newline_notMem_quoted, newline_notMem x, newline_notMem_moreMembers ms]

end

theorem newline_notMem_encode (j : Json) : (10 : UInt8) ∉ Utf8.encode j.chars :=
  mt (Utf8.mem_encode_ascii (show ('\n').toNat < 0x80 by decide)).mp j.newline_notMem

end ContentMesh.Json
