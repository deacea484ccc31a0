-- SUMMARY: Scalars are read from any of the texts that spell them.
import DecompilerDesk.Json.Codec
import DecompilerDesk.Proofs.Json.Grammar

/-!
# Reading scalars

A reader is followed along a text it was meant for by what it leaves: it takes the text off the front
and leaves what stood behind. For a number this needs that what stands behind it does not go on with
the number.
-/

namespace DecompilerDesk.Json

/-! ## Readings that succeed -/

variable {α β : Type} {c d : Cursor} {value : α} {text tail : List Char} {name : String}

/-- A reading gave a value and left a text. -/
def Takes (reading : Except Stop (Consumed α c)) (value : α) (tail : List Char) : Prop :=
  ∃ r, reading = .ok r ∧ r.value = value ∧ r.next.rest = tail

/-- A reading that may take nothing gave a value and left a text. -/
def Passes (reading : Except Stop (Passed α c)) (value : α) (tail : List Char) : Prop :=
  ∃ r, reading = .ok r ∧ r.value = value ∧ r.next.rest = tail

namespace Takes

theorem map {reading : Except Stop (Consumed α c)} (h : Takes reading value tail) (f : α → β) :
    Takes (reading.map (·.map f)) (f value) tail := by
  obtain ⟨r, rfl, rfl, rfl⟩ := h
  exact ⟨_, rfl, rfl, rfl⟩

theorem since {reading : Except Stop (Consumed α d)} (h : Takes reading value tail)
    (hle : d.left ≤ c.left) : Takes (reading.map (·.since hle)) value tail := by
  obtain ⟨r, rfl, rfl, rfl⟩ := h
  exact ⟨_, rfl, rfl, rfl⟩

end Takes

theorem Passes.map {reading : Except Stop (Passed α c)} (h : Passes reading value tail) (f : α → β) :
    Passes (reading.map (·.map f)) (f value) tail := by
  obtain ⟨r, rfl, rfl, rfl⟩ := h
  exact ⟨_, rfl, rfl, rfl⟩

/-! ## Texts -/

theorem hexDigit?_of_isHexDigit {n : Nat} {ch : Char} (h : IsHexDigit n ch) : hexDigit? ch = some n := by
  have hall : ∀ n < 16, hexDigit? n.digitChar = some n ∧ hexDigit? n.digitChar.toUpper = some n := by
    decide
  obtain ⟨hn, rfl | rfl⟩ := h
  · exact (hall n hn).1
  · exact (hall n hn).2

theorem CodeUnit.takes {n : Nat} {digits : List Char} (h : CodeUnit n digits)
    (hrest : c.rest = digits ++ tail) : Takes (readCodeUnit c) n tail := by
  obtain ⟨before, rest⟩ := c
  cases h with
  | @digits a b d e p q r s hp hq hr hs =>
    subst hrest
    have hvalue : hexValue? [p, q, r, s] = some (16 * (16 * (16 * a + b) + d) + e) := by
      simp [hexValue?, hexDigit?_of_isHexDigit hp, hexDigit?_of_isHexDigit hq,
        hexDigit?_of_isHexDigit hr, hexDigit?_of_isHexDigit hs]
    simp only [readCodeUnit, List.cons_append, List.nil_append]
    split
    next unit hunit =>
      rw [hvalue] at hunit
      obtain rfl := Option.some.inj hunit
      exact ⟨_, rfl, rfl, rfl⟩
    next hnone =>
      rw [hvalue] at hnone
      cases hnone

/-- The letter of an escape stands for its character, and is not the one of an escape by number. -/
theorem escaped?_of_mem_letters {letter ch : Char} (h : (letter, ch) ∈ letters) :
    escaped? letter = some ch ∧ letter ≠ 'u' := by
  have hall : ∀ entry ∈ letters, escaped? entry.1 = some entry.2 ∧ entry.1 ≠ 'u' := by decide
  exact hall _ h

theorem readNumbered_of_codeUnit {ch : Char} {digits : List Char} (h : CodeUnit ch.toNat digits)
    (hrest : c.rest = digits ++ tail) : Takes (readNumbered c) ch tail := by
  obtain ⟨unit, hunit, hvalue, hnext⟩ := h.takes hrest
  have hvalid : ch.toNat < 0xD800 ∨ 0xDFFF < ch.toNat := by
    rcases ch.valid with h | h
    · exact .inl h
    · exact .inr h.1
  have htrailing : isTrailingSurrogate ch.toNat = false := by
    simp [isTrailingSurrogate]
    omega
  have hleading : isLeadingSurrogate ch.toNat = false := by
    simp [isLeadingSurrogate]
    omega
  simp only [readNumbered, hunit, bind, Except.bind, hvalue, htrailing, hleading]
  exact ⟨_, rfl, by simp [Consumed.map, hvalue], hnext⟩

theorem readTrailingSurrogate_takes {n : Nat} {digits : List Char} (h : CodeUnit n digits)
    (hn : isTrailingSurrogate n) (hrest : c.rest = '\\' :: 'u' :: (digits ++ tail)) :
    Takes (readTrailingSurrogate c) n tail := by
  obtain ⟨before, rest⟩ := c
  subst hrest
  obtain ⟨unit, hunit, rfl, hnext⟩ := h.takes (c := ⟨'u' :: '\\' :: before, digits ++ tail⟩) rfl
  simp only [readTrailingSurrogate, hunit, bind, Except.bind, hn, if_true]
  exact ⟨_, rfl, rfl, hnext⟩

theorem readNumbered_of_pair {ch : Char} {leading trailing : List Char} (hch : 0x10000 ≤ ch.toNat)
    (hleading : CodeUnit (0xD800 + (ch.toNat - 0x10000) / 0x400) leading)
    (htrailing : CodeUnit (0xDC00 + (ch.toNat - 0x10000) % 0x400) trailing)
    (hrest : c.rest = leading ++ '\\' :: 'u' :: (trailing ++ tail)) :
    Takes (readNumbered c) ch tail := by
  have hbound : ch.toNat < 0x110000 := by
    rcases ch.valid with h | h
    · exact Nat.lt_trans h (by decide)
    · exact h.2
  obtain ⟨unit, hunit, hvalue, hnext⟩ := hleading.takes hrest
  have hfirst : isTrailingSurrogate unit.value = false ∧ isLeadingSurrogate unit.value = true := by
    simp [isTrailingSurrogate, isLeadingSurrogate, hvalue]
    omega
  have hsecond : isTrailingSurrogate (0xDC00 + (ch.toNat - 0x10000) % 0x400) = true := by
    simp [isTrailingSurrogate]
    omega
  obtain ⟨second, hread, hpair, hbehind⟩ := readTrailingSurrogate_takes htrailing hsecond hnext
  have hsame : surrogatePair unit.value second.value = ch := by
    have hnumber : (unit.value - 0xD800) * 0x400 + (second.value - 0xDC00) + 0x10000 = ch.toNat := by
      omega
    rw [surrogatePair, hnumber, Char.ofNat_toNat]
  simp only [readNumbered, hunit, bind, Except.bind, hfirst.1, hfirst.2, hread]
  exact ⟨_, rfl, by simp [Consumed.andThen, Consumed.passed, Consumed.map, hsame], hbehind⟩

/-- A character stands for itself or is read behind a backslash. -/
theorem Spelling.plain_or_escape {ch : Char} {code : List Char} (h : Spelling ch code) :
    Plainly ch ∧ code = [ch] ∨ ∃ escape, code = '\\' :: escape ∧
      ∀ (c : Cursor) (tail : List Char), c.rest = escape ++ tail → Takes (readEscape c) ch tail := by
  cases h with
  | plain h => exact .inl ⟨h, rfl⟩
  | @letter letter _ h =>
    refine .inr ⟨_, rfl, ?_⟩
    rintro ⟨before, rest⟩ tail rfl
    obtain ⟨hletter, hunit⟩ := escaped?_of_mem_letters h
    unfold readEscape
    split
    next h => cases h
    next h => exact absurd (List.cons.inj h).1 hunit
    next h =>
      obtain ⟨rfl, rfl⟩ := List.cons.inj h
      rw [hletter]
      exact ⟨_, rfl, rfl, rfl⟩
  | @unit _ digits h =>
    refine .inr ⟨_, rfl, ?_⟩
    rintro ⟨before, rest⟩ tail rfl
    obtain ⟨r, hread, hvalue, hnext⟩ :=
      readNumbered_of_codeUnit (c := ⟨'u' :: before, digits ++ tail⟩) h rfl
    simp only [readEscape, List.cons_append, Cursor.eat, hread]
    exact ⟨_, rfl, hvalue, hnext⟩
  | @pair _ leading trailing hch hleading htrailing =>
    refine .inr ⟨_, rfl, ?_⟩
    rintro ⟨before, rest⟩ tail hrest
    simp only [List.cons_append, List.append_assoc] at hrest
    subst hrest
    obtain ⟨r, hread, hvalue, hnext⟩ := readNumbered_of_pair
      (c := ⟨'u' :: before, leading ++ '\\' :: 'u' :: (trailing ++ tail)⟩) hch hleading htrailing rfl
    simp only [readEscape, Cursor.eat, hread]
    exact ⟨_, rfl, hvalue, hnext⟩

theorem Spellings.reads {chars acc : List Char} (h : Spellings chars text) {origin : Cursor}
    (within : c.left ≤ origin.left) (hrest : c.rest = text ++ tail) :
    Takes (readTextFrom origin acc c within) (String.ofList (acc.reverse ++ chars)) tail := by
  induction h generalizing c acc with
  | close =>
    obtain ⟨before, rest⟩ := c
    subst hrest
    rw [readTextFrom, List.append_nil]
    exact ⟨_, rfl, rfl, rfl⟩
  | @char ch chars code text hspelling _ ih =>
    have hchars : acc.reverse ++ ch :: chars = (ch :: acc).reverse ++ chars := by simp
    rw [hchars]
    obtain ⟨before, rest⟩ := c
    rw [List.append_assoc] at hrest
    rw [readTextFrom]
    rcases hspelling.plain_or_escape with ⟨⟨hquote, hslash, hcontrol⟩, rfl⟩ | ⟨escape, rfl, hescape⟩
    · rw [List.singleton_append] at hrest
      subst hrest
      split
      next h => cases h
      next h => exact absurd (List.cons.inj h).1 hquote
      next h => exact absurd (List.cons.inj h).1 hslash
      next h =>
        obtain ⟨rfl, rfl⟩ := List.cons.inj h
        rw [if_neg hcontrol]
        exact ih _ rfl
    · rw [List.cons_append] at hrest
      subst hrest
      obtain ⟨r, hread, rfl, hnext⟩ := hescape ⟨'\\' :: before, escape ++ (text ++ tail)⟩ _ rfl
      simp only [Cursor.eat, hread]
      exact ih _ hnext

/-- A text is read behind its opening quote. -/
theorem Spellings.readText_takes (h : Spellings name.toList text) (hrest : c.rest = text ++ tail) :
    Takes (readText c) name tail := by
  have hreads : Takes (readTextFrom c [] c c.left_le) (String.ofList ([].reverse ++ name.toList)) tail :=
    h.reads c.left_le hrest
  simpa [readText] using hreads

theorem Spellings.readScalar_takes (h : Spellings name.toList text)
    (hrest : c.rest = '"' :: (text ++ tail)) : Takes (readScalar c) (.text name) tail := by
  obtain ⟨before, rest⟩ := c
  subst hrest
  obtain ⟨r, hread, hvalue, hnext⟩ := h.readText_takes (c := ⟨'"' :: before, text ++ tail⟩) rfl
  simp only [readScalar, Cursor.eat, hread]
  exact ⟨_, rfl, congrArg Json.text hvalue, hnext⟩

/-! ## Numbers -/

/-- Digits are appended as long as the number they say is below the limit. -/
theorem appendDigits_of_lt {limit : Nat} (digits : List Char) (n : Nat)
    (h : Nat.ofDigitChars 10 digits n < limit) :
    appendDigits limit n digits = (Nat.ofDigitChars 10 digits n, []) := by
  induction digits generalizing n with
  | nil => simp [appendDigits]
  | cons digit digits ih =>
    rw [Nat.ofDigitChars_cons] at h
    have hlt : 10 * n + (digit.toNat - '0'.toNat) < limit := by
      rw [Nat.ofDigitChars_eq_ofDigitChars_zero] at h
      have hle := Nat.le_mul_of_pos_left (10 * n + (digit.toNat - '0'.toNat))
        (Nat.pow_pos (n := digits.length) (by decide : 0 < 10))
      omega
    rw [appendDigits, if_pos hlt, ih _ h, Nat.ofDigitChars_cons]

/-- A text that does not go on with digits. -/
def NoDigit (tail : List Char) : Prop := ∀ ch ∈ tail.head?, ch.isDigit = false

theorem Closed.noDigit (h : Closed tail) : NoDigit tail := fun ch hch => (h ch hch).1

theorem readDigits_spec {digits : List Char} (hdigits : ∀ ch ∈ digits, ch.isDigit)
    (htail : NoDigit tail) (hrest : c.rest = digits ++ tail) :
    (readDigits c).value = digits ∧ (readDigits c).next.rest = tail := by
  have hnone : tail.takeWhile Char.isDigit = [] ∧ tail.dropWhile Char.isDigit = tail := by
    cases tail with
    | nil => exact ⟨rfl, rfl⟩
    | cons ch tail =>
      have hch := htail ch rfl
      exact ⟨by simp [hch], by simp [hch]⟩
  simp only [readDigits, Cursor.skipWhile, hrest]
  rw [List.takeWhile_append_of_pos hdigits, List.dropWhile_append_of_pos hdigits, hnone.1, hnone.2]
  exact ⟨List.append_nil _, rfl⟩

theorem WholeForm.takes (h : WholeForm text) (atEnd : Malformed) (htail : NoDigit tail)
    (hrest : c.rest = text ++ tail) : Takes (readWhole atEnd c) text tail := by
  obtain ⟨before, rest⟩ := c
  subst hrest
  cases h with
  | zero =>
    have hnone : tail.head?.any Char.isDigit = false := by
      cases hhead : tail.head? with
      | none => rfl
      | some ch => simp [htail ch hhead]
    simp only [readWhole, List.cons_append, List.nil_append, hnone]
    exact ⟨_, rfl, rfl, rfl⟩
  | @digits digit digits hzero hdigits =>
    have hdigit : digit.isDigit := hdigits.2 _ List.mem_cons_self
    obtain ⟨hvalue, hnext⟩ := readDigits_spec (c := ⟨digit :: before, digits ++ tail⟩)
      (fun ch hmem => hdigits.2 ch (List.mem_cons_of_mem _ hmem)) htail rfl
    unfold readWhole
    split
    next h => cases h
    next h => exact absurd (List.cons.inj h).1 hzero
    next h =>
      obtain ⟨rfl, rfl⟩ := List.cons.inj h
      rw [if_pos hdigit]
      exact ⟨_, rfl, by simp [Consumed.andThen, Passed.map, Cursor.eat, hvalue], hnext⟩

theorem readFraction_passes (atEnd : Malformed) (hpoint : ∀ ch ∈ c.rest.head?, ch ≠ '.') :
    readFraction atEnd c = .ok (.stay [] c) := by
  unfold readFraction
  split
  next h => exact absurd rfl (hpoint '.' (by simp [h]))
  next => rfl

theorem readExponent_passes (atEnd : Malformed) (hclosed : Closed c.rest) :
    readExponent atEnd c = .ok (.stay none c) := by
  unfold readExponent
  split
  next letter _ h =>
    have hletter := (hclosed letter (by simp [h])).2.2
    rw [if_neg (by simp [hletter])]
  next => rfl

/-- The digits of a number are a numeral with neither fraction nor exponent. -/
theorem readNumeral_takes (atEnd : Malformed) (negative : Bool) (n : Nat) (hclosed : Closed tail)
    (hrest : c.rest = Nat.toDigits 10 n ++ tail) :
    Takes (readNumeral atEnd negative c) ⟨negative, Nat.toDigits 10 n, [], none⟩ tail := by
  obtain ⟨whole, hwhole, hvalue, hnext⟩ := (wholeForm_toDigits n).takes atEnd hclosed.noDigit hrest
  have hclosed' : Closed whole.next.rest := hnext ▸ hclosed
  have hfraction := readFraction_passes atEnd fun ch hch => (hclosed' ch hch).2.1
  have hexponent : readExponent atEnd (Passed.stay ([] : List Char) whole.next).next = _ :=
    readExponent_passes atEnd hclosed'
  simp only [readNumeral, hwhole, bind, Except.bind, hfraction, hexponent]
  exact ⟨_, rfl, by simp [Consumed.andThen, Passed.since, Passed.map, Passed.stay, hvalue], hnext⟩

theorem appendDigits_toDigits {n : Nat} (h : n < UInt64.size) :
    appendDigits UInt64.size 0 (Nat.toDigits 10 n) = (n, []) := by
  have hsame : Nat.ofDigitChars 10 (Nat.toDigits 10 n) 0 = n := Nat.ofDigitChars_ten_toDigits
  have hdigits := appendDigits_of_lt (Nat.toDigits 10 n) 0 (hsame.symm ▸ h)
  rwa [hsame] at hdigits

/-- A numeral without fraction and exponent says the integer of its digits, if that fits. -/
theorem Numeral.value_of_digits {numeral : Numeral} {n : Nat} {number : Int}
    (hwhole : appendDigits UInt64.size 0 numeral.whole = (n, [])) (hfraction : numeral.fraction = [])
    (hexponent : numeral.exponent = none) (hnumber : integer? numeral.negative n = some number) :
    numeral.value = .ok (.integer number) := by
  unfold Numeral.value
  rw [hwhole, hfraction, hexponent]
  split
  next magnitude dropped h =>
    obtain ⟨rfl, rfl⟩ := Prod.mk.inj h
    split
    next => exact (if_pos rfl).trans (by rw [hnumber])

theorem readNumber_takes {negative : Bool} {n : Nat} {number : Int} (hlt : n < UInt64.size)
    (hnumber : integer? negative n = some number) (hclosed : Closed tail)
    (hrest : c.rest = Nat.toDigits 10 n ++ tail) :
    Takes (readNumber negative c) (.integer number) tail := by
  obtain ⟨numeral, hread, hvalue, hnext⟩ := readNumeral_takes .endInValue negative n hclosed hrest
  have hinteger : numeral.value.value = .ok (.integer number) := by
    rw [hvalue]
    exact Numeral.value_of_digits (appendDigits_toDigits hlt) rfl rfl hnumber
  simp only [readNumber, hread, bind, Except.bind, hinteger]
  exact ⟨_, rfl, rfl, hnext⟩

/-! ## Scalars -/

theorem Fits.natAbs_lt {n : Int} (h : Fits n) : n.natAbs < UInt64.size := by
  obtain ⟨hlow, hhigh⟩ := h
  simp only [UInt64.size] at hhigh ⊢
  omega

theorem integer?_of_nonneg {n : Int} (h : 0 ≤ n) : integer? false n.natAbs = some n := by
  simp [integer?, Int.natAbs_of_nonneg h]

theorem integer?_of_neg {n : Int} (h : Fits n) (hneg : n < 0) : integer? true n.natAbs = some n := by
  obtain ⟨hlow, -⟩ := h
  have hpos : 0 < n.natAbs ∧ n.natAbs ≤ 0x8000000000000000 := by omega
  have hsame : -(n.natAbs : Int) = n := by omega
  rw [integer?, Bool.not_true, if_neg Bool.false_ne_true, if_pos hpos, hsame]

theorem eatLetters_passes (letters : List Char) (hrest : c.rest = letters ++ tail) :
    Passes (c.eatLetters letters) () tail := by
  induction letters generalizing c with
  | nil => exact ⟨_, rfl, rfl, hrest⟩
  | cons letter letters ih =>
    obtain ⟨before, rest⟩ := c
    subst hrest
    obtain ⟨r, hread, -, hnext⟩ := ih (c := ⟨letter :: before, letters ++ tail⟩) rfl
    simp only [Cursor.eatLetters, List.cons_append, Cursor.eat, if_true, hread]
    exact ⟨_, rfl, rfl, hnext⟩

/-- The values that are neither arrays nor objects, with whole numbers of 64 bits alone. -/
inductive Scalar : Json → Prop where
  | null : Scalar .null
  | boolean (value : Bool) : Scalar (.boolean value)
  | integer {n : Int} (h : Fits n) : Scalar (.integer n)
  | text (s : String) : Scalar (.text s)

variable {json : Json}

theorem Scalar.spells (h : Scalar json) (style : Style) (depth : Nat) :
    Spells json (write style depth json) := by
  cases h with
  | null => rw [write]; exact .null
  | boolean value => cases value <;> rw [write] <;> constructor
  | integer h => rw [write]; exact .integer h
  | text s => rw [write]; exact .text (quotes_writeText s)

theorem Spells.readScalar_takes (h : Spells json text) (hscalar : Scalar json) (hclosed : Closed tail)
    (hrest : c.rest = text ++ tail) : Takes (readScalar c) json tail := by
  obtain ⟨before, rest⟩ := c
  cases h with
  | null | yes | no =>
    subst hrest
    exact ⟨_, rfl, rfl, rfl⟩
  | text hquotes =>
    obtain ⟨hspelled⟩ := hquotes
    exact hspelled.readScalar_takes hrest
  | array | object => cases hscalar
  | @integer n h =>
    rw [writeInteger] at hrest
    by_cases hneg : n < 0
    · rw [if_pos hneg, List.cons_append] at hrest
      subst hrest
      obtain ⟨r, hread, hvalue, hnext⟩ := readNumber_takes (c := ⟨'-' :: before, _⟩)
        h.natAbs_lt (integer?_of_neg h hneg) hclosed rfl
      simp only [readScalar, Cursor.eat, hread]
      exact ⟨_, rfl, by simp [Consumed.since, Consumed.map, hvalue, Number.toJson], hnext⟩
    · rw [if_neg hneg] at hrest
      have hnumber : Takes (readNumber false ⟨before, rest⟩) (.integer n) tail :=
        readNumber_takes h.natAbs_lt (integer?_of_nonneg (Int.not_lt.mp hneg)) hclosed hrest
      obtain ⟨digit, more, hdigits, hdigit⟩ := (wholeForm_toDigits n.natAbs).begins
      rw [hdigits, List.cons_append] at hrest
      subst hrest
      obtain ⟨r, hread, hvalue, hnext⟩ := hnumber
      unfold readScalar
      split
      case h_6 h =>
        obtain ⟨rfl, rfl⟩ := List.cons.inj h
        rw [if_pos hdigit, hread]
        exact ⟨_, rfl, by simp [Consumed.map, hvalue, Number.toJson], hnext⟩
      case h_7 h => cases h
      all_goals
        next h =>
          obtain ⟨rfl, -⟩ := List.cons.inj h
          exact absurd hdigit (by decide)

/-- The text of a scalar begins with no bracket. -/
theorem Spells.not_bracket (h : Spells json text) (hscalar : Scalar json) (behind : List Char) :
    text ++ tail ≠ '[' :: behind ∧ text ++ tail ≠ '\x7b' :: behind := by
  obtain ⟨ch, rest, rfl, hch⟩ : ∃ ch rest, text = ch :: rest ∧ ch ≠ '[' ∧ ch ≠ '\x7b' := by
    cases h with
    | null | yes | no => exact ⟨_, _, rfl, by decide⟩
    | text hquotes =>
      cases hquotes
      exact ⟨_, _, rfl, by decide⟩
    | array | object => cases hscalar
    | @integer n _ =>
      rw [writeInteger]
      split
      · exact ⟨_, _, rfl, by decide⟩
      · obtain ⟨digit, rest, hdigits, hdigit⟩ := (wholeForm_toDigits n.natAbs).begins
        refine ⟨digit, rest, hdigits, ?_, ?_⟩
        all_goals
          rintro rfl
          exact absurd hdigit (by decide)
  exact ⟨fun h => hch.1 (List.cons.inj h).1, fun h => hch.2 (List.cons.inj h).1⟩

end DecompilerDesk.Json
