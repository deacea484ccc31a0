-- SUMMARY: The form that the text of any JSON value has, and the texts that spell a given one.
import DecompilerDesk.Json.Skip
import DecompilerDesk.Proofs.Json.OneLine
import Mathlib.Data.List.Forall2

/-!
# The grammar of JSON texts

A text has the form of a JSON value whatever its numbers amount to, whatever halves of characters its
escapes name and however deep its brackets nest. It spells a value if it says what the value is: each
character of a text in any of its spellings, members in any order, blanks wherever they may stand.
-/

namespace DecompilerDesk.Json

open Cursor (isGap)

variable {bracket : Bracket} {part text tail gap : List Char} {parts : List (List Char)} {ch : Char}

/-! ## Parts between brackets -/

def Blank (gap : List Char) : Prop := ∀ ch ∈ gap, isGap ch = true

instance (gap : List Char) : Decidable (Blank gap) := List.decidableBAll (isGap · = true) gap

def Bracket.opening : Bracket → Char
  | .square => '['
  | .curly => '\x7b'

/-- The parts that follow the first one, each behind a comma, up to the closing bracket. -/
inductive Follows (bracket : Bracket) : (parts : List (List Char)) → List Char → Prop where
  | last {gap : List Char} : Blank gap → Follows bracket [] (gap ++ [bracket.closing])
  | next {gap gap' part text : List Char} {parts : List (List Char)} : Blank gap → Blank gap' →
      Follows bracket parts text →
      Follows bracket (part :: parts) (gap ++ ',' :: (gap' ++ (part ++ text)))

/-- The parts between an opening bracket and its closing one. -/
inductive Encloses (bracket : Bracket) : (parts : List (List Char)) → List Char → Prop where
  | none {gap : List Char} : Blank gap →
      Encloses bracket [] (bracket.opening :: (gap ++ [bracket.closing]))
  | some {gap part text : List Char} {parts : List (List Char)} : Blank gap →
      Follows bracket parts text →
      Encloses bracket (part :: parts) (bracket.opening :: (gap ++ (part ++ text)))

/-- A member as it is written: its key, its value, and the blanks around the colon between them. -/
structure Pair where
  key : List Char
  afterKey : List Char
  afterColon : List Char
  value : List Char
  deriving DecidableEq

namespace Pair

def chars (pair : Pair) : List Char :=
  pair.key ++ (pair.afterKey ++ ':' :: (pair.afterColon ++ pair.value))

structure Spaced (pair : Pair) : Prop where
  afterKey : Blank pair.afterKey
  afterColon : Blank pair.afterColon

end Pair

/-! ## Texts -/

/-- A hexadecimal digit, in lower or upper case. -/
def IsHexDigit (n : Nat) (ch : Char) : Prop := n < 16 ∧ (ch = n.digitChar ∨ ch = n.digitChar.toUpper)

instance (n : Nat) (ch : Char) : Decidable (IsHexDigit n ch) := inferInstanceAs (Decidable (_ ∧ _))

/-- Four hexadecimal digits and the number they say. -/
inductive CodeUnit : Nat → List Char → Prop where
  | digits {a b c d : Nat} {p q r s : Char} : IsHexDigit a p → IsHexDigit b q → IsHexDigit c r →
      IsHexDigit d s → CodeUnit (16 * (16 * (16 * a + b) + c) + d) [p, q, r, s]

/-- The letters of escapes and what each escapes. -/
def letters : List (Char × Char) :=
  [('"', '"'), ('\\', '\\'), ('/', '/'), ('b', '\x08'), ('f', '\x0c'), ('n', '\n'), ('r', '\r'),
    ('t', '\t')]

/-- A character that needs no escape. -/
def Plainly (ch : Char) : Prop := ch ≠ '"' ∧ ch ≠ '\\' ∧ ¬ ch.toNat < 0x20

instance (ch : Char) : Decidable (Plainly ch) := inferInstanceAs (Decidable (_ ∧ _))

/-- What stands between the quotes and is no part of something longer. -/
inductive Piece : List Char → Prop where
  | plain {ch : Char} : Plainly ch → Piece [ch]
  | letter {letter ch : Char} : (letter, ch) ∈ letters → Piece ['\\', letter]
  | unit {n : Nat} {digits : List Char} : CodeUnit n digits → Piece ('\\' :: 'u' :: digits)

/-- Pieces up to the closing quote. -/
inductive Pieces : List Char → Prop where
  | close : Pieces ['"']
  | piece {piece text : List Char} : Piece piece → Pieces text → Pieces (piece ++ text)

/-- How a character may be written between quotes. Beyond the basic plane two units make one. -/
inductive Spelling : Char → List Char → Prop where
  | plain {ch : Char} : Plainly ch → Spelling ch [ch]
  | letter {letter ch : Char} : (letter, ch) ∈ letters → Spelling ch ['\\', letter]
  | unit {ch : Char} {digits : List Char} : CodeUnit ch.toNat digits → Spelling ch ('\\' :: 'u' :: digits)
  | pair {ch : Char} {leading trailing : List Char} : 0x10000 ≤ ch.toNat →
      CodeUnit (0xD800 + (ch.toNat - 0x10000) / 0x400) leading →
      CodeUnit (0xDC00 + (ch.toNat - 0x10000) % 0x400) trailing →
      Spelling ch ('\\' :: 'u' :: (leading ++ '\\' :: 'u' :: trailing))

/-- Characters, each in one of its spellings, up to the closing quote. -/
inductive Spellings : List Char → List Char → Prop where
  | close : Spellings [] ['"']
  | char {ch : Char} {chars code text : List Char} : Spelling ch code → Spellings chars text →
      Spellings (ch :: chars) (code ++ text)

/-- A text within its quotes. -/
inductive Quotes (name : String) : List Char → Prop where
  | quotes {text : List Char} : Spellings name.toList text → Quotes name ('"' :: text)

/-! ## Numbers -/

def Digits (digits : List Char) : Prop := digits ≠ [] ∧ ∀ ch ∈ digits, ch.isDigit

instance (digits : List Char) : Decidable (Digits digits) :=
  have := List.decidableBAll (fun ch : Char => ch.isDigit = true) digits
  inferInstanceAs (Decidable (_ ∧ _))

inductive WholeForm : List Char → Prop where
  | zero : WholeForm ['0']
  | digits {digit : Char} {digits : List Char} : digit ≠ '0' → Digits (digit :: digits) →
      WholeForm (digit :: digits)

inductive FractionForm : List Char → Prop where
  | none : FractionForm []
  | digits {digits : List Char} : Digits digits → FractionForm ('.' :: digits)

inductive ExponentForm : List Char → Prop where
  | none : ExponentForm []
  | digits {letter : Char} {sign digits : List Char} : letter = 'e' ∨ letter = 'E' →
      sign = [] ∨ sign = ['+'] ∨ sign = ['-'] → Digits digits → ExponentForm (letter :: (sign ++ digits))

/-- A number without its sign. -/
inductive NumberForm : List Char → Prop where
  | parts {whole fraction exponent : List Char} : WholeForm whole → FractionForm fraction →
      ExponentForm exponent → NumberForm (whole ++ (fraction ++ exponent))

/-! ## Values -/

inductive ScalarForm : List Char → Prop where
  | null : ScalarForm ['n', 'u', 'l', 'l']
  | yes : ScalarForm ['t', 'r', 'u', 'e']
  | no : ScalarForm ['f', 'a', 'l', 's', 'e']
  | number {text : List Char} : NumberForm text → ScalarForm text
  | negative {text : List Char} : NumberForm text → ScalarForm ('-' :: text)
  | text {text : List Char} : Pieces text → ScalarForm ('"' :: text)

/-- The text of some JSON value. -/
inductive Form : List Char → Prop where
  | scalar {text : List Char} : ScalarForm text → Form text
  | array {items : List (List Char)} {text : List Char} : (∀ item ∈ items, Form item) →
      Encloses .square items text → Form text
  | object {pairs : List Pair} {text : List Char} :
      (∀ pair ∈ pairs, pair.Spaced ∧ ∃ behind, pair.key = '"' :: behind ∧ Pieces behind) →
      (∀ pair ∈ pairs, Form pair.value) → Encloses .curly (pairs.map Pair.chars) text → Form text

/-- A member as it is and as it is written. -/
structure Entry where
  name : String
  json : Json
  written : Pair

namespace Entry

def member (entry : Entry) : String × Json := (entry.name, entry.json)

def pair (entry : Entry) : String × Pair := (entry.name, entry.written)

end Entry

/-- A pair writes its key. -/
structure Keyed (pair : String × Pair) : Prop where
  key : Quotes pair.1 pair.2.key
  spaced : pair.2.Spaced

/-- A whole number that fits 64 bits, signed or unsigned. -/
def Fits (n : Int) : Prop := -0x8000000000000000 ≤ n ∧ n < UInt64.size

/-- The texts of a JSON value without doubles: whole numbers have one, texts have one for each choice of
spellings, and arrays and objects one for each choice of blanks. -/
inductive Spells : Json → List Char → Prop where
  | null : Spells .null ['n', 'u', 'l', 'l']
  | yes : Spells (.boolean true) ['t', 'r', 'u', 'e']
  | no : Spells (.boolean false) ['f', 'a', 'l', 's', 'e']
  | integer {n : Int} : Fits n → Spells (.integer n) (writeInteger n)
  | text {s : String} {text : List Char} : Quotes s text → Spells (.text s) text
  | array {items : List Json} {parts : List (List Char)} {text : List Char} :
      items.length = parts.length → (∀ {item part}, (item, part) ∈ items.zip parts → Spells item part) →
      Encloses .square parts text → Spells (.array items) text
  | object {entries : List Entry} {members : List (String × Json)} {text : List Char} :
      (∀ entry ∈ entries, Keyed entry.pair) →
      (∀ entry ∈ entries, Spells entry.json entry.written.value) →
      (entries.map Entry.member).Perm members →
      Encloses .curly (entries.map (·.written.chars)) text → Spells (.object members) text

/-- The texts of an object that has some members and perhaps others, in any order. The keys of the others
are not among some names and may be repeated, and their values are of any form. -/
inductive SpellsAmong (names : List String) (members : List (String × Json)) : List Char → Prop where
  | object {entries : List Entry} {others pairs : List (String × Pair)} {text : List Char} :
      entries.map Entry.member = members →
      (∀ entry ∈ entries, Spells entry.json entry.written.value) →
      (∀ other ∈ others, other.1 ∉ names ∧ Form other.2.value) →
      (entries.map Entry.pair ++ others).Perm pairs → (∀ pair ∈ pairs, Keyed pair) →
      Encloses .curly (pairs.map (·.2.chars)) text → SpellsAmong names members text

/-! ## First characters -/

theorem dropWhile_gap (hgap : Blank gap) (hch : isGap ch = false) :
    (gap ++ ch :: more).dropWhile isGap = ch :: more := by
  rw [List.dropWhile_append_of_pos hgap, List.dropWhile_cons_of_neg (by simp [hch])]

theorem skipGap_rest (c : Cursor) : c.skipGap.rest = c.rest.dropWhile isGap := rfl

/-- A text that begins with neither a blank nor a closing bracket. -/
def Solid (text : List Char) : Prop :=
  ∃ ch rest, text = ch :: rest ∧ isGap ch = false ∧ ch ≠ ']' ∧ ch ≠ '\x7d'

theorem Solid.dropWhile (h : Solid text) (hgap : Blank gap) :
    (gap ++ (text ++ tail)).dropWhile isGap = text ++ tail := by
  obtain ⟨ch, rest, rfl, hch, -⟩ := h
  exact dropWhile_gap hgap hch

theorem solid_cons (h : isGap ch = false ∧ ch ≠ ']' ∧ ch ≠ '\x7d') : Solid (ch :: text) :=
  ⟨ch, text, rfl, h⟩

theorem solid_digit (h : ch.isDigit) : Solid (ch :: text) := by
  refine solid_cons ⟨?_, ?_, ?_⟩
  · by_contra hgap
    simp only [Bool.not_eq_false, isGap, Bool.or_eq_true, decide_eq_true_eq] at hgap
    rcases hgap with ((rfl | rfl) | rfl) | rfl <;> exact absurd h (by decide)
  all_goals
    rintro rfl
    exact absurd h (by decide)

theorem head_toDigits {n : Nat} (h : 0 < n) : (Nat.toDigits 10 n).head? ≠ some '0' := by
  induction n using Nat.base_induction 10 (by decide) with
  | single m hm =>
    rw [Nat.toDigits_of_lt_base hm]
    simp
    omega
  | digit m k hk hm ih =>
    rw [← Nat.toDigits_append_toDigits (by decide) hm hk]
    cases hdigits : Nat.toDigits 10 m with
    | nil => exact absurd hdigits Nat.toDigits_ne_nil
    | cons digit digits => simpa [hdigits] using ih hm

/-- The digits of a number are a whole part. -/
theorem wholeForm_toDigits (n : Nat) : WholeForm (Nat.toDigits 10 n) := by
  rcases Nat.eq_zero_or_pos n with rfl | hpos
  · exact .zero
  · have hhead := head_toDigits hpos
    have hdigits : Digits (Nat.toDigits 10 n) := ⟨Nat.toDigits_ne_nil, fun ch hmem =>
      Nat.isDigit_of_mem_toDigits (by decide) (by decide) hmem⟩
    cases hn : Nat.toDigits 10 n with
    | nil => exact absurd hn Nat.toDigits_ne_nil
    | cons digit digits =>
      rw [hn] at hhead hdigits
      exact .digits (by simpa using hhead) hdigits

theorem WholeForm.begins (h : WholeForm text) : ∃ digit rest, text = digit :: rest ∧ digit.isDigit := by
  cases h with
  | zero => exact ⟨_, _, rfl, by decide⟩
  | digits _ hdigits => exact ⟨_, _, rfl, hdigits.2 _ List.mem_cons_self⟩

theorem NumberForm.begins (h : NumberForm text) :
    ∃ digit rest, text = digit :: rest ∧ digit.isDigit := by
  cases h with
  | parts hwhole =>
    obtain ⟨digit, rest, rfl, hdigit⟩ := hwhole.begins
    exact ⟨_, _, rfl, hdigit⟩

theorem ScalarForm.solid (h : ScalarForm text) : Solid text := by
  cases h with
  | number hnumber =>
    obtain ⟨digit, rest, rfl, hdigit⟩ := hnumber.begins
    exact solid_digit hdigit
  | null | yes | no | negative | text => exact solid_cons (by decide)

theorem Encloses.begins (h : Encloses bracket parts text) :
    ∃ behind, text = bracket.opening :: behind := by
  cases h <;> exact ⟨_, rfl⟩

theorem Encloses.solid (h : Encloses bracket parts text) : Solid text := by
  obtain ⟨behind, rfl⟩ := h.begins
  cases bracket <;> exact solid_cons (by decide)

theorem Form.solid (h : Form text) : Solid text := by
  cases h with
  | scalar h => exact h.solid
  | array _ h => exact h.solid
  | object _ _ h => exact h.solid

theorem Quotes.solid {name : String} (h : Quotes name text) : Solid text := by
  cases h
  exact solid_cons (by decide)

theorem Spells.solid {json : Json} (h : Spells json text) : Solid text := by
  cases h with
  | null | yes | no => exact solid_cons (by decide)
  | text h => exact h.solid
  | array _ _ h => exact h.solid
  | object _ _ _ h => exact h.solid
  | @integer n _ =>
    rw [writeInteger]
    split
    · exact solid_cons (by decide)
    · obtain ⟨digit, rest, hdigits, hdigit⟩ := (wholeForm_toDigits n.natAbs).begins
      exact hdigits ▸ solid_digit hdigit

theorem SpellsAmong.solid {names : List String} {members : List (String × Json)}
    (h : SpellsAmong names members text) : Solid text := by
  cases h with
  | object _ _ _ _ _ h => exact h.solid

/-- A text that does not go on with the number in front of it. -/
def Closed (tail : List Char) : Prop :=
  ∀ ch ∈ tail.head?, ch.isDigit = false ∧ ch ≠ '.' ∧ ch ≠ 'e' ∧ ch ≠ 'E'

theorem closed_gap_append (hgap : Blank gap) (hclosed : Closed tail) :
    Closed (gap ++ tail) := by
  cases gap with
  | nil => exact hclosed
  | cons first gap =>
    intro ch hch
    obtain rfl : first = ch := by simpa using hch
    have hblank := hgap first List.mem_cons_self
    simp only [isGap, Bool.or_eq_true, decide_eq_true_eq] at hblank
    rcases hblank with ((rfl | rfl) | rfl) | rfl <;> decide

theorem closed_cons (h : ch = ',' ∨ ch = ']' ∨ ch = '\x7d') : Closed (ch :: tail) := by
  intro other hother
  obtain rfl : ch = other := by simpa using hother
  rcases h with rfl | rfl | rfl <;> decide

/-- What follows a part does not go on with it. -/
theorem Follows.closed (h : Follows bracket parts text) : Closed (text ++ tail) := by
  cases h with
  | last hgap =>
    rw [List.append_assoc]
    refine closed_gap_append hgap (closed_cons ?_)
    cases bracket
    · exact .inr (.inl rfl)
    · exact .inr (.inr rfl)
  | next hgap =>
    rw [List.append_assoc]
    exact closed_gap_append hgap (closed_cons (.inl rfl))

/-! ## Arrays and objects -/

theorem spells_array_iff {items : List Json} :
    Spells (.array items) text ↔
      ∃ parts, List.Forall₂ Spells items parts ∧ Encloses .square parts text := by
  constructor
  · intro h
    cases h with
    | array hlength hitems hencloses => exact ⟨_, List.forall₂_iff_zip.mpr ⟨hlength, hitems⟩, hencloses⟩
  · rintro ⟨parts, hitems, hencloses⟩
    obtain ⟨hlength, hitems⟩ := List.forall₂_iff_zip.mp hitems
    exact .array hlength hitems hencloses

/-- A text of an object is one of its members, in the order in which they are written, with no others. -/
theorem Spells.among {members : List (String × Json)} (h : Spells (.object members) text)
    (names : List String) :
    ∃ written, written.Perm members ∧ SpellsAmong names written text := by
  cases h with
  | @object entries _ _ hkeyed hvalues hperm hencloses =>
    refine ⟨_, hperm, .object rfl hvalues (List.forall_mem_nil _) (.refl _) ?_ ?_⟩
    · rw [List.append_nil]
      exact List.forall_mem_map.mpr hkeyed
    · rw [List.append_nil, List.map_map]
      exact hencloses

/-! ## What is written -/

/-- A style that puts nothing but blanks between the parts of a value. -/
structure Style.Blank (style : Style) : Prop where
  gap : ∀ depth, ∀ ch ∈ style.gap depth, isGap ch = true
  afterColon : ∀ ch ∈ style.afterColon, isGap ch = true

theorem Style.compact_blank : Style.compact.Blank where
  gap := by simp
  afterColon := by simp

theorem Style.indented_blank : Style.indented.Blank where
  gap depth ch hmem := by
    rcases List.mem_cons.mp hmem with rfl | hspace
    · rfl
    · rw [List.eq_of_mem_replicate hspace]
      rfl
  afterColon := by simp [indented, isGap]

theorem spelling_escapeChar (ch : Char) : Spelling ch (escapeChar ch) := by
  unfold escapeChar
  split
  case h_8 hquote hslash _ _ _ _ _ =>
    split
    next hcontrol =>
      have hhigh : IsHexDigit (ch.toNat / 16) (ch.toNat / 16).digitChar := ⟨by omega, .inl rfl⟩
      have hlow : IsHexDigit (ch.toNat % 16) (ch.toNat % 16).digitChar := ⟨by omega, .inl rfl⟩
      have hzero : IsHexDigit 0 '0' := ⟨by decide, .inl rfl⟩
      have hunit := CodeUnit.digits hzero hzero hhigh hlow
      simp only [Nat.mul_zero, Nat.zero_add, Nat.div_add_mod] at hunit
      exact .unit hunit
    next hcontrol => exact .plain ⟨hquote, hslash, hcontrol⟩
  all_goals exact .letter (by decide)

theorem spellings_escaped (chars : List Char) : Spellings chars (chars.flatMap escapeChar ++ ['"']) := by
  induction chars with
  | nil => exact .close
  | cons ch chars ih =>
    rw [List.flatMap_cons, List.append_assoc]
    exact .char (spelling_escapeChar ch) ih

theorem quotes_writeText (s : String) : Quotes s (writeText s) := .quotes (spellings_escaped s.toList)

variable {style : Style}

theorem follows_writeItems (hstyle : style.Blank) (depth outer : Nat) (items : List Json) :
    Follows .square (items.map (write style depth))
      (writeItems style depth items ++ (style.gap outer ++ [']'])) := by
  induction items with
  | nil => exact .last (hstyle.gap outer)
  | cons item items ih =>
    have hnext : Follows .square (write style depth item :: items.map (write style depth))
        ([] ++ ',' :: (style.gap depth ++ (write style depth item ++ _))) :=
      .next (List.forall_mem_nil _) (hstyle.gap depth) ih
    simpa only [writeItems, List.map_cons, List.cons_append, List.append_assoc,
      List.nil_append] using hnext

/-- A member as the writer writes it. -/
def Pair.written (style : Style) (depth : Nat) (member : String × Json) : Pair :=
  ⟨writeText member.1, [], style.afterColon, write style depth member.2⟩

theorem follows_writeMembers (hstyle : style.Blank) (depth outer : Nat)
    (members : List (String × Json)) :
    Follows .curly (members.map fun member => (Pair.written style depth member).chars)
      (writeMembers style depth members ++ (style.gap outer ++ ['\x7d'])) := by
  induction members with
  | nil => exact .last (hstyle.gap outer)
  | cons member members ih =>
    have hnext : Follows .curly ((Pair.written style depth member).chars :: _)
        ([] ++ ',' :: (style.gap depth ++ ((Pair.written style depth member).chars ++ _))) :=
      .next (List.forall_mem_nil _) (hstyle.gap depth) ih
    simpa only [writeMembers, Pair.chars, Pair.written, List.map_cons, List.cons_append,
      List.append_assoc, List.nil_append] using hnext

theorem encloses_writeArray (hstyle : style.Blank) (depth : Nat) (items : List Json) :
    Encloses .square (items.map (write style (depth + 1))) (write style depth (.array items)) := by
  cases items with
  | nil =>
    rw [write]
    exact .none (List.forall_mem_nil _)
  | cons item items =>
    have hencloses : Encloses .square (write style (depth + 1) item :: _) _ :=
      .some (hstyle.gap (depth + 1)) (follows_writeItems hstyle (depth + 1) depth items)
    simpa only [write, Bracket.opening, List.map_cons, List.cons_append, List.append_assoc,
      List.nil_append] using hencloses

theorem encloses_writeObject (hstyle : style.Blank) (depth : Nat) (members : List (String × Json)) :
    Encloses .curly (members.map fun member => (Pair.written style (depth + 1) member).chars)
      (write style depth (.object members)) := by
  cases members with
  | nil =>
    rw [write]
    exact .none (List.forall_mem_nil _)
  | cons member members =>
    have hencloses : Encloses .curly ((Pair.written style (depth + 1) member).chars :: _) _ :=
      .some (hstyle.gap (depth + 1)) (follows_writeMembers hstyle (depth + 1) depth members)
    simpa only [write, Bracket.opening, Pair.chars, Pair.written, List.map_cons, List.cons_append,
      List.append_assoc, List.nil_append] using hencloses

theorem keyed_written (hstyle : style.Blank) (depth : Nat) (member : String × Json) :
    Keyed (member.1, Pair.written style depth member) :=
  ⟨quotes_writeText member.1, List.forall_mem_nil _, hstyle.afterColon⟩

end DecompilerDesk.Json
