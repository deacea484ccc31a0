-- SUMMARY: The addresses that texts read as: decimal numbers that fit first, then hexadecimal ones, with a mark or without.
import DecompilerDesk.Proofs.Address.Numerals
import DecompilerDesk.Proofs.Text.Trimming

/-!
# The grammar of addresses

What was typed is an address if, without the blanks around it, it denotes a decimal number that fits into
a word; or else if it denotes a hexadecimal one that fits, behind a mark perhaps. A decimal number that
does not fit stays refused: the same digits are a hexadecimal number no smaller than it.
-/

namespace DecompilerDesk

namespace Address

/-- The text behind its mark, or the text itself if it does not begin with one. -/
inductive Unmarked : List Char → List Char → Prop where
  | lower (digits : List Char) : Unmarked ('0' :: 'x' :: digits) digits
  | upper (digits : List Char) : Unmarked ('0' :: 'X' :: digits) digits
  | bare {text : List Char} :
      ¬ ['0', 'x'] <+: text → ¬ ['0', 'X'] <+: text → Unmarked text text

/-- A text with no blanks around it reads as a number: as the decimal one that it denotes, if that fits
into a word, or else as the hexadecimal one. -/
inductive Reads (text : List Char) (n : Nat) : Prop where
  | decimal : Denotes 10 text n → n < UInt64.size → Reads text n
  | hexadecimal {digits : List Char} :
      (∀ m < UInt64.size, ¬ Denotes 10 text m) → Unmarked text digits → Denotes 16 digits n → n < UInt64.size →
      Reads text n

variable {text digits : List Char} {n : Nat}

/-! ## Marks -/

theorem Unmarked.withoutMark_eq (h : Unmarked text digits) : withoutMark text = digits := by
  cases h with
  | lower => rfl
  | upper => rfl
  | bare hlower hupper =>
    unfold withoutMark
    split
    next rest => exact absurd ⟨rest, rfl⟩ hlower
    next rest => exact absurd ⟨rest, rfl⟩ hupper
    next => rfl

theorem unmarked_withoutMark (text : List Char) : Unmarked text (withoutMark text) := by
  unfold withoutMark
  split
  next digits => exact .lower digits
  next digits => exact .upper digits
  next hlower hupper =>
    refine .bare ?_ ?_
    · rintro ⟨rest, hrest⟩
      exact hlower rest hrest.symm
    · rintro ⟨rest, hrest⟩
      exact hupper rest hrest.symm

/-- No decimal digit is a letter. -/
theorem Denotes.not_mem_mark (h : Denotes 10 text n) : 'x' ∉ text ∧ 'X' ∉ text := by
  constructor <;> intro hmem
  · obtain hsign | ⟨d, hdigit⟩ := h.isDigit 'x' hmem
    · cases hsign
    · cases (digit?_eq_some_iff (by decide)).mpr hdigit
  · obtain hsign | ⟨d, hdigit⟩ := h.isDigit 'X' hmem
    · cases hsign
    · cases (digit?_eq_some_iff (by decide)).mpr hdigit

/-- A text that denotes a decimal number has no mark. -/
theorem withoutMark_of_denotes (h : Denotes 10 text n) : withoutMark text = text := by
  refine Unmarked.withoutMark_eq (.bare ?_ ?_)
  · rintro ⟨rest, rfl⟩
    exact h.not_mem_mark.1 (by simp)
  · rintro ⟨rest, rfl⟩
    exact h.not_mem_mark.2 (by simp)

/-! ## Trimmed texts -/

/-- The address in a text with no blanks around it is the number that it reads as. -/
theorem ofTrimmed_eq_some_iff {address : Address} :
    (word? 10 text <|> word? 16 (withoutMark text)) = some address ↔ Reads text address.toNat := by
  rw [Option.orElse_eq_orElse, Option.orElse_eq_or, Option.or_eq_some_iff,
    word?_eq_some_iff (by decide), word?_eq_none_iff (by decide), word?_eq_some_iff (by decide)]
  constructor
  · rintro (hdecimal | ⟨hnone, hhexadecimal⟩)
    · exact .decimal hdecimal address.toNat_lt_size
    · exact .hexadecimal hnone (unmarked_withoutMark text) hhexadecimal address.toNat_lt_size
  · intro h
    cases h with
    | decimal hdenotes => exact .inl hdenotes
    | hexadecimal hnone hunmarked hdenotes =>
      rw [hunmarked.withoutMark_eq]
      exact .inr ⟨hnone, hdenotes⟩

theorem parse_eq_ok_iff {input : String} {address : Address} :
    parse input = .ok address ↔ Reads (Text.trim input.toList) address.toNat := by
  rw [← ofTrimmed_eq_some_iff, parse, ofChars?]
  cases word? 10 (Text.trim input.toList) <|> word? 16 (withoutMark (Text.trim input.toList)) <;> simp

theorem Reads.lt (h : Reads text n) : n < UInt64.size := by
  cases h with
  | decimal _ hlt => exact hlt
  | hexadecimal _ _ _ hlt => exact hlt

theorem reads_iff_parse {input : String} :
    Reads (Text.trim input.toList) n ↔ ∃ address, parse input = .ok address ∧ address.toNat = n := by
  constructor
  · intro h
    have hword : (UInt64.ofNat n).toNat = n := UInt64.toNat_ofNat_of_lt' h.lt
    refine ⟨.ofNat n, parse_eq_ok_iff.mpr ?_, hword⟩
    rwa [hword]
  · rintro ⟨address, haddress, rfl⟩
    exact parse_eq_ok_iff.mp haddress

/-- A failure says what was typed, with the blanks around it. -/
theorem parse_eq_error_iff {input : String} {failure : Failure} :
    parse input = .error failure ↔
      failure = .badAddress input ∧ ∀ n, ¬ Reads (Text.trim input.toList) n := by
  constructor
  · intro h
    refine ⟨?_, fun n hreads => ?_⟩
    · unfold parse at h
      split at h
      · cases h
      · exact (Except.error.inj h).symm
    · obtain ⟨address, haddress, -⟩ := reads_iff_parse.mp hreads
      cases h.symm.trans haddress
  · rintro ⟨rfl, hnone⟩
    unfold parse
    split
    next address hchars =>
      have hparse : parse input = .ok address := by rw [parse, hchars]
      exact absurd (parse_eq_ok_iff.mp hparse) (hnone _)
    next => rfl

/-- A text that denotes a decimal number reads as that number or as none. -/
theorem reads_iff_of_denotes {m : Nat} (h : Denotes 10 text n) : Reads text m ↔ m = n ∧ n < UInt64.size := by
  constructor
  · intro hreads
    cases hreads with
    | decimal hdenotes hlt =>
      obtain rfl := hdenotes.unique (by decide) h
      exact ⟨rfl, hlt⟩
    | hexadecimal hnone hunmarked hdenotes hlt =>
      -- the digits are those of the decimal number, which would have been read if it fitted
      have hsame := hunmarked.withoutMark_eq.symm.trans (withoutMark_of_denotes h)
      obtain ⟨larger, hle, hlarger⟩ := h.mono (show 10 ≤ 16 by decide)
      obtain rfl := hlarger.unique (by decide) (hsame ▸ hdenotes)
      exact absurd h (hnone n (Nat.lt_of_le_of_lt hle hlt))
  · rintro ⟨rfl, hlt⟩
    exact .decimal h hlt

/-- What was typed is an address exactly if it reads as a number without the blanks around it, and it is
that number; else the failure repeats all that was typed. A decimal number is never read as a
hexadecimal one: it is the address, or none if it does not fit into a word. -/
theorem parse_grammar (input : String) :
    ∃ text, Text.Trimmed input.toList text ∧
      (∀ n, Reads text n ↔ ∃ address, parse input = .ok address ∧ address.toNat = n) ∧
      (∀ failure, parse input = .error failure ↔
        failure = .badAddress input ∧ ∀ n, ¬ Reads text n) ∧
      ∀ n, Denotes 10 text n →
        parse input = if n < UInt64.size then .ok (.ofNat n) else .error (.badAddress input) := by
  refine ⟨Text.trim input.toList, Text.trimmed_trim _, fun n => reads_iff_parse,
    fun failure => parse_eq_error_iff, fun n hdenotes => ?_⟩
  split
  next hlt =>
    refine parse_eq_ok_iff.mpr ((reads_iff_of_denotes hdenotes).mpr ⟨?_, hlt⟩)
    exact UInt64.toNat_ofNat_of_lt' hlt
  next hlarge =>
    refine parse_eq_error_iff.mpr ⟨rfl, fun m hreads => ?_⟩
    exact hlarge ((reads_iff_of_denotes hdenotes).mp hreads).2

/-- A decimal number just beyond the words, between blanks. Its digits are a hexadecimal number too. -/
theorem parse_grammar_of_decimal_beyond_words :
    let input := "\t18446744073709551616 "
    let digits := "18446744073709551616".toList
    Text.Trimmed input.toList digits ∧ Denotes 10 digits UInt64.size ∧
      Denotes 16 digits 0x18446744073709551616 ∧ parse input = .error (.badAddress input) := by
  intro input digits
  have htrim : Text.trim input.toList = digits := by decide +kernel
  have htrimmed : Text.Trimmed input.toList digits := htrim ▸ Text.trimmed_trim input.toList
  have hdecimal : Denotes 10 digits UInt64.size := (number?_eq_some_iff (by decide)).mp (by decide +kernel)
  have hhexadecimal : Denotes 16 digits 0x18446744073709551616 :=
    (number?_eq_some_iff (by decide)).mp (by decide +kernel)
  obtain ⟨text, htext, -, -, hparse⟩ := parse_grammar input
  obtain rfl : text = digits := htext.trim_eq.symm.trans htrim
  exact ⟨htrimmed, hdecimal, hhexadecimal, (hparse UInt64.size hdecimal).trans (if_neg (Nat.lt_irrefl _))⟩

end Address

end DecompilerDesk
