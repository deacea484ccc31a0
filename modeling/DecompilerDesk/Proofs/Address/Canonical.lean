-- SUMMARY: The written form of an address is the shortest lower-case hexadecimal one, and it is read as that address, also in a list.
import DecompilerDesk.Engine.Findings
import DecompilerDesk.Proofs.Address.Grammar

/-!
# The written form of addresses

An address is written behind `0x`, with lower-case letters and no zeros in front. The mark keeps its
digits from being read as a decimal number. No comma stands in it, so a list of addresses falls apart
into the addresses again.
-/

namespace DecompilerDesk

namespace Address

/-- The text is `0x` and the shortest hexadecimal numeral for the number, without capital letters. -/
def Canonical (written : String) (n : Nat) : Prop :=
  ∃ digits, written.toList = '0' :: 'x' :: digits ∧ Numeral 16 digits n ∧
    (∀ c ∈ digits, ¬ c.isUpper) ∧ (digits.head? = some '0' → digits = ['0'])

/-! ## Digits -/

/-- The digits of a number, as those of its front and a last one. -/
theorem toDigits_induction {P : Nat → List Char → Prop} (one : ∀ d < 16, P d [d.digitChar])
    (more : ∀ n d, 0 < n → d < 16 → P n (Nat.toDigits 16 n) →
      P (16 * n + d) (Nat.toDigits 16 n ++ [d.digitChar])) (n : Nat) : P n (Nat.toDigits 16 n) := by
  induction n using Nat.strongRecOn with
  | ind n ih =>
    by_cases hsmall : n < 16
    · rw [Nat.toDigits_of_lt_base hsmall]
      exact one n hsmall
    · have hfront := ih (n / 16) (by omega)
      have hmore := more (n / 16) (n % 16) (by omega) (by omega) hfront
      rwa [Nat.div_add_mod, ← Nat.toDigits_of_base_le (by decide) (by omega)] at hmore

theorem numeral_toDigits (n : Nat) : Numeral 16 (Nat.toDigits 16 n) n := by
  refine toDigits_induction (P := fun n digits => Numeral 16 digits n) ?_ ?_ n
  · intro d hd
    exact .one ⟨hd, .inl rfl⟩
  · intro n d _ hd hfront
    exact .more hfront ⟨hd, .inl rfl⟩

/-- The digits are those of numbers below sixteen, in lower case. -/
theorem mem_toDigits {n : Nat} {c : Char} (hc : c ∈ Nat.toDigits 16 n) : ∃ d < 16, c = d.digitChar := by
  refine toDigits_induction (P := fun _ digits => c ∈ digits → ∃ d < 16, c = d.digitChar) ?_ ?_ n hc
  · intro d hd hmem
    exact ⟨d, hd, List.mem_singleton.mp hmem⟩
  · intro n d _ hd hfront hmem
    rcases List.mem_append.mp hmem with hbefore | hlast
    · exact hfront hbefore
    · exact ⟨d, hd, List.mem_singleton.mp hlast⟩

theorem head?_toDigits {n : Nat} (hpos : 0 < n) : (Nat.toDigits 16 n).head? ≠ some '0' := by
  refine toDigits_induction (P := fun n digits => 0 < n → digits.head? ≠ some '0') ?_ ?_ n hpos
  · have hdigits : ∀ d < 16, 0 < d → [d.digitChar].head? ≠ some '0' := by decide
    exact hdigits
  · intro n d hn _ hfront _
    rw [List.head?_append_of_ne_nil _ Nat.toDigits_ne_nil]
    exact hfront hn

/-! ## Addresses -/

theorem toList_text (address : Address) :
    address.text.toList = '0' :: 'x' :: Nat.toDigits 16 address.toNat := String.toList_ofList

theorem canonical_text (address : Address) : Canonical address.text address.toNat := by
  refine ⟨_, address.toList_text, numeral_toDigits _, ?_, ?_⟩
  · intro c hc
    obtain ⟨d, hd, rfl⟩ := mem_toDigits hc
    have hlower : ∀ d < 16, ¬ d.digitChar.isUpper := by decide
    exact hlower d hd
  · intro hzero
    by_cases hpos : 0 < address.toNat
    · exact absurd hzero (head?_toDigits hpos)
    · rw [show address.toNat = 0 by omega, Nat.toDigits_zero]

/-- The characters of a written address are neither blanks nor commas. -/
theorem mem_text {address : Address} {c : Char} (hc : c ∈ address.text.toList) :
    Text.isBlank c = false ∧ c ≠ ',' := by
  rw [toList_text, List.mem_cons, List.mem_cons] at hc
  obtain rfl | rfl | hdigit := hc
  · decide
  · decide
  · obtain ⟨d, hd, rfl⟩ := mem_toDigits hdigit
    have hplain : ∀ d < 16, Text.isBlank d.digitChar = false ∧ d.digitChar ≠ ',' := by decide
    exact hplain d hd

theorem trim_text (address : Address) : Text.trim address.text.toList = address.text.toList := by
  refine Text.Trimmed.trim_eq ⟨⟨[], [], by simp, List.forall_mem_nil _, List.forall_mem_nil _⟩, ?_, ?_⟩
  · intro c hc
    exact (mem_text (List.mem_of_head? hc)).1
  · intro c hc
    exact (mem_text (List.mem_of_getLast? hc)).1

/-- What is written of an address reads as this address, and not as a decimal number. -/
theorem parse_text (address : Address) : parse address.text = .ok address := by
  rw [parse_eq_ok_iff, trim_text, toList_text]
  refine .hexadecimal ?_ (.lower _) (.plain (numeral_toDigits _)) address.toNat_lt_size
  intro m _ hdenotes
  exact hdenotes.not_mem_mark.1 (List.mem_cons_of_mem _ List.mem_cons_self)

/-- Different addresses are written differently. -/
theorem text_inj {one other : Address} : one.text = other.text ↔ one = other := by
  refine ⟨fun h => ?_, congrArg text⟩
  have hparse := parse_text one
  rw [h, parse_text] at hparse
  exact (Except.ok.inj hparse).symm

end Address

/-! ## Lists of addresses -/

namespace Connections

/-- The pieces of a text between the places where a comma and a space stand. -/
def pieces : List Char → List (List Char)
  | [] => [[]]
  | ',' :: ' ' :: rest => [] :: pieces rest
  | c :: rest => (pieces rest).modifyHead (c :: ·)

theorem pieces_cons {c : Char} (hc : c ≠ ',') (rest : List Char) :
    pieces (c :: rest) = (pieces rest).modifyHead (c :: ·) := by
  rw [pieces]
  rintro rest rfl _
  exact hc rfl

theorem pieces_of_no_comma {word : List Char} (h : ',' ∉ word) : pieces word = [word] := by
  induction word with
  | nil => rfl
  | cons c word ih =>
    rw [List.mem_cons, not_or] at h
    rw [pieces_cons (Ne.symm h.1), ih h.2]
    rfl

theorem pieces_append {word : List Char} (h : ',' ∉ word) (rest : List Char) :
    pieces (word ++ ',' :: ' ' :: rest) = word :: pieces rest := by
  induction word with
  | nil => rfl
  | cons c word ih =>
    rw [List.mem_cons, not_or] at h
    rw [List.cons_append, pieces_cons (Ne.symm h.1), ih h.2]
    rfl

/-- A list of words without commas falls apart into the words. -/
theorem pieces_intercalate {words : List (List Char)} (hsome : words ≠ [])
    (hwords : ∀ word ∈ words, ',' ∉ word) : pieces ([',', ' '].intercalate words) = words := by
  induction words with
  | nil => exact absurd rfl hsome
  | cons word words ih =>
    obtain ⟨hword, hrest⟩ := List.forall_mem_cons.mp hwords
    cases words with
    | nil =>
      rw [List.intercalate_singleton]
      exact pieces_of_no_comma hword
    | cons next words =>
      rw [List.intercalate_cons_cons, List.append_assoc]
      exact (pieces_append hword _).trans (congrArg (word :: ·) (ih (List.cons_ne_nil _ _) hrest))

/-- Each piece of a list of addresses is read as the address that it was written for. -/
theorem parse_pieces_text {connections : Connections} (hsome : connections.addresses ≠ []) :
    (pieces connections.text.toList).map (fun piece => Address.parse (String.ofList piece)) =
      connections.addresses.map .ok := by
  have hpieces : pieces connections.text.toList =
      connections.addresses.map fun address => address.text.toList := by
    rw [text, String.toList_intercalate, List.map_map]
    refine pieces_intercalate (by simpa using hsome) ?_
    intro word hword hcomma
    obtain ⟨address, -, rfl⟩ := List.mem_map.mp hword
    exact (Address.mem_text hcomma).2 rfl
  rw [hpieces, List.map_map]
  refine List.map_congr_left fun address _ => ?_
  rw [Function.comp_apply, String.ofList_toList, Address.parse_text]

end Connections

end DecompilerDesk
