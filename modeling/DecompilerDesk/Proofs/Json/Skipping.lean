-- SUMMARY: Whatever has the form of a JSON value is skipped, up to its end.
import DecompilerDesk.Proofs.Json.Scalars

/-!
# Skipping

A value that nobody asked for is skipped with a stack of open brackets. What is left to do behind an
item depends on the stack alone: a comma goes on inside the innermost bracket, and a closing bracket
goes on behind it. So a value in a stack is skipped if what follows it is.
-/

namespace DecompilerDesk.Json

open Cursor (isGap)

variable {c : Cursor} {text tail rest more : List Char}

/-! ## Texts -/

/-- A piece is skipped together with what follows it. -/
theorem Piece.skips {piece : List Char} (h : Piece piece) {origin : Cursor}
    (within : c.left ≤ origin.left) (hrest : c.rest = piece ++ tail)
    (hmore : ∀ (d : Cursor) hwithin, d.rest = tail → Takes (skipTextFrom origin d hwithin) () more) :
    Takes (skipTextFrom origin c within) () more := by
  obtain ⟨before, rest⟩ := c
  rw [skipTextFrom]
  cases h with
  | plain h =>
    obtain ⟨hquote, hslash, hcontrol⟩ := h
    rw [List.singleton_append] at hrest
    subst hrest
    split
    next h => cases h
    next h => exact absurd (List.cons.inj h).1 hquote
    next h => exact absurd (List.cons.inj h).1 hslash
    next h =>
      obtain ⟨rfl, rfl⟩ := List.cons.inj h
      rw [if_neg hcontrol]
      exact hmore _ _ rfl
  | @letter letter ch h =>
    obtain ⟨hletter, hunit⟩ := escaped?_of_mem_letters h
    rw [List.cons_append, List.singleton_append] at hrest
    subst hrest
    have hescape : Takes (skipEscape ⟨'\\' :: before, letter :: tail⟩) () tail := by
      unfold skipEscape
      split
      next h => cases h
      next h => exact absurd (List.cons.inj h).1 hunit
      next h =>
        obtain ⟨rfl, rfl⟩ := List.cons.inj h
        rw [if_pos (by rw [hletter]; rfl)]
        exact ⟨_, rfl, rfl, rfl⟩
    obtain ⟨r, hskip, -, hnext⟩ := hescape
    simp only [Cursor.eat, hskip]
    exact hmore _ _ hnext
  | @unit n digits h =>
    simp only [List.cons_append] at hrest
    subst hrest
    have hescape : Takes (skipEscape ⟨'\\' :: before, 'u' :: (digits ++ tail)⟩) () tail := by
      obtain ⟨r, hread, -, hnext⟩ := h.takes (c := ⟨'u' :: '\\' :: before, digits ++ tail⟩) rfl
      simp only [skipEscape, Cursor.eat, hread]
      exact ⟨_, rfl, rfl, hnext⟩
    obtain ⟨r, hskip, -, hnext⟩ := hescape
    simp only [Cursor.eat, hskip]
    exact hmore _ _ hnext

theorem Pieces.skips (h : Pieces text) {origin : Cursor} (within : c.left ≤ origin.left)
    (hrest : c.rest = text ++ tail) : Takes (skipTextFrom origin c within) () tail := by
  induction h generalizing c with
  | close =>
    obtain ⟨before, rest⟩ := c
    subst hrest
    rw [skipTextFrom]
    exact ⟨_, rfl, rfl, rfl⟩
  | piece hpiece _ ih =>
    rw [List.append_assoc] at hrest
    exact hpiece.skips within hrest fun d hwithin hd => ih hwithin hd

theorem Pieces.skipText_takes (h : Pieces text) (hrest : c.rest = text ++ tail) :
    Takes (skipText c) () tail := h.skips c.left_le hrest

/-! ## Numbers -/

theorem FractionForm.passes (h : FractionForm text) (atEnd : Malformed) (htail : NoDigit tail)
    (hpoint : ∀ ch ∈ tail.head?, ch ≠ '.') (hrest : c.rest = text ++ tail) :
    ∃ r, readFraction atEnd c = .ok r ∧ r.next.rest = tail := by
  cases h with
  | none => exact ⟨_, readFraction_passes atEnd (by simpa [hrest] using hpoint), hrest⟩
  | @digits digits hdigits =>
    obtain ⟨before, rest⟩ := c
    subst hrest
    obtain ⟨hvalue, hnext⟩ := readDigits_spec (c := ⟨'.' :: before, digits ++ tail⟩)
      hdigits.2 htail rfl
    have hsome : (readDigits ⟨'.' :: before, digits ++ tail⟩).value.isEmpty = false := by
      simpa [hvalue] using hdigits.1
    simp only [readFraction, List.cons_append, Cursor.eat, hsome]
    exact ⟨_, rfl, hnext⟩

/-- The sign of an exponent is read if there is one, and the digits begin behind it. -/
theorem readExponentSign_passes {sign digits : List Char}
    (hsign : sign = [] ∨ sign = ['+'] ∨ sign = ['-']) (hdigits : Digits digits)
    (hrest : c.rest = sign ++ (digits ++ tail)) : (readExponentSign c).next.rest = digits ++ tail := by
  obtain ⟨before, rest⟩ := c
  subst hrest
  rcases hsign with rfl | rfl | rfl
  · obtain ⟨hne, hall⟩ := hdigits
    obtain ⟨digit, digits, rfl⟩ := List.exists_cons_of_ne_nil hne
    have hdigit := hall digit List.mem_cons_self
    unfold readExponentSign
    split
    next h =>
      obtain rfl := (List.cons.inj h).1
      exact absurd hdigit (by decide)
    next h =>
      obtain rfl := (List.cons.inj h).1
      exact absurd hdigit (by decide)
    next => rfl
  · rfl
  · rfl

theorem ExponentForm.passes (h : ExponentForm text) (atEnd : Malformed) (htail : Closed tail)
    (hrest : c.rest = text ++ tail) : ∃ r, readExponent atEnd c = .ok r ∧ r.next.rest = tail := by
  cases h with
  | none => exact ⟨_, readExponent_passes atEnd (by simpa [hrest] using htail), hrest⟩
  | @digits letter sign digits hletter hsign hdigits =>
    obtain ⟨before, rest⟩ := c
    rw [List.cons_append, List.append_assoc] at hrest
    subst hrest
    have hbehind : (readExponentSign ⟨letter :: before, sign ++ (digits ++ tail)⟩).next.rest = _ :=
      readExponentSign_passes hsign hdigits rfl
    obtain ⟨hvalue, hnext⟩ :=
      readDigits_spec hdigits.2 htail.noDigit hbehind
    have hsome := hvalue ▸ hdigits.1
    have hbody : ∃ r, readExponentBody atEnd ⟨letter :: before, sign ++ (digits ++ tail)⟩ = .ok r ∧
        r.next.rest = tail := by
      rw [readExponentBody, if_neg (by simpa using hsome)]
      exact ⟨_, rfl, hnext⟩
    obtain ⟨r, hread, hnext⟩ := hbody
    simp only [readExponent, Cursor.eat, if_pos hletter, hread]
    exact ⟨_, rfl, hnext⟩

theorem FractionForm.noDigit_append (h : FractionForm text) (htail : NoDigit tail) :
    NoDigit (text ++ tail) := by
  cases h with
  | none => exact htail
  | digits =>
    intro ch hch
    obtain rfl : '.' = ch := by simpa using hch
    decide

theorem ExponentForm.head (h : ExponentForm text) (htail : Closed tail) :
    ∀ ch ∈ (text ++ tail).head?, ch.isDigit = false ∧ ch ≠ '.' := by
  intro ch hch
  cases h with
  | none =>
    obtain ⟨hdigit, hpoint, -⟩ := htail ch hch
    exact ⟨hdigit, hpoint⟩
  | @digits letter sign digits hletter =>
    obtain rfl : letter = ch := by simpa using hch
    rcases hletter with rfl | rfl <;> decide

theorem NumberForm.takes (h : NumberForm text) (negative : Bool) (htail : Closed tail)
    (hrest : c.rest = text ++ tail) :
    ∃ r, readNumeral .badNumber negative c = .ok r ∧ r.next.rest = tail := by
  cases h with
  | @parts whole fraction exponent hwhole hfraction hexponent =>
    simp only [List.append_assoc] at hrest
    have hhead := hexponent.head htail
    have hnoDigit : NoDigit (exponent ++ tail) := fun ch hch => (hhead ch hch).1
    obtain ⟨w, hw, -, hnext⟩ := hwhole.takes .badNumber (hfraction.noDigit_append hnoDigit) hrest
    obtain ⟨f, hf, hnext⟩ :=
      hfraction.passes .badNumber hnoDigit (fun ch hch => (hhead ch hch).2) hnext
    obtain ⟨e, he, hnext⟩ := hexponent.passes .badNumber htail hnext
    simp only [readNumeral, hw, hf, he, bind, Except.bind]
    exact ⟨_, rfl, hnext⟩

/-! ## Scalars -/

theorem ScalarForm.takes (h : ScalarForm text) (htail : Closed tail) (hrest : c.rest = text ++ tail) :
    Takes (skipScalar c) () tail := by
  obtain ⟨before, rest⟩ := c
  subst hrest
  cases h with
  | null | yes | no => exact ⟨_, rfl, rfl, rfl⟩
  | @text text h =>
    obtain ⟨r, hskip, -, hnext⟩ := h.skipText_takes (c := ⟨'"' :: before, text ++ tail⟩) rfl
    simp only [skipScalar, List.cons_append, Cursor.eat, hskip]
    exact ⟨_, rfl, rfl, hnext⟩
  | @negative text h =>
    obtain ⟨r, hread, hnext⟩ := h.takes (c := ⟨'-' :: before, text ++ tail⟩) true htail rfl
    simp only [skipScalar, List.cons_append, Cursor.eat, hread]
    exact ⟨_, rfl, rfl, hnext⟩
  | number h =>
    obtain ⟨digit, rest, rfl, hdigit⟩ := h.begins
    obtain ⟨r, hread, hnext⟩ := h.takes (c := ⟨before, digit :: rest ++ tail⟩) false htail rfl
    unfold skipScalar
    split
    case h_6 h =>
      obtain ⟨rfl, rfl⟩ := List.cons.inj h
      rw [if_pos hdigit, hread]
      exact ⟨_, rfl, rfl, hnext⟩
    case h_7 h => cases h
    all_goals
      next h =>
        obtain rfl := (List.cons.inj h).1
        exact absurd hdigit (by decide)

/-! ## Open brackets -/

variable {inner : Bracket} {stack : List Bracket} {gap : List Char}

/-- A value inside the brackets that are open is skipped, and what follows it up to the last of them. -/
def Skips (stack : List Bracket) (text rest : List Char) : Prop :=
  ∀ (origin c : Cursor) within, c.rest = text → Takes (skipFrom origin stack c within) () rest

/-- The innermost open bracket goes on, with a value or with a key, and all is skipped up to the last
bracket. Without an open bracket nothing more is skipped. -/
def GoesOn : (stack : List Bracket) → (text rest : List Char) → Prop
  | [], text, rest => text = rest
  | .square :: outer, text, rest => Skips (.square :: outer) text rest
  | .curly :: outer, text, rest =>
    ∃ behind, (∀ c : Cursor, c.rest = text → Takes (skipKey c) () behind) ∧
      Skips (.curly :: outer) behind rest

/-- Brackets are closed until one goes on, behind an item or, without a comma, behind the opening
bracket. -/
def Closes (comma : Bool) (stack : List Bracket) (text rest : List Char) : Prop :=
  ∀ c : Cursor, c.rest = text →
    ∃ more, skipClosing comma stack c = .ok more ∧ GoesOn more.value more.next.rest rest

theorem closes_nil (comma : Bool) : Closes comma [] rest rest := fun _ hc => ⟨_, rfl, hc⟩

theorem Closes.comma (hgap : Blank gap) (h : GoesOn (inner :: stack) text rest) :
    Closes true (inner :: stack) (gap ++ ',' :: text) rest := by
  intro c hc
  have hcomma : c.skipGap.rest = ',' :: text := by
    rw [skipGap_rest, hc]
    exact dropWhile_gap hgap rfl
  simp only [skipClosing]
  split
  next h' => rw [hcomma] at h'; cases h'
  next h' =>
    rw [hcomma] at h'
    obtain ⟨rfl, rfl⟩ := List.cons.inj h'
    exact ⟨_, if_pos ⟨rfl, trivial⟩, h⟩

theorem Closes.bracket (comma : Bool) (hgap : Blank gap) (h : Closes true stack text rest) :
    Closes comma (inner :: stack) (gap ++ inner.closing :: text) rest := by
  intro c hc
  have hclosing : isGap inner.closing = false ∧ inner.closing ≠ ',' := by
    cases inner <;> decide
  have hbracket : c.skipGap.rest = inner.closing :: text := by
    rw [skipGap_rest, hc]
    exact dropWhile_gap hgap hclosing.1
  simp only [skipClosing]
  split
  next h' => rw [hbracket] at h'; cases h'
  next h' =>
    rw [hbracket] at h'
    obtain ⟨rfl, rfl⟩ := List.cons.inj h'
    obtain ⟨more, hmore, hgoes⟩ := h (c.skipGap.eat ‹_›).next rfl
    rw [if_neg fun hcomma => hclosing.2 hcomma.1, if_pos rfl, hmore]
    exact ⟨_, rfl, hgoes⟩

theorem Closes.first {part : List Char} (hpart : Solid part) (hgap : Blank gap)
    (h : GoesOn (inner :: stack) (part ++ text) rest) :
    Closes false (inner :: stack) (gap ++ (part ++ text)) rest := by
  intro c hc
  have hnext : c.skipGap.rest = part ++ text := by
    rw [skipGap_rest, hc]
    exact hpart.dropWhile hgap
  obtain ⟨ch, rest, rfl, -, hsquare, hcurly⟩ := hpart
  have hclosing : ch ≠ inner.closing := by cases inner <;> assumption
  simp only [skipClosing]
  split
  next h' => rw [hnext] at h'; cases h'
  next h' =>
    rw [hnext] at h'
    obtain ⟨rfl, -⟩ := List.cons.inj h'
    rw [if_neg (by simp), if_neg hclosing, if_neg (by simp)]
    exact ⟨_, rfl, hnext ▸ h⟩

/-- Behind a scalar or an opening bracket, and the brackets that are closed there, skipping goes on in
what is still open. -/
theorem GoesOn.takes {origin : Cursor} {after : Consumed (List Bracket) c}
    (within : after.next.left < origin.left) (h : GoesOn after.value after.next.rest rest) :
    Takes (match after.value with
      | [] => .ok ⟨(), after.next, within⟩
      | .square :: _ => skipFrom origin after.value after.next (Nat.le_of_lt within)
      | .curly :: _ => (skipKey after.next).bind fun key =>
        skipFrom origin after.value key.next (Nat.le_of_lt (Nat.lt_trans key.shorter within)))
      () rest := by
  split
  next hopen =>
    rw [hopen] at h
    exact ⟨_, rfl, rfl, h⟩
  next hopen =>
    rw [hopen] at h ⊢
    exact h _ _ _ rfl
  next hopen =>
    rw [hopen] at h ⊢
    obtain ⟨behind, hkey, hvalue⟩ := h
    obtain ⟨key, hread, -, hbehind⟩ := hkey after.next rfl
    rw [hread]
    exact hvalue _ _ _ hbehind

theorem ScalarForm.not_opening (h : ScalarForm text) {ch : Char} (hch : text.head? = some ch) :
    Bracket.ofOpening? ch = none := by
  cases h with
  | number hnumber =>
    obtain ⟨digit, _, rfl, hdigit⟩ := hnumber.begins
    obtain rfl := Option.some.inj hch
    unfold Bracket.ofOpening?
    split
    · exact absurd hdigit (by decide)
    · exact absurd hdigit (by decide)
    · rfl
  | null | yes | no | negative | text =>
    obtain rfl := Option.some.inj hch
    rfl

theorem Skips.scalar (h : ScalarForm text) (hgap : Blank gap) (hclosed : Closed tail)
    (hmore : Closes true stack tail rest) : Skips stack (gap ++ (text ++ tail)) rest := by
  intro origin c within hc
  have hnext : c.skipGap.rest = text ++ tail := by
    rw [skipGap_rest, hc]
    exact h.solid.dropWhile hgap
  obtain ⟨scalar, hscalar, -, hbehind⟩ := h.takes hclosed hnext
  obtain ⟨more, hmore, hgoes⟩ := hmore scalar.next hbehind
  have hopening : ∀ ch rest, c.skipGap.rest = ch :: rest → Bracket.ofOpening? ch = none := by
    intro ch rest hch
    obtain ⟨first, _, rfl, -⟩ := h.solid
    obtain ⟨rfl, -⟩ := List.cons.inj (hnext.symm.trans hch)
    exact h.not_opening rfl
  rw [skipFrom]
  simp only [bind, Except.bind]
  split
  next hnil =>
    obtain ⟨_, _, rfl, -⟩ := h.solid
    rw [hnext] at hnil
    cases hnil
  next hch =>
    let after : Consumed (List Bracket) c := (scalar.andThen more).since c.left_skipGap
    have hgoes : GoesOn after.value after.next.rest rest := hgoes
    simp only [hopening _ _ hch, hscalar, hmore]
    exact hgoes.takes (Nat.lt_of_lt_of_le after.shorter within)

theorem Skips.bracket (hgap : Blank gap) (h : Closes false (inner :: stack) text rest) :
    Skips stack (gap ++ inner.opening :: text) rest := by
  intro origin c within hc
  have hopening : isGap inner.opening = false ∧ Bracket.ofOpening? inner.opening = some inner := by
    cases inner <;> decide
  have hnext : c.skipGap.rest = inner.opening :: text := by
    rw [skipGap_rest, hc]
    exact dropWhile_gap hgap hopening.1
  rw [skipFrom]
  simp only [bind, Except.bind]
  split
  next hnil =>
    rw [hnext] at hnil
    cases hnil
  next hch =>
    rw [hnext] at hch
    obtain ⟨rfl, rfl⟩ := List.cons.inj hch
    obtain ⟨more, hmore, hgoes⟩ := h (c.skipGap.eat ‹_›).next rfl
    let after : Consumed (List Bracket) c := ((c.skipGap.eat ‹_›).andThen more).since c.left_skipGap
    have hgoes : GoesOn after.value after.next.rest rest := hgoes
    simp only [hopening.2, hmore]
    exact hgoes.takes (Nat.lt_of_lt_of_le after.shorter within)

/-! ## Values -/

variable {parts : List (List Char)}

/-- A part between brackets of some kind is skipped if what follows it is. -/
def Between (bracket : Bracket) (part : List Char) : Prop :=
  ∀ (stack : List Bracket) (gap more rest : List Char), Blank gap → Closed more →
    Closes true (bracket :: stack) more rest → GoesOn (bracket :: stack) (gap ++ (part ++ more)) rest

theorem Follows.closes (h : Follows inner parts text) (hparts : ∀ part ∈ parts, Between inner part)
    (hmore : Closes true stack tail rest) : Closes true (inner :: stack) (text ++ tail) rest := by
  -- From the closing bracket to the front: each part is skipped because what follows it is.
  induction h with
  | last hgap =>
    rw [List.append_assoc]
    exact .bracket true hgap hmore
  | @next gap gap' part text parts hgap hgap' hfollows ih =>
    obtain ⟨hpart, hparts⟩ := List.forall_mem_cons.mp hparts
    have hgoes := hpart stack gap' (text ++ tail) rest hgap' hfollows.closed (ih hparts)
    simpa only [List.append_assoc, List.cons_append] using Closes.comma hgap hgoes

theorem Encloses.skips (h : Encloses inner parts text)
    (hparts : ∀ part ∈ parts, Solid part ∧ Between inner part) (hgap : Blank gap)
    (hmore : Closes true stack tail rest) : Skips stack (gap ++ (text ++ tail)) rest := by
  cases h with
  | none hgap' =>
    have hcloses : Closes false (inner :: stack) (_ ++ inner.closing :: tail) rest :=
      .bracket false hgap' hmore
    simpa only [List.append_assoc, List.cons_append, List.nil_append] using Skips.bracket hgap hcloses
  | @some gap' part text parts hgap' hfollows =>
    obtain ⟨⟨hsolid, hpart⟩, hparts⟩ := List.forall_mem_cons.mp hparts
    have hcloses := hfollows.closes (fun other hother => (hparts other hother).2) hmore
    have hgoes := hpart stack [] (text ++ tail) rest (List.forall_mem_nil _) hfollows.closed hcloses
    have hskips := Skips.bracket hgap (Closes.first hsolid hgap' hgoes)
    simpa only [List.append_assoc, List.cons_append] using hskips

theorem skipKey_takes {pair : Pair} (hspaced : pair.Spaced) (hkey : pair.key = '"' :: text)
    (htext : Pieces text) (hgap : Blank gap) (hrest : c.rest = gap ++ (pair.chars ++ tail)) :
    Takes (skipKey c) () (pair.afterColon ++ (pair.value ++ tail)) := by
  simp only [Pair.chars, hkey, List.append_assoc, List.cons_append] at hrest
  have hquote : c.skipGap.rest = _ := (congrArg (List.dropWhile isGap) hrest).trans
    (dropWhile_gap hgap rfl)
  simp only [skipKey]
  split
  next h =>
    rw [hquote] at h
    obtain ⟨-, rfl⟩ := List.cons.inj h
    obtain ⟨key, hread, -, hnext⟩ := htext.skipText_takes (c := (c.skipGap.eat ‹_›).next) rfl
    have hcolon : key.next.skipGap.rest = ':' :: (pair.afterColon ++ (pair.value ++ tail)) := by
      rw [skipGap_rest, hnext]
      exact dropWhile_gap hspaced.afterKey rfl
    simp only [hread, bind, Except.bind]
    split
    next h' =>
      rw [hcolon] at h'
      obtain ⟨-, rfl⟩ := List.cons.inj h'
      exact ⟨_, rfl, rfl, rfl⟩
    next hne => exact absurd hcolon (hne _)
  next hne => exact absurd hquote (hne _)

/-- Whatever has the form of a value is skipped, inside whatever brackets. -/
theorem Form.skips (h : Form text) (hgap : Blank gap) (hclosed : Closed tail)
    (hmore : Closes true stack tail rest) : Skips stack (gap ++ (text ++ tail)) rest := by
  -- Inside an array or object the stack is longer, so the induction goes through all stacks at once.
  induction h generalizing stack gap tail rest with
  | scalar h => exact .scalar h hgap hclosed hmore
  | array hitems h ih =>
    refine h.skips (fun item hitem => ⟨(hitems item hitem).solid, ?_⟩) hgap hmore
    intro stack gap more rest hgap hclosed hcloses
    exact ih item hitem hgap hclosed hcloses
  | object hkeys hvalues h ih =>
    refine h.skips (List.forall_mem_map.mpr fun pair hpair => ?_) hgap hmore
    obtain ⟨hspaced, behind, hkey, hbehind⟩ := hkeys pair hpair
    refine ⟨?_, fun stack gap more rest hgap hclosed hcloses => ?_⟩
    · rw [Pair.chars, hkey]
      exact solid_cons (by decide)
    · exact ⟨_, fun c hc => skipKey_takes hspaced hkey hbehind hgap hc,
        ih pair hpair hspaced.afterColon hclosed hcloses⟩

theorem Form.skipValue_takes (h : Form text) (hgap : Blank gap) (hclosed : Closed tail)
    (hrest : c.rest = gap ++ (text ++ tail)) : Takes (skipValue c) () tail :=
  h.skips hgap hclosed (closes_nil true) c c c.left_le hrest

end DecompilerDesk.Json
