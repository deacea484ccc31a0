-- SUMMARY: Compact JSON stays on one line.
import DecompilerDesk.Json.Writer

/-!
# One line

A value is written with line ends between its items or with none at all, by style. The compact style
puts nothing there, and what a value is made of never holds a line end of its own: it is escaped in
texts, and numbers are digits and signs.
-/

namespace DecompilerDesk

/-! ## Texts and numbers -/

theorem newline_not_mem_toDigits (n : Nat) : '\n' ∉ Nat.toDigits 10 n := by
  intro hmem
  have hdigit := Nat.isDigit_of_mem_toDigits (by decide) (by decide) hmem
  exact absurd hdigit (by decide)

namespace Double

/-- The characters in the notation of a double. -/
def isNotation (c : Char) : Bool := c.isDigit || c = '-' || c = '+' || c = '.' || c = 'e'

theorem isNotation_of_mem_toDigits {n : Nat} {c : Char} (h : c ∈ Nat.toDigits 10 n) :
    isNotation c = true := by
  have hdigit := Nat.isDigit_of_mem_toDigits (by decide) (by decide) h
  simp [isNotation, hdigit]

/-- The shortest notation of a double has digits, a point and an exponent. -/
theorem Decimal.text_notation (d : Decimal) :
    d.text ≠ [] ∧ ∀ c ∈ d.text, isNotation c = true := by
  have hkept : ∀ c ∈ ((Nat.toDigits 10 d.digits).reverse.dropWhile (· == '0')).reverse,
      isNotation c = true := by
    intro c hmem
    have hdropped := (List.dropWhile_sublist _).mem (List.mem_reverse.mp hmem)
    exact isNotation_of_mem_toDigits (List.mem_reverse.mp hdropped)
  have hzero (n : Nat) : ∀ c ∈ List.replicate n '0', isNotation c = true := by
    intro c hmem
    rw [List.eq_of_mem_replicate hmem]
    rfl
  have hmarks : isNotation '.' ∧ isNotation '0' ∧ isNotation 'e' ∧ isNotation '+' ∧
      isNotation '-' := by decide
  simp only [Decimal.text]
  generalize ((Nat.toDigits 10 d.digits).reverse.dropWhile (· == '0')).reverse = kept at hkept
  have htake (n : Nat) : ∀ c ∈ kept.take n, isNotation c = true :=
    fun c hmem => hkept c (List.mem_of_mem_take hmem)
  have hdrop (n : Nat) : ∀ c ∈ kept.drop n, isNotation c = true :=
    fun c hmem => hkept c (List.mem_of_mem_drop hmem)
  split
  · split
    · refine ⟨by simp, ?_⟩
      simp only [List.forall_mem_append, List.forall_mem_cons]
      exact ⟨⟨hkept, hzero _⟩, hmarks.1, hmarks.2.1, by simp⟩
    · split
      · refine ⟨by simp, ?_⟩
        simp only [List.forall_mem_append, List.forall_mem_cons]
        exact ⟨htake _, hmarks.1, hdrop _⟩
      · refine ⟨by simp, ?_⟩
        simp only [List.forall_mem_append, List.forall_mem_cons, List.cons_append]
        exact ⟨hmarks.2.1, hmarks.1, hzero _, hkept⟩
  · refine ⟨by simp, ?_⟩
    simp only [List.forall_mem_append, List.forall_mem_cons]
    refine ⟨⟨⟨htake _, ?_⟩, hmarks.2.2.1, ?_, by simp⟩, fun c => isNotation_of_mem_toDigits⟩
    · split
      · simp
      · simp only [List.forall_mem_cons]
        exact ⟨hmarks.1, hdrop _⟩
    · split
      · exact hmarks.2.2.2.1
      · exact hmarks.2.2.2.2

theorem text_notation (x : Double) : x.text ≠ [] ∧ ∀ c ∈ x.text, isNotation c = true := by
  have hmagnitude : (if x.steps = 0 then ['0', '.', '0'] else (shortest x.steps).text) ≠ [] ∧
      ∀ c ∈ (if x.steps = 0 then ['0', '.', '0'] else (shortest x.steps).text),
        isNotation c = true := by
    split
    · exact ⟨by simp, by simp [isNotation]⟩
    · exact Decimal.text_notation _
  simp only [Double.text]
  split
  · exact ⟨by simp, List.forall_mem_cons.mpr ⟨rfl, hmagnitude.2⟩⟩
  · exact hmagnitude

theorem newline_not_mem_text (x : Double) : '\n' ∉ x.text := by
  intro hmem
  exact absurd (x.text_notation.2 _ hmem) (by decide)

end Double

namespace Json

theorem newline_not_mem_writeInteger (n : Int) : '\n' ∉ writeInteger n := by
  simp only [writeInteger]
  split <;> simp [newline_not_mem_toDigits]

theorem newline_ne_digitChar : ∀ n < 16, '\n' ≠ n.digitChar := by decide

theorem newline_not_mem_escapeChar (c : Char) : '\n' ∉ escapeChar c := by
  unfold escapeChar
  split <;> try simp
  next hne _ _ =>
    split
    next hcontrol =>
      have hhigh := newline_ne_digitChar (c.toNat / 16) (by omega)
      have hlow := newline_ne_digitChar (c.toNat % 16) (by omega)
      simp [hhigh, hlow]
    next => simp [Ne.symm hne]

theorem newline_not_mem_writeText (text : String) : '\n' ∉ writeText text := by
  have hchars : '\n' ∉ text.toList.flatMap escapeChar := by
    intro hmem
    obtain ⟨c, -, hc⟩ := List.mem_flatMap.mp hmem
    exact newline_not_mem_escapeChar c hc
  simp [writeText, hchars]

/-! ## Values -/

@[simp] theorem Style.compact_gap (depth : Nat) : Style.compact.gap depth = [] := rfl

@[simp] theorem Style.compact_afterColon : Style.compact.afterColon = [] := rfl

mutual

theorem newline_not_mem_write (depth : Nat) : (json : Json) → '\n' ∉ write .compact depth json
  | .null => by simp [write]
  | .boolean true => by simp [write]
  | .boolean false => by simp [write]
  | .integer n => by simpa [write] using newline_not_mem_writeInteger n
  | .float x => by simpa [write] using x.newline_not_mem_text
  | .text s => by simpa [write] using newline_not_mem_writeText s
  | .array [] => by simp [write]
  | .array (item :: rest) => by
    have hitem := newline_not_mem_write (depth + 1) item
    have hrest := newline_not_mem_writeItems (depth + 1) rest
    simp [write, hitem, hrest]
  | .object [] => by simp [write]
  | .object ((key, value) :: rest) => by
    have hkey := newline_not_mem_writeText key
    have hvalue := newline_not_mem_write (depth + 1) value
    have hrest := newline_not_mem_writeMembers (depth + 1) rest
    simp [write, hkey, hvalue, hrest]

theorem newline_not_mem_writeItems (depth : Nat) :
    (items : List Json) → '\n' ∉ writeItems .compact depth items
  | [] => by simp [writeItems]
  | item :: rest => by
    have hitem := newline_not_mem_write depth item
    have hrest := newline_not_mem_writeItems depth rest
    simp [writeItems, hitem, hrest]

theorem newline_not_mem_writeMembers (depth : Nat) :
    (members : List (String × Json)) → '\n' ∉ writeMembers .compact depth members
  | [] => by simp [writeMembers]
  | (key, value) :: rest => by
    have hkey := newline_not_mem_writeText key
    have hvalue := newline_not_mem_write depth value
    have hrest := newline_not_mem_writeMembers depth rest
    simp [writeMembers, hkey, hvalue, hrest]

end

/-- A value written in compact style holds no line end. -/
theorem newline_not_mem_compact (json : Json) : '\n' ∉ json.compact.toList := by
  rw [compact, String.toList_ofList]
  exact newline_not_mem_write 0 json

end Json

end DecompilerDesk
