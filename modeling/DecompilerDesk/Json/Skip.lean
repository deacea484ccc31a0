-- SUMMARY: Skipping a JSON value that nobody asked for.
import DecompilerDesk.Json.Number
import DecompilerDesk.Json.Text

/-!
# Skipping values

The value of an unknown key is skipped with a stack of open brackets, so it may be nested to any
depth. Its numbers have no range and its escapes are checked for form alone.
-/

namespace DecompilerDesk.Json

inductive Bracket where
  | square
  | curly
  deriving DecidableEq, Repr

namespace Bracket

def ofOpening? : Char → Option Bracket
  | '[' => some .square
  | '\x7b' => some .curly
  | _ => none

def closing : Bracket → Char
  | .square => ']'
  | .curly => '\x7d'

def unclosed : Bracket → Malformed
  | .square => .endInArray
  | .curly => .endInObject

def noSeparator : Bracket → Malformed
  | .square => .noArraySeparator
  | .curly => .noObjectSeparator

end Bracket

/-! ## Scalars -/

def skipEscape : Reader Unit := fun c =>
  match h : c.rest with
  | [] => .error (c.stopHere .endInText)
  | 'u' :: _ => do
    let unit ← readCodeUnit (c.eat h).next
    .ok ((c.eat h).andThen (unit.map fun _ => ()).passed)
  | letter :: _ =>
    if (escaped? letter).isSome then .ok (c.eat h) else .error (c.stopAhead .badEscape)

def skipTextFrom (origin : Cursor) (c : Cursor) (within : c.left ≤ origin.left) :
    Except Stop (Consumed Unit origin) :=
  match h : c.rest with
  | [] => .error (c.stopHere .endInText)
  | '"' :: _ => .ok ((c.eat h).since within)
  | '\\' :: _ => do
    let escape ← skipEscape (c.eat h).next
    skipTextFrom origin escape.next
      (Nat.le_trans (Nat.le_of_lt escape.shorter) (Cursor.left_eat_le h within))
  | ch :: _ =>
    if ch.toNat < 0x20 then .error (c.stopHere .rawControl)
    else skipTextFrom origin (c.eat h).next (Cursor.left_eat_le h within)
termination_by c.left
decreasing_by
  · exact Nat.lt_trans escape.shorter (c.eat h).shorter
  · exact (c.eat h).shorter

/-- Skip a text behind its opening quote. -/
def skipText : Reader Unit := fun c => skipTextFrom c c c.left_le

def skipScalar : Reader Unit := fun c =>
  let word {ch : Char} {rest : List Char} (h : c.rest = ch :: rest) (letters : List Char) := do
    let word ← (c.eat h).next.eatLetters letters
    .ok ((c.eat h).andThen word)
  match h : c.rest with
  | 'n' :: _ => word h ['u', 'l', 'l']
  | 't' :: _ => word h ['r', 'u', 'e']
  | 'f' :: _ => word h ['a', 'l', 's', 'e']
  | '"' :: _ => do
    let text ← skipText (c.eat h).next
    .ok ((c.eat h).andThen text.passed)
  | '-' :: _ => do
    let numeral ← readNumeral .badNumber true (c.eat h).next
    .ok ((c.eat h).andThen (numeral.map fun _ => ()).passed)
  | ch :: _ =>
    if ch.isDigit then (readNumeral .badNumber false c).map (·.map fun _ => ())
    else .error (c.stopAhead .noValue)
  | [] => .error (c.stopAhead .endInValue)

/-! ## Values -/

/-- Behind an item, or behind an opening bracket when `comma` is false: close brackets until one of
them goes on. Gives the brackets that are open then. -/
def skipClosing (comma : Bool) : (unclosed : List Bracket) → (c : Cursor) →
    Except Stop (Passed (List Bracket) c)
  | [], c => .ok (.stay [] c)
  | bracket :: outer, c =>
    let d := c.skipGap
    match h : d.rest with
    | [] => .error (d.stopAhead bracket.unclosed)
    | ch :: _ =>
      if ch = ',' ∧ comma then
        .ok (((d.eat h).map fun _ => bracket :: outer).passed.since c.left_skipGap)
      else if ch = bracket.closing then do
        let more ← skipClosing true outer (d.eat h).next
        .ok (((d.eat h).andThen more).passed.since c.left_skipGap)
      else if comma then .error (d.stopAhead bracket.noSeparator)
      else .ok ⟨bracket :: outer, d, c.left_skipGap⟩

/-- Skip a key and its colon. -/
def skipKey : Reader Unit := fun c =>
  let d := c.skipGap
  match h : d.rest with
  | '"' :: _ => do
    let key ← skipText (d.eat h).next
    let e := key.next.skipGap
    have within : e.left ≤ c.left := by
      have : e.left ≤ key.next.left := key.next.left_skipGap
      have : d.left ≤ c.left := c.left_skipGap
      have := key.shorter; have := (d.eat h).shorter
      omega
    match h' : e.rest with
    | ':' :: _ => .ok ((e.eat h').since within)
    | _ => .error (e.stopAheadOr .endInObject .noColon)
  | _ => .error (d.stopAheadOr .endInObject .keyNotText)

/-- Skip a value inside the brackets that are open, and all that follows up to the last of them. -/
def skipFrom (origin : Cursor) (unclosed : List Bracket) (c : Cursor)
    (within : c.left ≤ origin.left) : Except Stop (Consumed Unit origin) := do
  let d := c.skipGap
  let after : Consumed (List Bracket) c ←
    match h : d.rest with
    | [] => .error (d.stopAhead .endInValue)
    | ch :: _ =>
      match Bracket.ofOpening? ch with
      | some bracket => do
        let more ← skipClosing false (bracket :: unclosed) (d.eat h).next
        .ok (((d.eat h).andThen more).since c.left_skipGap)
      | none => do
        let scalar ← skipScalar d
        let more ← skipClosing true unclosed scalar.next
        .ok ((scalar.andThen more).since c.left_skipGap)
  match after.value with
  | [] => .ok ⟨(), after.next, Nat.lt_of_lt_of_le after.shorter within⟩
  | .square :: _ =>
    skipFrom origin after.value after.next (by have := after.shorter; omega)
  | .curly :: _ =>
    let key ← skipKey after.next
    skipFrom origin after.value key.next
      (by have := key.shorter; have := after.shorter; omega)
termination_by c.left
decreasing_by
  · exact after.shorter
  · have := key.shorter; have := after.shorter; omega

/-- Skip a value. -/
def skipValue : Reader Unit := fun c => skipFrom c [] c c.left_le

end DecompilerDesk.Json
