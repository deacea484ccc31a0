-- SUMMARY: Reading the numbers inside a JSON document.
import DecompilerDesk.Json.Cursor

/-!
# Reading numbers

A numeral is read as its digits first (`readNumeral`) and valued afterwards (`Numeral.value`). An
integer that fits 64 bits, signed or unsigned, is exact. Any other numeral is a double: its first
digits that fit 64 bits are scaled by a power of ten, and the digits after them only count.
-/

namespace DecompilerDesk.Json

structure Exponent where
  negative : Bool
  digits : List Char

/-- A number as it is written: the digits before the point, those behind it, and the exponent. -/
structure Numeral where
  negative : Bool
  whole : List Char
  fraction : List Char
  exponent : Option Exponent

inductive Number where
  | integer (value : Int)
  | float (value : Double)

/-! ## The value of a numeral -/

/-- Append decimal digits to a number while it stays below a limit; the digits that were not
appended remain. -/
def appendDigits (limit : Nat) (n : Nat) : List Char → Nat × List Char
  | [] => (n, [])
  | digit :: rest =>
    let next := 10 * n + (digit.toNat - '0'.toNat)
    if next < limit then appendDigits limit next rest else (n, digit :: rest)

/-- The exact integer, where the digits say one that fits. Zero with a minus sign is none. -/
def integer? (negative : Bool) (magnitude : Nat) : Option Int :=
  if !negative then some magnitude
  else if 0 < magnitude ∧ magnitude ≤ 0x8000000000000000 then some (-magnitude)
  else none

/-- The largest exponent that is worked out. -/
def exponentLimit : Nat := 0x80000000

/-- The value, or how many of the exponent's digits are left behind the one that makes the number
too large. -/
def Numeral.value (numeral : Numeral) : Except Nat Number :=
  let (magnitude, dropped) := appendDigits UInt64.size 0 numeral.whole
  let (significand, ignored) := appendDigits UInt64.size magnitude numeral.fraction
  let scale : Int := dropped.length - (numeral.fraction.length - ignored.length : Nat)
  let float (exponent : Int) : Except Nat Number :=
    match Double.ofScaled? numeral.negative significand exponent with
    | some x => .ok (.float x)
    | none => .error 0
  match numeral.exponent with
  | some exponent =>
    match appendDigits exponentLimit 0 exponent.digits with
    | (n, []) => float (if exponent.negative then scale - n else scale + n)
    | (_, unread) =>
      if significand = 0 ∨ exponent.negative then .ok (.float (Double.zero numeral.negative))
      else .error (unread.length - 1)
  | none =>
    if dropped.isEmpty && numeral.fraction.isEmpty then
      match integer? numeral.negative magnitude with
      | some n => .ok (.integer n)
      | none => float 0
    else float scale

/-! ## Reading -/

/-- Read digits, none perhaps. -/
def readDigits (c : Cursor) : Passed (List Char) c :=
  ⟨c.rest.takeWhile Char.isDigit, c.skipWhile Char.isDigit, Cursor.left_skipWhile _ _⟩

/-- Read the digits before the point. A zero stands alone. `atEnd` is what is wrong with a text that
ends here. -/
def readWhole (atEnd : Malformed) : Reader (List Char) := fun c =>
  match h : c.rest with
  | [] => .error (c.stopHere atEnd)
  | '0' :: rest =>
    if rest.head?.any Char.isDigit then .error ((c.eat h).next.stopAhead .badNumber)
    else .ok ((c.eat h).map fun _ => ['0'])
  | digit :: _ =>
    if digit.isDigit then .ok ((c.eat h).andThen ((readDigits (c.eat h).next).map (digit :: ·)))
    else .error (c.stopAhead .badNumber)

/-- Read a point and the digits behind it, if a point is next. -/
def readFraction (atEnd : Malformed) (c : Cursor) : Except Stop (Passed (List Char) c) :=
  match h : c.rest with
  | '.' :: _ =>
    let digits := readDigits (c.eat h).next
    if digits.value.isEmpty then .error ((c.eat h).next.stopAheadOr atEnd .badNumber)
    else .ok ((c.eat h).andThen digits).passed
  | _ => .ok (.stay [] c)

/-- Read the sign of an exponent; true for a minus. -/
def readExponentSign (c : Cursor) : Passed Bool c :=
  match h : c.rest with
  | '+' :: _ => ((c.eat h).map fun _ => false).passed
  | '-' :: _ => ((c.eat h).map fun _ => true).passed
  | _ => .stay false c

/-- Read an exponent behind its letter. -/
def readExponentBody (atEnd : Malformed) (c : Cursor) : Except Stop (Passed Exponent c) :=
  let sign := readExponentSign c
  let digits := readDigits sign.next
  if digits.value.isEmpty then .error (sign.next.stopAheadOr atEnd .badNumber)
  else .ok ((digits.map fun digits => ⟨sign.value, digits⟩).since sign.notLonger)

/-- Read an exponent, if its letter is next. -/
def readExponent (atEnd : Malformed) (c : Cursor) : Except Stop (Passed (Option Exponent) c) :=
  match h : c.rest with
  | letter :: _ =>
    if letter = 'e' ∨ letter = 'E' then do
      let exponent ← readExponentBody atEnd (c.eat h).next
      .ok ((c.eat h).andThen (exponent.map some)).passed
    else .ok (.stay none c)
  | [] => .ok (.stay none c)

/-- Read a numeral behind its sign. -/
def readNumeral (atEnd : Malformed) (negative : Bool) : Reader Numeral := fun c => do
  let whole ← readWhole atEnd c
  let fraction ← readFraction atEnd whole.next
  let exponent ← readExponent atEnd fraction.next
  .ok (whole.andThen
    ((exponent.map fun e => ⟨negative, whole.value, fraction.value, e⟩).since fraction.notLonger))

/-- Read a number behind its sign. -/
def readNumber (negative : Bool) : Reader Number := fun c => do
  let numeral ← readNumeral .endInValue negative c
  match numeral.value.value with
  | .ok number => .ok (numeral.map fun _ => number)
  | .error behind =>
    let next := numeral.next
    .error (Cursor.stopHere ⟨next.before.drop behind, next.rest⟩ .numberTooLarge)

end DecompilerDesk.Json
