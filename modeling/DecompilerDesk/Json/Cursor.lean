-- SUMMARY: A cursor in a JSON text, what reading from it gives, and the smallest readers.
import DecompilerDesk.Json.Problem

/-!
# Cursors and readers

A cursor splits a text into what has been read and what is left. A reader takes a cursor and stops
with a problem or gives a value and a later cursor; the proof that less is left comes with the
result, so every loop over a text ends because the text does.

A problem found by a reader is either *placed* at once, or *loose*: it is then placed by the
innermost scalar, array or object reader around it, at the cursor which that reader ends at.
-/

namespace DecompilerDesk.Json

/-- The place after a character. -/
def Place.after (c : Char) (place : Place) : Place :=
  if c = '\n' then ⟨place.line + 1, 0⟩ else ⟨place.line, place.column + c.utf8Size⟩

/-- The place `bytes` bytes into a text, or its end if it is shorter. -/
def Place.advance (place : Place) : List Char → (bytes : Nat) → Place
  | _, 0 => place
  | [], _ => place
  | c :: rest, bytes + 1 =>
    if c = '\n' then (place.after c).advance rest bytes
    else if c.utf8Size ≤ bytes + 1 then (place.after c).advance rest (bytes + 1 - c.utf8Size)
    else ⟨place.line, place.column + bytes + 1⟩

structure Cursor where
  /-- The characters read so far, the latest first. -/
  before : List Char
  rest : List Char
  deriving DecidableEq, Repr

namespace Cursor

def start (text : List Char) : Cursor := ⟨[], text⟩

def left (c : Cursor) : Nat := c.rest.length

theorem left_le (c : Cursor) : c.left ≤ c.left := Nat.le_refl _

/-- Read the characters in front that have a property. -/
def skipWhile (p : Char → Bool) (c : Cursor) : Cursor :=
  ⟨(c.rest.takeWhile p).reverse ++ c.before, c.rest.dropWhile p⟩

theorem left_skipWhile (p : Char → Bool) (c : Cursor) : (c.skipWhile p).left ≤ c.left :=
  (List.dropWhile_sublist p).length_le

/-- The blanks allowed between the tokens of a JSON text. -/
def isGap (c : Char) : Bool :=
  c = ' ' || c = '\n' || c = '\t' || c = '\r'

def skipGap (c : Cursor) : Cursor := c.skipWhile isGap

theorem left_skipGap (c : Cursor) : c.skipGap.left ≤ c.left := left_skipWhile isGap c

/-! ## Places -/

/-- The place of the cursor. -/
def place (c : Cursor) : Place := c.before.foldr Place.after ⟨1, 0⟩

/-- The place some bytes ahead of the cursor. -/
def placeAhead (c : Cursor) (bytes : Nat) : Place := c.place.advance c.rest bytes

/-- The place of the end of the text. -/
def endPlace (c : Cursor) : Place := place ⟨c.rest.reverse ++ c.before, []⟩

end Cursor

/-! ## Stops -/

inductive Stop where
  | placed (problem : Problem) (place : Place)
  | loose (problem : Problem) (cursor : Cursor)
  deriving DecidableEq, Repr

namespace Stop

def fault : Stop → Fault
  | .placed problem place => ⟨problem, some place⟩
  | .loose problem _ => ⟨problem, none⟩

end Stop

namespace Cursor

/-- Stop at the cursor. -/
def stopHere (c : Cursor) (kind : Malformed) : Stop := .placed (.malformed kind) c.place

/-- Stop at the next character, which is shown by the place after its first byte. -/
def stopAhead (c : Cursor) (kind : Malformed) : Stop := .placed (.malformed kind) (c.placeAhead 1)

/-- Stop at the next character, or with another problem where the text ends. -/
def stopAheadOr (c : Cursor) (atEnd other : Malformed) : Stop :=
  c.stopAhead (if c.rest.isEmpty then atEnd else other)

end Cursor

/-! ## Readers -/

/-- A value read from a cursor, and the later cursor at which its text ends. -/
structure Consumed (α : Type) (c : Cursor) where
  value : α
  next : Cursor
  shorter : next.left < c.left

abbrev Reader (α : Type) : Type := (c : Cursor) → Except Stop (Consumed α c)

/-- A value read from a cursor by a reader that may leave the cursor where it is. -/
structure Passed (α : Type) (c : Cursor) where
  value : α
  next : Cursor
  notLonger : next.left ≤ c.left

namespace Passed

def stay (value : α) (c : Cursor) : Passed α c := ⟨value, c, c.left_le⟩

def map {c : Cursor} (f : α → β) (r : Passed α c) : Passed β c := ⟨f r.value, r.next, r.notLonger⟩

/-- What was read from a later cursor was read from an earlier one. -/
def since {c d : Cursor} (r : Passed α d) (h : d.left ≤ c.left) : Passed α c :=
  ⟨r.value, r.next, Nat.le_trans r.notLonger h⟩

end Passed

namespace Consumed

def map {c : Cursor} (f : α → β) (r : Consumed α c) : Consumed β c := ⟨f r.value, r.next, r.shorter⟩

/-- What was read from a later cursor was read from an earlier one. -/
def since {c d : Cursor} (r : Consumed α d) (h : d.left ≤ c.left) : Consumed α c :=
  ⟨r.value, r.next, Nat.lt_of_lt_of_le r.shorter h⟩

def passed {c : Cursor} (r : Consumed α c) : Passed α c :=
  ⟨r.value, r.next, Nat.le_of_lt r.shorter⟩

/-- What was read from where another reading ended. -/
def andThen {c : Cursor} (r : Consumed α c) (s : Passed β r.next) : Consumed β c :=
  ⟨s.value, s.next, Nat.lt_of_le_of_lt s.notLonger r.shorter⟩

end Consumed

namespace Cursor

/-- Read one character, which is known to be next. -/
def eat (c : Cursor) {ch : Char} {rest : List Char} (h : c.rest = ch :: rest) : Consumed Unit c :=
  ⟨(), ⟨ch :: c.before, rest⟩, by simp [left, h]⟩

theorem left_eat_le {origin c : Cursor} {ch : Char} {rest : List Char} (h : c.rest = ch :: rest)
    (within : c.left ≤ origin.left) : (c.eat h).next.left ≤ origin.left :=
  Nat.le_trans (Nat.le_of_lt (c.eat h).shorter) within

/-- Read the letters of a word one by one. -/
def eatLetters (c : Cursor) : List Char → Except Stop (Passed Unit c)
  | [] => .ok (.stay () c)
  | letter :: letters =>
    match h : c.rest with
    | [] => .error (c.stopHere .endInValue)
    | ch :: _ =>
      if ch = letter then do
        let word ← eatLetters (c.eat h).next letters
        .ok ((c.eat h).andThen word).passed
      else .error (c.stopAhead .badLiteral)

end Cursor

end DecompilerDesk.Json
