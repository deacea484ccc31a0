-- SUMMARY: Reading the texts inside a JSON document.
import DecompilerDesk.Json.Cursor

/-!
# Reading texts

`readText` reads a text behind its opening quote. An escape by number names a UTF-16 code unit, so a
character beyond the basic plane takes two of them, and half of one is refused.
-/

namespace DecompilerDesk.Json

/-- The character that an escape by letter stands for. -/
def escaped? : Char → Option Char
  | '"' => some '"'
  | '\\' => some '\\'
  | '/' => some '/'
  | 'b' => some '\x08'
  | 'f' => some '\x0c'
  | 'n' => some '\n'
  | 'r' => some '\r'
  | 't' => some '\t'
  | _ => none

def hexDigit? (c : Char) : Option Nat :=
  if '0' ≤ c ∧ c ≤ '9' then some (c.toNat - '0'.toNat)
  else if 'a' ≤ c ∧ c ≤ 'f' then some (c.toNat - 'a'.toNat + 10)
  else if 'A' ≤ c ∧ c ≤ 'F' then some (c.toNat - 'A'.toNat + 10)
  else none

def hexValue? (digits : List Char) : Option Nat :=
  digits.foldlM (fun n c => (hexDigit? c).map (16 * n + ·)) 0

/-- Read four hexadecimal digits. -/
def readCodeUnit : Reader Nat := fun c =>
  match h : c.rest with
  | c₁ :: c₂ :: c₃ :: c₄ :: rest =>
    match hexValue? [c₁, c₂, c₃, c₄] with
    | some unit => .ok ⟨unit, ⟨c₄ :: c₃ :: c₂ :: c₁ :: c.before, rest⟩, by simp +arith [Cursor.left, h]⟩
    | none => .error (.placed (.malformed .badEscape) (c.placeAhead 4))
  | few =>
    if few.foldl (fun size c => size + c.utf8Size) 0 < 4 then .error (.placed (.malformed .endInText) c.endPlace)
    else .error (.placed (.malformed .badEscape) (c.placeAhead 4))

def isLeadingSurrogate (unit : Nat) : Bool := 0xD800 ≤ unit && unit ≤ 0xDBFF

def isTrailingSurrogate (unit : Nat) : Bool := 0xDC00 ≤ unit && unit ≤ 0xDFFF

/-- The character of a leading and a trailing surrogate. -/
def surrogatePair (leading trailing : Nat) : Char :=
  Char.ofNat ((leading - 0xD800) * 0x400 + (trailing - 0xDC00) + 0x10000)

/-- Read the trailing half of a surrogate pair, an escape of its own. -/
def readTrailingSurrogate : Reader Nat := fun c =>
  match h : c.rest with
  | [] => .error (c.stopHere .endInText)
  | '\\' :: [] => .error ((c.eat h).next.stopHere .endInText)
  | '\\' :: 'u' :: rest => do
    let unit ← readCodeUnit ⟨'u' :: '\\' :: c.before, rest⟩
    if isTrailingSurrogate unit.value then
      .ok (unit.since (by simp +arith [Cursor.left, h]))
    else .error (unit.next.stopHere .loneSurrogate)
  | '\\' :: _ :: _ => .error ((c.eat h).next.stopAhead .unpairedSurrogate)
  | _ :: _ => .error (c.stopAhead .unpairedSurrogate)

/-- Read the digits of an escape by number. -/
def readNumbered : Reader Char := fun c => do
  let unit ← readCodeUnit c
  if isTrailingSurrogate unit.value then .error (unit.next.stopHere .loneSurrogate)
  else if isLeadingSurrogate unit.value then
    let trailing ← readTrailingSurrogate unit.next
    .ok (unit.andThen (trailing.map (surrogatePair unit.value)).passed)
  else .ok (unit.map Char.ofNat)

/-- Read an escape behind its backslash. -/
def readEscape : Reader Char := fun c =>
  match h : c.rest with
  | [] => .error (c.stopHere .endInText)
  | 'u' :: _ => do
    let escape ← readNumbered (c.eat h).next
    .ok ((c.eat h).andThen escape.passed)
  | letter :: _ =>
    match escaped? letter with
    | some char => .ok ((c.eat h).map fun _ => char)
    | none => .error (c.stopAhead .badEscape)

/-- Read up to the closing quote. `chars` holds what was read before, the latest first. -/
def readTextFrom (origin : Cursor) (chars : List Char) (c : Cursor) (within : c.left ≤ origin.left) :
    Except Stop (Consumed String origin) :=
  match h : c.rest with
  | [] => .error (c.stopHere .endInText)
  | '"' :: _ => .ok (((c.eat h).map fun _ => String.ofList chars.reverse).since within)
  | '\\' :: _ => do
    let escape ← readEscape (c.eat h).next
    readTextFrom origin (escape.value :: chars) escape.next
      (Nat.le_trans (Nat.le_of_lt escape.shorter) (Cursor.left_eat_le h within))
  | ch :: _ =>
    if ch.toNat < 0x20 then .error (c.stopAhead .rawControl)
    else
      readTextFrom origin (ch :: chars) (c.eat h).next (Cursor.left_eat_le h within)
termination_by c.left
decreasing_by
  · exact Nat.lt_trans escape.shorter (c.eat h).shorter
  · exact (c.eat h).shorter

/-- Read a text behind its opening quote. -/
def readText : Reader String := fun c => readTextFrom c [] c c.left_le

end DecompilerDesk.Json
