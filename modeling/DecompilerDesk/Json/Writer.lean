-- SUMMARY: Writing JSON values as text, compact or indented.
import DecompilerDesk.Json.Value
import DecompilerDesk.Number.Shortest

/-!
# Writing JSON

One writer serves every style. A style says what is put before each item of an array or object at a
given depth and what follows the colon; both are blanks, so all styles write the same value.
-/

namespace DecompilerDesk.Json

structure Style where
  /-- Put before an item, and before a closing bracket, at a depth. -/
  gap : Nat → List Char
  /-- Put after a colon. -/
  afterColon : List Char

def Style.compact : Style := ⟨fun _ => [], []⟩

/-- A line for each item, two spaces of indent for each level. -/
def Style.indented : Style := ⟨fun depth => '\n' :: List.replicate (2 * depth) ' ', [' ']⟩

/-! ## Texts and numbers -/

/-- A character as it stands inside a JSON text. Quotes, backslashes and controls are escaped, and
all else stands for itself. -/
def escapeChar (c : Char) : List Char :=
  match c with
  | '"' => ['\\', '"']
  | '\\' => ['\\', '\\']
  | '\x08' => ['\\', 'b']
  | '\x0c' => ['\\', 'f']
  | '\n' => ['\\', 'n']
  | '\r' => ['\\', 'r']
  | '\t' => ['\\', 't']
  | c =>
    if c.toNat < 0x20 then
      ['\\', 'u', '0', '0', Nat.digitChar (c.toNat / 16), Nat.digitChar (c.toNat % 16)]
    else [c]

def writeText (text : String) : List Char :=
  '"' :: text.toList.flatMap escapeChar ++ ['"']

def writeInteger (n : Int) : List Char :=
  if n < 0 then '-' :: Nat.toDigits 10 n.natAbs else Nat.toDigits 10 n.natAbs

/-! ## Values -/

mutual

def write (style : Style) (depth : Nat) : Json → List Char
  | .null => ['n', 'u', 'l', 'l']
  | .boolean true => ['t', 'r', 'u', 'e']
  | .boolean false => ['f', 'a', 'l', 's', 'e']
  | .integer n => writeInteger n
  | .float x => x.text
  | .text s => writeText s
  | .array [] => ['[', ']']
  | .array (item :: rest) =>
    '[' :: style.gap (depth + 1) ++ write style (depth + 1) item
      ++ writeItems style (depth + 1) rest ++ style.gap depth ++ [']']
  | .object [] => ['\x7b', '\x7d']
  | .object ((key, value) :: rest) =>
    '\x7b' :: style.gap (depth + 1) ++ writeText key ++ ':' :: style.afterColon
      ++ write style (depth + 1) value
      ++ writeMembers style (depth + 1) rest ++ style.gap depth ++ ['\x7d']

/-- The items after the first, each behind a comma. -/
def writeItems (style : Style) (depth : Nat) : List Json → List Char
  | [] => []
  | item :: rest => ',' :: style.gap depth ++ write style depth item ++ writeItems style depth rest

/-- The members after the first, each behind a comma. -/
def writeMembers (style : Style) (depth : Nat) : List (String × Json) → List Char
  | [] => []
  | (key, value) :: rest =>
    ',' :: style.gap depth ++ writeText key ++ ':' :: style.afterColon ++ write style depth value
      ++ writeMembers style depth rest

end

/-- The value on one line, with no blanks. -/
def compact (value : Json) : String := String.ofList (write .compact 0 value)

/-- The value with a line for each item. -/
def pretty (value : Json) : String := String.ofList (write .indented 0 value)

end DecompilerDesk.Json
