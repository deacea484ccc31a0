-- SUMMARY: Addresses as a user types them and as they are written.
import DecompilerDesk.Failure
import DecompilerDesk.Text.Blank

/-!
# Addresses

An address is a 64-bit word. A user may type it in decimal, or in hexadecimal with or without a
`0x` in front; it is always written in hexadecimal with one.
-/

namespace DecompilerDesk

abbrev Address := UInt64

namespace Address

/-- The value of a digit in a base of at most sixteen. -/
def digit? (base : Nat) (c : Char) : Option Nat :=
  let value : Option Nat :=
    if '0' ≤ c ∧ c ≤ '9' then some (c.toNat - '0'.toNat)
    else if 'a' ≤ c ∧ c ≤ 'f' then some (c.toNat - 'a'.toNat + 10)
    else if 'A' ≤ c ∧ c ≤ 'F' then some (c.toNat - 'A'.toNat + 10)
    else none
  value.filter (· < base)

/-- The number that digits stand for, all of which have to be digits of the base. -/
def magnitude? (base : Nat) (digits : List Char) : Option Nat :=
  digits.foldlM (fun n c => (digit? base c).map (base * n + ·)) 0

/-- The number that a text says in a base: at least one digit, behind a plus sign perhaps. -/
def number? (base : Nat) (text : List Char) : Option Nat :=
  let digits := match text with
    | '+' :: rest => rest
    | text => text
  if digits.isEmpty then none else magnitude? base digits

/-- The word that a text says in a base. -/
def word? (base : Nat) (text : List Char) : Option Address :=
  (number? base text).bind fun n => if n < UInt64.size then some (UInt64.ofNat n) else none

/-- The text without the mark that announces hexadecimal digits. -/
def withoutMark : List Char → List Char
  | '0' :: 'x' :: rest => rest
  | '0' :: 'X' :: rest => rest
  | text => text

def ofChars? (text : List Char) : Option Address :=
  let text := Text.trim text
  word? 10 text <|> word? 16 (withoutMark text)

/-- The address a user typed. Blanks around it do not count, and what reads as a decimal number that
fits is one. -/
def parse (input : String) : Except Failure Address :=
  match ofChars? input.toList with
  | some address => .ok address
  | none => .error (.badAddress input)

/-- The address in lower-case hexadecimal behind `0x`, with no leading zeros. -/
def text (address : Address) : String :=
  String.ofList ('0' :: 'x' :: Nat.toDigits 16 address.toNat)

end Address

end DecompilerDesk
