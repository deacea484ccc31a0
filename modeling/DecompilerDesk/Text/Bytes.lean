-- SUMMARY: Byte strings and their reading as UTF-8, strict and lossy.

/-!
# Byte strings

Files, paths and pipes carry bytes. A text is written as its UTF-8 bytes; bytes are read back either
strictly (`Bytes.text?`, nothing unless the whole is well formed) or for display (`Bytes.display`,
which puts U+FFFD for each ill-formed part).
-/

namespace DecompilerDesk

abbrev Bytes := List UInt8

namespace Bytes

/-- The UTF-8 bytes of a text. -/
def ofText (text : String) : Bytes :=
  text.toList.flatMap String.utf8EncodeChar

/-- The text these bytes are the UTF-8 form of. -/
def text? (bytes : Bytes) : Option String :=
  String.fromUTF8? bytes.toByteArray

theorem toByteArray_ofText (text : String) : (ofText text).toByteArray = text.toByteArray := by
  rw [ofText, ← List.utf8Encode, ← String.toByteArray_ofList, String.ofList_toList]

@[simp] theorem text?_ofText (text : String) : (ofText text).text? = some text := by
  simp only [text?, String.fromUTF8?, toByteArray_ofText]
  rw [dif_pos text.isValidUTF8]
  rfl

/-! ## Display -/

/-- What a first byte above 0x7F asks of the bytes that continue its character: their number, and
the range of the first of them. -/
def continuation? (first : UInt8) : Option (Nat × UInt8 × UInt8) :=
  if first < 0xC2 then none
  else if first < 0xE0 then some (1, 0x80, 0xBF)
  else if first = 0xE0 then some (2, 0xA0, 0xBF)
  else if first = 0xED then some (2, 0x80, 0x9F)
  else if first < 0xF0 then some (2, 0x80, 0xBF)
  else if first = 0xF0 then some (3, 0x90, 0xBF)
  else if first < 0xF4 then some (3, 0x80, 0xBF)
  else if first = 0xF4 then some (3, 0x80, 0x8F)
  else none

/-- How many of the next bytes continue a character that still owes `owed` of them, when the first
of them has to lie between `low` and `high`. -/
def continued : (owed : Nat) → (low high : UInt8) → Bytes → Nat
  | owed + 1, low, high, byte :: rest =>
    if low ≤ byte ∧ byte ≤ high then continued owed 0x80 0xBF rest + 1 else 0
  | _, _, _, _ => 0

/-- The code point a first byte and its `tail` stand for. -/
def codePoint (first : UInt8) (tail : Bytes) : Nat :=
  tail.foldl (fun point byte => point * 64 + (byte.toNat - 0x80)) (first.toNat % Nat.pow 2 (6 - tail.length))

def displayChars : Bytes → List Char
  | [] => []
  | first :: rest =>
    if first < 0x80 then Char.ofNat first.toNat :: displayChars rest
    else
      match continuation? first with
      | none => '\uFFFD' :: displayChars rest
      | some (owed, low, high) =>
        let found := continued owed low high rest
        (if found = owed then Char.ofNat (codePoint first (rest.take found)) else '\uFFFD')
          :: displayChars (rest.drop found)
termination_by bytes => bytes.length
decreasing_by all_goals simp +arith

/-- The bytes as a text to show. Each longest part that only begins a character, and each byte that
begins none, is shown as U+FFFD. -/
def display (bytes : Bytes) : String :=
  String.ofList (displayChars bytes)

end Bytes

end DecompilerDesk
