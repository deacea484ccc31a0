-- SUMMARY: The quoted form in which messages show a text.
import DecompilerDesk.Text.Hidden

/-!
# Quoted text

A message shows a text it was given between double quotes, so that blanks and controls can be seen.
-/

namespace DecompilerDesk.Text

def quotedChar (c : Char) : List Char :=
  match c with
  | '"' => ['\\', '"']
  | '\\' => ['\\', '\\']
  | '\n' => ['\\', 'n']
  | '\r' => ['\\', 'r']
  | '\t' => ['\\', 't']
  | '\x00' => ['\\', '0']
  | c => if isHidden c then ['\\', 'u', '\x7b'] ++ Nat.toDigits 16 c.toNat ++ ['\x7d'] else [c]

/-- The text between quotes. Quotes and backslashes are escaped, line ends and tabs shown by letter,
and hidden characters by code point. -/
def quoted (text : String) : String :=
  String.ofList ('"' :: text.toList.flatMap quotedChar ++ ['"'])

end DecompilerDesk.Text
