-- SUMMARY: What can be wrong with a JSON text or value, and how it is said.
import DecompilerDesk.Number.Shortest
import DecompilerDesk.Text.Quoted

/-!
# Problems

A problem is either in the text (`Malformed`) or in what a well-formed value holds. `Problem.message`
words it; a place in the text, where there is one, is added by `Fault.message`.
-/

namespace DecompilerDesk.Json

/-- A place in a text: a line, counted from 1, and the bytes before the place on that line. -/
structure Place where
  line : Nat
  column : Nat
  deriving DecidableEq, Repr

/-- How a text fails to be JSON. -/
inductive Malformed where
  | endInArray
  | endInObject
  | endInText
  | endInValue
  | noColon
  | noArraySeparator
  | noObjectSeparator
  | badLiteral
  | noValue
  | badEscape
  | badNumber
  | numberTooLarge
  | rawControl
  | keyNotText
  | loneSurrogate
  | unpairedSurrogate
  | trailingComma
  | trailingText
  | tooDeep
  deriving DecidableEq, Repr

def Malformed.message : Malformed → String
  | .endInArray => "EOF while parsing a list"
  | .endInObject => "EOF while parsing an object"
  | .endInText => "EOF while parsing a string"
  | .endInValue => "EOF while parsing a value"
  | .noColon => "expected `:`"
  | .noArraySeparator => "expected `,` or `]`"
  | .noObjectSeparator => "expected `,` or `\x7d`"
  | .badLiteral => "expected ident"
  | .noValue => "expected value"
  | .badEscape => "invalid escape"
  | .badNumber => "invalid number"
  | .numberTooLarge => "number out of range"
  | .rawControl => "control character (\\u0000-\\u001F) found while parsing a string"
  | .keyNotText => "key must be a string"
  | .loneSurrogate => "lone leading surrogate in hex escape"
  | .unpairedSurrogate => "unexpected end of hex escape"
  | .trailingComma => "trailing comma"
  | .trailingText => "trailing characters"
  | .tooDeep => "recursion limit exceeded"

/-- What was found where something else was wanted. -/
inductive Found where
  | null
  | boolean (value : Bool)
  | integer (value : Int)
  | float (value : Double)
  | text (value : String)
  | array
  | object
  deriving DecidableEq, Repr

def Found.message : Found → String
  | .null => "null"
  | .boolean value => "boolean `" ++ (if value then "true" else "false") ++ "`"
  | .integer n => "integer `" ++ toString n ++ "`"
  | .float x => "floating point `" ++ String.ofList x.text ++ "`"
  | .text s => "string " ++ Text.quoted s
  | .array => "sequence"
  | .object => "map"

inductive Problem where
  | malformed (kind : Malformed)
  | wrongType (found : Found) (wanted : String)
  | wrongValue (found : Found) (wanted : String)
  | wrongLength (length : Nat) (wanted : String)
  | unknownVariant (name : String) (known : List String)
  | missingField (name : String)
  | duplicateField (name : String)
  /-- Well formed and of the right shape, but refused for the reason given. -/
  | refused (reason : String)
  deriving DecidableEq, Repr

def Problem.message : Problem → String
  | .malformed kind => kind.message
  | .wrongType found wanted => "invalid type: " ++ found.message ++ ", expected " ++ wanted
  | .wrongValue found wanted => "invalid value: " ++ found.message ++ ", expected " ++ wanted
  | .wrongLength length wanted => "invalid length " ++ toString length ++ ", expected " ++ wanted
  | .unknownVariant name known =>
    "unknown variant `" ++ name ++ "`, expected one of "
      ++ ", ".intercalate (known.map fun k => "`" ++ k ++ "`")
  | .missingField name => "missing field `" ++ name ++ "`"
  | .duplicateField name => "duplicate field `" ++ name ++ "`"
  | .refused reason => reason

/-- A problem and, where one is known, its place in the text. -/
structure Fault where
  problem : Problem
  place : Option Place
  deriving DecidableEq, Repr

def Fault.message (fault : Fault) : String :=
  match fault.place with
  | none => fault.problem.message
  | some place =>
    fault.problem.message ++ " at line " ++ toString place.line
      ++ " column " ++ toString place.column

end DecompilerDesk.Json
