-- SUMMARY: Codecs: one description of how a type is written as JSON and read back.
import DecompilerDesk.Json.Reader
import DecompilerDesk.Json.Writer

/-!
# Codecs

A codec writes the values of a type as JSON and reads them back in two ways: from a JSON value
(`ofJson`), and from a text without building the value first (`reader`), so that problems are placed
in the text and the first one in the text is reported.
-/

namespace DecompilerDesk.Json

structure Codec (α : Type) where
  toJson : α → Json
  ofJson : Json → Except Problem α
  /-- Read a value whose brackets nest no deeper than a given depth. -/
  reader : (depth : Nat) → Reader α

namespace Codec

/-- The value that a text writes. -/
def parse (codec : Codec α) (text : String) : Except Fault α :=
  readDocument (codec.reader maxDepth) text.toList

def compact (codec : Codec α) (value : α) : String := (codec.toJson value).compact

def pretty (codec : Codec α) (value : α) : String := (codec.toJson value).pretty

/-! ## Scalars -/

/-- Read a scalar that a type accepts. `wanted` names what is wanted in place of a bracket. -/
def scalarReader (wanted : String) (accept : Json → Except Problem α) : Reader α := fun c =>
  let d := c.skipGap
  match d.rest with
  | '[' :: _ => .error (refuse wanted d)
  | '\x7b' :: _ => .error (refuse wanted d)
  | _ => do
    let scalar ← readScalar d
    match accept scalar.value with
    | .ok value => .ok ((scalar.map fun _ => value).since c.left_skipGap)
    | .error problem => .error (.placed problem scalar.next.place)

def scalar (wanted : String) (toJson : α → Json) (accept : Json → Except Problem α) : Codec α where
  toJson := toJson
  ofJson := accept
  reader _ := scalarReader wanted accept

/-- Whole numbers from zero up to a bound. -/
def natural (wanted : String) (bound : Nat) (ofNat : Nat → α) (toNat : α → Nat) : Codec α :=
  scalar wanted (fun value => .integer (toNat value)) fun
    | .integer n =>
      if 0 ≤ n ∧ n < bound then .ok (ofNat n.toNat) else .error (.wrongValue (.integer n) wanted)
    | value => .error (.wrongType value.found wanted)

def word : Codec UInt64 := natural "u64" UInt64.size UInt64.ofNat UInt64.toNat

/-- A count or an index; its range is that of `word`, its name in messages is not. -/
def count : Codec UInt64 := natural "usize" UInt64.size UInt64.ofNat UInt64.toNat

def byte : Codec UInt8 := natural "u8" UInt8.size UInt8.ofNat UInt8.toNat

def boolean : Codec Bool :=
  scalar "a boolean" .boolean fun
    | .boolean value => .ok value
    | value => .error (.wrongType value.found "a boolean")

def text : Codec String :=
  scalar "a string" .text fun
    | .text value => .ok value
    | value => .error (.wrongType value.found "a string")

def null : Codec Unit :=
  scalar "unit" (fun _ => .null) fun
    | .null => .ok ()
    | value => .error (.wrongType value.found "unit")

/-! ## Any value, optional values, lists -/

/-- Any value. Read from a text, it is sorted. -/
def any : Codec Json where
  toJson value := value
  ofJson value := .ok value
  reader depth := fun c => (readValue depth c).map (·.map sorted)

def optional (codec : Codec α) : Codec (Option α) where
  toJson
    | none => .null
    | some value => codec.toJson value
  ofJson
    | .null => .ok none
    | value => (codec.ofJson value).map some
  reader depth := fun c =>
    let d := c.skipGap
    let value : Except Stop (Consumed (Option α) d) :=
      match h : d.rest with
      | 'n' :: _ => do
        let word ← (d.eat h).next.eatLetters ['u', 'l', 'l']
        .ok (((d.eat h).andThen word).map fun _ => none)
      | _ => (codec.reader depth d).map (·.map some)
    value.map (·.since c.left_skipGap)

/-- Enter an array or object, if one more level is allowed. -/
def deeper (depth : Nat) (c : Cursor) (inside : Nat → Except Stop (Consumed α c)) :
    Except Stop (Consumed α c) :=
  match depth with
  | 0 => .error (c.stopAhead .tooDeep)
  | depth + 1 => inside depth

def list (codec : Codec α) : Codec (List α) where
  toJson values := .array (values.map codec.toJson)
  ofJson
    | .array items => items.mapM codec.ofJson
    | value => .error (.wrongType value.found "a sequence")
  reader depth := fun c =>
    let d := c.skipGap
    let value : Except Stop (Consumed (List α) d) :=
      match h : d.rest with
      | '[' :: _ =>
        deeper depth d fun depth =>
          enclosed closeArray (d.eat h) (readItems (codec.reader depth) (d.eat h).next)
      | _ => .error (refuse "a sequence" d)
    value.map (·.since c.left_skipGap)

/-! ## Types with conditions -/

/-- A type whose values are written as those of another that pass a check. A value that does not
pass is well formed: its problem is loose. -/
def refine (codec : Codec α) (check : α → Except Problem β) (forget : β → α) : Codec β where
  toJson value := codec.toJson (forget value)
  ofJson value := (codec.ofJson value).bind check
  reader depth := fun c => do
    let inner ← codec.reader depth c
    match check inner.value with
    | .ok value => .ok (inner.map fun _ => value)
    | .error problem => .error (.loose problem inner.next)

/-- A type that is another one under a new name. -/
def rename (codec : Codec α) (wrap : α → β) (unwrap : β → α) : Codec β where
  toJson value := codec.toJson (unwrap value)
  ofJson value := (codec.ofJson value).map wrap
  reader depth := fun c => (codec.reader depth c).map (·.map wrap)

end Codec

end DecompilerDesk.Json
