-- SUMMARY: Codecs of enumerations.
import DecompilerDesk.Json.Codec

/-!
# Variants

A variant of an enumeration is written as its name. It is read from its name, or from an object
whose only key is the name and whose value is null.
-/

namespace DecompilerDesk.Json

/-- The variants of an enumeration with their names, in the order in which messages list them. -/
abbrev Variants (α : Type) : Type := List (String × α)

namespace Variants

def ofName (variants : Variants α) (name : String) : Except Problem α :=
  match variants.find? (·.1 = name) with
  | some (_, variant) => .ok variant
  | none => .error (.unknownVariant name (variants.map (·.1)))

def ofJson (variants : Variants α) : Json → Except Problem α
  | .text name => variants.ofName name
  | .object [(name, value)] => do
    let variant ← variants.ofName name
    Codec.null.ofJson value
    .ok variant
  | .object _ => .error (.wrongValue .object "map with a single key")
  | value => .error (.wrongType value.found "string or map")

/-- Read the name of a variant. -/
def readName (variants : Variants α) : Reader α :=
  Codec.scalarReader "variant identifier" fun
    | .text name => variants.ofName name
    | value => .error (.wrongType value.found "variant identifier")

/-- Read the name of a variant as the key of an object. An object without keys lacks a value. -/
def readKey (variants : Variants α) : Reader α := fun c =>
  let d := c.skipGap
  let name : Except Stop (Consumed α d) :=
    match d.rest with
    | '"' :: _ => variants.readName d
    | '\x7d' :: _ => .error (d.stopAhead .noValue)
    | _ => .error (d.stopAheadOr .endInObject .keyNotText)
  name.map (·.since c.left_skipGap)

/-- Read the name of a variant, a null value and the closing brace, behind the opening brace. -/
def readTagged (variants : Variants α) (depth : Nat) : Reader α := fun c => do
  let name ← variants.readKey c
  let colon ← readColon name.next
  let value ← Codec.null.reader depth colon.next
  let d := value.next.skipGap
  have within : d.left ≤ c.left := by
    have : d.left ≤ value.next.left := value.next.left_skipGap
    have := value.shorter; have := colon.shorter; have := name.shorter
    omega
  match h : d.rest with
  | '\x7d' :: _ => .ok (((d.eat h).map fun _ => name.value).since within)
  | [] => .error (d.stopHere .endInObject)
  | _ => .error (d.stopHere .noValue)

def reader (variants : Variants α) (depth : Nat) : Reader α := fun c =>
  let d := c.skipGap
  let value : Except Stop (Consumed α d) :=
    match h : d.rest with
    | '"' :: _ => variants.readName d
    | '\x7b' :: _ =>
      Codec.deeper depth d fun depth =>
        (variants.readTagged depth (d.eat h).next).map
          (·.since (Nat.le_of_lt (d.eat h).shorter))
    | _ => .error (d.stopAheadOr .endInValue .noValue)
  value.map (·.since c.left_skipGap)

end Variants

/-- An enumeration whose values are written by name. -/
def Codec.variant (variants : Variants α) (name : α → String) : Codec α where
  toJson value := .text (name value)
  ofJson := variants.ofJson
  reader := variants.reader

end DecompilerDesk.Json
