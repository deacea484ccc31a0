-- SUMMARY: Codecs of records: objects with known keys, or arrays of their values in order.
import DecompilerDesk.Json.Codec
import DecompilerDesk.Json.Skip

/-!
# Records

A record is written as an object with a key for each field. It is read from an object, whose keys
may come in any order and whose unknown keys are skipped, or from an array that holds the fields in
order. `Fields σ τ` describes the fields: `σ` is the product of their types, and `τ` holds a slot for
each, which is filled as its key is met.
-/

namespace DecompilerDesk.Json

structure Field (α : Type) where
  name : String
  codec : Codec α
  /-- The value of a field whose key does not occur in an object. -/
  ifNoKey : Option α
  /-- The value of a field beyond the end of an array. -/
  ifNoItem : Option α

namespace Field

def required (name : String) (codec : Codec α) : Field α := ⟨name, codec, none, none⟩

/-- A field that may be left out of an object, but not of an array. -/
def omissible (name : String) (codec : Codec α) : Field (Option α) :=
  ⟨name, codec.optional, some none, none⟩

/-- A field that may be left out. -/
def withDefault (name : String) (codec : Codec α) (value : α) : Field α :=
  ⟨name, codec, some value, some value⟩

end Field

/-- The fields of a record, with the product of their types and the product of their slots. -/
inductive Fields : (σ τ : Type) → Type 1 where
  | nil : Fields Unit Unit
  | cons {α σ τ : Type} (field : Field α) (rest : Fields σ τ) : Fields (α × σ) (Option α × τ)

namespace Fields

def count {σ τ : Type} : Fields σ τ → Nat
  | .nil => 0
  | .cons _ rest => rest.count + 1

def names {σ τ : Type} : Fields σ τ → List String
  | .nil => []
  | .cons field rest => field.name :: rest.names

def toMembers {σ τ : Type} : Fields σ τ → σ → List (String × Json)
  | .nil, _ => []
  | .cons field rest, (value, values) =>
    (field.name, field.codec.toJson value) :: rest.toMembers values

/-! ## Slots -/

def empty {σ τ : Type} : Fields σ τ → τ
  | .nil => ()
  | .cons _ rest => (none, rest.empty)

/-- One field's place among the slots. -/
structure Slot (τ : Type) where
  {α : Type}
  codec : Codec α
  filled : Bool
  fill : α → τ

def slot? {σ τ : Type} : Fields σ τ → (slots : τ) → (key : String) → Option (Slot τ)
  | .nil, _, _ => none
  | .cons field rest, (value, values), key =>
    if key = field.name then some ⟨field.codec, value.isSome, fun new => (some new, values)⟩
    else
      (rest.slot? values key).map fun slot =>
        ⟨slot.codec, slot.filled, fun new => (value, slot.fill new)⟩

/-- The record, once the object has ended. The first field without a value is missing. -/
def complete {σ τ : Type} : Fields σ τ → (slots : τ) → Except Problem σ
  | .nil, _ => .ok ()
  | .cons field rest, (value, values) =>
    match value <|> field.ifNoKey with
    | none => .error (.missingField field.name)
    | some value => (rest.complete values).map fun values => (value, values)

/-! ## From values -/

def fillFromMembers {σ τ : Type} (fields : Fields σ τ) (slots : τ) :
    List (String × Json) → Except Problem τ
  | [] => .ok slots
  | (key, value) :: rest =>
    match fields.slot? slots key with
    | none => fillFromMembers fields slots rest
    | some slot =>
      if slot.filled then .error (.duplicateField key)
      else (slot.codec.ofJson value).bind fun new => fillFromMembers fields (slot.fill new) rest

/-- The fields from the items of an array, and the items left over. `index` counts the fields
before. -/
def ofItems {σ τ : Type} (wanted : String) : Fields σ τ → (index : Nat) → List Json →
    Except Problem (σ × List Json)
  | .nil, _, items => .ok ((), items)
  | .cons field rest, index, item :: items => do
    let value ← field.codec.ofJson item
    let (values, items) ← rest.ofItems wanted (index + 1) items
    .ok ((value, values), items)
  | .cons field rest, index, [] =>
    match field.ifNoItem with
    | none => .error (.wrongLength index wanted)
    | some value => do
      let (values, items) ← rest.ofItems wanted (index + 1) []
      .ok ((value, values), items)

/-! ## From texts -/

def readMember {σ τ : Type} (fields : Fields σ τ) (depth : Nat) : MemberReader τ :=
  fun key slots c =>
    match fields.slot? slots key with
    | none => do
      let colon ← readColon c
      let skipped ← skipValue colon.next
      .ok (colon.andThen (skipped.map fun _ => slots).passed)
    | some slot =>
      if slot.filled then .error (.loose (.duplicateField key) c)
      else do
        let colon ← readColon c
        let value ← slot.codec.reader depth colon.next
        .ok (colon.andThen (value.map slot.fill).passed)

def readMembers {σ τ : Type} (fields : Fields σ τ) (depth : Nat) (c : Cursor) :
    Except Stop (Passed σ c) := do
  let slots ← Json.readMembers (fields.readMember depth) fields.empty c
  match fields.complete slots.value with
  | .ok values => .ok (slots.map fun _ => values)
  | .error problem => .error (.loose problem slots.next)

def readItems {σ τ : Type} (wanted : String) (depth : Nat) : Fields σ τ → (index : Nat) →
    (c : Cursor) → Except Stop (Passed σ c)
  | .nil, _, c => .ok (.stay () c)
  | .cons field rest, index, c => do
    let more ← moreItems (index = 0) c
    let value ←
      if more.value then
        (field.codec.reader depth more.next).map (·.passed.since more.notLonger)
      else
        match field.ifNoItem with
        | none => .error (.loose (.wrongLength index wanted) more.next)
        | some value => .ok (more.map fun _ => value)
    let values ← rest.readItems wanted depth (index + 1) value.next
    .ok ((values.map fun values => (value.value, values)).since value.notLonger)

end Fields

/-! ## The codec -/

/-- Records made of the fields by `build`, and taken apart by `parts`. -/
def Codec.record (name : String) {σ τ : Type} (fields : Fields σ τ) (build : σ → α) (parts : α → σ) :
    Codec α :=
  let wanted := "struct " ++ name
  let wantedItems := wanted ++ " with " ++ toString fields.count
    ++ (if fields.count = 1 then " element" else " elements")
  { toJson := fun value => .object (fields.toMembers (parts value))
    ofJson := fun
      | .object members =>
        ((fields.fillFromMembers fields.empty members).bind fields.complete).map build
      | .array items => do
        match ← fields.ofItems wantedItems 0 items with
        | (values, []) => .ok (build values)
        | _ => .error (.wrongLength items.length "fewer elements in array")
      | value => .error (.wrongType value.found wanted)
    reader := fun depth c =>
      let d := c.skipGap
      let value : Except Stop (Consumed σ d) :=
        match h : d.rest with
        | '[' :: _ =>
          deeper depth d fun depth =>
            enclosed closeArray (d.eat h)
              (fields.readItems wantedItems depth 0 (d.eat h).next)
        | '\x7b' :: _ =>
          deeper depth d fun depth =>
            enclosed closeObject (d.eat h) (fields.readMembers depth (d.eat h).next)
        | _ => .error (refuse wanted d)
      value.map fun values => (values.map build).since c.left_skipGap }

end DecompilerDesk.Json
