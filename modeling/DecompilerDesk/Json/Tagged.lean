-- SUMMARY: Codecs of types whose variants carry fields, written under a tag key and a content key.
import DecompilerDesk.Json.Record
import DecompilerDesk.Json.Variant

/-!
# Tagged values

A value with variants is written as an object with two keys: the tag names the variant, the content
holds its fields; a variant without fields has no content. The keys may come in either order. When
the content comes first it is kept as it is written until the tag says how to read it. The other
form is an array of the tag and the content.
-/

namespace DecompilerDesk.Json

/-- What stands under the content key of a variant. -/
inductive Content (α : Type) : Type 1 where
  | nothing (value : α)
  | record {σ τ : Type} (fields : Fields σ τ) (build : σ → α)

namespace Content

def ofJson (wanted : String) : Content α → Json → Except Problem α
  | .nothing value, .null => .ok value
  | .record fields build, .object members =>
    ((fields.fillFromMembers fields.empty members).bind fields.complete).map build
  | _, json => .error (.wrongType json.found wanted)

/-- Read the content. A value of the wrong kind is read to its end first, an array or object at
least entered. -/
def reader (wanted : String) (content : Content α) (depth : Nat) : Reader α := fun c =>
  let d := c.skipGap
  let value : Except Stop (Consumed α d) :=
    match h : d.rest with
    | '[' :: _ =>
      Codec.deeper depth d fun _ =>
        enclosed closeArray (d.eat h) (.error (.loose (.wrongType .array wanted) (d.eat h).next))
    | '\x7b' :: _ =>
      Codec.deeper depth d fun depth =>
        enclosed closeObject (d.eat h) <|
          match content with
          | .nothing _ => .error (.loose (.wrongType .object wanted) (d.eat h).next)
          | .record fields build =>
            (fields.readMembers depth (d.eat h).next).map (·.map build)
    | _ => do
      let scalar ← readScalar d
      match content.ofJson wanted scalar.value with
      | .ok value => .ok (scalar.map fun _ => value)
      | .error problem => .error (.placed problem scalar.next.place)
  value.map (·.since c.left_skipGap)

end Content

/-- How the values of a type are written under a tag. -/
structure Tagging (α κ : Type) where
  /-- The type's name in messages. -/
  name : String
  tagKey : String
  contentKey : String
  tags : Variants κ
  content : κ → Content α
  /-- What a message wants as the content of a variant. -/
  wanted : κ → String

namespace Tagging

/-- What is known of a value while its object is read. -/
inductive Progress (α κ : Type) where
  | start
  | tag (kind : κ)
  | content (json : Json)
  | whole (value : α)

def ofContent (tagging : Tagging α κ) (kind : κ) (json : Json) : Except Problem α :=
  (tagging.content kind).ofJson (tagging.wanted kind) json

/-- The value, once the object has ended. -/
def complete (tagging : Tagging α κ) : Progress α κ → Except Problem α
  | .start => .error (.missingField tagging.tagKey)
  | .content _ => .error (.missingField tagging.tagKey)
  | .whole value => .ok value
  | .tag kind =>
    match tagging.content kind with
    | .nothing value => .ok value
    | .record .. => .error (.missingField tagging.contentKey)

/-! ## From values -/

def stepOfMember (tagging : Tagging α κ) (progress : Progress α κ) (member : String × Json) :
    Except Problem (Progress α κ) :=
  let (key, json) := member
  if key = tagging.tagKey then
    match progress with
    | .start => (tagging.tags.ofJson json).map .tag
    | .content content => do
      let kind ← tagging.tags.ofJson json
      (tagging.ofContent kind content).map .whole
    | _ => .error (.duplicateField key)
  else if key = tagging.contentKey then
    match progress with
    | .start => .ok (.content json)
    | .tag kind => (tagging.ofContent kind json).map .whole
    | _ => .error (.duplicateField key)
  else .ok progress

def ofItems (tagging : Tagging α κ) (items : List Json) : Except Problem α :=
  match items with
  | [] => .error (.wrongLength 0 tagging.name)
  | tag :: rest => do
    let kind ← match tag with
      | .text name => tagging.tags.ofName name
      | tag => .error (.wrongType tag.found "variant identifier")
    match rest with
    | [] => .error (.wrongLength 1 tagging.name)
    | content :: more => do
      let value ← tagging.ofContent kind content
      if more.isEmpty then .ok value
      else .error (.wrongLength items.length "fewer elements in array")

def ofJson (tagging : Tagging α κ) : Json → Except Problem α
  | .object members => (members.foldlM tagging.stepOfMember .start).bind tagging.complete
  | .array items => tagging.ofItems items
  | json => .error (.wrongType json.found tagging.name)

/-! ## From texts -/

def readMember (tagging : Tagging α κ) (depth : Nat) : MemberReader (Progress α κ) :=
  fun key progress c =>
    let read {β : Type} (reader : Reader β) (step : β → Progress α κ) := do
      let colon ← readColon c
      let value ← reader colon.next
      .ok (colon.andThen (value.map step).passed)
    if key = tagging.tagKey then
      match progress with
      | .start => read (tagging.tags.reader depth) .tag
      | .content content => do
        let tag ← read (tagging.tags.reader depth) .tag
        match tag.value with
        | .tag kind =>
          match tagging.ofContent kind content with
          | .ok value => .ok (tag.map fun _ => .whole value)
          | .error problem => .error (.loose problem tag.next)
        | _ => .ok tag
      | _ => .error (.loose (.duplicateField key) c)
    else if key = tagging.contentKey then
      match progress with
      | .start => read (readValue depth) .content
      | .tag kind =>
        read ((tagging.content kind).reader (tagging.wanted kind) depth) .whole
      | _ => .error (.loose (.duplicateField key) c)
    else read skipValue fun _ => progress

def readMembers (tagging : Tagging α κ) (depth : Nat) (c : Cursor) :
    Except Stop (Passed α c) := do
  let progress ← Json.readMembers (tagging.readMember depth) .start c
  match tagging.complete progress.value with
  | .ok value => .ok (progress.map fun _ => value)
  | .error problem => .error (.loose problem progress.next)

def readItems (tagging : Tagging α κ) (depth : Nat) (c : Cursor) :
    Except Stop (Passed α c) := do
  let more ← moreItems true c
  if more.value then
    let tag ← tagging.tags.readName more.next
    let another ← moreItems false tag.next
    if another.value then
      let kind := tag.value
      let value ← (tagging.content kind).reader (tagging.wanted kind) depth another.next
      .ok (value.passed.since (Nat.le_trans another.notLonger
        (Nat.le_trans (Nat.le_of_lt tag.shorter) more.notLonger)))
    else .error (.loose (.wrongLength 1 tagging.name) another.next)
  else .error (.loose (.wrongLength 0 tagging.name) more.next)

def reader (tagging : Tagging α κ) (depth : Nat) : Reader α := fun c =>
  let d := c.skipGap
  let value : Except Stop (Consumed α d) :=
    match h : d.rest with
    | '[' :: _ =>
      Codec.deeper depth d fun depth =>
        enclosed closeArray (d.eat h) (tagging.readItems depth (d.eat h).next)
    | '\x7b' :: _ =>
      Codec.deeper depth d fun depth =>
        enclosed closeObject (d.eat h) (tagging.readMembers depth (d.eat h).next)
    | _ => .error (refuse tagging.name d)
  value.map (·.since c.left_skipGap)

end Tagging

/-- A type whose variants carry fields. -/
def Codec.tagged (tagging : Tagging α κ) (toJson : α → Json) : Codec α where
  toJson := toJson
  ofJson := tagging.ofJson
  reader := tagging.reader

end DecompilerDesk.Json
