-- SUMMARY: Reading JSON values, and the parts that every reader of arrays and objects shares.
import DecompilerDesk.Json.Number
import DecompilerDesk.Json.Text
import DecompilerDesk.Json.Value

/-!
# Reading values

The items of an array and the members of an object are read by loops that know nothing of what an
item or member is (`readItems`, `readMembers`); `enclosed` then looks for the closing bracket, also
when the inside failed with a loose problem, which it places where the closing bracket was found or
missed. `readValue` reads any value whose brackets nest no deeper than it is allowed.
-/

namespace DecompilerDesk.Json

def found : Json → Found
  | .null => .null
  | .boolean value => .boolean value
  | .integer n => .integer n
  | .float x => .float x
  | .text s => .text s
  | .array _ => .array
  | .object _ => .object

/-! ## Scalars -/

def Number.toJson : Number → Json
  | .integer n => .integer n
  | .float x => .float x

/-- Read a value that is neither an array nor an object. -/
def readScalar : Reader Json := fun c =>
  let word {ch : Char} {rest : List Char} (h : c.rest = ch :: rest) (letters : List Char)
      (value : Json) := do
    let word ← (c.eat h).next.eatLetters letters
    .ok (((c.eat h).andThen word).map fun _ => value)
  match h : c.rest with
  | 'n' :: _ => word h ['u', 'l', 'l'] .null
  | 't' :: _ => word h ['r', 'u', 'e'] (.boolean true)
  | 'f' :: _ => word h ['a', 'l', 's', 'e'] (.boolean false)
  | '"' :: _ => do
    let text ← readText (c.eat h).next
    .ok ((text.map .text).since (Nat.le_of_lt (c.eat h).shorter))
  | '-' :: _ => do
    let number ← readNumber true (c.eat h).next
    .ok ((number.map Number.toJson).since (Nat.le_of_lt (c.eat h).shorter))
  | ch :: _ =>
    if ch.isDigit then do
      let number ← readNumber false c
      .ok (number.map Number.toJson)
    else .error (c.stopAhead .noValue)
  | [] => .error (c.stopAhead .endInValue)

/-- Refuse the value at the cursor. A scalar is read first and the problem placed behind it; an
array or object is not entered. -/
def refuse (wanted : String) (c : Cursor) : Stop :=
  match c.rest with
  | '[' :: _ => .placed (.wrongType .array wanted) c.place
  | '\x7b' :: _ => .placed (.wrongType .object wanted) c.place
  | _ =>
    match readScalar c with
    | .ok scalar => .placed (.wrongType scalar.value.found wanted) scalar.next.place
    | .error stop => stop

/-! ## Items and members -/

/-- The gaps around a character and the character itself are read forwards. -/
theorem left_eat_skipGap {c : Cursor} {ch : Char} {rest : List Char}
    (h : c.skipGap.rest = ch :: rest) : (c.skipGap.eat h).next.skipGap.left ≤ c.left := by
  have := (c.skipGap.eat h).next.left_skipGap
  have := (c.skipGap.eat h).shorter
  have := c.left_skipGap
  omega

/-- Whether another item follows in an array. -/
def moreItems (first : Bool) (c : Cursor) : Except Stop (Passed Bool c) :=
  let d := c.skipGap
  match h : d.rest with
  | [] => .error (d.stopAhead .endInArray)
  | ']' :: _ => .ok ⟨false, d, c.left_skipGap⟩
  | ch :: _ =>
    if first then .ok ⟨true, d, c.left_skipGap⟩
    else if ch = ',' then
      let e := (d.eat h).next.skipGap
      match e.rest with
      | [] => .error (e.stopAhead .endInValue)
      | ']' :: _ => .error (e.stopAhead .trailingComma)
      | _ => .ok ⟨true, e, left_eat_skipGap h⟩
    else .error (d.stopAhead .noArraySeparator)

/-- Read the items of an array behind its opening bracket. -/
def readItemsFrom (read : Reader α) (origin : Cursor) (items : List α) (c : Cursor)
    (within : c.left ≤ origin.left) : Except Stop (Passed (List α) origin) := do
  let more ← moreItems items.isEmpty c
  if more.value then
    let item ← read more.next
    readItemsFrom read origin (item.value :: items) item.next
      (by have := item.shorter; have := more.notLonger; omega)
  else .ok ⟨items.reverse, more.next, Nat.le_trans more.notLonger within⟩
termination_by c.left
decreasing_by have := item.shorter; have := more.notLonger; omega

def readItems (read : Reader α) (c : Cursor) : Except Stop (Passed (List α) c) :=
  readItemsFrom read c [] c c.left_le

/-- Read the next key of an object, if another member follows. -/
def readKey (first : Bool) (c : Cursor) : Except Stop (Passed (Option String) c) := do
  let d := c.skipGap
  let quoted : Option (Passed Unit c) ←
    match h : d.rest with
    | [] => .error (d.stopAhead .endInObject)
    | '\x7d' :: _ => .ok none
    | ch :: _ =>
      if first then
        if ch = '"' then .ok (some ((d.eat h).passed.since c.left_skipGap))
        else .error (d.stopAhead .keyNotText)
      else if ch = ',' then
        let e := (d.eat h).next.skipGap
        match h' : e.rest with
        | [] => .error (e.stopAhead .endInValue)
        | '"' :: _ =>
          .ok (some ((e.eat h').passed.since (left_eat_skipGap h)))
        | '\x7d' :: _ => .error (e.stopAhead .trailingComma)
        | _ => .error (e.stopAhead .keyNotText)
      else .error (d.stopAhead .noObjectSeparator)
  match quoted with
  | none => .ok ⟨none, d, c.left_skipGap⟩
  | some quote =>
    let key ← readText quote.next
    .ok ((key.map some).passed.since quote.notLonger)

/-- Read the colon behind a key. -/
def readColon : Reader Unit := fun c =>
  let d := c.skipGap
  match h : d.rest with
  | ':' :: _ => .ok ((d.eat h).since c.left_skipGap)
  | _ => .error (d.stopAheadOr .endInObject .noColon)

/-- What to do with a key just read: read its value into the state. -/
abbrev MemberReader (σ : Type) : Type :=
  (key : String) → (state : σ) → (c : Cursor) → Except Stop (Consumed σ c)

/-- Read the members of an object behind its opening bracket. -/
def readMembersFrom (member : MemberReader σ) (origin : Cursor) (first : Bool) (state : σ)
    (c : Cursor) (within : c.left ≤ origin.left) : Except Stop (Passed σ origin) := do
  let key ← readKey first c
  match key.value with
  | none => .ok ⟨state, key.next, Nat.le_trans key.notLonger within⟩
  | some name =>
    let state ← member name state key.next
    readMembersFrom member origin false state.value state.next
      (by have := state.shorter; have := key.notLonger; omega)
termination_by c.left
decreasing_by have := state.shorter; have := key.notLonger; omega

def readMembers (member : MemberReader σ) (state : σ) (c : Cursor) :
    Except Stop (Passed σ c) :=
  readMembersFrom member c true state c c.left_le

/-! ## Closing brackets -/

/-- Look for the end of an array: the cursor behind it, or what is wrong. -/
def closeArray (c : Cursor) : Passed (Option Stop) c :=
  let d := c.skipGap
  match h : d.rest with
  | ']' :: _ => ((d.eat h).map fun _ => none).passed.since c.left_skipGap
  | ',' :: _ =>
    let e := (d.eat h).next.skipGap
    let kind := if e.rest.head? = some ']' then Malformed.trailingComma else .trailingText
    ⟨some (e.stopAhead kind), e, left_eat_skipGap h⟩
  | _ => ⟨some (d.stopAheadOr .endInArray .trailingText), d, c.left_skipGap⟩

/-- Look for the end of an object: the cursor behind it, or what is wrong. -/
def closeObject (c : Cursor) : Passed (Option Stop) c :=
  let d := c.skipGap
  match h : d.rest with
  | '\x7d' :: _ => ((d.eat h).map fun _ => none).passed.since c.left_skipGap
  | ',' :: _ => ⟨some (d.stopAhead .trailingComma), d, c.left_skipGap⟩
  | _ => ⟨some (d.stopAheadOr .endInObject .trailingText), d, c.left_skipGap⟩

/-- Read the inside of an array or object behind its opening bracket, then its closing bracket. The
inside is the first to say what is wrong. -/
def enclosed (close : (c : Cursor) → Passed (Option Stop) c) {c : Cursor} (opening : Consumed Unit c)
    (inside : Except Stop (Passed α opening.next)) : Except Stop (Consumed α c) :=
  match inside with
  | .ok inside =>
    let closing := close inside.next
    match closing.value with
    | none =>
      .ok (opening.andThen ((closing.map fun _ => inside.value).since inside.notLonger))
    | some stop => .error stop
  | .error (.loose problem d) => .error (.placed problem (close d).next.place)
  | .error stop => .error stop

/-! ## Values -/

/-- Put a member before those already read. -/
def addMember (read : Reader Json) : MemberReader (List (String × Json)) := fun key members c => do
  let colon ← readColon c
  let value ← read colon.next
  .ok (colon.andThen (value.map fun value => (key, value) :: members).passed)

/-- Read a value; `nested` reads the values inside it, where they are allowed at all. -/
def readValueWith (nested : Option (Reader Json)) : Reader Json := fun c =>
  let d := c.skipGap
  let value : Except Stop (Consumed Json d) :=
    match h : d.rest with
    | '[' :: _ =>
      match nested with
      | none => .error (d.stopAhead .tooDeep)
      | some read => do
        let items ← enclosed closeArray (d.eat h) (readItems read (d.eat h).next)
        .ok (items.map .array)
    | '\x7b' :: _ =>
      match nested with
      | none => .error (d.stopAhead .tooDeep)
      | some read => do
        let members ← enclosed closeObject (d.eat h) (readMembers (addMember read) [] (d.eat h).next)
        .ok (members.map fun members => .object members.reverse)
    | _ => readScalar d
  value.map (·.since c.left_skipGap)

/-- Read a value whose brackets nest no deeper than `depth`. Its objects keep their members as they
are written. -/
def readValue : (depth : Nat) → Reader Json
  | 0 => readValueWith none
  | depth + 1 => readValueWith (some (readValue depth))

/-- How deep the brackets of a text may nest. -/
def maxDepth : Nat := 127

/-! ## Documents -/

/-- Read a text that holds one value and nothing else but blanks. -/
def readDocument (read : Reader α) (text : List Char) : Except Fault α :=
  match read (.start text) with
  | .error stop => .error stop.fault
  | .ok r =>
    let d := r.next.skipGap
    if d.rest.isEmpty then .ok r.value else .error (d.stopAhead .trailingText).fault

/-- The value that a text writes, sorted. -/
def parse (text : String) : Except Fault Json :=
  (readDocument (readValue maxDepth) text.toList).map sorted

end DecompilerDesk.Json
