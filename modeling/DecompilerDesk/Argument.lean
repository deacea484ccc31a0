-- SUMMARY: The arguments of a console line and their text.
import DecompilerDesk.Json.Writer
import DecompilerDesk.Path

/-!
# Arguments

A console line is made of arguments of any kind. A text is shown as it is and anything else as
compact JSON; what JSON cannot hold is shown with the reason.
-/

namespace DecompilerDesk

/-- A key of a table. Only some can be the key of a JSON object. -/
inductive TableKey where
  | integer (n : Int)
  | list (items : List UInt8)

inductive Argument where
  | json (value : Json)
  | path (p : Path)
  /-- A number, or nothing for one that is not finite. -/
  | float (value : Option Double)
  /-- A natural number of any size. -/
  | natural (n : Nat)
  | table (entries : List (TableKey × Json))

namespace Argument

def ofText (text : String) : Argument := .json (.text text)

def ofCount (n : Nat) : Argument := .json (.integer n)

/-- The members of a table's object. Of equal keys the last counts. -/
def tableMembers? : List (TableKey × Json) → Option (List (String × Json))
  | [] => some []
  | (.integer n, value) :: rest =>
    (tableMembers? rest).map ((String.ofList (Json.writeInteger n), value) :: ·)
  | (.list _, _) :: _ => none

/-- The JSON value of an argument, sorted, or why there is none. -/
def toJson : Argument → Except String Json
  | .json value => .ok value.sorted
  | .path p =>
    match p.bytes.text? with
    | some text => .ok (.text text)
    | none => .error "path contains invalid UTF-8 characters"
  | .float (some x) => .ok (.float x)
  | .float none => .ok .null
  | .natural n =>
    if n < UInt64.size then .ok (.integer n) else .error "number out of range"
  | .table entries =>
    match tableMembers? entries with
    | some members => .ok (Json.object members).sorted
    | none => .error "key must be a string"

def render (argument : Argument) : String :=
  match argument.toJson with
  | .ok (.text text) => text
  | .ok value => value.compact
  | .error reason => "<unrenderable: " ++ reason ++ ">"

end Argument

end DecompilerDesk
