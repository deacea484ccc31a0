-- SUMMARY: Request lines and reply lines.
import DecompilerDesk.Failure
import DecompilerDesk.Text.Blank

/-!
# Lines

A request and its reply are JSON objects on one line each. A reply carries the number of its request
and either a value or the message of a rejection; without either it stands for null.
-/

namespace DecompilerDesk

open Json (Codec)

/-- A request, as it is written to the engine. -/
structure RequestLine where
  id : Nat
  command : String
  arguments : Json

namespace RequestLine

def toJson (line : RequestLine) : Json :=
  .object [("id", .integer line.id), ("command", .text line.command), ("args", line.arguments)]

/-- The line with its line end. -/
def text (line : RequestLine) : String := line.toJson.compact ++ "\n"

end RequestLine

structure Reply where
  id : UInt64
  value : Option Json
  rejection : Option String

namespace Reply

def codec : Codec Reply :=
  .record "Response"
    (.cons (.required "id" .word) <|
      .cons (.withDefault "ok" Codec.any.optional none) <|
      .cons (.withDefault "err" Codec.text.optional none) .nil)
    (fun (id, value, rejection, ()) => ⟨id, value, rejection⟩)
    (fun r => (r.id, r.value, r.rejection, ()))

/-- The reply that a line holds, blanks around it apart. -/
def parse (line : String) : Except Json.Fault Reply :=
  Json.readDocument (codec.reader Json.maxDepth) (Text.trim line.toList)

/-- What a line answers to the request with number `id`. -/
def decode (command : String) (id : Nat) (line : String) : Except Failure Json :=
  match parse line with
  | .error fault =>
    .error (.protocol ("malformed reply to " ++ command ++ ": " ++ fault.message))
  | .ok reply =>
    if reply.id.toNat ≠ id then
      .error (.protocol ("reply id " ++ toString reply.id.toNat
        ++ " does not match request id " ++ toString id))
    else
      match reply.rejection with
      | some message => .error (.engine command message)
      | none => .ok (reply.value.getD .null)

end Reply

end DecompilerDesk
