-- SUMMARY: The questions an engine answers: their commands, their arguments, their answers.
import DecompilerDesk.Engine.Findings
import DecompilerDesk.Path

/-!
# Calls

A call is a command with arguments, and a codec for what the engine answers. An answer that does not
decode breaks the protocol.
-/

namespace DecompilerDesk

open Json (Codec)

/-- The calls, by the type of their answers. -/
inductive Call : Type → Type 1 where
  | openFile (path : Path) : Call Unit
  | connectionsAt (address : String) : Call Connections
  | connectionsAtEntry : Call Connections
  | inspect (address : String) : Call (List Lowering)
  /-- The empty address stands for the entry point. -/
  | analyze (address : String) : Call (List Section)
  | analyzeAll : Call (List Section)
  | decompile (starts : List Address) : Call Decompilation

namespace Call

def command : Call α → String
  | .openFile _ => "open_file"
  | .connectionsAt _ => "decompile_from_address"
  | .connectionsAtEntry => "decompile_from_entry"
  | .inspect _ => "ir_inspect"
  | .analyze _ => "analyze_section"
  | .analyzeAll => "analyze_all_sections"
  | .decompile _ => "decompile_sections"

def arguments : Call α → Json
  | .openFile path => .object [("path", .text path.display)]
  | .connectionsAt address => .object [("address", .text address)]
  | .connectionsAtEntry => .object []
  | .inspect address => .object [("address", .text address)]
  | .analyze address => .object [("address", .text address)]
  | .analyzeAll => .object []
  | .decompile starts => .object [("start_addresses", Codec.word.list.toJson starts)]

/-- Any value answers the opening of a file. -/
def answer : Call α → Codec α
  | .openFile _ => Codec.any.rename (fun _ => ()) (fun _ => .null)
  | .connectionsAt _ => Connections.codec
  | .connectionsAtEntry => Connections.codec
  | .inspect _ => Lowering.codec.list
  | .analyze _ => Section.codec.list
  | .analyzeAll => Section.codec.list
  | .decompile _ => Decompilation.codec

/-- The typed answer of a reply. -/
def result (call : Call α) (reply : Except Failure Json) : Except Failure α :=
  reply.bind fun value =>
    (call.answer.ofJson value).mapError fun problem =>
      .protocol ("unexpected " ++ call.command ++ " result: " ++ problem.message)

end Call

end DecompilerDesk
