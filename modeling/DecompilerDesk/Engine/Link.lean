-- SUMMARY: The link to an engine process: one request line out, one reply line in.
import DecompilerDesk.Engine.Call
import DecompilerDesk.Engine.Reply
import DecompilerDesk.SystemError
import DecompilerDesk.Text.Bytes

/-!
# Links

An engine runs as a process of its own, and acts when it is waited for. It is described by what it
does after each request line it takes, until it listens no more. The link numbers its requests and
reads one line for each. While the engine keeps its output open and writes no line end, the link waits.
A failure below the engine's own rejections leaves the pipe out of step, so the link is broken from
then on and lets nothing pass.
-/

namespace DecompilerDesk

/-- How an engine goes on after a turn. An engine that ends closes its output. -/
inductive Ending where
  /-- It waits for the next request line. -/
  | waits
  /-- It closes its output, and waits for the next request line. -/
  | mute
  /-- It closed its input before it wrote, and keeps its output open. -/
  | hangs
  /-- It closed its input before it wrote, and ends. -/
  | deaf
  /-- It ends. -/
  | ends
  deriving DecidableEq, Repr

/-- What an engine does after it got a request line. -/
structure Turn where
  output : Bytes
  ending : Ending
  deriving DecidableEq, Repr

/-- The byte that ends a line. -/
def lineEnd : UInt8 := 0x0A

/-- The pipe that leads into an engine. -/
inductive Inlet where
  | listening
  /-- The engine has ended and nobody has noticed: what is written is lost. -/
  | abandoned
  /-- The system refuses what is written. -/
  | closed
  deriving DecidableEq, Repr

/-- An engine process, seen from its two pipes. -/
structure Engine where
  /-- All that it has written. -/
  written : Bytes
  /-- How many of these bytes have been read. -/
  read : Nat
  /-- It has closed its output: what it would write is lost. -/
  mute : Bool
  inlet : Inlet
  /-- The request lines that wait in its pipe, oldest first. -/
  pending : List String
  /-- What it will do after each of the next request lines. After the last of them it ends. -/
  turns : List Turn
  /-- The request lines it took, oldest first. -/
  received : List String
  deriving DecidableEq, Repr

/-- The pipe that leads into an engine behind a turn. -/
def Ending.inlet : Ending → Inlet
  | .waits | .mute => .listening
  | .hangs | .deaf => .closed
  | .ends => .abandoned

/-- Whether an engine has closed its output behind a turn. -/
def Ending.mutes : Ending → Bool
  | .waits | .hangs => false
  | .mute | .deaf | .ends => true

namespace Engine

/-- An engine that waits for its first request. -/
def ofTurns (turns : List Turn) : Engine := ⟨[], 0, false, .listening, [], turns, []⟩

/-- What it has written and nobody has read. -/
def unread (engine : Engine) : Bytes := engine.written.drop engine.read

/-- Write a line to the engine's pipe. -/
def send (engine : Engine) (line : String) : Except SystemError Engine :=
  if engine.inlet = .closed then .error .brokenPipe
  else .ok { engine with pending := engine.pending ++ [line] }

/-- The engine's turn after it took a line. -/
def take (engine : Engine) (line : String) : Engine :=
  let turn := engine.turns.head?.getD ⟨[], .ends⟩
  { engine with
    written := if engine.mute then engine.written else engine.written ++ turn.output
    mute := engine.mute || turn.ending.mutes
    inlet := turn.ending.inlet
    turns := engine.turns.tail
    received := engine.received ++ [line] }

/-- Let the engine take the lines in its pipe, one after the other, while it listens and until it has
done enough. -/
def actUntil (enough : Engine → Bool) (engine : Engine) : List String → Engine
  | [] => { engine with pending := [] }
  | line :: rest =>
    if engine.inlet = .listening ∧ !enough engine then actUntil enough (engine.take line) rest
    else { engine with pending := line :: rest }

/-- Whether the engine has written a whole line that nobody has read. -/
def hasLine (engine : Engine) : Bool := engine.unread.contains lineEnd

/-- The bytes up to the first line end and with it, or all of them. -/
def firstLine : Bytes → Bytes
  | [] => []
  | byte :: rest => if byte = lineEnd then [byte] else byte :: firstLine rest

/-- Wait for the next line that the engine writes. Its line end is missing only when the engine has
closed its output, and an engine that ended is then seen to have closed its input too. There is no
line while the engine neither ends one nor closes its output. -/
def receive (engine : Engine) : Option Bytes × Engine :=
  let engine := engine.actUntil hasLine engine.pending
  if engine.hasLine || engine.mute then
    let line := firstLine engine.unread
    let ended : Bool := line.getLast? ≠ some lineEnd
    (some line,
      { engine with
        read := engine.read + line.length
        inlet := if ended ∧ engine.inlet = .abandoned then .closed else engine.inlet })
  else (none, engine)

end Engine

/-- The link to an engine. -/
structure Link where
  engine : Engine
  /-- The number of the next request. -/
  nextId : Nat
  broken : Bool
  deriving DecidableEq, Repr

namespace Link

def toEngine (engine : Engine) : Link := ⟨engine, 1, false⟩

/-- The answer that a line of bytes holds. -/
def answer (command : String) (id : Nat) (line : Bytes) : Except Failure Json :=
  let failed (reason : String) : Except Failure Json :=
    .error (.transport ("receive " ++ command) reason)
  if line.isEmpty then failed "engine closed its output"
  else
    match line.text? with
    | none => failed SystemError.notUtf8.message
    | some text => Reply.decode command id text

/-- Send a request and read the line that answers it, whatever the state of the link. There is no
result while the line is waited for. -/
def exchange (link : Link) (command : String) (arguments : Json) :
    Option (Except Failure Json) × Link :=
  let id := link.nextId
  let link := { link with nextId := id + 1 }
  match link.engine.send (RequestLine.mk id command arguments).text with
  | .error refused => (some (.error (.transport ("send " ++ command) refused.message)), link)
  | .ok engine =>
    let (line, engine) := engine.receive
    (line.map (answer command id), { link with engine := engine })

/-- Whether a result leaves the pipe out of step. -/
def breaks (result : Except Failure Json) : Bool :=
  match result with
  | .ok _ => false
  | .error failure => failure.isRecoverable

/-- Take note of a result. -/
def settle (link : Link) (result : Except Failure Json) : Link :=
  { link with broken := link.broken || breaks result }

/-- Why a broken link lets nothing pass. -/
def outOfStep (command : String) : Failure := .transport command "engine pipe is out of sync"

/-- Ask the engine, unless the link is broken. -/
def invoke (link : Link) (command : String) (arguments : Json) :
    Option (Except Failure Json) × Link :=
  if link.broken then (some (.error (outOfStep command)), link)
  else
    let (result, link) := link.exchange command arguments
    (result, result.elim link link.settle)

/-- Ask the engine a typed question. -/
def call (link : Link) (call : Call α) : Option (Except Failure α) × Link :=
  let (reply, link) := link.invoke call.command call.arguments
  (reply.map call.result, link)

/-- Why no engine can be started. -/
def noCommand : Failure := .transport "spawn" "engine command is empty"

/-- Start the engine that a command names. `start` is what the system makes of a program. -/
def spawn (start : String → List String → Except SystemError Engine) (command : List String) :
    Except Failure Link :=
  match command with
  | [] => .error noCommand
  | program :: arguments =>
    let started :=
      if command.any (·.toList.contains '\x00') then .error .zeroInCommand
      else start program arguments
    match started with
    | .ok engine => .ok (toEngine engine)
    | .error refused => .error (.transport ("spawn " ++ program) refused.message)

end Link

end DecompilerDesk
