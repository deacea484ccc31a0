-- SUMMARY: The desk: user intents become requests, and completed requests change the session.
import DecompilerDesk.Console
import DecompilerDesk.Drag
import DecompilerDesk.Engine.Call
import DecompilerDesk.Session

/-!
# Desk

The desk is all of the application's state. An intent of the user gives a request, or a console line
that says why not. A request is completed by the engine's reply, at any later time and in any order;
what a completion brings is folded into the session if it still belongs there, and a console line
says what became of it.
-/

namespace DecompilerDesk

/-- A call to be made, with what is needed to tell later whether its answer still counts. -/
inductive Request where
  | openFile (path : Path)
  | connectionsAt (address : Address) (epoch : Epoch)
  | connectionsAtEntry (epoch : Epoch)
  | inspect (address : Address) (epoch : Epoch)
  /-- Without an address, from the entry point. -/
  | analyze (address : Option Address) (epoch : Epoch)
  | analyzeAll (epoch : Epoch)
  | decompile (starts : List Address) (ticket : Ticket)
  deriving DecidableEq, Repr

/-- What a completed request brings. -/
inductive Outcome where
  | opened (path : Path)
  | connections (epoch : Epoch) (connections : Connections)
  | lowerings (epoch : Epoch) (lowerings : List Lowering)
  | sections (epoch : Epoch) (sections : List Section)
  | decompiled (ticket : Ticket) (findings : Decompilation)
  deriving DecidableEq, Repr

structure Completion where
  /-- Put before the message of a failure. -/
  label : String
  result : Except Failure Outcome

namespace Request

/-- Put before the message of a failure of this request. -/
def label : Request → String
  | .openFile _ => "Open Failed"
  | .connectionsAt .. | .connectionsAtEntry _ | .decompile .. => "Decompile Failed"
  | .inspect .. => "IR Inspect Failed"
  | .analyze .. | .analyzeAll _ => "Section Analyzation Failed"

/-- The address of an analysis on the wire. -/
def analysisAddress : Option Address → String
  | none => ""
  | some address => address.text

/-- A call with what its answer means. -/
structure Plan where
  {α : Type}
  call : Call α
  outcome : α → Outcome

def plan : Request → Plan
  | .openFile path => ⟨.openFile path, fun () => .opened path⟩
  | .connectionsAt address epoch => ⟨.connectionsAt address.text, .connections epoch⟩
  | .connectionsAtEntry epoch => ⟨.connectionsAtEntry, .connections epoch⟩
  | .inspect address epoch => ⟨.inspect address.text, .lowerings epoch⟩
  | .analyze address epoch => ⟨.analyze (analysisAddress address), .sections epoch⟩
  | .analyzeAll epoch => ⟨.analyzeAll, .sections epoch⟩
  | .decompile starts ticket => ⟨.decompile starts, .decompiled ticket⟩

def command (request : Request) : String := request.plan.call.command

def arguments (request : Request) : Json := request.plan.call.arguments

/-- The request completed by a reply. -/
def complete (request : Request) (reply : Except Failure Json) : Completion where
  label := request.label
  result := (request.plan.call.result reply).map request.plan.outcome

end Request

structure Desk where
  session : Session
  console : Console
  layout : Layout
  drag : Drag
  deriving DecidableEq

namespace Desk

/-- A desk on which nothing has happened. -/
def start (capacity : UInt64) (layout : Layout) : Desk where
  session := {}
  console := .ofCapacity capacity
  layout := layout
  drag := .idle

/-- The desk at a time of day. -/
def atTime (desk : Desk) (time : TimeOfDay) : Desk :=
  { desk with console := { desk.console with clock := time } }

def logLine (desk : Desk) (arguments : List Argument) : Desk :=
  { desk with console := desk.console.logLine arguments }

/-- Log a message made of texts. -/
def say (desk : Desk) (texts : List String) : Desk := desk.logLine (texts.map .ofText)

/-! ## Intents -/

/-- Open the file picked, if one was. -/
def openFile (desk : Desk) (picked : Option Path) : Option Request × Desk :=
  (picked.map .openFile,
    desk.logLine [.ofText "Open Fireball with", (picked.map .path).getD (.json .null)])

/-- Go on with the epoch of the opened file; without a file, say so. -/
def withFile (desk : Desk) (label : String) (go : Epoch → Option Request × Desk) :
    Option Request × Desk :=
  if desk.session.file.isSome then go desk.session.epoch
  else (none, desk.say [label, Failure.noFile.message])

/-- Go on with the address typed; if it is none, say so. -/
def withAddress (desk : Desk) (label : String) (input : String)
    (go : Address → Option Request × Desk) : Option Request × Desk :=
  match Address.parse input with
  | .ok address => go address
  | .error failure => (none, desk.say [label, failure.message])

/-- Analyze the section at an address, or at the entry point when nothing but blanks was typed. -/
def analyze (desk : Desk) (input : String) : Option Request × Desk :=
  let label := "Section Analyzation Failed"
  desk.withFile label fun epoch =>
    if (Text.trim input.toList).isEmpty then (some (.analyze none epoch), desk)
    else desk.withAddress label input fun address => (some (.analyze (some address) epoch), desk)

def analyzeAll (desk : Desk) : Option Request × Desk :=
  desk.withFile "Section Analyzation Failed" fun epoch => (some (.analyzeAll epoch), desk)

def connectionsAt (desk : Desk) (input : String) : Option Request × Desk :=
  let label := "Decompile Failed"
  desk.withFile label fun epoch =>
    desk.withAddress label input fun address => (some (.connectionsAt address epoch), desk)

def connectionsAtEntry (desk : Desk) : Option Request × Desk :=
  desk.withFile "Decompile Failed" fun epoch => (some (.connectionsAtEntry epoch), desk)

def inspect (desk : Desk) (input : String) : Option Request × Desk :=
  let label := "IR Inspect Failed"
  desk.withFile label fun epoch =>
    desk.withAddress label input fun address => (some (.inspect address epoch), desk)

/-- Decompile the selected sections. -/
def decompileSelected (desk : Desk) : Option Request × Desk :=
  let starts := desk.session.selected
  if starts.isEmpty then (none, desk.say ["No sections selected"])
  else
    desk.withFile "Decompile Failed" fun _ =>
      let (ticket, session) := desk.session.beginDecompilation
      (some (.decompile starts ticket), { desk with session := session })

/-! ## Completions -/

/-- Change the session if an epoch is still that of the opened file, and log a line. -/
def ifCurrent (desk : Desk) (epoch : Epoch) (line : List Argument) (change : Session → Session) :
    Desk :=
  if desk.session.isCurrent epoch then { desk.logLine line with session := change desk.session }
  else desk.say ["Discarded result for a previously opened file"]

/-- Fold an outcome into the session. -/
def accept (desk : Desk) : Outcome → Desk
  | .opened path => { desk.say ["Open Success"] with session := desk.session.reset path }
  | .connections epoch connections =>
    desk.ifCurrent epoch [.ofText "Decompile Success", .json (Connections.codec.toJson connections)]
      fun session =>
        { session with entryText := some ("Block's Connected Address : " ++ connections.text) }
  | .lowerings epoch lowerings =>
    desk.ifCurrent epoch
      [.ofText "IR Inspect Success", .ofCount lowerings.length, .ofText "instructions"]
      fun session => { session with lowerings := lowerings }
  | .sections epoch sections =>
    desk.ifCurrent epoch
      [.ofText "Section Analyzation Success", .ofCount sections.length, .ofText "sections"]
      (·.merge sections)
  | .decompiled ticket findings =>
    if ticket = desk.session.ticket then
      { desk.logLine [.ofText "Decompile Success", .ofCount findings.assembly.length,
          .ofText "instructions"] with
        session := desk.session.finishDecompilation ticket findings }
    else desk.say ["Discarded outdated decompile result"]

/-- Fold a completed request into the session. -/
def apply (desk : Desk) (completion : Completion) : Desk :=
  match completion.result with
  | .ok outcome => desk.accept outcome
  | .error failure => desk.say [completion.label, failure.message]

/-- Fold the reply to a request into the session, if there is a request. -/
def run (desk : Desk) (request : Option Request) (reply : Except Failure Json) : Desk :=
  match request with
  | none => desk
  | some request => desk.apply (request.complete reply)

/-! ## Local interactions -/

def pickUp (desk : Desk) (panel : Panel) : Desk :=
  { desk with drag := .pickUp desk.layout panel }

def drop (desk : Desk) (target : Option Target) : Desk :=
  { desk with layout := desk.drag.drop desk.layout target, drag := .idle }

def cancelDrag (desk : Desk) : Desk := { desk with drag := .idle }

def toggleSection (desk : Desk) (address : Address) : Desk :=
  { desk with session := desk.session.toggle address }

def selectAll (desk : Desk) : Desk := { desk with session := desk.session.selectAll }

def hover (desk : Desk) (index : Option UInt64) : Desk :=
  { desk with session := desk.session.hover index }

def toggleConsole (desk : Desk) : Desk := { desk with console := desk.console.toggle }

end Desk

end DecompilerDesk
