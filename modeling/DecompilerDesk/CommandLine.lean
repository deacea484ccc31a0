-- SUMMARY: The command line: one run from a binary to its decompilation, and what it prints.
import DecompilerDesk.Desk
import DecompilerDesk.Engine.Link
import DecompilerDesk.Options
import DecompilerDesk.Report
import DecompilerDesk.Settings

/-!
# Command line

A run opens a binary, analyzes it, inspects an address if asked to, selects every analyzed section
and decompiles them. It prints a report, or the findings as JSON; the console and what went wrong go
to the error output.
-/

namespace DecompilerDesk

namespace CommandLine

/-! ## The run -/

inductive Defeat where
  | failure (cause : Failure)
  /-- The console says why. -/
  | notOpened
  deriving DecidableEq, Repr

def Defeat.message : Defeat → String
  | .failure cause => cause.message
  | .notOpened => "open failed, see log above"

/-- What a run needs around it: an engine and a clock. -/
structure Host (m : Type → Type) where
  /-- Run a command of the engine. -/
  invoke : (command : String) → (arguments : Json) → m (Except Failure Json)
  /-- Whether the engine can be asked no more. -/
  isBroken : m Bool
  /-- The time of day. -/
  now : m TimeOfDay

/-- Issue a request, and complete it if there is one. -/
def Host.serve {m : Type → Type} [Monad m] (host : Host m) (desk : Desk)
    (issue : Desk → Option Request × Desk) : m Desk := do
  let (request, desk) := issue (desk.atTime (← host.now))
  match request with
  | none => pure desk
  | some request =>
    let reply ← host.invoke request.command request.arguments
    pure ((desk.atTime (← host.now)).apply (request.complete reply))

/-- The analysis that the options ask for. -/
def analysis (options : Options) (desk : Desk) : Option Request × Desk :=
  match options.address with
  | some address => desk.analyze address
  | none => desk.analyzeAll

/-- What follows the analysis. -/
def finish {m : Type → Type} [Monad m] (host : Host m) (options : Options) (desk : Desk) :
    m Desk := do
  let desk ← match options.inspect with
    | some address => host.serve desk (·.inspect address)
    | none => pure desk
  host.serve desk.selectAll Desk.decompileSelected

/-- One run on a new desk: the desk at the end, and what defeated the run. -/
def conduct {m : Type → Type} [Monad m] (host : Host m) (options : Options) (desk : Desk) :
    m (Desk × Option Defeat) := do
  let desk ← host.serve desk (·.openFile (some options.binary))
  if desk.session.file.isNone then pure (desk, some .notOpened)
  else
    let desk ← host.serve desk (analysis options)
    if ← host.isBroken then
      pure (desk, some (.failure (.transport "analyze" "engine connection lost")))
    else
      let desk ← finish host options desk
      pure (desk, none)

/-- A linked engine, and a clock that stands still. There is no result while a reply is waited for. -/
def linked : Host (OptionT (StateM Link)) where
  invoke command arguments := .mk fun link => link.invoke command arguments
  isBroken := .mk fun link => (some link.broken, link)
  now := pure default

/-! ## The outcome -/

/-- The settings under the options of a run. -/
def override (options : Options) (settings : Settings) : Settings :=
  match options.engine with
  | some command => { settings with engineCommand := command }
  | none => settings

/-- The settings of a run. -/
def settings (options : Options) (files : Files) (fromEnvironment : Option Path) :
    Except Failure Settings :=
  (Settings.load files (Settings.filePath options.config fromEnvironment)).map (override options)

/-- The desk on which a run begins. -/
def desk (settings : Settings) : Desk := .start settings.logCapacity settings.layout

/-- What a run comes to. -/
structure Result where
  /-- The desk, if the engine could be started. -/
  desk : Option Desk
  defeat : Option Defeat

namespace Result

def exitCode (result : Result) : UInt32 := if result.defeat.isNone then 0 else 1

/-- The standard output. -/
def output (json : Bool) (result : Result) : String :=
  match result.desk, result.defeat with
  | some desk, none => Report.printed json desk.session
  | _, _ => ""

/-- The error output: the console, if there is one, and what went wrong. `entryText` is the text of an
entry. -/
def errors (entryText : Entry → String) (result : Result) : String :=
  let console := match result.desk with
    | none => ""
    | some desk =>
      "\nLog:\n" ++ String.join (desk.console.entries.map fun e => "  " ++ entryText e ++ "\n")
  let error := match result.defeat with
    | none => ""
    | some defeat => "Error: " ++ defeat.message ++ "\n"
  console ++ error

end Result

/-- How far a run gets. -/
structure Run where
  /-- What it comes to, if the engine does not keep it waiting for ever. -/
  result : Option Result
  /-- The link to the engine, if it could be started. -/
  link : Option Link

/-- A run with the engine that the settings name. `start` is what the system makes of a program. -/
def run (start : String → List String → Except SystemError Engine) (options : Options)
    (files : Files) (fromEnvironment : Option Path) : Run :=
  match settings options files fromEnvironment with
  | .error failure => ⟨some ⟨none, some (.failure failure)⟩, none⟩
  | .ok settings =>
    match Link.spawn start settings.engineCommand with
    | .error failure => ⟨some ⟨none, some (.failure failure)⟩, none⟩
    | .ok link =>
      let (ending, link) := (conduct linked options (desk settings)).run link
      ⟨ending.map fun (desk, defeat) => ⟨some desk, defeat⟩, some link⟩

end CommandLine

end DecompilerDesk
