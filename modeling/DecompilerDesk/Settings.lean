-- SUMMARY: The settings, their file, and where it is looked for.
import DecompilerDesk.Console
import DecompilerDesk.Files
import DecompilerDesk.Layout.Basic

/-!
# Settings

The settings are kept in a JSON file. What the file does not name keeps its default, and without a
file all is default; a file that does not decode is a failure.
-/

namespace DecompilerDesk

open Json (Codec)

structure Settings where
  /-- The program and the arguments of the engine. -/
  engineCommand : List String := ["fireball-bridge"]
  logCapacity : UInt64 := Console.defaultCapacity
  /-- The layout at the start. -/
  layout : Layout := .standard
  darkMode : Bool := false
  deriving DecidableEq

namespace Settings

def defaults : Settings := {}

def codec : Codec Settings :=
  .record "Settings"
    (.cons (.withDefault "engine_command" Codec.text.list defaults.engineCommand) <|
      .cons (.withDefault "log_capacity" .count defaults.logCapacity) <|
      .cons (.withDefault "layout" Layout.codec defaults.layout) <|
      .cons (.withDefault "dark_mode" .boolean defaults.darkMode) .nil)
    (fun (engineCommand, logCapacity, layout, darkMode, ()) =>
      ⟨engineCommand, logCapacity, layout, darkMode⟩)
    (fun s => (s.engineCommand, s.logCapacity, s.layout, s.darkMode, ()))

/-! ## The file -/

/-- The file in the working directory. -/
def defaultFile : Path := .ofText "firebat.json"

/-- The settings file: the one named explicitly, else the one that the environment names, else the
default one. -/
def filePath (explicit : Option Path) (fromEnvironment : Option Path) : Path :=
  explicit.getD ((fromEnvironment.filter (!·.bytes.isEmpty)).getD defaultFile)

/-- The settings in a text. They have to name an engine. -/
def parse (text : String) : Except String Settings :=
  match codec.parse text with
  | .error fault => .error fault.message
  | .ok settings =>
    if settings.engineCommand.isEmpty then .error "engine_command must name a program"
    else .ok settings

/-- The settings in a file with some content, if the content can be had. -/
def ofContent (path : Path) (content : Except String String) : Except Failure Settings :=
  (content.bind parse).mapError (.settings path.display)

/-- The settings in a file, or the defaults if there is none. -/
def load (files : Files) (path : Path) : Except Failure Settings :=
  if files.exists? path then ofContent path ((files.readText path).mapError SystemError.message)
  else .ok defaults

def save (settings : Settings) (files : Files) (path : Path) : Except Failure Files :=
  (files.write path (Bytes.ofText (codec.pretty settings))).mapError fun refused =>
    .settings path.display refused.message

end Settings

end DecompilerDesk
