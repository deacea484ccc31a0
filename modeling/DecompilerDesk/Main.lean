-- SUMMARY: The program: its arguments, its settings file, and the pipes to its engine.
import DecompilerDesk.CommandLine
import Std.Time.Format

/-!
# The program

The engine runs beside this program and is reached through two named pipes, which bear the name of
its own program: requests are written to the one that ends in `.requests`, and replies are read from
the one that ends in `.replies`. The arguments of its command are for whoever starts it.
-/

namespace DecompilerDesk

namespace Program

/-! ## The system -/

/-- What the system says when it refuses. -/
def reason (refused : IO.Error) : String :=
  match refused with
  | .noFileOrDirectory .. => SystemError.notFound.message
  | .permissionDenied .. => SystemError.permissionDenied.message
  | .resourceVanished .. => SystemError.brokenPipe.message
  | .inappropriateType _ 21 _ => SystemError.isDirectory.message
  | .inappropriateType .. => SystemError.notDirectory.message
  | other => toString other

def timeOfDay : IO TimeOfDay := do
  let time ← Std.Time.PlainTime.now
  return ⟨Fin.ofNat 24 time.hour.val.toNat, Fin.ofNat 60 time.minute.val.toNat,
    Fin.ofNat 60 time.second.val.toNat⟩

/-- What a file holds, or why it cannot be read. There is nothing where the look-up of the path is
refused, whatever the reason. -/
def readFile (name : String) : IO (Option (Except String String)) := do
  try discard (IO.FS.realPath name)
  catch _ => return none
  try
    let content ← IO.FS.readBinFile name
    match Bytes.text? content.toList with
    | some text => return some (.ok text)
    | none => return some (.error SystemError.notUtf8.message)
  catch refused =>
    match refused with
    -- The system takes no path of this length.
    | .invalidArgument .. => return none
    | _ => return some (.error (reason refused))

/-! ## The engine -/

/-- The pipes to an engine, and how far the talk with it has come. -/
structure Wire where
  requests : IO.FS.Handle
  replies : IO.FS.Handle
  nextId : Nat := 1
  broken : Bool := false

namespace Wire

/-- Open the pipes that bear a program's name. -/
def reach (program : String) : IO (Except Failure Wire) := do
  try
    let requests ← IO.FS.Handle.mk (program ++ ".requests") .write
    let replies ← IO.FS.Handle.mk (program ++ ".replies") .read
    return .ok { requests, replies }
  catch refused => return .error (.transport ("spawn " ++ program) (reason refused))

/-- The bytes up to the next line end and with it, or all that are left. -/
partial def readLine (replies : IO.FS.Handle) (line : ByteArray) : IO ByteArray := do
  let byte ← replies.read 1
  if byte.isEmpty then return line
  else if byte.toList = [lineEnd] then return line ++ byte
  else readLine replies (line ++ byte)

/-- Send a request and read the line that answers it. -/
def exchange (wire : Wire) (command : String) (arguments : Json) : IO (Except Failure Json) := do
  let sent ← try
      wire.requests.putStr (RequestLine.mk wire.nextId command arguments).text
      wire.requests.flush
      pure none
    catch refused => pure (some refused)
  match sent with
  | some refused => return .error (.transport ("send " ++ command) (reason refused))
  | none =>
    try
      let line ← readLine wire.replies .empty
      return Link.answer command wire.nextId line.toList
    catch refused => return .error (.transport ("receive " ++ command) (reason refused))

def invoke (command : String) (arguments : Json) : StateT Wire IO (Except Failure Json) := do
  let wire ← get
  if wire.broken then return .error (Link.outOfStep command)
  else
    let result ← wire.exchange command arguments
    set { wire with nextId := wire.nextId + 1, broken := Link.breaks result }
    return result

def host : CommandLine.Host (StateT Wire IO) where
  invoke := invoke
  isBroken := return (← get).broken
  now := timeOfDay

end Wire

/-! ## The run -/

def settings (options : Options) : IO (Except Failure Settings) := do
  let fromEnvironment := (← IO.getEnv "FIREBAT_CONFIG").map Path.ofText
  let path := Settings.filePath options.config fromEnvironment
  let loaded ← match ← readFile path.display with
    | some content => pure (Settings.ofContent path content)
    | none => pure (.ok Settings.defaults)
  return loaded.map (CommandLine.override options)

def run (options : Options) : IO CommandLine.Result := do
  match ← settings options with
  | .error failure => return ⟨none, some (.failure failure)⟩
  | .ok settings =>
    match settings.engineCommand with
    | [] => return ⟨none, some (.failure Link.noCommand)⟩
    | program :: _ =>
      match ← Wire.reach program with
      | .error failure => return ⟨none, some (.failure failure)⟩
      | .ok wire =>
        let (desk, defeat) ←
          (CommandLine.conduct Wire.host options (CommandLine.desk settings)).run' wire
        return ⟨some desk, defeat⟩

/-- Do what the words of the command line ask for: the exit code. -/
def start (words : List String) : IO UInt32 := do
  match Options.ofWords? (words.map Bytes.ofText) with
  | none =>
    IO.eprint Options.usage
    return Options.refusedCode
  | some options =>
    let options := options.underEnvironment (← IO.getEnv "FIREBAT_ENGINE")
    let result ← run options
    IO.print (result.output options.json)
    IO.eprint (result.errors Entry.text)
    return result.exitCode

end Program

end DecompilerDesk

def main (words : List String) : IO UInt32 := DecompilerDesk.Program.start words
