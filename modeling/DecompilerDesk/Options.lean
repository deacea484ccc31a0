-- SUMMARY: The options of a run, and the words of a command line that give them.
import DecompilerDesk.Path

/-!
# Options

A command line names one binary and any of the options, each at most once. The value of an option
stands behind an equals sign or is the next word. The words that follow an engine's option all belong
to its command. Behind the word `--` no word is an option any more. Words are byte strings, as paths
are.
-/

namespace DecompilerDesk

structure Options where
  binary : Path
  /-- The settings file. -/
  config : Option Path := none
  /-- The engine's command, in place of the one in the settings. -/
  engine : Option (List String) := none
  /-- Analyze from this address instead of the whole binary. -/
  address : Option String := none
  /-- Print the inspection of this address too. -/
  inspect : Option String := none
  /-- Print JSON. -/
  json : Bool := false
  deriving DecidableEq, Repr

namespace Options

/-- The words of an engine's command, which single blanks separate. -/
def splitWords (text : String) : List String := text.splitOn " "

/-- The options, with the engine's command that the environment gives if they give none. -/
def underEnvironment (options : Options) (command : Option String) : Options :=
  { options with engine := options.engine <|> command.map splitWords }

/-! ## Reading a command line -/

def dash : UInt8 := '-'.toUInt8

/-- The word behind which no word is an option. -/
def optionsEnd : Bytes := [dash, dash]

/-- Whether a word is an option: it begins with a dash and is more than a dash. -/
def isOption (word : Bytes) : Bool := word.head? = some dash && word ≠ [dash]

/-- The words before the first option, and each option with the words that follow it. -/
def group : List Bytes → List Bytes × List (Bytes × List Bytes)
  | [] => ([], [])
  | word :: rest =>
    let (plain, options) := group rest
    if isOption word then ([], (word, plain) :: options) else (word :: plain, options)

/-- The name of an option, and the value behind its equals sign. -/
def splitOption (option : Bytes) : Bytes × Option Bytes :=
  match option.span (· ≠ '='.toUInt8) with
  | (name, []) => (name, none)
  | (name, _ :: value) => (name, some value)

/-- The path that a word names. An empty word names none. -/
def path? (word : Bytes) : Option Path := if word.isEmpty then none else some ⟨word⟩

/-- What is known of the options while the command line is read. -/
structure Draft where
  /-- The words that belong to no option. -/
  plain : List Bytes
  config : Option Path := none
  engine : Option (List String) := none
  address : Option String := none
  inspect : Option String := none
  json : Bool := false

namespace Draft

/-- A value for what has none yet. -/
def once (known : Option α) (value : α) : Option (Option α) :=
  if known.isSome then none else some (some value)

/-- The value of an option, and the words that follow it and are none of its own. -/
def valueOf : Option Bytes → List Bytes → Option (Bytes × List Bytes)
  | some value, words => some (value, words)
  | none, value :: words => some (value, words)
  | none, [] => none

/-- Take an option with the words that follow it. There is none if the option is unknown, is given
twice or lacks its value. -/
def add (draft : Draft) (option : Bytes × List Bytes) : Option Draft := do
  let (name, value) := splitOption option.1
  match ← name.text?, value, option.2 with
  | "--json", none, words =>
    if draft.json then none
    else some { draft with json := true, plain := draft.plain ++ words }
  | "--engine", some command, words =>
    some
      { draft with
        engine := ← once draft.engine (splitWords (← command.text?))
        plain := draft.plain ++ words }
  | "--engine", none, word :: words => do
    let command ← (word :: words).mapM Bytes.text?
    some { draft with engine := ← once draft.engine (command.flatMap splitWords) }
  | "--config", value, words => do
    let (path, words) ← valueOf value words
    some
      { draft with
        config := ← once draft.config (← path? path)
        plain := draft.plain ++ words }
  | "--address", value, words => do
    let (address, words) ← valueOf value words
    some
      { draft with
        address := ← once draft.address (← address.text?)
        plain := draft.plain ++ words }
  | "--inspect", value, words => do
    let (address, words) ← valueOf value words
    some
      { draft with
        inspect := ← once draft.inspect (← address.text?)
        plain := draft.plain ++ words }
  | _, _, _ => none

end Draft

/-- The options that the words of a command line give. -/
def ofWords? (words : List Bytes) : Option Options := do
  let (words, rest) := words.span (· ≠ optionsEnd)
  let (plain, options) := group words
  let draft ← options.foldlM Draft.add { plain }
  match draft.plain ++ rest.tail with
  | [binary] =>
    some
      { binary := ← path? binary
        config := draft.config
        engine := draft.engine
        address := draft.address
        inspect := draft.inspect
        json := draft.json }
  | _ => none

/-! ## Refusals -/

/-- The exit code of a run whose command line gives no options. -/
def refusedCode : UInt32 := 2

def usage : String :=
  "Usage: decompiler-desk BINARY [--config FILE] [--engine COMMAND] [--address ADDRESS]"
    ++ " [--inspect ADDRESS] [--json]\n"

end Options

end DecompilerDesk
