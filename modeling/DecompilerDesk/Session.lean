-- SUMMARY: What is known of the opened binary.
import DecompilerDesk.Palette
import DecompilerDesk.Path

/-!
# Session

The session holds what the engine has told about the opened file, and what the user has selected
and hovers over. Tickets number the decompilations asked for and epochs the files opened; an answer
counts only while its number is the newest.
-/

namespace DecompilerDesk

open Json (Codec Fields Field)

/-- A section and whether it is selected. -/
structure KnownSection where
  start : Address
  stop : Option Address
  analyzed : Bool
  selected : Bool
  deriving DecidableEq, Repr

namespace KnownSection

def codec : Codec KnownSection :=
  .record "KnownSection"
    (.cons (.required "startAddress" .word) <|
      .cons (.omissible "endAddress" .word) <|
      .cons (.required "analyzed" .boolean) <|
      .cons (.required "selected" .boolean) .nil)
    (fun (start, stop, analyzed, selected, ()) => ⟨start, stop, analyzed, selected⟩)
    (fun s => (s.start, s.stop, s.analyzed, s.selected, ()))

/-- A section as it arrives, not selected. -/
def ofSection (s : Section) : KnownSection := ⟨s.start, s.stop, s.analyzed, false⟩

end KnownSection

/-- The number of a decompilation that was asked for. -/
structure Ticket where
  serial : Nat
  deriving DecidableEq, Repr

/-- The number of an opened file. -/
structure Epoch where
  serial : Nat
  deriving DecidableEq, Repr

structure Session where
  sections : List KnownSection := []
  /-- The decompilation on show. -/
  shown : Option Tinted := none
  /-- The index of the instruction under the pointer. -/
  hovered : Option UInt64 := none
  entryText : Option String := none
  lowerings : List Lowering := []
  file : Option Path := none
  /-- The newest ticket. -/
  ticket : Ticket := ⟨0⟩
  /-- The epoch of the opened file. -/
  epoch : Epoch := ⟨0⟩
  deriving DecidableEq, Repr

namespace Session

/-! ## Sections -/

/-- Put a section in place of the first one with its start, or behind all others. -/
def place (new : KnownSection) : List KnownSection → List KnownSection
  | [] => [new]
  | known :: rest => if known.start = new.start then new :: rest else known :: place new rest

/-- Add a section that arrives to those that arrived with it. -/
def arrive (fresh : List KnownSection) (s : Section) : List KnownSection :=
  place (.ofSection s) fresh

/-- The sections after new ones arrived: the old ones whose start did not arrive, then the new ones
in the order in which their starts arrived first. -/
def mergeInto (known : List KnownSection) (incoming : List Section) : List KnownSection :=
  let fresh := incoming.foldl arrive []
  known.filter (fun old => !fresh.any (·.start = old.start)) ++ fresh

def merge (session : Session) (incoming : List Section) : Session :=
  { session with sections := mergeInto session.sections incoming }

/-- Whether the section at an address is known and analyzed. -/
def canToggle (session : Session) (address : Address) : Bool :=
  (session.sections.find? (·.start = address)).any (·.analyzed)

/-- Flip the selection of the first section with a start, if it is analyzed. -/
def flip (address : Address) : List KnownSection → List KnownSection
  | [] => []
  | known :: rest =>
    if known.start = address then
      (if known.analyzed then { known with selected := !known.selected } else known) :: rest
    else known :: flip address rest

/-- Flip the selection of the section at an address, if it is analyzed. -/
def toggle (session : Session) (address : Address) : Session :=
  { session with sections := flip address session.sections }

/-- Select every analyzed section. -/
def selectAll (session : Session) : Session :=
  { session with
    sections := session.sections.map fun s => { s with selected := s.selected || s.analyzed } }

/-- The starts of the selected sections. -/
def selected (session : Session) : List Address :=
  (session.sections.filter (·.selected)).map (·.start)

/-! ## Decompilation -/

/-- Show a decompilation in place of the one before. Nothing is hovered over then. -/
def present (session : Session) (findings : Decompilation) : Session :=
  { session with shown := some (.ofDecompilation findings), hovered := none }

/-- Take the next ticket. -/
def beginDecompilation (session : Session) : Ticket × Session :=
  let ticket : Ticket := ⟨session.ticket.serial + 1⟩
  (ticket, { session with ticket := ticket })

/-- Show a decompilation if its ticket is still the newest. -/
def finishDecompilation (session : Session) (ticket : Ticket) (findings : Decompilation) : Session :=
  if ticket = session.ticket then session.present findings else session

/-! ## The rest -/

def hover (session : Session) (index : Option UInt64) : Session :=
  { session with hovered := index }

def isHighlighted (session : Session) (index : UInt64) : Bool := session.hovered = some index

def isCurrent (session : Session) (epoch : Epoch) : Bool := epoch = session.epoch

/-- Forget all about the file before. Tickets and epochs handed out are no longer the newest. -/
def reset (session : Session) (path : Path) : Session :=
  { file := some path
    ticket := ⟨session.ticket.serial + 1⟩
    epoch := ⟨session.epoch.serial + 1⟩ }

end Session

end DecompilerDesk
