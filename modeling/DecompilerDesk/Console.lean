-- SUMMARY: The console: the newest lines, each with the time of its logging.
import DecompilerDesk.Argument

/-!
# Console

The console keeps at most `capacity` entries and forgets the oldest first. An entry is shown behind
the time of day at which it was logged.
-/

namespace DecompilerDesk

structure TimeOfDay where
  hour : Fin 24
  minute : Fin 60
  second : Fin 60
  deriving DecidableEq, Repr, Inhabited

namespace TimeOfDay

private def twoDigits (n : Nat) : List Char := [Nat.digitChar (n / 10), Nat.digitChar (n % 10)]

/-- The time in brackets, and a blank. -/
def stamp (t : TimeOfDay) : List Char :=
  '[' :: twoDigits t.hour ++ ':' :: twoDigits t.minute ++ ':' :: twoDigits t.second ++ [']', ' ']

end TimeOfDay

structure Entry where
  time : TimeOfDay
  message : String
  deriving DecidableEq, Repr

namespace Entry

def text (entry : Entry) : String := String.ofList entry.time.stamp ++ entry.message

end Entry

structure Console where
  capacity : Nat
  capacity_pos : 0 < capacity
  /-- The entries kept, oldest first. -/
  entries : List Entry
  expanded : Bool
  /-- The time of day of the next entry. -/
  clock : TimeOfDay
  deriving DecidableEq

namespace Console

def defaultCapacity : UInt64 := 1000

/-- The headline of a console without entries. -/
def placeholder : String := "Log Shows Here"

/-- A console without entries. It has room for one at least. -/
def ofCapacity (requested : UInt64) : Console where
  capacity := max requested.toNat 1
  capacity_pos := by omega
  entries := []
  expanded := false
  clock := default

/-- Add an entry, and forget the oldest ones that are too many then. -/
def push (console : Console) (entry : Entry) : Console :=
  let tooMany := console.entries.length + 1 - console.capacity
  { console with entries := console.entries.drop tooMany ++ [entry] }

/-- Log a message made of parts, with one blank between two of them. -/
def log (console : Console) (parts : List String) : Console :=
  console.push ⟨console.clock, " ".intercalate parts⟩

/-- Log a message made of arguments. -/
def logLine (console : Console) (arguments : List Argument) : Console :=
  console.log (arguments.map Argument.render)

def toggle (console : Console) : Console := { console with expanded := !console.expanded }

def latest? (console : Console) : Option Entry := console.entries.getLast?

/-- What the collapsed console shows. -/
def headline (console : Console) : String :=
  (console.latest?.map Entry.text).getD placeholder

end Console

end DecompilerDesk
