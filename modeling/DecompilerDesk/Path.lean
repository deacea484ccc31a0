-- SUMMARY: File paths, the names on them, and how they are shown.
import DecompilerDesk.Text.Bytes

/-!
# Paths

A path is a byte string, which need not be UTF-8. Slashes separate the names on it.
-/

namespace DecompilerDesk

structure Path where
  bytes : Bytes
  deriving DecidableEq, Repr, Inhabited

namespace Path

def ofText (text : String) : Path := ⟨Bytes.ofText text⟩

/-- The path as it is shown to the user. -/
def display (path : Path) : String := path.bytes.display

/-! ## Names -/

def slash : UInt8 := '/'.toUInt8

/-- The name by which a directory calls itself. -/
def dot : Bytes := ['.'.toUInt8]

/-- The name by which a directory calls the one around it. -/
def dotDot : Bytes := ['.'.toUInt8, '.'.toUInt8]

/-- The bytes between slashes. -/
def components : Bytes → List Bytes
  | [] => [[]]
  | byte :: rest =>
    if byte = slash then [] :: components rest
    else
      match components rest with
      | [] => [[byte]]
      | name :: names => (byte :: name) :: names

/-- The names on a path. Between slashes that stand together there is none. -/
def names (path : Path) : List Bytes := (components path.bytes).filter (· ≠ [])

def isAbsolute (path : Path) : Bool := path.bytes.head? = some slash

/-- Whether the path ends in a slash. It can then only mean a directory. -/
def isSlashed (path : Path) : Bool := path.bytes.getLast? = some slash

/-- The names to what the path means. A slash at its end counts as an empty name: only a directory has
one. -/
def way (path : Path) : List Bytes := path.names ++ if path.isSlashed then [[]] else []

/-- The names to where the path wants a file. A name with a slash behind it is not looked for: the
directory that would hold it is meant. -/
def wayToFile (path : Path) : List Bytes :=
  path.names.dropLast ++ [if path.isSlashed then dot else path.names.getLast?.getD dot]

end Path

end DecompilerDesk
