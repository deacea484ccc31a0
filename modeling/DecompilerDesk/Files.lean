-- SUMMARY: A tree of files, directories and links, as one program sees it from its working directory.
import DecompilerDesk.Path
import DecompilerDesk.SystemError

/-!
# Files

A path is walked name by name, from the working directory or from the root: `.` stays where it is,
`..` goes back, and any other name leads down, or along a link if there is one. Each name but the last
has to lead to a directory through which ways may lead. What the system refuses to the program is part
of the tree.
-/

namespace DecompilerDesk

/-! ## Spots -/

/-- A directory from which a way down may begin. -/
inductive Origin where
  | root
  /-- So many directories above the working directory. -/
  | above (levels : Nat)
  deriving DecidableEq, Repr

/-- A place in the tree: where a node is, or could be. -/
structure Spot where
  origin : Origin
  /-- The names on the way down. -/
  names : List Bytes
  deriving DecidableEq, Repr

namespace Spot

/-- The place of the working directory. -/
def here : Spot := ⟨.above 0, []⟩

/-- The place from which a path is walked that is met at a place. -/
def toward (spot : Spot) (path : Path) : Spot := if path.isAbsolute then ⟨.root, []⟩ else spot

/-- The place of the directory around a place. The root is its own, and so many directories are around
the working directory. -/
def back (depth : Nat) : Spot → Spot
  | ⟨.root, []⟩ => ⟨.root, []⟩
  | ⟨.above levels, []⟩ => if levels + 1 < depth then ⟨.above (levels + 1), []⟩ else ⟨.root, []⟩
  | ⟨origin, names⟩ => ⟨origin, names.dropLast⟩

/-- The place to which a name leads. An empty name leads nowhere else. -/
def step (depth : Nat) (spot : Spot) (name : Bytes) : Spot :=
  if name = [] ∨ name = Path.dot then spot
  else if name = Path.dotDot then spot.back depth
  else { spot with names := spot.names ++ [name] }

end Spot

/-! ## The tree -/

/-- What the system refuses to the program at a file. -/
structure Rights where
  unreadable : Option SystemError := none
  unwritable : Option SystemError := none
  deriving DecidableEq, Repr

structure File where
  content : Bytes
  rights : Rights := {}
  /-- It keeps what is written to it. A device does not, nor does a file in which the system shows
  itself. -/
  keeps : Bool := true
  deriving DecidableEq, Repr

structure Directory where
  unreadable : Option SystemError := none
  /-- Why no way leads through it. -/
  barred : Option SystemError := none
  /-- Why no file can be made in it. -/
  unwritable : Option SystemError := none
  deriving DecidableEq, Repr

inductive Node where
  | file (file : File)
  | directory (directory : Directory)
  deriving DecidableEq, Repr

structure Files where
  nodes : List (Spot × Node) := []
  /-- The links, each with the path to follow from the directory in which it stands. -/
  links : List (Spot × Path) := []
  /-- How many directories are around the working directory, the root among them. -/
  depth : Nat := 1
  /-- What the system refuses at files that the program makes. -/
  made : Rights := {}
  deriving DecidableEq, Repr

namespace Files

/-- What is at a place. The directories from which ways begin are there. -/
def node? (files : Files) (spot : Spot) : Option Node :=
  match files.nodes.find? (·.1 = spot) with
  | some (_, node) => some node
  | none => if spot.names.isEmpty then some (.directory {}) else none

/-- The path of the link at a place. Where a node is, there is none. -/
def link? (files : Files) (spot : Spot) : Option Path :=
  if (files.node? spot).isSome then none else (files.links.find? (·.1 = spot)).map (·.2)

/-- Put a node at a place. -/
def put (files : Files) (spot : Spot) (node : Node) : Files :=
  { files with nodes := (spot, node) :: files.nodes.filter (·.1 ≠ spot) }

/-! ## Walking -/

/-- How many links the system follows for one path. -/
def maxLinks : Nat := 40

/-- Follow a name out of a place, which has to be a directory that lets ways through unless the name is
empty. -/
def enter (files : Files) (spot : Spot) (name : Bytes) : Except SystemError Spot :=
  match files.node? spot with
  | none => .error .notFound
  | some (.file _) => .error .notDirectory
  | some (.directory directory) =>
    if name = [] then .ok spot
    else
      match directory.barred with
      | some refused => .error refused
      | none => if 255 < name.length then .error .nameTooLong else .ok (spot.step files.depth name)

/-- Follow names up to the first link. What to do with a link, given the place to follow it from and
all names still to follow, is a parameter; `ending` gives the names on the path of a link that comes
last. -/
def along (files : Files) (ending : Path → List Bytes)
    (follow : Spot → List Bytes → Except SystemError Spot) (spot : Spot) :
    List Bytes → Except SystemError Spot
  | [] => .ok spot
  | name :: rest =>
    (files.enter spot name).bind fun next =>
      match files.link? next with
      | none => files.along ending follow next rest
      | some path => follow (spot.toward path) (if rest = [] then ending path else path.way ++ rest)

/-- Follow names, and at most so many links. -/
def walk (files : Files) (ending : Path → List Bytes) :
    Nat → Spot → List Bytes → Except SystemError Spot
  | 0 => files.along ending fun _ _ => .error .tooManyLinks
  | links + 1 => files.along ending (files.walk ending links)

/-- Follow the names that `ending` finds on a path, if the system accepts the path. -/
def follow (files : Files) (ending : Path → List Bytes) (path : Path) : Except SystemError Spot :=
  if path.bytes.isEmpty then .error .notFound
  else if path.bytes.contains 0 then .error .zeroInPath
  else if 4095 < path.bytes.length then .error .nameTooLong
  else files.walk ending maxLinks (Spot.here.toward path) (ending path)

/-! ## Reading and writing -/

/-- Look up what a path means. -/
def find? (files : Files) (path : Path) : Except SystemError Node :=
  (files.follow Path.way path).bind fun spot =>
    match files.node? spot with
    | some node => .ok node
    | none => .error .notFound

def exists? (files : Files) (path : Path) : Bool := (files.find? path).isOk

def read (files : Files) (path : Path) : Except SystemError Bytes :=
  (files.find? path).bind fun
    | .file file => file.rights.unreadable.elim (.ok file.content) .error
    | .directory directory => .error (directory.unreadable.getD .isDirectory)

/-- The content of a file that is UTF-8. -/
def readText (files : Files) (path : Path) : Except SystemError String :=
  (files.read path).bind fun content =>
    match content.text? with
    | some text => .ok text
    | none => .error .notUtf8

/-- Why no file can be made at a place. -/
def unmakeable? (files : Files) (spot : Spot) : Option SystemError :=
  match files.node? (spot.back files.depth) with
  | some (.directory directory) => directory.unwritable
  | _ => none

/-- Write a file, in place of one that is there. Its directory has to be there. -/
def write (files : Files) (path : Path) (content : Bytes) : Except SystemError Files :=
  (files.follow Path.wayToFile path).bind fun spot =>
    match files.node? spot with
    | some (.directory _) => .error .isDirectory
    | some (.file file) =>
      file.rights.unwritable.elim
        (.ok (if file.keeps then files.put spot (.file { file with content }) else files)) .error
    | none =>
      (files.unmakeable? spot).elim
        (.ok (files.put spot (.file { content, rights := files.made }))) .error

end Files

end DecompilerDesk
