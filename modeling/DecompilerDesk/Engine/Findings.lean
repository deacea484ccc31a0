-- SUMMARY: What the engine finds out about a binary, and its JSON form.
import DecompilerDesk.Address
import DecompilerDesk.Json.Record

/-!
# Findings

The types that answers of the engine carry. An instruction is numbered by its position in the whole
decompilation; a lifted line names the instruction it was lifted from.
-/

namespace DecompilerDesk

open Json (Codec Fields Field)

/-- A discovered address range. -/
structure Section where
  start : Address
  stop : Option Address
  analyzed : Bool
  deriving DecidableEq, Repr

def Section.codec : Codec Section :=
  .record "SectionInfo"
    (.cons (.required "startAddress" .word) <|
      .cons (.withDefault "endAddress" Codec.word.optional none) <|
      .cons (.required "analyzed" .boolean) .nil)
    (fun (start, stop, analyzed, ()) => ⟨start, stop, analyzed⟩)
    (fun s => (s.start, s.stop, s.analyzed, ()))

/-- One disassembled instruction. -/
structure Instruction where
  index : UInt64
  /-- The start of the section it belongs to. -/
  home : Address
  text : String
  deriving DecidableEq, Repr

def Instruction.codec : Codec Instruction :=
  .record "AssemblyLine"
    (.cons (.required "index" .count) <|
      .cons (.required "parentsStartAddress" .word) <|
      .cons (.required "data" .text) .nil)
    (fun (index, home, text, ()) => ⟨index, home, text⟩)
    (fun i => (i.index, i.home, i.text, ()))

/-- One statement of the intermediate representation. -/
structure LiftedLine where
  /-- The index of the instruction it was lifted from. -/
  source : UInt64
  text : String
  deriving DecidableEq, Repr

def LiftedLine.codec : Codec LiftedLine :=
  .record "IrLine"
    (.cons (.required "parentsAssemblyIndex" .count) <| .cons (.required "data" .text) .nil)
    (fun (source, text, ()) => ⟨source, text⟩)
    (fun l => (l.source, l.text, ()))

/-- The decompilation of a set of sections. -/
structure Decompilation where
  assembly : List Instruction
  lifted : List LiftedLine
  code : String
  deriving DecidableEq, Repr

namespace Decompilation

def codec : Codec Decompilation :=
  .record "DecompileResult"
    (.cons (.required "assembly" Instruction.codec.list) <|
      .cons (.required "ir" LiftedLine.codec.list) <|
      .cons (.required "decompiled" .text) .nil)
    (fun (assembly, lifted, code, ()) => ⟨assembly, lifted, code⟩)
    (fun d => (d.assembly, d.lifted, d.code, ()))

/-- The lines lifted from the instruction at an index. -/
def liftedFrom (d : Decompilation) (index : UInt64) : List LiftedLine :=
  d.lifted.filter (·.source = index)

end Decompilation

/-- An instruction and the statements it lowers to. -/
structure Lowering where
  instruction : String
  statements : List String
  deriving DecidableEq, Repr

namespace Lowering

def statementCodec : Codec String :=
  .record "IrStatement" (.cons (.required "statement" .text) .nil)
    (fun (statement, ()) => statement) (fun statement => (statement, ()))

def codec : Codec Lowering :=
  .record "IrInspectResult"
    (.cons (.required "instruction" .text) <|
      .cons (.required "statements" statementCodec.list) .nil)
    (fun (instruction, statements, ()) => ⟨instruction, statements⟩)
    (fun l => (l.instruction, l.statements, ()))

end Lowering

/-- The addresses connected to a block. -/
structure Connections where
  addresses : List Address
  deriving DecidableEq, Repr

namespace Connections

def codec : Codec Connections := .rename Codec.word.list Connections.mk Connections.addresses

def text (connections : Connections) : String := ", ".intercalate (connections.addresses.map Address.text)

end Connections

end DecompilerDesk
