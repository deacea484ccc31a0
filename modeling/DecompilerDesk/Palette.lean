-- SUMMARY: The tints of instructions.
import DecompilerDesk.Engine.Findings

/-!
# Palette

An instruction and the lines lifted from it share a tint. The palette is cycled by the instruction's
index, so the tint depends on the index alone.
-/

namespace DecompilerDesk

open Json (Codec Fields Field)

structure Tint where
  red : UInt8
  green : UInt8
  blue : UInt8
  deriving DecidableEq, Repr

namespace Tint

def codec : Codec Tint :=
  .record "Tint"
    (.cons (.required "r" .byte) <| .cons (.required "g" .byte) <|
      .cons (.required "b" .byte) .nil)
    (fun (red, green, blue, ()) => ⟨red, green, blue⟩)
    (fun t => (t.red, t.green, t.blue, ()))

def palette : List Tint :=
  [⟨0xFE, 0xE2, 0xE2⟩, ⟨0xDB, 0xEA, 0xFE⟩, ⟨0xDC, 0xFC, 0xE7⟩, ⟨0xFE, 0xF9, 0xC3⟩,
   ⟨0xF3, 0xE8, 0xFF⟩, ⟨0xFC, 0xE7, 0xF3⟩, ⟨0xE0, 0xE7, 0xFF⟩, ⟨0xFF, 0xED, 0xD5⟩,
   ⟨0xCC, 0xFB, 0xF1⟩, ⟨0xCF, 0xFA, 0xFE⟩]

def ofIndex (index : UInt64) : Tint :=
  palette.get ⟨index.toNat % palette.length, Nat.mod_lt _ (by decide)⟩

end Tint

/-- A decompilation with the tints of its instructions. -/
structure Tinted where
  findings : Decompilation
  /-- The tints by index, ascending. -/
  tints : List (UInt64 × Tint)
  deriving DecidableEq, Repr

namespace Tinted

/-- Put the tint of an index into a list ascending by index, unless it is there. -/
def insert (index : UInt64) : List (UInt64 × Tint) → List (UInt64 × Tint)
  | [] => [(index, .ofIndex index)]
  | (i, tint) :: rest =>
    if index < i then (index, .ofIndex index) :: (i, tint) :: rest
    else if index = i then (i, tint) :: rest
    else (i, tint) :: insert index rest

def ofDecompilation (findings : Decompilation) : Tinted where
  findings := findings
  tints := findings.assembly.foldl (fun tints line => insert line.index tints) []

/-- The tint of an index, if an instruction has it. -/
def tint? (t : Tinted) (index : UInt64) : Option Tint :=
  (t.tints.find? (·.1 = index)).map (·.2)

end Tinted

end DecompilerDesk
