-- SUMMARY: What a run prints of a session.
import DecompilerDesk.Session

/-!
# Reports

A report lists the sections, the inspection, and the decompilation: each instruction with the lines
lifted from it under it, then the code. The same findings can be had as JSON.
-/

namespace DecompilerDesk.Report

def rule : String := "".pushn '═' 39

def heading (title : String) : List String := [rule, "  " ++ title, rule]

def sectionLine (s : KnownSection) : String :=
  "  " ++ s.start.text ++ " - " ++ (s.stop.map Address.text).getD "?" ++ "  "
    ++ (if s.analyzed then "[analyzed]" else "[pending]")

def loweringLines (l : Lowering) : List String :=
  ("  " ++ l.instruction) :: l.statements.map ("      " ++ ·)

/-- The number, with blanks in front of it up to four characters. -/
def padded (n : UInt64) : String :=
  let digits := Nat.toDigits 10 n.toNat
  String.ofList (List.replicate (4 - digits.length) ' ' ++ digits)

def instructionLine (i : Instruction) : String :=
  "  " ++ padded i.index ++ "  " ++ i.home.text ++ "  " ++ i.text

def liftedLine (l : LiftedLine) : String := "              " ++ l.text

/-! ## The listing -/

/-- Each instruction and, under it, the lines lifted from it. -/
def listing (findings : Decompilation) : List String :=
  findings.assembly.flatMap fun i =>
    instructionLine i :: (findings.liftedFrom i.index).map liftedLine

def report (session : Session) : List String :=
  heading "SECTIONS" ++ session.sections.map sectionLine
    ++ (if session.lowerings.isEmpty then []
        else "" :: "IR Inspect:" :: session.lowerings.flatMap loweringLines)
    ++ match session.shown with
      | none => ["", "No decompilation produced."]
      | some shown =>
        ["", "Assembly / IR:"] ++ listing shown.findings
          ++ "" :: heading "DECOMPILED" ++ [shown.findings.code]

/-- The findings as JSON. -/
def findings (session : Session) : Json :=
  .object
    [("sections", KnownSection.codec.list.toJson session.sections),
     ("inspect", Lowering.codec.list.toJson session.lowerings),
     ("decompiled", Decompilation.codec.optional.toJson (session.shown.map (·.findings)))]

/-- What a run that succeeds prints. -/
def printed (json : Bool) (session : Session) : String :=
  if json then (findings session).sorted.pretty ++ "\n"
  else String.join ((report session).map (· ++ "\n"))

end DecompilerDesk.Report
