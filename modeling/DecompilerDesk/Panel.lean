-- SUMMARY: The panels of the window, the rows that hold them, and the places to drop one.
import DecompilerDesk.Json.Record
import DecompilerDesk.Json.Variant

/-!
# Panels

Four panels stand in named rows, from left to right.
-/

namespace DecompilerDesk

inductive Panel where
  | sections
  | assembly
  | ir
  | ast
  deriving DecidableEq, Repr

namespace Panel

/-- Every panel, in the order in which they are placed at first. -/
def all : List Panel := [sections, assembly, ir, ast]

theorem mem_all (panel : Panel) : panel ∈ all := by cases panel <;> decide

/-- The name under which a panel is saved. -/
def id : Panel → String
  | sections => "section-panel"
  | assembly => "asm-panel"
  | ir => "ir-panel"
  | ast => "ast-panel"

def title : Panel → String
  | sections => "Section Panel"
  | assembly => "Assembly Panel"
  | ir => "IR Panel"
  | ast => "AST Panel"

def codec : Json.Codec Panel := .variant (all.map fun panel => (panel.id, panel)) id

end Panel

structure Row where
  name : String
  panels : List Panel
  deriving DecidableEq, Repr

def Row.codec : Json.Codec Row :=
  .record "Row" (.cons (.required "id" .text) <| .cons (.required "panels" Panel.codec.list) .nil)
    (fun (name, panels, ()) => ⟨name, panels⟩)
    (fun row => (row.name, row.panels, ()))

/-- Where a panel can be dropped. -/
inductive Target where
  /-- The empty end of a row. -/
  | row (name : String)
  /-- The place of a panel. -/
  | panel (panel : Panel)
  deriving DecidableEq, Repr

end DecompilerDesk
