-- SUMMARY: A drag in flight.
import DecompilerDesk.Layout.Move

/-!
# Dragging

A drag remembers the panel it carries and the row it came from. It owns no layout: what a drop does
is a move, worked out on the layout of that moment.
-/

namespace DecompilerDesk

inductive Drag where
  | idle
  | carrying (panel : Panel) (source : String)
  deriving DecidableEq, Repr, Inhabited

namespace Drag

/-- The panel being dragged. -/
def panel? : Drag → Option Panel
  | idle => none
  | carrying panel _ => some panel

/-- Pick up a panel; the drag is idle if no row holds it. -/
def pickUp (layout : Layout) (panel : Panel) : Drag :=
  match layout.holder? panel with
  | some source => carrying panel source
  | none => idle

/-- The layout after the drag ends over a target. It changes only if a panel is carried and there is
a target. The drag is idle afterwards. -/
def drop (drag : Drag) (layout : Layout) (target : Option Target) : Layout :=
  match drag, target with
  | carrying panel _, some target => layout.after ⟨panel, target⟩
  | _, _ => layout

end Drag

end DecompilerDesk
