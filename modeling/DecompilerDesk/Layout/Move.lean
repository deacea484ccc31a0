-- SUMMARY: Moving one panel to a target.
import DecompilerDesk.Layout.Basic

/-!
# Moves

A move takes a panel out of its row and puts it into the row of the target: at the end when the
target is a row, and at the place the target panel had before when it is a panel. Nothing changes
when the target belongs to no row or is the panel itself.
-/

namespace DecompilerDesk

/-- A panel that is dropped on a target. -/
structure Move where
  panel : Panel
  target : Target
  deriving DecidableEq, Repr

namespace Move

/-- The panels with one put in behind the first `index` of them. -/
def insertAt (panels : List Panel) (index : Nat) (panel : Panel) : List Panel :=
  panels.take index ++ panel :: panels.drop index

/-- Where in a row the panel goes, counted among the other panels of the row. -/
def index (move : Move) (row : Row) : Nat :=
  match move.target with
  | .row _ => row.panels.length
  | .panel panel => row.panels.idxOf panel

/-- A row after a move into the row `goal`. -/
def apply (move : Move) (goal : String) (row : Row) : Row :=
  let others := row.panels.filter (· ≠ move.panel)
  if row.name = goal then { row with panels := insertAt others (move.index row) move.panel }
  else { row with panels := others }

theorem count_insertAt (panels : List Panel) (index : Nat) (panel p : Panel) :
    (insertAt panels index panel).count p = panels.count p + if panel = p then 1 else 0 := by
  have split : panels.count p = (panels.take index).count p + (panels.drop index).count p := by
    rw [← List.count_append, List.take_append_drop]
  simp only [insertAt, List.count_append, List.count_cons, split, beq_iff_eq]
  omega

theorem apply_name (move : Move) (goal : String) (row : Row) :
    (move.apply goal row).name = row.name := by
  simp only [apply]
  split <;> rfl

/-- A row loses the moved panel and, if it is the goal, gets it back once. -/
theorem count_apply (move : Move) (goal : String) (row : Row) (p : Panel) :
    (move.apply goal row).panels.count p =
      if p = move.panel then if row.name = goal then 1 else 0 else row.panels.count p := by
  have filtered : (row.panels.filter (· ≠ move.panel)).count p =
      if p = move.panel then 0 else row.panels.count p := by
    by_cases same : p = move.panel
    · subst same
      simp [List.count_eq_zero]
    · rw [if_neg same, List.count_filter (by simpa using same)]
  simp only [apply]
  split
  · rw [count_insertAt, filtered]
    by_cases same : p = move.panel
    · simp [same]
    · simp [same, Ne.symm same]
  · rw [filtered]

end Move

namespace Layout

theorem count_panelsOf_apply (move : Move) (goal : String) (rows : List Row) (p : Panel) :
    (panelsOf (rows.map (move.apply goal))).count p =
      if p = move.panel then (rows.map (·.name)).count goal else (panelsOf rows).count p := by
  induction rows with
  | nil => simp [panelsOf]
  | cons row rest ih =>
    simp only [panelsOf, List.map_cons, List.flatMap_cons, List.count_append, List.count_cons,
      Move.count_apply, beq_iff_eq] at ih ⊢
    rw [ih]
    split
    · omega
    · rfl

/-- Rows stay placed when a panel moves into one of them. -/
theorem Placed.apply {rows : List Row} (placed : Placed rows) (move : Move) {goal : String}
    (known : goal ∈ rows.map (·.name)) : Placed (rows.map (move.apply goal)) := by
  refine ⟨?_, fun p => ?_⟩
  · have names : (rows.map (move.apply goal)).map (·.name) = rows.map (·.name) := by
      simp [Move.apply_name]
    rw [names]
    exact placed.names
  · rw [count_panelsOf_apply, placed.count p, placed.names.count, if_pos known, ite_self]

theorem mem_names_of_resolve? {layout : Layout} {target : Target} {name : String}
    (h : layout.resolve? target = some name) : name ∈ layout.rows.map (·.name) := by
  cases target <;>
  · simp only [resolve?, holder?, Option.map_eq_some_iff] at h
    obtain ⟨row, found, rfl⟩ := h
    exact List.mem_map_of_mem (List.mem_of_find?_eq_some found)

/-- The layout after a move. -/
def after (layout : Layout) (move : Move) : Layout :=
  match h : layout.resolve? move.target with
  | none => layout
  | some goal =>
    if move.target = .panel move.panel then layout
    else
      ⟨layout.rows.map (move.apply goal),
        layout.placed.apply move (mem_names_of_resolve? h)⟩

end Layout

end DecompilerDesk
