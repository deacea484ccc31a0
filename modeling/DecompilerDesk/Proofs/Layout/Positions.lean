-- SUMMARY: Rows with one panel taken out or put in, and the positions of panels in a layout.
import DecompilerDesk.Proofs.Layout.Arranging

/-!
# Positions

A position is the number of a row and a place in it. A panel has one position in a layout, and the
layout is known by this position and by the rows without the panel.
-/

namespace DecompilerDesk

/-! ## One row -/

namespace Row

/-- A row without a panel. -/
def without (row : Row) (panel : Panel) : Row :=
  { row with panels := row.panels.filter (· ≠ panel) }

/-- A row with a panel put in at a place. -/
def insert (row : Row) (place : Nat) (panel : Panel) : Row :=
  { row with panels := row.panels.insertIdx place panel }

theorem without_of_not_mem {row : Row} {panel : Panel} (h : panel ∉ row.panels) :
    row.without panel = row := by
  have hself : row.panels.filter (· ≠ panel) = row.panels := by
    refine List.filter_eq_self.mpr fun other hother => ?_
    simpa using ne_of_mem_of_not_mem hother h
  rw [without, hself]

theorem idxOf_panels {row : Row} (hnodup : row.panels.Nodup) {place : Nat} {panel : Panel}
    (hat : row.panels[place]? = some panel) : row.panels.idxOf panel = place := by
  obtain ⟨hlt, rfl⟩ := List.getElem?_eq_some_iff.mp hat
  exact hnodup.idxOf_getElem place hlt

theorem panels_without {row : Row} (hnodup : row.panels.Nodup) {place : Nat} {panel : Panel}
    (hat : row.panels[place]? = some panel) :
    (row.without panel).panels = row.panels.eraseIdx place := by
  calc row.panels.filter (· ≠ panel)
      = row.panels.erase panel := by
        rw [hnodup.erase_eq_filter]
        exact List.filter_congr fun _ _ => by rw [decide_not, bne, beq_eq_decide]
    _ = row.panels.eraseIdx (row.panels.idxOf panel) := (List.eraseIdx_idxOf_eq_erase _ _).symm
    _ = row.panels.eraseIdx place := by rw [idxOf_panels hnodup hat]

/-- A row is what it was when a panel is put back at its place. -/
theorem insert_without {row : Row} (hnodup : row.panels.Nodup) {place : Nat} {panel : Panel}
    (hat : row.panels[place]? = some panel) : (row.without panel).insert place panel = row := by
  obtain ⟨hlt, hpanel⟩ := List.getElem?_eq_some_iff.mp hat
  have hback : (row.without panel).panels.insertIdx place panel = row.panels := by
    rw [panels_without hnodup hat, List.insertIdx_eraseIdx_self (Nat.ne_of_lt hlt), ← hpanel,
      List.set_getElem_self]
  rw [insert, hback]
  rfl

theorem length_without {row : Row} (hnodup : row.panels.Nodup) {place : Nat} {panel : Panel}
    (hat : row.panels[place]? = some panel) :
    (row.without panel).panels.length = row.panels.length - 1 := by
  rw [panels_without hnodup hat, List.length_eraseIdx_of_lt (List.getElem?_eq_some_iff.mp hat).1]

/-- A place stays in reach when a panel is taken out of the row. -/
theorem place_le_length_without {row : Row} (hnodup : row.panels.Nodup) {place : Nat}
    {target : Panel} (hat : row.panels[place]? = some target) (panel : Panel) :
    place ≤ (row.without panel).panels.length := by
  have hlt : place < row.panels.length := (List.getElem?_eq_some_iff.mp hat).1
  by_cases hmem : panel ∈ row.panels
  · obtain ⟨old, hold⟩ := List.getElem?_of_mem hmem
    rw [length_without hnodup hold]
    omega
  · rw [without_of_not_mem hmem]
    omega

theorem getElem?_insert_self {row : Row} {place : Nat} (hle : place ≤ row.panels.length)
    (panel : Panel) : (row.insert place panel).panels[place]? = some panel := by
  rw [insert, List.getElem?_insertIdx_self, if_pos hle]

/-- Of two panels in a row, one goes to the place of the other. That one gives way to where the first
came from. -/
theorem getElem?_insert_beside {row : Row} (hnodup : row.panels.Nodup) {old place : Nat}
    {panel target : Panel} (hold : row.panels[old]? = some panel)
    (hplace : row.panels[place]? = some target) (hother : target ≠ panel) :
    ((row.without panel).insert place panel).panels[if old < place then place - 1 else place + 1]? =
      some target := by
  have hne : old ≠ place := by
    rintro rfl
    exact hother (Option.some.inj (hplace.symm.trans hold))
  rw [insert, panels_without hnodup hold]
  split
  next hleft =>
    rw [List.getElem?_insertIdx_of_lt (by omega), List.getElem?_eraseIdx, if_neg (by omega),
      Nat.sub_add_cancel (by omega), hplace]
  next hright =>
    rw [List.getElem?_insertIdx_of_gt (by omega), Nat.add_sub_cancel, List.getElem?_eraseIdx,
      if_pos (by omega), hplace]

/-- A panel from elsewhere goes to the place of another, which gives way to the right. -/
theorem getElem?_insert_before {row : Row} {place : Nat} {panel target : Panel}
    (hnone : panel ∉ row.panels) (hplace : row.panels[place]? = some target) :
    ((row.without panel).insert place panel).panels[place + 1]? = some target := by
  rw [insert, without_of_not_mem hnone, List.getElem?_insertIdx_of_gt (Nat.lt_add_one _),
    Nat.add_sub_cancel, hplace]

theorem filter_insertIdx (panels : List Panel) (place : Nat) (panel : Panel) :
    (panels.insertIdx place panel).filter (· ≠ panel) = panels.filter (· ≠ panel) := by
  induction panels generalizing place with
  | nil => cases place <;> simp
  | cons first rest ih =>
    cases place with
    | zero => simp
    | succ place => rw [List.insertIdx_succ_cons, List.filter_cons, List.filter_cons, ih]

theorem without_insert (row : Row) (place : Nat) (panel : Panel) :
    (row.insert place panel).without panel = row.without panel := by
  rw [without, insert, without, filter_insertIdx]

theorem without_without (row : Row) (panel : Panel) :
    (row.without panel).without panel = row.without panel :=
  without_of_not_mem (by simp [without])

end Row

/-! ## All rows -/

namespace Layout

/-- Rows without a panel. -/
def without (panel : Panel) (rows : List Row) : List Row := rows.map (·.without panel)

/-- Rows with a panel put in at a position: the number of a row, and a place in the row. -/
def insert (panel : Panel) (position : Nat × Nat) (rows : List Row) : List Row :=
  rows.modify position.1 (·.insert position.2 panel)

theorem getElem?_without (panel : Panel) (rows : List Row) (number : Nat) :
    (without panel rows)[number]? = rows[number]?.map (·.without panel) :=
  List.getElem?_map

theorem getElem?_insert (panel : Panel) (position : Nat × Nat) (rows : List Row) (number : Nat) :
    (insert panel position rows)[number]? = rows[number]?.map fun row =>
      if position.1 = number then row.insert position.2 panel else row :=
  List.getElem?_modify _ _ _ _

theorem without_without (panel : Panel) (rows : List Row) :
    without panel (without panel rows) = without panel rows := by
  rw [without, without, List.map_map]
  exact List.map_congr_left fun row _ => row.without_without panel

/-- To put a panel in changes nothing for the others. -/
theorem without_insert (panel : Panel) (position : Nat × Nat) (rows : List Row) :
    without panel (insert panel position rows) = without panel rows := by
  refine List.ext_getElem? fun number => ?_
  rw [getElem?_without, getElem?_without, getElem?_insert, Option.map_map]
  refine Option.map_congr fun row _ => ?_
  rw [Function.comp_apply]
  split
  · exact row.without_insert _ _
  · rfl

theorem panelAt?_eq_some_iff {rows : List Row} {number place : Nat} {panel : Panel} :
    panelAt? rows (number, place) = some panel ↔
      ∃ row, rows[number]? = some row ∧ row.panels[place]? = some panel :=
  Option.bind_eq_some_iff

section Positions

variable {layout : Layout}

theorem nodup_panels {row : Row} (hrow : row ∈ layout.rows) : row.panels.Nodup :=
  (panels_sublist hrow).nodup layout.nodup_panelsOf

theorem exists_panelAt? (layout : Layout) (panel : Panel) :
    ∃ number place, panelAt? layout.rows (number, place) = some panel := by
  obtain ⟨⟨number, place⟩, hat, -⟩ := existsUnique_panelAt? (layout.placed.count panel)
  exact ⟨number, place, hat⟩

/-- A panel stands in no row but its own. -/
theorem not_mem_of_panelAt? {number place other : Nat} {panel : Panel} {row : Row}
    (hat : panelAt? layout.rows (number, place) = some panel) (hrow : layout.rows[other]? = some row)
    (hother : number ≠ other) : panel ∉ row.panels := by
  intro hmem
  obtain ⟨place', hplace⟩ := List.getElem?_of_mem hmem
  have hat' : panelAt? layout.rows (other, place') = some panel :=
    panelAt?_eq_some_iff.mpr ⟨row, hrow, hplace⟩
  have hsame := (existsUnique_panelAt? (layout.placed.count panel)).unique hat hat'
  exact hother (Prod.mk.inj hsame).1

/-- A layout is known by the position of one panel and by the others. -/
theorem rows_eq_insert {number place : Nat} {panel : Panel}
    (hat : panelAt? layout.rows (number, place) = some panel) :
    layout.rows = insert panel (number, place) (without panel layout.rows) := by
  refine List.ext_getElem? fun other => ?_
  rw [getElem?_insert, getElem?_without, Option.map_map]
  cases hrow : layout.rows[other]? with
  | none => rfl
  | some row =>
    rw [Option.map_some, Function.comp_apply]
    split
    next hhere =>
      obtain rfl : number = other := hhere
      obtain ⟨_, hrow', hplace⟩ := panelAt?_eq_some_iff.mp hat
      obtain rfl := Option.some.inj (hrow.symm.trans hrow')
      rw [Row.insert_without (nodup_panels (List.mem_of_getElem? hrow)) hplace]
    next hother => rw [Row.without_of_not_mem (not_mem_of_panelAt? hat hrow hother)]

end Positions

end Layout

end DecompilerDesk
