-- SUMMARY: Layouts: rows in which every panel has exactly one place.
import DecompilerDesk.Failure
import DecompilerDesk.Panel

/-!
# Layouts

A layout is a list of rows with distinct names in which every panel stands exactly once.
`Layout.ofRows` checks rows and tells the first thing that is wrong with them.
-/

namespace DecompilerDesk

namespace Layout

/-- The panels of rows, row by row and from left to right. -/
def panelsOf (rows : List Row) : List Panel := rows.flatMap (·.panels)

/-- Rows have distinct names, and every panel stands in them exactly once. -/
structure Placed (rows : List Row) : Prop where
  names : (rows.map (·.name)).Nodup
  count : ∀ panel, (panelsOf rows).count panel = 1

/-! ## Defects -/

inductive Defect where
  | rowTwice (name : String)
  | panelTwice (panel : Panel)
  | panelMissing (panel : Panel)
  deriving DecidableEq, Repr

def Defect.message : Defect → String
  | rowTwice name => "container '" ++ name ++ "' declared twice"
  | panelTwice panel => "panel '" ++ panel.id ++ "' placed twice"
  | panelMissing panel => "panel '" ++ panel.id ++ "' is not placed in any container"

/-- The first panel that occurred before, among `seen` or earlier in the list. -/
def repeated? (seen : List Panel) : List Panel → Option Panel
  | [] => none
  | panel :: rest => if panel ∈ seen then some panel else repeated? (panel :: seen) rest

/-- The first row name or panel that occurred before. A row's name comes before its panels. -/
def repetition? (names : List String) (seen : List Panel) : List Row → Option Defect
  | [] => none
  | row :: rest =>
    if row.name ∈ names then some (.rowTwice row.name)
    else
      match repeated? seen row.panels with
      | some panel => some (.panelTwice panel)
      | none => repetition? (row.name :: names) (row.panels ++ seen) rest

/-- The first panel that stands in no row. -/
def missing? (rows : List Row) : Option Defect :=
  (Panel.all.find? (· ∉ panelsOf rows)).map .panelMissing

/-- The first thing that is wrong with rows. -/
def defect? (rows : List Row) : Option Defect := (repetition? [] [] rows).or (missing? rows)

/-! ## Rows without a defect -/

theorem repeated?_eq_none {seen panels : List Panel} (h : repeated? seen panels = none) :
    panels.Nodup ∧ ∀ panel ∈ panels, panel ∉ seen := by
  induction panels generalizing seen with
  | nil => simp
  | cons panel rest ih =>
    simp only [repeated?] at h
    split at h
    · simp at h
    next fresh =>
      obtain ⟨nodup, apart⟩ := ih h
      refine ⟨List.nodup_cons.mpr ⟨fun mem => apart panel mem (by simp), nodup⟩, ?_⟩
      intro p mem
      rcases List.mem_cons.mp mem with rfl | mem
      · exact fresh
      · exact fun old => apart p mem (by simp [old])

theorem repetition?_eq_none {names : List String} {seen : List Panel} {rows : List Row}
    (h : repetition? names seen rows = none) :
    ((rows.map (·.name)).Nodup ∧ ∀ row ∈ rows, row.name ∉ names) ∧
      (panelsOf rows).Nodup ∧ ∀ panel ∈ panelsOf rows, panel ∉ seen := by
  induction rows generalizing names seen with
  | nil => simp [panelsOf]
  | cons row rest ih =>
    simp only [repetition?] at h
    split at h
    · simp at h
    next fresh =>
      split at h
      · simp at h
      next unseen =>
        obtain ⟨⟨namesNodup, namesApart⟩, panelsNodup, panelsApart⟩ := ih h
        obtain ⟨rowNodup, rowApart⟩ := repeated?_eq_none unseen
        refine ⟨⟨?_, ?_⟩, ?_, ?_⟩
        · refine List.nodup_cons.mpr ⟨fun mem => ?_, namesNodup⟩
          obtain ⟨other, mem, same⟩ := List.mem_map.mp mem
          exact namesApart other mem (by simp [same])
        · intro other mem
          rcases List.mem_cons.mp mem with rfl | mem
          · exact fresh
          · exact fun old => namesApart other mem (by simp [old])
        · simp only [panelsOf, List.flatMap_cons]
          refine List.nodup_append.mpr ⟨rowNodup, panelsNodup, ?_⟩
          rintro p here q there rfl
          exact panelsApart p there (by simp [here])
        · intro p mem
          simp only [panelsOf, List.flatMap_cons, List.mem_append] at mem
          rcases mem with mem | mem
          · exact rowApart p mem
          · exact fun old => panelsApart p mem (by simp [old])

theorem placed_of_defect?_eq_none {rows : List Row} (h : defect? rows = none) : Placed rows := by
  rw [defect?, Option.or_eq_none_iff] at h
  obtain ⟨⟨names, -⟩, nodup, -⟩ := repetition?_eq_none h.1
  refine ⟨names, fun panel => ?_⟩
  have mem : panel ∈ panelsOf rows := by
    simpa using List.find?_eq_none.mp (Option.map_eq_none_iff.mp h.2) panel (Panel.mem_all panel)
  have := List.nodup_iff_count.mp nodup panel
  have := List.count_pos_iff.mpr mem
  omega

end Layout

structure Layout where
  rows : List Row
  placed : Layout.Placed rows
  deriving DecidableEq

namespace Layout

/-- The layout with these rows, or the first thing that is wrong with them. -/
def ofRows (rows : List Row) : Except Defect Layout :=
  match h : defect? rows with
  | some defect => .error defect
  | none => .ok ⟨rows, placed_of_defect?_eq_none h⟩

/-- Two rows of two panels. -/
def standard : Layout where
  rows := [⟨"top", [.sections, .assembly]⟩, ⟨"bottom", [.ir, .ast]⟩]
  placed := ⟨by decide, by intro panel; cases panel <;> decide⟩

instance : Inhabited Layout := ⟨standard⟩

/-! ## Looking up -/

/-- The number of places taken. -/
def size (layout : Layout) : Nat := (panelsOf layout.rows).length

/-- The panels of a row. -/
def panels? (layout : Layout) (name : String) : Option (List Panel) :=
  (layout.rows.find? (·.name = name)).map (·.panels)

/-- The name of the row that holds a panel. -/
def holder? (layout : Layout) (panel : Panel) : Option String :=
  (layout.rows.find? (panel ∈ ·.panels)).map (·.name)

/-- The name of the row that a target belongs to. -/
def resolve? (layout : Layout) : Target → Option String
  | .row name => (layout.rows.find? (·.name = name)).map (·.name)
  | .panel panel => layout.holder? panel

/-! ## JSON form -/

def check (rows : List Row) : Except Json.Problem Layout :=
  (ofRows rows).mapError fun defect => .refused (Failure.badLayout defect.message).message

def codec : Json.Codec Layout := .refine Row.codec.list check rows

end Layout

end DecompilerDesk
