-- SUMMARY: Rows make a layout exactly if they are a placement of the panels; else the defect is the first one met row by row.
import DecompilerDesk.Proofs.Layout.Placement

/-!
# Defects

To go through rows is to go through their marks: the name of each row and then its panels. The first
mark that was met before is the defect; if there is none, it is the first panel that no row holds.
-/

namespace DecompilerDesk

namespace Layout

/-- What is met on the way through rows. -/
inductive Mark where
  | row (name : String)
  | panel (panel : Panel)
  deriving DecidableEq, Repr

/-- The defect of rows in which a mark is met again. -/
def Mark.repetition : Mark → Defect
  | .row name => .rowTwice name
  | .panel again => .panelTwice again

/-- The name of each row, and behind it the panels of the row from left to right. -/
def marks (rows : List Row) : List Mark :=
  rows.flatMap fun row => .row row.name :: row.panels.map .panel

/-- The defect is the first one of the rows: a mark that was met before, behind marks of which none was;
or if no name and no panel is repeated, a panel in no row, behind panels of which each is in one. -/
inductive FirstDefect (rows : List Row) : Defect → Prop where
  | repeated {before after : List Mark} {mark : Mark} :
      marks rows = before ++ mark :: after → before.Nodup → mark ∈ before →
      FirstDefect rows mark.repetition
  | missing {before after : List Panel} {panel : Panel} :
      (rows.map (·.name)).Nodup → (panelsOf rows).Nodup → Panel.all = before ++ panel :: after →
      (∀ other ∈ before, other ∈ panelsOf rows) → panel ∉ panelsOf rows →
      FirstDefect rows (.panelMissing panel)

/-! ## Marks met before -/

/-- The first mark that was met before, among `met` or earlier in the list. -/
def repeatedMark? (met : List Mark) : List Mark → Option Mark
  | [] => none
  | mark :: rest => if mark ∈ met then some mark else repeatedMark? (mark :: met) rest

variable {met way before : List Mark} {mark : Mark} {names : List String} {seen : List Panel}
  {rows : List Row}

theorem eq_append_of_repeatedMark? (h : repeatedMark? met way = some mark) :
    ∃ before after, way = before ++ mark :: after ∧ before.Nodup ∧ (∀ m ∈ before, m ∉ met) ∧
      (mark ∈ met ∨ mark ∈ before) := by
  induction way generalizing met with
  | nil => cases h
  | cons first way ih =>
    rw [repeatedMark?] at h
    split at h
    next hmet =>
      obtain rfl := Option.some.inj h
      exact ⟨[], way, rfl, List.nodup_nil, List.forall_mem_nil _, .inl hmet⟩
    next hnew =>
      obtain ⟨before, after, rfl, hnodup, hfresh, hmark⟩ := ih h
      have hfirst : first ∉ before := fun hmem => hfresh first hmem List.mem_cons_self
      refine ⟨first :: before, after, rfl, List.nodup_cons.mpr ⟨hfirst, hnodup⟩, ?_, ?_⟩
      · refine List.forall_mem_cons.mpr ⟨hnew, fun m hm hmet => ?_⟩
        exact hfresh m hm (List.mem_cons_of_mem _ hmet)
      · rcases hmark with hmet | hbefore
        · rcases List.mem_cons.mp hmet with rfl | hold
          · exact .inr List.mem_cons_self
          · exact .inl hold
        · exact .inr (List.mem_cons_of_mem _ hbefore)

theorem repeatedMark?_append (after : List Mark) (hnodup : before.Nodup)
    (hfresh : ∀ m ∈ before, m ∉ met) (hmark : mark ∈ met ∨ mark ∈ before) :
    repeatedMark? met (before ++ mark :: after) = some mark := by
  induction before generalizing met with
  | nil => exact if_pos (hmark.resolve_right List.not_mem_nil)
  | cons first before ih =>
    obtain ⟨hnew, hfresh⟩ := List.forall_mem_cons.mp hfresh
    obtain ⟨hfirst, hnodup⟩ := List.nodup_cons.mp hnodup
    rw [List.cons_append, repeatedMark?, if_neg hnew]
    refine ih hnodup ?_ ?_
    · intro m hm hmet
      rcases List.mem_cons.mp hmet with rfl | hold
      · exact hfirst hm
      · exact hfresh m hm hold
    · rcases hmark with hmet | hlater
      · exact .inl (List.mem_cons_of_mem _ hmet)
      · rcases List.mem_cons.mp hlater with rfl | hbefore
        · exact .inl List.mem_cons_self
        · exact .inr hbefore

/-! ## The way through rows -/

/-- The marks met so far are these names and these panels. -/
structure Met (met : List Mark) (names : List String) (seen : List Panel) : Prop where
  row : ∀ name, .row name ∈ met ↔ name ∈ names
  panel : ∀ panel, .panel panel ∈ met ↔ panel ∈ seen

theorem Met.cons_row (h : Met met names seen) (name : String) :
    Met (.row name :: met) (name :: names) seen where
  row other := by simp [h.row]
  panel panel := by simp [h.panel]

theorem Met.append_panels (h : Met met names seen) (panels : List Panel) :
    Met ((panels.map .panel).reverse ++ met) names (panels ++ seen) where
  row name := by simp [h.row]
  panel panel := by simp [h.panel]

/-- The panels of a row are gone through like their marks. -/
theorem repeatedMark?_panels (h : Met met names seen) (panels : List Panel) (way : List Mark) :
    repeatedMark? met (panels.map .panel ++ way) =
      match repeated? seen panels with
      | some panel => some (.panel panel)
      | none => repeatedMark? ((panels.map .panel).reverse ++ met) way := by
  induction panels generalizing met seen with
  | nil => rfl
  | cons panel panels ih =>
    rw [List.map_cons, List.cons_append, repeatedMark?, repeated?]
    by_cases hseen : panel ∈ seen
    · rw [if_pos hseen, if_pos ((h.panel panel).mpr hseen)]
    · rw [if_neg hseen, if_neg fun hmet => hseen ((h.panel panel).mp hmet)]
      have hone : Met (.panel panel :: met) names (panel :: seen) := h.append_panels [panel]
      rw [ih hone, List.reverse_cons, List.append_assoc]
      rfl

/-- Rows are gone through like their marks. -/
theorem repetition?_eq_repeatedMark? (h : Met met names seen) (rows : List Row) :
    repetition? names seen rows = (repeatedMark? met (marks rows)).map Mark.repetition := by
  induction rows generalizing met names seen with
  | nil => rfl
  | cons row rows ih =>
    have hmarks : marks (row :: rows) = .row row.name :: (row.panels.map .panel ++ marks rows) := rfl
    rw [hmarks, repeatedMark?, repetition?]
    by_cases hname : row.name ∈ names
    · rw [if_pos hname, if_pos ((h.row row.name).mpr hname)]
      rfl
    · rw [if_neg hname, if_neg fun hmet => hname ((h.row row.name).mp hmet)]
      rw [repeatedMark?_panels (h.cons_row row.name)]
      cases repeated? seen row.panels with
      | some panel => rfl
      | none => exact ih ((h.cons_row row.name).append_panels row.panels)

theorem repetition?_eq_some_iff {defect : Defect} :
    repetition? [] [] rows = some defect ↔
      ∃ before mark after, marks rows = before ++ mark :: after ∧ before.Nodup ∧ mark ∈ before ∧
        defect = mark.repetition := by
  have hstart : Met [] [] [] := ⟨by simp, by simp⟩
  rw [repetition?_eq_repeatedMark? hstart, Option.map_eq_some_iff]
  constructor
  · rintro ⟨mark, hrepeated, rfl⟩
    obtain ⟨before, after, hmarks, hnodup, -, hmark⟩ := eq_append_of_repeatedMark? hrepeated
    exact ⟨before, mark, after, hmarks, hnodup, hmark.resolve_left List.not_mem_nil, rfl⟩
  · rintro ⟨before, mark, after, hmarks, hnodup, hmark, rfl⟩
    refine ⟨mark, ?_, rfl⟩
    rw [hmarks]
    exact repeatedMark?_append after hnodup (by simp) (.inr hmark)

/-! ## The first defect -/

theorem missing?_eq_some_iff {defect : Defect} :
    missing? rows = some defect ↔
      ∃ before panel after, Panel.all = before ++ panel :: after ∧
        (∀ other ∈ before, other ∈ panelsOf rows) ∧ panel ∉ panelsOf rows ∧
        defect = .panelMissing panel := by
  simp only [missing?, Option.map_eq_some_iff, List.find?_eq_some_iff_append, decide_not,
    Bool.not_eq_eq_eq_not, Bool.not_true, Bool.not_not, decide_eq_false_iff_not, decide_eq_true_eq]
  constructor
  · rintro ⟨panel, ⟨hmissing, before, after, hall, hplaced⟩, rfl⟩
    exact ⟨before, panel, after, hall, hplaced, hmissing, rfl⟩
  · rintro ⟨before, panel, after, hall, hplaced, hmissing, rfl⟩
    exact ⟨panel, ⟨hmissing, before, after, hall, hplaced⟩, rfl⟩

theorem defect?_eq_some_iff {defect : Defect} : defect? rows = some defect ↔ FirstDefect rows defect := by
  rw [defect?, Option.or_eq_some_iff]
  constructor
  · rintro (hrepetition | ⟨hnone, hmissing⟩)
    · obtain ⟨before, mark, after, hmarks, hnodup, hmark, rfl⟩ := repetition?_eq_some_iff.mp hrepetition
      exact .repeated hmarks hnodup hmark
    · obtain ⟨before, panel, after, hall, hplaced, hpanel, rfl⟩ := missing?_eq_some_iff.mp hmissing
      obtain ⟨⟨hnames, -⟩, hpanels, -⟩ := repetition?_eq_none hnone
      exact .missing hnames hpanels hall hplaced hpanel
  · intro h
    cases h with
    | repeated hmarks hnodup hmark =>
      exact .inl (repetition?_eq_some_iff.mpr ⟨_, _, _, hmarks, hnodup, hmark, rfl⟩)
    | missing hnames hpanels hall hplaced hpanel =>
      refine .inr ⟨repetition?_of_nodup hnames (by simp) hpanels (by simp), ?_⟩
      exact missing?_eq_some_iff.mpr ⟨_, _, _, hall, hplaced, hpanel, rfl⟩

theorem ofRows_eq_error_iff {defect : Defect} : ofRows rows = .error defect ↔ FirstDefect rows defect := by
  rw [← defect?_eq_some_iff]
  unfold ofRows
  split
  next other hdefect => rw [hdefect, Except.error.injEq, Option.some.injEq]
  next hnone => simp [hnone]

theorem placed_iff : Placed rows ↔ (rows.map (·.name)).Nodup ∧ (panelsOf rows).Perm Panel.all := by
  have hall (panel : Panel) : Panel.all.count panel = 1 := by cases panel <;> rfl
  constructor
  · intro h
    exact ⟨h.names, List.perm_iff_count.mpr fun panel => by rw [h.count, hall]⟩
  · rintro ⟨hnames, hperm⟩
    exact ⟨hnames, fun panel => by rw [hperm.count_eq, hall]⟩

theorem ofRows_eq_ok_iff {layout : Layout} : ofRows rows = .ok layout ↔ layout.rows = rows := by
  constructor
  · exact rows_of_ofRows
  · rintro rfl
    exact ofRows_rows layout

end Layout

end DecompilerDesk
