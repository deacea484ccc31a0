-- SUMMARY: A layout can be turned into any other with the same row names, with no more moves than there are panels.
import DecompilerDesk.Proofs.Layout.Placement
import Mathlib.Data.List.Flatten
import Mathlib.Data.List.Induction
import Mathlib.Data.List.Perm.Subperm

/-!
# Arranging

To arrange the panels as in another layout, go through that one row by row and from left to right, and
move each panel to the end of its row. On the way a row holds the panels that did not go yet, and
behind them those that came, in the order in which they came. When all have gone, each row holds what
the other layout has there.
-/

namespace DecompilerDesk

/-! ## What a move makes of a row -/

/-- A row after a panel moved to the end of a row. -/
theorem Move.apply_row (panel : Panel) (name : String) (row : Row) :
    Move.apply ⟨panel, .row name⟩ name row =
      { row with
        panels := row.panels.filter (· ≠ panel) ++ if row.name = name then [panel] else [] } := by
  have hend : insertAt (row.panels.filter (· ≠ panel)) row.panels.length panel =
      row.panels.filter (· ≠ panel) ++ [panel] := by
    have hlength : (row.panels.filter (· ≠ panel)).length ≤ row.panels.length := List.length_filter_le _ _
    rw [insertAt, List.take_of_length_le hlength, List.drop_of_length_le hlength]
  simp only [apply, index]
  split
  · rw [hend]
  · rw [List.append_nil]

namespace Layout

theorem ext_rows {layout other : Layout} (h : layout.rows = other.rows) : layout = other := by
  cases layout
  cases other
  cases h
  rfl

theorem rows_after {layout : Layout} {move : Move} {goal : String}
    (hgoal : layout.resolve? move.target = some goal) (hother : move.target ≠ .panel move.panel) :
    (layout.after move).rows = layout.rows.map (move.apply goal) := by
  unfold after
  split
  next hnone =>
    rw [hgoal] at hnone
    cases hnone
  next found hfound =>
    rw [if_neg hother]
    rw [hgoal] at hfound
    rw [Option.some.inj hfound]

theorem resolve?_row {layout : Layout} {name : String} (h : name ∈ layout.names) :
    layout.resolve? (.row name) = some name := by
  obtain ⟨found, hfound⟩ := Option.isSome_iff_exists.mp ((resolve?_row_isSome_iff layout name).mpr h)
  obtain ⟨row, hrow, rfl⟩ := Option.map_eq_some_iff.mp hfound
  have hname : row.name = name := by simpa using List.find?_some hrow
  rw [hfound, hname]

/-! ## On the way to another layout -/

/-- A row when some panels have gone where they stand in the layout `goal`. -/
def halfway (goal : Layout) (gone : List Panel) (row : Row) : Row :=
  { row with
    panels := row.panels.filter (· ∉ gone) ++ gone.filter (goal.holder? · = some row.name) }

theorem apply_halfway {goal : Layout} {gone : List Panel} {panel : Panel} {name : String}
    (hnew : panel ∉ gone) (hholder : goal.holder? panel = some name) (row : Row) :
    Move.apply ⟨panel, .row name⟩ name (goal.halfway gone row) =
      goal.halfway (gone ++ [panel]) row := by
  have hcame : (gone.filter (goal.holder? · = some row.name)).filter (· ≠ panel) =
      gone.filter (goal.holder? · = some row.name) := by
    refine List.filter_eq_self.mpr fun other hother => ?_
    have hmem : other ∈ gone := (List.mem_filter.mp hother).1
    simpa using ne_of_mem_of_not_mem hmem hnew
  have hstay : (row.panels.filter (· ∉ gone)).filter (· ≠ panel) =
      row.panels.filter (· ∉ gone ++ [panel]) := by
    rw [List.filter_filter]
    exact List.filter_congr fun other _ => by simp [and_comm]
  rw [Move.apply_row]
  simp only [halfway, List.filter_append, hcame, hstay, List.append_assoc]
  by_cases hhere : row.name = name
  · simp [hhere, hholder]
  · simp [hhere, hholder, Ne.symm hhere]

/-- Some panels go where they stand in another layout, with one move each. -/
theorem exists_moves_halfway {before goal : Layout} (hnames : before.names = goal.names)
    {gone : List Panel} (hnodup : gone.Nodup) :
    ∃ moves : List Move, moves.length = gone.length ∧
      (moves.foldl Layout.after before).rows = before.rows.map (goal.halfway gone) := by
  induction gone using List.reverseRecOn with
  | nil =>
    have hall : ∀ row ∈ before.rows, goal.halfway [] row = row := fun row _ => by simp [halfway]
    exact ⟨[], rfl, ((List.map_congr_left hall).trans (List.map_id' _)).symm⟩
  | append_singleton gone panel ih =>
    obtain ⟨hnodup, -, hapart⟩ := List.nodup_append.mp hnodup
    have hnew : panel ∉ gone := fun hmem => hapart panel hmem panel (List.mem_singleton_self _) rfl
    obtain ⟨moves, hlength, hrows⟩ := ih hnodup
    obtain ⟨name, hholder, -⟩ := holder?_spec goal panel
    have hknown : name ∈ (moves.foldl Layout.after before).names := by
      have hsame : (moves.foldl Layout.after before).names = before.names := by
        simp [names, hrows, halfway]
      have hresolve : goal.resolve? (.panel panel) = some name := hholder
      rw [hsame, hnames]
      exact mem_names_of_resolve? hresolve
    refine ⟨moves ++ [⟨panel, .row name⟩], by simp [hlength], ?_⟩
    rw [List.foldl_append, List.foldl_cons, List.foldl_nil,
      rows_after (resolve?_row hknown) (by simp), hrows, List.map_map]
    exact List.map_congr_left fun row _ => apply_halfway hnew hholder row

/-! ## Arriving -/

theorem filter_mem_of_sublist {α : Type} [DecidableEq α] {part whole : List α}
    (hpart : part.Sublist whole) (hnodup : whole.Nodup) : whole.filter (· ∈ part) = part := by
  have hself : part.filter (· ∈ part) = part := List.filter_eq_self.mpr fun a ha => by simpa using ha
  have hsub : part.Sublist (whole.filter (· ∈ part)) := by
    have hfilter := hpart.filter (· ∈ part)
    rwa [hself] at hfilter
  have hsubset : whole.filter (· ∈ part) ⊆ part := fun a ha => by simpa using (List.mem_filter.mp ha).2
  have hlength : (whole.filter (· ∈ part)).length ≤ part.length :=
    (List.Nodup.subperm (hnodup.filter _) hsubset).length_le
  exact (hsub.eq_of_length_le hlength).symm

theorem holder?_eq_some_iff {layout : Layout} {row : Row} (hrow : row ∈ layout.rows) {panel : Panel} :
    layout.holder? panel = some row.name ↔ panel ∈ row.panels := by
  obtain ⟨name, hholder, honly⟩ := holder?_spec layout panel
  have hpanels : layout.panels? row.name = some row.panels := panels?_eq_some_iff.mpr hrow
  rw [hholder, Option.some.injEq, eq_comm, ← honly row.name]
  constructor
  · rintro ⟨panels, hpanels', hmem⟩
    rw [hpanels] at hpanels'
    rwa [Option.some.inj hpanels']
  · exact fun hmem => ⟨row.panels, hpanels, hmem⟩

theorem nodup_panelsOf (layout : Layout) : (panelsOf layout.rows).Nodup :=
  List.nodup_iff_count.mpr fun panel => Nat.le_of_eq (layout.placed.count panel)

theorem panels_sublist {rows : List Row} {row : Row} (hrow : row ∈ rows) :
    row.panels.Sublist (panelsOf rows) := by
  simpa [panelsOf] using (List.singleton_sublist.mpr hrow).flatMap (·.panels)

/-- The panels of a layout that stand in one of its rows are those of the row, in their order. -/
theorem filter_holder? {layout : Layout} {row : Row} (hrow : row ∈ layout.rows) :
    (panelsOf layout.rows).filter (layout.holder? · = some row.name) = row.panels := by
  simp only [holder?_eq_some_iff hrow]
  exact filter_mem_of_sublist (panels_sublist hrow) layout.nodup_panelsOf

/-- When all panels have gone where they stand in another layout, the rows are those of the other. -/
theorem map_halfway_panelsOf {before goal : Layout} (hnames : before.names = goal.names) :
    before.rows.map (goal.halfway (panelsOf goal.rows)) = goal.rows := by
  have hgone : ∀ row : Row, goal.halfway (panelsOf goal.rows) row =
      ⟨row.name, (panelsOf goal.rows).filter (goal.holder? · = some row.name)⟩ := by
    intro row
    have hnone : row.panels.filter (· ∉ panelsOf goal.rows) = [] := by
      refine List.filter_eq_nil_iff.mpr fun panel _ => ?_
      have hmem : panel ∈ panelsOf goal.rows :=
        List.count_pos_iff.mp (by rw [goal.placed.count panel]; exact Nat.one_pos)
      simpa using hmem
    rw [halfway, hnone, List.nil_append]
  calc before.rows.map (goal.halfway (panelsOf goal.rows))
      = before.names.map fun name =>
          ⟨name, (panelsOf goal.rows).filter (goal.holder? · = some name)⟩ := by
        rw [names, List.map_map]
        exact List.map_congr_left fun row _ => hgone row
    _ = goal.rows.map fun row =>
          ⟨row.name, (panelsOf goal.rows).filter (goal.holder? · = some row.name)⟩ := by
        rw [hnames, names, List.map_map]
        rfl
    _ = goal.rows := by
        refine (List.map_congr_left fun row hrow => ?_).trans (List.map_id _)
        rw [filter_holder? hrow, id_eq]

theorem names_foldl_after (layout : Layout) (moves : List Move) :
    (moves.foldl Layout.after layout).names = layout.names := by
  induction moves generalizing layout with
  | nil => rfl
  | cons move rest ih => exact (ih _).trans (names_after layout move)

/-- The layouts that come about by moves are those with the same row names in the same order, and no
more moves are needed than there are panels. -/
theorem rearranged_iff_names_eq (before goal : Layout) :
    (∃ moves : List Move, moves.length ≤ before.size ∧ moves.foldl Layout.after before = goal) ↔
      before.names = goal.names := by
  constructor
  · rintro ⟨moves, -, rfl⟩
    exact (names_foldl_after before moves).symm
  · intro hnames
    obtain ⟨moves, hlength, hrows⟩ := exists_moves_halfway hnames goal.nodup_panelsOf
    refine ⟨moves, ?_, ext_rows (hrows.trans (map_halfway_panelsOf hnames))⟩
    have hsame : goal.size = before.size :=
      (size_eq_four goal.placed.count).trans (size_eq_four before.placed.count).symm
    exact Nat.le_of_eq (hlength.trans hsame)

end Layout

end DecompilerDesk
