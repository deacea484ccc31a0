-- SUMMARY: A move changes the place of one panel alone, puts it exactly where its target says, and can be taken back by another move.
import DecompilerDesk.Proofs.Layout.Positions

/-!
# Moving

A move takes its panel out of the rows and puts it in again at one position; the others keep their
rows and their order. Over a panel, the position is the one that this panel had. Over a row it is the
end. So a panel goes back to where it came from when it is dropped on whatever stands there now, or
on the row if nothing does.
-/

namespace DecompilerDesk

/-! ## The rows after a move -/

theorem Move.insertAt_eq_insertIdx {panels : List Panel} {index : Nat} (h : index ≤ panels.length)
    (panel : Panel) : insertAt panels index panel = panels.insertIdx index panel := by
  induction panels generalizing index with
  | nil =>
    obtain rfl : index = 0 := by simpa using h
    rfl
  | cons first rest ih =>
    cases index with
    | zero => rfl
    | succ index =>
      rw [List.insertIdx_succ_cons, ← ih (Nat.le_of_succ_le_succ h)]
      rfl

namespace Layout

variable {layout : Layout}

/-- Rows of one name are one row. -/
theorem eq_of_name_eq {number other : Nat} {row row' : Row} (hrow : layout.rows[number]? = some row)
    (hrow' : layout.rows[other]? = some row') (hname : row.name = row'.name) : number = other := by
  obtain ⟨hlt, -⟩ := List.getElem?_eq_some_iff.mp hrow
  refine (List.getElem?_inj (by simpa using hlt) layout.placed.names).mp ?_
  rw [List.getElem?_map, List.getElem?_map, hrow, hrow', Option.map_some, Option.map_some, hname]

/-- A move into a row puts its panel in at one place of this row, and leaves the others alone. -/
theorem rows_after_eq_insert {move : Move} {number place : Nat} {row : Row}
    (hrow : layout.rows[number]? = some row)
    (hgoal : layout.resolve? move.target = some row.name) (hother : move.target ≠ .panel move.panel)
    (hplace : Move.insertAt (row.without move.panel).panels (move.index row) move.panel =
      (row.without move.panel).panels.insertIdx place move.panel) :
    (layout.after move).rows = insert move.panel (number, place) (without move.panel layout.rows) := by
  rw [rows_after hgoal hother]
  refine List.ext_getElem? fun i => ?_
  rw [List.getElem?_map, getElem?_insert, getElem?_without, Option.map_map]
  refine Option.map_congr fun other hat => ?_
  rw [Function.comp_apply, Move.apply]
  split
  next hname =>
    obtain rfl := eq_of_name_eq hrow hat hname.symm
    obtain rfl := Option.some.inj (hrow.symm.trans hat)
    rw [if_pos rfl, Row.insert, ← hplace]
    rfl
  next hname =>
    rw [if_neg fun hhere : number = i => ?_]
    · rfl
    · subst hhere
      exact hname (Option.some.inj (hat.symm.trans hrow) ▸ rfl)

/-- Over a panel, the moved one gets the position that this panel has. -/
theorem rows_after_panel {panel target : Panel} {number place : Nat} (hother : target ≠ panel)
    (hat : panelAt? layout.rows (number, place) = some target) :
    (layout.after ⟨panel, .panel target⟩).rows =
      insert panel (number, place) (without panel layout.rows) := by
  obtain ⟨row, hrow, hplace⟩ := panelAt?_eq_some_iff.mp hat
  have hmem : row ∈ layout.rows := List.mem_of_getElem? hrow
  have hnodup := nodup_panels hmem
  have hgoal : layout.resolve? (.panel target) = some row.name :=
    (holder?_eq_some_iff hmem).mpr (List.mem_of_getElem? hplace)
  have hindex : Move.index ⟨panel, .panel target⟩ row = place := Row.idxOf_panels hnodup hplace
  refine rows_after_eq_insert hrow hgoal (by simpa using hother) ?_
  rw [hindex, Move.insertAt_eq_insertIdx (Row.place_le_length_without hnodup hplace panel)]

/-- Over a row, the moved panel gets the place behind all others. -/
theorem rows_after_row {number : Nat} {row : Row} (hrow : layout.rows[number]? = some row)
    (panel : Panel) :
    (layout.after ⟨panel, .row row.name⟩).rows =
      insert panel (number, (row.without panel).panels.length) (without panel layout.rows) := by
  have hname : row.name ∈ layout.names := List.mem_map_of_mem (List.mem_of_getElem? hrow)
  refine rows_after_eq_insert hrow (resolve?_row hname) (by simp) ?_
  have hlength : (row.without panel).panels.length ≤ row.panels.length := List.length_filter_le _ _
  rw [List.insertIdx_length_self, Move.insertAt, Move.index, List.take_of_length_le hlength,
    List.drop_of_length_le hlength]

/-- A move does nothing where its target is the panel itself. -/
theorem after_itself (layout : Layout) (panel : Panel) : layout.after ⟨panel, .panel panel⟩ = layout := by
  unfold after
  split
  · rfl
  · exact if_pos rfl

/-- A move does nothing where its target is a row that is not there. -/
theorem after_nowhere {name : String} (h : name ∉ layout.names) (panel : Panel) :
    layout.after ⟨panel, .row name⟩ = layout := by
  have hnone : layout.resolve? (.row name) = none := by
    rw [← Option.not_isSome_iff_eq_none, resolve?_row_isSome_iff]
    exact h
  unfold after
  split
  · rfl
  next hfound =>
    rw [hnone] at hfound
    cases hfound

/-- What a move is aimed at. -/
inductive Aimed (layout : Layout) : Move → Prop where
  | nowhere {panel : Panel} {name : String} (h : name ∉ layout.names) :
      Aimed layout ⟨panel, .row name⟩
  | itself (panel : Panel) : Aimed layout ⟨panel, .panel panel⟩
  | row {panel : Panel} {number : Nat} {row : Row} (hrow : layout.rows[number]? = some row) :
      Aimed layout ⟨panel, .row row.name⟩
  | panel {panel target : Panel} {number place : Nat} (hother : target ≠ panel)
      (hat : panelAt? layout.rows (number, place) = some target) :
      Aimed layout ⟨panel, .panel target⟩

theorem aimed (layout : Layout) (move : Move) : Aimed layout move := by
  obtain ⟨panel, target⟩ := move
  cases target with
  | row name =>
    by_cases hknown : name ∈ layout.names
    · obtain ⟨row, hmem, rfl⟩ := List.mem_map.mp hknown
      obtain ⟨number, hrow⟩ := List.getElem?_of_mem hmem
      exact .row hrow
    · exact .nowhere hknown
  | panel target =>
    by_cases hself : target = panel
    · subst hself
      exact .itself target
    · obtain ⟨number, place, hat⟩ := exists_panelAt? layout target
      exact .panel hself hat

/-- A move leaves the other panels in their rows and in their order. -/
theorem without_after (layout : Layout) (move : Move) :
    without move.panel (layout.after move).rows = without move.panel layout.rows := by
  cases aimed layout move with
  | nowhere h => rw [after_nowhere h]
  | itself panel => rw [after_itself]
  | row hrow => rw [rows_after_row hrow, without_insert, without_without]
  | panel hother hat => rw [rows_after_panel hother hat, without_insert, without_without]

/-! ## Moves by index -/

/-- Rows without what stands at a position. There is no result if nothing does. -/
def takeOut? (position : Nat × Nat) (rows : List Row) : Option (List Row) :=
  rows[position.1]?.bind fun row =>
    if position.2 < row.panels.length then
      some (rows.modify position.1 fun row => { row with panels := row.panels.eraseIdx position.2 })
    else none

/-- Rows with a panel put in at a position. There is no result if the position is not in a row, nor
right behind it. -/
def insert? (panel : Panel) (position : Nat × Nat) (rows : List Row) : Option (List Row) :=
  rows[position.1]?.bind fun row =>
    if position.2 ≤ row.panels.length then some (insert panel position rows) else none

/-- The number of the row that a target belongs to. -/
def rowNumber? (layout : Layout) : Target → Option Nat
  | .row name => layout.rows.findIdx? (·.name = name)
  | .panel panel => layout.rows.findIdx? (panel ∈ ·.panels)

/-- A move worked out by indices: the panel is taken out where it stands, and put in at the index of
the target panel, or at the end. There is no result if an index is out of range. -/
def splice? (layout : Layout) (move : Move) : Option (List Row) :=
  match layout.rowNumber? (.panel move.panel), layout.rowNumber? move.target with
  | some home, some goal =>
    if move.target = .panel move.panel then some layout.rows
    else
      layout.rows[home]?.bind fun source => layout.rows[goal]?.bind fun row =>
        let place :=
          match move.target with
          | .row _ => if home = goal then row.panels.length - 1 else row.panels.length
          | .panel panel => row.panels.idxOf panel
        (takeOut? (home, source.panels.idxOf move.panel) layout.rows).bind
          (insert? move.panel (goal, place))
  | _, _ => some layout.rows

theorem rowNumber?_panel {panel : Panel} {number place : Nat}
    (hat : panelAt? layout.rows (number, place) = some panel) :
    layout.rowNumber? (.panel panel) = some number := by
  obtain ⟨row, hrow, hplace⟩ := panelAt?_eq_some_iff.mp hat
  obtain ⟨hlt, rfl⟩ := List.getElem?_eq_some_iff.mp hrow
  refine List.findIdx?_eq_some_iff_getElem.mpr ⟨hlt, ?_, fun other hbefore => ?_⟩
  · simpa using List.mem_of_getElem? hplace
  · have hother : layout.rows[other]? = some layout.rows[other] :=
      List.getElem?_eq_getElem (Nat.lt_trans hbefore hlt)
    simpa using not_mem_of_panelAt? hat hother (Nat.ne_of_gt hbefore)

theorem rowNumber?_row {number : Nat} {row : Row} (hrow : layout.rows[number]? = some row) :
    layout.rowNumber? (.row row.name) = some number := by
  obtain ⟨hlt, rfl⟩ := List.getElem?_eq_some_iff.mp hrow
  refine List.findIdx?_eq_some_iff_getElem.mpr ⟨hlt, by simp, fun other hbefore hname => ?_⟩
  have hother : layout.rows[other]? = some layout.rows[other] :=
    List.getElem?_eq_getElem (Nat.lt_trans hbefore hlt)
  exact Nat.ne_of_lt hbefore (eq_of_name_eq hother hrow (by simpa using hname))

theorem rowNumber?_nowhere {name : String} (h : name ∉ layout.names) :
    layout.rowNumber? (.row name) = none := by
  refine List.findIdx?_eq_none_iff.mpr fun row hrow => ?_
  have hname : row.name ≠ name := fun hsame => h (hsame ▸ List.mem_map_of_mem hrow)
  simpa using hname

theorem takeOut?_eq {panel : Panel} {number place : Nat}
    (hat : panelAt? layout.rows (number, place) = some panel) :
    takeOut? (number, place) layout.rows = some (without panel layout.rows) := by
  obtain ⟨row, hrow, hplace⟩ := panelAt?_eq_some_iff.mp hat
  have hlt : place < row.panels.length := (List.getElem?_eq_some_iff.mp hplace).1
  rw [takeOut?, hrow, Option.bind_some, if_pos hlt]
  refine congrArg some (List.ext_getElem? fun i => ?_)
  rw [List.getElem?_modify, getElem?_without]
  refine Option.map_congr fun other hother => ?_
  split
  next hhere =>
    obtain rfl : number = i := hhere
    obtain rfl := Option.some.inj (hrow.symm.trans hother)
    rw [Row.without, ← Row.panels_without (nodup_panels (List.mem_of_getElem? hrow)) hplace]
    rfl
  next hhere => rw [Row.without_of_not_mem (not_mem_of_panelAt? hat hother hhere)]

theorem insert?_eq {panel : Panel} {number place : Nat} {row : Row}
    (hrow : layout.rows[number]? = some row) (hle : place ≤ (row.without panel).panels.length) :
    insert? panel (number, place) (without panel layout.rows) =
      some (insert panel (number, place) (without panel layout.rows)) := by
  rw [insert?, getElem?_without, hrow, Option.map_some, Option.bind_some, if_pos hle]

/-- Worked out by indices, no index is ever out of range, and the rows are those after the move. -/
theorem splice?_eq (layout : Layout) (move : Move) :
    layout.splice? move = some (layout.after move).rows := by
  obtain ⟨home, old, hhome⟩ := exists_panelAt? layout move.panel
  obtain ⟨source, hsource, hold⟩ := panelAt?_eq_some_iff.mp hhome
  have hnodup := nodup_panels (List.mem_of_getElem? hsource)
  rw [splice?, rowNumber?_panel hhome]
  cases aimed layout move with
  | nowhere h => rw [rowNumber?_nowhere h, after_nowhere h]
  | itself panel =>
    rw [rowNumber?_panel hhome, after_itself]
    exact if_pos rfl
  | @row panel number row hrow =>
    have hend : (if home = number then row.panels.length - 1 else row.panels.length) =
        (row.without panel).panels.length := by
      split
      next hhere =>
        subst hhere
        obtain rfl := Option.some.inj (hsource.symm.trans hrow)
        exact (Row.length_without hnodup hold).symm
      next hother => rw [Row.without_of_not_mem (not_mem_of_panelAt? hhome hrow hother)]
    rw [rowNumber?_row hrow, rows_after_row hrow, ← insert?_eq hrow (Nat.le_refl _)]
    simp only [reduceCtorEq, if_false, hsource, hrow, Option.bind_some, Row.idxOf_panels hnodup hold,
      takeOut?_eq hhome, hend]
  | @panel panel target number place hother hat =>
    obtain ⟨row, hrow, hplace⟩ := panelAt?_eq_some_iff.mp hat
    have hnodup' := nodup_panels (List.mem_of_getElem? hrow)
    rw [rowNumber?_panel hat, rows_after_panel hother hat,
      ← insert?_eq hrow (Row.place_le_length_without hnodup' hplace panel)]
    simp only [Target.panel.injEq, hother, if_false, hsource, hrow, Option.bind_some,
      Row.idxOf_panels hnodup hold, takeOut?_eq hhome, Row.idxOf_panels hnodup' hplace]

/-! ## The place of the moved panel -/

theorem holder?_of_panelAt? {panel : Panel} {number place : Nat}
    (hat : panelAt? layout.rows (number, place) = some panel) :
    layout.holder? panel = layout.names[number]? := by
  obtain ⟨row, hrow, hplace⟩ := panelAt?_eq_some_iff.mp hat
  rw [(holder?_eq_some_iff (List.mem_of_getElem? hrow)).mpr (List.mem_of_getElem? hplace), names,
    List.getElem?_map, hrow, Option.map_some]

theorem getElem?_rows_after {move : Move} {number place : Nat} {row : Row}
    (hafter : (layout.after move).rows =
      insert move.panel (number, place) (without move.panel layout.rows))
    (hrow : layout.rows[number]? = some row) :
    (layout.after move).rows[number]? = some ((row.without move.panel).insert place move.panel) := by
  rw [hafter, getElem?_insert, getElem?_without, hrow, Option.map_some, Option.map_some, if_pos rfl]

/-- A panel that is dropped on a row is the last one in it. -/
theorem panels?_after_row {number : Nat} {row : Row} (hrow : layout.rows[number]? = some row)
    (panel : Panel) :
    (layout.after ⟨panel, .row row.name⟩).panels? row.name =
      some ((row.without panel).panels ++ [panel]) := by
  have hat := getElem?_rows_after (rows_after_row hrow panel) hrow
  rw [Row.insert, List.insertIdx_length_self] at hat
  exact panels?_eq_some_iff.mpr (List.mem_of_getElem? hat)

/-- A panel that is dropped on another gets its position, and the other one stands beside it. -/
theorem panelAt?_after_panel {panel target : Panel} {number place home old : Nat}
    (hother : target ≠ panel) (hat : panelAt? layout.rows (number, place) = some target)
    (hhome : panelAt? layout.rows (home, old) = some panel) :
    panelAt? (layout.after ⟨panel, .panel target⟩).rows (number, place) = some panel ∧
      panelAt? (layout.after ⟨panel, .panel target⟩).rows
        (number, if home = number ∧ old < place then place - 1 else place + 1) = some target := by
  obtain ⟨row, hrow, hplace⟩ := panelAt?_eq_some_iff.mp hat
  have hnodup := nodup_panels (List.mem_of_getElem? hrow)
  have hafter := getElem?_rows_after (rows_after_panel hother hat) hrow
  refine ⟨panelAt?_eq_some_iff.mpr ⟨_, hafter, ?_⟩, panelAt?_eq_some_iff.mpr ⟨_, hafter, ?_⟩⟩
  · exact Row.getElem?_insert_self (Row.place_le_length_without hnodup hplace panel) panel
  · by_cases hhere : home = number
    · subst hhere
      obtain ⟨_, hsource, hold⟩ := panelAt?_eq_some_iff.mp hhome
      obtain rfl := Option.some.inj (hsource.symm.trans hrow)
      simpa using Row.getElem?_insert_beside hnodup hold hplace hother
    · simpa [hhere] using Row.getElem?_insert_before (not_mem_of_panelAt? hhome hrow hhere) hplace

/-- After a move its panel stands in the row that the target belongs to. -/
theorem holder?_after {move : Move} {goal : String} (h : layout.resolve? move.target = some goal) :
    (layout.after move).holder? move.panel = some goal := by
  cases aimed layout move with
  | nowhere hnone =>
    have hsome := (resolve?_row_isSome_iff _ _).mp (Option.isSome_of_eq_some h)
    exact absurd hsome hnone
  | itself panel =>
    rw [after_itself]
    exact h
  | @row panel number row hrow =>
    have hat := getElem?_rows_after (rows_after_row hrow panel) hrow
    have hknown : row.name ∈ layout.names := List.mem_map_of_mem (List.mem_of_getElem? hrow)
    obtain rfl := Option.some.inj ((resolve?_row hknown).symm.trans h)
    refine (holder?_eq_some_iff (List.mem_of_getElem? hat)).mpr ?_
    exact List.mem_of_getElem? (Row.getElem?_insert_self (Nat.le_refl _) panel)
  | @panel panel target number place hother hat =>
    obtain ⟨home, old, hhome⟩ := exists_panelAt? layout panel
    have hafter := (panelAt?_after_panel hother hat hhome).1
    rw [holder?_of_panelAt? hafter, names_after, ← holder?_of_panelAt? hat]
    exact h

/-- What a move does to a layout. Worked out by indices it is never out of range. It does nothing
where its target is a row that is not there or its own panel; it leaves the others in their rows and
in their order; and it brings its panel into the row of the target. There the panel is the last one,
or has the position of the target panel, which then stands right beside it: to the left if the moved
panel came from its left in the same row, and else to the right. -/
theorem moved_to_target (layout : Layout) (move : Move) :
    layout.splice? move = some (layout.after move).rows ∧
      (∀ name, move.target = .row name → name ∉ layout.names → layout.after move = layout) ∧
      (move.target = .panel move.panel → layout.after move = layout) ∧
      without move.panel (layout.after move).rows = without move.panel layout.rows ∧
      (∀ goal, layout.resolve? move.target = some goal →
        (layout.after move).holder? move.panel = some goal) ∧
      (∀ name ∈ layout.names, move.target = .row name → layout.resolve? move.target = some name ∧
        ∃ others, (layout.after move).panels? name = some (others ++ [move.panel])) ∧
      ∀ target ≠ move.panel, move.target = .panel target → ∀ number place home old,
        panelAt? layout.rows (number, place) = some target →
        panelAt? layout.rows (home, old) = some move.panel →
        panelAt? (layout.after move).rows (number, place) = some move.panel ∧
          panelAt? (layout.after move).rows
            (number, if home = number ∧ old < place then place - 1 else place + 1) = some target := by
  obtain ⟨panel, target⟩ := move
  refine ⟨splice?_eq layout _, ?_, ?_, without_after layout _, fun goal => holder?_after, ?_, ?_⟩
  · rintro name rfl hnone
    exact after_nowhere hnone panel
  · intro hself
    obtain rfl : target = .panel panel := hself
    exact after_itself layout panel
  · rintro name hknown rfl
    obtain ⟨row, hmem, rfl⟩ := List.mem_map.mp hknown
    obtain ⟨number, hrow⟩ := List.getElem?_of_mem hmem
    exact ⟨resolve?_row hknown, _, panels?_after_row hrow panel⟩
  · rintro target hother rfl number place home old hat hhome
    exact panelAt?_after_panel hother hat hhome

/-- A panel is dropped on one that stands to its right in the same row. -/
theorem moved_to_target_of_own_row :
    let layout : Layout :=
      ⟨[⟨"left", [.sections, .assembly, .ir]⟩, ⟨"middle", []⟩, ⟨"right", [.ast]⟩],
        ⟨by decide, by intro panel; cases panel <;> decide⟩⟩
    let moved := layout.after ⟨.sections, .panel .ir⟩
    panelAt? layout.rows (0, 2) = some .ir ∧ panelAt? layout.rows (0, 0) = some .sections ∧
      panelAt? moved.rows (0, 2) = some .sections ∧ panelAt? moved.rows (0, 1) = some .ir ∧
      moved.rows =
        [⟨"left", [.assembly, .ir, .sections]⟩, ⟨"middle", []⟩, ⟨"right", [.ast]⟩] := by
  intro layout moved
  obtain ⟨-, -, -, -, -, -, hpanel⟩ := moved_to_target layout ⟨.sections, .panel .ir⟩
  obtain ⟨hmoved, hbeside⟩ := hpanel .ir (by decide) rfl 0 2 0 0 rfl rfl
  exact ⟨rfl, rfl, hmoved, hbeside, by cbv⟩

/-! ## Moves back -/

/-- Layouts that differ in the place of one panel are one move apart. -/
theorem exists_move_of_without_eq {before goal : Layout} {panel : Panel}
    (h : without panel before.rows = without panel goal.rows) :
    ∃ target, before.after ⟨panel, target⟩ = goal := by
  obtain ⟨number, place, hat⟩ := exists_panelAt? goal panel
  have hgoal : goal.rows = insert panel (number, place) (without panel before.rows) := by
    rw [h]
    exact rows_eq_insert hat
  cases hthere : panelAt? before.rows (number, place) with
  | some other =>
    refine ⟨.panel other, ?_⟩
    by_cases hself : other = panel
    · subst hself
      rw [after_itself]
      exact ext_rows ((rows_eq_insert hthere).trans hgoal.symm)
    · exact ext_rows ((rows_after_panel hself hthere).trans hgoal.symm)
  | none =>
    -- the row has become too short for the place, so it is the end of the row
    obtain ⟨home, hhome, hplace⟩ := panelAt?_eq_some_iff.mp hat
    have hsame := congrArg (·[number]?) h
    simp only [getElem?_without, hhome, Option.map_some, Option.map_eq_some_iff] at hsame
    obtain ⟨row, hrow, hothers⟩ := hsame
    have hlt : place < home.panels.length := (List.getElem?_eq_some_iff.mp hplace).1
    have hshort : row.panels.length ≤ place := by
      rw [panelAt?, hrow] at hthere
      exact List.getElem?_eq_none_iff.mp hthere
    have hlength : (row.without panel).panels.length = home.panels.length - 1 := by
      rw [hothers, Row.length_without (nodup_panels (List.mem_of_getElem? hhome)) hplace]
    have hle : (row.without panel).panels.length ≤ row.panels.length := List.length_filter_le _ _
    refine ⟨.row row.name, ext_rows ?_⟩
    rw [rows_after_row hrow, hgoal]
    congr 2
    omega

/-- Every move is taken back by a move of the same panel. -/
theorem exists_move_back (layout : Layout) (move : Move) :
    ∃ back : Move, back.panel = move.panel ∧ (layout.after move).after back = layout := by
  obtain ⟨target, htarget⟩ := exists_move_of_without_eq (without_after layout move)
  exact ⟨⟨move.panel, target⟩, rfl, htarget⟩

end Layout

end DecompilerDesk
