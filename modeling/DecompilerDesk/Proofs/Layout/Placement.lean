-- SUMMARY: Every layout that can come about keeps the rows it was declared with and has one place for each panel.
import DecompilerDesk.Proofs.Desk.Effects
import DecompilerDesk.Settings
import Mathlib.Data.List.Induction
import Mathlib.Data.List.Nodup
import Mathlib.Logic.ExistsUnique

/-!
# Placement

A layout begins as rows that were declared, decoded or loaded, or as the standard one, and goes on by
moves, drops and whatever else is done at a desk. Its rows keep their names and their order all the
way, and every panel has exactly one position in them; so looking up a panel never fails, and looking
up a row fails only for names that were never declared.
-/

namespace DecompilerDesk

namespace Layout

/-! ## Positions -/

/-- The panel at a position: the number of a row, and a place in the row. -/
def panelAt? (rows : List Row) (position : Nat × Nat) : Option Panel :=
  rows[position.1]?.bind fun row => row.panels[position.2]?

theorem existsUnique_getElem?_of_count {α : Type} [DecidableEq α] {l : List α} {a : α}
    (h : l.count a = 1) : ∃! i : Nat, l[i]? = some a := by
  have hmem : a ∈ l := List.count_pos_iff.mp (by omega)
  obtain ⟨i, hi⟩ := List.getElem?_of_mem hmem
  refine ⟨i, hi, fun j hj => ?_⟩
  induction l generalizing i j with
  | nil => simp at hi
  | cons b l ih =>
    by_cases hb : b = a
    · -- the head is the only one, so no index points behind it
      subst hb
      have hnot : b ∉ l := by
        rw [List.count_cons_self] at h
        exact List.count_eq_zero.mp (by omega)
      cases i with
      | zero =>
        cases j with
        | zero => rfl
        | succ j => exact absurd (List.mem_of_getElem? (l := l) hj) hnot
      | succ i => exact absurd (List.mem_of_getElem? (l := l) hi) hnot
    · have hrest : l.count a = 1 := by rwa [List.count_cons_of_ne hb] at h
      cases i with
      | zero => exact absurd (Option.some.inj hi) hb
      | succ i =>
        cases j with
        | zero => exact absurd (Option.some.inj hj) hb
        | succ j => rw [ih hrest (List.mem_of_getElem? hi) i hi j hj]

theorem existsUnique_panelAt? {rows : List Row} {panel : Panel}
    (h : (panelsOf rows).count panel = 1) :
    ∃! position, panelAt? rows position = some panel := by
  induction rows with
  | nil => simp [panelsOf] at h
  | cons row rest ih =>
    have hsum : row.panels.count panel + (panelsOf rest).count panel = 1 := by
      simpa [panelsOf] using h
    by_cases hhere : panel ∈ row.panels
    · have hpos : 0 < row.panels.count panel := List.count_pos_iff.mpr hhere
      have hrest : panel ∉ panelsOf rest := List.count_eq_zero.mp (by omega)
      obtain ⟨place, hplace, honly⟩ :=
        existsUnique_getElem?_of_count (l := row.panels) (a := panel) (by omega)
      refine ⟨(0, place), hplace, ?_⟩
      rintro ⟨number, other⟩ hother
      cases number with
      | zero => rw [honly other hother]
      | succ number =>
        obtain ⟨below, hbelow, hat⟩ := Option.bind_eq_some_iff.mp hother
        have hmem : below ∈ rest := List.mem_of_getElem? (i := number) hbelow
        exact absurd (List.mem_flatMap.mpr ⟨below, hmem, List.mem_of_getElem? hat⟩) hrest
    · have hzero : row.panels.count panel = 0 := List.count_eq_zero.mpr hhere
      obtain ⟨⟨number, place⟩, hplace, honly⟩ := ih (by omega)
      refine ⟨(number + 1, place), hplace, ?_⟩
      rintro ⟨below, other⟩ hother
      cases below with
      | zero => exact absurd (List.mem_of_getElem? hother) hhere
      | succ below =>
        have hsame := honly (below, other) hother
        rw [Prod.mk.injEq] at hsame ⊢
        exact ⟨by omega, hsame.2⟩

/-- The places of a layout are those of the four panels. -/
theorem size_eq_four {rows : List Row} (h : ∀ panel, (panelsOf rows).count panel = 1) :
    (panelsOf rows).length = 4 := by
  have hperm : (panelsOf rows).Perm Panel.all :=
    List.perm_iff_count.mpr fun panel => by rw [h panel]; cases panel <;> decide
  exact hperm.length_eq

/-! ## Looking up -/

/-- The rows that hold a panel are one row. -/
theorem eq_of_mem_panels {rows : List Row} {panel : Panel}
    (h : (panelsOf rows).count panel = 1) {row other : Row} (hrow : row ∈ rows)
    (hother : other ∈ rows) (hin : panel ∈ row.panels) (hin' : panel ∈ other.panels) :
    row = other := by
  obtain ⟨i, hi⟩ := List.getElem?_of_mem hrow
  obtain ⟨j, hj⟩ := List.getElem?_of_mem hother
  obtain ⟨k, hk⟩ := List.getElem?_of_mem hin
  obtain ⟨l, hl⟩ := List.getElem?_of_mem hin'
  have hat : panelAt? rows (i, k) = some panel := by simp [panelAt?, hi, hk]
  have hat' : panelAt? rows (j, l) = some panel := by simp [panelAt?, hj, hl]
  have hsame := (existsUnique_panelAt? h).unique hat hat'
  obtain ⟨rfl, -⟩ := Prod.mk.inj hsame
  exact Option.some.inj (hi.symm.trans hj)

theorem panels?_eq_some_iff {layout : Layout} {name : String} {panels : List Panel} :
    layout.panels? name = some panels ↔ (⟨name, panels⟩ : Row) ∈ layout.rows := by
  rw [panels?, Option.map_eq_some_iff]
  constructor
  · rintro ⟨row, hfind, rfl⟩
    have hname : row.name = name := by simpa using List.find?_some hfind
    subst hname
    exact List.mem_of_find?_eq_some hfind
  · intro hmem
    -- names are distinct, so the first row of that name is the one
    have hsome : (layout.rows.find? (·.name = name)).isSome := by
      rw [List.find?_isSome]
      exact ⟨_, hmem, by simp⟩
    obtain ⟨row, hfind⟩ := Option.isSome_iff_exists.mp hsome
    have hname : row.name = name := by simpa using List.find?_some hfind
    have hrow : row = ⟨name, panels⟩ :=
      List.inj_on_of_nodup_map layout.placed.names (List.mem_of_find?_eq_some hfind) hmem hname
    exact ⟨row, hfind, by rw [hrow]⟩

/-- A panel is held by exactly one row: the one whose panels have it among them. -/
theorem holder?_spec (layout : Layout) (panel : Panel) :
    ∃ name, layout.holder? panel = some name ∧
      ∀ other, (∃ panels, layout.panels? other = some panels ∧ panel ∈ panels) ↔ other = name := by
  have hcount := layout.placed.count panel
  have hmem : panel ∈ panelsOf layout.rows := List.count_pos_iff.mp (by omega)
  obtain ⟨row, hrow, hin⟩ := List.mem_flatMap.mp hmem
  have hsome : (layout.rows.find? (panel ∈ ·.panels)).isSome := by
    rw [List.find?_isSome]
    exact ⟨row, hrow, by simpa using hin⟩
  obtain ⟨first, hfind⟩ := Option.isSome_iff_exists.mp hsome
  have hfirst := List.mem_of_find?_eq_some hfind
  have hholds : panel ∈ first.panels := by simpa using List.find?_some hfind
  refine ⟨first.name, by simp [holder?, hfind], fun other => ⟨?_, ?_⟩⟩
  · rintro ⟨panels, hpanels, hpanel⟩
    have heq := eq_of_mem_panels hcount (panels?_eq_some_iff.mp hpanels) hfirst hpanel hholds
    exact congrArg Row.name heq
  · rintro rfl
    exact ⟨first.panels, panels?_eq_some_iff.mpr hfirst, hholds⟩

theorem resolve?_row_isSome_iff (layout : Layout) (name : String) :
    (layout.resolve? (.row name)).isSome ↔ name ∈ layout.rows.map (·.name) := by
  simp [resolve?, List.find?_isSome]

/-! ## Rows that pass the check -/

theorem repeated?_of_nodup {seen panels : List Panel} (hnodup : panels.Nodup)
    (hunseen : ∀ panel ∈ panels, panel ∉ seen) : repeated? seen panels = none := by
  induction panels generalizing seen with
  | nil => rfl
  | cons panel rest ih =>
    rw [List.nodup_cons] at hnodup
    rw [repeated?, if_neg (hunseen panel List.mem_cons_self)]
    refine ih hnodup.2 fun other hother hseen => ?_
    rcases List.mem_cons.mp hseen with rfl | hbefore
    · exact hnodup.1 hother
    · exact hunseen other (List.mem_cons_of_mem _ hother) hbefore

theorem repetition?_of_nodup {names : List String} {seen : List Panel} {rows : List Row}
    (hnames : (rows.map (·.name)).Nodup) (hfresh : ∀ row ∈ rows, row.name ∉ names)
    (hpanels : (panelsOf rows).Nodup) (hunseen : ∀ panel ∈ panelsOf rows, panel ∉ seen) :
    repetition? names seen rows = none := by
  induction rows generalizing names seen with
  | nil => rfl
  | cons row rest ih =>
    rw [List.map_cons, List.nodup_cons] at hnames
    simp only [panelsOf, List.flatMap_cons, List.nodup_append] at hpanels
    simp only [panelsOf, List.flatMap_cons, List.mem_append] at hunseen
    have hrow : repeated? seen row.panels = none :=
      repeated?_of_nodup hpanels.1 fun panel hpanel => hunseen panel (.inl hpanel)
    simp only [repetition?, if_neg (hfresh row List.mem_cons_self), hrow]
    refine ih hnames.2 ?_ hpanels.2.1 ?_
    · intro other hother hname
      rcases List.mem_cons.mp hname with hsame | hbefore
      · exact hnames.1 (hsame ▸ List.mem_map_of_mem hother)
      · exact hfresh other (List.mem_cons_of_mem _ hother) hbefore
    · intro panel hpanel hseen
      rcases List.mem_append.mp hseen with hhere | hbefore
      · exact hpanels.2.2 panel hhere panel hpanel rfl
      · exact hunseen panel (.inr hpanel) hbefore

theorem defect?_of_placed {rows : List Row} (h : Placed rows) : defect? rows = none := by
  have hnodup : (panelsOf rows).Nodup :=
    List.nodup_iff_count.mpr fun panel => Nat.le_of_eq (h.count panel)
  have hmissing : missing? rows = none := by
    refine Option.map_eq_none_iff.mpr (List.find?_eq_none.mpr fun panel _ => ?_)
    have hmem : panel ∈ panelsOf rows := List.count_pos_iff.mp (by rw [h.count panel]; exact Nat.one_pos)
    simp [hmem]
  rw [defect?, Option.or_eq_none_iff]
  exact ⟨repetition?_of_nodup h.names (by simp) hnodup (by simp), hmissing⟩

/-- The rows of a layout are those of that layout. -/
theorem ofRows_rows (layout : Layout) : ofRows layout.rows = .ok layout := by
  simp only [ofRows]
  split
  next defect hdefect =>
    rw [defect?_of_placed layout.placed] at hdefect
    cases hdefect
  next => rfl

end Layout

/-! ## Names -/

namespace Layout

def names (layout : Layout) : List String := layout.rows.map (·.name)

theorem names_after (layout : Layout) (move : Move) : (layout.after move).names = layout.names := by
  unfold after
  split
  · rfl
  · split
    · rfl
    · simp [names, Move.apply_name]

theorem names_drop (drag : Drag) (layout : Layout) (target : Option Target) :
    (drag.drop layout target).names = layout.names := by
  cases drag with
  | idle => rfl
  | carrying panel source =>
    cases target with
    | none => rfl
    | some target => exact names_after layout _

theorem rows_of_ofRows {rows : List Row} {layout : Layout} (h : ofRows rows = .ok layout) :
    layout.rows = rows := by
  simp only [ofRows] at h
  split at h
  · cases h
  · cases h
    rfl

end Layout

/-- Nothing that is done at a desk names, adds, removes or reorders rows. -/
theorem History.names_layout (desk : Desk) (events : List Event) :
    (History.of desk events).desk.layout.names = desk.layout.names := by
  induction events using List.reverseRecOn with
  | nil => rfl
  | append_singleton events event ih =>
    rw [of_append, List.foldl_cons, List.foldl_nil, layout_step, Layout.names_drop, ih]

/-! ## Layouts that come about -/

namespace Layout

/-- A layout that came about from rows of these names. -/
inductive Obtained : List String → Layout → Prop where
  | declared {rows : List Row} {layout : Layout} :
      ofRows rows = .ok layout → Obtained (rows.map (·.name)) layout
  | standard : Obtained ["top", "bottom"] .standard
  /-- Decoded from a JSON value. -/
  | ofValue {json : Json} {rows : List Row} {layout : Layout} :
      Row.codec.list.ofJson json = .ok rows → codec.ofJson json = .ok layout →
      Obtained (rows.map (·.name)) layout
  /-- Decoded from a JSON text. -/
  | ofText {text : String} {layout : Layout} :
      codec.parse text = .ok layout → Obtained layout.names layout
  | loaded {files : Files} {path : Path} {settings : Settings} :
      Settings.load files path = .ok settings → Obtained settings.layout.names settings.layout
  | moved {names : List String} {layout : Layout} (move : Move) :
      Obtained names layout → Obtained names (layout.after move)
  | dropped {names : List String} {layout : Layout} (drag : Drag) (target : Option Target) :
      Obtained names layout → Obtained names (drag.drop layout target)
  /-- The layout of a desk after some events. -/
  | worked {names : List String} {desk : Desk} (events : List Event) :
      Obtained names desk.layout → Obtained names (History.of desk events).desk.layout

theorem Obtained.names_eq {names : List String} {layout : Layout} (h : Obtained names layout) :
    layout.names = names := by
  induction h with
  | declared hrows => rw [Layout.names, rows_of_ofRows hrows]
  | standard => rfl
  | @ofValue json rows layout hrows hlayout =>
    simp only [codec, Json.Codec.refine, hrows, Except.bind, check] at hlayout
    cases hdeclared : ofRows rows with
    | error defect => simp [hdeclared, Except.mapError] at hlayout
    | ok declared =>
      simp only [hdeclared, Except.mapError, Except.ok.injEq] at hlayout
      subst hlayout
      rw [Layout.names, rows_of_ofRows hdeclared]
  | ofText => rfl
  | loaded => rfl
  | moved move _ ih => rw [names_after, ih]
  | dropped drag target _ ih => rw [names_drop, ih]
  | worked events _ ih => rw [History.names_layout, ih]

/-- In every layout that comes about, the rows have the names they were declared with, in that order
and pairwise distinct, and every panel has exactly one position; looking up succeeds for every panel
and for exactly the names of the rows. -/
theorem placement_of_obtained {names : List String} {layout : Layout}
    (h : Obtained names layout) :
    layout.rows.map (·.name) = names ∧ names.Nodup ∧
      (∀ panel, ∃! position, panelAt? layout.rows position = some panel) ∧
      layout.size = 4 ∧
      (∀ panel, ∃ name, layout.holder? panel = some name ∧
        ∀ other, (∃ panels, layout.panels? other = some panels ∧ panel ∈ panels) ↔ other = name) ∧
      (∀ panel, (layout.resolve? (.panel panel)).isSome) ∧
      (∀ name, (layout.resolve? (.row name)).isSome ↔ name ∈ names) ∧
      ∀ move, (layout.after move).rows.map (·.name) = names := by
  have hnames : layout.rows.map (·.name) = names := h.names_eq
  refine ⟨hnames, hnames ▸ layout.placed.names,
    fun panel => existsUnique_panelAt? (layout.placed.count panel), size_eq_four layout.placed.count,
    holder?_spec layout, fun panel => ?_, fun name => ?_, fun move => ?_⟩
  · obtain ⟨name, hholder, -⟩ := holder?_spec layout panel
    simp [resolve?, hholder]
  · rw [resolve?_row_isSome_iff, hnames]
  · exact (names_after layout move).trans hnames

/-- A row of one panel beside an empty row, after a drag into the empty one. -/
theorem placement_of_drag_into_empty_row :
    let layout : Layout :=
      ⟨[⟨"left", [.ast]⟩, ⟨"middle", []⟩, ⟨"right", [.sections, .assembly, .ir]⟩],
        ⟨by decide, by intro panel; cases panel <;> decide⟩⟩
    let moved := (Drag.carrying .ast "left").drop layout (some (.row "middle"))
    ofRows layout.rows = .ok layout ∧
      moved.rows.map (·.name) = ["left", "middle", "right"] ∧
      (∃! position, panelAt? moved.rows position = some .ast) ∧
      moved.holder? .ast = some "middle" := by
  intro layout moved
  have hdeclared : ofRows layout.rows = .ok layout := by cbv
  have hmoved := placement_of_obtained
    (.dropped (.carrying .ast "left") (some (.row "middle")) (.declared hdeclared))
  exact ⟨hdeclared, hmoved.1, hmoved.2.2.1 .ast, by cbv⟩

end Layout

end DecompilerDesk
