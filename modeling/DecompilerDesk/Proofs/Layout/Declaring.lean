-- SUMMARY: Rows that are declared in JSON, alone or in settings, give the layout they make, or their first defect.
import DecompilerDesk.Proofs.Json.Checked
import DecompilerDesk.Proofs.Json.Forms
import DecompilerDesk.Proofs.Layout.Defects

/-!
# Declaring layouts

A layout is declared by its rows: as a list of them, or among the settings. A draft is settings as they
are declared, with rows that may have defects; the settings are read wherever a draft is, if its rows
make a layout.
-/

namespace DecompilerDesk

open Json (Codec)

namespace Settings

/-- Settings with rows that need not make a layout. -/
structure Draft where
  engineCommand : List String
  logCapacity : UInt64
  rows : List Row
  darkMode : Bool
  deriving DecidableEq

namespace Draft

/-- The settings with a layout in place of the rows. -/
def settings (draft : Draft) (layout : Layout) : Settings :=
  ⟨draft.engineCommand, draft.logCapacity, layout, draft.darkMode⟩

def codec : Codec Draft :=
  .record "Settings"
    (.cons (.withDefault "engine_command" Codec.text.list defaults.engineCommand) <|
      .cons (.withDefault "log_capacity" .count defaults.logCapacity) <|
      .cons (.withDefault "layout" Row.codec.list defaults.layout.rows) <|
      .cons (.withDefault "dark_mode" .boolean defaults.darkMode) .nil)
    (fun (engineCommand, logCapacity, rows, darkMode, ()) =>
      ⟨engineCommand, logCapacity, rows, darkMode⟩)
    (fun d => (d.engineCommand, d.logCapacity, d.rows, d.darkMode, ()))

theorem lawful (depth : Nat) : codec.Lawful (depth + 4) :=
  Codec.lawful_record _
    ⟨Codec.lawful_list (Codec.lawful_text (depth + 2)), Codec.lawful_count (depth + 3),
      Codec.lawful_list (Row.lawful depth), Codec.lawful_boolean (depth + 3), trivial⟩
    (by decide) fun _ => rfl

end Draft

end Settings

/-! ## Reading what was declared -/

theorem Layout.checked : Layout.codec.Checked Row.codec.list fun rows => (ofRows rows).toOption := by
  have hcheck : (fun rows => (check rows).toOption) = fun rows => (ofRows rows).toOption := by
    funext rows
    unfold check
    cases ofRows rows <;> rfl
  exact hcheck ▸ Codec.checked_refine Row.codec.list check rows

theorem Settings.checked :
    Settings.codec.Checked Draft.codec fun draft =>
      (Layout.ofRows draft.rows).toOption.map draft.settings := by
  have hdefault : (Layout.ofRows defaults.layout.rows).toOption = some defaults.layout := by
    rw [Layout.ofRows_rows]
    rfl
  have hlayout := Json.Field.checked_withDefault "layout" Layout.checked hdefault
  refine Codec.checked_record (.cons (Json.Field.checked_self _) <| .cons (Json.Field.checked_self _) <|
    .cons hlayout <| .cons (Json.Field.checked_self _) .nil) _ _ ?_
  rintro ⟨engineCommand, logCapacity, rows, darkMode, ⟨⟩⟩
  simp only [Json.both, Option.bind_some, Option.map_eq_bind]
  cases (Layout.ofRows rows).toOption <;> rfl

namespace Layout

/-- Rows make a layout, which keeps them as they are, if their names are distinct and their panels are
all panels in some order, and else their first defect is told. Rows that are read make what they make by
themselves, whether they are read as a layout or in settings: that layout, or nothing. -/
theorem declared (rows : List Row) :
    (∀ layout, ofRows rows = .ok layout → layout.rows = rows) ∧
      ((∃ layout, ofRows rows = .ok layout) ↔
        (rows.map (·.name)).Nodup ∧ (panelsOf rows).Perm Panel.all) ∧
      (∀ defect, ofRows rows = .error defect ↔ FirstDefect rows defect) ∧
      Layout.codec.Makes Row.codec.list rows (ofRows rows = .ok ·) ∧
      (∀ json, Row.codec.list.ofJson json = .ok rows → ∀ defect, FirstDefect rows defect →
        Layout.codec.ofJson json =
          .error (.refused (Failure.badLayout defect.message).message)) ∧
      ∀ draft : Settings.Draft, draft.rows = rows →
        Settings.codec.Makes Settings.Draft.codec draft fun settings =>
          ∃ layout, ofRows rows = .ok layout ∧ settings = draft.settings layout := by
  have hkept (layout : Layout) : ofRows rows = .ok layout → layout.rows = rows := ofRows_eq_ok_iff.mp
  refine ⟨hkept, ⟨?_, ?_⟩, fun defect => ofRows_eq_error_iff, ?_, ?_, ?_⟩
  · rintro ⟨layout, hlayout⟩
    exact placed_iff.mp (hkept layout hlayout ▸ layout.placed)
  · intro hplaced
    exact ⟨⟨rows, placed_iff.mpr hplaced⟩, ofRows_eq_ok_iff.mpr rfl⟩
  · have hmakes := checked.makes rows
    simp only [Json.toOption_eq_some] at hmakes
    exact hmakes
  · intro json hjson defect hdefect
    rw [← ofRows_eq_error_iff] at hdefect
    simp only [codec, Codec.refine, hjson, Except.bind, check, hdefect]
    rfl
  · rintro draft rfl
    have hmakes := Settings.checked.makes draft
    simp only [Option.map_eq_some_iff, Json.toOption_eq_some, eq_comm (a := draft.settings _)] at hmakes
    exact hmakes

/-- A panel stands twice before a row is named twice; and rows in another order, one of them empty. -/
theorem declared_of_interleaved_repetitions :
    let faulty : List Row := [⟨"top", [.sections, .ir]⟩, ⟨"bottom", [.ir, .ast]⟩, ⟨"top", [.sections]⟩]
    let sound : List Row := [⟨"", [.ast, .ir]⟩, ⟨"bottom", []⟩, ⟨"top", [.assembly, .sections]⟩]
    let draft (rows : List Row) : Settings.Draft := ⟨[], 0, rows, true⟩
    let json (rows : List Row) := (Row.codec.list.toJson rows).sorted
    let text (rows : List Row) := Settings.Draft.codec.pretty (draft rows)
    FirstDefect faulty (.panelTwice .ir) ∧
      Layout.codec.ofJson (json faulty) =
        .error (.refused "Invalid layout: panel 'ir-panel' placed twice") ∧
      (∀ settings, Settings.codec.parse (text faulty) ≠ .ok settings) ∧
      ∃ layout, layout.rows = sound ∧ Layout.codec.ofJson (json sound) = .ok layout ∧
        Settings.codec.parse (text sound) = .ok ⟨[], 0, layout, true⟩ := by
  intro faulty sound draft json text
  have hjson (rows : List Row) : Row.codec.list.ofJson (json rows) = .ok rows :=
    ((Codec.lawful_list (Row.lawful 124)).roundTrips rows).2.2
  have htext (rows : List Row) : Settings.Draft.codec.parse (text rows) = .ok (draft rows) :=
    ((Settings.Draft.lawful 123).roundTrips (draft rows)).2.1
  have hfaulty : ofRows faulty = .error (.panelTwice .ir) := rfl
  have hplaced : (sound.map (·.name)).Nodup ∧ (panelsOf sound).Perm Panel.all := by decide
  obtain ⟨-, -, hdefect, -, htold, hfails⟩ := declared faulty
  obtain ⟨hkept, hmade, -, hreads, -, hsettings⟩ := declared sound
  have hfirst := (hdefect _).mp hfaulty
  obtain ⟨layout, hlayout⟩ := hmade.mpr hplaced
  refine ⟨hfirst, htold _ (hjson faulty) _ hfirst, ?_, layout, hkept layout hlayout, ?_, ?_⟩
  · intro settings hsettings
    obtain ⟨layout, hlayout, -⟩ := ((hfails (draft faulty) rfl).parse _ (htext faulty) settings).mp hsettings
    rw [hfaulty] at hlayout
    cases hlayout
  · exact (hreads.ofJson _ (hjson sound) layout).mpr hlayout
  · exact ((hsettings (draft sound) rfl).parse _ (htext sound) _).mpr ⟨layout, hlayout, rfl⟩

end Layout

end DecompilerDesk
