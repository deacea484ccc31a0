-- SUMMARY: Settings that are saved are loaded as they were, wherever the system gives back what was written.
import DecompilerDesk.Proofs.Json.Forms
import DecompilerDesk.Proofs.Settings.Walking

/-!
# Saving

Settings are saved by writing a file and loaded by reading it at the same path. What is read there may
be something else: a device keeps nothing, and a file that may be written need not be readable. Where
the text is given back, the loader reads what the saver wrote, but asks for an engine. An ordinary file
gives it back.
-/

namespace DecompilerDesk

namespace Files

variable {files : Files} {path : Path}

/-! ## What is given back -/

/-- What is at the path keeps what is written and may be read. If nothing is there, files that are made
may be read. -/
def Keeps (files : Files) (path : Path) : Prop :=
  match files.find? path with
  | .ok (.file file) => file.keeps = true ∧ file.rights.unreadable = none
  | .ok (.directory _) => False
  | .error _ => files.made.unreadable = none

/-- Something can be written to the path. -/
def Writable (files : Files) (path : Path) : Prop :=
  ∃ content after, files.write path content = .ok after

/-- Where a path that can be written leads: to a file, or to where one can be made. -/
theorem Writable.cases (h : files.Writable path) :
    ∃ spot, files.follow Path.wayToFile path = .ok spot ∧ ¬ files.IsDirectory spot ∧
      ((∃ file, files.node? spot = some (.file file) ∧ ∀ content, files.write path content =
          .ok (if file.keeps then files.put spot (.file { file with content }) else files)) ∨
        files.node? spot = none ∧ ∀ content, files.write path content =
          .ok (files.put spot (.file { content, rights := files.made }))) := by
  obtain ⟨content, after, hwrite⟩ := h
  unfold write at hwrite ⊢
  cases hfollow : files.follow Path.wayToFile path with
  | error refused => simp [hfollow, Except.bind] at hwrite
  | ok spot =>
    simp only [hfollow, Except.bind] at hwrite ⊢
    refine ⟨spot, rfl, ?_⟩
    cases hnode : files.node? spot with
    | none =>
      cases hunmakeable : files.unmakeable? spot with
      | some refused => simp [hnode, hunmakeable] at hwrite
      | none => exact ⟨by simp [IsDirectory, hnode], .inr ⟨rfl, fun _ => rfl⟩⟩
    | some node =>
      cases node with
      | directory directory => simp [hnode] at hwrite
      | file file =>
        cases hunwritable : file.rights.unwritable with
        | some refused => simp [hnode, hunwritable] at hwrite
        | none =>
          refine ⟨by simp [IsDirectory, hnode], .inl ⟨file, rfl, fun content => ?_⟩⟩
          simp [hunwritable]

/-- Whatever is written to a path that can be written is taken, and given back by a file that keeps it. -/
theorem Writable.write (h : files.Writable path) (content : Bytes) :
    ∃ after, files.write path content = .ok after ∧
      (files.Keeps path → after.read path = .ok content) := by
  obtain ⟨spot, hfollow, hspot, ⟨file, hnode, hwrite⟩ | ⟨hnode, hwrite⟩⟩ := h.cases
  · refine ⟨_, hwrite content, fun hkeeps => ?_⟩
    obtain ⟨hmeant, hput⟩ := follow_put hfollow hspot (.file { file with content })
    have hfind : files.find? path = .ok (.file file) := find?_eq_ok_iff.mpr ⟨spot, hmeant, hnode⟩
    simp only [Keeps, hfind] at hkeeps
    obtain ⟨hkept, hreadable⟩ := hkeeps
    rw [if_pos hkept, read, hput]
    simp [Except.bind, hreadable]
  · refine ⟨_, hwrite content, fun hkeeps => ?_⟩
    obtain ⟨hmeant, hput⟩ := follow_put hfollow hspot (.file { content, rights := files.made })
    have hfind : files.find? path = .error .notFound := by
      simp [find?, hmeant, Except.bind, hnode]
    simp only [Keeps, hfind] at hkeeps
    simp [read, hput, Except.bind, hkeeps]

end Files

/-! ## Settings -/

namespace Settings

variable {files : Files} {path : Path}

/-- What is loaded from where a text can be read. -/
theorem load_of_readText {text : String} (h : files.readText path = .ok text) :
    load files path = ofContent path (.ok text) := by
  have hexists : files.exists? path = true := by
    unfold Files.readText Files.read at h
    unfold Files.exists?
    cases hfind : files.find? path with
    | error refused => simp [hfind, Except.bind] at h
    | ok node => rfl
  simp [load, hexists, h, Except.mapError]

/-- The text that is written for settings is read as these settings. They have to name an engine. -/
theorem parse_pretty (settings : Settings) :
    parse (codec.pretty settings) =
      if settings.engineCommand = [] then .error "engine_command must name a program"
      else .ok settings := by
  have hround : codec.parse (codec.pretty settings) = .ok settings :=
    ((Settings.lawful 123).roundTrips settings).2.1
  simp [parse, hround]

/-- Where something can be written settings are saved, and a file that keeps what is written gives their
text back. Wherever it is given back, they are loaded as they were if they name an engine, and if they
name none the loader says so for that path. -/
theorem load_of_save (settings : Settings) (hwritable : files.Writable path) :
    ∃ after, settings.save files path = .ok after ∧
      (files.Keeps path → after.read path = .ok (Bytes.ofText (codec.pretty settings))) ∧
      (after.read path = .ok (Bytes.ofText (codec.pretty settings)) →
        (settings.engineCommand ≠ [] → load after path = .ok settings) ∧
        (settings.engineCommand = [] →
          load after path =
            .error (.settings path.display "engine_command must name a program"))) := by
  obtain ⟨after, hwrite, hgiven⟩ := hwritable.write (Bytes.ofText (codec.pretty settings))
  refine ⟨after, by simp [save, hwrite, Except.mapError], hgiven, fun hread => ?_⟩
  have htext : after.readText path = .ok (codec.pretty settings) := by
    simp [Files.readText, hread, Except.bind]
  rw [load_of_readText htext, ofContent, Except.bind, parse_pretty]
  refine ⟨fun hengine => ?_, fun hengine => ?_⟩
  · rw [if_neg hengine]
    rfl
  · rw [if_pos hengine]
    rfl

/-- Settings with an empty row and with texts that are escaped, through a link into a directory; and
the same without an engine. -/
theorem load_of_save_through_link :
    let layout : Layout :=
      ⟨[⟨"", []⟩, ⟨"a \"row\"\n", [.ast, .sections, .ir, .assembly]⟩],
        ⟨by decide, by intro panel; cases panel <;> decide⟩⟩
    let named : Settings := ⟨["engine", "", "\\ \u2028"], 18446744073709551615, layout, true⟩
    let files : Files :=
      { nodes := [(⟨.above 0, [Bytes.ofText "kept"]⟩, .directory {})]
        links := [(⟨.above 0, [Bytes.ofText "desk"]⟩, .ofText "kept/./desk.json")] }
    let path := Path.ofText "desk"
    files.Writable path ∧ files.Keeps path ∧
      (∃ after, named.save files path = .ok after ∧ load after path = .ok named) ∧
      ∃ after, { named with engineCommand := [] }.save files path = .ok after ∧
        load after path = .error (.settings "desk" "engine_command must name a program") := by
  intro layout named files path
  have hkeeps : files.Keeps path := by
    have habsent : files.find? path = .error .notFound := by decide +kernel
    simp [Files.Keeps, habsent, files]
  have hwritable : files.Writable path :=
    ⟨[], files.put ⟨.above 0, [Bytes.ofText "kept", Bytes.ofText "desk.json"]⟩ (.file { content := [] }),
      by decide +kernel⟩
  have hdisplay : path.display = "desk" := by decide +kernel
  obtain ⟨after, hsave, hgiven, hload⟩ := load_of_save named hwritable
  obtain ⟨after', hsave', hgiven', hload'⟩ :=
    load_of_save { named with engineCommand := [] } hwritable
  exact ⟨hwritable, hkeeps, ⟨after, hsave, (hload (hgiven hkeeps)).1 (by simp [named])⟩,
    after', hsave', hdisplay ▸ (hload' (hgiven' hkeeps)).2 rfl⟩

/-- A device takes settings and keeps nothing. -/
theorem not_loaded_from_null_device :
    ¬ ∀ (settings : Settings) (files : Files) (path : Path),
      files.Writable path →
      ∃ after, settings.save files path = .ok after ∧
        (settings.engineCommand ≠ [] → load after path = .ok settings) ∧
        (settings.engineCommand = [] →
          load after path =
            .error (.settings path.display "engine_command must name a program")) := by
  intro hall
  let files : Files :=
    { nodes := [(⟨.root, [Bytes.ofText "dev"]⟩, .directory {}),
        (⟨.root, [Bytes.ofText "dev", Bytes.ofText "null"]⟩, .file { content := [], keeps := false })] }
  let spot : Spot := ⟨.root, [Bytes.ofText "dev", Bytes.ofText "null"]⟩
  have hfollow : files.follow Path.wayToFile (.ofText "/dev/null") = .ok spot := by decide +kernel
  have hnode : files.node? spot = some (.file { content := [], keeps := false }) := by decide +kernel
  have hwrite (content : Bytes) : files.write (.ofText "/dev/null") content = .ok files := by
    simp [Files.write, hfollow, Except.bind, hnode]
  have hsaved : defaults.save files (.ofText "/dev/null") = .ok files := by
    rw [save, hwrite, Except.mapError]
  have htext : files.readText (.ofText "/dev/null") = .ok "" := by decide +kernel
  have hloaded : load files (.ofText "/dev/null") =
      .error (.settings "/dev/null" "EOF while parsing a value at line 1 column 0") := by
    rw [load_of_readText htext]
    decide +kernel
  obtain ⟨after, hsave, hload, -⟩ := hall defaults files (.ofText "/dev/null") ⟨[], _, hwrite []⟩
  obtain rfl := Except.ok.inj (hsaved.symm.trans hsave)
  have hkept := hload (by decide)
  rw [hloaded] at hkept
  cases hkept

end Settings

end DecompilerDesk
