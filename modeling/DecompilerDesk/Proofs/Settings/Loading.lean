-- SUMMARY: Whatever is at a path, loading settings from there gives what is declared, or a failure that names the path.
import DecompilerDesk.Proofs.Settings.Saving
import DecompilerDesk.Proofs.Layout.Declaring

/-!
# Loading

Where nothing is, the defaults are loaded. Anything else has to be read, to be text, to decode, to place
every panel and to name an engine, one after the other; the first of these that fails is the reason
given. So settings that are loaded are sound. But the loader takes a file for absent to which the system
does not get, and makes up settings for it.
-/

namespace DecompilerDesk

/-- Bytes are read as a text if they are its bytes. -/
theorem Bytes.text?_eq_some_iff {content : Bytes} {text : String} :
    content.text? = some text ↔ content = ofText text := by
  constructor
  · intro h
    have hbytes : content.toByteArray = (ofText text).toByteArray := by
      rw [toByteArray_ofText]
      unfold text? String.fromUTF8? at h
      split at h
      next => exact congrArg String.toByteArray (Option.some.inj h)
      next => cases h
    have hdata := congrArg (·.data.toList) hbytes
    simpa only [List.data_toByteArray] using hdata
  · rintro rfl
    exact text?_ofText text

theorem Bytes.ofText_inj {text other : String} : ofText text = ofText other ↔ text = other := by
  rw [← text?_eq_some_iff, text?_ofText, Option.some.injEq]

/-- Bytes that are read as no text are the bytes of none. -/
theorem Bytes.ne_ofText {content : Bytes} (h : content.text? = none) (text : String) :
    content ≠ ofText text := by
  rw [ne_eq, ← text?_eq_some_iff, h]
  nofun

namespace Files

variable {files : Files} {path : Path}

theorem read_eq_ok_iff {content : Bytes} :
    files.read path = .ok content ↔ ∃ file, files.find? path = .ok (.file file) ∧
      file.rights.unreadable = none ∧ file.content = content := by
  unfold read
  cases hfind : files.find? path with
  | error refused => simp [Except.bind]
  | ok node =>
    cases node with
    | file file => cases hrefused : file.rights.unreadable <;> simp [Except.bind, hrefused]
    | directory directory => simp [Except.bind]

theorem read_eq_error_iff_of_find? {node : Node} {refused : SystemError}
    (hnode : files.find? path = .ok node) :
    files.read path = .error refused ↔
      (∃ file, node = .file file ∧ file.rights.unreadable = some refused) ∨
        ∃ directory, node = .directory directory ∧
          directory.unreadable.getD .isDirectory = refused := by
  unfold read
  rw [hnode]
  cases node with
  | file file => cases hrefused : file.rights.unreadable <;> simp [Except.bind, hrefused]
  | directory directory => simp [Except.bind]

theorem readText_eq_ok_iff {text : String} :
    files.readText path = .ok text ↔ files.read path = .ok (Bytes.ofText text) := by
  unfold readText
  cases hread : files.read path with
  | error refused => simp [Except.bind]
  | ok content =>
    rw [Except.bind, Except.ok.injEq, ← Bytes.text?_eq_some_iff]
    cases content.text? <;> simp

theorem readText_eq_error_iff {refused : SystemError} :
    files.readText path = .error refused ↔ files.read path = .error refused ∨
      refused = .notUtf8 ∧ ∃ content, files.read path = .ok content ∧
        ∀ text, content ≠ Bytes.ofText text := by
  unfold readText
  cases hread : files.read path with
  | error other => simp [Except.bind]
  | ok content =>
    simp only [Except.bind, ← Bytes.text?_eq_some_iff, ne_eq, Except.ok.injEq, exists_eq_left',
      reduceCtorEq, false_or]
    cases content.text? <;> simp [eq_comm]

end Files

namespace Settings

/-! ## Texts -/

/-- Rows place every panel once, under names that are distinct. -/
def Draft.IsPlaced (draft : Draft) : Prop :=
  (draft.rows.map (·.name)).Nodup ∧ (Layout.panelsOf draft.rows).Perm Panel.all

/-- A text declares settings if it decodes as a draft that is the settings but for its rows, the rows
are those of the layout, and an engine is named. -/
structure Declares (text : String) (settings : Settings) : Prop where
  draft : Draft.codec.parse text =
    .ok ⟨settings.engineCommand, settings.logCapacity, settings.layout.rows, settings.darkMode⟩
  engine : settings.engineCommand ≠ []

/-- Why a text declares no settings. Rows that make no layout are told where they are read, before what
may be wrong with the text behind them. -/
inductive Flaw (text : String) : String → Prop where
  | undecodable {fault : Json.Fault} : (∀ draft, Draft.codec.parse text ≠ .ok draft) →
      codec.parse text = .error fault → Flaw text fault.message
  | misplaced {draft : Draft} {fault : Json.Fault} : Draft.codec.parse text = .ok draft →
      ¬ draft.IsPlaced → codec.parse text = .error fault → Flaw text fault.message
  | noEngine {draft : Draft} : Draft.codec.parse text = .ok draft →
      draft.IsPlaced → draft.engineCommand = [] → Flaw text "engine_command must name a program"

variable {text : String}

/-- Settings are read where a draft is whose rows make a layout. -/
theorem codec_parse_eq_ok_iff {settings : Settings} :
    codec.parse text = .ok settings ↔ Draft.codec.parse text =
      .ok ⟨settings.engineCommand, settings.logCapacity, settings.layout.rows, settings.darkMode⟩ := by
  rw [← Json.toOption_eq_some, Settings.checked.parse text, Option.bind_eq_some_iff]
  simp only [Option.map_eq_some_iff, Json.toOption_eq_some, Layout.ofRows_eq_ok_iff]
  constructor
  · rintro ⟨draft, hdraft, layout, hrows, rfl⟩
    rw [hdraft]
    simp [Draft.settings, hrows]
  · intro hdraft
    exact ⟨_, hdraft, settings.layout, rfl, rfl⟩

theorem isPlaced_of_codec_parse {settings : Settings} {draft : Draft}
    (hsettings : codec.parse text = .ok settings) (hdraft : Draft.codec.parse text = .ok draft) :
    draft.IsPlaced ∧ draft.engineCommand = settings.engineCommand := by
  rw [codec_parse_eq_ok_iff, hdraft] at hsettings
  obtain rfl := Except.ok.inj hsettings
  exact ⟨Layout.placed_iff.mp settings.layout.placed, rfl⟩

theorem codec_parse_of_isPlaced {draft : Draft} (hdraft : Draft.codec.parse text = .ok draft)
    (hplaced : draft.IsPlaced) :
    ∃ settings, codec.parse text = .ok settings ∧ settings.engineCommand = draft.engineCommand := by
  let layout : Layout := ⟨draft.rows, Layout.placed_iff.mpr hplaced⟩
  exact ⟨draft.settings layout, codec_parse_eq_ok_iff.mpr hdraft, rfl⟩

theorem parse_eq_ok_iff {settings : Settings} : parse text = .ok settings ↔ Declares text settings := by
  have hdeclares : Declares text settings ↔
      codec.parse text = .ok settings ∧ settings.engineCommand ≠ [] := by
    rw [codec_parse_eq_ok_iff]
    exact ⟨fun h => ⟨h.draft, h.engine⟩, fun h => ⟨h.1, h.2⟩⟩
  rw [hdeclares, parse]
  cases codec.parse text with
  | error fault => simp
  | ok read =>
    by_cases hengine : read.engineCommand = []
    · simp only [hengine, List.isEmpty_nil, if_true, Except.ok.injEq, reduceCtorEq, false_iff]
      rintro ⟨rfl, hnamed⟩
      exact hnamed hengine
    · simp only [List.isEmpty_iff, hengine, if_false, Except.ok.injEq]
      refine ⟨?_, And.left⟩
      rintro rfl
      exact ⟨rfl, hengine⟩

/-- The flaw of a text that is not read as settings is what reading it fails with. -/
theorem flaw_iff_of_error {fault : Json.Fault} (hfault : codec.parse text = .error fault)
    {reason : String} : Flaw text reason ↔ fault.message = reason := by
  have hnotPlaced {draft : Draft} (hdraft : Draft.codec.parse text = .ok draft) : ¬ draft.IsPlaced := by
    intro hplaced
    obtain ⟨settings, hread, -⟩ := codec_parse_of_isPlaced hdraft hplaced
    rw [hfault] at hread
    cases hread
  constructor
  · intro hflaw
    cases hflaw with
    | undecodable _ hother | misplaced _ _ hother =>
      rw [hfault] at hother
      rw [Except.error.inj hother]
    | noEngine hdraft hplaced _ => exact absurd hplaced (hnotPlaced hdraft)
  · rintro rfl
    cases hdraft : Draft.codec.parse text with
    | error other => exact .undecodable (by simp [hdraft]) hfault
    | ok draft => exact .misplaced hdraft (hnotPlaced hdraft) hfault

/-- A text that is read as settings has a flaw only if these name no engine. -/
theorem flaw_iff_of_ok {settings : Settings} (hsettings : codec.parse text = .ok settings)
    {reason : String} :
    Flaw text reason ↔
      settings.engineCommand = [] ∧ "engine_command must name a program" = reason := by
  constructor
  · intro hflaw
    cases hflaw with
    | undecodable _ hfault | misplaced _ _ hfault =>
      rw [hsettings] at hfault
      cases hfault
    | noEngine hdraft _ hnone => exact ⟨(isPlaced_of_codec_parse hsettings hdraft).2 ▸ hnone, rfl⟩
  · rintro ⟨hnone, rfl⟩
    have hdraft := codec_parse_eq_ok_iff.mp hsettings
    exact .noEngine hdraft (isPlaced_of_codec_parse hsettings hdraft).1 hnone

theorem parse_eq_error_iff {reason : String} : parse text = .error reason ↔ Flaw text reason := by
  rw [parse]
  cases hsettings : codec.parse text with
  | error fault => rw [flaw_iff_of_error hsettings, Except.error.injEq]
  | ok settings =>
    rw [flaw_iff_of_ok hsettings]
    by_cases hengine : settings.engineCommand = [] <;> simp [hengine]

/-! ## Files -/

/-- A file is at the path that may be read, and its bytes are those of a text. -/
def Holds (files : Files) (path : Path) (text : String) : Prop :=
  ∃ file, files.IsAt path (.file file) ∧ file.rights.unreadable = none ∧
    file.content = Bytes.ofText text

/-- Why nothing can be loaded from what is at a path. -/
inductive Unusable (files : Files) (path : Path) : String → Prop where
  | unreadable {file : File} {refused : SystemError} : files.IsAt path (.file file) →
      file.rights.unreadable = some refused → Unusable files path refused.message
  | directory {directory : Directory} : files.IsAt path (.directory directory) →
      Unusable files path (directory.unreadable.getD .isDirectory).message
  | notText {file : File} : files.IsAt path (.file file) → file.rights.unreadable = none →
      (∀ text, file.content ≠ Bytes.ofText text) → Unusable files path SystemError.notUtf8.message
  | flawed {text reason : String} : Holds files path text → Flaw text reason →
      Unusable files path reason

variable {files : Files} {path : Path}

theorem load_of_absent {refused : SystemError} (h : files.find? path = .error refused) :
    load files path = .ok defaults := by
  simp [load, Files.exists?, h, Except.isOk, Except.toBool]

theorem load_of_present {node : Node} (h : files.find? path = .ok node) :
    load files path = ofContent path ((files.readText path).mapError SystemError.message) := by
  simp [load, Files.exists?, h, Except.isOk, Except.toBool]

theorem ofContent_eq_ok_iff {content : Except SystemError String} {settings : Settings} :
    ofContent path (content.mapError SystemError.message) = .ok settings ↔
      ∃ text, content = .ok text ∧ parse text = .ok settings := by
  cases content with
  | error refused => simp [ofContent, Except.mapError, Except.bind]
  | ok text => cases hparse : parse text <;> simp [ofContent, Except.mapError, Except.bind, hparse]

theorem ofContent_eq_error_iff {content : Except SystemError String} {failure : Failure} :
    ofContent path (content.mapError SystemError.message) = .error failure ↔
      ∃ reason, failure = .settings path.display reason ∧
        ((∃ refused, content = .error refused ∧ reason = refused.message) ∨
          ∃ text, content = .ok text ∧ parse text = .error reason) := by
  cases content with
  | error refused => simp [ofContent, Except.mapError, Except.bind, eq_comm]
  | ok text =>
    cases hparse : parse text <;> simp [ofContent, Except.mapError, Except.bind, hparse, eq_comm]

/-- Where the system gets, a text can be read if a file holds it. -/
theorem read_eq_ok_iff_holds {node : Node} {text : String} (hnode : files.find? path = .ok node) :
    files.read path = .ok (Bytes.ofText text) ↔ Holds files path text := by
  have hclear := (Files.find?_eq_ok_iff_isAt.mp hnode).2
  simp only [Files.read_eq_ok_iff, Holds, Files.find?_eq_ok_iff_isAt, hclear, not_false_eq_true, and_true]

theorem load_eq_ok_iff_of_present {node : Node} {settings : Settings}
    (hnode : files.find? path = .ok node) :
    load files path = .ok settings ↔ ∃ text, Holds files path text ∧ Declares text settings := by
  rw [load_of_present hnode, ofContent_eq_ok_iff]
  simp only [Files.readText_eq_ok_iff, parse_eq_ok_iff, read_eq_ok_iff_holds hnode]

theorem load_eq_error_iff_of_present {node : Node} {failure : Failure}
    (hnode : files.find? path = .ok node) :
    load files path = .error failure ↔
      ∃ reason, failure = .settings path.display reason ∧ Unusable files path reason := by
  obtain ⟨hat, hclear⟩ := Files.find?_eq_ok_iff_isAt.mp hnode
  rw [load_of_present hnode, ofContent_eq_error_iff]
  simp only [Files.readText_eq_ok_iff, Files.readText_eq_error_iff, parse_eq_error_iff,
    Files.read_eq_error_iff_of_find? hnode, read_eq_ok_iff_holds hnode]
  refine exists_congr fun reason => and_congr_right fun _ => ⟨?_, ?_⟩
  · rintro (⟨refused, (⟨file, rfl, hrefused⟩ | ⟨directory, rfl, rfl⟩) | ⟨rfl, content, hread, hcontent⟩,
      rfl⟩ | ⟨text, hholds, hflaw⟩)
    · exact .unreadable hat hrefused
    · exact .directory hat
    · obtain ⟨file, hfile, hreadable, rfl⟩ := Files.read_eq_ok_iff.mp hread
      exact .notText (Files.find?_eq_ok_iff_isAt.mp hfile).1 hreadable hcontent
    · exact .flawed hholds hflaw
  · intro hunusable
    cases hunusable with
    | unreadable hfile hrefused =>
      exact .inl ⟨_, .inl (.inl ⟨_, hat.unique hfile, hrefused⟩), rfl⟩
    | directory hdirectory => exact .inl ⟨_, .inl (.inr ⟨_, hat.unique hdirectory, rfl⟩), rfl⟩
    | @notText file hfile hreadable hcontent =>
      have hfound := Files.find?_eq_ok_iff_isAt.mpr ⟨hfile, hclear⟩
      exact .inl ⟨_, .inr ⟨rfl, _, Files.read_eq_ok_iff.mpr ⟨file, hfound, hreadable, rfl⟩, hcontent⟩, rfl⟩
    | flawed hholds hflaw => exact .inr ⟨_, hholds, hflaw⟩

/-- What is unusable is there. -/
theorem Unusable.present {reason : String} (h : Unusable files path reason) :
    ∃ node, files.IsAt path node := by
  cases h with
  | unreadable hfile _ => exact ⟨_, hfile⟩
  | directory hdirectory => exact ⟨_, hdirectory⟩
  | notText hfile _ _ => exact ⟨_, hfile⟩
  | flawed hholds _ =>
    obtain ⟨file, hfile, -⟩ := hholds
    exact ⟨_, hfile⟩

/-- Where no obstacle is, what is there is found. -/
theorem find?_of_not_obstructed (hclear : ¬ files.Obstructed path) :
    (∃ node, files.find? path = .ok node) ∨
      (∃ refused, files.find? path = .error refused) ∧ ∀ node, ¬ files.IsAt path node := by
  cases hfind : files.find? path with
  | ok node => exact .inl ⟨node, rfl⟩
  | error refused =>
    refine .inr ⟨⟨refused, rfl⟩, fun node hat => ?_⟩
    have hfound := Files.find?_eq_ok_iff_isAt.mpr ⟨hat, hclear⟩
    rw [hfind] at hfound
    cases hfound

/-- Whatever is at a path: unless an obstacle is on the way, settings are loaded if nothing is there and
they are the defaults, or if a file there holds a text that declares the settings. So the defaults are
loaded where nothing is or where they are declared. A failure to load is one of the configuration and
names the path, and its reason is why what is there is unusable. If an obstacle is on the way the
defaults are loaded, whatever is there. Whatever is loaded names an engine and places every panel once,
in rows with distinct names. -/
theorem load_classified (files : Files) (path : Path) :
    (¬ files.Obstructed path →
      (∀ settings, load files path = .ok settings ↔
        (∀ node, ¬ files.IsAt path node) ∧ settings = defaults ∨
          ∃ text, Holds files path text ∧ Declares text settings) ∧
      (load files path = .ok defaults ↔
        (∀ node, ¬ files.IsAt path node) ∨ ∃ text, Holds files path text ∧ Declares text defaults) ∧
      ∀ failure, load files path = .error failure ↔
        ∃ reason, failure = .settings path.display reason ∧ Unusable files path reason) ∧
      (files.Obstructed path → load files path = .ok defaults) ∧
      ∀ settings, load files path = .ok settings →
        settings.engineCommand ≠ [] ∧ (settings.layout.rows.map (·.name)).Nodup ∧
          (Layout.panelsOf settings.layout.rows).Perm Panel.all := by
  refine ⟨fun hclear => ?_, fun hobstructed => ?_, fun settings hsettings => ?_⟩
  · have hloads (settings : Settings) : load files path = .ok settings ↔
        (∀ node, ¬ files.IsAt path node) ∧ settings = defaults ∨
          ∃ text, Holds files path text ∧ Declares text settings := by
      obtain ⟨node, hnode⟩ | ⟨⟨refused, hrefused⟩, hnothing⟩ := find?_of_not_obstructed hclear
      · have hat := (Files.find?_eq_ok_iff_isAt.mp hnode).1
        rw [load_eq_ok_iff_of_present hnode]
        exact ⟨.inr, fun h => h.resolve_left fun hnothing => hnothing.1 node hat⟩
      · simp [load_of_absent hrefused, Holds, hnothing, eq_comm]
    refine ⟨hloads, by rw [hloads]; simp, fun failure => ?_⟩
    obtain ⟨node, hnode⟩ | ⟨⟨refused, hrefused⟩, hnothing⟩ := find?_of_not_obstructed hclear
    · exact load_eq_error_iff_of_present hnode
    · rw [load_of_absent hrefused]
      refine iff_of_false (by simp) ?_
      rintro ⟨reason, -, hunusable⟩
      obtain ⟨node, hat⟩ := hunusable.present
      exact hnothing node hat
  · cases hfind : files.find? path with
    | ok node => exact absurd hobstructed (Files.find?_eq_ok_iff_isAt.mp hfind).2
    | error refused => exact load_of_absent hfind
  · refine ⟨?_, Layout.placed_iff.mp settings.layout.placed⟩
    cases hfind : files.find? path with
    | ok node =>
      obtain ⟨text, -, hdeclares⟩ := (load_eq_ok_iff_of_present hfind).mp hsettings
      exact hdeclares.engine
    | error refused =>
      obtain rfl := Except.ok.inj ((load_of_absent hfind).symm.trans hsettings)
      decide

/-- Nothing, a link to an object that declares nothing, a directory, a byte that begins no character, a
text without an engine, a file that may not be read, and a text that is no object in a directory that
lets no way through. -/
theorem load_classified_of_kinds :
    let idle := "\x7b\"engine_command\": []\x7d"
    let spot (names : List String) : Spot := ⟨.above 0, names.map Bytes.ofText⟩
    let files : Files :=
      { nodes := [(spot ["empty"], .file { content := Bytes.ofText "\x7b\x7d" }),
          (spot ["directory"], .directory {}), (spot ["bytes"], .file { content := [0xFF] }),
          (spot ["idle"], .file { content := Bytes.ofText idle }),
          (spot ["locked"], .file
            { content := Bytes.ofText "\x7b\x7d", rights := { unreadable := some .permissionDenied } }),
          (spot ["vault"], .directory { barred := some .permissionDenied }),
          (spot ["vault", "desk"], .file { content := Bytes.ofText "\x7b" })]
        links := [(spot ["link"], .ofText "./empty")] }
    load files (.ofText "nothing") = .ok defaults ∧ load files (.ofText "link") = .ok defaults ∧
      (defaults.engineCommand ≠ [] ∧ (Layout.panelsOf defaults.layout.rows).Perm Panel.all) ∧
      load files (.ofText "directory") =
        .error (.settings "directory" "Is a directory (os error 21)") ∧
      load files (.ofText "bytes") =
        .error (.settings "bytes" "stream did not contain valid UTF-8") ∧
      load files (.ofText "idle") =
        .error (.settings "idle" "engine_command must name a program") ∧
      load files (.ofText "locked") =
        .error (.settings "locked" "Permission denied (os error 13)") ∧
      Holds files (.ofText "vault/desk") "\x7b" ∧
      load files (.ofText "vault/desk") = .ok defaults := by
  intro idle spot files
  -- nothing is there
  have hway : (Path.ofText "nothing").way = [Bytes.ofText "nothing"] := by decide +kernel
  have hspot : (Spot.here.toward (.ofText "nothing")).step files.depth (Bytes.ofText "nothing") =
      spot ["nothing"] := by decide +kernel
  have hnothing := Files.not_isAt_of_way_eq hway hspot (by decide +kernel) (by decide +kernel)
  have hclear : ¬ files.Obstructed (.ofText "nothing") := fun h => by
    obtain ⟨node, hat⟩ := h.isAt
    exact hnothing node hat
  have hloaded : load files (.ofText "nothing") = .ok defaults :=
    ((load_classified files _).1 hclear).2.1.mpr (.inl hnothing)
  obtain ⟨hengine, -, hpanels⟩ := (load_classified files _).2.2 _ hloaded
  -- an object is found behind the link
  have hlink : files.find? (.ofText "link") =
      .ok (.file { content := Bytes.ofText "\x7b\x7d" }) := by decide +kernel
  obtain ⟨hempty, hlinkclear⟩ := Files.find?_eq_ok_iff_isAt.mp hlink
  have hdeclares : Declares "\x7b\x7d" defaults := ⟨by decide +kernel, by decide⟩
  have hlinked : load files (.ofText "link") = .ok defaults :=
    ((load_classified files _).1 hlinkclear).2.1.mpr (.inr ⟨_, ⟨_, hempty, rfl, rfl⟩, hdeclares⟩)
  -- what is found is unusable
  have hfails {name reason : String} {node : Node} (hdisplay : (Path.ofText name).display = name)
      (hfind : files.find? (.ofText name) = .ok node)
      (h : files.IsAt (.ofText name) node → Unusable files (.ofText name) reason) :
      load files (.ofText name) = .error (.settings name reason) := by
    obtain ⟨hat, hclear⟩ := Files.find?_eq_ok_iff_isAt.mp hfind
    exact (((load_classified files _).1 hclear).2.2 _).mpr ⟨reason, by rw [hdisplay], h hat⟩
  have hdirectory : files.find? (.ofText "directory") = .ok (.directory {}) := by decide +kernel
  have hbytes : files.find? (.ofText "bytes") = .ok (.file { content := [0xFF] }) := by decide +kernel
  have hnoText : ∀ text, [0xFF] ≠ Bytes.ofText text := Bytes.ne_ofText (by decide +kernel)
  have hidle : files.find? (.ofText "idle") = .ok (.file { content := Bytes.ofText idle }) := by
    decide +kernel
  have hdraft : Draft.codec.parse idle =
      .ok ⟨[], defaults.logCapacity, defaults.layout.rows, false⟩ := by decide +kernel
  have hflaw : Flaw idle "engine_command must name a program" :=
    .noEngine hdraft (Layout.placed_iff.mp defaults.layout.placed) rfl
  have hlocked : files.find? (.ofText "locked") = .ok (.file
      { content := Bytes.ofText "\x7b\x7d", rights := { unreadable := some .permissionDenied } }) := by
    decide +kernel
  -- the directory lets no way through
  have hvaulted : files.Reaches (.ofText "vault/desk")
      [⟨.here, Bytes.ofText "vault", false⟩, ⟨spot ["vault"], Bytes.ofText "desk", false⟩]
      (.file { content := Bytes.ofText "\x7b" }) := by
    refine ⟨by decide +kernel, by decide +kernel, spot ["vault", "desk"], ?_, by decide +kernel⟩
    have hway : (Path.ofText "vault/desk").way = [Bytes.ofText "vault", Bytes.ofText "desk"] := by
      decide +kernel
    have hdown : (Spot.here.toward (.ofText "vault/desk")).step files.depth (Bytes.ofText "vault") =
          spot ["vault"] ∧
        (spot ["vault"]).step files.depth (Bytes.ofText "desk") = spot ["vault", "desk"] := by
      decide +kernel
    rw [hway]
    refine .down ⟨{}, by decide +kernel⟩ (by decide +kernel) ?_
    rw [hdown.1]
    refine .down ⟨{ barred := some .permissionDenied }, by decide +kernel⟩ (by decide +kernel) ?_
    rw [hdown.2]
    exact .stay _
  have hbarred : ¬ Files.Pass.IsFree files ⟨spot ["vault"], Bytes.ofText "desk", false⟩ := by
    rintro (hname | ⟨-, hfree⟩)
    · revert hname
      decide +kernel
    · have hvault : files.node? (spot ["vault"]) =
          some (.directory { barred := some .permissionDenied }) := by decide +kernel
      cases hfree _ hvault
  exact ⟨hloaded, hlinked, ⟨hengine, hpanels⟩,
    hfails (by decide +kernel) hdirectory .directory,
    hfails (by decide +kernel) hbytes fun hat => .notText hat rfl hnoText,
    hfails (by decide +kernel) hidle fun hat => .flawed ⟨_, hat, rfl, rfl⟩ hflaw,
    hfails (by decide +kernel) hlocked fun hat => .unreadable hat rfl,
    ⟨_, ⟨_, hvaulted⟩, rfl, rfl⟩,
    (load_classified files _).2.1
      ⟨_, _, hvaulted, .inr (.inr ⟨_, List.mem_of_getElem? (i := 1) rfl, hbarred⟩)⟩⟩

/-- A text that is no object is at a path that is too long for the system, and the defaults are loaded. -/
theorem defaults_of_malformed_at_long_path :
    let path : Path := ⟨(List.replicate 2100 (Bytes.ofText "./")).flatten ++ Bytes.ofText "x.json"⟩
    let files : Files :=
      { nodes := [(⟨.above 0, [Bytes.ofText "x.json"]⟩, .file { content := Bytes.ofText "\x7b" })] }
    Holds files path "\x7b" ∧ load files path = .ok defaults ∧
      ¬ (load files path = .ok defaults ↔
        (∀ node, ¬ files.IsAt path node) ∨ ∃ text, Holds files path text ∧ Declares text defaults) := by
  intro path files
  have hwalk : files.walk Path.way 40 (Spot.here.toward path) path.way =
      .ok ⟨.above 0, [Bytes.ofText "x.json"]⟩ := by decide +kernel
  obtain ⟨passes, hleads, -, -⟩ := (Files.walk_eq_ok_iff.mp hwalk).leads
  have hat : files.IsAt path (.file { content := Bytes.ofText "\x7b" }) :=
    ⟨passes, by decide +kernel, by decide +kernel, _, hleads, by decide +kernel⟩
  have hlong : files.find? path = .error .nameTooLong := by decide +kernel
  have hloaded : load files path = .ok defaults := load_of_absent hlong
  refine ⟨⟨_, hat, rfl, rfl⟩, hloaded, fun hiff => ?_⟩
  obtain hnothing | ⟨text, ⟨file, hfile, -, hcontent⟩, hdeclares⟩ := hiff.mp hloaded
  · exact hnothing _ hat
  · -- the one text there is no object
    obtain rfl := Node.file.inj (hat.unique hfile)
    obtain rfl := Bytes.ofText_inj.mp hcontent
    have hundecodable : (Draft.codec.parse "\x7b").isOk = false := by decide +kernel
    rw [hdeclares.draft] at hundecodable
    cases hundecodable

end Settings

end DecompilerDesk
