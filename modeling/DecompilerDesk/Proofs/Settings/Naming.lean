-- SUMMARY: A settings file that names some settings overrides these and leaves the others as they are.
import DecompilerDesk.Proofs.Json.Fluent
import DecompilerDesk.Proofs.Settings.Saving

/-!
# Naming settings

A settings file may name any of the settings, in any order and in any spelling. Among them may stand
whatever has the form of JSON under other keys. What is named has the value given, and what is not named
has its default.
-/

namespace DecompilerDesk

open Json (Codec Fields Spells SpellsAmong Blank Reads)

/-! ## Fluency -/

theorem Panel.fluent (depth : Nat) : Panel.codec.Fluent depth :=
  Codec.fluent_variant (fun panel => by cases panel <;> rfl) depth

theorem Row.fluent (depth : Nat) : Row.codec.Fluent (depth + 2) :=
  Codec.fluent_record _ ⟨Codec.fluent_text (depth + 1), Codec.fluent_list (Panel.fluent depth), trivial⟩
    (by decide) fun _ => rfl

theorem Layout.fluent (depth : Nat) : Layout.codec.Fluent (depth + 3) :=
  Codec.fluent_refine (Codec.fluent_list (Row.fluent depth)) fun layout => by
    rw [check, ofRows_rows]
    rfl

namespace Settings

/-! ## What a file names -/

/-- Some of the settings. -/
structure Named where
  engineCommand : Option (List String)
  logCapacity : Option UInt64
  layout : Option Layout
  darkMode : Option Bool

namespace Named

/-- The settings with what is named in place of the defaults. -/
def settings (named : Named) : Settings where
  engineCommand := named.engineCommand.getD defaults.engineCommand
  logCapacity := named.logCapacity.getD defaults.logCapacity
  layout := named.layout.getD defaults.layout
  darkMode := named.darkMode.getD defaults.darkMode

/-- The key of each setting, and the JSON form of what is named for it. -/
def forms (named : Named) : List (String × Option Json) :=
  [("engine_command", named.engineCommand.map fun words => .array (words.map .text)),
   ("log_capacity", named.logCapacity.map fun capacity => .integer capacity.toNat),
   ("layout", named.layout.map fun layout => .array (layout.rows.map fun row =>
     .object [("id", .text row.name), ("panels", .array (row.panels.map fun panel => .text panel.id))])),
   ("dark_mode", named.darkMode.map .boolean)]

/-- The members of the object that names the settings. -/
def members (named : Named) : List (String × Json) :=
  named.forms.filterMap fun form => form.2.map (form.1, ·)

variable {named : Named} {depth : Nat}

theorem keys_forms (named : Named) :
    named.forms.map (·.1) = ["engine_command", "log_capacity", "layout", "dark_mode"] := rfl

theorem nodup_keys_forms (named : Named) : (named.forms.map (·.1)).Nodup := by
  rw [keys_forms]
  decide

theorem mem_members {key : String} {json : Json} :
    (key, json) ∈ named.members ↔ (key, some json) ∈ named.forms := by
  simp only [members, List.mem_filterMap, Option.map_eq_some_iff, Prod.mk.injEq, Prod.exists]
  constructor
  · rintro ⟨_, _, hform, _, rfl, rfl, rfl⟩
    exact hform
  · intro hform
    exact ⟨key, some json, hform, json, rfl, rfl, rfl⟩

theorem keys_sublist (named : Named) : (named.members.map (·.1)).Sublist (named.forms.map (·.1)) := by
  rw [members]
  induction named.forms with
  | nil => exact .slnil
  | cons form forms ih =>
    obtain ⟨key, _ | json⟩ := form
    · exact ih.cons key
    · exact ih.cons_cons key

/-- A setting is told by its member if it is named, and is the default if not. -/
theorem told_of_mem_forms {α : Type} {codec : Codec α} {key : String} {given : Option α}
    {toJson : α → Json} (hform : (key, given.map toJson) ∈ named.forms)
    (hcodec : ∀ value, codec.Understands depth (toJson value) value) (default : α) :
    (∃ json, (key, json) ∈ named.members ∧ codec.Understands depth json (given.getD default)) ∨
      key ∉ named.members.map (·.1) ∧ some default = some (given.getD default) := by
  cases given with
  | some value => exact .inl ⟨toJson value, mem_members.mpr hform, hcodec value⟩
  | none =>
    -- A member with this key would be one of the forms, and keys are distinct.
    refine .inr ⟨fun hkey => ?_, rfl⟩
    obtain ⟨⟨_, json⟩, hmember, rfl⟩ := List.mem_map.mp hkey
    have hsame := List.inj_on_of_nodup_map named.nodup_keys_forms hform (mem_members.mp hmember) rfl
    cases (Prod.mk.inj hsame).2

/-- An object that names settings is read as these settings. -/
theorem reads (named : Named) (depth : Nat) {text : List Char}
    (h : SpellsAmong ["engine_command", "log_capacity", "layout", "dark_mode"] named.members text) :
    Reads (Settings.codec.reader (depth + 4)) text named.settings := by
  have hkeys := named.keys_sublist
  refine Codec.reads_among "Settings" _ _ (_, _, _, _, ())
    ⟨by decide, named.nodup_keys_forms.sublist hkeys, fun key hkey => hkeys.subset hkey, ?_, ?_, ?_, ?_,
      trivial⟩ h
  · exact told_of_mem_forms (List.mem_of_getElem? (i := 0) rfl)
      (Codec.fluent_list (Codec.fluent_text (depth + 2))) _
  · exact told_of_mem_forms (List.mem_of_getElem? (i := 1) rfl) (Codec.fluent_count (depth + 3)) _
  · exact told_of_mem_forms (List.mem_of_getElem? (i := 2) rfl) (Layout.fluent depth) _
  · exact told_of_mem_forms (List.mem_of_getElem? (i := 3) rfl) (Codec.fluent_boolean (depth + 3)) _

end Named

/-! ## Loading what is named -/

variable {files : Files} {path : Path} {before text after : List Char}

/-- Whatever settings are named, with whatever values and an engine if an engine is named: from a file
with an object that names them, in any order and spelling and among anything of the form of JSON under
other keys, are loaded the settings with the values given and the defaults for all others. -/
theorem load_of_named (named : Named) (hengine : named.engineCommand ≠ some [])
    (htext : SpellsAmong ["engine_command", "log_capacity", "layout", "dark_mode"] named.members text)
    (hbefore : Blank before) (hafter : Blank after)
    (hfile : files.read path = .ok (Bytes.ofText (String.ofList (before ++ (text ++ after))))) :
    load files path = .ok named.settings := by
  have hread : codec.parse (String.ofList (before ++ (text ++ after))) = .ok named.settings := by
    rw [Codec.parse, String.toList_ofList]
    exact (named.reads 123 htext).readDocument htext.solid hbefore hafter
  have hnamed : named.settings.engineCommand ≠ [] := by
    cases hcommand : named.engineCommand with
    | none => simp [Named.settings, hcommand, defaults]
    | some words => simpa [Named.settings, hcommand] using hengine
  have hcontent : files.readText path = .ok (String.ofList (before ++ (text ++ after))) := by
    simp [Files.readText, hfile, Except.bind]
  rw [load_of_readText hcontent, ofContent, Except.bind, parse, hread]
  simp [hnamed, Except.mapError]

/-- Three settings, in disorder, one of them with an escape in its key, between two members of one other
key: a number beyond all doubles and half a character, and null. -/
theorem load_of_named_among_others :
    let named : Named := ⟨some ["a \"b\"", ""], some 25, none, some true⟩
    let text := "\x7b \"theme\": [1e999, \x7b\"\\uD800\": -0.0\x7d],\n\"\\u0064ark_mode\" :true" ++
      ",\"theme\":null , \"log_capacity\":25,\"engine_command\":[\"a \\\"b\\\"\",\"\"]\x7d"
    let files : Files :=
      { nodes := [(⟨.above 0, [Bytes.ofText "desk.json"]⟩,
          .file { content := Bytes.ofText ("\t" ++ text ++ "\n") })] }
    SpellsAmong ["engine_command", "log_capacity", "layout", "dark_mode"] named.members text.toList ∧
      load files (.ofText "desk.json") = .ok ⟨["a \"b\"", ""], 25, defaults.layout, true⟩ := by
  intro named text files
  let theme : Json.Pair :=
    ⟨Json.writeText "theme", [], [' '], "[1e999, \x7b\"\\uD800\": -0.0\x7d]".toList⟩
  let noTheme : Json.Pair := ⟨Json.writeText "theme", [], [], "null".toList⟩
  let mode : Json.Pair := ⟨"\"\\u0064ark_mode\"".toList, [' '], [], "true".toList⟩
  let capacity : Json.Pair := ⟨Json.writeText "log_capacity", [], [], "25".toList⟩
  let command : Json.Pair :=
    ⟨Json.writeText "engine_command", [], [], "[\"a \\\"b\\\"\",\"\"]".toList⟩
  let entries : List Json.Entry :=
    [⟨"engine_command", .array [.text "a \"b\"", .text ""], command⟩,
      ⟨"log_capacity", .integer 25, capacity⟩, ⟨"dark_mode", .boolean true, mode⟩]
  let pairs : List (String × Json.Pair) := [("theme", theme), ("dark_mode", mode), ("theme", noTheme),
    ("log_capacity", capacity), ("engine_command", command)]
  have hperm : (entries.map Json.Entry.pair ++ [("theme", theme), ("theme", noTheme)]).Perm pairs := by
    decide
  have hencloses : Json.Encloses .curly (pairs.map (·.2.chars)) text.toList := by
    have hsplit : text.toList = '\x7b' :: ([' '] ++ (theme.chars ++ ([] ++ ',' :: (['\n'] ++
        (mode.chars ++ ([] ++ ',' :: ([] ++ (noTheme.chars ++ ([' '] ++ ',' :: ([' '] ++
        (capacity.chars ++ ([] ++ ',' :: ([] ++ (command.chars ++ ([] ++ ['\x7d']))))))))))))))) := by
      decide +kernel
    rw [hsplit]
    exact .some (by decide) <| .next (by decide) (by decide) <| .next (by decide) (by decide) <|
      .next (by decide) (by decide) <| .next (by decide) (by decide) <| .last (by decide)
  have hvalues : ∀ entry ∈ entries, Spells entry.json entry.written.value := by
    have hwords : Spells (.array [.text "a \"b\"", .text ""]) command.value := by
      have hspells := ((Codec.lawful_list (Codec.lawful_text 0)).plain ["a \"b\"", ""]).spells
        Json.Style.compact_blank 0
      have hwritten : command.value = Json.write .compact 0 (.array [.text "a \"b\"", .text ""]) := by
        decide +kernel
      exact hwritten ▸ hspells
    have hcapacity : Spells (.integer 25) capacity.value := .integer ⟨by decide, by decide⟩
    simpa [entries] using ⟨hwords, hcapacity, Spells.yes⟩
  have htheme : Json.Form theme.value := by
    let beyond : List Char := ['1'] ++ ([] ++ 'e' :: ([] ++ ['9', '9', '9']))
    let surrogate : List Char := '\\' :: 'u' :: ['D', '8', '0', '0'] ++ ['"']
    let half : Json.Pair := ⟨'"' :: surrogate, [], [' '], '-' :: (['0'] ++ (['.', '0'] ++ []))⟩
    let inner : List Char := '\x7b' :: ([] ++ (half.chars ++ ([] ++ ['\x7d'])))
    have hexponent : Json.ExponentForm ('e' :: ([] ++ ['9', '9', '9'])) :=
      .digits (.inl rfl) (.inl rfl) (by decide)
    have hbeyond : Json.Form beyond :=
      .scalar (.number (.parts (.digits (by decide) (by decide)) .none hexponent))
    have hsurrogate : Json.Pieces surrogate :=
      .piece (.unit (.digits (a := 13) (b := 8) (c := 0) (d := 0) (by decide) (by decide) (by decide)
        (by decide))) .close
    have hzero : Json.Form half.value :=
      .scalar (.negative (.parts .zero (.digits (by decide)) .none))
    have hhalf : Json.Encloses .curly ([half].map Json.Pair.chars) inner :=
      .some (by decide) (.last (by decide))
    have hinner : Json.Form inner :=
      .object (List.forall_mem_singleton.mpr ⟨⟨by decide, by decide⟩, _, rfl, hsurrogate⟩)
        (List.forall_mem_singleton.mpr hzero) hhalf
    have hvalue : theme.value =
        '[' :: ([] ++ (beyond ++ ([] ++ ',' :: ([' '] ++ (inner ++ ([] ++ [']'])))))) := by
      decide +kernel
    have hitems : Json.Encloses .square [beyond, inner] theme.value :=
      hvalue ▸ .some (by decide) (.next (by decide) (by decide) (.last (by decide)))
    exact .array (List.forall_mem_cons.mpr ⟨hbeyond, List.forall_mem_singleton.mpr hinner⟩) hitems
  have hothers : ∀ other ∈ [("theme", theme), ("theme", noTheme)],
      other.1 ∉ ["engine_command", "log_capacity", "layout", "dark_mode"] ∧ Json.Form other.2.value := by
    have hnull : Json.Form noTheme.value := .scalar .null
    simpa using ⟨htheme, hnull⟩
  have hkeyed : ∀ pair ∈ pairs, Json.Keyed pair := by
    have hmode : Json.Quotes "dark_mode" mode.key := by
      have hunit : Json.CodeUnit 'd'.toNat ['0', '0', '6', '4'] :=
        .digits (a := 0) (b := 0) (c := 6) (d := 4) (by decide) (by decide) (by decide) (by decide)
      have hkey : mode.key = '"' :: ('\\' :: 'u' :: ['0', '0', '6', '4'] ++
          ("ark_mode".toList.flatMap Json.escapeChar ++ ['"'])) := by
        decide +kernel
      exact hkey ▸ .quotes (.char (.unit hunit) (Json.spellings_escaped "ark_mode".toList))
    have hwritten (name : String) (gap : List Char) (hgap : Blank gap) (value : List Char) :
        Json.Keyed (name, ⟨Json.writeText name, [], gap, value⟩) :=
      ⟨Json.quotes_writeText name, ⟨List.forall_mem_nil _, hgap⟩⟩
    simp only [pairs, List.forall_mem_cons, List.not_mem_nil, false_imp_iff, implies_true, and_true]
    exact ⟨hwritten _ _ (by decide) _, ⟨hmode, ⟨by decide, by decide⟩⟩, hwritten _ _ (by decide) _,
      hwritten _ _ (by decide) _, hwritten _ _ (by decide) _⟩
  have htext : SpellsAmong ["engine_command", "log_capacity", "layout", "dark_mode"] named.members
      text.toList := .object rfl hvalues hothers hperm hkeyed hencloses
  have hcontent : "\t" ++ text ++ "\n" = String.ofList (['\t'] ++ (text.toList ++ ['\n'])) := by
    simp [← String.toList_inj]
  have hfile : files.read (.ofText "desk.json") =
      .ok (Bytes.ofText (String.ofList (['\t'] ++ (text.toList ++ ['\n'])))) := by
    rw [← hcontent]
    decide +kernel
  exact ⟨htext, load_of_named named (by decide) htext (by decide) (by decide) hfile⟩

end Settings

end DecompilerDesk
