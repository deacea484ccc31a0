-- SUMMARY: Fluent codecs read every text that spells what they write, and records whatever stands among their members.
import DecompilerDesk.Proofs.Json.Tags

/-!
# Fluent codecs

A fluent codec reads a value from every text that spells its JSON form. A record is read from its
members in any order. Members with other keys may stand among them: they are skipped, and a field whose
key is missing has its default.
-/

namespace DecompilerDesk.Json

variable {α σ τ : Type} {fields : Fields σ τ} {values : σ} {depth : Nat} {text : List Char}

/-- A codec reads a value from every text that spells a JSON value. -/
def Codec.Understands (codec : Codec α) (depth : Nat) (json : Json) (value : α) : Prop :=
  ∀ text, Spells json text → Reads (codec.reader depth) text value

/-- A codec reads each value from every text that spells what it writes for it. -/
def Codec.Fluent (codec : Codec α) (depth : Nat) : Prop :=
  ∀ value, codec.Understands depth (codec.toJson value) value

namespace Codec

variable {β : Type} {codec : Codec α}

theorem fluent_scalar (wanted : String) {toJson : α → Json} {accept : Json → Except Problem α}
    (hscalar : ∀ value, Scalar (toJson value)) (hlawful : (scalar wanted toJson accept).Lawful depth) :
    (scalar wanted toJson accept).Fluent depth := by
  intro value text htext
  have haccept := (hlawful.accepts value).ofJson
  have hsame : (toJson value).sorted = toJson value := (hscalar value).sorted_eq
  simp only [scalar, hsame] at haccept
  exact reads_scalarReader wanted (hscalar value) haccept htext

theorem fluent_text (depth : Nat) : Codec.text.Fluent depth :=
  fluent_scalar "a string" Scalar.text (lawful_text depth)

theorem fluent_boolean (depth : Nat) : boolean.Fluent depth :=
  fluent_scalar "a boolean" Scalar.boolean (lawful_boolean depth)

theorem fluent_count (depth : Nat) : count.Fluent depth := by
  refine fluent_scalar "usize" (fun value => .integer ?_) (lawful_count depth)
  have := value.toNat_lt_size
  exact ⟨by omega, by omega⟩

theorem fluent_list (h : codec.Fluent depth) : codec.list.Fluent (depth + 1) := by
  intro values text htext
  obtain ⟨parts, hparts, hencloses⟩ := spells_array_iff.mp htext
  refine reads_list ?_ hencloses
  refine (List.forall₂_map_left_iff.mp hparts).flip.imp fun part value hspells => ?_
  exact ⟨hspells.solid, h value part hspells⟩

theorem fluent_refine (h : codec.Fluent depth) {check : α → Except Problem β} {forget : β → α}
    (hcheck : ∀ value, check (forget value) = .ok value) : (codec.refine check forget).Fluent depth :=
  fun value text htext => reads_refine (h (forget value) text htext) (hcheck value) forget

theorem fluent_variant {variants : Variants α} {name : α → String}
    (hname : ∀ value, variants.ofName (name value) = .ok value) (depth : Nat) :
    (variant variants name).Fluent depth :=
  fun value _ htext => variants.reads_reader (hname value) depth htext

end Codec

/-! ## Fluent records -/

namespace Fields

/-- Each field's value is understood from its member, or is the default if it has no member. -/
def Told (depth : Nat) (members : List (String × Json)) : Fields σ τ → σ → Prop :=
  All fun _ field value =>
    (∃ json, (field.name, json) ∈ members ∧ field.codec.Understands depth json value) ∨
      field.name ∉ members.map (·.1) ∧ field.ifNoKey = some value

/-- All fields of a record have fluent codecs. -/
def Fluent {σ τ : Type} (depth : Nat) : Fields σ τ → Prop
  | .nil => True
  | .cons field rest => field.codec.Fluent depth ∧ rest.Fluent depth

variable {members : List (String × Json)} {entries : List Entry} {others pairs : List (String × Pair)}

/-- Fields are declared by what is written of their members, whatever is written under other keys. -/
theorem Told.declares (h : fields.Told depth (entries.map Entry.member) values)
    (hspells : ∀ entry ∈ entries, Spells entry.json entry.written.value)
    (hothers : ∀ other ∈ others, other.1 ∉ fields.names)
    (hpairs : (entries.map Entry.pair ++ others).Perm pairs) : fields.Declared depth pairs values := by
  refine h.imp fun hname hfield => ?_
  rcases hfield with ⟨json, hmem, hunderstands⟩ | ⟨hnone, hdefault⟩
  · obtain ⟨entry, hentry, hmember⟩ := List.mem_map.mp hmem
    obtain ⟨hsame, rfl⟩ := Prod.mk.inj hmember
    refine .inl ⟨entry.written, hpairs.mem_iff.mp ?_, hunderstands _ (hspells entry hentry)⟩
    rw [← hsame]
    exact List.mem_append_left _ (List.mem_map_of_mem hentry)
  · refine .inr ⟨fun hmem => ?_, hdefault⟩
    obtain ⟨pair, hpair, hsame⟩ := List.mem_map.mp hmem
    rcases List.mem_append.mp (hpairs.mem_iff.mpr hpair) with hwritten | hother
    · obtain ⟨entry, hentry, rfl⟩ := List.mem_map.mp hwritten
      have hmet : entry.pair.1 ∈ (entries.map Entry.member).map (·.1) :=
        List.mem_map.mpr ⟨entry.member, List.mem_map_of_mem hentry, rfl⟩
      exact hnone (hsame ▸ hmet)
    · exact hothers pair hother (hsame ▸ hname)

/-- Members with distinct and known keys tell the values of the fields. -/
structure Tells {σ τ : Type} (fields : Fields σ τ) (depth : Nat) (members : List (String × Json))
    (values : σ) : Prop where
  names : fields.names.Nodup
  keys : (members.map (·.1)).Nodup
  known : ∀ key ∈ members.map (·.1), key ∈ fields.names
  told : fields.Told depth members values

/-- Among the texts of others, the texts of members that tell the values declare them. -/
theorem Tells.legible (h : fields.Tells depth members values)
    (hspells : SpellsAmong fields.names members text) :
    ∃ pairs, fields.Legible depth pairs values ∧ Encloses .curly (pairs.map (·.2.chars)) text := by
  cases hspells with
  | @object entries others pairs _ hmembers hvalues hothers hpairs hkeyed hencloses =>
    subst hmembers
    have hknown : ∀ entry ∈ entries, entry.name ∈ fields.names := fun entry hentry =>
      h.known _ (List.mem_map_of_mem (List.mem_map_of_mem hentry))
    have hcases : ∀ pair ∈ pairs, (∃ entry ∈ entries, entry.pair = pair) ∨ pair ∈ others := by
      intro pair hpair
      exact (List.mem_append.mp (hpairs.mem_iff.mpr hpair)).imp_left List.mem_map.mp
    refine ⟨pairs, ⟨h.names, hkeyed, fun pair hpair => ?_, fun pair hpair hname => ?_, ?_, ?_⟩,
      hencloses⟩
    · rcases hcases pair hpair with ⟨entry, hentry, rfl⟩ | hother
      · exact (hvalues entry hentry).solid
      · exact (hothers pair hother).2.solid
    · rcases hcases pair hpair with ⟨entry, hentry, rfl⟩ | hother
      · exact absurd (hknown entry hentry) hname
      · exact (hothers pair hother).2
    · have hnone : others.filter (·.1 ∈ fields.names) = [] :=
        List.filter_eq_nil_iff.mpr fun other hother => by simpa using (hothers other hother).1
      have hperm := (hpairs.filter (·.1 ∈ fields.names)).map (·.1)
      rw [List.filter_append, hnone, List.append_nil] at hperm
      refine hperm.nodup_iff.mp (h.keys.sublist ?_)
      rw [List.map_map]
      have hsame : entries.map (Prod.fst ∘ Entry.member) = (entries.map Entry.pair).map (·.1) := by
        rw [List.map_map]
        rfl
      rw [hsame]
      exact List.filter_sublist.map _
    · exact h.told.declares hvalues (fun other hother => (hothers other hother).1) hpairs

theorem Fluent.told (h : fields.Fluent depth) (values : σ)
    (hmembers : ∀ member ∈ fields.toMembers values, member ∈ members) :
    fields.Told depth members values := by
  induction fields with
  | nil => trivial
  | cons field rest ih =>
    obtain ⟨value, values⟩ := values
    simp only [toMembers, List.forall_mem_cons] at hmembers
    exact ⟨.inl ⟨_, hmembers.1, h.1 value⟩, ih h.2 values hmembers.2⟩

end Fields

namespace Codec

variable {build : σ → α} {parts : α → σ} {members : List (String × Json)}

/-- A record is read from every text of an object with members that tell its values, whatever others
there are. -/
theorem reads_among (name : String) (build : σ → α) (parts : α → σ) (values : σ)
    (h : fields.Tells depth members values) (htext : SpellsAmong fields.names members text) :
    Reads ((record name fields build parts).reader (depth + 1)) text (build values) := by
  obtain ⟨pairs, hlegible, hencloses⟩ := h.legible htext
  exact reads_record name build parts hlegible hencloses

theorem fluent_record (name : String) (hfields : fields.Fluent depth) (hnames : fields.names.Nodup)
    (hbuild : ∀ value, build (parts value) = value) :
    (record name fields build parts).Fluent (depth + 1) := by
  intro value text htext
  obtain ⟨written, hperm, hamong⟩ := htext.among fields.names
  have hkeys : (written.map (·.1)).Perm fields.names := by
    rw [← fields.map_toMembers (parts value)]
    exact hperm.map _
  have htold : fields.Told depth written (parts value) :=
    hfields.told _ fun member hmem => hperm.mem_iff.mpr hmem
  have hreads := reads_among name build parts (parts value)
    ⟨hnames, hkeys.nodup_iff.mpr hnames, fun key => hkeys.mem_iff.mp, htold⟩ hamong
  rwa [hbuild] at hreads

end Codec

end DecompilerDesk.Json
