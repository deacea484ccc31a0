-- SUMMARY: Every type with a JSON form is read back from its compact text, its indented text and its JSON value.
import DecompilerDesk.Proofs.Engine.Wire
import DecompilerDesk.Proofs.Json.Tags
import DecompilerDesk.Proofs.Layout.Placement

/-!
# Forms

All that is sent, kept in a file or shown as JSON has a lawful codec, so each value comes back from
every text that is written for it and from its JSON value. A layout passes the check that its rows
have to pass, since it carries what the check asks for.
-/

namespace DecompilerDesk

open Json (Codec Content Fields maxDepth)

/-! ## The session -/

theorem KnownSection.lawful (depth : Nat) : KnownSection.codec.Lawful (depth + 1) :=
  Codec.lawful_record _
    ⟨Codec.lawful_word depth,
      Codec.lawful_optional (Codec.lawful_word depth) (fun _ => nofun),
      Codec.lawful_boolean depth, Codec.lawful_boolean depth, trivial⟩
    (by decide) fun _ => rfl

theorem Tint.lawful (depth : Nat) : Tint.codec.Lawful (depth + 1) :=
  Codec.lawful_record _
    ⟨Codec.lawful_byte depth, Codec.lawful_byte depth, Codec.lawful_byte depth, trivial⟩
    (by decide) fun _ => rfl

/-! ## Layouts and settings -/

theorem Panel.lawful (depth : Nat) : Panel.codec.Lawful depth :=
  Codec.lawful_variant (fun panel => by cases panel <;> rfl) depth

theorem Row.lawful (depth : Nat) : Row.codec.Lawful (depth + 2) :=
  Codec.lawful_record _
    ⟨Codec.lawful_text (depth + 1), Codec.lawful_list (Panel.lawful depth), trivial⟩
    (by decide) fun _ => rfl

theorem Layout.lawful (depth : Nat) : Layout.codec.Lawful (depth + 3) :=
  Codec.lawful_refine (Codec.lawful_list (Row.lawful depth)) fun layout => by
    rw [check, ofRows_rows]
    rfl

theorem Settings.lawful (depth : Nat) : Settings.codec.Lawful (depth + 4) :=
  Codec.lawful_record _
    ⟨Codec.lawful_list (Codec.lawful_text (depth + 2)), Codec.lawful_count (depth + 3),
      Layout.lawful depth, Codec.lawful_boolean (depth + 3), trivial⟩
    (by decide) fun _ => rfl

/-! ## Failures -/

namespace Failure

theorem ofName_name (kind : Kind) : tagging.tags.ofName kind.name = .ok kind := by
  cases kind <;> rfl

/-- A failure with details is written as its kind and these. -/
theorem writes_details (kind : Kind) {σ τ : Type} {fields : Fields σ τ} {build : σ → Failure}
    {depth : Nat} (hcontent : kind.content = .record fields build) (hfields : fields.Lawful depth)
    (hnames : fields.names.Nodup) (values : σ) :
    tagging.Writes (depth + 1) (build values)
      [("type", .text kind.name), ("details", .object (fields.toMembers values))] := by
  refine .whole (ofName_name kind) ?_ (.object (hfields.plain values))
  have haccepts := Content.accepts_record (hfields.fits hnames values) kind.wanted build
  rwa [← hcontent] at haccepts

theorem lawful (depth : Nat) : codec.Lawful (depth + 2) := by
  refine Codec.lawful_tagged (by decide) fun failure => ⟨_, rfl, ?_⟩
  have hone {key : String} : (Fields.cons (.required key Codec.text) .nil).Lawful depth :=
    ⟨Codec.lawful_text depth, trivial⟩
  have htwo {key₁ key₂ : String} :
      (Fields.cons (.required key₁ Codec.text) (.cons (.required key₂ Codec.text) .nil)).Lawful depth :=
    ⟨Codec.lawful_text depth, Codec.lawful_text depth, trivial⟩
  cases failure with
  | engine command message =>
    exact writes_details .engine rfl htwo (by decide) (command, message, ())
  | transport operation reason =>
    exact writes_details .transport rfl htwo (by decide) (operation, reason, ())
  | protocol reason => exact writes_details .protocol rfl hone (by decide) (reason, ())
  | badAddress input => exact writes_details .badAddress rfl hone (by decide) (input, ())
  | badLayout reason => exact writes_details .badLayout rfl hone (by decide) (reason, ())
  | settings path reason =>
    exact writes_details .settings rfl htwo (by decide) (path, reason, ())
  | serialization reason =>
    exact writes_details .serialization rfl hone (by decide) (reason, ())
  | noFile => exact .bare (ofName_name .noFile) rfl

end Failure

/-! ## Round trips -/

/-- Every value is read back from its compact text, from its indented text and from its JSON value. -/
def Json.Codec.RoundTrips {α : Type} (codec : Codec α) : Prop :=
  ∀ value, codec.parse (codec.compact value) = .ok value ∧
    codec.parse (codec.pretty value) = .ok value ∧
    codec.ofJson (codec.toJson value).sorted = .ok value

theorem Json.Codec.Lawful.roundTrips {α : Type} {codec : Codec α} (h : codec.Lawful maxDepth) :
    codec.RoundTrips := by
  intro value
  have hparse {style : Style} (hstyle : style.Blank) :
      codec.parse (String.ofList (write style 0 (codec.toJson value))) = .ok value := by
    have hread := readDocument_of_readsBack (h.accepts value).reads hstyle 0 (List.forall_mem_nil _)
    rw [List.append_nil] at hread
    rw [parse, String.toList_ofList]
    exact hread
  exact ⟨hparse Style.compact_blank, hparse Style.indented_blank, (h.accepts value).ofJson⟩

/-- Whatever the texts, numbers and lists in it, a value of any type with a JSON form is read back from
its compact text, from its indented text and from its JSON value. -/
theorem forms_roundTrip :
    Section.codec.RoundTrips ∧ Instruction.codec.RoundTrips ∧ LiftedLine.codec.RoundTrips ∧
      Decompilation.codec.RoundTrips ∧ Lowering.codec.RoundTrips ∧ Connections.codec.RoundTrips ∧
      KnownSection.codec.RoundTrips ∧ Tint.codec.RoundTrips ∧ Panel.codec.RoundTrips ∧
      Row.codec.RoundTrips ∧ Layout.codec.RoundTrips ∧ Settings.codec.RoundTrips ∧
      Failure.codec.RoundTrips :=
  ⟨(Section.lawful 126).roundTrips, (Instruction.lawful 126).roundTrips,
    (LiftedLine.lawful 126).roundTrips, (Decompilation.lawful 124).roundTrips,
    (Lowering.lawful 124).roundTrips, (Connections.lawful 126).roundTrips,
    (KnownSection.lawful 126).roundTrips, (Tint.lawful 126).roundTrips,
    (Panel.lawful 127).roundTrips, (Row.lawful 125).roundTrips, (Layout.lawful 124).roundTrips,
    (Settings.lawful 123).roundTrips, (Failure.lawful 125).roundTrips⟩

end DecompilerDesk
