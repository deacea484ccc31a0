-- SUMMARY: Variants are read back by name, and tagged values from their tag and content in either order.
import DecompilerDesk.Json.Tagged
import DecompilerDesk.Proofs.Json.Records

/-!
# Variants and tagged values

A variant is read from its name. A tagged value is written with its tag in front, so its text is read
tag first; the sorted form of its object may have the content in front, which is then kept until the
tag says what it is.
-/

namespace DecompilerDesk.Json

variable {α κ σ τ : Type} {depth : Nat} {json : Json} {value : α}

/-! ## Variants -/

namespace Variants

variable {variants : Variants κ} {name : String} {kind : κ}

theorem reads_reader (h : variants.ofName name = .ok kind) (depth : Nat) {text : List Char}
    (htext : Spells (.text name) text) : Reads (variants.reader depth) text kind := by
  intro c tail hrest hclosed
  have hname : Reads variants.readName text kind :=
    Codec.reads_scalarReader "variant identifier" (.text name) h htext
  have hread := hname.takes htext.solid (List.forall_mem_nil _) hrest hclosed
  obtain ⟨behind, hquote⟩ : ∃ behind, text = '"' :: behind := by
    cases htext with
    | text hquotes => cases hquotes with | quotes => exact ⟨_, rfl⟩
  simp only [reader]
  split
  next => exact hread.since c.left_skipGap
  next hbrace =>
    rw [hrest, hquote] at hbrace
    cases hbrace
  next hne _ => exact absurd (hrest.trans (by rw [hquote]; rfl)) (hne _)

theorem readsBack_reader (h : variants.ofName name = .ok kind) (depth : Nat) :
    ReadsBack (variants.reader depth) (.text name) kind :=
  fun style _ k => reads_reader h depth ((Scalar.text name).spells style k)

end Variants

theorem Codec.lawful_variant {variants : Variants α} {name : α → String}
    (hname : ∀ value, variants.ofName (name value) = .ok value) (depth : Nat) :
    (Codec.variant variants name).Lawful depth where
  plain value := .scalar (.text (name value))
  accepts value :=
    { reads := Variants.readsBack_reader (hname value) depth
      ofJson := by
        simp only [Codec.variant, (Scalar.text _).sorted_eq]
        exact hname value }

/-! ## Contents -/

/-- A content reads a JSON value as a value, from its text in every style and from its sorted form. -/
structure Content.Accepts (content : Content α) (wanted : String) (depth : Nat) (json : Json)
    (value : α) : Prop where
  reads : ReadsBack (content.reader wanted depth) json value
  ofJson : content.ofJson wanted json.sorted = .ok value

theorem Content.accepts_record {fields : Fields σ τ} {members : List (String × Json)} {values : σ}
    (h : fields.Fits depth members values) (wanted : String) (build : σ → α) :
    (Content.record fields build).Accepts wanted (depth + 1) (.object members) (build values) where
  ofJson := by
    simp only [sorted, Content.ofJson, h.complete_sorted]
    rfl
  reads := by
    intro style hstyle k c tail hrest _
    obtain ⟨ch, text, htext, rfl⟩ := write_opens style k (.object members)
    simp only [Content.reader]
    split
    next hbracket =>
      rw [hrest, htext] at hbracket
      cases hbracket
    next hbracket =>
      have hbehind := (cons_eat hbracket).trans hrest
      have hinside := (h.readMembers_passes hstyle hbehind).map build
      exact (object_takes hinside).since c.left_skipGap
    next _ hne => exact absurd (hrest.trans (by rw [htext]; rfl)) (hne _)

/-! ## Tagged values -/

namespace Tagging

variable {tagging : Tagging α κ} {members : List (String × Json)}

/-- The members that a value may be written as. -/
inductive Writes (tagging : Tagging α κ) (depth : Nat) (value : α) : List (String × Json) → Prop where
  | bare {kind : κ} {name : String} : tagging.tags.ofName name = .ok kind →
      tagging.content kind = .nothing value →
      Writes tagging depth value [(tagging.tagKey, .text name)]
  | whole {kind : κ} {name : String} {json : Json} : tagging.tags.ofName name = .ok kind →
      (tagging.content kind).Accepts (tagging.wanted kind) depth json value → Plain depth json →
      Writes tagging depth value [(tagging.tagKey, .text name), (tagging.contentKey, json)]

theorem Writes.plain (h : tagging.Writes depth value members) :
    ∀ member ∈ members, Plain depth member.2 := by
  cases h with
  | bare => simpa using .scalar (.text _)
  | whole _ _ hplain => simpa using ⟨.scalar (.text _), hplain⟩

theorem takesMember_tag {kind : κ} {name : String} (h : tagging.tags.ofName name = .ok kind) :
    TakesMember (tagging.readMember depth) tagging.tagKey (.text name) .start (.tag kind) := by
  intro style hstyle k c tail hrest hclosed
  obtain ⟨colon, hcolon, r, hread, hvalue, hbehind⟩ :=
    (Variants.readsBack_reader h depth).behind_colon hstyle hrest hclosed
  simp only [readMember, if_true, hcolon, hread, bind, Except.bind]
  exact ⟨_, rfl, congrArg Progress.tag hvalue, hbehind⟩

theorem takesMember_content (hkeys : tagging.contentKey ≠ tagging.tagKey) {kind : κ}
    (h : (tagging.content kind).Accepts (tagging.wanted kind) depth json value) :
    TakesMember (tagging.readMember depth) tagging.contentKey json (.tag kind) (.whole value) := by
  intro style hstyle k c tail hrest hclosed
  obtain ⟨colon, hcolon, r, hread, hvalue, hbehind⟩ := h.reads.behind_colon hstyle hrest hclosed
  simp only [readMember, if_neg hkeys, if_true, hcolon, hread, bind, Except.bind]
  exact ⟨_, rfl, congrArg Progress.whole hvalue, hbehind⟩

/-- Behind the opening bracket of its object, a value is read from its members. -/
theorem Writes.readMembers_passes (h : tagging.Writes depth value members)
    (hkeys : tagging.contentKey ≠ tagging.tagKey) {style : Style} (hstyle : style.Blank) {k : Nat}
    {c : Cursor} {tail : List Char}
    (hrest : '\x7b' :: c.rest = write style k (.object members) ++ tail) :
    Passes (tagging.readMembers depth c) value ('\x7d' :: tail) := by
  obtain ⟨last, hall, hcomplete⟩ : ∃ last,
      TakesMembers (tagging.readMember depth) members .start last ∧
        tagging.complete last = .ok value := by
    cases h with
    | @bare kind name htag hcontent =>
      exact ⟨.tag kind, .cons (takesMember_tag htag) (.nil _), by simp only [complete, hcontent]⟩
    | @whole kind name json htag hcontent _ =>
      exact ⟨.whole value,
        .cons (takesMember_tag htag) (.cons (takesMember_content hkeys hcontent) (.nil _)), rfl⟩
  obtain ⟨progress, hread, rfl, hnext⟩ := Json.readMembers_passes hstyle hall hrest
  simp only [readMembers, hread, bind, Except.bind, hcomplete]
  exact ⟨_, rfl, rfl, hnext⟩

theorem stepOfMember_tag {kind : κ} {name : String} (h : tagging.tags.ofName name = .ok kind) :
    tagging.stepOfMember .start (tagging.tagKey, .text name) = .ok (.tag kind) := by
  simp only [stepOfMember, if_true, Variants.ofJson, h]
  rfl

/-- The tag and the content make the value, whichever of them comes first. -/
theorem foldlM_stepOfMember (hkeys : tagging.contentKey ≠ tagging.tagKey) {kind : κ} {name : String}
    (htag : tagging.tags.ofName name = .ok kind) (hcontent : tagging.ofContent kind json = .ok value) :
    [(tagging.tagKey, .text name), (tagging.contentKey, json)].foldlM tagging.stepOfMember .start =
        .ok (.whole value) ∧
      [(tagging.contentKey, json), (tagging.tagKey, .text name)].foldlM tagging.stepOfMember .start =
        .ok (.whole value) := by
  constructor
  · simp only [List.foldlM_cons, List.foldlM_nil, stepOfMember_tag htag, bind, Except.bind]
    simp only [stepOfMember, if_neg hkeys, if_true, hcontent, Except.map]
    rfl
  · simp only [List.foldlM_cons, List.foldlM_nil, stepOfMember, if_neg hkeys, if_true, bind,
      Except.bind, Variants.ofJson, htag, hcontent, Except.map]
    rfl

theorem sortMembers_two {key other : String} (h : key ≠ other) (value json : Json) :
    sortMembers [(key, value), (other, json)] = [(key, value), (other, json)] ∨
      sortMembers [(key, value), (other, json)] = [(other, json), (key, value)] := by
  simp only [sortMembers, List.foldl_cons, List.foldl_nil, insertMember, if_neg h]
  split
  · exact .inr rfl
  · exact .inl rfl

/-- Whatever the order of its members, a value is read from its sorted object. -/
theorem Writes.ofJson_sorted (h : tagging.Writes depth value members)
    (hkeys : tagging.contentKey ≠ tagging.tagKey) :
    tagging.ofJson (Json.object members).sorted = .ok value := by
  suffices hfold : ∃ last,
      (sortMembers (sortedValues members)).foldlM tagging.stepOfMember .start = .ok last ∧
        tagging.complete last = .ok value by
    obtain ⟨last, hlast, hcomplete⟩ := hfold
    simp only [sorted, ofJson, hlast, Except.bind, hcomplete]
  cases h with
  | @bare kind name htag hcontent =>
    refine ⟨.tag kind, ?_, by simp only [complete, hcontent]⟩
    simp only [sortedValues, sorted, sortMembers, List.foldl_cons, List.foldl_nil, insertMember,
      List.foldlM_cons, List.foldlM_nil, stepOfMember_tag htag]
    rfl
  | @whole kind name json htag hcontent _ =>
    obtain ⟨htagFirst, hcontentFirst⟩ := foldlM_stepOfMember hkeys htag hcontent.ofJson
    refine ⟨.whole value, ?_, rfl⟩
    simp only [sortedValues, sorted]
    rcases sortMembers_two hkeys.symm (.text name) json.sorted with horder | horder
    · rw [horder]
      exact htagFirst
    · rw [horder]
      exact hcontentFirst

end Tagging

theorem Codec.accepts_tagged {tagging : Tagging α κ} {members : List (String × Json)}
    (h : tagging.Writes depth value members) (hkeys : tagging.contentKey ≠ tagging.tagKey)
    (toJson : α → Json) :
    (Codec.tagged tagging toJson).Accepts (depth + 1) (.object members) value where
  ofJson := h.ofJson_sorted hkeys
  reads := by
    intro style hstyle k c tail hrest _
    obtain ⟨ch, text, htext, rfl⟩ := write_opens style k (.object members)
    simp only [Codec.tagged, Tagging.reader]
    split
    next hbracket =>
      rw [hrest, htext] at hbracket
      cases hbracket
    next hbracket =>
      have hbehind := (cons_eat hbracket).trans hrest
      exact (object_takes (h.readMembers_passes hkeys hstyle hbehind)).since c.left_skipGap
    next _ hne => exact absurd (hrest.trans (by rw [htext]; rfl)) (hne _)

theorem Codec.lawful_tagged {tagging : Tagging α κ} {toJson : α → Json}
    (hkeys : tagging.contentKey ≠ tagging.tagKey)
    (h : ∀ value, ∃ members, toJson value = .object members ∧ tagging.Writes depth value members) :
    (Codec.tagged tagging toJson).Lawful (depth + 1) where
  plain value := by
    obtain ⟨members, hmembers, hwrites⟩ := h value
    simp only [Codec.tagged, hmembers]
    exact .object hwrites.plain
  accepts value := by
    obtain ⟨members, hmembers, hwrites⟩ := h value
    simp only [Codec.tagged, hmembers]
    exact accepts_tagged hwrites hkeys toJson

end DecompilerDesk.Json
