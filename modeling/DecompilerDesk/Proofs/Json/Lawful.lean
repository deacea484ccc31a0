-- SUMMARY: Lawful codecs: what they write they read back, from a text and from a value.
import DecompilerDesk.Json.Record
import DecompilerDesk.Proofs.Json.RoundTrip

/-!
# Lawful codecs

A codec accepts a JSON value if it reads the value's text in every style, and the value's sorted form
without a text, both as the same thing. A lawful codec accepts what it writes. The laws go from the
parts of a type to the type: from items to lists, and from fields to records, whose members may stand
in any order.
-/

namespace DecompilerDesk.Json

open Cursor (isGap)

variable {α β σ τ : Type} {codec : Codec α} {depth : Nat} {json : Json} {value : α}

/-! ## Sorting -/

theorem sortedItems_eq_map (items : List Json) : sortedItems items = items.map sorted := by
  induction items with
  | nil => rfl
  | cons item items ih => rw [sortedItems, ih, List.map_cons]

theorem sortedValues_eq_map (members : List (String × Json)) :
    sortedValues members = members.map fun member => (member.1, member.2.sorted) := by
  induction members with
  | nil => rfl
  | cons member members ih => rw [sortedValues, ih, List.map_cons]

theorem insertMember_perm (key : String) (value : Json) {members : List (String × Json)}
    (h : key ∉ members.map (·.1)) :
    (insertMember key value members).Perm ((key, value) :: members) := by
  induction members with
  | nil => exact .refl _
  | cons member members ih =>
    obtain ⟨k, v⟩ := member
    simp only [List.map_cons, List.mem_cons, not_or] at h
    rw [insertMember]
    split
    · exact .refl _
    · rw [if_neg (Ne.symm h.1)]
      exact ((ih h.2).cons _).trans (.swap _ _ _)

/-- To sort members with distinct keys is to reorder them. -/
theorem sortMembers_perm {members : List (String × Json)} (h : (members.map (·.1)).Nodup) :
    (sortMembers members).Perm members := by
  suffices hfold : ∀ (members acc : List (String × Json)), ((acc ++ members).map (·.1)).Nodup →
      (members.foldl (fun acc member => insertMember member.1 member.2 acc) acc).Perm
        (acc ++ members) from hfold members [] h
  intro members
  induction members with
  | nil => intro acc _; rw [List.append_nil]; exact .refl _
  | cons member members ih =>
    intro acc hnodup
    have hnew : member.1 ∉ acc.map (·.1) := by
      rw [List.map_append, List.map_cons, List.nodup_append] at hnodup
      intro hmem
      exact hnodup.2.2 _ hmem _ List.mem_cons_self rfl
    have hperm : (insertMember member.1 member.2 acc ++ members).Perm (acc ++ member :: members) :=
      ((insertMember_perm member.1 member.2 hnew).append_right members).trans
        List.perm_middle.symm
    exact (ih _ ((hperm.map _).nodup_iff.mpr hnodup)).trans hperm

theorem Scalar.sorted_eq (h : Scalar json) : json.sorted = json := by
  cases h <;> rw [sorted]
  all_goals simp

theorem sorted_ne_null (h : json ≠ .null) : json.sorted ≠ .null := by
  cases json <;> simp_all [sorted]

theorem Opens.eq_null {ch : Char} (h : Opens json ch) (hch : ch = 'n') : json = .null := by
  subst hch
  cases json with
  | null => rfl
  | boolean value => cases value <;> exact absurd (show 'n' = _ from h) (by decide)
  | integer n => exact absurd (show Double.isNotation 'n' = true from h) (by decide)
  | float x => exact absurd (show Double.isNotation 'n' = true from h) (by decide)
  | text s => exact absurd (show 'n' = '"' from h) (by decide)
  | array items => exact absurd (show 'n' = '[' from h) (by decide)
  | object members => exact absurd (show 'n' = '\x7b' from h) (by decide)

/-! ## Laws -/

/-- A codec reads a JSON value as a value, from its text in every style and from its sorted form. -/
structure Codec.Accepts (codec : Codec α) (depth : Nat) (json : Json) (value : α) : Prop where
  reads : ReadsBack (codec.reader depth) json value
  ofJson : codec.ofJson json.sorted = .ok value

/-- A codec writes plain values, nested no deeper than a depth, and accepts them. -/
structure Codec.Lawful (codec : Codec α) (depth : Nat) : Prop where
  plain : ∀ value, Plain depth (codec.toJson value)
  accepts : ∀ value, codec.Accepts depth (codec.toJson value) value

namespace Codec

/-! ## Scalars -/

theorem reads_scalarReader (wanted : String) {accept : Json → Except Problem α} (hscalar : Scalar json)
    (haccept : accept json = .ok value) {text : List Char} (h : Spells json text) :
    Reads (scalarReader wanted accept) text value := by
  intro c tail hrest hclosed
  obtain ⟨r, hread, hvalue, hnext⟩ := h.readScalar_takes hscalar hclosed hrest
  simp only [scalarReader]
  split
  next hbracket => exact absurd (hrest.symm.trans hbracket) (h.not_bracket hscalar _).1
  next hbracket => exact absurd (hrest.symm.trans hbracket) (h.not_bracket hscalar _).2
  next =>
    simp only [hread, bind, Except.bind, hvalue, haccept]
    exact ⟨_, rfl, rfl, hnext⟩

theorem readsBack_scalarReader (wanted : String) {accept : Json → Except Problem α} (h : Scalar json)
    (haccept : accept json = .ok value) : ReadsBack (scalarReader wanted accept) json value :=
  fun style _ depth => reads_scalarReader wanted h haccept (h.spells style depth)

theorem accepts_scalar (wanted : String) (toJson : α → Json) {accept : Json → Except Problem α}
    (depth : Nat) (h : Scalar json) (haccept : accept json = .ok value) :
    (scalar wanted toJson accept).Accepts depth json value where
  reads := readsBack_scalarReader wanted h haccept
  ofJson := by
    rw [h.sorted_eq]
    exact haccept

theorem lawful_natural (wanted : String) {bound : Nat} {ofNat : Nat → α} {toNat : α → Nat}
    (hbound : bound ≤ UInt64.size) (hlt : ∀ value, toNat value < bound)
    (hofNat : ∀ value, ofNat (toNat value) = value) (depth : Nat) :
    (natural wanted bound ofNat toNat).Lawful depth := by
  have hscalar (value : α) : Scalar (.integer (toNat value)) := by
    have := hlt value
    exact .integer ⟨by omega, by omega⟩
  refine ⟨fun value => .scalar (hscalar value), fun value => ?_⟩
  refine accepts_scalar wanted _ depth (hscalar value) ?_
  have hrange : (0 : Int) ≤ toNat value ∧ (toNat value : Int) < bound :=
    ⟨Int.natCast_nonneg _, Int.ofNat_lt.mpr (hlt value)⟩
  exact (if_pos hrange).trans (by rw [Int.toNat_natCast, hofNat])

theorem lawful_word (depth : Nat) : word.Lawful depth :=
  lawful_natural "u64" (by decide) (fun value => value.toNat_lt_size)
    (fun value => UInt64.ofNat_toNat) depth

theorem lawful_count (depth : Nat) : count.Lawful depth :=
  lawful_natural "usize" (by decide) (fun value => value.toNat_lt_size)
    (fun value => UInt64.ofNat_toNat) depth

theorem lawful_byte (depth : Nat) : byte.Lawful depth :=
  lawful_natural "u8" (by decide) (fun value => value.toNat_lt_size)
    (fun value => UInt8.ofNat_toNat) depth

theorem lawful_boolean (depth : Nat) : boolean.Lawful depth where
  plain value := .scalar (.boolean value)
  accepts value := accepts_scalar _ _ depth (.boolean value) rfl

theorem lawful_text (depth : Nat) : text.Lawful depth where
  plain value := .scalar (.text value)
  accepts value := accepts_scalar _ _ depth (.text value) rfl

/-! ## Any value, optional values, lists, renamed and checked types -/

theorem accepts_any (h : Plain depth json) : any.Accepts depth json json.sorted where
  ofJson := rfl
  reads := by
    intro style hstyle k c tail hrest hclosed
    exact (readsBack_readValue h style hstyle k c tail hrest hclosed).map sorted

theorem accepts_none (codec : Codec α) (depth : Nat) : codec.optional.Accepts depth .null none where
  ofJson := rfl
  reads := by
    intro style _ k c tail hrest _
    rw [write] at hrest
    simp only [optional]
    split
    next h =>
      have hletters : (c.skipGap.eat h).next.rest = ['u', 'l', 'l'] ++ tail :=
        (List.cons.inj (h.symm.trans hrest)).2
      obtain ⟨r, hread, -, hnext⟩ := eatLetters_passes ['u', 'l', 'l'] hletters
      simp only [hread, bind, Except.bind]
      exact ⟨_, rfl, rfl, hnext⟩
    next hne => exact absurd hrest (hne _)

theorem accepts_some (h : codec.Accepts depth json value) (hne : json ≠ .null) :
    codec.optional.Accepts depth json (some value) where
  ofJson := by
    have hsorted := sorted_ne_null hne
    simp only [optional, h.ofJson]
    rfl
  reads := by
    intro style hstyle k c tail hrest hclosed
    have hread := (h.reads.takes hstyle hrest hclosed).map some
    obtain ⟨ch, text, htext, hopens⟩ := write_opens style k json
    rw [htext, List.cons_append] at hrest
    simp only [optional]
    split
    next hletter =>
      rw [hrest] at hletter
      obtain rfl := (List.cons.inj hletter).1
      exact absurd (hopens.eq_null rfl) hne
    next => exact hread.since c.left_skipGap

/-- What each item is read as. -/
theorem mapM_ofJson {items : List Json} {values : List α}
    (h : List.Forall₂ (codec.Accepts depth) items values) :
    (items.map sorted).mapM codec.ofJson = .ok values := by
  induction h with
  | nil => rfl
  | cons hitem _ ih => simp [hitem.ofJson, ih, bind, Except.bind, pure, Except.pure]

/-- A list is read from items that are read, whatever blanks stand around them. -/
theorem reads_list {parts : List (List Char)} {values : List α} {text : List Char}
    (hparts : List.Forall₂ (fun part value => Solid part ∧ Reads (codec.reader depth) part value)
      parts values) (h : Encloses .square parts text) :
    Reads (codec.list.reader (depth + 1)) text values := by
  intro c tail hrest _
  obtain ⟨behind, hopening⟩ := h.begins
  simp only [list]
  split
  next hbracket =>
    have hbehind := (cons_eat hbracket).trans hrest
    have hitems := enclosed_takes (h.readItems_passes hparts hbehind) fun _ => closeArray_spec
    exact hitems.since c.left_skipGap
  next hne => exact absurd (hrest.trans (by rw [hopening]; rfl)) (hne _)

theorem accepts_list {items : List Json} {values : List α}
    (h : List.Forall₂ (codec.Accepts depth) items values) :
    codec.list.Accepts (depth + 1) (.array items) values where
  ofJson := by
    rw [sorted, sortedItems_eq_map]
    exact mapM_ofJson h
  reads := by
    intro style hstyle k
    refine reads_list (List.forall₂_map_left_iff.mpr ?_) (encloses_writeArray hstyle k items)
    exact h.imp fun item value hitem =>
      ⟨solid_write style (k + 1) item, hitem.reads style hstyle (k + 1)⟩

theorem lawful_list (h : codec.Lawful depth) : codec.list.Lawful (depth + 1) where
  plain values := by
    refine .array fun item hmem => ?_
    obtain ⟨value, -, rfl⟩ := List.mem_map.mp hmem
    exact h.plain value
  accepts values := by
    refine accepts_list (List.forall₂_map_left_iff.mpr (List.forall₂_same.mpr ?_))
    intro value _
    exact h.accepts value

theorem lawful_optional (h : codec.Lawful depth) (hne : ∀ value, codec.toJson value ≠ .null) :
    codec.optional.Lawful depth where
  plain
    | none => .scalar .null
    | some value => h.plain value
  accepts
    | none => accepts_none codec depth
    | some value => accepts_some (h.accepts value) (hne value)

theorem accepts_rename (h : codec.Accepts depth json value) (wrap : α → β) (unwrap : β → α) :
    (codec.rename wrap unwrap).Accepts depth json (wrap value) where
  ofJson := by simp only [rename, h.ofJson]; rfl
  reads := by
    intro style hstyle k c tail hrest hclosed
    exact (h.reads style hstyle k c tail hrest hclosed).map wrap

theorem lawful_rename (h : codec.Lawful depth) {wrap : α → β} {unwrap : β → α}
    (hwrap : ∀ value, wrap (unwrap value) = value) : (codec.rename wrap unwrap).Lawful depth where
  plain value := h.plain (unwrap value)
  accepts value := by
    have haccepts := accepts_rename (h.accepts (unwrap value)) wrap unwrap
    rwa [hwrap] at haccepts

theorem reads_refine {text : List Char} (h : Reads (codec.reader depth) text value)
    {check : α → Except Problem β} {checked : β} (hcheck : check value = .ok checked) (forget : β → α) :
    Reads ((codec.refine check forget).reader depth) text checked := by
  intro c tail hrest hclosed
  obtain ⟨r, hread, hvalue, hnext⟩ := h c tail hrest hclosed
  simp only [refine, hread, bind, Except.bind, hvalue, hcheck]
  exact ⟨_, rfl, rfl, hnext⟩

theorem accepts_refine (h : codec.Accepts depth json value) {check : α → Except Problem β}
    {checked : β} (hcheck : check value = .ok checked) (forget : β → α) :
    (codec.refine check forget).Accepts depth json checked where
  ofJson := by simp only [refine, h.ofJson, Except.bind, hcheck]
  reads style hstyle k := reads_refine (h.reads style hstyle k) hcheck forget

/-- A check that what it gives passes again keeps a codec lawful. -/
theorem lawful_refine (h : codec.Lawful depth) {check : α → Except Problem β} {forget : β → α}
    (hcheck : ∀ value, check (forget value) = .ok value) : (codec.refine check forget).Lawful depth where
  plain value := h.plain (forget value)
  accepts value := accepts_refine (h.accepts (forget value)) (hcheck value) forget

end Codec

end DecompilerDesk.Json
