-- SUMMARY: Codecs that read from a text what they make of the value written there.
import DecompilerDesk.Proofs.Json.Checked
import DecompilerDesk.Proofs.Json.Lawful
import Mathlib.Data.List.DropRight

/-!
# Agreeing codecs

A codec reads a text without building the value that is written there. It agrees with itself if that
comes to the same as reading any value and making of it what the codec does. The first character
tells which kind of value is read, so a codec that looks at it first goes no other way.
-/

namespace DecompilerDesk.Json

variable {α : Type} {c : Cursor} {json : Json} {ch : Char} {depth : Nat}

/-! ## Blanks -/

theorem skipGap_skipGap (c : Cursor) : c.skipGap.skipGap = c.skipGap := by
  have hdrop := List.dropWhile_idempotent Cursor.isGap c.rest
  have htake : (c.rest.dropWhile Cursor.isGap).takeWhile Cursor.isGap = [] := by
    have happend :
        (c.rest.dropWhile Cursor.isGap).takeWhile Cursor.isGap ++
          (c.rest.dropWhile Cursor.isGap).dropWhile Cursor.isGap = c.rest.dropWhile Cursor.isGap :=
      List.takeWhile_append_dropWhile
    rwa [hdrop, List.append_left_eq_self] at happend
  simp only [Cursor.skipGap, Cursor.skipWhile, hdrop, htake, List.reverse_nil, List.nil_append]

theorem map_since_map_since {d e : Cursor} (value : Except Stop (Consumed α e))
    (he : e.left ≤ d.left) (hd : d.left ≤ c.left) :
    (value.map (·.since he)).map (·.since hd) = value.map (·.since (Nat.le_trans he hd)) := by
  cases value <;> rfl

/-! ## First characters -/

theorem Opens.sorted (h : Opens json ch) : Opens json.sorted ch := by
  cases json with
  | array items => rw [Json.sorted]; exact h
  | object members => rw [Json.sorted]; exact h
  | _ => simpa [Json.sorted] using h

theorem Opens.eq_array (h : Opens json '[') : ∃ items, json = .array items := by
  cases json with
  | array items => exact ⟨items, rfl⟩
  | boolean value => cases value <;> exact absurd (show '[' = _ from h) (by decide)
  | integer n => exact absurd (show Double.isNotation '[' = true from h) (by decide)
  | float x => exact absurd (show Double.isNotation '[' = true from h) (by decide)
  | _ => exact absurd (show '[' = _ from h) (by decide)

theorem Opens.eq_object (h : Opens json '\x7b') : ∃ members, json = .object members := by
  cases json with
  | object members => exact ⟨members, rfl⟩
  | boolean value => cases value <;> exact absurd (show '\x7b' = _ from h) (by decide)
  | integer n => exact absurd (show Double.isNotation '\x7b' = true from h) (by decide)
  | float x => exact absurd (show Double.isNotation '\x7b' = true from h) (by decide)
  | _ => exact absurd (show '\x7b' = _ from h) (by decide)

/-- A value that begins with no bracket is sorted as it is. -/
theorem Opens.sorted_eq (h : Opens json ch) (harray : ch ≠ '[') (hobject : ch ≠ '\x7b') :
    json.sorted = json := by
  cases json with
  | array items => exact absurd h harray
  | object members => exact absurd h hobject
  | _ => simp [Json.sorted]

theorem Number.opens (number : Number) (h : Double.isNotation ch = true) :
    Opens number.toJson ch := by
  cases number <;> exact h

theorem readScalar_opens {r : Consumed Json c} (h : readScalar c = .ok r) :
    ∃ ch rest, c.rest = ch :: rest ∧ Opens r.value ch := by
  rw [← toOption_eq_some] at h
  unfold readScalar at h
  split at h
  case h_6 ch rest _ _ _ _ _ hrest =>
    refine ⟨ch, rest, hrest, ?_⟩
    split at h
    next hdigit =>
      simp only [bind, toOption_bind, toOption_ok, Option.bind_eq_some_iff, Option.some.injEq] at h
      obtain ⟨number, -, rfl⟩ := h
      exact number.value.opens (by simp [Double.isNotation, hdigit])
    next => cases h
  case h_7 => cases h
  all_goals
    rename_i hrest
    refine ⟨_, _, hrest, ?_⟩
    simp only [bind, toOption_bind, toOption_ok, Option.bind_eq_some_iff, Option.some.injEq] at h
    obtain ⟨r, -, rfl⟩ := h
  · rfl
  · rfl
  · rfl
  · rfl
  · exact r.value.opens rfl

/-- Where no array and no object begins, a value is a scalar. -/
theorem readValueWith_of_not_bracket (harray : ∀ rest, c.skipGap.rest = '[' :: rest → False)
    (hobject : ∀ rest, c.skipGap.rest = '\x7b' :: rest → False) (nested : Option (Reader Json)) :
    readValueWith nested c = (readScalar c.skipGap).map (·.since c.left_skipGap) := by
  cases nested <;> simp only [readValueWith]

theorem readValueWith_opens {nested : Option (Reader Json)} {r : Consumed Json c}
    (h : readValueWith nested c = .ok r) :
    ∃ ch rest, c.skipGap.rest = ch :: rest ∧ Opens r.value ch := by
  rw [← toOption_eq_some] at h
  simp only [readValueWith, toOption_map, Option.map_eq_some_iff] at h
  obtain ⟨value, hvalue, rfl⟩ := h
  split at hvalue
  next hrest =>
    refine ⟨_, _, hrest, ?_⟩
    cases nested with
    | none => cases hvalue
    | some read =>
      simp only [bind, toOption_bind, toOption_ok, Option.bind_eq_some_iff, Option.some.injEq]
        at hvalue
      obtain ⟨items, -, rfl⟩ := hvalue
      rfl
  next hrest =>
    refine ⟨_, _, hrest, ?_⟩
    cases nested with
    | none => cases hvalue
    | some read =>
      simp only [bind, toOption_bind, toOption_ok, Option.bind_eq_some_iff, Option.some.injEq]
        at hvalue
      obtain ⟨members, -, rfl⟩ := hvalue
      rfl
  next => exact readScalar_opens (toOption_eq_some.mp hvalue)

/-! ## Codecs -/

namespace Codec

theorem any_opens {r : Consumed Json c} (h : any.reader depth c = .ok r) :
    ∃ ch rest, c.skipGap.rest = ch :: rest ∧ Opens r.value ch := by
  rw [← toOption_eq_some, any, toOption_map, Option.map_eq_some_iff] at h
  obtain ⟨value, hvalue, rfl⟩ := h
  rw [toOption_eq_some] at hvalue
  obtain ⟨ch, rest, hrest, hopens⟩ :
      ∃ ch rest, c.skipGap.rest = ch :: rest ∧ Opens value.value ch := by
    cases depth <;> exact readValueWith_opens hvalue
  exact ⟨ch, rest, hrest, hopens.sorted⟩

/-- Where no array and no object begins, any value is read as a scalar. -/
theorem any_of_not_bracket (harray : ∀ rest, c.skipGap.rest = '[' :: rest → False)
    (hobject : ∀ rest, c.skipGap.rest = '\x7b' :: rest → False) (depth : Nat) :
    any.reader depth c = (readScalar c.skipGap).map (·.since c.left_skipGap) := by
  have hvalue : readValue depth c = (readScalar c.skipGap).map (·.since c.left_skipGap) := by
    cases depth <;> exact readValueWith_of_not_bracket harray hobject _
  simp only [any, hvalue]
  cases hscalar : readScalar c.skipGap with
  | error stop => rfl
  | ok scalar =>
    obtain ⟨ch, rest, hrest, hopens⟩ := readScalar_opens hscalar
    have hsorted : scalar.value.sorted = scalar.value := by
      refine hopens.sorted_eq ?_ ?_
      · rintro rfl
        exact harray _ hrest
      · rintro rfl
        exact hobject _ hrest
    simp only [Except.map, Consumed.map, Consumed.since, hsorted]

/-- A codec reads from a text what it makes of the value written there. -/
def Agrees (codec : Codec α) : Prop :=
  codec.Checked any fun json => (codec.ofJson json).toOption

theorem agrees_any : any.Agrees := any.checked_self

theorem agrees_scalar (wanted : String) (toJson : α → Json) {accept : Json → Except Problem α}
    (harray : ∀ items, (accept (.array items)).toOption = none)
    (hobject : ∀ members, (accept (.object members)).toOption = none) :
    (scalar wanted toJson accept).Agrees where
  ofJson json := rfl
  reader depth c := by
    have hrefused {ch : Char} {rest : List Char} (hrest : c.skipGap.rest = ch :: rest)
        (hreject : ∀ json, Opens json ch → (accept json).toOption = none) :
        (any.reader depth c).toOption.bind (Consumed.check fun json => (accept json).toOption) =
          none := by
      refine Option.bind_eq_none_iff.mpr fun r hr => ?_
      obtain ⟨ch, rest, hrest', hopens⟩ := any_opens (toOption_eq_some.mp hr)
      obtain ⟨rfl, -⟩ := List.cons.inj (hrest.symm.trans hrest')
      rw [Consumed.check, hreject _ hopens, Option.map_none]
    simp only [scalar, scalarReader]
    split
    next hrest =>
      refine (hrefused hrest fun json hopens => ?_).symm
      obtain ⟨items, rfl⟩ := hopens.eq_array
      exact harray items
    next hrest =>
      refine (hrefused hrest fun json hopens => ?_).symm
      obtain ⟨members, rfl⟩ := hopens.eq_object
      exact hobject members
    next hnoArray hnoObject =>
      rw [any_of_not_bracket hnoArray hnoObject]
      simp only [bind, toOption_bind, toOption_map, Option.bind_map]
      refine Option.bind_congr fun r _ => ?_
      simp only [Function.comp_def, Consumed.check, Consumed.since]
      cases accept r.value <;> rfl

theorem agrees_natural (wanted : String) (bound : Nat) (ofNat : Nat → α) (toNat : α → Nat) :
    (natural wanted bound ofNat toNat).Agrees :=
  agrees_scalar wanted _ (fun _ => rfl) fun _ => rfl

theorem agrees_text : text.Agrees := agrees_scalar _ _ (fun _ => rfl) fun _ => rfl

/-- Blanks in front of a value make no difference. -/
theorem readValueWith_skipGap (nested : Option (Reader Json)) (c : Cursor) :
    (readValueWith nested c.skipGap).map (·.since c.left_skipGap) = readValueWith nested c := by
  unfold readValueWith
  simp only [map_since_map_since]
  generalize_proofs hleft _
  revert hleft
  rw [skipGap_skipGap]
  exact fun _ => rfl

theorem any_skipGap (depth : Nat) (c : Cursor) :
    (any.reader depth c.skipGap).map (·.since c.left_skipGap) = any.reader depth c := by
  have hvalue : (readValue depth c.skipGap).map (·.since c.left_skipGap) = readValue depth c := by
    cases depth <;> exact readValueWith_skipGap _ c
  simp only [any, ← hvalue]
  cases readValue depth c.skipGap <;> rfl

/-- What begins with an n is read as null. -/
theorem readScalar_null {rest : List Char} (h : c.rest = 'n' :: rest) :
    readScalar c = ((c.eat h).next.eatLetters ['u', 'l', 'l']).map fun word =>
      ((c.eat h).andThen word).map fun _ => .null := by
  simp only [readScalar]
  split
  next h' =>
    obtain ⟨-, rfl⟩ := List.cons.inj (h.symm.trans h')
    cases (c.eat h).next.eatLetters ['u', 'l', 'l'] <;> rfl
  case h_6 hnotNull _ _ _ _ h' =>
    rw [h] at h'
    exact absurd (List.cons.inj h').1.symm hnotNull
  all_goals
    rename_i h'
    rw [h] at h'
    cases h'

theorem optional_ofJson_null (codec : Codec α) : codec.optional.ofJson .null = .ok none := rfl

theorem optional_ofJson {codec : Codec α} (h : json ≠ .null) :
    codec.optional.ofJson json = (codec.ofJson json).map some := by
  cases json <;> first | exact absurd rfl h | rfl

theorem agrees_optional {codec : Codec α} (h : codec.Agrees) : codec.optional.Agrees where
  ofJson json := rfl
  reader depth c := by
    have hnull := codec.optional_ofJson_null
    have hnotNull (json : Json) (h : json ≠ .null) := codec.optional_ofJson h
    -- Only the reader is to be unfolded.
    generalize codec.optional.ofJson = accept at hnull hnotNull ⊢
    simp only [optional]
    split
    next rest hrest =>
      rw [any_of_not_bracket (by simp [hrest]) (by simp [hrest]), readScalar_null hrest]
      cases (c.skipGap.eat hrest).next.eatLetters ['u', 'l', 'l'] with
      | error stop => rfl
      | ok word =>
        simp only [Except.map, bind, Except.bind, toOption_ok, Option.bind_some, Consumed.check]
        simp only [Consumed.since, Consumed.map, hnull, toOption_ok, Option.map_some]
    next hother =>
      rw [← any_skipGap, toOption_map, toOption_map, toOption_map, h.reader, Option.bind_map,
        Option.map_bind, Option.map_bind]
      refine Option.bind_congr fun r hr => ?_
      obtain ⟨ch, rest, hrest, hopens⟩ := any_opens (toOption_eq_some.mp hr)
      rw [skipGap_skipGap] at hrest
      have hvalue : accept r.value = (codec.ofJson r.value).map some := by
        refine hnotNull _ fun hvalue => ?_
        rw [hvalue] at hopens
        obtain rfl := hopens
        exact hother _ hrest
      simp only [Function.comp_def, Consumed.check, Consumed.since, hvalue]
      cases codec.ofJson r.value <;> rfl

end Codec

end DecompilerDesk.Json
