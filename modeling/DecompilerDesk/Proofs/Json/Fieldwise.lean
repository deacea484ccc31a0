-- SUMMARY: A record takes from members what each of its fields takes from the values of its key.
import DecompilerDesk.Proofs.Json.Outline

/-!
# Field by field

A record is read from members in one pass over them, with the fields met so far in slots. What comes of
it can be told field by field: a field takes the one value that its key has, or its default if the key
has none, and nothing if the key has two. The items of an array are the values of the keys in order.
-/

namespace DecompilerDesk.Json

variable {α σ τ : Type} {key : String} {members : List (String × Json)}

/-- The values of a key, in the order in which they are written. -/
def valuesOf (key : String) (members : List (String × Json)) : List Json :=
  (members.filter (·.1 = key)).map (·.2)

@[simp] theorem valuesOf_nil (key : String) : valuesOf key [] = [] := rfl

@[simp] theorem valuesOf_cons_self (key : String) (json : Json) (members : List (String × Json)) :
    valuesOf key ((key, json) :: members) = json :: valuesOf key members := by
  simp [valuesOf]

theorem valuesOf_cons_of_ne {other : String} (h : other ≠ key) (json : Json)
    (members : List (String × Json)) :
    valuesOf key ((other, json) :: members) = valuesOf key members := by
  simp [valuesOf, h]

/-- The members that a value has for some keys: those of an object, or the items of an array that has no
more of them than there are keys. -/
inductive Lists (names : List String) : Json → List (String × Json) → Prop where
  | object (members : List (String × Json)) : Lists names (.object members) members
  | array {items : List Json} (h : items.length ≤ names.length) :
      Lists names (.array items) (names.zip items)

namespace Field

/-- A field takes a value from the values of its key. -/
def Takes (field : Field α) : List Json → α → Prop
  | [], value => field.ifNoKey = some value
  | [json], value => field.codec.ofJson json = .ok value
  | _ :: _ :: _, _ => False

/-- What a field's slot holds behind some values of its key. -/
def slotAfter (field : Field α) : Option α → List Json → Option (Option α)
  | slot, [] => some slot
  | none, json :: rest =>
    (field.codec.ofJson json).toOption.bind fun value => field.slotAfter (some value) rest
  | some _, _ :: _ => none

theorem takes_iff {field : Field α} {given : List Json} {value : α} :
    field.Takes given value ↔
      ((field.slotAfter none given).bind fun slot => slot <|> field.ifNoKey) = some value := by
  match given with
  | [] => simp [Takes, slotAfter]
  | [json] =>
    rw [Takes, slotAfter, ← toOption_eq_some]
    cases field.codec.ofJson json <;> simp [slotAfter]
  | json :: other :: rest =>
    rw [Takes, slotAfter]
    cases field.codec.ofJson json <;> simp [slotAfter]

end Field

namespace Fields

/-- Each field takes its value from the values of its key. -/
def Takes {σ τ : Type} (members : List (String × Json)) : Fields σ τ → σ → Prop
  | .nil, _ => True
  | .cons field rest, (value, values) =>
    field.Takes (valuesOf field.name members) value ∧ rest.Takes members values

/-- What stands in for a field's item is what stands in for its member. -/
inductive SameDefaults : {σ τ : Type} → Fields σ τ → Prop where
  | nil : SameDefaults .nil
  | cons {α σ τ : Type} {field : Field α} {rest : Fields σ τ} :
      field.ifNoItem = field.ifNoKey → rest.SameDefaults → SameDefaults (.cons field rest)

variable {fields : Fields σ τ} {values : σ}

/-! ## Members -/

theorem fillFromMembers_cons_of_not_mem (h : key ∉ fields.names) (slots : τ) (json : Json)
    (members : List (String × Json)) :
    fields.fillFromMembers slots ((key, json) :: members) = fields.fillFromMembers slots members := by
  rw [fillFromMembers, slot?_eq_none_iff.mpr h]

/-- The first field goes its own way. -/
theorem toOption_fillFromMembers_cons (field : Field α) {rest : Fields σ τ}
    (h : field.name ∉ rest.names) (slot : Option α) (slots : τ) (members : List (String × Json)) :
    ((cons field rest).fillFromMembers (slot, slots) members).toOption =
      (field.slotAfter slot (valuesOf field.name members)).bind fun slot =>
        (rest.fillFromMembers slots members).toOption.map fun slots => (slot, slots) := by
  induction members generalizing slot slots with
  | nil => cases slot <;> rfl
  | cons member members ih =>
    obtain ⟨key, json⟩ := member
    by_cases hkey : key = field.name
    · subst hkey
      rw [valuesOf_cons_self, fillFromMembers_cons_of_not_mem h]
      simp only [fillFromMembers, slot?, if_true]
      cases slot with
      | some value => rfl
      | none =>
        simp only [Option.isSome_none, Bool.false_eq_true, if_false, toOption_bind, ih, Field.slotAfter,
          Option.bind_assoc]
    · rw [valuesOf_cons_of_ne hkey]
      simp only [fillFromMembers, slot?, if_neg hkey]
      cases hslot : rest.slot? slots key with
      | none => exact ih slot slots
      | some found =>
        simp only [Option.map_some]
        split
        · exact (Option.bind_fun_none _).symm
        · simp only [toOption_bind, ih, Option.map_bind, Function.comp_def]
          rw [Option.bind_comm]

/-- What a record makes of members is told field by field. -/
theorem complete_fillFromMembers (hnames : fields.names.Nodup) :
    (fields.fillFromMembers fields.empty members).bind fields.complete = .ok values ↔
      fields.Takes members values := by
  rw [← toOption_eq_some]
  induction fields with
  | nil =>
    have hskip : (nil.fillFromMembers () members).toOption = some () := by
      induction members with
      | nil => rfl
      | cons member members ih => exact ih
    simp [toOption_bind, empty, hskip, complete, Takes]
  | cons field rest ih =>
    obtain ⟨value, values⟩ := values
    obtain ⟨hfresh, hnames⟩ := List.nodup_cons.mp hnames
    have hsplit : (((cons field rest).fillFromMembers (none, rest.empty) members).bind
          (cons field rest).complete).toOption =
        ((field.slotAfter none (valuesOf field.name members)).bind fun slot =>
          slot <|> field.ifNoKey).bind fun value =>
            ((rest.fillFromMembers rest.empty members).bind rest.complete).toOption.map
              fun values => (value, values) := by
      rw [toOption_bind, toOption_fillFromMembers_cons field hfresh]
      simp only [toOption_complete, toOption_bind, Option.bind_assoc, Option.bind_map,
        Function.comp_def, Option.map_bind]
      refine Option.bind_congr fun slot _ => ?_
      rw [Option.bind_comm]
    rw [empty, hsplit, Takes, Field.takes_iff, ← ih hnames]
    simp only [Option.bind_eq_some_iff, Option.map_eq_some_iff, Prod.mk.injEq]
    constructor
    · rintro ⟨_, hslot, _, hvalues, rfl, rfl⟩
      exact ⟨hslot, hvalues⟩
    · rintro ⟨hslot, hvalues⟩
      exact ⟨value, hslot, values, hvalues, rfl, rfl⟩

/-! ## Items -/

/-- A member with a key that is no field's makes no difference. -/
theorem takes_cons_of_not_mem (h : key ∉ fields.names) {json : Json} :
    fields.Takes ((key, json) :: members) values ↔ fields.Takes members values := by
  induction fields with
  | nil => exact Iff.rfl
  | cons field rest ih =>
    obtain ⟨value, values⟩ := values
    obtain ⟨hname, hrest⟩ := not_or.mp (List.mem_cons.not.mp h)
    rw [Takes, Takes, ih hrest, valuesOf_cons_of_ne hname]

theorem valuesOf_zip_of_not_mem {names : List String} (h : key ∉ names) (items : List Json) :
    valuesOf key (names.zip items) = [] := by
  induction names generalizing items with
  | nil => rfl
  | cons name names ih =>
    obtain ⟨hname, hrest⟩ := not_or.mp (List.mem_cons.not.mp h)
    cases items with
    | nil => rfl
    | cons item items => rw [List.zip_cons_cons, valuesOf_cons_of_ne (Ne.symm hname), ih hrest]

/-- What a record makes of items is what it makes of them under the names of its fields. -/
theorem ofItems_iff (hnames : fields.names.Nodup) (hdefaults : fields.SameDefaults) (wanted : String)
    (index : Nat) (items : List Json) :
    fields.ofItems wanted index items = .ok (values, []) ↔
      items.length ≤ fields.names.length ∧ fields.Takes (fields.names.zip items) values := by
  rw [← toOption_eq_some]
  induction hdefaults generalizing index items with
  | nil => cases items <;> simp [ofItems, names, Takes]
  | @cons α σ τ field rest hdefault _ ih =>
    obtain ⟨value, values⟩ := values
    obtain ⟨hfresh, hnames⟩ := List.nodup_cons.mp hnames
    cases items with
    | nil =>
      have hrest : (rest.ofItems wanted (index + 1) []).toOption = some (values, []) ↔ _ :=
        ih hnames (index + 1) []
      simp only [List.length_nil, Nat.zero_le, true_and, List.zip_nil_right] at hrest
      simp only [ofItems, hdefault, names, List.zip_nil_right, Takes, valuesOf_nil, Field.Takes,
        ← hrest, List.length_nil, Nat.zero_le, true_and]
      cases field.ifNoKey with
      | none => simp
      | some default =>
        simp only [bind, toOption_bind, toOption_ok, Option.bind_eq_some_iff, Option.some.injEq,
          Prod.mk.injEq]
        constructor
        · rintro ⟨⟨_, _⟩, hgiven, ⟨rfl, rfl⟩, rfl⟩
          exact ⟨rfl, hgiven⟩
        · rintro ⟨rfl, hgiven⟩
          exact ⟨_, hgiven, ⟨rfl, rfl⟩, rfl⟩
    | cons item items =>
      have hrest : (rest.ofItems wanted (index + 1) items).toOption = some (values, []) ↔ _ :=
        ih hnames (index + 1) items
      simp only [ofItems, names, List.zip_cons_cons, Takes, valuesOf_cons_self,
        valuesOf_zip_of_not_mem hfresh, Field.Takes, takes_cons_of_not_mem hfresh, List.length_cons,
        Nat.add_le_add_iff_right, bind, toOption_bind, toOption_ok, Option.bind_eq_some_iff,
        Option.some.injEq, Prod.mk.injEq, toOption_eq_some]
      rw [toOption_eq_some] at hrest
      constructor
      · rintro ⟨_, hvalue, ⟨_, _⟩, hgiven, ⟨rfl, rfl⟩, rfl⟩
        obtain ⟨hlength, htakes⟩ := hrest.mp hgiven
        exact ⟨hlength, hvalue, htakes⟩
      · rintro ⟨hlength, hvalue, htakes⟩
        exact ⟨_, hvalue, _, hrest.mpr ⟨hlength, htakes⟩, ⟨rfl, rfl⟩, rfl⟩

/-- What a record makes of a value is what its fields take from the members that it lists. -/
theorem ofJson?_iff (hnames : fields.names.Nodup) (hdefaults : fields.SameDefaults) (wanted : String)
    {json : Json} :
    fields.ofJson? wanted json = some values ↔
      ∃ members, Lists fields.names json members ∧ fields.Takes members values := by
  cases json with
  | object members =>
    rw [ofJson?, toOption_eq_some, complete_fillFromMembers hnames]
    constructor
    · exact fun htakes => ⟨members, .object members, htakes⟩
    · rintro ⟨_, ⟨⟩, htakes⟩
      exact htakes
  | array items =>
    have hitems : fields.ofItems wanted 0 items = .ok (values, []) ↔ _ :=
      ofItems_iff hnames hdefaults wanted 0 items
    rw [← toOption_eq_some] at hitems
    simp only [ofJson?, Option.bind_eq_some_iff, Option.ite_none_right_eq_some, Option.some.injEq]
    constructor
    · rintro ⟨⟨_, _⟩, hgiven, rfl, rfl⟩
      obtain ⟨hlength, htakes⟩ := hitems.mp hgiven
      exact ⟨_, .array hlength, htakes⟩
    · rintro ⟨_, hlists, htakes⟩
      cases hlists with
      | array hlength => exact ⟨_, hitems.mpr ⟨hlength, htakes⟩, rfl, rfl⟩
  | _ =>
    constructor
    · rintro ⟨⟩
    · rintro ⟨_, ⟨⟩, -⟩

end Fields

/-! ## Kinds of fields -/

/-- A codec takes each value from the one JSON value that it writes for it. -/
def Codec.Exact (codec : Codec α) : Prop :=
  ∀ json value, codec.ofJson json = .ok value ↔ json = codec.toJson value

theorem Codec.exact_any : any.Exact := fun _ _ => ⟨Except.ok.inj, congrArg Except.ok⟩

theorem Codec.exact_text : text.Exact := by
  intro json value
  cases json <;> simp [text, scalar]

theorem Codec.exact_natural (wanted : String) {bound : Nat} {ofNat : Nat → α} {toNat : α → Nat}
    (hbound : ∀ value, toNat value < bound) (hofNat : ∀ n < bound, toNat (ofNat n) = n)
    (htoNat : ∀ value, ofNat (toNat value) = value) : (natural wanted bound ofNat toNat).Exact := by
  intro json value
  cases json with
  | integer n =>
    simp only [natural, scalar, Json.integer.injEq]
    constructor
    · intro h
      split at h
      next hfits =>
        obtain rfl := Except.ok.inj h
        rw [hofNat _ (by omega)]
        omega
      next => cases h
    · rintro rfl
      rw [if_pos ⟨Int.natCast_nonneg _, Int.ofNat_lt.mpr (hbound value)⟩, Int.toNat_natCast, htoNat]
  | _ => simp [natural, scalar]

theorem Codec.exact_word : word.Exact :=
  exact_natural _ UInt64.toNat_lt (fun _ => UInt64.toNat_ofNat_of_lt') fun _ => UInt64.ofNat_toNat

/-- The values of a key hold an optional value: null stands for none, and so does having no value. -/
def Holds (toJson : α → Json) (given : List Json) : Option α → Prop
  | none => given = [] ∨ given = [.null]
  | some value => given = [toJson value] ∧ toJson value ≠ .null

theorem Holds.length_le {toJson : α → Json} {given : List Json} {value : Option α}
    (h : Holds toJson given value) : given.length ≤ 1 := by
  cases value with
  | none => rcases h with rfl | rfl <;> decide
  | some value => rw [h.1, List.length_singleton]

/-- What is held is the value of the key, and null if there is none. -/
theorem Holds.getD_iff {given : List Json} {value : Option Json} {json : Json}
    (h : Holds (fun json => json) given value) :
    value.getD .null = json ↔ given = [json] ∨ given = [] ∧ json = .null := by
  cases value with
  | none => rcases h with rfl | rfl <;> simp [eq_comm]
  | some value => simp [h.1]

theorem Holds.unique {toJson : α → Json} (hinjective : Function.Injective toJson) {given : List Json}
    {value other : Option α} (h : Holds toJson given value) (h' : Holds toJson given other) :
    value = other := by
  have hnever {found : α} (hnone : given = [] ∨ given = [.null])
      (hsome : given = [toJson found] ∧ toJson found ≠ .null) : False := by
    rw [hsome.1] at hnone
    rcases hnone with hnil | hnull
    · cases hnil
    · exact hsome.2 (List.singleton_inj.mp hnull)
  match value, other with
  | none, none => rfl
  | none, some _ => exact (hnever h h').elim
  | some _, none => exact (hnever h' h).elim
  | some _, some _ =>
    rw [hinjective (List.singleton_inj.mp (h.1.symm.trans h'.1))]

theorem exists_holds {given : List Json} (h : given.length ≤ 1) :
    ∃ value, Holds (fun json => json) given value := by
  match given with
  | [] => exact ⟨none, .inl rfl⟩
  | [json] =>
    by_cases hnull : json = .null
    · exact ⟨none, .inr (by rw [hnull])⟩
    · exact ⟨some json, rfl, hnull⟩

theorem Field.takes_required {codec : Codec α} (h : codec.Exact) (name : String) {given : List Json}
    {value : α} : (required name codec).Takes given value ↔ given = [codec.toJson value] := by
  match given with
  | [] => simp [Takes, required]
  | [json] => simp [Takes, required, h json value]
  | _ :: _ :: _ => simp [Takes]

theorem Field.takes_optional {codec : Codec α} (h : codec.Exact) (name : String) {given : List Json}
    {value : Option α} :
    (withDefault name codec.optional none).Takes given value ↔ Holds codec.toJson given value := by
  match given with
  | [] => cases value <;> simp [Takes, withDefault, Holds]
  | _ :: _ :: _ => cases value <;> simp [Takes, Holds]
  | [json] =>
    by_cases hnull : json = .null
    · subst hnull
      rw [Takes, withDefault, Codec.optional_ofJson_null]
      cases value <;> simp [Holds, eq_comm]
    · rw [Takes, withDefault, Codec.optional_ofJson hnull]
      cases value with
      | none => cases codec.ofJson json <;> simp [Holds, hnull, Except.map]
      | some value =>
        have hexact := h json value
        constructor
        · intro htakes
          rw [← toOption_eq_some, toOption_map, Option.map_eq_some_iff] at htakes
          obtain ⟨_, htaken, ⟨⟩⟩ := htakes
          obtain rfl := hexact.mp (toOption_eq_some.mp htaken)
          exact ⟨rfl, hnull⟩
        · rintro ⟨hgiven, -⟩
          rw [hexact.mpr (List.singleton_inj.mp hgiven)]
          rfl

/-! ## Records -/

/-- A record reads a document if its fields take the parts from what the outline lists for their
names. -/
theorem Codec.readDocument_record_iff {fields : Fields σ τ} (hagree : fields.Agree)
    (hnames : fields.names.Nodup) (hdefaults : fields.SameDefaults) (name : String) (build : σ → α)
    (parts : α → σ) (depth : Nat) (text : List Char) (value : α) :
    readDocument ((record name fields build parts).reader depth) text = .ok value ↔
      ∃ json members values, readDocument (outline fields.names depth) text = .ok json ∧
        Lists fields.names json members ∧ fields.Takes members values ∧ build values = value := by
  obtain ⟨wanted, hvalue⟩ := toOption_record_ofJson name fields build parts
  rw [← toOption_eq_some, readDocument_checked (record_reader hagree name build parts depth)]
  simp only [hvalue, Option.bind_eq_some_iff, Option.map_eq_some_iff, toOption_eq_some,
    Fields.ofJson?_iff hnames hdefaults]
  constructor
  · rintro ⟨json, houtline, values, ⟨members, hlists, htakes⟩, hbuild⟩
    exact ⟨json, members, values, houtline, hlists, htakes, hbuild⟩
  · rintro ⟨json, members, values, houtline, hlists, htakes, hbuild⟩
    exact ⟨json, houtline, values, ⟨members, hlists, htakes⟩, hbuild⟩

end DecompilerDesk.Json
