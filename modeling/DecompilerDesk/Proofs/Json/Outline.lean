-- SUMMARY: What a record reads from a text is what it makes of the outline of the text.
import DecompilerDesk.Proofs.Json.Agreeing
import DecompilerDesk.Proofs.Json.Records

/-!
# Outlines

A record looks at the members with known keys and skips the values of all others, whatever they hold.
The outline of a text is what it sees: the items of an array, or the known members of an object in the
order in which they are written. A record whose fields agree reads from a text what it makes of its
outline.
-/

namespace DecompilerDesk.Json

variable {α β σ τ : Type} {c : Cursor}

/-! ## Fields -/

namespace Fields

/-- Every field reads from a text what it makes of the value written there. -/
inductive Agree : {σ τ : Type} → Fields σ τ → Prop where
  | nil : Agree .nil
  | cons {α σ τ : Type} {field : Field α} {rest : Fields σ τ} :
      field.codec.Agrees → rest.Agree → Agree (.cons field rest)

variable {fields : Fields σ τ} {key : String}

theorem Agree.slot? (h : fields.Agree) {slots : τ} {slot : Slot τ}
    (hslot : fields.slot? slots key = some slot) : slot.codec.Agrees := by
  induction h with
  | nil => cases hslot
  | cons hfield _ ih =>
    obtain ⟨value, slots⟩ := slots
    simp only [Fields.slot?] at hslot
    split at hslot
    · obtain rfl := Option.some.inj hslot
      exact hfield
    · obtain ⟨inner, hinner, rfl⟩ := Option.map_eq_some_iff.mp hslot
      exact ih hinner

theorem fillFromMembers_append (fields : Fields σ τ) (slots : τ)
    (members more : List (String × Json)) :
    fields.fillFromMembers slots (members ++ more) =
      (fields.fillFromMembers slots members).bind fun slots => fields.fillFromMembers slots more := by
  induction members generalizing slots with
  | nil => rfl
  | cons member members ih =>
    simp only [List.cons_append, fillFromMembers]
    split
    next => exact ih slots
    next slot _ =>
      split
      next => rfl
      next =>
        cases slot.codec.ofJson member.2 with
        | error problem => rfl
        | ok value => exact ih (slot.fill value)

end Fields

/-! ## Members -/

/-- Put a member whose key is known before those already read. The value of any other is skipped. -/
def addKnown (known : List String) (depth : Nat) : MemberReader (List (String × Json)) :=
  fun key members c =>
    if key ∈ known then addMember (Codec.any.reader depth) key members c
    else do
      let colon ← readColon c
      let skipped ← skipValue colon.next
      .ok (colon.andThen (skipped.map fun _ => members).passed)

/-- What the slots of a record hold behind some members, the latest first. -/
def Fields.filledBy (fields : Fields σ τ) (members : List (String × Json)) : Option τ :=
  (fields.fillFromMembers fields.empty members.reverse).toOption

namespace Fields

variable {fields : Fields σ τ} {key : String}

theorem filledBy_cons (fields : Fields σ τ) (key : String) (json : Json)
    (members : List (String × Json)) :
    fields.filledBy ((key, json) :: members) =
      (fields.filledBy members).bind fun slots =>
        (fields.fillFromMembers slots [(key, json)]).toOption := by
  rw [filledBy, List.reverse_cons, fillFromMembers_append, toOption_bind]
  rfl

/-- A known member fills its slot with what the field makes of the value written there. -/
theorem Agree.toOption_readMember (h : fields.Agree) (hkey : key ∈ fields.names) (depth : Nat)
    (slots : τ) (c : Cursor) :
    (fields.readMember depth key slots c).toOption =
      (readColon c).toOption.bind fun colon =>
        (Codec.any.reader depth colon.next).toOption.bind fun value =>
          (fields.fillFromMembers slots [(key, value.value)]).toOption.map fun slots =>
            colon.andThen (value.map fun _ => slots).passed := by
  simp only [readMember, fillFromMembers]
  cases hslot : fields.slot? slots key with
  | none => exact absurd hkey (slot?_eq_none_iff.mp hslot)
  | some slot =>
    by_cases hfilled : slot.filled
    · simp only [if_pos hfilled, toOption_error, Option.map_none, Option.bind_fun_none]
    · simp only [if_neg hfilled, bind, toOption_bind, toOption_ok, (h.slot? hslot).reader,
        Option.bind_assoc]
      refine Option.bind_congr fun colon _ => Option.bind_congr fun value _ => ?_
      rw [Consumed.check]
      cases slot.codec.ofJson value.value <;> rfl

/-- A known member is read into its slot as it is added to the members before it. -/
theorem Agree.addKnown (h : fields.Agree) (depth : Nat) (key : String)
    (members : List (String × Json)) (c : Cursor) :
    (Json.addKnown fields.names depth key members c).toOption.bind (Consumed.check fields.filledBy) =
      (fields.filledBy members).bind fun slots => (fields.readMember depth key slots c).toOption := by
  by_cases hkey : key ∈ fields.names
  · simp only [Json.addKnown, if_pos hkey, addMember, bind, toOption_bind, Option.bind_assoc,
      toOption_ok, Option.bind_some, h.toOption_readMember hkey]
    rw [Option.bind_comm]
    refine Option.bind_congr fun colon _ => ?_
    rw [Option.bind_comm]
    refine Option.bind_congr fun value _ => ?_
    show (fields.filledBy ((key, value.value) :: members)).map _ = _
    rw [filledBy_cons, Option.map_bind]
    rfl
  · simp only [Json.addKnown, if_neg hkey, bind, toOption_bind, Option.bind_assoc, toOption_ok,
      Option.bind_some, readMember, slot?_eq_none_iff.mpr hkey]
    rw [Option.bind_comm]
    refine Option.bind_congr fun colon _ => ?_
    rw [Option.bind_comm]
    exact Option.bind_congr fun skipped _ => Option.map_eq_bind

/-- What a record makes of the members of an object, the latest first. -/
theorem Agree.readMembers (h : fields.Agree) (depth : Nat) (c : Cursor) :
    (fields.readMembers depth c).toOption =
      (Json.readMembers (Json.addKnown fields.names depth) [] c).toOption.bind
        (Passed.check fun members => (fields.filledBy members).bind fun slots =>
          (fields.complete slots).toOption) := by
  have hmembers := readMembersFrom_checked (h.addKnown depth) c true [] c c.left_le
  rw [filledBy, List.reverse_nil, fillFromMembers, toOption_ok, Option.bind_some] at hmembers
  rw [toOption_readMembers, Json.readMembers, Json.readMembers, ← hmembers, Option.bind_assoc]
  refine Option.bind_congr fun r _ => ?_
  simp only [Passed.check, Option.bind_map, Option.map_bind]
  rfl

end Fields

/-! ## Items -/

variable {first : Bool} {rest : List Char} {read : Reader α} {origin : Cursor} {items : List α}

theorem closeArray_of_bracket (h : c.skipGap.rest = ']' :: rest) :
    closeArray c = ((c.skipGap.eat h).map fun _ => none).passed.since c.left_skipGap := by
  simp only [closeArray]
  split
  next h' =>
    obtain ⟨-, rfl⟩ := List.cons.inj (h.symm.trans h')
    rfl
  next h' => rw [h] at h'; cases h'
  next hnot _ => exact (hnot _ h).elim

theorem closeArray_of_not_bracket (h : ∀ rest, c.skipGap.rest ≠ ']' :: rest) :
    (closeArray c).value ≠ none := by
  simp only [closeArray]
  split
  next h' => exact absurd h' (h _)
  next => exact Option.some_ne_none _
  next => exact Option.some_ne_none _

theorem moreItems_of_not_bracket (h : ∀ rest, c.skipGap.rest ≠ ']' :: rest) {more : Passed Bool c}
    (hmore : moreItems first c = .ok more) : more.value = true := by
  simp only [moreItems] at hmore
  split at hmore
  next => cases hmore
  next h' => exact absurd h' (h _)
  next =>
    split at hmore
    · obtain rfl := Except.ok.inj hmore
      rfl
    · split at hmore
      · split at hmore
        · cases hmore
        · cases hmore
        · obtain rfl := Except.ok.inj hmore
          rfl
      · cases hmore

/-- What was read behind the opening bracket of an array, and the cursor behind its closing bracket. -/
def Passed.closes (r : Passed α c) : Option (α × Cursor) :=
  if (closeArray r.next).value = none then some (r.value, (closeArray r.next).next) else none

theorem Passed.closes_of_bracket {r : Passed α c} (h : r.next.skipGap.rest = ']' :: rest) :
    r.closes = some (r.value, ⟨']' :: r.next.skipGap.before, rest⟩) := by
  rw [closes, closeArray_of_bracket h]
  rfl

theorem Passed.closes_of_not_bracket {r : Passed α c}
    (h : ∀ rest, r.next.skipGap.rest ≠ ']' :: rest) : r.closes = none :=
  if_neg (closeArray_of_not_bracket h)

theorem Passed.closes_map_since {d : Cursor} (r : Passed α d) (f : α → β) (h : d.left ≤ c.left) :
    ((r.map f).since h).closes = r.closes.map fun (value, next) => (f value, next) := by
  show (if (closeArray r.next).value = none then some (f r.value, (closeArray r.next).next)
      else none) =
    (if (closeArray r.next).value = none then some (r.value, (closeArray r.next).next)
      else none).map _
  split <;> rfl

theorem readItemsFrom_of_bracket (within : c.left ≤ origin.left) (h : c.skipGap.rest = ']' :: rest) :
    (readItemsFrom read origin items c within).toOption.bind Passed.closes =
      some (items.reverse, ⟨']' :: c.skipGap.before, rest⟩) := by
  rw [readItemsFrom, moreItems_of_bracket h]
  rw [← skipGap_skipGap] at h
  refine (Passed.closes_of_bracket h).trans ?_
  simp only [skipGap_skipGap]

/-- The items that are read are put behind those before them. -/
theorem readItemsFrom_append {within : c.left ≤ origin.left} {r : Passed (List α) origin}
    (h : readItemsFrom read origin items c within = .ok r) :
    ∃ more, r.value = items.reverse ++ more := by
  induction hleft : c.left using Nat.strongRecOn generalizing c items with
  | ind left ih =>
    subst hleft
    rw [readItemsFrom, ← toOption_eq_some] at h
    simp only [bind, toOption_bind, Option.bind_eq_some_iff] at h
    obtain ⟨more, -, h⟩ := h
    split at h
    · simp only [toOption_bind, Option.bind_eq_some_iff] at h
      obtain ⟨item, -, h⟩ := h
      have hshorter : item.next.left < c.left := Nat.lt_of_lt_of_le item.shorter more.notLonger
      obtain ⟨last, hlast⟩ := ih _ hshorter (toOption_eq_some.mp h) rfl
      exact ⟨item.value :: last, by simp [hlast]⟩
    · obtain rfl := Option.some.inj h
      exact ⟨[], (List.append_nil _).symm⟩

/-- Where the array does not end, an item is read and put before those already read. -/
theorem readItemsFrom_of_not_bracket (within : c.left ≤ origin.left)
    (h : ∀ rest, c.skipGap.rest ≠ ']' :: rest) :
    (readItemsFrom read origin items c within).toOption =
      (moreItems items.isEmpty c).toOption.bind fun more =>
        (read more.next).toOption.bind fun item =>
          (readItemsFrom read origin (item.value :: items) item.next
            (Nat.le_trans (Nat.le_of_lt item.shorter)
              (Nat.le_trans more.notLonger within))).toOption := by
  rw [readItemsFrom]
  simp only [bind, toOption_bind]
  refine Option.bind_congr fun more hmore => ?_
  rw [if_pos (moreItems_of_not_bracket h (toOption_eq_some.mp hmore)), toOption_bind]

/-- Of all the items that are read, the one just before the cursor follows those read before it. -/
theorem drop_of_readItemsFrom {item : α} {within : c.left ≤ origin.left} {after : List α × Cursor}
    (h : after ∈ (readItemsFrom read origin (item :: items) c within).toOption.bind Passed.closes) :
    after.1.drop items.length = item :: after.1.drop (item :: items).length := by
  obtain ⟨r, hr, hcloses⟩ := Option.bind_eq_some_iff.mp h
  obtain ⟨more, hmore⟩ := readItemsFrom_append (toOption_eq_some.mp hr)
  have hafter : after.1 = items.reverse ++ item :: more := by
    simp only [Passed.closes] at hcloses
    split at hcloses
    · obtain rfl := Option.some.inj hcloses
      simp [hmore]
    · cases hcloses
  have hlength : (items.reverse ++ [item]).length = (item :: items).length := by simp
  rw [hafter, List.drop_left' List.length_reverse, List.append_cons, List.drop_left' hlength]

namespace Fields

variable {fields : Fields σ τ}

/-- What a record makes of items and the cursor behind their closing bracket. No item may be left. -/
def fromItems (fields : Fields σ τ) (wanted : String) (index : Nat) (read : List Json × Cursor) :
    Option (σ × Cursor) :=
  (fields.ofItems wanted index read.1).toOption.bind fun given =>
    if given.2 = [] then some (given.1, read.2) else none

theorem fromItems_cons (field : Field α) (rest : Fields σ τ) (wanted : String) (index : Nat)
    (item : Json) (items : List Json) (next : Cursor) :
    (cons field rest).fromItems wanted index (item :: items, next) =
      (field.codec.ofJson item).toOption.bind fun value =>
        (rest.fromItems wanted (index + 1) (items, next)).map fun (values, next) =>
          ((value, values), next) := by
  simp only [fromItems, ofItems, bind, toOption_bind, Option.bind_assoc, toOption_ok, Option.bind_some]
  refine Option.bind_congr fun value _ => ?_
  rw [Option.map_bind]
  refine Option.bind_congr fun given _ => ?_
  simp only [Function.comp_def]
  split <;> rfl

theorem fromItems_nil (field : Field α) (rest : Fields σ τ) (wanted : String) (index : Nat)
    (next : Cursor) :
    (cons field rest).fromItems wanted index ([], next) =
      field.ifNoItem.bind fun value =>
        (rest.fromItems wanted (index + 1) ([], next)).map fun (values, next) =>
          ((value, values), next) := by
  simp only [fromItems, ofItems]
  cases field.ifNoItem with
  | none => rfl
  | some value =>
    simp only [bind, toOption_bind, Option.bind_assoc, toOption_ok, Option.bind_some, Option.map_bind]
    refine Option.bind_congr fun given _ => ?_
    simp only [Function.comp_def]
    split <;> rfl

/-- Where the array ends, the fields that are left take what stands in for their items. -/
theorem readItems_of_bracket (fields : Fields σ τ) (wanted wanted' : String) (depth index : Nat)
    {rest : List Char} (h : c.skipGap.rest = ']' :: rest) :
    (fields.readItems wanted depth index c).toOption.bind Passed.closes =
      fields.fromItems wanted' index ([], ⟨']' :: c.skipGap.before, rest⟩) := by
  induction fields generalizing c index with
  | nil => exact Passed.closes_of_bracket h
  | cons field rest ih =>
    rw [fromItems_nil, readItems, moreItems_of_bracket h]
    cases field.ifNoItem with
    | none => rfl
    | some value =>
      have hrest := ih (index + 1) (show c.skipGap.skipGap.rest = _ by rwa [skipGap_skipGap])
      rw [skipGap_skipGap] at hrest
      simp only [bind, Except.bind.eq_2, Bool.false_eq_true, if_false, toOption_bind, Option.bind_assoc,
        toOption_ok, Option.bind_some, Passed.closes_map_since, ← hrest, Option.map_bind,
        Function.comp_def]
      rfl

theorem readItems_at_end (fields : Fields σ τ) (wanted wanted' : String) (depth index : Nat)
    {origin : Cursor} {items : List Json} (within : c.left ≤ origin.left) {rest : List Char}
    (h : c.skipGap.rest = ']' :: rest) :
    (fields.readItems wanted depth index c).toOption.bind Passed.closes =
      ((readItemsFrom (Codec.any.reader depth) origin items c within).toOption.bind
        Passed.closes).bind fun after =>
          fields.fromItems wanted' index (after.1.drop items.length, after.2) := by
  rw [readItems_of_bracket fields wanted wanted' depth index h, readItemsFrom_of_bracket within h,
    Option.bind_some, List.drop_eq_nil_of_le List.length_reverse.le]

/-- A record reads the items of an array one by one, as far as it has fields. -/
theorem Agree.readItems (h : fields.Agree) (wanted wanted' : String) (depth index : Nat) (c : Cursor)
    {origin : Cursor} {items : List Json} (hfirst : items.isEmpty = decide (index = 0))
    (within : c.left ≤ origin.left) :
    (fields.readItems wanted depth index c).toOption.bind Passed.closes =
      ((readItemsFrom (Codec.any.reader depth) origin items c within).toOption.bind
        Passed.closes).bind fun after =>
          fields.fromItems wanted' index (after.1.drop items.length, after.2) := by
  induction h generalizing c index items with
  | nil =>
    by_cases hend : ∃ rest, c.skipGap.rest = ']' :: rest
    · obtain ⟨rest, hrest⟩ := hend
      exact readItems_at_end _ wanted wanted' depth index within hrest
    · have hgoes : ∀ rest, c.skipGap.rest ≠ ']' :: rest := not_exists.mp hend
      rw [readItemsFrom_of_not_bracket within hgoes]
      simp only [Option.bind_assoc]
      refine (Passed.closes_of_not_bracket hgoes).trans (Eq.symm ?_)
      refine Option.bind_eq_none_iff.mpr fun more _ => Option.bind_eq_none_iff.mpr fun item _ => ?_
      rw [← Option.bind_assoc]
      refine Option.bind_eq_none_iff.mpr fun after hafter => ?_
      rw [drop_of_readItemsFrom hafter]
      rfl
  | @cons α σ τ field fields hfield _ ih =>
    by_cases hend : ∃ rest, c.skipGap.rest = ']' :: rest
    · obtain ⟨rest, hrest⟩ := hend
      exact readItems_at_end _ wanted wanted' depth index within hrest
    · have hgoes : ∀ rest, c.skipGap.rest ≠ ']' :: rest := not_exists.mp hend
      rw [readItemsFrom_of_not_bracket within hgoes, hfirst]
      simp only [Fields.readItems, bind, toOption_bind, Option.bind_assoc]
      refine Option.bind_congr fun more hmore => ?_
      rw [if_pos (moreItems_of_not_bracket hgoes (toOption_eq_some.mp hmore))]
      simp only [toOption_bind, toOption_map, toOption_ok, hfield.reader, Option.map_bind,
        Option.bind_assoc]
      refine Option.bind_congr fun item _ => ?_
      have hnotFirst : (item.value :: items).isEmpty = decide (index + 1 = 0) := by simp
      have hitem := ih (index + 1) item.next hnotFirst
        (Nat.le_trans (Nat.le_of_lt item.shorter) (Nat.le_trans more.notLonger within))
      calc _
        _ = (field.codec.ofJson item.value).toOption.bind fun value =>
              ((fields.readItems wanted depth (index + 1) item.next).toOption.bind Passed.closes).map
                fun (values, next) => ((value, values), next) := by
          simp only [Function.comp_def, Consumed.check, Option.map_map, Option.bind_map,
            Option.bind_some, Passed.closes_map_since, Option.map_bind]
          rfl
        _ = _ := by
          rw [hitem, ← Option.bind_assoc]
          simp only [Option.map_bind, Function.comp_def]
          rw [Option.bind_comm]
          refine Option.bind_congr fun after hafter => ?_
          rw [drop_of_readItemsFrom hafter, fromItems_cons]

end Fields

/-! ## Outlines -/

/-- Read any array, or an object without the members whose keys are not known. -/
def outline (known : List String) (depth : Nat) : Reader Json := fun c =>
  let d := c.skipGap
  let value : Except Stop (Consumed Json d) :=
    match h : d.rest with
    | '[' :: _ =>
      Codec.deeper depth d fun depth =>
        (enclosed closeArray (d.eat h) (readItems (Codec.any.reader depth) (d.eat h).next)).map
          (·.map .array)
    | '\x7b' :: _ =>
      Codec.deeper depth d fun depth =>
        (enclosed closeObject (d.eat h) (readMembers (addKnown known depth) [] (d.eat h).next)).map
          (·.map fun members => .object members.reverse)
    | _ => .error (refuse "an array or an object" d)
  value.map (·.since c.left_skipGap)

theorem outline_array {known : List String} {depth : Nat} (h : c.skipGap.rest = '[' :: rest) :
    outline known depth c =
      (Codec.deeper depth c.skipGap fun depth =>
        (enclosed closeArray (c.skipGap.eat h)
          (readItems (Codec.any.reader depth) (c.skipGap.eat h).next)).map (·.map .array)).map
        (·.since c.left_skipGap) := by
  simp only [outline]
  split
  next h' =>
    obtain ⟨-, rfl⟩ := List.cons.inj (h.symm.trans h')
    rfl
  next h' => rw [h] at h'; cases h'
  next hnot _ => exact (hnot _ h).elim

theorem outline_object {known : List String} {depth : Nat} (h : c.skipGap.rest = '\x7b' :: rest) :
    outline known depth c =
      (Codec.deeper depth c.skipGap fun depth =>
        (enclosed closeObject (c.skipGap.eat h)
          (readMembers (addKnown known depth) [] (c.skipGap.eat h).next)).map
            (·.map fun members => .object members.reverse)).map (·.since c.left_skipGap) := by
  simp only [outline]
  split
  next h' => rw [h] at h'; cases h'
  next h' =>
    obtain ⟨-, rfl⟩ := List.cons.inj (h.symm.trans h')
    rfl
  next hnot => exact (hnot _ h).elim

theorem toOption_outline_of_not_bracket {known : List String} {depth : Nat}
    (harray : ∀ rest, c.skipGap.rest = '[' :: rest → False)
    (hobject : ∀ rest, c.skipGap.rest = '\x7b' :: rest → False) :
    (outline known depth c).toOption = none := by
  simp only [outline]
  rfl

/-- What was read, without the proof that it is shorter. -/
def Consumed.reached (r : Consumed α c) : α × Cursor := (r.value, r.next)

theorem Consumed.reached_injective :
    Function.Injective (reached : Consumed α c → α × Cursor) := by
  rintro ⟨value, next, _⟩ ⟨value', next', _⟩ h
  obtain ⟨rfl, rfl⟩ := Prod.mk.inj h
  rfl

theorem reached_enclosed (opening : Consumed Unit c) (inside : Except Stop (Passed α opening.next)) :
    (enclosed closeArray opening inside).toOption.map Consumed.reached =
      inside.toOption.bind Passed.closes := by
  rw [toOption_enclosed, Option.map_bind]
  refine Option.bind_congr fun r _ => ?_
  rw [Function.comp_apply, Passed.closes]
  split <;> rfl

namespace Fields

variable {fields : Fields σ τ}

theorem Agree.enclosed_items (h : fields.Agree) (wanted wanted' : String) (depth : Nat)
    (opening : Consumed Unit c) :
    (enclosed closeArray opening (fields.readItems wanted depth 0 opening.next)).toOption =
      ((enclosed closeArray opening (Json.readItems (Codec.any.reader depth) opening.next)).map
        (·.map .array)).toOption.bind (Consumed.check (fields.ofJson? wanted')) := by
  have hfirst : ([] : List Json).isEmpty = decide (0 = 0) := rfl
  apply Option.map_injective Consumed.reached_injective
  rw [reached_enclosed, h.readItems wanted wanted' depth 0 opening.next hfirst opening.next.left_le,
    Json.readItems, ← reached_enclosed, toOption_map, Option.map_bind, Option.bind_map,
    Option.bind_map]
  refine Option.bind_congr fun r _ => ?_
  simp only [Function.comp_def, Consumed.check, Consumed.reached, ofJson?, fromItems, List.length_nil,
    List.drop_zero, Consumed.map, Option.map_map, Option.map_bind]
  refine Option.bind_congr fun given _ => ?_
  split <;> rfl

theorem Agree.enclosed_members (h : fields.Agree) (wanted : String) (depth : Nat)
    (opening : Consumed Unit c) :
    (enclosed closeObject opening (fields.readMembers depth opening.next)).toOption =
      ((enclosed closeObject opening
        (Json.readMembers (Json.addKnown fields.names depth) [] opening.next)).map
          (·.map fun members => .object members.reverse)).toOption.bind
            (Consumed.check (fields.ofJson? wanted)) := by
  rw [enclosed_checked (h.readMembers depth opening.next), toOption_map, Option.bind_map]
  refine Option.bind_congr fun r _ => ?_
  simp only [Function.comp_def, Consumed.check, Consumed.map, ofJson?, toOption_bind]
  rfl

end Fields

/-- A record reads from a text what it makes of the outline of the text. -/
theorem Codec.record_reader {fields : Fields σ τ} (h : fields.Agree) (name : String) (build : σ → α)
    (parts : α → σ) (depth : Nat) (c : Cursor) :
    ((record name fields build parts).reader depth c).toOption =
      (outline fields.names depth c).toOption.bind
        (Consumed.check fun json => ((record name fields build parts).ofJson json).toOption) := by
  obtain ⟨wanted, hvalue⟩ := toOption_record_ofJson name fields build parts
  simp only [hvalue]
  simp only [record]
  have hbuilt {x : Except Stop (Consumed Json c.skipGap)} {x' : Except Stop (Consumed σ c.skipGap)}
      (hx : x'.toOption = x.toOption.bind (Consumed.check (fields.ofJson? wanted))) :
      (x'.map fun values => (values.map build).since c.left_skipGap).toOption =
        (x.map (·.since c.left_skipGap)).toOption.bind
          (Consumed.check fun json => (fields.ofJson? wanted json).map build) := by
    rw [toOption_map, toOption_map, hx, Option.map_bind, Option.bind_map]
    refine Option.bind_congr fun r _ => ?_
    simp only [Function.comp_def, Consumed.check, Option.map_map, Consumed.since, Consumed.map]
  split
  next hrest =>
    rw [outline_array hrest]
    exact hbuilt (deeper_checked fun depth => h.enclosed_items ..)
  next hrest =>
    rw [outline_object hrest]
    exact hbuilt (deeper_checked fun depth => h.enclosed_members ..)
  next harray hobject =>
    rw [toOption_outline_of_not_bracket harray hobject]
    rfl

end DecompilerDesk.Json
