-- SUMMARY: A codec whose values are checked reads what passes, and so do the records that it is a field of.
import DecompilerDesk.Json.Record

/-!
# Checked codecs

One codec is another one with a check if it reads, from every value and every text, what the other reads
and the check lets pass. Which problem is told may differ, since a value can fail its check before the
text around it turns out to be malformed. Records whose fields are checked are checked: while their
members are read, the slots are the unchecked ones with their values checked, and once a value has not
passed, nothing that is read later mends it.
-/

namespace DecompilerDesk.Json

variable {ε α β σ σ' τ τ' : Type} {c : Cursor}

/-! ## Results -/

@[simp] theorem toOption_ok (a : α) : (.ok a : Except ε α).toOption = some a := rfl

@[simp] theorem toOption_error (e : ε) : (.error e : Except ε α).toOption = none := rfl

@[simp] theorem toOption_bind (x : Except ε α) (f : α → Except ε β) :
    (x.bind f).toOption = x.toOption.bind fun a => (f a).toOption := by
  cases x <;> rfl

@[simp] theorem toOption_map (x : Except ε α) (f : α → β) : (x.map f).toOption = x.toOption.map f := by
  cases x <;> rfl

theorem toOption_eq_some {x : Except ε α} {a : α} : x.toOption = some a ↔ x = .ok a := by
  cases x <;> simp

/-- What was read, if its value passes a check. -/
def Passed.check (check : α → Option β) (r : Passed α c) : Option (Passed β c) :=
  (check r.value).map fun value => r.map fun _ => value

/-- What was read, if its value passes a check. -/
def Consumed.check (check : α → Option β) (r : Consumed α c) : Option (Consumed β c) :=
  (check r.value).map fun value => r.map fun _ => value

variable {check : α → Option β}

/-! ## Codecs -/

/-- A codec reads what another one reads and a check lets pass. -/
structure Codec.Checked (checked : Codec β) (codec : Codec α) (check : α → Option β) : Prop where
  ofJson : ∀ json, (checked.ofJson json).toOption = (codec.ofJson json).toOption.bind check
  reader : ∀ depth c,
    (checked.reader depth c).toOption = (codec.reader depth c).toOption.bind (Consumed.check check)

theorem Codec.checked_self (codec : Codec α) : codec.Checked codec some where
  ofJson _ := (Option.bind_fun_some _).symm
  reader _ _ := (Option.bind_fun_some _).symm

theorem Codec.checked_refine (codec : Codec α) (check : α → Except Problem β) (forget : β → α) :
    (codec.refine check forget).Checked codec fun value => (check value).toOption where
  ofJson json := toOption_bind _ _
  reader depth c := by
    simp only [refine, bind, toOption_bind]
    refine Option.bind_congr fun r _ => ?_
    cases h : check r.value <;> simp [h, Consumed.check]

theorem toOption_readDocument (read : Reader α) (text : List Char) :
    (readDocument read text).toOption =
      (read (.start text)).toOption.bind fun r =>
        if r.next.skipGap.rest.isEmpty then some r.value else none := by
  unfold readDocument
  cases read (.start text) with
  | error stop => rfl
  | ok r =>
    simp only [toOption_ok, Option.bind_some]
    split <;> rfl

/-- A reader whose values are checked reads the documents whose values pass. -/
theorem readDocument_checked {checked : Reader β} {read : Reader α}
    (h : ∀ c, (checked c).toOption = (read c).toOption.bind (Consumed.check check)) (text : List Char) :
    (readDocument checked text).toOption = (readDocument read text).toOption.bind check := by
  simp only [toOption_readDocument, h, Option.bind_assoc]
  refine Option.bind_congr fun r _ => ?_
  simp only [Consumed.check, Option.bind_map, Function.comp_def, Consumed.map]
  split
  next => exact Option.bind_fun_some _
  next => exact Option.bind_fun_none _

theorem Codec.Checked.parse {checked : Codec β} {codec : Codec α} (h : checked.Checked codec check)
    (text : String) : (checked.parse text).toOption = (codec.parse text).toOption.bind check :=
  readDocument_checked (h.reader maxDepth) text.toList

/-- Where a value is read, in JSON or in a text, a codec reads what is `made` of it, and nothing else. -/
structure Codec.Makes (codec : Codec β) (other : Codec α) (value : α) (made : β → Prop) : Prop where
  ofJson : ∀ json, other.ofJson json = .ok value → ∀ b, codec.ofJson json = .ok b ↔ made b
  parse : ∀ text, other.parse text = .ok value → ∀ b, codec.parse text = .ok b ↔ made b

theorem Codec.Checked.makes {checked : Codec β} {codec : Codec α} (h : checked.Checked codec check)
    (value : α) : checked.Makes codec value (check value = some ·) where
  ofJson json hjson b := by
    rw [← toOption_eq_some, h.ofJson, hjson]
    rfl
  parse text htext b := by
    rw [← toOption_eq_some, h.parse, htext]
    rfl

/-! ## Members and brackets -/

/-- If one member is read into checked slots as into unchecked ones, so are all of them. -/
theorem readMembersFrom_checked {check : σ → Option σ'} {member : MemberReader σ}
    {member' : MemberReader σ'}
    (hmember : ∀ key state c, (member key state c).toOption.bind (Consumed.check check) =
      (check state).bind fun state => (member' key state c).toOption)
    (origin : Cursor) (first : Bool) (state : σ) (c : Cursor) (within : c.left ≤ origin.left) :
    (readMembersFrom member origin first state c within).toOption.bind (Passed.check check) =
      (check state).bind fun state =>
        (readMembersFrom member' origin first state c within).toOption := by
  -- The text that is left shrinks with every member.
  induction hleft : c.left using Nat.strongRecOn generalizing c first state with
  | ind left ih =>
    subst hleft
    unfold readMembersFrom
    cases readKey first c with
    | error stop => exact (Option.bind_fun_none _).symm
    | ok key =>
      simp only [bind, Except.bind.eq_2]
      cases key.value with
      | none => exact Option.map_eq_bind
      | some name =>
        have hrest (read : Consumed σ key.next) (within : read.next.left ≤ origin.left) :=
          ih read.next.left (Nat.lt_of_lt_of_le read.shorter key.notLonger) false read.value read.next
            within rfl
        simp only [toOption_bind, Option.bind_assoc, hrest]
        rw [← Option.bind_assoc, ← hmember, Option.bind_assoc]
        refine Option.bind_congr fun read _ => ?_
        simp only [Consumed.check, Option.bind_map, Function.comp_def, Consumed.map]

theorem toOption_enclosed (close : (c : Cursor) → Passed (Option Stop) c) (opening : Consumed Unit c)
    (inside : Except Stop (Passed α opening.next)) :
    (enclosed close opening inside).toOption = inside.toOption.bind fun inside =>
      if (close inside.next).value = none then
        some (opening.andThen (((close inside.next).map fun _ => inside.value).since inside.notLonger))
      else none := by
  unfold enclosed
  cases inside with
  | error stop => cases stop <;> rfl
  | ok inside =>
    simp only [toOption_ok, Option.bind_some]
    cases (close inside.next).value <;> simp

theorem enclosed_checked {close : (c : Cursor) → Passed (Option Stop) c} {opening : Consumed Unit c}
    {inside : Except Stop (Passed α opening.next)} {inside' : Except Stop (Passed β opening.next)}
    (h : inside'.toOption = inside.toOption.bind (Passed.check check)) :
    (enclosed close opening inside').toOption =
      (enclosed close opening inside).toOption.bind (Consumed.check check) := by
  rw [toOption_enclosed, toOption_enclosed, h, Option.bind_assoc, Option.bind_assoc]
  refine Option.bind_congr fun r _ => ?_
  simp only [Passed.check, Option.bind_map, Function.comp_def, Passed.map]
  split
  next => exact Option.map_eq_bind.symm
  next => exact Option.bind_fun_none _

theorem deeper_checked {depth : Nat} {inside : Nat → Except Stop (Consumed α c)}
    {inside' : Nat → Except Stop (Consumed β c)}
    (h : ∀ depth, (inside' depth).toOption = (inside depth).toOption.bind (Consumed.check check)) :
    (Codec.deeper depth c inside').toOption =
      (Codec.deeper depth c inside).toOption.bind (Consumed.check check) := by
  cases depth with
  | zero => rfl
  | succ depth => exact h depth

/-! ## Fields -/

structure Field.Checked (checked : Field β) (field : Field α) (check : α → Option β) : Prop where
  name : checked.name = field.name
  codec : checked.codec.Checked field.codec check
  ifNoKey : checked.ifNoKey = field.ifNoKey.bind check
  ifNoItem : checked.ifNoItem = field.ifNoItem.bind check

theorem Field.checked_self (field : Field α) : field.Checked field some where
  name := rfl
  codec := field.codec.checked_self
  ifNoKey := (Option.bind_fun_some _).symm
  ifNoItem := (Option.bind_fun_some _).symm

theorem Field.checked_withDefault (name : String) {checked : Codec β} {codec : Codec α} {value : α}
    {value' : β} (h : checked.Checked codec check) (hvalue : check value = some value') :
    (withDefault name checked value').Checked (withDefault name codec value) check where
  name := rfl
  codec := h
  ifNoKey := hvalue.symm
  ifNoItem := hvalue.symm

/-- Check both parts of a pair. -/
def both (first : α → Option β) (second : σ → Option τ) (pair : α × σ) : Option (β × τ) :=
  (first pair.1).bind fun a => (second pair.2).map fun b => (a, b)

theorem both_eq_some {first : α → Option β} {second : σ → Option τ} {pair : α × σ} {pair' : β × τ} :
    both first second pair = some pair' ↔
      first pair.1 = some pair'.1 ∧ second pair.2 = some pair'.2 := by
  obtain ⟨a, b⟩ := pair'
  simp only [both, Option.bind_eq_some_iff, Option.map_eq_some_iff, Prod.mk.injEq]
  constructor
  · rintro ⟨a, hfirst, b, hsecond, rfl, rfl⟩
    exact ⟨hfirst, hsecond⟩
  · rintro ⟨hfirst, hsecond⟩
    exact ⟨a, hfirst, b, hsecond, rfl, rfl⟩

namespace Fields

/-- Fields are checked one by one; `values` checks what they hold, `slots` what of it was met so far. -/
inductive Checked : {σ' τ' σ τ : Type} → Fields σ' τ' → Fields σ τ → (values : σ → Option σ') →
    (slots : τ → Option τ') → Prop where
  | nil : Checked .nil .nil some some
  | cons {α β σ τ σ' τ' : Type} {field' : Field β} {field : Field α} {check : α → Option β}
      {rest' : Fields σ' τ'} {rest : Fields σ τ} {values : σ → Option σ'} {slots : τ → Option τ'} :
      field'.Checked field check → rest'.Checked rest values slots →
      Checked (.cons field' rest') (.cons field rest) (both check values) (both (·.mapM check) slots)

/-- What a key finds among unchecked slots, next to what it finds among the checked ones that they give,
if they give any. -/
inductive SlotChecked (slots : τ → Option τ') (given : Option τ') (slot' : τ' → Option (Slot τ')) :
    Option (Slot τ) → Prop where
  | none : (∀ state ∈ given, slot' state = none) → SlotChecked slots given slot' none
  | filled {slot : Slot τ} : slot.filled = true →
      (∀ state ∈ given, ∃ slot, slot' state = some slot ∧ slot.filled = true) →
      SlotChecked slots given slot' (some slot)
  | free {α β : Type} {codec : Codec α} {codec' : Codec β} {check : α → Option β} {fill : α → τ}
      (fill' : τ' → β → τ') :
      codec'.Checked codec check →
      (∀ state ∈ given, slot' state = some ⟨codec', false, fill' state⟩) →
      (∀ new, slots (fill new) = given.bind fun state => (check new).map (fill' state)) →
      SlotChecked slots given slot' (some ⟨codec, false, fill⟩)

variable {fields' : Fields σ' τ'} {fields : Fields σ τ} {values : σ → Option σ'} {slots : τ → Option τ'}

theorem Checked.empty (h : fields'.Checked fields values slots) :
    slots fields.empty = some fields'.empty := by
  induction h with
  | nil => rfl
  | cons _ _ ih => exact both_eq_some.mpr ⟨rfl, ih⟩

theorem Checked.slot? (h : fields'.Checked fields values slots) (state : τ) (key : String) :
    SlotChecked slots (slots state) (fields'.slot? · key) (fields.slot? state key) := by
  induction h with
  | nil => exact .none fun _ _ => rfl
  | @cons α β σ τ σ' τ' field' field check rest' rest values slots hfield _ ih =>
    obtain ⟨value, state⟩ := state
    simp only [Fields.slot?, hfield.name]
    by_cases hkey : key = field.name
    · simp only [if_pos hkey]
      cases value with
      | none =>
        refine .free (fun given new => (some new, given.2)) hfield.codec ?_ ?_
        · intro given hgiven
          obtain ⟨hvalue, -⟩ := both_eq_some.mp hgiven
          simp only [← Option.some.inj hvalue, Option.isSome_none]
        · intro new
          simp only [both, Option.mapM_some, Option.mapM_none]
          cases check new <;> cases slots state <;> rfl
      | some value =>
        refine .filled rfl fun given hgiven => ⟨_, rfl, ?_⟩
        obtain ⟨hvalue, -⟩ := both_eq_some.mp hgiven
        obtain ⟨new, -, hnew⟩ := Option.map_eq_some_iff.mp hvalue
        simp only [← hnew, Option.isSome_some]
    · simp only [if_neg hkey]
      have hrest : ∀ given ∈ both (·.mapM check) slots (value, state), given.2 ∈ slots state :=
        fun given hgiven => (both_eq_some.mp hgiven).2
      specialize ih state
      generalize rest.slot? state key = slot at ih
      cases ih with
      | none hnone =>
        exact .none fun given hgiven => by rw [hnone _ (hrest given hgiven), Option.map_none]
      | filled hfilled hfilled' =>
        refine .filled hfilled fun given hgiven => ?_
        obtain ⟨slot', hslot', hfilled'⟩ := hfilled' _ (hrest given hgiven)
        exact ⟨_, by rw [hslot', Option.map_some], hfilled'⟩
      | @free _ _ _ _ _ _ fill' hcodec hslot' hfill =>
        refine .free (fun given new => (given.1, fill' given.2 new)) hcodec ?_ ?_
        · intro given hgiven
          rw [hslot' _ (hrest given hgiven), Option.map_some]
        · intro new
          simp only [both, hfill]
          cases slots state <;> cases value.mapM check <;> simp [Function.comp_def]

theorem toOption_complete (field : Field α) (rest : Fields σ τ) (value : Option α) (state : τ) :
    ((cons field rest).complete (value, state)).toOption =
      (value <|> field.ifNoKey).bind fun value =>
        (rest.complete state).toOption.map fun values => (value, values) := by
  simp only [complete]
  cases value <|> field.ifNoKey <;> simp

theorem Checked.complete (h : fields'.Checked fields values slots) (state : τ) :
    (fields.complete state).toOption.bind values =
      (slots state).bind fun state => (fields'.complete state).toOption := by
  induction h with
  | nil => rfl
  | @cons α β σ τ σ' τ' field' field check rest' rest values slots hfield _ ih =>
    obtain ⟨value, state⟩ := state
    have hvalue : (value <|> field.ifNoKey).bind check =
        (value.mapM check).bind fun value => value <|> field'.ifNoKey := by
      rw [hfield.ifNoKey]
      cases value with
      | none => rfl
      | some value => cases h : check value <;> simp [h]
    calc ((Fields.cons field rest).complete (value, state)).toOption.bind (both check values)
      _ = ((value <|> field.ifNoKey).bind check).bind fun value =>
            ((rest.complete state).toOption.bind values).map fun values => (value, values) := by
        rw [toOption_complete, Option.bind_assoc, Option.bind_assoc]
        refine Option.bind_congr fun value _ => ?_
        simp only [Option.bind_map, Function.comp_def, both, Option.map_bind]
        rw [Option.bind_comm]
      _ = (value.mapM check).bind fun value => (slots state).bind fun state =>
            ((Fields.cons field' rest').complete (value, state)).toOption := by
        rw [hvalue, ih, Option.bind_assoc]
        refine Option.bind_congr fun value _ => ?_
        simp only [Option.map_bind, Function.comp_def, toOption_complete]
        rw [Option.bind_comm]
      _ = _ := by simp only [both, Option.bind_assoc, Option.bind_map, Function.comp_def]

/-! ### From values -/

theorem Checked.fillFromMembers (h : fields'.Checked fields values slots) (state : τ)
    (members : List (String × Json)) :
    (fields.fillFromMembers state members).toOption.bind slots =
      (slots state).bind fun state => (fields'.fillFromMembers state members).toOption := by
  induction members generalizing state with
  | nil => simp [Fields.fillFromMembers]
  | cons member members ih =>
    obtain ⟨key, json⟩ := member
    simp only [Fields.fillFromMembers]
    have hslot := h.slot? state key
    generalize fields.slot? state key = slot at hslot
    cases hslot with
    | none hnone =>
      rw [ih]
      exact Option.bind_congr fun given hgiven => by rw [hnone given hgiven]
    | filled hfilled hfilled' =>
      simp only [if_pos hfilled]
      refine (Option.bind_eq_none_iff.mpr fun given hgiven => ?_).symm
      obtain ⟨slot', hslot', hfilled'⟩ := hfilled' given hgiven
      simp only [hslot', hfilled', if_true, toOption_error]
    | free _ hcodec hslot' hfill =>
      simp only [Bool.false_eq_true, if_false, toOption_bind, Option.bind_assoc, ih, hfill,
        Option.bind_map, Function.comp_def]
      rw [Option.bind_comm]
      refine Option.bind_congr fun given hgiven => ?_
      simp only [hslot' given hgiven, Bool.false_eq_true, if_false, toOption_bind, hcodec.ofJson,
        Option.bind_assoc]

theorem Checked.ofItems (h : fields'.Checked fields values slots) (wanted wanted' : String) (index : Nat)
    (items : List Json) :
    (fields'.ofItems wanted' index items).toOption =
      (fields.ofItems wanted index items).toOption.bind fun given =>
        (values given.1).map fun values => (values, given.2) := by
  induction h generalizing index items with
  | nil => rfl
  | @cons α β σ τ σ' τ' field' field check rest' rest values slots hfield _ ih =>
    cases items with
    | nil =>
      simp only [Fields.ofItems, hfield.ifNoItem]
      cases field.ifNoItem with
      | none => rfl
      | some value =>
        simp only [Option.bind_some, bind, toOption_bind, Option.bind_assoc, toOption_ok, both]
        cases check value with
        | none => exact (Option.bind_fun_none _).symm
        | some value =>
          simp only [toOption_bind, ih, Option.bind_assoc, toOption_ok, Option.bind_some,
            Option.map_eq_bind, Function.comp_def]
    | cons item items =>
      simp only [Fields.ofItems, bind, toOption_bind, hfield.codec.ofJson, ih, Option.bind_assoc,
        toOption_ok]
      refine Option.bind_congr fun value _ => ?_
      rw [Option.bind_comm]
      refine Option.bind_congr fun given _ => ?_
      simp only [Option.bind_some, both, Option.map_eq_bind, Function.comp_def, Option.bind_assoc]

/-! ### From texts -/

theorem Checked.readMember (h : fields'.Checked fields values slots) (depth : Nat) (key : String)
    (state : τ) (c : Cursor) :
    (fields.readMember depth key state c).toOption.bind (Consumed.check slots) =
      (slots state).bind fun state => (fields'.readMember depth key state c).toOption := by
  simp only [Fields.readMember]
  have hslot := h.slot? state key
  generalize fields.slot? state key = slot at hslot
  cases hslot with
  | none hnone =>
    calc _
      _ = (slots state).bind fun state => (readColon c).toOption.bind fun colon =>
            (skipValue colon.next).toOption.bind fun skipped =>
              some (colon.andThen (skipped.map fun _ => state).passed) := by
        simp only [bind, toOption_bind, Option.bind_assoc, toOption_ok, Option.bind_some]
        rw [Option.bind_comm]
        refine Option.bind_congr fun colon _ => ?_
        rw [Option.bind_comm]
        exact Option.bind_congr fun skipped _ => Option.map_eq_bind
      _ = _ := by
        refine Option.bind_congr fun given hgiven => ?_
        simp only [hnone given hgiven, bind, toOption_bind, toOption_ok]
  | filled hfilled hfilled' =>
    simp only [if_pos hfilled]
    refine (Option.bind_eq_none_iff.mpr fun given hgiven => ?_).symm
    obtain ⟨slot', hslot', hfilled'⟩ := hfilled' given hgiven
    simp only [hslot', hfilled', if_true, toOption_error]
  | @free α β codec codec' check fill fill' hcodec hslot' hfill =>
    have hchecked (colon : Consumed Unit c) (value : Consumed α colon.next) :
        Consumed.check slots (colon.andThen (value.map fill).passed) =
          (slots (fill value.value)).map fun state =>
            colon.andThen (value.map fun _ => state).passed := rfl
    calc _
      _ = (slots state).bind fun state => (readColon c).toOption.bind fun colon =>
            (codec'.reader depth colon.next).toOption.bind fun value =>
              some (colon.andThen (value.map (fill' state)).passed) := by
        simp only [Bool.false_eq_true, if_false, bind, toOption_bind, Option.bind_assoc, toOption_ok,
          Option.bind_some]
        rw [Option.bind_comm]
        refine Option.bind_congr fun colon _ => ?_
        simp only [hcodec.reader, Option.bind_assoc]
        rw [Option.bind_comm]
        refine Option.bind_congr fun value _ => ?_
        rw [hchecked, hfill, Option.map_bind]
        refine Option.bind_congr fun given _ => ?_
        simp only [Function.comp_def, Consumed.check, Option.bind_map, Option.map_map]
        exact Option.map_eq_bind
      _ = _ := by
        refine Option.bind_congr fun given hgiven => ?_
        simp only [hslot' given hgiven, Bool.false_eq_true, if_false, bind, toOption_bind, toOption_ok]

theorem toOption_readMembers (fields : Fields σ τ) (depth : Nat) (c : Cursor) :
    (fields.readMembers depth c).toOption =
      (Json.readMembers (fields.readMember depth) fields.empty c).toOption.bind fun slots =>
        (fields.complete slots.value).toOption.map fun values => slots.map fun _ => values := by
  simp only [readMembers, bind, toOption_bind]
  refine Option.bind_congr fun slots _ => ?_
  cases fields.complete slots.value <;> rfl

theorem Checked.readMembers (h : fields'.Checked fields values slots) (depth : Nat) (c : Cursor) :
    (fields'.readMembers depth c).toOption =
      (fields.readMembers depth c).toOption.bind (Passed.check values) := by
  have hmembers := readMembersFrom_checked (h.readMember depth) c true fields.empty c c.left_le
  rw [h.empty, Option.bind_some] at hmembers
  rw [toOption_readMembers, toOption_readMembers, Json.readMembers, Json.readMembers, ← hmembers,
    Option.bind_assoc, Option.bind_assoc]
  refine Option.bind_congr fun r _ => ?_
  have hcomplete := congrArg (Option.map fun values => r.map fun _ => values) (h.complete r.value)
  simp only [Option.map_bind, Function.comp_def] at hcomplete
  simp only [Passed.check, Option.bind_map, Function.comp_def]
  exact hcomplete.symm

theorem Checked.readItems (h : fields'.Checked fields values slots) (wanted wanted' : String)
    (depth index : Nat) (c : Cursor) :
    (fields'.readItems wanted' depth index c).toOption =
      (fields.readItems wanted depth index c).toOption.bind (Passed.check values) := by
  induction h generalizing index c with
  | nil => rfl
  | @cons α β σ τ σ' τ' field' field check rest' rest values slots hfield _ ih =>
    -- What follows the value of this field, wherever that value came from.
    have hthen (value : Passed α c) :
        ((check value.value).bind fun checked =>
          (rest'.readItems wanted' depth (index + 1) value.next).toOption.bind fun values =>
            some ((values.map fun values => (checked, values)).since value.notLonger)) =
        ((rest.readItems wanted depth (index + 1) value.next).toOption.bind fun given =>
          Passed.check (both check values)
            ((given.map fun given => (value.value, given)).since value.notLonger)) := by
      simp only [ih, Option.bind_assoc]
      rw [Option.bind_comm]
      refine Option.bind_congr fun given _ => ?_
      simp only [Passed.check, both, Passed.since, Passed.map, Function.comp_def, Option.map_eq_bind,
        Option.bind_assoc, Option.bind_some]
    simp only [Fields.readItems, bind, toOption_bind, Option.bind_assoc]
    refine Option.bind_congr fun more _ => ?_
    by_cases hmore : more.value
    · simp only [if_pos hmore, toOption_bind, toOption_map, hfield.codec.reader, Option.bind_assoc,
        Option.bind_map, toOption_ok, Option.bind_some, Function.comp_def, Consumed.check]
      exact Option.bind_congr fun value _ => hthen (value.passed.since more.notLonger)
    · simp only [if_neg hmore, hfield.ifNoItem]
      cases field.ifNoItem with
      | none => rfl
      | some value =>
        simp only [Option.bind_some, toOption_bind, toOption_ok, Option.bind_assoc]
        rw [← hthen (more.map fun _ => value)]
        show _ = (check value).bind _
        cases check value with
        | none => rfl
        | some value =>
          simp only [toOption_bind, toOption_ok, Option.bind_some]
          rfl

end Fields

/-! ## Records -/

/-- What the fields make of a value, without their messages. -/
def Fields.ofJson? (fields : Fields σ τ) (wanted : String) : Json → Option σ
  | .object members => ((fields.fillFromMembers fields.empty members).bind fields.complete).toOption
  | .array items =>
    (fields.ofItems wanted 0 items).toOption.bind fun given =>
      if given.2 = [] then some given.1 else none
  | _ => none

theorem Codec.toOption_record_ofJson (name : String) (fields : Fields σ τ) (build : σ → α)
    (parts : α → σ) :
    ∃ wanted, ∀ json, ((record name fields build parts).ofJson json).toOption =
      (fields.ofJson? wanted json).map build := by
  refine ⟨"struct " ++ name ++ " with " ++ toString fields.count
    ++ (if fields.count = 1 then " element" else " elements"), fun json => ?_⟩
  cases json with
  | object members => exact toOption_map _ _
  | array items =>
    simp only [record, bind, toOption_bind, Fields.ofJson?, Option.map_bind]
    refine Option.bind_congr fun given _ => ?_
    obtain ⟨given, left⟩ := given
    cases left <;> simp
  | _ => rfl

theorem Fields.Checked.ofJson? {fields' : Fields σ' τ'} {fields : Fields σ τ} {values : σ → Option σ'}
    {slots : τ → Option τ'} (h : fields'.Checked fields values slots) (wanted wanted' : String)
    (json : Json) : fields'.ofJson? wanted' json = (fields.ofJson? wanted json).bind values := by
  cases json with
  | object members =>
    have hfill := h.fillFromMembers fields.empty members
    rw [h.empty, Option.bind_some] at hfill
    simp only [Fields.ofJson?, toOption_bind]
    rw [← hfill, Option.bind_assoc, Option.bind_assoc]
    exact Option.bind_congr fun state _ => (h.complete state).symm
  | array items =>
    rw [Fields.ofJson?, Fields.ofJson?, h.ofItems wanted, Option.bind_assoc, Option.bind_assoc]
    refine Option.bind_congr fun given _ => ?_
    simp only [Option.bind_map, Function.comp_def]
    split
    next => exact Option.bind_fun_some _
    next => exact Option.bind_fun_none _
  | _ => rfl

/-- A record of checked fields is checked by a check that looks at what the fields hold. -/
theorem Codec.checked_record {fields' : Fields σ' τ'} {fields : Fields σ τ} {values : σ → Option σ'}
    {slots : τ → Option τ'} (h : fields'.Checked fields values slots) (name name' : String)
    {build : σ → α} {build' : σ' → β} {parts : α → σ} {parts' : β → σ'}
    (hbuild : ∀ given, check (build given) = (values given).map build') :
    (record name' fields' build' parts').Checked (record name fields build parts) check where
  ofJson json := by
    obtain ⟨wanted, hvalue⟩ := toOption_record_ofJson name fields build parts
    obtain ⟨wanted', hvalue'⟩ := toOption_record_ofJson name' fields' build' parts'
    rw [hvalue, hvalue', h.ofJson? wanted, Option.map_bind, Option.bind_map]
    exact Option.bind_congr fun given _ => (hbuild given).symm
  reader depth c := by
    have hbuilt {x : Except Stop (Consumed σ c.skipGap)} {x' : Except Stop (Consumed σ' c.skipGap)}
        (hx : x'.toOption = x.toOption.bind (Consumed.check values)) :
        (x'.map fun values => (values.map build').since c.left_skipGap).toOption =
          (x.map fun values => (values.map build).since c.left_skipGap).toOption.bind
            (Consumed.check check) := by
      rw [toOption_map, toOption_map, hx, Option.map_bind, Option.bind_map]
      refine Option.bind_congr fun r _ => ?_
      simp only [Function.comp_def, Consumed.check, Option.map_map, Consumed.since, Consumed.map, hbuild]
    simp only [record]
    split
    · exact hbuilt (deeper_checked fun depth => enclosed_checked (h.readItems ..))
    · exact hbuilt (deeper_checked fun depth => enclosed_checked (h.readMembers ..))
    · rfl

end DecompilerDesk.Json
