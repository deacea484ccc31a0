-- SUMMARY: Records are read back whatever the order of their members, with defaults for those left out.
import DecompilerDesk.Proofs.Json.Lawful
import DecompilerDesk.Proofs.Json.Skipping
import Mathlib.Data.List.Nodup

/-!
# Records

While the members of an object are read, the slots of a record hold the values of the fields whose
keys have been met, and nothing else. So the order of the members does not matter, and once all have
been met each field has its value or its default. Members with other keys may stand among them: they
are skipped.
-/

namespace DecompilerDesk.Json

variable {α σ τ : Type} {fields : Fields σ τ} {values : σ} {depth : Nat}
  {members : List (String × Json)} {keys : List String} {key : String} {text tail : List Char}
  {pairs : List (String × Pair)} {c : Cursor}

namespace Fields

/-! ## Slots -/

/-- Each field is related to its value. -/
def All {σ τ : Type} (related : (α : Type) → Field α → α → Prop) : Fields σ τ → σ → Prop
  | .nil, _ => True
  | .cons field rest, (value, values) => related _ field value ∧ rest.All related values

theorem All.imp {related other : (α : Type) → Field α → α → Prop} (h : fields.All related values)
    (himp : ∀ {α : Type} {field : Field α} {value : α}, field.name ∈ fields.names →
      related α field value → other α field value) : fields.All other values := by
  induction fields with
  | nil => trivial
  | cons field rest ih =>
    exact ⟨himp List.mem_cons_self h.1, ih h.2 fun hname => himp (List.mem_cons_of_mem _ hname)⟩

/-- The slots of a record once some keys have been met. -/
def filled {σ τ : Type} : Fields σ τ → σ → (keys : List String) → τ
  | .nil, _, _ => ()
  | .cons field rest, (value, values), keys =>
    (if field.name ∈ keys then some value else none, rest.filled values keys)

theorem slot?_eq_none_iff {slots : τ} : fields.slot? slots key = none ↔ key ∉ fields.names := by
  induction fields with
  | nil => simp [slot?, names]
  | cons field rest ih =>
    obtain ⟨value, slots⟩ := slots
    simp only [slot?, names, List.mem_cons, not_or]
    split
    next hkey => simp [hkey]
    next hkey => simp [hkey, ih]

theorem filled_nil (fields : Fields σ τ) (values : σ) : fields.filled values [] = fields.empty := by
  induction fields with
  | nil => rfl
  | cons field rest ih => simp [filled, empty, ih]

/-- A key that is no field's fills no slot. -/
theorem filled_cons_of_not_mem (h : key ∉ fields.names) (values : σ)
    (keys : List String) : fields.filled values (key :: keys) = fields.filled values keys := by
  induction fields with
  | nil => rfl
  | cons field rest ih =>
    simp only [names, List.mem_cons, not_or] at h
    simp [filled, ih h.2, Ne.symm h.1]

/-- The slot of a field's key takes the field's value. -/
theorem slot?_filled {related : (α : Type) → Field α → α → Prop} (h : fields.All related values)
    (hnames : fields.names.Nodup) (hkey : key ∈ fields.names) (keys : List String) :
    ∃ slot, fields.slot? (fields.filled values keys) key = some slot ∧
      slot.filled = decide (key ∈ keys) ∧
      ∃ field value, field.name = key ∧ field.codec = slot.codec ∧ related slot.α field value ∧
        slot.fill value = fields.filled values (key :: keys) := by
  induction fields with
  | nil => simp [names] at hkey
  | cons field rest ih =>
    obtain ⟨value, values⟩ := values
    obtain ⟨hfield, hrest⟩ := h
    simp only [names, List.nodup_cons] at hnames
    by_cases hsame : key = field.name
    · subst hsame
      refine ⟨_, by rw [filled, slot?, if_pos rfl], by split <;> simp_all, field, value, rfl, rfl, hfield,
        ?_⟩
      rw [filled, filled_cons_of_not_mem hnames.1, if_pos List.mem_cons_self]
    · have hkey : key ∈ rest.names := (List.mem_cons.mp hkey).resolve_left hsame
      obtain ⟨slot, hslot, hfilled, other, taken, hname, hcodec, hother, hfill⟩ := ih hrest hnames.2 hkey
      simp only [filled, slot?, if_neg hsame, hslot, Option.map_some]
      refine ⟨_, rfl, hfilled, other, taken, hname, hcodec, hother, ?_⟩
      simp [hfill, Ne.symm hsame]

/-- Once the keys of all fields without defaults have been met, every field has its value. -/
theorem complete_filled (h : fields.All (fun _ field value =>
      field.name ∈ keys ∨ field.ifNoKey = some value) values) :
    fields.complete (fields.filled values keys) = .ok values := by
  induction fields with
  | nil => rfl
  | cons field rest ih =>
    obtain ⟨value, values⟩ := values
    obtain ⟨hfield, hrest⟩ := h
    have hvalue : ((if field.name ∈ keys then some value else none) <|> field.ifNoKey) = some value := by
      obtain hmet | hdefault := hfield
      · simp [hmet]
      · rw [hdefault]
        split <;> rfl
    rw [filled, complete, hvalue]
    simp only [ih hrest]
    rfl

theorem not_met_cons {part : List (String × α)} (hkey : key ∉ part.map (·.1))
    (hnew : ∀ member ∈ part, member.1 ∉ keys) : ∀ member ∈ part, member.1 ∉ key :: keys := by
  intro other hother hmet
  rcases List.mem_cons.mp hmet with hsame | hold
  · exact hkey (List.mem_map.mpr ⟨other, hother, hsame⟩)
  · exact hnew other hother hold

/-! ## Members in a text -/

/-- Each field's value is read from what is written under its name, or is the default if nothing is. -/
def Declared (depth : Nat) (pairs : List (String × Pair)) : Fields σ τ → σ → Prop :=
  All fun _ field value =>
    (∃ written, (field.name, written) ∈ pairs ∧ Reads (field.codec.reader depth) written.value value) ∨
      field.name ∉ pairs.map (·.1) ∧ field.ifNoKey = some value

/-- Members that declare the values of the fields: each field's name occurs at most once as a key, and
under other keys stands whatever has the form of a value. -/
structure Legible {σ τ : Type} (fields : Fields σ τ) (depth : Nat) (pairs : List (String × Pair))
    (values : σ) : Prop where
  names : fields.names.Nodup
  keyed : ∀ pair ∈ pairs, Keyed pair
  solid : ∀ pair ∈ pairs, Solid pair.2.value
  others : ∀ pair ∈ pairs, pair.1 ∉ fields.names → Form pair.2.value
  once : ((pairs.filter (·.1 ∈ fields.names)).map (·.1)).Nodup
  declares : fields.Declared depth pairs values

theorem Legible.unique (h : fields.Legible depth pairs values) {written other : Pair}
    (hkey : key ∈ fields.names) (hwritten : (key, written) ∈ pairs) (hother : (key, other) ∈ pairs) :
    other = written := by
  have hknown {pair : Pair} (hpair : (key, pair) ∈ pairs) :
      (key, pair) ∈ pairs.filter (·.1 ∈ fields.names) :=
    List.mem_filter.mpr ⟨hpair, decide_eq_true hkey⟩
  exact (Prod.mk.inj (List.inj_on_of_nodup_map h.once (hknown hother) (hknown hwritten) rfl)).2

/-- The slot of a member's key takes what is written under it. -/
theorem Legible.slot? (h : fields.Legible depth pairs values) {written : Pair}
    (hpair : (key, written) ∈ pairs) (hkey : key ∈ fields.names) (keys : List String) :
    ∃ slot, fields.slot? (fields.filled values keys) key = some slot ∧
      slot.filled = decide (key ∈ keys) ∧
      ∃ value, Reads (slot.codec.reader depth) written.value value ∧
        slot.fill value = fields.filled values (key :: keys) := by
  obtain ⟨slot, hslot, hfilled, field, value, rfl, hcodec, hfield, hfill⟩ :=
    slot?_filled h.declares h.names hkey keys
  refine ⟨slot, hslot, hfilled, value, ?_, hfill⟩
  obtain ⟨other, hother, hreads⟩ | ⟨hnone, -⟩ := hfield
  · rwa [h.unique hkey hpair hother, hcodec] at hreads
  · exact absurd (List.mem_map_of_mem hpair) hnone

/-- A member with a known key is read into its slot, and one with another key is skipped. -/
theorem Legible.readsPair (h : fields.Legible depth pairs values) {pair : String × Pair}
    (hpair : pair ∈ pairs) (hnew : pair.1 ∈ fields.names → pair.1 ∉ keys) :
    ReadsPair (fields.readMember depth) pair (fields.filled values keys)
      (fields.filled values (pair.1 :: keys)) := by
  intro c tail hrest hclosed
  have hspaced := (h.keyed pair hpair).spaced
  obtain ⟨colon, hcolon, -, hnext⟩ := hspaced.readColon_takes hrest
  by_cases hkey : pair.1 ∈ fields.names
  · obtain ⟨slot, hslot, hfilled, value, hreads, hfill⟩ := h.slot? hpair hkey keys
    have hfree : slot.filled = false := by
      rw [hfilled]
      exact decide_eq_false (hnew hkey)
    obtain ⟨r, hread, rfl, hbehind⟩ :=
      hreads.takes (h.solid pair hpair) hspaced.afterColon hnext hclosed
    simp only [readMember, hslot, hfree, hcolon, hread, bind, Except.bind]
    exact ⟨_, rfl, hfill, hbehind⟩
  · obtain ⟨r, hread, -, hbehind⟩ :=
      (h.others pair hpair hkey).skipValue_takes hspaced.afterColon hclosed hnext
    rw [filled_cons_of_not_mem hkey]
    simp only [readMember, slot?_eq_none_iff.mpr hkey, hcolon, hread, bind, Except.bind]
    exact ⟨_, rfl, rfl, hbehind⟩

/-- The members are read one after the other, and the slots hold the values of those met. -/
theorem Legible.readsPairs (h : fields.Legible depth pairs values) {part : List (String × Pair)}
    (hpart : ∀ pair ∈ part, pair ∈ pairs)
    (honce : ((part.filter (·.1 ∈ fields.names)).map (·.1)).Nodup)
    (hnew : ∀ pair ∈ part, pair.1 ∈ fields.names → pair.1 ∉ keys) :
    ReadsPairs (fields.readMember depth) part (fields.filled values keys)
      (fields.filled values ((part.map (·.1)).reverse ++ keys)) := by
  -- The invariant: the slots hold the values of the fields whose keys were met, `keys`, and no others.
  induction part generalizing keys with
  | nil => exact .nil _
  | cons pair part ih =>
    obtain ⟨hpair, hpart⟩ := List.forall_mem_cons.mp hpart
    obtain ⟨hfirst, hnew⟩ := List.forall_mem_cons.mp hnew
    rw [List.map_cons, List.reverse_cons, List.append_assoc, List.singleton_append]
    refine .cons (h.readsPair hpair hfirst) (ih hpart ?_ fun other hother hknown hmet => ?_)
    · exact honce.sublist (((List.sublist_cons_self pair part).filter _).map _)
    · rcases List.mem_cons.mp hmet with hsame | hold
      · have hmem : other ∈ part.filter (·.1 ∈ fields.names) :=
          List.mem_filter.mpr ⟨hother, decide_eq_true hknown⟩
        have hboth : pair.1 ∈ fields.names := hsame ▸ hknown
        simp only [List.filter_cons, hboth, decide_true, if_true, List.map_cons,
          List.nodup_cons] at honce
        exact honce.1 (hsame ▸ List.mem_map_of_mem hmem)
      · exact hnew other hother hknown hold

/-- Behind the opening bracket of an object, its members give the values of the fields. -/
theorem Legible.readMembers_passes (h : fields.Legible depth pairs values)
    (hencloses : Encloses .curly (pairs.map (·.2.chars)) text) (hrest : '\x7b' :: c.rest = text ++ tail) :
    Passes (fields.readMembers depth c) values ('\x7d' :: tail) := by
  have hall : ReadsPairs (fields.readMember depth) pairs fields.empty
      (fields.filled values (pairs.map (·.1)).reverse) := by
    rw [← fields.filled_nil values, ← List.append_nil (pairs.map (·.1)).reverse]
    exact h.readsPairs (fun pair hpair => hpair) h.once (by simp)
  have hcomplete : fields.complete (fields.filled values (pairs.map (·.1)).reverse) = .ok values := by
    refine complete_filled (h.declares.imp fun _ hfield => ?_)
    obtain ⟨written, hwritten, -⟩ | ⟨-, hdefault⟩ := hfield
    · exact .inl (List.mem_reverse.mpr (List.mem_map_of_mem hwritten))
    · exact .inr hdefault
  obtain ⟨slots, hread, hvalue, hnext⟩ := hall.readMembers_passes h.keyed hencloses hrest
  simp only [readMembers, hread, bind, Except.bind, hvalue, hcomplete]
  exact ⟨_, rfl, rfl, hnext⟩

/-! ## Members -/

/-- Each field's value is that of its member, or the default if it has no member. -/
def Given {σ τ : Type} (depth : Nat) (members : List (String × Json)) : Fields σ τ → σ → Prop
  | .nil, _ => True
  | .cons field rest, (value, values) =>
    ((∃ json, (field.name, json) ∈ members ∧ field.codec.Accepts depth json value) ∨
        field.name ∉ members.map (·.1) ∧ field.ifNoKey = some value) ∧
      rest.Given depth members values

theorem Given.all (h : fields.Given depth members values) :
    fields.All (fun _ field value =>
      (∃ json, (field.name, json) ∈ members ∧ field.codec.Accepts depth json value) ∨
        field.name ∉ members.map (·.1) ∧ field.ifNoKey = some value) values := by
  induction fields with
  | nil => trivial
  | cons field rest ih => exact ⟨h.1, ih h.2⟩

/-- Members with distinct and known keys that give the values of the fields. -/
structure Fits {σ τ : Type} (fields : Fields σ τ) (depth : Nat) (members : List (String × Json))
    (values : σ) : Prop where
  names : fields.names.Nodup
  keys : (members.map (·.1)).Nodup
  known : ∀ key ∈ members.map (·.1), key ∈ fields.names
  given : fields.Given depth members values

/-- The slot of a member's key takes its value. -/
theorem Fits.slot? (h : fields.Fits depth members values) {json : Json} (hmem : (key, json) ∈ members)
    (keys : List String) :
    ∃ slot, fields.slot? (fields.filled values keys) key = some slot ∧
      slot.filled = decide (key ∈ keys) ∧
      ∃ value, slot.codec.Accepts depth json value ∧
        slot.fill value = fields.filled values (key :: keys) := by
  obtain ⟨slot, hslot, hfilled, field, value, rfl, hcodec, hfield, hfill⟩ :=
    slot?_filled h.given.all h.names (h.known key (List.mem_map_of_mem hmem)) keys
  refine ⟨slot, hslot, hfilled, value, ?_, hfill⟩
  obtain ⟨other, hother, haccepts⟩ | ⟨hnone, -⟩ := hfield
  · obtain ⟨-, rfl⟩ := Prod.mk.inj (List.inj_on_of_nodup_map h.keys hmem hother rfl)
    rwa [hcodec] at haccepts
  · exact absurd (List.mem_map_of_mem hmem) hnone

/-- The members of an object are read into the slots of their fields, from their sorted values. -/
theorem Fits.fillFromMembers_filled (h : fields.Fits depth members values)
    {part : List (String × Json)}
    (hpart : ∀ member ∈ part, ∃ json, (member.1, json) ∈ members ∧ member.2 = json.sorted)
    (hnodup : (part.map (·.1)).Nodup) (hnew : ∀ member ∈ part, member.1 ∉ keys) :
    fields.fillFromMembers (fields.filled values keys) part =
      .ok (fields.filled values ((part.map (·.1)).reverse ++ keys)) := by
  induction part generalizing keys with
  | nil => rfl
  | cons member part ih =>
    obtain ⟨key, sorted⟩ := member
    obtain ⟨⟨json, hmem, rfl⟩, hothers⟩ := List.forall_mem_cons.mp hpart
    obtain ⟨hfirst, hnew⟩ := List.forall_mem_cons.mp hnew
    obtain ⟨slot, hslot, hfilled, value, haccepts, hfill⟩ := h.slot? hmem keys
    rw [List.map_cons, List.nodup_cons] at hnodup
    have hfree : slot.filled = false := by
      rw [hfilled]
      exact decide_eq_false hfirst
    simp only [fillFromMembers, hslot, hfree, haccepts.ofJson]
    simp only [Bool.false_eq_true, if_false, Except.bind, hfill, List.map_cons, List.reverse_cons,
      List.append_assoc, List.singleton_append]
    exact ih hothers hnodup.2 (not_met_cons hnodup.1 hnew)

/-- The members of a sorted object give the values of the fields. -/
theorem Fits.complete_sorted (h : fields.Fits depth members values) :
    (fields.fillFromMembers fields.empty (sortMembers (sortedValues members))).bind fields.complete =
      .ok values := by
  have hsame : ((sortedValues members).map (·.1)) = members.map (·.1) := by
    simp [sortedValues_eq_map]
  have hperm := sortMembers_perm (hsame ▸ h.keys)
  generalize sortMembers (sortedValues members) = part at hperm
  have hpart : ∀ member ∈ part, ∃ json, (member.1, json) ∈ members ∧ member.2 = json.sorted := by
    intro member hmem
    rw [hperm.mem_iff, sortedValues_eq_map] at hmem
    obtain ⟨written, hwritten, rfl⟩ := List.mem_map.mp hmem
    exact ⟨written.2, hwritten, rfl⟩
  have hnodup : (part.map (·.1)).Nodup := (hperm.map _).nodup_iff.mpr (hsame ▸ h.keys)
  have hfill : fields.fillFromMembers fields.empty part =
      .ok (fields.filled values (part.map (·.1)).reverse) := by
    rw [← fields.filled_nil values, ← List.append_nil (part.map (·.1)).reverse]
    exact h.fillFromMembers_filled hpart hnodup (by simp)
  rw [hfill]
  refine complete_filled (h.given.all.imp fun _ hfield => ?_)
  obtain ⟨json, hmem, -⟩ | ⟨-, hdefault⟩ := hfield
  · left
    rw [List.mem_reverse, (hperm.map _).mem_iff, hsame]
    exact List.mem_map_of_mem hmem
  · exact .inr hdefault

/-- As they are written, the members of an object declare the values that they give. -/
theorem Fits.legible (h : fields.Fits depth members values) {style : Style} (hstyle : style.Blank)
    (k : Nat) :
    fields.Legible depth (members.map fun member => (member.1, Pair.written style k member)) values where
  names := h.names
  keyed := List.forall_mem_map.mpr fun member _ => keyed_written hstyle k member
  solid := List.forall_mem_map.mpr fun member _ => solid_write style k member.2
  others := List.forall_mem_map.mpr fun member hmem hname =>
    absurd (h.known member.1 (List.mem_map_of_mem hmem)) hname
  once := by
    refine List.Nodup.sublist (List.filter_sublist.map _) ?_
    rw [List.map_map]
    exact h.keys
  declares := by
    refine h.given.all.imp fun _ hfield => ?_
    obtain ⟨json, hmem, haccepts⟩ | ⟨hnone, hdefault⟩ := hfield
    · exact .inl ⟨_, List.mem_map_of_mem hmem, haccepts.reads style hstyle k⟩
    · refine .inr ⟨?_, hdefault⟩
      rw [List.map_map]
      exact hnone

/-- Behind the opening bracket of a written object, its members give the values of the fields. -/
theorem Fits.readMembers_passes (h : fields.Fits depth members values) {style : Style}
    (hstyle : style.Blank) {k : Nat}
    (hrest : '\x7b' :: c.rest = write style k (.object members) ++ tail) :
    Passes (fields.readMembers depth c) values ('\x7d' :: tail) := by
  refine (h.legible hstyle (k + 1)).readMembers_passes ?_ hrest
  rw [List.map_map]
  exact encloses_writeObject hstyle k members

end Fields

/-! ## Records -/

variable {build : σ → α} {parts : α → σ}

/-- A record is read from an object whose members declare its fields. -/
theorem Codec.reads_record (name : String) (build : σ → α) (parts : α → σ)
    (h : fields.Legible depth pairs values)
    (hencloses : Encloses .curly (pairs.map (·.2.chars)) text) :
    Reads ((Codec.record name fields build parts).reader (depth + 1)) text (build values) := by
  intro c tail hrest _
  obtain ⟨behind, hopening⟩ := hencloses.begins
  simp only [Codec.record]
  split
  next hbracket =>
    rw [hrest, hopening] at hbracket
    cases hbracket
  next hbracket =>
    have hbehind := (cons_eat hbracket).trans hrest
    obtain ⟨r, hread, hvalue, hnext⟩ := object_takes (h.readMembers_passes hencloses hbehind)
    simp only [deeper, hread, Except.map]
    exact ⟨_, rfl, by simp [Consumed.map, Consumed.since, hvalue], hnext⟩
  next _ hne => exact absurd (hrest.trans (by rw [hopening]; rfl)) (hne _)

/-- An object whose members give the values of the fields is accepted as the record made of them. -/
theorem Codec.accepts_record (name : String) (build : σ → α) (parts : α → σ) (values : σ)
    (h : fields.Fits depth members values) :
    (Codec.record name fields build parts).Accepts (depth + 1) (.object members) (build values) where
  ofJson := by
    simp only [sorted, Codec.record, h.complete_sorted]
    rfl
  reads := by
    intro style hstyle k
    refine reads_record name build parts (h.legible hstyle (k + 1)) ?_
    rw [List.map_map]
    exact encloses_writeObject hstyle k members

namespace Fields

/-- All fields of a record have lawful codecs. -/
def Lawful {σ τ : Type} (depth : Nat) : Fields σ τ → Prop
  | .nil => True
  | .cons field rest => field.codec.Lawful depth ∧ rest.Lawful depth

theorem map_toMembers (fields : Fields σ τ) (values : σ) :
    (fields.toMembers values).map (·.1) = fields.names := by
  induction fields with
  | nil => rfl
  | cons field rest ih => simp [toMembers, names, ih]

theorem Lawful.plain (h : fields.Lawful depth) (values : σ) :
    ∀ member ∈ fields.toMembers values, Plain depth member.2 := by
  induction fields with
  | nil => simp [toMembers]
  | cons field rest ih =>
    intro member hmem
    rcases List.mem_cons.mp hmem with rfl | hrest
    · exact h.1.plain values.1
    · exact ih h.2 values.2 member hrest

theorem Lawful.given (h : fields.Lawful depth) (values : σ)
    (hmembers : ∀ member ∈ fields.toMembers values, member ∈ members) :
    fields.Given depth members values := by
  induction fields with
  | nil => trivial
  | cons field rest ih =>
    obtain ⟨value, values⟩ := values
    simp only [toMembers, List.forall_mem_cons] at hmembers
    exact ⟨.inl ⟨_, hmembers.1, h.1.accepts value⟩, ih h.2 values hmembers.2⟩

/-- The members that a record is written as give its values. -/
theorem Lawful.fits (h : fields.Lawful depth) (hnames : fields.names.Nodup) (values : σ) :
    fields.Fits depth (fields.toMembers values) values where
  names := hnames
  keys := by rwa [fields.map_toMembers]
  known := by rw [fields.map_toMembers]; exact fun _ hmem => hmem
  given := h.given values fun _ hmem => hmem

end Fields

theorem Codec.lawful_record (name : String) (hfields : fields.Lawful depth)
    (hnames : fields.names.Nodup) (hbuild : ∀ value, build (parts value) = value) :
    (Codec.record name fields build parts).Lawful (depth + 1) where
  plain value := .object (hfields.plain (parts value))
  accepts value := by
    have haccepts := accepts_record name build parts (parts value) (hfields.fits hnames _)
    rwa [hbuild] at haccepts

end DecompilerDesk.Json
