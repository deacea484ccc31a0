-- SUMMARY: What is written for a value reads as that value.
import DecompilerDesk.Proofs.Json.Written

/-!
# Round trip

A plain value is written in some style and read again: the reader gives the value as it was, members
in their order. Doubles are not plain, nor are whole numbers beyond 64 bits, and the brackets of a
plain value nest no deeper than the reader follows them.
-/

namespace DecompilerDesk.Json

/-- The values without doubles and with whole numbers of 64 bits alone, nested no deeper than a
depth. -/
inductive Plain : (depth : Nat) → Json → Prop where
  | scalar {depth : Nat} {json : Json} (h : Scalar json) : Plain depth json
  | array {depth : Nat} {items : List Json} (h : ∀ item ∈ items, Plain depth item) :
      Plain (depth + 1) (.array items)
  | object {depth : Nat} {members : List (String × Json)}
      (h : ∀ member ∈ members, Plain depth member.2) : Plain (depth + 1) (.object members)

theorem Plain.mono {depth deeper : Nat} {json : Json} (h : Plain depth json) (hle : depth ≤ deeper) :
    Plain deeper json := by
  induction h generalizing deeper with
  | scalar h => exact .scalar h
  | array _ ih =>
    obtain ⟨deeper, rfl⟩ := Nat.exists_eq_add_of_le' (Nat.lt_of_lt_of_le (Nat.succ_pos _) hle)
    exact .array fun item hmem => ih item hmem (by omega)
  | object _ ih =>
    obtain ⟨deeper, rfl⟩ := Nat.exists_eq_add_of_le' (Nat.lt_of_lt_of_le (Nat.succ_pos _) hle)
    exact .object fun member hmem => ih member hmem (by omega)

/-- What the writer writes for a plain value, in any style, is one of the texts that spell it. -/
theorem Plain.spells {depth : Nat} {json : Json} (h : Plain depth json) {style : Style}
    (hstyle : style.Blank) (k : Nat) : Spells json (write style k json) := by
  induction h generalizing k with
  | scalar h => exact h.spells style k
  | @array depth items _ ih =>
    refine spells_array_iff.mpr ⟨_, ?_, encloses_writeArray hstyle k items⟩
    exact List.forall₂_map_right_iff.mpr (List.forall₂_same.mpr fun item hitem => ih item hitem (k + 1))
  | @object depth members _ ih =>
    let entry (member : String × Json) : Entry :=
      ⟨member.1, member.2, Pair.written style (k + 1) member⟩
    have hmembers : (members.map entry).map Entry.member = members := by
      rw [List.map_map]
      exact List.map_id members
    have hkeyed : ∀ written ∈ members.map entry, Keyed written.pair :=
      List.forall_mem_map.mpr fun member _ => keyed_written hstyle (k + 1) member
    refine .object hkeyed (List.forall_mem_map.mpr fun member hmember => ih member hmember (k + 1))
      (.of_eq hmembers) ?_
    rw [List.map_map]
    exact encloses_writeObject hstyle k members

theorem readsBack_scalar (nested : Option (Reader Json)) {json : Json} (h : Scalar json) :
    ReadsBack (readValueWith nested) json json := by
  intro style _ depth c tail hrest hclosed
  have hspells := h.spells style depth
  have hread := hspells.readScalar_takes h hclosed hrest
  simp only [readValueWith]
  split
  next hbracket => exact absurd (hrest.symm.trans hbracket) (hspells.not_bracket h _).1
  next hbracket => exact absurd (hrest.symm.trans hbracket) (hspells.not_bracket h _).2
  next => exact hread.since c.left_skipGap

theorem takesMember_addMember {read : Reader Json} {json : Json} (h : ReadsBack read json json)
    (key : String) (members : List (String × Json)) :
    TakesMember (addMember read) key json members ((key, json) :: members) := by
  intro style hstyle depth c tail hrest hclosed
  obtain ⟨colon, hcolon, r, hread, rfl, hbehind⟩ := h.behind_colon hstyle hrest hclosed
  simp only [addMember, hcolon, hread, bind, Except.bind]
  exact ⟨_, rfl, rfl, hbehind⟩

theorem takesMembers_addMember {read : Reader Json} {members : List (String × Json)}
    (h : ∀ member ∈ members, ReadsBack read member.2 member.2) (before : List (String × Json)) :
    TakesMembers (addMember read) members before (members.reverse ++ before) := by
  induction members generalizing before with
  | nil => exact .nil before
  | cons member members ih =>
    have hrest := ih (fun other hmem => h other (List.mem_cons_of_mem _ hmem)) (member :: before)
    rw [List.reverse_cons, List.append_assoc]
    exact .cons (takesMember_addMember (h member List.mem_cons_self) member.1 before) hrest

/-- A plain value is read back as it was written. -/
theorem readsBack_readValue {depth : Nat} {json : Json} (h : Plain depth json) :
    ReadsBack (readValue depth) json json := by
  induction h with
  | @scalar depth json h => cases depth <;> exact readsBack_scalar _ h
  | @array depth items _ ih =>
    intro style hstyle k c tail hrest _
    obtain ⟨ch, text, htext, rfl⟩ := write_opens style k (.array items)
    simp only [readValue, readValueWith]
    split
    next h =>
      have hbehind := (cons_eat h).trans hrest
      obtain ⟨r, hread, hvalue, hnext⟩ := array_takes hstyle (List.forall₂_same.mpr ih) hbehind
      simp only [hread, bind, Except.bind]
      exact ⟨_, rfl, congrArg Json.array hvalue, hnext⟩
    next h =>
      rw [hrest, htext] at h
      cases h
    next h _ => exact absurd (hrest.trans (by rw [htext]; rfl)) (h _)
  | @object depth members _ ih =>
    intro style hstyle k c tail hrest _
    obtain ⟨ch, text, htext, rfl⟩ := write_opens style k (.object members)
    simp only [readValue, readValueWith]
    split
    next h =>
      rw [hrest, htext] at h
      cases h
    next h =>
      have hbehind := (cons_eat h).trans hrest
      obtain ⟨r, hread, hvalue, hnext⟩ :=
        object_takes (readMembers_passes hstyle (takesMembers_addMember ih []) hbehind)
      simp only [hread, bind, Except.bind]
      refine ⟨_, rfl, ?_, hnext⟩
      simp [Consumed.map, Consumed.since, hvalue]
    next _ h => exact absurd (hrest.trans (by rw [htext]; rfl)) (h _)

/-- A document that is one written value with blanks behind it is read back, in any style. -/
theorem readDocument_of_readsBack {α : Type} {read : Reader α} {json : Json} {value : α}
    (h : ReadsBack read json value) {style : Style} (hstyle : style.Blank) (depth : Nat)
    {gap : List Char} (hgap : ∀ ch ∈ gap, Cursor.isGap ch = true) :
    readDocument read (write style depth json ++ gap) = .ok value := by
  exact (h style hstyle depth).readDocument (solid_write style depth json) (List.forall_mem_nil _) hgap

/-- A plain value on a line of its own parses as the value with sorted members. -/
theorem parse_line {json : Json} (h : Plain maxDepth json) :
    parse (json.compact ++ "\n") = .ok json.sorted := by
  have hgap : ∀ ch ∈ ['\n'], Cursor.isGap ch = true := by simp [Cursor.isGap]
  have hread := readDocument_of_readsBack (readsBack_readValue h) Style.compact_blank 0 hgap
  simp [parse, compact, hread, Except.map]

end DecompilerDesk.Json
