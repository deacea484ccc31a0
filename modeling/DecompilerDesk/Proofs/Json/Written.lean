-- SUMMARY: How the parts of a written array or object are read back: items, keys, colons and members.
import DecompilerDesk.Proofs.Json.Spelled

/-!
# Reading back items and members

What the writer puts between the items of an array and the members of an object is one of the ways to
write them, in every style. So they are read back as any that are spelled.
-/

namespace DecompilerDesk.Json

open Cursor (isGap)

variable {α σ : Type} {c : Cursor} {ch : Char} {text more tail : List Char}

/-! ## Reading back -/

/-- A reader reads what the writer writes for a JSON value, in every style and at every depth. -/
def ReadsBack (reader : Reader α) (json : Json) (value : α) : Prop :=
  ∀ style : Style, style.Blank → ∀ depth, Reads reader (write style depth json) value

/-! ## First characters -/

/-- The characters that a value can begin with. -/
def Opens : Json → Char → Prop
  | .null, ch => ch = 'n'
  | .boolean value, ch => ch = if value then 't' else 'f'
  | .integer _, ch => Double.isNotation ch
  | .float _, ch => Double.isNotation ch
  | .text _, ch => ch = '"'
  | .array _, ch => ch = '['
  | .object _, ch => ch = '\x7b'

theorem write_opens (style : Style) (depth : Nat) (json : Json) :
    ∃ ch rest, write style depth json = ch :: rest ∧ Opens json ch := by
  cases json with
  | null => exact ⟨_, _, rfl, rfl⟩
  | boolean value => cases value <;> exact ⟨_, _, rfl, rfl⟩
  | integer n =>
    rw [write, writeInteger]
    split
    · exact ⟨_, _, rfl, rfl⟩
    · obtain ⟨digit, rest, hdigits, -⟩ := (wholeForm_toDigits n.natAbs).begins
      have hmem : digit ∈ Nat.toDigits 10 n.natAbs := hdigits ▸ List.mem_cons_self
      exact ⟨digit, rest, hdigits, Double.isNotation_of_mem_toDigits hmem⟩
  | float x =>
    obtain ⟨hne, hall⟩ := x.text_notation
    rw [write]
    cases htext : x.text with
    | nil => exact absurd htext hne
    | cons ch rest => exact ⟨ch, rest, rfl, hall ch (by simp [htext])⟩
  | text s => exact ⟨_, _, rfl, rfl⟩
  | array items => cases items <;> simp [write, Opens]
  | object members => cases members <;> simp [write, Opens]

theorem Opens.solid {json : Json} (h : Opens json ch) : Solid (ch :: text) := by
  have hnumber (h : Double.isNotation ch = true) : isGap ch = false ∧ ch ≠ ']' ∧ ch ≠ '\x7d' := by
    refine ⟨?_, ?_, ?_⟩
    · by_contra hgap
      simp only [Bool.not_eq_false, isGap, Bool.or_eq_true, decide_eq_true_eq] at hgap
      rcases hgap with ((rfl | rfl) | rfl) | rfl <;> exact absurd h (by decide)
    all_goals
      rintro rfl
      exact absurd h (by decide)
  cases json with
  | integer n => exact solid_cons (hnumber h)
  | float x => exact solid_cons (hnumber h)
  | boolean value =>
    obtain rfl : ch = if value then 't' else 'f' := h
    cases value <;> exact solid_cons (by decide)
  | null | text s | array items | object members =>
    obtain rfl := h
    exact solid_cons (by decide)

theorem solid_write (style : Style) (depth : Nat) (json : Json) : Solid (write style depth json) := by
  obtain ⟨ch, text, htext, hopens⟩ := write_opens style depth json
  exact htext ▸ hopens.solid

/-! ## Items -/

variable {style : Style} {depth : Nat} {json : Json}

/-- Also where no blanks are in front. -/
theorem ReadsBack.takes {read : Reader α} {value : α} (h : ReadsBack read json value)
    (hstyle : style.Blank) (hrest : c.rest = write style depth json ++ tail)
    (hclosed : Closed tail) : Takes (read c) value tail :=
  (h style hstyle depth).takes (solid_write style depth json) (List.forall_mem_nil _) hrest hclosed

/-- A written array is read back behind its opening bracket. -/
theorem array_takes {read : Reader α} (hstyle : style.Blank) {items : List Json} {values : List α}
    (h : List.Forall₂ (ReadsBack read) items values) {opening : Consumed Unit c}
    (hrest : '[' :: opening.next.rest = write style depth (.array items) ++ tail) :
    Takes (enclosed closeArray opening (readItems read opening.next)) values tail := by
  have hparts : List.Forall₂ (fun part value => Solid part ∧ Reads read part value)
      (items.map (write style (depth + 1))) values :=
    List.forall₂_map_left_iff.mpr <| h.imp fun item value hitem =>
      ⟨solid_write style (depth + 1) item, hitem style hstyle (depth + 1)⟩
  have hitems := (encloses_writeArray hstyle depth items).readItems_passes hparts hrest
  exact enclosed_takes hitems fun _ => closeArray_spec

/-! ## Members -/

theorem readColon_takes (hrest : c.rest = ':' :: more) : Takes (readColon c) () more := by
  obtain ⟨before, rest⟩ := c
  subst hrest
  exact ⟨_, rfl, rfl, rfl⟩

theorem ReadsBack.behind_colon {read : Reader α} {value : α} (h : ReadsBack read json value)
    (hstyle : style.Blank)
    (hrest : c.rest = ':' :: (style.afterColon ++ (write style depth json ++ tail)))
    (hclosed : Closed tail) : ∃ colon, readColon c = .ok colon ∧ Takes (read colon.next) value tail := by
  obtain ⟨colon, hcolon, -, hnext⟩ := readColon_takes hrest
  exact ⟨colon, hcolon, (h style hstyle depth).takes (solid_write style depth json) hstyle.afterColon
    hnext hclosed⟩

/-- A member is read into the state behind its key, in every style and at every depth. -/
def TakesMember (member : MemberReader σ) (key : String) (json : Json) (state next : σ) : Prop :=
  ∀ style : Style, style.Blank → ∀ depth (c : Cursor) tail,
    c.rest = ':' :: (style.afterColon ++ (write style depth json ++ tail)) → Closed tail →
    Takes (member key state c) next tail

/-- Members are read one after the other, from a first state to a last one. -/
inductive TakesMembers (member : MemberReader σ) : List (String × Json) → σ → σ → Prop where
  | nil (state : σ) : TakesMembers member [] state state
  | cons {key : String} {json : Json} {members : List (String × Json)} {state next last : σ}
      (hfirst : TakesMember member key json state next) (hrest : TakesMembers member members next last) :
      TakesMembers member ((key, json) :: members) state last

theorem TakesMembers.readsPairs {member : MemberReader σ} {members : List (String × Json)}
    {state last : σ} (h : TakesMembers member members state last) (hstyle : style.Blank) (depth : Nat) :
    ReadsPairs member (members.map fun member => (member.1, Pair.written style depth member)) state
      last := by
  induction h with
  | nil state => exact .nil state
  | cons hfirst _ ih =>
    refine .cons (fun c tail hrest hclosed => hfirst style hstyle depth c tail ?_ hclosed) ih
    simpa [Pair.behindKey, Pair.written] using hrest

/-- The members of a written object are read back, up to the closing bracket. -/
theorem readMembers_passes {member : MemberReader σ} (hstyle : style.Blank)
    {members : List (String × Json)} {state last : σ} (h : TakesMembers member members state last)
    (hrest : '\x7b' :: c.rest = write style depth (.object members) ++ tail) :
    Passes (readMembers member state c) last ('\x7d' :: tail) := by
  have hencloses := encloses_writeObject hstyle depth members
  refine (h.readsPairs hstyle (depth + 1)).readMembers_passes ?_ ?_ hrest
  · exact List.forall_mem_map.mpr fun member _ => keyed_written hstyle (depth + 1) member
  · rwa [List.map_map]

end DecompilerDesk.Json
