-- SUMMARY: How items and members are read from any of the texts that spell them.
import DecompilerDesk.Proofs.Json.Scalars
import Mathlib.Data.List.TakeWhile

/-!
# Reading what is spelled

Items and members are read with blanks on either side, whatever each of them is read as. So the loops
over them take one part after the other and stop before the closing bracket.
-/

namespace DecompilerDesk.Json

open Cursor (isGap)

variable {α σ : Type} {c : Cursor} {ch : Char} {part text tail more gap gap' : List Char}
  {parts : List (List Char)} {name : String} {read : Reader α} {value : α}

/-! ## Values -/

theorem cons_eat (h : c.rest = ch :: more) : ch :: (c.eat h).next.rest = c.rest := h.symm

/-- A reader reads a text as a value, blanks before it apart. -/
def Reads (reader : Reader α) (text : List Char) (value : α) : Prop :=
  ∀ (c : Cursor) (tail : List Char), c.skipGap.rest = text ++ tail → Closed tail →
    Takes (reader c) value tail

/-- Also with blanks in front. -/
theorem Reads.takes (h : Reads read part value) (hpart : Solid part) (hgap : Blank gap)
    (hrest : c.rest = gap ++ (part ++ tail)) (hclosed : Closed tail) : Takes (read c) value tail := by
  refine h c tail ?_ hclosed
  rw [skipGap_rest, hrest]
  exact hpart.dropWhile hgap

/-- A document that is read with blanks around it. -/
theorem Reads.readDocument (h : Reads read part value) (hpart : Solid part) (hgap : Blank gap)
    (hgap' : Blank gap') : readDocument read (gap ++ (part ++ gap')) = .ok value := by
  have hclosed : Closed (gap' ++ []) := closed_gap_append hgap' (by simp [Closed])
  rw [List.append_nil] at hclosed
  obtain ⟨r, hread, hvalue, hnext⟩ :=
    h.takes (c := .start (gap ++ (part ++ gap'))) hpart hgap rfl hclosed
  have hend : r.next.skipGap.rest = [] := by
    rw [skipGap_rest, hnext]
    exact List.dropWhile_eq_nil_iff.mpr hgap'
  simp [Json.readDocument, hread, hvalue, hend]

/-! ## Items -/

theorem moreItems_of_bracket {first : Bool} (h : c.skipGap.rest = ']' :: tail) :
    moreItems first c = .ok ⟨false, c.skipGap, c.left_skipGap⟩ := by
  simp only [moreItems]
  split
  next h' => rw [h] at h'; cases h'
  next => rfl
  next hne h' =>
    rw [h] at h'
    exact absurd (List.cons.inj h').1.symm hne

theorem moreItems_last (first : Bool) (hrest : c.skipGap.rest = ']' :: tail) :
    Passes (moreItems first c) false (']' :: tail) :=
  ⟨_, moreItems_of_bracket hrest, rfl, hrest⟩

theorem Solid.moreItems_first (h : Solid part) (hgap : Blank gap)
    (hrest : c.rest = gap ++ (part ++ more)) : Passes (moreItems true c) true (part ++ more) := by
  have hnext : c.skipGap.rest = part ++ more := by
    rw [skipGap_rest, hrest]
    exact h.dropWhile hgap
  obtain ⟨ch, rest, rfl, -, hbracket, -⟩ := h
  simp only [moreItems]
  split
  next h => rw [hnext] at h; cases h
  next h => rw [hnext] at h; exact absurd (List.cons.inj h).1 hbracket
  next => exact ⟨_, rfl, rfl, hnext⟩

theorem Solid.moreItems_next (h : Solid part) (hgap : Blank gap) (hgap' : Blank gap')
    (hrest : c.rest = gap ++ ',' :: (gap' ++ (part ++ more))) :
    Passes (moreItems false c) true (part ++ more) := by
  have hcomma : c.skipGap.rest = ',' :: (gap' ++ (part ++ more)) := by
    rw [skipGap_rest, hrest]
    exact dropWhile_gap hgap rfl
  have hmore : (gap' ++ (part ++ more)).dropWhile isGap = part ++ more := h.dropWhile hgap'
  generalize gap' ++ (part ++ more) = behind at hcomma hmore
  obtain ⟨ch, rest, rfl, -, hbracket, -⟩ := h
  simp only [moreItems]
  split
  next h => rw [hcomma] at h; cases h
  next h => rw [hcomma] at h; cases h
  next h =>
    rw [hcomma] at h
    obtain ⟨rfl, rfl⟩ := List.cons.inj h
    have hnext : (Cursor.skipGap ⟨',' :: c.skipGap.before, behind⟩).rest = ch :: rest ++ more := hmore
    simp only [Cursor.eat, if_true, Bool.false_eq_true, if_false]
    split
    next h' => rw [hnext] at h'; cases h'
    next h' => rw [hnext] at h'; exact absurd (List.cons.inj h').1 hbracket
    next => exact ⟨_, rfl, rfl, hnext⟩

theorem readItemsFrom_last {read : Reader α} {origin : Cursor} {acc : List α}
    (within : c.left ≤ origin.left) (hend : c.skipGap.rest = ']' :: tail) :
    Passes (readItemsFrom read origin acc c within) acc.reverse (']' :: tail) := by
  obtain ⟨more, hmore, hvalue, hnext⟩ := moreItems_last acc.isEmpty hend
  rw [readItemsFrom]
  simp only [hmore, bind, Except.bind, hvalue]
  exact ⟨_, rfl, rfl, hnext⟩

/-- If another item follows, it is read and the loop goes on behind it. -/
theorem readItemsFrom_item {read : Reader α} {origin : Cursor} {acc : List α} {value : α}
    (within : c.left ≤ origin.left) (hmore : Passes (moreItems acc.isEmpty c) true more)
    (hitem : ∀ d : Cursor, d.rest = more → Takes (read d) value tail) :
    ∃ d hwithin, d.rest = tail ∧
      readItemsFrom read origin acc c within = readItemsFrom read origin (value :: acc) d hwithin := by
  obtain ⟨r, hmore, hvalue, hnext⟩ := hmore
  obtain ⟨item, hread, rfl, hbehind⟩ := hitem r.next hnext
  have hwithin : item.next.left ≤ origin.left := by
    have := item.shorter
    have := r.notLonger
    omega
  refine ⟨item.next, hwithin, hbehind, ?_⟩
  rw [readItemsFrom]
  simp only [hmore, bind, Except.bind, hvalue, hread, if_true]

/-- The items after the first are read, up to the closing bracket. -/
theorem Follows.readItemsFrom_passes {values : List α} (h : Follows .square parts text)
    (hparts : List.Forall₂ (fun part value => Solid part ∧ Reads read part value) parts values)
    {origin : Cursor} {items : List α} (hitems : items ≠ []) (within : c.left ≤ origin.left)
    (hrest : c.rest = text ++ tail) :
    Passes (readItemsFrom read origin items c within) (items.reverse ++ values) (']' :: tail) := by
  -- `items` are those read so far, the last one in front.
  induction h generalizing c values items with
  | last hgap =>
    cases hparts
    have hend : c.skipGap.rest = ']' :: tail := by
      rw [skipGap_rest, hrest, List.append_assoc]
      exact dropWhile_gap hgap rfl
    rw [List.append_nil]
    exact readItemsFrom_last within hend
  | @next gap gap' part text parts hgap hgap' hfollows ih =>
    obtain ⟨value, values, ⟨hsolid, hpart⟩, hothers, rfl⟩ := List.forall₂_cons_left_iff.mp hparts
    simp only [List.append_assoc, List.cons_append] at hrest
    have hmore := hsolid.moreItems_next hgap hgap' hrest
    have hnotFirst : items.isEmpty = false := by simpa using hitems
    obtain ⟨d, hwithin, hbehind, hstep⟩ := readItemsFrom_item within (hnotFirst ▸ hmore) fun d hd =>
      hpart.takes hsolid (List.forall_mem_nil _) hd hfollows.closed
    rw [hstep, List.append_cons, ← List.reverse_cons]
    exact ih hothers (List.cons_ne_nil _ _) hwithin hbehind

/-- The items of an array are read behind its opening bracket. -/
theorem Encloses.readItems_passes {values : List α} (h : Encloses .square parts text)
    (hparts : List.Forall₂ (fun part value => Solid part ∧ Reads read part value) parts values)
    (hrest : '[' :: c.rest = text ++ tail) : Passes (readItems read c) values (']' :: tail) := by
  rw [readItems]
  cases h with
  | none hgap =>
    cases hparts
    simp only [List.cons_append, List.append_assoc, List.cons.injEq] at hrest
    have hend : c.skipGap.rest = ']' :: tail := by
      rw [skipGap_rest, hrest.2]
      exact dropWhile_gap hgap rfl
    exact readItemsFrom_last _ hend
  | @some gap part text parts hgap hfollows =>
    obtain ⟨value, values, ⟨hsolid, hpart⟩, hothers, rfl⟩ := List.forall₂_cons_left_iff.mp hparts
    simp only [List.cons_append, List.append_assoc, List.cons.injEq] at hrest
    have hmore : Passes (moreItems ([] : List α).isEmpty c) true _ := hsolid.moreItems_first hgap hrest.2
    obtain ⟨d, hwithin, hbehind, hstep⟩ := readItemsFrom_item c.left_le hmore fun d hd =>
      hpart.takes hsolid (List.forall_mem_nil _) hd hfollows.closed
    rw [hstep]
    exact hfollows.readItemsFrom_passes hothers (List.cons_ne_nil _ _) hwithin hbehind

/-! ## Members -/

theorem readKey_last (first : Bool) (hrest : c.skipGap.rest = '\x7d' :: tail) :
    Passes (readKey first c) none ('\x7d' :: tail) := by
  simp only [readKey]
  split
  next h => rw [hrest] at h; cases h
  next => exact ⟨_, rfl, rfl, hrest⟩
  next hne h =>
    rw [hrest] at h
    exact absurd (List.cons.inj h).1.symm hne

theorem Quotes.readKey_first {key : List Char} (h : Quotes name key) (hgap : Blank gap)
    (hrest : c.rest = gap ++ (key ++ more)) : Passes (readKey true c) (some name) more := by
  obtain ⟨hspelled⟩ := h
  rename_i text
  have hquote : c.skipGap.rest = '"' :: (text ++ more) := by
    rw [skipGap_rest, hrest]
    exact dropWhile_gap hgap rfl
  simp only [readKey, if_true]
  split
  next h => rw [hquote] at h; cases h
  next h => rw [hquote] at h; cases h
  next h =>
    rw [hquote] at h
    obtain ⟨rfl, rfl⟩ := List.cons.inj h
    obtain ⟨r, hread, hvalue, hnext⟩ :=
      hspelled.readText_takes (c := ⟨'"' :: c.skipGap.before, text ++ more⟩) rfl
    simp only [Cursor.eat, if_true, bind, Except.bind, Consumed.passed, Passed.since, hread]
    exact ⟨_, rfl, congrArg some hvalue, hnext⟩

theorem Quotes.readKey_next {key : List Char} (h : Quotes name key) (hgap : Blank gap)
    (hgap' : Blank gap') (hrest : c.rest = gap ++ ',' :: (gap' ++ (key ++ more))) :
    Passes (readKey false c) (some name) more := by
  obtain ⟨hspelled⟩ := h
  rename_i text
  have hcomma : c.skipGap.rest = ',' :: (gap' ++ '"' :: (text ++ more)) := by
    rw [skipGap_rest, hrest]
    exact dropWhile_gap hgap rfl
  have hmore : (gap' ++ '"' :: (text ++ more)).dropWhile isGap = '"' :: (text ++ more) :=
    dropWhile_gap hgap' rfl
  generalize gap' ++ '"' :: (text ++ more) = behind at hcomma hmore
  simp only [readKey, Bool.false_eq_true, if_false]
  split
  next h => rw [hcomma] at h; cases h
  next h => rw [hcomma] at h; cases h
  next h =>
    rw [hcomma] at h
    obtain ⟨rfl, rfl⟩ := List.cons.inj h
    have hquote : (Cursor.skipGap ⟨',' :: c.skipGap.before, behind⟩).rest = _ := hmore
    simp only [Cursor.eat, if_true, bind, Except.bind]
    split
    next h' => rw [hquote] at h'; cases h'
    next h' =>
      rw [hquote] at h'
      obtain ⟨-, rfl⟩ := List.cons.inj h'
      obtain ⟨r, hread, hvalue, hnext⟩ := hspelled.readText_takes
        (c := ⟨'"' :: (Cursor.skipGap ⟨',' :: c.skipGap.before, behind⟩).before, text ++ more⟩) rfl
      simp only [Consumed.passed, Passed.since, hread]
      exact ⟨_, rfl, congrArg some hvalue, hnext⟩
    next h' => rw [hquote] at h'; cases h'
    next _ hne _ => exact absurd hquote (hne _)

variable {pairs : List (String × Pair)} {member : MemberReader σ} {state last : σ}

/-- What is written of a member behind its key. -/
def Pair.behindKey (pair : Pair) : List Char :=
  pair.afterKey ++ ':' :: (pair.afterColon ++ pair.value)

theorem Pair.Spaced.readColon_takes {pair : Pair} (h : pair.Spaced)
    (hrest : c.rest = pair.behindKey ++ tail) :
    Takes (readColon c) () (pair.afterColon ++ (pair.value ++ tail)) := by
  have hcolon : c.skipGap.rest = ':' :: (pair.afterColon ++ (pair.value ++ tail)) := by
    rw [skipGap_rest, hrest]
    simp only [Pair.behindKey, List.append_assoc, List.cons_append]
    exact dropWhile_gap h.afterKey rfl
  simp only [readColon]
  split
  next h' =>
    rw [hcolon] at h'
    obtain ⟨-, rfl⟩ := List.cons.inj h'
    exact ⟨_, rfl, rfl, rfl⟩
  next hne => exact absurd hcolon (hne _)

theorem readMembersFrom_last {member : MemberReader σ} {origin : Cursor} (first : Bool) (state : σ)
    (within : c.left ≤ origin.left) (hend : c.skipGap.rest = '\x7d' :: tail) :
    Passes (readMembersFrom member origin first state c within) state ('\x7d' :: tail) := by
  obtain ⟨key, hkey, hvalue, hnext⟩ := readKey_last first hend
  rw [readMembersFrom]
  simp only [hkey, bind, Except.bind]
  split
  next => exact ⟨_, rfl, rfl, hnext⟩
  next h => rw [hvalue] at h; cases h

/-- If another key follows, its member is read and the loop goes on behind it. -/
theorem readMembersFrom_member {member : MemberReader σ} {origin : Cursor} {first : Bool}
    {name : String} {state next : σ} (within : c.left ≤ origin.left)
    (hkey : Passes (readKey first c) (some name) more)
    (hmember : ∀ d : Cursor, d.rest = more → Takes (member name state d) next tail) :
    ∃ d hwithin, d.rest = tail ∧ readMembersFrom member origin first state c within =
      readMembersFrom member origin false next d hwithin := by
  obtain ⟨key, hkey, hvalue, hnext⟩ := hkey
  obtain ⟨r, hread, rfl, hbehind⟩ := hmember key.next hnext
  have hwithin : r.next.left ≤ origin.left := by
    have := r.shorter
    have := key.notLonger
    omega
  refine ⟨r.next, hwithin, hbehind, ?_⟩
  rw [readMembersFrom]
  simp only [hkey, bind, Except.bind]
  split
  next h => rw [hvalue] at h; cases h
  next other h =>
    obtain rfl : name = other := Option.some.inj (hvalue.symm.trans h)
    simp only [hread]

/-- A member is read into the state behind its key. -/
def ReadsPair (member : MemberReader σ) (pair : String × Pair) (state next : σ) : Prop :=
  ∀ (c : Cursor) (tail : List Char), c.rest = pair.2.behindKey ++ tail → Closed tail →
    Takes (member pair.1 state c) next tail

/-- Members are read one after the other, from a first state to a last one. -/
inductive ReadsPairs (member : MemberReader σ) : List (String × Pair) → σ → σ → Prop where
  | nil (state : σ) : ReadsPairs member [] state state
  | cons {pair : String × Pair} {pairs : List (String × Pair)} {state next last : σ} :
      ReadsPair member pair state next → ReadsPairs member pairs next last →
      ReadsPairs member (pair :: pairs) state last

/-- The members after the first are read, up to the closing bracket. -/
theorem ReadsPairs.readMembersFrom_passes (h : ReadsPairs member pairs state last)
    (hkeyed : ∀ pair ∈ pairs, Keyed pair) {origin : Cursor} (within : c.left ≤ origin.left)
    (hfollows : Follows .curly (pairs.map (·.2.chars)) text) (hrest : c.rest = text ++ tail) :
    Passes (readMembersFrom member origin false state c within) last ('\x7d' :: tail) := by
  induction h generalizing c text with
  | nil state =>
    obtain ⟨hgap⟩ := hfollows
    have hend : c.skipGap.rest = '\x7d' :: tail := by
      rw [skipGap_rest, hrest, List.append_assoc]
      exact dropWhile_gap hgap rfl
    exact readMembersFrom_last false state within hend
  | @cons pair pairs state next last hfirst _ ih =>
    obtain ⟨hkey, hothers⟩ := List.forall_mem_cons.mp hkeyed
    rw [List.map_cons] at hfollows
    cases hfollows with
    | next hgap hgap' hfollows =>
      simp only [Pair.chars, List.append_assoc, List.cons_append] at hrest
      obtain ⟨d, hwithin, hbehind, hstep⟩ :=
        readMembersFrom_member within (hkey.key.readKey_next hgap hgap' hrest) fun d hd =>
          hfirst d _ (by simpa only [Pair.behindKey, List.append_assoc, List.cons_append] using hd)
            hfollows.closed
      rw [hstep]
      exact ih hothers hwithin hfollows hbehind

/-- The members of an object are read behind its opening bracket. -/
theorem ReadsPairs.readMembers_passes (h : ReadsPairs member pairs state last)
    (hkeyed : ∀ pair ∈ pairs, Keyed pair) (hencloses : Encloses .curly (pairs.map (·.2.chars)) text)
    (hrest : '\x7b' :: c.rest = text ++ tail) :
    Passes (readMembers member state c) last ('\x7d' :: tail) := by
  rw [readMembers]
  cases h with
  | nil state =>
    obtain ⟨hgap⟩ := hencloses
    simp only [List.cons_append, List.append_assoc, List.cons.injEq] at hrest
    have hend : c.skipGap.rest = '\x7d' :: tail := by
      rw [skipGap_rest, hrest.2]
      exact dropWhile_gap hgap rfl
    exact readMembersFrom_last true state _ hend
  | @cons pair pairs state next last hfirst hmembers =>
    obtain ⟨hkey, hothers⟩ := List.forall_mem_cons.mp hkeyed
    rw [List.map_cons] at hencloses
    cases hencloses with
    | some hgap hfollows =>
      simp only [Pair.chars, List.append_assoc, List.cons_append, List.cons.injEq] at hrest
      obtain ⟨d, hwithin, hbehind, hstep⟩ :=
        readMembersFrom_member c.left_le (hkey.key.readKey_first hgap hrest.2) fun d hd =>
          hfirst d _ (by simpa only [Pair.behindKey, List.append_assoc, List.cons_append] using hd)
            hfollows.closed
      rw [hstep]
      exact hmembers.readMembersFrom_passes hothers hwithin hfollows hbehind

/-! ## Closing brackets -/

theorem closeArray_spec (hrest : c.rest = ']' :: tail) :
    (closeArray c).value = none ∧ (closeArray c).next.rest = tail := by
  obtain ⟨before, rest⟩ := c
  subst hrest
  exact ⟨rfl, rfl⟩

theorem closeObject_spec (hrest : c.rest = '\x7d' :: tail) :
    (closeObject c).value = none ∧ (closeObject c).next.rest = tail := by
  obtain ⟨before, rest⟩ := c
  subst hrest
  exact ⟨rfl, rfl⟩

/-- What is enclosed is read back if its inside is and the closing bracket is where it ends. -/
theorem enclosed_takes {close : (c : Cursor) → Passed (Option Stop) c} {opening : Consumed Unit c}
    {inside : Except Stop (Passed α opening.next)} {value : α} (hinside : Passes inside value more)
    (hclose : ∀ e : Cursor, e.rest = more → (close e).value = none ∧ (close e).next.rest = tail) :
    Takes (enclosed close opening inside) value tail := by
  obtain ⟨r, rfl, rfl, hnext⟩ := hinside
  obtain ⟨hnone, hbehind⟩ := hclose r.next hnext
  simp only [enclosed, hnone]
  exact ⟨_, rfl, rfl, hbehind⟩

/-- An object whose inside is read back is read back behind its opening bracket. -/
theorem object_takes {opening : Consumed Unit c} {inside : Except Stop (Passed α opening.next)}
    {value : α} (h : Passes inside value ('\x7d' :: tail)) :
    Takes (enclosed closeObject opening inside) value tail :=
  enclosed_takes h fun _ => closeObject_spec

end DecompilerDesk.Json
