-- SUMMARY: The console holds the newest lines that were logged, as many as it has room for, whatever its capacity was asked to be.
import DecompilerDesk.Console
import Mathlib.Data.List.DropRight

/-!
# The newest lines

Before a line is added, the console forgets its oldest entries one by one until there is room. That
comes to an end because there is room for one entry at least. So the console always holds the newest of
all lines that were logged, and which of them are gone depends on their number alone.
-/

namespace DecompilerDesk

/-! ## Stamps -/

theorem utf8Size_digitChar : ∀ n < 16, (Nat.digitChar n).utf8Size = 1 := by decide

namespace TimeOfDay

theorem stamp_eq (time : TimeOfDay) :
    time.stamp = ['[', Nat.digitChar (time.hour / 10), Nat.digitChar (time.hour % 10), ':',
      Nat.digitChar (time.minute / 10), Nat.digitChar (time.minute % 10), ':',
      Nat.digitChar (time.second / 10), Nat.digitChar (time.second % 10), ']', ' '] := rfl

/-- All characters of a stamp are one byte long. -/
theorem utf8ByteSize_stamp (time : TimeOfDay) : (String.ofList time.stamp).utf8ByteSize = 11 := by
  have hdigit (n : Nat) (hn : n < 60) :
      (Nat.digitChar (n / 10)).utf8Size = 1 ∧ (Nat.digitChar (n % 10)).utf8Size = 1 :=
    ⟨utf8Size_digitChar _ (by omega), utf8Size_digitChar _ (by omega)⟩
  have hhour := hdigit time.hour (by omega)
  have hminute := hdigit time.minute time.minute.isLt
  have hsecond := hdigit time.second time.second.isLt
  rw [stamp_eq]
  simp only [String.ofList_cons, String.ofList_nil, String.utf8ByteSize_append,
    String.utf8ByteSize_singleton, hhour, hminute, hsecond]
  rfl

end TimeOfDay

/-- No line of an entry can be taken for the headline of a console without entries. -/
theorem Entry.text_ne_placeholder (entry : Entry) : entry.text ≠ Console.placeholder := by
  intro h
  have hfirst := congrArg (·.toList.head?) h
  simp [Entry.text, TimeOfDay.stamp_eq, Console.placeholder] at hfirst

namespace Console

variable (console : Console)

/-! ## Making room -/

/-- To forget the oldest entry as long as there is no room for another one comes to an end. -/
inductive Forgets (room : Nat) : List Entry → List Entry → Prop where
  | done {entries : List Entry} : entries.length < room → Forgets room entries entries
  | oldest {entries kept : List Entry} :
      room ≤ entries.length → Forgets room entries.tail kept → Forgets room entries kept

/-- Without any room it never does. -/
theorem not_forgets_zero (entries kept : List Entry) : ¬ Forgets 0 entries kept := by
  intro h
  induction h with
  | done hroom => exact Nat.not_lt_zero _ hroom
  | oldest _ _ ih => exact ih

theorem forgets_drop {room : Nat} (hroom : 0 < room) (entries : List Entry) :
    Forgets room entries (entries.drop (entries.length + 1 - room)) := by
  induction entries with
  | nil =>
    rw [List.drop_nil]
    exact .done hroom
  | cons entry rest ih =>
    by_cases hfull : room ≤ (entry :: rest).length
    · rw [Nat.sub_add_comm hfull, List.drop_succ_cons]
      exact .oldest hfull ih
    · rw [Nat.sub_eq_zero_of_le (Nat.not_le.mp hfull), List.drop_zero]
      exact .done (Nat.not_le.mp hfull)

/-! ## One line -/

/-- Room is made, and what is left is followed by the new entry. -/
theorem forgets_push (entry : Entry) :
    ∃ kept, Forgets console.capacity console.entries kept ∧
      (console.push entry).entries = kept ++ [entry] :=
  ⟨_, forgets_drop console.capacity_pos console.entries, rfl⟩

theorem entries_push (entry : Entry) :
    (console.push entry).entries = (console.entries ++ [entry]).rtake console.capacity := by
  have hpos := console.capacity_pos
  rw [push, List.rtake, List.length_append, List.length_singleton,
    List.drop_append_of_le_length (by omega)]

/-- The console has one more entry, made at the time of its clock, and has forgotten the oldest ones that
are too many then. Nothing else has changed. -/
def Adds (before after : Console) (message : String) : Prop :=
  after = { before with
    entries := (before.entries ++ [(⟨before.clock, message⟩ : Entry)]).rtake before.capacity }

theorem adds_log (parts : List String) : console.Adds (console.log parts) (" ".intercalate parts) := by
  have hentries := console.entries_push ⟨console.clock, " ".intercalate parts⟩
  rw [Adds, ← hentries]
  rfl

/-- The newest of the newest ones and one more are the newest of all. -/
theorem rtake_concat_rtake {α : Type} (l : List α) (x : α) (n : Nat) :
    (l.rtake n ++ [x]).rtake n = (l ++ [x]).rtake n := by
  cases n with
  | zero => rw [List.rtake_zero, List.rtake_zero]
  | succ n =>
    rw [List.rtake_concat_succ, List.rtake_concat_succ]
    simp only [List.rtake, List.drop_drop, List.length_drop]
    congr 2
    omega

theorem map_rtake {α β : Type} (f : α → β) (l : List α) (n : Nat) :
    (l.rtake n).map f = (l.map f).rtake n := by
  rw [List.rtake, List.rtake, List.map_drop, List.length_map]

/-! ## Many lines -/

/-- What can be done with a console alone. -/
inductive Use where
  | log (time : TimeOfDay) (parts : List String)
  | toggle
  deriving DecidableEq, Repr

/-- The console after one more use. -/
def use (console : Console) : Use → Console
  | .log time parts => { console with clock := time }.log parts
  | .toggle => console.toggle

/-- The entry that a use makes. -/
def Use.entry? : Use → Option Entry
  | .log time parts => some ⟨time, " ".intercalate parts⟩
  | .toggle => none

/-- The line that a use makes: the time, and the parts with one blank between two of them. -/
def Use.line? : Use → Option String
  | .log time parts => some (String.ofList time.stamp ++ " ".intercalate parts)
  | .toggle => none

/-- The console has so much room, and holds the newest of these entries. -/
structure Holds (console : Console) (room : Nat) (entries : List Entry) : Prop where
  capacity : console.capacity = room
  newest : console.entries = entries.rtake room

variable {console}

theorem Holds.push {room : Nat} {entries : List Entry} (h : console.Holds room entries) (entry : Entry) :
    (console.push entry).Holds room (entries ++ [entry]) where
  capacity := h.capacity
  newest := by rw [entries_push, h.newest, h.capacity, rtake_concat_rtake]

theorem Holds.use {room : Nat} {entries : List Entry} (h : console.Holds room entries) (use : Use) :
    (console.use use).Holds room (entries ++ use.entry?.toList) := by
  cases use with
  | log time parts =>
    have hclock : { console with clock := time }.Holds room entries := ⟨h.capacity, h.newest⟩
    exact hclock.push _
  | toggle => exact (List.append_nil entries).symm ▸ ⟨h.capacity, h.newest⟩

theorem holds_uses (capacity : UInt64) (uses : List Use) :
    (uses.foldl Console.use (.ofCapacity capacity)).Holds (max capacity.toNat 1)
      (uses.filterMap Use.entry?) := by
  induction uses using List.reverseRecOn with
  | nil => exact ⟨rfl, (List.rtake_nil _).symm⟩
  | append_singleton uses use ih =>
    have hlast : [use].filterMap Use.entry? = use.entry?.toList := by
      cases use <;> rfl
    rw [List.foldl_concat, List.filterMap_append, hlast]
    exact ih.use use

theorem map_text_filterMap (uses : List Use) :
    (uses.filterMap Use.entry?).map Entry.text = uses.filterMap Use.line? := by
  rw [List.map_filterMap]
  congr 1
  funext use
  cases use <;> rfl

theorem getLast?_rtake {α : Type} (l : List α) {n : Nat} (hn : 0 < n) :
    (l.rtake n).getLast? = l.getLast? := by
  rw [List.rtake, List.getLast?_drop]
  split
  next hall =>
    have hnil : l = [] := List.eq_nil_of_length_eq_zero (by omega)
    rw [hnil, List.getLast?_nil]
  next => rfl

theorem headline_eq_placeholder_iff : console.headline = placeholder ↔ console.latest? = none := by
  cases hlatest : console.latest? with
  | none => simp [headline, hlatest]
  | some entry => simp [headline, hlatest, entry.text_ne_placeholder]

/-- Whatever capacity was asked for, and whatever is logged and however often the console is opened and
closed, every logging comes to an end, and the console holds the newest of all lines, oldest first: as
many as the capacity says, but one at least. Its latest entry and its headline are the newest line, and
before the first line the headline is the placeholder. A line is a stamp of eleven bytes and the parts
of the message with one blank between two of them. -/
theorem holds_newest_lines (capacity : UInt64) (uses : List Use) :
    let console := uses.foldl use (.ofCapacity capacity)
    let lines := uses.filterMap Use.line?
    let room := max capacity.toNat 1
    console.entries.map Entry.text = lines.rtake room ∧
      console.entries.length = min lines.length room ∧
      console.latest?.map Entry.text = lines.getLast? ∧
      console.headline = lines.getLast?.getD "Log Shows Here" ∧
      (console.headline = "Log Shows Here" ↔ lines = []) ∧
      (console.use .toggle).entries = console.entries ∧
      (∀ time parts, ∃ kept, Forgets console.capacity console.entries kept ∧
        (console.use (.log time parts)).entries = kept ++ [⟨time, " ".intercalate parts⟩]) ∧
      ∀ time : TimeOfDay, (String.ofList time.stamp).utf8ByteSize = 11 := by
  intro console lines room
  have hholds : console.Holds room (uses.filterMap Use.entry?) := holds_uses capacity uses
  have hroom : 0 < room := Nat.lt_of_lt_of_le Nat.zero_lt_one (Nat.le_max_right _ _)
  have htexts : console.entries.map Entry.text = lines.rtake room := by
    rw [hholds.newest, map_rtake, map_text_filterMap]
  have hlatest : console.latest?.map Entry.text = lines.getLast? := by
    rw [latest?, ← List.getLast?_map, htexts, getLast?_rtake lines hroom]
  have hheadline : console.headline = lines.getLast?.getD "Log Shows Here" := by
    rw [headline, hlatest, placeholder]
  refine ⟨htexts, ?_, hlatest, hheadline, ?_, rfl, fun time parts => ?_, TimeOfDay.utf8ByteSize_stamp⟩
  · have hlength := congrArg List.length htexts
    rw [List.length_map, List.rtake, List.length_drop] at hlength
    omega
  · rw [← List.getLast?_eq_none_iff, ← hlatest, Option.map_eq_none_iff]
    exact headline_eq_placeholder_iff
  · exact forgets_push { console with clock := time } _

end Console

end DecompilerDesk
