-- SUMMARY: What an engine may do at any moment, and how far its output has been read.
import DecompilerDesk.Proofs.Engine.Lines

/-!
# Reading an engine

An engine does what it likes, when it likes: it writes, it closes its pipes, it takes lines or leaves
them. `Drifts` says what it cannot do, which is to take back what it wrote. Whatever it does, a reader
that takes one line at a time has read its first lines, or all of them.
-/

namespace DecompilerDesk

open Bytes (IsLine lines)

namespace Engine

/-- The request lines that were written to an engine, whether it took them or not. -/
def sent (engine : Engine) : List String := engine.received ++ engine.pending

/-! ## What an engine does on its own -/

/-- An engine may have written more while its output was open, and may have closed its output. -/
structure Writes (before after : Engine) : Prop where
  written : before.written <+: after.written
  mute : before.mute → after.mute ∧ after.written = before.written

/-- An engine has gone on by itself. What it takes and what it does next is up to it. -/
structure Drifts (before after : Engine) : Prop extends Writes before after where
  sent : after.sent = before.sent
  read : after.read = before.read

theorem Writes.trans {first second third : Engine} (h : Writes first second)
    (h' : Writes second third) : Writes first third where
  written := h.written.trans h'.written
  mute := by
    intro hmute
    obtain ⟨hsecond, hwritten⟩ := h.mute hmute
    obtain ⟨hthird, hwritten'⟩ := h'.mute hsecond
    exact ⟨hthird, hwritten'.trans hwritten⟩

namespace Drifts

theorem refl (engine : Engine) : Drifts engine engine :=
  ⟨⟨List.prefix_refl _, fun h => ⟨h, rfl⟩⟩, rfl, rfl⟩

theorem trans {first second third : Engine} (h : Drifts first second) (h' : Drifts second third) :
    Drifts first third where
  toWrites := h.toWrites.trans h'.toWrites
  sent := h'.sent.trans h.sent
  read := h'.read.trans h.read

end Drifts

theorem take_drifts (engine : Engine) (line : String) (rest : List String) :
    Drifts { engine with pending := line :: rest } { engine.take line with pending := rest } where
  sent := by simp [sent, take]
  read := rfl
  written := by
    unfold take
    split
    · exact List.prefix_refl _
    · exact List.prefix_append _ _
  mute := by
    intro hmute
    have hmute : engine.mute = true := hmute
    simp [take, hmute]

/-- To act on the lines in its pipe is one of the things an engine does on its own. -/
theorem actUntil_drifts (enough : Engine → Bool) (engine : Engine) (lines : List String) :
    Drifts { engine with pending := lines } (engine.actUntil enough lines) := by
  induction lines generalizing engine with
  | nil => exact .refl _
  | cons line rest ih =>
    rw [actUntil]
    split
    · exact (engine.take_drifts line rest).trans (ih (engine.take line))
    · exact .refl _

/-! ## Reading one line -/

/-- The next line of an engine's output was read: up to its line end, or all that an engine that has
closed its output had still to give. -/
structure Reads (before after : Engine) (line : Bytes) : Prop where
  first : line = firstLine before.unread
  ended : before.hasLine = true ∨ before.mute = true
  sent : after.sent = before.sent
  read : after.read = before.read + line.length
  written : after.written = before.written
  mute : after.mute = before.mute

theorem Reads.writes {before after : Engine} {line : Bytes} (h : Reads before after line) :
    Writes before after where
  written := h.written ▸ List.prefix_refl _
  mute hmute := ⟨h.mute.trans hmute, h.written⟩

/-- A line that was written to an engine stays the last one while its answer is waited for. -/
theorem sent_of_drifts {engine waited : Engine} {text : String}
    (hdrifts : Drifts { engine with pending := engine.pending ++ [text] } waited) :
    waited.sent = engine.sent ++ [text] := by
  rw [hdrifts.sent, sent, sent, List.append_assoc]

theorem sent_of_reads {engine waited after : Engine} {text : String} {line : Bytes}
    (hdrifts : Drifts { engine with pending := engine.pending ++ [text] } waited)
    (hreads : Reads waited after line) : after.sent = engine.sent ++ [text] :=
  hreads.sent.trans (sent_of_drifts hdrifts)

/-- There is no line to read, and there may be one later. -/
def Silent (engine : Engine) : Prop := engine.hasLine = false ∧ engine.mute = false

/-- What receiving can come to. -/
inductive Received (engine : Engine) : Option Bytes × Engine → Prop where
  | line {waited after : Engine} {line : Bytes} (hdrifts : Drifts engine waited)
      (hreads : Reads waited after line) : Received engine (some line, after)
  | waiting {waited : Engine} (hdrifts : Drifts engine waited) (hsilent : waited.Silent) :
      Received engine (none, waited)

/-- To receive is to wait while the engine acts, and to read a line if there is one to read then. -/
theorem receive_received (engine : Engine) : Received engine engine.receive := by
  have hdrifts := engine.actUntil_drifts hasLine engine.pending
  unfold receive
  dsimp only
  split
  next hready => exact .line hdrifts ⟨rfl, by simpa using hready, rfl, rfl, rfl, rfl⟩
  next hwaiting => exact .waiting hdrifts (by simpa [Silent] using hwaiting)

/-! ## How far an engine has been read -/

/-- `n` lines of an engine's output have been read: they are whole lines, or the engine has closed
its output and had no more than that many. -/
inductive HasRead (engine : Engine) (n : Nat) : Prop where
  | whole (ls : List Bytes) (hlength : ls.length = n) (hlines : ∀ line ∈ ls, IsLine line)
      (hwritten : ls.flatten <+: engine.written) (hread : engine.read = ls.flatten.length)
  | all (hmute : engine.mute) (hunread : engine.unread = [])
      (hfew : (lines engine.written).length ≤ n)

theorem hasRead_ofTurns (turns : List Turn) : HasRead (.ofTurns turns) 0 :=
  .whole [] rfl (by simp) (List.prefix_refl _) rfl

theorem HasRead.of_writes {before after : Engine} {n : Nat} (h : HasRead before n)
    (hwrites : Writes before after) (hsame : after.read = before.read) : HasRead after n := by
  cases h with
  | whole ls hlength hlines hwritten hread =>
    exact .whole ls hlength hlines (hwritten.trans hwrites.written) (hsame.trans hread)
  | all hmute hunread hfew =>
    obtain ⟨hmute', hwritten⟩ := hwrites.mute hmute
    refine .all hmute' ?_ (by rwa [hwritten])
    rw [unread, hwritten, hsame]
    exact hunread

/-- After whole lines have been read, what is left holds the other lines. -/
theorem lines_written {engine : Engine} {ls : List Bytes} (hlines : ∀ line ∈ ls, IsLine line)
    (hwritten : ls.flatten <+: engine.written) (hread : engine.read = ls.flatten.length) :
    engine.written = ls.flatten ++ engine.unread ∧
      lines engine.written = ls ++ lines engine.unread := by
  obtain ⟨rest, hrest⟩ := hwritten
  have hunread : engine.unread = rest := by rw [unread, hread, ← hrest, List.drop_left]
  have hsplit : engine.written = ls.flatten ++ engine.unread := by rw [hunread, hrest]
  refine ⟨hsplit, ?_⟩
  rw [← Bytes.lines_flatten_append hlines, ← hsplit]

/-- The line read after `n` lines is the line number `n` of all, which is empty when there is none.
It is whole, or the engine has closed its output. -/
theorem HasRead.of_reads {before after : Engine} {line : Bytes} {n : Nat} (h : HasRead before n)
    (hreads : Reads before after line) :
    HasRead after (n + 1) ∧ line = (lines after.written)[n]?.getD [] ∧
      (after.mute ∨ IsLine line) := by
  rw [hreads.written]
  cases h with
  | whole ls hlength hlines hwritten hread =>
    obtain ⟨hsplit, hall⟩ := lines_written hlines hwritten hread
    have hline : line = (lines before.written)[n]?.getD [] := by
      rw [hreads.first, Bytes.firstLine_eq, hall, ← hlength, List.getElem?_append_right (Nat.le_refl _),
        Nat.sub_self]
    have hfirst := Bytes.firstLine_cases before.unread
    rw [← hreads.first] at hfirst
    rcases hfirst with ⟨rest, hrest, hisLine⟩ | ⟨hrest, hnone⟩
    · refine ⟨.whole (ls ++ [line]) (by simp [hlength]) ?_ ?_ ?_, hline, .inr hisLine⟩
      · intro other hmem
        rcases List.mem_append.mp hmem with hold | hnew
        · exact hlines other hold
        · rwa [List.mem_singleton.mp hnew]
      · refine ⟨rest, ?_⟩
        rw [hreads.written, List.flatten_concat, List.append_assoc, ← hrest, ← hsplit]
      · rw [hreads.read, hread, List.flatten_concat, List.length_append]
    · -- without a line end there is nothing behind the line
      have hnoLine : before.hasLine = false := by simpa [hasLine] using hnone
      have hmute : after.mute := by
        rw [hreads.mute]
        exact hreads.ended.resolve_left (by simp [hnoLine])
      refine ⟨.all hmute ?_ ?_, hline, .inl hmute⟩
      · rw [unread, hreads.written, hreads.read, ← List.drop_drop, ← unread, hrest, List.drop_length]
      · rw [hreads.written, hall, List.length_append, hlength]
        by_cases hnil : before.unread = []
        · simp [hnil, lines]
        · simp [Bytes.lines_of_not_mem hnone hnil]
  | all hmute hunread hfew =>
    have hnil : line = [] := by rw [hreads.first, hunread, firstLine]
    have hmute' : after.mute := by simp [hreads.mute, hmute]
    refine ⟨.all hmute' ?_ ?_, ?_, .inl hmute'⟩
    · rw [unread, hreads.written, hreads.read, hnil]
      exact hunread
    · rw [hreads.written]
      omega
    · rw [hnil, List.getElem?_eq_none hfew, Option.getD_none]

/-- While an engine is silent, the line that would be read after `n` lines has not ended. -/
theorem HasRead.not_mem_of_silent {engine : Engine} {n : Nat} (h : HasRead engine n)
    (hsilent : engine.Silent) : lineEnd ∉ (lines engine.written)[n]?.getD [] := by
  obtain ⟨hline, hmute⟩ := hsilent
  cases h with
  | whole ls hlength hlines hwritten hread =>
    have hnone : lineEnd ∉ engine.unread := by simpa [hasLine] using hline
    obtain ⟨-, hall⟩ := lines_written hlines hwritten hread
    rw [hall, ← hlength, List.getElem?_append_right (Nat.le_refl _), Nat.sub_self]
    by_cases hnil : engine.unread = []
    · simp [hnil, lines]
    · rwa [Bytes.lines_of_not_mem hnone hnil, List.getElem?_cons_zero, Option.getD_some]
  | all hended => simp [hmute] at hended

/-- A line that was read keeps its number, whatever the engine writes later. -/
theorem line_of_writes {before after : Engine} {line : Bytes} {n : Nat} (h : Writes before after)
    (hline : line = (lines before.written)[n]?.getD []) (hkept : before.mute ∨ IsLine line) :
    line = (lines after.written)[n]?.getD [] ∧ (after.mute ∨ IsLine line) := by
  rcases hkept with hmute | hisLine
  · obtain ⟨hmute', hwritten⟩ := h.mute hmute
    exact ⟨by rw [hwritten, hline], .inl hmute'⟩
  · obtain ⟨more, hmore⟩ := h.written
    cases hat : (lines before.written)[n]? with
    | none =>
      rw [hat] at hline
      subst hline
      simp [IsLine] at hisLine
    | some other =>
      obtain rfl : line = other := by simpa [hat] using hline
      have hlater := Bytes.lines_getElem?_append hat hisLine more
      rw [hmore] at hlater
      exact ⟨by rw [hlater, Option.getD_some], .inr hisLine⟩

end Engine

end DecompilerDesk
