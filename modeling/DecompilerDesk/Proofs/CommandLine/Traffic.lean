-- SUMMARY: How a run ends if it ends, and which requests its engine reads.
import DecompilerDesk.Proofs.CommandLine.Course
import DecompilerDesk.Proofs.Engine.Reading
import DecompilerDesk.Proofs.Engine.Wire

/-!
# The traffic of a run

A run has an outcome for the system and one for its engine. To the system it is a success once the
binary is open and the analysis has left the link usable; what goes wrong later only shows in the
console. A run whose engine stays silent with its output open has no outcome. To the engine it is a
list of requests with the numbers from one on, and it depends on the answers which of the questions are
among them. A closed pipe takes the last of them away, and nothing is written after that.
-/

namespace DecompilerDesk

open Bytes (IsLine)

/-! ## Requests in a row -/

/-- What is asked of the engine: the command and its arguments. -/
def Call.request {α : Type} (call : Call α) : String × Json := (call.command, call.arguments)

namespace RequestLine

variable {first : Nat} {requests others : List (String × Json)}

/-- The lines of requests that are numbered one after the other. -/
def numbered (first : Nat) (requests : List (String × Json)) : List String :=
  (requests.zipIdx first).map fun ((command, arguments), n) => (RequestLine.mk n command arguments).text

/-- What an engine is to read in numbered requests, members in the order of their keys. -/
def forms (first : Nat) (requests : List (String × Json)) : List Json :=
  (requests.zipIdx first).map fun ((command, arguments), n) =>
    .object [("args", arguments), ("command", .text command), ("id", .integer n)]

theorem numbered_append (first : Nat) (requests others : List (String × Json)) :
    numbered first (requests ++ others) =
      numbered first requests ++ numbered (first + requests.length) others := by
  simp [numbered, List.zipIdx_append]

theorem numbered_ne_nil (h : requests ≠ []) : numbered first requests ≠ [] := by
  simpa [numbered] using h

end RequestLine

namespace Link

/-! ## What a link writes -/

/-- The link has numbered the requests and written them to the engine. The last one may be missing
from the pipe: the engine has closed it, and the link is broken. -/
inductive Wrote (before : Link) (requests : List (String × Json)) (after : Link) : Prop where
  | all (hnumber : after.nextId = before.nextId + requests.length)
      (hsent : after.engine.sent =
        before.engine.sent ++ RequestLine.numbered before.nextId requests)
  | butLast (hnumber : after.nextId = before.nextId + requests.length) (hsome : requests ≠ [])
      (hbroken : after.broken = true) (hclosed : after.engine.inlet = .closed)
      (hsent : after.engine.sent =
        before.engine.sent ++ (RequestLine.numbered before.nextId requests).dropLast)

variable {before middle after link : Link} {requests others : List (String × Json)}

theorem Wrote.nothing (link : Link) : link.Wrote [] link :=
  .all rfl (List.append_nil _).symm

/-- A link that is usable behind some requests has written them all. -/
theorem Wrote.trans (h : before.Wrote requests middle) (hmiddle : middle.broken = false)
    (h' : middle.Wrote others after) : before.Wrote (requests ++ others) after := by
  cases h with
  -- A request is missing only where the link broke.
  | butLast _ _ hbroken => rw [hmiddle] at hbroken; cases hbroken
  | all hnumber hsent =>
    cases h' with
    | all hnumber' hsent' =>
      refine .all ?_ ?_
      · rw [hnumber', hnumber, List.length_append, Nat.add_assoc]
      · rw [hsent', hsent, hnumber, RequestLine.numbered_append, List.append_assoc]
    | butLast hnumber' hsome hbroken hclosed hsent' =>
      refine .butLast ?_ (List.append_ne_nil_of_right_ne_nil _ hsome) hbroken hclosed ?_
      · rw [hnumber', hnumber, List.length_append, Nat.add_assoc]
      · rw [hsent', hsent, hnumber, RequestLine.numbered_append,
          List.dropLast_append_of_ne_nil (RequestLine.numbered_ne_nil hsome), List.append_assoc]

variable {α : Type} {call? : Option (Call α)}

end Link

namespace CommandLine

/-! ## What a run writes -/

section

variable (options : Options) (link : Link)

end

section

variable {options : Options} {link last : Link}

/-- A question of the run is waited for, and the run gets as far as this question. -/
def Waits (options : Options) (link : Link) : Prop :=
  (opened options link).1 = none ∨
    (opened options link).1 = some (some ()) ∧
      ((analyzed options link).1 = none ∨
        (analyzed options link).2.broken = false ∧
          ((inspected options link).1 = none ∨ (decompiled options link).1 = none))

end

/-! ## How a run ends -/

namespace Result

variable {result : Result}

end Result

section

variable (start : String → List String → Except SystemError Engine) (options : Options)
  (files : Files) (fromEnvironment : Option Path)

/-- The settings of a run load, and the engine that they name starts. -/
def Starts (link : Link) : Prop :=
  ∃ chosen, settings options files fromEnvironment = .ok chosen ∧
    Link.spawn start chosen.engineCommand = .ok link

variable {start options files fromEnvironment} {link : Link} {run : Run}

theorem Starts.unique (h : Starts start options files fromEnvironment link) {other : Link}
    (h' : Starts start options files fromEnvironment other) : other = link := by
  obtain ⟨chosen, hsettings, hspawn⟩ := h
  obtain ⟨same, hsettings', hspawn'⟩ := h'
  rw [hsettings] at hsettings'
  obtain rfl := Except.ok.inj hsettings'
  rw [hspawn] at hspawn'
  exact (Except.ok.inj hspawn').symm

/-- A run takes its course over the link that it starts with, or fails before it has one. -/
theorem Ran.starts (h : Ran start options files fromEnvironment run) :
    (∃ link, Starts start options files fromEnvironment link ∧ ∃ ending last,
        Conducted options link (ending, last) ∧
          run = ⟨ending.map fun (desk, defeat) => ⟨some desk, defeat⟩, some last⟩) ∨
      (∀ link, ¬ Starts start options files fromEnvironment link) ∧
        ∃ failure, run = ⟨some ⟨none, some (.failure failure)⟩, none⟩ := by
  cases h with
  | unsettled hsettings =>
    refine .inr ⟨?_, _, rfl⟩
    rintro link ⟨chosen, hchosen, -⟩
    rw [hsettings] at hchosen
    cases hchosen
  | unspawned hsettings hspawn =>
    refine .inr ⟨?_, _, rfl⟩
    rintro link ⟨chosen, hchosen, hspawned⟩
    rw [hsettings] at hchosen
    obtain rfl := Except.ok.inj hchosen
    rw [hspawn] at hspawned
    cases hspawned
  | conducted hsettings hspawn hconducted =>
    exact .inl ⟨_, ⟨_, hsettings, hspawn⟩, _, _, hconducted, rfl⟩

end

/-- An engine that writes half of its second answer, and then nothing more. -/
example :
    let engine : Engine := .ofTurns [⟨Bytes.ofText "\x7b\"id\":1\x7d\n", .waits⟩,
      ⟨Bytes.ofText "\x7b\"id\":2,", .waits⟩]
    (run (fun _ _ => .ok engine) { binary := .ofText "a.out" } {} none).result.isNone := by
  decide +kernel

end CommandLine

end DecompilerDesk
