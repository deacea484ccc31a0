-- SUMMARY: A completion changes nothing on the desk but its own part of the session, and this only if it brings an answer that still counts.
import DecompilerDesk.Proofs.Desk.Commuting

/-!
# Slices

Every answer belongs to one slice of the session: connections to the entry text, an inspection to the
lowerings, an analysis to the sections, a decompilation to what is on show and hovered over. Only the
opening of a file touches them all. A failure and an answer that came too late touch none, and a reply
that does not have the shape of an answer is a failure.
-/

namespace DecompilerDesk

/-- A value that does not have the shape of an answer breaks the protocol. -/
theorem Request.complete_of_misshapen {request : Request} {value : Json} {problem : Json.Problem}
    (h : request.plan.call.answer.ofJson value = .error problem) :
    request.complete (.ok value) =
      ⟨request.label,
        .error (.protocol ("unexpected " ++ request.command ++ " result: " ++ problem.message))⟩ := by
  simp only [complete, Call.result, Except.bind, h]
  rfl

namespace Desk

theorem apply_of_failed (desk : Desk) {completion : Completion} {failure : Failure}
    (h : completion.result = .error failure) :
    desk.apply completion =
      { desk with console := desk.console.log [completion.label, failure.message] } := by
  rw [apply, h]
  exact desk.say_eq _

/-- On every desk and for every completion: the layout and the drag stay, and so does the session if the
completion failed. An opened file leaves a new session with the next ticket and the next epoch; an answer
that counts changes its own slice and none of the others, and an answer that came too late changes
nothing. A reply of the wrong shape only leaves a line in the console. -/
theorem apply_changes_own_slice (desk : Desk) (completion : Completion) :
    let session := desk.session
    let after := desk.apply completion
    (after.layout = desk.layout ∧ after.drag = desk.drag) ∧
    (match completion.result with
      | .error _ => after.session = session
      | .ok (.opened path) =>
        after.session =
          { sections := []
            shown := none
            hovered := none
            entryText := none
            lowerings := []
            file := some path
            ticket := ⟨session.ticket.serial + 1⟩
            epoch := ⟨session.epoch.serial + 1⟩ }
      | .ok (.connections epoch found) =>
        after.session =
          if epoch = session.epoch then
            { session with entryText := some ("Block's Connected Address : " ++ found.text) }
          else session
      | .ok (.lowerings epoch found) =>
        after.session = if epoch = session.epoch then { session with lowerings := found } else session
      | .ok (.sections epoch found) =>
        after.session =
          if epoch = session.epoch then { session with sections := (session.merge found).sections }
          else session
      | .ok (.decompiled ticket findings) =>
        after.session =
          if ticket = session.ticket then
            { session with shown := some (.ofDecompilation findings), hovered := none }
          else session) ∧
    ∀ (request : Request) (value : Json) (problem : Json.Problem),
      request.plan.call.answer.ofJson value = .error problem →
      desk.apply (request.complete (.ok value)) =
        { desk with
          console := desk.console.log [request.label,
            "Engine protocol error: " ++
              ("unexpected " ++ request.command ++ " result: " ++ problem.message)] } := by
  intro session after
  refine ⟨desk.apply_samePlaces completion, ?_, fun request value problem hshape => ?_⟩
  · have hfolded : after.session = completion.foldInto session := by
      rw [show after = _ from desk.apply_eq completion]
    obtain ⟨label, result⟩ := completion
    rw [hfolded]
    cases result with
    | error failure => rfl
    | ok outcome => cases outcome <;> rfl
  · rw [Request.complete_of_misshapen hshape, apply_of_failed desk rfl]
    rfl

/-- On a desk with a selected section, the decompilation comes with a text in place of its assembly. -/
theorem apply_changes_own_slice_of_misshapen_decompilation :
    let session : Session :=
      { sections := [⟨16, none, true, true⟩]
        file := some (.ofText "/one")
        ticket := ⟨2⟩
        epoch := ⟨1⟩ }
    let desk : Desk := { Desk.start 8 .standard with session := session }
    let request : Request := .decompile [16] ⟨2⟩
    let value : Json := .object [("assembly", .text "ret")]
    request.plan.call.answer.ofJson value = .error (.wrongType (.text "ret") "a sequence") ∧
      desk.apply (request.complete (.ok value)) =
        { desk with
          console := desk.console.log ["Decompile Failed",
            "Engine protocol error: " ++ ("unexpected decompile_sections result: " ++
              "invalid type: string \"ret\", expected a sequence")] } := by
  intro session desk request value
  have hshape : request.plan.call.answer.ofJson value = .error (.wrongType (.text "ret") "a sequence") :=
    rfl
  have hmessage : "unexpected " ++ request.command ++ " result: " ++
      (Json.Problem.wrongType (.text "ret") "a sequence").message =
      "unexpected decompile_sections result: " ++
        "invalid type: string \"ret\", expected a sequence" := by decide +kernel
  obtain ⟨-, -, hmisshapen⟩ := apply_changes_own_slice desk (request.complete (.ok value))
  have hafter := hmisshapen request value _ hshape
  rw [hmessage] at hafter
  exact ⟨hshape, hafter⟩

end Desk

end DecompilerDesk
