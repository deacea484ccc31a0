-- SUMMARY: Until the opening of a file is applied, nothing is on show, every other intent is refused, and the engine is asked nothing else.
import DecompilerDesk.Proofs.Desk.Effects
import Mathlib.Data.List.Induction

/-!
# Opening

A session names the file whose opening was applied last. Once it names a file it always names one,
whatever openings fail later. Before that it has nothing to show: only answers to requests fill a
session, and without a file no intent becomes a request but the opening of one.
-/

namespace DecompilerDesk

/-! ## The file that a session names -/

/-- The file whose opening was applied. -/
def Deed.named? : Deed → Option Path
  | .applied _ ⟨_, .ok (.opened path)⟩ => some path
  | _ => none

namespace History

theorem file_of_allows {history : History} {deed : Deed} {after : Desk}
    (h : history.Allows deed after) :
    after.session.file = deed.named?.or history.desk.session.file := by
  cases h with
  | @issued intent request desk hissue =>
    cases Desk.issued_of_issue hissue <;> rfl
  | @refused intent desk hissue =>
    cases Desk.issued_of_issue hissue
    rfl
  | completed => rfl
  | @applied arrival origin completion hcompleted =>
    obtain ⟨label, failure | outcome⟩ := completion
    · rfl
    by_cases hcurrent : outcome.IsCurrent history.desk.session
    · simp only [Desk.apply, Desk.accept_of_isCurrent hcurrent]
      cases outcome <;> rfl
    · simp only [Desk.apply, Desk.accept_of_not_isCurrent hcurrent]
      cases outcome with
      | opened path => exact absurd trivial hcurrent
      | _ => rfl
  | gestured gesture => cases gesture <;> rfl
  | waited => rfl

variable (capacity : UInt64) (layout : Layout)

theorem file_eq_getLast? (events : List Event) :
    (of (.start capacity layout) events).desk.session.file =
      ((of (.start capacity layout) events).deeds.filterMap Deed.named?).getLast? := by
  refine of_induction
    (P := fun history => history.desk.session.file = (history.deeds.filterMap Deed.named?).getLast?)
    rfl ?_ events
  intro history deed after ih hallows
  rw [add_desk, add_deeds, file_of_allows hallows, ih, List.filterMap_append, List.getLast?_append]
  cases hnamed : deed.named? <;> simp [hnamed]

theorem file_isSome_foldl {history : History} (h : history.desk.session.file.isSome)
    (events : List Event) : (events.foldl step history).desk.session.file.isSome := by
  refine foldl_induction (P := fun history => history.desk.session.file.isSome) h ?_ events
  intro history deed after h hallows
  rw [add_desk, file_of_allows hallows, Option.isSome_or, h, Bool.or_true]

end History

/-! ## Sessions that name no file -/

namespace History

/-- The request with number `origin` asks about a file. -/
def Asks (history : History) (origin : Nat) (request : Request) : Prop :=
  history.deeds[origin]? = some (.issued request) ∧ ∀ path, request ≠ .openFile path

/-- A question is only issued once a file is named. -/
theorem file_isSome_of_asks (desk : Desk) (events : List Event) {origin : Nat} {request : Request}
    (h : (of desk events).Asks origin request) : (of desk events).desk.session.file.isSome := by
  refine of_induction (P := fun history => ∀ origin request, history.Asks origin request →
    history.desk.session.file.isSome) ?_ ?_ events origin request h
  · rintro origin request ⟨hissued, -⟩
    simp [start] at hissued
  · rintro history deed after ih hallows origin request ⟨hissued, hasks⟩
    rw [add_desk]
    rcases deeds_add_cases hissued with hold | ⟨-, rfl⟩
    · have hfile := ih origin request ⟨hold, hasks⟩
      have hturns := hallows.turns
      generalize after.session = session at hturns ⊢
      cases hturns with
      | @folded arrival origin completion outcome =>
        cases outcome with
        | opened path => rfl
        | _ => exact hfile
      | _ => exact hfile
    · cases hallows with
      | @issued intent request desk hissue =>
        cases Desk.issued_of_issue hissue with
        | opening path => exact absurd rfl (hasks path)
        | question hfile => exact hfile
        | decompilation hfile => exact hfile

end History

/-- Nothing is on show. -/
structure Session.Blank (session : Session) : Prop where
  sections : session.sections = []
  shown : session.shown = none
  entryText : session.entryText = none
  lowerings : session.lowerings = []

theorem Session.Blank.selected_eq {session : Session} (h : session.Blank) : session.selected = [] := by
  rw [Session.selected, h.sections]
  rfl

namespace History

variable {capacity : UInt64} {layout : Layout} {events : List Event}

/-- Without a file, only requests to open one have been issued. -/
theorem openFile_of_issued (hfile : (of (.start capacity layout) events).desk.session.file = none)
    {origin : Nat} {request : Request}
    (hissued : (of (.start capacity layout) events).deeds[origin]? = some (.issued request)) :
    ∃ path, request = .openFile path := by
  by_contra hnone
  have hasks : (of (.start capacity layout) events).Asks origin request :=
    ⟨hissued, fun path hopen => hnone ⟨path, hopen⟩⟩
  have hsome := file_isSome_of_asks _ _ hasks
  rw [hfile] at hsome
  cases hsome

/-- Without a file, only an opening can be brought in. -/
theorem opened_of_completed (hfile : (of (.start capacity layout) events).desk.session.file = none)
    {arrival origin : Nat} {completion : Completion} {outcome : Outcome}
    (hcompleted : (of (.start capacity layout) events).deeds[arrival]? =
      some (.completed origin completion))
    (hok : completion.result = .ok outcome) : ∃ path, outcome = .opened path := by
  obtain ⟨request, reply, hissued, rfl⟩ := request_of_completed _ _ hcompleted
  obtain ⟨path, hopen⟩ := openFile_of_issued hfile hissued
  exact ⟨path, (Request.opened_iff_of_complete hok).mpr hopen⟩

/-- A session that still names no file after one more deed is as blank as before. -/
theorem blank_of_turns {session : Session} (hturns : (of (.start capacity layout) events).Turns session)
    (hfile : (of (.start capacity layout) events).desk.session.file = none)
    (hstill : session.file = none) (h : (of (.start capacity layout) events).desk.session.Blank) :
    session.Blank := by
  cases hturns with
  | kept => exact h
  | asked => exact ⟨h.sections, h.shown, h.entryText, h.lowerings⟩
  | folded hcompleted hok =>
    obtain ⟨path, rfl⟩ := opened_of_completed hfile hcompleted hok
    cases hstill
  | toggled address => exact ⟨by rw [Session.toggle, h.sections]; rfl, h.shown, h.entryText, h.lowerings⟩
  | selectedAll => exact ⟨by rw [Session.selectAll, h.sections]; rfl, h.shown, h.entryText, h.lowerings⟩
  | hovered index => exact ⟨h.sections, h.shown, h.entryText, h.lowerings⟩

theorem blank_of_no_file (hfile : (of (.start capacity layout) events).desk.session.file = none) :
    (of (.start capacity layout) events).desk.session.Blank := by
  induction events using List.reverseRecOn with
  | nil => exact ⟨rfl, rfl, rfl, rfl⟩
  | append_singleton events event ih =>
    rw [of_append, List.foldl_cons, List.foldl_nil] at hfile ⊢
    rcases step_cases (of (.start capacity layout) events) event with heq | ⟨deed, after, hallows, heq⟩
    · rw [heq] at hfile ⊢
      exact ih hfile
    · rw [heq, add_desk] at hfile ⊢
      have hbefore : (of (.start capacity layout) events).desk.session.file = none := by
        rw [file_of_allows hallows, Option.or_eq_none_iff] at hfile
        exact hfile.2
      exact blank_of_turns hallows.turns hbefore hfile (ih hbefore)

end History

/-! ## Intents without a file -/

namespace Intent

/-- Put before the message of a failure of what is wanted. -/
def label : Intent → String
  | .openFile _ => "Open Failed"
  | .analyze _ | .analyzeAll => "Section Analyzation Failed"
  | .connectionsAt _ | .connectionsAtEntry | .decompileSelected => "Decompile Failed"
  | .inspect _ => "IR Inspect Failed"

/-- What is said to an intent, other than to open a file, while no file is opened. -/
def refusal : Intent → String
  | .decompileSelected => "No sections selected"
  | intent => intent.label ++ " No file is open"

end Intent

namespace Desk

variable {desk : Desk}

theorem withFile_of_no_file (hfile : desk.session.file = none) (label : String)
    (go : Epoch → Option Request × Desk) :
    desk.withFile label go =
      (none, { desk with console := desk.console.log [label, Failure.noFile.message] }) := by
  rw [withFile, hfile, if_neg (by simp), say_eq]

/-- With a file, no intent goes unheard for want of one. -/
theorem withFile_of_file (hfile : desk.session.file.isSome) (label : String)
    (go : Epoch → Option Request × Desk) : desk.withFile label go = go desk.session.epoch :=
  if_pos hfile

theorem decompileSelected_of_unselected (hselected : desk.session.selected = []) :
    desk.decompileSelected =
      (none, { desk with console := desk.console.log ["No sections selected"] }) := by
  simp only [decompileSelected, hselected, List.isEmpty_nil, if_true, say_eq]

theorem decompileSelected_of_selected (hfile : desk.session.file.isSome)
    (hselected : desk.session.selected ≠ []) :
    desk.decompileSelected =
      (some (.decompile desk.session.selected desk.session.beginDecompilation.1),
        { desk with session := desk.session.beginDecompilation.2 }) := by
  simp only [decompileSelected, List.isEmpty_eq_false_iff.mpr hselected, Bool.false_eq_true, if_false,
    withFile_of_file hfile]

theorem issue_of_no_file (hfile : desk.session.file = none) (hselected : desk.session.selected = [])
    {intent : Intent} (hintent : ∀ picked, intent ≠ .openFile picked) :
    (desk.issue intent).1 = none ∧ OnlySays desk (desk.issue intent).2 intent.refusal := by
  cases intent with
  | openFile picked => exact absurd rfl (hintent picked)
  | decompileSelected =>
    rw [issue, decompileSelected_of_unselected hselected]
    exact ⟨rfl, desk.onlySays_log _⟩
  | _ =>
    simp only [issue, analyze, analyzeAll, connectionsAt, connectionsAtEntry, inspect,
      withFile_of_no_file hfile]
    exact ⟨trivial, desk.onlySays_log _⟩

end Desk

/-! ## Before the opening of a file -/

namespace History

variable (capacity : UInt64) (layout : Layout)

/-- Sections are only selected once a file is named. -/
theorem file_isSome_of_selected {events : List Event}
    (h : (of (.start capacity layout) events).desk.session.selected ≠ []) :
    (of (.start capacity layout) events).desk.session.file.isSome := by
  by_contra hnone
  have hfile := Option.not_isSome_iff_eq_none.mp hnone
  exact h (blank_of_no_file hfile).selected_eq

/-- Whatever is done at a desk, its session names the file whose opening was applied last, and once it
names one it always does. Until then nothing is on show, every intent but the opening of a file is
refused with one entry in the console and changes nothing else, and only requests to open files are
there to be put before the engine. Sections can only be selected when a file is named, so to decompile
the selected ones is never refused for want of a file. -/
theorem nothing_before_opening (events : List Event) :
    let history := of (.start capacity layout) events
    let session := history.desk.session
    session.file = (history.deeds.filterMap Deed.named?).getLast? ∧
      (session.file.isSome →
        ∀ more, (of (.start capacity layout) (events ++ more)).desk.session.file.isSome) ∧
      (session.file = none →
        (session.sections = [] ∧ session.shown = none ∧ session.entryText = none ∧
          session.lowerings = []) ∧
        (∀ intent, (∀ picked, intent ≠ .openFile picked) →
          (history.desk.issue intent).1 = none ∧
            history.desk.OnlySays (history.desk.issue intent).2 intent.refusal) ∧
        ∀ (origin : Nat) (request : Request), history.deeds[origin]? = some (.issued request) →
          request.command = "open_file") ∧
      (session.selected ≠ [] → session.file.isSome) ∧
      ∀ after, history.desk.issue .decompileSelected = (none, after) →
        session.selected = [] ∧ history.desk.OnlySays after "No sections selected" := by
  intro history session
  have hselected : session.selected ≠ [] → session.file.isSome :=
    file_isSome_of_selected capacity layout
  refine ⟨file_eq_getLast? capacity layout events, fun hsome more => ?_, fun hnone => ⟨?_, ?_, ?_⟩,
    hselected, fun after hrefused => ?_⟩
  · rw [of_append]
    exact file_isSome_foldl hsome more
  · obtain ⟨hsections, hshown, hentryText, hlowerings⟩ := blank_of_no_file hnone
    exact ⟨hsections, hshown, hentryText, hlowerings⟩
  · intro intent hintent
    exact Desk.issue_of_no_file hnone (blank_of_no_file hnone).selected_eq hintent
  · intro origin request hissued
    obtain ⟨path, rfl⟩ := openFile_of_issued hnone hissued
    rfl
  · by_cases hempty : session.selected = []
    · have hsaid := Desk.decompileSelected_of_unselected hempty
      obtain ⟨-, rfl⟩ := Prod.mk.inj (hrefused.symm.trans hsaid)
      exact ⟨hempty, history.desk.onlySays_log _⟩
    · have hasked := Desk.decompileSelected_of_selected (hselected hempty) hempty
      cases hrefused.symm.trans hasked

/-- After an opening that failed, an inspection is refused; an opening that fails later leaves the file
that was opened in between. -/
theorem nothing_before_opening_of_failed_opening :
    let failure : Failure := .engine "open_file" "no such file"
    let opening (path : String) : Event := .intent (.openFile (some (.ofText path)))
    let early := [.intent .analyzeAll, opening "/one", .reply 1 (.error failure), .apply 2]
    let late := [opening "/one", .reply 4 (.ok .null), .apply 5, opening "/two",
      .reply 7 (.error failure), .apply 8]
    let desk := (of (.start 8 .standard) early).desk
    desk.session.file = none ∧ (desk.issue (.inspect "16")).1 = none ∧
      desk.OnlySays (desk.issue (.inspect "16")).2 "IR Inspect Failed No file is open" ∧
      (desk.issue (.inspect "16")).2.console.entries.map (·.message) =
        ["Section Analyzation Failed No file is open", "Open Fireball with /one",
          "Open Failed open_file: no such file", "IR Inspect Failed No file is open"] ∧
      (of (.start 8 .standard) (early ++ late)).desk.session.file = some (.ofText "/one") := by
  intro failure opening early late desk
  obtain ⟨-, -, hbefore, -⟩ := nothing_before_opening 8 .standard early
  obtain ⟨hlast, -⟩ := nothing_before_opening 8 .standard (early ++ late)
  have hnone : desk.session.file = none := by decide +kernel
  obtain ⟨hrefused, hsays⟩ := (hbefore hnone).2.1 (.inspect "16") nofun
  exact ⟨hnone, hrefused, hsays, by decide +kernel, hlast.trans (by decide +kernel)⟩

end History

end DecompilerDesk
