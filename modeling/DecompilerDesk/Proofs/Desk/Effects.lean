-- SUMMARY: What issuing a request and folding an outcome leave of a desk, and the numbers that requests and outcomes bear.
import DecompilerDesk.Proofs.Console.Newest
import DecompilerDesk.Proofs.Desk.History

/-!
# Effects

Every request bears the number under which its answer still counts: the epoch of the opened file, or
the ticket of a decompilation. An outcome bears the numbers of its request, and it is current while
the session has the same ones.
-/

namespace DecompilerDesk

/-! ## Numbers -/

/-- The request counts while the session has this epoch and this ticket. -/
def Request.Bears (epoch : Epoch) (ticket : Ticket) : Request → Prop
  | .openFile _ => True
  | .connectionsAt _ e | .connectionsAtEntry e | .inspect _ e | .analyze _ e | .analyzeAll e =>
    e = epoch
  | .decompile _ t => t = ticket

namespace Outcome

/-- The outcome counts while the session has this epoch and this ticket. -/
def Bears (epoch : Epoch) (ticket : Ticket) : Outcome → Prop
  | .opened _ => True
  | .connections e _ | .lowerings e _ | .sections e _ => e = epoch
  | .decompiled t _ => t = ticket

def IsCurrent (outcome : Outcome) (session : Session) : Prop :=
  outcome.Bears session.epoch session.ticket

instance (outcome : Outcome) (session : Session) : Decidable (outcome.IsCurrent session) :=
  match outcome with
  | .opened _ => isTrue trivial
  | .connections epoch _ | .lowerings epoch _ | .sections epoch _ =>
    inferInstanceAs (Decidable (epoch = session.epoch))
  | .decompiled ticket _ => inferInstanceAs (Decidable (ticket = session.ticket))

/-- What an outcome makes of a session that it counts for. -/
def foldInto (session : Session) : Outcome → Session
  | .opened path => session.reset path
  | .connections _ found =>
    { session with entryText := some ("Block's Connected Address : " ++ found.text) }
  | .lowerings _ found => { session with lowerings := found }
  | .sections _ found => session.merge found
  | .decompiled _ findings => session.present findings

/-- The line that says what an outcome brought that counts. -/
def successLine : Outcome → List Argument
  | .opened _ => [.ofText "Open Success"]
  | .connections _ found => [.ofText "Decompile Success", .json (Connections.codec.toJson found)]
  | .lowerings _ found =>
    [.ofText "IR Inspect Success", .ofCount found.length, .ofText "instructions"]
  | .sections _ found =>
    [.ofText "Section Analyzation Success", .ofCount found.length, .ofText "sections"]
  | .decompiled _ findings =>
    [.ofText "Decompile Success", .ofCount findings.assembly.length, .ofText "instructions"]

/-- The line that says why an outcome does not count. -/
def discardLine : Outcome → String
  | .decompiled .. => "Discarded outdated decompile result"
  | _ => "Discarded result for a previously opened file"

end Outcome

namespace Completion

/-- The completion brings an outcome that counts for the session. -/
def Counts (completion : Completion) (session : Session) : Prop :=
  ∃ outcome, completion.result = .ok outcome ∧ outcome.IsCurrent session

/-- What a completion makes of a session. -/
def foldInto (completion : Completion) (session : Session) : Session :=
  match completion.result with
  | .ok outcome => if outcome.IsCurrent session then outcome.foldInto session else session
  | .error _ => session

/-- The line that a completion leaves in the console. -/
def line (completion : Completion) (session : Session) : List Argument :=
  match completion.result with
  | .ok outcome =>
    if outcome.IsCurrent session then outcome.successLine else [.ofText outcome.discardLine]
  | .error failure => [.ofText completion.label, .ofText failure.message]

variable {completion : Completion} {session : Session}

theorem foldInto_of_isCurrent {outcome : Outcome} (hok : completion.result = .ok outcome)
    (h : outcome.IsCurrent session) : completion.foldInto session = outcome.foldInto session := by
  simp only [foldInto, hok, if_pos h]

theorem foldInto_of_not_counts (h : ¬ completion.Counts session) :
    completion.foldInto session = session := by
  unfold foldInto
  split
  next outcome hok => exact if_neg fun hcurrent => h ⟨outcome, hok, hcurrent⟩
  next => rfl

end Completion

/-- A successful completion brings what the request makes of some answer. -/
theorem Request.outcome_of_complete {request : Request} {reply : Except Failure Json}
    {outcome : Outcome} (h : (request.complete reply).result = .ok outcome) :
    ∃ answer, request.plan.outcome answer = outcome := by
  simp only [complete] at h
  cases hanswer : request.plan.call.result reply with
  | error failure => simp [hanswer, Except.map] at h
  | ok answer =>
    simp only [hanswer, Except.map, Except.ok.injEq] at h
    exact ⟨answer, h⟩

/-- An outcome bears the numbers of its request. -/
theorem Request.bears_iff_of_complete {request : Request} {reply : Except Failure Json}
    {outcome : Outcome} {epoch : Epoch} {ticket : Ticket}
    (h : (request.complete reply).result = .ok outcome) :
    outcome.Bears epoch ticket ↔ request.Bears epoch ticket := by
  obtain ⟨answer, rfl⟩ := request.outcome_of_complete h
  cases request <;> exact Iff.rfl

/-- A request to open a file, and no other, brings an opened file. -/
theorem Request.opened_iff_of_complete {request : Request} {reply : Except Failure Json}
    {outcome : Outcome} {path : Path} (h : (request.complete reply).result = .ok outcome) :
    outcome = .opened path ↔ request = .openFile path := by
  obtain ⟨answer, rfl⟩ := request.outcome_of_complete h
  cases request with
  | openFile picked =>
    exact ⟨fun h => congrArg Request.openFile (Outcome.opened.inj h),
      fun h => congrArg Outcome.opened (Request.openFile.inj h)⟩
  | _ => exact ⟨nofun, nofun⟩

/-- An outcome with other numbers than the session does not count. -/
theorem Outcome.not_isCurrent_of_bears {outcome : Outcome} {session : Session} {epoch : Epoch}
    {ticket : Ticket} (h : outcome.Bears epoch ticket) (hopened : ∀ path, outcome ≠ .opened path)
    (hepoch : epoch ≠ session.epoch) (hticket : ticket ≠ session.ticket) :
    ¬ outcome.IsCurrent session := by
  intro hcurrent
  cases outcome with
  | opened path => exact hopened path rfl
  | decompiled => exact hticket (h.symm.trans hcurrent)
  | _ => exact hepoch (h.symm.trans hcurrent)

/-- A decompilation has a ticket of its own. -/
theorem Request.not_decompile_of_bears {starts : List Address} {ticket : Ticket} {epoch : Epoch}
    (h : ∀ t, (Request.decompile starts ticket).Bears epoch t) : False := by
  have hzero : ticket = ⟨0⟩ := h ⟨0⟩
  have hone : ticket = ⟨1⟩ := h ⟨1⟩
  rw [hzero] at hone
  cases hone

/-! ## Lines -/

/-- The text of a line. -/
def Argument.message (arguments : List Argument) : String :=
  " ".intercalate (arguments.map Argument.render)

theorem Argument.render_ofText (text : String) : (Argument.ofText text).render = text := by
  simp [Argument.ofText, Argument.render, Argument.toJson, Json.sorted]

namespace Completion

/-- What is said of a completion. -/
def message (completion : Completion) (session : Session) : String :=
  match completion.result with
  | .error failure => completion.label ++ " " ++ failure.message
  | .ok outcome =>
    if outcome.IsCurrent session then Argument.message outcome.successLine else outcome.discardLine

theorem message_line (completion : Completion) (session : Session) :
    Argument.message (completion.line session) = completion.message session := by
  obtain ⟨label, result⟩ := completion
  cases result with
  | error failure =>
    simp only [line, message, Argument.message, List.map_cons, List.map_nil,
      Argument.render_ofText]
    rfl
  | ok outcome =>
    unfold line message
    by_cases hcurrent : outcome.IsCurrent session
    · simp only [if_pos hcurrent]
    · simp only [if_neg hcurrent, Argument.message, List.map_cons, List.map_nil,
        Argument.render_ofText]
      rfl

end Completion

namespace Desk

/-- Something was said at a desk, and nothing else has become of it. -/
structure OnlySays (before after : Desk) (message : String) : Prop where
  session : after.session = before.session
  layout : after.layout = before.layout
  drag : after.drag = before.drag
  console : before.console.Adds after.console message

theorem onlySays_log (desk : Desk) (texts : List String) :
    OnlySays desk { desk with console := desk.console.log texts } (" ".intercalate texts) :=
  ⟨rfl, rfl, rfl, desk.console.adds_log texts⟩

theorem say_eq (desk : Desk) (texts : List String) :
    desk.say texts = { desk with console := desk.console.log texts } := by
  have hrender : (texts.map Argument.ofText).map Argument.render = texts := by
    rw [List.map_map]
    exact (List.map_congr_left fun text _ => Argument.render_ofText text).trans (List.map_id _)
  simp only [say, logLine, Console.logLine, hrender]

/-! ## Issuing -/

/-- What is left of a desk apart from its session and its console. -/
def SamePlaces (before after : Desk) : Prop :=
  after.layout = before.layout ∧ after.drag = before.drag

/-- A refusal changes nothing but the console; a request bears the numbers of the session it leaves,
and only a decompilation takes a new one. -/
inductive Issued (desk : Desk) : Option Request → Desk → Prop where
  | refused (arguments : List Argument) : Issued desk none (desk.logLine arguments)
  | opening (path : Path) (arguments : List Argument) :
      Issued desk (some (.openFile path)) (desk.logLine arguments)
  | question {request : Request} :
      desk.session.file.isSome → (∀ ticket, request.Bears desk.session.epoch ticket) →
      Issued desk (some request) desk
  | decompilation :
      desk.session.file.isSome → desk.session.selected ≠ [] →
      Issued desk (some (.decompile desk.session.selected desk.session.beginDecompilation.1))
        { desk with session := desk.session.beginDecompilation.2 }

theorem issued_withFile (desk : Desk) (label : String) (go : Epoch → Option Request × Desk)
    (h : desk.session.file.isSome →
      Issued desk (go desk.session.epoch).1 (go desk.session.epoch).2) :
    Issued desk (desk.withFile label go).1 (desk.withFile label go).2 := by
  unfold withFile
  split
  · exact h ‹_›
  · exact .refused _

theorem issued_withAddress (desk : Desk) (label input : String)
    (go : Address → Option Request × Desk)
    (h : ∀ address, Issued desk (go address).1 (go address).2) :
    Issued desk (desk.withAddress label input go).1 (desk.withAddress label input go).2 := by
  unfold withAddress
  split
  · exact h _
  · exact .refused _

theorem issue_issued (desk : Desk) (intent : Intent) :
    Issued desk (desk.issue intent).1 (desk.issue intent).2 := by
  cases intent with
  | openFile picked =>
    cases picked with
    | none => exact .refused _
    | some path => exact .opening path _
  | analyze input =>
    refine issued_withFile desk _ _ fun hfile => ?_
    split
    · exact .question hfile fun _ => rfl
    · exact issued_withAddress desk _ _ _ fun _ => .question hfile fun _ => rfl
  | analyzeAll => exact issued_withFile desk _ _ fun hfile => .question hfile fun _ => rfl
  | connectionsAt input =>
    exact issued_withFile desk _ _ fun hfile =>
      issued_withAddress desk _ _ _ fun _ => .question hfile fun _ => rfl
  | connectionsAtEntry => exact issued_withFile desk _ _ fun hfile => .question hfile fun _ => rfl
  | inspect input =>
    exact issued_withFile desk _ _ fun hfile =>
      issued_withAddress desk _ _ _ fun _ => .question hfile fun _ => rfl
  | decompileSelected =>
    simp only [issue, decompileSelected]
    split
    · exact .refused _
    next hsome =>
      exact issued_withFile desk _ _ fun hfile =>
        .decompilation hfile (by simpa using hsome)

theorem issued_of_issue {desk after : Desk} {intent : Intent} {request : Option Request}
    (h : desk.issue intent = (request, after)) : Issued desk request after := by
  have hissued := desk.issue_issued intent
  rwa [h] at hissued

theorem Issued.samePlaces {desk after : Desk} {request : Option Request}
    (h : Issued desk request after) : SamePlaces desk after := by
  cases h <;> exact ⟨rfl, rfl⟩

/-! ## Folding -/

/-- An outcome that counts is folded into the session, and leaves one line in the console. -/
theorem accept_eq_of_isCurrent {desk : Desk} {outcome : Outcome}
    (h : outcome.IsCurrent desk.session) :
    desk.accept outcome =
      { desk.logLine outcome.successLine with session := outcome.foldInto desk.session } := by
  cases outcome with
  | opened path => rfl
  | connections epoch found | lowerings epoch found | sections epoch found =>
    have hcurrent : epoch = desk.session.epoch := h
    simp [accept, ifCurrent, Session.isCurrent, hcurrent, Outcome.foldInto, Outcome.successLine]
  | decompiled ticket findings =>
    have hcurrent : ticket = desk.session.ticket := h
    simp [accept, hcurrent, Session.finishDecompilation, Outcome.foldInto, Outcome.successLine]

theorem accept_of_isCurrent {desk : Desk} {outcome : Outcome}
    (h : outcome.IsCurrent desk.session) :
    (desk.accept outcome).session = outcome.foldInto desk.session := by
  rw [accept_eq_of_isCurrent h]

/-- An outcome that does not count leaves one line in the console. -/
theorem accept_of_not_isCurrent {desk : Desk} {outcome : Outcome}
    (h : ¬ outcome.IsCurrent desk.session) :
    desk.accept outcome = { desk with console := desk.console.log [outcome.discardLine] } := by
  cases outcome with
  | opened path => exact absurd trivial h
  | connections epoch found | lowerings epoch found | sections epoch found =>
    have hstale : epoch ≠ desk.session.epoch := h
    simp [accept, ifCurrent, Session.isCurrent, hstale, say_eq, Outcome.discardLine]
  | decompiled ticket findings =>
    have hstale : ticket ≠ desk.session.ticket := h
    simp [accept, hstale, say_eq, Outcome.discardLine]

/-- Applying a completion changes the session and adds one line to the console. -/
theorem apply_eq (desk : Desk) (completion : Completion) :
    desk.apply completion =
      { desk.logLine (completion.line desk.session) with
        session := completion.foldInto desk.session } := by
  obtain ⟨label, result⟩ := completion
  cases result with
  | error failure => rfl
  | ok outcome =>
    by_cases hcurrent : outcome.IsCurrent desk.session
    · simp only [apply, Completion.line, Completion.foldInto, if_pos hcurrent,
        accept_eq_of_isCurrent hcurrent]
    · simp only [apply, Completion.line, Completion.foldInto, if_neg hcurrent,
        accept_of_not_isCurrent hcurrent, logLine, Console.logLine, List.map_cons, List.map_nil,
        Argument.render_ofText]

theorem adds_logLine (desk : Desk) (arguments : List Argument) :
    desk.console.Adds (desk.logLine arguments).console (Argument.message arguments) :=
  desk.console.adds_log _

/-- Applying a completion adds one entry that says what became of it. -/
theorem adds_apply (desk : Desk) (completion : Completion) :
    desk.console.Adds (desk.apply completion).console (completion.message desk.session) := by
  rw [apply_eq, ← Completion.message_line]
  exact desk.adds_logLine _

/-- Applying a completion folds an outcome that counts into the session, or leaves the session. -/
theorem apply_session_cases (desk : Desk) (completion : Completion) :
    (∃ outcome, completion.result = .ok outcome ∧ outcome.IsCurrent desk.session ∧
      (desk.apply completion).session = outcome.foldInto desk.session) ∨
    (∀ outcome, completion.result = .ok outcome → ¬ outcome.IsCurrent desk.session) ∧
      (desk.apply completion).session = desk.session := by
  rw [apply_eq]
  by_cases h : completion.Counts desk.session
  · obtain ⟨outcome, hok, hcurrent⟩ := h
    exact .inl ⟨outcome, hok, hcurrent, Completion.foldInto_of_isCurrent hok hcurrent⟩
  · exact .inr ⟨fun outcome hok hcurrent => h ⟨outcome, hok, hcurrent⟩,
      Completion.foldInto_of_not_counts h⟩

theorem apply_samePlaces (desk : Desk) (completion : Completion) :
    SamePlaces desk (desk.apply completion) := by
  rw [apply_eq]
  exact ⟨rfl, rfl⟩

end Desk

/-! ## Deeds -/

namespace History

variable {history : History}

/-- What one more deed can make of the session. -/
inductive Turns (history : History) : Session → Prop where
  | kept : Turns history history.desk.session
  | asked : Turns history history.desk.session.beginDecompilation.2
  | folded {arrival origin : Nat} {completion : Completion} {outcome : Outcome} :
      history.deeds[arrival]? = some (.completed origin completion) →
      completion.result = .ok outcome → outcome.IsCurrent history.desk.session →
      Turns history (outcome.foldInto history.desk.session)
  | toggled (address : Address) : Turns history (history.desk.session.toggle address)
  | selectedAll : Turns history history.desk.session.selectAll
  | hovered (index : Option UInt64) : Turns history (history.desk.session.hover index)

theorem Allows.turns {deed : Deed} {after : Desk} (h : history.Allows deed after) :
    history.Turns after.session := by
  cases h with
  | @issued intent request desk hissue =>
    cases Desk.issued_of_issue hissue with
    | decompilation => exact .asked
    | _ => exact .kept
  | @refused intent desk hissue =>
    cases Desk.issued_of_issue hissue
    exact .kept
  | completed => exact .kept
  | @applied arrival origin completion hcompleted =>
    obtain ⟨outcome, hok, hcurrent, hfold⟩ | ⟨-, hsame⟩ :=
      history.desk.apply_session_cases completion
    · exact hfold ▸ .folded hcompleted hok hcurrent
    · exact hsame ▸ .kept
  | gestured gesture =>
    cases gesture with
    | toggleSection address => exact .toggled address
    | selectAll => exact .selectedAll
    | hover index => exact .hovered index
    | _ => exact .kept
  | waited => exact .kept

end History

/-! ## Places -/

theorem Drag.drop_none (drag : Drag) (layout : Layout) : drag.drop layout none = layout := by
  cases drag <;> rfl

namespace Event

/-- The event begins a drag, ends it or gives it up. -/
def drags : Event → Bool
  | .gesture (.pickUp _) | .gesture (.drop _) | .gesture .cancelDrag => true
  | _ => false

/-- The target of a drop. -/
def droppedOn? : Event → Option Target
  | .gesture (.drop target) => target
  | _ => none

end Event

namespace History

/-- An event that is not of a drag leaves the layout and the drag. -/
theorem samePlaces_step {history : History} {event : Event} (h : event.drags = false) :
    Desk.SamePlaces history.desk (history.step event).desk := by
  cases event with
  | intent intent =>
    simp only [step]
    split
    next hissue => exact (Desk.issued_of_issue hissue).samePlaces
    next hissue => exact (Desk.issued_of_issue hissue).samePlaces
  | reply origin reply =>
    simp only [step]
    split <;> exact ⟨rfl, rfl⟩
  | apply arrival =>
    simp only [step]
    split
    · exact Desk.apply_samePlaces _ _
    · exact ⟨rfl, rfl⟩
  | gesture gesture =>
    cases gesture with
    | pickUp | drop | cancelDrag => cases h
    | _ => exact ⟨rfl, rfl⟩
  | clock time => exact ⟨rfl, rfl⟩

/-- Only a drop changes the layout. -/
theorem layout_step (history : History) (event : Event) :
    (history.step event).desk.layout = history.desk.drag.drop history.desk.layout event.droppedOn? := by
  cases event with
  | gesture gesture =>
    cases gesture with
    | drop target => rfl
    | _ => exact (Drag.drop_none _ _).symm
  | _ => exact (samePlaces_step rfl).1.trans (Drag.drop_none _ _).symm

end History

end DecompilerDesk
