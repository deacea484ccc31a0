-- SUMMARY: From the opening of a file on, desks with different pasts behave alike, whatever answers from the past still come in.
import DecompilerDesk.Proofs.Desk.Freshness

/-!
# Isolation

The opening of a file forgets all that a session holds but the count of its tickets and epochs. So
the past of a session only shows in its numbers: two histories that begin with the same opening and
go on with the same events differ by a constant in every ticket and by another in every epoch. An
answer to a request from before the opening bears smaller numbers than these, and is dropped.
-/

namespace DecompilerDesk

/-! ## Renumbering -/

/-- New numbers for old ones. -/
structure Numbering where
  epoch : Epoch → Epoch
  ticket : Ticket → Ticket

namespace Numbering

/-- All numbers are the same. -/
def erased : Numbering := ⟨fun _ => ⟨0⟩, fun _ => ⟨0⟩⟩

/-- The numbers ahead by constants. -/
def ahead (epochs tickets : Nat) : Numbering :=
  ⟨fun epoch => ⟨epoch.serial + epochs⟩, fun ticket => ⟨ticket.serial + tickets⟩⟩

end Numbering

variable (numbering : Numbering)

def Session.renumber (session : Session) : Session :=
  { session with
    ticket := numbering.ticket session.ticket
    epoch := numbering.epoch session.epoch }

def Request.renumber : Request → Request
  | .openFile path => .openFile path
  | .connectionsAt address epoch => .connectionsAt address (numbering.epoch epoch)
  | .connectionsAtEntry epoch => .connectionsAtEntry (numbering.epoch epoch)
  | .inspect address epoch => .inspect address (numbering.epoch epoch)
  | .analyze address epoch => .analyze address (numbering.epoch epoch)
  | .analyzeAll epoch => .analyzeAll (numbering.epoch epoch)
  | .decompile starts ticket => .decompile starts (numbering.ticket ticket)

def Outcome.renumber : Outcome → Outcome
  | .opened path => .opened path
  | .connections epoch found => .connections (numbering.epoch epoch) found
  | .lowerings epoch found => .lowerings (numbering.epoch epoch) found
  | .sections epoch found => .sections (numbering.epoch epoch) found
  | .decompiled ticket findings => .decompiled (numbering.ticket ticket) findings

def Completion.renumber (completion : Completion) : Completion :=
  ⟨completion.label, completion.result.map (Outcome.renumber numbering)⟩

def Deed.renumber : Deed → Deed
  | .issued request => .issued (request.renumber numbering)
  | .refused intent => .refused intent
  | .completed origin completion => .completed origin (completion.renumber numbering)
  | .applied origin completion => .applied origin (completion.renumber numbering)
  | .gestured gesture => .gestured gesture
  | .waited time => .waited time

/-- What a session shows: all of it but its numbers. -/
def Session.visible (session : Session) : Session := session.renumber .erased

/-- What was done, but for the numbers. -/
def Deed.unnumbered (deed : Deed) : Deed := deed.renumber .erased

theorem Deed.unnumbered_renumber (deed : Deed) :
    (deed.renumber numbering).unnumbered = deed.unnumbered := by
  have hcompletion (completion : Completion) :
      (completion.renumber numbering).renumber .erased = completion.renumber .erased := by
    obtain ⟨label, result⟩ := completion
    cases result with
    | error failure => rfl
    | ok outcome => cases outcome <;> rfl
  cases deed with
  | issued request => cases request <;> rfl
  | completed origin completion => exact congrArg (Deed.completed origin) (hcompletion completion)
  | applied origin completion => exact congrArg (Deed.applied origin) (hcompletion completion)
  | _ => rfl

/-! ## Histories ahead of others -/

theorem Request.complete_renumber (request : Request) (reply : Except Failure Json) :
    (request.renumber numbering).complete reply = (request.complete reply).renumber numbering := by
  have hplan : (request.renumber numbering).plan =
      ⟨request.plan.call, fun answer => (request.plan.outcome answer).renumber numbering⟩ := by
    cases request <;> rfl
  have hlabel : (request.renumber numbering).label = request.label := by cases request <;> rfl
  simp only [complete, hlabel, Completion.renumber]
  rw [hplan]
  cases request.plan.call.result reply <;> rfl

section Ahead

variable {epochs tickets : Nat}

theorem Numbering.epoch_ahead_inj {epoch other : Epoch} :
    (ahead epochs tickets).epoch epoch = (ahead epochs tickets).epoch other ↔ epoch = other := by
  cases epoch
  cases other
  simp [ahead]

theorem Numbering.ticket_ahead_inj {ticket other : Ticket} :
    (ahead epochs tickets).ticket ticket = (ahead epochs tickets).ticket other ↔ ticket = other := by
  cases ticket
  cases other
  simp [ahead]

theorem Outcome.isCurrent_ahead_iff {outcome : Outcome} {session : Session} :
    (outcome.renumber (.ahead epochs tickets)).IsCurrent (session.renumber (.ahead epochs tickets)) ↔
      outcome.IsCurrent session := by
  cases outcome with
  | opened path => exact Iff.rfl
  | decompiled ticket findings => exact Numbering.ticket_ahead_inj
  | _ => exact Numbering.epoch_ahead_inj

theorem Outcome.foldInto_ahead (outcome : Outcome) (session : Session) :
    (outcome.renumber (.ahead epochs tickets)).foldInto (session.renumber (.ahead epochs tickets)) =
      (outcome.foldInto session).renumber (.ahead epochs tickets) := by
  cases outcome with
  | opened path =>
    simp [foldInto, renumber, Session.reset, Session.renumber, Numbering.ahead, Nat.add_right_comm]
  | _ => rfl

/-- A desk whose session is another's with its numbers ahead. -/
def Desk.Ahead (epochs tickets : Nat) (plain desk : Desk) : Prop :=
  desk.session = plain.session.renumber (.ahead epochs tickets)

/-- An intent came to the same at a desk and at one ahead of it. -/
def Desk.IssuedAhead (epochs tickets : Nat) (plain issued : Option Request × Desk) : Prop :=
  issued.1 = plain.1.map (Request.renumber (.ahead epochs tickets)) ∧
    Ahead epochs tickets plain.2 issued.2

namespace Desk

variable {plain desk : Desk}

theorem Ahead.withFile (h : Ahead epochs tickets plain desk) (label : String)
    {goPlain go : Epoch → Option Request × Desk}
    (hgo : ∀ epoch,
      IssuedAhead epochs tickets (goPlain epoch) (go ((Numbering.ahead epochs tickets).epoch epoch))) :
    IssuedAhead epochs tickets (plain.withFile label goPlain) (desk.withFile label go) := by
  have hfile : desk.session.file = plain.session.file := by rw [h]; rfl
  have hepoch : desk.session.epoch = (Numbering.ahead epochs tickets).epoch plain.session.epoch := by
    rw [h]
    rfl
  simp only [Desk.withFile, hfile, hepoch]
  split
  · exact hgo _
  · exact ⟨rfl, h⟩

theorem Ahead.withAddress (h : Ahead epochs tickets plain desk) (label input : String)
    {goPlain go : Address → Option Request × Desk}
    (hgo : ∀ address, IssuedAhead epochs tickets (goPlain address) (go address)) :
    IssuedAhead epochs tickets (plain.withAddress label input goPlain)
      (desk.withAddress label input go) := by
  unfold Desk.withAddress
  split
  · exact hgo _
  · exact ⟨rfl, h⟩

theorem Ahead.issue (h : Ahead epochs tickets plain desk) (intent : Intent) :
    IssuedAhead epochs tickets (plain.issue intent) (desk.issue intent) := by
  cases intent with
  | openFile picked => cases picked <;> exact ⟨rfl, h⟩
  | analyze input =>
    refine h.withFile _ fun epoch => ?_
    split
    · exact ⟨rfl, h⟩
    · exact h.withAddress _ _ fun _ => ⟨rfl, h⟩
  | analyzeAll => exact h.withFile _ fun _ => ⟨rfl, h⟩
  | connectionsAt input => exact h.withFile _ fun _ => h.withAddress _ _ fun _ => ⟨rfl, h⟩
  | connectionsAtEntry => exact h.withFile _ fun _ => ⟨rfl, h⟩
  | inspect input => exact h.withFile _ fun _ => h.withAddress _ _ fun _ => ⟨rfl, h⟩
  | decompileSelected =>
    have hselected : desk.session.selected = plain.session.selected := by rw [h]; rfl
    simp only [Desk.issue, decompileSelected, hselected]
    split
    · exact ⟨rfl, h⟩
    · refine h.withFile _ fun _ => ?_
      have hbegun : desk.session.beginDecompilation.2 =
          plain.session.beginDecompilation.2.renumber (.ahead epochs tickets) := by
        rw [h]
        simp [Session.beginDecompilation, Session.renumber, Numbering.ahead, Nat.add_right_comm]
      refine ⟨?_, hbegun⟩
      have hticket := congrArg Session.ticket hbegun
      exact congrArg (fun ticket => some (Request.decompile plain.session.selected ticket)) hticket

theorem Ahead.apply (h : Ahead epochs tickets plain desk) (completion : Completion) :
    Ahead epochs tickets (plain.apply completion)
      (desk.apply (completion.renumber (.ahead epochs tickets))) := by
  obtain ⟨label, result⟩ := completion
  cases result with
  | error failure => exact h
  | ok outcome =>
    by_cases hcurrent : outcome.IsCurrent plain.session
    · have hahead : (outcome.renumber (.ahead epochs tickets)).IsCurrent desk.session := by
        rw [h]
        exact Outcome.isCurrent_ahead_iff.mpr hcurrent
      have hfold := accept_of_isCurrent hahead
      rw [h, Outcome.foldInto_ahead, ← accept_of_isCurrent hcurrent] at hfold
      exact hfold
    · have hahead : ¬ (outcome.renumber (.ahead epochs tickets)).IsCurrent desk.session := by
        rw [h]
        exact mt Outcome.isCurrent_ahead_iff.mp hcurrent
      simp only [Ahead, Desk.apply, Completion.renumber, Except.map, accept_of_not_isCurrent hcurrent,
        accept_of_not_isCurrent hahead]
      exact h

theorem Ahead.perform (h : Ahead epochs tickets plain desk) (gesture : Gesture) :
    Ahead epochs tickets (plain.perform gesture) (desk.perform gesture) := by
  cases gesture with
  | toggleSection address => exact congrArg (Session.toggle · address) h
  | selectAll => exact congrArg Session.selectAll h
  | hover index => exact congrArg (Session.hover · index) h
  | _ => exact h

end Desk

end Ahead

/-- A history whose numbers are ahead of those of another, in its session and in all its deeds. -/
structure History.Ahead (epochs tickets : Nat) (plain history : History) : Prop where
  desk : Desk.Ahead epochs tickets plain.desk history.desk
  deeds : history.deeds = plain.deeds.map (Deed.renumber (.ahead epochs tickets))

namespace History

variable {epochs tickets : Nat} {plain history : History}

theorem Ahead.add (h : Ahead epochs tickets plain history) (deed : Deed) {plainAfter after : Desk}
    (hafter : Desk.Ahead epochs tickets plainAfter after) :
    Ahead epochs tickets (plain.add deed plainAfter)
      (history.add (deed.renumber (.ahead epochs tickets)) after) :=
  ⟨hafter, by simp [h.deeds]⟩

theorem Ahead.step (h : Ahead epochs tickets plain history) (event : Event) :
    Ahead epochs tickets (plain.step event) (history.step event) := by
  cases event with
  | intent intent =>
    obtain ⟨hrequest, hafter⟩ := h.desk.issue intent
    rcases hplain : plain.desk.issue intent with ⟨request, plainAfter⟩
    rcases hissue : history.desk.issue intent with ⟨issued, after⟩
    rw [hplain, hissue] at hrequest hafter
    obtain rfl : issued = request.map _ := hrequest
    cases request with
    | none =>
      simp only [History.step, hplain, hissue, Option.map_none]
      exact h.add (.refused intent) hafter
    | some request =>
      simp only [History.step, hplain, hissue, Option.map_some]
      exact h.add (.issued request) hafter
  | reply origin reply =>
    simp only [History.step, h.deeds, List.getElem?_map]
    rcases plain.deeds[origin]? with _ | deed
    · exact h
    · cases deed with
      | issued request =>
        simp only [Option.map_some, Deed.renumber, Request.complete_renumber]
        exact h.add (.completed origin (request.complete reply)) h.desk
      | _ => exact h
  | apply arrival =>
    simp only [History.step, h.deeds, List.getElem?_map]
    rcases plain.deeds[arrival]? with _ | deed
    · exact h
    · cases deed with
      | completed origin completion =>
        exact h.add (.applied origin completion) (h.desk.apply completion)
      | _ => exact h
  | gesture gesture => exact h.add (.gestured gesture) (h.desk.perform gesture)
  | clock time => exact h.add (.waited time) h.desk

end History

/-! ## Answers from before the opening -/

/-- What comes about after the opening of a file. -/
inductive Happening where
  | event (event : Event)
  /-- The completion of a request from before the opening is applied. -/
  | leftover (completion : Completion)

def Happening.event? : Happening → Option Event
  | .event happened => some happened
  | .leftover _ => none

/-- The completion of a request that was issued in a history, other than the opening of a file. -/
def Completion.LeftBy (past : History) (completion : Completion) : Prop :=
  ∃ request reply, .issued request ∈ past.deeds ∧ (∀ path, request ≠ .openFile path) ∧
    completion = request.complete reply

namespace History

/-- The history after one more happening. What is left over is not among its own deeds. -/
def meet (history : History) : Happening → History
  | .event event => history.step event
  | .leftover completion => { history with desk := history.desk.apply completion }

/-- A completion left over does not count once both numbers of the session have gone on. -/
theorem leftover_not_isCurrent {desk : Desk} {past : List Event} {completion : Completion}
    {outcome : Outcome} {session : Session} (hleft : completion.LeftBy (of desk past))
    (hepoch : (of desk past).desk.session.epoch.serial < session.epoch.serial)
    (hticket : (of desk past).desk.session.ticket.serial < session.ticket.serial)
    (hok : completion.result = .ok outcome) : ¬ outcome.IsCurrent session := by
  obtain ⟨request, reply, hissued, hopens, rfl⟩ := hleft
  obtain ⟨origin, hissued⟩ := List.getElem?_of_mem hissued
  obtain ⟨epoch, ticket, hbears, hepochLe, hticketLe⟩ := bears_le_of_issued desk past hissued
  refine Outcome.not_isCurrent_of_bears ((Request.bears_iff_of_complete hok).mpr hbears) ?_ ?_ ?_
  · rintro path rfl
    exact hopens path ((Request.opened_iff_of_complete hok).mp rfl)
  · rintro rfl
    omega
  · rintro rfl
    omega

theorem Ahead.steps {epochs tickets : Nat} {plain history : History}
    (h : Ahead epochs tickets plain history) (events : List Event) :
    Ahead epochs tickets (events.foldl History.step plain) (events.foldl History.step history) := by
  induction events generalizing plain history with
  | nil => exact h
  | cons event rest ih => exact ih (h.step event)

/-- What happens at a history ahead of another is what the events alone do at the other. -/
theorem Ahead.meet {epochs tickets : Nat} {plain history : History} {desk : Desk} {past : List Event}
    (h : Ahead epochs tickets plain history) {happenings : List Happening}
    (hepochs : (of desk past).desk.session.epoch.serial < epochs)
    (htickets : (of desk past).desk.session.ticket.serial < tickets)
    (hleft : ∀ completion, .leftover completion ∈ happenings → completion.LeftBy (of desk past)) :
    Ahead epochs tickets ((happenings.filterMap Happening.event?).foldl History.step plain)
      (happenings.foldl History.meet history) := by
  induction happenings generalizing plain history with
  | nil => exact h
  | cons happening rest ih =>
    have hrest : ∀ completion, .leftover completion ∈ rest → completion.LeftBy (of desk past) :=
      fun completion hmem => hleft completion (List.mem_cons_of_mem _ hmem)
    cases happening with
    | event event => exact ih (h.step event) hrest
    | leftover completion =>
      have hnumbers : epochs ≤ history.desk.session.epoch.serial ∧
          tickets ≤ history.desk.session.ticket.serial := by
        rw [h.desk]
        exact ⟨Nat.le_add_left _ _, Nat.le_add_left _ _⟩
      have hsame : (history.desk.apply completion).session = history.desk.session := by
        obtain ⟨outcome, hok, hcurrent, -⟩ | ⟨-, hsame⟩ :=
          history.desk.apply_session_cases completion
        · exact absurd hcurrent (leftover_not_isCurrent (hleft completion List.mem_cons_self)
            (by omega) (by omega) hok)
        · exact hsame
      exact ih ⟨hsame.trans h.desk, h.deeds⟩ hrest

/-- An opened file puts the numbers of a session ahead of those of a session without a past. -/
theorem ahead_of_opened (desk plain : Desk) (label : String) (path : Path) :
    Ahead (desk.session.epoch.serial + 1) (desk.session.ticket.serial + 1)
      (start { plain with session := { file := some path } })
      (start (desk.apply ⟨label, .ok (.opened path)⟩)) where
  desk := by
    simp [start, Desk.Ahead, Desk.apply, Desk.accept, Session.reset, Session.renumber, Numbering.ahead]
  deeds := rfl

theorem Ahead.visible_eq {epochs tickets : Nat} {plain history : History}
    (h : Ahead epochs tickets plain history) :
    history.desk.session.visible = plain.desk.session.visible := by
  rw [h.desk]
  rfl

theorem Ahead.unnumbered_eq {epochs tickets : Nat} {plain history : History}
    (h : Ahead epochs tickets plain history) :
    history.deeds.map Deed.unnumbered = plain.deeds.map Deed.unnumbered := by
  rw [h.deeds, List.map_map]
  exact List.map_congr_left fun deed _ => deed.unnumbered_renumber _

/-- A file is opened at two desks with any pasts, and the same events follow at both; at one of them
completions from before the opening are applied in between. Then both sessions show the same at every
moment, and each event issues the same request and comes to the same, but for the numbers. -/
theorem isolated_since_opening (desk₁ desk₂ : Desk) (past₁ past₂ : List Event)
    (label₁ label₂ : String) (path : Path) (happenings : List Happening)
    (hleft : ∀ completion, .leftover completion ∈ happenings → completion.LeftBy (of desk₂ past₂)) :
    let opened (desk : Desk) (label : String) := desk.apply ⟨label, .ok (.opened path)⟩
    let undisturbed :=
      of (opened (of desk₁ past₁).desk label₁) (happenings.filterMap Happening.event?)
    let disturbed := happenings.foldl meet (start (opened (of desk₂ past₂).desk label₂))
    disturbed.desk.session.visible = undisturbed.desk.session.visible ∧
      disturbed.deeds.map Deed.unnumbered = undisturbed.deeds.map Deed.unnumbered := by
  intro opened undisturbed disturbed
  -- both runs are ahead of the events at a session without a past
  have hundisturbed :=
    (ahead_of_opened (of desk₁ past₁).desk desk₁ label₁ path).steps
      (happenings.filterMap Happening.event?)
  have hdisturbed :=
    (ahead_of_opened (of desk₂ past₂).desk desk₁ label₂ path).meet
      (Nat.lt_succ_self _) (Nat.lt_succ_self _) hleft
  exact ⟨hdisturbed.visible_eq.trans hundisturbed.visible_eq.symm,
    hdisturbed.unnumbered_eq.trans hundisturbed.unnumbered_eq.symm⟩

/-- An analysis of one file is left over when another is opened, beside one of the other file. -/
theorem isolated_since_opening_of_late_analysis :
    let found (start : Int) : Json :=
      .array [.object [("startAddress", .integer start), ("analyzed", .boolean true)]]
    let desk := Desk.start 8 .standard
    let past : List Event :=
      [.intent (.openFile (some (.ofText "/one"))), .reply 0 (.ok .null), .apply 1, .intent .analyzeAll]
    let late := (Request.analyzeAll ⟨1⟩).complete (.ok (found 16))
    let happenings : List Happening :=
      [.event (.intent .analyzeAll), .event (.reply 0 (.ok (found 32))), .event (.apply 1),
        .leftover late, .event (.gesture .selectAll)]
    let opened : Completion := ⟨"Open Failed", .ok (.opened (.ofText "/two"))⟩
    let disturbed := happenings.foldl meet (start ((of desk past).desk.apply opened))
    late.LeftBy (of desk past) ∧ .leftover late ∈ happenings ∧
      disturbed.desk.session.sections = [⟨32, none, true, true⟩] ∧
      disturbed.desk.session.visible =
        (of (desk.apply opened) (happenings.filterMap Happening.event?)).desk.session.visible := by
  intro found desk past late happenings opened disturbed
  have hlate : late.LeftBy (of desk past) :=
    ⟨.analyzeAll ⟨1⟩, .ok (found 16), List.mem_of_getElem? (i := 3) rfl, nofun, rfl⟩
  have hleft : ∀ completion, .leftover completion ∈ happenings → completion.LeftBy (of desk past) := by
    intro completion hmem
    obtain rfl : completion = late := by simpa [happenings] using hmem
    exact hlate
  exact ⟨hlate, by simp [happenings], rfl,
    (isolated_since_opening desk desk [] past "Open Failed" "Open Failed" (.ofText "/two") happenings
      hleft).1⟩

end History

end DecompilerDesk
