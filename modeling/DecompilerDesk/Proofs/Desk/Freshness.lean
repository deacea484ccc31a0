-- SUMMARY: Answers that are late: what is folded into a session, and what is dropped, whatever happened in between.
import DecompilerDesk.Proofs.Desk.Merging
import DecompilerDesk.Proofs.Desk.Tinting

/-!
# Freshness

An answer may come in long after its question. It counts if no file was opened in between and, for a
decompilation, if none was asked for in between. The session tells this from its two numbers alone:
along any history the epoch counts the files opened and the ticket counts these and the
decompilations asked for, so a number that is still the newest shows that nothing came in between.
-/

namespace DecompilerDesk

deriving instance DecidableEq for Completion, Deed

/-! ## What makes an answer late -/

namespace Deed

/-- A file was opened. -/
def opens : Deed → Bool
  | .applied _ ⟨_, .ok (.opened _)⟩ => true
  | _ => false

/-- A decompilation was asked for. -/
def asksDecompilation : Deed → Bool
  | .issued (.decompile ..) => true
  | _ => false

def renewsTicket (deed : Deed) : Bool := deed.opens || deed.asksDecompilation

end Deed

/-- The deeds since the request was issued leave its outcome fresh. -/
def Outcome.FreshSince (since : List Deed) : Outcome → Prop
  | .opened _ => True
  | .connections .. | .lowerings .. | .sections .. => ∀ deed ∈ since, deed.opens = false
  | .decompiled .. =>
    ∀ deed ∈ since, deed.opens = false ∧ deed.asksDecompilation = false

theorem Outcome.FreshSince.opens {since : List Deed} {outcome : Outcome} (h : outcome.FreshSince since)
    (hopened : ∀ path, outcome ≠ .opened path) : ∀ deed ∈ since, deed.opens = false := by
  cases outcome with
  | opened path => exact absurd rfl (hopened path)
  | decompiled => exact fun deed hdeed => (h deed hdeed).1
  | _ => exact h

/-! ## The numbers of a session count deeds -/

namespace History

/-- The epoch after some deeds at a desk. -/
def epochAfter (desk : Desk) (deeds : List Deed) : Epoch :=
  ⟨desk.session.epoch.serial + deeds.countP Deed.opens⟩

/-- The ticket after some deeds at a desk. -/
def ticketAfter (desk : Desk) (deeds : List Deed) : Ticket :=
  ⟨desk.session.ticket.serial + deeds.countP Deed.renewsTicket⟩

/-- The session has counted the deeds, and each request bears the numbers of the moment at which it
was issued. -/
structure Numbered (desk : Desk) (history : History) : Prop where
  epoch : history.desk.session.epoch = epochAfter desk history.deeds
  ticket : history.desk.session.ticket = ticketAfter desk history.deeds
  issued : ∀ (origin : Nat) (request : Request),
    history.deeds[origin]? = some (.issued request) →
    request.Bears (epochAfter desk (history.deeds.take (origin + 1)))
      (ticketAfter desk (history.deeds.take (origin + 1)))

/-- A deed moves the epoch and the ticket as it counts for them. -/
theorem session_numbers_of_allows {history : History} {deed : Deed} {after : Desk}
    (h : history.Allows deed after) :
    after.session.epoch.serial =
        history.desk.session.epoch.serial + [deed].countP Deed.opens ∧
      after.session.ticket.serial =
        history.desk.session.ticket.serial + [deed].countP Deed.renewsTicket := by
  cases h with
  | @issued intent request desk hissue =>
    cases Desk.issued_of_issue hissue with
    | opening => exact ⟨rfl, rfl⟩
    | question hfile hbears =>
      cases request with
      | decompile starts ticket => exact (Request.not_decompile_of_bears hbears).elim
      | _ => exact ⟨rfl, rfl⟩
    | decompilation => exact ⟨rfl, rfl⟩
  | @refused intent desk hissue =>
    cases Desk.issued_of_issue hissue
    exact ⟨rfl, rfl⟩
  | completed => exact ⟨rfl, rfl⟩
  | @applied arrival origin completion hcompleted =>
    obtain ⟨label, result⟩ := completion
    cases result with
    | error failure => exact ⟨rfl, rfl⟩
    | ok outcome =>
      by_cases hcurrent : outcome.IsCurrent history.desk.session
      · have hfold := Desk.accept_of_isCurrent hcurrent
        simp only [Desk.apply, hfold]
        cases outcome <;> exact ⟨rfl, rfl⟩
      · have hdrop := Desk.accept_of_not_isCurrent hcurrent
        simp only [Desk.apply, hdrop]
        cases outcome with
        | opened path => exact absurd trivial hcurrent
        | _ => exact ⟨rfl, rfl⟩
  | gestured gesture => cases gesture <;> exact ⟨rfl, rfl⟩
  | waited => exact ⟨rfl, rfl⟩

/-- A request bears the numbers of the session that issuing it leaves. -/
theorem bears_of_allows {history : History} {request : Request} {after : Desk}
    (h : history.Allows (.issued request) after) :
    request.Bears after.session.epoch after.session.ticket := by
  cases h with
  | @issued intent request desk hissue =>
    cases Desk.issued_of_issue hissue with
    | opening => trivial
    | question hfile hbears => exact hbears _
    | decompilation => rfl

theorem numbered_of (desk : Desk) (events : List Event) : Numbered desk (of desk events) := by
  refine of_induction (P := Numbered desk) ⟨rfl, rfl, ?_⟩ ?_ events
  · intro origin request h
    simp [start] at h
  · intro history deed after ih hallows
    obtain ⟨hepoch, hticket⟩ := session_numbers_of_allows hallows
    rw [ih.epoch] at hepoch
    rw [ih.ticket] at hticket
    have hepoch : after.session.epoch = epochAfter desk (history.deeds ++ [deed]) := by
      rw [epochAfter, List.countP_append, ← Nat.add_assoc]
      exact congrArg Epoch.mk hepoch
    have hticket : after.session.ticket = ticketAfter desk (history.deeds ++ [deed]) := by
      rw [ticketAfter, List.countP_append, ← Nat.add_assoc]
      exact congrArg Ticket.mk hticket
    refine ⟨hepoch, hticket, fun origin request h => ?_⟩
    rcases deeds_add_cases h with hold | ⟨rfl, rfl⟩
    · have hlt := lt_of_deed hold
      rw [add_deeds, List.take_append_of_le_length hlt]
      exact ih.issued origin request hold
    · have hbears := bears_of_allows hallows
      rw [hepoch, hticket] at hbears
      rwa [add_deeds, List.take_of_length_le (by simp)]

/-- No request bears numbers ahead of those of the session. -/
theorem bears_le_of_issued (desk : Desk) (events : List Event) {origin : Nat} {request : Request}
    (hissued : (of desk events).deeds[origin]? = some (.issued request)) :
    ∃ epoch ticket, request.Bears epoch ticket ∧
      epoch.serial ≤ (of desk events).desk.session.epoch.serial ∧
      ticket.serial ≤ (of desk events).desk.session.ticket.serial := by
  have hnumbered := numbered_of desk events
  have hsublist := List.take_sublist (origin + 1) (of desk events).deeds
  refine ⟨_, _, hnumbered.issued origin request hissued, ?_, ?_⟩
  · rw [hnumbered.epoch]
    exact Nat.add_le_add_left hsublist.countP_le _
  · rw [hnumbered.ticket]
    exact Nat.add_le_add_left hsublist.countP_le _

theorem countP_take_eq_iff {α : Type} (p : α → Bool) (l : List α) (n : Nat) :
    (l.take n).countP p = l.countP p ↔ ∀ x ∈ l.drop n, p x = false := by
  have hsplit : l.countP p = (l.take n).countP p + (l.drop n).countP p := by
    rw [← List.countP_append, List.take_append_drop]
  have hnone : (l.drop n).countP p = 0 ↔ ∀ x ∈ l.drop n, p x = false := by
    simp [List.countP_eq_zero]
  rw [← hnone]
  omega

/-- An outcome counts for the session of the moment exactly if it is fresh. -/
theorem isCurrent_iff_freshSince (desk : Desk) (events : List Event) {origin : Nat}
    {request : Request} {reply : Except Failure Json} {outcome : Outcome}
    (hissued : (of desk events).deeds[origin]? = some (.issued request))
    (hok : (request.complete reply).result = .ok outcome) :
    outcome.IsCurrent (of desk events).desk.session ↔
      outcome.FreshSince ((of desk events).deeds.drop (origin + 1)) := by
  have hnumbered := numbered_of desk events
  have hbears := (Request.bears_iff_of_complete hok).mpr (hnumbered.issued origin request hissued)
  have hepoch := countP_take_eq_iff Deed.opens (of desk events).deeds (origin + 1)
  have hticket := countP_take_eq_iff Deed.renewsTicket (of desk events).deeds (origin + 1)
  rw [Outcome.IsCurrent, hnumbered.epoch, hnumbered.ticket]
  cases outcome with
  | opened path => exact Iff.rfl
  | decompiled ticket findings =>
    simp only [Outcome.Bears] at hbears
    subst hbears
    simp only [Outcome.Bears, Outcome.FreshSince, ticketAfter, Ticket.mk.injEq,
      Nat.add_left_cancel_iff, hticket, Deed.renewsTicket, Bool.or_eq_false_iff]
  | _ =>
    simp only [Outcome.Bears] at hbears
    subst hbears
    simp only [Outcome.Bears, Outcome.FreshSince, epochAfter, Epoch.mk.injEq,
      Nat.add_left_cancel_iff, hepoch]

theorem length_deeds_le (desk : Desk) (events : List Event) :
    (of desk events).deeds.length ≤ events.length := by
  induction events using List.reverseRecOn with
  | nil => exact Nat.le_refl 0
  | append_singleton events event ih =>
    rw [of_append, List.foldl_cons, List.foldl_nil, List.length_append, List.length_singleton]
    rcases step_cases (of desk events) event with heq | ⟨deed, after, -, heq⟩
    · rw [heq]
      exact Nat.le_succ_of_le ih
    · rw [heq, add_deeds, List.length_append, List.length_singleton]
      exact Nat.succ_le_succ ih

/-- No number runs ahead of the events: on a run shorter than `2 ^ 64` each fits a word. -/
theorem serials_le_length (desk : Desk) (events : List Event) :
    (of desk events).desk.session.epoch.serial ≤ desk.session.epoch.serial + events.length ∧
      (of desk events).desk.session.ticket.serial ≤ desk.session.ticket.serial + events.length := by
  have hlength := length_deeds_le desk events
  rw [(numbered_of desk events).epoch, (numbered_of desk events).ticket]
  exact ⟨Nat.add_le_add_left (List.countP_le_length.trans hlength) _,
    Nat.add_le_add_left (List.countP_le_length.trans hlength) _⟩

end History

/-! ## Late and fresh answers -/

/-- An outcome has been folded into a session: what it tells is there, and all else is as it was. -/
def Session.Takes (before after : Session) : Outcome → Prop
  | .opened path =>
    after =
      { sections := []
        shown := none
        hovered := none
        entryText := none
        lowerings := []
        file := some path
        ticket := ⟨before.ticket.serial + 1⟩
        epoch := ⟨before.epoch.serial + 1⟩ }
  | .connections _ found =>
    after = { before with
      entryText := some ("Block's Connected Address : " ++
        ", ".intercalate (found.addresses.map Address.text)) }
  | .lowerings _ found => after = { before with lowerings := found }
  | .sections _ found =>
    ∃ arrived, after = { before with
        sections := before.sections.filter (·.start ∉ found.map (·.start)) ++ arrived } ∧
      arrived.map (·.start) = (found.map (·.start)).eraseDups ∧
      ∀ s ∈ arrived, ∃ last, Latest found last ∧ s = ⟨last.start, last.stop, last.analyzed, false⟩
  | .decompiled _ findings =>
    ∃ tints, after = { before with shown := some ⟨findings, tints⟩, hovered := none } ∧
      ∀ index tint, (index, tint) ∈ tints ↔
        (∃ i ∈ findings.assembly, i.index = index) ∧ tint = .ofIndex index

theorem Session.takes_foldInto (session : Session) (outcome : Outcome) :
    session.Takes (outcome.foldInto session) outcome := by
  cases outcome with
  | opened path => rfl
  | connections epoch found => rfl
  | lowerings epoch found => rfl
  | sections epoch found =>
    exact ⟨_, session.merge_eq found, starts_arrive found, fun _ => latest_of_mem_arrive⟩
  | decompiled ticket findings => exact ⟨_, rfl, Tinted.mem_tints_iff findings⟩

namespace History

/-- Whatever the history of a desk, an answer that is applied is folded into the session if it is
fresh; if it is late, a line in the console says so and nothing else changes. The numbers by which the
session tells grow by one with an event at most. -/
theorem apply_folds_iff_fresh (desk : Desk) (events : List Event) {arrival origin : Nat}
    {completion : Completion} {outcome : Outcome}
    (hcompleted : (of desk events).deeds[arrival]? = some (.completed origin completion))
    (hok : completion.result = .ok outcome) :
    let before := (of desk events).desk
    let after := (of desk (events ++ [.apply arrival])).desk
    let since := (of desk events).deeds.drop (origin + 1)
    (∃ request reply, (of desk events).deeds[origin]? = some (.issued request) ∧
      completion = request.complete reply) ∧
    (outcome.FreshSince since →
      before.session.Takes after.session outcome ∧
        after.layout = before.layout ∧ after.drag = before.drag ∧
        before.console.Adds after.console (Argument.message outcome.successLine)) ∧
    (¬ outcome.FreshSince since → before.OnlySays after outcome.discardLine) ∧
    before.session.epoch.serial ≤ desk.session.epoch.serial + events.length ∧
    before.session.ticket.serial ≤ desk.session.ticket.serial + events.length := by
  intro before after since
  obtain ⟨request, reply, hissued, rfl⟩ := request_of_completed desk events hcompleted
  have hafter : after = before.accept outcome := by
    simp only [after, before, of_append, List.foldl_cons, List.foldl_nil, step, hcompleted, add_desk,
      Desk.apply, hok]
  have hfresh := isCurrent_iff_freshSince desk events hissued hok
  refine ⟨⟨request, reply, hissued, rfl⟩, fun h => ?_, fun h => ?_, serials_le_length desk events⟩
  · rw [hafter, Desk.accept_eq_of_isCurrent (hfresh.mpr h)]
    exact ⟨before.session.takes_foldInto outcome, rfl, rfl, before.adds_logLine _⟩
  · rw [hafter, Desk.accept_of_not_isCurrent (mt hfresh.mp h)]
    exact before.onlySays_log [outcome.discardLine]

/-- An analysis is folded in. Of two decompilations the first is late when the second was asked for, and
the analysis is late when it is applied again behind the opening of another file. -/
theorem fresh_folded_and_late_dropped :
    let one := Path.ofText "/one"
    let two := Path.ofText "/two"
    let found : Json := .array
      [.object [("startAddress", .integer 16), ("endAddress", .integer 32), ("analyzed", .boolean true)]]
    let listing : Json := .object
      [("assembly", .array [.object
          [("index", .integer 12), ("parentsStartAddress", .integer 16), ("data", .text "ret")]]),
        ("ir", .array []), ("decompiled", .text "f")]
    let analysis : Outcome := .sections ⟨1⟩ [⟨16, some 32, true⟩]
    let findings : Decompilation := ⟨[⟨12, 16, "ret"⟩], [], "f"⟩
    let desk := Desk.start 6 .standard
    let events := [.intent (.openFile (some one)), .reply 0 (.ok .null), .apply 1,
      .intent .analyzeAll, .reply 3 (.ok found), .apply 4, .gesture .selectAll,
      .intent .decompileSelected, .intent .decompileSelected, .reply 7 (.ok listing),
      .reply 8 (.ok listing), .apply 9, .apply 10,
      .intent (.openFile (some two)), .reply 13 (.ok .null), .apply 14, .apply 4]
    let run (n : Nat) := of desk (events.take n)
    (run 5).deeds[4]? = some (.completed 3 ⟨"Section Analyzation Failed", .ok analysis⟩) ∧
      (run 5).desk.session.Takes (run 6).desk.session analysis ∧
      (run 6).desk.session =
        { sections := [⟨16, some 32, true, false⟩], file := some one, ticket := ⟨1⟩, epoch := ⟨1⟩ } ∧
      (run 11).desk.OnlySays (run 12).desk "Discarded outdated decompile result" ∧
      (run 12).desk.session.Takes (run 13).desk.session (.decompiled ⟨3⟩ findings) ∧
      (run 13).desk.session =
        { sections := [⟨16, some 32, true, true⟩], shown := some ⟨findings, [(12, ⟨0xDC, 0xFC, 0xE7⟩)]⟩
          file := some one, ticket := ⟨3⟩, epoch := ⟨1⟩ } ∧
      (run 16).desk.OnlySays (run 17).desk "Discarded result for a previously opened file" ∧
      (run 17).desk.session = { file := some two, ticket := ⟨4⟩, epoch := ⟨2⟩ } ∧
      (run 17).desk.console.entries.map (·.message) =
        ["Section Analyzation Success 1 sections", "Discarded outdated decompile result",
          "Decompile Success 1 instructions", "Open Fireball with /two", "Open Success",
          "Discarded result for a previously opened file"] := by
  intro one two found listing analysis findings desk events run
  have hanalysis : (run 5).deeds[4]? =
      some (.completed 3 ⟨"Section Analyzation Failed", .ok analysis⟩) := by decide +kernel
  have hfirst : (run 11).deeds[9]? =
      some (.completed 7 ⟨"Decompile Failed", .ok (.decompiled ⟨2⟩ findings)⟩) := by decide +kernel
  have hsecond : (run 12).deeds[10]? =
      some (.completed 8 ⟨"Decompile Failed", .ok (.decompiled ⟨3⟩ findings)⟩) := by decide +kernel
  have hstill : (run 16).deeds[4]? =
      some (.completed 3 ⟨"Section Analyzation Failed", .ok analysis⟩) := by decide +kernel
  have hfresh : analysis.FreshSince ((run 5).deeds.drop (3 + 1)) := by
    intro deed hdeed
    have hdeeds : (run 5).deeds.drop (3 + 1) =
        [.completed 3 ⟨"Section Analyzation Failed", .ok analysis⟩] := by decide +kernel
    rw [hdeeds] at hdeed
    obtain rfl := List.mem_singleton.mp hdeed
    rfl
  have hlate : ¬ Outcome.FreshSince ((run 11).deeds.drop (7 + 1)) (.decompiled ⟨2⟩ findings) :=
    fun h => Bool.noConfusion (h (.issued (.decompile [16] ⟨3⟩)) (by decide +kernel)).2
  have hnewest : Outcome.FreshSince ((run 12).deeds.drop (8 + 1)) (.decompiled ⟨3⟩ findings) := by
    intro deed hdeed
    have hdeeds : (run 12).deeds.drop (8 + 1) =
        [.completed 7 ⟨"Decompile Failed", .ok (.decompiled ⟨2⟩ findings)⟩,
          .completed 8 ⟨"Decompile Failed", .ok (.decompiled ⟨3⟩ findings)⟩,
          .applied 7 ⟨"Decompile Failed", .ok (.decompiled ⟨2⟩ findings)⟩] := by decide +kernel
    rw [hdeeds] at hdeed
    simp only [List.mem_cons, List.not_mem_nil, or_false] at hdeed
    rcases hdeed with rfl | rfl | rfl <;> exact ⟨rfl, rfl⟩
  have hreplaced : ¬ analysis.FreshSince ((run 16).deeds.drop (3 + 1)) :=
    fun h => Bool.noConfusion (h (.applied 13 ⟨"Open Failed", .ok (.opened two)⟩) (by decide +kernel))
  have hnext {n m : Nat} {event : Event} (hm : m = n + 1) (h : events[n]? = some event) :
      of desk (events.take n ++ [event]) = run m := by
    simp only [run, hm, List.take_add_one, h, Option.toList_some]
  have hnow (n : Nat) : of desk (events.take n) = run n := rfl
  obtain ⟨-, hfolded, -⟩ := apply_folds_iff_fresh desk (events.take 5) hanalysis rfl
  obtain ⟨-, -, houtdated, -⟩ := apply_folds_iff_fresh desk (events.take 11) hfirst rfl
  obtain ⟨-, hstored, -⟩ := apply_folds_iff_fresh desk (events.take 12) hsecond rfl
  obtain ⟨-, -, hdropped, -⟩ := apply_folds_iff_fresh desk (events.take 16) hstill rfl
  rw [hnext (m := 6) rfl rfl, hnow] at hfolded
  rw [hnext (m := 12) rfl rfl, hnow] at houtdated
  rw [hnext (m := 13) rfl rfl, hnow] at hstored
  rw [hnext (m := 17) rfl rfl, hnow] at hdropped
  exact ⟨hanalysis, (hfolded hfresh).1, by decide +kernel, houtdated hlate, (hstored hnewest).1,
    by decide +kernel, hdropped hreplaced, by decide +kernel, by decide +kernel⟩

end History

end DecompilerDesk
