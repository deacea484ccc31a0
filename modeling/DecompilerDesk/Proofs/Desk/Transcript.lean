-- SUMMARY: The console hears one message for each opening, each refusal and each applied completion, and nothing else.
import DecompilerDesk.Proofs.Console.Newest
import DecompilerDesk.Proofs.Desk.Opening

/-!
# Transcripts

A transcript is all that a history said, oldest first: a message for the opening of a file whether one
was picked or not, for any other intent that became no request, and for each completion that was
applied. All else is silent. The console holds the newest messages of the transcript, as many as it has
room for.
-/

namespace DecompilerDesk

/-! ## What is said -/

namespace Intent

/-- The address that was typed. -/
def typed? : Intent → Option String
  | .analyze input | .connectionsAt input | .inspect input => some input
  | _ => none

/-- What keeps an intent from becoming a request. -/
def fault (session : Session) (intent : Intent) : Failure :=
  match session.file, intent.typed? with
  | some _, some input => .badAddress input
  | _, _ => .noFile

/-- What is said to an intent that becomes no request, the opening of a file apart. -/
def complaint (session : Session) (intent : Intent) : String :=
  if intent = .decompileSelected ∧ session.selected = [] then "No sections selected"
  else intent.label ++ " " ++ (intent.fault session).message

end Intent

namespace Desk

/-- What is said to an intent: to the opening of a file in any case, to another if it is refused. -/
def answer? (desk : Desk) : Intent → Option String
  | .openFile none => some "Open Fireball with null"
  | .openFile (some path) => some ("Open Fireball with " ++ (Argument.path path).render)
  | intent => if (desk.issue intent).1 = none then some (intent.complaint desk.session) else none

end Desk

namespace History

/-- What an event makes a history say. -/
def said (history : History) : Event → Option String
  | .intent intent => history.desk.answer? intent
  | .apply arrival =>
    match history.deeds[arrival]? with
    | some (.completed _ completion) => some (completion.message history.desk.session)
    | _ => none
  | .reply .. | .gesture _ | .clock _ => none

/-- All that a history says while some events happen, oldest first. -/
def transcript (history : History) : List Event → List String
  | [] => []
  | event :: rest => (history.said event).toList ++ (history.step event).transcript rest

end History

/-! ## What a console keeps -/

namespace Console

/-- The console has so much room, and holds the newest of these messages. -/
structure Keeps (console : Console) (room : Nat) (messages : List String) : Prop where
  capacity : console.capacity = room
  newest : console.entries.map (·.message) = messages.rtake room

variable {console : Console} {room : Nat} {messages : List String}

theorem Keeps.push (h : console.Keeps room messages) (entry : Entry) :
    (console.push entry).Keeps room (messages ++ [entry.message]) where
  capacity := h.capacity
  newest := by
    rw [entries_push, map_rtake, List.map_append, List.map_singleton, h.newest, h.capacity,
      rtake_concat_rtake]

/-- The console after a message, if there was one. -/
def hear (console : Console) : Option String → Console
  | none => console
  | some message => console.push ⟨console.clock, message⟩

theorem Keeps.hear (h : console.Keeps room messages) (message? : Option String) :
    (console.hear message?).Keeps room (messages ++ message?.toList) := by
  cases message? with
  | none => exact (List.append_nil messages).symm ▸ h
  | some message => exact h.push _

end Console

/-! ## Intents -/

namespace Desk

/-- A result of an intent that was refused with a complaint, or became a request in silence. -/
def Complains (desk : Desk) (complaint : String) (result : Option Request × Desk) : Prop :=
  result.2.console = desk.console.hear (if result.1 = none then some complaint else none)

variable {desk : Desk} {complaint : String}

theorem Complains.asked {request : Request} {after : Desk} (h : after.console = desk.console) :
    desk.Complains complaint (some request, after) := h

theorem complains_withFile {label : String} {go : Epoch → Option Request × Desk}
    (hnone : desk.session.file = none → complaint = label ++ " " ++ Failure.noFile.message)
    (hsome : desk.session.file.isSome → desk.Complains complaint (go desk.session.epoch)) :
    desk.Complains complaint (desk.withFile label go) := by
  unfold withFile
  split
  next hfile => exact hsome hfile
  next hfile =>
    rw [say_eq, hnone (Option.not_isSome_iff_eq_none.mp hfile)]
    rfl

theorem complains_withAddress {label input : String} {go : Address → Option Request × Desk}
    (hbad : complaint = label ++ " " ++ (Failure.badAddress input).message)
    (hgo : ∀ address, desk.Complains complaint (go address)) :
    desk.Complains complaint (desk.withAddress label input go) := by
  unfold withAddress Address.parse
  split
  next address _ => exact hgo address
  next failure hfailure =>
    split at hfailure
    · cases hfailure
    · obtain rfl := Except.error.inj hfailure
      rw [say_eq, hbad]
      rfl

theorem fault_of_no_file {intent : Intent} (h : desk.session.file = none) :
    intent.fault desk.session = .noFile := by
  rw [Intent.fault, h]

theorem complaint_of_no_file {intent : Intent} (hintent : intent ≠ .decompileSelected)
    (h : desk.session.file = none) :
    intent.complaint desk.session = intent.label ++ " " ++ Failure.noFile.message := by
  rw [Intent.complaint, if_neg fun hboth => hintent hboth.1, fault_of_no_file h]

theorem complaint_of_typed {intent : Intent} {input : String} (hintent : intent.typed? = some input)
    (h : desk.session.file.isSome) :
    intent.complaint desk.session = intent.label ++ " " ++ (Failure.badAddress input).message := by
  have hother : intent ≠ .decompileSelected := by
    rintro rfl
    cases hintent
  obtain ⟨path, hpath⟩ := Option.isSome_iff_exists.mp h
  rw [Intent.complaint, if_neg fun hboth => hother hboth.1, Intent.fault, hpath, hintent]

/-- An intent other than the opening of a file is refused with its complaint, or becomes a request in
silence. -/
theorem complains_issue {intent : Intent} (h : ∀ picked, intent ≠ .openFile picked) :
    desk.Complains (intent.complaint desk.session) (desk.issue intent) := by
  cases intent with
  | openFile picked => exact absurd rfl (h picked)
  | analyze input =>
    refine complains_withFile (complaint_of_no_file (by simp)) fun hfile => ?_
    split
    · exact .asked rfl
    · exact complains_withAddress (complaint_of_typed rfl hfile) fun _ => .asked rfl
  | analyzeAll => exact complains_withFile (complaint_of_no_file (by simp)) fun _ => .asked rfl
  | connectionsAt input =>
    refine complains_withFile (complaint_of_no_file (by simp)) fun hfile => ?_
    exact complains_withAddress (complaint_of_typed rfl hfile) fun _ => .asked rfl
  | connectionsAtEntry =>
    exact complains_withFile (complaint_of_no_file (by simp)) fun _ => .asked rfl
  | inspect input =>
    refine complains_withFile (complaint_of_no_file (by simp)) fun hfile => ?_
    exact complains_withAddress (complaint_of_typed rfl hfile) fun _ => .asked rfl
  | decompileSelected =>
    simp only [issue, decompileSelected]
    split
    next hempty =>
      rw [say_eq, Intent.complaint, if_pos ⟨rfl, List.isEmpty_iff.mp hempty⟩]
      rfl
    next hsome =>
      have hselected : desk.session.selected ≠ [] := by simpa using hsome
      refine complains_withFile (fun hnone => ?_) fun _ => .asked rfl
      rw [Intent.complaint, if_neg fun hboth => hselected hboth.2, fault_of_no_file hnone]
      rfl

theorem console_openFile (desk : Desk) (picked : Option Path) :
    (desk.openFile picked).2.console = desk.console.hear (desk.answer? (.openFile picked)) := by
  have hbegin (text : String) :
      " ".intercalate ["Open Fireball with", text] = "Open Fireball with " ++ text := by
    have hblank : "Open Fireball with" ++ " " = "Open Fireball with " := by decide
    rw [← hblank]
    rfl
  cases picked with
  | none => rfl
  | some path =>
    simp only [openFile, logLine, Console.logLine, Console.log, List.map_cons, List.map_nil,
      Argument.render_ofText, Option.map_some, Option.getD_some, hbegin]
    rfl

theorem console_issue (desk : Desk) (intent : Intent) :
    (desk.issue intent).2.console = desk.console.hear (desk.answer? intent) := by
  cases intent with
  | openFile picked => exact desk.console_openFile picked
  | _ => exact complains_issue (by simp)

/-! ## Completions -/

theorem console_apply (desk : Desk) (completion : Completion) :
    (desk.apply completion).console =
      desk.console.hear (some (completion.message desk.session)) := by
  rw [apply_eq, ← Completion.message_line]
  rfl

end Desk

/-! ## Histories -/

namespace History

variable {history : History} {room : Nat} {messages : List String}

theorem desk_step_intent (history : History) (intent : Intent) :
    (history.step (.intent intent)).desk = (history.desk.issue intent).2 := by
  simp only [step]
  split
  next hissue => rw [add_desk, hissue]
  next hissue => rw [add_desk, hissue]

/-- After one more event the console holds the newest messages, with what the event said. -/
theorem keeps_step (h : history.desk.console.Keeps room messages) (event : Event) :
    (history.step event).desk.console.Keeps room (messages ++ (history.said event).toList) := by
  have hsilent := h.hear none
  cases event with
  | intent intent =>
    rw [desk_step_intent, Desk.console_issue]
    exact h.hear _
  | reply origin reply =>
    simp only [step]
    split
    · exact hsilent
    · exact hsilent
  | apply arrival =>
    cases hdeed : history.deeds[arrival]? with
    | none =>
      simp only [step, said, hdeed]
      exact hsilent
    | some deed =>
      cases deed with
      | completed origin completion =>
        simp only [step, said, hdeed, add_desk, Desk.console_apply]
        exact h.hear _
      | _ =>
        simp only [step, said, hdeed]
        exact hsilent
  | gesture gesture => cases gesture <;> exact ⟨hsilent.capacity, hsilent.newest⟩
  | clock time => exact ⟨hsilent.capacity, hsilent.newest⟩

theorem keeps_steps (h : history.desk.console.Keeps room messages) (events : List Event) :
    (events.foldl step history).desk.console.Keeps room
      (messages ++ history.transcript events) := by
  induction events generalizing history messages with
  | nil => exact (List.append_nil messages).symm ▸ h
  | cons event rest ih =>
    have hrest := ih (keeps_step h event)
    rwa [List.append_assoc] at hrest

theorem transcript_append (history : History) (events more : List Event) :
    history.transcript (events ++ more) =
      history.transcript events ++ (events.foldl step history).transcript more := by
  induction events generalizing history with
  | nil => rfl
  | cons event rest ih => rw [List.cons_append, transcript, ih, transcript, List.append_assoc]; rfl

/-- The event opens a file, is refused or applies a completion. -/
inductive Speaks (history : History) : Event → Prop where
  | opening (picked : Option Path) : Speaks history (.intent (.openFile picked))
  | refused {intent : Intent} : (∀ picked, intent ≠ .openFile picked) →
      (history.desk.issue intent).1 = none → Speaks history (.intent intent)
  | applied {arrival origin : Nat} {completion : Completion} :
      history.deeds[arrival]? = some (.completed origin completion) →
      Speaks history (.apply arrival)

theorem answer?_isSome_iff (history : History) (intent : Intent) :
    (history.desk.answer? intent).isSome ↔ history.Speaks (.intent intent) := by
  have hrefusal (hother : ∀ picked, intent ≠ .openFile picked) :
      (history.desk.issue intent).1 = none ↔ history.Speaks (.intent intent) := by
    constructor
    · intro hnone
      exact .refused hother hnone
    · intro hspeaks
      cases hspeaks with
      | opening picked => exact absurd rfl (hother picked)
      | refused _ hnone => exact hnone
  cases intent with
  | openFile picked =>
    refine ⟨fun _ => .opening picked, fun _ => ?_⟩
    cases picked <;> rfl
  | _ =>
    rw [← hrefusal (by simp)]
    simp [Desk.answer?]

theorem said_isSome_iff (history : History) (event : Event) :
    (history.said event).isSome ↔ history.Speaks event := by
  cases event with
  | intent intent => exact history.answer?_isSome_iff intent
  | apply arrival =>
    constructor
    · intro hsome
      simp only [said] at hsome
      split at hsome
      next origin completion hcompleted => exact .applied hcompleted
      next => cases hsome
    · intro hspeaks
      cases hspeaks with
      | applied hcompleted => simp [said, hcompleted]
  | reply origin reply => exact ⟨nofun, nofun⟩
  | gesture gesture => exact ⟨nofun, nofun⟩
  | clock time => exact ⟨nofun, nofun⟩

/-- Whatever is done at a desk, its console holds the newest messages of the transcript, all of them if
there is room. Openings of files, refusals and applied completions add one message each, in their order,
and nothing else adds any. A failed completion is told by the label of the request that was answered and
by the message of the failure. -/
theorem one_message_each (capacity : UInt64) (layout : Layout) (events : List Event) :
    let history := of (.start capacity layout) events
    let messages := (start (.start capacity layout)).transcript events
    history.desk.console.entries.map (·.message) = messages.rtake (max capacity.toNat 1) ∧
      (∀ event, (history.said event).isSome ↔ history.Speaks event) ∧
      (∀ event, (start (.start capacity layout)).transcript (events ++ [event]) =
        messages ++ (history.said event).toList) ∧
      ∀ (arrival origin : Nat) (completion : Completion) (failure : Failure),
        history.deeds[arrival]? = some (.completed origin completion) →
        completion.result = .error failure →
        history.said (.apply arrival) = some (completion.label ++ " " ++ failure.message) ∧
          ∃ request, history.deeds[origin]? = some (.issued request) ∧
            completion.label = request.label := by
  intro history messages
  have hempty : (start (.start capacity layout)).desk.console.Keeps (max capacity.toNat 1) [] :=
    ⟨rfl, (List.rtake_nil _).symm⟩
  have hkeeps : history.desk.console.Keeps (max capacity.toNat 1) messages :=
    keeps_steps hempty events
  refine ⟨hkeeps.newest, history.said_isSome_iff, fun event => ?_, ?_⟩
  · rw [transcript_append]
    exact congrArg (messages ++ ·) (List.append_nil _)
  · intro arrival origin completion failure hcompleted hfailed
    obtain ⟨request, reply, hissued, rfl⟩ := request_of_completed _ _ hcompleted
    refine ⟨?_, request, hissued, rfl⟩
    simp only [said, hcompleted, Completion.message, hfailed]

/-- A console with room for three lines, after an opening that was given up, an analysis without a file,
an opening, and an inspection that the engine rejected. -/
theorem one_message_each_of_rejection :
    let events : List Event :=
      [.intent (.openFile none), .intent .analyzeAll, .intent (.openFile (some (.ofText "/one"))),
        .reply 2 (.ok .null), .apply 3, .intent (.inspect "16"),
        .reply 5 (.error (.engine "ir_inspect" "no such block")), .gesture .selectAll, .apply 6]
    let history := of (.start 3 .standard) events
    let completion : Completion := ⟨"IR Inspect Failed", .error (.engine "ir_inspect" "no such block")⟩
    history.deeds[6]? = some (.completed 5 completion) ∧
      history.desk.console.entries.map (·.message) =
        ["Open Fireball with /one", "Open Success",
          "IR Inspect Failed ir_inspect: no such block"] ∧
      history.said (.apply 6) = some "IR Inspect Failed ir_inspect: no such block" := by
  intro events history completion
  obtain ⟨hnewest, -, -, hfailed⟩ := one_message_each 3 .standard events
  have hcompleted : history.deeds[6]? = some (.completed 5 completion) := rfl
  exact ⟨hcompleted, hnewest.trans (by decide +kernel), (hfailed 6 5 completion _ hcompleted rfl).1⟩

end History

end DecompilerDesk
