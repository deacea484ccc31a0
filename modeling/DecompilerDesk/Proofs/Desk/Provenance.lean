-- SUMMARY: What a session shows was told of the file it names, if the openings of files and the answers behind them are applied in turn.
import DecompilerDesk.Proofs.Desk.Freshness
import DecompilerDesk.Proofs.Desk.Opening

/-!
# Provenance

The engine answers from the file that it opened last; the session names the file whose opening was
applied last. The two differ between the reply to an opening and its application, and an answer from
in between counts if it is applied before the opening. If it is applied behind it, the opening has made
it late. So everything on show was told of the file that the session names, as long as no answer
overtakes an opening from before it and no opening overtakes another.
-/

namespace DecompilerDesk

/-! ## The file of the engine -/

/-- The replies an engine may give, by its file, the command and the arguments. -/
abbrev Repertoire := Path → String → Json → Except Failure Json → Prop

namespace Deed

/-- The file that the engine has opened, behind the number of the request. -/
def opened? : Deed → Option (Nat × Path)
  | .completed origin ⟨_, .ok (.opened path)⟩ => some (origin, path)
  | _ => none

/-- The file whose opening was applied, behind the number of the request. -/
def applied? : Deed → Option (Nat × Path)
  | .applied origin ⟨_, .ok (.opened path)⟩ => some (origin, path)
  | _ => none

/-- The request that was answered. -/
def answered? : Deed → Option Nat
  | .completed origin _ => some origin
  | _ => none

variable {deed : Deed} {opening : Nat × Path}

theorem opened?_eq_some_iff : deed.opened? = some opening ↔
    ∃ label, deed = .completed opening.1 ⟨label, .ok (.opened opening.2)⟩ := by
  constructor
  · intro h
    unfold opened? at h
    split at h
    next origin label path =>
      cases h
      exact ⟨label, rfl⟩
    next => cases h
  · rintro ⟨label, rfl⟩
    rfl

theorem named?_eq (deed : Deed) : deed.named? = deed.applied?.map (·.2) := by
  cases deed with
  | applied origin completion =>
    obtain ⟨label, failure | outcome⟩ := completion
    · rfl
    · cases outcome <;> rfl
  | _ => rfl

theorem applied?_eq_some_iff : deed.applied? = some opening ↔
    ∃ label, deed = .applied opening.1 ⟨label, .ok (.opened opening.2)⟩ := by
  constructor
  · intro h
    unfold applied? at h
    split at h
    next origin label path =>
      cases h
      exact ⟨label, rfl⟩
    next => cases h
  · rintro ⟨label, rfl⟩
    rfl

end Deed

/-- The request that an event replies to. -/
def Event.origin? : Event → Option Nat
  | .reply origin _ => some origin
  | _ => none

/-- The completion that an event applies. -/
def Event.arrival? : Event → Option Nat
  | .apply arrival => some arrival
  | _ => none

namespace History

/-- The files that the engine opened, in their order. -/
def openings (deeds : List Deed) : List (Nat × Path) := deeds.filterMap Deed.opened?

/-- The openings that were applied, in their order. -/
def applied (deeds : List Deed) : List (Nat × Path) := deeds.filterMap Deed.applied?

/-- The file that the engine opened last. -/
def engineFile (history : History) : Option Path := (openings history.deeds).getLast?.map (·.2)

/-- What every event meets at the history it comes to. -/
def Throughout (meets : History → Event → Prop) (history : History) : List Event → Prop
  | [] => True
  | event :: rest => meets history event ∧ Throughout meets (history.step event) rest

/-- The engine replies from its file. -/
def Answers (repertoire : Repertoire) (history : History) : Event → Prop
  | .reply origin reply =>
    ∀ request file, history.Asks origin request → history.engineFile = some file →
      repertoire file request.command request.arguments reply
  | _ => True

/-- Deed number `arrival` brought in an outcome that is not the opening of a file. -/
def Brings (history : History) (arrival : Nat) (outcome : Outcome) : Prop :=
  (∃ origin completion, history.deeds[arrival]? = some (.completed origin completion) ∧
    completion.result = .ok outcome) ∧ ∀ path, outcome ≠ .opened path

/-- No opening is applied behind one that the engine made later. -/
def OpensInTurn (history : History) : Event → Prop
  | .apply arrival =>
    (history.deeds[arrival]?.bind Deed.opened?).isSome →
      ∀ later ∈ openings (history.deeds.drop (arrival + 1)), later ∉ applied history.deeds
  | _ => True

/-- No answer that still counts is applied before the opening that the engine made last before it. -/
def AnswersInTurn (history : History) : Event → Prop
  | .apply arrival =>
    ∀ outcome, history.Brings arrival outcome → outcome.IsCurrent history.desk.session →
      ∀ opening ∈ (openings (history.deeds.take arrival)).getLast?, opening ∈ applied history.deeds
  | _ => True

end History

/-! ## What a session shows -/

/-- A reply about the file brings the outcome. -/
def Repertoire.Tells (repertoire : Repertoire) (file : Path) (outcome : Outcome) : Prop :=
  ∃ (request : Request) (reply : Except Failure Json),
    repertoire file request.command request.arguments reply ∧
      (request.complete reply).result = .ok outcome

/-- An engine that finds sections in its file and does nothing else. -/
def Repertoire.analyzing (found : Path → Json) : Repertoire := fun file command _ reply =>
  reply = if command = "analyze_all_sections" then .ok (found file)
    else .error (.engine command "unknown command")

namespace Session

/-- The outcome was told of the file that the session names. -/
def Heard (session : Session) (repertoire : Repertoire) (outcome : Outcome) : Prop :=
  ∃ file, session.file = some file ∧ repertoire.Tells file outcome

/-- All that is on show was told of the file that the session names. -/
structure ShowsOnly (session : Session) (repertoire : Repertoire) : Prop where
  sections : ∀ known ∈ session.sections, ∃ epoch found, ∃ s ∈ found,
    session.Heard repertoire (.sections epoch found) ∧
      known.start = s.start ∧ known.stop = s.stop ∧ known.analyzed = s.analyzed
  entryText : ∀ text, session.entryText = some text → ∃ epoch found,
    session.Heard repertoire (.connections epoch found) ∧
      text = "Block's Connected Address : " ++ found.text
  lowerings : session.lowerings ≠ [] → ∃ epoch,
    session.Heard repertoire (.lowerings epoch session.lowerings)
  shown : ∀ tinted, session.shown = some tinted → ∃ ticket findings,
    session.Heard repertoire (.decompiled ticket findings) ∧ tinted = .ofDecompilation findings

variable {session : Session} {repertoire : Repertoire}

theorem showsOnly_of_blank (hsections : session.sections = []) (htext : session.entryText = none)
    (hlowerings : session.lowerings = []) (hshown : session.shown = none) :
    session.ShowsOnly repertoire where
  sections := by simp [hsections]
  entryText := by simp [htext]
  lowerings h := absurd hlowerings h
  shown := by simp [hshown]

/-- Selecting sections shows no others. -/
theorem ShowsOnly.reselect (h : session.ShowsOnly repertoire) {sections : List KnownSection}
    (hsame : ∀ s ∈ sections, ∃ known ∈ session.sections, ∃ selected,
      s = { known with selected := selected }) :
    { session with sections := sections }.ShowsOnly repertoire where
  sections s hs := by
    obtain ⟨known, hknown, selected, rfl⟩ := hsame s hs
    exact h.sections known hknown
  entryText := h.entryText
  lowerings := h.lowerings
  shown := h.shown

theorem ShowsOnly.toggle (h : session.ShowsOnly repertoire) (address : Address) :
    (session.toggle address).ShowsOnly repertoire :=
  h.reselect fun s hs => by
    rcases mem_flip hs with hold | ⟨known, hknown, -, heq⟩
    · exact ⟨s, hold, s.selected, rfl⟩
    · exact ⟨known, hknown, _, heq⟩

theorem ShowsOnly.selectAll (h : session.ShowsOnly repertoire) :
    session.selectAll.ShowsOnly repertoire :=
  h.reselect fun s hs => by
    obtain ⟨known, hknown, rfl⟩ := List.mem_map.mp hs
    exact ⟨known, hknown, _, rfl⟩

/-- What was told of the named file may be put on show. -/
theorem ShowsOnly.foldInto (h : session.ShowsOnly repertoire) {outcome : Outcome}
    (hheard : (∀ path, outcome ≠ .opened path) → session.Heard repertoire outcome) :
    (outcome.foldInto session).ShowsOnly repertoire := by
  cases outcome with
  | opened path => exact showsOnly_of_blank rfl rfl rfl rfl
  | connections epoch found =>
    refine ⟨h.sections, fun text htext => ?_, h.lowerings, h.shown⟩
    exact ⟨epoch, found, hheard nofun, (Option.some.inj htext).symm⟩
  | lowerings epoch found =>
    exact ⟨h.sections, h.entryText, fun _ => ⟨epoch, hheard nofun⟩, h.shown⟩
  | sections epoch found =>
    refine ⟨fun known hknown => ?_, h.entryText, h.lowerings, h.shown⟩
    rcases mem_mergeInto hknown with hold | ⟨s, hs, rfl⟩
    · exact h.sections known hold
    · exact ⟨epoch, found, s, hs, hheard nofun, rfl, rfl, rfl⟩
  | decompiled ticket findings =>
    refine ⟨h.sections, h.entryText, h.lowerings, fun tinted htinted => ?_⟩
    exact ⟨ticket, findings, hheard nofun, (Option.some.inj htinted).symm⟩

end Session

namespace History

variable {repertoire : Repertoire} {history : History} {arrival : Nat} {opening : Nat × Path}

/-! ## Answers -/

theorem Asks.eq {origin : Nat} {request issued : Request}
    (h : history.Asks origin request) (hissued : history.deeds[origin]? = some (.issued issued)) :
    request = issued := by
  rw [h.1] at hissued
  cases hissued
  rfl

/-- The engine may reply to an opening as it likes. -/
theorem answers_opening {origin : Nat} {reply : Except Failure Json} (path : Path)
    (hissued : history.deeds[origin]? = some (.issued (.openFile path))) :
    history.Answers repertoire (.reply origin reply) := by
  intro request file hasks _
  exact absurd (hasks.eq hissued) (hasks.2 path)

theorem answers_question {origin : Nat} {reply : Except Failure Json} (request : Request) (file : Path)
    (hissued : history.deeds[origin]? = some (.issued request)) (hfile : history.engineFile = some file)
    (h : repertoire file request.command request.arguments reply) :
    history.Answers repertoire (.reply origin reply) := by
  intro asked named hasks hnamed
  obtain rfl := hasks.eq hissued
  obtain rfl := Option.some.inj (hfile.symm.trans hnamed)
  exact h

theorem Brings.not_opened {outcome : Outcome} (h : history.Brings arrival outcome) :
    history.deeds[arrival]?.bind Deed.opened? = none := by
  obtain ⟨⟨origin, ⟨label, result⟩, hcompleted, hok⟩, hopened⟩ := h
  obtain rfl : result = .ok outcome := hok
  rw [hcompleted]
  cases outcome with
  | opened path => exact absurd rfl (hopened path)
  | _ => rfl

/-! ## Each request is answered once -/

/-- A completion comes in with a reply to a request that was issued, and is applied by an event of its
own after it came in. -/
theorem event_of_step {event : Event} {deed : Deed} {after : Desk}
    (h : history.step event = history.add deed after) :
    match deed with
    | .completed origin completion => ∃ request reply, event = .reply origin reply ∧
        history.deeds[origin]? = some (.issued request) ∧ completion = request.complete reply
    | .applied origin completion => ∃ arrival, event = .apply arrival ∧
        history.deeds[arrival]? = some (.completed origin completion)
    | _ => True := by
  have hdeeds := congrArg History.deeds h
  cases event with
  | intent intent =>
    simp only [step] at hdeeds
    split at hdeeds
    · obtain rfl : _ = deed := by simpa using hdeeds
      trivial
    · obtain rfl : _ = deed := by simpa using hdeeds
      trivial
  | reply origin reply =>
    simp only [step] at hdeeds
    split at hdeeds
    next request hissued =>
      obtain rfl : _ = deed := by simpa using hdeeds
      exact ⟨request, reply, rfl, hissued, rfl⟩
    · simp at hdeeds
  | apply arrival =>
    simp only [step] at hdeeds
    split at hdeeds
    next origin completion hcompleted =>
      obtain rfl : _ = deed := by simpa using hdeeds
      exact ⟨arrival, rfl, hcompleted⟩
    · simp at hdeeds
  | gesture gesture =>
    obtain rfl : _ = deed := by simpa [step] using hdeeds
    trivial
  | clock time =>
    obtain rfl : _ = deed := by simpa [step] using hdeeds
    trivial

/-- The requests that were answered are those that were replied to, some of them. -/
theorem answered_sublist (desk : Desk) (events : List Event) :
    ((of desk events).deeds.filterMap Deed.answered?).Sublist (events.filterMap Event.origin?) := by
  induction events using List.reverseRecOn with
  | nil => exact .slnil
  | append_singleton events event ih =>
    rw [of_append, List.foldl_cons, List.foldl_nil, List.filterMap_append]
    rcases step_cases (of desk events) event with heq | ⟨deed, after, hallows, heq⟩
    · rw [heq]
      exact ih.trans (List.sublist_append_left _ _)
    · rw [heq, add_deeds, List.filterMap_append]
      refine ih.append ?_
      cases deed with
      | completed origin completion =>
        obtain ⟨request, reply, rfl, -⟩ := event_of_step heq
        exact List.Sublist.refl _
      | _ => exact List.nil_sublist _

/-- An application is of a completion that came in. -/
theorem completed_of_applied (desk : Desk) (events : List Event) {origin : Nat}
    {completion : Completion} (h : .applied origin completion ∈ (of desk events).deeds) :
    .completed origin completion ∈ (of desk events).deeds := by
  refine of_induction (P := fun history => ∀ origin completion,
    .applied origin completion ∈ history.deeds → .completed origin completion ∈ history.deeds)
    ?_ ?_ events origin completion h
  · simp [start]
  · intro history deed after ih hallows origin completion h
    rw [add_deeds, List.mem_append, List.mem_singleton] at h ⊢
    rcases h with hold | rfl
    · exact .inl (ih origin completion hold)
    · cases hallows with
      | applied hcompleted => exact .inl (List.mem_of_getElem? hcompleted)

theorem mem_answered_of_mem_openings {deeds : List Deed} {opening : Nat × Path}
    (h : opening ∈ openings deeds) : opening.1 ∈ deeds.filterMap Deed.answered? := by
  obtain ⟨deed, hdeed, hopened⟩ := List.mem_filterMap.mp h
  obtain ⟨label, rfl⟩ := Deed.opened?_eq_some_iff.mp hopened
  exact List.mem_filterMap.mpr ⟨_, hdeed, rfl⟩

theorem mem_answered_of_mem_applied {desk : Desk} {events : List Event} {opening : Nat × Path}
    (h : opening ∈ applied (of desk events).deeds) :
    opening.1 ∈ (of desk events).deeds.filterMap Deed.answered? := by
  obtain ⟨deed, hdeed, happlied⟩ := List.mem_filterMap.mp h
  obtain ⟨label, rfl⟩ := Deed.applied?_eq_some_iff.mp happlied
  exact List.mem_filterMap.mpr ⟨_, completed_of_applied desk events hdeed, rfl⟩

/-- A request is issued before it is answered. -/
theorem origin_lt_of_completed (desk : Desk) (events : List Event) {arrival origin : Nat}
    {completion : Completion}
    (h : (of desk events).deeds[arrival]? = some (.completed origin completion)) :
    origin < arrival := by
  refine of_induction (P := fun history => ∀ arrival origin completion,
    history.deeds[arrival]? = some (.completed origin completion) → origin < arrival)
    ?_ ?_ events arrival origin completion h
  · simp [start]
  · intro history deed after ih hallows arrival origin completion h
    rcases deeds_add_cases h with hold | ⟨rfl, rfl⟩
    · exact ih arrival origin completion hold
    · cases hallows with
      | completed reply hissued => exact lt_of_deed hissued

/-! ## What is told -/

/-- The session names the file that deed number `arrival` brought in as opened. That was applied, and
nothing was that the engine opened later. -/
structure Names (history : History) (arrival : Nat) (opening : Nat × Path) : Prop where
  opened : history.deeds[arrival]?.bind Deed.opened? = some opening
  applied : opening ∈ applied (history.deeds.drop (arrival + 1))
  file : history.desk.session.file = some opening.2
  last : ∀ later ∈ openings (history.deeds.drop (arrival + 1)), later ∉ History.applied history.deeds

/-- What is on show was told of the file that the session names, and what was brought in was told of the
file that the engine had opened by then. -/
structure Sourced (repertoire : Repertoire) (history : History) : Prop where
  shows : history.desk.session.ShowsOnly repertoire
  told : ∀ arrival outcome, history.Brings arrival outcome →
    ∀ opening ∈ (openings (history.deeds.take arrival)).getLast?,
      repertoire.Tells opening.2 outcome
  names : history.desk.session.file.isSome → ∃ arrival opening, history.Names arrival opening

theorem Names.lt (h : history.Names arrival opening) : arrival < history.deeds.length := by
  obtain ⟨deed, hdeed, -⟩ := Option.bind_eq_some_iff.mp h.opened
  exact lt_of_deed hdeed

/-- A deed that applies no opening leaves the name, unless what the engine opens has been applied. -/
theorem Names.add (h : history.Names arrival opening) {deed : Deed} {after : Desk}
    (happlied : deed.applied? = none)
    (hopened : ∀ later, deed.opened? = some later → later ∉ History.applied history.deeds)
    (hfile : after.session.file = history.desk.session.file) :
    (history.add deed after).Names arrival opening where
  opened := by
    rw [add_deeds, List.getElem?_append_left h.lt]
    exact h.opened
  applied := by
    rw [add_deeds, List.drop_append_of_le_length h.lt, History.applied, List.filterMap_append]
    exact List.mem_append_left _ h.applied
  file := hfile.trans h.file
  last later hlater := by
    have hsame : History.applied (history.add deed after).deeds = History.applied history.deeds := by
      simp [History.applied, happlied]
    rw [add_deeds, List.drop_append_of_le_length h.lt, openings, List.filterMap_append,
      List.mem_append] at hlater
    rw [hsame]
    rcases hlater with hold | hnew
    · exact h.last later hold
    · obtain ⟨_, hdeed, hlater⟩ := List.mem_filterMap.mp hnew
      obtain rfl := List.mem_singleton.mp hdeed
      exact hopened later hlater

/-- The file whose opening is applied is named from then on. -/
theorem names_of_applied {origin : Nat} {label : String} {path : Path} {after : Desk}
    (hcompleted : history.deeds[arrival]? = some (.completed origin ⟨label, .ok (.opened path)⟩))
    (hturn : ∀ later ∈ openings (history.deeds.drop (arrival + 1)),
      later ∉ applied history.deeds)
    (honce : (history.deeds.filterMap Deed.answered?).Nodup)
    (hfile : after.session.file = some path) :
    (history.add (.applied origin ⟨label, .ok (.opened path)⟩) after).Names arrival (origin, path) where
  opened := by
    rw [add_deeds, List.getElem?_append_left (lt_of_deed hcompleted), hcompleted]
    rfl
  applied := by
    rw [add_deeds, List.drop_append_of_le_length (lt_of_deed hcompleted), applied,
      List.filterMap_append]
    exact List.mem_append_right _ (List.mem_singleton_self _)
  file := hfile
  last later hlater := by
    have hbehind : openings ((history.add (.applied origin ⟨label, .ok (.opened path)⟩) after).deeds.drop
        (arrival + 1)) = openings (history.deeds.drop (arrival + 1)) := by
      rw [add_deeds, List.drop_append_of_le_length (lt_of_deed hcompleted), openings,
        List.filterMap_append]
      exact List.append_nil _
    rw [hbehind] at hlater
    rw [add_deeds, applied, List.filterMap_append, List.mem_append]
    rintro (hold | hnew)
    · exact hturn later hlater hold
    · -- the request would have been answered twice
      obtain rfl : later = (origin, path) := List.mem_singleton.mp hnew
      have hfront : origin ∈ (history.deeds.take (arrival + 1)).filterMap Deed.answered? := by
        have htaken : (history.deeds.take (arrival + 1))[arrival]? =
            some (.completed origin ⟨label, .ok (.opened path)⟩) := by
          rw [List.getElem?_take_of_succ, hcompleted]
        exact List.mem_filterMap.mpr ⟨_, List.mem_of_getElem? htaken, rfl⟩
      rw [← List.take_append_drop (arrival + 1) history.deeds, List.filterMap_append,
        List.nodup_append] at honce
      exact honce.2.2 _ hfront _ (mem_answered_of_mem_openings hlater) rfl

/-- What the deed applies that counts was told of the file that the session names, or is an opening. -/
theorem showsOnly_of_allows {deed : Deed} {after : Desk}
    (h : history.desk.session.ShowsOnly repertoire) (hallows : history.Allows deed after)
    (hheard : ∀ origin completion outcome, deed = .applied origin completion →
      completion.result = .ok outcome → outcome.IsCurrent history.desk.session →
      (∀ path, outcome ≠ .opened path) → history.desk.session.Heard repertoire outcome) :
    after.session.ShowsOnly repertoire := by
  cases hallows with
  | issued hissue =>
    cases Desk.issued_of_issue hissue with
    | decompilation => exact ⟨h.sections, h.entryText, h.lowerings, h.shown⟩
    | _ => exact h
  | refused hissue =>
    cases Desk.issued_of_issue hissue
    exact h
  | completed => exact h
  | @applied _ origin completion _ =>
    obtain ⟨outcome, hok, hcurrent, hfold⟩ | ⟨-, hsame⟩ :=
      history.desk.apply_session_cases completion
    · rw [hfold]
      exact h.foldInto (hheard origin completion outcome rfl hok hcurrent)
    · rw [hsame]
      exact h
  | gestured gesture =>
    cases gesture with
    | toggleSection address => exact h.toggle address
    | selectAll => exact h.selectAll
    | hover index => exact ⟨h.sections, h.entryText, h.lowerings, h.shown⟩
    | _ => exact h
  | waited => exact h

/-- An answer that still counts was told of the file that the session names, if the opening before it has
been applied. -/
theorem Sourced.heard {desk : Desk} {events : List Event} {outcome : Outcome}
    (h : Sourced repertoire (of desk events)) (hbrings : (of desk events).Brings arrival outcome)
    (hcurrent : outcome.IsCurrent (of desk events).desk.session)
    (hturn : ∀ opening ∈ (openings ((of desk events).deeds.take arrival)).getLast?,
      opening ∈ applied (of desk events).deeds) :
    (of desk events).desk.session.Heard repertoire outcome := by
  obtain ⟨⟨origin, completion, hcompleted, hok⟩, hopened⟩ := hbrings
  obtain ⟨request, reply, hissued, rfl⟩ := request_of_completed desk events hcompleted
  have hasks : (of desk events).Asks origin request :=
    ⟨hissued, fun path hopen => hopened path ((Request.opened_iff_of_complete hok).mpr hopen)⟩
  obtain ⟨named, opening, hnames⟩ := h.names (file_isSome_of_asks desk events hasks)
  obtain ⟨deed, hdeed, hmade⟩ := Option.bind_eq_some_iff.mp hnames.opened
  refine ⟨opening.2, hnames.file, h.told arrival outcome
    ⟨⟨origin, _, hcompleted, hok⟩, hopened⟩ opening ?_⟩
  rcases Nat.lt_trichotomy named arrival with hbefore | rfl | hbehind
  · -- what was opened between the two would have been applied, and nothing was
    obtain ⟨gap, rfl⟩ := Nat.exists_eq_add_of_le (Nat.succ_le_of_lt hbefore)
    rw [openings, List.take_add, List.take_add_one, hdeed, List.filterMap_append, List.filterMap_append,
      List.getLast?_append, List.getLast?_append] at hturn ⊢
    have hlast : ([deed].filterMap Deed.opened?).getLast? = some opening := by simp [hmade]
    cases hbetween :
        ((((of desk events).deeds.drop (named + 1)).take gap).filterMap Deed.opened?).getLast? with
    | none =>
      rw [Option.toList_some, hlast]
      rfl
    | some later =>
      have hlater : later ∈ openings ((of desk events).deeds.drop (named + 1)) :=
        ((List.take_sublist gap _).filterMap _).subset (List.mem_of_getLast? hbetween)
      exact absurd (hturn later (by rw [hbetween]; rfl)) (hnames.last later hlater)
  · -- what opens a file brings nothing else
    have hbrings : (of desk events).Brings named outcome := ⟨⟨origin, _, hcompleted, hok⟩, hopened⟩
    cases hbrings.not_opened.symm.trans hnames.opened
  · -- the opening has made the answer late
    have hfresh := (isCurrent_iff_freshSince desk events hissued hok).mp hcurrent
    obtain ⟨deed, hlater, happlied⟩ := List.mem_filterMap.mp hnames.applied
    have horigin := origin_lt_of_completed desk events hcompleted
    have hsince : deed ∈ (of desk events).deeds.drop (origin + 1) :=
      (List.drop_sublist_drop_left _ (by omega)).subset hlater
    have hopens := hfresh.opens hopened deed hsince
    obtain ⟨label, rfl⟩ := Deed.applied?_eq_some_iff.mp happlied
    cases hopens

/-- Every event keeps this, if it applies openings and answers in turn and answers no request twice. -/
theorem Sourced.step {desk : Desk} {events : List Event} (h : Sourced repertoire (of desk events))
    {event : Event} (hanswers : (of desk events).Answers repertoire event)
    (hopens : (of desk events).OpensInTurn event) (hturn : (of desk events).AnswersInTurn event)
    (honce : ((of desk (events ++ [event])).deeds.filterMap Deed.answered?).Nodup) :
    Sourced repertoire (of desk (events ++ [event])) := by
  rw [of_append, List.foldl_cons, List.foldl_nil] at honce ⊢
  rcases step_cases (of desk events) event with heq | ⟨deed, after, hallows, heq⟩
  · rw [heq]
    exact h
  rw [heq, add_deeds, List.filterMap_append] at honce
  have hevent := event_of_step heq
  rw [heq]
  refine ⟨showsOnly_of_allows h.shows hallows ?_, ?_, ?_⟩
  · rintro origin completion outcome rfl hok hcurrent hopened
    obtain ⟨arrival, rfl, hcompleted⟩ := hevent
    have hbrings : (of desk events).Brings arrival outcome :=
      ⟨⟨origin, completion, hcompleted, hok⟩, hopened⟩
    exact h.heard hbrings hcurrent (hturn outcome hbrings hcurrent)
  · rintro arrival outcome ⟨⟨origin, completion, hcompleted, hok⟩, hopened⟩ opening hlast
    rcases deeds_add_cases hcompleted with hold | ⟨rfl, rfl⟩
    · rw [add_deeds, List.take_append_of_le_length (lt_of_deed hold).le] at hlast
      exact h.told arrival outcome ⟨⟨origin, completion, hold, hok⟩, hopened⟩ opening hlast
    · obtain ⟨request, reply, rfl, hissued, rfl⟩ := hevent
      rw [add_deeds, List.take_left] at hlast
      have hasks : (of desk events).Asks origin request :=
        ⟨hissued, fun path hopen => hopened path ((Request.opened_iff_of_complete hok).mpr hopen)⟩
      have hfile : (of desk events).engineFile = some opening.2 := by rw [engineFile, hlast]; rfl
      exact ⟨request, reply, hanswers request opening.2 hasks hfile, hok⟩
  · intro hsome
    cases happlied : deed.applied? with
    | some opening =>
      obtain ⟨label, rfl⟩ := Deed.applied?_eq_some_iff.mp happlied
      obtain ⟨arrival, rfl, hcompleted⟩ := hevent
      have hopened : ((of desk events).deeds[arrival]?.bind Deed.opened?).isSome := by
        rw [hcompleted]
        rfl
      have hfile := file_of_allows hallows
      exact ⟨arrival, opening, names_of_applied hcompleted (hopens hopened)
        (honce.sublist (List.sublist_append_left _ _)) hfile⟩
    | none =>
      have hfile : after.session.file = (of desk events).desk.session.file := by
        rw [file_of_allows hallows, Deed.named?_eq, happlied]
        rfl
      rw [add_desk, hfile] at hsome
      obtain ⟨arrival, opening, hnames⟩ := h.names hsome
      refine ⟨arrival, opening, hnames.add happlied (fun later hlater hbefore => ?_) hfile⟩
      -- the request would have been answered before
      obtain ⟨label, rfl⟩ := Deed.opened?_eq_some_iff.mp hlater
      rw [List.nodup_append] at honce
      exact honce.2.2 _ (mem_answered_of_mem_applied hbefore) _ (List.mem_singleton_self _) rfl

/-- An engine answers from the file that it opened last, and each request is answered once. No opening
is applied behind one that the engine made later, and no answer that still counts is applied before the
opening that the engine made last before it. Then whatever else is issued, answered and applied, and in
whatever order, the sections, the entry text, the lowerings and the decompilation on show were told of
the file that the session names. -/
theorem shows_only_named_file (repertoire : Repertoire) (capacity : UInt64) (layout : Layout)
    {events : List Event} (honce : (events.filterMap Event.origin?).Nodup)
    (hanswers : Throughout (Answers repertoire) (start (.start capacity layout)) events)
    (hopens : Throughout OpensInTurn (start (.start capacity layout)) events)
    (hturn : Throughout AnswersInTurn (start (.start capacity layout)) events) :
    (of (.start capacity layout) events).desk.session.ShowsOnly repertoire := by
  suffices hrun : ∀ past, Sourced repertoire (of (.start capacity layout) past) →
      ((past ++ events).filterMap Event.origin?).Nodup →
      Throughout (Answers repertoire) (of (.start capacity layout) past) events →
      Throughout OpensInTurn (of (.start capacity layout) past) events →
      Throughout AnswersInTurn (of (.start capacity layout) past) events →
      Sourced repertoire (of (.start capacity layout) (past ++ events)) by
    refine (hrun [] ⟨Session.showsOnly_of_blank rfl rfl rfl rfl, ?_, nofun⟩ honce hanswers hopens
      hturn).shows
    rintro arrival outcome ⟨⟨origin, completion, hcompleted, -⟩, -⟩
    cases hcompleted
  clear honce hanswers hopens hturn
  induction events with
  | nil =>
    intro past h _ _ _ _
    rwa [List.append_nil]
  | cons event rest ih =>
    rintro past h honce ⟨hanswers, hanswersRest⟩ ⟨hopens, hopensRest⟩ ⟨hturn, hturnRest⟩
    have hstep : (of (.start capacity layout) past).step event =
        of (.start capacity layout) (past ++ [event]) := (of_append _ past [event]).symm
    rw [hstep] at hanswersRest hopensRest hturnRest
    rw [List.append_cons] at honce ⊢
    have hanswered : ((of (.start capacity layout) (past ++ [event])).deeds.filterMap
        Deed.answered?).Nodup := by
      refine honce.sublist ((answered_sublist _ _).trans ?_)
      exact (List.sublist_append_left _ _).filterMap _
    exact ih (past ++ [event]) (h.step hanswers hopens hturn hanswered) honce hanswersRest hopensRest
      hturnRest

/-- Two files are opened. An analysis of the first is applied after the engine has opened the second, an
analysis of the second is asked for and answered before the opening is applied and comes in behind it,
and another one follows. -/
theorem shows_only_named_file_of_crossing_analyses :
    let found (start : Int) : Json :=
      .array [.object [("startAddress", .integer start), ("analyzed", .boolean true)]]
    let one := Path.ofText "/one"
    let two := Path.ofText "/two"
    let repertoire := Repertoire.analyzing fun file => found (if file = one then 16 else 32)
    let events : List Event :=
      [.intent (.openFile (some one)), .reply 0 (.ok .null), .apply 1, .intent .analyzeAll,
        .intent (.openFile (some two)), .reply 3 (.ok (found 16)), .reply 4 (.ok .null), .apply 5,
        .intent .analyzeAll, .reply 8 (.ok (found 32)), .apply 6, .apply 9,
        .intent .analyzeAll, .reply 12 (.ok (found 32)), .apply 13]
    let crossed := of (.start 8 .standard) (events.take 10)
    let session := (of (.start 8 .standard) events).desk.session
    (events.filterMap Event.origin?).Nodup ∧
      Throughout (Answers repertoire) (start (.start 8 .standard)) events ∧
      Throughout OpensInTurn (start (.start 8 .standard)) events ∧
      Throughout AnswersInTurn (start (.start 8 .standard)) events ∧
      crossed.engineFile = some two ∧ crossed.desk.session.file = some one ∧
      crossed.desk.session.sections = [⟨16, none, true, false⟩] ∧
      session.file = some two ∧ session.sections = [⟨32, none, true, false⟩] ∧
      session.ShowsOnly repertoire ∧
      (of (.start 8 .standard) events).desk.console.entries.map (·.message) =
        ["Open Fireball with /one", "Open Success", "Open Fireball with /two",
          "Section Analyzation Success 1 sections", "Open Success",
          "Discarded result for a previously opened file",
          "Section Analyzation Success 1 sections"] := by
  intro found one two repertoire events crossed session
  have honce : (events.filterMap Event.origin?).Nodup := by decide
  have hanswers : Throughout (Answers repertoire) (start (.start 8 .standard)) events := by
    refine ⟨trivial, answers_opening one ?_, trivial, trivial, trivial,
      answers_question (.analyzeAll ⟨1⟩) one ?_ ?_ rfl, answers_opening two ?_, trivial, trivial,
      answers_question (.analyzeAll ⟨1⟩) two ?_ ?_ rfl, trivial, trivial, trivial,
      answers_question (.analyzeAll ⟨2⟩) two ?_ ?_ rfl, trivial, trivial⟩ <;> decide +kernel
  have hopens : Throughout OpensInTurn (start (.start 8 .standard)) events := by
    refine ⟨trivial, trivial, fun _ => ?_, trivial, trivial, trivial, trivial, fun _ => ?_, trivial,
      trivial, fun _ => ?_, fun _ => ?_, trivial, trivial, fun _ => ?_, trivial⟩ <;> decide +kernel
  have hturn : Throughout AnswersInTurn (start (.start 8 .standard)) events := by
    refine ⟨trivial, trivial, fun _ _ _ => ?_, trivial, trivial, trivial, trivial, fun _ _ _ => ?_,
      trivial, trivial, fun _ _ _ => ?_, fun _ _ _ => ?_, trivial, trivial, fun _ _ _ => ?_,
      trivial⟩ <;> decide +kernel
  exact ⟨honce, hanswers, hopens, hturn, by decide +kernel, by decide +kernel, by decide +kernel,
    by decide +kernel, by decide +kernel,
    shows_only_named_file repertoire 8 .standard honce hanswers hopens hturn, by decide +kernel⟩

/-- A session names one file and shows a section of another: when a file is opened after another and
analyzed before this is applied; and when two files are opened, and the openings are applied in the
other order. Each request is answered once, each completion applied once. -/
theorem shows_other_file_of_overtaking :
    let found (start : Int) : Json :=
      .array [.object [("startAddress", .integer start), ("analyzed", .boolean true)]]
    let one := Path.ofText "/one"
    let two := Path.ofText "/two"
    let repertoire := Repertoire.analyzing fun file => found (if file = one then 16 else 32)
    let inBetween : List Event :=
      [.intent (.openFile (some one)), .reply 0 (.ok .null), .apply 1,
        .intent (.openFile (some two)), .reply 3 (.ok .null),
        .intent .analyzeAll, .reply 5 (.ok (found 32)), .apply 6]
    let reversed : List Event :=
      [.intent (.openFile (some one)), .intent (.openFile (some two)), .reply 0 (.ok .null),
        .reply 1 (.ok .null), .apply 3, .apply 2,
        .intent .analyzeAll, .reply 6 (.ok (found 32)), .apply 7]
    (Throughout OpensInTurn (start (.start 8 .standard)) inBetween ∧
      Throughout AnswersInTurn (start (.start 8 .standard)) reversed) ∧
    ∀ events ∈ [inBetween, reversed],
      let session := (of (.start 8 .standard) events).desk.session
      Throughout (Answers repertoire) (start (.start 8 .standard)) events ∧
        (events.filterMap Event.origin?).Nodup ∧ (events.filterMap Event.arrival?).Nodup ∧
        session.file = some one ∧ session.sections = [⟨32, none, true, false⟩] ∧
        ¬ session.ShowsOnly repertoire := by
  intro found one two repertoire inBetween reversed
  have hbetween : Throughout (Answers repertoire) (start (.start 8 .standard)) inBetween := by
    refine ⟨trivial, answers_opening one ?_, trivial, trivial, answers_opening two ?_, trivial,
      answers_question (.analyzeAll ⟨1⟩) two ?_ ?_ rfl, trivial, trivial⟩ <;> decide +kernel
  have hreversed : Throughout (Answers repertoire) (start (.start 8 .standard)) reversed := by
    refine ⟨trivial, trivial, answers_opening one ?_, answers_opening two ?_, trivial, trivial, trivial,
      answers_question (.analyzeAll ⟨2⟩) two ?_ ?_ rfl, trivial, trivial⟩ <;> decide +kernel
  -- the one analysis of the named file finds another section
  have hshows {session : Session} (hfile : session.file = some one)
      (hsections : session.sections = [⟨32, none, true, false⟩]) : ¬ session.ShowsOnly repertoire := by
    intro h
    obtain ⟨epoch, sections, s, hs, ⟨file, hnamed, request, reply, hreply, hok⟩, hstart, -, -⟩ :=
      h.sections ⟨32, none, true, false⟩ (hsections ▸ List.mem_singleton_self _)
    obtain rfl : one = file := Option.some.inj (hfile.symm.trans hnamed)
    obtain rfl : reply = _ := hreply
    cases request with
    | analyzeAll asked =>
      have hbrought : ((Request.analyzeAll asked).complete (.ok (found 16))).result =
          .ok (.sections asked [⟨16, none, true⟩]) := rfl
      obtain ⟨rfl, rfl⟩ := Outcome.sections.inj (Except.ok.inj (hbrought.symm.trans hok))
      obtain rfl := List.mem_singleton.mp hs
      cases hstart
    | _ => cases hok
  refine ⟨⟨?_, ?_⟩, List.forall_mem_cons.mpr ⟨?_, List.forall_mem_singleton.mpr ?_⟩⟩
  · refine ⟨trivial, trivial, fun _ => ?_, trivial, trivial, trivial, trivial, fun _ => ?_,
      trivial⟩ <;> decide +kernel
  · refine ⟨trivial, trivial, trivial, trivial, fun _ hbrings => ?_, fun _ hbrings => ?_, trivial,
      trivial, fun _ _ _ => by decide +kernel, trivial⟩
    · cases hbrings.not_opened
    · cases hbrings.not_opened
  · intro session
    have hfile : session.file = some one := by decide +kernel
    have hsections : session.sections = [⟨32, none, true, false⟩] := by decide +kernel
    exact ⟨hbetween, by decide, by decide, hfile, hsections, hshows hfile hsections⟩
  · intro session
    have hfile : session.file = some one := by decide +kernel
    have hsections : session.sections = [⟨32, none, true, false⟩] := by decide +kernel
    exact ⟨hreversed, by decide, by decide, hfile, hsections, hshows hfile hsections⟩

end History

end DecompilerDesk
