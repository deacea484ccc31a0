-- SUMMARY: A run puts up to four questions over its link, and its session holds what their answers bring.
import DecompilerDesk.CommandLine
import DecompilerDesk.Proofs.Desk.Opening
import DecompilerDesk.Proofs.Desk.Selection

/-!
# The course of a run

A run opens its binary, has it analyzed, inspects an address and decompiles what was found. Each step
is at most one question over the link. What comes of them is told here without a desk: by the questions
that the options ask for, and by the answers.
-/

namespace DecompilerDesk

/-- Put a question, if there is one. There may be no answer, and no end while one is waited for. -/
def Link.put {α : Type} (link : Link) : Option (Call α) → Option (Option α) × Link
  | none => (some none, link)
  | some call => ((link.call call).1.map Except.toOption, (link.call call).2)

namespace CommandLine

/-! ## Questions -/

/-- The question by which the binary is analyzed. There is none for an address that is not one. -/
def analysis? (options : Options) : Option (Call (List Section)) :=
  match options.address with
  | none => some .analyzeAll
  | some input =>
    if (Text.trim input.toList).isEmpty then some (.analyze "")
    else (Address.ofChars? input.toList).map fun address => .analyze address.text

/-- The question by which an address is inspected. -/
def inspection? (options : Options) : Option (Call (List Lowering)) :=
  options.inspect.bind fun input =>
    (Address.ofChars? input.toList).map fun address => .inspect address.text

/-- The starts of the analyzed ones among sections. -/
def analyzedStarts (sections : List KnownSection) : List Address :=
  (sections.filter (·.analyzed)).map (·.start)

/-- The question by which the sections with these starts are decompiled, if there are any. -/
def decompilation? (starts : List Address) : Option (Call Decompilation) :=
  if starts = [] then none else some (.decompile starts)

/-! ## Answers -/

section

variable (options : Options) (link : Link)

/-- The answer to the opening of the binary, and the link after it. -/
def opened : Option (Option Unit) × Link := link.put (some (.openFile options.binary))

/-- The answer to the analysis, and the link after it. -/
def analyzed : Option (Option (List Section)) × Link :=
  (opened options link).2.put (analysis? options)

/-- The sections that the analysis brought. -/
def found : List KnownSection := Session.mergeInto [] ((analyzed options link).1.join.getD [])

/-- The answer to the inspection, and the link after it. -/
def inspected : Option (Option (List Lowering)) × Link :=
  (analyzed options link).2.put (inspection? options)

/-- The answer to the decompilation, and the link after it. -/
def decompiled : Option (Option Decompilation) × Link :=
  (inspected options link).2.put (decompilation? (analyzedStarts (found options link)))

end

/-! ## One step -/

@[simp] theorem session_atTime (desk : Desk) (time : TimeOfDay) :
    (desk.atTime time).session = desk.session := rfl

@[simp] theorem session_selectAll (desk : Desk) :
    desk.selectAll.session = desk.session.selectAll := rfl

/-- An intent that puts a question, or none: its outcomes count for the session that it leaves. -/
inductive Puts {α : Type} (outcome : α → Outcome) (session : Session) :
    Option (Call α) → Option Request × Desk → Prop where
  | none {after : Desk} (hsession : after.session = session) :
      Puts outcome session none (none, after)
  | some {call : Call α} {request : Request} {after : Desk} (hsession : after.session = session)
      (hplan : request.plan = ⟨call, outcome⟩) (hcurrent : ∀ value, (outcome value).IsCurrent session) :
      Puts outcome session (some call) (some request, after)

/-- A part of a run that waits for ever is its last. -/
theorem run_bind {α β : Type} (first : OptionT (StateM Link) α) (next : α → OptionT (StateM Link) β)
    (link : Link) :
    (first >>= next).run link =
      match first.run link with
      | (none, after) => (none, after)
      | (some value, after) => (next value).run after := by
  change OptionT.bind first next link = _
  simp only [OptionT.bind, OptionT.mk, bind, StateT.bind, OptionT.run]
  rcases first link with ⟨_ | value, after⟩ <;> rfl

theorem serve_of_none {desk after : Desk} {issue : Desk → Option Request × Desk}
    (h : issue (desk.atTime default) = (none, after)) (link : Link) :
    (linked.serve desk issue).run link = (some after, link) := by
  have hnow : linked.now.run link = (some default, link) := rfl
  rw [Host.serve, run_bind, hnow]
  simp only [h]
  rfl

theorem serve_of_some {desk after : Desk} {issue : Desk → Option Request × Desk} {request : Request}
    (h : issue (desk.atTime default) = (some request, after)) (link : Link) :
    (linked.serve desk issue).run link =
      ((link.call request.plan.call).1.map fun answer =>
          (after.atTime default).apply ⟨request.label, answer.map request.plan.outcome⟩,
        (link.call request.plan.call).2) := by
  have hnow : linked.now.run link = (some default, link) := rfl
  have hinvoke : (linked.invoke request.command request.arguments).run link =
      link.invoke request.plan.call.command request.plan.call.arguments := rfl
  rw [Host.serve, run_bind, hnow]
  simp only [h, run_bind, hinvoke, Link.call]
  rcases link.invoke request.plan.call.command request.plan.call.arguments with ⟨_ | reply, after⟩ <;>
    rfl

/-- What a step makes of the answer to its question: the session takes it in, unless it is waited
for. -/
inductive Served {α : Type} (outcome : α → Outcome) (session : Session)
    (answered : Option (Option α) × Link) (served : Option Desk × Link) : Prop where
  | waiting (hanswer : answered.1 = none) (hserved : served = (none, answered.2))
  | ended {answer : Option α} {desk : Desk} (hanswer : answered.1 = some answer)
      (hserved : served = (some desk, answered.2))
      (hsession : desk.session =
        answer.elim session fun value => (outcome value).foldInto session)

theorem serve_of_puts {α : Type} {outcome : α → Outcome} {session : Session}
    {call? : Option (Call α)} (desk : Desk) (issue : Desk → Option Request × Desk) (link : Link)
    (h : Puts outcome session call? (issue (desk.atTime default))) :
    Served outcome session (link.put call?) ((linked.serve desk issue).run link) := by
  generalize hissue : issue (desk.atTime default) = issued at h
  cases h with
  | none hsession =>
    exact .ended rfl (serve_of_none hissue link) hsession
  | @some call request after hsession hplan hcurrent =>
    have hserved := serve_of_some hissue link
    rw [hplan] at hserved
    have hsame : (after.atTime default).session = session := hsession
    cases hanswer : (link.call call).1 with
    | none => exact .waiting (by simp [Link.put, hanswer]) (by rw [hserved, hanswer]; rfl)
    | some answer =>
      refine .ended (by rw [Link.put, hanswer, Option.map_some]) (by rw [hserved, hanswer]; rfl) ?_
      simp only [Desk.apply_eq, hsame]
      cases answer with
      | error failure => rfl
      -- The answer meets the session that asked: no other file was opened in between.
      | ok value => exact Completion.foldInto_of_isCurrent rfl (hcurrent value)

/-! ## The steps of a run -/

section

variable {options : Options} {desk : Desk}

theorem puts_opening (options : Options) (desk : Desk) :
    Puts (fun () => .opened options.binary) desk.session (some (.openFile options.binary))
      (desk.openFile (some options.binary)) :=
  .some rfl rfl fun _ => trivial

theorem puts_address {α : Type} {outcome : α → Outcome} {label input : String}
    {call : Address → Call α} {request : Address → Request}
    (hplan : ∀ address, (request address).plan = ⟨call address, outcome⟩)
    (hcurrent : ∀ value, (outcome value).IsCurrent desk.session) :
    Puts outcome desk.session ((Address.ofChars? input.toList).map call)
      (desk.withAddress label input fun address => (some (request address), desk)) := by
  unfold Desk.withAddress Address.parse
  cases Address.ofChars? input.toList with
  | none => exact .none rfl
  | some address => exact .some rfl (hplan address) hcurrent

theorem puts_analysis (hfile : desk.session.file.isSome) :
    Puts (.sections desk.session.epoch) desk.session (analysis? options) (analysis options desk) := by
  unfold analysis analysis?
  cases options.address with
  | none =>
    simp only [Desk.analyzeAll, Desk.withFile_of_file hfile]
    exact .some rfl rfl fun _ => rfl
  | some input =>
    simp only [Desk.analyze, Desk.withFile_of_file hfile]
    split
    · exact .some rfl rfl fun _ => rfl
    · exact puts_address (fun _ => rfl) fun _ => rfl

theorem puts_inspection {input : String} (hinput : options.inspect = some input)
    (hfile : desk.session.file.isSome) :
    Puts (.lowerings desk.session.epoch) desk.session (inspection? options) (desk.inspect input) := by
  rw [inspection?, hinput, Option.bind_some]
  simp only [Desk.inspect, Desk.withFile_of_file hfile]
  exact puts_address (fun _ => rfl) fun _ => rfl

/-- The session once the selected sections, if there are any, are asked for. -/
def asking (session : Session) : Session :=
  if session.selected = [] then session else session.beginDecompilation.2

/-- Asking for the selected sections takes a ticket at most. -/
theorem asking_eq (session : Session) : ∃ ticket, asking session = { session with ticket } := by
  unfold asking
  split
  · exact ⟨session.ticket, rfl⟩
  · exact ⟨session.beginDecompilation.1, rfl⟩

theorem puts_decompilation (hfile : desk.session.file.isSome) :
    Puts (.decompiled desk.session.beginDecompilation.1) (asking desk.session)
      (decompilation? desk.session.selected) desk.decompileSelected := by
  unfold asking decompilation?
  by_cases hnone : desk.session.selected = []
  · rw [Desk.decompileSelected_of_unselected hnone, if_pos hnone, if_pos hnone]
    exact .none rfl
  · rw [Desk.decompileSelected_of_selected hfile hnone, if_neg hnone, if_neg hnone]
    exact .some rfl rfl fun _ => rfl

end

/-! ## What a session is told -/

/-- The section, selected if it is analyzed. -/
def selecting (s : KnownSection) : KnownSection := { s with selected := s.analyzed }

/-- Sections that have just arrived are selected by their analysis alone. -/
theorem sections_selectAll {session : Session} {incoming : List Section}
    (h : session.sections = Session.mergeInto [] incoming) :
    session.selectAll.sections = session.sections.map selecting := by
  refine List.map_congr_left fun s hs => ?_
  rw [h] at hs
  rcases Session.mem_mergeInto hs with hold | ⟨arriving, -, rfl⟩
  · exact absurd hold List.not_mem_nil
  · rfl

theorem selected_of_selecting {session : Session} {sections : List KnownSection}
    (h : session.sections = sections.map selecting) : session.selected = analyzedStarts sections := by
  rw [Session.selected, h, List.filter_map, List.map_map]
  rfl

section

variable {options : Options} {link : Link} {desk : Desk}

/-- What the session holds once the binary was opened. -/
structure Holds (options : Options) (sections : List KnownSection) (lowerings : List Lowering)
    (findings : Option Decompilation) (session : Session) : Prop where
  file : session.file = some options.binary
  sections : session.sections = sections
  lowerings : session.lowerings = lowerings
  shown : session.shown = findings.map .ofDecompilation

theorem Holds.file_isSome {sections : List KnownSection} {lowerings : List Lowering}
    {findings : Option Decompilation} {session : Session}
    (h : Holds options sections lowerings findings session) : session.file.isSome := by
  rw [h.file]
  rfl

theorem serve_opening (options : Options) (link : Link) (desk : Desk) (hnew : desk.session = {}) :
    Served (fun () => .opened options.binary) {} (opened options link)
      ((linked.serve desk (·.openFile (some options.binary))).run link) := by
  have hputs := puts_opening options (desk.atTime default)
  rw [session_atTime, hnew] at hputs
  exact serve_of_puts desk _ link hputs

theorem serve_analysis (options : Options) (link : Link)
    (hsession : desk.session = ({} : Session).reset options.binary) :
    Served (.sections desk.session.epoch) desk.session (analyzed options link)
      ((linked.serve desk (analysis options)).run (opened options link).2) := by
  have hfile : (desk.atTime default).session.file.isSome := by
    rw [session_atTime, hsession]
    rfl
  exact serve_of_puts desk (analysis options) (opened options link).2 (puts_analysis hfile)

/-- What the session holds behind the analysis. -/
theorem holds_of_analysis (hsession : desk.session = ({} : Session).reset options.binary)
    {answer : Option (List Section)} (hanalyzed : (analyzed options link).1 = some answer)
    {after : Desk} (hafter : after.session =
      answer.elim desk.session fun value => (Outcome.sections desk.session.epoch value).foldInto desk.session) :
    Holds options (found options link) [] none after.session := by
  rw [hafter, hsession]
  cases answer with
  | none => exact ⟨rfl, by rw [found, hanalyzed]; rfl, rfl, rfl⟩
  | some incoming => exact ⟨rfl, by rw [found, hanalyzed]; rfl, rfl, rfl⟩

/-- The step of an inspection, if one is asked for. -/
def inspecting (options : Options) (desk : Desk) : OptionT (StateM Link) Desk :=
  match options.inspect with
  | some address => linked.serve desk (·.inspect address)
  | none => pure desk

theorem inspecting_served (h : Holds options (found options link) [] none desk.session) :
    Served (.lowerings desk.session.epoch) desk.session (inspected options link)
      ((inspecting options desk).run (analyzed options link).2) := by
  unfold inspecting
  cases hinput : options.inspect with
  | none =>
    have hnone : inspected options link = (some none, (analyzed options link).2) := by
      simp [inspected, inspection?, hinput, Link.put]
    rw [hnone]
    exact .ended rfl rfl rfl
  | some input =>
    have hfile : (desk.atTime default).session.file.isSome := h.file_isSome
    exact serve_of_puts desk (·.inspect input) (analyzed options link).2 (puts_inspection hinput hfile)

/-- What the session holds behind the inspection. -/
theorem Holds.inspection {sections : List KnownSection}
    (h : Holds options sections [] none desk.session) {answer : Option (List Lowering)} {after : Desk}
    (hafter : after.session = answer.elim desk.session fun value =>
      (Outcome.lowerings desk.session.epoch value).foldInto desk.session) :
    Holds options sections (answer.getD []) none after.session := by
  rw [hafter]
  cases answer with
  | none => exact h
  | some lowerings => exact ⟨h.file, h.sections, rfl, h.shown⟩

/-- The last step: what it leaves holds the findings, with the analyzed sections selected. -/
theorem serve_decompilation {lowerings : List Lowering}
    (h : Holds options (found options link) lowerings none desk.session) :
    ∃ (outcome : Decompilation → Outcome) (asking : Session),
      Served outcome asking (decompiled options link)
        ((linked.serve desk.selectAll Desk.decompileSelected).run (inspected options link).2) ∧
      ∀ (answer : Option Decompilation) (after : Desk),
        after.session = answer.elim asking (fun value => (outcome value).foldInto asking) →
        Holds options ((found options link).map selecting) lowerings answer after.session := by
  have hsections : desk.session.selectAll.sections = (found options link).map selecting := by
    rw [sections_selectAll h.sections, h.sections]
  have hselected : desk.session.selectAll.selected = analyzedStarts (found options link) :=
    selected_of_selecting hsections
  have hserved := serve_of_puts desk.selectAll Desk.decompileSelected (inspected options link).2
    (puts_decompilation h.file_isSome)
  obtain ⟨ticket, hasking⟩ := asking_eq desk.session.selectAll
  simp only [session_atTime, session_selectAll, hselected, hasking] at hserved
  refine ⟨_, _, hserved, ?_⟩
  intro answer after hafter
  rw [hafter]
  cases answer with
  | none => exact ⟨h.file, hsections, h.lowerings, h.shown⟩
  | some findings => exact ⟨h.file, hsections, h.lowerings, rfl⟩

end

/-! ## A whole run -/

/-- What a run on a new desk comes to, and the link behind it. It waits for ever behind a question whose
answer does not come. -/
inductive Conducted (options : Options) (link : Link) : Option (Desk × Option Defeat) × Link → Prop where
  | openingWaits (hopened : (opened options link).1 = none) :
      Conducted options link (none, (opened options link).2)
  | shut {desk : Desk} (hopened : (opened options link).1 = some none) :
      Conducted options link (some (desk, some .notOpened), (opened options link).2)
  | analysisWaits (hopened : (opened options link).1 = some (some ()))
      (hanalyzed : (analyzed options link).1 = none) :
      Conducted options link (none, (analyzed options link).2)
  | cut {desk : Desk} (hopened : (opened options link).1 = some (some ()))
      (hanalyzed : (analyzed options link).1.isSome) (hbroken : (analyzed options link).2.broken = true) :
      Conducted options link
        (some (desk, some (.failure (.transport "analyze" "engine connection lost"))),
          (analyzed options link).2)
  | inspectionWaits (hopened : (opened options link).1 = some (some ()))
      (hanalyzed : (analyzed options link).1.isSome) (hbroken : (analyzed options link).2.broken = false)
      (hinspected : (inspected options link).1 = none) :
      Conducted options link (none, (inspected options link).2)
  | decompilationWaits (hopened : (opened options link).1 = some (some ()))
      (hanalyzed : (analyzed options link).1.isSome) (hbroken : (analyzed options link).2.broken = false)
      (hinspected : (inspected options link).1.isSome) (hdecompiled : (decompiled options link).1 = none) :
      Conducted options link (none, (decompiled options link).2)
  | finished {desk : Desk} (hopened : (opened options link).1 = some (some ()))
      (hanalyzed : (analyzed options link).1.isSome) (hbroken : (analyzed options link).2.broken = false)
      (hinspected : (inspected options link).1.isSome) (hdecompiled : (decompiled options link).1.isSome)
      (hsession : Holds options ((found options link).map selecting)
        ((inspected options link).1.join.getD []) (decompiled options link).1.join desk.session) :
      Conducted options link (some (desk, none), (decompiled options link).2)

theorem finish_linked (options : Options) (desk : Desk) :
    finish linked options desk = inspecting options desk >>= fun desk =>
      linked.serve desk.selectAll Desk.decompileSelected := by
  unfold finish inspecting
  cases options.inspect <;> rfl

/-- What is left to do once the binary was analyzed. -/
theorem conducted_of_analyzed {options : Options} {link : Link} {desk : Desk}
    (hopened : (opened options link).1 = some (some ())) (hanalyzed : (analyzed options link).1.isSome)
    (hbroken : (analyzed options link).2.broken = false)
    (hholds : Holds options (found options link) [] none desk.session) :
    Conducted options link
      ((do
        let desk ← finish linked options desk
        pure (desk, none) : OptionT (StateM Link) (Desk × Option Defeat)).run
          (analyzed options link).2) := by
  rw [finish_linked, run_bind, run_bind]
  cases inspecting_served hholds with
  | waiting hinspected hserved =>
    rw [hserved]
    exact .inspectionWaits hopened hanalyzed hbroken hinspected
  | @ended lowerings desk hinspected hserved hsession =>
    rw [hserved]
    obtain ⟨outcome, asking, hdecompilation, hlast⟩ :=
      serve_decompilation (hholds.inspection hsession)
    have hsome : (inspected options link).1.isSome := by rw [hinspected]; rfl
    cases hdecompilation with
    | waiting hdecompiled hserved =>
      simp only [hserved]
      exact .decompilationWaits hopened hanalyzed hbroken hsome hdecompiled
    | @ended findings desk hdecompiled hserved hsession =>
      simp only [hserved]
      refine .finished hopened hanalyzed hbroken hsome (by rw [hdecompiled]; rfl) ?_
      rw [hinspected, hdecompiled]
      exact hlast findings desk hsession

/-- What is left to do once the binary was opened. -/
theorem conducted_of_reset {options : Options} {link : Link} {desk : Desk}
    (hopened : (opened options link).1 = some (some ()))
    (hsession : desk.session = ({} : Session).reset options.binary) :
    Conducted options link
      ((do
        let desk ← linked.serve desk (analysis options)
        if ← linked.isBroken then
          pure (desk, some (.failure (.transport "analyze" "engine connection lost")))
        else
          let desk ← finish linked options desk
          pure (desk, none) : OptionT (StateM Link) (Desk × Option Defeat)).run
            (opened options link).2) := by
  have hisBroken (link : Link) : linked.isBroken.run link = (some link.broken, link) := rfl
  rw [run_bind]
  cases serve_analysis options link hsession with
  | waiting hanalyzed hserved =>
    rw [hserved]
    exact .analysisWaits hopened hanalyzed
  | @ended sections after hanalyzed hserved hafter =>
    have hsome : (analyzed options link).1.isSome := by rw [hanalyzed]; rfl
    simp only [hserved, run_bind, hisBroken]
    cases hbroken : (analyzed options link).2.broken with
    | true => exact .cut hopened hsome hbroken
    | false =>
      have hconducted := conducted_of_analyzed hopened hsome hbroken
        (holds_of_analysis hsession hanalyzed hafter)
      simpa [run_bind] using hconducted

theorem conducted (options : Options) (capacity : UInt64) (layout : Layout) (link : Link) :
    Conducted options link ((conduct linked options (.start capacity layout)).run link) := by
  rw [conduct, run_bind]
  cases serve_opening options link (.start capacity layout) rfl with
  | waiting hopened hserved =>
    rw [hserved]
    exact .openingWaits hopened
  | @ended answer desk hopened hserved hsession =>
    rw [hserved]
    cases answer with
    | none =>
      have hfile : desk.session.file.isNone = true := by rw [hsession]; rfl
      simp only [hfile, if_true]
      exact .shut hopened
    | some =>
      have hfile : desk.session.file.isNone = false := by rw [hsession]; rfl
      simp only [hfile]
      exact conducted_of_reset hopened hsession

/-- What a run leaves behind. -/
inductive Ran (start : String → List String → Except SystemError Engine) (options : Options)
    (files : Files) (fromEnvironment : Option Path) : Run → Prop where
  | unsettled {failure : Failure} (hsettings : settings options files fromEnvironment = .error failure) :
      Ran start options files fromEnvironment ⟨some ⟨none, some (.failure failure)⟩, none⟩
  | unspawned {chosen : Settings} {failure : Failure}
      (hsettings : settings options files fromEnvironment = .ok chosen)
      (hspawn : Link.spawn start chosen.engineCommand = .error failure) :
      Ran start options files fromEnvironment ⟨some ⟨none, some (.failure failure)⟩, none⟩
  | conducted {chosen : Settings} {link last : Link} {ending : Option (Desk × Option Defeat)}
      (hsettings : settings options files fromEnvironment = .ok chosen)
      (hspawn : Link.spawn start chosen.engineCommand = .ok link)
      (hconducted : Conducted options link (ending, last)) :
      Ran start options files fromEnvironment
        ⟨ending.map fun (desk, defeat) => ⟨some desk, defeat⟩, some last⟩

theorem ran (start : String → List String → Except SystemError Engine) (options : Options)
    (files : Files) (fromEnvironment : Option Path) :
    Ran start options files fromEnvironment (run start options files fromEnvironment) := by
  unfold run
  split
  next hsettings => exact .unsettled hsettings
  next chosen hsettings =>
    split
    next hspawn => exact .unspawned hsettings hspawn
    next link hspawn => exact .conducted hsettings hspawn (conducted options _ _ link)

theorem Result.exitCode_eq_zero_iff {result : Result} :
    result.exitCode = 0 ↔ result.defeat = none := by
  unfold Result.exitCode
  cases result.defeat <;> simp

/-- A run that succeeds went to its end. -/
theorem Ran.holds {start : String → List String → Except SystemError Engine} {options : Options}
    {files : Files} {fromEnvironment : Option Path} {run : Run} {result : Result}
    (h : Ran start options files fromEnvironment run) (hresult : run.result = some result)
    (hexit : result.exitCode = 0) :
    ∃ desk link, result.desk = some desk ∧ result.defeat = none ∧
      Holds options ((found options link).map selecting) ((inspected options link).1.join.getD [])
        (decompiled options link).1.join desk.session := by
  rw [Result.exitCode_eq_zero_iff] at hexit
  cases h with
  | unsettled | unspawned =>
    obtain rfl := Option.some.inj hresult
    cases hexit
  | @conducted _ link _ _ _ _ hconducted =>
    cases hconducted with
    | openingWaits | analysisWaits | inspectionWaits | decompilationWaits => cases hresult
    | shut | cut =>
      obtain rfl := Option.some.inj hresult
      cases hexit
    | @finished desk _ _ _ _ _ hsession =>
      obtain rfl := Option.some.inj hresult
      exact ⟨desk, link, rfl, rfl, hsession⟩

end CommandLine

end DecompilerDesk
