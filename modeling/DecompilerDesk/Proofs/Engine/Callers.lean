-- SUMMARY: Of the calls over a shared link those that begin once a failure is noted write nothing, and those that began before write one request each.
import DecompilerDesk.Proofs.Engine.Talk

/-!
# Callers that share a link

Several callers may share one link. A call takes three steps then, and steps of other calls may come
in between: it looks whether the link is broken, it has the pipes to itself for its exchange, and it
takes note of the result. A call that looked before a failure was noted still has its exchange after
it. Only the calls that begin later are refused. A call that waits for its line keeps the pipes.
-/

namespace DecompilerDesk

open Engine (Drifts)
open Exchange (Over over_nil)
open Link (OutOfStep)

namespace Crowd

/-- A step of a call. A call goes by the number of its first step. -/
inductive Step where
  /-- It begins, and finds the link broken or not. -/
  | begins (command : String) (arguments : Json) (broken : Bool)
  /-- It has the pipes to itself. -/
  | exchanges (call : Nat) (exchange : Exchange)
  /-- It takes note of its result. -/
  | settles (call : Nat) (result : Except Failure Json)

def Step.exchange? : Step → Option Exchange
  | .exchanges _ exchange => some exchange
  | .begins .. | .settles .. => none

/-- The exchanges among the steps, in their order. -/
def exchanged (steps : List Step) : List Exchange := steps.filterMap Step.exchange?

/-- A call took note that the link failed. -/
def Noted (steps : List Step) : Prop :=
  ∃ call result, .settles call result ∈ steps ∧ OutOfStep result

/-- What holds of a step behind those before it. -/
def Step.InTurn (before : List Step) : Step → Prop
  | .begins _ _ broken => broken = true ↔ Noted before
  | .exchanges call exchange =>
    before[call]? = some (.begins exchange.command exchange.arguments false) ∧
      (∀ other, .exchanges call other ∉ before) ∧
      (exchange.sent = [] ∨ exchange.sent = [(RequestLine.mk ((exchanged before).length + 1)
        exchange.command exchange.arguments).text])
  | .settles call result =>
    (∃ exchange, .exchanges call exchange ∈ before ∧ exchange.result = some result) ∧
      ∀ other, .settles call other ∉ before

end Crowd

open Crowd (Step)

/-- The steps of the calls over a shared link so far, and the link after them. -/
inductive Crowd : List Step → Link → Prop where
  | start (turns : List Turn) : Crowd [] (.toEngine (.ofTurns turns))
  | drift {steps : List Step} {link : Link} {engine : Engine} (h : Crowd steps link)
      (hdrifts : Drifts link.engine engine) : Crowd steps { link with engine := engine }
  | begins {steps : List Step} {link : Link} (h : Crowd steps link) (command : String)
      (arguments : Json) : Crowd (steps ++ [.begins command arguments link.broken]) link
  | exchanges {steps : List Step} {link : Link} (h : Crowd steps link)
      (hover : Over (Crowd.exchanged steps)) (call : Nat)
      {command : String} {arguments : Json}
      (hbegan : steps[call]? = some (.begins command arguments false))
      (hfirst : ∀ other, .exchanges call other ∉ steps) :
      Crowd
        (steps ++ [.exchanges call (.seen link command arguments (link.exchange command arguments))])
        (link.exchange command arguments).2
  | settles {steps : List Step} {link : Link} (h : Crowd steps link) (call : Nat)
      {exchange : Exchange} {result : Except Failure Json}
      (hexchanged : .exchanges call exchange ∈ steps) (hended : exchange.result = some result)
      (hfirst : ∀ other, .settles call other ∉ steps) :
      Crowd (steps ++ [.settles call result]) (link.settle result)

namespace Crowd

variable {steps : List Step} {link : Link}

/-! ## Steps in turn -/

/-- The steps are in turn, and the link has kept up with them. -/
structure InTurn (steps : List Step) (link : Link) : Prop where
  inTurn : ∀ before step after, steps = before ++ step :: after → step.InTurn before
  /-- The link is broken just when a failure has been noted. -/
  broken : link.broken = true ↔ Noted steps
  /-- The engine was sent what the exchanges wrote, in their order. -/
  sent : link.engine.sent = (exchanged steps).flatMap (·.sent)
  nextId : link.nextId = (exchanged steps).length + 1

theorem inTurn_start (turns : List Turn) : InTurn [] (.toEngine (.ofTurns turns)) where
  inTurn before step after h := by simp at h
  broken := by simp [Noted, Link.toEngine]
  sent := rfl
  nextId := rfl

theorem noted_concat (steps : List Step) (step : Step) :
    Noted (steps ++ [step]) ↔
      Noted steps ∨ ∃ call result, step = .settles call result ∧ OutOfStep result := by
  simp only [Noted, List.mem_append, List.mem_singleton, or_and_right, exists_or, eq_comm]

theorem exchanged_concat (steps : List Step) (step : Step) :
    exchanged (steps ++ [step]) = exchanged steps ++ step.exchange?.toList := by
  cases step <;> simp [exchanged, Step.exchange?]

namespace InTurn

theorem drift (h : InTurn steps link) {engine : Engine} (hdrifts : Drifts link.engine engine) :
    InTurn steps { link with engine := engine } where
  inTurn := h.inTurn
  broken := h.broken
  sent := hdrifts.sent.trans h.sent
  nextId := h.nextId

theorem begins (h : InTurn steps link) (command : String) (arguments : Json) :
    InTurn (steps ++ [.begins command arguments link.broken]) link where
  inTurn := InStep.forall_concat h.inTurn h.broken
  broken := by simp [noted_concat, h.broken]
  sent := by simp [exchanged_concat, Step.exchange?, h.sent]
  nextId := by simp [exchanged_concat, Step.exchange?, h.nextId]

theorem settles (h : InTurn steps link) {call : Nat} {exchange : Exchange}
    {result : Except Failure Json} (hexchanged : .exchanges call exchange ∈ steps)
    (hended : exchange.result = some result) (hfirst : ∀ other, .settles call other ∉ steps) :
    InTurn (steps ++ [.settles call result]) (link.settle result) where
  inTurn := InStep.forall_concat h.inTurn ⟨⟨exchange, hexchanged, hended⟩, hfirst⟩
  broken := by simp [noted_concat, Link.settle, Link.breaks_iff, h.broken]
  sent := by simp [exchanged_concat, Step.exchange?, Link.settle, h.sent]
  nextId := by simp [exchanged_concat, Step.exchange?, Link.settle, h.nextId]

theorem exchanges (h : InTurn steps link) {call : Nat} {command : String} {arguments : Json}
    (hbegan : steps[call]? = some (.begins command arguments false))
    (hfirst : ∀ other, .exchanges call other ∉ steps)
    {outcome : Option (Except Failure Json) × Link}
    (hexchanged : Link.Exchanged link command arguments outcome) :
    InTurn (steps ++ [.exchanges call (.seen link command arguments outcome)]) outcome.2 := by
  cases hexchanged with
  | unsent refusal =>
    rw [Exchange.seen_unsent]
    exact {
      inTurn := InStep.forall_concat h.inTurn ⟨hbegan, hfirst, .inl rfl⟩
      broken := by simp [noted_concat, h.broken]
      sent := by simp [exchanged_concat, Step.exchange?, h.sent]
      nextId := by simp [exchanged_concat, Step.exchange?, h.nextId] }
  | answered waited after line hdrifts hreads =>
    rw [Exchange.seen_answered hdrifts hreads]
    exact {
      inTurn := InStep.forall_concat h.inTurn ⟨hbegan, hfirst, .inr (by rw [h.nextId])⟩
      broken := by simp [noted_concat, h.broken]
      sent := by simp [exchanged_concat, Step.exchange?, Engine.sent_of_reads hdrifts hreads, h.sent]
      nextId := by simp [exchanged_concat, Step.exchange?, h.nextId] }
  | waiting waited hdrifts hsilent =>
    rw [Exchange.seen_waiting hdrifts]
    exact {
      inTurn := InStep.forall_concat h.inTurn ⟨hbegan, hfirst, .inr (by rw [h.nextId])⟩
      broken := by simp [noted_concat, h.broken]
      sent := by simp [exchanged_concat, Step.exchange?, Engine.sent_of_drifts hdrifts, h.sent]
      nextId := by simp [exchanged_concat, Step.exchange?, h.nextId] }

/-- A call has begun before it exchanges. -/
theorem lt_length_of_exchanges (h : InTurn steps link) {call : Nat} {exchange : Exchange}
    (hin : .exchanges call exchange ∈ steps) : call < steps.length := by
  obtain ⟨before, after, rfl⟩ := List.append_of_mem hin
  have hbegan := (h.inTurn before _ after rfl).1
  have hlt := (List.getElem?_eq_some_iff.mp hbegan).1
  exact hlt.trans_le (List.prefix_append ..).length_le

theorem lt_length_of_settles (h : InTurn steps link) {call : Nat} {result : Except Failure Json}
    (hin : .settles call result ∈ steps) : call < steps.length := by
  obtain ⟨before, after, hsplit⟩ := List.append_of_mem hin
  obtain ⟨exchange, hexchanged, -⟩ := (h.inTurn before _ after hsplit).1
  exact h.lt_length_of_exchanges (hsplit ▸ List.mem_append_left _ hexchanged)

end InTurn

theorem inTurn (h : Crowd steps link) : InTurn steps link := by
  induction h with
  | start turns => exact inTurn_start turns
  | drift h hdrifts ih => exact ih.drift hdrifts
  | begins h command arguments ih => exact ih.begins command arguments
  | exchanges h hover call hbegan hfirst ih =>
    exact ih.exchanges hbegan hfirst (Link.exchange_exchanged ..)
  | settles h call hexchanged hended hfirst ih => exact ih.settles hexchanged hended hfirst

/-! ## Calls that are not interrupted -/

/-- A call whose steps follow one another does what a call does over a link of its own. It takes no
note of a result while it waits. -/
theorem invoke (h : Crowd steps link) (hover : Over (exchanged steps)) (command : String)
    (arguments : Json) :
    ∃ more, Crowd (steps ++ more) (link.invoke command arguments).2 ∧
      (link.broken = true → more = [.begins command arguments true]) ∧
      (link.broken = false → more =
        .begins command arguments false ::
          .exchanges steps.length (.seen link command arguments (link.exchange command arguments)) ::
            (link.invoke command arguments).1.toList.map (.settles steps.length)) := by
  have hbegins := h.begins command arguments
  cases hbroken : link.broken with
  | true =>
    rw [hbroken] at hbegins
    refine ⟨_, ?_, fun _ => rfl, by simp⟩
    rwa [Link.invoke, if_pos hbroken]
  | false =>
    rw [hbroken] at hbegins
    have hexchanged (other : Exchange) : .exchanges steps.length other ∉ steps :=
      fun hin => (h.inTurn.lt_length_of_exchanges hin).false
    have hsettled (other : Except Failure Json) : .settles steps.length other ∉ steps :=
      fun hin => (h.inTurn.lt_length_of_settles hin).false
    have hfree : Over (exchanged (steps ++ [.begins command arguments false])) := by
      simpa [exchanged_concat, Step.exchange?] using hover
    have hexchanges :=
      hbegins.exchanges hfree steps.length (List.getElem?_concat_length ..) (by simpa using hexchanged)
    have hinvoke : link.invoke command arguments =
        ((link.exchange command arguments).1,
          (link.exchange command arguments).1.elim (link.exchange command arguments).2
            (link.exchange command arguments).2.settle) := by
      rw [Link.invoke, if_neg (by simp [hbroken])]
    refine ⟨_, ?_, by simp, fun _ => rfl⟩
    rw [hinvoke]
    cases hresult : (link.exchange command arguments).1 with
    | none => simpa using hexchanges
    | some result =>
      have hsettles := hexchanges.settles steps.length
        (List.mem_append_right _ (List.mem_singleton_self _)) hresult (by simpa using hsettled)
      simpa using hsettles

/-! ## Calls behind a noted failure -/

section Behind

variable {before behind : List Step} {failed : Nat} {result : Except Failure Json}

theorem noted_of_split (hsplit : steps = before ++ .settles failed result :: behind)
    (hfails : OutOfStep result) : Noted steps :=
  ⟨failed, result, hsplit ▸ List.mem_append_right _ List.mem_cons_self, hfails⟩

/-- A call that begins behind a noted failure is refused. -/
theorem InTurn.refused (h : InTurn steps link)
    (hsplit : steps = before ++ .settles failed result :: behind) (hfails : OutOfStep result)
    {command : String} {arguments : Json} {broken : Bool}
    (hbegins : .begins command arguments broken ∈ behind) : broken = true := by
  obtain ⟨between, after, rfl⟩ := List.append_of_mem hbegins
  have hturn := h.inTurn (before ++ .settles failed result :: between)
    (.begins command arguments broken) after (by simp [hsplit])
  exact hturn.mpr (noted_of_split rfl hfails)

/-- A call that exchanges behind a noted failure had begun before it was noted. -/
theorem InTurn.begun (h : InTurn steps link)
    (hsplit : steps = before ++ .settles failed result :: behind) (hfails : OutOfStep result)
    {call : Nat} {exchange : Exchange} (hexchanges : .exchanges call exchange ∈ behind) :
    before[call]? = some (.begins exchange.command exchange.arguments false) ∧
      ∀ other, .exchanges call other ∉ before := by
  obtain ⟨between, after, rfl⟩ := List.append_of_mem hexchanges
  obtain ⟨hbegan, hfirst, -⟩ := h.inTurn (before ++ .settles failed result :: between)
    (.exchanges call exchange) after (by simp [hsplit])
  refine ⟨?_, fun other hearlier => hfirst other (List.mem_append_left _ hearlier)⟩
  by_cases hlt : call < before.length
  · rwa [List.getElem?_append_left hlt] at hbegan
  · -- a call that begins behind the failure is refused, so it never exchanges
    rw [List.getElem?_append_right (Nat.le_of_not_lt hlt)] at hbegan
    rcases List.mem_cons.mp (List.mem_of_getElem? hbegan) with hnot | hbetween
    · cases hnot
    · cases h.refused hsplit hfails (List.mem_append_left _ hbetween)

end Behind

/-- A failure that was noted is that of an exchange. Behind it every call that begins is refused, and
the calls that still exchange are those that had begun and found the link usable; each of them writes
at most its own request. -/
theorem only_waiting_calls_write (h : Crowd steps link) :
    InTurn steps link ∧
      ∀ before failed result behind, steps = before ++ .settles failed result :: behind →
        OutOfStep result →
          (∀ command arguments broken, .begins command arguments broken ∈ behind → broken = true) ∧
          ∀ call exchange, .exchanges call exchange ∈ behind →
            before[call]? = some (.begins exchange.command exchange.arguments false) ∧
              ∀ other, .exchanges call other ∉ before := by
  refine ⟨h.inTurn, fun before failed result behind hsplit hfails => ⟨?_, ?_⟩⟩
  · intro command arguments broken hbegins
    exact h.inTurn.refused hsplit hfails hbegins
  · intro call exchange hexchanges
    exact h.inTurn.begun hsplit hfails hexchanges

/-- What an engine does that answers its first request under another number, and its second properly. -/
def mismatching : List Turn :=
  [⟨Bytes.ofText "\x7b\"id\":9,\"ok\":null\x7d\n", .waits⟩,
    ⟨Bytes.ofText "\x7b\"id\":2,\"ok\":null\x7d\n", .waits⟩]

theorem exchange_mismatching :
    ((Link.toEngine (.ofTurns mismatching)).exchange "first" .null).1 =
      some (.error (.protocol "reply id 9 does not match request id 1")) := by
  cbv

theorem over_mismatching :
    let link := Link.toEngine (.ofTurns mismatching)
    Over [.seen link "first" .null (link.exchange "first" .null)] := by
  simp [Over, Exchange.Waits, Exchange.seen, exchange_mismatching]

/-- The second call begins before the failure of the first is noted, and is answered behind it. The
third is refused. -/
theorem only_waiting_calls_write_of_mismatch :
    ∃ before failed result late broken link,
      Crowd (before ++ [.settles failed result, .exchanges 1 late, .begins "third" .null broken]) link ∧
        result = .error (.protocol "reply id 9 does not match request id 1") ∧
        before[1]? = some (.begins late.command late.arguments false) ∧
        late.result = some (.ok .null) ∧ late.sent.length = 1 ∧ broken = true := by
  have hlooked := ((Crowd.start mismatching).begins "first" .null).begins "second" .null
  have hfirst := hlooked.exchanges over_nil 0 rfl (by simp)
  have hnoted := hfirst.settles 0 (List.mem_append_right _ (List.mem_singleton_self _))
    exchange_mismatching (by simp)
  have hcrowd := (hnoted.exchanges over_mismatching 1 rfl (by simp)).begins "third" .null
  obtain ⟨-, hbehind⟩ := only_waiting_calls_write hcrowd
  obtain ⟨hrefused, hbegun⟩ := hbehind [_, _, _] 0 _ [_, _] rfl (.inr ⟨_, rfl⟩)
  refine ⟨[_, _, _], 0, _, _, _, _, hcrowd, rfl, ?_, by cbv, by cbv, ?_⟩
  · exact (hbegun 1 _ List.mem_cons_self).1
  · exact hrefused "third" .null _ (List.mem_cons_of_mem _ (List.mem_singleton_self _))

/-- No exchange writes behind one that failed. -/
def SilentAfterFailure (steps : List Step) : Prop :=
  ∀ before failed exchange behind, steps = before ++ .exchanges failed exchange :: behind →
    exchange.Fails → ∀ call later, .exchanges call later ∈ behind → later.sent = []

/-- A call that begins between a failed exchange and the moment when its failure is noted still
writes, also behind that moment. -/
theorem not_silentAfterFailure : ¬ ∀ steps link, Crowd steps link → SilentAfterFailure steps := by
  intro hsilent
  have hfirst := ((Crowd.start mismatching).begins "first" .null).exchanges over_nil 0 rfl (by simp)
  have hlooked := hfirst.begins "second" .null
  have hnoted := hlooked.settles 0
    (List.mem_append_left _ (List.mem_append_right _ (List.mem_singleton_self _)))
    exchange_mismatching (by simp)
  have hcrowd := hnoted.exchanges over_mismatching 2 rfl (by simp)
  have hnothing := hsilent _ _ hcrowd [_] 0 _ [_, _, _] rfl
    ⟨_, exchange_mismatching, .inr ⟨_, rfl⟩⟩ 2 _
    (List.mem_cons_of_mem _ (List.mem_cons_of_mem _ (List.mem_singleton_self _)))
  refine List.ne_nil_of_length_eq_add_one (n := 0) ?_ hnothing
  cbv

end Crowd

end DecompilerDesk
