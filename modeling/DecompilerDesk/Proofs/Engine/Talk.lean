-- SUMMARY: No call over a link gets the answer of another call, whatever the engine does.
import DecompilerDesk.Proofs.Engine.Reading
import DecompilerDesk.Proofs.Engine.Wire
import Mathlib

/-!
# Talking to an engine

A talk is a run of calls over one link, with an engine that does what it likes before, between and
during the calls. The link stays in step as long as its number, the request lines it sent and the
lines it read count the same calls; the first failure below the engine's own rejections ends this for
good, and no call after it touches the pipes. A call whose line never ends waits, and is the last.
-/

namespace DecompilerDesk

open Bytes (IsLine lines)
open Engine (Writes Drifts Reads HasRead Silent Received)

/-! ## What a line answers -/

/-- What a reply says to the command it answers. -/
def Reply.result (command : String) (reply : Reply) : Except Failure Json :=
  match reply.rejection with
  | some message => .error (.engine command message)
  | none => .ok (reply.value.getD .null)

theorem Reply.decode_of_parse {command text : String} {id : Nat} {reply : Reply}
    (hparse : parse text = .ok reply) (hid : reply.id.toNat = id) :
    decode command id text = reply.result command := by
  simp only [decode, hparse, hid, ne_eq, not_true_eq_false, if_false]
  rfl

namespace Link

/-- The link or the engine's protocol failed, rather than the request. -/
def OutOfStep (result : Except Failure Json) : Prop :=
  (∃ operation reason, result = .error (.transport operation reason)) ∨
    ∃ reason, result = .error (.protocol reason)

/-- The engine gave a value, or the message with which it rejected a request. -/
def IsAnswer (result : Except Failure Json) : Prop :=
  (∃ value, result = .ok value) ∨ ∃ command message, result = .error (.engine command message)

theorem OutOfStep.not_isAnswer {result : Except Failure Json} (h : OutOfStep result) :
    ¬ IsAnswer result := by
  rcases h with ⟨operation, reason, rfl⟩ | ⟨reason, rfl⟩
  · simp [IsAnswer]
  · simp [IsAnswer]

theorem isAnswer_result (command : String) (reply : Reply) : IsAnswer (reply.result command) := by
  unfold Reply.result
  cases reply.rejection with
  | none => exact .inl ⟨_, rfl⟩
  | some message => exact .inr ⟨_, _, rfl⟩

theorem breaks_iff (result : Except Failure Json) : breaks result = true ↔ OutOfStep result := by
  cases result with
  | ok value => simp [breaks, OutOfStep]
  | error failure => cases failure <;> simp [breaks, OutOfStep, Failure.isRecoverable, Failure.kind]

theorem IsAnswer.breaks_eq_false {result : Except Failure Json} (h : IsAnswer result) :
    breaks result = false := by
  rw [← Bool.not_eq_true, breaks_iff]
  intro hfails
  exact hfails.not_isAnswer h

/-- A line answers a request only if it is a reply with the number of the request. -/
theorem answer_cases (command : String) (id : Nat) (line : Bytes) :
    OutOfStep (answer command id line) ∨
      ∃ text reply, line ≠ [] ∧ line.text? = some text ∧ Reply.parse text = .ok reply ∧
        reply.id.toNat = id ∧ answer command id line = reply.result command := by
  unfold answer
  split
  next => exact .inl (.inl ⟨_, _, rfl⟩)
  next hline =>
    have hne : line ≠ [] := by simpa using hline
    cases htext : line.text? with
    | none => exact .inl (.inl ⟨_, _, rfl⟩)
    | some text =>
      cases hparse : Reply.parse text with
      | error fault => exact .inl (.inr ⟨_, by simp only [Reply.decode, hparse]; rfl⟩)
      | ok reply =>
        by_cases hid : reply.id.toNat = id
        · exact .inr ⟨text, reply, hne, rfl, hparse, hid, Reply.decode_of_parse hparse hid⟩
        · exact .inl (.inr ⟨_, by simp only [Reply.decode, hparse]; exact if_pos hid⟩)

/-! ## One call -/

/-- What an exchange over a link can come to. -/
inductive Exchanged (link : Link) (command : String) (arguments : Json) :
    Option (Except Failure Json) × Link → Prop where
  | unsent (refusal : SystemError) : Exchanged link command arguments
      (some (.error (.transport ("send " ++ command) refusal.message)),
        ⟨link.engine, link.nextId + 1, link.broken⟩)
  | answered (waited after : Engine) (line : Bytes)
      (hdrifts : Drifts
        { link.engine with
          pending := link.engine.pending ++ [(RequestLine.mk link.nextId command arguments).text] }
        waited)
      (hreads : Reads waited after line) : Exchanged link command arguments
      (some (answer command link.nextId line), ⟨after, link.nextId + 1, link.broken⟩)
  | waiting (waited : Engine)
      (hdrifts : Drifts
        { link.engine with
          pending := link.engine.pending ++ [(RequestLine.mk link.nextId command arguments).text] }
        waited)
      (hsilent : waited.Silent) : Exchanged link command arguments
      (none, ⟨waited, link.nextId + 1, link.broken⟩)

theorem exchange_exchanged (link : Link) (command : String) (arguments : Json) :
    Exchanged link command arguments (link.exchange command arguments) := by
  unfold exchange
  simp only [Engine.send]
  split
  next refusal hsend => exact .unsent refusal
  next engine hsend =>
    split at hsend
    · cases hsend
    · obtain rfl := Except.ok.inj hsend
      have hreceived := Engine.receive_received
        { link.engine with
          pending := link.engine.pending ++ [(RequestLine.mk link.nextId command arguments).text] }
      generalize Engine.receive _ = outcome at hreceived
      cases hreceived with
      | line hdrifts hreads => exact .answered _ _ _ hdrifts hreads
      | waiting hdrifts hsilent => exact .waiting _ hdrifts hsilent

/-- What a call over a link can come to. -/
inductive Invoked (link : Link) (command : String) (arguments : Json) :
    Option (Except Failure Json) × Link → Prop where
  | refused (hbroken : link.broken = true) : Invoked link command arguments
      (some (.error (.transport command "engine pipe is out of sync")), link)
  | unsent (hbroken : link.broken = false) (refusal : SystemError) : Invoked link command arguments
      (some (.error (.transport ("send " ++ command) refusal.message)),
        ⟨link.engine, link.nextId + 1, true⟩)
  | answered (hbroken : link.broken = false) (waited after : Engine) (line : Bytes)
      (hdrifts : Drifts
        { link.engine with
          pending := link.engine.pending ++ [(RequestLine.mk link.nextId command arguments).text] }
        waited)
      (hreads : Reads waited after line) : Invoked link command arguments
      (some (answer command link.nextId line),
        ⟨after, link.nextId + 1, breaks (answer command link.nextId line)⟩)
  | waiting (hbroken : link.broken = false) (waited : Engine)
      (hdrifts : Drifts
        { link.engine with
          pending := link.engine.pending ++ [(RequestLine.mk link.nextId command arguments).text] }
        waited)
      (hsilent : waited.Silent) : Invoked link command arguments
      (none, ⟨waited, link.nextId + 1, false⟩)

theorem invoke_invoked (link : Link) (command : String) (arguments : Json) :
    Invoked link command arguments (link.invoke command arguments) := by
  unfold invoke
  split
  next hbroken => exact .refused hbroken
  next hbroken =>
    have hbroken : link.broken = false := by simpa using hbroken
    have hexchanged := link.exchange_exchanged command arguments
    generalize link.exchange command arguments = outcome at hexchanged
    cases hexchanged with
    | unsent refusal =>
      simpa [settle, hbroken, breaks, Failure.isRecoverable, Failure.kind] using
        Invoked.unsent hbroken refusal
    | answered waited after line hdrifts hreads =>
      simpa [settle, hbroken] using Invoked.answered hbroken waited after line hdrifts hreads
    | waiting waited hdrifts hsilent =>
      simpa [hbroken] using Invoked.waiting hbroken waited hdrifts hsilent

end Link

/-- Half a line keeps a call waiting, while its engine has not closed its output. -/
example :
    ((Link.toEngine (.ofTurns [⟨Bytes.ofText "\x7b\"id\":1", .waits⟩])).invoke "ask" .null).1 = none ∧
      ((Link.toEngine (.ofTurns [⟨[], .mute⟩])).invoke "ask" .null).1 =
        some (.error (.transport "receive ask" "engine closed its output")) := by
  constructor <;> cbv

/-! ## Exchanges -/

/-- A call over a link, seen from the pipes and from the link's number. -/
structure Exchange where
  command : String
  arguments : Json
  /-- What it came to, unless it still waits for a line. -/
  result : Option (Except Failure Json)
  /-- The request lines that it wrote. -/
  sent : List String
  /-- The bytes that it read. -/
  line : Bytes
  /-- How many numbers it used up. -/
  ids : Nat
  /-- Whether it left the link broken. -/
  broken : Bool

namespace Exchange

/-- A call seen by comparing the link before it with the outcome. -/
def seen (link : Link) (command : String) (arguments : Json) :
    Option (Except Failure Json) × Link → Exchange
  | (result, after) =>
    { command := command
      arguments := arguments
      result := result
      sent := after.engine.sent.drop link.engine.sent.length
      line := (after.engine.written.drop link.engine.read).take (after.engine.read - link.engine.read)
      ids := after.nextId - link.nextId
      broken := after.broken }

/-- The call failed below the engine's own rejections. -/
def Fails (exchange : Exchange) : Prop :=
  ∃ result, exchange.result = some result ∧ Link.OutOfStep result

def Answered (exchange : Exchange) : Prop :=
  ∃ result, exchange.result = some result ∧ Link.IsAnswer result

def Waits (exchange : Exchange) : Prop := exchange.result = none

theorem not_waits_of_isSome {exchange : Exchange} (h : exchange.result.isSome) : ¬ exchange.Waits :=
  Option.isSome_iff_ne_none.mp h

/-- None of the calls still waits. -/
def Over (exchanges : List Exchange) : Prop := ∀ exchange ∈ exchanges, ¬ exchange.Waits

theorem over_nil : Over [] := List.forall_mem_nil _

theorem over_concat {exchanges : List Exchange} {exchange : Exchange} :
    Over (exchanges ++ [exchange]) ↔ Over exchanges ∧ ¬ exchange.Waits := by
  simp [Over, or_imp, forall_and]

section Ended

variable {command : String} {arguments : Json} {result : Except Failure Json} {sent : List String}
  {line : Bytes} {ids : Nat} {broken : Bool}

theorem fails_iff :
    Fails ⟨command, arguments, some result, sent, line, ids, broken⟩ ↔ Link.OutOfStep result := by
  simp [Fails]

theorem answered_iff :
    Answered ⟨command, arguments, some result, sent, line, ids, broken⟩ ↔ Link.IsAnswer result := by
  simp [Answered]

end Ended

/-- What holds of an exchange behind those before it. Its number is one more than theirs. -/
structure InOrder (before : List Exchange) (exchange : Exchange) : Prop where
  /-- It writes its own request with its own number on one line, or nothing. -/
  request : ∀ line ∈ exchange.sent, exchange.sent = [line] ∧ IsLine (Bytes.ofText line) ∧
    RequestLine.Carries line (before.length + 1) exchange.command exchange.arguments
  /-- It reads nothing if it writes nothing. -/
  silent : exchange.sent = [] → exchange.line = []
  /-- It is answered only by a line with its own number, and with what that line says. -/
  answered : exchange.Answered → exchange.sent ≠ [] ∧ exchange.line ≠ [] ∧ ∃ text reply,
    exchange.line.text? = some text ∧ Reply.parse text = .ok reply ∧
      reply.id.toNat = before.length + 1 ∧ exchange.result = some (reply.result exchange.command)
  outcome : exchange.Answered ∨ exchange.Fails ∨ exchange.Waits
  /-- An answer leaves the link usable, also when it is a rejection. -/
  usable : exchange.Answered → exchange.broken = false
  /-- The link is broken behind it if it failed, or one before it did. -/
  broken : exchange.broken = true ↔ (∃ earlier ∈ before, earlier.Fails) ∨ exchange.Fails
  /-- Behind one that failed it leaves the pipes and the number alone. -/
  refused : (∃ earlier ∈ before, earlier.Fails) →
    exchange.result = some (.error (.transport exchange.command "engine pipe is out of sync")) ∧
      exchange.sent = [] ∧ exchange.line = [] ∧ exchange.ids = 0
  /-- While it waits, its request is written and it has read nothing. -/
  waits : exchange.Waits → exchange.sent ≠ [] ∧ exchange.line = []
  /-- No call is made before another has ended. -/
  alone : Over before

end Exchange

/-! ## Talks -/

/-- The exchanges of a talk so far, and the link after them. A call that waits is the end of a talk. -/
inductive Talk : List Exchange → Link → Prop where
  | start (turns : List Turn) : Talk [] (.toEngine (.ofTurns turns))
  | drift {exchanges : List Exchange} {link : Link} {engine : Engine} (h : Talk exchanges link)
      (hover : Exchange.Over exchanges) (hdrifts : Drifts link.engine engine) :
      Talk exchanges { link with engine := engine }
  | call {exchanges : List Exchange} {link : Link} (h : Talk exchanges link)
      (hover : Exchange.Over exchanges) (command : String) (arguments : Json) :
      Talk (exchanges ++ [.seen link command arguments (link.invoke command arguments)])
        (link.invoke command arguments).2

/-- The exchanges over a link, and the link, are in order. -/
structure Orderly (exchanges : List Exchange) (link : Link) : Prop where
  inOrder : ∀ before exchange after, exchanges = before ++ exchange :: after →
    exchange.InOrder before
  /-- The request line number `n` is that of the exchange number `n`. -/
  sent : ∀ (n : Nat) (line : String), link.engine.sent[n]? = some line →
    ∃ exchange, exchanges[n]? = some exchange ∧ exchange.sent = [line]
  /-- The exchange number `n` reads the line number `n` of all that the engine wrote, if it reads. -/
  read : ∀ (n : Nat) (exchange : Exchange), exchanges[n]? = some exchange → exchange.sent ≠ [] →
    ¬ exchange.Waits → exchange.line = (lines link.engine.written)[n]?.getD []
  /-- A call waits only while the engine has not ended its line and not closed its output. -/
  waits : ∀ (n : Nat) (exchange : Exchange), exchanges[n]? = some exchange → exchange.Waits →
    lineEnd ∉ (lines link.engine.written)[n]?.getD [] ∧ link.engine.mute = false
  broken : link.broken = true ↔ ∃ exchange ∈ exchanges, exchange.Fails

/-! ## What each outcome of a call looks like -/

namespace Exchange

variable {link : Link} {command : String} {arguments : Json}

theorem seen_refused (result : Option (Except Failure Json)) :
    seen link command arguments (result, link) =
      ⟨command, arguments, result, [], [], 0, link.broken⟩ := by
  simp [seen]

theorem seen_unsent (result : Option (Except Failure Json)) (broken : Bool) :
    seen link command arguments (result, ⟨link.engine, link.nextId + 1, broken⟩) =
      ⟨command, arguments, result, [], [], 1, broken⟩ := by
  simp [seen]

theorem seen_answered {waited after : Engine} {line : Bytes} {text : String}
    (hdrifts : Drifts { link.engine with pending := link.engine.pending ++ [text] } waited)
    (hreads : Reads waited after line) (result : Option (Except Failure Json)) (broken : Bool) :
    seen link command arguments (result, ⟨after, link.nextId + 1, broken⟩) =
      ⟨command, arguments, result, [text], line, 1, broken⟩ := by
  have hsent := Engine.sent_of_reads hdrifts hreads
  have hread : waited.read = link.engine.read := hdrifts.read
  have hline : (after.written.drop link.engine.read).take (after.read - link.engine.read) = line := by
    rw [hreads.written, hreads.read, hread, Nat.add_sub_cancel_left, ← hread, ← Engine.unread]
    rcases Bytes.firstLine_cases waited.unread with ⟨rest, hrest, -⟩ | ⟨hall, -⟩
    · rw [← hreads.first] at hrest
      rw [hrest, List.take_left]
    · rw [hreads.first, hall, List.take_length]
  simp [seen, hsent, hline]

theorem seen_waiting {waited : Engine} {text : String}
    (hdrifts : Drifts { link.engine with pending := link.engine.pending ++ [text] } waited)
    (result : Option (Except Failure Json)) (broken : Bool) :
    seen link command arguments (result, ⟨waited, link.nextId + 1, broken⟩) =
      ⟨command, arguments, result, [text], [], 1, broken⟩ := by
  have hsent := Engine.sent_of_drifts hdrifts
  have hread : waited.read = link.engine.read := hdrifts.read
  simp [seen, hsent, hread]

variable {before : List Exchange}

/-- A call over a broken link, behind a failure. -/
theorem inOrder_refused (hfailed : ∃ earlier ∈ before, earlier.Fails) (hover : Over before) :
    InOrder before ⟨command, arguments,
      some (.error (.transport command "engine pipe is out of sync")), [], [], 0, true⟩ where
  request := by simp
  silent _ := rfl
  answered := by simp [answered_iff, Link.IsAnswer]
  outcome := .inr (.inl (fails_iff.mpr (.inl ⟨_, _, rfl⟩)))
  usable := by simp [answered_iff, Link.IsAnswer]
  broken := by simp [hfailed]
  refused _ := ⟨rfl, rfl, rfl, rfl⟩
  waits := by simp [Waits]
  alone := hover

/-- A call whose request the system refused to write, with no failure before it. -/
theorem inOrder_unsent (hnone : ¬ ∃ earlier ∈ before, earlier.Fails) (hover : Over before)
    (operation reason : String) :
    InOrder before
      ⟨command, arguments, some (.error (.transport operation reason)), [], [], 1, true⟩ where
  request := by simp
  silent _ := rfl
  answered := by simp [answered_iff, Link.IsAnswer]
  outcome := .inr (.inl (fails_iff.mpr (.inl ⟨_, _, rfl⟩)))
  usable := by simp [answered_iff, Link.IsAnswer]
  broken := by simp [fails_iff, Link.OutOfStep]
  refused hfailed := absurd hfailed hnone
  waits := by simp [Waits]
  alone := hover

/-- A call for which a line was read, with no failure before it. -/
theorem inOrder_answered (hnone : ¬ ∃ earlier ∈ before, earlier.Fails) (hover : Over before)
    (line : Bytes) :
    InOrder before ⟨command, arguments, some (Link.answer command (before.length + 1) line),
      [(RequestLine.mk (before.length + 1) command arguments).text], line, 1,
      Link.breaks (Link.answer command (before.length + 1) line)⟩ where
  request text htext := by
    obtain rfl := List.mem_singleton.mp htext
    exact ⟨rfl, RequestLine.isLine_text _, RequestLine.carries_text _ _ _⟩
  silent hsent := absurd hsent (List.cons_ne_nil _ _)
  answered hanswered := by
    rcases Link.answer_cases command (before.length + 1) line with
      hfails | ⟨text, reply, hne, htext, hparse, hid, hresult⟩
    · exact absurd (answered_iff.mp hanswered) hfails.not_isAnswer
    · exact ⟨List.cons_ne_nil _ _, hne, text, reply, htext, hparse, hid, congrArg some hresult⟩
  outcome := by
    rcases Link.answer_cases command (before.length + 1) line with
      hfails | ⟨_, reply, _, _, _, _, hresult⟩
    · exact .inr (.inl (fails_iff.mpr hfails))
    · exact .inl (answered_iff.mpr (hresult ▸ Link.isAnswer_result command reply))
  usable hanswered := (answered_iff.mp hanswered).breaks_eq_false
  broken := by
    rw [fails_iff, Link.breaks_iff]
    exact ⟨.inr, fun h => h.resolve_left hnone⟩
  refused hfailed := absurd hfailed hnone
  waits := by simp [Waits]
  alone := hover

/-- A call whose line never ends, with no failure before it. -/
theorem inOrder_waiting (hnone : ¬ ∃ earlier ∈ before, earlier.Fails) (hover : Over before) :
    InOrder before ⟨command, arguments, none,
      [(RequestLine.mk (before.length + 1) command arguments).text], [], 1, false⟩ where
  request text htext := by
    obtain rfl := List.mem_singleton.mp htext
    exact ⟨rfl, RequestLine.isLine_text _, RequestLine.carries_text _ _ _⟩
  silent _ := rfl
  answered := by simp [Answered]
  outcome := .inr (.inr rfl)
  usable _ := rfl
  broken := by simpa [Fails] using hnone
  refused hfailed := absurd hfailed hnone
  waits _ := ⟨List.cons_ne_nil _ _, rfl⟩
  alone := hover

end Exchange

/-! ## The link in step -/

/-- A usable link has counted the exchanges in three ways: by its number, by the request lines it
wrote, and by the lines it read. Of the lines read none can change any more. -/
structure InStep (exchanges : List Exchange) (link : Link) : Prop extends Orderly exchanges link where
  kept : ∀ exchange ∈ exchanges, exchange.sent ≠ [] → ¬ exchange.Waits →
    link.engine.mute ∨ IsLine exchange.line
  nextId : link.broken = false → link.nextId = exchanges.length + 1
  requests : link.broken = false → link.engine.sent.length = exchanges.length
  lines : link.broken = false → Exchange.Over exchanges → HasRead link.engine exchanges.length

theorem inStep_start (turns : List Turn) : InStep [] (.toEngine (.ofTurns turns)) where
  inOrder before exchange after h := by simp at h
  sent n line h := by simp [Link.toEngine, Engine.ofTurns, Engine.sent] at h
  read n exchange h := by simp at h
  waits n exchange h := by simp at h
  broken := by simp [Link.toEngine]
  kept := by simp
  nextId _ := rfl
  requests _ := rfl
  lines _ _ := Engine.hasRead_ofTurns turns

open Exchange (Over over_nil over_concat not_waits_of_isSome seen seen_refused seen_unsent
  seen_answered seen_waiting)

namespace InStep

variable {exchanges : List Exchange} {link : Link}

/-- The lines of the exchanges stay what they are while the engine goes on. -/
theorem read_of_writes (h : InStep exchanges link) {engine : Engine}
    (hwrites : Writes link.engine engine) {n : Nat} {exchange : Exchange}
    (hat : exchanges[n]? = some exchange) (hsent : exchange.sent ≠ []) (hended : ¬ exchange.Waits) :
    exchange.line = (Bytes.lines engine.written)[n]?.getD [] ∧
      (engine.mute ∨ IsLine exchange.line) :=
  Engine.line_of_writes hwrites (h.read n exchange hat hsent hended)
    (h.kept exchange (List.mem_of_getElem? hat) hsent hended)

theorem drift (h : InStep exchanges link) (hover : Over exchanges) {engine : Engine}
    (hdrifts : Drifts link.engine engine) : InStep exchanges { link with engine := engine } where
  inOrder := h.inOrder
  sent := by
    intro n line hline
    simp only [hdrifts.sent] at hline
    exact h.sent n line hline
  read n exchange hat hsent hended := (h.read_of_writes hdrifts.toWrites hat hsent hended).1
  waits n exchange hat hwaits := absurd hwaits (hover exchange (List.mem_of_getElem? hat))
  broken := h.broken
  kept exchange hmem hsent hended := by
    obtain ⟨n, hat⟩ := List.getElem?_of_mem hmem
    exact (h.read_of_writes hdrifts.toWrites hat hsent hended).2
  nextId := h.nextId
  requests hbroken := by simpa only [hdrifts.sent] using h.requests hbroken
  lines hbroken hover := (h.lines hbroken hover).of_writes hdrifts.toWrites hdrifts.read

theorem getElem?_concat_cases {α : Type} {l : List α} {x y : α} {n : Nat}
    (h : (l ++ [x])[n]? = some y) : l[n]? = some y ∨ n = l.length ∧ y = x := by
  by_cases hlt : n < l.length
  · rw [List.getElem?_append_left hlt] at h
    exact .inl h
  · have hle : n ≤ l.length := by
      have := (List.getElem?_eq_some_iff.mp h).1
      simp at this
      omega
    obtain rfl : n = l.length := by omega
    rw [List.getElem?_concat_length] at h
    exact .inr ⟨rfl, (Option.some.inj h).symm⟩

/-- What holds of each element behind those before it still does when one more such is added. -/
theorem forall_concat {α : Type} {P : List α → α → Prop} {l : List α} {last : α}
    (h : ∀ before x after, l = before ++ x :: after → P before x) (hlast : P l last) :
    ∀ before x after, l ++ [last] = before ++ x :: after → P before x := by
  intro before x after hsplit
  rcases List.eq_nil_or_concat after with rfl | ⟨after, y, rfl⟩
  · obtain ⟨rfl, hx⟩ := List.append_inj' hsplit rfl
    obtain rfl : last = x := by simpa using hx
    exact hlast
  · rw [List.concat_eq_append, ← List.cons_append, ← List.append_assoc] at hsplit
    exact h before x after (List.append_inj' hsplit rfl).1

/-- One more exchange in order, after which the lines read before are what they were. -/
theorem add (h : InStep exchanges link) {exchange : Exchange} {after : Link}
    (horder : exchange.InOrder exchanges) (hbroken : after.broken = exchange.broken)
    (hsent : after.engine.sent = link.engine.sent ++ exchange.sent)
    (hcount : exchange.sent ≠ [] → link.engine.sent.length = exchanges.length)
    (hread : ∀ (n : Nat) (x : Exchange), (exchanges ++ [exchange])[n]? = some x → x.sent ≠ [] →
      ¬ x.Waits → x.line = (Bytes.lines after.engine.written)[n]?.getD [] ∧
        (after.engine.mute ∨ IsLine x.line))
    (hwaits : exchange.Waits →
      lineEnd ∉ (Bytes.lines after.engine.written)[exchanges.length]?.getD [] ∧
        after.engine.mute = false)
    (husable : after.broken = false → after.nextId = (exchanges ++ [exchange]).length + 1 ∧
      after.engine.sent.length = (exchanges ++ [exchange]).length ∧
      (¬ exchange.Waits → HasRead after.engine (exchanges ++ [exchange]).length)) :
    InStep (exchanges ++ [exchange]) after where
  inOrder := forall_concat h.inOrder horder
  sent n line hline := by
    rw [hsent] at hline
    have hadded (hold : link.engine.sent[n]? = some line) :
        ∃ x, (exchanges ++ [exchange])[n]? = some x ∧ x.sent = [line] := by
      obtain ⟨x, hx, hxsent⟩ := h.sent n line hold
      have hlt := (List.getElem?_eq_some_iff.mp hx).1
      exact ⟨x, by rw [List.getElem?_append_left hlt, hx], hxsent⟩
    cases hnew : exchange.sent with
    | nil =>
      rw [hnew, List.append_nil] at hline
      exact hadded hline
    | cons text others =>
      have hone := (horder.request text (by simp [hnew])).1
      rw [hone] at hline
      rcases getElem?_concat_cases hline with hold | ⟨rfl, rfl⟩
      · exact hadded hold
      · refine ⟨exchange, ?_, hone⟩
        rw [hcount (by simp [hone]), List.getElem?_concat_length]
  read n x hx hxsent hxended := (hread n x hx hxsent hxended).1
  waits n x hx hxwaits := by
    rcases getElem?_concat_cases hx with hold | ⟨rfl, rfl⟩
    · exact absurd hxwaits (horder.alone x (List.mem_of_getElem? hold))
    · exact hwaits hxwaits
  broken := by
    rw [hbroken, horder.broken]
    simp [or_and_right, exists_or]
  kept x hmem hxsent hxended := by
    obtain ⟨n, hat⟩ := List.getElem?_of_mem hmem
    exact (hread n x hat hxsent hxended).2
  nextId hnot := (husable hnot).1
  requests hnot := (husable hnot).2.1
  lines hnot hover := (husable hnot).2.2 (Exchange.over_concat.mp hover).2

/-- An exchange that reads nothing leaves the lines of the others what they are. -/
theorem read_concat (h : InStep exchanges link) {engine : Engine}
    (hwrites : Writes link.engine engine) {exchange : Exchange}
    (hlast : exchange.sent ≠ [] → ¬ exchange.Waits →
      exchange.line = (Bytes.lines engine.written)[exchanges.length]?.getD [] ∧
        (engine.mute ∨ IsLine exchange.line))
    (n : Nat) (x : Exchange) (hx : (exchanges ++ [exchange])[n]? = some x) (hsent : x.sent ≠ [])
    (hended : ¬ x.Waits) :
    x.line = (Bytes.lines engine.written)[n]?.getD [] ∧ (engine.mute ∨ IsLine x.line) := by
  rcases getElem?_concat_cases hx with hold | ⟨rfl, rfl⟩
  · exact h.read_of_writes hwrites hold hsent hended
  · exact hlast hsent hended

/-- A call keeps the link in step. -/
theorem call (h : InStep exchanges link) (hover : Over exchanges) {command : String}
    {arguments : Json} {outcome : Option (Except Failure Json) × Link}
    (hinvoked : Link.Invoked link command arguments outcome) :
    InStep (exchanges ++ [.seen link command arguments outcome]) outcome.2 := by
  cases hinvoked with
  | refused hbroken =>
    have hfailed := h.broken.mp hbroken
    rw [seen_refused, hbroken]
    refine h.add (Exchange.inOrder_refused hfailed hover) hbroken (by simp) (by simp) ?_ ?_ ?_
    · exact h.read_concat (Drifts.refl _).toWrites (by simp)
    · simp [Exchange.Waits]
    · simp [hbroken]
  | unsent hbroken refusal =>
    have hnone := mt h.broken.mpr (by simp [hbroken])
    rw [seen_unsent]
    refine h.add (Exchange.inOrder_unsent hnone hover _ _) rfl (by simp) (by simp) ?_ ?_ (by simp)
    · exact h.read_concat (Drifts.refl _).toWrites (by simp)
    · simp [Exchange.Waits]
  | answered hbroken waited after line hdrifts hreads =>
    have hnone := mt h.broken.mpr (by simp [hbroken])
    have hcount := h.requests hbroken
    have hwaited : Writes link.engine waited := ⟨hdrifts.written, hdrifts.mute⟩
    have hread : HasRead waited exchanges.length :=
      (h.lines hbroken hover).of_writes hwaited hdrifts.read
    obtain ⟨hafter, hline, hkept⟩ := hread.of_reads hreads
    have hsent := Engine.sent_of_reads hdrifts hreads
    rw [seen_answered hdrifts hreads]
    rw [h.nextId hbroken] at hsent ⊢
    refine h.add (Exchange.inOrder_answered hnone hover line) rfl hsent (fun _ => hcount) ?_ ?_ ?_
    · exact h.read_concat (hwaited.trans hreads.writes) fun _ _ => ⟨hline, hkept⟩
    · simp [Exchange.Waits]
    · intro _
      refine ⟨by simp, ?_, fun _ => by simpa using hafter⟩
      rw [hsent]
      simp [hcount]
  | waiting hbroken waited hdrifts hsilent =>
    have hnone := mt h.broken.mpr (by simp [hbroken])
    have hcount := h.requests hbroken
    have hwaited : Writes link.engine waited := ⟨hdrifts.written, hdrifts.mute⟩
    have hread : HasRead waited exchanges.length :=
      (h.lines hbroken hover).of_writes hwaited hdrifts.read
    have hsent := Engine.sent_of_drifts hdrifts
    rw [seen_waiting hdrifts]
    rw [h.nextId hbroken] at hsent ⊢
    refine h.add (Exchange.inOrder_waiting hnone hover) rfl hsent (fun _ => hcount) ?_ ?_ ?_
    · exact h.read_concat hwaited fun _ hended => absurd rfl hended
    · exact fun _ => ⟨hread.not_mem_of_silent hsilent, hsilent.2⟩
    · intro _
      refine ⟨by simp, ?_, fun hended => absurd rfl hended⟩
      rw [hsent]
      simp [hcount]

end InStep

theorem Talk.inStep {exchanges : List Exchange} {link : Link} (h : Talk exchanges link) :
    InStep exchanges link := by
  induction h with
  | start turns => exact inStep_start turns
  | drift h hover hdrifts ih => exact ih.drift hover hdrifts
  | call h hover command arguments ih => exact ih.call hover (Link.invoke_invoked _ command arguments)

/-- In every talk each request bears its own number, each call reads its own line and is answered by
that line alone, and the first failure of the link is the end of it. -/
theorem Talk.orderly {exchanges : List Exchange} {link : Link} (h : Talk exchanges link) :
    Orderly exchanges link :=
  h.inStep.toOrderly

/-- An engine that answers the first request twice. The second call gets the surplus line, which
bears the number of the first, and the third is not let through. -/
theorem Talk.orderly_of_surplus_line :
    ∃ exchanges link, Talk exchanges link ∧ Orderly exchanges link ∧
      exchanges.map (·.result) =
        [some (.ok (.integer 7)), some (.error (.protocol "reply id 1 does not match request id 2")),
          some (.error (.transport "last" "engine pipe is out of sync"))] ∧
      exchanges.map (·.ids) = [1, 1, 0] ∧
      link.engine.sent =
        ["\x7b\"id\":1,\"command\":\"first\",\"args\":\x7b\"at\":\"a\\nb\"\x7d\x7d\n",
          "\x7b\"id\":2,\"command\":\"second\",\"args\":null\x7d\n"] := by
  let replies := "\x7b\"id\":1,\"ok\":7\x7d\n\x7b\"id\":1,\"ok\":8\x7d\n"
  have hstart := Talk.start [⟨Bytes.ofText replies, .waits⟩]
  have hfirst := hstart.call over_nil "first" (.object [("at", .text "a\nb")])
  have hsecond := hfirst.call (over_concat.mpr ⟨over_nil, not_waits_of_isSome (by cbv)⟩) "second" .null
  have htalk := hsecond.call (over_concat.mpr
    ⟨over_concat.mpr ⟨over_nil, not_waits_of_isSome (by cbv)⟩, not_waits_of_isSome (by cbv)⟩) "last" .null
  exact ⟨_, _, htalk, htalk.orderly, by cbv, by cbv, by cbv⟩

end DecompilerDesk
