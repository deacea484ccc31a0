-- SUMMARY: Calls over a link to an engine that answers its requests give what the engine meant.
import DecompilerDesk.Proofs.Engine.Talk
import DecompilerDesk.Proofs.Engine.Wire

/-!
# Conforming engines

A conforming engine answers each request on one line, with the number of the request and with the
form of a value that the call may have, or with a message. Over a link to such an engine the calls
cannot be told from asking the engine itself.
-/

namespace DecompilerDesk

open Bytes (IsLine)
open Json (Plain)

/-! ## Questions and their answers -/

/-- What an engine may write for a value that answers a call. -/
inductive Call.Means : {α : Type} → Call α → Json → α → Prop where
  | written {α : Type} (call : Call α) (value : α) : Means call (call.answer.toJson value) value
  /-- The members of objects stand in another order. -/
  | reordered {α : Type} {call : Call α} {json : Json} {value : α} (h : Plain Reply.valueDepth json)
      (hsame : json.sorted = (call.answer.toJson value).sorted) : Means call json value
  /-- Any value tells that a file was opened. -/
  | opened {path : Path} {json : Json} (h : Plain Reply.valueDepth json) :
      Means (.openFile path) json ()

/-- What a conforming engine answers to a call. -/
inductive Answer {α : Type} (call : Call α) where
  | accepted (json : Json) (value : α) (means : call.Means json value)
  | rejected (message : String)

namespace Answer

variable {α : Type} {call : Call α}

/-- The member of a reply that holds the answer. -/
def member : Answer call → String × Json
  | .accepted json _ _ => ("ok", json)
  | .rejected message => ("err", .text message)

/-- What the call comes to. -/
def result : Answer call → Except Failure α
  | .accepted _ value _ => .ok value
  | .rejected message => .error (.engine call.command message)

end Answer

/-- A call, and what the engine is going to answer. -/
structure Question where
  {α : Type}
  call : Call α
  answer : Answer call

namespace Question

/-- The turns of an engine that answers questions. `n` is the number of the first. -/
def turns (n : Nat) : List Question → List Turn
  | [] => []
  | question :: rest =>
    ⟨Bytes.ofText (Reply.line n question.answer.member), .waits⟩ :: turns (n + 1) rest

/-- What the engine is to read in the requests, members in the order of their keys. -/
def requests (n : Nat) : List Question → List Json
  | [] => []
  | question :: rest =>
    .object [("args", question.call.arguments), ("command", .text question.call.command),
      ("id", .integer n)] :: requests (n + 1) rest

end Question

/-- What a call came to, and whether it left the link broken. -/
structure Asked where
  {α : Type}
  /-- Nothing if the call waits for ever. -/
  result : Option (Except Failure α)
  broken : Bool

/-- Put questions over a link, one after the other, until one of them waits for ever. -/
def Link.ask (link : Link) : List Question → List Asked × Link
  | [] => ([], link)
  | question :: rest =>
    let (result, link) := link.call question.call
    let (asked, last) := if result.isSome then link.ask rest else ([], link)
    (⟨result, link.broken⟩ :: asked, last)

/-! ## One answer -/

/-- What means a value is plain, and is read as the value. -/
theorem Call.Means.ofJson {α : Type} {call : Call α} {json : Json} {value : α}
    (h : call.Means json value) :
    Plain Reply.valueDepth json ∧ call.answer.ofJson json.sorted = .ok value := by
  have hlawful : call.answer.Lawful Reply.valueDepth := call.lawful_answer 122
  cases h with
  | written _ value => exact ⟨hlawful.plain value, (hlawful.accepts value).ofJson⟩
  | reordered hplain hsame =>
    rw [hsame]
    exact ⟨hplain, (hlawful.accepts value).ofJson⟩
  | opened hplain => exact ⟨hplain, rfl⟩

namespace Answer

variable {α : Type} {call : Call α}

/-- The line with an answer is read as this answer. -/
theorem decode_line (answer : Answer call) {n : Nat} (hn : n < UInt64.size) :
    ∃ reply, Reply.decode call.command n (Reply.line n answer.member) = reply ∧
      Link.IsAnswer reply ∧ call.result reply = answer.result := by
  have hid : (UInt64.ofNat n).toNat = n := UInt64.toNat_ofNat_of_lt' hn
  cases answer with
  | accepted json value means =>
    obtain ⟨hplain, hvalue⟩ := means.ofJson
    obtain ⟨read, hparse, hread⟩ := Reply.parse_value hn hplain
    refine ⟨.ok json.sorted, ?_, .inl ⟨_, rfl⟩, ?_⟩
    · rw [member, Reply.decode_of_parse hparse hid, ← hread]
      rfl
    · simp only [Call.result, Except.bind, hvalue]
      rfl
  | rejected message =>
    refine ⟨.error (.engine call.command message), ?_, .inr ⟨_, _, rfl⟩, rfl⟩
    rw [member, Reply.decode_of_parse (Reply.parse_rejection hn message) hid]
    rfl

end Answer

/-- A line of text is taken for the reply that it holds. -/
theorem Link.answer_ofText {text : String} (h : IsLine (Bytes.ofText text)) (command : String)
    (id : Nat) : answer command id (Bytes.ofText text) = Reply.decode command id text := by
  have hne : (Bytes.ofText text).isEmpty = false := by
    obtain ⟨body, hbody, -⟩ := h
    simp [hbody]
  simp [answer, hne]

/-! ## One call -/

namespace Engine

/-- The engine waits for a request, and all that it wrote has been read. -/
structure Idle (engine : Engine) : Prop where
  inlet : engine.inlet = .listening
  mute : engine.mute = false
  pending : engine.pending = []
  read : engine.read = engine.written.length

/-- The engine after it answered a request and its answer was read. -/
def answered (engine : Engine) (request : String) (line : Bytes) (turns : List Turn) : Engine :=
  { engine with
    written := engine.written ++ line
    read := engine.read + line.length
    turns := turns
    received := engine.received ++ [request] }

theorem Idle.answered {engine : Engine} (h : engine.Idle) (request : String) (line : Bytes)
    (turns : List Turn) : (engine.answered request line turns).Idle where
  inlet := h.inlet
  mute := h.mute
  pending := h.pending
  read := by simp [Engine.answered, h.read]

/-- A request to an engine that waits for one and answers it with one line. -/
theorem Idle.exchange {engine : Engine} (h : engine.Idle) {line : Bytes} {turns : List Turn}
    (hturns : engine.turns = ⟨line, .waits⟩ :: turns) (hline : IsLine line) (request : String) :
    ∃ sent, engine.send request = .ok sent ∧
      sent.receive = (some line, engine.answered request line turns) := by
  refine ⟨{ engine with pending := [request] }, by simp [send, h.inlet, h.pending], ?_⟩
  have hquiet : hasLine { engine with pending := [request] } = false := by
    simp [hasLine, unread, h.read]
  have hacts : actUntil hasLine { engine with pending := [request] } [request] =
      { engine.take request with pending := [] } := by
    rw [actUntil, if_pos ⟨h.inlet, by simp [hquiet]⟩]
    rfl
  have hunread : unread { engine.take request with pending := [] } = line := by
    simp [unread, take, hturns, h.mute, h.read]
  have hfirst : firstLine line = line := by
    have hlines := Bytes.lines_line_append hline []
    rw [List.append_nil] at hlines
    rw [Bytes.firstLine_eq, hlines, List.getElem?_cons_zero, Option.getD_some]
  have hlast := Bytes.getLast?_of_isLine hline
  have hready : hasLine { engine.take request with pending := [] } = true := by
    rw [hasLine, hunread, List.contains_iff_mem]
    exact List.mem_of_getLast? hlast
  simp only [receive, hacts, hready, Bool.true_or, if_true, hunread, hfirst, hlast]
  simp [Engine.answered, take, hturns, h.mute, h.inlet, h.pending, Ending.inlet, Ending.mutes]

end Engine

/-! ## Runs of calls -/

/-- The link may be used, and its engine will answer these questions next. `n` is the number of the
first. -/
structure Link.Awaits (link : Link) (n : Nat) (questions : List Question) : Prop where
  broken : link.broken = false
  nextId : link.nextId = n
  idle : link.engine.Idle
  turns : link.engine.turns = Question.turns n questions

namespace Link

variable {link : Link} {n : Nat} {rest questions : List Question}

/-- A call gets its answer, its request is the next that the engine takes, and the link may be used
for the next call. -/
theorem Awaits.call {question : Question} (h : link.Awaits n (question :: rest))
    (hn : n < UInt64.size) :
    ∃ after, link.call question.call = (some question.answer.result, after) ∧
      after.Awaits (n + 1) rest ∧ after.engine.received =
        link.engine.received ++
          [(RequestLine.mk n question.call.command question.call.arguments).text] := by
  obtain ⟨reply, hdecode, hanswer, hresult⟩ := question.answer.decode_line hn
  have hline : IsLine (Bytes.ofText (Reply.line n question.answer.member)) := Json.isLine_compact _
  obtain ⟨sent, hsend, hreceive⟩ := h.idle.exchange h.turns hline
    (RequestLine.mk n question.call.command question.call.arguments).text
  have hcall : link.call question.call = (some question.answer.result,
      ⟨link.engine.answered (RequestLine.mk n question.call.command question.call.arguments).text
        (Bytes.ofText (Reply.line n question.answer.member)) (Question.turns (n + 1) rest),
        n + 1, false⟩) := by
    simp [Link.call, invoke, exchange, h.broken, h.nextId, hsend, hreceive, answer_ofText hline,
      hdecode, settle, hanswer.breaks_eq_false, hresult]
  exact ⟨_, hcall, ⟨rfl, rfl, h.idle.answered _ _ _, rfl⟩, rfl⟩

/-- A run of calls gets the answers in their order, and leaves the link usable. -/
theorem Awaits.ask (h : link.Awaits n questions) (hfew : n + questions.length ≤ UInt64.size) :
    ∃ last,
      link.ask questions =
          (questions.map fun question => ⟨some question.answer.result, false⟩, last) ∧
        last.broken = false ∧
        last.engine.received.map Json.parse =
          link.engine.received.map Json.parse ++ (Question.requests n questions).map .ok := by
  induction questions generalizing link n with
  | nil => exact ⟨link, rfl, h.broken, by simp [Question.requests]⟩
  | cons question rest ih =>
    rw [List.length_cons] at hfew
    have hn : n < UInt64.size := by omega
    obtain ⟨after, hcall, hafter, hreceived⟩ := h.call hn
    obtain ⟨last, hask, hbroken, hlast⟩ := ih hafter (by omega)
    refine ⟨last, ?_, hbroken, ?_⟩
    · simp only [Link.ask, hcall, hask, hafter.broken, List.map_cons, Option.isSome_some, if_true]
    · rw [hlast, hreceived]
      simp [Question.requests, question.call.parse_line hn]

end Link

end DecompilerDesk
