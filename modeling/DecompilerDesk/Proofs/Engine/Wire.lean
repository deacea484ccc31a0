-- SUMMARY: Findings, requests and replies are read as they were written.
import DecompilerDesk.Engine.Call
import DecompilerDesk.Engine.Reply
import DecompilerDesk.Proofs.Json.Records
import DecompilerDesk.Proofs.Text.Trimming

/-!
# The wire

What the engine finds out is written by lawful codecs, and so is a reply, whatever value or message
it carries. A request is read as its number, its command and its arguments.
-/

namespace DecompilerDesk

open Json (Codec Plain Scalar maxDepth)

/-! ## Findings -/

theorem Section.lawful (depth : Nat) : Section.codec.Lawful (depth + 1) :=
  Codec.lawful_record _
    ⟨Codec.lawful_word depth,
      Codec.lawful_optional (Codec.lawful_word depth) (fun _ => nofun),
      Codec.lawful_boolean depth, trivial⟩
    (by decide) fun _ => rfl

theorem Instruction.lawful (depth : Nat) : Instruction.codec.Lawful (depth + 1) :=
  Codec.lawful_record _
    ⟨Codec.lawful_count depth, Codec.lawful_word depth, Codec.lawful_text depth, trivial⟩
    (by decide) fun _ => rfl

theorem LiftedLine.lawful (depth : Nat) : LiftedLine.codec.Lawful (depth + 1) :=
  Codec.lawful_record _ ⟨Codec.lawful_count depth, Codec.lawful_text depth, trivial⟩
    (by decide) fun _ => rfl

theorem Decompilation.lawful (depth : Nat) : Decompilation.codec.Lawful (depth + 3) :=
  Codec.lawful_record _
    ⟨Codec.lawful_list (Instruction.lawful depth), Codec.lawful_list (LiftedLine.lawful depth),
      Codec.lawful_text (depth + 2), trivial⟩
    (by decide) fun _ => rfl

theorem Lowering.lawful_statement (depth : Nat) : Lowering.statementCodec.Lawful (depth + 1) :=
  Codec.lawful_record _ ⟨Codec.lawful_text depth, trivial⟩ (by decide) fun _ => rfl

theorem Lowering.lawful (depth : Nat) : Lowering.codec.Lawful (depth + 3) :=
  Codec.lawful_record _
    ⟨Codec.lawful_text (depth + 2), Codec.lawful_list (Lowering.lawful_statement depth), trivial⟩
    (by decide) fun _ => rfl

theorem Connections.lawful (depth : Nat) : Connections.codec.Lawful (depth + 1) :=
  Codec.lawful_rename (Codec.lawful_list (Codec.lawful_word depth)) fun _ => rfl

/-- What a call is answered with is written as it is read. -/
theorem Call.lawful_answer {α : Type} (call : Call α) (depth : Nat) :
    call.answer.Lawful (depth + 4) := by
  cases call with
  | openFile path =>
    have hnull : Plain (depth + 4) .null := .scalar .null
    exact ⟨fun _ => hnull, fun _ => Codec.accepts_rename (Codec.accepts_any hnull) _ _⟩
  | connectionsAt address => exact Connections.lawful (depth + 3)
  | connectionsAtEntry => exact Connections.lawful (depth + 3)
  | inspect address => exact Codec.lawful_list (Lowering.lawful depth)
  | analyze address => exact Codec.lawful_list (Section.lawful (depth + 2))
  | analyzeAll => exact Codec.lawful_list (Section.lawful (depth + 2))
  | decompile starts => exact Decompilation.lawful (depth + 1)

/-! ## Requests -/

theorem Call.arguments_plain {α : Type} (call : Call α) : Plain 2 call.arguments := by
  have htext (key s : String) : Plain 2 (.object [(key, .text s)]) :=
    .object (by simpa using .scalar (.text s))
  have hnone : Plain 2 (.object []) := .object (by simp)
  cases call with
  | openFile path => exact htext _ _
  | connectionsAt address => exact htext _ _
  | connectionsAtEntry => exact hnone
  | inspect address => exact htext _ _
  | analyze address => exact htext _ _
  | analyzeAll => exact hnone
  | decompile starts =>
    have hstarts := (Codec.lawful_list (Codec.lawful_word 0)).plain starts
    exact .object (by simpa using hstarts)

theorem Call.arguments_sorted {α : Type} (call : Call α) :
    call.arguments.sorted = call.arguments := by
  have hone (key : String) {json : Json} (h : json.sorted = json) :
      (Json.object [(key, json)]).sorted = .object [(key, json)] := by
    simp [Json.sorted, Json.sortedValues, Json.sortMembers, Json.insertMember, h]
  have hnone : (Json.object []).sorted = .object [] := by
    simp [Json.sorted, Json.sortedValues, Json.sortMembers]
  cases call with
  | openFile path => exact hone _ (Scalar.text _).sorted_eq
  | connectionsAt address => exact hone _ (Scalar.text _).sorted_eq
  | connectionsAtEntry => exact hnone
  | inspect address => exact hone _ (Scalar.text _).sorted_eq
  | analyze address => exact hone _ (Scalar.text _).sorted_eq
  | analyzeAll => exact hnone
  | decompile starts =>
    have hword (start : Address) : (Codec.word.toJson start).sorted = Codec.word.toJson start := by
      cases (Codec.lawful_word 0).plain start with
      | scalar h => exact h.sorted_eq
    refine hone _ ?_
    simp [Codec.list, Json.sorted, Json.sortedItems_eq_map, hword]

/-- A request line is read as its three members, in the order of their keys. -/
theorem RequestLine.parse_text {n : Nat} (hn : n < UInt64.size) (command : String) {arguments : Json}
    (h : Plain (maxDepth - 1) arguments) :
    Json.parse (RequestLine.mk n command arguments).text =
      .ok (.object
        [("args", arguments.sorted), ("command", .text command), ("id", .integer n)]) := by
  have hid : Scalar (.integer n) := .integer ⟨by omega, by omega⟩
  have hplain : Plain maxDepth (RequestLine.mk n command arguments).toJson := by
    have harguments : Plain 126 arguments := h
    exact .object (by simp [Plain.scalar hid, Plain.scalar (.text command), harguments])
  have hcommand : ("command" : String) < "id" := by decide
  have harguments : ("args" : String) < "command" := by decide
  rw [text, Json.parse_line hplain]
  simp only [toJson, Json.sorted, Json.sortedValues, Json.sortMembers, List.foldl_cons,
    List.foldl_nil, Json.insertMember, if_pos hcommand, if_pos harguments]

/-- The line of a call is read as the call. -/
theorem Call.parse_line {α : Type} (call : Call α) {n : Nat} (hn : n < UInt64.size) :
    Json.parse (RequestLine.mk n call.command call.arguments).text =
      .ok (.object
        [("args", call.arguments), ("command", .text call.command), ("id", .integer n)]) := by
  have harguments : Plain (maxDepth - 1) call.arguments :=
    call.arguments_plain.mono (by decide)
  rw [RequestLine.parse_text hn call.command harguments, call.arguments_sorted]

namespace Json

/-! In compact form a value is written alike at every depth. -/

mutual

theorem writeCompact_depth (depth : Nat) :
    (json : Json) → write .compact depth json = write .compact 0 json
  | .null | .boolean true | .boolean false | .integer _ | .float _ | .text _ | .array []
  | .object [] => by simp [write]
  | .array (item :: rest) => by
    simp [write, writeCompact_depth (depth + 1) item, writeCompact_depth 1 item,
      writeItemsCompact_depth (depth + 1) rest, writeItemsCompact_depth 1 rest]
  | .object ((key, value) :: rest) => by
    simp [write, writeCompact_depth (depth + 1) value, writeCompact_depth 1 value,
      writeMembersCompact_depth (depth + 1) rest, writeMembersCompact_depth 1 rest]

theorem writeItemsCompact_depth (depth : Nat) :
    (items : List Json) → writeItems .compact depth items = writeItems .compact 0 items
  | [] => rfl
  | item :: rest => by
    simp [writeItems, writeCompact_depth depth item, writeItemsCompact_depth depth rest]

theorem writeMembersCompact_depth (depth : Nat) :
    (members : List (String × Json)) →
      writeMembers .compact depth members = writeMembers .compact 0 members
  | [] => rfl
  | (key, value) :: rest => by
    simp [writeMembers, writeCompact_depth depth value, writeMembersCompact_depth depth rest]

end

end Json

/-- What stands on a request line, whatever the arguments are. -/
theorem RequestLine.text_eq (n : Nat) (command : String) (arguments : Json) :
    (RequestLine.mk n command arguments).text =
      "\x7b\"id\":" ++ toString n ++ ",\"command\":" ++ (Json.text command).compact ++ ",\"args\":" ++
        arguments.compact ++ "\x7d\n" := by
  have hid : Json.writeInteger n = (toString n).toList := by simp [Json.writeInteger]
  have hkeys : Json.writeText "id" = "\"id\"".toList ∧
      Json.writeText "command" = "\"command\"".toList ∧ Json.writeText "args" = "\"args\"".toList := by
    decide
  rw [← String.toList_inj]
  simp [text, toJson, Json.compact, Json.write, Json.writeMembers, hid, hkeys,
    Json.writeCompact_depth 1 arguments]

/-- A line carries a request: what stands on it, and what is read from it. Numbers have 64 bits. -/
structure RequestLine.Carries (line : String) (n : Nat) (command : String) (arguments : Json) :
    Prop where
  text : line =
    "\x7b\"id\":" ++ toString n ++ ",\"command\":" ++ (Json.text command).compact ++ ",\"args\":" ++
      arguments.compact ++ "\x7d\n"
  /-- Arguments whose brackets nest too deep are written, and no reader takes them. -/
  read : n < UInt64.size → Plain (maxDepth - 1) arguments →
    Json.parse line = .ok (.object
      [("args", arguments.sorted), ("command", .text command), ("id", .integer n)])

theorem RequestLine.carries_text (n : Nat) (command : String) (arguments : Json) :
    Carries (RequestLine.mk n command arguments).text n command arguments where
  text := text_eq n command arguments
  read hn harguments := parse_text hn command harguments

/-! ## Replies -/

/-- A missing value and null are the same. -/
theorem Json.Codec.accepts_any_optional {depth : Nat} {json : Json} (h : Plain depth json) :
    ∃ value, Codec.any.optional.Accepts depth json value ∧ value.getD .null = json.sorted := by
  by_cases hnull : json = .null
  · subst hnull
    exact ⟨none, Codec.accepts_none Codec.any depth, Scalar.null.sorted_eq.symm⟩
  · exact ⟨some json.sorted, Codec.accepts_some (Codec.accepts_any h) hnull, rfl⟩

namespace Reply

/-- How deep the brackets of a value in a reply may nest, inside those of the reply. -/
def valueDepth : Nat := maxDepth - 1

/-- The line that answers a request: its number, and a value or a message. -/
def line (n : Nat) (answer : String × Json) : String :=
  (Json.object [("id", .integer n), answer]).compact ++ "\n"

/-- A line is the reply that the codec of replies accepts its object as. -/
theorem parse_line {n : Nat} {answer : String × Json} {reply : Reply}
    (h : codec.Accepts maxDepth (.object [("id", .integer n), answer]) reply) :
    parse (line n answer) = .ok reply := by
  have hgap : ∀ ch ∈ ([] : List Char), Json.Cursor.isGap ch = true := by simp
  have hread := Json.readDocument_of_readsBack h.reads Json.Style.compact_blank 0 hgap
  rw [List.append_nil] at hread
  have hlast : (Json.write .compact 0 (.object [("id", .integer n), answer])).getLast? =
      some '\x7d' := by
    rw [Json.write, List.getLast?_concat]
  have htrim : Text.trim (line n answer).toList =
      Json.write .compact 0 (.object [("id", .integer n), answer]) := by
    rw [line, String.toList_append, Json.compact, String.toList_ofList]
    refine Text.Trimmed.trim_eq ⟨⟨[], ['\n'], rfl, List.forall_mem_nil _, List.forall_mem_singleton.mpr rfl⟩, ?_, ?_⟩
    · simp [Json.write, Text.isBlank]
    · intro ch hch
      rw [hlast] at hch
      obtain rfl := Option.some.inj hch
      rfl
  rw [parse, htrim, hread]

variable {n : Nat}

/-- The number in a line is the number of the reply. -/
theorem accepts_id (hn : n < UInt64.size) (depth : Nat) :
    Codec.word.Accepts depth (.integer n) (UInt64.ofNat n) := by
  have hword : Codec.word.toJson (UInt64.ofNat n) = .integer n :=
    congrArg (fun n : Nat => Json.integer n) (UInt64.toNat_ofNat_of_lt' hn)
  exact hword ▸ (Codec.lawful_word depth).accepts (UInt64.ofNat n)

/-- A value is read from the line that it is written on. -/
theorem parse_value (hn : n < UInt64.size) {json : Json} (h : Plain valueDepth json) :
    ∃ value, parse (line n ("ok", json)) = .ok ⟨UInt64.ofNat n, value, none⟩ ∧
      value.getD .null = json.sorted := by
  obtain ⟨value, hvalue, hsorted⟩ := Codec.accepts_any_optional h
  refine ⟨value, parse_line ?_, hsorted⟩
  refine Codec.accepts_record "Response" _ _ (UInt64.ofNat n, value, none, ())
    ⟨by decide, ?_, ?_, ?_⟩
  · exact (by decide : ["id", "ok"].Nodup)
  · exact (by decide : ∀ key ∈ ["id", "ok"], key ∈ ["id", "ok", "err"])
  · have herr : "err" ∉ ["id", "ok"] := by decide
    exact ⟨.inl ⟨_, .head _, accepts_id hn valueDepth⟩, .inl ⟨json, .tail _ (.head _), hvalue⟩,
      .inr ⟨herr, rfl⟩, trivial⟩

/-- A rejection is read from the line that its message is written on. -/
theorem parse_rejection (hn : n < UInt64.size) (message : String) :
    parse (line n ("err", .text message)) = .ok ⟨UInt64.ofNat n, none, some message⟩ := by
  have hmessage : Codec.text.optional.Accepts valueDepth (.text message) (some message) :=
    Codec.accepts_some ((Codec.lawful_text valueDepth).accepts message) nofun
  refine parse_line ?_
  refine Codec.accepts_record "Response" _ _ (UInt64.ofNat n, none, some message, ())
    ⟨by decide, ?_, ?_, ?_⟩
  · exact (by decide : ["id", "err"].Nodup)
  · exact (by decide : ∀ key ∈ ["id", "err"], key ∈ ["id", "ok", "err"])
  · have hok : "ok" ∉ ["id", "err"] := by decide
    exact ⟨.inl ⟨_, .head _, accepts_id hn valueDepth⟩, .inr ⟨hok, rfl⟩,
      .inl ⟨_, .tail _ (.head _), hmessage⟩, trivial⟩

end Reply

end DecompilerDesk
