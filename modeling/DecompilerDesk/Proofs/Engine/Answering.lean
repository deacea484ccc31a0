-- SUMMARY: What each line of text answers to a request: a value, a rejection, or that it is no reply to it.
import DecompilerDesk.Proofs.Engine.Talk
import DecompilerDesk.Proofs.Json.Fieldwise

/-!
# Answering lines

A line is a reply if, between blanks, it lists one number under "id", at most one value under "ok" and
at most one text under "err"; null under the last is as good as nothing. Keys that a reply does not have
may stand beside them, with anything that has the form of a value. Whether a line is a reply with the
number of the request decides what it answers before its "err" does, and "err" before "ok".
-/

namespace DecompilerDesk.Reply

open Json (Codec Field Fields Holds valuesOf)

variable {line command : String} {id n : Nat} {members : List (String × Json)} {reply : Reply}

/-! ## Replies -/

/-- The keys that a reply has, in the order of their values in an array. -/
def keys : List String := ["id", "ok", "err"]

/-- Between blanks, a line holds an object with these members under the keys of a reply, or an array
with these items for them. -/
def Lists (line : String) (members : List (String × Json)) : Prop :=
  ∃ json, Json.readDocument (Json.outline keys Json.maxDepth) (Text.trim line.toList) = .ok json ∧
    Json.Lists keys json members

/-- The key of these values is left out or null. -/
def Absent (given : List Json) : Prop := given = [] ∨ given = [.null]

/-- A line is a reply with a number. -/
structure IsReply (line : String) (n : Nat) (members : List (String × Json)) : Prop where
  lists : Lists line members
  fits : n < UInt64.size
  id : valuesOf "id" members = [.integer n]
  ok : (valuesOf "ok" members).length ≤ 1
  err : Absent (valuesOf "err" members) ∨ ∃ message, valuesOf "err" members = [.text message]

/-! ## Reading -/

/-- The parts of a reply and their keys. -/
def fields : Fields (UInt64 × Option Json × Option String × Unit)
    (Option UInt64 × Option (Option Json) × Option (Option String) × Unit) :=
  .cons (.required "id" .word) <|
    .cons (.withDefault "ok" Codec.any.optional none) <|
    .cons (.withDefault "err" Codec.text.optional none) .nil

theorem fields_agree : fields.Agree :=
  .cons (Codec.agrees_natural ..) <|
    .cons (Codec.agrees_optional Codec.agrees_any) <|
    .cons (Codec.agrees_optional Codec.agrees_text) .nil

theorem fields_sameDefaults : fields.SameDefaults := .cons rfl <| .cons rfl <| .cons rfl .nil

/-- Members hold the value and the rejection of a reply. -/
structure Carries (members : List (String × Json)) (value : Option Json)
    (rejection : Option String) : Prop where
  value : Holds (fun json => json) (valuesOf "ok" members) value
  rejection : Holds .text (valuesOf "err" members) rejection

theorem takes_fields {id : UInt64} {value : Option Json} {rejection : Option String} :
    fields.Takes members (id, value, rejection, ()) ↔
      valuesOf "id" members = [.integer id.toNat] ∧ Carries members value rejection := by
  have hid : (Field.required "id" .word).Takes (valuesOf "id" members) id ↔ _ :=
    Field.takes_required Codec.exact_word "id"
  have hvalue :
      (Field.withDefault "ok" Codec.any.optional none).Takes (valuesOf "ok" members) value ↔ _ :=
    Field.takes_optional Codec.exact_any "ok"
  have hrejection :
      (Field.withDefault "err" Codec.text.optional none).Takes (valuesOf "err" members) rejection ↔ _ :=
    Field.takes_optional Codec.exact_text "err"
  constructor
  · rintro ⟨htakesId, htakesValue, htakesRejection, -⟩
    exact ⟨hid.mp htakesId, hvalue.mp htakesValue, hrejection.mp htakesRejection⟩
  · rintro ⟨hlisted, hcarries⟩
    exact ⟨hid.mpr hlisted, hvalue.mpr hcarries.value, hrejection.mpr hcarries.rejection, trivial⟩

/-- What is read from a line is what it lists under each key. -/
theorem parse_iff :
    parse line = .ok reply ↔
      ∃ members, Lists line members ∧ valuesOf "id" members = [.integer reply.id.toNat] ∧
        Carries members reply.value reply.rejection := by
  refine (Codec.readDocument_record_iff fields_agree (by decide) fields_sameDefaults "Response"
    _ _ Json.maxDepth (Text.trim line.toList) reply).trans ⟨?_, ?_⟩
  · rintro ⟨json, members, ⟨id, value, rejection, ⟨⟩⟩, houtline, hlists, hvalues, rfl⟩
    exact ⟨members, ⟨json, houtline, hlists⟩, takes_fields.mp hvalues⟩
  · rintro ⟨members, ⟨json, houtline, hlists⟩, hvalues⟩
    exact ⟨json, members, (reply.id, reply.value, reply.rejection, ()), houtline, hlists,
      takes_fields.mpr hvalues, rfl⟩

/-- A line that is read as a reply is one. -/
theorem isReply_of_parse (h : parse line = .ok reply) :
    ∃ members, IsReply line reply.id.toNat members ∧ Carries members reply.value reply.rejection := by
  obtain ⟨members, hlists, hid, hcarries⟩ := parse_iff.mp h
  refine ⟨members, ⟨hlists, reply.id.toNat_lt_size, hid, hcarries.value.length_le, ?_⟩, hcarries⟩
  have hrejection := hcarries.rejection
  cases hreply : reply.rejection with
  | none =>
    rw [hreply] at hrejection
    exact .inl hrejection
  | some message =>
    rw [hreply] at hrejection
    exact .inr ⟨message, hrejection.1⟩

/-- A line that is a reply is read as one. -/
theorem IsReply.parse (h : IsReply line n members) :
    ∃ reply, parse line = .ok reply ∧ reply.id.toNat = n ∧
      Carries members reply.value reply.rejection := by
  obtain ⟨value, hvalue⟩ := Json.exists_holds h.ok
  have hid : (UInt64.ofNat n).toNat = n := UInt64.toNat_ofNat_of_lt' h.fits
  obtain ⟨rejection, hrejection⟩ : ∃ rejection, Holds .text (valuesOf "err" members) rejection := by
    rcases h.err with habsent | ⟨message, hmessage⟩
    · exact ⟨none, habsent⟩
    · exact ⟨some message, hmessage, nofun⟩
  have hlisted : valuesOf "id" members = [.integer (UInt64.ofNat n).toNat] := by rw [h.id, hid]
  exact ⟨⟨.ofNat n, value, rejection⟩,
    parse_iff.mpr ⟨members, h.lists, hlisted, hvalue, hrejection⟩, hid, hvalue, hrejection⟩

/-! ## Answers -/

theorem decode_of_other (h : parse line = .ok reply) (hid : reply.id.toNat ≠ id) (command : String) :
    decode command id line =
      .error (.protocol ("reply id " ++ toString reply.id.toNat
        ++ " does not match request id " ++ toString id)) := by
  simp only [decode, h]
  exact if_pos hid

/-- What a line answers to a request, by the kind of line that it is. -/
inductive Answers (command : String) (id : Nat) (line : String) : Except Failure Json → Prop where
  | value {members : List (String × Json)} {value : Json} (hreply : IsReply line id members)
      (habsent : Absent (valuesOf "err" members))
      (hvalue : valuesOf "ok" members = [value] ∨ valuesOf "ok" members = [] ∧ value = .null) :
      Answers command id line (.ok value)
  | rejection {members : List (String × Json)} {message : String} (hreply : IsReply line id members)
      (hmessage : valuesOf "err" members = [.text message]) :
      Answers command id line (.error (.engine command message))
  | other {members : List (String × Json)} {other : Nat} (hreply : IsReply line other members)
      (hother : other ≠ id) :
      Answers command id line (.error (.protocol ("reply id " ++ toString other
        ++ " does not match request id " ++ toString id)))
  | malformed {fault : Json.Fault} (hnone : ∀ members n, ¬ IsReply line n members)
      (hparse : parse line = .error fault) :
      Answers command id line
        (.error (.protocol ("malformed reply to " ++ command ++ ": " ++ fault.message)))

/-- Every line answers in one of these ways. -/
theorem answers_decode (command : String) (id : Nat) (line : String) :
    Answers command id line (decode command id line) := by
  cases hparse : parse line with
  | error fault =>
    have hnone (members : List (String × Json)) (n : Nat) : ¬ IsReply line n members := by
      intro hreply
      obtain ⟨reply, hread, -⟩ := hreply.parse
      rw [hparse] at hread
      cases hread
    rw [decode, hparse]
    exact .malformed hnone hparse
  | ok reply =>
    obtain ⟨members, hreply, hvalue, hrejection⟩ := isReply_of_parse hparse
    by_cases hid : reply.id.toNat = id
    · subst hid
      rw [decode_of_parse hparse rfl, result]
      cases hmessage : reply.rejection with
      | none =>
        rw [hmessage] at hrejection
        exact .value hreply hrejection (hvalue.getD_iff.mp rfl)
      | some message =>
        rw [hmessage] at hrejection
        exact .rejection hreply hrejection.1
    · rw [decode_of_other hparse hid]
      exact .other hreply hid

/-- No line answers in two of them. -/
theorem Answers.decode_eq {result : Except Failure Json} (h : Answers command id line result) :
    decode command id line = result := by
  cases h with
  | value hreply habsent hvalue =>
    obtain ⟨reply, hparse, hid, hcarries⟩ := hreply.parse
    have hnone : reply.rejection = none := hcarries.rejection.unique @Json.text.inj habsent
    rw [decode_of_parse hparse hid, Reply.result, hnone]
    exact congrArg Except.ok (hcarries.value.getD_iff.mpr hvalue)
  | @rejection _ message hreply hmessage =>
    obtain ⟨reply, hparse, hid, hcarries⟩ := hreply.parse
    have hsome : reply.rejection = some message :=
      hcarries.rejection.unique @Json.text.inj ⟨hmessage, nofun⟩
    rw [decode_of_parse hparse hid, Reply.result, hsome]
  | other hreply hother =>
    obtain ⟨reply, hparse, rfl, -⟩ := hreply.parse
    exact decode_of_other hparse hother command
  | malformed _ hparse => rw [decode, hparse]

theorem decode_eq_iff {result : Except Failure Json} :
    decode command id line = result ↔ Answers command id line result :=
  ⟨fun h => h ▸ answers_decode command id line, Answers.decode_eq⟩

/-- What every line answers to a request: the value of a reply with its number that rejects nothing, the
message of one that does, and else that the line has another number or is no reply. -/
theorem decode_classifies_lines (command : String) (id : Nat) (line : String) :
    (∀ value, decode command id line = .ok value ↔
      ∃ members, IsReply line id members ∧ Absent (valuesOf "err" members) ∧
        (valuesOf "ok" members = [value] ∨ valuesOf "ok" members = [] ∧ value = .null)) ∧
    ∀ failure, decode command id line = .error failure ↔
      (∃ members message, IsReply line id members ∧ valuesOf "err" members = [.text message] ∧
        failure = .engine command message) ∨
      (∃ members other, IsReply line other members ∧ other ≠ id ∧
        failure = .protocol ("reply id " ++ toString other
          ++ " does not match request id " ++ toString id)) ∨
      (∀ members other, ¬ IsReply line other members) ∧ ∃ fault, parse line = .error fault ∧
        failure = .protocol ("malformed reply to " ++ command ++ ": " ++ fault.message) := by
  refine ⟨fun value => decode_eq_iff.trans ⟨?_, ?_⟩, fun failure => decode_eq_iff.trans ⟨?_, ?_⟩⟩
  · rintro ⟨hreply, habsent, hvalue⟩
    exact ⟨_, hreply, habsent, hvalue⟩
  · rintro ⟨members, hreply, habsent, hvalue⟩
    exact .value hreply habsent hvalue
  · intro hanswers
    cases hanswers with
    | rejection hreply hmessage => exact .inl ⟨_, _, hreply, hmessage, rfl⟩
    | other hreply hother => exact .inr (.inl ⟨_, _, hreply, hother, rfl⟩)
    | malformed hnone hparse => exact .inr (.inr ⟨hnone, _, hparse, rfl⟩)
  · rintro (⟨members, message, hreply, hmessage, rfl⟩ | ⟨members, other, hreply, hother, rfl⟩ |
      ⟨hnone, fault, hparse, rfl⟩)
    · exact .rejection hreply hmessage
    · exact .other hreply hother
    · exact .malformed hnone hparse

-- The number counts before the rejection, and a key that no reply has may hold a number out of range.
example : decode "open" 5 "\x7b\"id\":6,\"x\":[1e999],\"ok\":1,\"err\":\"no\"\x7d\r\n" =
    .error (.protocol "reply id 6 does not match request id 5") := by
  cbv

end DecompilerDesk.Reply
