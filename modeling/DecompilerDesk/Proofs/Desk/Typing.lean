-- SUMMARY: An address typed at a desk goes to the engine in its written form, or is refused if it is none.
import DecompilerDesk.Proofs.Address.Canonical
import DecompilerDesk.Proofs.Desk.Opening

/-!
# Typed addresses

There are three inquiries about an address that the user types. Each is put to the engine exactly when
what was typed is an address, and then with the address in its written form, so it does not matter how
the address was typed.
-/

namespace DecompilerDesk

open Address (Canonical parse)

/-- The inquiries about an address that the user types. -/
inductive Inquiry where
  | sections
  | connections
  | lowerings
  deriving DecidableEq, Repr

namespace Inquiry

def intent : Inquiry → (input : String) → Intent
  | sections, input => .analyze input
  | connections, input => .connectionsAt input
  | lowerings, input => .inspect input

def request : Inquiry → Address → Epoch → Request
  | sections, address, epoch => .analyze (some address) epoch
  | connections, address, epoch => .connectionsAt address epoch
  | lowerings, address, epoch => .inspect address epoch

/-- The inquiry is about what was typed. For sections, nothing but blanks means the entry point. -/
def IsAbout (inquiry : Inquiry) (input : String) : Prop :=
  inquiry = sections → ∃ c ∈ input.toList, Text.isBlank c = false

theorem request_arguments (inquiry : Inquiry) (address : Address) (epoch : Epoch) :
    (inquiry.request address epoch).arguments = .object [("address", .text address.text)] := by
  cases inquiry <;> rfl

end Inquiry

/-- The intent becomes a request that puts an address, so written, before the engine. -/
def Desk.Puts (desk : Desk) (intent : Intent) (written : String) : Prop :=
  ∃ request, (desk.issue intent).1 = some request ∧
    request.arguments = .object [("address", .text written)]

variable {desk : Desk} {inquiry : Inquiry} {input written : String} {address : Address}

namespace Desk

/-- What becomes of an inquiry is decided by what was typed. -/
theorem issue_inquiry (hfile : desk.session.file.isSome) (habout : inquiry.IsAbout input) :
    (desk.issue (inquiry.intent input)).1 =
      (parse input).toOption.map (inquiry.request · desk.session.epoch) := by
  have htyped (label : String) (request : Address → Request) :
      (desk.withAddress label input fun address => (some (request address), desk)).1 =
        (parse input).toOption.map request := by
    unfold withAddress
    split
    next hparse => rw [hparse]; rfl
    next hparse => rw [hparse]; rfl
  cases inquiry with
  | sections =>
    have hsome : (Text.trim input.toList).isEmpty = false :=
      List.isEmpty_eq_false_iff.mpr (Text.trim_ne_nil (habout rfl))
    simp only [Inquiry.intent, issue, analyze, withFile_of_file hfile, hsome, Bool.false_eq_true, if_false]
    exact htyped _ _
  | connections =>
    simp only [Inquiry.intent, issue, connectionsAt, withFile_of_file hfile]
    exact htyped _ _
  | lowerings =>
    simp only [Inquiry.intent, issue, inspect, withFile_of_file hfile]
    exact htyped _ _

theorem puts_iff (hfile : desk.session.file.isSome) (habout : inquiry.IsAbout input) :
    desk.Puts (inquiry.intent input) written ↔
      ∃ address, parse input = .ok address ∧ written = address.text := by
  rw [Puts, issue_inquiry hfile habout]
  constructor
  · rintro ⟨request, hrequest, harguments⟩
    cases hparse : parse input with
    | error failure =>
      rw [hparse] at hrequest
      cases hrequest
    | ok address =>
      rw [hparse] at hrequest
      obtain rfl := Option.some.inj hrequest
      rw [inquiry.request_arguments] at harguments
      simp only [Json.object.injEq, List.cons.injEq, Prod.mk.injEq, Json.text.injEq] at harguments
      exact ⟨address, rfl, harguments.1.2.symm⟩
  · rintro ⟨address, hparse, rfl⟩
    rw [hparse]
    exact ⟨_, rfl, inquiry.request_arguments address _⟩

end Desk

/-- A written address is never blank. -/
theorem Inquiry.isAbout_text (inquiry : Inquiry) (address : Address) :
    inquiry.IsAbout address.text := by
  intro _
  rw [address.toList_text]
  exact ⟨'0', List.mem_cons_self, rfl⟩

/-- With a file open, an inquiry about what was typed is put to the engine exactly when that is an
address. It then carries the canonical form, which is the same address typed again; two inputs give the
same form exactly when they are the same address. And a list of addresses as it is shown falls apart
into these addresses. -/
theorem typed_as_canonical (hfile : desk.session.file.isSome) :
    (∀ (inquiry : Inquiry) (input : String), inquiry.IsAbout input →
      ((desk.issue (inquiry.intent input)).1.isSome ↔ ∃ address, parse input = .ok address) ∧
      ∀ address, parse input = .ok address →
        ∃ written, desk.Puts (inquiry.intent input) written ∧ Canonical written address.toNat ∧
          parse written = .ok address ∧
          ∀ later : Desk, later.session.file.isSome → later.Puts (inquiry.intent written) written) ∧
    (∀ (inquiry : Inquiry) (one other : String), inquiry.IsAbout one → inquiry.IsAbout other →
      ((∃ written, desk.Puts (inquiry.intent one) written ∧ desk.Puts (inquiry.intent other) written) ↔
        ∃ address, parse one = .ok address ∧ parse other = .ok address)) ∧
    ∀ connections : Connections, connections.addresses ≠ [] →
      (Connections.pieces connections.text.toList).map (fun piece => parse (String.ofList piece)) =
        connections.addresses.map .ok := by
  refine ⟨fun inquiry input habout => ⟨?_, fun address hparse => ?_⟩, ?_, ?_⟩
  · rw [Desk.issue_inquiry hfile habout, Option.isSome_map]
    cases parse input <;> simp [Except.toOption]
  · refine ⟨address.text, (Desk.puts_iff hfile habout).mpr ⟨address, hparse, rfl⟩,
      address.canonical_text, address.parse_text, fun later hlater => ?_⟩
    exact (Desk.puts_iff hlater (inquiry.isAbout_text address)).mpr ⟨address, address.parse_text, rfl⟩
  · intro inquiry one other hone hother
    simp only [Desk.puts_iff hfile hone, Desk.puts_iff hfile hother]
    constructor
    · rintro ⟨_, ⟨address, haddress, rfl⟩, same, hsame, htext⟩
      obtain rfl := Address.text_inj.mp htext
      exact ⟨address, haddress, hsame⟩
    · rintro ⟨address, hone, hother⟩
      exact ⟨address.text, ⟨address, hone, rfl⟩, address, hother, rfl⟩
  · intro connections hsome
    exact Connections.parse_pieces_text hsome

/-- The same address typed in two ways at a desk at which a file was opened, and a list of the least and
the greatest address. -/
theorem typed_as_canonical_of_two_spellings :
    let desk := (History.of (.start 8 .standard)
      [.intent (.openFile (some (.ofText "/one"))), .reply 0 (.ok .null), .apply 1]).desk
    let connections : Connections := ⟨[0, 0xffffffffffffffff]⟩
    desk.session.file.isSome ∧ Inquiry.sections.IsAbout " +0032" ∧ Inquiry.sections.IsAbout "0X+20\n" ∧
      (∃ written, desk.Puts (.analyze " +0032") written ∧ desk.Puts (.analyze "0X+20\n") written) ∧
      connections.text = "0x0, 0xffffffffffffffff" ∧
      (Connections.pieces connections.text.toList).map (fun piece => parse (String.ofList piece)) =
        [.ok 0, .ok 0xffffffffffffffff] := by
  intro desk connections
  have hfile : desk.session.file.isSome := rfl
  have hone : Inquiry.sections.IsAbout " +0032" := fun _ => ⟨'3', by decide, rfl⟩
  have hother : Inquiry.sections.IsAbout "0X+20\n" := fun _ => ⟨'2', by decide, rfl⟩
  have hparse : parse " +0032" = .ok 32 ∧ parse "0X+20\n" = .ok 32 := by decide +kernel
  obtain ⟨-, hsame, hpieces⟩ := typed_as_canonical hfile
  exact ⟨hfile, hone, hother, (hsame .sections _ _ hone hother).mpr ⟨32, hparse⟩, by decide +kernel,
    hpieces connections (List.cons_ne_nil _ _)⟩

end DecompilerDesk
