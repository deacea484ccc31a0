-- SUMMARY: A report lists every instruction, and every line lifted from a listed instruction once, under it.
import DecompilerDesk.Report
import DecompilerDesk.Proofs.Address.Canonical
import Mathlib.Data.List.Perm.Basic
import Mathlib.Data.List.Nodup

/-!
# Listing

The listing of a report is a sequence of blocks, one for each instruction: the instruction, and under
it the lines lifted from it. If no two instructions have the same index, then the blocks part the lines
that were lifted from listed instructions among them. Lines of instructions that are not listed are
not shown. What a line of a report was made of can be told from the line.
-/

namespace DecompilerDesk

namespace Decompilation

/-! ## Lines by instruction -/

theorem liftedFrom_cons (assembly : List Instruction) (line : LiftedLine) (rest : List LiftedLine)
    (code : String) (index : UInt64) :
    liftedFrom ⟨assembly, line :: rest, code⟩ index =
      (if line.source = index then [line] else []) ++ liftedFrom ⟨assembly, rest, code⟩ index := by
  by_cases hsource : line.source = index <;> simp [liftedFrom, hsource]

/-- Of distinct indices at most one is the source of a line. -/
theorem flatMap_source {indices : List UInt64} (h : indices.Nodup) (line : LiftedLine) :
    indices.flatMap (fun index => if line.source = index then [line] else []) =
      if line.source ∈ indices then [line] else [] := by
  induction indices with
  | nil => rfl
  | cons index rest ih =>
    obtain ⟨hnew, hrest⟩ := List.nodup_cons.mp h
    rw [List.flatMap_cons, ih hrest]
    by_cases hsource : line.source = index
    · simp [hsource, hnew]
    · simp [hsource]

/-- Taken together, the lines lifted from the instructions at distinct indices are those whose source
is among the indices. -/
theorem flatMap_liftedFrom_perm {indices : List UInt64} (h : indices.Nodup) (findings : Decompilation) :
    (indices.flatMap findings.liftedFrom).Perm (findings.lifted.filter (·.source ∈ indices)) := by
  obtain ⟨assembly, lifted, code⟩ := findings
  induction lifted with
  | nil => simp [liftedFrom]
  | cons line rest ih =>
    -- The first line goes to its index alone, and the lines behind it as they go without it.
    have hsplit : (indices.flatMap (liftedFrom ⟨assembly, line :: rest, code⟩)).Perm
        ((if line.source ∈ indices then [line] else []) ++
          indices.flatMap (liftedFrom ⟨assembly, rest, code⟩)) := by
      rw [← flatMap_source h line, funext (liftedFrom_cons assembly line rest code)]
      exact (List.flatMap_append_perm indices _ _).symm
    refine hsplit.trans ((ih.append_left _).trans (.of_eq ?_))
    by_cases hsource : line.source ∈ indices <;> simp [hsource]

end Decompilation

namespace Report

/-! ## Lines -/

/-- A word in a line goes up to the first blank behind it. -/
theorem word_inj {word other behind rest : List Char} (hword : ' ' ∉ word) (hother : ' ' ∉ other) :
    word ++ ' ' :: behind = other ++ ' ' :: rest ↔ word = other ∧ behind = rest := by
  induction word generalizing other with
  | nil =>
    cases other with
    | nil => simp
    | cons ch other => simp [List.ne_of_not_mem_cons hother]
  | cons ch word ih =>
    cases other with
    | nil => simp [Ne.symm (List.ne_of_not_mem_cons hword)]
    | cons first other =>
      simp [ih (List.not_mem_of_not_mem_cons hword) (List.not_mem_of_not_mem_cons hother), and_assoc]

theorem toDigits_inj {n m : Nat} : Nat.toDigits 10 n = Nat.toDigits 10 m ↔ n = m := by
  have hread (n : Nat) : Nat.ofDigitChars 10 (Nat.toDigits 10 n) 0 = n :=
    Nat.ofDigitChars_toDigits (by decide) (by decide)
  refine ⟨fun h => ?_, congrArg _⟩
  rw [← hread n, h, hread]

theorem blank_not_mem_toDigits (n : Nat) : ' ' ∉ Nat.toDigits 10 n := by
  intro hmem
  exact absurd (Nat.isDigit_of_mem_toDigits (by decide) (by decide) hmem) (by decide)

theorem blank_not_mem_text (address : Address) : ' ' ∉ address.text.toList := by
  intro hmem
  exact absurd (Address.mem_text hmem).1 (by decide)

/-- Behind its blanks an instruction is shown with its index, its address and its text. -/
theorem dropWhile_instructionLine (i : Instruction) :
    (instructionLine i).toList.dropWhile (· = ' ') =
      Nat.toDigits 10 i.index.toNat ++ ' ' :: ' ' :: (i.home.text.toList ++ ' ' :: ' ' :: i.text.toList) := by
  have hsome : Nat.toDigits 10 i.index.toNat ≠ [] := Nat.toDigits_ne_nil
  obtain ⟨digit, digits, hdigits⟩ := List.exists_cons_of_ne_nil hsome
  have hdigit : digit ≠ ' ' := by
    rintro rfl
    exact blank_not_mem_toDigits i.index.toNat (hdigits ▸ List.mem_cons_self)
  simp [instructionLine, padded, hdigits, hdigit]

/-- An instruction can be told from its line. -/
theorem instructionLine_inj {one other : Instruction} :
    instructionLine one = instructionLine other ↔ one = other := by
  refine ⟨fun h => ?_, congrArg instructionLine⟩
  have hread := congrArg (fun line : String => line.toList.dropWhile (· = ' ')) h
  simp only [dropWhile_instructionLine] at hread
  rw [word_inj (blank_not_mem_toDigits _) (blank_not_mem_toDigits _), List.cons.injEq,
    word_inj (blank_not_mem_text _) (blank_not_mem_text _)] at hread
  obtain ⟨hindex, -, hhome, htext⟩ := hread
  rw [toDigits_inj, UInt64.toNat_inj] at hindex
  rw [String.toList_inj, Address.text_inj] at hhome
  rw [List.cons.injEq, String.toList_inj] at htext
  cases one
  cases other
  simp_all

/-- The end of a section is shown, or that it is not known. -/
theorem stop_inj {one other : Option Address} :
    (one.map Address.text).getD "?" = (other.map Address.text).getD "?" ↔ one = other := by
  have hmark (address : Address) : address.text ≠ "?" := by
    intro h
    have hfirst := congrArg (fun text : String => text.toList.head?) h
    simp [Address.toList_text] at hfirst
  cases one <;> cases other <;> simp [Address.text_inj, hmark, Ne.symm (hmark _)]

theorem blank_not_mem_stop (stop : Option Address) :
    ' ' ∉ ((stop.map Address.text).getD "?").toList := by
  cases stop with
  | none => decide
  | some address => exact blank_not_mem_text address

/-- The range of a section and whether it is analyzed can be told from its line. -/
theorem sectionLine_inj {one other : KnownSection} :
    sectionLine one = sectionLine other ↔
      one.start = other.start ∧ one.stop = other.stop ∧ one.analyzed = other.analyzed := by
  have hstate {one other : Bool} :
      (if one then "[analyzed]" else "[pending]") = (if other then "[analyzed]" else "[pending]") ↔
        one = other := by
    cases one <;> cases other <;> simp
  rw [← String.toList_inj]
  simp only [sectionLine, String.toList_append, List.append_assoc]
  simp [word_inj (blank_not_mem_text one.start) (blank_not_mem_text other.start),
    word_inj (blank_not_mem_stop one.stop) (blank_not_mem_stop other.stop), hstate, Address.text_inj,
    stop_inj, String.toList_inj]

theorem loweringLines_inj {one other : Lowering} :
    loweringLines one = loweringLines other ↔ one = other := by
  have hindent : Function.Injective ("      " ++ · : String → String) := fun one other h => by
    simpa using h
  obtain ⟨instruction, statements⟩ := one
  obtain ⟨instruction', statements'⟩ := other
  simp [loweringLines, (List.map_injective_iff.mpr hindent).eq_iff]

theorem liftedLine_inj {one other : LiftedLine} :
    liftedLine one = liftedLine other ↔ one.text = other.text := by
  simp [liftedLine]

/-! ## Blocks -/

/-- An instruction and the lines that are shown under it. -/
structure Block where
  instruction : Instruction
  lifted : List LiftedLine

namespace Block

/-- The index of an instruction stands to the right in four places, and its address in hexadecimal
behind it. What was lifted from it is set in. -/
def lines (block : Block) : List String :=
  ("  " ++ String.ofList ((Nat.toDigits 10 block.instruction.index.toNat).leftpad 4 ' ') ++
      "  0x" ++ String.ofList (Nat.toDigits 16 block.instruction.home.toNat) ++
      "  " ++ block.instruction.text) ::
    block.lifted.map fun line => "              " ++ line.text

/-- The block of an instruction in the listing of a decompilation. -/
def ofInstruction (findings : Decompilation) (i : Instruction) : Block :=
  ⟨i, findings.liftedFrom i.index⟩

/-- The listing shows an instruction and what was lifted from it as the block of both. -/
theorem lines_ofInstruction (findings : Decompilation) (i : Instruction) :
    (ofInstruction findings i).lines =
      instructionLine i :: (findings.liftedFrom i.index).map liftedLine := by
  have hhome : i.home.text = "0x" ++ String.ofList (Nat.toDigits 16 i.home.toNat) := by
    rw [← String.toList_inj, Address.toList_text]
    simp
  have hindex : padded i.index = String.ofList ((Nat.toDigits 10 i.index.toNat).leftpad 4 ' ') := rfl
  have hmark : "  0x" = "  " ++ "0x" := by decide
  simp only [lines, ofInstruction, instructionLine, hhome, hindex, hmark, String.append_assoc]
  rfl

end Block

theorem listing_eq_flatMap_lines (findings : Decompilation) :
    listing findings = (findings.assembly.map (Block.ofInstruction findings)).flatMap Block.lines := by
  rw [listing, List.flatMap_map]
  simp only [Block.lines_ofInstruction]

theorem lifted_blocks_perm (findings : Decompilation)
    (hdistinct : (findings.assembly.map (·.index)).Nodup) :
    ((findings.assembly.map (Block.ofInstruction findings)).flatMap (·.lifted)).Perm
      (findings.lifted.filter fun line => ∃ i ∈ findings.assembly, i.index = line.source) := by
  have hparted := Decompilation.flatMap_liftedFrom_perm hdistinct findings
  simp only [List.flatMap_map, List.mem_map] at hparted ⊢
  exact hparted

variable {session : Session} {shown : Tinted}

/-- A report of a session that shows a decompilation whose instructions have distinct indices is what it
is without a decompilation up to its last line, the listing, and the code. The listing is a sequence of
blocks: each instruction once, in order, and under it the lines lifted from it, in order. Together the
blocks hold every line whose source is an instruction as often as the decompilation has it, and none
but these. -/
theorem listing_parts_lifted (hshown : session.shown = some shown)
    (hdistinct : (shown.findings.assembly.map (·.index)).Nodup) :
    ∃ (before : List String) (blocks : List Block),
      report { session with shown := none } = before ++ ["No decompilation produced."] ∧
      report session = before ++ ["Assembly / IR:"] ++ blocks.flatMap Block.lines
        ++ [""] ++ heading "DECOMPILED" ++ [shown.findings.code] ∧
      printed false session = String.join ((report session).map (· ++ "\n")) ∧
      blocks.map (·.instruction) = shown.findings.assembly ∧
      (∀ block ∈ blocks, block.lifted =
        shown.findings.lifted.filter (·.source = block.instruction.index)) ∧
      (blocks.flatMap (·.lifted)).Perm
        (shown.findings.lifted.filter fun line =>
          ∃ i ∈ shown.findings.assembly, i.index = line.source) := by
  refine ⟨heading "SECTIONS" ++ session.sections.map sectionLine
      ++ (if session.lowerings.isEmpty then []
          else "" :: "IR Inspect:" :: session.lowerings.flatMap loweringLines) ++ [""],
    shown.findings.assembly.map (.ofInstruction shown.findings), ?_, ?_, rfl, ?_, ?_,
    lifted_blocks_perm _ hdistinct⟩
  · simp [report]
  · simp [report, hshown, listing_eq_flatMap_lines]
  · simp [Block.ofInstruction, Function.comp_def]
  · intro block hblock
    obtain ⟨i, -, rfl⟩ := List.mem_map.mp hblock
    rfl

/-- Lines of three instructions in disorder, one of them twice, and two of an instruction that is not
listed. -/
theorem listing_parts_lifted_of_orphans :
    let findings : Decompilation :=
      ⟨[⟨7, 16, "push"⟩, ⟨2, 16, "add"⟩, ⟨12345, 32, "ret"⟩],
        [⟨2, "a"⟩, ⟨7, "b"⟩, ⟨9, "c"⟩, ⟨2, "d"⟩, ⟨2, "a"⟩, ⟨9, "c"⟩, ⟨7, "e"⟩], "f();"⟩
    let session := ({} : Session).present findings
    (findings.assembly.map (·.index)).Nodup ∧
      ∃ (before : List String) (blocks : List Block),
        report session = before ++ ["Assembly / IR:"] ++ blocks.flatMap Block.lines
          ++ [""] ++ heading "DECOMPILED" ++ ["f();"] ∧
        blocks.flatMap Block.lines =
          ["     7  0x10  push",
            "              b",
            "              e",
            "     2  0x10  add",
            "              a",
            "              d",
            "              a",
            "  12345  0x20  ret"] ∧
        blocks.map (·.instruction) = findings.assembly ∧
        (blocks.flatMap (·.lifted)).Perm
          [⟨2, "a"⟩, ⟨7, "b"⟩, ⟨2, "d"⟩, ⟨2, "a"⟩, ⟨7, "e"⟩] := by
  intro findings session
  have hdistinct : (findings.assembly.map (·.index)).Nodup := by decide
  have hshown : session.shown = some (.ofDecompilation findings) := rfl
  obtain ⟨before, blocks, hwithout, hreport, -, hinstructions, -, hparted⟩ :=
    listing_parts_lifted hshown hdistinct
  -- without the decompilation there is a heading, and then a blank line
  have hbefore : before = heading "SECTIONS" ++ [""] := by
    have hliteral : report { session with shown := none } =
        heading "SECTIONS" ++ [""] ++ ["No decompilation produced."] := by decide
    exact (List.append_cancel_right (hliteral.symm.trans hwithout)).symm
  have hlines : report session = heading "SECTIONS" ++ [""] ++ ["Assembly / IR:"] ++
      ["     7  0x10  push", "              b", "              e", "     2  0x10  add",
        "              a", "              d", "              a", "  12345  0x20  ret"]
      ++ [""] ++ heading "DECOMPILED" ++ ["f();"] := by decide
  refine ⟨hdistinct, before, blocks, hreport, ?_, hinstructions, hparted.trans (.of_eq (by decide))⟩
  rw [hreport, hbefore] at hlines
  have hcancelled := List.append_cancel_right (List.append_cancel_right (List.append_cancel_right hlines))
  exact List.append_cancel_left hcancelled

end Report

end DecompilerDesk
