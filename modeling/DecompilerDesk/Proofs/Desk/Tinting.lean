-- SUMMARY: What is on show has the tints of its own instructions, each by its index, whatever was shown before.
import DecompilerDesk.Proofs.Desk.Selection

/-!
# Tinting

The tints of a decompilation are gathered from its instructions, one after the other, into a list
ascending by index. An index that occurs again finds its tint there, so what is gathered depends on
which indices occur and on nothing else. A session shows a decompilation only with tints that were
gathered from it.
-/

namespace DecompilerDesk

theorem Tint.palette_ofIndex (index : UInt64) :
    palette[index.toNat % 10]? = some (ofIndex index) :=
  List.getElem?_eq_getElem (Nat.mod_lt index.toNat (by decide : 0 < palette.length))

namespace Tinted

/-! ## Gathering tints -/

/-- A list of tints by index: ascending, each index with its own tint. -/
structure Orderly (tints : List (UInt64 × Tint)) : Prop where
  ascending : tints.Pairwise (·.1 < ·.1)
  own : ∀ entry ∈ tints, entry.2 = .ofIndex entry.1

variable {tints : List (UInt64 × Tint)}

theorem mem_insert {entry : UInt64 × Tint} {index : UInt64} (h : entry ∈ insert index tints) :
    entry = (index, .ofIndex index) ∨ entry ∈ tints := by
  induction tints with
  | nil => exact .inl (List.mem_singleton.mp h)
  | cons first rest ih =>
    rw [insert] at h
    split at h
    · exact List.mem_cons.mp h
    · split at h
      · exact .inr h
      · rcases List.mem_cons.mp h with rfl | hrest
        · exact .inr List.mem_cons_self
        · exact (ih hrest).imp_right (List.mem_cons_of_mem _)

/-- An index that is put among others is there, and they stay. -/
theorem mem_indices_insert {index other : UInt64} :
    other ∈ (insert index tints).map (·.1) ↔ other = index ∨ other ∈ tints.map (·.1) := by
  induction tints with
  | nil => simp [insert]
  | cons first rest ih =>
    rw [insert]
    split
    · simp
    · split
      next hsame => simp [hsame]
      next => rw [List.map_cons, List.mem_cons, ih, List.map_cons, List.mem_cons, or_left_comm]

theorem Orderly.insert (h : Orderly tints) (index : UInt64) : Orderly (insert index tints) where
  ascending := by
    induction tints with
    | nil => exact List.pairwise_singleton _ _
    | cons first rest ih =>
      obtain ⟨hfirst, hrest⟩ := List.pairwise_cons.mp h.ascending
      rw [Tinted.insert]
      split
      next hbefore =>
        refine List.pairwise_cons.mpr ⟨fun entry hentry => ?_, h.ascending⟩
        rcases List.mem_cons.mp hentry with rfl | hlater
        · exact hbefore
        · exact UInt64.lt_trans hbefore (hfirst entry hlater)
      next hnotBefore =>
        split
        · exact h.ascending
        next hother =>
          have hrest : Orderly rest := ⟨hrest, fun entry hentry =>
            h.own entry (List.mem_cons_of_mem _ hentry)⟩
          refine List.pairwise_cons.mpr ⟨fun entry hentry => ?_, ih hrest⟩
          rcases mem_insert hentry with rfl | hlater
          · exact UInt64.lt_of_le_of_ne (UInt64.not_lt.mp hnotBefore) (Ne.symm hother)
          · exact hfirst entry hlater
  own entry hentry := by
    rcases mem_insert hentry with rfl | hold
    · rfl
    · exact h.own entry hold

/-- Whatever instructions are gathered, in whatever order, the list stays orderly. -/
theorem Orderly.gather (h : Orderly tints) (assembly : List Instruction) :
    Orderly (assembly.foldl (fun tints i => Tinted.insert i.index tints) tints) := by
  induction assembly generalizing tints with
  | nil => exact h
  | cons i rest ih => exact ih (h.insert i.index)

theorem mem_indices_gather (assembly : List Instruction) (index : UInt64) :
    index ∈ (assembly.foldl (fun tints i => insert i.index tints) tints).map (·.1) ↔
      (∃ i ∈ assembly, i.index = index) ∨ index ∈ tints.map (·.1) := by
  induction assembly generalizing tints with
  | nil => simp
  | cons i rest ih =>
    rw [List.foldl_cons, ih, mem_indices_insert, List.exists_mem_cons_iff, eq_comm (a := index),
      or_assoc, or_left_comm]

/-! ## The tints of a decompilation -/

theorem orderly_ofDecompilation (findings : Decompilation) :
    Orderly (ofDecompilation findings).tints :=
  Orderly.gather ⟨.nil, List.forall_mem_nil _⟩ findings.assembly

/-- An index is in the list of tints if an instruction has it, and then with its own tint. -/
theorem mem_tints_iff (findings : Decompilation) (index : UInt64) (tint : Tint) :
    (index, tint) ∈ (ofDecompilation findings).tints ↔
      (∃ i ∈ findings.assembly, i.index = index) ∧ tint = .ofIndex index := by
  have hindices : index ∈ (ofDecompilation findings).tints.map (·.1) ↔ _ :=
    mem_indices_gather findings.assembly index
  simp only [List.map_nil, List.not_mem_nil, or_false] at hindices
  have hown := (orderly_ofDecompilation findings).own
  rw [← hindices]
  constructor
  · intro hentry
    exact ⟨List.mem_map_of_mem hentry, hown _ hentry⟩
  · rintro ⟨hindex, rfl⟩
    obtain ⟨entry, hentry, rfl⟩ := List.mem_map.mp hindex
    exact hown entry hentry ▸ hentry

theorem tint?_ofDecompilation (findings : Decompilation) (index : UInt64) :
    (ofDecompilation findings).tint? index =
      if ∃ i ∈ findings.assembly, i.index = index then some (.ofIndex index) else none := by
  have htints := mem_tints_iff findings
  rw [tint?]
  cases hfound : (ofDecompilation findings).tints.find? (·.1 = index) with
  | none =>
    refine (if_neg fun hindex => ?_).symm
    have hnone := List.find?_eq_none.mp hfound _ ((htints index _).mpr ⟨hindex, rfl⟩)
    exact hnone (decide_eq_true rfl)
  | some entry =>
    obtain ⟨other, tint⟩ := entry
    obtain rfl : other = index := by simpa using List.find?_some hfound
    obtain ⟨hindex, rfl⟩ := (htints other tint).mp (List.mem_of_find?_eq_some hfound)
    rw [if_pos hindex, Option.map_some]

end Tinted

namespace Session

variable {session : Session} {shown : Tinted}

/-! ## What is on show -/

/-- Whatever changes a session, what it shows is a decompilation with the tints gathered from it. -/
theorem Obtained.shown_eq (h : session.Obtained) (hshown : session.shown = some shown) :
    shown = .ofDecompilation shown.findings := by
  induction h with
  | empty => cases hshown
  | reset => cases hshown
  | present findings =>
    obtain rfl := Option.some.inj hshown
    rfl
  | finishDecompilation ticket findings _ ih =>
    rw [Session.finishDecompilation] at hshown
    split at hshown
    · obtain rfl := Option.some.inj hshown
      rfl
    · exact ih hshown
  | merge _ _ ih | toggle _ _ ih | selectAll _ ih | beginDecompilation _ ih | hover _ _ ih
  | entryText _ _ ih | lowerings _ _ ih => exact ih hshown

/-- In a session that comes about, whatever it showed before, the tints of what is on show are a map
from exactly the indices of its own instructions to their places in the palette. So a lifted line whose
instruction is listed has the tint of that instruction, and an index that only an earlier decompilation
had has none. -/
theorem tints_match_shown (h : session.Obtained) (hshown : session.shown = some shown) :
    shown.tints.Pairwise (·.1 < ·.1) ∧
      (∀ index tint, (index, tint) ∈ shown.tints ↔
        (∃ i ∈ shown.findings.assembly, i.index = index) ∧
          Tint.palette[index.toNat % 10]? = some tint) ∧
      (∀ index, shown.tint? index =
        if ∃ i ∈ shown.findings.assembly, i.index = index then Tint.palette[index.toNat % 10]?
        else none) ∧
      ∀ line ∈ shown.findings.lifted, ∀ i ∈ shown.findings.assembly, i.index = line.source →
        ∃ tint, shown.tint? i.index = some tint ∧ shown.tint? line.source = some tint := by
  rw [h.shown_eq hshown]
  generalize shown.findings = findings
  simp only [Tint.palette_ofIndex, Option.some.injEq, eq_comm (a := Tint.ofIndex _)]
  refine ⟨(Tinted.orderly_ofDecompilation findings).ascending, Tinted.mem_tints_iff findings,
    Tinted.tint?_ofDecompilation findings, ?_⟩
  rintro line - i hi hsource
  have htint : (Tinted.ofDecompilation findings).tint? i.index = some (.ofIndex i.index) := by
    rw [Tinted.tint?_ofDecompilation, if_pos ⟨i, hi, rfl⟩]
  exact ⟨_, htint, hsource ▸ htint⟩

/-- One decompilation is replaced by another, whose indices are repeated, far apart and in disorder.
An answer that is too late changes nothing. -/
theorem tints_match_shown_of_replaced :
    let found (indices : List UInt64) : Decompilation :=
      ⟨indices.map (⟨·, 16, "ret"⟩), indices.map (⟨·, "pc = 0"⟩), ""⟩
    let first := (({} : Session).present (found [1, 2, 3])).beginDecompilation.2
    let session := (first.finishDecompilation ⟨1⟩ (found [18446744073709551615, 3, 11, 3]))
      |>.finishDecompilation ⟨0⟩ (found [2])
    session.Obtained ∧ ∃ shown, session.shown = some shown ∧
      shown.tints.map (·.1) = [3, 11, 18446744073709551615] ∧
      shown.tint? 2 = none ∧ shown.tint? 11 = Tint.palette[1]? ∧
      ∀ line ∈ shown.findings.lifted, (shown.tint? line.source).isSome := by
  intro found first session
  have hobtained : session.Obtained :=
    .finishDecompilation _ _ (.finishDecompilation _ _ (.beginDecompilation (.present _ .empty)))
  obtain ⟨shown, hshown, hlast⟩ : ∃ shown, session.shown = some shown ∧
      shown = .ofDecompilation (found [18446744073709551615, 3, 11, 3]) := ⟨_, rfl, rfl⟩
  obtain ⟨-, -, htint, hlines⟩ := tints_match_shown hobtained hshown
  have hlisted : ∀ line ∈ shown.findings.lifted,
      ∃ i ∈ shown.findings.assembly, i.index = line.source := by
    subst hlast
    decide
  refine ⟨hobtained, shown, hshown, ?_, ?_, ?_, fun line hline => ?_⟩
  · subst hlast
    decide
  · rw [htint]
    subst hlast
    decide
  · rw [htint]
    subst hlast
    decide
  · obtain ⟨i, hi, hsource⟩ := hlisted line hline
    obtain ⟨tint, -, hline⟩ := hlines line hline i hi hsource
    rw [hline, Option.isSome_some]

end Session

end DecompilerDesk
