-- SUMMARY: Trimming leaves the one part of a text that has blanks around it and none at its ends.
import DecompilerDesk.Text.Blank
import Mathlib.Data.List.DropRight

/-!
# Trimming

Of a text that stands between blanks, trimming leaves what does not itself begin or end with one.
-/

namespace DecompilerDesk.Text

/-- The core of a text: nothing but blanks around it, and no blank at its ends. -/
structure Trimmed (text core : List Char) : Prop where
  between : ∃ before after, text = before ++ core ++ after ∧
    (∀ c ∈ before, isBlank c = true) ∧ ∀ c ∈ after, isBlank c = true
  first : ∀ c ∈ core.head?, isBlank c = false
  last : ∀ c ∈ core.getLast?, isBlank c = false

/-- The blanks in front are all that is dropped before something that does not begin with one. -/
theorem dropWhile_isBlank_append {before rest : List Char} (hbefore : ∀ c ∈ before, isBlank c = true)
    (hrest : ∀ c ∈ rest.head?, isBlank c = false) : (before ++ rest).dropWhile isBlank = rest := by
  rw [List.dropWhile_append_of_pos hbefore]
  cases rest with
  | nil => rfl
  | cons c rest => rw [List.dropWhile_cons_of_neg (by simp [hrest c rfl])]

theorem Trimmed.trim_eq {text core : List Char} (h : Trimmed text core) : trim text = core := by
  obtain ⟨⟨before, after, rfl, hbefore, hafter⟩, hfirst, hlast⟩ := h
  by_cases hempty : core = []
  · subst hempty
    have hblank : ∀ c ∈ before ++ after, isBlank c = true := by
      intro c hc
      exact (List.mem_append.mp hc).elim (hbefore c) (hafter c)
    rw [trim, List.append_nil, List.dropWhile_eq_nil_iff.mpr hblank]
    rfl
  · have hfront : (before ++ core ++ after).dropWhile isBlank = core ++ after := by
      rw [List.append_assoc]
      refine dropWhile_isBlank_append hbefore ?_
      rwa [List.head?_append_of_ne_nil _ hempty]
    have hback : (core ++ after).reverse.dropWhile isBlank = core.reverse := by
      rw [List.reverse_append]
      refine dropWhile_isBlank_append ?_ ?_
      · intro c hc
        exact hafter c (List.mem_reverse.mp hc)
      · rwa [List.head?_reverse]
    rw [trim, hfront, hback, List.reverse_reverse]

theorem trimmed_trim (text : List Char) : Trimmed text (trim text) := by
  -- what is left once the blanks in front are dropped begins with no blank, and so does its front
  obtain ⟨middle, hmiddle⟩ : ∃ middle, middle = text.dropWhile isBlank := ⟨_, rfl⟩
  have hcore : trim text = middle.rdropWhile isBlank := by
    rw [hmiddle]
    rfl
  have hparts : text = text.takeWhile isBlank ++ trim text ++ middle.rtakeWhile isBlank := by
    rw [List.append_assoc, hcore, List.rdropWhile_append_rtakeWhile, hmiddle,
      List.takeWhile_append_dropWhile]
  refine ⟨⟨_, _, hparts, fun c => List.mem_takeWhile_imp, fun c => List.mem_rtakeWhile_imp⟩, ?_, ?_⟩
  · intro c hc
    have hnot := List.head?_dropWhile_not isBlank text
    have hhead : middle.head? = some c := by
      obtain ⟨rest, hrest⟩ := List.rdropWhile_prefix isBlank middle
      rw [← hrest, ← hcore, List.head?_append, Option.mem_def.mp hc]
      rfl
    rw [hmiddle] at hhead
    rwa [hhead] at hnot
  · intro c hc
    rw [hcore] at hc
    have hne : middle.rdropWhile isBlank ≠ [] := by
      rintro hnil
      rw [hnil] at hc
      cases hc
    have hnot := List.rdropWhile_last_not isBlank middle hne
    rw [Option.mem_def, List.getLast?_eq_some_getLast hne, Option.some.injEq] at hc
    rw [hc] at hnot
    exact Bool.eq_false_iff.mpr hnot

/-- Trimming leaves something of a text with a character that is no blank. -/
theorem trim_ne_nil {text : List Char} (h : ∃ c ∈ text, isBlank c = false) : trim text ≠ [] := by
  obtain ⟨c, hc, hblank⟩ := h
  intro hnil
  obtain ⟨⟨before, after, htext, hbefore, hafter⟩, -, -⟩ := trimmed_trim text
  rw [hnil, List.append_nil] at htext
  rw [htext, List.mem_append] at hc
  have hall : isBlank c = true := hc.elim (hbefore c) (hafter c)
  rw [hall] at hblank
  cases hblank

end DecompilerDesk.Text
