-- SUMMARY: The lines of a byte string, and request lines among them.
import DecompilerDesk.Engine.Link
import DecompilerDesk.Proofs.Json.OneLine

/-!
# Lines of bytes

A byte string falls into lines, each up to a line end and with it, the last one perhaps without. A
whole line keeps its number when more is written behind it.
-/

namespace DecompilerDesk

namespace Bytes

/-- The lines of a byte string, with their line ends. -/
def lines : Bytes → List Bytes
  | [] => []
  | byte :: rest =>
    if byte = lineEnd then [byte] :: lines rest
    else
      match lines rest with
      | [] => [[byte]]
      | line :: more => (byte :: line) :: more

/-- A line whose only line end is its last byte. -/
def IsLine (line : Bytes) : Prop := ∃ body, line = body ++ [lineEnd] ∧ lineEnd ∉ body

/-! ## Splitting -/

theorem lines_line_append {line : Bytes} (h : IsLine line) (rest : Bytes) :
    lines (line ++ rest) = line :: lines rest := by
  obtain ⟨body, rfl, hbody⟩ := h
  induction body with
  | nil => simp [lines]
  | cons byte body ih =>
    have hbyte : byte ≠ lineEnd := by
      rintro rfl
      exact hbody List.mem_cons_self
    have hbody' : lineEnd ∉ body := by
      intro hmem
      exact hbody (List.mem_cons_of_mem _ hmem)
    have ih := ih hbody'
    simp only [List.cons_append, lines, hbyte, if_false, ih]

theorem lines_flatten_append {ls : List Bytes} (h : ∀ line ∈ ls, IsLine line) (rest : Bytes) :
    lines (ls.flatten ++ rest) = ls ++ lines rest := by
  induction ls with
  | nil => rfl
  | cons line ls ih =>
    have hline := h line List.mem_cons_self
    have hls : ∀ other ∈ ls, IsLine other := by
      intro other hmem
      exact h other (List.mem_cons_of_mem _ hmem)
    rw [List.flatten_cons, List.append_assoc, lines_line_append hline, ih hls, List.cons_append]

/-- Bytes without a line end are one line, or none. -/
theorem lines_of_not_mem {bytes : Bytes} (h : lineEnd ∉ bytes) (hne : bytes ≠ []) :
    lines bytes = [bytes] := by
  induction bytes with
  | nil => exact absurd rfl hne
  | cons byte rest ih =>
    have hbyte : byte ≠ lineEnd := by
      rintro rfl
      exact h List.mem_cons_self
    have hrest : lineEnd ∉ rest := by
      intro hmem
      exact h (List.mem_cons_of_mem _ hmem)
    cases rest with
    | nil => simp [lines, hbyte]
    | cons next rest =>
      have ih := ih hrest (List.cons_ne_nil _ _)
      rw [lines, if_neg hbyte, ih]

/-! ## The first line -/

/-- Bytes begin with a whole line, or are one line that is not whole. -/
theorem firstLine_cases (bytes : Bytes) :
    (∃ rest, bytes = Engine.firstLine bytes ++ rest ∧ IsLine (Engine.firstLine bytes)) ∨
      (Engine.firstLine bytes = bytes ∧ lineEnd ∉ bytes) := by
  induction bytes with
  | nil => exact .inr ⟨rfl, List.not_mem_nil⟩
  | cons byte rest ih =>
    by_cases hbyte : byte = lineEnd
    · subst hbyte
      exact .inl ⟨rest, by simp [Engine.firstLine], [], by simp [Engine.firstLine], List.not_mem_nil⟩
    · simp only [Engine.firstLine, hbyte, if_false]
      rcases ih with ⟨after, hafter, body, hline, hbody⟩ | ⟨hfirst, hnone⟩
      · refine .inl ⟨after, by rw [List.cons_append, ← hafter], byte :: body, ?_, ?_⟩
        · rw [hline, List.cons_append]
        · simp [hbody, Ne.symm hbyte]
      · exact .inr ⟨by rw [hfirst], by simp [hnone, Ne.symm hbyte]⟩

theorem firstLine_eq (bytes : Bytes) :
    Engine.firstLine bytes = (lines bytes)[0]?.getD [] := by
  rcases firstLine_cases bytes with ⟨rest, hrest, hline⟩ | ⟨hfirst, hnone⟩
  · rw [hrest, lines_line_append (hrest ▸ hline)]
    simpa using hrest ▸ rfl
  · rw [hfirst]
    by_cases hnil : bytes = []
    · simp [hnil, lines]
    · simp [lines_of_not_mem hnone hnil]

theorem getLast?_of_isLine {line : Bytes} (h : IsLine line) : line.getLast? = some lineEnd := by
  obtain ⟨body, rfl, -⟩ := h
  simp

theorem isLine_of_cons {byte : UInt8} {line : Bytes} (h : IsLine (byte :: line))
    (hbyte : byte ≠ lineEnd) : IsLine line := by
  obtain ⟨body, hbody, hnone⟩ := h
  cases body with
  | nil => exact absurd (List.cons.inj hbody).1 hbyte
  | cons first body =>
    exact ⟨body, (List.cons.inj hbody).2, fun hmem => hnone (List.mem_cons_of_mem _ hmem)⟩

/-! ## Writing more -/

/-- A whole line keeps its number when more is written. -/
theorem lines_getElem?_append {bytes : Bytes} {n : Nat} {line : Bytes}
    (h : (lines bytes)[n]? = some line) (hline : IsLine line) (more : Bytes) :
    (lines (bytes ++ more))[n]? = some line := by
  induction bytes generalizing n line with
  | nil => simp [lines] at h
  | cons byte rest ih =>
    rw [List.cons_append]
    by_cases hbyte : byte = lineEnd
    · simp only [lines, hbyte, if_true] at h ⊢
      cases n with
      | zero => exact h
      | succ n => exact ih h hline
    · simp only [lines, hbyte, if_false] at h ⊢
      cases hrest : lines rest with
      | nil =>
        -- the byte alone would be a line that is not whole
        simp only [hrest] at h
        obtain rfl : line = [byte] := List.mem_singleton.mp (List.mem_of_getElem? h)
        exact absurd (getLast?_of_isLine hline) (by simpa using hbyte)
      | cons first others =>
        simp only [hrest] at h ih
        cases n with
        | zero =>
          obtain rfl : byte :: first = line := by simpa using h
          have hfirst := ih (n := 0) rfl (isLine_of_cons hline hbyte)
          cases hmore : lines (rest ++ more) with
          | nil => simp [hmore] at hfirst
          | cons other _ =>
            rw [hmore] at hfirst
            obtain rfl : other = first := by simpa using hfirst
            rfl
        | succ n =>
          have hother := ih (n := n + 1) h hline
          cases hmore : lines (rest ++ more) with
          | nil => simp [hmore] at hother
          | cons other _ => simpa [hmore] using hother

end Bytes

/-! ## Request lines -/

theorem lineEnd_ne_ofNat {n : Nat} (hlow : 128 ≤ n) (hhigh : n < 256) :
    lineEnd ≠ UInt8.ofNat n := by
  intro heq
  have hn : 10 = (UInt8.ofNat n).toNat := congrArg UInt8.toNat heq
  rw [UInt8.toNat_ofNat_of_lt' hhigh] at hn
  omega

/-- UTF-8 has the byte of a line end for a line end alone. -/
theorem eq_newline_of_lineEnd_mem {c : Char} (h : lineEnd ∈ String.utf8EncodeChar c) : c = '\n' := by
  simp only [String.utf8EncodeChar] at h
  split at h
  next hascii =>
    have hsize : c.val.toNat < UInt8.size := Nat.lt_of_le_of_lt hascii (by decide)
    have hn : 10 = (UInt8.ofNat c.val.toNat).toNat :=
      congrArg UInt8.toNat (List.mem_singleton.mp h)
    rw [UInt8.toNat_ofNat_of_lt' hsize] at hn
    exact Char.toNat_inj.mp hn.symm
  next =>
    -- every byte of a longer form has its highest bit set
    exfalso
    split at h
    · simp (disch := omega) only [List.mem_cons, List.not_mem_nil, lineEnd_ne_ofNat, or_self] at h
    · split at h
      · simp (disch := omega) only [List.mem_cons, List.not_mem_nil, lineEnd_ne_ofNat, or_self] at h
      · simp (disch := omega) only [List.mem_cons, List.not_mem_nil, lineEnd_ne_ofNat, or_self] at h

/-- A JSON value in compact form is one line. -/
theorem Json.isLine_compact (json : Json) : (Bytes.ofText (json.compact ++ "\n")).IsLine := by
  refine ⟨Bytes.ofText json.compact, ?_, ?_⟩
  · simp [Bytes.ofText, String.utf8EncodeChar, lineEnd]
  · intro hmem
    obtain ⟨c, hc, hbyte⟩ := List.mem_flatMap.mp hmem
    exact newline_not_mem_compact json (eq_newline_of_lineEnd_mem hbyte ▸ hc)

theorem RequestLine.isLine_text (line : RequestLine) : (Bytes.ofText line.text).IsLine :=
  line.toJson.isLine_compact

end DecompilerDesk
