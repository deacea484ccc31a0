-- SUMMARY: After addresses were toggled one by one, the analyzed sections whose address occurs an odd number of times have the other selection, and nothing else has changed.
import DecompilerDesk.Proofs.Desk.LastTold
import Mathlib.Algebra.Ring.Parity

/-!
# Toggling

Toggling looks for the first section with an address. No start is known twice, so this is the only
one, and it does not matter in which order addresses are toggled: what counts is whether the address
of an analyzed section occurs an odd number of times.
-/

namespace DecompilerDesk

/-- The section after addresses were toggled. -/
def KnownSection.toggledBy (s : KnownSection) (addresses : List Address) : KnownSection :=
  if s.analyzed ∧ Odd (addresses.count s.start) then { s with selected := !s.selected } else s

namespace Session

/-- The section at an address is known and analyzed. -/
def Toggles (session : Session) (address : Address) : Prop :=
  ∃ s ∈ session.sections, s.start = address ∧ s.analyzed

instance (session : Session) (address : Address) : Decidable (session.Toggles address) :=
  inferInstanceAs (Decidable (∃ s ∈ session.sections, s.start = address ∧ s.analyzed))

/-- Toggle addresses one after the other: what each toggling answers, and the session after the last. -/
def toggleEach (session : Session) : List Address → List Bool × Session
  | [] => ([], session)
  | address :: rest =>
    let (answers, last) := (session.toggle address).toggleEach rest
    (session.canToggle address :: answers, last)

end Session

/-! ## One section -/

namespace KnownSection

variable (s : KnownSection) (addresses : List Address)

@[simp] theorem start_toggledBy : (s.toggledBy addresses).start = s.start := by
  rw [toggledBy]
  split <;> rfl

@[simp] theorem analyzed_toggledBy : (s.toggledBy addresses).analyzed = s.analyzed := by
  rw [toggledBy]
  split <;> rfl

theorem toggledBy_nil : s.toggledBy [] = s := if_neg (by simp)

/-- The parities of two lists of addresses add up. -/
theorem toggledBy_append (first second : List Address) :
    (s.toggledBy first).toggledBy second = s.toggledBy (first ++ second) := by
  have hparity : Odd ((first ++ second).count s.start) ↔
      (Odd (first.count s.start) ↔ ¬ Odd (second.count s.start)) := by
    rw [List.count_append, Nat.odd_add, Nat.not_odd_iff_even]
  rw [toggledBy, start_toggledBy, analyzed_toggledBy, toggledBy, toggledBy]
  simp only [hparity]
  obtain ⟨start, stop, analyzed, selected⟩ := s
  cases analyzed with
  | false => simp
  | true =>
    by_cases hfirst : Odd (first.count start) <;> by_cases hsecond : Odd (second.count start) <;>
      simp [hfirst, hsecond]

theorem toggledBy_perm {first second : List Address} (h : first.Perm second) :
    s.toggledBy first = s.toggledBy second := by
  rw [toggledBy, toggledBy, h.count_eq]

theorem toggledBy_twice : s.toggledBy (addresses ++ addresses) = s := by
  have heven : Even ((addresses ++ addresses).count s.start) := ⟨_, List.count_append⟩
  exact if_neg fun h => Nat.not_even_iff_odd.mpr h.2 heven

end KnownSection

/-! ## One toggling -/

namespace Session

variable {session : Session} {address : Address}

/-- Where no start occurs twice, at most one section is looked for by its start. -/
theorem flip_eq_map {sections : List KnownSection} (h : (starts sections).Nodup) (address : Address) :
    flip address sections = sections.map (·.toggledBy [address]) := by
  induction sections with
  | nil => rfl
  | cons known rest ih =>
    rw [starts, List.map_cons, List.nodup_cons] at h
    rw [flip, List.map_cons]
    split
    next hstart =>
      -- no later section has this start
      have hrest : rest.map (·.toggledBy [address]) = rest := by
        refine (List.map_congr_left fun other hother => ?_).trans (List.map_id _)
        have hother : other.start ≠ address := by
          rintro rfl
          exact h.1 (hstart ▸ List.mem_map_of_mem hother)
        simp [KnownSection.toggledBy, Ne.symm hother]
      rw [hrest]
      simp [KnownSection.toggledBy, hstart]
    next hstart =>
      have hknown : known.toggledBy [address] = known := by
        simp [KnownSection.toggledBy, Ne.symm hstart]
      rw [ih h.2, hknown]

theorem Tidy.toggle_eq (h : session.Tidy) (address : Address) :
    session.toggle address =
      { session with sections := session.sections.map (·.toggledBy [address]) } := by
  rw [Session.toggle, flip_eq_map h.starts]

/-- What toggling answers is whether the section at the address is known and analyzed. -/
theorem Tidy.canToggle_eq (h : session.Tidy) (address : Address) :
    session.canToggle address = decide (session.Toggles address) := by
  rw [Bool.eq_iff_iff, decide_eq_true_iff, Session.canToggle, Option.any_eq_true]
  constructor
  · rintro ⟨s, hfound, hanalyzed⟩
    have hstart : s.start = address := by simpa using List.find?_some hfound
    exact ⟨s, List.mem_of_find?_eq_some hfound, hstart, hanalyzed⟩
  · rintro ⟨s, hs, rfl, hanalyzed⟩
    exact ⟨s, (h.mem_iff_sectionAt? s).mp hs, hanalyzed⟩

/-! ## Many togglings -/

/-- The session with all its sections as some togglings leave them. -/
def toggledBy (session : Session) (addresses : List Address) : Session :=
  { session with sections := session.sections.map (·.toggledBy addresses) }

theorem toggledBy_nil (session : Session) : session.toggledBy [] = session := by
  simp [toggledBy, KnownSection.toggledBy_nil]

theorem toggles_toggledBy_iff (session : Session) (addresses : List Address) (address : Address) :
    (session.toggledBy addresses).Toggles address ↔ session.Toggles address := by
  simp [Toggles, toggledBy]

theorem toggledBy_append (session : Session) (first second : List Address) :
    (session.toggledBy first).toggledBy second = session.toggledBy (first ++ second) := by
  simp [toggledBy, KnownSection.toggledBy_append]

theorem Tidy.toggledBy (h : session.Tidy) (addresses : List Address) :
    (session.toggledBy addresses).Tidy where
  starts := by
    have hsame : Session.starts (session.toggledBy addresses).sections =
        Session.starts session.sections := by
      simp [Session.toggledBy, Session.starts]
    exact hsame ▸ h.starts
  analyzed s hs hselected := by
    obtain ⟨known, hknown, rfl⟩ := List.mem_map.mp hs
    rw [KnownSection.analyzed_toggledBy]
    by_cases hflipped : known.analyzed ∧ Odd (addresses.count known.start)
    · exact hflipped.1
    · rw [KnownSection.toggledBy, if_neg hflipped] at hselected
      exact h.analyzed known hknown hselected

theorem toggledBy_twice (session : Session) (addresses : List Address) :
    (session.toggledBy addresses).toggledBy addresses = session := by
  rw [toggledBy_append]
  simp [toggledBy, KnownSection.toggledBy_twice]

/-- Each toggling answers what it would have answered at first, and leaves its parity behind. -/
theorem Tidy.toggleEach_eq (h : session.Tidy) (addresses : List Address) :
    session.toggleEach addresses =
      (addresses.map fun address => decide (session.Toggles address), session.toggledBy addresses) := by
  induction addresses generalizing session with
  | nil => rw [toggledBy_nil, List.map_nil, Session.toggleEach]
  | cons address rest ih =>
    have hone : session.toggle address = session.toggledBy [address] := h.toggle_eq address
    rw [Session.toggleEach, ih (h.toggle address), hone, toggledBy_append, h.canToggle_eq]
    simp only [toggles_toggledBy_iff, List.map_cons, List.singleton_append]

/-- In a session that comes about, each of some addresses toggled one after the other is answered with
whether a section at this address is known and analyzed. Afterwards the sections are the same in the same
order, but the analyzed ones whose address was toggled an odd number of times have the other selection;
so the order of the addresses does not matter, and to toggle them all twice leaves the session as it was. -/
theorem toggled_by_parity {session : Session} (h : session.Obtained) (addresses : List Address) :
    session.toggleEach addresses =
      (addresses.map fun address => decide (∃ s ∈ session.sections, s.start = address ∧ s.analyzed),
        { session with
          sections := session.sections.map fun s =>
            if s.analyzed ∧ Odd (addresses.count s.start) then { s with selected := !s.selected }
            else s }) ∧
    (∀ reordered, addresses.Perm reordered →
      (session.toggleEach reordered).2 = (session.toggleEach addresses).2) ∧
    ((session.toggleEach addresses).2.toggleEach addresses).2 = session := by
  have htidy := h.tidy
  refine ⟨htidy.toggleEach_eq addresses, fun reordered hperm => ?_, ?_⟩
  · simp only [htidy.toggleEach_eq, toggledBy, KnownSection.toggledBy_perm _ hperm]
  · rw [htidy.toggleEach_eq, (htidy.toggledBy addresses).toggleEach_eq, toggledBy_twice]

/-- Three sections, of which one is selected and one not analyzed. The section at `48` is toggled three
times, the selected one twice. -/
theorem toggled_by_parity_of_mixed_sections :
    let session := (({} : Session).merge [⟨16, none, true⟩, ⟨32, some 40, false⟩]).selectAll.merge
      [⟨48, none, true⟩]
    let addresses : List Address := [48, 16, 32, 48, 64, 16, 48]
    session.Obtained ∧
      session.toggleEach addresses =
        ([true, true, false, true, false, true, true],
          { session with
            sections := [⟨16, none, true, true⟩, ⟨32, some 40, false, false⟩, ⟨48, none, true, true⟩] }) ∧
      ((session.toggleEach addresses).2.toggleEach addresses).2 = session := by
  intro session addresses
  have hobtained : session.Obtained := .merge _ (.selectAll (.merge _ .empty))
  obtain ⟨heach, -, htwice⟩ := toggled_by_parity hobtained addresses
  exact ⟨hobtained, heach.trans (by decide), htwice⟩

end Session

end DecompilerDesk
