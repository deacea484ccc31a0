-- SUMMARY: Sections that arrive replace those with their starts and stand behind the others, one for each start in the order of first arrival, as told last.
import DecompilerDesk.Proofs.Desk.Selection
import Mathlib.Data.List.Induction

/-!
# Merging

A batch of sections may tell about one start several times. What it tells last counts, and the start
keeps the place at which the batch named it first.
-/

namespace DecompilerDesk

namespace Session

/-- A section that a batch tells about, with no later one of the same start. -/
def Latest (incoming : List Section) (s : Section) : Prop :=
  ∃ before after, incoming = before ++ s :: after ∧ ∀ later ∈ after, later.start ≠ s.start

section Batch

variable {incoming : List Section} {s last : Section}

theorem latest_concat_self (incoming : List Section) (last : Section) :
    Latest (incoming ++ [last]) last :=
  ⟨incoming, [], rfl, List.forall_mem_nil _⟩

theorem Latest.concat (h : Latest incoming s) (hother : s.start ≠ last.start) :
    Latest (incoming ++ [last]) s := by
  obtain ⟨before, after, rfl, hafter⟩ := h
  refine ⟨before, after ++ [last], by rw [List.append_assoc, List.cons_append], fun later hlater => ?_⟩
  rcases List.mem_append.mp hlater with hin | hlast
  · exact hafter later hin
  · rw [List.mem_singleton.mp hlast]
    exact hother.symm

end Batch

/-! ## What a batch comes to -/

theorem mem_place_self (new : KnownSection) (fresh : List KnownSection) : new ∈ place new fresh := by
  induction fresh with
  | nil => exact List.mem_singleton_self new
  | cons known rest ih =>
    rw [place]
    split
    · exact List.mem_cons_self
    · exact List.mem_cons_of_mem _ ih

/-- Where no start occurs twice, a section that is put in leaves no other one with its start. -/
theorem eq_or_of_mem_place {new s : KnownSection} {fresh : List KnownSection}
    (hfresh : (starts fresh).Nodup) (h : s ∈ place new fresh) :
    s = new ∨ s ∈ fresh ∧ s.start ≠ new.start := by
  by_cases hsame : s.start = new.start
  · exact .inl (List.inj_on_of_nodup_map (nodup_starts_place new hfresh) h (mem_place_self new fresh) hsame)
  · exact (mem_place h).imp_right (⟨·, hsame⟩)

theorem arrive_concat (incoming : List Section) (last : Section) :
    (incoming ++ [last]).foldl arrive [] = place (.ofSection last) (incoming.foldl arrive []) :=
  List.foldl_concat ..

theorem eraseDups_concat (addresses : List Address) (last : Address) :
    (addresses ++ [last]).eraseDups =
      if last ∈ addresses then addresses.eraseDups else addresses.eraseDups ++ [last] := by
  rw [List.eraseDups_append]
  split
  next hknown => simp [List.removeAll, hknown]
  next hnew => simp [List.removeAll, hnew, List.eraseDups_cons]

/-- The starts of a batch are kept in the order in which they arrive first. -/
theorem starts_arrive (incoming : List Section) :
    starts (incoming.foldl arrive []) = (incoming.map (·.start)).eraseDups := by
  induction incoming using List.reverseRecOn with
  | nil => rfl
  | append_singleton incoming last ih =>
    rw [arrive_concat, starts_place, ih, List.map_append]
    simp only [List.mem_eraseDups]
    exact (eraseDups_concat ..).symm

/-- What a batch comes to tells of each start what the batch told last. -/
theorem latest_of_mem_arrive {incoming : List Section} {s : KnownSection}
    (h : s ∈ incoming.foldl arrive []) : ∃ last, Latest incoming last ∧ s = .ofSection last := by
  induction incoming using List.reverseRecOn with
  | nil => cases h
  | append_singleton incoming last ih =>
    rw [arrive_concat] at h
    have hfresh : (starts (incoming.foldl arrive [])).Nodup :=
      nodup_starts_arrive incoming List.nodup_nil
    rcases eq_or_of_mem_place hfresh h with rfl | ⟨hbefore, hother⟩
    · exact ⟨last, latest_concat_self incoming last, rfl⟩
    · obtain ⟨earlier, hlatest, rfl⟩ := ih hbefore
      exact ⟨earlier, hlatest.concat hother, rfl⟩

theorem any_arrive_iff (incoming : List Section) (address : Address) :
    (incoming.foldl arrive []).any (·.start = address) ↔ address ∈ incoming.map (·.start) := by
  rw [← List.mem_eraseDups, ← starts_arrive, starts, List.mem_map, List.any_eq_true]
  simp only [decide_eq_true_eq]

/-! ## What a merge comes to -/

/-- What arrived takes the place of what was known under its starts. -/
theorem merge_eq (session : Session) (incoming : List Section) :
    session.merge incoming =
      { session with
        sections := session.sections.filter (·.start ∉ incoming.map (·.start)) ++
          incoming.foldl arrive [] } := by
  rw [merge, mergeInto]
  congr 2
  refine List.filter_congr fun old _ => ?_
  rw [Bool.eq_iff_iff, Bool.not_eq_true', Bool.eq_false_iff, ne_eq, any_arrive_iff, decide_eq_true_iff]

/-- Whatever is known and whatever arrives: the known sections whose starts did not arrive stay, in their
order, and behind them stands one section for each start that arrived, in the order in which the starts
arrived first, with what was told of it last and not selected. Nothing else of the session changes. -/
theorem merge_kept_then_arrived (session : Session) (incoming : List Section) :
    ∃ arrived,
      session.merge incoming =
        { session with
          sections := session.sections.filter (·.start ∉ incoming.map (·.start)) ++ arrived } ∧
      arrived.map (·.start) = (incoming.map (·.start)).eraseDups ∧
      ∀ s ∈ arrived, ∃ last, Latest incoming last ∧ s = ⟨last.start, last.stop, last.analyzed, false⟩ :=
  ⟨incoming.foldl arrive [], session.merge_eq incoming, starts_arrive incoming,
    fun _ => latest_of_mem_arrive⟩

end Session

end DecompilerDesk
