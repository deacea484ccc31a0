-- SUMMARY: Known sections have distinct starts and only analyzed ones are selected, so the engine is asked for analyzed sections, each once.
import DecompilerDesk.Proofs.Desk.Effects
import Mathlib.Data.List.Nodup

/-!
# Selection

A section is known by its start. Sections that arrive take the place of those with the same start,
and they arrive unselected; a section is selected only while it is analyzed. So the starts in a
request for a decompilation are those of analyzed sections, in their order, and none occurs twice.
-/

namespace DecompilerDesk

namespace Session

/-! ## Sections that arrive -/

def starts (sections : List KnownSection) : List Address := sections.map (·.start)

theorem mem_place {new s : KnownSection} {fresh : List KnownSection} (h : s ∈ place new fresh) :
    s = new ∨ s ∈ fresh := by
  induction fresh with
  | nil => exact .inl (List.mem_singleton.mp h)
  | cons known rest ih =>
    rw [place] at h
    split at h
    · rcases List.mem_cons.mp h with rfl | hrest
      · exact .inl rfl
      · exact .inr (List.mem_cons_of_mem _ hrest)
    · rcases List.mem_cons.mp h with rfl | hrest
      · exact .inr List.mem_cons_self
      · exact (ih hrest).imp_right (List.mem_cons_of_mem _)

/-- A section that is put among others adds its start behind theirs, unless it is there. -/
theorem starts_place (new : KnownSection) (fresh : List KnownSection) :
    starts (place new fresh) =
      if new.start ∈ starts fresh then starts fresh else starts fresh ++ [new.start] := by
  induction fresh with
  | nil => rfl
  | cons known rest ih =>
    rw [place]
    by_cases hsame : known.start = new.start
    · simp [starts, hsame]
    · simp only [starts] at ih
      by_cases hnew : new.start ∈ rest.map (·.start)
      · simp [starts, hsame, ih, hnew]
      · simp [starts, hsame, Ne.symm hsame, ih, hnew]

theorem nodup_starts_place {fresh : List KnownSection} (new : KnownSection)
    (h : (starts fresh).Nodup) : (starts (place new fresh)).Nodup := by
  rw [starts_place]
  split
  · exact h
  next hnew => exact List.nodup_append.mpr ⟨h, by simp, by simpa using fun a ha => ne_of_mem_of_not_mem ha hnew⟩

theorem nodup_starts_arrive (incoming : List Section) {fresh : List KnownSection}
    (h : (starts fresh).Nodup) : (starts (incoming.foldl arrive fresh)).Nodup := by
  induction incoming generalizing fresh with
  | nil => exact h
  | cons arriving rest ih => exact ih (nodup_starts_place _ h)

theorem mem_arrive {incoming : List Section} {fresh : List KnownSection} {s : KnownSection}
    (h : s ∈ incoming.foldl arrive fresh) :
    s ∈ fresh ∨ ∃ arriving ∈ incoming, s = .ofSection arriving := by
  induction incoming generalizing fresh with
  | nil => exact .inl h
  | cons arriving rest ih =>
    rcases ih h with hplaced | ⟨later, hlater, heq⟩
    · rcases mem_place hplaced with rfl | hold
      · exact .inr ⟨arriving, List.mem_cons_self, rfl⟩
      · exact .inl hold
    · exact .inr ⟨later, List.mem_cons_of_mem _ hlater, heq⟩

/-- After sections arrived, a known section was known before or is one of them. -/
theorem mem_mergeInto {known : List KnownSection} {incoming : List Section} {s : KnownSection}
    (h : s ∈ mergeInto known incoming) :
    s ∈ known ∨ ∃ arriving ∈ incoming, s = .ofSection arriving := by
  rcases List.mem_append.mp h with hkept | hnew
  · exact .inl (List.mem_filter.mp hkept).1
  · exact (mem_arrive hnew).imp_left (absurd · List.not_mem_nil)

/-! ## Tidy sessions -/

/-- No start is known twice, and no section is selected that is not analyzed. -/
structure Tidy (session : Session) : Prop where
  starts : (starts session.sections).Nodup
  analyzed : ∀ s ∈ session.sections, s.selected → s.analyzed

variable {session : Session}

theorem Tidy.merge (h : session.Tidy) (incoming : List Section) : (session.merge incoming).Tidy where
  starts := by
    have hfresh : (Session.starts (incoming.foldl arrive [])).Nodup :=
      nodup_starts_arrive incoming List.nodup_nil
    simp only [Session.merge, mergeInto]
    generalize incoming.foldl arrive [] = fresh at hfresh
    simp only [Session.starts, List.map_append]
    refine List.nodup_append.mpr ⟨h.starts.sublist (List.filter_sublist.map _), hfresh, ?_⟩
    rintro start hkept _ hnew rfl
    obtain ⟨old, hold, rfl⟩ := List.mem_map.mp hkept
    obtain ⟨new, hnew, hsame⟩ := List.mem_map.mp hnew
    have hgone := (List.mem_filter.mp hold).2
    simp only [Bool.not_eq_true', List.any_eq_false, decide_eq_true_eq] at hgone
    exact hgone new hnew hsame
  analyzed s hs hselected := by
    rcases mem_mergeInto hs with hold | ⟨arriving, -, rfl⟩
    · exact h.analyzed s hold hselected
    · cases hselected

theorem starts_flip (address : Address) (sections : List KnownSection) :
    starts (flip address sections) = starts sections := by
  induction sections with
  | nil => rfl
  | cons known rest ih =>
    simp only [starts] at ih
    rw [flip]
    split
    · split <;> rfl
    · simp [starts, ih]

/-- A section that comes out of a flip went in, or is an analyzed one with the other selection. -/
theorem mem_flip {address : Address} {sections : List KnownSection} {s : KnownSection}
    (h : s ∈ flip address sections) :
    s ∈ sections ∨ ∃ known ∈ sections, known.analyzed ∧ s = { known with selected := !known.selected } := by
  induction sections with
  | nil => cases h
  | cons known rest ih =>
    rw [flip] at h
    split at h
    · split at h
      next hanalyzed =>
        rcases List.mem_cons.mp h with rfl | hrest
        · exact .inr ⟨known, List.mem_cons_self, hanalyzed, rfl⟩
        · exact .inl (List.mem_cons_of_mem _ hrest)
      next => exact .inl h
    · rcases List.mem_cons.mp h with rfl | hrest
      · exact .inl List.mem_cons_self
      · rcases ih hrest with hold | ⟨other, hother, hflipped⟩
        · exact .inl (List.mem_cons_of_mem _ hold)
        · exact .inr ⟨other, List.mem_cons_of_mem _ hother, hflipped⟩

theorem Tidy.toggle (h : session.Tidy) (address : Address) : (session.toggle address).Tidy where
  starts := by
    rw [Session.toggle, starts_flip]
    exact h.starts
  analyzed s hs hselected := by
    rcases mem_flip hs with hold | ⟨known, -, hanalyzed, rfl⟩
    · exact h.analyzed s hold hselected
    · exact hanalyzed

theorem Tidy.selectAll (h : session.Tidy) : session.selectAll.Tidy where
  starts := by
    have hsame : Session.starts session.selectAll.sections = Session.starts session.sections := by
      simp [Session.selectAll, Session.starts]
    exact hsame ▸ h.starts
  analyzed s hs hselected := by
    obtain ⟨known, hknown, rfl⟩ := List.mem_map.mp hs
    rcases Bool.or_eq_true_iff.mp hselected with hbefore | hanalyzed
    · exact h.analyzed known hknown hbefore
    · exact hanalyzed

/-! ## Sessions that come about -/

/-- A session that comes about from the empty one by whatever changes sessions. -/
inductive Obtained : Session → Prop where
  | empty : Obtained {}
  | merge {session : Session} (incoming : List Section) :
      Obtained session → Obtained (session.merge incoming)
  | toggle {session : Session} (address : Address) :
      Obtained session → Obtained (session.toggle address)
  | selectAll {session : Session} : Obtained session → Obtained session.selectAll
  | present {session : Session} (findings : Decompilation) :
      Obtained session → Obtained (session.present findings)
  | beginDecompilation {session : Session} :
      Obtained session → Obtained session.beginDecompilation.2
  | finishDecompilation {session : Session} (ticket : Ticket) (findings : Decompilation) :
      Obtained session → Obtained (session.finishDecompilation ticket findings)
  | hover {session : Session} (index : Option UInt64) :
      Obtained session → Obtained (session.hover index)
  | entryText {session : Session} (text : String) :
      Obtained session → Obtained { session with entryText := some text }
  | lowerings {session : Session} (found : List Lowering) :
      Obtained session → Obtained { session with lowerings := found }
  | reset {session : Session} (path : Path) : Obtained session → Obtained (session.reset path)

theorem Obtained.tidy (h : Obtained session) : session.Tidy := by
  induction h with
  | empty => exact ⟨List.nodup_nil, List.forall_mem_nil _⟩
  | merge incoming _ ih => exact ih.merge incoming
  | toggle address _ ih => exact ih.toggle address
  | selectAll _ ih => exact ih.selectAll
  | finishDecompilation ticket findings _ ih =>
    rw [Session.finishDecompilation]
    split
    · exact ⟨ih.starts, ih.analyzed⟩
    · exact ih
  | reset path => exact ⟨List.nodup_nil, List.forall_mem_nil _⟩
  | present _ _ ih | beginDecompilation _ ih | hover _ _ ih | entryText _ _ ih | lowerings _ _ ih =>
    exact ⟨ih.starts, ih.analyzed⟩

theorem Obtained.foldInto (h : Obtained session) (outcome : Outcome) :
    Obtained (outcome.foldInto session) := by
  cases outcome with
  | opened path => exact h.reset path
  | connections epoch found => exact h.entryText _
  | lowerings epoch found => exact h.lowerings found
  | sections epoch found => exact h.merge found
  | decompiled ticket findings => exact h.present findings

end Session

/-- Whatever is done at a desk, its session changes only in the ways in which sessions change. -/
theorem History.session_obtained {desk : Desk} (hstart : desk.session.Obtained)
    (events : List Event) : (History.of desk events).desk.session.Obtained := by
  refine of_induction (P := fun history => history.desk.session.Obtained) hstart ?_ events
  intro history deed after ih hallows
  rw [add_desk]
  have hturns := hallows.turns
  generalize after.session = session at hturns ⊢
  cases hturns with
  | kept => exact ih
  | asked => exact ih.beginDecompilation
  | folded => exact ih.foldInto _
  | toggled address => exact ih.toggle address
  | selectedAll => exact ih.selectAll
  | hovered index => exact ih.hover index

/-! ## Requests for decompilations -/

/-- The starts asked for are those of the selected sections, of which there are some. -/
theorem Desk.starts_of_issue {desk : Desk} {intent : Intent} {starts : List Address}
    {ticket : Ticket} (h : (desk.issue intent).1 = some (.decompile starts ticket)) :
    starts = desk.session.selected ∧ starts ≠ [] := by
  obtain ⟨after, hissue⟩ : ∃ after, desk.issue intent = (some (.decompile starts ticket), after) :=
    ⟨_, Prod.ext h rfl⟩
  cases issued_of_issue hissue with
  | question _ hbears => exact (Request.not_decompile_of_bears hbears).elim
  | decompilation _ hsome => exact ⟨rfl, hsome⟩

namespace Session

variable {session : Session}

theorem selected_sublist (session : Session) :
    session.selected.Sublist (starts session.sections) := List.filter_sublist.map _

theorem mem_selected_iff {start : Address} :
    start ∈ session.selected ↔ ∃ s ∈ session.sections, s.start = start ∧ s.selected := by
  simp only [selected, List.mem_map, List.mem_filter]
  constructor
  · rintro ⟨s, ⟨hs, hselected⟩, hstart⟩
    exact ⟨s, hs, hstart, hselected⟩
  · rintro ⟨s, hs, hstart, hselected⟩
    exact ⟨s, ⟨hs, hselected⟩, hstart⟩

/-- Whatever changes a session, the starts of its sections stay distinct and only analyzed sections
are selected. So at any desk a request for a decompilation has at least one start, has none twice,
has exactly the starts of the sections that are known, analyzed and selected at that moment, in their
order, and puts this list before the engine. -/
theorem decompiled_once_analyzed :
    (∀ session : Session, Obtained session →
      (starts session.sections).Nodup ∧ ∀ s ∈ session.sections, s.selected → s.analyzed) ∧
    ∀ (capacity : UInt64) (layout : Layout) (events : List Event) (intent : Intent)
      (asked : List Address) (ticket : Ticket),
      let desk := (History.of (.start capacity layout) events).desk
      (desk.issue intent).1 = some (.decompile asked ticket) →
      asked ≠ [] ∧ asked.Nodup ∧ asked.Sublist (starts desk.session.sections) ∧
        (∀ start, start ∈ asked ↔
          ∃ s ∈ desk.session.sections, s.start = start ∧ s.analyzed ∧ s.selected) ∧
        (Request.decompile asked ticket).command = "decompile_sections" ∧
        (Request.decompile asked ticket).arguments =
          .object [("start_addresses", .array (asked.map fun start => .integer start.toNat))] := by
  refine ⟨fun session h => ⟨h.tidy.starts, h.tidy.analyzed⟩, ?_⟩
  intro capacity layout events intent asked ticket desk hissue
  have hobtained : desk.session.Obtained := History.session_obtained .empty events
  have htidy := hobtained.tidy
  clear_value desk
  obtain ⟨rfl, hsome⟩ := Desk.starts_of_issue hissue
  have hsublist := desk.session.selected_sublist
  refine ⟨hsome, hsublist.nodup htidy.starts, hsublist, fun start => ?_, rfl, rfl⟩
  rw [mem_selected_iff]
  constructor
  · rintro ⟨s, hs, hstart, hselected⟩
    exact ⟨s, hs, hstart, htidy.analyzed s hs hselected, hselected⟩
  · rintro ⟨s, hs, hstart, -, hselected⟩
    exact ⟨s, hs, hstart, hselected⟩

/-- Of two selected sections one is analyzed again, in vain: the engine is asked for the other. -/
theorem decompiled_once_after_analysis_in_vain :
    let found (start : Int) (analyzed : Bool) : Json :=
      .object [("startAddress", .integer start), ("analyzed", .boolean analyzed)]
    let events : List Event :=
      [.intent (.openFile (some (.ofText "/one"))), .reply 0 (.ok .null), .apply 1,
        .intent .analyzeAll, .reply 3 (.ok (.array [found 32 false, found 16 true, found 32 true])),
        .apply 4, .gesture .selectAll,
        .intent (.analyze ""), .reply 7 (.ok (.array [found 16 false])), .apply 8]
    let desk := (History.of (.start 8 .standard) events).desk
    desk.session.Obtained ∧ (starts desk.session.sections).Nodup ∧
      (desk.issue .decompileSelected).1 = some (.decompile [32] ⟨2⟩) ∧
      [32].Sublist (starts desk.session.sections) ∧
      (Request.decompile [32] ⟨2⟩).arguments =
        .object [("start_addresses", .array [.integer 32])] := by
  intro found events desk
  have hobtained : desk.session.Obtained := History.session_obtained .empty events
  have hasked : (desk.issue .decompileSelected).1 = some (.decompile [32] ⟨2⟩) := rfl
  obtain ⟨-, -, hsublist, -, -, harguments⟩ :=
    decompiled_once_analyzed.2 8 .standard events .decompileSelected [32] ⟨2⟩ hasked
  exact ⟨hobtained, (decompiled_once_analyzed.1 desk.session hobtained).1, hasked, hsublist, harguments⟩

end Session

end DecompilerDesk
