-- SUMMARY: Completions of different kinds may be applied in any order: the session and the line of each are the same.
import DecompilerDesk.Proofs.Desk.Effects
import Mathlib.Data.List.Perm.Basic

/-!
# Commuting

Each kind of completion changes its own part of the session, and none but the opening of a file
touches the numbers by which completions count. So two completions of different kinds may change
places, and a failed one may go anywhere. By such exchanges any order in which the completions of each
kind keep theirs can be turned into any other.
-/

namespace DecompilerDesk

/-! ## Kinds -/

namespace Outcome

inductive Kind where
  | opening
  | connections
  | lowerings
  | sections
  | decompilation
  deriving DecidableEq

def kind : Outcome → Kind
  | .opened _ => .opening
  | .connections .. => .connections
  | .lowerings .. => .lowerings
  | .sections .. => .sections
  | .decompiled .. => .decompilation

end Outcome

namespace Completion

/-- What a completion brings; nothing if it failed. -/
def kind? (completion : Completion) : Option Outcome.Kind :=
  completion.result.toOption.map Outcome.kind

def Opens (completion : Completion) : Prop := completion.kind? = some .opening

/-- The same completions in another order, in which those of each kind keep theirs. -/
structure Rearranged (completions others : List Completion) : Prop where
  perm : completions.Perm others
  order : ∀ kind : Outcome.Kind,
    completions.filter (·.kind? = some kind) = others.filter (·.kind? = some kind)

end Completion

/-! ## Exchanging two completions -/

/-- Only the opening of a file changes the numbers of a session. -/
theorem Outcome.numbers_foldInto {outcome : Outcome} (h : outcome.kind ≠ .opening)
    (session : Session) :
    (outcome.foldInto session).epoch = session.epoch ∧
      (outcome.foldInto session).ticket = session.ticket := by
  cases outcome with
  | opened path => exact absurd rfl h
  | _ => exact ⟨rfl, rfl⟩

theorem Outcome.foldInto_comm {outcome other : Outcome} (h : outcome.kind ≠ other.kind)
    (houtcome : outcome.kind ≠ .opening) (hother : other.kind ≠ .opening) (session : Session) :
    other.foldInto (outcome.foldInto session) = outcome.foldInto (other.foldInto session) := by
  cases outcome <;> cases other <;>
    first
      | rfl
      | exact absurd rfl h
      | exact absurd rfl houtcome
      | exact absurd rfl hother

namespace Completion

variable {completion other : Completion} {session : Session}

theorem kind?_of_ok {outcome : Outcome} (hok : completion.result = .ok outcome) :
    completion.kind? = some outcome.kind := by
  rw [kind?, hok]
  rfl

theorem numbers_foldInto (h : ¬ completion.Opens) (session : Session) :
    (completion.foldInto session).epoch = session.epoch ∧
      (completion.foldInto session).ticket = session.ticket := by
  by_cases hcounts : completion.Counts session
  · obtain ⟨outcome, hok, hcurrent⟩ := hcounts
    have hkind : outcome.kind ≠ .opening := fun hkind => h (by rw [Opens, kind?_of_ok hok, hkind])
    rw [foldInto_of_isCurrent hok hcurrent]
    exact outcome.numbers_foldInto hkind session
  · rw [foldInto_of_not_counts hcounts]
    exact ⟨rfl, rfl⟩

theorem isCurrent_foldInto (h : ¬ completion.Opens) (session : Session) (outcome : Outcome) :
    outcome.IsCurrent (completion.foldInto session) ↔ outcome.IsCurrent session := by
  obtain ⟨hepoch, hticket⟩ := numbers_foldInto h session
  rw [Outcome.IsCurrent, Outcome.IsCurrent, hepoch, hticket]

theorem counts_foldInto (h : ¬ other.Opens) (session : Session) :
    completion.Counts (other.foldInto session) ↔ completion.Counts session := by
  simp only [Counts, isCurrent_foldInto h]

theorem foldInto_of_failed (completion : Completion) (h : completion.kind? = none) :
    completion.foldInto session = session := by
  refine foldInto_of_not_counts ?_
  rintro ⟨outcome, hok, -⟩
  rw [kind?_of_ok hok] at h
  cases h

theorem message_foldInto (completion : Completion) (h : ¬ other.Opens) :
    completion.message (other.foldInto session) = completion.message session := by
  simp only [message, isCurrent_foldInto h]

/-- Two completions of different kinds may change places. -/
theorem foldInto_comm (h : completion.kind? ≠ other.kind?) (hcompletion : ¬ completion.Opens)
    (hother : ¬ other.Opens) (session : Session) :
    other.foldInto (completion.foldInto session) = completion.foldInto (other.foldInto session) := by
  by_cases hcounts : completion.Counts session
  case neg =>
    have hstill := mt (counts_foldInto hother session).mp hcounts
    rw [foldInto_of_not_counts hcounts, foldInto_of_not_counts hstill]
  by_cases hotherCounts : other.Counts session
  case neg =>
    have hstill := mt (counts_foldInto hcompletion session).mp hotherCounts
    rw [foldInto_of_not_counts hotherCounts, foldInto_of_not_counts hstill]
  obtain ⟨outcome, hok, hcurrent⟩ := hcounts
  obtain ⟨otherOutcome, hotherOk, hotherCurrent⟩ := hotherCounts
  have hstill := (isCurrent_foldInto hother session outcome).mpr hcurrent
  have hotherStill := (isCurrent_foldInto hcompletion session otherOutcome).mpr hotherCurrent
  rw [foldInto_of_isCurrent hok hstill, foldInto_of_isCurrent hotherOk hotherStill,
    foldInto_of_isCurrent hok hcurrent, foldInto_of_isCurrent hotherOk hotherCurrent]
  simp only [Opens, kind?_of_ok hok, kind?_of_ok hotherOk, ne_eq, Option.some.injEq] at *
  exact Outcome.foldInto_comm h hcompletion hother session

end Completion

/-! ## Exchanging many -/

namespace Session

def foldAll (session : Session) (completions : List Completion) : Session :=
  completions.foldl (fun session completion => completion.foldInto session) session

@[simp] theorem foldAll_cons (session : Session) (completion : Completion)
    (rest : List Completion) :
    session.foldAll (completion :: rest) = (completion.foldInto session).foldAll rest := rfl

@[simp] theorem foldAll_append (session : Session) (completions rest : List Completion) :
    session.foldAll (completions ++ rest) = (session.foldAll completions).foldAll rest :=
  List.foldl_append

/-- A completion may change places with all others of other kinds that come before it. -/
theorem foldAll_foldInto {completion : Completion} (hopens : ¬ completion.Opens)
    {front : List Completion} (hfront : ∀ other ∈ front, ¬ other.Opens)
    (hkinds : ∀ other ∈ front, other.kind? ≠ completion.kind?) (session : Session) :
    completion.foldInto (session.foldAll front) = (completion.foldInto session).foldAll front := by
  induction front generalizing session with
  | nil => rfl
  | cons other rest ih =>
    rw [foldAll_cons, foldAll_cons,
      ih (fun later hlater => hfront later (List.mem_cons_of_mem _ hlater))
        (fun later hlater => hkinds later (List.mem_cons_of_mem _ hlater)),
      Completion.foldInto_comm (hkinds other List.mem_cons_self) (hfront other List.mem_cons_self)
        hopens]

theorem foldAll_of_forall_failed {completions : List Completion}
    (h : ∀ completion ∈ completions, completion.kind? = none) (session : Session) :
    session.foldAll completions = session := by
  induction completions generalizing session with
  | nil => rfl
  | cons completion rest ih =>
    rw [foldAll_cons, completion.foldInto_of_failed (h completion List.mem_cons_self)]
    exact ih (fun later hlater => h later (List.mem_cons_of_mem _ hlater)) session

/-- Only the order among completions of one kind makes a difference. -/
theorem foldAll_eq_of_order {completions others : List Completion}
    (hcompletions : ∀ completion ∈ completions, ¬ completion.Opens)
    (hothers : ∀ other ∈ others, ¬ other.Opens)
    (horder : ∀ kind : Outcome.Kind,
      completions.filter (·.kind? = some kind) = others.filter (·.kind? = some kind))
    (session : Session) : session.foldAll completions = session.foldAll others := by
  -- the first of the one order is brought to the front of the other
  induction completions generalizing others session with
  | nil =>
    refine (foldAll_of_forall_failed (fun other hother => ?_) session).symm
    rw [Option.eq_none_iff_forall_ne_some]
    intro kind hkind
    have hmem : other ∈ others.filter (·.kind? = some kind) :=
      List.mem_filter.mpr ⟨hother, by simpa using hkind⟩
    rw [← horder kind] at hmem
    cases hmem
  | cons completion rest ih =>
    have hopens : ¬ completion.Opens := hcompletions completion List.mem_cons_self
    have hrest : ∀ later ∈ rest, ¬ later.Opens :=
      fun later hlater => hcompletions later (List.mem_cons_of_mem _ hlater)
    cases hkind : completion.kind? with
    | none =>
      rw [foldAll_cons, completion.foldInto_of_failed hkind]
      refine ih hrest hothers (fun kind => ?_) session
      rw [← horder kind, List.filter_cons_of_neg (by simp [hkind])]
    | some kind =>
      have hfirst := horder kind
      rw [List.filter_cons_of_pos (by simp [hkind])] at hfirst
      obtain ⟨front, behind, rfl, hfront, -, hbehind⟩ := List.filter_eq_cons_iff.mp hfirst.symm
      have hfrontOpens : ∀ other ∈ front, ¬ other.Opens :=
        fun other hother => hothers other (List.mem_append_left _ hother)
      have hkinds : ∀ other ∈ front, other.kind? ≠ completion.kind? := by
        intro other hother
        simpa [hkind] using hfront other hother
      have hgone : ∀ other ∈ front ++ behind, ¬ other.Opens := by
        intro other hother
        refine hothers other ?_
        rcases List.mem_append.mp hother with hother | hother
        · exact List.mem_append_left _ hother
        · exact List.mem_append_right _ (List.mem_cons_of_mem _ hother)
      have horderRest : ∀ later : Outcome.Kind,
          rest.filter (·.kind? = some later) = (front ++ behind).filter (·.kind? = some later) := by
        intro later
        by_cases hsame : later = kind
        · subst hsame
          rw [List.filter_append, hbehind, List.filter_eq_nil_iff.mpr hfront, List.nil_append]
        · have hother : ¬ completion.kind? = some later := by simpa [hkind] using Ne.symm hsame
          simpa [List.filter_cons, hother] using horder later
      rw [foldAll_cons, ih hrest hgone horderRest, foldAll_append, foldAll_append, foldAll_cons,
        foldAll_foldInto hopens hfrontOpens hkinds]

end Session

/-! ## Exchanging completions at a desk -/

namespace Desk

theorem session_foldl_apply (desk : Desk) (completions : List Completion) :
    (completions.foldl Desk.apply desk).session = desk.session.foldAll completions := by
  induction completions generalizing desk with
  | nil => rfl
  | cons completion rest ih =>
    rw [List.foldl_cons, ih, apply_eq]
    rfl

theorem message_foldAll (completion : Completion) {others : List Completion}
    (h : ∀ other ∈ others, ¬ other.Opens) (session : Session) :
    completion.message (session.foldAll others) = completion.message session := by
  induction others generalizing session with
  | nil => rfl
  | cons other rest ih =>
    rw [Session.foldAll_cons, ih (fun later hlater => h later (List.mem_cons_of_mem _ hlater)),
      Completion.message_foldInto completion (h other List.mem_cons_self)]

/-- Where it comes among completions that open no file, a completion adds the entry that it would add as
the first. -/
theorem adds_foldl_apply (desk : Desk) {before : List Completion}
    (h : ∀ other ∈ before, ¬ other.Opens) (completion : Completion) :
    (before.foldl Desk.apply desk).console.Adds ((before ++ [completion]).foldl Desk.apply desk).console
      (completion.message desk.session) := by
  rw [List.foldl_append, List.foldl_cons, List.foldl_nil, ← message_foldAll completion h,
    ← session_foldl_apply]
  exact adds_apply _ completion

/-- Completions other than openings are applied in another order, in which those that brought
connections keep theirs, and so do those that brought lowerings, sections and decompilations; failed
ones go anywhere. Then the session is the same in the end, and in both orders each completion adds one
entry to the console with the same message, wherever it comes. -/
theorem apply_rearranged (desk : Desk) {completions others : List Completion}
    (hopens : ∀ completion ∈ completions, ¬ completion.Opens)
    (hrearranged : Completion.Rearranged completions others) :
    (others.foldl Desk.apply desk).session = (completions.foldl Desk.apply desk).session ∧
      ∀ order ∈ [completions, others], ∀ before completion behind,
        order = before ++ completion :: behind →
        (before.foldl Desk.apply desk).console.Adds
          ((before ++ [completion]).foldl Desk.apply desk).console
          (completion.message desk.session) := by
  have hothers : ∀ other ∈ others, ¬ other.Opens :=
    fun other hother => hopens other (hrearranged.perm.mem_iff.mpr hother)
  refine ⟨?_, ?_⟩
  · rw [session_foldl_apply, session_foldl_apply,
      Session.foldAll_eq_of_order hopens hothers hrearranged.order]
  · rintro order horder before completion behind rfl
    refine adds_foldl_apply desk (fun other hother => ?_) completion
    have hmem : other ∈ before ++ completion :: behind := List.mem_append_left _ hother
    rw [List.mem_pair] at horder
    rcases horder with heq | heq
    · exact hopens other (heq ▸ hmem)
    · exact hothers other (heq ▸ hmem)

/-- Two analyses of one section and a failure come before or after a late decompilation and
connections. -/
theorem apply_rearranged_of_two_analyses :
    let desk := (Desk.start 8 .standard).apply ⟨"Open Failed", .ok (.opened (.ofText "/one"))⟩
    let first : Completion := ⟨"Section Analyzation Failed", .ok (.sections ⟨1⟩ [⟨16, none, false⟩])⟩
    let second : Completion :=
      ⟨"Section Analyzation Failed", .ok (.sections ⟨1⟩ [⟨16, some 32, true⟩])⟩
    let failed : Completion := ⟨"IR Inspect Failed", .error .noFile⟩
    let late : Completion := ⟨"Decompile Failed", .ok (.decompiled ⟨0⟩ ⟨[], [], ""⟩)⟩
    let connected : Completion := ⟨"Decompile Failed", .ok (.connections ⟨1⟩ ⟨[16]⟩)⟩
    let completions := [first, second, failed] ++ [late, connected]
    let others := [late, connected] ++ [first, second, failed]
    (∀ completion ∈ completions, ¬ completion.Opens) ∧
      Completion.Rearranged completions others ∧
      (others.foldl Desk.apply desk).session = (completions.foldl Desk.apply desk).session ∧
      (others.foldl Desk.apply desk).session.sections = [⟨16, some 32, true, false⟩] ∧
      ([late].foldl Desk.apply desk).console.Adds
        (([late] ++ [connected]).foldl Desk.apply desk).console "Decompile Success [16]" ∧
      ([first, second, failed, late].foldl Desk.apply desk).console.Adds
        (completions.foldl Desk.apply desk).console "Decompile Success [16]" ∧
      (completions.foldl Desk.apply desk).console.entries.map (·.message) =
        ["Open Success", "Section Analyzation Success 1 sections",
          "Section Analyzation Success 1 sections", "IR Inspect Failed No file is open",
          "Discarded outdated decompile result", "Decompile Success [16]"] ∧
      (others.foldl Desk.apply desk).console.entries.map (·.message) =
        ["Open Success", "Discarded outdated decompile result", "Decompile Success [16]",
          "Section Analyzation Success 1 sections", "Section Analyzation Success 1 sections",
          "IR Inspect Failed No file is open"] := by
  intro desk first second failed late connected completions others
  have hopens : ∀ completion ∈ completions, ¬ completion.Opens := by
    simp [completions, first, second, failed, late, connected, Completion.Opens, Completion.kind?,
      Except.toOption, Outcome.kind]
  have hrearranged : Completion.Rearranged completions others :=
    ⟨List.perm_append_comm, fun kind => by cases kind <;> rfl⟩
  have hmessage : connected.message desk.session = "Decompile Success [16]" := by decide +kernel
  obtain ⟨hsession, hadds⟩ := apply_rearranged desk hopens hrearranged
  have hearly := hadds others (by simp) [late] connected [first, second, failed] rfl
  have hlate := hadds completions (by simp) [first, second, failed, late] connected [] rfl
  rw [hmessage] at hearly hlate
  exact ⟨hopens, hrearranged, hsession, rfl, hearly, hlate, by decide +kernel, by decide +kernel⟩

end Desk

end DecompilerDesk
