-- SUMMARY: What is known at an address after any merges is what the batches told of it last, or what was known before.
import DecompilerDesk.Proofs.Desk.Merging

/-!
# What was told last

In which order sections are known depends on the batches in which they arrived. What is known at an
address does not: a merge answers for the addresses of its batch with what the batch told last, and
leaves all others to the session before. So batches may be joined, repeated, or exchanged where they
share no address.
-/

namespace DecompilerDesk

namespace Session

/-- The section known at an address. -/
def sectionAt? (session : Session) (address : Address) : Option KnownSection :=
  session.sections.find? (·.start = address)

/-- What sections that arrive tell of an address last. -/
def lastTold? (incoming : List Section) (address : Address) : Option Section :=
  (incoming.filter (·.start = address)).getLast?

/-- The session after batches of sections arrived one after the other. -/
def mergeAll (session : Session) (batches : List (List Section)) : Session :=
  batches.foldl merge session

variable {session : Session} {incoming : List Section} {address : Address}

theorem mergeAll_cons (session : Session) (batch : List Section) (batches : List (List Section)) :
    session.mergeAll (batch :: batches) = (session.merge batch).mergeAll batches := rfl

theorem Obtained.mergeAll (h : session.Obtained) (batches : List (List Section)) :
    (session.mergeAll batches).Obtained := by
  induction batches generalizing session with
  | nil => exact h
  | cons batch batches ih => exact ih (h.merge batch)

/-- In a tidy session the known sections are those found at their addresses. -/
theorem Tidy.mem_iff_sectionAt? (h : session.Tidy) (s : KnownSection) :
    s ∈ session.sections ↔ session.sectionAt? s.start = some s := by
  constructor
  · intro hs
    have hsome : (session.sections.find? (·.start = s.start)).isSome := by
      rw [List.find?_isSome]
      exact ⟨s, hs, decide_eq_true rfl⟩
    obtain ⟨first, hfirst⟩ := Option.isSome_iff_exists.mp hsome
    have hstart : first.start = s.start := by simpa using List.find?_some hfirst
    have hsame : first = s :=
      List.inj_on_of_nodup_map h.starts (List.mem_of_find?_eq_some hfirst) hs hstart
    rw [sectionAt?, hfirst, hsame]
  · intro hfound
    exact List.mem_of_find?_eq_some hfound

/-! ## What is told last -/

theorem lastTold?_append (first second : List Section) (address : Address) :
    lastTold? (first ++ second) address =
      (lastTold? second address).or (lastTold? first address) := by
  rw [lastTold?, List.filter_append, List.getLast?_append]
  rfl

theorem lastTold?_singleton (s : Section) (address : Address) :
    lastTold? [s] address = if s.start = address then some s else none := by
  by_cases hstart : s.start = address <;> simp [lastTold?, hstart]

theorem mem_of_lastTold? {s : Section} (h : lastTold? incoming address = some s) :
    s ∈ incoming ∧ s.start = address := by
  obtain ⟨hs, hstart⟩ := List.mem_filter.mp (List.mem_of_getLast? h)
  exact ⟨hs, of_decide_eq_true hstart⟩

/-! ## One merge -/

theorem find?_place (new : KnownSection) (fresh : List KnownSection) (address : Address) :
    (place new fresh).find? (·.start = address) =
      if new.start = address then some new else fresh.find? (·.start = address) := by
  induction fresh with
  | nil => by_cases hnew : new.start = address <;> simp [place, hnew]
  | cons known rest ih =>
    rw [place]
    by_cases hsame : known.start = new.start
    · by_cases hnew : new.start = address <;> simp [hsame, hnew]
    · by_cases hknown : known.start = address
      · subst hknown
        simp [hsame, Ne.symm hsame]
      · simp [hsame, hknown, ih]

/-- A batch comes to what it told last of each address. -/
theorem find?_arrive (incoming : List Section) (address : Address) :
    (incoming.foldl arrive []).find? (·.start = address) =
      (lastTold? incoming address).map .ofSection := by
  induction incoming using List.reverseRecOn with
  | nil => rfl
  | append_singleton incoming last ih =>
    rw [arrive_concat, find?_place, ih, lastTold?_append, lastTold?_singleton]
    by_cases hlast : last.start = address <;> simp [KnownSection.ofSection, hlast]

/-- Of what is known at an address, a merge leaves nothing if the batch came to something there. -/
theorem find?_kept (known fresh : List KnownSection) (address : Address) :
    (known.filter (fun old => !fresh.any (·.start = old.start))).find? (·.start = address) =
      if fresh.any (·.start = address) then none else known.find? (·.start = address) := by
  rw [List.find?_filter]
  split
  next hgone =>
    refine List.find?_eq_none.mpr fun old _ hold => ?_
    obtain ⟨hkept, hstart⟩ := of_decide_eq_true hold
    have haddress : old.start = address := of_decide_eq_true hstart
    rw [haddress, hgone] at hkept
    cases hkept
  next hfree =>
    congr 1
    funext old
    by_cases hstart : old.start = address
    · simp_all
    · simp [hstart]

theorem sectionAt?_merge (session : Session) (incoming : List Section) (address : Address) :
    (session.merge incoming).sectionAt? address =
      ((lastTold? incoming address).map .ofSection).or (session.sectionAt? address) := by
  have hfresh := find?_arrive incoming address
  simp only [sectionAt?, merge, mergeInto, List.find?_append, find?_kept]
  cases htold : lastTold? incoming address with
  | none =>
    have hfree : ¬ (incoming.foldl arrive []).any (·.start = address) := by
      rw [htold, Option.map_none, List.find?_eq_none] at hfresh
      simpa using hfresh
    rw [hfresh, htold, if_neg hfree]
    exact Option.or_none
  | some last =>
    have hgone : (incoming.foldl arrive []).any (·.start = address) := by
      rw [any_arrive_iff]
      obtain ⟨hlast, hstart⟩ := mem_of_lastTold? htold
      exact List.mem_map.mpr ⟨last, hlast, hstart⟩
    rw [hfresh, htold, if_pos hgone]
    rfl

/-- A batch that arrives once more takes out what it brought and brings it again. -/
theorem merge_merge (session : Session) (incoming : List Section) :
    (session.merge incoming).merge incoming = session.merge incoming := by
  simp only [merge, mergeInto]
  generalize incoming.foldl arrive [] = fresh
  have hgone : fresh.filter (fun old => !fresh.any (·.start = old.start)) = [] := by
    refine List.filter_eq_nil_iff.mpr fun old hold => ?_
    have hmet : fresh.any (·.start = old.start) = true :=
      List.any_eq_true.mpr ⟨old, hold, decide_eq_true rfl⟩
    simp [hmet]
  rw [List.filter_append, List.filter_filter, hgone, List.append_nil]
  simp only [Bool.and_self]

/-! ## Many merges -/

theorem sectionAt?_mergeAll (session : Session) (batches : List (List Section)) (address : Address) :
    (session.mergeAll batches).sectionAt? address =
      ((lastTold? batches.flatten address).map .ofSection).or (session.sectionAt? address) := by
  induction batches generalizing session with
  | nil => rfl
  | cons batch batches ih =>
    rw [mergeAll_cons, ih, sectionAt?_merge, List.flatten_cons, lastTold?_append, Option.map_or,
      Option.or_assoc]

theorem sectionAt?_merge_merge (session : Session) (first second : List Section) (address : Address) :
    ((session.merge first).merge second).sectionAt? address =
      (session.merge (first ++ second)).sectionAt? address := by
  rw [sectionAt?_merge, sectionAt?_merge, sectionAt?_merge, lastTold?_append, Option.map_or,
    Option.or_assoc]

/-- Of two batches that share no address, at most one tells of an address. -/
theorem lastTold?_exchange {first second : List Section}
    (hapart : ∀ s ∈ first, ∀ t ∈ second, s.start ≠ t.start) (address : Address) :
    (lastTold? first address).or (lastTold? second address) =
      (lastTold? second address).or (lastTold? first address) := by
  cases hfirst : lastTold? first address with
  | none => rw [Option.none_or, Option.or_none]
  | some s =>
    cases hsecond : lastTold? second address with
    | none => rw [Option.none_or, Option.or_none]
    | some t =>
      obtain ⟨hs, rfl⟩ := mem_of_lastTold? hfirst
      obtain ⟨ht, hsame⟩ := mem_of_lastTold? hsecond
      exact absurd hsame.symm (hapart s hs t ht)

/-- In a session that comes about, a batch merged twice is a batch merged once. At every address, two
merges leave what one merge of both batches leaves, in either order if the batches share no address;
and after any merges the section known at an address is the one told of it last, not selected, or the
one known before if no batch told of it. -/
theorem last_told_counts {session : Session} (h : session.Obtained) :
    (∀ incoming, (session.merge incoming).merge incoming = session.merge incoming) ∧
    (∀ first second address,
      ((session.merge first).merge second).sectionAt? address =
        (session.merge (first ++ second)).sectionAt? address) ∧
    (∀ first second, (∀ s ∈ first, ∀ t ∈ second, s.start ≠ t.start) → ∀ address,
      ((session.merge first).merge second).sectionAt? address =
        ((session.merge second).merge first).sectionAt? address) ∧
    ∀ batches,
      (∀ s, s ∈ (session.mergeAll batches).sections ↔
        (session.mergeAll batches).sectionAt? s.start = some s) ∧
      ∀ address, (session.mergeAll batches).sectionAt? address =
        match lastTold? batches.flatten address with
        | some last => some ⟨last.start, last.stop, last.analyzed, false⟩
        | none => session.sectionAt? address := by
  refine ⟨session.merge_merge, session.sectionAt?_merge_merge, ?_, fun batches => ⟨?_, ?_⟩⟩
  · intro first second hapart address
    rw [sectionAt?_merge_merge, sectionAt?_merge_merge, sectionAt?_merge, sectionAt?_merge,
      lastTold?_append, lastTold?_append, lastTold?_exchange hapart]
  · exact (h.mergeAll batches).tidy.mem_iff_sectionAt?
  · intro address
    rw [sectionAt?_mergeAll]
    cases lastTold? batches.flatten address <;> rfl

/-- Two batches that share no address arrive in either order: the sections are in another order, with
the same one at each address. The selected section that neither batch tells of stays selected. -/
theorem last_told_counts_of_exchanged_batches :
    let known := (({} : Session).merge [⟨16, none, true⟩, ⟨32, some 40, true⟩]).selectAll
    let first : List Section := [⟨32, none, true⟩, ⟨32, none, false⟩]
    let second : List Section := [⟨48, none, true⟩]
    known.Obtained ∧ (∀ s ∈ first, ∀ t ∈ second, s.start ≠ t.start) ∧
      ((known.merge first).merge second).sections ≠ ((known.merge second).merge first).sections ∧
      (∀ address, ((known.merge first).merge second).sectionAt? address =
        ((known.merge second).merge first).sectionAt? address) ∧
      (known.mergeAll [first, second]).sectionAt? 16 = some ⟨16, none, true, true⟩ ∧
      (known.mergeAll [first, second]).sectionAt? 32 = some ⟨32, none, false, false⟩ := by
  intro known first second
  have hobtained : known.Obtained := .selectAll (.merge _ .empty)
  have hapart : ∀ s ∈ first, ∀ t ∈ second, s.start ≠ t.start := by decide
  obtain ⟨-, -, hexchange, htold⟩ := last_told_counts hobtained
  refine ⟨hobtained, hapart, by decide, hexchange first second hapart, ?_, ?_⟩
  · exact ((htold [first, second]).2 16).trans (by decide)
  · exact ((htold [first, second]).2 32).trans (by decide)

end Session

end DecompilerDesk
