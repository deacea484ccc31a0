-- SUMMARY: A value that is sorted stays as it is when it is sorted again, and its indented text parses as itself.
import DecompilerDesk.Proofs.Json.Lawful
import Mathlib.Data.String.Basic

/-!
# Sorted values

To sort the members of an object is to insert them one by one into a list ascending by key. A list
that is ascending already comes out as it went in, so the sorted form of a value is its own sorted
form. A parsed document is always sorted, and a sorted one is what its text parses as.
-/

namespace DecompilerDesk.Json

/-! ## Members ascending by key -/

def Ascending (members : List (String × Json)) : Prop := members.Pairwise (·.1 < ·.1)

theorem mem_insertMember {key : String} {value : Json} {members : List (String × Json)}
    {member : String × Json} (h : member ∈ insertMember key value members) :
    member = (key, value) ∨ member ∈ members := by
  induction members with
  | nil => exact .inl (List.mem_singleton.mp h)
  | cons first rest ih =>
    rw [insertMember] at h
    split at h
    · exact List.mem_cons.mp h
    · split at h
      · rcases List.mem_cons.mp h with hnew | hrest
        · exact .inl hnew
        · exact .inr (List.mem_cons_of_mem _ hrest)
      · rcases List.mem_cons.mp h with rfl | hrest
        · exact .inr List.mem_cons_self
        · exact (ih hrest).imp_right (List.mem_cons_of_mem _)

theorem ascending_insertMember {members : List (String × Json)} (h : Ascending members)
    (key : String) (value : Json) : Ascending (insertMember key value members) := by
  induction members with
  | nil => exact List.pairwise_singleton _ _
  | cons first rest ih =>
    obtain ⟨hfirst, hrest⟩ := List.pairwise_cons.mp h
    rw [insertMember]
    split
    next hless =>
      refine List.pairwise_cons.mpr ⟨?_, h⟩
      intro member hmem
      rcases List.mem_cons.mp hmem with rfl | hmem
      · exact hless
      · exact hless.trans (hfirst member hmem)
    next hless =>
      split
      next hsame =>
        refine List.pairwise_cons.mpr ⟨?_, hrest⟩
        intro member hmem
        exact hsame ▸ hfirst member hmem
      next hother =>
        refine List.pairwise_cons.mpr ⟨?_, ih hrest⟩
        intro member hmem
        rcases mem_insertMember hmem with rfl | hmem
        · exact lt_of_le_of_ne (not_lt.mp hless) hother
        · exact hfirst member hmem

/-- A key before the first is put in front. -/
theorem insertMember_cons_of_lt {key first : String} (h : key < first) (value other : Json)
    (rest : List (String × Json)) :
    insertMember key value ((first, other) :: rest) = (key, value) :: (first, other) :: rest := by
  rw [insertMember, if_pos h]

/-- A key behind all others is put at the end. -/
theorem insertMember_of_lt {key : String} (value : Json) {members : List (String × Json)}
    (h : ∀ member ∈ members, member.1 < key) :
    insertMember key value members = members ++ [(key, value)] := by
  induction members with
  | nil => rfl
  | cons first rest ih =>
    have hfirst := h first List.mem_cons_self
    rw [insertMember, if_neg hfirst.not_gt, if_neg hfirst.ne,
      ih fun member hmem => h member (List.mem_cons_of_mem _ hmem), List.cons_append]

theorem ascending_sortMembers (members : List (String × Json)) :
    Ascending (sortMembers members) :=
  List.foldlRecOn members _ .nil fun _ hacc member _ =>
    ascending_insertMember hacc member.1 member.2

/-- Nothing is added to members when they are sorted. -/
theorem mem_of_mem_sortMembers {members : List (String × Json)} :
    ∀ member ∈ sortMembers members, member ∈ members := by
  unfold sortMembers
  refine List.foldlRecOn (motive := fun acc => ∀ member ∈ acc, member ∈ members) members _
    (List.forall_mem_nil _) ?_
  intro acc hacc added hadded member hmem
  rcases mem_insertMember hmem with rfl | hmem
  · exact hadded
  · exact hacc member hmem

/-- Members ascending by key are in order already. -/
theorem sortMembers_of_ascending {members : List (String × Json)} (h : Ascending members) :
    sortMembers members = members := by
  -- Each member is inserted behind those before it.
  suffices hfold : ∀ acc, Ascending (acc ++ members) →
      members.foldl (fun acc member => insertMember member.1 member.2 acc) acc = acc ++ members from
    hfold [] h
  clear h
  induction members with
  | nil => exact fun acc _ => (List.append_nil acc).symm
  | cons member members ih =>
    intro acc hacc
    have hlast : insertMember member.1 member.2 acc = acc ++ [member] := by
      refine insertMember_of_lt member.2 fun earlier hmem => ?_
      exact (List.pairwise_append.mp hacc).2.2 earlier hmem member List.mem_cons_self
    rw [List.foldl_cons, hlast, ih _ (by simpa using hacc), List.append_assoc, List.singleton_append]

/-! ## Values -/

/-- Members whose values are sorted stay as they are when their values are sorted. -/
theorem sortedValues_of_sorted {members : List (String × Json)}
    (h : ∀ member ∈ members, member.2.sorted = member.2) : sortedValues members = members := by
  have hpairs : members.map (fun member => (member.1, member.2.sorted)) = members.map id :=
    List.map_congr_left fun member hmem => Prod.ext rfl (h member hmem)
  rw [sortedValues_eq_map, hpairs, List.map_id]

mutual

/-- A sorted value is its own sorted form. -/
theorem sorted_sorted : (json : Json) → json.sorted.sorted = json.sorted
  | .array items => by rw [sorted, sorted, sortedItems_sortedItems items]
  | .object members => by
    have hvalues : ∀ member ∈ sortMembers (sortedValues members), member.2.sorted = member.2 :=
      fun member hmem => sorted_of_mem_sortedValues members member (mem_of_mem_sortMembers _ hmem)
    rw [sorted, sorted, sortedValues_of_sorted hvalues,
      sortMembers_of_ascending (ascending_sortMembers _)]
  | .null => rfl
  | .boolean _ => rfl
  | .integer _ => rfl
  | .float _ => rfl
  | .text _ => rfl

theorem sortedItems_sortedItems :
    (items : List Json) → sortedItems (sortedItems items) = sortedItems items
  | [] => rfl
  | item :: rest => by
    rw [sortedItems, sortedItems, sorted_sorted item, sortedItems_sortedItems rest]

theorem sorted_of_mem_sortedValues : (members : List (String × Json)) →
    ∀ member ∈ sortedValues members, member.2.sorted = member.2
  | [], _, hmem => absurd hmem List.not_mem_nil
  | (key, value) :: rest, member, hmem => by
    rw [sortedValues] at hmem
    rcases List.mem_cons.mp hmem with rfl | hrest
    · exact sorted_sorted value
    · exact sorted_of_mem_sortedValues rest member hrest

end

/-- To sort a value makes it no deeper. -/
theorem Plain.sorted {depth : Nat} {json : Json} (h : Plain depth json) : Plain depth json.sorted := by
  induction h with
  | scalar h =>
    rw [h.sorted_eq]
    exact .scalar h
  | array _ ih =>
    rw [Json.sorted, sortedItems_eq_map]
    exact .array (List.forall_mem_map.mpr ih)
  | object _ ih =>
    rw [Json.sorted, sortedValues_eq_map]
    refine .object fun member hmem => ?_
    obtain ⟨unsorted, hunsorted, rfl⟩ := List.mem_map.mp (mem_of_mem_sortMembers _ hmem)
    exact ih unsorted hunsorted

/-- A plain value parses as its sorted form, from its indented text with blanks behind it. -/
theorem parse_pretty {json : Json} (h : Plain maxDepth json) {gap : String}
    (hgap : ∀ ch ∈ gap.toList, Cursor.isGap ch = true) :
    parse (json.pretty ++ gap) = .ok json.sorted := by
  have hread := readDocument_of_readsBack (readsBack_readValue h) Style.indented_blank 0 hgap
  simp [parse, pretty, hread, Except.map]

end DecompilerDesk.Json
