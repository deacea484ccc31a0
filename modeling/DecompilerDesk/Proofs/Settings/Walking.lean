-- SUMMARY: What a walk over files and links comes to, where a path leads by right, and what keeps the system from getting there.
import DecompilerDesk.Files
import Mathlib.Data.List.Basic

/-!
# Walking

A walk that succeeds takes its names one by one, and the path of a link in place of the link. `Walks`
tells its course. A walk only goes through directories, so it does not notice what becomes of a file at
its end. `Leads` says the same of the tree alone, whatever the system forbids or has no room for: the
walk ends there unless an obstacle is on the way.
-/

namespace DecompilerDesk

/-! ## Ways -/

/-- The way to where a file is wanted ends where a directory is meant, or is the way to what the path
means. -/
theorem Path.wayToFile_cases (path : Path) :
    (∃ front, path.wayToFile = front ++ [dot]) ∨ path.wayToFile = path.way := by
  unfold wayToFile way
  by_cases hslashed : path.isSlashed
  · rw [if_pos hslashed]
    exact .inl ⟨_, rfl⟩
  · rw [if_neg hslashed, if_neg hslashed, List.append_nil]
    cases hlast : path.names.getLast? with
    | none => exact .inl ⟨_, rfl⟩
    | some name => exact .inr (List.dropLast_append_getLast? name hlast)

theorem Path.wayToFile_ne_nil (path : Path) : path.wayToFile ≠ [] := by
  simp [wayToFile]

namespace Files

variable {files : Files} {ending : Path → List Bytes} {links : Nat} {spot place next last : Spot}
  {name : Bytes} {names rest : List Bytes} {node : Node} {path : Path}

/-! ## Nodes and links -/

theorem node?_put_self : (files.put spot node).node? spot = some node := by
  simp [node?, put]

theorem node?_put_of_ne (hne : place ≠ spot) : (files.put spot node).node? place = files.node? place := by
  have hfilter : (files.nodes.filter (·.1 ≠ spot)).find? (·.1 = place) =
      files.nodes.find? (·.1 = place) := by
    rw [List.find?_filter]
    congr 1
    funext entry
    by_cases hplace : entry.1 = place
    · simp [hplace, hne]
    · simp [hplace]
  unfold node? put
  rw [List.find?_cons_of_neg (by simpa using Ne.symm hne), hfilter]

theorem link?_of_node (h : files.node? spot = some node) : files.link? spot = none := by
  simp [link?, h]

/-- A directory stands at a place. -/
def IsDirectory (files : Files) (spot : Spot) : Prop :=
  ∃ directory, files.node? spot = some (.directory directory)

/-- Where no link was, a node that is put leaves the links what they were. -/
theorem link?_put (hlink : files.link? spot = none) (place : Spot) :
    (files.put spot node).link? place = files.link? place := by
  by_cases hplace : place = spot
  · rw [hplace, hlink, link?_of_node node?_put_self]
  · unfold link?
    rw [node?_put_of_ne hplace]
    rfl

/-- Names lead out of directories alone. -/
theorem enter_ok (h : files.enter spot name = .ok next) :
    files.IsDirectory spot ∧ next = spot.step files.depth name := by
  unfold enter at h
  split at h
  next => cases h
  next => cases h
  next directory hnode =>
    refine ⟨⟨directory, hnode⟩, ?_⟩
    split at h
    next hname => simp [Spot.step, hname, Except.ok.inj h]
    next =>
      split at h
      · cases h
      · split at h
        · cases h
        · exact (Except.ok.inj h).symm

theorem enter_put (hspot : ¬ files.IsDirectory spot) (h : files.enter place name = .ok next) :
    (files.put spot node).enter place name = .ok next := by
  have hne : place ≠ spot := by
    rintro rfl
    exact hspot (enter_ok h).1
  unfold enter at h ⊢
  rw [node?_put_of_ne hne]
  exact h

/-! ## The course of a walk -/

theorem walk_nil : files.walk ending links spot [] = .ok spot := by
  cases links <;> rfl

/-- A walk takes one name, and goes on behind it or along the link there. -/
theorem walk_cons : files.walk ending links spot (name :: rest) =
    (files.enter spot name).bind fun next =>
      match files.link? next, links with
      | none, links => files.walk ending links next rest
      | some _, 0 => .error .tooManyLinks
      | some path, links + 1 =>
        files.walk ending links (spot.toward path) (if rest = [] then ending path else path.way ++ rest) := by
  cases links with
  | zero =>
    rw [walk, along]
    congr
    funext next
    cases files.link? next <;> rfl
  | succ links =>
    rw [walk, along]
    congr
    funext next
    cases files.link? next <;> rfl

/-- A walk that ends, with so many links at most. -/
inductive Walks (files : Files) (ending : Path → List Bytes) : Nat → Spot → List Bytes → Spot → Prop where
  | stay (links : Nat) (spot : Spot) : Walks files ending links spot [] spot
  | down {links : Nat} {spot next last : Spot} {name : Bytes} {rest : List Bytes}
      (henter : files.enter spot name = .ok next) (hlink : files.link? next = none)
      (h : Walks files ending links next rest last) : Walks files ending links spot (name :: rest) last
  | link {links : Nat} {spot next last : Spot} {name : Bytes} {rest : List Bytes} {path : Path}
      (henter : files.enter spot name = .ok next) (hlink : files.link? next = some path)
      (h : Walks files ending links (spot.toward path)
        (if rest = [] then ending path else path.way ++ rest) last) :
      Walks files ending (links + 1) spot (name :: rest) last

theorem Walks.walk_eq (h : Walks files ending links spot names last) :
    files.walk ending links spot names = .ok last := by
  induction h with
  | stay links spot => exact walk_nil
  | down henter hlink _ ih => simp only [walk_cons, henter, Except.bind, hlink, ih]
  | link henter hlink _ ih => simp only [walk_cons, henter, Except.bind, hlink, ih]

theorem walks_of_walk_eq (h : files.walk ending links spot names = .ok last) :
    Walks files ending links spot names last := by
  -- the links left, and then the names up to the next link
  induction links generalizing spot names with
  | zero =>
    induction names generalizing spot with
    | nil =>
      obtain rfl := Except.ok.inj (walk_nil.symm.trans h)
      exact .stay 0 spot
    | cons name rest ih =>
      rw [walk_cons] at h
      cases henter : files.enter spot name with
      | error refused => simp [henter, Except.bind] at h
      | ok next =>
        cases hlink : files.link? next with
        | none =>
          simp only [henter, Except.bind, hlink] at h
          exact .down henter hlink (ih h)
        | some path => simp [henter, Except.bind, hlink] at h
  | succ links ihlinks =>
    induction names generalizing spot with
    | nil =>
      obtain rfl := Except.ok.inj (walk_nil.symm.trans h)
      exact .stay _ spot
    | cons name rest ih =>
      rw [walk_cons] at h
      cases henter : files.enter spot name with
      | error refused => simp [henter, Except.bind] at h
      | ok next =>
        cases hlink : files.link? next with
        | none =>
          simp only [henter, Except.bind, hlink] at h
          exact .down henter hlink (ih h)
        | some path =>
          simp only [henter, Except.bind, hlink] at h
          exact .link henter hlink (ihlinks h)

theorem walk_eq_ok_iff :
    files.walk ending links spot names = .ok last ↔ Walks files ending links spot names last :=
  ⟨walks_of_walk_eq, Walks.walk_eq⟩

/-! ## Where a walk ends -/

/-- A walk that ends where a directory is meant ends at a directory. -/
theorem Walks.isDirectory_of_dot {front : List Bytes}
    (h : Walks files ending links spot (front ++ [Path.dot]) last) : files.IsDirectory last := by
  have hstay (spot : Spot) : spot.step files.depth Path.dot = spot := by simp [Spot.step]
  generalize hnames : front ++ [Path.dot] = names at h
  induction h generalizing front with
  | stay => simp at hnames
  | @down links spot next last name rest henter hlink h ih =>
    obtain ⟨hdirectory, hnext⟩ := enter_ok henter
    cases front with
    | nil =>
      obtain ⟨rfl, rfl⟩ := List.cons.inj hnames
      rw [hstay] at hnext
      cases h
      rwa [hnext]
    | cons first front =>
      obtain ⟨-, hrest⟩ := List.cons.inj hnames
      exact ih hrest
  | @link links spot next last name rest path henter hlink h ih =>
    obtain ⟨⟨directory, hdirectory⟩, hnext⟩ := enter_ok henter
    cases front with
    | nil =>
      obtain ⟨rfl, rfl⟩ := List.cons.inj hnames
      rw [hnext, hstay, link?_of_node hdirectory] at hlink
      cases hlink
    | cons first front =>
      obtain ⟨-, rfl⟩ := List.cons.inj hnames
      have hrest : (path.way ++ front) ++ [Path.dot] = if front ++ [Path.dot] = [] then ending path
          else path.way ++ (front ++ [Path.dot]) := by simp
      exact ih hrest

/-- Where a file is wanted and no directory is, the walk ends at what the path means. -/
theorem Walks.way (h : Walks files Path.wayToFile links spot names last)
    (hlast : ¬ files.IsDirectory last) : Walks files Path.way links spot names last := by
  induction h with
  | stay links spot => exact .stay links spot
  | down henter hlink _ ih => exact .down henter hlink (ih hlast)
  | @link links spot next last name rest path henter hlink h ih =>
    refine .link henter hlink ?_
    have ih := ih hlast
    by_cases hrest : rest = []
    · rw [if_pos hrest] at h ih ⊢
      rcases path.wayToFile_cases with ⟨front, hfront⟩ | hsame
      · rw [hfront] at h
        exact absurd h.isDirectory_of_dot hlast
      · rwa [hsame] at ih
    · rwa [if_neg hrest] at ih ⊢

/-- Where a file is wanted, no link is left to follow. -/
theorem Walks.link?_eq_none (h : Walks files Path.wayToFile links spot names last) (hsome : names ≠ []) :
    files.link? last = none := by
  induction h with
  | stay => exact absurd rfl hsome
  | @down links spot next last name rest henter hlink h ih =>
    cases rest with
    | nil =>
      cases h
      exact hlink
    | cons => exact ih (List.cons_ne_nil _ _)
  | @link links spot next last name rest path henter hlink h ih =>
    refine ih ?_
    split
    · exact path.wayToFile_ne_nil
    next hrest => exact List.append_ne_nil_of_right_ne_nil _ hrest

/-- A walk that ends does not notice what is put where no directory and no link was. -/
theorem Walks.put (h : Walks files ending links place names last) (hspot : ¬ files.IsDirectory spot)
    (hlink : files.link? spot = none) : Walks (files.put spot node) ending links place names last := by
  induction h with
  | stay links place => exact .stay links place
  | down henter hnext _ ih => exact .down (enter_put hspot henter) ((link?_put hlink _).trans hnext) ih
  | link henter hnext _ ih => exact .link (enter_put hspot henter) ((link?_put hlink _).trans hnext) ih

/-! ## Paths -/

theorem follow_eq_ok_iff : files.follow ending path = .ok last ↔
    (path.bytes ≠ [] ∧ 0 ∉ path.bytes ∧ path.bytes.length ≤ 4095) ∧
      Walks files ending maxLinks (Spot.here.toward path) (ending path) last := by
  rw [← walk_eq_ok_iff]
  unfold follow
  by_cases hempty : path.bytes = []
  · simp [hempty]
  by_cases hzero : 0 ∈ path.bytes
  · simp [hempty, hzero]
  by_cases hlong : path.bytes.length ≤ 4095
  · simp [hempty, hzero, hlong, Nat.not_lt.mpr hlong]
  · simp [hempty, hzero, hlong, Nat.lt_of_not_le hlong]

theorem find?_eq_ok_iff : files.find? path = .ok node ↔
    ∃ spot, files.follow Path.way path = .ok spot ∧ files.node? spot = some node := by
  unfold find?
  cases files.follow Path.way path with
  | error refused => simp [Except.bind]
  | ok spot => cases hnode : files.node? spot <;> simp [Except.bind, hnode]

/-- A file that is put where one is wanted is what the path means then. -/
theorem follow_put (hfollow : files.follow Path.wayToFile path = .ok spot)
    (hspot : ¬ files.IsDirectory spot) (node : Node) :
    files.follow Path.way path = .ok spot ∧ (files.put spot node).find? path = .ok node := by
  rw [follow_eq_ok_iff] at hfollow
  obtain ⟨haccepted, hwalks⟩ := hfollow
  have hlink := hwalks.link?_eq_none path.wayToFile_ne_nil
  have hway : path.wayToFile = path.way := by
    rcases path.wayToFile_cases with ⟨front, hfront⟩ | hway
    · rw [hfront] at hwalks
      exact absurd hwalks.isDirectory_of_dot hspot
    · exact hway
  rw [hway] at hwalks
  have hmeant := hwalks.way hspot
  refine ⟨follow_eq_ok_iff.mpr ⟨haccepted, hmeant⟩, find?_eq_ok_iff.mpr ⟨spot, ?_, node?_put_self⟩⟩
  exact follow_eq_ok_iff.mpr ⟨haccepted, hmeant.put hspot hlink⟩

/-! ## What the tree says -/

/-- A name that is followed out of a place, and whether a link is there. -/
structure Pass where
  place : Spot
  name : Bytes
  linked : Bool

/-- The system lets one pass: the name leads nowhere else, or it is not too long and the directory lets
ways through. -/
def Pass.IsFree (files : Files) (pass : Pass) : Prop :=
  pass.name = [] ∨ pass.name.length ≤ 255 ∧
    ∀ directory, files.node? pass.place = some (.directory directory) → directory.barred = none

/-- Where names lead by the tree alone, and the passes on the way there. -/
inductive Leads (files : Files) : Spot → List Bytes → List Pass → Spot → Prop where
  | stay (spot : Spot) : Leads files spot [] [] spot
  | down {spot last : Spot} {name : Bytes} {rest : List Bytes} {passes : List Pass}
      (hspot : files.IsDirectory spot)
      (hlink : files.link? (spot.step files.depth name) = none)
      (h : Leads files (spot.step files.depth name) rest passes last) :
      Leads files spot (name :: rest) (⟨spot, name, false⟩ :: passes) last
  | link {spot last : Spot} {name : Bytes} {rest : List Bytes} {passes : List Pass} {path : Path}
      (hspot : files.IsDirectory spot)
      (hlink : files.link? (spot.step files.depth name) = some path)
      (h : Leads files (spot.toward path) (path.way ++ rest) passes last) :
      Leads files spot (name :: rest) (⟨spot, name, true⟩ :: passes) last

variable {passes : List Pass}

theorem Leads.unique {others : List Pass} {other : Spot} (h : Leads files spot names passes last)
    (h' : Leads files spot names others other) : passes = others ∧ last = other := by
  induction h generalizing others with
  | stay =>
    cases h'
    exact ⟨rfl, rfl⟩
  | down _ hlink _ ih =>
    cases h' with
    | down _ _ h' =>
      obtain ⟨rfl, rfl⟩ := ih h'
      exact ⟨rfl, rfl⟩
    | link _ hlink' _ => rw [hlink] at hlink'; cases hlink'
  | link _ hlink _ ih =>
    cases h' with
    | down _ hlink' _ => rw [hlink] at hlink'; cases hlink'
    | link _ hlink' h' =>
      rw [hlink] at hlink'
      obtain rfl := Option.some.inj hlink'
      obtain ⟨rfl, rfl⟩ := ih h'
      exact ⟨rfl, rfl⟩

theorem enter_eq_ok_iff (h : files.IsDirectory spot) (linked : Bool) :
    files.enter spot name = .ok (spot.step files.depth name) ↔ Pass.IsFree files ⟨spot, name, linked⟩ := by
  obtain ⟨directory, hdirectory⟩ := h
  unfold enter Pass.IsFree
  simp only [hdirectory, Option.some.injEq, Node.directory.injEq, forall_eq']
  by_cases hname : name = []
  · simp [hname, Spot.step]
  · cases hbarred : directory.barred with
    | some refused => simp [hname]
    | none =>
      by_cases hlong : 255 < name.length
      · simp [hname, hlong]
      · simp [hname, hlong, Nat.le_of_not_lt hlong]

theorem Walks.leads (h : Walks files Path.way links spot names last) :
    ∃ passes, Leads files spot names passes last ∧
      (∀ pass ∈ passes, pass.IsFree files) ∧ passes.countP (·.linked) ≤ links := by
  induction h with
  | stay links spot => exact ⟨[], .stay spot, by simp, by simp⟩
  | @down links spot next last name rest henter hlink _ ih =>
    obtain ⟨passes, hleads, hfree, hlinks⟩ := ih
    obtain ⟨hspot, rfl⟩ := enter_ok henter
    refine ⟨_, .down hspot hlink hleads, ?_, by simpa using hlinks⟩
    exact List.forall_mem_cons.mpr ⟨(enter_eq_ok_iff hspot false).mp henter, hfree⟩
  | @link links spot next last name rest path henter hlink h ih =>
    obtain ⟨passes, hleads, hfree, hlinks⟩ := ih
    obtain ⟨hspot, rfl⟩ := enter_ok henter
    have hnames : (if rest = [] then path.way else path.way ++ rest) = path.way ++ rest := by
      split
      next hrest => rw [hrest, List.append_nil]
      next => rfl
    rw [hnames] at hleads
    refine ⟨_, .link hspot hlink hleads, ?_, by simpa using hlinks⟩
    exact List.forall_mem_cons.mpr ⟨(enter_eq_ok_iff hspot true).mp henter, hfree⟩

/-- The system goes where names lead if it lets one pass each time and the links are not too many. -/
theorem Leads.walks (h : Leads files spot names passes last)
    (hfree : ∀ pass ∈ passes, pass.IsFree files) (hlinks : passes.countP (·.linked) ≤ links) :
    Walks files Path.way links spot names last := by
  induction h generalizing links with
  | stay spot => exact .stay links spot
  | down hspot hlink _ ih =>
    rw [List.forall_mem_cons] at hfree
    exact .down ((enter_eq_ok_iff hspot false).mpr hfree.1) hlink (ih hfree.2 (by simpa using hlinks))
  | @link spot last name rest passes path hspot hlink _ ih =>
    rw [List.forall_mem_cons] at hfree
    rw [List.countP_cons_of_pos rfl] at hlinks
    obtain ⟨links, rfl⟩ := Nat.exists_eq_add_of_le' (Nat.one_le_of_lt hlinks)
    refine .link ((enter_eq_ok_iff hspot true).mpr hfree.1) hlink ?_
    have hrest := ih hfree.2 (Nat.le_of_succ_le_succ hlinks)
    split
    next hnil => rwa [hnil, List.append_nil] at hrest
    next => exact hrest

/-! ## What is there -/

/-- A path leads to a node, by such passes. No path is empty or holds a zero byte. -/
def Reaches (files : Files) (path : Path) (passes : List Pass) (node : Node) : Prop :=
  path.bytes ≠ [] ∧ 0 ∉ path.bytes ∧
    ∃ last, Leads files (Spot.here.toward path) path.way passes last ∧ files.node? last = some node

/-- A node is where the path leads. -/
def IsAt (files : Files) (path : Path) (node : Node) : Prop := ∃ passes, files.Reaches path passes node

/-- Something is where the path leads, but the system does not get there: the path is too long for it,
more links are on the way than it follows, or it lets one not pass. -/
def Obstructed (files : Files) (path : Path) : Prop :=
  ∃ passes node, files.Reaches path passes node ∧
    (4095 < path.bytes.length ∨ maxLinks < passes.countP (·.linked) ∨
      ∃ pass ∈ passes, ¬ pass.IsFree files)

theorem Reaches.unique {others : List Pass} {other : Node} (h : files.Reaches path passes node)
    (h' : files.Reaches path others other) : passes = others ∧ node = other := by
  obtain ⟨-, -, last, hleads, hnode⟩ := h
  obtain ⟨-, -, last', hleads', hother⟩ := h'
  obtain ⟨rfl, rfl⟩ := hleads.unique hleads'
  exact ⟨rfl, Option.some.inj (hnode.symm.trans hother)⟩

theorem IsAt.unique {other : Node} (h : files.IsAt path node) (h' : files.IsAt path other) :
    node = other := by
  obtain ⟨passes, hreaches⟩ := h
  obtain ⟨others, hothers⟩ := h'
  exact (hreaches.unique hothers).2

/-- Only what is there can be obstructed. -/
theorem Obstructed.isAt (h : files.Obstructed path) : ∃ node, files.IsAt path node := by
  obtain ⟨passes, node, hreaches, -⟩ := h
  exact ⟨node, passes, hreaches⟩

/-- Under a single name nothing is where neither a node nor a link is. -/
theorem not_isAt_of_way_eq (hway : path.way = [name])
    (hspot : (Spot.here.toward path).step files.depth name = spot) (hnode : files.node? spot = none)
    (hlink : files.link? spot = none) (node : Node) : ¬ files.IsAt path node := by
  rintro ⟨passes, -, -, last, hleads, hlast⟩
  rw [hway] at hleads
  cases hleads with
  | down _ _ h =>
    cases h
    rw [hspot, hnode] at hlast
    cases hlast
  | link _ hfound _ =>
    rw [hspot, hlink] at hfound
    cases hfound

/-- What a look-up finds is what is there, unless it is obstructed. -/
theorem find?_eq_ok_iff_isAt :
    files.find? path = .ok node ↔ files.IsAt path node ∧ ¬ files.Obstructed path := by
  simp only [find?_eq_ok_iff, follow_eq_ok_iff]
  constructor
  · rintro ⟨last, ⟨⟨hempty, hzero, hlength⟩, hwalks⟩, hnode⟩
    obtain ⟨passes, hleads, hfree, hlinks⟩ := hwalks.leads
    have hreaches : files.Reaches path passes node := ⟨hempty, hzero, last, hleads, hnode⟩
    refine ⟨⟨passes, hreaches⟩, ?_⟩
    rintro ⟨others, other, hothers, hobstacle⟩
    obtain ⟨rfl, rfl⟩ := hreaches.unique hothers
    obtain hlong | hmany | ⟨pass, hpass, hbarred⟩ := hobstacle
    · exact absurd hlength (Nat.not_le.mpr hlong)
    · exact absurd hlinks (Nat.not_le.mpr hmany)
    · exact hbarred (hfree pass hpass)
  · rintro ⟨⟨passes, hreaches⟩, hclear⟩
    have hlength : path.bytes.length ≤ 4095 :=
      Nat.le_of_not_lt fun hlong => hclear ⟨passes, node, hreaches, .inl hlong⟩
    have hlinks : passes.countP (·.linked) ≤ maxLinks :=
      Nat.le_of_not_lt fun hmany => hclear ⟨passes, node, hreaches, .inr (.inl hmany)⟩
    have hfree : ∀ pass ∈ passes, pass.IsFree files := fun pass hpass => by
      by_contra hbarred
      exact hclear ⟨passes, node, hreaches, .inr (.inr ⟨pass, hpass, hbarred⟩)⟩
    obtain ⟨hempty, hzero, last, hleads, hnode⟩ := hreaches
    exact ⟨last, ⟨⟨hempty, hzero, hlength⟩, hleads.walks hfree hlinks⟩, hnode⟩

end Files

end DecompilerDesk
