-- SUMMARY: Whatever is done at a desk, its layout comes from the first one by the moves of the drops that end a drag over a target.
import DecompilerDesk.Proofs.Layout.Placement
import Mathlib.Data.List.Induction

/-!
# Dragging

A drop makes a move if it has a target and ends a drag: some panel was picked up before, and no other
was picked up and no drag was ended or given up since. The events tell which drops these are, without
a look at any desk. The layout of a desk is the first one after the moves that the events tell, and a
drag that is under way knows the row in which its panel stands.
-/

namespace DecompilerDesk

theorem Drag.drop_eq (drag : Drag) (layout : Layout) (target : Option Target) :
    drag.drop layout target =
      ((target.bind fun target => drag.panel?.map fun panel => ⟨panel, target⟩).map layout.after).getD
        layout := by
  cases drag <;> cases target <;> rfl

namespace Event

def pickedUp? : Event → Option Panel
  | .gesture (.pickUp panel) => some panel
  | _ => none

theorem pickedUp?_eq_some_iff {event : Event} {panel : Panel} :
    event.pickedUp? = some panel ↔ event = .gesture (.pickUp panel) := by
  constructor
  · intro h
    unfold pickedUp? at h
    split at h
    next => rw [Option.some.inj h]
    next => cases h
  · rintro rfl
    rfl

theorem droppedOn?_eq_some_iff {event : Event} {target : Target} :
    event.droppedOn? = some target ↔ event = .gesture (.drop (some target)) := by
  constructor
  · intro h
    unfold droppedOn? at h
    split at h
    next => rw [h]
    next => cases h
  · rintro rfl
    rfl

end Event

namespace History

/-! ## Moves that events tell -/

/-- The panel in the air after some events: the latest event of a drag picked it up. -/
def carried? (events : List Event) : Option Panel :=
  (events.reverse.find? Event.drags).bind Event.pickedUp?

/-- The move that event number `i` makes. -/
def moveAt? (events : List Event) (i : Nat) : Option Move :=
  (events[i]?.bind Event.droppedOn?).bind fun target =>
    (carried? (events.take i)).map fun panel => ⟨panel, target⟩

/-- The moves that some events make, in their order. -/
def moves (events : List Event) : List Move := (List.range events.length).filterMap (moveAt? events)

theorem carried?_concat (events : List Event) (event : Event) :
    carried? (events ++ [event]) = if event.drags then event.pickedUp? else carried? events := by
  simp only [carried?, List.reverse_append, List.reverse_singleton, List.singleton_append,
    List.find?_cons]
  cases event.drags <;> rfl

theorem carried?_eq_some_iff {events : List Event} {panel : Panel} :
    carried? events = some panel ↔
      ∃ before between, events = before ++ .gesture (.pickUp panel) :: between ∧
        ∀ event ∈ between, event.drags = false := by
  simp only [carried?, Option.bind_eq_some_iff, Event.pickedUp?_eq_some_iff]
  constructor
  · rintro ⟨_, hfind, rfl⟩
    obtain ⟨-, later, earlier, hevents, hlater⟩ := List.find?_eq_some_iff_append.mp hfind
    refine ⟨earlier.reverse, later.reverse, ?_, fun event hevent => ?_⟩
    · rw [← List.reverse_reverse events, hevents]
      simp
    · simpa using hlater event (List.mem_reverse.mp hevent)
  · rintro ⟨before, between, rfl, hbetween⟩
    refine ⟨_, List.find?_eq_some_iff_append.mpr ⟨rfl, between.reverse, before.reverse, ?_, ?_⟩, rfl⟩
    · simp
    · intro event hevent
      simp [hbetween event (List.mem_reverse.mp hevent)]

theorem moveAt?_eq_some_iff {events : List Event} {i : Nat} {move : Move} :
    moveAt? events i = some move ↔
      ∃ before between after,
        events = before ++ .gesture (.pickUp move.panel) :: between ++
          .gesture (.drop (some move.target)) :: after ∧
        i = before.length + 1 + between.length ∧ ∀ event ∈ between, event.drags = false := by
  simp only [moveAt?, Option.bind_eq_some_iff, Option.map_eq_some_iff, Event.droppedOn?_eq_some_iff,
    carried?_eq_some_iff]
  constructor
  · rintro ⟨target, ⟨_, hdrop, rfl⟩, panel, ⟨before, between, hbefore, hbetween⟩, rfl⟩
    obtain ⟨hlt, hdrop⟩ := List.getElem?_eq_some_iff.mp hdrop
    refine ⟨before, between, events.drop (i + 1), ?_, ?_, hbetween⟩
    · rw [← hbefore, ← hdrop, List.getElem_cons_drop, List.take_append_drop]
    · have hlength := congrArg List.length hbefore
      simp at hlength
      omega
  · rintro ⟨before, between, after, rfl, rfl, hbetween⟩
    have hlength : (before ++ .gesture (.pickUp move.panel) :: between).length =
        before.length + 1 + between.length := by
      simp
      omega
    refine ⟨move.target, ⟨_, ?_, rfl⟩, move.panel, ⟨before, between, ?_, hbetween⟩, rfl⟩
    · rw [← hlength, List.getElem?_append_right (Nat.le_refl _)]
      simp
    · rw [← hlength, List.take_left]

/-- An event that comes after others makes a move with the panel that is in the air then. -/
theorem moveAt?_concat (events : List Event) (event : Event) :
    moveAt? (events ++ [event]) events.length =
      event.droppedOn?.bind fun target => (carried? events).map fun panel => ⟨panel, target⟩ := by
  simp [moveAt?]

theorem moves_concat (events : List Event) (event : Event) :
    moves (events ++ [event]) = moves events ++ (moveAt? (events ++ [event]) events.length).toList := by
  have hearlier : ∀ i ∈ List.range events.length, moveAt? (events ++ [event]) i = moveAt? events i := by
    intro i hi
    have hlt : i < events.length := List.mem_range.mp hi
    simp only [moveAt?, List.getElem?_append_left hlt, List.take_append_of_le_length (Nat.le_of_lt hlt)]
  simp only [moves, List.length_append, List.length_singleton, List.range_succ, List.filterMap_append,
    List.filterMap_congr hearlier]
  rfl

/-! ## Drags along a history -/

/-- A drag carries this panel, if there is one, and knows the row in which it stands. -/
structure Carries (desk : Desk) (panel? : Option Panel) : Prop where
  panel : desk.drag.panel? = panel?
  source : ∀ panel source,
    desk.drag = .carrying panel source → desk.layout.holder? panel = some source

theorem carries_of_pickUp (desk : Desk) (panel : Panel) : Carries (desk.pickUp panel) (some panel) := by
  obtain ⟨source, hholder, -⟩ := Layout.holder?_spec desk.layout panel
  have hdrag : (desk.pickUp panel).drag = .carrying panel source := by
    simp only [Desk.pickUp, Drag.pickUp, hholder]
  refine ⟨by rw [hdrag]; rfl, fun other row h => ?_⟩
  rw [hdrag] at h
  cases h
  exact hholder

theorem carries_of_idle {desk : Desk} (h : desk.drag = .idle) : Carries desk none :=
  ⟨by rw [h]; rfl, fun _ _ hcarrying => by rw [h] at hcarrying; cases hcarrying⟩

theorem Carries.step {history : History} {panel? : Option Panel} (h : Carries history.desk panel?)
    (event : Event) :
    Carries (history.step event).desk (if event.drags then event.pickedUp? else panel?) := by
  cases hdrags : event.drags with
  | false =>
    have hsame : Desk.SamePlaces history.desk (history.step event).desk := samePlaces_step hdrags
    obtain ⟨hlayout, hdrag⟩ := hsame
    exact ⟨hdrag ▸ h.panel, hlayout ▸ hdrag ▸ h.source⟩
  | true =>
    cases event with
    | gesture gesture =>
      cases gesture with
      | pickUp panel => exact carries_of_pickUp _ panel
      | drop target => exact carries_of_idle rfl
      | cancelDrag => exact carries_of_idle rfl
      | _ => cases hdrags
    | _ => cases hdrags

variable (capacity : UInt64) (layout : Layout)

theorem carries_of (events : List Event) :
    Carries (of (.start capacity layout) events).desk (carried? events) := by
  induction events using List.reverseRecOn with
  | nil => exact carries_of_idle rfl
  | append_singleton events event ih =>
    rw [of_append, carried?_concat]
    exact ih.step event

/-- The layout changes by the move that an event makes. -/
theorem layout_concat (events : List Event) (event : Event) :
    (of (.start capacity layout) (events ++ [event])).desk.layout =
      ((moveAt? (events ++ [event]) events.length).map
        (of (.start capacity layout) events).desk.layout.after).getD
          (of (.start capacity layout) events).desk.layout := by
  rw [moveAt?_concat, ← (carries_of capacity layout events).panel, ← Drag.drop_eq, ← layout_step,
    of_append]
  rfl

theorem layout_eq_foldl_moves (events : List Event) :
    (of (.start capacity layout) events).desk.layout = (moves events).foldl Layout.after layout := by
  induction events using List.reverseRecOn with
  | nil => rfl
  | append_singleton events event ih =>
    rw [layout_concat, ih, moves_concat, List.foldl_append]
    cases moveAt? (events ++ [event]) events.length <;> rfl

/-- Whatever is done at a desk, its layout is the first one after the moves of exactly those drops
that have a target and end a drag, each with the panel that was picked up for it; nothing else
changes the layout. A drag is over after a drop and when it is given up, and while it is under way
it knows the row that holds its panel. -/
theorem drags_fold_moves (events : List Event) :
    let after (events : List Event) := (of (.start capacity layout) events).desk
    (after events).layout = (moves events).foldl Layout.after layout ∧
      (∀ i move, moveAt? events i = some move ↔
        ∃ before between rest,
          events = before ++ .gesture (.pickUp move.panel) :: between ++
            .gesture (.drop (some move.target)) :: rest ∧
          i = before.length + 1 + between.length ∧ ∀ event ∈ between, event.drags = false) ∧
      (∀ event, moveAt? (events ++ [event]) events.length = none →
        (after (events ++ [event])).layout = (after events).layout) ∧
      (∀ target, (after (events ++ [.gesture (.drop target)])).drag = .idle) ∧
      (after (events ++ [.gesture .cancelDrag])).drag = .idle ∧
      ∀ panel source, (after events).drag = .carrying panel source →
        (after events).layout.holder? panel = some source := by
  intro after
  refine ⟨layout_eq_foldl_moves capacity layout events, fun i move => moveAt?_eq_some_iff,
    fun event hnone => ?_, fun target => ?_, ?_, (carries_of capacity layout events).source⟩
  · simp only [after, layout_concat, hnone, Option.map_none, Option.getD_none]
  · simp only [after, of_append]
    rfl
  · simp only [after, of_append]
    rfl

/-- A drag that is begun twice, one that ends over nothing, one that is given up before a drop, and
one that is under way. -/
theorem drags_fold_moves_of_restarted_drag :
    let events : List Event :=
      [.gesture (.pickUp .ast), .gesture (.pickUp .ir), .intent .analyzeAll,
        .gesture (.drop (some (.row "top"))), .gesture (.drop (some (.row "bottom"))),
        .gesture (.pickUp .sections), .gesture (.drop none),
        .gesture (.pickUp .assembly), .gesture .cancelDrag, .gesture (.drop (some (.panel .ast))),
        .gesture (.pickUp .ir)]
    let desk := (of (.start 8 .standard) events).desk
    moves events = [⟨.ir, .row "top"⟩] ∧
      desk.layout.rows = [⟨"top", [.sections, .assembly, .ir]⟩, ⟨"bottom", [.ast]⟩] ∧
      desk.layout = Layout.after .standard ⟨.ir, .row "top"⟩ ∧
      desk.drag = .carrying .ir "top" ∧ desk.layout.holder? .ir = some "top" := by
  intro events desk
  have hmoves : moves events = [⟨.ir, .row "top"⟩] := by cbv
  obtain ⟨hlayout, -, -, -, -, hsource⟩ := drags_fold_moves 8 .standard events
  rw [hmoves] at hlayout
  have hrows : desk.layout.rows = [⟨"top", [.sections, .assembly, .ir]⟩, ⟨"bottom", [.ast]⟩] := by
    rw [hlayout]
    cbv
  have hdrag : desk.drag = .carrying .ir "top" := by rfl
  exact ⟨hmoves, hrows, hlayout, hdrag, hsource .ir "top" hdrag⟩

end History

end DecompilerDesk
