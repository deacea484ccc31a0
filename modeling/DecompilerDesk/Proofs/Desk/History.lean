-- SUMMARY: Histories of a desk: intents, gestures, replies and completions in any order, and what one deed can do.
import DecompilerDesk.Desk

/-!
# Histories

A history is a desk together with everything that was done at it, oldest first. A request stays
where it was issued and a completion where it came in, so both can be taken up again at any later
time, in any order and any number of times.
-/

namespace DecompilerDesk

/-! ## What can be done at a desk -/

/-- What the user may want from the engine. -/
inductive Intent where
  | openFile (picked : Option Path)
  | analyze (input : String)
  | analyzeAll
  | connectionsAt (input : String)
  | connectionsAtEntry
  | inspect (input : String)
  | decompileSelected
  deriving DecidableEq, Repr

/-- What the user does without the engine. -/
inductive Gesture where
  | pickUp (panel : Panel)
  | drop (target : Option Target)
  | cancelDrag
  | toggleSection (address : Address)
  | selectAll
  | hover (index : Option UInt64)
  | toggleConsole
  deriving DecidableEq, Repr

namespace Desk

/-- The request that an intent becomes, if it becomes one. -/
def issue (desk : Desk) : Intent → Option Request × Desk
  | .openFile picked => desk.openFile picked
  | .analyze input => desk.analyze input
  | .analyzeAll => desk.analyzeAll
  | .connectionsAt input => desk.connectionsAt input
  | .connectionsAtEntry => desk.connectionsAtEntry
  | .inspect input => desk.inspect input
  | .decompileSelected => desk.decompileSelected

def perform (desk : Desk) : Gesture → Desk
  | .pickUp panel => desk.pickUp panel
  | .drop target => desk.drop target
  | .cancelDrag => desk.cancelDrag
  | .toggleSection address => desk.toggleSection address
  | .selectAll => desk.selectAll
  | .hover index => desk.hover index
  | .toggleConsole => desk.toggleConsole

end Desk

inductive Event where
  | intent (intent : Intent)
  /-- The engine replies to the request that deed number `origin` issued. -/
  | reply (origin : Nat) (reply : Except Failure Json)
  /-- The completion that came in with deed number `arrival` is folded into the session. -/
  | apply (arrival : Nat)
  | gesture (gesture : Gesture)
  | clock (time : TimeOfDay)

/-- What an event came to. -/
inductive Deed where
  | issued (request : Request)
  | refused (intent : Intent)
  | completed (origin : Nat) (completion : Completion)
  | applied (origin : Nat) (completion : Completion)
  | gestured (gesture : Gesture)
  | waited (time : TimeOfDay)

/-! ## Histories -/

structure History where
  desk : Desk
  deeds : List Deed

namespace History

/-- A desk at which nothing has been done. -/
def start (desk : Desk) : History := ⟨desk, []⟩

def add (history : History) (deed : Deed) (desk : Desk) : History := ⟨desk, history.deeds ++ [deed]⟩

/-- The history after one more event. A reply without a request and an application without a
completion do not take place. -/
def step (history : History) : Event → History
  | .intent intent =>
    match history.desk.issue intent with
    | (some request, desk) => history.add (.issued request) desk
    | (none, desk) => history.add (.refused intent) desk
  | .reply origin reply =>
    match history.deeds[origin]? with
    | some (.issued request) =>
      history.add (.completed origin (request.complete reply)) history.desk
    | _ => history
  | .apply arrival =>
    match history.deeds[arrival]? with
    | some (.completed origin completion) =>
      history.add (.applied origin completion) (history.desk.apply completion)
    | _ => history
  | .gesture gesture => history.add (.gestured gesture) (history.desk.perform gesture)
  | .clock time => history.add (.waited time) (history.desk.atTime time)

/-- The history of some events at a desk. -/
def of (desk : Desk) (events : List Event) : History := events.foldl step (start desk)

theorem of_append (desk : Desk) (events more : List Event) :
    of desk (events ++ more) = more.foldl step (of desk events) := by
  simp [of, List.foldl_append]

/-! ## What a step can do -/

/-- The deeds that a history allows next, each with the desk after it. -/
inductive Allows (history : History) : Deed → Desk → Prop where
  | issued {intent : Intent} {request : Request} {desk : Desk} :
      history.desk.issue intent = (some request, desk) → Allows history (.issued request) desk
  | refused {intent : Intent} {desk : Desk} :
      history.desk.issue intent = (none, desk) → Allows history (.refused intent) desk
  | completed {origin : Nat} {request : Request} (reply : Except Failure Json) :
      history.deeds[origin]? = some (.issued request) →
      Allows history (.completed origin (request.complete reply)) history.desk
  | applied {arrival origin : Nat} {completion : Completion} :
      history.deeds[arrival]? = some (.completed origin completion) →
      Allows history (.applied origin completion) (history.desk.apply completion)
  | gestured (gesture : Gesture) :
      Allows history (.gestured gesture) (history.desk.perform gesture)
  | waited (time : TimeOfDay) : Allows history (.waited time) (history.desk.atTime time)

theorem step_cases (history : History) (event : Event) :
    history.step event = history ∨
      ∃ deed desk, history.Allows deed desk ∧ history.step event = history.add deed desk := by
  cases event with
  | intent intent =>
    right
    match h : history.desk.issue intent with
    | (some request, desk) => exact ⟨_, _, .issued h, by simp only [step, h]⟩
    | (none, desk) => exact ⟨_, _, .refused h, by simp only [step, h]⟩
  | reply origin reply =>
    simp only [step]
    split
    case h_1 request h => exact .inr ⟨_, _, .completed reply h, rfl⟩
    case h_2 => exact .inl rfl
  | apply arrival =>
    simp only [step]
    split
    case h_1 origin completion h => exact .inr ⟨_, _, .applied h, rfl⟩
    case h_2 => exact .inl rfl
  | gesture gesture => exact .inr ⟨_, _, .gestured gesture, rfl⟩
  | clock time => exact .inr ⟨_, _, .waited time, rfl⟩

/-- What holds of a history and is kept by every deed that is allowed still holds after more events. -/
theorem foldl_induction {P : History → Prop} {history : History} (h : P history)
    (hadd : ∀ history deed after, P history → history.Allows deed after →
      P (history.add deed after))
    (events : List Event) : P (events.foldl step history) := by
  induction events generalizing history with
  | nil => exact h
  | cons event rest ih =>
    apply ih
    rcases step_cases history event with heq | ⟨deed, after, hallows, heq⟩
    · rw [heq]
      exact h
    · rw [heq]
      exact hadd history deed after h hallows

/-- What holds at first and is kept by every deed that is allowed holds of every history. -/
theorem of_induction {P : History → Prop} {desk : Desk} (hstart : P (start desk))
    (hadd : ∀ history deed after, P history → history.Allows deed after →
      P (history.add deed after))
    (events : List Event) : P (of desk events) :=
  foldl_induction hstart hadd events

/-! ## Earlier deeds -/

@[simp] theorem add_desk (history : History) (deed : Deed) (desk : Desk) :
    (history.add deed desk).desk = desk := rfl

@[simp] theorem add_deeds (history : History) (deed : Deed) (desk : Desk) :
    (history.add deed desk).deeds = history.deeds ++ [deed] := rfl

theorem deeds_add_cases {history : History} {deed earlier : Deed} {desk : Desk} {i : Nat}
    (h : (history.add deed desk).deeds[i]? = some earlier) :
    history.deeds[i]? = some earlier ∨ i = history.deeds.length ∧ earlier = deed := by
  rw [add_deeds, List.getElem?_append] at h
  split at h
  · exact .inl h
  · right
    rw [List.getElem?_singleton] at h
    split at h
    · exact ⟨by omega, (Option.some.inj h).symm⟩
    · cases h

theorem lt_of_deed {history : History} {deed : Deed} {i : Nat}
    (h : history.deeds[i]? = some deed) : i < history.deeds.length :=
  (List.getElem?_eq_some_iff.mp h).1

theorem deeds_add_of_deed {history : History} {deed earlier : Deed} {desk : Desk} {i : Nat}
    (h : history.deeds[i]? = some earlier) :
    (history.add deed desk).deeds[i]? = some earlier := by
  rw [add_deeds, List.getElem?_append_left (lt_of_deed h), h]

/-- A completion in a history answers the request that its origin issued. -/
theorem request_of_completed (desk : Desk) (events : List Event) {arrival origin : Nat}
    {completion : Completion}
    (h : (of desk events).deeds[arrival]? = some (.completed origin completion)) :
    ∃ request reply, (of desk events).deeds[origin]? = some (.issued request) ∧
      completion = request.complete reply := by
  refine of_induction (P := fun (history : History) => ∀ (arrival origin : Nat)
      (completion : Completion),
      history.deeds[arrival]? = some (Deed.completed origin completion) →
      ∃ request reply, history.deeds[origin]? = some (Deed.issued request) ∧
        completion = request.complete reply) ?_ ?_ events arrival origin completion h
  · intro arrival origin completion h
    simp [start] at h
  · intro history deed after ih hallows arrival origin completion h
    rcases deeds_add_cases h with hold | ⟨-, hnew⟩
    · obtain ⟨request, reply, hissued, heq⟩ := ih arrival origin completion hold
      exact ⟨request, reply, deeds_add_of_deed hissued, heq⟩
    · cases hallows with
      | completed reply hissued =>
        cases hnew
        exact ⟨_, reply, deeds_add_of_deed hissued, rfl⟩
      | _ => cases hnew

end History

end DecompilerDesk
