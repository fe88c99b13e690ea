/-
**Sweeps.**

A reader looks at some items one after the other, while the system that holds them goes on.

* `Sweep`, `sweepStep`: the system, the items that are left, and what was seen of the others.
* `eventsOf`: what the system did; `cutsFrom`: how far it was at each look.
* `pairwise_cutsFrom`, `prefix_of_mem_cutsFrom`: later looks see later states, all within the sweep.
* **`run_sweep`**: the system runs as if nobody looked, and of each item the state at its cut is seen.
* `run_looks`: a sweep without interruption sees all items in one state.
-/

import StatLog.Lib.Transition

namespace Transition

/-- An event of the system, or a look at the next item. -/
inductive SweepEvent (Event : Type*)
  | event (event : Event)
  | look

/-- A system, and a sweep over it. -/
structure Sweep (State Item Seen : Type*) where
  state : State
  left : List Item
  seen : List Seen

variable {State Event Item Seen : Type*} (step : State → Event → Option State)
  (look : Item → State → Seen)

/-- One step of the system, or of the reader. -/
def sweepStep (sweep : Sweep State Item Seen) : SweepEvent Event → Option (Sweep State Item Seen)
  | .event event => (step sweep.state event).map fun state => { sweep with state }
  | .look =>
    match sweep.left with
    | [] => none
    | item :: left => some ⟨sweep.state, left, sweep.seen ++ [look item sweep.state]⟩

/-- The events of the system. -/
def eventsOf : List (SweepEvent Event) → List Event
  | [] => []
  | .event event :: events => event :: eventsOf events
  | .look :: events => eventsOf events

/-- **What the system has done at each look**, if it has done something before. -/
def cutsFrom (before : List Event) : List (SweepEvent Event) → List (List Event)
  | [] => []
  | .event event :: events => cutsFrom (before ++ [event]) events
  | .look :: events => before :: cutsFrom before events

section

variable {events : List (SweepEvent Event)} {before : List Event}

/-- Every look is within the sweep. -/
theorem prefix_of_mem_cutsFrom {cut : List Event} (member : cut ∈ cutsFrom before events) :
    before <+: cut ∧ cut <+: before ++ eventsOf events := by
  induction events generalizing before with
  | nil => exact absurd member List.not_mem_nil
  | cons first events ih =>
    cases first with
    | event event =>
      obtain ⟨lower, upper⟩ := ih member
      refine ⟨(List.prefix_append before [event]).trans lower, ?_⟩
      rw [List.append_assoc] at upper
      exact upper
    | look =>
      rcases List.mem_cons.mp member with rfl | later
      · exact ⟨List.prefix_refl _, List.prefix_append _ _⟩
      · exact ih later

/-- **Later looks see later states.** -/
theorem pairwise_cutsFrom : (cutsFrom before events).Pairwise (· <+: ·) := by
  induction events generalizing before with
  | nil => exact List.Pairwise.nil
  | cons first events ih =>
    cases first with
    | event event => exact ih
    | look => exact List.Pairwise.cons (fun cut member => (prefix_of_mem_cutsFrom member).1) ih

end

section

variable {step look} {events : List (SweepEvent Event)} {before : List Event} {start : State}
  {sweep final : Sweep State Item Seen}

/-- **What a sweep sees**: the system runs as if nobody looked, and every item is seen as it is behind
what the system has done by then. -/
theorem run_sweep (runs : run (sweepStep step look) sweep events = some final)
    (reached : run step start before = some sweep.state) {shows : Item → List Event → Seen}
    (looks : ∀ item ∈ sweep.left, ∀ cut ∈ cutsFrom before events, ∀ state,
      run step start cut = some state → look item state = shows item cut) :
    run step start (before ++ eventsOf events) = some final.state ∧
      final.left = sweep.left.drop (cutsFrom before events).length ∧
      final.seen = sweep.seen ++ List.zipWith shows sweep.left (cutsFrom before events) := by
  induction events generalizing sweep before with
  | nil =>
    obtain rfl := Option.some.inj runs
    refine ⟨by rwa [eventsOf, List.append_nil], rfl, ?_⟩
    rw [cutsFrom, List.zipWith_nil_right, List.append_nil]
  | cons first events ih =>
    rw [run, Option.bind_eq_some_iff] at runs
    obtain ⟨next, taken, rest⟩ := runs
    cases first with
    | event event =>
      obtain ⟨state, stepped, rfl⟩ := Option.map_eq_some_iff.mp taken
      have later : run step start (before ++ [event]) = some state :=
        (run_concat step).mpr ⟨sweep.state, reached, stepped⟩
      obtain ⟨goes, left, seen⟩ := ih rest later looks
      rw [List.append_assoc] at goes
      exact ⟨goes, left, seen⟩
    | look =>
      obtain ⟨state, items, shown⟩ := sweep
      cases items with
      | nil => cases taken
      | cons item items =>
        obtain rfl := Option.some.inj taken
        obtain ⟨goes, left, seen⟩ := ih rest reached fun other member cut among =>
          looks other (List.mem_cons_of_mem _ member) cut (List.mem_cons_of_mem _ among)
        refine ⟨goes, left, ?_⟩
        have now := looks item List.mem_cons_self before List.mem_cons_self state reached
        rw [seen, cutsFrom, List.zipWith_cons_cons, now, List.append_assoc]
        rfl

/-- **A sweep without interruption** sees all items in one state. -/
theorem run_looks (state : State) (items : List Item) (shown : List Seen) :
    run (sweepStep step look) ⟨state, items, shown⟩ (List.replicate items.length .look) =
      some ⟨state, [], shown ++ items.map fun item => look item state⟩ := by
  induction items generalizing shown with
  | nil => exact congrArg some (congrArg _ (List.append_nil shown).symm)
  | cons item items ih =>
    rw [List.length_cons, List.replicate_succ, run]
    show (some _).bind _ = _
    rw [Option.bind_some, ih, List.map_cons, List.append_assoc, List.singleton_append]

end

end Transition
