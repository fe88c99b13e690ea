/-
**Independent components.**

A product of components takes each event in the one component that it is addressed to.

* `productStep`: one step of the product; `eventAt`: what an event is for a component.
* **`run_productStep_iff`**: the product runs to the states that its components run to, each over its
  own events.
* `run_relates`: the bisimulation rule, for a system some of whose events are steps of another one.
* **`run_refines_product`**: a system that relates to a product shows of each component what the
  component does on its own.
-/

import Mathlib.Data.List.Basic
import Mathlib.Logic.Function.Basic
import StatLog.Lib.Transition

namespace Transition

/-! ### Products -/

section

variable {Index : Type*} [DecidableEq Index] {State Event : Index → Type*}
  (step : ∀ index, State index → Event index → Option (State index))

/-- One step of the component that the event is addressed to. -/
def productStep (states : ∀ index, State index) (event : Σ index, Event index) :
    Option (∀ index, State index) :=
  (step event.1 (states event.1) event.2).map (Function.update states event.1)

/-- The event, if it is addressed to the component. -/
def eventAt (index : Index) (event : Σ index, Event index) : Option (Event index) :=
  if same : event.1 = index then some (same ▸ event.2) else none

theorem eventAt_self (index : Index) (event : Event index) :
    eventAt index ⟨index, event⟩ = some event := dif_pos rfl

theorem eventAt_of_ne {index other : Index} (differ : other ≠ index) (event : Event other) :
    eventAt index ⟨other, event⟩ = none := dif_neg differ

theorem eq_of_eventAt {index : Index} {event : Σ index, Event index} {own : Event index}
    (addressed : eventAt index event = some own) : event = ⟨index, own⟩ := by
  obtain ⟨owner, event⟩ := event
  by_cases same : owner = index
  · subst same
    rw [eventAt_self, Option.some.injEq] at addressed
    rw [addressed]
  · rw [eventAt_of_ne same] at addressed
    cases addressed

/-- **A product runs as its components do**, each over the events addressed to it. -/
theorem run_productStep_iff {start final : ∀ index, State index} {events : List (Σ index, Event index)} :
    run (productStep step) start events = some final ↔
      ∀ index, run (step index) (start index) (events.filterMap (eventAt index)) =
        some (final index) := by
  induction events generalizing start with
  | nil =>
    constructor
    · intro runs index
      rw [List.filterMap_nil]
      exact congrArg some (congrFun (Option.some.inj runs) index)
    · intro runs
      exact congrArg some (funext fun index => Option.some.inj (runs index))
  | cons event events ih =>
    obtain ⟨owner, event⟩ := event
    have own : List.filterMap (eventAt owner) (⟨owner, event⟩ :: events) =
        event :: events.filterMap (eventAt owner) :=
      List.filterMap_cons_some (eventAt_self owner event)
    rw [run]
    show ((step owner (start owner) event).map _).bind _ = _ ↔ _
    cases taken : step owner (start owner) event with
    | none =>
      refine iff_of_false (fun runs => by cases runs) fun runs => ?_
      have stuck := runs owner
      rw [own, run, taken] at stuck
      cases stuck
    | some next =>
      rw [Option.map_some, Option.bind_some, ih]
      refine forall_congr' fun index => ?_
      by_cases same : owner = index
      · subst same
        rw [own, run, taken, Option.bind_some, Function.update_self]
      · rw [List.filterMap_cons_none (eventAt_of_ne same event),
          Function.update_of_ne (Ne.symm same)]

end

/-! ### Systems that relate to others -/

section

variable {Whole Event Part Seen : Type*} {step : Whole → Event → Option Whole}
  {stepPart : Part → Seen → Option Part} {project : Event → Option Seen} {Allowed : Event → Prop}

/-- **The bisimulation rule**: if related states take the same allowed steps, and to related states,
then they have the same runs of allowed steps, and to related states. -/
theorem run_relates (Related : Whole → Part → Prop)
    (unseen : ∀ whole part event, Allowed event → Related whole part → project event = none →
      ∃ next, step whole event = some next ∧ Related next part)
    (seen : ∀ whole part event event', Allowed event → Related whole part →
      project event = some event' → Option.Rel Related (step whole event) (stepPart part event'))
    {start : Whole} {startPart : Part} (related : Related start startPart) {events : List Event}
    (allowed : ∀ event ∈ events, Allowed event) :
    Option.Rel Related (run step start events)
      (run stepPart startPart (events.filterMap project)) := by
  induction events generalizing start startPart with
  | nil => exact .some related
  | cons event events ih =>
    have first := allowed event List.mem_cons_self
    have later := fun other member => allowed other (List.mem_cons_of_mem event member)
    cases kind : project event with
    | none =>
      obtain ⟨next, taken, related'⟩ := unseen start startPart event first related kind
      rw [run, taken, Option.bind_some, List.filterMap_cons_none kind]
      exact ih related' later
    | some event' =>
      rw [run, List.filterMap_cons_some kind, run]
      have steps := seen start startPart event event' first related kind
      generalize step start event = next, stepPart startPart event' = nextPart at steps
      cases steps with
      | none => exact .none
      | some related' => exact ih related' later

end

/-- **A system that relates to a product** runs exactly if every component runs over its own events,
and then relates to what they run to. -/
theorem run_refines_product {Whole Event Index : Type*} [DecidableEq Index]
    {State PartEvent : Index → Type*}
    {stepPart : ∀ index, State index → PartEvent index → Option (State index)}
    {start : Whole} {startParts : ∀ index, State index} {step : Whole → Event → Option Whole}
    {project : Event → Option (Σ index, PartEvent index)} {events : List Event}
    {Related : Whole → (∀ index, State index) → Prop}
    (relates : Option.Rel Related (run step start events)
      (run (productStep stepPart) startParts (events.filterMap project))) :
    ((run step start events).isSome ↔ ∀ index, (run (stepPart index) (startParts index)
        (events.filterMap fun event => (project event).bind (eventAt index))).isSome) ∧
      ∀ final parts, run step start events = some final →
        (∀ index, run (stepPart index) (startParts index)
          (events.filterMap fun event => (project event).bind (eventAt index)) = some (parts index)) →
        Related final parts := by
  have own : ∀ index, events.filterMap (fun event => (project event).bind (eventAt index)) =
      (events.filterMap project).filterMap (eventAt index) := by
    intro index
    rw [List.filterMap_filterMap]
  simp only [own]
  have product : ∀ parts, run (productStep stepPart) startParts (events.filterMap project) =
      some parts ↔ ∀ index, run (stepPart index) (startParts index)
        ((events.filterMap project).filterMap (eventAt index)) = some (parts index) :=
    fun parts => run_productStep_iff stepPart
  refine ⟨⟨fun runs index => ?_, fun runs => ?_⟩, fun final parts runs parted => ?_⟩
  · obtain ⟨final, runs⟩ := Option.isSome_iff_exists.mp runs
    rw [runs] at relates
    obtain ⟨parts, runsParts, -⟩ : ∃ parts, run (productStep stepPart) startParts
        (events.filterMap project) = some parts ∧ Related final parts := by
      generalize run (productStep stepPart) startParts (events.filterMap project) = outcome at relates
      cases relates with
      | some related => exact ⟨_, rfl, related⟩
    rw [(product parts).mp runsParts index]
    rfl
  · choose parts parted using fun index => Option.isSome_iff_exists.mp (runs index)
    rw [(product parts).mpr parted] at relates
    generalize run step start events = outcome at relates
    cases relates with
    | some related => rfl
  · rw [runs, (product parts).mpr parted] at relates
    cases relates with
    | some related => exact related

end Transition
