/-
**Runs of a guarded step function.**

A system takes one step for each event; an event that its state does not allow has no step.

* `run`: the state after a list of events; `run_append`, `run_concat`, `run_split` take a run apart,
  `run_flatMap` takes its steps apart.
* **`run_induction`**: what holds at the start and is kept by every step holds after every run. The
  invariant may speak about the events so far.
* `exists_run`: events that every state of an invariant has a step for have a run.
* `run_project`: a component that sees some of the events runs along with the system; `run_embed`: one
  that takes all the steps of the system.
* `run_erase`: steps without effect may be left out; `exists_of_run_ne`: what a run changed, one of its
  events may change.
* `labels`, `run_labels`: a system that simulates another one, by what its steps are labelled with.
* **`run_measure`**: a measure bounds how many steps of some kind a run has.
* `Along`: a condition on every step of a run; `Along.mono` compares two such conditions under an
  invariant.
* `last_concat`: the last occurrence of an event, one event later.
-/

import Mathlib.Data.List.Induction

namespace Transition

variable {State Event : Type*} (step : State → Event → Option State)

/-- The state after a list of events. -/
def run (start : State) : List Event → Option State
  | [] => some start
  | event :: events => (step start event).bind fun next => run next events

theorem run_append (start : State) (before after : List Event) :
    run step start (before ++ after) =
      (run step start before).bind fun state => run step state after := by
  induction before generalizing start with
  | nil => rfl
  | cons event before ih =>
    rw [List.cons_append, run, run]
    cases step start event with
    | none => rfl
    | some next => exact ih next

/-- A system whose steps are runs of another one. -/
theorem run_flatMap {Fine : Type*} (fine : State → Fine → Option State) (expand : Event → List Fine)
    (steps : ∀ state event, step state event = run fine state (expand event)) (start : State)
    (events : List Event) : run step start events = run fine start (events.flatMap expand) := by
  induction events generalizing start with
  | nil => rfl
  | cons event events ih =>
    rw [run, steps, List.flatMap_cons, run_append]
    congr 1
    funext next
    exact ih next

/-- **A system that steps one of its parts** runs as the part does. -/
theorem run_embed {Whole Part : Type*} {stepWhole : Whole → Event → Option Whole}
    {stepPart : Part → Event → Option Part} (get : Whole → Part) (put : Whole → Part → Whole)
    (put_get : ∀ whole, put whole (get whole) = whole)
    (get_put : ∀ whole part, get (put whole part) = part)
    (put_put : ∀ whole part part', put (put whole part) part' = put whole part')
    (steps : ∀ whole event, stepWhole whole event = (stepPart (get whole) event).map (put whole))
    (start : Whole) (events : List Event) :
    run stepWhole start events = (run stepPart (get start) events).map (put start) := by
  induction events generalizing start with
  | nil => exact congrArg some (put_get start).symm
  | cons event events ih =>
    rw [run, run, steps]
    cases stepPart (get start) event with
    | none => rfl
    | some next =>
      rw [Option.map_some, Option.bind_some, Option.bind_some, ih, get_put]
      congr 1
      funext final
      exact put_put start next final

/-- The last step of a run. -/
theorem run_concat {start state : State} {history : List Event} {event : Event} :
    run step start (history ++ [event]) = some state ↔
      ∃ before, run step start history = some before ∧ step before event = some state := by
  rw [run_append, Option.bind_eq_some_iff]
  refine exists_congr fun before => and_congr_right fun _ => ?_
  rw [run]
  cases step before event with
  | none => exact Iff.rfl
  | some next => exact Iff.rfl

/-- A run through an event. -/
theorem run_split {start final : State} {before after : List Event} {event : Event}
    (runs : run step start (before ++ event :: after) = some final) :
    ∃ state next, run step start before = some state ∧ step state event = some next ∧
      run step next after = some final := by
  rw [run_append, Option.bind_eq_some_iff] at runs
  obtain ⟨state, first, rest⟩ := runs
  rw [run, Option.bind_eq_some_iff] at rest
  obtain ⟨next, taken, last⟩ := rest
  exact ⟨state, next, first, taken, last⟩

/-- **The invariant rule**, for invariants that may speak about the events so far. -/
theorem run_induction (Inv : List Event → State → Prop) {start : State} (initial : Inv [] start)
    (preserved : ∀ history state event next, Inv history state → step state event = some next →
      Inv (history ++ [event]) next)
    {history : List Event} {state : State} (runs : run step start history = some state) :
    Inv history state := by
  induction history using List.reverseRecOn generalizing state with
  | nil =>
    rw [run, Option.some.injEq] at runs
    rwa [← runs]
  | append_singleton history event ih =>
    obtain ⟨before, earlier, taken⟩ := (run_concat step).mp runs
    exact preserved history before event state (ih earlier) taken

/-- **A run of events that every state of an invariant has a step for** goes on to its end. -/
theorem exists_run (Inv : State → Prop) {start : State} {events : List Event} (initial : Inv start)
    (enabled : ∀ event ∈ events, ∀ state, Inv state →
      ∃ next, step state event = some next ∧ Inv next) :
    ∃ final, run step start events = some final := by
  induction events generalizing start with
  | nil => exact ⟨start, rfl⟩
  | cons event events ih =>
    obtain ⟨next, taken, kept⟩ := enabled event List.mem_cons_self start initial
    rw [run, taken, Option.bind_some]
    exact ih kept fun other member => enabled other (List.mem_cons_of_mem _ member)

/-- So does one of events that every state has a step for. -/
theorem run_isSome {start : State} {events : List Event}
    (enabled : ∀ event ∈ events, ∀ state, (step state event).isSome) :
    (run step start events).isSome := by
  refine Option.isSome_iff_exists.mpr (exists_run step (fun _ => True) trivial ?_)
  intro event member state _
  obtain ⟨next, taken⟩ := Option.isSome_iff_exists.mp (enabled event member state)
  exact ⟨next, taken, trivial⟩

/-- **The projection rule**: a relation to a component that sees some of the events, kept by every
allowed step, is kept by every run of allowed steps. -/
theorem run_project {Part Seen : Type*} {step : State → Event → Option State}
    {stepPart : Part → Seen → Option Part} {project : Event → Option Seen} {Allowed : Event → Prop}
    (Related : State → Part → Prop)
    (unseen : ∀ state part event, Allowed event → Related state part → project event = none →
      ∃ next, step state event = some next ∧ Related next part)
    (seen : ∀ state part event event', Allowed event → Related state part →
      project event = some event' → ∃ next nextPart, step state event = some next ∧
        stepPart part event' = some nextPart ∧ Related next nextPart)
    {start : State} {startPart : Part} (related : Related start startPart) {events : List Event}
    (allowed : ∀ event ∈ events, Allowed event) :
    ∃ final finalPart, run step start events = some final ∧
      run stepPart startPart (events.filterMap project) = some finalPart ∧
        Related final finalPart := by
  induction events generalizing start startPart with
  | nil => exact ⟨start, startPart, rfl, rfl, related⟩
  | cons event events ih =>
    have first := allowed event List.mem_cons_self
    have later := fun other member => allowed other (List.mem_cons_of_mem event member)
    cases kind : project event with
    | none =>
      obtain ⟨next, taken, related'⟩ := unseen start startPart event first related kind
      obtain ⟨final, finalPart, runs, runsPart, last⟩ := ih related' later
      refine ⟨final, finalPart, ?_, ?_, last⟩
      · rw [run, taken, Option.bind_some, runs]
      · rw [List.filterMap_cons_none kind, runsPart]
    | some event' =>
      obtain ⟨next, nextPart, taken, takenPart, related'⟩ :=
        seen start startPart event event' first related kind
      obtain ⟨final, finalPart, runs, runsPart, last⟩ := ih related' later
      refine ⟨final, finalPart, ?_, ?_, last⟩
      · rw [run, taken, Option.bind_some, runs]
      · rw [List.filterMap_cons_some kind, run, takenPart, Option.bind_some, runsPart]

/-! ### Steps without effect -/

/-- **The erasure rule**: steps that leave the state as it is may be left out of a run. -/
theorem run_erase {idle : Event → Bool}
    (stays : ∀ state event next, idle event = true → step state event = some next → next = state)
    {start final : State} {events : List Event} (runs : run step start events = some final) :
    run step start (events.filter fun event => !idle event) = some final := by
  induction events generalizing start with
  | nil => exact runs
  | cons event events ih =>
    rw [run, Option.bind_eq_some_iff] at runs
    obtain ⟨next, taken, rest⟩ := runs
    cases kind : idle event with
    | true =>
      obtain rfl := stays start event next kind taken
      rw [List.filter_cons_of_neg (by rw [kind]; decide)]
      exact ih rest
    | false =>
      rw [List.filter_cons_of_pos (by rw [kind]; rfl), run, taken, Option.bind_some]
      exact ih rest

/-- **The frame rule**: what a run changed, one of its events may change. -/
theorem exists_of_run_ne {Seen : Type*} (observe : State → Seen) (MayChange : Event → Prop)
    (frame : ∀ state event next, ¬ MayChange event → step state event = some next →
      observe next = observe state)
    {start final : State} {events : List Event} (runs : run step start events = some final)
    (changed : observe final ≠ observe start) : ∃ event ∈ events, MayChange event := by
  by_contra none
  refine changed (run_induction step (fun history state => (∀ event ∈ history, event ∈ events) →
    observe state = observe start) (fun _ => rfl) ?_ runs fun _ member => member)
  intro history state event next same taken all
  have quiet : ¬ MayChange event := fun may =>
    none ⟨event, all event (List.mem_append_right _ List.mem_cons_self), may⟩
  rw [frame state event next quiet taken]
  exact same fun other member => all other (List.mem_append_left _ member)

/-! ### Labels -/

section

variable {Label : Type*} (label : State → Event → List Label)

/-- What the steps of a run are labelled with. -/
def labels (start : State) : List Event → List Label
  | [] => []
  | event :: events =>
    label start event ++ ((step start event).map fun next => labels next events).getD []

theorem labels_append {start mid : State} {before : List Event} (runs : run step start before = some mid)
    (after : List Event) :
    labels step label start (before ++ after) =
      labels step label start before ++ labels step label mid after := by
  induction before generalizing start with
  | nil =>
    obtain rfl := Option.some.inj runs
    rfl
  | cons event before ih =>
    rw [run, Option.bind_eq_some_iff] at runs
    obtain ⟨next, taken, rest⟩ := runs
    rw [List.cons_append, labels, labels, taken, Option.map_some, Option.map_some, Option.getD_some,
      Option.getD_some, ih rest, List.append_assoc]

/-- **A run's labels are a run of another system**, if those of every step are. -/
theorem run_labels {Other : Type*} {stepOther : Other → Label → Option Other} (Inv : State → Prop)
    (project : State → Other)
    (simulates : ∀ state event next, Inv state → step state event = some next →
      Inv next ∧ run stepOther (project state) (label state event) = some (project next))
    {start final : State} (initial : Inv start) {events : List Event}
    (runs : run step start events = some final) :
    run stepOther (project start) (labels step label start events) = some (project final) := by
  induction events generalizing start with
  | nil =>
    obtain rfl := Option.some.inj runs
    rfl
  | cons event events ih =>
    rw [run, Option.bind_eq_some_iff] at runs
    obtain ⟨next, taken, rest⟩ := runs
    obtain ⟨kept, first⟩ := simulates start event next initial taken
    rw [labels, taken, Option.map_some, Option.getD_some, run_append, first, Option.bind_some]
    exact ih kept rest

end

/-! ### Measures -/

/-- **The measure rule**: if every step of some kind brings a measure down, and no other step brings it
up, then a run has at most as many of them as the measure was at its start. -/
theorem run_measure (Inv : State → Prop) (Allowed : Event → Prop) (own : Event → Bool)
    (measure : State → Nat)
    (steps : ∀ state event next, Inv state → Allowed event → step state event = some next →
      Inv next ∧ measure next + (own event).toNat ≤ measure state)
    {start final : State} (initial : Inv start) {events : List Event}
    (allowed : ∀ event ∈ events, Allowed event) (runs : run step start events = some final) :
    Inv final ∧ events.countP own + measure final ≤ measure start := by
  induction events generalizing start with
  | nil =>
    obtain rfl := Option.some.inj runs
    exact ⟨initial, Nat.le_of_eq (Nat.zero_add _)⟩
  | cons event events ih =>
    rw [run, Option.bind_eq_some_iff] at runs
    obtain ⟨next, taken, rest⟩ := runs
    obtain ⟨kept, less⟩ := steps start event next initial (allowed event List.mem_cons_self) taken
    obtain ⟨last, bound⟩ := ih kept (fun other member => allowed other (List.mem_cons_of_mem _ member)) rest
    refine ⟨last, ?_⟩
    rw [List.countP_cons]
    cases kind : own event with
    | true =>
      rw [kind, Bool.toNat_true] at less
      rw [if_pos rfl]
      omega
    | false =>
      rw [kind, Bool.toNat_false] at less
      rw [if_neg Bool.false_ne_true]
      omega

/-- A condition on every step of a run: on the events before it, the state before it and its
event. -/
def Along (start : State) (history : List Event) (Cond : List Event → State → Event → Prop) : Prop :=
  ∀ before event after state, history = before ++ event :: after →
    run step start before = some state → Cond before state event

variable {step}

/-- A condition that implies another one at every step taken from an invariant's states does so
along every run. -/
theorem Along.mono (Inv : List Event → State → Prop) {start final : State} {history : List Event}
    {Cond Cond' : List Event → State → Event → Prop}
    (invariant : ∀ {history state}, run step start history = some state → Inv history state)
    (runs : run step start history = some final) (along : Along step start history Cond)
    (implied : ∀ history state event next, Inv history state → step state event = some next →
      Cond history state event → Cond' history state event) :
    Along step start history Cond' := by
  intro before event after state split reached
  rw [split] at runs
  obtain ⟨state', next, reached', taken, -⟩ := run_split step runs
  rw [reached, Option.some.injEq] at reached'
  subst reached'
  exact implied before state event next (invariant reached) taken
    (along before event after state split reached)

theorem along_nil (start : State) (Cond : List Event → State → Event → Prop) :
    Along step start [] Cond := by
  intro before event after state split
  have := congrArg List.length split
  simp at this

/-- A condition along a run, one step later. -/
theorem Along.concat {start : State} {history : List Event} {event : Event}
    {Cond : List Event → State → Event → Prop} (along : Along step start history Cond)
    (last : ∀ state, run step start history = some state → Cond history state event) :
    Along step start (history ++ [event]) Cond := by
  intro before other after state split reached
  rcases List.eq_nil_or_concat after with rfl | ⟨earlier, newest, rfl⟩
  · obtain ⟨same, lastEq⟩ := List.append_inj' split rfl
    obtain rfl := List.singleton_inj.mp lastEq
    subst same
    exact last state reached
  · rw [List.concat_eq_append, ← List.cons_append, ← List.append_assoc] at split
    exact along before other earlier state (List.append_inj' split rfl).1 reached

/-- The last occurrence of an event after one more event: it is that event, or the last occurrence
before it. -/
theorem last_concat {history before after : List Event} {event last : Event}
    (split : history ++ [event] = before ++ last :: after) (isLast : last ∉ after) :
    (before = history ∧ after = [] ∧ last = event) ∨
      ∃ earlier, after = earlier ++ [event] ∧ history = before ++ last :: earlier ∧
        last ∉ earlier ∧ event ≠ last := by
  rcases List.eq_nil_or_concat after with rfl | ⟨earlier, newest, rfl⟩
  · obtain ⟨same, lastEq⟩ := List.append_inj' split rfl
    exact Or.inl ⟨same.symm, rfl, (List.singleton_inj.mp lastEq).symm⟩
  · rw [List.concat_eq_append] at split isLast ⊢
    rw [← List.cons_append, ← List.append_assoc] at split
    obtain ⟨same, lastEq⟩ := List.append_inj' split rfl
    obtain rfl := List.singleton_inj.mp lastEq
    refine Or.inr ⟨earlier, rfl, same, fun member => isLast (List.mem_append_left _ member), ?_⟩
    rintro rfl
    exact isLast (List.mem_append_right _ List.mem_cons_self)

end Transition
