/-
**The serializer thread.**

`init` of the operational process starts a thread when a stat needs deferred serialization. The thread
sets `serializer_running` and serializes all stats while it is set; `stop` clears it and joins the
thread, but returns at once when it reads `false`.

* `Event`, `step`: the main thread, the serializer thread and writes of stats, in any order.
* `SetBeforeTest`: the new thread had set `serializer_running` before `stop` tested it.
* `Situation`: what main thread, serializer thread and flag can be like at the same time, with
  `situation_step` and `situation_run`.
* **`stop_silent_iff`**: `stop` ends the serializer exactly if the test came after the new thread's
  first step.
-/

import StatLog.Lib.Transition
import StatLog.Tags.Handles

namespace StatLog.Tags

open ByteMemory Placement RoseTree Stats Transition

variable {Tag Sample : Type}

/-- `need_deferred_serialization`, which asks for the type of every tag in the list. -/
def needDeferredSerialization (statTagToType : Tag → StatType Sample)
    (theStats : List (LogStatNode Tag Sample)) : Bool :=
  theStats.any fun node => (statTagToType node.tag).isSerializationDeferred

namespace Serializer

/-! ### The two threads -/

/-- Where the main thread is. -/
inductive MainPc
  | constructed
  /-- Behind `init`. -/
  | operational
  /-- In `doStop`, before it clears `serializer_running`. -/
  | stopping
  /-- In `doStop`, before `join` returns. -/
  | joining
  /-- Behind `stop`. -/
  | stopped
  deriving DecidableEq

/-- Where `serialization_thread` is. -/
inductive ThreadPc (Tag Sample : Type)
  | none
  /-- Before its first step. -/
  | created
  /-- At the test of its loop. -/
  | testing
  /-- In `for_each`, with the stats that are still to be serialized. -/
  | serializing (rest : List (PlacedNode Tag Sample))
  | finished

/-- **The operational process**, with the samples of all accumulators. -/
structure Process (Tag Sample : Type) where
  theStats : List (PlacedNode Tag Sample)
  accums : Tag → Accums Sample
  mem : Mem
  serializerRunning : Bool
  serializationThread : ThreadPc Tag Sample
  mainThread : MainPc

inductive Event (Tag Sample : Type)
  | init
  | writeStat (statTag : Tag) (indices : List Int) (value : Sample)
  /-- `stop`, up to the test of `serializer_running`. -/
  | testRunning
  | clearRunning
  | join
  /-- The first step of the new thread. -/
  | setRunning
  | testLoop
  /-- `doSerialize` of one stat. -/
  | doSerialize
  /-- `sleep_for` returns. -/
  | wake

/-- The process before `init`. -/
def constructed (accums : Tag → Accums Sample) (mem : Mem) : Process Tag Sample where
  theStats := []
  accums := accums
  mem := mem
  serializerRunning := false
  serializationThread := .none
  mainThread := .constructed

section

variable (statTagToType : Tag → StatType Sample) (statTagTree logTagTree : LabelTree Tag)

/-- `init`, `doInit` included. -/
def init (process : Process Tag Sample) : Process Tag Sample :=
  let logStat := LogStatBase.init statTagToType true statTagTree logTagTree process.mem
  { process with
    theStats := logStat.theStats
    mem := logStat.mem
    serializationThread :=
      if needDeferredSerialization statTagToType (logStat.theStats.map Placed.item) then .created
      else .none
    mainThread := .operational }

/-- **One step** of one of the threads. -/
def step [DecidableEq Tag] (process : Process Tag Sample) :
    Event Tag Sample → Option (Process Tag Sample)
  | .init =>
    match process.mainThread with
    | .constructed => some (init statTagToType statTagTree logTagTree process)
    | _ => none
  | .writeStat statTag indices value =>
    (LogStatOperational.writeStat process.theStats process.accums process.mem statTag indices
      value).map fun next => { process with accums := next.1, mem := next.2 }
  | .testRunning =>
    match process.mainThread with
    | .operational => some { process with
        mainThread := if process.serializerRunning = false then .stopped else .stopping }
    | _ => none
  | .clearRunning =>
    match process.mainThread with
    | .stopping => some { process with serializerRunning := false, mainThread := .joining }
    | _ => none
  | .join =>
    match process.mainThread, process.serializationThread with
    | .joining, .finished => some { process with mainThread := .stopped }
    | _, _ => none
  | .setRunning =>
    match process.serializationThread with
    | .created => some { process with serializerRunning := true, serializationThread := .testing }
    | _ => none
  | .testLoop =>
    match process.serializationThread with
    | .testing => some { process with
        serializationThread :=
          if process.serializerRunning then .serializing process.theStats else .finished }
    | _ => none
  | .doSerialize =>
    match process.serializationThread with
    | .serializing (placed :: rest) => some { process with
        mem := LogStatOperational.serializeNode process.accums process.mem placed
        serializationThread := .serializing rest }
    | _ => none
  | .wake =>
    match process.serializationThread with
    | .serializing [] => some { process with serializationThread := .testing }
    | _ => none

/-- No stat is serialized any more, whatever the threads do. -/
def Silent [DecidableEq Tag] (process : Process Tag Sample) : Prop :=
  ∀ later final, run (step statTagToType statTagTree logTagTree) process later = some final →
    Event.doSerialize ∉ later

end

/-- **The new thread had set `serializer_running` before `stop` tested it.** -/
def SetBeforeTest (history : List (Event Tag Sample)) : Prop :=
  ∃ before after, history = before ++ .testRunning :: after ∧ Event.setRunning ∈ before

theorem not_setBeforeTest {history : List (Event Tag Sample)}
    (untested : Event.testRunning ∉ history) : ¬ SetBeforeTest history := by
  rintro ⟨before, after, rfl, -⟩
  exact untested (List.mem_append_right _ List.mem_cons_self)

theorem SetBeforeTest.concat {history : List (Event Tag Sample)} (ordered : SetBeforeTest history)
    (event : Event Tag Sample) : SetBeforeTest (history ++ [event]) := by
  obtain ⟨before, after, rfl, set⟩ := ordered
  exact ⟨before, after ++ [event], by simp, set⟩

/-- Only the test itself decides the order. -/
theorem setBeforeTest_concat {history : List (Event Tag Sample)} {event : Event Tag Sample} :
    SetBeforeTest (history ++ [event]) ↔
      SetBeforeTest history ∨ event = .testRunning ∧ Event.setRunning ∈ history := by
  constructor
  · rintro ⟨before, after, split, set⟩
    rcases List.eq_nil_or_concat after with rfl | ⟨earlier, newest, rfl⟩
    · obtain ⟨rfl, last⟩ := List.append_inj' split rfl
      exact Or.inr ⟨List.singleton_inj.mp last, set⟩
    · rw [List.concat_eq_append, ← List.cons_append, ← List.append_assoc] at split
      exact Or.inl ⟨before, earlier, (List.append_inj' split rfl).1, set⟩
  · rintro (ordered | ⟨rfl, set⟩)
    · exact ordered.concat event
    · exact ⟨history, [], rfl, set⟩

/-! ### Where the two threads can be -/

/-- The thread is at the test of its loop or in the loop. -/
inductive ThreadPc.Looping : ThreadPc Tag Sample → Prop
  | testing : Looping .testing
  | serializing (rest : List (PlacedNode Tag Sample)) : Looping (.serializing rest)

/-- **What main thread, serializer thread and `serializer_running` can be like** behind the steps so
far. -/
inductive Situation (history : List (Event Tag Sample)) : MainPc → ThreadPc Tag Sample → Bool → Prop
  | constructed (unset : Event.setRunning ∉ history) (untested : Event.testRunning ∉ history) :
    Situation history .constructed .none false
  | created (unset : Event.setRunning ∉ history) (untested : Event.testRunning ∉ history) :
    Situation history .operational .created false
  | serving {thread : ThreadPc Tag Sample} (looping : thread.Looping)
    (set : Event.setRunning ∈ history) (untested : Event.testRunning ∉ history) :
    Situation history .operational thread true
  | stopping {thread : ThreadPc Tag Sample} (looping : thread.Looping)
    (ordered : SetBeforeTest history) : Situation history .stopping thread true
  | joining {thread : ThreadPc Tag Sample} (looping : thread.Looping)
    (ordered : SetBeforeTest history) : Situation history .joining thread false
  | finished (ordered : SetBeforeTest history) : Situation history .joining .finished false
  | stopped (ordered : SetBeforeTest history) : Situation history .stopped .finished false
  /-- `stop` has returned early, and the thread has not begun. -/
  | missed (unordered : ¬ SetBeforeTest history) : Situation history .stopped .created false
  /-- `stop` has returned early, and the thread runs. -/
  | escaped {thread : ThreadPc Tag Sample} (looping : thread.Looping)
    (unordered : ¬ SetBeforeTest history) : Situation history .stopped thread true

section

variable {history : List (Event Tag Sample)} {main : MainPc} {thread thread' : ThreadPc Tag Sample}
  {running : Bool}

theorem not_mem_concat {event other : Event Tag Sample} (missing : other ∉ history)
    (differ : event ≠ other) : other ∉ history ++ [event] := by
  intro member
  rcases List.mem_append.mp member with earlier | last
  · exact missing earlier
  · exact differ (List.mem_singleton.mp last).symm

theorem not_setBeforeTest_concat {event : Event Tag Sample} (unordered : ¬ SetBeforeTest history)
    (noTest : event ≠ .testRunning) : ¬ SetBeforeTest (history ++ [event]) := by
  intro after
  rcases setBeforeTest_concat.mp after with ordered | ⟨test, -⟩
  · exact unordered ordered
  · exact noTest test

/-- One more event that neither sets nor tests `serializer_running`. -/
theorem Situation.concat (situation : Situation history main thread running)
    (event : Event Tag Sample) (noSet : event ≠ .setRunning) (noTest : event ≠ .testRunning) :
    Situation (history ++ [event]) main thread running := by
  cases situation with
  | constructed unset untested =>
    exact .constructed (not_mem_concat unset noSet) (not_mem_concat untested noTest)
  | created unset untested =>
    exact .created (not_mem_concat unset noSet) (not_mem_concat untested noTest)
  | serving looping set untested =>
    exact .serving looping (List.mem_append_left _ set) (not_mem_concat untested noTest)
  | stopping looping ordered => exact .stopping looping (ordered.concat event)
  | joining looping ordered => exact .joining looping (ordered.concat event)
  | finished ordered => exact .finished (ordered.concat event)
  | stopped ordered => exact .stopped (ordered.concat event)
  | missed unordered => exact .missed (not_setBeforeTest_concat unordered noTest)
  | escaped looping unordered => exact .escaped looping (not_setBeforeTest_concat unordered noTest)

/-- A thread in its loop may be anywhere in it. -/
theorem Situation.loop (situation : Situation history main thread running)
    (looping : thread.Looping) (looping' : thread'.Looping) :
    Situation history main thread' running := by
  cases situation with
  | constructed => cases looping
  | created => cases looping
  | serving _ set untested => exact .serving looping' set untested
  | stopping _ ordered => exact .stopping looping' ordered
  | joining _ ordered => exact .joining looping' ordered
  | finished => cases looping
  | stopped => cases looping
  | missed => cases looping
  | escaped _ unordered => exact .escaped looping' unordered

end

/-! ### Runs -/

section

variable {statTagToType : Tag → StatType Sample} {statTagTree logTagTree : LabelTree Tag}

/-- A tree has a root, so there are stats. -/
theorem theStats_init_ne_nil (mem : Mem) :
    (LogStatBase.init statTagToType true statTagTree logTagTree mem).theStats ≠ [] := by
  intro empty
  have tags := LogStatBase.map_tag_theStats statTagToType statTagTree logTagTree true mem
  rw [empty, List.map_nil] at tags
  have labels : statTagTree.labels = [] := List.reverse_eq_nil_iff.mp tags.symm
  cases statTagTree <;> cases labels

/-- `init` of a process whose stats need deferred serialization starts the thread. -/
theorem serializationThread_init
    (needed : needDeferredSerialization statTagToType
      (tagListCreator statTagToType true true (tagHierarchy statTagTree)) = true)
    (process : Process Tag Sample) :
    (init statTagToType statTagTree logTagTree process).serializationThread = .created := by
  have items : (LogStatBase.init statTagToType true statTagTree logTagTree
      process.mem).theStats.map Placed.item =
        tagListCreator statTagToType true true (tagHierarchy statTagTree) := by
    rw [LogStatBase.theStats_init, map_item_place]
  rw [← items] at needed
  exact if_pos needed

variable [DecidableEq Tag] {history : List (Event Tag Sample)} {process next : Process Tag Sample}

/-- **Every step leads from one situation to another.** -/
theorem situation_step
    (needed : needDeferredSerialization statTagToType
      (tagListCreator statTagToType true true (tagHierarchy statTagTree)) = true)
    {event : Event Tag Sample}
    (situation : Situation history process.mainThread process.serializationThread
      process.serializerRunning)
    (taken : step statTagToType statTagTree logTagTree process event = some next) :
    Situation (history ++ [event]) next.mainThread next.serializationThread
      next.serializerRunning := by
  obtain ⟨theStats, accums, mem, running, thread, main⟩ := process
  cases event with
  | init =>
    cases situation with
    | constructed unset untested =>
      obtain rfl := Option.some.inj taken
      rw [serializationThread_init needed]
      exact (Situation.created unset untested).concat .init nofun nofun
    | _ => cases taken
  | writeStat statTag indices value =>
    obtain ⟨written, -, rfl⟩ := Option.map_eq_some_iff.mp taken
    exact situation.concat (.writeStat statTag indices value) nofun nofun
  | testRunning =>
    cases situation with
    | created unset untested =>
      obtain rfl := Option.some.inj taken
      refine .missed fun ordered => ?_
      rcases setBeforeTest_concat.mp ordered with earlier | ⟨-, set⟩
      · exact not_setBeforeTest untested earlier
      · exact unset set
    | serving looping set untested =>
      obtain rfl := Option.some.inj taken
      exact .stopping looping (setBeforeTest_concat.mpr (Or.inr ⟨rfl, set⟩))
    | _ => cases taken
  | clearRunning =>
    cases situation with
    | stopping looping ordered =>
      obtain rfl := Option.some.inj taken
      exact .joining looping (ordered.concat .clearRunning)
    | _ => cases taken
  | join =>
    cases situation with
    | joining looping ordered => cases looping <;> cases taken
    | finished ordered =>
      obtain rfl := Option.some.inj taken
      exact .stopped (ordered.concat .join)
    | _ => cases taken
  | setRunning =>
    simp only [step] at taken
    split at taken
    · obtain rfl := Option.some.inj taken
      cases situation with
      | created unset untested =>
        exact .serving .testing (List.mem_append_right _ List.mem_cons_self)
          (not_mem_concat untested nofun)
      | serving looping => cases looping
      | stopping looping => cases looping
      | joining looping => cases looping
      | missed unordered => exact .escaped .testing (not_setBeforeTest_concat unordered nofun)
      | escaped looping => cases looping
    · cases taken
  | testLoop =>
    have later := situation.concat .testLoop nofun nofun
    simp only [step] at taken
    split at taken
    · obtain rfl := Option.some.inj taken
      cases running with
      | true => exact later.loop .testing (.serializing theStats)
      | false =>
        cases later with
        | joining _ ordered => exact .finished ordered
    · cases taken
  | doSerialize =>
    have later := situation.concat .doSerialize nofun nofun
    simp only [step] at taken
    split at taken
    · obtain rfl := Option.some.inj taken
      exact later.loop (.serializing _) (.serializing _)
    · cases taken
  | wake =>
    have later := situation.concat .wake nofun nofun
    simp only [step] at taken
    split at taken
    · obtain rfl := Option.some.inj taken
      exact later.loop (.serializing _) .testing
    · cases taken

/-- The stats of a process behind `init`. -/
theorem theStats_step {event : Event Tag Sample}
    (stats : process.mainThread = .constructed ∨ process.theStats ≠ [])
    (taken : step statTagToType statTagTree logTagTree process event = some next) :
    next.mainThread = .constructed ∨ next.theStats ≠ [] := by
  cases event with
  | init =>
    simp only [step] at taken
    split at taken
    · obtain rfl := Option.some.inj taken
      exact Or.inr (theStats_init_ne_nil process.mem)
    · cases taken
  | writeStat statTag indices value =>
    obtain ⟨written, -, rfl⟩ := Option.map_eq_some_iff.mp taken
    exact stats
  | _ =>
    simp only [step] at taken
    split at taken
    · rename_i at_pc
      obtain rfl := Option.some.inj taken
      simp_all
    · cases taken

/-- **The situation behind every run.** -/
theorem situation_run
    (needed : needDeferredSerialization statTagToType
      (tagListCreator statTagToType true true (tagHierarchy statTagTree)) = true)
    {accums : Tag → Accums Sample} {mem : Mem}
    (runs : run (step statTagToType statTagTree logTagTree) (constructed accums mem) history =
      some process) :
    Situation history process.mainThread process.serializationThread process.serializerRunning ∧
      (process.mainThread = .constructed ∨ process.theStats ≠ []) := by
  refine run_induction (step statTagToType statTagTree logTagTree) (fun history process =>
    Situation history process.mainThread process.serializationThread process.serializerRunning ∧
      (process.mainThread = .constructed ∨ process.theStats ≠ [])) ?_ ?_ runs
  · exact ⟨.constructed List.not_mem_nil List.not_mem_nil, Or.inl rfl⟩
  · rintro history process event next ⟨situation, stats⟩ taken
    exact ⟨situation_step needed situation taken, theStats_step stats taken⟩

/-! ### Behind `stop` -/

/-- A thread that has finished takes no step. -/
theorem silent_of_finished (main : process.mainThread = .stopped)
    (thread : process.serializationThread = .finished) :
    Silent statTagToType statTagTree logTagTree process := by
  intro later final runs
  refine (run_induction (step statTagToType statTagTree logTagTree) (fun later process =>
    process.mainThread = .stopped ∧ process.serializationThread = .finished ∧
      Event.doSerialize ∉ later) ⟨main, thread, List.not_mem_nil⟩ ?_ runs).2.2
  rintro later process event next ⟨main, thread, silent⟩ taken
  cases event with
  | writeStat statTag indices value =>
    obtain ⟨written, -, rfl⟩ := Option.map_eq_some_iff.mp taken
    exact ⟨main, thread, not_mem_concat silent nofun⟩
  | _ =>
    simp only [step, main, thread] at taken
    cases taken

theorem not_silent_of_step {event : Event Tag Sample}
    (taken : step statTagToType statTagTree logTagTree process event = some next)
    (speaks : ¬ Silent statTagToType statTagTree logTagTree next) :
    ¬ Silent statTagToType statTagTree logTagTree process := by
  intro silent
  refine speaks fun later final runs member => ?_
  exact silent (event :: later) final (by rw [run, taken, Option.bind_some, runs])
    (List.mem_cons_of_mem _ member)

theorem not_silent_of_serializing {placed : PlacedNode Tag Sample}
    {rest : List (PlacedNode Tag Sample)}
    (thread : process.serializationThread = .serializing (placed :: rest)) :
    ¬ Silent statTagToType statTagTree logTagTree process := by
  have taken : step statTagToType statTagTree logTagTree process .doSerialize = some { process with
      mem := LogStatOperational.serializeNode process.accums process.mem placed
      serializationThread := .serializing rest } := by
    simp only [step, thread]
  intro silent
  exact silent [.doSerialize] _ (by rw [run, taken]; rfl) List.mem_cons_self

theorem not_silent_of_testing (stats : process.theStats ≠ [])
    (running : process.serializerRunning = true)
    (thread : process.serializationThread = .testing) :
    ¬ Silent statTagToType statTagTree logTagTree process := by
  obtain ⟨placed, rest, theStats⟩ := List.exists_cons_of_ne_nil stats
  have taken : step statTagToType statTagTree logTagTree process .testLoop = some { process with
      serializationThread := .serializing (placed :: rest) } := by
    simp only [step, thread, running, theStats, if_true]
  exact not_silent_of_step taken (not_silent_of_serializing rfl)

/-- A thread that still finds `serializer_running` set serializes its stats again. -/
theorem not_silent_of_looping (stats : process.theStats ≠ [])
    (running : process.serializerRunning = true)
    (looping : process.serializationThread.Looping) :
    ¬ Silent statTagToType statTagTree logTagTree process := by
  generalize thread : process.serializationThread = pc at looping
  cases looping with
  | testing => exact not_silent_of_testing stats running thread
  | serializing rest =>
    cases rest with
    | cons placed rest => exact not_silent_of_serializing thread
    | nil =>
      have taken : step statTagToType statTagTree logTagTree process .wake = some { process with
          serializationThread := .testing } := by
        simp only [step, thread]
      exact not_silent_of_step taken (not_silent_of_testing stats running rfl)

/-- A thread that has not begun yet will do so. -/
theorem not_silent_of_created (stats : process.theStats ≠ [])
    (thread : process.serializationThread = .created) :
    ¬ Silent statTagToType statTagTree logTagTree process := by
  have taken : step statTagToType statTagTree logTagTree process .setRunning = some { process with
      serializerRunning := true, serializationThread := .testing } := by
    simp only [step, thread]
  exact not_silent_of_step taken (not_silent_of_testing stats rfl rfl)

/-- **`stop` ends the serializer thread exactly if the thread had set `serializer_running` before
`stop` tested it.** Otherwise `stop` returns without a join, and the thread serializes for ever. -/
theorem stop_silent_iff
    (needed : needDeferredSerialization statTagToType
      (tagListCreator statTagToType true true (tagHierarchy statTagTree)) = true)
    {accums : Tag → Accums Sample} {mem : Mem}
    (runs : run (step statTagToType statTagTree logTagTree) (constructed accums mem) history =
      some process)
    (returned : process.mainThread = .stopped) :
    Silent statTagToType statTagTree logTagTree process ↔ SetBeforeTest history := by
  obtain ⟨situation, stats⟩ := situation_run needed runs
  have stats : process.theStats ≠ [] := by
    rcases stats with main | stats
    · rw [returned] at main
      cases main
    · exact stats
  rw [returned] at situation
  generalize thread : process.serializationThread = pc at situation
  generalize running : process.serializerRunning = flag at situation
  cases situation with
  | stopped ordered => exact iff_of_true (silent_of_finished returned thread) ordered
  | missed unordered => exact iff_of_false (not_silent_of_created stats thread) unordered
  | escaped looping unordered =>
    rw [← thread] at looping
    exact iff_of_false (not_silent_of_looping stats running looping) unordered

end

/-- One accumulator below the root. -/
def oneCount : Nat → StatType Nat := fun tag =>
  .element (if tag = 1 then .accumulator [count] else .nullStat)

def oneCountTree : LabelTree Nat := .parent 0 [.leaf 1]

theorem stop_silent_iff_started : ∃ process : Process Nat Nat,
    run (step oneCount oneCountTree (.leaf 0)) (constructed (fun _ _ => []) (fun _ => 0))
        [.init, .setRunning, .testRunning, .clearRunning, .testLoop, .join] = some process ∧
      Silent oneCount oneCountTree (.leaf 0) process := by
  have runs : run (step oneCount oneCountTree (.leaf 0)) (constructed (fun _ _ => []) (fun _ => 0))
      [.init, .setRunning, .testRunning, .clearRunning, .testLoop, .join] = some _ := rfl
  exact ⟨_, runs, (stop_silent_iff rfl runs rfl).mpr ⟨[.init, .setRunning], _, rfl, by simp⟩⟩

/-- `stop` before the new thread's first step: the thread serializes all the same. -/
theorem stop_before_start : ∃ process final : Process Nat Nat,
    run (step oneCount oneCountTree (.leaf 0)) (constructed (fun _ _ => []) (fun _ => 0))
        [.init, .testRunning] = some process ∧ process.mainThread = .stopped ∧
      run (step oneCount oneCountTree (.leaf 0)) process [.setRunning, .testLoop, .doSerialize] =
        some final :=
  ⟨_, _, rfl, rfl, rfl⟩

end Serializer

end StatLog.Tags
