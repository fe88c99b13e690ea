/-
**When an entry is dropped.**

`try_to_lock` fails whenever any party holds the interprocess mutex. The comment beside it expects
the control process, but another thread of the generator drops an entry just as well.

* `DroppedForReader`: an entry is dropped only while a retriever holds the mutex.
* `NoOtherThreadInside`: `try_to_lock` is called while no other thread is between its own
  `try_to_lock` and its end.
* **`droppedForReader_iff`**: a run drops entries for readers only if and only if each of its
  `try_to_lock` calls is made so.
* `dropped_for_thread`: two threads.
-/

import StatLog.Logger.Snapshot

set_option linter.unusedSectionVars false

namespace StatLog.Logger

open Transition Mutex

variable {Thread Reader : Type} [DecidableEq Thread] [DecidableEq Reader]

namespace System

/-- A dropped entry is dropped while a retriever holds the interprocess mutex. -/
def DroppedForReader (_ : List (LogEvent Thread Reader)) (system : System Thread Reader) :
    LogEvent Thread Reader → Prop
  | .drop _ _ => ∃ reader, system.mutex = some (.inr reader)
  | _ => True

/-- `try_to_lock` is called while no other thread is inside `doWriteData` behind its own. -/
def NoOtherThreadInside (_ : List (LogEvent Thread Reader)) (system : System Thread Reader) :
    LogEvent Thread Reader → Prop
  | .acquire thread _ => ∀ other, other ≠ thread → (system.generators other).inside = false
  | .drop thread _ => ∀ other, other ≠ thread → (system.generators other).inside = false
  | _ => True

/-- At one step, a drop for a reader is a drop with no other thread inside. -/
theorem Takes.droppedForReader_step {size : Nat} (history : List (LogEvent Thread Reader))
    {system next : System Thread Reader} {event : LogEvent Thread Reader}
    (guards : Guards system.mutex system.Inside)
    (taken : system.Takes size event next) :
    DroppedForReader history system event ↔ NoOtherThreadInside history system event := by
  cases taken with
  | @acquire thread call trying free =>
    refine ⟨fun _ other _ => ?_, fun _ => trivial⟩
    rw [free] at guards
    apply Bool.eq_false_iff.mpr
    intro inside
    have entered : system.Inside (.inl other) := inside
    exact guards.free entered
  | @drop thread call trying taken =>
    constructor
    · rintro ⟨reader, owner⟩ other -
      rw [owner] at guards
      apply Bool.eq_false_iff.mpr
      intro inside
      have entered : system.Inside (.inl other) := inside
      cases (guards (.inl other)).mp entered
    · intro noOther
      rcases owner : system.mutex with _ | other | reader
      · exact absurd owner taken
      · have entered : system.Inside (.inl other) := (guards _).mpr owner
        have inside : (system.generators other).inside = true := entered
        have different : other ≠ thread := by
          rintro rfl
          rw [trying] at inside
          cases inside
        rw [noOther other different] at inside
        cases inside
      · exact ⟨reader, owner⟩
  | _ => exact Iff.rfl

/-- **When entries are dropped only because of a reader.** This is so in a run if and only if none of
its `try_to_lock` calls is made while another thread is inside. -/
theorem droppedForReader_iff {size : Nat} (positive : 0 < numLogEntriesOf size)
    {history : List (LogEvent Thread Reader)} {final : System Thread Reader}
    (runs : run (step size) initial history = some final) :
    Along (step size) initial history DroppedForReader ↔
      Along (step size) initial history NoOtherThreadInside := by
  have invariant : ∀ {history : List (LogEvent Thread Reader)} {system : System Thread Reader},
      run (step size) initial history = some system → Guards system.mutex system.Inside :=
    fun runs => (consistent_of_run positive runs).guards
  constructor
  · intro along
    exact along.mono (fun _ system => Guards system.mutex system.Inside) invariant runs
      fun history _ _ _ guards taken => ((takes_of_step taken).droppedForReader_step history guards).mp
  · intro along
    exact along.mono (fun _ system => Guards system.mutex system.Inside) invariant runs
      fun history _ _ _ guards taken => ((takes_of_step taken).droppedForReader_step history guards).mpr

/-- A thread logs while a retriever copies. -/
def droppedHistory : List (LogEvent Bool Unit) :=
  [.getLog (), .lock (), .call false sampleEntry, .drop false sampleEntry]

/-- One thread, and a retriever that holds the mutex. -/
theorem droppedForReader_copying :
    Along (step 512) (initial : System Bool Unit) droppedHistory DroppedForReader ↔
      Along (step 512) (initial : System Bool Unit) droppedHistory NoOtherThreadInside := by
  have runs : (run (step 512) (initial : System Bool Unit) droppedHistory).isSome = true := by
    decide +kernel
  obtain ⟨final, runs⟩ := Option.isSome_iff_exists.mp runs
  exact droppedForReader_iff (by decide) runs

/-- **Not only because of a reader**: two threads, and no retriever at all. -/
theorem dropped_for_thread :
    ¬ ∀ (size : Nat) (history : List (LogEvent Bool Empty)) (final : System Bool Empty),
      0 < numLogEntriesOf size → run (step size) initial history = some final →
      Along (step size) initial history DroppedForReader := by
  intro always
  have runs : (run (step 512) (initial : System Bool Empty)
      [.call false sampleEntry, .call true sampleEntry, .acquire false sampleEntry,
        .drop true sampleEntry]).isSome = true := by
    decide +kernel
  obtain ⟨final, runs⟩ := Option.isSome_iff_exists.mp runs
  have split : run (step 512) (initial : System Bool Empty)
      ([.call false sampleEntry, .call true sampleEntry, .acquire false sampleEntry] ++
        .drop true sampleEntry :: []) = some final := runs
  obtain ⟨system, next, reached, taken, -⟩ := run_split (step 512) split
  obtain ⟨reader, -⟩ := always 512 _ final (by decide) runs _ _ [] system rfl reached
  cases reader

end System

end StatLog.Logger
