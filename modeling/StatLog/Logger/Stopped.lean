/-
**When a party ends inside.**

The interprocess mutex stands in the shared memory and is given back by nobody but the party inside. If
its process ends there, or that thread does not go on, the log is silent until a new generator sets it up.

* `LogEvent.outside`: entering, and dropping an entry.
* `Takes.stopped`, `run_stopped`: the others take only these steps, and the region stays as it is.
* **`stopped_inside`**: threads drop every entry and wait for nothing; retrievers wait forever.
-/

import StatLog.Logger.Progress

set_option linter.unusedSectionVars false

namespace StatLog.Logger

open Transition Mutex

/-- The steps in front of the mutex: a party enters, or a thread drops its entry. -/
def LogEvent.outside {Thread Reader : Type} : LogEvent Thread Reader → Bool
  | .call _ _ => true
  | .drop _ _ => true
  | .getLog _ => true
  | _ => false

namespace System

variable {Thread Reader : Type} [DecidableEq Thread] [DecidableEq Reader] {size : Nat}

section

variable {system next : System Thread Reader} {event : LogEvent Thread Reader} {party : Thread ⊕ Reader}

/-- **A step of another party** is one in front of the mutex. -/
theorem Takes.stopped (sound : system.Sound size) (owner : system.mutex = some party)
    (other : event.party ≠ party) (taken : system.Takes size event next) :
    event.outside = true ∧ next.ring = system.ring ∧ next.mutex = some party := by
  -- Whoever is inside is the owner.
  have outside : ∀ one, system.Inside one → one = party := fun one inside =>
    Option.some.inj (((sound.mutex one).mp inside).symm.trans owner)
  cases taken with
  | call idle => exact ⟨rfl, rfl, owner⟩
  | acquire trying free =>
    rw [free] at owner
    cases owner
  | drop trying held => exact ⟨rfl, rfl, owner⟩
  | @lockMtx thread call locking =>
    refine absurd (outside (.inl thread) ?_) other
    show (system.generators thread).inside = true
    rw [locking]
    rfl
  | @unlockMtx thread call startLogIdx unlocking =>
    refine absurd (outside (.inl thread) ?_) other
    show (system.generators thread).inside = true
    rw [unlocking]
    rfl
  | @access thread pc ring accessed =>
    obtain ⟨-, -, inside, -⟩ := GeneratorPc.step_finish (sound.ok thread) accessed
    exact absurd (outside (.inl thread) inside) other
  | @unlock thread leaving =>
    refine absurd (outside (.inl thread) ?_) other
    show (system.generators thread).inside = true
    rw [leaving]
    rfl
  | getLog idle => exact ⟨rfl, rfl, owner⟩
  | lock waiting free =>
    rw [free] at owner
    cases owner
  | @copyByte reader tempLogBuf copying more =>
    refine absurd (outside (.inr reader) ?_) other
    show (system.retrievers reader).inside = true
    rw [copying]
    rfl
  | @finished reader tempLogBuf copying whole =>
    refine absurd (outside (.inr reader) ?_) other
    show (system.retrievers reader).inside = true
    rw [copying]
    rfl

/-- **A run without the owner.** -/
theorem run_stopped (sound : system.Sound size) (owner : system.mutex = some party)
    {events : List (LogEvent Thread Reader)} (others : ∀ event ∈ events, event.party ≠ party)
    {final : System Thread Reader} (runs : run (step size) system events = some final) :
    final.Sound size ∧ (∀ event ∈ events, event.outside = true) ∧ final.ring = system.ring ∧
      final.mutex = some party := by
  induction events generalizing system with
  | nil =>
    obtain rfl := Option.some.inj runs
    exact ⟨sound, List.forall_mem_nil _, rfl, owner⟩
  | cons event events ih =>
    obtain ⟨next, taken, rest⟩ := Option.bind_eq_some_iff.mp runs
    have takes := takes_of_step taken
    obtain ⟨outside, ring, owner'⟩ := takes.stopped sound owner (others event List.mem_cons_self)
    obtain ⟨sound', all, same, kept⟩ := ih (takes.sound sound) owner'
      (fun other member => others other (List.mem_cons_of_mem _ member)) rest
    exact ⟨sound', List.forall_mem_cons.mpr ⟨outside, all⟩, same.trans ring, kept⟩

end

/-- **When a party ends inside.** From any reachable state in which it holds the interprocess mutex, in
every run in which it takes no step any more: the log and the cursor stay as they are, and nobody else
does more than enter and drop entries. A thread that has entered `doWriteData` has one step to take, to
drop its entry; a retriever that has entered `getLog` has none. -/
theorem stopped_inside {history events : List (LogEvent Thread Reader)} {start final : System Thread Reader}
    (reached : run (step size) initial history = some start) {party : Thread ⊕ Reader}
    (owner : start.mutex = some party) (stopped : ∀ event ∈ events, event.party ≠ party)
    (runs : run (step size) start events = some final) :
    final.ring = start.ring ∧ (∀ event ∈ events, event.outside = true) ∧
      (∀ thread, .inl thread ≠ party → final.generators thread ≠ .idle → ∃ call,
        ∀ event : LogEvent Thread Reader, event.party = .inl thread →
          ((final.step size event).isSome ↔ event = .drop thread call)) ∧
      ∀ reader, .inr reader ≠ party → final.retrievers reader ≠ .idle →
        ∀ event : LogEvent Thread Reader, event.party = .inr reader → final.step size event = none := by
  obtain ⟨sound, outside, ring, owner'⟩ := run_stopped (sound_of_run reached) owner stopped runs
  refine ⟨ring, outside, fun thread other busy => ?_, fun reader other busy event own => ?_⟩
  · obtain ⟨event, own, enters, takes⟩ := exists_step sound busy
    obtain ⟨next, taken⟩ := Option.isSome_iff_exists.mp takes
    have dropped := ((takes_of_step taken).stopped sound owner' (by rw [own]; exact other)).1
    -- Of the steps in front of the mutex, a drop is the one that does not enter.
    cases event with
    | drop one call =>
      obtain rfl := Sum.inl.inj own
      have trying : final.generators one = .tryToLock call := by
        cases takes_of_step taken with
        | drop trying held => exact trying
      refine ⟨call, fun event own => ⟨fun takes => ?_, fun same => ?_⟩⟩
      · obtain ⟨next, taken⟩ := Option.isSome_iff_exists.mp takes
        have outside := ((takes_of_step taken).stopped sound owner' (by rw [own]; exact other)).1
        cases takes_of_step taken with
        | @call thread call' idle =>
          obtain rfl := Sum.inl.inj own
          rw [trying] at idle
          cases idle
        | @drop thread call' trying' held =>
          obtain rfl := Sum.inl.inj own
          rw [trying] at trying'
          cases trying'
          rfl
        | getLog idle => cases own
        | _ => cases outside
      · rw [same]
        exact takes
    | call one call => cases enters
    | getLog one => cases own
    | _ => cases dropped
  · cases taken : final.step size event with
    | none => rfl
    | some next =>
      have outside := ((takes_of_step taken).stopped sound owner' (by rw [own]; exact other)).1
      cases takes_of_step taken with
      | @getLog one idle =>
        obtain rfl := Sum.inr.inj own
        exact absurd idle busy
      | call idle => cases own
      | drop trying held => cases own
      | _ => cases outside

/-- A retriever ends while it copies; a thread enters twice. -/
def entersTwice : List (LogEvent Bool Unit) :=
  [.call true sampleEntry, .drop true sampleEntry, .call true sampleEntry]

theorem stopped_inside_copying : ∃ start final : System Bool Unit,
    run (step 512) initial [.getLog (), .lock ()] = some start ∧
      run (step 512) start entersTwice = some final ∧ final.ring = start.ring ∧
      ∃ call, ∀ event : LogEvent Bool Unit, event.party = .inl true →
        ((final.step 512 event).isSome ↔ event = .drop true call) := by
  have whole : (run (step 512) (initial : System Bool Unit)
      ([.getLog (), .lock ()] ++ entersTwice)).isSome := rfl
  obtain ⟨final, whole⟩ := Option.isSome_iff_exists.mp whole
  have busy : final.generators true ≠ .idle := by
    obtain rfl := Option.some.inj whole
    exact fun idle => by cases idle
  rw [run_append, Option.bind_eq_some_iff] at whole
  obtain ⟨start, reached, runs⟩ := whole
  have owner : start.mutex = some (.inr ()) := by
    obtain rfl := Option.some.inj reached
    rfl
  obtain ⟨ring, -, threads, -⟩ := stopped_inside reached owner (by decide) runs
  exact ⟨start, final, reached, runs, ring, threads true (fun same => by cases same) busy⟩

end System

end StatLog.Logger
