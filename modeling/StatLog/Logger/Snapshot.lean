/-
**Every copy of the log is the image of a sequential execution.**

* `acquired`: the calls whose `try_to_lock` succeeded, in that order.
* `Consistent`: the ring, once the thread inside has run to the end of its call, is what the acquired
  calls leave when they run one after the other; what a retriever has copied is in the region still.
* **`consistent_of_run`**: this holds after every run.
* **`getLog_snapshot`**: a finished copy is the image of the calls acquired before it was begun, and
  the cursor is the sum of their slot counts.
-/

import StatLog.Logger.Ring
import StatLog.Logger.Threads

set_option linter.unusedSectionVars false

namespace StatLog.Logger

open ByteMemory CircularBuffer Transition Mutex

variable {Thread Reader : Type}

/-- The call of an event that takes the interprocess mutex for a thread. -/
def LogEvent.acquiredCall : LogEvent Thread Reader → Option WriteCall
  | .acquire _ entry => some entry
  | _ => none

/-- **The calls that took the interprocess mutex**, in lock-acquisition order. -/
def acquired (history : List (LogEvent Thread Reader)) : List WriteCall :=
  history.filterMap LogEvent.acquiredCall

theorem acquired_append (history later : List (LogEvent Thread Reader)) :
    acquired (history ++ later) = acquired history ++ acquired later :=
  List.filterMap_append

theorem acquired_concat (history : List (LogEvent Thread Reader)) (event : LogEvent Thread Reader) :
    acquired (history ++ [event]) = acquired history ++ event.acquiredCall.toList := by
  rw [acquired_append, acquired, acquired, List.filterMap_cons]
  cases event.acquiredCall <;> rfl

/-- The slots of a list of calls. -/
def slotCount (calls : List WriteCall) : Nat :=
  (calls.map fun call => numLogBufs call.buf.length).sum

/-- The call of a thread that holds the mutex and has not advanced the cursor yet. -/
def GeneratorPc.pending : GeneratorPc → List WriteCall
  | .lockMtx call => [call]
  | .readCursor call => [call]
  | .writeCursor call _ => [call]
  | _ => []

theorem GeneratorPc.finish_cursor {numLogEntries : Nat} {ring : LogRing} {pc : GeneratorPc}
    (advanced : pc.pending = []) :
    (pc.finish numLogEntries ring).currentLogEntry = ring.currentLogEntry := by
  cases pc with
  | lockMtx call => cases advanced
  | readCursor call => cases advanced
  | writeCursor call startLogIdx => cases advanced
  | _ => rfl

/-- A step of a thread inside advances the cursor, or leaves cursor and pending call alone. -/
theorem GeneratorPc.step_pending {numLogEntries : Nat} {ring ring' : LogRing} {pc pc' : GeneratorPc}
    (taken : pc.step numLogEntries ring = some (pc', ring')) :
    pc'.pending = [] ∨ pc'.pending = pc.pending ∧ ring' = ring := by
  cases pc with
  | idle => cases taken
  | tryToLock call => cases taken
  | lockMtx call => cases taken
  | readCursor call =>
    cases taken
    exact Or.inr ⟨rfl, rfl⟩
  | writeCursor call startLogIdx =>
    cases taken
    exact Or.inl rfl
  | unlockMtx call startLogIdx => cases taken
  | header call startLogIdx fields =>
    cases fields with
    | nil =>
      cases taken
      exact Or.inl rfl
    | cons field fields =>
      cases taken
      exact Or.inl rfl
  | loop state =>
    simp only [step] at taken
    by_cases copying : state.bytesToWrite > 0
    · rw [if_pos copying] at taken
      cases taken
      exact Or.inl rfl
    · rw [if_neg copying] at taken
      cases taken
      exact Or.inl rfl
  | copied state =>
    simp only [step] at taken
    by_cases more : (state.next numLogEntries).bytesToWrite > 0
    · rw [if_pos more] at taken
      cases taken
      exact Or.inl rfl
    · rw [if_neg more] at taken
      cases taken
      exact Or.inl rfl
  | unlock => cases taken

namespace System

variable [DecidableEq Thread] [DecidableEq Reader]

/-- The thread that holds the interprocess mutex. -/
def active (system : System Thread Reader) : Option GeneratorPc :=
  match system.mutex with
  | some (.inl thread) => some (system.generators thread)
  | _ => none

/-- The ring once the thread inside, if there is one, has run to the end. -/
def completed (numLogEntries : Nat) (system : System Thread Reader) : LogRing :=
  match system.active with
  | some pc => pc.finish numLogEntries system.ring
  | none => system.ring

/-- The call that holds the mutex and has not advanced the cursor yet. -/
def pending (system : System Thread Reader) : List WriteCall :=
  match system.active with
  | some pc => pc.pending
  | none => []

/-- **The state and the calls that took the mutex so far agree.** -/
structure Consistent (size : Nat) (calls : List WriteCall) (system : System Thread Reader) : Prop where
  guards : Guards system.mutex system.Inside
  ok : ∀ thread, (system.generators thread).Ok
  completed : system.completed (numLogEntriesOf size) = writeAll (numLogEntriesOf size) .initial calls
  cursor : ∃ advanced, calls = advanced ++ system.pending ∧
    system.ring.currentLogEntry = slotCount advanced % numLogEntriesOf size
  copies : ∀ reader tempLogBuf, system.retrievers reader = .copying tempLogBuf →
    tempLogBuf = system.ring.mem.read 0 tempLogBuf.length

theorem consistent_initial (size : Nat) :
    (initial : System Thread Reader).Consistent size [] where
  guards party := by
    cases party with
    | inl thread => exact ⟨fun impossible => (nomatch impossible), fun impossible => (nomatch impossible)⟩
    | inr reader => exact ⟨fun impossible => (nomatch impossible), fun impossible => (nomatch impossible)⟩
  ok _ := trivial
  completed := rfl
  cursor := ⟨[], rfl, (Nat.zero_mod _).symm⟩
  copies _ _ impossible := nomatch impossible

section Active

variable {system : System Thread Reader} {thread : Thread}

/-- A thread outside is not the one that holds the mutex. -/
theorem active_setGenerator_of_outside (guards : Guards system.mutex system.Inside)
    (outside : (system.generators thread).inside = false) (pc : GeneratorPc) :
    (system.setGenerator thread pc).active = system.active := by
  show (match system.mutex with
    | some (.inl other) => some ((system.setGenerator thread pc).generators other)
    | _ => none) = system.active
  unfold active
  rcases owner : system.mutex with _ | other | reader
  · rfl
  · have entered : system.Inside (.inl other) := (guards _).mpr owner
    have different : other ≠ thread := by
      rintro rfl
      have entered : (system.generators other).inside = true := entered
      rw [outside] at entered
      cases entered
    simp only [generators_setGenerator_of_ne different]
  · rfl

/-- The thread inside holds the mutex. -/
theorem owner_of_inside (guards : Guards system.mutex system.Inside)
    (inside : (system.generators thread).inside = true) : system.mutex = some (.inl thread) :=
  (guards (.inl thread)).mp inside

theorem active_of_owner (owner : system.mutex = some (.inl thread)) :
    system.active = some (system.generators thread) := by
  rw [active, owner]

variable (system) in
theorem active_setGenerator_of_owner (owner : system.mutex = some (.inl thread)) (pc : GeneratorPc) :
    (system.setGenerator thread pc).active = some pc := by
  have is := active_of_owner (show (system.setGenerator thread pc).mutex = some (.inl thread) from owner)
  rw [is, generators_setGenerator]

theorem active_of_free (free : system.mutex = none) : system.active = none := by
  rw [active, free]

theorem active_of_reader {reader : Reader} (owner : system.mutex = some (.inr reader)) :
    system.active = none := by
  rw [active, owner]

end Active

/-- The thread inside takes a step that does not change how its call ends. -/
theorem Consistent.move {size : Nat} (positive : 0 < numLogEntriesOf size) {calls : List WriteCall}
    {system next : System Thread Reader} (consistent : system.Consistent size calls)
    {pc pc' : GeneratorPc} (was : system.active = some pc) (is : next.active = some pc')
    (same : pc'.finish (numLogEntriesOf size) next.ring = pc.finish (numLogEntriesOf size) system.ring)
    (cursorStep : pc'.pending = [] ∨ pc'.pending = pc.pending ∧ next.ring = system.ring) :
    next.completed (numLogEntriesOf size) = writeAll (numLogEntriesOf size) .initial calls ∧
      ∃ advanced, calls = advanced ++ next.pending ∧
        next.ring.currentLogEntry = slotCount advanced % numLogEntriesOf size := by
  have ends := consistent.completed
  simp only [System.completed, was] at ends
  have image : next.completed (numLogEntriesOf size) =
      writeAll (numLogEntriesOf size) .initial calls := by
    simp only [System.completed, is]
    rw [same, ends]
  refine ⟨image, ?_⟩
  rcases cursorStep with advanced | ⟨still, ring⟩
  · refine ⟨calls, ?_, ?_⟩
    · simp only [System.pending, is, advanced, List.append_nil]
    · rw [← GeneratorPc.finish_cursor advanced, same, ends, cursor_eq positive, slotCount]
  · obtain ⟨advanced, split, sum⟩ := consistent.cursor
    refine ⟨advanced, ?_, by rw [ring, sum]⟩
    simp only [System.pending, was] at split
    simp only [System.pending, is, still]
    exact split

/-! ### One step -/

section Step

variable {size : Nat} {calls : List WriteCall} {system next : System Thread Reader}
  {event : LogEvent Thread Reader}

theorem ok_setGenerator (ok : ∀ thread, (system.generators thread).Ok) {thread : Thread}
    {pc : GeneratorPc} (new : pc.Ok) (other : Thread) :
    ((system.setGenerator thread pc).generators other).Ok := by
  by_cases own : other = thread
  · rw [own, generators_setGenerator]
    exact new
  · rw [generators_setGenerator_of_ne own]
    exact ok other

theorem Takes.ok (ok : ∀ thread, (system.generators thread).Ok)
    (taken : system.Takes size event next) (thread : Thread) : (next.generators thread).Ok := by
  cases taken with
  | access accessed => exact ok_setGenerator ok (GeneratorPc.step_finish (ok _) accessed).2.1 thread
  | getLog => exact ok thread
  | lock => exact ok thread
  | copyByte => exact ok thread
  | finished => exact ok thread
  | _ => exact ok_setGenerator ok (by trivial) thread

/-- The region does not change while a retriever copies it. -/
theorem Takes.mem_eq (guards : Guards system.mutex system.Inside)
    (ok : ∀ thread, (system.generators thread).Ok) (taken : system.Takes size event next)
    {reader : Reader} (copying : (system.retrievers reader).inside = true) :
    next.ring = system.ring := by
  cases taken with
  | @access thread pc ring accessed =>
    have inside := (GeneratorPc.step_finish (ok thread) accessed).2.2.1
    have other : system.Inside (.inl thread) := inside
    cases guards.unique other (show system.Inside (.inr reader) from copying)
  | _ => rfl

theorem Takes.copies (consistent : system.Consistent size calls)
    (taken : system.Takes size event next) (reader : Reader) (tempLogBuf : List UInt8)
    (copying : next.retrievers reader = .copying tempLogBuf) :
    tempLogBuf = next.ring.mem.read 0 tempLogBuf.length := by
  have before : system.retrievers reader = .copying tempLogBuf →
      tempLogBuf = next.ring.mem.read 0 tempLogBuf.length := by
    intro was
    have inside : (system.retrievers reader).inside = true := by
      rw [was]
      rfl
    rw [taken.mem_eq consistent.guards consistent.ok inside]
    exact consistent.copies reader tempLogBuf was
  cases taken with
  | getLog idle =>
    rcases retrievers_of_setRetriever copying with ⟨-, new⟩ | was
    · cases new
    · exact before was
  | lock waiting free =>
    rcases retrievers_of_setRetriever copying with ⟨-, new⟩ | was
    · cases new
      rfl
    · exact before was
  | @copyByte other copied copying' more =>
    rcases retrievers_of_setRetriever copying with ⟨-, new⟩ | was
    · cases new
      rw [List.length_append, Mem.read_add, Nat.zero_add]
      exact congrArg₂ _ (consistent.copies other copied copying') (Mem.read_one _ _).symm
    · exact before was
  | finished was whole =>
    rcases retrievers_of_setRetriever copying with ⟨-, new⟩ | was
    · cases new
    · exact before was
  | _ => exact before copying

/-- **One step keeps the state and the acquired calls in agreement.** -/
theorem Takes.consistent (positive : 0 < numLogEntriesOf size)
    (consistent : system.Consistent size calls) (taken : system.Takes size event next) :
    next.Consistent size (calls ++ event.acquiredCall.toList) := by
  have guards := taken.guards consistent.ok consistent.guards
  have ok := taken.ok consistent.ok
  have copies := taken.copies consistent
  -- a step that changes neither the ring nor the thread inside
  have idle : next.active = system.active → next.ring = system.ring → event.acquiredCall = none →
      next.Consistent size (calls ++ event.acquiredCall.toList) := by
    intro sameActive sameRing noCall
    rw [noCall, Option.toList_none, List.append_nil]
    refine ⟨guards, ok, ?_, ?_, copies⟩
    · simp only [System.completed, sameActive, sameRing]
      exact consistent.completed
    · simp only [System.pending, sameActive, sameRing]
      exact consistent.cursor
  -- a step of the thread inside
  have move : ∀ {thread pc}, next.active = some pc → (system.generators thread).inside = true →
      pc.finish (numLogEntriesOf size) next.ring =
        (system.generators thread).finish (numLogEntriesOf size) system.ring →
      pc.pending = [] ∨ pc.pending = (system.generators thread).pending ∧ next.ring = system.ring →
      event.acquiredCall = none → next.Consistent size (calls ++ event.acquiredCall.toList) := by
    intro thread pc is inside same cursorStep noCall
    rw [noCall, Option.toList_none, List.append_nil]
    have was := active_of_owner (owner_of_inside consistent.guards inside)
    have ends := consistent.move positive was is same cursorStep
    exact ⟨guards, ok, ends.1, ends.2, copies⟩
  cases taken with
  | call waits =>
    exact idle (active_setGenerator_of_outside consistent.guards (by rw [waits]; rfl) _) rfl rfl
  | @acquire thread call trying free =>
    have is := active_setGenerator_of_owner { system with mutex := some (.inl thread) } rfl
      (.lockMtx call)
    have image := consistent.completed
    obtain ⟨advanced, split, sum⟩ := consistent.cursor
    simp only [System.completed, active_of_free free] at image
    simp only [System.pending, active_of_free free, List.append_nil] at split
    refine ⟨guards, ok, ?_, ⟨calls, ?_, ?_⟩, copies⟩
    · simp only [System.completed, is]
      exact (congrArg (doWriteData (numLogEntriesOf size) · call) image).trans
        (writeAll_concat _ _ _ _).symm
    · simp only [System.pending, is]
      rfl
    · rw [split]
      exact sum
  | drop trying taken =>
    exact idle (active_setGenerator_of_outside consistent.guards (by rw [trying]; rfl) _) rfl rfl
  | @lockMtx thread call locking =>
    have inside : (system.generators thread).inside = true := by rw [locking]; rfl
    have owner := owner_of_inside consistent.guards inside
    refine move (active_setGenerator_of_owner { system with mtx := some thread } owner _) inside ?_ ?_
      rfl
    · rw [locking]
      rfl
    · rw [locking]
      exact Or.inr ⟨rfl, rfl⟩
  | @unlockMtx thread call startLogIdx unlocking =>
    have inside : (system.generators thread).inside = true := by rw [unlocking]; rfl
    have owner := owner_of_inside consistent.guards inside
    refine move (active_setGenerator_of_owner { system with mtx := none } owner _) inside ?_
      (Or.inl rfl) rfl
    rw [unlocking]
    rfl
  | @access thread pc ring accessed =>
    obtain ⟨same, -, inside, -⟩ := GeneratorPc.step_finish (consistent.ok thread) accessed
    have owner := owner_of_inside consistent.guards inside
    exact move (active_setGenerator_of_owner { system with ring } owner pc) inside same
      (GeneratorPc.step_pending accessed) rfl
  | @unlock thread leaving =>
    have inside : (system.generators thread).inside = true := by rw [leaving]; rfl
    have was := active_of_owner (owner_of_inside consistent.guards inside)
    have image := consistent.completed
    obtain ⟨advanced, split, sum⟩ := consistent.cursor
    simp only [System.completed, was, leaving] at image
    simp only [System.pending, was, leaving] at split
    refine ⟨guards, ok, image.trans ?_, ⟨advanced, ?_, sum⟩, copies⟩
    · exact congrArg _ (List.append_nil calls).symm
    · exact (List.append_nil calls).trans split
  | getLog waits => exact idle rfl rfl rfl
  | lock waiting free => exact idle (by rw [active_of_free free]; rfl) rfl rfl
  | copyByte copying more => exact idle rfl rfl rfl
  | @finished reader tempLogBuf copying whole =>
    have owner : system.mutex = some (.inr reader) :=
      (consistent.guards (.inr reader)).mp (by
        show (system.retrievers reader).inside = true
        rw [copying]
        rfl)
    exact idle (by rw [active_of_reader owner]; rfl) rfl rfl

/-- A retriever that copies keeps the mutex until it is done, and no call acquires it meanwhile. -/
theorem Takes.copying (guards : Guards system.mutex system.Inside) {reader : Reader}
    (copying : (system.retrievers reader).inside = true) (taken : system.Takes size event next)
    (unfinished : ∀ tempLogBuf, event ≠ .finished reader tempLogBuf) :
    (next.retrievers reader).inside = true ∧ event.acquiredCall = none := by
  have owner : system.mutex = some (.inr reader) := (guards (.inr reader)).mp copying
  cases taken with
  | acquire trying free =>
    rw [owner] at free
    cases free
  | @getLog other idle =>
    have different : reader ≠ other := by
      rintro rfl
      rw [idle] at copying
      cases copying
    rw [retrievers_setRetriever_of_ne different]
    exact ⟨copying, rfl⟩
  | lock waiting free =>
    rw [owner] at free
    cases free
  | @copyByte other tempLogBuf was more =>
    by_cases own : reader = other
    · rw [own, retrievers_setRetriever]
      exact ⟨rfl, rfl⟩
    · rw [retrievers_setRetriever_of_ne own]
      exact ⟨copying, rfl⟩
  | @finished other tempLogBuf was whole =>
    have different : reader ≠ other := by
      rintro rfl
      exact unfinished tempLogBuf rfl
    rw [retrievers_setRetriever_of_ne different]
    exact ⟨copying, rfl⟩
  | _ => exact ⟨copying, rfl⟩

end Step

/-! ### Runs -/

section Runs

variable {size : Nat} (positive : 0 < numLogEntriesOf size)

include positive

/-- **Every run keeps the state and the acquired calls in agreement.** -/
theorem consistent_of_run {history : List (LogEvent Thread Reader)} {system : System Thread Reader}
    (runs : run (step size) initial history = some system) :
    system.Consistent size (acquired history) := by
  refine run_induction (step size) (fun history system => system.Consistent size (acquired history))
    (consistent_initial size) ?_ runs
  intro history system event next consistent taken
  rw [acquired_concat]
  exact (takes_of_step taken).consistent positive consistent

/-- While a retriever copies, no call acquires the mutex. -/
theorem acquired_while_copying {start system : System Thread Reader} {calls : List WriteCall}
    {reader : Reader} (consistent : start.Consistent size calls)
    (copying : (start.retrievers reader).inside = true)
    {middle : List (LogEvent Thread Reader)} (runs : run (step size) start middle = some system)
    (unfinished : ∀ tempLogBuf, LogEvent.finished reader tempLogBuf ∉ middle) :
    acquired middle = [] := by
  have invariant : (∃ calls, system.Consistent size calls) ∧
      ((∀ tempLogBuf, LogEvent.finished reader tempLogBuf ∉ middle) →
        (system.retrievers reader).inside = true ∧ acquired middle = []) := by
    refine run_induction (step size) (fun middle system =>
      (∃ calls, system.Consistent size calls) ∧
        ((∀ tempLogBuf, LogEvent.finished reader tempLogBuf ∉ middle) →
          (system.retrievers reader).inside = true ∧ acquired middle = []))
      ⟨⟨calls, consistent⟩, fun _ => ⟨copying, rfl⟩⟩ ?_ runs
    rintro middle system event next ⟨⟨calls, consistent⟩, still⟩ taken
    refine ⟨⟨_, (takes_of_step taken).consistent positive consistent⟩, fun unfinished => ?_⟩
    obtain ⟨inside, none⟩ := still fun tempLogBuf member =>
      unfinished tempLogBuf (List.mem_append_left _ member)
    obtain ⟨after, noCall⟩ := (takes_of_step taken).copying consistent.guards inside
      fun tempLogBuf same => unfinished tempLogBuf (List.mem_append_right _ (by rw [same]; simp))
    refine ⟨after, ?_⟩
    rw [acquired_concat, none, noCall]
    rfl
  exact (invariant.2 unfinished).2

/-- **Consistent log snapshots.** In every run, a copy that a retriever has finished is the image of
the calls that took the mutex before it was begun, run one after the other in that order, and the
cursor is the sum of their slot counts. At any other time the cursor is that sum over all calls that
took the mutex, less the one that holds it and has not advanced the cursor yet. -/
theorem getLog_snapshot :
    (∀ (history : List (LogEvent Thread Reader)) (system : System Thread Reader),
      run (step size) initial history = some system →
      ∃ advanced, acquired history = advanced ++ system.pending ∧
        system.ring.currentLogEntry = slotCount advanced % numLogEntriesOf size) ∧
    ∀ (before middle : List (LogEvent Thread Reader)) (reader : Reader) (tempLogBuf : List UInt8)
      (system : System Thread Reader),
      run (step size) initial (before ++ .lock reader :: (middle ++ [.finished reader tempLogBuf])) =
        some system →
      (∀ other, LogEvent.finished reader other ∉ middle) →
      tempLogBuf = (writeAll (numLogEntriesOf size) .initial (acquired before)).mem.read 0 size ∧
        system.ring.currentLogEntry = slotCount (acquired before) % numLogEntriesOf size := by
  refine ⟨fun history system runs => (consistent_of_run positive runs).cursor, ?_⟩
  intro before middle reader tempLogBuf system runs unfinished
  obtain ⟨start, locked, earlier, locks, rest⟩ := run_split (step size) runs
  obtain ⟨last, copies, finishes⟩ := (run_concat (step size)).mp rest
  have copyRun : run (step size) initial (before ++ .lock reader :: middle) = some last := by
    rw [run_append, earlier, Option.bind_some, run, locks, Option.bind_some, copies]
  have quiet : acquired middle = [] := by
    refine acquired_while_copying positive
      ((takes_of_step locks).consistent positive (consistent_of_run positive earlier)) ?_ copies
      unfinished
    cases takes_of_step locks with
    | lock waiting free =>
      rw [retrievers_setRetriever]
      rfl
  have consistent := consistent_of_run positive copyRun
  have noneSince : acquired (before ++ .lock reader :: middle) = acquired before := by
    rw [acquired_append, show acquired (.lock reader :: middle) = acquired middle from rfl, quiet,
      List.append_nil]
  rw [noneSince] at consistent
  cases takes_of_step finishes with
  | finished copying whole =>
    have inside : (last.retrievers reader).inside = true := by
      rw [copying]
      rfl
    have owner : last.mutex = some (.inr reader) := (consistent.guards (.inr reader)).mp inside
    have image := consistent.completed
    simp only [completed, active_of_reader owner] at image
    have copied := consistent.copies reader tempLogBuf copying
    rw [whole, image] at copied
    refine ⟨copied, ?_⟩
    show last.ring.currentLogEntry = _
    rw [image, cursor_eq positive, slotCount]

end Runs

/-! ### An undisturbed copy -/

section Undisturbed

variable {size : Nat} {system : System Thread Reader} {reader : Reader}

theorem run_copyByte {tempLogBuf : List UInt8}
    (copying : system.retrievers reader = .copying tempLogBuf) {count : Nat}
    (room : tempLogBuf.length + count ≤ size) :
    run (step size) system (List.replicate count (.copyByte reader)) =
      some (system.setRetriever reader
        (.copying (tempLogBuf ++ system.ring.mem.read tempLogBuf.length count))) := by
  induction count generalizing system tempLogBuf with
  | zero =>
    have same : system.setRetriever reader (.copying tempLogBuf) = system := by
      rw [setRetriever, ← copying, Function.update_eq_self]
    rw [List.replicate_zero, run, Mem.read, List.range_zero, List.map_nil, List.append_nil, same]
  | succ count ih =>
    have taken : system.step size (.copyByte reader) = some (system.setRetriever reader
        (.copying (tempLogBuf ++ [system.ring.mem tempLogBuf.length]))) := by
      simp only [step, copying]
      rw [if_pos (by omega)]
    have shorter : (tempLogBuf ++ [system.ring.mem tempLogBuf.length]).length + count ≤ size := by
      rw [List.length_append, List.length_singleton]
      omega
    rw [List.replicate_succ, run, taken, Option.bind_some,
      ih (retrievers_setRetriever _) shorter, Nat.add_comm count 1, Mem.read_add, Mem.read_one]
    simp only [setRetriever, Function.update_idem, List.append_assoc, List.length_append,
      List.length_singleton]

/-- A retriever that waits while the mutex is free can copy the region. -/
theorem run_getLog (waiting : system.retrievers reader = .waiting) (free : system.mutex = none) :
    (run (step size) system (.lock reader :: (List.replicate size (.copyByte reader) ++
      [.finished reader (system.ring.mem.read 0 size)]))).isSome = true := by
  have locks : system.step size (.lock reader) =
      some ({ system with mutex := some (.inr reader) }.setRetriever reader (.copying [])) := by
    simp only [step, waiting, free]
  rw [run, locks, Option.bind_some, run_append,
    run_copyByte (retrievers_setRetriever _) (by rw [List.length_nil]; omega), Option.bind_some, run]
  simp only [step, retrievers_setRetriever]
  rw [if_pos ⟨rfl, Mem.length_read _ _ _⟩]
  rfl

end Undisturbed

/-- Two threads, one of which logs an entry and leaves while the other one's entry is dropped, and a
retriever. -/
def sampleHistory (entry : WriteCall) : List (LogEvent Bool Unit) :=
  [.call false entry, .call true entry, .getLog (), .acquire false entry, .drop true entry,
    .lockMtx false, .access false, .access false, .unlockMtx false] ++
    List.replicate 9 (.access false) ++ [.unlock false]

def sampleEntry : WriteCall := ⟨[97, 0], ⟨[66], by decide⟩, ⟨[73], by decide⟩, ⟨0, 0⟩⟩

/-- The retriever's copy of a one-slot log after this history. -/
theorem getLog_snapshot_one_slot :
    ∃ tempLogBuf system, run (step 512) initial (sampleHistory sampleEntry ++ .lock () ::
        (List.replicate 512 (.copyByte ()) ++ [.finished () tempLogBuf])) = some system ∧
      tempLogBuf = (writeAll 1 .initial [sampleEntry]).mem.read 0 512 ∧
      system.ring.currentLogEntry = 0 := by
  have state : (run (step 512) initial (sampleHistory sampleEntry)).map (fun system =>
      (system.mutex.isNone, decide (system.retrievers () = .waiting))) =
      some (true, true) := by
    decide +kernel
  obtain ⟨start, earlier, facts⟩ := Option.map_eq_some_iff.mp state
  have free : start.mutex = none := Option.isNone_iff_eq_none.mp (congrArg Prod.fst facts)
  have waiting : start.retrievers () = .waiting := of_decide_eq_true (congrArg Prod.snd facts)
  have copied : (run (step 512) start (.lock () :: (List.replicate 512 (.copyByte ()) ++
      [.finished () (start.ring.mem.read 0 512)]))).isSome = true := run_getLog waiting free
  obtain ⟨system, copies⟩ := Option.isSome_iff_exists.mp copied
  have runs : run (step 512) initial (sampleHistory sampleEntry ++ .lock () ::
      (List.replicate 512 (.copyByte ()) ++ [.finished () (start.ring.mem.read 0 512)])) =
      some system := by
    rw [run_append, earlier, Option.bind_some, copies]
  have snapshot := (getLog_snapshot (by decide)).2 (sampleHistory sampleEntry)
    (List.replicate 512 (.copyByte ())) () _ system runs fun other member => by
      cases List.eq_of_mem_replicate member
  exact ⟨_, system, runs, snapshot.1, snapshot.2⟩

end System

end StatLog.Logger
