/-
**Generator threads and retrievers on one log.**

Any number of threads of the generator's process run `doWriteData`, any number of retrievers run
`getLog`. Taking and leaving a lock is one step each, and so is every access to the shared region or
to the cursor: one field of a header, the characters of one slot, one `numBlocks`, one byte copied.

* `GeneratorPc`, `RetrieverPc`: where a party is. `System.step`: what it does next.
* `GeneratorPc.finish`: the ring once the thread inside has run to the end of `doWriteData`.
* **`GeneratorPc.step_finish`**: no step of that thread changes it.
* **`Takes.guards`**: the parties between taking and leaving the interprocess mutex are exactly its
  owner, in every run.
-/

import Mathlib.Logic.Function.Basic
import StatLog.Lib.Mutex
import StatLog.Lib.Transition
import StatLog.Logger.Read

set_option linter.unusedSectionVars false

namespace StatLog.Logger

open ByteMemory CircularBuffer Transition Mutex

/-! ### One thread in `doWriteData` -/

/-- Where a thread of the generator is. -/
inductive GeneratorPc
  | idle
  /-- Before `try_to_lock`. -/
  | tryToLock (call : WriteCall)
  /-- Before `mtx` is locked; the interprocess mutex is held from here on. -/
  | lockMtx (call : WriteCall)
  | readCursor (call : WriteCall)
  | writeCursor (call : WriteCall) (startLogIdx : Nat)
  | unlockMtx (call : WriteCall) (startLogIdx : Nat)
  /-- The fields of the header that are still to be stored. -/
  | header (call : WriteCall) (startLogIdx : Nat) (fields : List Field)
  /-- At the test of the copy loop. -/
  | loop (state : CopyState)
  /-- In the loop, behind `std::copy`. -/
  | copied (state : CopyState)
  /-- Before the interprocess mutex is left. -/
  | unlock

namespace GeneratorPc

/-- The thread is between taking and leaving the interprocess mutex. -/
def inside : GeneratorPc → Bool
  | .idle => false
  | .tryToLock _ => false
  | _ => true

/-- The next step of a thread that needs no lock, on the region and the cursor. -/
def step (numLogEntries : Nat) (ring : LogRing) : GeneratorPc → Option (GeneratorPc × LogRing)
  | .readCursor call => some (.writeCursor call ring.currentLogEntry, ring)
  | .writeCursor call startLogIdx =>
    some (.unlockMtx call startLogIdx, { ring with
      currentLogEntry := advanceCursor numLogEntries startLogIdx call.buf.length })
  | .header call startLogIdx (field :: fields) =>
    some (.header call startLogIdx fields, { ring with
      mem := ring.mem.write (slotPtr startLogIdx + field.1) field.2 })
  | .header call startLogIdx [] => some (.loop (.start startLogIdx call.buf), ring)
  | .loop state =>
    if state.bytesToWrite > 0 then
      some (.copied state, { ring with
        mem := ring.mem.write state.dataPtr (state.buf.take state.bytesToWrite) })
    else some (.unlock, ring)
  | .copied state =>
    let next := state.next numLogEntries
    if next.bytesToWrite > 0 then
      some (.loop next, { ring with mem := ring.mem.write (slotPtr next.curLogIdx) (leBytes 4 0) })
    else some (.loop next, ring)
  | _ => none

/-- **The ring once the thread inside has run to the end**, from the ring as it is now. -/
def finish (numLogEntries : Nat) (ring : LogRing) : GeneratorPc → LogRing
  | .lockMtx call => doWriteData numLogEntries ring call
  | .readCursor call => doWriteData numLogEntries ring call
  | .writeCursor call startLogIdx => doWriteData numLogEntries ⟨ring.mem, startLogIdx⟩ call
  | .unlockMtx call startLogIdx =>
    { ring with mem := (copyLoop numLogEntries call.buf.length (.start startLogIdx call.buf)
        (storeHeader startLogIdx call ring.mem)).2 }
  | .header call startLogIdx fields =>
    { ring with mem := (copyLoop numLogEntries call.buf.length (.start startLogIdx call.buf)
        (Field.storeAll ring.mem (slotPtr startLogIdx) fields)).2 }
  | .loop state => { ring with mem := (copyLoop numLogEntries state.buf.length state ring.mem).2 }
  | .copied state =>
    let next := state.next numLogEntries
    let mem := if next.bytesToWrite > 0 then
        ring.mem.write (slotPtr next.curLogIdx) (leBytes 4 0)
      else ring.mem
    { ring with mem := (copyLoop numLogEntries next.buf.length next mem).2 }
  | _ => ring

/-- The loop variables announce what buffer and slot allow. -/
def Ok : GeneratorPc → Prop
  | .loop state => ∃ cap, state.Capped cap
  | .copied state => ∃ cap, state.Capped cap
  | _ => True

end GeneratorPc

/-- The loop does not need more passes than there are bytes. -/
theorem copyLoop_passes (numLogEntries : Nat) {fuel cap : Nat} {state : CopyState} (mem : Mem)
    (enough : state.buf.length ≤ fuel) (capped : state.Capped cap) :
    (copyLoop numLogEntries fuel state mem).2 =
      (copyLoop numLogEntries state.buf.length state mem).2 := by
  rw [(copyLoop_eq numLogEntries mem enough capped).1,
    (copyLoop_eq numLogEntries mem (Nat.le_refl _) capped).1]

/-- One pass of the loop, from the state before `std::copy` to the next test. -/
theorem copyLoop_pass (numLogEntries : Nat) {cap : Nat} {state : CopyState} (mem : Mem)
    (capped : state.Capped cap) (copying : state.bytesToWrite > 0) :
    (copyLoop numLogEntries state.buf.length state mem).2 =
      (copyLoop numLogEntries (state.next numLogEntries).buf.length (state.next numLogEntries)
        (state.store numLogEntries mem)).2 := by
  obtain ⟨fuel, length⟩ : ∃ fuel, state.buf.length = fuel + 1 := by
    have := capped.eq
    exact ⟨state.buf.length - 1, by omega⟩
  have shorter : (state.next numLogEntries).buf.length ≤ fuel := by
    rw [CopyState.next_buf, List.length_drop]
    omega
  rw [length, copyLoop, if_pos copying]
  exact copyLoop_passes numLogEntries _ shorter (CopyState.next_capped numLogEntries state)

/-- **No step of the thread inside changes how its call ends.** -/
theorem GeneratorPc.step_finish {numLogEntries : Nat} {ring ring' : LogRing} {pc pc' : GeneratorPc}
    (ok : pc.Ok) (taken : pc.step numLogEntries ring = some (pc', ring')) :
    pc'.finish numLogEntries ring' = pc.finish numLogEntries ring ∧ pc'.Ok ∧ pc.inside = true ∧
      pc'.inside = true := by
  cases pc with
  | idle => cases taken
  | tryToLock call => cases taken
  | lockMtx call => cases taken
  | readCursor call =>
    cases taken
    exact ⟨rfl, trivial, rfl, rfl⟩
  | writeCursor call startLogIdx =>
    cases taken
    exact ⟨rfl, trivial, rfl, rfl⟩
  | unlockMtx call startLogIdx => cases taken
  | header call startLogIdx fields =>
    cases fields with
    | nil =>
      cases taken
      exact ⟨rfl, ⟨_, CopyState.start_capped startLogIdx call.buf⟩, rfl, rfl⟩
    | cons field fields =>
      cases taken
      exact ⟨rfl, trivial, rfl, rfl⟩
  | loop state =>
    obtain ⟨cap, capped⟩ := ok
    simp only [step] at taken
    by_cases copying : state.bytesToWrite > 0
    · rw [if_pos copying] at taken
      cases taken
      refine ⟨?_, ⟨cap, capped⟩, rfl, rfl⟩
      simp only [finish]
      rw [copyLoop_pass numLogEntries ring.mem capped copying]
      rfl
    · rw [if_neg copying] at taken
      cases taken
      refine ⟨?_, trivial, rfl, rfl⟩
      simp only [finish]
      rw [capped.empty copying]
      rfl
  | copied state =>
    have next : (state.next numLogEntries).Capped maxCharsInOtherBlocks :=
      state.next_capped numLogEntries
    simp only [step] at taken
    by_cases more : (state.next numLogEntries).bytesToWrite > 0
    · rw [if_pos more] at taken
      cases taken
      refine ⟨?_, ⟨_, next⟩, rfl, rfl⟩
      simp only [finish, if_pos more]
    · rw [if_neg more] at taken
      cases taken
      refine ⟨?_, ⟨_, next⟩, rfl, rfl⟩
      simp only [finish, if_neg more]
  | unlock => cases taken

/-! ### The system -/

/-- Where a retriever is. -/
inductive RetrieverPc
  | idle
  /-- Before the interprocess mutex is locked. -/
  | waiting
  /-- The bytes of `temp_log_buf` that are copied. -/
  | copying (tempLogBuf : List UInt8)
  deriving DecidableEq

/-- A retriever is between taking and leaving the interprocess mutex. -/
def RetrieverPc.inside : RetrieverPc → Bool
  | .copying _ => true
  | _ => false

/-- The shared region with its mutex, the generator's cursor with its `mtx`, and all parties. -/
structure System (Thread Reader : Type) where
  ring : LogRing
  mutex : Option (Thread ⊕ Reader)
  mtx : Option Thread
  generators : Thread → GeneratorPc
  retrievers : Reader → RetrieverPc

/-- One step of one party. -/
inductive LogEvent (Thread Reader : Type)
  /-- A thread enters `doWriteData`. -/
  | call (thread : Thread) (call : WriteCall)
  /-- `try_to_lock` succeeds. -/
  | acquire (thread : Thread) (call : WriteCall)
  /-- `try_to_lock` fails, and the entry is dropped. -/
  | drop (thread : Thread) (call : WriteCall)
  | lockMtx (thread : Thread)
  | unlockMtx (thread : Thread)
  /-- An access to the cursor or to the region. -/
  | access (thread : Thread)
  /-- A thread leaves the interprocess mutex and `doWriteData`. -/
  | unlock (thread : Thread)
  /-- A retriever enters `getLog`. -/
  | getLog (reader : Reader)
  | lock (reader : Reader)
  | copyByte (reader : Reader)
  /-- A retriever has copied the whole region and leaves the interprocess mutex. -/
  | finished (reader : Reader) (tempLogBuf : List UInt8)

namespace System

variable {Thread Reader : Type}

/-- All threads are idle, and the region is zeroed. -/
def initial : System Thread Reader where
  ring := .initial
  mutex := none
  mtx := none
  generators _ := .idle
  retrievers _ := .idle

variable [DecidableEq Thread] [DecidableEq Reader]

def setGenerator (system : System Thread Reader) (thread : Thread) (pc : GeneratorPc) :
    System Thread Reader :=
  { system with generators := Function.update system.generators thread pc }

def setRetriever (system : System Thread Reader) (reader : Reader) (pc : RetrieverPc) :
    System Thread Reader :=
  { system with retrievers := Function.update system.retrievers reader pc }

/-- **One step of the system**, with a log region of `size` bytes behind the mutex. -/
def step (size : Nat) (system : System Thread Reader) :
    LogEvent Thread Reader → Option (System Thread Reader)
  | .call thread call =>
    match system.generators thread with
    | .idle => some (system.setGenerator thread (.tryToLock call))
    | _ => none
  | .acquire thread call =>
    match system.generators thread, system.mutex with
    | .tryToLock call', none =>
      if call' = call then
        some ({ system with mutex := some (.inl thread) }.setGenerator thread (.lockMtx call))
      else none
    | _, _ => none
  | .drop thread call =>
    match system.generators thread, system.mutex with
    | .tryToLock call', some _ =>
      if call' = call then some (system.setGenerator thread .idle) else none
    | _, _ => none
  | .lockMtx thread =>
    match system.generators thread, system.mtx with
    | .lockMtx call, none =>
      some ({ system with mtx := some thread }.setGenerator thread (.readCursor call))
    | _, _ => none
  | .unlockMtx thread =>
    match system.generators thread with
    | .unlockMtx call startLogIdx =>
      some ({ system with mtx := none }.setGenerator thread
        (.header call startLogIdx (headerFields (numLogBufs call.buf.length) call)))
    | _ => none
  | .access thread =>
    ((system.generators thread).step (numLogEntriesOf size) system.ring).map fun next =>
      { system with ring := next.2 }.setGenerator thread next.1
  | .unlock thread =>
    match system.generators thread with
    | .unlock => some ({ system with mutex := none }.setGenerator thread .idle)
    | _ => none
  | .getLog reader =>
    match system.retrievers reader with
    | .idle => some (system.setRetriever reader .waiting)
    | _ => none
  | .lock reader =>
    match system.retrievers reader, system.mutex with
    | .waiting, none =>
      some ({ system with mutex := some (.inr reader) }.setRetriever reader (.copying []))
    | _, _ => none
  | .copyByte reader =>
    match system.retrievers reader with
    | .copying tempLogBuf =>
      if tempLogBuf.length < size then
        some (system.setRetriever reader
          (.copying (tempLogBuf ++ [system.ring.mem tempLogBuf.length])))
      else none
    | _ => none
  | .finished reader tempLogBuf =>
    match system.retrievers reader with
    | .copying copied =>
      if copied = tempLogBuf ∧ tempLogBuf.length = size then
        some ({ system with mutex := none }.setRetriever reader .idle)
      else none
    | _ => none

/-- What a step does, and when it can be taken. -/
inductive Takes (size : Nat) (system : System Thread Reader) :
    LogEvent Thread Reader → System Thread Reader → Prop
  | call {thread call} (idle : system.generators thread = .idle) :
    Takes size system (.call thread call) (system.setGenerator thread (.tryToLock call))
  | acquire {thread call} (trying : system.generators thread = .tryToLock call)
    (free : system.mutex = none) :
    Takes size system (.acquire thread call)
      ({ system with mutex := some (.inl thread) }.setGenerator thread (.lockMtx call))
  | drop {thread call} (trying : system.generators thread = .tryToLock call)
    (taken : system.mutex ≠ none) :
    Takes size system (.drop thread call) (system.setGenerator thread .idle)
  | lockMtx {thread call} (locking : system.generators thread = .lockMtx call) :
    Takes size system (.lockMtx thread)
      ({ system with mtx := some thread }.setGenerator thread (.readCursor call))
  | unlockMtx {thread call startLogIdx}
    (unlocking : system.generators thread = .unlockMtx call startLogIdx) :
    Takes size system (.unlockMtx thread)
      ({ system with mtx := none }.setGenerator thread
        (.header call startLogIdx (headerFields (numLogBufs call.buf.length) call)))
  | access {thread pc ring}
    (taken : (system.generators thread).step (numLogEntriesOf size) system.ring = some (pc, ring)) :
    Takes size system (.access thread) ({ system with ring }.setGenerator thread pc)
  | unlock {thread} (leaving : system.generators thread = .unlock) :
    Takes size system (.unlock thread)
      ({ system with mutex := none }.setGenerator thread .idle)
  | getLog {reader} (idle : system.retrievers reader = .idle) :
    Takes size system (.getLog reader) (system.setRetriever reader .waiting)
  | lock {reader} (waiting : system.retrievers reader = .waiting) (free : system.mutex = none) :
    Takes size system (.lock reader)
      ({ system with mutex := some (.inr reader) }.setRetriever reader (.copying []))
  | copyByte {reader tempLogBuf} (copying : system.retrievers reader = .copying tempLogBuf)
    (more : tempLogBuf.length < size) :
    Takes size system (.copyByte reader) (system.setRetriever reader
      (.copying (tempLogBuf ++ [system.ring.mem tempLogBuf.length])))
  | finished {reader tempLogBuf} (copying : system.retrievers reader = .copying tempLogBuf)
    (whole : tempLogBuf.length = size) :
    Takes size system (.finished reader tempLogBuf)
      ({ system with mutex := none }.setRetriever reader .idle)

theorem takes_of_step {size : Nat} {system next : System Thread Reader}
    {event : LogEvent Thread Reader} (taken : system.step size event = some next) :
    system.Takes size event next := by
  cases event with
  | call thread call =>
    simp only [step] at taken
    split at taken
    · rename_i idle
      cases taken
      exact .call idle
    · cases taken
  | acquire thread call =>
    simp only [step] at taken
    split at taken
    · rename_i trying free
      split at taken
      · rename_i same
        cases taken
        exact .acquire (same ▸ trying) free
      · cases taken
    · cases taken
  | drop thread call =>
    simp only [step] at taken
    split at taken
    · rename_i trying owned
      split at taken
      · rename_i same
        cases taken
        exact .drop (same ▸ trying) (by rw [owned]; exact Option.some_ne_none _)
      · cases taken
    · cases taken
  | lockMtx thread =>
    simp only [step] at taken
    split at taken
    · rename_i locking _
      cases taken
      exact .lockMtx locking
    · cases taken
  | unlockMtx thread =>
    simp only [step] at taken
    split at taken
    · rename_i unlocking
      cases taken
      exact .unlockMtx unlocking
    · cases taken
  | access thread =>
    obtain ⟨⟨pc, ring⟩, accessed, rfl⟩ := Option.map_eq_some_iff.mp taken
    exact .access accessed
  | unlock thread =>
    simp only [step] at taken
    split at taken
    · rename_i leaving
      cases taken
      exact .unlock leaving
    · cases taken
  | getLog reader =>
    simp only [step] at taken
    split at taken
    · rename_i idle
      cases taken
      exact .getLog idle
    · cases taken
  | lock reader =>
    simp only [step] at taken
    split at taken
    · rename_i waiting free
      cases taken
      exact .lock waiting free
    · cases taken
  | copyByte reader =>
    simp only [step] at taken
    split at taken
    · rename_i copying
      split at taken
      · rename_i more
        cases taken
        exact .copyByte copying more
      · cases taken
    · cases taken
  | finished reader tempLogBuf =>
    simp only [step] at taken
    split at taken
    · rename_i copying
      split at taken
      · rename_i whole
        cases taken
        obtain ⟨rfl, length⟩ := whole
        exact .finished copying length
      · cases taken
    · cases taken

/-! ### Mutual exclusion -/

/-- The parties between taking and leaving the interprocess mutex. -/
def Inside (system : System Thread Reader) : Thread ⊕ Reader → Prop
  | .inl thread => (system.generators thread).inside = true
  | .inr reader => (system.retrievers reader).inside = true

section Inside

variable {system : System Thread Reader} {thread : Thread} {reader : Reader}

theorem generators_setGenerator_of_ne {other : Thread} (different : other ≠ thread)
    (pc : GeneratorPc) : (system.setGenerator thread pc).generators other = system.generators other :=
  Function.update_of_ne different _ _

@[simp] theorem generators_setGenerator (pc : GeneratorPc) :
    (system.setGenerator thread pc).generators thread = pc :=
  Function.update_self _ _ _

theorem retrievers_setRetriever_of_ne {other : Reader} (different : other ≠ reader)
    (pc : RetrieverPc) : (system.setRetriever reader pc).retrievers other = system.retrievers other :=
  Function.update_of_ne different _ _

@[simp] theorem retrievers_setRetriever (pc : RetrieverPc) :
    (system.setRetriever reader pc).retrievers reader = pc :=
  Function.update_self _ _ _

/-- A retriever stands where it was set to, or where it was. -/
theorem retrievers_of_setRetriever {other : Reader} {pc was : RetrieverPc}
    (stands : (system.setRetriever reader pc).retrievers other = was) :
    (other = reader ∧ pc = was) ∨ system.retrievers other = was := by
  by_cases own : other = reader
  · rw [own, retrievers_setRetriever] at stands
    exact Or.inl ⟨own, stands⟩
  · rw [retrievers_setRetriever_of_ne own] at stands
    exact Or.inr stands

theorem inside_setGenerator_of_ne {party : Thread ⊕ Reader} (different : party ≠ .inl thread)
    (pc : GeneratorPc) : (system.setGenerator thread pc).Inside party ↔ system.Inside party := by
  cases party with
  | inl other =>
    have different : other ≠ thread := fun same => different (congrArg Sum.inl same)
    show ((system.setGenerator thread pc).generators other).inside = true ↔ _
    rw [generators_setGenerator_of_ne different]
    exact Iff.rfl
  | inr other => exact Iff.rfl

theorem inside_setRetriever_of_ne {party : Thread ⊕ Reader} (different : party ≠ .inr reader)
    (pc : RetrieverPc) : (system.setRetriever reader pc).Inside party ↔ system.Inside party := by
  cases party with
  | inl other => exact Iff.rfl
  | inr other =>
    have different : other ≠ reader := fun same => different (congrArg Sum.inr same)
    show ((system.setRetriever reader pc).retrievers other).inside = true ↔ _
    rw [retrievers_setRetriever_of_ne different]
    exact Iff.rfl

theorem inside_inl_setGenerator (pc : GeneratorPc) :
    (system.setGenerator thread pc).Inside (.inl thread) ↔ pc.inside = true := by
  show ((system.setGenerator thread pc).generators thread).inside = true ↔ _
  rw [generators_setGenerator]

theorem inside_inr_setRetriever (pc : RetrieverPc) :
    (system.setRetriever reader pc).Inside (.inr reader) ↔ pc.inside = true := by
  show ((system.setRetriever reader pc).retrievers reader).inside = true ↔ _
  rw [retrievers_setRetriever]

variable (system)

/-- A step that leaves a thread on its side of the mutex. -/
theorem inside_setGenerator_of_same {pc : GeneratorPc}
    (same : pc.inside = (system.generators thread).inside) (party : Thread ⊕ Reader) :
    (system.setGenerator thread pc).Inside party ↔ system.Inside party := by
  by_cases own : party = .inl thread
  · rw [own, inside_inl_setGenerator, same]
    exact Iff.rfl
  · exact inside_setGenerator_of_ne own pc

theorem inside_setRetriever_of_same {pc : RetrieverPc}
    (same : pc.inside = (system.retrievers reader).inside) (party : Thread ⊕ Reader) :
    (system.setRetriever reader pc).Inside party ↔ system.Inside party := by
  by_cases own : party = .inr reader
  · rw [own, inside_inr_setRetriever, same]
    exact Iff.rfl
  · exact inside_setRetriever_of_ne own pc

end Inside

/-- **One step keeps the parties inside and the owner of the mutex the same.** -/
theorem Takes.guards {size : Nat} {system next : System Thread Reader}
    {event : LogEvent Thread Reader} (ok : ∀ thread, (system.generators thread).Ok)
    (guards : Guards system.mutex system.Inside) (taken : system.Takes size event next) :
    Guards next.mutex next.Inside := by
  cases taken with
  | call idle => exact guards.stay (inside_setGenerator_of_same system (by rw [idle]; rfl))
  | @acquire thread call trying free =>
    rw [free] at guards
    refine guards.acquire ?_ fun party own => inside_setGenerator_of_ne own _
    rw [inside_inl_setGenerator]
    rfl
  | drop trying taken => exact guards.stay (inside_setGenerator_of_same system (by rw [trying]; rfl))
  | @lockMtx thread call locking =>
    exact guards.stay (inside_setGenerator_of_same { system with mtx := some thread }
      (by rw [locking]; rfl))
  | unlockMtx unlocking =>
    exact guards.stay (inside_setGenerator_of_same { system with mtx := none }
      (by rw [unlocking]; rfl))
  | @access thread pc ring accessed =>
    obtain ⟨-, -, was, is⟩ := GeneratorPc.step_finish (ok thread) accessed
    exact guards.stay (inside_setGenerator_of_same { system with ring } (is.trans was.symm))
  | @unlock thread leaving =>
    have entered : system.Inside (.inl thread) := by
      show (system.generators thread).inside = true
      rw [leaving]
      rfl
    rw [(guards _).mp entered] at guards
    refine guards.release ?_ fun party own => inside_setGenerator_of_ne own _
    rw [inside_inl_setGenerator]
    exact Bool.false_ne_true
  | getLog idle => exact guards.stay (inside_setRetriever_of_same system (by rw [idle]; rfl))
  | @lock reader waiting free =>
    rw [free] at guards
    refine guards.acquire ?_ fun party own => inside_setRetriever_of_ne own _
    rw [inside_inr_setRetriever]
    rfl
  | copyByte copying more =>
    exact guards.stay (inside_setRetriever_of_same system (by rw [copying]; rfl))
  | @finished reader tempLogBuf copying whole =>
    have entered : system.Inside (.inr reader) := by
      show (system.retrievers reader).inside = true
      rw [copying]
      rfl
    rw [(guards _).mp entered] at guards
    refine guards.release ?_ fun party own => inside_setRetriever_of_ne own _
    rw [inside_inr_setRetriever]
    exact Bool.false_ne_true

end System

end StatLog.Logger
