/-
**No writer waits, and nobody waits for ever.**

`doWriteData` tries the interprocess mutex and gives up when it is taken; only `getLog` waits for it. The
generator's own `mtx` is locked inside, where nobody else can be.

* `GeneratorPc.stepsLeft`, `RetrieverPc.stepsLeft`: how many steps of its own a party needs until it
  returns.
* `Sound`: both locks and the parties between taking and leaving them.
* `exists_step`: a thread in `doWriteData` always has a step to take.
* **`doWriteData_waitFree`**: a call returns after a number of the thread's own steps that depends on the
  length of the buffer only, whatever all others do, and none of these steps has to wait.
* **`parties_drain`**: once nobody enters any more, all parties return and both locks are free.
-/

import Mathlib.Algebra.Order.BigOperators.Group.Finset
import Mathlib.Data.Fintype.Sum
import StatLog.Logger.Snapshot

set_option linter.unusedSectionVars false

namespace StatLog.Logger

open ByteMemory CircularBuffer Transition Mutex

/-! ### Steps left -/

/-- The passes that the copy loop still makes. -/
def CopyState.passesLeft (state : CopyState) : Nat :=
  if state.bytesToWrite = 0 then 0
  else 1 + ceilDivide (state.buf.length - state.bytesToWrite) maxCharsInOtherBlocks

/-- **The steps of its own that a thread still takes**; it takes less if it gives up. -/
def GeneratorPc.stepsLeft (numLogEntries : Nat) : GeneratorPc → Nat
  | .idle => 0
  | .tryToLock call => 13 + 2 * (CopyState.start 0 call.buf).passesLeft
  | .lockMtx call => 12 + 2 * (CopyState.start 0 call.buf).passesLeft
  | .readCursor call => 11 + 2 * (CopyState.start 0 call.buf).passesLeft
  | .writeCursor call _ => 10 + 2 * (CopyState.start 0 call.buf).passesLeft
  | .unlockMtx call _ => 9 + 2 * (CopyState.start 0 call.buf).passesLeft
  | .header call _ fields => fields.length + 3 + 2 * (CopyState.start 0 call.buf).passesLeft
  | .loop state => 2 + 2 * state.passesLeft
  | .copied state => 3 + 2 * (state.next numLogEntries).passesLeft
  | .unlock => 1

/-- The steps of its own that a retriever still takes, once it need not wait. -/
def RetrieverPc.stepsLeft (size : Nat) : RetrieverPc → Nat
  | .idle => 0
  | .waiting => size + 2
  | .copying tempLogBuf => size - tempLogBuf.length + 1

/-- Only the start decides about the passes. -/
theorem passesLeft_start (cursor : Nat) (buf : List UInt8) :
    (CopyState.start cursor buf).passesLeft = (CopyState.start 0 buf).passesLeft := rfl

/-- **One pass less** behind each pass. -/
theorem passesLeft_next (numLogEntries : Nat) {state : CopyState} (copying : state.bytesToWrite > 0) :
    (state.next numLogEntries).passesLeft + 1 = state.passesLeft := by
  have length := congrArg List.length (CopyState.next_buf numLogEntries state)
  have capped := (CopyState.next_capped numLogEntries state).eq
  rw [List.length_drop] at length
  unfold CopyState.passesLeft ceilDivide
  unfold maxCharsInOtherBlocks bytesPerLogBuf sizeofLogHeaderCommon at *
  rw [length] at capped ⊢
  rw [capped, if_neg (Nat.ne_of_gt copying)]
  split <;> omega

/-- There are no more passes than slots. -/
theorem passesLeft_start_le (buf : List UInt8) :
    (CopyState.start 0 buf).passesLeft ≤ numLogBufs buf.length := by
  unfold CopyState.passesLeft CopyState.start numLogBufs
  simp only
  unfold maxCharsInFirstBlock bytesPerLogBuf sizeofLogHeader
  unfold ceilDivide maxCharsInOtherBlocks bytesPerLogBuf sizeofLogHeaderCommon
  split <;> split <;> omega

theorem GeneratorPc.stepsLeft_pos (numLogEntries : Nat) {pc : GeneratorPc} (busy : pc ≠ .idle) :
    0 < pc.stepsLeft numLogEntries := by
  cases pc with
  | idle => exact absurd rfl busy
  | unlock => exact Nat.one_pos
  | _ =>
    simp only [stepsLeft]
    omega

/-- An access of the thread inside is one step less. -/
theorem GeneratorPc.step_stepsLeft {numLogEntries : Nat} {ring ring' : LogRing} {pc pc' : GeneratorPc}
    (taken : pc.step numLogEntries ring = some (pc', ring')) :
    pc'.stepsLeft numLogEntries + 1 = pc.stepsLeft numLogEntries := by
  cases pc with
  | readCursor call =>
    cases taken
    show 10 + _ + 1 = 11 + _
    omega
  | writeCursor call startLogIdx =>
    cases taken
    show 9 + _ + 1 = 10 + _
    omega
  | header call startLogIdx fields =>
    cases fields with
    | nil =>
      cases taken
      show 2 + 2 * (CopyState.start startLogIdx call.buf).passesLeft + 1 = 0 + 3 + _
      rw [passesLeft_start]
      omega
    | cons field fields =>
      cases taken
      show fields.length + 3 + _ + 1 = fields.length + 1 + 3 + _
      omega
  | loop state =>
    simp only [step] at taken
    split at taken
    case isTrue copying =>
      cases taken
      have pass := passesLeft_next numLogEntries copying
      show 3 + 2 * _ + 1 = 2 + 2 * _
      omega
    case isFalse done =>
      cases taken
      have none : state.passesLeft = 0 := if_pos (Nat.eq_zero_of_not_pos done)
      show 1 + 1 = 2 + 2 * state.passesLeft
      rw [none]
  | copied state =>
    have both : 2 + 2 * (state.next numLogEntries).passesLeft + 1 =
        3 + 2 * (state.next numLogEntries).passesLeft := by omega
    simp only [step] at taken
    split at taken <;> cases taken <;> exact both
  | idle => cases taken
  | tryToLock call => cases taken
  | lockMtx call => cases taken
  | unlockMtx call startLogIdx => cases taken
  | unlock => cases taken

/-! ### The generator's own lock -/

/-- The thread is between taking and leaving `mtx`. -/
def GeneratorPc.insideMtx : GeneratorPc → Bool
  | .readCursor _ => true
  | .writeCursor _ _ => true
  | .unlockMtx _ _ => true
  | _ => false

theorem GeneratorPc.step_insideMtx {numLogEntries : Nat} {ring ring' : LogRing} {pc pc' : GeneratorPc}
    (taken : pc.step numLogEntries ring = some (pc', ring')) : pc'.insideMtx = pc.insideMtx := by
  cases pc with
  | readCursor call => cases taken; rfl
  | writeCursor call startLogIdx => cases taken; rfl
  | header call startLogIdx fields => cases fields <;> cases taken <;> rfl
  | loop state =>
    simp only [step] at taken
    split at taken <;> cases taken <;> rfl
  | copied state =>
    simp only [step] at taken
    split at taken <;> cases taken <;> rfl
  | idle => cases taken
  | tryToLock call => cases taken
  | lockMtx call => cases taken
  | unlockMtx call startLogIdx => cases taken
  | unlock => cases taken

/-- `mtx` is only held inside the interprocess mutex. -/
theorem GeneratorPc.inside_of_insideMtx {pc : GeneratorPc} (entered : pc.insideMtx = true) :
    pc.inside = true := by
  cases pc <;> first | rfl | cases entered

namespace System

variable {Thread Reader : Type} [DecidableEq Thread] [DecidableEq Reader]

def InsideMtx (system : System Thread Reader) (thread : Thread) : Prop :=
  (system.generators thread).insideMtx = true

/-- **Both locks guard what they are for**, and no retriever copies more than there is. -/
structure Sound (size : Nat) (system : System Thread Reader) : Prop where
  ok : ∀ thread, (system.generators thread).Ok
  mutex : Guards system.mutex system.Inside
  mtx : Guards system.mtx system.InsideMtx
  within : ∀ reader tempLogBuf, system.retrievers reader = .copying tempLogBuf →
    tempLogBuf.length ≤ size

section Mtx

variable {size : Nat} {system : System Thread Reader} {thread : Thread}

theorem insideMtx_setGenerator (pc : GeneratorPc) :
    (system.setGenerator thread pc).InsideMtx thread ↔ pc.insideMtx = true := by
  unfold InsideMtx
  rw [generators_setGenerator]

theorem insideMtx_setGenerator_of_ne {other : Thread} (different : other ≠ thread) (pc : GeneratorPc) :
    (system.setGenerator thread pc).InsideMtx other ↔ system.InsideMtx other := by
  unfold InsideMtx
  rw [generators_setGenerator_of_ne different]

variable (system) in
/-- A step that leaves a thread on its side of `mtx`. -/
theorem insideMtx_setGenerator_of_same {pc : GeneratorPc}
    (same : pc.insideMtx = (system.generators thread).insideMtx) (other : Thread) :
    (system.setGenerator thread pc).InsideMtx other ↔ system.InsideMtx other := by
  by_cases own : other = thread
  · subst own
    rw [insideMtx_setGenerator, same]
    rfl
  · exact insideMtx_setGenerator_of_ne own pc

/-- **A thread that locks `mtx` finds it free**, as it is alone behind the interprocess mutex. -/
theorem Sound.mtx_free (sound : system.Sound size) {call : WriteCall}
    (locking : system.generators thread = .lockMtx call) : system.mtx = none := by
  rcases held : system.mtx with _ | other
  · rfl
  · have entered : system.InsideMtx other := (sound.mtx other).mpr held
    have own : system.Inside (.inl thread) := by
      show (system.generators thread).inside = true
      rw [locking]
      rfl
    have also : system.Inside (.inl other) := GeneratorPc.inside_of_insideMtx entered
    obtain rfl := Sum.inl.inj (sound.mutex.unique own also)
    unfold InsideMtx at entered
    rw [locking] at entered
    cases entered

theorem Takes.mtx {next : System Thread Reader} {event : LogEvent Thread Reader}
    (sound : system.Sound size) (taken : system.Takes size event next) :
    Guards next.mtx next.InsideMtx := by
  cases taken with
  | call idle => exact sound.mtx.stay (insideMtx_setGenerator_of_same system (by rw [idle]; rfl))
  | @acquire thread call trying free =>
    exact sound.mtx.stay (insideMtx_setGenerator_of_same
      { system with mutex := some (.inl thread) } (by rw [trying]; rfl))
  | drop trying taken =>
    exact sound.mtx.stay (insideMtx_setGenerator_of_same system (by rw [trying]; rfl))
  | @lockMtx thread call locking =>
    have free := sound.mtx
    rw [sound.mtx_free locking] at free
    refine free.acquire ?_ fun other different => insideMtx_setGenerator_of_ne different _
    rw [insideMtx_setGenerator]
    rfl
  | @unlockMtx thread call startLogIdx unlocking =>
    have entered : system.InsideMtx thread := by
      unfold InsideMtx
      rw [unlocking]
      rfl
    have held := sound.mtx
    rw [(sound.mtx thread).mp entered] at held
    refine held.release ?_ fun other different => insideMtx_setGenerator_of_ne different _
    rw [insideMtx_setGenerator]
    exact Bool.false_ne_true
  | @access thread pc ring accessed =>
    exact sound.mtx.stay (insideMtx_setGenerator_of_same { system with ring }
      (GeneratorPc.step_insideMtx accessed))
  | @unlock thread leaving =>
    exact sound.mtx.stay (insideMtx_setGenerator_of_same { system with mutex := none }
      (by rw [leaving]; rfl))
  | getLog idle => exact sound.mtx
  | lock waiting free => exact sound.mtx
  | copyByte copying more => exact sound.mtx
  | finished copying whole => exact sound.mtx

theorem Takes.within {next : System Thread Reader} {event : LogEvent Thread Reader}
    (sound : system.Sound size) (taken : system.Takes size event next) (reader : Reader)
    (tempLogBuf : List UInt8) (copying : next.retrievers reader = .copying tempLogBuf) :
    tempLogBuf.length ≤ size := by
  cases taken with
  | getLog idle =>
    rcases retrievers_of_setRetriever copying with ⟨-, new⟩ | was
    · cases new
    · exact sound.within reader tempLogBuf was
  | lock waiting free =>
    rcases retrievers_of_setRetriever copying with ⟨-, new⟩ | was
    · cases new
      exact Nat.zero_le size
    · exact sound.within reader tempLogBuf was
  | copyByte copying' more =>
    rcases retrievers_of_setRetriever copying with ⟨-, new⟩ | was
    · cases new
      rw [List.length_append, List.length_singleton]
      exact more
    · exact sound.within reader tempLogBuf was
  | finished was whole =>
    rcases retrievers_of_setRetriever copying with ⟨-, new⟩ | was
    · cases new
    · exact sound.within reader tempLogBuf was
  | _ => exact sound.within reader tempLogBuf copying

/-- **One step keeps all this.** -/
theorem Takes.sound {next : System Thread Reader} {event : LogEvent Thread Reader}
    (sound : system.Sound size) (taken : system.Takes size event next) : next.Sound size where
  ok := taken.ok sound.ok
  mutex := taken.guards sound.ok sound.mutex
  mtx := taken.mtx sound
  within := taken.within sound

end Mtx

theorem sound_initial (size : Nat) : (initial : System Thread Reader).Sound size where
  ok _ := trivial
  mutex party := by
    cases party <;> exact iff_of_false Bool.false_ne_true fun held => by cases held
  mtx _ := iff_of_false Bool.false_ne_true fun held => by cases held
  within _ _ copying := by cases copying

theorem sound_of_run {size : Nat} {history : List (LogEvent Thread Reader)}
    {system : System Thread Reader} (runs : run (step size) initial history = some system) :
    system.Sound size :=
  run_induction (step size) (fun _ system => system.Sound size) (sound_initial size)
    (fun _ _ _ _ sound taken => (takes_of_step taken).sound sound) runs

end System

/-! ### Steps of their own -/

/-- Whose step it is. -/
def LogEvent.party {Thread Reader : Type} : LogEvent Thread Reader → Thread ⊕ Reader
  | .call thread _ => .inl thread
  | .acquire thread _ => .inl thread
  | .drop thread _ => .inl thread
  | .lockMtx thread => .inl thread
  | .unlockMtx thread => .inl thread
  | .access thread => .inl thread
  | .unlock thread => .inl thread
  | .getLog reader => .inr reader
  | .lock reader => .inr reader
  | .copyByte reader => .inr reader
  | .finished reader _ => .inr reader

/-- A party enters `doWriteData` or `getLog`. -/
def LogEvent.enters {Thread Reader : Type} : LogEvent Thread Reader → Bool
  | .call _ _ => true
  | .getLog _ => true
  | _ => false

namespace System

variable {Thread Reader : Type} [DecidableEq Thread] [DecidableEq Reader]

/-- The steps of its own that a party still takes. -/
def stepsLeft (size : Nat) (system : System Thread Reader) : Thread ⊕ Reader → Nat
  | .inl thread => (system.generators thread).stepsLeft (numLogEntriesOf size)
  | .inr reader => (system.retrievers reader).stepsLeft size

section Steps

variable {size : Nat} {system next : System Thread Reader} {event : LogEvent Thread Reader}

theorem stepsLeft_setGenerator (thread : Thread) (pc : GeneratorPc) :
    (system.setGenerator thread pc).stepsLeft size (.inl thread) =
      pc.stepsLeft (numLogEntriesOf size) := by
  unfold stepsLeft
  simp only [generators_setGenerator]

theorem stepsLeft_setRetriever (reader : Reader) (pc : RetrieverPc) :
    (system.setRetriever reader pc).stepsLeft size (.inr reader) = pc.stepsLeft size := by
  unfold stepsLeft
  simp only [retrievers_setRetriever]

theorem stepsLeft_setGenerator_of_ne {thread : Thread} {party : Thread ⊕ Reader}
    (other : .inl thread ≠ party) (pc : GeneratorPc) :
    (system.setGenerator thread pc).stepsLeft size party = system.stepsLeft size party := by
  cases party with
  | inl another =>
    have different : another ≠ thread := fun same => other (congrArg Sum.inl same.symm)
    unfold stepsLeft
    simp only [generators_setGenerator_of_ne different]
  | inr reader => rfl

theorem stepsLeft_setRetriever_of_ne {reader : Reader} {party : Thread ⊕ Reader}
    (other : .inr reader ≠ party) (pc : RetrieverPc) :
    (system.setRetriever reader pc).stepsLeft size party = system.stepsLeft size party := by
  cases party with
  | inl thread => rfl
  | inr another =>
    have different : another ≠ reader := fun same => other (congrArg Sum.inr same.symm)
    unfold stepsLeft
    simp only [retrievers_setRetriever_of_ne different]

/-- **No step of one party delays another one.** -/
theorem Takes.stepsLeft_other (taken : system.Takes size event next) {party : Thread ⊕ Reader}
    (other : event.party ≠ party) : next.stepsLeft size party = system.stepsLeft size party := by
  cases taken with
  | call idle => exact stepsLeft_setGenerator_of_ne other _
  | acquire trying free => exact stepsLeft_setGenerator_of_ne other _
  | drop trying taken => exact stepsLeft_setGenerator_of_ne other _
  | lockMtx locking => exact stepsLeft_setGenerator_of_ne other _
  | unlockMtx unlocking => exact stepsLeft_setGenerator_of_ne other _
  | access accessed => exact stepsLeft_setGenerator_of_ne other _
  | unlock leaving => exact stepsLeft_setGenerator_of_ne other _
  | getLog idle => exact stepsLeft_setRetriever_of_ne other _
  | lock waiting free => exact stepsLeft_setRetriever_of_ne other _
  | copyByte copying more => exact stepsLeft_setRetriever_of_ne other _
  | finished copying whole => exact stepsLeft_setRetriever_of_ne other _

/-- **Every step of its own brings a party nearer to its return.** -/
theorem Takes.stepsLeft_own (taken : system.Takes size event next) (inside : event.enters = false) :
    next.stepsLeft size event.party + 1 ≤ system.stepsLeft size event.party := by
  cases taken with
  | call idle => cases inside
  | getLog idle => cases inside
  | @acquire thread call trying free =>
    show (setGenerator _ thread _).stepsLeft size (.inl thread) + 1 ≤
      (system.generators thread).stepsLeft (numLogEntriesOf size)
    rw [stepsLeft_setGenerator, trying]
    show 12 + _ + 1 ≤ 13 + _
    omega
  | @drop thread call trying taken =>
    show (setGenerator _ thread _).stepsLeft size (.inl thread) + 1 ≤
      (system.generators thread).stepsLeft (numLogEntriesOf size)
    rw [stepsLeft_setGenerator, trying]
    show 0 + 1 ≤ 13 + _
    omega
  | @lockMtx thread call locking =>
    show (setGenerator _ thread _).stepsLeft size (.inl thread) + 1 ≤
      (system.generators thread).stepsLeft (numLogEntriesOf size)
    rw [stepsLeft_setGenerator, locking]
    show 11 + _ + 1 ≤ 12 + _
    omega
  | @unlockMtx thread call startLogIdx unlocking =>
    show (setGenerator _ thread _).stepsLeft size (.inl thread) + 1 ≤
      (system.generators thread).stepsLeft (numLogEntriesOf size)
    rw [stepsLeft_setGenerator, unlocking]
    show 5 + 3 + _ + 1 ≤ 9 + _
    omega
  | @access thread pc ring accessed =>
    show (setGenerator _ thread pc).stepsLeft size (.inl thread) + 1 ≤
      (system.generators thread).stepsLeft (numLogEntriesOf size)
    rw [stepsLeft_setGenerator]
    exact Nat.le_of_eq (GeneratorPc.step_stepsLeft accessed)
  | @unlock thread leaving =>
    show (setGenerator _ thread _).stepsLeft size (.inl thread) + 1 ≤
      (system.generators thread).stepsLeft (numLogEntriesOf size)
    rw [stepsLeft_setGenerator, leaving]
    exact Nat.le_refl _
  | @lock reader waiting free =>
    show (setRetriever _ reader _).stepsLeft size (.inr reader) + 1 ≤
      (system.retrievers reader).stepsLeft size
    rw [stepsLeft_setRetriever, waiting]
    exact Nat.le_refl _
  | @copyByte reader tempLogBuf copying more =>
    show (setRetriever _ reader _).stepsLeft size (.inr reader) + 1 ≤
      (system.retrievers reader).stepsLeft size
    rw [stepsLeft_setRetriever, copying]
    show size - (tempLogBuf ++ [_]).length + 1 + 1 ≤ size - tempLogBuf.length + 1
    rw [List.length_append, List.length_singleton]
    omega
  | @finished reader tempLogBuf copying whole =>
    show (setRetriever _ reader _).stepsLeft size (.inr reader) + 1 ≤
      (system.retrievers reader).stepsLeft size
    rw [stepsLeft_setRetriever, copying]
    exact Nat.le_add_left _ _

/-- **A thread in `doWriteData` has a step to take**, whatever the others are doing. -/
theorem exists_step (sound : system.Sound size) {thread : Thread}
    (busy : system.generators thread ≠ .idle) :
    ∃ event : LogEvent Thread Reader, event.party = .inl thread ∧ event.enters = false ∧
      (system.step size event).isSome := by
  have accesses : ((system.generators thread).step (numLogEntriesOf size) system.ring).isSome →
      (system.step size (.access thread)).isSome := by
    intro some'
    show (((system.generators thread).step (numLogEntriesOf size) system.ring).map _).isSome
    rw [Option.isSome_map]
    exact some'
  cases pc : system.generators thread with
  | idle => exact absurd pc busy
  | tryToLock call =>
    cases owner : system.mutex with
    | none =>
      refine ⟨.acquire thread call, rfl, rfl, ?_⟩
      simp only [step, pc, owner, if_true]
      rfl
    | some party =>
      refine ⟨.drop thread call, rfl, rfl, ?_⟩
      simp only [step, pc, owner, if_true]
      rfl
  | lockMtx call =>
    refine ⟨.lockMtx thread, rfl, rfl, ?_⟩
    simp only [step, pc, sound.mtx_free pc]
    rfl
  | unlockMtx call startLogIdx =>
    refine ⟨.unlockMtx thread, rfl, rfl, ?_⟩
    simp only [step, pc]
    rfl
  | unlock =>
    refine ⟨.unlock thread, rfl, rfl, ?_⟩
    simp only [step, pc]
    rfl
  | readCursor call =>
    refine ⟨.access thread, rfl, rfl, accesses ?_⟩
    rw [pc]
    rfl
  | writeCursor call startLogIdx =>
    refine ⟨.access thread, rfl, rfl, accesses ?_⟩
    rw [pc]
    rfl
  | header call startLogIdx fields =>
    refine ⟨.access thread, rfl, rfl, accesses ?_⟩
    rw [pc]
    cases fields <;> rfl
  | loop state =>
    refine ⟨.access thread, rfl, rfl, accesses ?_⟩
    rw [pc, GeneratorPc.step]
    split <;> rfl
  | copied state =>
    refine ⟨.access thread, rfl, rfl, accesses ?_⟩
    rw [pc, GeneratorPc.step]
    split <;> rfl

/-- A thread stays in `doWriteData` until it gives up or leaves the mutex. -/
theorem Takes.busy (sound : system.Sound size) (taken : system.Takes size event next) {thread : Thread}
    (busy : system.generators thread ≠ .idle) (unreturned : event ≠ .unlock thread)
    (kept : ∀ call, event ≠ .drop thread call) : next.generators thread ≠ .idle := by
  by_cases own : event.party = .inl thread
  · cases taken with
    | call idle =>
      obtain rfl := Sum.inl.inj own
      exact absurd idle busy
    | acquire trying free =>
      obtain rfl := Sum.inl.inj own
      rw [generators_setGenerator]
      exact fun idle => by cases idle
    | drop trying taken =>
      obtain rfl := Sum.inl.inj own
      exact absurd rfl (kept _)
    | lockMtx locking =>
      obtain rfl := Sum.inl.inj own
      rw [generators_setGenerator]
      exact fun idle => by cases idle
    | unlockMtx unlocking =>
      obtain rfl := Sum.inl.inj own
      rw [generators_setGenerator]
      exact fun idle => by cases idle
    | access accessed =>
      obtain rfl := Sum.inl.inj own
      have inside := (GeneratorPc.step_finish (sound.ok _) accessed).2.2.2
      rw [generators_setGenerator]
      rintro rfl
      cases inside
    | unlock leaving =>
      obtain rfl := Sum.inl.inj own
      exact absurd rfl unreturned
    | getLog idle => cases own
    | lock waiting free => cases own
    | copyByte copying more => cases own
    | finished copying whole => cases own
  · have same := taken.stepsLeft_other own
    have before := GeneratorPc.stepsLeft_pos (numLogEntriesOf size) busy
    intro idle
    unfold stepsLeft at same
    simp only [idle] at same
    rw [← same] at before
    exact Nat.lt_irrefl 0 before

end Steps

/-! ### Writers -/

section Writers

variable {size : Nat} {thread : Thread}

/-- A call in progress, step by step. -/
theorem run_unreturned {start final : System Thread Reader} (sound : start.Sound size)
    (busy : start.generators thread ≠ .idle) {during : List (LogEvent Thread Reader)}
    (unreturned : ∀ event ∈ during, event ≠ .unlock thread ∧ ∀ call, event ≠ .drop thread call)
    (runs : run (step size) start during = some final) :
    (final.Sound size ∧ final.generators thread ≠ .idle) ∧
      during.countP (fun event => event.party = .inl thread) + final.stepsLeft size (.inl thread) ≤
        start.stepsLeft size (.inl thread) := by
  refine run_measure (step size) (fun system => system.Sound size ∧ system.generators thread ≠ .idle) _ _
    (fun system => system.stepsLeft size (.inl thread)) ?_ ⟨sound, busy⟩ unreturned runs
  rintro system event next ⟨sound, busy⟩ ⟨still, kept⟩ taken
  have taken := takes_of_step taken
  refine ⟨⟨taken.sound sound, taken.busy sound busy still kept⟩, ?_⟩
  by_cases own : event.party = .inl thread
  · have inside : event.enters = false := by
      cases taken with
      | call idle =>
        obtain rfl := Sum.inl.inj own
        exact absurd idle busy
      | getLog idle => cases own
      | _ => rfl
    have less := taken.stepsLeft_own inside
    rw [own] at less
    rw [decide_eq_true own]
    exact less
  · rw [decide_eq_false own]
    exact Nat.le_of_eq (taken.stepsLeft_other own)

/-- **`doWriteData` does not wait.** In every run, a thread whose call has not returned has taken less
than `13` of its own steps, and two for each slot of its entry; and it has a next step to take, whatever
the other threads and the retrievers have done or are in the middle of. -/
theorem doWriteData_waitFree {history during : List (LogEvent Thread Reader)} {call : WriteCall}
    {system : System Thread Reader}
    (runs : run (step size) initial (history ++ .call thread call :: during) = some system)
    (unreturned : ∀ event ∈ during, event ≠ .unlock thread ∧ ∀ call, event ≠ .drop thread call) :
    during.countP (fun event => event.party = .inl thread) < 13 + 2 * numLogBufs call.buf.length ∧
      ∃ event : LogEvent Thread Reader, event.party = .inl thread ∧ event.enters = false ∧
        (system.step size event).isSome := by
  obtain ⟨start, called, earlier, calls, later⟩ := run_split (step size) runs
  have called' := (takes_of_step calls).sound (sound_of_run earlier)
  have begins : called.generators thread = .tryToLock call := by
    cases takes_of_step calls with
    | call idle => exact generators_setGenerator _
  have busy : called.generators thread ≠ .idle := by
    rw [begins]
    exact fun idle => by cases idle
  obtain ⟨⟨sound, busy'⟩, bound⟩ := run_unreturned called' busy unreturned later
  refine ⟨?_, exists_step sound busy'⟩
  have left := GeneratorPc.stepsLeft_pos (numLogEntriesOf size) busy'
  have most := passesLeft_start_le call.buf
  have total : called.stepsLeft size (.inl thread) = 13 + 2 * (CopyState.start 0 call.buf).passesLeft := by
    unfold stepsLeft
    simp only [begins]
    rfl
  have still : 0 < system.stepsLeft size (.inl thread) := left
  omega

end Writers

/-- A thread calls while a retriever holds the mutex and copies. -/
theorem doWriteData_waitFree_copying : ∃ system : System Bool Unit,
    run (step 512) initial ([.getLog (), .lock ()] ++ .call true sampleEntry :: [.copyByte ()]) =
        some system ∧
      [LogEvent.copyByte ()].countP (fun event : LogEvent Bool Unit => event.party = .inl true) <
        13 + 2 * numLogBufs sampleEntry.buf.length ∧
      ∃ event : LogEvent Bool Unit, event.party = .inl true ∧ event.enters = false ∧
        (system.step 512 event).isSome := by
  have runs : run (step 512) initial ([.getLog (), .lock ()] ++ .call true sampleEntry ::
      [.copyByte ()]) = some (_ : System Bool Unit) := rfl
  refine ⟨_, runs, doWriteData_waitFree runs fun event member => ?_⟩
  obtain rfl := List.mem_singleton.mp member
  exact ⟨(fun same => by cases same), fun call same => by cases same⟩

/-! ### Everybody -/

section Everybody

variable {size : Nat} {system : System Thread Reader}

/-- **Where no party inside has a step to take, there is none.** -/
theorem idle_of_stuck (sound : system.Sound size)
    (stuck : ∀ event : LogEvent Thread Reader, event.enters = false → system.step size event = none) :
    (∀ thread, system.generators thread = .idle) ∧ (∀ reader, system.retrievers reader = .idle) ∧
      system.mutex = none ∧ system.mtx = none := by
  have generators : ∀ thread, system.generators thread = .idle := by
    intro thread
    by_contra busy
    obtain ⟨event, -, inside, enabled⟩ := exists_step sound busy
    rw [stuck event inside] at enabled
    cases enabled
  have notCopying : ∀ reader tempLogBuf, system.retrievers reader ≠ .copying tempLogBuf := by
    intro reader tempLogBuf copying
    rcases Nat.lt_or_eq_of_le (sound.within reader tempLogBuf copying) with more | whole
    · have blocked := stuck (.copyByte reader) rfl
      simp only [step, copying] at blocked
      rw [if_pos more] at blocked
      cases blocked
    · have blocked := stuck (.finished reader tempLogBuf) rfl
      simp only [step, copying] at blocked
      rw [if_pos ⟨trivial, whole⟩] at blocked
      cases blocked
  have mutex : system.mutex = none := by
    rcases owner : system.mutex with _ | thread | reader
    · rfl
    · have inside : (system.generators thread).inside = true := (sound.mutex (.inl thread)).mpr owner
      rw [generators thread] at inside
      cases inside
    · have inside : (system.retrievers reader).inside = true := (sound.mutex (.inr reader)).mpr owner
      cases pc : system.retrievers reader with
      | copying tempLogBuf => exact absurd pc (notCopying reader tempLogBuf)
      | idle =>
        rw [pc] at inside
        cases inside
      | waiting =>
        rw [pc] at inside
        cases inside
  refine ⟨generators, fun reader => ?_, mutex, ?_⟩
  · cases pc : system.retrievers reader with
    | idle => rfl
    | copying tempLogBuf => exact absurd pc (notCopying reader tempLogBuf)
    | waiting =>
      have blocked := stuck (.lock reader) rfl
      simp only [step, pc, mutex] at blocked
      cases blocked
  · rcases owner : system.mtx with _ | thread
    · rfl
    · have inside : (system.generators thread).insideMtx = true := (sound.mtx thread).mpr owner
      rw [generators thread] at inside
      cases inside

variable [Fintype Thread] [Fintype Reader]

/-- **Every step brings them all nearer to their return**, if nobody enters. -/
theorem Takes.sum_stepsLeft {next : System Thread Reader} {event : LogEvent Thread Reader}
    (taken : system.Takes size event next) (inside : event.enters = false) :
    ∑ party, next.stepsLeft size party + 1 ≤ ∑ party, system.stepsLeft size party := by
  refine Nat.succ_le_of_lt (Finset.sum_lt_sum (fun party _ => ?_)
    ⟨event.party, Finset.mem_univ _, taken.stepsLeft_own inside⟩)
  by_cases own : event.party = party
  · rw [← own]
    exact Nat.le_of_succ_le (taken.stepsLeft_own inside)
  · exact Nat.le_of_eq (taken.stepsLeft_other own)

/-- **Neither deadlock nor livelock.** From every state that finitely many threads and retrievers reach,
if nobody enters any more, every run ends after at most as many steps as they have left; and where it
cannot go on, all of them have returned and both locks are free. -/
theorem parties_drain {history later : List (LogEvent Thread Reader)} {final : System Thread Reader}
    (runs : run (step size) initial history = some system)
    (inside : ∀ event ∈ later, event.enters = false)
    (drains : run (step size) system later = some final) :
    later.length ≤ ∑ party, system.stepsLeft size party ∧
      ((∀ event : LogEvent Thread Reader, event.enters = false → final.step size event = none) →
        (∀ thread, final.generators thread = .idle) ∧ (∀ reader, final.retrievers reader = .idle) ∧
          final.mutex = none ∧ final.mtx = none) := by
  obtain ⟨sound, bound⟩ := run_measure (step size) (fun system => system.Sound size) _ (fun _ => true)
    (fun system => ∑ party, system.stepsLeft size party)
    (fun system event next sound inside taken => ⟨(takes_of_step taken).sound sound,
      (takes_of_step taken).sum_stepsLeft inside⟩) (sound_of_run runs) inside drains
  refine ⟨?_, idle_of_stuck sound⟩
  rw [List.countP_true] at bound
  omega

end Everybody

/-- A thread enters while a retriever copies. -/
def entersWhileCopying : List (LogEvent Bool Unit) := [.getLog (), .lock (), .call true sampleEntry]

/-- Its entry is dropped. -/
def dropsEntry : List (LogEvent Bool Unit) := [.drop true sampleEntry]

theorem parties_drain_dropped : ∃ system final : System Bool Unit,
    run (step 512) initial entersWhileCopying = some system ∧
      run (step 512) system dropsEntry = some final ∧
      dropsEntry.length ≤ ∑ party, system.stepsLeft 512 party ∧
      ((∀ event : LogEvent Bool Unit, event.enters = false → final.step 512 event = none) →
        (∀ thread, final.generators thread = .idle) ∧ (∀ reader, final.retrievers reader = .idle) ∧
          final.mutex = none ∧ final.mtx = none) := by
  have whole : (run (step 512) initial (entersWhileCopying ++ dropsEntry)).isSome := rfl
  obtain ⟨final, whole⟩ := Option.isSome_iff_exists.mp whole
  rw [run_append, Option.bind_eq_some_iff] at whole
  obtain ⟨system, runs, drains⟩ := whole
  refine ⟨system, final, runs, drains, parties_drain runs (fun event member => ?_) drains⟩
  rw [List.mem_singleton.mp member]
  rfl

end System

end StatLog.Logger
