/-
**The clear handshake.**

`AccumOp::write` under its mutex, step by step: test the control word, reset the accumulator, store
`0` to the control word, add the sample. A `CLEAR_STAT` of any control process may come between any
two of these steps, and a write may erase a control word that was set while it ran.

* `Handshake.step`: the writers of one accumulator and the clears.
* `run_write`: the steps of one write without a clear between them are `AccumOp.write`.
* `Agrees`: the invariant. An erased control word comes from a write that resets the accumulator
  itself, and that write is the one in progress at the clear or the first one behind it.
* **`write_handshake`**: whenever no write is in progress the accumulator holds the writes from some
  number on, each once. All that began after the last clear are among them, and as soon as one of
  these is done none that was done before it is. Without a clear it holds all writes.
-/

import Mathlib.Logic.Function.Basic
import StatLog.Lib.Mutex
import StatLog.Lib.Transition
import StatLog.Stats.Accumulator

set_option linter.unusedSectionVars false

namespace StatLog.Stats

open ByteMemory Transition Mutex

/-- Where a thread is in `AccumOp::write`. -/
inductive WriterPc (Sample : Type)
  | idle
  /-- Before the test of the control word; the mutex is held from here on. -/
  | test (sample : Sample)
  | reset (sample : Sample)
  | store (sample : Sample)
  | add (sample : Sample)
  /-- Before the mutex is left. -/
  | finish

/-- The thread holds the mutex. -/
def WriterPc.inside {Sample : Type} : WriterPc Sample → Bool
  | .idle => false
  | _ => true

/-- The sample of a write that has not been added yet. -/
def WriterPc.pending {Sample : Type} : WriterPc Sample → List Sample
  | .test x => [x]
  | .reset x => [x]
  | .store x => [x]
  | .add x => [x]
  | _ => []

/-- The write has not come to the end of the test of the control word and what follows from it. -/
def WriterPc.early {Sample : Type} : WriterPc Sample → Bool
  | .test _ => true
  | .reset _ => true
  | .store _ => true
  | _ => false

/-- The accumulator, the shared memory, the mutex and the threads that write. -/
structure Handshake (Thread Sample : Type) where
  acc : List Sample
  mem : Mem
  mtx : Option Thread
  writers : Thread → WriterPc Sample

inductive HandshakeEvent (Thread Sample : Type)
  /-- A thread enters `write` and takes the mutex. -/
  | start (thread : Thread) (sample : Sample)
  /-- The next step of a thread that holds the mutex. -/
  | access (thread : Thread)
  /-- A thread leaves the mutex and `write`. -/
  | finish (thread : Thread)
  /-- A control process stores `1` to the control word. -/
  | clear

variable {Thread Sample : Type}

/-- The sample of a write that starts. -/
def HandshakeEvent.started : HandshakeEvent Thread Sample → Option Sample
  | .start _ x => some x
  | _ => none

def HandshakeEvent.isFinish : HandshakeEvent Thread Sample → Bool
  | .finish _ => true
  | _ => false

/-- **The writes that began**, in the order in which they took the mutex. -/
def begun (history : List (HandshakeEvent Thread Sample)) : List Sample :=
  history.filterMap HandshakeEvent.started

/-- How many writes are done; as the mutex serialises them, these are the first ones that began. -/
def completions (history : List (HandshakeEvent Thread Sample)) : Nat :=
  history.countP HandshakeEvent.isFinish

theorem begun_append (history later : List (HandshakeEvent Thread Sample)) :
    begun (history ++ later) = begun history ++ begun later :=
  List.filterMap_append

theorem completions_append (history later : List (HandshakeEvent Thread Sample)) :
    completions (history ++ later) = completions history + completions later :=
  List.countP_append

namespace Handshake

/-- No sample, and zeroed memory. -/
def initial : Handshake Thread Sample := ⟨[], fun _ => 0, none, fun _ => .idle⟩

variable [DecidableEq Thread] (features : List (Feature Sample)) (ptr : Nat)

def setWriter (state : Handshake Thread Sample) (thread : Thread) (pc : WriterPc Sample) :
    Handshake Thread Sample :=
  { state with writers := Function.update state.writers thread pc }

/-- **One step** of the writers of the accumulator at `ptr`, or of a control process. -/
def step (state : Handshake Thread Sample) :
    HandshakeEvent Thread Sample → Option (Handshake Thread Sample)
  | .start thread x =>
    match state.writers thread, state.mtx with
    | .idle, none => some ({ state with mtx := some thread }.setWriter thread (.test x))
    | _, _ => none
  | .access thread =>
    match state.writers thread with
    | .test x =>
      if controlWord features state.mem ptr ≠ 0 then some (state.setWriter thread (.reset x))
      else some (state.setWriter thread (.add x))
    | .reset x => some ({ state with acc := [] }.setWriter thread (.store x))
    | .store x =>
      some ({ state with mem := setControlWord features state.mem ptr 0 }.setWriter thread (.add x))
    | .add x => some ({ state with acc := state.acc ++ [x] }.setWriter thread .finish)
    | _ => none
  | .finish thread =>
    match state.writers thread with
    | .finish => some ({ state with mtx := none }.setWriter thread .idle)
    | _ => none
  | .clear => some { state with
      mem := (AccumControl.doStatCommand features ptr .clearStat state.mem {}).1 }

/-- What a step does, and when it can be taken. -/
inductive Takes (state : Handshake Thread Sample) :
    HandshakeEvent Thread Sample → Handshake Thread Sample → Prop
  | start {thread x} (idle : state.writers thread = .idle) (free : state.mtx = none) :
    Takes state (.start thread x) ({ state with mtx := some thread }.setWriter thread (.test x))
  | testSet {thread x} (testing : state.writers thread = .test x)
    (flagged : controlWord features state.mem ptr ≠ 0) :
    Takes state (.access thread) (state.setWriter thread (.reset x))
  | testClear {thread x} (testing : state.writers thread = .test x)
    (clear : controlWord features state.mem ptr = 0) :
    Takes state (.access thread) (state.setWriter thread (.add x))
  | reset {thread x} (resetting : state.writers thread = .reset x) :
    Takes state (.access thread) ({ state with acc := [] }.setWriter thread (.store x))
  | store {thread x} (storing : state.writers thread = .store x) :
    Takes state (.access thread)
      ({ state with mem := setControlWord features state.mem ptr 0 }.setWriter thread (.add x))
  | add {thread x} (adding : state.writers thread = .add x) :
    Takes state (.access thread) ({ state with acc := state.acc ++ [x] }.setWriter thread .finish)
  | finish {thread} (finishing : state.writers thread = .finish) :
    Takes state (.finish thread) ({ state with mtx := none }.setWriter thread .idle)
  | clear : Takes state .clear { state with mem := setControlWord features state.mem ptr 1 }

theorem takes_of_step {state next : Handshake Thread Sample} {event : HandshakeEvent Thread Sample}
    (taken : state.step features ptr event = some next) : state.Takes features ptr event next := by
  cases event with
  | start thread x =>
    simp only [step] at taken
    split at taken
    · rename_i idle free
      cases taken
      exact .start idle free
    · cases taken
  | access thread =>
    simp only [step] at taken
    split at taken
    · rename_i x testing
      by_cases flagged : controlWord features state.mem ptr ≠ 0
      · rw [if_pos flagged] at taken
        cases taken
        exact .testSet testing flagged
      · rw [if_neg flagged] at taken
        cases taken
        exact .testClear testing (not_not.mp flagged)
    · rename_i x resetting
      cases taken
      exact .reset resetting
    · rename_i x storing
      cases taken
      exact .store storing
    · rename_i x adding
      cases taken
      exact .add adding
    · cases taken
  | finish thread =>
    simp only [step] at taken
    split at taken
    · rename_i finishing
      cases taken
      exact .finish finishing
    · cases taken
  | clear =>
    cases taken
    exact .clear

/-! ### One write without a clear -/

section Write

variable {features ptr} {state : Handshake Thread Sample} {thread : Thread}

@[simp] theorem writers_setWriter (pc : WriterPc Sample) :
    (state.setWriter thread pc).writers thread = pc :=
  Function.update_self _ _ _

theorem writers_setWriter_of_ne {other : Thread} (different : other ≠ thread)
    (pc : WriterPc Sample) : (state.setWriter thread pc).writers other = state.writers other :=
  Function.update_of_ne different _ _

/-- The steps of a write that finds the control word as it is, in order. -/
def writeEvents (features : List (Feature Sample)) (ptr : Nat) (state : Handshake Thread Sample)
    (thread : Thread) (x : Sample) : List (HandshakeEvent Thread Sample) :=
  if controlWord features state.mem ptr ≠ 0 then
    [.start thread x, .access thread, .access thread, .access thread, .access thread, .finish thread]
  else [.start thread x, .access thread, .access thread, .finish thread]

/-- **The steps of one write without a clear between them are `AccumOp.write`.** -/
theorem run_write (idle : state.writers thread = .idle) (free : state.mtx = none) (x : Sample) :
    run (step features ptr) state (writeEvents features ptr state thread x) =
      some { state with
        acc := (AccumOp.write features state.acc state.mem ptr x).1
        mem := (AccumOp.write features state.acc state.mem ptr x).2 } := by
  have back : Function.update state.writers thread .idle = state.writers := by
    rw [← idle, Function.update_eq_self]
  unfold writeEvents AccumOp.write
  by_cases flagged : controlWord features state.mem ptr ≠ 0
  · rw [if_pos flagged, if_pos flagged]
    simp [run, step, setWriter, idle, free, flagged, back]
  · rw [if_neg flagged, if_neg flagged]
    have clear := not_not.mp flagged
    simp [run, step, setWriter, idle, free, clear, back]

/-- Where the thread that holds the mutex is. -/
def active (state : Handshake Thread Sample) : WriterPc Sample :=
  match state.mtx with
  | some thread => state.writers thread
  | none => .idle

/-- The threads that hold the mutex. -/
def Inside (state : Handshake Thread Sample) (thread : Thread) : Prop :=
  (state.writers thread).inside = true

theorem active_of_owner (owner : state.mtx = some thread) : state.active = state.writers thread := by
  rw [active, owner]

theorem active_of_free (free : state.mtx = none) : state.active = .idle := by
  rw [active, free]

variable (state) in
theorem active_setWriter (owner : state.mtx = some thread) (pc : WriterPc Sample) :
    (state.setWriter thread pc).active = pc :=
  (active_of_owner (show (state.setWriter thread pc).mtx = some thread from owner)).trans
    (writers_setWriter pc)

theorem inside_setWriter_of_ne {other : Thread} (different : other ≠ thread) (pc : WriterPc Sample) :
    (state.setWriter thread pc).Inside other ↔ state.Inside other := by
  unfold Inside
  rw [writers_setWriter_of_ne different]

theorem inside_setWriter (pc : WriterPc Sample) :
    (state.setWriter thread pc).Inside thread ↔ pc.inside = true := by
  unfold Inside
  rw [writers_setWriter]

/-- A step inside the mutex. -/
theorem guards_access (guards : Guards state.mtx state.Inside)
    (was : (state.writers thread).inside = true) {pc : WriterPc Sample} (is : pc.inside = true) :
    Guards (state.setWriter thread pc).mtx (state.setWriter thread pc).Inside := by
  apply guards.stay
  intro other
  by_cases own : other = thread
  · rw [own, inside_setWriter]
    exact ⟨fun _ => was, fun _ => is⟩
  · exact inside_setWriter_of_ne own pc

end Write

/-! ### The invariant -/

section Invariant

variable {features ptr} {history : List (HandshakeEvent Thread Sample)}
  {state next : Handshake Thread Sample} {first : Nat}

/-- What is known after the last clear. -/
structure Since (features : List (Feature Sample)) (ptr : Nat) (state : Handshake Thread Sample)
    (first : Nat) (before after : List (HandshakeEvent Thread Sample)) : Prop where
  /-- No write that began since was reset away. -/
  kept : first ≤ (begun before).length
  /-- Once the control word is erased, all writes done before the clear are gone. -/
  erased : controlWord features state.mem ptr = 0 → completions before ≤ first
  /-- While it is set, only one write may have begun since, and has not erased it yet. -/
  flagged : controlWord features state.mem ptr ≠ 0 → begun after = [] ∨
    (begun after).length = 1 ∧ state.active.early = true

/-- **The invariant**: the accumulator holds the writes from number `first` on. -/
structure Agrees (features : List (Feature Sample)) (ptr : Nat)
    (history : List (HandshakeEvent Thread Sample)) (state : Handshake Thread Sample)
    (first : Nat) : Prop where
  guards : Guards state.mtx state.Inside
  acc : ∃ added, begun history = added ++ state.active.pending ∧ state.acc = added.drop first ∧
    first ≤ added.length ∧ ((∃ x, state.active = .store x) → first = added.length)
  count : (begun history).length = completions history + if state.active.inside then 1 else 0
  flagged : (∃ x, state.active = .reset x ∨ state.active = .store x) →
    controlWord features state.mem ptr ≠ 0
  since : ∀ before after, history = before ++ .clear :: after → .clear ∉ after →
    Since features ptr state first before after
  /-- Up to the first clear nothing is reset, as the control word is still the one of zeroed memory. -/
  fresh : .clear ∉ history → first = 0 ∧ controlWord features state.mem ptr = 0

/-- An event that is no clear keeps the last clear. -/
theorem since_concat {event : HandshakeEvent Thread Sample} (noClear : event ≠ .clear)
    (since : ∀ before earlier, history = before ++ .clear :: earlier → .clear ∉ earlier →
      Since features ptr next first before (earlier ++ [event])) :
    ∀ before after, history ++ [event] = before ++ .clear :: after → .clear ∉ after →
      Since features ptr next first before after := by
  intro before after split isLast
  rcases last_concat split isLast with ⟨-, -, same⟩ | ⟨earlier, rfl, same, notIn, -⟩
  · exact absurd same.symm noClear
  · exact since before earlier same notIn

/-- A thread inside the mutex is the one whose steps count. -/
theorem Agrees.owner (agrees : state.Agrees features ptr history first) {thread : Thread}
    {pc : WriterPc Sample} (reached : state.writers thread = pc) (inside : pc.inside = true) :
    state.mtx = some thread ∧ state.active = pc := by
  have owner : state.mtx = some thread := by
    apply (agrees.guards thread).mp
    rw [Inside, reached]
    exact inside
  exact ⟨owner, (active_of_owner owner).trans reached⟩

/-- A thread enters `write`. -/
theorem Agrees.start (agrees : state.Agrees features ptr history first) {thread : Thread}
    (x : Sample) (free : state.mtx = none) :
    ({ state with mtx := some thread }.setWriter thread (.test x)).Agrees features ptr
      (history ++ [HandshakeEvent.start thread x]) first := by
  have is := active_setWriter { state with mtx := some thread } rfl (.test x)
  have was := active_of_free free
  have began : ∀ events : List (HandshakeEvent Thread Sample),
      begun (events ++ [HandshakeEvent.start thread x]) = begun events ++ [x] :=
    fun events => begun_append _ _
  have guards := agrees.guards
  obtain ⟨added, split, acc, below, -⟩ := agrees.acc
  rw [was] at split
  refine ⟨?_, ⟨added, ?_, acc, below, ?_⟩, ?_, ?_, ?_, ?_⟩
  · rw [free] at guards
    refine guards.acquire ?_ fun other own => inside_setWriter_of_ne own _
    rw [inside_setWriter]
    rfl
  · rw [is, began, split]
    exact congrArg (· ++ [x]) (List.append_nil added)
  · rintro ⟨y, storing⟩
    rw [is] at storing
    cases storing
  · have count := agrees.count
    rw [was] at count
    rw [is, began, List.length_append, count, completions_append]
    rfl
  · rintro ⟨y, impossible⟩
    rw [is] at impossible
    rcases impossible with impossible | impossible
    · cases impossible
    · cases impossible
  · apply since_concat (by intro same; cases same)
    intro before earlier same notIn
    have since := agrees.since before earlier same notIn
    refine ⟨since.kept, since.erased, fun flagged => Or.inr ⟨?_, by rw [is]; rfl⟩⟩
    rcases since.flagged flagged with none | ⟨-, impossible⟩
    · rw [began, none]
      rfl
    · rw [was] at impossible
      cases impossible
  · exact fun none => agrees.fresh fun member => none (List.mem_append_left _ member)

/-- A step inside the mutex keeps what does not depend on where the thread is. -/
theorem Agrees.access (agrees : state.Agrees features ptr history first) {thread : Thread}
    {pc : WriterPc Sample} (was : (state.writers thread).inside = true) (is : pc.inside = true)
    (next : Handshake Thread Sample) (mtx : next.mtx = state.mtx)
    (writers : next.writers = state.writers) {first' : Nat}
    (acc : ∀ added, begun history = added ++ (state.writers thread).pending →
      state.acc = added.drop first → first ≤ added.length →
      ((∃ x, state.writers thread = .store x) → first = added.length) →
      ∃ added', begun history = added' ++ pc.pending ∧ next.acc = added'.drop first' ∧
        first' ≤ added'.length ∧ ((∃ x, pc = .store x) → first' = added'.length))
    (flagged : (∃ x, pc = .reset x ∨ pc = .store x) → controlWord features next.mem ptr ≠ 0)
    (since : ∀ before after, history = before ++ .clear :: after →
      Since features ptr state first before after →
      (begun after = [] ∨ (begun after).length = 1 ∧ (state.writers thread).early = true ∨
        controlWord features state.mem ptr = 0) →
      first' ≤ (begun before).length ∧
        (controlWord features next.mem ptr = 0 → completions before ≤ first') ∧
        (controlWord features next.mem ptr ≠ 0 → begun after = [] ∨
          (begun after).length = 1 ∧ pc.early = true))
    (fresh : controlWord features state.mem ptr = 0 →
      first' = first ∧ controlWord features next.mem ptr = 0) :
    (next.setWriter thread pc).Agrees features ptr (history ++ [.access thread]) first' := by
  obtain ⟨owner, wasActive⟩ := agrees.owner rfl was
  have isActive := active_setWriter next (mtx.trans owner) pc
  have began : ∀ events : List (HandshakeEvent Thread Sample),
      begun (events ++ [HandshakeEvent.access thread]) = begun events :=
    fun events => (begun_append _ _).trans (List.append_nil _)
  obtain ⟨added, split, held, below, storing⟩ := agrees.acc
  rw [wasActive] at split storing
  refine ⟨?_, ?_, ?_, ?_, ?_, ?_⟩
  · have inside : (next.writers thread).inside = true := by rw [writers, was]
    refine guards_access ?_ inside is
    rw [mtx]
    exact agrees.guards.stay fun other => by rw [Inside, Inside, writers]
  · rw [isActive, began]
    exact acc added split held below storing
  · have count := agrees.count
    rw [wasActive, was] at count
    rw [isActive, is, began, completions_append, count]
    rfl
  · rw [isActive]
    exact flagged
  · apply since_concat (by intro same; cases same)
    intro before earlier same notIn
    have old := agrees.since before earlier same notIn
    have flags : begun earlier = [] ∨
        (begun earlier).length = 1 ∧ (state.writers thread).early = true ∨
        controlWord features state.mem ptr = 0 := by
      by_cases clear : controlWord features state.mem ptr = 0
      · exact Or.inr (Or.inr clear)
      · rcases old.flagged clear with none | ⟨one, early⟩
        · exact Or.inl none
        · rw [wasActive] at early
          exact Or.inr (Or.inl ⟨one, early⟩)
    obtain ⟨kept, erased, one⟩ := since before earlier same old flags
    refine ⟨kept, erased, ?_⟩
    rw [isActive, began]
    exact one
  · intro none
    obtain ⟨all, clear⟩ := agrees.fresh fun member => none (List.mem_append_left _ member)
    obtain ⟨same, still⟩ := fresh clear
    exact ⟨same.trans all, still⟩

/-- A thread resets the accumulator, which starts again with the write in progress. -/
theorem Agrees.reset (agrees : state.Agrees features ptr history first) {thread : Thread}
    {x : Sample} (resetting : state.writers thread = .reset x) :
    ({ state with acc := [] }.setWriter thread (.store x)).Agrees features ptr
      (history ++ [HandshakeEvent.access thread]) ((begun history).length - 1) := by
  have flagged := agrees.flagged ⟨x, Or.inl (agrees.owner resetting rfl).2⟩
  refine agrees.access (by rw [resetting]; rfl) rfl { state with acc := [] } rfl rfl ?_
    (fun _ => flagged) ?_ fun clear => absurd clear flagged
  · rw [resetting]
    intro added split _ _ _
    have length : (begun history).length - 1 = added.length := by
      rw [split, List.length_append]
      exact Nat.add_sub_cancel _ 1
    refine ⟨added, split, ?_, Nat.le_of_eq length, fun _ => length⟩
    rw [length, List.drop_length]
  · intro before after same _ flags
    have total : (begun history).length = (begun before).length + (begun after).length := by
      rw [same, begun_append, List.length_append]
      rfl
    refine ⟨?_, fun clear => absurd clear flagged, fun _ => ?_⟩
    · rcases flags with none | ⟨one, -⟩ | clear
      · rw [none, List.length_nil] at total
        omega
      · omega
      · exact absurd clear flagged
    · rcases flags with none | ⟨one, -⟩ | clear
      · exact Or.inl none
      · exact Or.inr ⟨one, rfl⟩
      · exact absurd clear flagged

/-- A thread erases the control word: every write done so far has been reset away. -/
theorem Agrees.store (agrees : state.Agrees features ptr history first) {thread : Thread}
    {x : Sample} (storing : state.writers thread = .store x) :
    ({ state with mem := setControlWord features state.mem ptr 0 }.setWriter thread (.add x)).Agrees
      features ptr (history ++ [HandshakeEvent.access thread]) first := by
  have isStore := (agrees.owner storing rfl).2
  have cleared : controlWord features (setControlWord features state.mem ptr 0) ptr = 0 :=
    controlWord_setControlWord features state.mem ptr 0
  have behind : completions history ≤ first := by
    obtain ⟨added, split, -, -, all⟩ := agrees.acc
    have count := agrees.count
    rw [isStore] at split count
    rw [all ⟨x, isStore⟩]
    have length := congrArg List.length split
    rw [List.length_append] at length
    simp only [WriterPc.pending, WriterPc.inside, if_true, List.length_singleton] at length count
    omega
  refine agrees.access (by rw [storing]; rfl) rfl
    { state with mem := setControlWord features state.mem ptr 0 } rfl rfl ?_ ?_ ?_
    fun _ => ⟨rfl, cleared⟩
  · rw [storing]
    intro added split acc below _
    exact ⟨added, split, acc, below, fun ⟨_, storing⟩ => nomatch storing⟩
  · rintro ⟨y, impossible | impossible⟩
    · cases impossible
    · cases impossible
  · intro before after same since _
    refine ⟨since.kept, fun _ => ?_, fun flagged => absurd cleared flagged⟩
    rw [same, completions_append] at behind
    omega

/-- A thread leaves `write`. -/
theorem Agrees.finish (agrees : state.Agrees features ptr history first) {thread : Thread}
    (finishing : state.writers thread = .finish) :
    ({ state with mtx := none }.setWriter thread .idle).Agrees features ptr
      (history ++ [HandshakeEvent.finish thread]) first := by
  obtain ⟨owner, was⟩ := agrees.owner finishing rfl
  have is : ({ state with mtx := none }.setWriter thread .idle).active = .idle := rfl
  have began : ∀ events : List (HandshakeEvent Thread Sample),
      begun (events ++ [HandshakeEvent.finish thread]) = begun events :=
    fun events => (begun_append _ _).trans (List.append_nil _)
  have guards := agrees.guards
  obtain ⟨added, split, acc, below, -⟩ := agrees.acc
  rw [was] at split
  refine ⟨?_, ⟨added, ?_, acc, below, ?_⟩, ?_, ?_, ?_, ?_⟩
  · rw [owner] at guards
    refine guards.release ?_ fun other own => inside_setWriter_of_ne own _
    rw [inside_setWriter]
    exact Bool.false_ne_true
  · rw [is, began]
    exact split
  · rintro ⟨y, storing⟩
    rw [is] at storing
    cases storing
  · have count := agrees.count
    rw [was] at count
    rw [is, began, completions_append, count]
    rfl
  · rintro ⟨y, impossible⟩
    rw [is] at impossible
    rcases impossible with impossible | impossible
    · cases impossible
    · cases impossible
  · apply since_concat (by intro same; cases same)
    intro before earlier same notIn
    have since := agrees.since before earlier same notIn
    refine ⟨since.kept, since.erased, fun flagged => Or.inl ?_⟩
    rw [began]
    rcases since.flagged flagged with none | ⟨-, impossible⟩
    · exact none
    · rw [was] at impossible
      cases impossible
  · exact fun none => agrees.fresh fun member => none (List.mem_append_left _ member)

/-- A control process sets the control word. -/
theorem Agrees.clear (agrees : state.Agrees features ptr history first) :
    ({ state with mem := setControlWord features state.mem ptr 1 } : Handshake Thread Sample).Agrees
      features ptr (history ++ [.clear]) first := by
  have set : controlWord features (setControlWord features state.mem ptr 1) ptr ≠ 0 := by
    rw [controlWord_setControlWord]
    exact Nat.one_ne_zero
  have began : begun (history ++ [HandshakeEvent.clear]) = begun history :=
    (begun_append _ _).trans (List.append_nil _)
  obtain ⟨added, split, acc, below, storing⟩ := agrees.acc
  refine ⟨agrees.guards, ⟨added, began.trans split, acc, below, storing⟩, ?_, fun _ => set, ?_,
    fun none => absurd (List.mem_append_right _ List.mem_cons_self) none⟩
  · rw [began, completions_append]
    exact agrees.count
  · intro before after same isLast
    rcases last_concat same isLast with ⟨rfl, rfl, -⟩ | ⟨earlier, rfl, -, -, different⟩
    · refine ⟨?_, fun clear => absurd clear set, fun _ => Or.inl rfl⟩
      rw [split, List.length_append]
      omega
    · exact absurd rfl different

/-- **One step keeps the invariant.** -/
theorem Takes.agrees {event : HandshakeEvent Thread Sample}
    (agrees : state.Agrees features ptr history first)
    (taken : state.Takes features ptr event next) :
    ∃ first', next.Agrees features ptr (history ++ [event]) first' := by
  cases taken with
  | @start thread x idle free => exact ⟨first, agrees.start x free⟩
  | @testSet thread x testing flagged =>
    refine ⟨first, agrees.access (by rw [testing]; rfl) rfl state rfl rfl ?_ (fun _ => flagged) ?_
      fun clear => ⟨rfl, clear⟩⟩
    · rw [testing]
      intro added split acc below _
      exact ⟨added, split, acc, below, fun ⟨_, storing⟩ => nomatch storing⟩
    · intro before after _ since flags
      refine ⟨since.kept, since.erased, fun _ => ?_⟩
      rcases flags with none | ⟨one, -⟩ | clear
      · exact Or.inl none
      · exact Or.inr ⟨one, rfl⟩
      · exact absurd clear flagged
  | @testClear thread x testing clear =>
    refine ⟨first, agrees.access (by rw [testing]; rfl) rfl state rfl rfl ?_ ?_ ?_
      fun clear => ⟨rfl, clear⟩⟩
    · rw [testing]
      intro added split acc below _
      exact ⟨added, split, acc, below, fun ⟨_, storing⟩ => nomatch storing⟩
    · rintro ⟨y, impossible | impossible⟩
      · cases impossible
      · cases impossible
    · intro before after _ since _
      exact ⟨since.kept, since.erased, fun flagged => absurd clear flagged⟩
  | @reset thread x resetting => exact ⟨_, agrees.reset resetting⟩
  | @store thread x storing => exact ⟨first, agrees.store storing⟩
  | @add thread x adding =>
    refine ⟨first, agrees.access (by rw [adding]; rfl) rfl
      { state with acc := state.acc ++ [x] } rfl rfl ?_ ?_ ?_ fun clear => ⟨rfl, clear⟩⟩
    · rw [adding]
      intro added split acc below _
      refine ⟨added ++ [x], ?_, ?_, ?_, fun ⟨_, storing⟩ => nomatch storing⟩
      · rw [split]
        exact (List.append_nil _).symm
      · rw [List.drop_append_of_le_length below, ← acc]
      · rw [List.length_append]
        omega
    · rintro ⟨y, impossible | impossible⟩
      · cases impossible
      · cases impossible
    · intro before after _ since flags
      refine ⟨since.kept, since.erased, fun flagged => ?_⟩
      rcases flags with none | ⟨-, early⟩ | clear
      · exact Or.inl none
      · rw [adding] at early
        cases early
      · exact absurd clear flagged
  | @finish thread finishing => exact ⟨first, agrees.finish finishing⟩
  | clear => exact ⟨first, agrees.clear⟩

theorem agrees_initial (features : List (Feature Sample)) (ptr : Nat) :
    (initial : Handshake Thread Sample).Agrees features ptr [] 0 where
  guards _ := ⟨fun impossible => (nomatch impossible), fun impossible => (nomatch impossible)⟩
  acc := ⟨[], rfl, rfl, Nat.le_refl _, fun _ => rfl⟩
  count := rfl
  flagged := by
    rintro ⟨x, impossible | impossible⟩
    · cases impossible
    · cases impossible
  since before after split _ := by
    have := congrArg List.length split
    simp at this
  fresh _ := ⟨rfl, rfl⟩

/-- **Every run keeps the invariant.** -/
theorem agrees_of_run (runs : run (step features ptr) initial history = some state) :
    ∃ first, state.Agrees features ptr history first := by
  refine run_induction (step features ptr) (fun history state =>
    ∃ first, state.Agrees features ptr history first) ⟨0, agrees_initial features ptr⟩ ?_ runs
  rintro history state event next ⟨first, agrees⟩ taken
  exact (takes_of_step features ptr taken).agrees agrees

end Invariant

variable {features ptr}

/-- **The clear handshake loses and resurrects no sample.** Whenever no write is in progress, the
accumulator holds the writes from some number on, in order and each once. All that began after the
last clear are among them, and once one of these is done, none that was done before the clear is. As
long as there was no clear it holds them all. -/
theorem write_handshake {history : List (HandshakeEvent Thread Sample)}
    {state : Handshake Thread Sample} (runs : run (step features ptr) initial history = some state)
    (rest : state.mtx = none) :
    ∃ first, state.acc = (begun history).drop first ∧
      (∀ before after, history = before ++ .clear :: after → .clear ∉ after →
        first ≤ (begun before).length ∧ (begun after ≠ [] → completions before ≤ first)) ∧
      (.clear ∉ history → first = 0) := by
  obtain ⟨first, agrees⟩ := agrees_of_run runs
  obtain ⟨added, split, acc, -, -⟩ := agrees.acc
  have idle := active_of_free rest
  rw [idle] at split
  refine ⟨first, ?_, fun before after same isLast => ?_, fun none => (agrees.fresh none).1⟩
  · rw [acc, split]
    exact congrArg _ (List.append_nil added).symm
  · have since := agrees.since before after same isLast
    refine ⟨since.kept, fun some' => since.erased ?_⟩
    by_contra flagged
    rcases since.flagged flagged with none | ⟨-, early⟩
    · exact some' none
    · rw [idle] at early
      cases early

/-- A write, with a clear while it runs and another write behind it, or with neither. -/
theorem write_handshake_three :
    (∃ state first, run (step [count] 0) (initial : Handshake Unit Nat)
        ([.start () 5, .access ()] ++ .clear :: [.access (), .finish (), .start () 6, .access (),
          .access (), .access (), .access (), .finish ()]) = some state ∧
      state.acc = [5, 6].drop first ∧ first ≤ 1) ∧
    ∃ state, run (step [count] 0) (initial : Handshake Unit Nat)
        [.start () 5, .access (), .access (), .finish ()] = some state ∧ state.acc = [5] := by
  constructor
  · obtain ⟨state, runs⟩ : ∃ state, run (step [count] 0) (initial : Handshake Unit Nat)
        ([.start () 5, .access ()] ++ .clear :: [.access (), .finish (), .start () 6, .access (),
          .access (), .access (), .access (), .finish ()]) = some state := ⟨_, rfl⟩
    have rest : state.mtx = none := by
      cases runs
      rfl
    obtain ⟨first, acc, since, -⟩ := write_handshake runs rest
    exact ⟨state, first, runs, acc, (since _ _ rfl (by simp)).1⟩
  · obtain ⟨state, runs⟩ : ∃ state, run (step [count] 0) (initial : Handshake Unit Nat)
        [.start () 5, .access (), .access (), .finish ()] = some state := ⟨_, rfl⟩
    have rest : state.mtx = none := by
      cases runs
      rfl
    obtain ⟨first, acc, -, none⟩ := write_handshake runs rest
    obtain rfl := none (by simp)
    exact ⟨state, runs, acc⟩

end Handshake

end StatLog.Stats
