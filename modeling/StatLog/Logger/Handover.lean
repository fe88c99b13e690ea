/-
**From a proxy to the mutex.**

The destructor of a proxy hands the text of its statement to `doWriteData`, with the time it reads from
the clock, and the thread then tries to take the interprocess mutex.

* `Statement`: a finished statement; `Statement.writeCall?`: the call that it leads to, if any.
* `Statement.Plain`, `exists_message`: without zero characters the call is that of a message.
* `enteredBy`, `attemptedBy`: the calls that a thread enters, and those that it tries the mutex for.
* **`entered_eq_attempted`**: in every run each call is tried once, in the thread's order.
-/

import StatLog.Logger.HexDump
import StatLog.Logger.PrintedTime
import StatLog.Logger.ProxyMoves
import StatLog.Logger.Retrieval

namespace StatLog.Logger

open ByteMemory Numeral OutputStream Transition

/-! ### Texts without zero characters -/

/-- No zero character is inserted. -/
def Piece.Plain : Piece → Prop
  | .insert (.string chars) => 0 ∉ chars
  | .insert (.int _) => True
  | .hexDump _ label => 0 ∉ label

instance (piece : Piece) : Decidable piece.Plain := by
  rcases piece with (chars | integer) | ⟨buf, label⟩
  · exact inferInstanceAs (Decidable (0 ∉ chars))
  · exact .isTrue trivial
  · exact inferInstanceAs (Decidable (0 ∉ label))

theorem zero_notMem_of_digits {text : List UInt8} (digits : ∀ byte ∈ text, IsDigit byte) : 0 ∉ text := by
  intro member
  exact absurd (digits 0 member) (by decide)

theorem zero_notMem_integer (integer : Integer) (base : Base) : 0 ∉ integer.render base := by
  have digits := zero_notMem_of_digits
    (isDigit_of_mem_numeral (show 10 ≤ 16 by decide) (by decide) integer.value.natAbs)
  cases base with
  | dec =>
    by_cases neg : integer.value < 0
    · rw [Integer.render_dec_of_neg neg, List.mem_cons, not_or]
      exact ⟨by decide, digits⟩
    · rw [Integer.render_dec_of_nonneg (by omega)]
      exact digits
  | hex => exact zero_notMem_of_digits (isDigit_of_mem_numeral (by decide) (by decide) _)

theorem zero_notMem_dumpBody (i : Nat) (buf : List UInt8) : 0 ∉ dumpBody i buf := by
  induction buf generalizing i with
  | nil => exact List.not_mem_nil
  | cons byte buf ih =>
    rw [dumpBody, List.mem_append, List.mem_cons, not_or, not_or]
    refine ⟨zero_notMem_of_digits (isDigit_hexByte byte), ?_, ih (i + 1)⟩
    split <;> decide

theorem Piece.zero_notMem_render {piece : Piece} (plain : piece.Plain) (base : Base) :
    0 ∉ piece.render base := by
  cases piece with
  | insert value =>
    cases value with
    | string chars => exact plain
    | int integer => exact zero_notMem_integer integer base
  | hexDump buf label =>
    rw [render, dumpText, List.mem_append, List.mem_cons, not_or, not_or]
    exact ⟨plain, by decide, zero_notMem_dumpBody 0 buf⟩

/-- **A message of such pieces has none in its text.** -/
theorem zero_notMem_messageText {pieces : List Piece} (plain : ∀ piece ∈ pieces, piece.Plain) :
    0 ∉ messageText pieces := by
  rw [messageText_eq, renderAll_eq_flatMap, List.mem_flatMap]
  rintro ⟨⟨base, piece⟩, member, zero⟩
  obtain ⟨before, after, split, -⟩ := mem_withBases.mp member
  have among : piece ∈ pieces := by
    rw [split]
    exact List.mem_append_right _ List.mem_cons_self
  exact Piece.zero_notMem_render (plain piece among) base zero

/-! ### Finished statements -/

/-- The proxy of a message without pieces is the one that the constructor makes. -/
theorem Message.proxy_of_fresh {message : Message} (fresh : message.pieces = []) :
    message.proxy true =
      .construct message.theLogger message.enabled message.tagName message.logLevelName := by
  unfold Message.proxy Message.stream
  rw [fresh, List.foldl_nil, ite_self]
  rfl

/-- **A statement that is finished**: the thread that destroyed its proxy, its message, and the clock
that `writeData` read. -/
structure Statement (Thread : Type) where
  thread : Thread
  message : Message
  now : Nat

namespace Statement

variable {Thread : Type}

/-- The call of `doWriteData` that `writeData` makes with it. -/
def enterCall (call : WriteDataCall) (now : Nat) : WriteCall :=
  LogEntry.writeData ⟨call.logEntry, call.tagName, call.logLevelName, now⟩

/-- **The call that the statement leads to**: none if it is disabled or without a text. -/
def writeCall? (statement : Statement Thread) : Option WriteCall :=
  statement.message.call.map fun call => enterCall call statement.now

/-- What the callers promise: no zero characters, and a time that `localtime` accepts. -/
def Plain (localtime : Int64 → Option (List UInt8)) (statement : Statement Thread) : Prop :=
  (∀ piece ∈ statement.message.pieces, piece.Plain) ∧
    (localtime (clockStamp statement.now).sec).isSome = true

instance (localtime : Int64 → Option (List UInt8)) (statement : Statement Thread) :
    Decidable (statement.Plain localtime) :=
  inferInstanceAs (Decidable (_ ∧ _))

/-- Such a call is that of a message. -/
theorem exists_message {localtime : Int64 → Option (List UInt8)} {statement : Statement Thread}
    (plain : statement.Plain localtime) {call : WriteCall} (leads : statement.writeCall? = some call) :
    ∃ message, LogMessage.call message = call ∧
      (localtime message.timeStamp.sec).isSome = true := by
  obtain ⟨data, enabled, rfl⟩ := Option.map_eq_some_iff.mp leads
  unfold Message.call at enabled
  split at enabled
  case isFalse => cases enabled
  case isTrue =>
    cases enabled
    exact ⟨⟨⟨messageText statement.message.pieces, zero_notMem_messageText plain.1⟩,
      statement.message.tagName, statement.message.logLevelName, clockStamp statement.now⟩, rfl, plain.2⟩

end Statement

/-! ### Calls of one thread -/

section

variable {Thread Reader : Type} [DecidableEq Thread]

/-- A call that the thread enters. -/
def LogEvent.enteredCall (thread : Thread) : LogEvent Thread Reader → Option WriteCall
  | .call other entry => if other = thread then some entry else none
  | _ => none

/-- A call that the thread tries the mutex for, whether it gets it or not. -/
def LogEvent.attemptedCall (thread : Thread) : LogEvent Thread Reader → Option WriteCall
  | .acquire other entry => if other = thread then some entry else none
  | .drop other entry => if other = thread then some entry else none
  | _ => none

def enteredBy (thread : Thread) (history : List (LogEvent Thread Reader)) : List WriteCall :=
  history.filterMap (LogEvent.enteredCall thread)

def attemptedBy (thread : Thread) (history : List (LogEvent Thread Reader)) : List WriteCall :=
  history.filterMap (LogEvent.attemptedCall thread)

/-- The thread is not in `doWriteData`. -/
def GeneratorPc.isIdle : GeneratorPc → Bool
  | .idle => true
  | _ => false

/-- The call of a thread that has not tried the mutex yet. -/
def GeneratorPc.untried : GeneratorPc → List WriteCall
  | .tryToLock call => [call]
  | _ => []

/-- Who takes the mutex for a call has tried it. -/
theorem attempted_of_acquired {history : List (LogEvent Thread Reader)} {call : WriteCall}
    (member : call ∈ acquired history) : ∃ thread, call ∈ attemptedBy thread history := by
  obtain ⟨event, among, same⟩ := List.mem_filterMap.mp member
  cases event with
  | acquire thread entry =>
    cases same
    exact ⟨thread, List.mem_filterMap.mpr ⟨_, among, if_pos rfl⟩⟩
  | _ => cases same

theorem GeneratorPc.step_untried {numLogEntries : Nat} {ring ring' : LogRing} {pc pc' : GeneratorPc}
    (taken : pc.step numLogEntries ring = some (pc', ring')) : pc.untried = [] ∧ pc'.untried = [] := by
  cases pc with
  | readCursor call => cases taken; exact ⟨rfl, rfl⟩
  | writeCursor call startLogIdx => cases taken; exact ⟨rfl, rfl⟩
  | header call startLogIdx fields => cases fields <;> cases taken <;> exact ⟨rfl, rfl⟩
  | loop state =>
    simp only [step] at taken
    split at taken <;> cases taken <;> exact ⟨rfl, rfl⟩
  | copied state =>
    simp only [step] at taken
    split at taken <;> cases taken <;> exact ⟨rfl, rfl⟩
  | idle => cases taken
  | tryToLock call => cases taken
  | lockMtx call => cases taken
  | unlockMtx call startLogIdx => cases taken
  | unlock => cases taken

namespace System

variable [DecidableEq Reader] {size : Nat} {system next : System Thread Reader}
  {event : LogEvent Thread Reader}

/-- One thread has moved: what another one has not tried is as it was. -/
theorem untried_setGenerator (system : System Thread Reader) (mover thread : Thread) (pc : GeneratorPc) :
    ((system.setGenerator mover pc).generators thread).untried =
      if mover = thread then pc.untried else (system.generators thread).untried := by
  by_cases own : mover = thread
  · rw [if_pos own, own, generators_setGenerator]
  · rw [if_neg own, generators_setGenerator_of_ne (Ne.symm own)]

/-- **A step enters a call, tries it, or leaves the matter as it is.** -/
theorem Takes.untried (taken : system.Takes size event next) (thread : Thread) :
    (system.generators thread).untried ++ (event.enteredCall thread).toList =
      (event.attemptedCall thread).toList ++ (next.generators thread).untried := by
  have stays : ∀ (before : System Thread Reader) (mover : Thread) (pc : GeneratorPc),
      before.generators = system.generators → (system.generators mover).untried = [] →
        pc.untried = [] → (system.generators thread).untried ++ [] =
          [] ++ ((before.setGenerator mover pc).generators thread).untried := by
    intro before mover pc same was is
    rw [untried_setGenerator, same, List.append_nil, List.nil_append]
    split
    case isTrue own => rw [← own, was, is]
    case isFalse => rfl
  cases taken with
  | @call mover call idle =>
    rw [untried_setGenerator]
    simp only [LogEvent.enteredCall, LogEvent.attemptedCall]
    by_cases own : mover = thread
    · rw [if_pos own, if_pos own, ← own, idle]
      rfl
    · rw [if_neg own, if_neg own]
      exact List.append_nil _
  | @acquire mover call trying free =>
    rw [untried_setGenerator]
    simp only [LogEvent.enteredCall, LogEvent.attemptedCall]
    by_cases own : mover = thread
    · rw [if_pos own, if_pos own, ← own, trying]
      rfl
    · rw [if_neg own, if_neg own]
      exact List.append_nil _
  | @drop mover call trying taken =>
    rw [untried_setGenerator]
    simp only [LogEvent.enteredCall, LogEvent.attemptedCall]
    by_cases own : mover = thread
    · rw [if_pos own, if_pos own, ← own, trying]
      rfl
    · rw [if_neg own, if_neg own]
      exact List.append_nil _
  | @lockMtx mover call locking =>
    exact stays { system with mtx := some mover } mover _ rfl (by rw [locking]; rfl) rfl
  | @unlockMtx mover call startLogIdx unlocking =>
    exact stays { system with mtx := none } mover _ rfl (by rw [unlocking]; rfl) rfl
  | @access mover pc ring accessed =>
    obtain ⟨was, is⟩ := GeneratorPc.step_untried accessed
    exact stays { system with ring } mover pc rfl was is
  | @unlock mover leaving =>
    exact stays { system with mutex := none } mover _ rfl (by rw [leaving]; rfl) rfl
  | getLog idle => exact List.append_nil _
  | lock waiting free => exact List.append_nil _
  | copyByte copying more => exact List.append_nil _
  | finished copying whole => exact List.append_nil _

/-- **In every run a thread tries the mutex once for each of its calls**, in the order in which it enters
them; the last one it may not have tried yet. -/
theorem entered_eq_attempted {history : List (LogEvent Thread Reader)}
    (runs : run (step size) initial history = some system) (thread : Thread) :
    enteredBy thread history =
      attemptedBy thread history ++ (system.generators thread).untried := by
  refine run_induction (step size) (fun history system => enteredBy thread history =
    attemptedBy thread history ++ (system.generators thread).untried) rfl ?_ runs
  intro history system event next same taken
  have moves := (takes_of_step taken).untried thread
  have last : ∀ (call? : LogEvent Thread Reader → Option WriteCall),
      [event].filterMap call? = (call? event).toList := by
    intro call?
    rw [List.filterMap_cons]
    cases call? event <;> rfl
  unfold enteredBy attemptedBy at same ⊢
  rw [List.filterMap_append, List.filterMap_append, last, last, same, List.append_assoc, moves,
    List.append_assoc]

end System

end

end StatLog.Logger
