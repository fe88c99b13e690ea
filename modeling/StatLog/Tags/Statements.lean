/-
**From a statement to its line.**

A thread of the operational process calls `getLog`, writes pieces to the proxy and destroys it, and the
text goes on to `doWriteData` of the logger. Meanwhile control processes set levels and retrievers copy
the logs, every step of everybody in any order.

* `Program`, `programStep`: the shared memory of the tags, the proxies that are alive, and the log of
  each logger with all threads and retrievers on it.
* `Journal`, `journalOf`: the statements of a history, with the levels in force at their `getLog`.
* `Recorded`: the program is at what the journal says; `recorded_step`.
* **`getLog_statements`**: in every run each statement that is enabled and has a text is tried once, in
  the order of its thread, and a finished copy of a log is printed as the last of those that took the
  mutex before it.
-/

import StatLog.Logger.Handover
import StatLog.Tags.LevelsInForce

set_option linter.unusedSectionVars false

namespace StatLog.Tags

open ByteMemory Logger Placement RoseTree Stats Transition

variable {Tag Sample Thread Reader : Type}

/-! ### The program -/

/-- The characters of a string literal, up to its first zero. -/
def cString (literal : String) : CString where
  bytes := literal.toUTF8.toList.takeWhile (· ≠ 0)
  nulFree member := by
    have holds := List.mem_takeWhile_imp member
    simp at holds

/-- A `LogGenProxy` with its stream. -/
def LogGenProxy.streamed (proxy : LogGenProxy) : Logger.LogGenProxy :=
  .construct proxy.loggerIdx proxy.enabled (cString (String.ofList proxy.tagName))
    (cString proxy.logLevelName)

/-- What a thread does to its proxies, which are named by their objects: the call of `getLog` that makes
one, a piece that is written, and the destructor with the clock that `writeData` reads. -/
inductive StatementOp (Tag : Type)
  | getLog (id : Nat) (logTag : Tag) (logLevel : LogLevel) (logIdx : Nat)
  | piece (id : Nat) (piece : Piece)
  | destroy (id : Nat) (now : Nat)

/-- **One step of anybody**: a call under a tag, a thread that makes a statement, a thread inside of
`doWriteData` or a retriever at one of the logs. -/
inductive ProgramEvent (Tag Sample Thread Reader : Type)
  | call (tagCall : TagCall Tag Sample)
  | statement (thread : Thread) (op : StatementOp Tag)
  | log (logIdx : Nat) (event : Logger.LogEvent Thread Reader)

/-- **The whole program**: accumulators and shared memory of the tags, the proxies that are alive, and
the log of each logger. -/
structure Program (Tag Sample Thread Reader : Type) where
  tags : OpState Tag Sample
  proxies : Nat → Option Logger.LogGenProxy
  logs : Nat → System Thread Reader

namespace Program

variable [DecidableEq Thread] [DecidableEq Reader]

/-- A step at the log of one logger, of the given size behind its mutex. -/
def logStep (sizes : List Nat) (program : Program Tag Sample Thread Reader) (logIdx : Nat)
    (event : Logger.LogEvent Thread Reader) : Option (Program Tag Sample Thread Reader) := do
  let size ← sizes[logIdx]?
  let next ← (program.logs logIdx).step size event
  some { program with logs := Function.update program.logs logIdx next }

/-- The thread has returned from every `doWriteData`. -/
def returned (sizes : List Nat) (program : Program Tag Sample Thread Reader) (thread : Thread) : Bool :=
  (List.range sizes.length).all fun logIdx =>
    ((program.logs logIdx).generators thread).isIdle

/-- **What a thread does to its proxies.** -/
def statementStep [DecidableEq Tag] (name : Tag → List Char) (sizes : List Nat)
    (operational : LogStat Tag Sample) (program : Program Tag Sample Thread Reader) (thread : Thread) :
    StatementOp Tag → Option (Program Tag Sample Thread Reader)
  | .getLog id logTag logLevel logIdx =>
    if program.proxies id = none then
      (LogStatOperational.getLog name operational.theLogs sizes.length program.tags.2 logTag logLevel
        logIdx).map fun proxy =>
          { program with proxies := Function.update program.proxies id (some proxy.streamed) }
    else none
  | .piece id piece => do
    let proxy ← program.proxies id
    let written ← piece.call proxy
    some { program with proxies := Function.update program.proxies id (some written) }
  | .destroy id now => do
    let proxy ← program.proxies id
    let call? ← proxy.destroy
    let rest := { program with proxies := Function.update program.proxies id none }
    match call? with
    | none => some rest
    | some call => rest.logStep sizes call.theLogger (.call thread (Statement.enterCall call now))

end Program

/-- **One step of the program**, for loggers with logs of these sizes. -/
def programStep [DecidableEq Tag] [DecidableEq Thread] [DecidableEq Reader] (name : Tag → List Char)
    (sizes : List Nat) (operational control : LogStat Tag Sample)
    (program : Program Tag Sample Thread Reader) :
    ProgramEvent Tag Sample Thread Reader → Option (Program Tag Sample Thread Reader)
  | .call tagCall =>
    (callStep name sizes.length operational control program.tags tagCall).map fun tags =>
      { program with tags }
  | .statement thread op =>
    if program.returned sizes thread then program.statementStep name sizes operational thread op
    else none
  | .log _ (.call _ _) => none
  | .log logIdx event => program.logStep sizes logIdx event

/-- The program behind `init`: no statements so far, and every log zeroed. -/
def programStart (operational : LogStat Tag Sample) : Program Tag Sample Thread Reader where
  tags := (fun _ _ => [], operational.mem)
  proxies _ := none
  logs _ := .initial

/-! ### The journal -/

/-- **What a history says**: its calls under tags, the messages whose proxies are alive, the statements
that are finished, and what happened at the logs. -/
structure Journal (Tag Sample Thread Reader : Type) where
  calls : List (TagCall Tag Sample) := []
  messages : Nat → Option Message := fun _ => none
  finished : List (Statement Thread) := []
  logged : List (Nat × Logger.LogEvent Thread Reader) := []

/-- The events at one log. -/
def eventsAt (logIdx : Nat) (logged : List (Nat × Logger.LogEvent Thread Reader)) :
    List (Logger.LogEvent Thread Reader) :=
  (logged.filter fun entry => entry.1 = logIdx).map Prod.snd

theorem eventsAt_concat (logIdx other : Nat) (logged : List (Nat × Logger.LogEvent Thread Reader))
    (event : Logger.LogEvent Thread Reader) : eventsAt logIdx (logged ++ [(other, event)]) =
      eventsAt logIdx logged ++ if other = logIdx then [event] else [] := by
  unfold eventsAt
  rw [List.filter_append, List.map_append]
  by_cases same : other = logIdx
  · simp [same]
  · simp [same]

/-- The statement is one of the thread, for the logger. -/
def isBy [DecidableEq Thread] (thread : Thread) (logIdx : Nat) (statement : Statement Thread) : Bool :=
  statement.thread = thread ∧ statement.message.theLogger = logIdx

theorem isBy_iff [DecidableEq Thread] {thread : Thread} {logIdx : Nat} {statement : Statement Thread} :
    isBy thread logIdx statement = true ↔
      statement.thread = thread ∧ statement.message.theLogger = logIdx := decide_eq_true_iff

/-- **The calls that a thread's statements lead to at one log**, in the order in which it finished
them. -/
def recordedBy [DecidableEq Thread] (thread : Thread) (logIdx : Nat)
    (finished : List (Statement Thread)) : List WriteCall :=
  (finished.filter (isBy thread logIdx)).filterMap Statement.writeCall?

/-- A statement begins: its message is enabled if its level is not below the one in force. -/
def beginMessage [DecidableEq Tag] (name : Tag → List Char) (calls : List (TagCall Tag Sample))
    (logTag : Tag) (logLevel : LogLevel) (logIdx : Nat) : Message where
  theLogger := logIdx
  enabled := (levelOf calls logTag logIdx).toByte ≤ logLevel.toByte
  tagName := cString (String.ofList (name logTag))
  logLevelName := cString logLevel.levelName

/-- The proxy has this message from now on, or is gone. -/
def Journal.hold (journal : Journal Tag Sample Thread Reader) (id : Nat) (message? : Option Message) :
    Journal Tag Sample Thread Reader :=
  { journal with messages := Function.update journal.messages id message? }

/-- A statement is finished, and its thread enters the call that it leads to. -/
def Journal.finish (journal : Journal Tag Sample Thread Reader) (statement : Statement Thread) :
    Journal Tag Sample Thread Reader where
  calls := journal.calls
  messages := journal.messages
  finished := journal.finished ++ [statement]
  logged := journal.logged ++ (statement.writeCall?.map fun entry =>
    (statement.message.theLogger, Logger.LogEvent.call statement.thread entry)).toList

/-- One entry of the journal. -/
def Journal.note [DecidableEq Tag] (name : Tag → List Char) (journal : Journal Tag Sample Thread Reader) :
    ProgramEvent Tag Sample Thread Reader → Journal Tag Sample Thread Reader
  | .call tagCall => { journal with calls := journal.calls ++ [tagCall] }
  | .statement _ (.getLog id logTag logLevel logIdx) =>
    journal.hold id (some (beginMessage name journal.calls logTag logLevel logIdx))
  | .statement _ (.piece id piece) =>
    journal.hold id ((journal.messages id).map fun message => message.add piece)
  | .statement thread (.destroy id now) =>
    match journal.messages id with
    | none => journal
    | some message => (journal.hold id none).finish ⟨thread, message, now⟩
  | .log logIdx event => { journal with logged := journal.logged ++ [(logIdx, event)] }

/-- **The journal of a history.** -/
def journalOf [DecidableEq Tag] (name : Tag → List Char)
    (history : List (ProgramEvent Tag Sample Thread Reader)) : Journal Tag Sample Thread Reader :=
  history.foldl (Journal.note name) {}

/-- What the compiler makes sure of. -/
def ProgramEvent.Compiles (statTagTree logTagTree : LabelTree Tag) :
    ProgramEvent Tag Sample Thread Reader → Prop
  | .call tagCall => tagCall.Compiles statTagTree logTagTree
  | .statement _ (.getLog _ logTag _ _) => logTag ∈ logTagTree.labels
  | _ => True

instance [DecidableEq Tag] (statTagTree logTagTree : LabelTree Tag)
    (event : ProgramEvent Tag Sample Thread Reader) :
    Decidable (event.Compiles statTagTree logTagTree) := by
  rcases event with tagCall | ⟨thread, ⟨id, logTag, logLevel, logIdx⟩ | ⟨id, piece⟩ | ⟨id, now⟩⟩ | log
  · exact inferInstanceAs (Decidable (tagCall.Compiles statTagTree logTagTree))
  · exact inferInstanceAs (Decidable (logTag ∈ logTagTree.labels))
  · exact .isTrue trivial
  · exact .isTrue trivial
  · exact .isTrue trivial

/-! ### One step -/

section

variable [DecidableEq Tag] [DecidableEq Thread] [DecidableEq Reader]

/-- **The program is where the journal says.** -/
structure Recorded (name : Tag → List Char) (sizes : List Nat) (operational control : LogStat Tag Sample)
    (journal : Journal Tag Sample Thread Reader) (program : Program Tag Sample Thread Reader) : Prop where
  tags : run (callStep name sizes.length operational control) (fun _ _ => [], operational.mem)
    journal.calls = some program.tags
  proxies : ∀ id, program.proxies id =
    (journal.messages id).map fun message => message.proxy true
  logs : ∀ logIdx size, sizes[logIdx]? = some size →
    run (System.step size) .initial (eventsAt logIdx journal.logged) = some (program.logs logIdx)
  entered : ∀ thread logIdx, enteredBy thread (eventsAt logIdx journal.logged) =
    recordedBy thread logIdx journal.finished

variable {name : Tag → List Char} {sizes : List Nat} {operational control : LogStat Tag Sample}
  {journal : Journal Tag Sample Thread Reader} {program next : Program Tag Sample Thread Reader}

/-- A proxy changes with its message. -/
theorem proxies_update (proxies : ∀ id, program.proxies id =
    (journal.messages id).map fun message => message.proxy true) (id : Nat) (message? : Option Message)
    (other : Nat) :
    Function.update program.proxies id (message?.map fun message => message.proxy true) other =
      (Function.update journal.messages id message? other).map fun message => message.proxy true := by
  by_cases same : other = id
  · rw [same, Function.update_self, Function.update_self]
  · rw [Function.update_of_ne same, Function.update_of_ne same]
    exact proxies other

/-- **A step at one of the logs** is a step of that log. -/
theorem logs_concat (logs : ∀ logIdx size, sizes[logIdx]? = some size →
      run (System.step size) .initial (eventsAt logIdx journal.logged) = some (program.logs logIdx))
    {logIdx : Nat} {event : Logger.LogEvent Thread Reader}
    (taken : program.logStep sizes logIdx event = some next) :
    next.tags = program.tags ∧ next.proxies = program.proxies ∧
      ∀ other size, sizes[other]? = some size → run (System.step size) .initial
        (eventsAt other (journal.logged ++ [(logIdx, event)])) = some (next.logs other) := by
  obtain ⟨size, registered, stepped⟩ := Option.bind_eq_some_iff.mp taken
  obtain ⟨system, step, done⟩ := Option.bind_eq_some_iff.mp stepped
  obtain rfl := Option.some.inj done
  refine ⟨rfl, rfl, fun other size' registered' => ?_⟩
  rw [eventsAt_concat]
  by_cases same : logIdx = other
  · subst same
    rw [registered] at registered'
    obtain rfl := Option.some.inj registered'
    rw [if_pos rfl]
    show _ = some (Function.update program.logs logIdx system logIdx)
    rw [Function.update_self]
    exact (run_concat (System.step size)).mpr ⟨_, logs logIdx size registered, step⟩
  · rw [if_neg same, List.append_nil]
    show _ = some (Function.update program.logs logIdx system other)
    rw [Function.update_of_ne (Ne.symm same)]
    exact logs other size' registered'

/-- What the threads enter, one event later. -/
theorem enteredBy_concat (thread : Thread) (history : List (Logger.LogEvent Thread Reader))
    (event : Logger.LogEvent Thread Reader) :
    enteredBy thread (history ++ [event]) = enteredBy thread history ++ (event.enteredCall thread).toList := by
  unfold enteredBy
  rw [List.filterMap_append, List.filterMap_cons]
  cases event.enteredCall thread <;> rfl

/-- A statement of another thread, or at another log, does not count. -/
theorem recordedBy_concat (thread : Thread) (logIdx : Nat) (finished : List (Statement Thread))
    (statement : Statement Thread) : recordedBy thread logIdx (finished ++ [statement]) =
      recordedBy thread logIdx finished ++
        if isBy thread logIdx statement then statement.writeCall?.toList else [] := by
  unfold recordedBy
  rw [List.filter_append, List.filterMap_append]
  by_cases own : isBy thread logIdx statement = true
  · rw [if_pos own, List.filter_cons_of_pos own, List.filter_nil, List.filterMap_cons]
    cases statement.writeCall? <;> rfl
  · rw [if_neg own, List.filter_cons_of_neg own]
    rfl

/-- **A finished statement is entered** at the log of its logger, if it leads to a call. -/
theorem entered_finish (entered : ∀ thread logIdx, enteredBy thread (eventsAt logIdx journal.logged) =
      recordedBy thread logIdx journal.finished) (statement : Statement Thread) (thread : Thread)
    (logIdx : Nat) : enteredBy thread (eventsAt logIdx (journal.finish statement).logged) =
      recordedBy thread logIdx (journal.finish statement).finished := by
  show enteredBy thread (eventsAt logIdx (journal.logged ++ _)) =
    recordedBy thread logIdx (journal.finished ++ [statement])
  rw [recordedBy_concat, ← entered]
  cases leads : statement.writeCall? with
  | none => simp
  | some entry =>
    rw [Option.map_some, Option.toList_some, eventsAt_concat]
    by_cases here : statement.message.theLogger = logIdx
    · rw [if_pos here, enteredBy_concat]
      by_cases own : statement.thread = thread
      · rw [if_pos (isBy_iff.mpr ⟨own, here⟩)]
        exact congrArg (_ ++ Option.toList ·) (if_pos own)
      · rw [if_neg fun both => own (isBy_iff.mp both).1]
        exact congrArg (_ ++ Option.toList ·) (if_neg own)
    · rw [if_neg here, if_neg fun both => here (isBy_iff.mp both).2, List.append_nil, List.append_nil]

/-- **A thread inside of `doWriteData`, or a retriever**, takes a step. -/
theorem Recorded.log (recorded : Recorded name sizes operational control journal program) {logIdx : Nat}
    {event : Logger.LogEvent Thread Reader} (inside : ∀ thread, event.enteredCall thread = none)
    (taken : program.logStep sizes logIdx event = some next) :
    Recorded name sizes operational control { journal with logged := journal.logged ++ [(logIdx, event)] }
      next := by
  obtain ⟨tags, proxies, logs⟩ := logs_concat recorded.logs taken
  refine ⟨?_, ?_, logs, fun thread other => ?_⟩
  · rw [tags]
    exact recorded.tags
  · rw [proxies]
    exact recorded.proxies
  · rw [eventsAt_concat]
    split
    · rw [enteredBy_concat, inside thread, Option.toList_none, List.append_nil]
      exact recorded.entered thread other
    · rw [List.append_nil]
      exact recorded.entered thread other

/-- **A proxy is destroyed.** -/
theorem Recorded.destroy (recorded : Recorded name sizes operational control journal program)
    {thread : Thread} {id now : Nat}
    (taken : program.statementStep name sizes operational thread (.destroy id now) = some next) :
    Recorded name sizes operational control
      (journal.note name (.statement thread (.destroy id now))) next := by
  obtain ⟨proxy, alive, destroyed⟩ := Option.bind_eq_some_iff.mp taken
  obtain ⟨call?, destroys, rest⟩ := Option.bind_eq_some_iff.mp destroyed
  rw [recorded.proxies, Option.map_eq_some_iff] at alive
  obtain ⟨message, held, rfl⟩ := alive
  rw [Message.destroy_proxy, Option.some.injEq] at destroys
  subst destroys
  have freed : ∀ other, Function.update program.proxies id none other =
      (Function.update journal.messages id none other).map fun message => message.proxy true :=
    proxies_update recorded.proxies id none
  unfold Journal.note
  simp only [held]
  cases leads : message.call with
  | none =>
    rw [leads] at rest
    obtain rfl := Option.some.inj rest
    have silent : Statement.writeCall? ⟨thread, message, now⟩ = none := by
      unfold Statement.writeCall?
      rw [leads]
      rfl
    refine ⟨recorded.tags, freed, ?_, fun other logIdx => entered_finish recorded.entered _ other logIdx⟩
    show ∀ logIdx size, _ → run _ _ (eventsAt logIdx (journal.logged ++ _)) = _
    rw [silent]
    simp only [Option.map_none, Option.toList_none, List.append_nil]
    exact recorded.logs
  | some call =>
    rw [leads] at rest
    have logger : call.theLogger = message.theLogger := by
      unfold Message.call at leads
      split at leads
      · cases leads; rfl
      · cases leads
    have writes : Statement.writeCall? ⟨thread, message, now⟩ = some (Statement.enterCall call now) := by
      unfold Statement.writeCall?
      rw [leads]
      rfl
    obtain ⟨tags, proxies, logs⟩ := logs_concat (by exact recorded.logs) rest
    refine ⟨?_, ?_, ?_, fun other logIdx => entered_finish recorded.entered _ other logIdx⟩
    · rw [tags]
      exact recorded.tags
    · rw [proxies]
      exact freed
    · show ∀ logIdx size, _ → run _ _ (eventsAt logIdx (journal.logged ++ _)) = _
      rw [writes, Option.map_some, Option.toList_some, ← logger]
      exact logs

/-- The journal and the program change one proxy. -/
theorem Recorded.hold (recorded : Recorded name sizes operational control journal program) (id : Nat)
    (message? : Option Message) : Recorded name sizes operational control (journal.hold id message?)
      { program with proxies :=
          Function.update program.proxies id (message?.map fun message => message.proxy true) } where
  tags := recorded.tags
  proxies := proxies_update recorded.proxies id message?
  logs := recorded.logs
  entered := recorded.entered

/-- **A piece is written.** -/
theorem Recorded.piece (recorded : Recorded name sizes operational control journal program)
    {thread : Thread} {id : Nat} {piece : Piece}
    (taken : program.statementStep name sizes operational thread (.piece id piece) = some next) :
    Recorded name sizes operational control (journal.note name (.statement thread (.piece id piece)))
      next := by
  obtain ⟨proxy, alive, writes⟩ := Option.bind_eq_some_iff.mp taken
  obtain ⟨written, calls, done⟩ := Option.bind_eq_some_iff.mp writes
  obtain rfl := Option.some.inj done
  rw [recorded.proxies, Option.map_eq_some_iff] at alive
  obtain ⟨message, held, rfl⟩ := alive
  rw [Message.call_proxy, Option.some.injEq] at calls
  subst calls
  have holds := recorded.hold id ((journal.messages id).map fun message => message.add piece)
  rw [held] at holds
  unfold Journal.note
  simp only [held]
  exact holds

end

section

variable [DecidableEq Tag] [DecidableEq Thread] [DecidableEq Reader] {name : Tag → List Char}
  {sizes : List Nat} {statTagToType : Tag → StatType Sample} {statTagTree logTagTree : LabelTree Tag}
  {mem mem₁ : Mem} {journal : Journal Tag Sample Thread Reader}
  {program next : Program Tag Sample Thread Reader}
  (distinct : statTagTree.labels.Nodup) (distinct' : logTagTree.labels.Nodup)
  (compiled : ∀ call ∈ journal.calls, call.Compiles statTagTree logTagTree)
  (recorded : Recorded name sizes (LogStatBase.init statTagToType true statTagTree logTagTree mem)
    (LogStatBase.init statTagToType false statTagTree logTagTree mem₁) journal program)
include distinct distinct' compiled recorded

/-- **A proxy is made** with the level in force. -/
theorem Recorded.getLog {thread : Thread} {id : Nat} {logTag : Tag} {logLevel : LogLevel} {logIdx : Nat}
    (known : logTag ∈ logTagTree.labels)
    (taken : program.statementStep name sizes
      (LogStatBase.init statTagToType true statTagTree logTagTree mem) thread
      (.getLog id logTag logLevel logIdx) = some next) :
    Recorded name sizes (LogStatBase.init statTagToType true statTagTree logTagTree mem)
      (LogStatBase.init statTagToType false statTagTree logTagTree mem₁)
      (journal.note name (.statement thread (.getLog id logTag logLevel logIdx))) next := by
  have holds := holdsLevels_of_calls distinct distinct' compiled recorded.tags
  simp only [Program.statementStep] at taken
  split at taken
  case isFalse => cases taken
  case isTrue =>
    rw [getLog_of_holdsLevels mem distinct' holds known] at taken
    split at taken
    case isFalse => cases taken
    case isTrue =>
      obtain rfl := Option.some.inj taken
      have fresh := @Message.proxy_of_fresh (beginMessage name journal.calls logTag logLevel logIdx) rfl
      have held := recorded.hold id (some (beginMessage name journal.calls logTag logLevel logIdx))
      rw [Option.map_some, fresh] at held
      exact held

/-- **Every step of the program is one entry of the journal.** -/
theorem recorded_step {event : ProgramEvent Tag Sample Thread Reader}
    (compiles : event.Compiles statTagTree logTagTree)
    (taken : programStep name sizes (LogStatBase.init statTagToType true statTagTree logTagTree mem)
      (LogStatBase.init statTagToType false statTagTree logTagTree mem₁) program event = some next) :
    Recorded name sizes (LogStatBase.init statTagToType true statTagTree logTagTree mem)
      (LogStatBase.init statTagToType false statTagTree logTagTree mem₁) (journal.note name event)
      next := by
  cases event with
  | call tagCall =>
    obtain ⟨tags, step, rfl⟩ := Option.map_eq_some_iff.mp taken
    exact ⟨(run_concat _).mpr ⟨_, recorded.tags, step⟩, recorded.proxies, recorded.logs, recorded.entered⟩
  | statement thread op =>
    simp only [programStep] at taken
    split at taken
    case isFalse => cases taken
    case isTrue =>
      cases op with
      | getLog id logTag logLevel logIdx =>
        exact Recorded.getLog distinct distinct' compiled recorded compiles taken
      | piece id piece => exact recorded.piece taken
      | destroy id now => exact recorded.destroy taken
  | log logIdx event =>
    cases event with
    | call thread entry => cases taken
    | _ => exact recorded.log (fun _ => rfl) taken

end

/-! ### Whole runs -/

section

variable [DecidableEq Tag] [DecidableEq Thread] [DecidableEq Reader] {name : Tag → List Char}
  {sizes : List Nat} {statTagToType : Tag → StatType Sample} {statTagTree logTagTree : LabelTree Tag}
  {mem mem₁ : Mem}

omit [DecidableEq Thread] [DecidableEq Reader] in
/-- The calls of a journal come from the history. -/
theorem compiles_note {journal : Journal Tag Sample Thread Reader}
    (compiled : ∀ call ∈ journal.calls, call.Compiles statTagTree logTagTree)
    {event : ProgramEvent Tag Sample Thread Reader} (compiles : event.Compiles statTagTree logTagTree) :
    ∀ call ∈ (journal.note name event).calls, call.Compiles statTagTree logTagTree := by
  cases event with
  | call tagCall =>
    intro call member
    rcases List.mem_append.mp member with old | new
    · exact compiled call old
    · rw [List.mem_singleton.mp new]
      exact compiles
  | statement thread op =>
    cases op with
    | destroy id now =>
      simp only [Journal.note]
      split <;> exact compiled
    | _ => exact compiled
  | log logIdx event => exact compiled

/-- **The program is where its journal says, in every run.** -/
theorem recorded_of_run (distinct : statTagTree.labels.Nodup) (distinct' : logTagTree.labels.Nodup)
    {history : List (ProgramEvent Tag Sample Thread Reader)}
    {final : Program Tag Sample Thread Reader}
    (runs : run (programStep name sizes (LogStatBase.init statTagToType true statTagTree logTagTree mem)
        (LogStatBase.init statTagToType false statTagTree logTagTree mem₁))
      (programStart (LogStatBase.init statTagToType true statTagTree logTagTree mem)) history =
        some final)
    (compiles : ∀ event ∈ history, event.Compiles statTagTree logTagTree) :
    Recorded name sizes (LogStatBase.init statTagToType true statTagTree logTagTree mem)
      (LogStatBase.init statTagToType false statTagTree logTagTree mem₁) (journalOf name history)
      final := by
  refine (run_induction _ (fun history program => (∀ event ∈ history,
    event.Compiles statTagTree logTagTree) →
      (∀ call ∈ (journalOf name history).calls, call.Compiles statTagTree logTagTree) ∧
      Recorded name sizes (LogStatBase.init statTagToType true statTagTree logTagTree mem)
        (LogStatBase.init statTagToType false statTagTree logTagTree mem₁) (journalOf name history)
        program) ?_ ?_ runs compiles).2
  · exact fun _ => ⟨fun call member => absurd member List.not_mem_nil, rfl, fun _ => rfl,
      fun _ _ _ => rfl, fun _ _ => rfl⟩
  · intro history program event next kept taken all
    obtain ⟨compiled, recorded⟩ := kept fun other member => all other (List.mem_append_left _ member)
    have last := all event (List.mem_append_right _ List.mem_cons_self)
    unfold journalOf at compiled recorded ⊢
    rw [List.foldl_append]
    exact ⟨compiles_note compiled last,
      recorded_step distinct distinct' compiled recorded last taken⟩

end

/-- **From a statement to its line.** Threads make statements through proxies, control processes set
levels, everybody calls under tags, and retrievers copy the logs; all steps come in any order. At the log
of each logger, every thread tries the mutex once, and in its own order, for each of its statements whose
level was not below the one in force at its `getLog` and that have a text, and for nothing else; the last
one it may not have tried yet. A finished copy is printed as the last of the messages that took the mutex
before the copy was begun, as many as fit, less those excluded, in a rotation of their order or, if their
times increase, in this order. -/
theorem getLog_statements [DecidableEq Tag] [DecidableEq Thread] [DecidableEq Reader]
    (name : Tag → List Char) (sizes : List Nat) (statTagToType : Tag → StatType Sample)
    (statTagTree logTagTree : LabelTree Tag) (distinct : statTagTree.labels.Nodup)
    (distinct' : logTagTree.labels.Nodup) (mem : Mem) {operational control : LogStat Tag Sample}
    (begins : operational = LogStatBase.init statTagToType true statTagTree logTagTree mem)
    (begins' : control = LogStatBase.init statTagToType false statTagTree logTagTree operational.mem)
    {history : List (ProgramEvent Tag Sample Thread Reader)} {final : Program Tag Sample Thread Reader}
    (runs : run (programStep name sizes operational control) (programStart operational) history =
      some final)
    (compiles : ∀ event ∈ history, event.Compiles statTagTree logTagTree)
    (localtime : Int64 → Option (List UInt8))
    (plain : ∀ statement ∈ (journalOf name history).finished, statement.Plain localtime)
    {logIdx size : Nat} (registered : sizes[logIdx]? = some size) (positive : 0 < numLogEntriesOf size)
    (small : numLogEntriesOf size < 2 ^ 32) (spare : 0 < size % bytesPerLogBuf) :
    let events := eventsAt logIdx (journalOf name history).logged
    (∀ thread, recordedBy thread logIdx (journalOf name history).finished =
        attemptedBy thread events ++ ((final.logs logIdx).generators thread).untried) ∧
      ∀ before tempLogBuf cmd, System.CopiedBehind events before tempLogBuf →
        ∃ messages turn, acquired before = messages.map LogMessage.call ∧
          (StampsIncrease messages → turn = 0) ∧
          getLog localtime size (imageOf tempLogBuf) cmd = outputOf localtime cmd turn
            (messages.drop (oldestKept (numLogEntriesOf size) messages)) := by
  subst begins'
  subst begins
  intro events
  have recorded := recorded_of_run distinct distinct' runs compiles
  have logRuns := recorded.logs logIdx size registered
  have tried : ∀ thread, recordedBy thread logIdx (journalOf name history).finished =
      attemptedBy thread events ++ ((final.logs logIdx).generators thread).untried := fun thread =>
    (recorded.entered thread logIdx).symm.trans (System.entered_eq_attempted logRuns thread)
  refine ⟨tried, fun before tempLogBuf cmd copied => ?_⟩
  have bytes := System.copied_eq positive logRuns copied
  obtain ⟨messages, calls, accepted⟩ : ∃ messages : List LogMessage,
      acquired before = messages.map LogMessage.call ∧
        ∀ message ∈ messages, (localtime message.timeStamp.sec).isSome = true := by
    refine exists_messages fun call member => ?_
    obtain ⟨thread, attempted⟩ := attempted_of_acquired member
    have within : call ∈ attemptedBy thread events := by
      obtain ⟨reader, middle, after, split, -⟩ := copied
      rw [split]
      unfold attemptedBy
      rw [List.filterMap_append]
      exact List.mem_append_left _ attempted
    have led : call ∈ recordedBy thread logIdx (journalOf name history).finished := by
      rw [tried]
      exact List.mem_append_left _ within
    obtain ⟨statement, among, leads⟩ := List.mem_filterMap.mp led
    exact Statement.exists_message (plain statement (List.mem_filter.mp among).1) leads
  obtain ⟨turn, increase, printed⟩ := getLog_messages localtime cmd positive small spare accepted
  refine ⟨messages, turn, calls, increase, ?_⟩
  rw [← printed, bytes, calls]
  exact getLog_congr localtime (AgreeOn.imageOf size _) cmd

/-! ### A run -/

section

variable [DecidableEq Tag] [DecidableEq Thread] [DecidableEq Reader] {name : Tag → List Char}
  {sizes : List Nat} {operational control : LogStat Tag Sample}

/-- **Steps at one log** are steps of the program. -/
theorem run_log {logIdx size : Nat} (registered : sizes[logIdx]? = some size)
    {events : List (Logger.LogEvent Thread Reader)}
    (inside : ∀ event ∈ events, ∀ thread entry, event ≠ .call thread entry)
    {program : Program Tag Sample Thread Reader} {system : System Thread Reader}
    (runs : run (System.step size) (program.logs logIdx) events = some system) :
    ∃ next, run (programStep name sizes operational control) program (events.map (.log logIdx)) =
      some next := by
  induction events generalizing program with
  | nil => exact ⟨program, rfl⟩
  | cons event events ih =>
    rw [run, Option.bind_eq_some_iff] at runs
    obtain ⟨moved, taken, rest⟩ := runs
    have first : programStep name sizes operational control program (.log logIdx event) =
        some { program with logs := Function.update program.logs logIdx moved } := by
      have steps : program.logStep sizes logIdx event =
          some { program with logs := Function.update program.logs logIdx moved } := by
        unfold Program.logStep
        rw [registered, Option.bind_eq_bind, Option.bind_some, taken]
        rfl
      cases event with
      | call thread entry => exact absurd rfl (inside _ List.mem_cons_self thread entry)
      | _ => exact steps
    rw [List.map_cons, run, first, Option.bind_some]
    refine ih (fun other member => inside other (List.mem_cons_of_mem _ member)) ?_
    show run _ (Function.update program.logs logIdx moved logIdx) events = some system
    rw [Function.update_self]
    exact rest

omit [DecidableEq Thread] [DecidableEq Reader] in
/-- The journal notes them at that log only. -/
theorem journalOf_append_log (history : List (ProgramEvent Tag Sample Thread Reader)) (logIdx : Nat)
    (events : List (Logger.LogEvent Thread Reader)) :
    (journalOf name (history ++ events.map (.log logIdx))).finished = (journalOf name history).finished ∧
      eventsAt logIdx (journalOf name (history ++ events.map (.log logIdx))).logged =
        eventsAt logIdx (journalOf name history).logged ++ events := by
  induction events using List.reverseRecOn with
  | nil => rw [List.map_nil, List.append_nil, List.append_nil]; exact ⟨rfl, rfl⟩
  | append_singleton events event ih =>
    have last : journalOf name (history ++ (events ++ [event]).map (.log logIdx)) =
        (journalOf name (history ++ events.map (.log logIdx))).note name (.log logIdx event) := by
      unfold journalOf
      rw [List.map_append, ← List.append_assoc, List.foldl_append]
      rfl
    rw [last, ← List.append_assoc, ← ih.2]
    refine ⟨ih.1, (eventsAt_concat logIdx logIdx _ event).trans ?_⟩
    rw [if_pos rfl]

end

/-- The call of the only statement below that is recorded. -/
def alertCall : WriteCall :=
  Statement.enterCall ⟨0, [97], cString (String.ofList (nestedName 0)), cString "ERROR"⟩ 1000000

/-- The level is ALERT: one thread's statement is disabled, the other one's gets into the log. -/
def alertStatements : List (ProgramEvent Nat Nat Bool Unit) :=
  [.call (.logLevel ⟨['l'], 0, 0⟩ ⟨true, 0, "ALERT"⟩), .statement false (.getLog 0 0 .error 0),
    .statement true (.getLog 1 0 .info 0), .statement true (.piece 1 (.insert (.string [98]))),
    .statement false (.piece 0 (.insert (.string [97]))), .statement true (.destroy 1 5),
    .statement false (.destroy 0 1000000), .log 0 (.getLog ()), .log 0 (.acquire false alertCall),
    .log 0 (.lockMtx false), .log 0 (.access false), .log 0 (.access false), .log 0 (.unlockMtx false)] ++
    List.replicate 9 (.log 0 (.access false)) ++ [.log 0 (.unlock false)]

/-- A retriever copies a log of 513 bytes. -/
def copyEvents (tempLogBuf : List UInt8) : List (Logger.LogEvent Bool Unit) :=
  .lock () :: (List.replicate 513 (.copyByte ()) ++ [.finished () tempLogBuf])

theorem getLog_statements_alert : ∃ tempLogBuf final,
    run (programStep nestedName [513] mixedOperational mixedControl) (programStart mixedOperational)
        (alertStatements ++ (copyEvents tempLogBuf).map (.log 0)) = some final ∧
      ∃ (messages : List LogMessage) (turn : Nat), [alertCall] = messages.map LogMessage.call ∧
        getLog (fun _ => some []) 513 (imageOf tempLogBuf) {} = outputOf (fun _ => some []) {} turn
          (messages.drop (oldestKept 1 messages)) := by
  have state : (run (programStep nestedName [513] mixedOperational mixedControl)
      (programStart mixedOperational) alertStatements).map (fun program =>
        ((program.logs 0).mutex.isNone, decide ((program.logs 0).retrievers () = .waiting))) =
      some (true, true) := by
    decide +kernel
  obtain ⟨start, earlier, facts⟩ := Option.map_eq_some_iff.mp state
  have free : (start.logs 0).mutex = none := Option.isNone_iff_eq_none.mp (congrArg Prod.fst facts)
  have waiting : (start.logs 0).retrievers () = .waiting := of_decide_eq_true (congrArg Prod.snd facts)
  obtain ⟨system, copies⟩ := Option.isSome_iff_exists.mp (@System.run_getLog _ _ _ _ 513 _ _ waiting free)
  have quiet : ∀ event ∈ copyEvents ((start.logs 0).ring.mem.read 0 513), ∀ thread entry,
      event ≠ .call thread entry := by
    intro event member thread entry
    rcases List.mem_cons.mp member with rfl | member
    · exact fun same => by cases same
    · rcases List.mem_append.mp member with copied | finished
      · rw [List.eq_of_mem_replicate copied]
        exact fun same => by cases same
      · rw [List.mem_singleton.mp finished]
        exact fun same => by cases same
  have registered : ([513] : List Nat)[0]? = some 513 := rfl
  obtain ⟨final, copying⟩ : ∃ final, run (programStep nestedName [513] mixedOperational mixedControl)
      start ((copyEvents ((start.logs 0).ring.mem.read 0 513)).map (.log 0)) = some final :=
    run_log registered quiet copies
  have runs : run (programStep nestedName [513] mixedOperational mixedControl)
      (programStart mixedOperational) (alertStatements ++
        (copyEvents ((start.logs 0).ring.mem.read 0 513)).map (.log 0)) = some final := by
    rw [run_append, earlier, Option.bind_some, copying]
  have compiles : ∀ event ∈ alertStatements ++ (copyEvents ((start.logs 0).ring.mem.read 0 513)).map
      (.log 0), event.Compiles nestedTree (.leaf 0) := by
    rw [List.forall_mem_append, List.forall_mem_map]
    exact ⟨by decide, fun _ _ => trivial⟩
  obtain ⟨finished, logged⟩ := @journalOf_append_log _ _ _ _ _ nestedName alertStatements 0
    (copyEvents ((start.logs 0).ring.mem.read 0 513))
  have plain : ∀ statement ∈ (journalOf nestedName alertStatements).finished,
      statement.Plain fun _ => some [] := by
    decide +kernel
  obtain ⟨-, printed⟩ := getLog_statements nestedName [513] nestedType nestedTree (.leaf 0) (by decide)
    (by decide) (fun _ => 9) rfl rfl runs compiles (fun _ => some []) (by rwa [finished])
    registered (by decide) (by decide) (by decide)
  rw [logged] at printed
  obtain ⟨messages, turn, made, -, shown⟩ := printed
    (eventsAt 0 (journalOf nestedName alertStatements).logged) ((start.logs 0).ring.mem.read 0 513) {}
    ⟨(), _, [], rfl, fun other member => by cases List.eq_of_mem_replicate member⟩
  have acquires : acquired (eventsAt 0 (journalOf nestedName alertStatements).logged) = [alertCall] := by
    decide +kernel
  exact ⟨_, final, runs, messages, turn, acquires.symm.trans made, shown⟩

end StatLog.Tags
