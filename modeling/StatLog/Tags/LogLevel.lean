/-
**Log levels.**

Every tag of the log tree has a level for each of four loggers, one byte each in the shared memory of
its node. The operational process sets all of them to INFO and reads one in `getLog`; the control
process writes them on a LOG_LEVEL command.

* `LogControlProxy.doCommand`, `LogOpProxy.getLevel`, `getLog`, `LogGenProxy`: the source's functions.
* `LogEvent`, `step`: commands and calls of `getLog`, in any order.
* `levelInForce`: the level that the commands so far ask for, found in the history alone.
* `sendAll_levels`: a command changes the levels of the selected tags, for one logger.
* **`level_run`**: after any run every stored level is the one in force, and the text of a `getLog`
  is written out exactly if its level is not below it.
-/

import StatLog.Lib.Transition
import StatLog.Tags.Commander
import StatLog.Tags.Handles

namespace StatLog.Tags

open ByteMemory Placement RoseTree Stats Transition

variable {Tag Sample : Type}

/-! ### Levels -/

def logLevelNames : List String := ["DEBUG", "INFO", "ALERT", "ERROR"]

namespace LogLevel

/-- `LogLevelNames[level]`. -/
def levelName : LogLevel → String
  | debug => "DEBUG"
  | info => "INFO"
  | alert => "ALERT"
  | error => "ERROR"

/-- The level that a valid name names. -/
def ofName? (name : String) : Option LogLevel :=
  [debug, info, alert, error].find? fun level => level.levelName = name

theorem getElem?_logLevelNames (level : LogLevel) :
    logLevelNames[level.toByte.toNat]? = some level.levelName := by
  cases level <;> rfl

/-- What `std::find` finds among the names. -/
theorem idxOf?_logLevelNames (name : String) :
    (logLevelNames.idxOf? name).map UInt8.ofNat = (ofName? name).map toByte := by
  unfold ofName? logLevelNames List.idxOf?
  simp only [List.findIdx?_cons, List.findIdx?_nil, List.find?_cons, List.find?_nil, levelName,
    beq_iff_eq]
  by_cases first : "DEBUG" = name
  · simp [first, toByte]
  by_cases second : "INFO" = name
  · simp [first, second, toByte]
  by_cases third : "ALERT" = name
  · simp [first, second, third, toByte]
  by_cases fourth : "ERROR" = name
  · simp [first, second, third, fourth, toByte]
  · simp [first, second, third, fourth]

end LogLevel

/-! ### The control process -/

def isLogCommand : StatCmd → Bool
  | .logLevel => true
  | .dumpLog => true
  | .printTag => true
  | _ => false

structure LogLevelCommand where
  setLogLevel : Bool := false
  loggerIdx : Int := 0
  newLogLevel : String := ""

/-- **`LogControlProxy::doCommand`**, on the shared memory and the output. Nothing remains of a process
that exits, or that reads outside of an array. -/
def LogControlProxy.doCommand (ptr : Nat) (cmd : StatCmd) (cmdArg : LogLevelCommand) (mem : Mem)
    (logOutput : String) : Option (Mem × String) :=
  if isLogCommand cmd = false then some (mem, logOutput)
  else if cmd = .logLevel then
    if 0 ≤ cmdArg.loggerIdx ∧ cmdArg.loggerIdx < sizeofLogControlStorage then
      let address := ptr + cmdArg.loggerIdx.toNat
      if cmdArg.setLogLevel then do
        let previous ← logLevelNames[(mem address).toNat]?
        let next := match logLevelNames.idxOf? cmdArg.newLogLevel with
          | some idx => mem.write address [UInt8.ofNat idx]
          | none => mem
        let new ← logLevelNames[(next address).toNat]?
        some (next, "previous log level = " ++ previous ++ ", " ++ "new log level = " ++ new)
      else do
        let level ← logLevelNames[(mem address).toNat]?
        some (mem, "log level = " ++ level)
    else none
  else some (mem, logOutput)

/-- `doCommand` of the log nodes. -/
def LogStatNode.doLogCommand (node : LogStatNode Tag Sample) (ptr : Nat) (cmd : StatCmd)
    (cmdArg : LogLevelCommand) (mem : Mem) (logOutput : String) : Option (Mem × String) :=
  match node.nodeClass with
  | .controlLogger => LogControlProxy.doCommand ptr cmd cmdArg mem logOutput
  | _ => none

/-- `sendCommand` for a node of the log hierarchy, up to the call of the printer. -/
def LogStatControl.sendLogCommand [DecidableEq Tag] (theLogs : List (PlacedNode Tag Sample))
    (cmdArg : LogLevelCommand) (mem : Mem) (sent : TagInfo Tag × StatCmd) : Option (Mem × String) := do
  let placed ← getHandle theLogs sent.1.tagIndex
  placed.item.doLogCommand placed.offset sent.2 cmdArg mem ""

/-! ### The operational process -/

/-- `LogOpProxy::getLevel`. -/
def LogOpProxy.getLevel (ptr : Nat) (mem : Mem) (logIdx : Nat) : Option UInt8 :=
  if logIdx < sizeofLogControlStorage then some (mem (ptr + logIdx)) else none

def LogStatNode.getLevel (node : LogStatNode Tag Sample) (ptr : Nat) (mem : Mem) (logIdx : Nat) :
    Option UInt8 :=
  match node.nodeClass with
  | .opLogger => LogOpProxy.getLevel ptr mem logIdx
  | _ => none

/-- **`LogGenProxy`**, with the text of its string stream. -/
structure LogGenProxy where
  text : String := ""
  loggerIdx : Nat
  enabled : Bool
  tagName : List Char
  logLevelName : String

namespace LogGenProxy

/-- `operator<<` for the text of a value. -/
def insert (proxy : LogGenProxy) (value : String) : LogGenProxy :=
  if proxy.enabled = false then proxy else { proxy with text := proxy.text ++ value }

/-- The destructor: what it hands to `writeData`, if anything. -/
def destroy (proxy : LogGenProxy) : Option (String × List Char × String) :=
  if proxy.text.isEmpty then none else some (proxy.text, proxy.tagName, proxy.logLevelName)

end LogGenProxy

/-- **`getLog<LogTag>(log_level, log_idx)`**, with the number of loggers. -/
def LogStatOperational.getLog [DecidableEq Tag] (name : Tag → List Char)
    (theLogs : List (PlacedNode Tag Sample)) (loggers : Nat) (mem : Mem) (logTag : Tag)
    (logLevel : LogLevel) (logIdx : Nat) : Option LogGenProxy := do
  let placed ← getHandle theLogs logTag
  let curLogLevel ← placed.item.getLevel placed.offset mem logIdx
  if logIdx < loggers then
    some {
      loggerIdx := logIdx
      enabled := curLogLevel ≤ logLevel.toByte
      tagName := name logTag
      logLevelName := logLevel.levelName }
  else none

/-! ### Runs of both processes -/

/-- A LOG_LEVEL command with a path and its argument, or a call of `getLog<LogTag>`. -/
inductive LogEvent (Tag : Type)
  | logLevel (path : List Char) (cmdArg : LogLevelCommand)
  | getLog (logTag : Tag) (logLevel : LogLevel) (logIdx : Nat)

/-- The level a command sets: none for a command that shows it, or that names no level. -/
def LogLevelCommand.newLevel? (cmdArg : LogLevelCommand) : Option LogLevel :=
  if cmdArg.setLogLevel then LogLevel.ofName? cmdArg.newLogLevel else none

/-- The calls of `sendCommand` for one path, on the shared memory. -/
def LogStatControl.sendAll [DecidableEq Tag] (theLogs : List (PlacedNode Tag Sample))
    (cmdArg : LogLevelCommand) : List (TagInfo Tag × StatCmd) → Mem → Option Mem
  | [], mem => some mem
  | sent :: rest, mem => do
    let next ← LogStatControl.sendLogCommand theLogs cmdArg mem sent
    sendAll theLogs cmdArg rest next.1

section

variable [DecidableEq Tag] (name : Tag → List Char) (logTagTree : LabelTree Tag) (loggers : Nat)

/-- **One command or one call**, on the shared memory of an operational and a control process. -/
def logStep (operational control : LogStat Tag Sample) (mem : Mem) : LogEvent Tag → Option Mem
  | .logLevel path cmdArg =>
    LogStatControl.sendAll control.theLogs cmdArg
      (tagCommander name .logLevel (tagHierarchy logTagTree) path) mem
  | .getLog logTag logLevel logIdx =>
    (LogStatOperational.getLog name operational.theLogs loggers mem logTag logLevel logIdx).map
      fun _ => mem

/-- What callers promise: a path does not end in a dot, logger indices are in range, and a tag of
`getLog` is one of the tree. -/
def LogEvent.Proper : LogEvent Tag → Prop
  | .logLevel path cmdArg =>
    path.getLast? ≠ some '.' ∧ 0 ≤ cmdArg.loggerIdx ∧ cmdArg.loggerIdx < sizeofLogControlStorage
  | .getLog logTag _ logIdx =>
    logTag ∈ logTagTree.labels ∧ logIdx < sizeofLogControlStorage ∧ logIdx < loggers

/-- The level an event sets for a node and a logger. -/
def LogEvent.setsLevel (node : LabelTree.Node Tag) (logIdx : Nat) : LogEvent Tag → Option LogLevel
  | .logLevel path cmdArg =>
    if Denotes name path node ∧ cmdArg.loggerIdx = logIdx then cmdArg.newLevel? else none
  | .getLog _ _ _ => none

/-- **The level in force**: that of the most recent command that names a valid level, for this logger,
on a path that denotes the node or one above it. -/
def levelInForce (history : List (LogEvent Tag)) (node : LabelTree.Node Tag) (logIdx : Nat) :
    LogLevel :=
  ((history.filterMap (LogEvent.setsLevel name node logIdx)).getLast?).getD .info

/-- **What the processes show for all tags and loggers.** -/
structure LevelsShown (operational control : LogStat Tag Sample) (mem : Mem)
    (levels : LabelTree.Node Tag → Nat → LogLevel) : Prop where
  /-- The stored level, which is an index of `LogLevelNames`. -/
  stored : ∀ node ∈ logTagTree.nodes, ∀ logIdx < sizeofLogControlStorage,
    ∃ placed, getHandle operational.theLogs node.label = some placed ∧
      placed.item.getLevel placed.offset mem logIdx = some (levels node logIdx).toByte ∧
      (levels node logIdx).toByte.toNat < logLevelNames.length
  /-- The text of a `getLog` reaches `writeData`, or is dropped. -/
  recorded : ∀ node ∈ logTagTree.nodes, ∀ logIdx < sizeofLogControlStorage, logIdx < loggers →
    ∀ logLevel value, ∃ proxy,
      LogStatOperational.getLog name operational.theLogs loggers mem node.label logLevel logIdx =
          some proxy ∧
        (proxy.insert value).destroy =
          if (levels node logIdx).toByte ≤ logLevel.toByte ∧ value ≠ "" then
            some (value, name node.label, logLevel.levelName)
          else none
  /-- A command that sets no level changes nothing. -/
  ineffective : ∀ path cmdArg, LogEvent.Proper logTagTree loggers (.logLevel path cmdArg) →
    cmdArg.newLevel? = none →
      logStep name logTagTree loggers operational control mem (.logLevel path cmdArg) = some mem

end

/-! ### One command -/

namespace LogLevelCommand

/-- The shared memory behind the command for the logger at `ptr`. -/
def apply (cmdArg : LogLevelCommand) (ptr : Nat) (mem : Mem) : Mem :=
  match cmdArg.newLevel? with
  | some level => mem.write (ptr + cmdArg.loggerIdx.toNat) [level.toByte]
  | none => mem

theorem apply_of_none {cmdArg : LogLevelCommand} (none : cmdArg.newLevel? = none) (ptr : Nat)
    (mem : Mem) : cmdArg.apply ptr mem = mem := by
  unfold apply
  rw [none]

/-- Its own byte has the new level. -/
theorem apply_self (cmdArg : LogLevelCommand) {ptr : Nat} {mem : Mem} {level : LogLevel}
    (stored : mem (ptr + cmdArg.loggerIdx.toNat) = level.toByte) :
    cmdArg.apply ptr mem (ptr + cmdArg.loggerIdx.toNat) =
      (cmdArg.newLevel?.getD level).toByte := by
  unfold apply
  cases cmdArg.newLevel? with
  | none => exact stored
  | some new => exact Mem.write_of_inside mem _ [new.toByte] Nat.zero_lt_one

/-- The other bytes keep theirs. -/
theorem apply_of_ne (cmdArg : LogLevelCommand) {ptr address : Nat} (mem : Mem)
    (other : address ≠ ptr + cmdArg.loggerIdx.toNat) : cmdArg.apply ptr mem address = mem address := by
  unfold apply
  cases cmdArg.newLevel? with
  | none => rfl
  | some new =>
    apply Mem.write_of_outside
    rw [List.length_singleton]
    omega

end LogLevelCommand

/-- **A command for a logger whose level is valid** runs to its end. -/
theorem LogControlProxy.doCommand_logLevel {cmdArg : LogLevelCommand} (lower : 0 ≤ cmdArg.loggerIdx)
    (upper : cmdArg.loggerIdx < sizeofLogControlStorage) {ptr : Nat} {mem : Mem} {level : LogLevel}
    (stored : mem (ptr + cmdArg.loggerIdx.toNat) = level.toByte) (logOutput : String) :
    ∃ text, LogControlProxy.doCommand ptr .logLevel cmdArg mem logOutput =
      some (cmdArg.apply ptr mem, text) := by
  have shown := level.getElem?_logLevelNames
  have after := cmdArg.apply_self stored
  unfold doCommand
  rw [if_neg (by decide), if_pos rfl, if_pos ⟨lower, upper⟩]
  unfold LogLevelCommand.apply LogLevelCommand.newLevel? at *
  cases set : cmdArg.setLogLevel with
  | false => simp [stored, shown]
  | true =>
    rw [set] at after
    have found := LogLevel.idxOf?_logLevelNames cmdArg.newLogLevel
    cases valid : LogLevel.ofName? cmdArg.newLogLevel with
    | none =>
      rw [valid, Option.map_none, Option.map_eq_none_iff] at found
      simp [stored, shown, found]
    | some new =>
      rw [valid, Option.map_some, Option.map_eq_some_iff] at found
      obtain ⟨idx, found, byte⟩ := found
      rw [valid] at after
      simp only [if_true, Option.getD_some] at after
      simp [stored, shown, found, byte, after, new.getElem?_logLevelNames]

/-! ### All nodes of a path -/

/-- The loggers of a control process: one for each tag, and apart from each other. -/
structure ControlLogs (theLogs : List (PlacedNode Tag Sample)) : Prop where
  loggers : ∀ placed ∈ theLogs, placed.item.nodeClass = .controlLogger
  single : (theLogs.map fun placed => placed.item.tag).Nodup
  apart : ∀ first ∈ theLogs, ∀ second ∈ theLogs, first ≠ second →
    first.offset + sizeofLogControlStorage ≤ second.offset ∨
      second.offset + sizeofLogControlStorage ≤ first.offset

/-- The shared memory holds these levels. -/
def HoldsLevels (theLogs : List (PlacedNode Tag Sample)) (mem : Mem)
    (levels : Tag → Nat → LogLevel) : Prop :=
  ∀ placed ∈ theLogs, ∀ logIdx < sizeofLogControlStorage,
    mem (placed.offset + logIdx) = (levels placed.item.tag logIdx).toByte

section

variable [DecidableEq Tag] {theLogs : List (PlacedNode Tag Sample)} {cmdArg : LogLevelCommand}
  {mem : Mem} {levels : Tag → Nat → LogLevel}

/-- The levels behind a command for some tags. -/
def setLevels (cmdArg : LogLevelCommand) (tags : List Tag) (levels : Tag → Nat → LogLevel) :
    Tag → Nat → LogLevel := fun tag logIdx =>
  if tag ∈ tags ∧ cmdArg.loggerIdx = logIdx then cmdArg.newLevel?.getD (levels tag logIdx)
  else levels tag logIdx

/-- A command for one tag. -/
theorem holdsLevels_apply (known : ControlLogs theLogs) (lower : 0 ≤ cmdArg.loggerIdx)
    (upper : cmdArg.loggerIdx < sizeofLogControlStorage) (holds : HoldsLevels theLogs mem levels)
    {placed : PlacedNode Tag Sample} (member : placed ∈ theLogs) :
    HoldsLevels theLogs (cmdArg.apply placed.offset mem)
      (setLevels cmdArg [placed.item.tag] levels) := by
  intro other member' logIdx inside
  have cast : (cmdArg.loggerIdx.toNat : Int) = cmdArg.loggerIdx := Int.toNat_of_nonneg lower
  unfold setLevels
  by_cases same : other = placed
  · subst same
    by_cases index : cmdArg.loggerIdx = logIdx
    · rw [if_pos ⟨List.mem_cons_self, index⟩]
      have byte : cmdArg.loggerIdx.toNat = logIdx := by omega
      have stored := holds other member logIdx inside
      rw [← byte] at stored ⊢
      exact cmdArg.apply_self stored
    · rw [if_neg fun both => index both.2, cmdArg.apply_of_ne mem (by omega)]
      exact holds other member logIdx inside
  · have differ : other.item.tag ∉ [placed.item.tag] := by
      intro equal
      exact same (List.inj_on_of_nodup_map known.single member' member (List.mem_singleton.mp equal))
    have apart := known.apart other member' placed member same
    rw [if_neg fun both => differ both.1, cmdArg.apply_of_ne mem (by omega)]
    exact holds other member' logIdx inside

theorem setLevels_cons (tag : Tag) (tags : List Tag) :
    setLevels cmdArg tags (setLevels cmdArg [tag] levels) = setLevels cmdArg (tag :: tags) levels := by
  funext other logIdx
  unfold setLevels
  by_cases index : cmdArg.loggerIdx = logIdx
  · by_cases first : other = tag
    · cases cmdArg.newLevel? <;> simp [index, first]
    · simp [index, first]
  · simp [index]

/-- **A command for several tags** sets the levels of these tags, for its logger. -/
theorem sendAll_levels (known : ControlLogs theLogs) (lower : 0 ≤ cmdArg.loggerIdx)
    (upper : cmdArg.loggerIdx < sizeofLogControlStorage) {sent : List (TagInfo Tag × StatCmd)}
    (commands : ∀ one ∈ sent, one.2 = .logLevel)
    (found : ∀ one ∈ sent, one.1.tagIndex ∈ theLogs.map fun placed => placed.item.tag)
    (holds : HoldsLevels theLogs mem levels) :
    ∃ next, LogStatControl.sendAll theLogs cmdArg sent mem = some next ∧
      HoldsLevels theLogs next
        (setLevels cmdArg (sent.map fun one => one.1.tagIndex) levels) ∧
      (cmdArg.newLevel? = none → next = mem) := by
  induction sent generalizing mem levels with
  | nil =>
    refine ⟨mem, rfl, fun placed member logIdx inside => ?_, fun _ => rfl⟩
    rw [setLevels, if_neg fun both => List.not_mem_nil both.1]
    exact holds placed member logIdx inside
  | cons one sent ih =>
    obtain ⟨placed, member, tag⟩ := List.mem_map.mp (found one List.mem_cons_self)
    have handle := getHandle_of_mem known.single member
    rw [tag] at handle
    have stored := holds placed member cmdArg.loggerIdx.toNat (by omega)
    obtain ⟨text, done⟩ := LogControlProxy.doCommand_logLevel lower upper stored ""
    have first : LogStatControl.sendLogCommand theLogs cmdArg mem one =
        some (cmdArg.apply placed.offset mem, text) := by
      unfold LogStatControl.sendLogCommand LogStatNode.doLogCommand
      rw [handle, commands one List.mem_cons_self, Option.bind_eq_bind, Option.bind_some]
      simp only [known.loggers placed member]
      exact done
    have later := holdsLevels_apply known lower upper holds member
    obtain ⟨next, rest, holds', unchanged⟩ := ih
      (fun other member => commands other (List.mem_cons_of_mem _ member))
      (fun other member => found other (List.mem_cons_of_mem _ member)) later
    refine ⟨next, ?_, ?_, fun none => ?_⟩
    · rw [LogStatControl.sendAll, first, Option.bind_eq_bind, Option.bind_some, rest]
    · rw [tag, setLevels_cons] at holds'
      exact holds'
    · rw [unchanged none, LogLevelCommand.apply_of_none none]

end

/-! ### Start-up -/

section

variable {statTagToType : Tag → StatType Sample} {statTagTree logTagTree : LabelTree Tag}

/-- All nodes of a log tree are loggers, parents included. -/
theorem nodeClass_theLogs {isOperational : Bool} {mem : Mem} {placed : PlacedNode Tag Sample}
    (member : placed ∈
      (LogStatBase.init statTagToType isOperational statTagTree logTagTree mem).theLogs) :
    placed.item.nodeClass = if isOperational then .opLogger else .controlLogger := by
  rw [LogStatBase.theLogs_init] at member
  obtain ⟨subtree, -, same⟩ := exists_nodeOf_of_mem_place member
  rw [← same]
  cases subtree <;> rfl

theorem getSharedSize_theLogs {isOperational : Bool} {mem : Mem} {placed : PlacedNode Tag Sample}
    (member : placed ∈
      (LogStatBase.init statTagToType isOperational statTagTree logTagTree mem).theLogs) :
    placed.item.getSharedSize = sizeofLogControlStorage := by
  unfold LogStatNode.getSharedSize
  rw [nodeClass_theLogs member]
  cases isOperational <;> rfl

theorem controlLogs_init (distinct : logTagTree.labels.Nodup) (mem : Mem) :
    ControlLogs (LogStatBase.init statTagToType false statTagTree logTagTree mem).theLogs where
  loggers placed member := nodeClass_theLogs member
  single := by
    rw [LogStatBase.map_tag_theLogs]
    exact List.nodup_reverse.mpr distinct
  apart first member second member' differ := by
    have apart := LogStatBase.nodes_apart statTagToType statTagTree logTagTree false mem
      (List.mem_append_right _ member) (List.mem_append_right _ member') differ
    rw [getSharedSize_theLogs member, getSharedSize_theLogs member'] at apart
    exact apart

/-- Handing out the memory changes none in front of it. -/
theorem setShmPointers_below (nodes : List (LogStatNode Tag Sample)) {shmPtr address : Nat}
    (below : address < shmPtr) (mem : Mem) :
    (LogStatBase.setShmPointers nodes shmPtr mem).2.2 address = mem address := by
  induction nodes generalizing shmPtr mem with
  | nil => rfl
  | cons node nodes ih =>
    rw [LogStatBase.setShmPointers, ih (Nat.lt_add_right _ below)]
    have step : node.Step shmPtr mem (node.setSharedPtr shmPtr mem) := .setSharedPtr
    exact step.unchangedOutside address (Or.inl below)

/-- **The operational process sets every level to INFO.** -/
theorem setShmPointers_info {nodes : List (LogStatNode Tag Sample)}
    (loggers : ∀ node ∈ nodes, node.nodeClass = .opLogger) {shmPtr : Nat} {mem : Mem}
    {placed : PlacedNode Tag Sample}
    (member : placed ∈ place LogStatNode.getSharedSize shmPtr nodes) {logIdx : Nat}
    (inside : logIdx < sizeofLogControlStorage) :
    (LogStatBase.setShmPointers nodes shmPtr mem).2.2 (placed.offset + logIdx) =
      LogLevel.info.toByte := by
  induction nodes generalizing shmPtr mem with
  | nil => cases member
  | cons node nodes ih =>
    have logger := loggers node List.mem_cons_self
    have size : node.getSharedSize = sizeofLogControlStorage := by
      unfold LogStatNode.getSharedSize
      rw [logger]
    rw [LogStatBase.setShmPointers]
    rcases List.mem_cons.mp member with rfl | later
    · rw [setShmPointers_below nodes (show shmPtr + logIdx < shmPtr + node.getSharedSize by omega)]
      unfold LogStatNode.setSharedPtr
      simp only [logger]
      rw [Mem.write_of_inside _ _ _ (by rwa [List.length_replicate]), List.getElem_replicate]
    · exact ih (fun other member => loggers other (List.mem_cons_of_mem _ member)) later

/-- The control process changes nothing. -/
theorem setShmPointers_control {nodes : List (LogStatNode Tag Sample)}
    (others : ∀ node ∈ nodes, ∀ ptr mem, node.setSharedPtr ptr mem = mem) (shmPtr : Nat) (mem : Mem) :
    (LogStatBase.setShmPointers nodes shmPtr mem).2.2 = mem := by
  induction nodes generalizing shmPtr mem with
  | nil => rfl
  | cons node nodes ih =>
    rw [LogStatBase.setShmPointers, others node List.mem_cons_self,
      ih fun other member => others other (List.mem_cons_of_mem _ member)]

/-- The levels behind `init` of the operational process. -/
theorem mem_init_info (mem : Mem) {placed : PlacedNode Tag Sample}
    (member : placed ∈ (LogStatBase.init statTagToType true statTagTree logTagTree mem).theLogs)
    {logIdx : Nat} (inside : logIdx < sizeofLogControlStorage) :
    (LogStatBase.init statTagToType true statTagTree logTagTree mem).mem (placed.offset + logIdx) =
      LogLevel.info.toByte := by
  have loggers : ∀ node ∈ tagListCreator statTagToType true false (tagHierarchy logTagTree),
      node.nodeClass = .opLogger := by
    intro node known
    obtain ⟨subtree, -, same⟩ := exists_nodeOf known
    rw [← same]
    cases subtree <;> rfl
  unfold LogStatBase.init at member ⊢
  simp only [(LogStatBase.setShmPointers_eq _ _ _).1] at member
  exact setShmPointers_info loggers member inside

/-- `init` of the control process changes nothing. -/
theorem mem_init_control (mem : Mem) :
    (LogStatBase.init statTagToType false statTagTree logTagTree mem).mem = mem := by
  have others : ∀ isStatistic (tree : LabelTree (TagNode Tag)),
      ∀ node ∈ tagListCreator statTagToType false isStatistic tree,
        ∀ ptr (mem : Mem), node.setSharedPtr ptr mem = mem := by
    intro isStatistic tree node known ptr mem
    obtain ⟨subtree, -, same⟩ := exists_nodeOf known
    rw [← same]
    cases subtree <;> cases isStatistic <;> rfl
  unfold LogStatBase.init
  simp only
  rw [setShmPointers_control (others false _), setShmPointers_control (others true _)]
  rfl

end

/-! ### Levels in force -/

section

variable {name : Tag → List Char} {history : List (LogEvent Tag)}

theorem levelInForce_concat (history : List (LogEvent Tag)) (event : LogEvent Tag)
    (node : LabelTree.Node Tag) (logIdx : Nat) :
    levelInForce name (history ++ [event]) node logIdx =
      (event.setsLevel name node logIdx).getD (levelInForce name history node logIdx) := by
  unfold levelInForce
  rw [List.filterMap_append]
  cases set : event.setsLevel name node logIdx with
  | none => rw [List.filterMap_cons_none set, List.filterMap_nil, List.append_nil, Option.getD_none]
  | some level =>
    rw [List.filterMap_cons_some set, List.filterMap_nil, List.getLast?_concat, Option.getD_some,
      Option.getD_some]

variable {logTagTree : LabelTree Tag}

variable [DecidableEq Tag] {loggers : Nat} {control : LogStat Tag Sample}

/-- The state of the run: the stored levels are those in force. -/
def LevelsStored (name : Tag → List Char) (logTagTree : LabelTree Tag)
    (theLogs : List (PlacedNode Tag Sample)) (history : List (LogEvent Tag)) (mem : Mem) : Prop :=
  ∃ levels, HoldsLevels theLogs mem levels ∧ ∀ node ∈ logTagTree.nodes,
    ∀ logIdx < sizeofLogControlStorage,
      levels node.label logIdx = levelInForce name history node logIdx

/-- The nodes of a process are those of the tree. -/
def NodesOf (logTagTree : LabelTree Tag) (theLogs : List (PlacedNode Tag Sample)) : Prop :=
  theLogs.map (fun placed => placed.item.tag) = logTagTree.labels.reverse

/-- **A command keeps the invariant.** -/
theorem levelsStored_command (distinct : logTagTree.labels.Nodup)
    (dotFree : ∀ tag ∈ logTagTree.labels, '.' ∉ name tag) (known : ControlLogs control.theLogs)
    (nodes : NodesOf logTagTree control.theLogs) {mem : Mem} {path : List Char}
    {cmdArg : LogLevelCommand} (operational : LogStat Tag Sample)
    (proper : LogEvent.Proper logTagTree loggers (.logLevel path cmdArg))
    (stored : LevelsStored name logTagTree control.theLogs history mem) :
    ∃ next, logStep name logTagTree loggers operational control mem (.logLevel path cmdArg) =
        some next ∧
      LevelsStored name logTagTree control.theLogs (history ++ [.logLevel path cmdArg]) next ∧
      (cmdArg.newLevel? = none → next = mem) := by
  obtain ⟨levels, holds, inForce⟩ := stored
  obtain ⟨closed, lower, upper⟩ := proper
  have found : ∀ one ∈ tagCommander name .logLevel (tagHierarchy logTagTree) path,
      one.1.tagIndex ∈ control.theLogs.map fun placed => placed.item.tag := by
    intro one member
    rw [nodes, List.mem_reverse]
    exact (mem_tagCommander_tagHierarchy member).2
  obtain ⟨next, done, holds', unchanged⟩ := sendAll_levels known lower upper
    (fun one member => (mem_tagCommander_tagHierarchy member).1) found holds
  refine ⟨next, done, ⟨_, holds', fun node member logIdx inside => ?_⟩, unchanged⟩
  have selected := label_mem_tagCommander distinct dotFree (by decide : StatCmd.logLevel ≠ .noCmd)
    closed member
  rw [levelInForce_concat, setLevels]
  unfold LogEvent.setsLevel
  simp only [selected]
  split
  · rw [inForce node member logIdx inside]
  · exact inForce node member logIdx inside

/-! ### Calls of `getLog` -/

variable {statTagToType : Tag → StatType Sample} {statTagTree : LabelTree Tag} {mem₁ mem : Mem}

/-- The level that the operational process reads. -/
theorem getLevel_stored (mem₀ : Mem) (distinct : logTagTree.labels.Nodup)
    (stored : LevelsStored name logTagTree
      (LogStatBase.init statTagToType false statTagTree logTagTree mem₁).theLogs history mem)
    {node : LabelTree.Node Tag} (member : node ∈ logTagTree.nodes) {logIdx : Nat}
    (inside : logIdx < sizeofLogControlStorage) :
    ∃ placed, getHandle
        (LogStatBase.init statTagToType true statTagTree logTagTree mem₀).theLogs node.label =
          some placed ∧
      placed.item.getLevel placed.offset mem logIdx =
        some (levelInForce name history node logIdx).toByte := by
  obtain ⟨levels, holds, inForce⟩ := stored
  have tags := LogStatBase.map_tag_theLogs statTagToType statTagTree logTagTree true mem₀
  have known : node.label ∈ logTagTree.labels := by
    rw [← LabelTree.map_label_nodes]
    exact List.mem_map_of_mem member
  obtain ⟨placed, member', tag, handle⟩ := exists_getHandle tags distinct known
  obtain ⟨other, control, key, offset, -⟩ := exists_same_place
    (LogStatBase.map_key_theLogs statTagToType statTagTree logTagTree true mem₀ mem₁) member'
  have tag' : other.item.tag = placed.item.tag := congrArg Prod.fst key
  refine ⟨placed, handle, ?_⟩
  have level := holds other control logIdx inside
  rw [offset, tag', tag, inForce node member logIdx inside] at level
  unfold LogStatNode.getLevel LogOpProxy.getLevel
  simp only [nodeClass_theLogs member', if_true, if_pos inside, level]

/-- A text reaches `writeData` through an enabled proxy only. -/
theorem LogGenProxy.destroy_insert (proxy : LogGenProxy) (fresh : proxy.text = "") (value : String) :
    (proxy.insert value).destroy =
      if proxy.enabled ∧ value ≠ "" then some (value, proxy.tagName, proxy.logLevelName)
      else none := by
  unfold insert destroy
  cases enabled : proxy.enabled with
  | false => simp [fresh]
  | true =>
    by_cases empty : value = ""
    · simp [fresh, empty]
    · simp [fresh, empty]

/-- **`getLog` compares with the level in force.** -/
theorem getLog_stored (mem₀ : Mem) (distinct : logTagTree.labels.Nodup)
    (stored : LevelsStored name logTagTree
      (LogStatBase.init statTagToType false statTagTree logTagTree mem₁).theLogs history mem)
    {node : LabelTree.Node Tag} (member : node ∈ logTagTree.nodes) {logIdx : Nat}
    (inside : logIdx < sizeofLogControlStorage) (exists' : logIdx < loggers) (logLevel : LogLevel) :
    LogStatOperational.getLog name
        (LogStatBase.init statTagToType true statTagTree logTagTree mem₀).theLogs loggers mem
        node.label logLevel logIdx =
      some {
        loggerIdx := logIdx
        enabled := (levelInForce name history node logIdx).toByte ≤ logLevel.toByte
        tagName := name node.label
        logLevelName := logLevel.levelName } := by
  obtain ⟨placed, handle, level⟩ := getLevel_stored mem₀ distinct stored member inside
  unfold LogStatOperational.getLog
  rw [handle, Option.bind_eq_bind, Option.bind_some, level, Option.bind_eq_bind, Option.bind_some,
    if_pos exists']

/-! ### Whole runs -/

omit [DecidableEq Tag] in
/-- After `init` of both processes every level is INFO. -/
theorem levelsStored_init (statTagToType : Tag → StatType Sample)
    (statTagTree logTagTree : LabelTree Tag) (mem : Mem) :
    LevelsStored name logTagTree
      (LogStatBase.init statTagToType false statTagTree logTagTree
        (LogStatBase.init statTagToType true statTagTree logTagTree mem).mem).theLogs []
      (LogStatBase.init statTagToType true statTagTree logTagTree mem).mem := by
  refine ⟨fun _ _ => .info, fun placed member logIdx inside => ?_, fun _ _ _ _ => rfl⟩
  obtain ⟨other, member', -, offset, -⟩ := exists_same_place
    (LogStatBase.map_key_theLogs statTagToType statTagTree logTagTree true mem _).symm member
  rw [← offset]
  exact mem_init_info mem member' inside

/-- **Log levels over whole runs.** Any commands on paths that do not end in a dot, and any calls of
`getLog`, run to their end; afterwards the level in force decides for every tag and every logger. -/
theorem level_run (name : Tag → List Char) (statTagToType : Tag → StatType Sample)
    (statTagTree logTagTree : LabelTree Tag) (loggers : Nat) (distinct : logTagTree.labels.Nodup)
    (dotFree : ∀ tag ∈ logTagTree.labels, '.' ∉ name tag) (mem : Mem)
    {operational control : LogStat Tag Sample}
    (started : operational = LogStatBase.init statTagToType true statTagTree logTagTree mem)
    (started' : control =
      LogStatBase.init statTagToType false statTagTree logTagTree operational.mem)
    {history : List (LogEvent Tag)} (proper : ∀ event ∈ history, event.Proper logTagTree loggers) :
    ∃ final, run (logStep name logTagTree loggers operational control) control.mem history =
        some final ∧
      LevelsShown name logTagTree loggers operational control final (levelInForce name history) := by
  have known : ControlLogs control.theLogs := by
    rw [started']
    exact controlLogs_init distinct operational.mem
  have nodes : NodesOf logTagTree control.theLogs := by
    rw [started']
    exact LogStatBase.map_tag_theLogs statTagToType statTagTree logTagTree false operational.mem
  suffices stored : ∃ final,
      run (logStep name logTagTree loggers operational control) control.mem history = some final ∧
        LevelsStored name logTagTree control.theLogs history final by
    obtain ⟨final, runs, stored⟩ := stored
    have stored' := stored
    rw [started'] at stored'
    refine ⟨final, runs, fun node member logIdx inside => ?_,
      fun node member logIdx inside exists' logLevel value => ?_, fun path cmdArg command none => ?_⟩
    · obtain ⟨placed, handle, level⟩ := getLevel_stored mem distinct stored' member inside
      rw [started]
      refine ⟨placed, handle, level, ?_⟩
      cases levelInForce name history node logIdx <;> decide
    · have proxy := getLog_stored mem distinct stored' member inside exists' logLevel
      rw [started]
      refine ⟨_, proxy, ?_⟩
      rw [LogGenProxy.destroy_insert _ rfl]
      simp only [decide_eq_true_eq]
    · obtain ⟨next, done, -, unchanged⟩ :=
        levelsStored_command distinct dotFree known nodes operational command stored
      rw [done, unchanged none]
  induction history using List.reverseRecOn with
  | nil =>
    refine ⟨control.mem, rfl, ?_⟩
    rw [started', mem_init_control, started]
    exact levelsStored_init statTagToType statTagTree logTagTree mem
  | append_singleton history event ih =>
    obtain ⟨before, earlier, stored⟩ :=
      ih fun other member => proper other (List.mem_append_left _ member)
    have promised := proper event (List.mem_append_right _ List.mem_cons_self)
    cases event with
    | logLevel path cmdArg =>
      obtain ⟨next, done, stored', -⟩ :=
        levelsStored_command distinct dotFree known nodes operational promised stored
      exact ⟨next, (run_concat _).mpr ⟨before, earlier, done⟩, stored'⟩
    | getLog logTag logLevel logIdx =>
      obtain ⟨known, inside, exists'⟩ := promised
      rw [← LabelTree.map_label_nodes] at known
      obtain ⟨node, member, rfl⟩ := List.mem_map.mp known
      have stored' := stored
      rw [started'] at stored'
      have proxy := getLog_stored mem distinct stored' member inside exists' logLevel
      rw [← started] at proxy
      refine ⟨before, (run_concat _).mpr ⟨before, earlier, ?_⟩, ?_⟩
      · rw [logStep, proxy, Option.map_some]
      · obtain ⟨levels, holds, inForce⟩ := stored
        refine ⟨levels, holds, fun node member logIdx inside => ?_⟩
        rw [levelInForce_concat]
        exact inForce node member logIdx inside

end

/-- No stats to speak of. -/
def onlyNull : Nat → StatType Nat := fun _ => .element .nullStat

def nullTree : LabelTree Nat := .parent 0 [.leaf 1]

/-- The root's level is set to ALERT for the first logger, and its child's shown. -/
def alertHistory : List (LogEvent Nat) :=
  [.logLevel ['a'] ⟨true, 0, "ALERT"⟩, .getLog 1 .info 0, .logLevel ['a', '.', 'b'] ⟨false, 0, ""⟩]

def alertOperational : LogStat Nat Nat :=
  LogStatBase.init onlyNull true nullTree repeatedNames fun _ => 0

def alertControl : LogStat Nat Nat :=
  LogStatBase.init onlyNull false nullTree repeatedNames alertOperational.mem

theorem level_run_alert : ∃ final,
    run (logStep repeatedName repeatedNames 1 alertOperational alertControl) alertControl.mem
        alertHistory = some final ∧
      LevelsShown repeatedName repeatedNames 1 alertOperational alertControl final
        (levelInForce repeatedName alertHistory) := by
  refine level_run repeatedName onlyNull nullTree repeatedNames 1 (by decide) (by decide) _ rfl rfl ?_
  intro event member
  simp only [alertHistory, List.mem_cons, List.not_mem_nil, or_false] at member
  rcases member with rfl | rfl | rfl
  · exact ⟨by decide, by decide, by decide⟩
  · exact ⟨by decide, by decide, by decide⟩
  · exact ⟨by decide, by decide, by decide⟩

end StatLog.Tags
