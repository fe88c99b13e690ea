/-
**Calls under the tags of a log stat.**

Writes, serializer visits, commands and `getLog` all look for the node of a tag first. This module has
them as the steps of one system: the accumulators of the operational process and the memory that it
shares with the control processes.

* `TagCall`, `callStep`: one such call, by any thread of any process.
* `sendStatCommands_eq_run`, `sendAll_eq_run`: a command is a run of calls.
* **`callStep_writeStat`, `callStep_doSerialize`, `callStep_statCommand`**: a call under a tag of a stat
  is an operation of that stat.
* `callStep_logLevel`, `getLog_of_holdsLevels`: calls under a tag of a log.
* `mem_init_zero`: the stats of a fresh log stat are zero.
-/

import StatLog.Stats.StepLocal
import StatLog.Tags.ClearStat
import StatLog.Tags.LogLevel
import StatLog.Tags.WriteStat

namespace StatLog.Tags

open ByteMemory Placement RoseTree Stats Transition

variable {Tag Sample : Type}

/-- **One call under a tag**: `writeStat`, `doSerialize` and `getLog` in the operational process,
`sendCommand` with a command for stats or with LOG_LEVEL in a control process. -/
inductive TagCall (Tag Sample : Type)
  | writeStat (statTag : Tag) (indices : List Int) (value : Sample)
  | doSerialize (statTag : Tag)
  | statCommand (info : TagInfo Tag) (cmd : StatCmd)
  | logLevel (info : TagInfo Tag) (cmdArg : LogLevelCommand)
  | getLog (logTag : Tag) (logLevel : LogLevel) (logIdx : Nat)

section

variable [DecidableEq Tag] (name : Tag → List Char) (loggers : Nat)
  (operational control : LogStat Tag Sample)

/-- **What it does** to the accumulators and the shared memory; nothing remains of a process that
exits, or whose assertion fails. -/
def callStep (state : OpState Tag Sample) : TagCall Tag Sample → Option (OpState Tag Sample)
  | .writeStat statTag indices value =>
    LogStatOperational.writeStat operational.theStats state.1 state.2 statTag indices value
  | .doSerialize statTag =>
    (getHandle operational.theStats statTag).map fun placed =>
      (state.1, LogStatOperational.serializeNode state.1 state.2 placed)
  | .statCommand info cmd =>
    (LogStatControl.sendStatCommand control.theStats state.2 (info, cmd)).map fun next =>
      (state.1, next.1)
  | .logLevel info cmdArg =>
    (LogStatControl.sendLogCommand control.theLogs cmdArg state.2 (info, .logLevel)).map fun next =>
      (state.1, next.1)
  | .getLog logTag logLevel logIdx =>
    (LogStatOperational.getLog name operational.theLogs loggers state.2 logTag logLevel logIdx).map
      fun _ => state

/-- **A command for stats is a run of calls**, one for each tag that its path selects. -/
theorem sendStatCommands_eq_run (accums : Tag → Accums Sample) (sent : List (TagInfo Tag × StatCmd))
    (mem : Mem) :
    (LogStatControl.sendStatCommands control.theStats sent mem).map (fun next => (accums, next)) =
      run (callStep name loggers operational control) (accums, mem)
        (sent.map fun sent => .statCommand sent.1 sent.2) := by
  induction sent generalizing mem with
  | nil => rfl
  | cons first rest ih =>
    rw [List.map_cons, run, LogStatControl.sendStatCommands]
    show _ = ((LogStatControl.sendStatCommand control.theStats mem first).map _).bind _
    cases LogStatControl.sendStatCommand control.theStats mem first with
    | none => rfl
    | some next => exact ih next.1

/-- **So is LOG_LEVEL.** -/
theorem sendAll_eq_run (accums : Tag → Accums Sample) (cmdArg : LogLevelCommand)
    (infos : List (TagInfo Tag)) (mem : Mem) :
    (LogStatControl.sendAll control.theLogs cmdArg (infos.map fun info => (info, .logLevel)) mem).map
        (fun next => (accums, next)) =
      run (callStep name loggers operational control) (accums, mem)
        (infos.map fun info => .logLevel info cmdArg) := by
  induction infos generalizing mem with
  | nil => rfl
  | cons first rest ih =>
    rw [List.map_cons, List.map_cons, run, LogStatControl.sendAll]
    show _ = ((LogStatControl.sendLogCommand control.theLogs cmdArg mem (first, .logLevel)).map _).bind _
    cases LogStatControl.sendLogCommand control.theLogs cmdArg mem (first, .logLevel) with
    | none => rfl
    | some next => exact ih next.1

end

/-- What the compiler makes sure of: the node exists, and a write is to a stat. -/
def TagCall.Compiles (statTagTree logTagTree : LabelTree Tag) : TagCall Tag Sample → Prop
  | .writeStat statTag _ _ => statTag ∈ statTagTree.leavesBelow
  | .doSerialize statTag => statTag ∈ statTagTree.labels
  | .statCommand info _ => info.tagIndex ∈ statTagTree.labels
  | .logLevel info _ => info.tagIndex ∈ logTagTree.labels
  | .getLog logTag _ _ => logTag ∈ logTagTree.labels

instance [DecidableEq Tag] (statTagTree logTagTree : LabelTree Tag) (call : TagCall Tag Sample) :
    Decidable (call.Compiles statTagTree logTagTree) := by
  cases call <;> exact List.instDecidableMemOfLawfulBEq _ _

/-! ### Calls under the tag of a stat -/

section

variable [DecidableEq Tag] {name : Tag → List Char} {loggers : Nat}
  {operational control : LogStat Tag Sample} {placed : PlacedNode Tag Sample} {type : StatType Sample}

/-- With other bytes only. -/
theorem withStat_mem (statTag : Tag) (state : OpState Tag Sample) (mem : Mem) :
    withStat statTag state ⟨state.1 statTag, mem⟩ = (state.1, mem) := by
  refine Prod.ext ?_ rfl
  funext tag
  show (if tag = statTag then state.1 statTag else state.1 tag) = state.1 tag
  split
  case isTrue same => rw [same]
  case isFalse => rfl

theorem callStep_writeStat {statTag : Tag} (found : getHandle operational.theStats statTag = some placed)
    (stat : placed.item.nodeClass = .opStat type) (state : OpState Tag Sample) (indices : List Int)
    (value : Sample) :
    callStep name loggers operational control state (.writeStat statTag indices value) =
      (type.step placed.offset (statOf statTag state) (.write indices value)).map
        (withStat statTag state) :=
  LogStatOperational.writeStat_eq_step found stat state indices value

theorem callStep_doSerialize {statTag : Tag}
    (found : getHandle operational.theStats statTag = some placed) (tag : placed.item.tag = statTag)
    (stat : placed.item.nodeClass = .opStat type) (state : OpState Tag Sample) :
    callStep name loggers operational control state (.doSerialize statTag) =
      (type.step placed.offset (statOf statTag state) .serialize).map (withStat statTag state) := by
  have visit : LogStatOperational.serializeNode state.1 state.2 placed =
      OperationalStatProxy.serialize type (state.1 statTag) state.2 placed.offset := by
    unfold LogStatOperational.serializeNode LogStatNode.doSerialize
    rw [stat, tag]
  show (getHandle operational.theStats statTag).map _ = some (withStat statTag state
    ⟨state.1 statTag, OperationalStatProxy.serialize type (state.1 statTag) state.2 placed.offset⟩)
  rw [found, withStat_mem, Option.map_some, visit]

theorem callStep_statCommand {info : TagInfo Tag}
    (found : getHandle control.theStats info.tagIndex = some placed)
    (stat : placed.item.nodeClass = .controlStat type) (state : OpState Tag Sample) (cmd : StatCmd) :
    callStep name loggers operational control state (.statCommand info cmd) =
      (type.step placed.offset (statOf info.tagIndex state) (.command cmd)).map
        (withStat info.tagIndex state) := by
  have command : placed.item.doCommand placed.offset cmd state.2 =
      ControlStatProxy.doCommand type placed.offset cmd state.2 {} := by
    unfold LogStatNode.doCommand
    rw [stat]
  have sends : LogStatControl.sendStatCommand control.theStats state.2 (info, cmd) =
      some (placed.item.doCommand placed.offset cmd state.2) := by
    unfold LogStatControl.sendStatCommand
    rw [found]
    rfl
  show (LogStatControl.sendStatCommand control.theStats state.2 (info, cmd)).map _ =
    some (withStat info.tagIndex state ⟨state.1 info.tagIndex,
      (ControlStatProxy.doCommand type placed.offset cmd state.2 {}).1⟩)
  rw [sends, withStat_mem, Option.map_some, command]

/-- Nothing happens under the tag of a parent. -/
theorem callStep_parent {statTag : Tag} (found : getHandle operational.theStats statTag = some placed)
    (parent : placed.item.nodeClass = .statParent) (state : OpState Tag Sample) :
    callStep name loggers operational control state (.doSerialize statTag) = some state := by
  have visit : LogStatOperational.serializeNode state.1 state.2 placed = state.2 := by
    unfold LogStatOperational.serializeNode LogStatNode.doSerialize
    rw [parent]
  show (getHandle operational.theStats statTag).map _ = _
  rw [found, Option.map_some, visit]

theorem callStep_parent_command {info : TagInfo Tag}
    (found : getHandle control.theStats info.tagIndex = some placed)
    (parent : placed.item.nodeClass = .statParent) (state : OpState Tag Sample) (cmd : StatCmd) :
    callStep name loggers operational control state (.statCommand info cmd) = some state := by
  have command : placed.item.doCommand placed.offset cmd state.2 = (state.2, {}) := by
    unfold LogStatNode.doCommand
    rw [parent]
  show (LogStatControl.sendStatCommand control.theStats state.2 (info, cmd)).map _ = _
  unfold LogStatControl.sendStatCommand
  rw [found]
  show some (state.1, (placed.item.doCommand placed.offset cmd state.2).1) = _
  rw [command]

end

/-! ### Calls under the tag of a log -/

section

variable [DecidableEq Tag] {name : Tag → List Char} {loggers : Nat}
  {operational control : LogStat Tag Sample} {levels : Tag → Nat → LogLevel}

/-- A command for a logger index out of range ends the process. -/
theorem LogControlProxy.doCommand_outOfRange {cmdArg : LogLevelCommand}
    (outside : ¬ (0 ≤ cmdArg.loggerIdx ∧ cmdArg.loggerIdx < sizeofLogControlStorage)) (ptr : Nat)
    (mem : Mem) (logOutput : String) :
    LogControlProxy.doCommand ptr .logLevel cmdArg mem logOutput = none := by
  unfold doCommand
  rw [if_neg (by decide), if_pos rfl, if_neg outside]

/-- **LOG_LEVEL for one tag.** -/
theorem callStep_logLevel (known : ControlLogs control.theLogs) {state : OpState Tag Sample}
    (holds : HoldsLevels control.theLogs state.2 levels) {placed : PlacedNode Tag Sample}
    (member : placed ∈ control.theLogs) {info : TagInfo Tag} (tag : info.tagIndex = placed.item.tag)
    (cmdArg : LogLevelCommand) :
    callStep name loggers operational control state (.logLevel info cmdArg) =
      if 0 ≤ cmdArg.loggerIdx ∧ cmdArg.loggerIdx < sizeofLogControlStorage then
        some (state.1, cmdArg.apply placed.offset state.2)
      else none := by
  have handle := getHandle_of_mem known.single member
  have sends : LogStatControl.sendLogCommand control.theLogs cmdArg state.2 (info, .logLevel) =
      LogControlProxy.doCommand placed.offset .logLevel cmdArg state.2 "" := by
    unfold LogStatControl.sendLogCommand LogStatNode.doLogCommand
    rw [tag, handle, Option.bind_eq_bind, Option.bind_some]
    simp only [known.loggers placed member]
  show (LogStatControl.sendLogCommand control.theLogs cmdArg state.2 (info, .logLevel)).map _ = _
  rw [sends]
  split
  case isTrue inside =>
    have stored := holds placed member cmdArg.loggerIdx.toNat (by omega)
    obtain ⟨text, done⟩ := LogControlProxy.doCommand_logLevel inside.1 inside.2 stored ""
    rw [done, Option.map_some]
  case isFalse outside => rw [LogControlProxy.doCommand_outOfRange outside, Option.map_none]

/-- **What LOG_LEVEL shows** when it sets nothing. -/
theorem sendLogCommand_show (known : ControlLogs control.theLogs) {mem : Mem}
    (holds : HoldsLevels control.theLogs mem levels) {placed : PlacedNode Tag Sample}
    (member : placed ∈ control.theLogs) {info : TagInfo Tag} (tag : info.tagIndex = placed.item.tag)
    {logIdx : Nat} (inside : logIdx < sizeofLogControlStorage) :
    LogStatControl.sendLogCommand control.theLogs ⟨false, logIdx, ""⟩ mem (info, .logLevel) =
      some (mem, "log level = " ++ (levels placed.item.tag logIdx).levelName) := by
  have handle := getHandle_of_mem known.single member
  have stored := holds placed member logIdx inside
  have shown := (levels placed.item.tag logIdx).getElem?_logLevelNames
  rw [← stored] at shown
  unfold LogStatControl.sendLogCommand LogStatNode.doLogCommand
  rw [tag, handle, Option.bind_eq_bind, Option.bind_some]
  simp only [known.loggers placed member]
  unfold LogControlProxy.doCommand
  rw [if_neg (by decide), if_pos rfl, if_pos ⟨Int.natCast_nonneg _, Int.ofNat_lt.mpr inside⟩]
  simp only [Bool.false_eq_true, if_false, Int.toNat_natCast]
  rw [shown]
  rfl

end

section

variable [DecidableEq Tag] {name : Tag → List Char} {loggers : Nat}
  {statTagToType : Tag → StatType Sample} {statTagTree logTagTree : LabelTree Tag} {mem₁ mem : Mem}
  {levels : Tag → Nat → LogLevel}

/-- **`getLog` compares with the stored level.** -/
theorem getLog_of_holdsLevels (mem₀ : Mem) (distinct : logTagTree.labels.Nodup)
    (holds : HoldsLevels
      (LogStatBase.init statTagToType false statTagTree logTagTree mem₁).theLogs mem levels)
    {logTag : Tag} (known : logTag ∈ logTagTree.labels) (logLevel : LogLevel) (logIdx : Nat) :
    LogStatOperational.getLog name
        (LogStatBase.init statTagToType true statTagTree logTagTree mem₀).theLogs loggers mem
        logTag logLevel logIdx =
      if logIdx < sizeofLogControlStorage ∧ logIdx < loggers then some {
        loggerIdx := logIdx
        enabled := (levels logTag logIdx).toByte ≤ logLevel.toByte
        tagName := name logTag
        logLevelName := logLevel.levelName }
      else none := by
  have tags := LogStatBase.map_tag_theLogs statTagToType statTagTree logTagTree true mem₀
  obtain ⟨placed, member, tag, handle⟩ := exists_getHandle tags distinct known
  obtain ⟨other, control, key, offset, -⟩ := exists_same_place
    (LogStatBase.map_key_theLogs statTagToType statTagTree logTagTree true mem₀ mem₁) member
  have tag' : other.item.tag = placed.item.tag := congrArg Prod.fst key
  have level : placed.item.getLevel placed.offset mem logIdx =
      if logIdx < sizeofLogControlStorage then some (mem (placed.offset + logIdx)) else none := by
    unfold LogStatNode.getLevel LogOpProxy.getLevel
    simp only [nodeClass_theLogs member, if_true]
  unfold LogStatOperational.getLog
  rw [handle, Option.bind_eq_bind, Option.bind_some, level]
  by_cases inside : logIdx < sizeofLogControlStorage
  · have stored := holds other control logIdx inside
    rw [offset, tag', tag] at stored
    rw [if_pos inside, Option.bind_eq_bind, Option.bind_some, stored]
    by_cases exists' : logIdx < loggers
    · rw [if_pos exists', if_pos ⟨inside, exists'⟩]
    · rw [if_neg exists', if_neg fun both => exists' both.2]
  · rw [if_neg inside, if_neg fun both => inside both.1]
    rfl

omit [DecidableEq Tag] in
/-- **A fresh log stat holds zeros** where its stats are. -/
theorem mem_init_zero (mem : Mem) {placed : PlacedNode Tag Sample}
    (member : placed ∈ (LogStatBase.init statTagToType true statTagTree logTagTree mem).theStats) :
    AgreeOn placed.offset placed.item.getSharedSize
      (LogStatBase.init statTagToType true statTagTree logTagTree mem).mem fun _ => 0 := by
  have silent : ∀ node ∈ tagListCreator statTagToType true true (tagHierarchy statTagTree),
      ∀ ptr (mem : Mem), node.setSharedPtr ptr mem = mem := by
    intro node known ptr mem
    obtain ⟨subtree, -, same⟩ := exists_nodeOf known
    rw [← same]
    cases subtree <;> rfl
  intro address lower upper
  unfold LogStatBase.init at member ⊢
  simp only [(LogStatBase.setShmPointers_eq _ _ _).1] at member
  have ends := end_le_of_mem_place member
  have sizes := LogStatBase.addShmSizes_eq 0
    (tagListCreator statTagToType true true (tagHierarchy statTagTree))
  have more := LogStatBase.addShmSizes_eq
    (LogStatBase.addShmSizes 0 (tagListCreator statTagToType true true (tagHierarchy statTagTree)))
    (tagListCreator statTagToType true false (tagHierarchy logTagTree))
  simp only
  -- The logs stand behind the stats, and the stats change nothing.
  rw [setShmPointers_below _ (by rw [(LogStatBase.setShmPointers_eq _ _ _).2]; omega),
    setShmPointers_control silent]
  unfold LogStatBase.setParams
  rw [if_pos rfl]
  rw [← Nat.zero_add address]
  exact Mem.write_replicate_of_lt mem 0 0 (by omega)

end

end StatLog.Tags
