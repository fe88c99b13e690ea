/-
**The display of log levels, read back.**

`log-level` prints the selected logs as an outline, and below every log its level for one logger. Other
calls go on while the control process visits the tags, so that each of them has a history of its own.

* `LevelsShown`: a call of `log-level` that sets nothing, with the calls before each visit.
* `logNoteOf_logLevel`: a log answers with the level in force when it is visited.
* `parseUserCommands_logLevel_isSome`: such a call returns.
* `readLevel`: the reader of an answer.
* **`readDisplay_logLevel`**: the text gives the full names of the tags and these levels.
-/

import StatLog.Control.TagOutline
import StatLog.Tags.LevelsInForce

namespace StatLog.Control

open ByteMemory Outline RoseTree Stats Tags Transition

/-! ### The reader of a level -/

/-- What the console prints in front of a level. -/
def levelTitle : String := "log level = "

/-- **The reader of an answer.** -/
def readLevel (note : List Char) : Option LogLevel :=
  [LogLevel.debug, .info, .alert, .error].find? fun level =>
    note = (levelTitle ++ level.levelName).toList

theorem readLevel_levelName (level : LogLevel) :
    readLevel (levelTitle ++ level.levelName).toList = some level := by
  cases level <;> decide

theorem newline_notMem_level (level : LogLevel) : '\n' ∉ (levelTitle ++ level.levelName).toList := by
  cases level <;> decide

/-! ### The visits -/

section

variable {Tag Sample : Type} [DecidableEq Tag] {name : Tag → List Char}
  {call : UserCommands Tag Sample} {desc : TagDisplayDesc} {loggers logIdx : Nat} {mem₀ : Mem}
  {before : Tag → List (TagCall Tag Sample)}

/-- **A call that shows levels.** The shared memory that it finds at a tag is the one left by the calls
so far, from the start of the operational process. -/
structure LevelsShown (name : Tag → List Char) (call : UserCommands Tag Sample) (loggers logIdx : Nat)
    (mem₀ : Mem) (before : Tag → List (TagCall Tag Sample)) : Prop where
  command : call.cmd = .logLevel
  argument : call.cmdArg = ⟨false, logIdx, ""⟩
  inside : logIdx < sizeofLogControlStorage
  compiles : ∀ tag ∈ call.object.logTagTree.labels, ∀ tagCall ∈ before tag,
    tagCall.Compiles call.object.statTagTree call.object.logTagTree
  found : ∀ tag ∈ call.object.logTagTree.labels, ∃ state,
    let operational := LogStatBase.init call.object.statTagToType true call.object.statTagTree
      call.object.logTagTree mem₀
    run (callStep name loggers operational call.object.control) (fun _ _ => [], operational.mem)
      (before tag) = some state ∧ call.found 0 (.log tag) = state.2

/-- **What one visit comes to.** -/
theorem LevelsShown.sendLogCommand (shown : LevelsShown name call loggers logIdx mem₀ before)
    {tagInfo : TagInfo Tag} (known : tagInfo.tagIndex ∈ call.object.logTagTree.labels) :
    LogStatControl.sendLogCommand call.object.theLogs call.cmdArg (call.found 0 (.log tagInfo.tagIndex))
        (tagInfo, call.cmd) =
      some (call.found 0 (.log tagInfo.tagIndex),
        levelTitle ++ (levelOf (before tagInfo.tagIndex) tagInfo.tagIndex logIdx).levelName) := by
  obtain ⟨state, runs, memory⟩ := shown.found _ known
  have holds := holdsLevels_of_calls call.object.distinctStats call.object.distinctLogs
    (shown.compiles _ known) runs
  rw [← memory] at holds
  obtain ⟨placed, member, tag, -⟩ := exists_getHandle
    (LogStatBase.map_tag_theLogs call.object.statTagToType call.object.statTagTree
      call.object.logTagTree false call.object.mem) call.object.distinctLogs known
  rw [shown.command, shown.argument]
  have sends := sendLogCommand_show (controlLogs_init call.object.distinctLogs call.object.mem) holds
    member tag.symm shown.inside
  rw [tag] at sends
  exact sends

/-- **A log answers with the level in force when it is visited.** -/
theorem logNoteOf_logLevel (shown : LevelsShown name call loggers logIdx mem₀ before)
    {node : LabelTree.Node Tag} (inside : node ∈ call.object.logTagTree.nodes) :
    call.logNoteOf name node =
      some (levelTitle ++ (levelOf (before node.label) node.label logIdx).levelName) := by
  have known : node.label ∈ call.object.logTagTree.labels := by
    rw [← LabelTree.map_label_nodes]
    exact List.mem_map_of_mem inside
  have visit : LogStatControl.sendLogCommand call.object.theLogs call.cmdArg
      (call.found 0 (.log node.label)) (sentTo name call.cmd 0 node) = some (_, _) :=
    shown.sendLogCommand known
  unfold UserCommands.logNoteOf UserCommands.logShown UserCommands.logDisplay
  show logNote call.cmd ⟨_, ((LogStatControl.sendLogCommand _ _ (call.found 0 (.log node.label)) _).map
    Prod.snd).getD ""⟩ = _
  rw [visit, shown.command]
  rfl

/-- **Such a call returns.** -/
theorem parseUserCommands_logLevel_isSome (shown : LevelsShown name call loggers logIdx mem₀ before)
    (single : call.tagDispDescs = [desc]) (printer : Printer Tag) :
    (parseUserCommands name printer call).isSome := by
  unfold parseUserCommands
  rw [single]
  apply run_isSome
  intro numbered member next
  obtain rfl := List.mem_singleton.mp member
  have stats : ∀ printer : Printer Tag, call.parseStats name (desc, 0) printer = some printer := by
    intro printer
    exact if_neg (by rw [shown.command]; exact Bool.false_ne_true)
  unfold UserCommands.parseDesc
  rw [stats, Option.bind_eq_bind, Option.bind_some]
  unfold UserCommands.parseLogs
  rw [if_pos (by rw [shown.command]; rfl), if_neg (by rw [shown.command]; decide)]
  refine run_isSome (call.sendLog 0) fun sent member before => ?_
  obtain ⟨command, known⟩ := mem_tagCommander_tagHierarchy member
  have visit := shown.sendLogCommand known
  rw [← command] at visit
  unfold UserCommands.sendLog
  rw [visit]
  rfl

end

variable {Tag Sample : Type} [DecidableEq Tag]

/-- **What `log-level` prints is read back.** The text gives the full names of exactly the logs that the
path denotes, in pre-order, and for each of them the level that was in force when it was visited. -/
theorem readDisplay_logLevel (name : Tag → List Char) {call : UserCommands Tag Sample}
    {desc : TagDisplayDesc} (single : call.tagDispDescs = [desc]) {loggers logIdx : Nat} {mem₀ : Mem}
    {before : Tag → List (TagCall Tag Sample)}
    (shown : LevelsShown name call loggers logIdx mem₀ before)
    (closed : desc.tagHname.getLast? ≠ some '.')
    (stats : ReadableTree name call.object.statTagTree)
    (logs : ReadableTree name call.object.logTagTree) :
    ∃ printer lines, parseUserCommands name {} call = some printer ∧ printer.showOutput = some lines ∧
      let text := readDisplay (textOf lines)
      text.1 = [] ∧
        text.2.map (fun tag => (pathAbove desc.tagHname ++ tag.route, tag.note.bind readLevel)) =
          (denotedNodes name call.object.logTagTree desc.tagHname).map fun node =>
            (node.route.map name, some (levelOf (before node.label) node.label logIdx)) := by
  obtain ⟨printer, runs⟩ := Option.isSome_iff_exists.mp
    (parseUserCommands_logLevel_isSome shown single {})
  have printed := parseUserCommands_single single stats.dotFree logs.dotFree closed
    (by rw [shown.command]; decide) runs
  have statNodes : call.statNodes name desc = [] :=
    if_neg (by rw [shown.command]; exact Bool.false_ne_true)
  have logNodes : call.logNodes name desc =
      denotedNodes name call.object.logTagTree desc.tagHname := if_pos (by rw [shown.command]; rfl)
  obtain ⟨lines, shows, read⟩ := readDisplay_showOutput printed (Or.inr (Or.inr shown.command)) stats logs
    (fun node member note noted => by rw [statNodes] at member; cases member)
    (fun node member note noted => by
      rw [logNoteOf_logLevel shown (mem_nodes_of_logNodes member)] at noted
      obtain rfl := Option.some.inj noted
      exact newline_notMem_level _)
  refine ⟨printer, lines, runs, shows, ?_⟩
  rw [read, statNodes, logNodes]
  refine ⟨rfl, ?_⟩
  dsimp only
  rw [List.map_map]
  refine List.map_congr_left fun node member => ?_
  have whole := (forestBelow_denoted logs.dotFree desc.tagHname).append_drop member
  have answer : call.logNoteOf name node = _ := logNoteOf_logLevel shown (List.mem_filter.mp member).1
  show (pathAbove desc.tagHname ++ (node.route.map name).drop (pathAbove desc.tagHname).length,
    ((call.logNoteOf name node).map String.toList).bind readLevel) = _
  rw [whole, answer]
  exact congrArg _ (readLevel_levelName _)

end StatLog.Control
