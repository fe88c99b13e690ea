/-
**Command lines of the control process.**

`parseCommandLineArgs` makes a command out of the options, and `parseUserCommands` sends it to the tags of
every descriptor. Of several commands the first one of a fixed order counts.

* `VariablesMap`, `parseCommandLineArgs`: the source's function, on the options as they are stored.
* `UserCommands.tagCalls`: the calls under tags that a command line makes.
* `levelOf_append`: a stretch of calls that sets a level to one value only.
* **`logLevel_setShown`**: the level that one command line sets is the one that another one prints.
* `exists_callStep`: its calls can be taken wherever the levels of the logs are valid.
* **`commandLine_changes`**: what a command line may change, by its options.
-/

import StatLog.Control.LevelOutline
import StatLog.Logger.Read
import StatLog.Tags.AnyPath
import StatLog.Tags.Monitoring

namespace StatLog.Control

open ByteMemory Outline RoseTree Stats Tags Transition

/-! ### Options -/

/-- Digits for an `int` of at most this absolute value. -/
def intOfDigits (most : Nat) (digits : List Char) : Option Nat :=
  if digits ≠ [] ∧ digits.all Char.isDigit ∧ Nat.ofDigitChars 10 digits 0 ≤ most then
    some (Nat.ofDigitChars 10 digits 0)
  else none

/-- `boost::lexical_cast<int>`; `none` for `bad_lexical_cast`. -/
def lexicalCastInt : List Char → Option Int
  | '+' :: digits => (intOfDigits (2 ^ 31 - 1) digits).map Int.ofNat
  | '-' :: digits => (intOfDigits (2 ^ 31) digits).map fun number => -Int.ofNat number
  | digits => (intOfDigits (2 ^ 31 - 1) digits).map Int.ofNat

/-- The options behind `--output-log`. -/
structure LogOptions where
  outFile : Option String := none
  logIdx : Option Int := none
  noTag : Bool := false
  noTimeStamp : Bool := false
  noLogLevel : Bool := false
  excludeTags : Option (List (List UInt8)) := none
  excludeLogLevels : Option (List (List UInt8)) := none

/-- **The options of a command line**, as `po::store` leaves them. -/
structure VariablesMap where
  help : Bool := false
  showTags : Bool := false
  tags : Option (List (List Char)) := none
  dumpStats : Bool := false
  statTypes : Bool := false
  clearStats : Bool := false
  logLevel : Option (List (List Char)) := none
  outputLog : Option LogOptions := none

/-- `LogOutputCommand`, with the fields that `getLog` does not read. -/
structure OutputLogCommand extends Logger.LogOutputCommand where
  loggerIdx : Int := 0
  outputFilename : String := ""

/-- What `cmd_arg` holds. -/
inductive CommandArg
  | empty
  | logLevel (cmd : LogLevelCommand)
  | outputLog (cmd : OutputLogCommand)

/-- The arguments of `--log-level`: an index, and the new level if there are exactly two. -/
def logLevelCommand (argVec : List (List Char)) : LogLevelCommand :=
  let loggerIdx := (argVec.head?.bind lexicalCastInt).getD 0
  match argVec with
  | [_, newLogLevel] => ⟨true, loggerIdx, String.ofList newLogLevel⟩
  | _ => ⟨false, loggerIdx, ""⟩

/-- The options of `--output-log`. -/
def outputLogCommand (options : LogOptions) : OutputLogCommand where
  loggerIdx := options.logIdx.getD 0
  outputFilename := options.outFile.getD ""
  excludeTags := options.excludeTags.getD []
  excludeLogLevels := options.excludeLogLevels.getD []
  showTag := !options.noTag
  showTimeStamp := !options.noTimeStamp
  showLogLevel := !options.noLogLevel

/-- The command of the options, in the order of the source. -/
def VariablesMap.command (vm : VariablesMap) : StatCmd × CommandArg :=
  if vm.showTags then (.printTag, .empty)
  else if vm.statTypes then (.printStatType, .empty)
  else if vm.dumpStats then (.dumpStat, .empty)
  else if vm.clearStats then (.clearStat, .empty)
  else
    match vm.logLevel, vm.outputLog with
    | some argVec, _ => (.logLevel, .logLevel (logLevelCommand argVec))
    | none, some options => (.dumpLog, .outputLog (outputLogCommand options))
    | none, none => (.noCmd, .empty)

/-- **`parseCommandLineArgs`**; nothing remains of a process that shows its help and exits. -/
def parseCommandLineArgs (vm : VariablesMap) : Option (List TagDisplayDesc × StatCmd × CommandArg) :=
  if vm.help then none else some (tagDispDescs (vm.tags.getD []), vm.command)

/-- `boost::any_cast<LogLevelCommand>`, where it holds one. -/
def CommandArg.logLevelCommand : CommandArg → LogLevelCommand
  | .logLevel cmd => cmd
  | _ => {}

section

variable {Tag Sample : Type}

/-- The call of `parseUserCommands` for a command line. -/
def VariablesMap.userCommands (vm : VariablesMap) (object : ControlObject Tag Sample)
    (found : Nat → TagHandle Tag → Mem) : Option (UserCommands Tag Sample) :=
  (parseCommandLineArgs vm).map fun parsed =>
    { object := object
      tagDispDescs := parsed.1
      cmd := parsed.2.1
      cmdArg := parsed.2.2.logLevelCommand
      found := found }

/-- `--log-level` with these arguments is the command. -/
structure VariablesMap.AsksLogLevel (vm : VariablesMap) (argVec : List (List Char)) : Prop where
  help : vm.help = false
  showTags : vm.showTags = false
  statTypes : vm.statTypes = false
  dumpStats : vm.dumpStats = false
  clearStats : vm.clearStats = false
  logLevel : vm.logLevel = some argVec

theorem VariablesMap.AsksLogLevel.command {vm : VariablesMap} {argVec : List (List Char)}
    (asks : vm.AsksLogLevel argVec) : vm.command = (.logLevel, .logLevel (logLevelCommand argVec)) := by
  unfold VariablesMap.command
  rw [asks.showTags, asks.statTypes, asks.dumpStats, asks.clearStats, asks.logLevel]
  rfl

/-- The call for these arguments. -/
def VariablesMap.logLevelCall (vm : VariablesMap) (argVec : List (List Char))
    (object : ControlObject Tag Sample) (found : Nat → TagHandle Tag → Mem) : UserCommands Tag Sample where
  object := object
  tagDispDescs := tagDispDescs (vm.tags.getD [])
  cmd := .logLevel
  cmdArg := logLevelCommand argVec
  found := found

/-- **A command line that asks for log levels.** -/
theorem VariablesMap.AsksLogLevel.userCommands {vm : VariablesMap} {argVec : List (List Char)}
    (asks : vm.AsksLogLevel argVec) (object : ControlObject Tag Sample)
    (found : Nat → TagHandle Tag → Mem) :
    vm.userCommands object found = some (vm.logLevelCall argVec object found) := by
  unfold VariablesMap.userCommands parseCommandLineArgs
  rw [asks.help, asks.command]
  rfl

/-! ### Calls under tags -/

namespace UserCommands

variable (name : Tag → List Char) (call : UserCommands Tag Sample)

def statCalls (desc : TagDisplayDesc) : List (TagCall Tag Sample) :=
  if isStatisticCommand call.cmd then
    (call.statsSent name desc).map fun sent => .statCommand sent.1 sent.2
  else []

/-- A PRINT_TAG does nothing to a log but print its name. -/
def logCalls (desc : TagDisplayDesc) : List (TagCall Tag Sample) :=
  if call.cmd = .logLevel then (call.logsSent name desc).map fun sent => .logLevel sent.1 call.cmdArg
  else []

/-- **The calls under tags that a command line makes**, one descriptor after the other. -/
def tagCalls : List (TagCall Tag Sample) :=
  call.tagDispDescs.flatMap fun desc => call.statCalls name desc ++ call.logCalls name desc

end UserCommands

end

/-! ### What a stretch of calls sets -/

section

variable {Tag Sample : Type} {name : Tag → List Char}

/-- **The level behind a stretch of calls** that sets it to one value only. -/
theorem levelOf_append [DecidableEq Tag] {tag : Tag} {logIdx : Nat} {level : LogLevel}
    (earlier : List (TagCall Tag Sample)) {between : List (TagCall Tag Sample)}
    (single : ∀ tagCall ∈ between,
      tagCall.setsLevel tag logIdx = some level ∨ tagCall.setsLevel tag logIdx = none) :
    levelOf (earlier ++ between) tag logIdx =
      if ∃ tagCall ∈ between, tagCall.setsLevel tag logIdx = some level then level
      else levelOf earlier tag logIdx := by
  induction between using List.reverseRecOn with
  | nil =>
    rw [List.append_nil, if_neg]
    rintro ⟨tagCall, member, -⟩
    cases member
  | append_singleton between last ih =>
    have before := ih fun tagCall member => single tagCall (List.mem_append_left _ member)
    rw [← List.append_assoc, levelOf_concat, before]
    rcases single last (List.mem_append_right _ List.mem_cons_self) with sets | silent
    · rw [sets, Option.getD_some]
      exact (if_pos ⟨last, List.mem_append_right _ List.mem_cons_self, sets⟩).symm
    · have same : (∃ tagCall ∈ between ++ [last], tagCall.setsLevel tag logIdx = some level) ↔
          ∃ tagCall ∈ between, tagCall.setsLevel tag logIdx = some level := by
        constructor
        · rintro ⟨tagCall, member, sets⟩
          rcases List.mem_append.mp member with inside | one
          · exact ⟨tagCall, inside, sets⟩
          · obtain rfl := List.mem_singleton.mp one
            rw [silent] at sets
            cases sets
        · rintro ⟨tagCall, member, sets⟩
          exact ⟨tagCall, List.mem_append_left _ member, sets⟩
      rw [silent, Option.getD_none]
      simp only [same]

/-- The node is denoted by one of the descriptors. -/
def Selected (name : Tag → List Char) (call : UserCommands Tag Sample) (node : LabelTree.Node Tag) : Prop :=
  ∃ desc ∈ call.tagDispDescs, Denotes name desc.tagHname node

instance (name : Tag → List Char) (call : UserCommands Tag Sample) (node : LabelTree.Node Tag) :
    Decidable (Selected name call node) :=
  inferInstanceAs (Decidable (∃ desc ∈ call.tagDispDescs, Denotes name desc.tagHname node))

/-- **The calls of a LOG_LEVEL**: one for every log that a descriptor denotes. -/
theorem exists_logCall_iff {call : UserCommands Tag Sample} (command : call.cmd = .logLevel)
    (dotFree : ∀ tag ∈ call.object.logTagTree.labels, '.' ∉ name tag)
    (closed : ∀ desc ∈ call.tagDispDescs, desc.tagHname.getLast? ≠ some '.')
    {node : LabelTree.Node Tag} (inside : node ∈ call.object.logTagTree.nodes) :
    (∃ info : TagInfo Tag, info.tagIndex = node.label ∧
        TagCall.logLevel info call.cmdArg ∈ call.tagCalls name) ↔ Selected name call node := by
  have calls : ∀ desc, call.statCalls name desc ++ call.logCalls name desc =
      (call.logsSent name desc).map fun sent => .logLevel sent.1 call.cmdArg := by
    intro desc
    rw [UserCommands.statCalls, UserCommands.logCalls, if_pos command, if_neg, List.nil_append]
    rw [command]
    exact Bool.false_ne_true
  have denotes : ∀ desc ∈ call.tagDispDescs,
      (node.label ∈ (call.logsSent name desc).map (fun sent => sent.1.tagIndex) ↔
        Denotes name desc.tagHname node) := by
    intro desc member
    exact label_mem_tagCommander call.object.distinctLogs dotFree (by rw [command]; decide)
      (closed desc member) inside
  unfold UserCommands.tagCalls Selected
  constructor
  · rintro ⟨info, tag, made⟩
    obtain ⟨desc, member, made⟩ := List.mem_flatMap.mp made
    rw [calls] at made
    obtain ⟨sent, sends, same⟩ := List.mem_map.mp made
    cases same
    exact ⟨desc, member, (denotes desc member).mp (List.mem_map.mpr ⟨sent, sends, tag⟩)⟩
  · rintro ⟨desc, member, denoted⟩
    obtain ⟨sent, sends, tag⟩ := List.mem_map.mp ((denotes desc member).mpr denoted)
    refine ⟨sent.1, tag, List.mem_flatMap.mpr ⟨desc, member, ?_⟩⟩
    rw [calls]
    exact List.mem_map.mpr ⟨sent, sends, rfl⟩

end

/-! ### Setting and showing a level -/

section

variable {Tag Sample : Type} [DecidableEq Tag]

/-- **The calls of a command line among others.** Behind the earlier calls, they are made in their order,
and no other call in between sets a level of the tag for the logger. -/
def MadeAmong (name : Tag → List Char) (set : UserCommands Tag Sample) (tag : Tag) (logIdx : Nat)
    (earlier whole : List (TagCall Tag Sample)) : Prop :=
  ∃ between, whole = earlier ++ between ∧ (set.tagCalls name).Sublist between ∧
    ∀ tagCall ∈ between, tagCall ∈ set.tagCalls name ∨ tagCall.setsLevel tag logIdx = none

theorem ofName?_levelName (level : LogLevel) : LogLevel.ofName? level.levelName = some level := by
  cases level <;> decide

/-- **The level of a tag behind such calls.** -/
theorem MadeAmong.levelOf {name : Tag → List Char} {set : UserCommands Tag Sample}
    {node : LabelTree.Node Tag} {logIdx : Nat} {level : LogLevel}
    {earlier whole : List (TagCall Tag Sample)}
    (among : MadeAmong name set node.label logIdx earlier whole) (command : set.cmd = .logLevel)
    (argument : set.cmdArg = ⟨true, logIdx, level.levelName⟩)
    (dotFree : ∀ tag ∈ set.object.logTagTree.labels, '.' ∉ name tag)
    (closed : ∀ desc ∈ set.tagDispDescs, desc.tagHname.getLast? ≠ some '.')
    (inside : node ∈ set.object.logTagTree.nodes) :
    levelOf whole node.label logIdx =
      if Selected name set node then level else levelOf earlier node.label logIdx := by
  obtain ⟨between, rfl, made, alone⟩ := among
  have newLevel : set.cmdArg.newLevel? = some level := by
    rw [argument]
    exact ofName?_levelName level
  have sets : ∀ info : TagInfo Tag, info.tagIndex = node.label →
      (TagCall.logLevel info set.cmdArg : TagCall Tag Sample).setsLevel node.label logIdx = some level := by
    intro info tag
    refine (if_pos ⟨tag, ?_⟩).trans newLevel
    rw [argument]
  -- A call of the command line sets this level of this tag, or none of it.
  have own : ∀ tagCall ∈ set.tagCalls name, tagCall.setsLevel node.label logIdx ≠ none →
      ∃ info : TagInfo Tag, info.tagIndex = node.label ∧ tagCall = .logLevel info set.cmdArg := by
    intro tagCall member some'
    obtain ⟨desc, -, member⟩ := List.mem_flatMap.mp member
    rw [UserCommands.statCalls, if_neg (by rw [command]; exact Bool.false_ne_true), List.nil_append,
      UserCommands.logCalls, if_pos command] at member
    obtain ⟨sent, -, rfl⟩ := List.mem_map.mp member
    refine ⟨sent.1, ?_, rfl⟩
    by_contra differ
    exact some' (if_neg fun both => differ both.1)
  rw [levelOf_append earlier]
  · refine if_congr ?_ rfl rfl
    rw [← exists_logCall_iff command dotFree closed inside]
    constructor
    · rintro ⟨tagCall, member, level'⟩
      rcases alone tagCall member with mine | silent
      · obtain ⟨info, tag, rfl⟩ := own tagCall mine (by rw [level']; exact Option.some_ne_none _)
        exact ⟨info, tag, mine⟩
      · rw [silent] at level'
        cases level'
    · rintro ⟨info, tag, mine⟩
      exact ⟨_, made.subset mine, sets info tag⟩
  · intro tagCall member
    rcases alone tagCall member with mine | silent
    · by_cases none : tagCall.setsLevel node.label logIdx = none
      · exact Or.inr none
      · obtain ⟨info, tag, rfl⟩ := own tagCall mine none
        exact Or.inl (sets info tag)
    · exact Or.inr silent

/-- **What one command line sets, another one shows.** The first one names a level; its calls are made
among any others. The text that the second one prints, read back, gives for every denoted log its full
name and the level: the one that was set if the first one selects the log, and the earlier one if not. -/
theorem logLevel_setShown (name : Tag → List Char) {object : ControlObject Tag Sample}
    {setVm showVm : VariablesMap} {indexText : List Char} {logIdx : Nat} {level : LogLevel}
    (sets : setVm.AsksLogLevel [indexText, level.levelName.toList])
    (shows : showVm.AsksLogLevel [indexText]) (index : lexicalCastInt indexText = some (logIdx : Int))
    (below : logIdx < sizeofLogControlStorage) {found found' : Nat → TagHandle Tag → Mem}
    {set call : UserCommands Tag Sample} (setCall : setVm.userCommands object found = some set)
    (showCall : showVm.userCommands object found' = some call) {desc : TagDisplayDesc}
    (single : call.tagDispDescs = [desc]) (closed : desc.tagHname.getLast? ≠ some '.')
    (setClosed : ∀ desc ∈ set.tagDispDescs, desc.tagHname.getLast? ≠ some '.')
    (stats : ReadableTree name object.statTagTree) (logs : ReadableTree name object.logTagTree)
    {loggers : Nat} {mem₀ : Mem} {earlier before : Tag → List (TagCall Tag Sample)}
    (compiles : ∀ tag ∈ object.logTagTree.labels, ∀ tagCall ∈ before tag,
      tagCall.Compiles object.statTagTree object.logTagTree)
    (memory : ∀ tag ∈ object.logTagTree.labels, ∃ state,
      let operational :=
        LogStatBase.init object.statTagToType true object.statTagTree object.logTagTree mem₀
      run (callStep name loggers operational object.control) (fun _ _ => [], operational.mem)
        (before tag) = some state ∧ found' 0 (.log tag) = state.2)
    (among : ∀ tag ∈ object.logTagTree.labels,
      MadeAmong name set tag logIdx (earlier tag) (before tag)) :
    ∃ printer lines, parseUserCommands name {} call = some printer ∧ printer.showOutput = some lines ∧
      (readDisplay (textOf lines)).2.map
          (fun tag => (pathAbove desc.tagHname ++ tag.route, tag.note.bind readLevel)) =
        (denotedNodes name object.logTagTree desc.tagHname).map fun node =>
          (node.route.map name, some (if Selected name set node then level
            else levelOf (earlier node.label) node.label logIdx)) := by
  rw [sets.userCommands] at setCall
  rw [shows.userCommands] at showCall
  obtain rfl := Option.some.inj setCall
  obtain rfl := Option.some.inj showCall
  have shown : LevelsShown name (showVm.logLevelCall [indexText] object found') loggers logIdx mem₀
      before := {
    command := rfl
    argument := by
      show (⟨false, (lexicalCastInt indexText).getD 0, ""⟩ : LogLevelCommand) = _
      rw [index]
      rfl
    inside := below
    compiles := compiles
    found := memory }
  obtain ⟨printer, lines, runs, shows, -, read⟩ := readDisplay_logLevel name single shown closed stats logs
  refine ⟨printer, lines, runs, shows, read.trans (List.map_congr_left fun node member => ?_)⟩
  have inside := (List.mem_filter.mp member).1
  refine congrArg _ (congrArg some ((among node.label ?_).levelOf rfl ?_ logs.dotFree setClosed inside))
  · rw [← LabelTree.map_label_nodes]
    exact List.mem_map_of_mem inside
  · show (⟨true, (lexicalCastInt indexText).getD 0, String.ofList level.levelName.toList⟩ :
      LogLevelCommand) = _
    rw [index, String.ofList_toList]
    rfl

end

/-- A log below another one. -/
def radioLogs : ControlObject Nat Nat where
  statTagToType _ := .element .nullStat
  statTagTree := .parent 7 [.leaf 9]
  logTagTree := .parent 0 [.leaf 2]
  mem _ := 0
  distinctStats := by decide
  distinctLogs := by decide

/-- The lower one is set to ALERT. -/
def setAlert : VariablesMap where
  tags := some [['R', '.', 'M', 'A', 'C']]
  logLevel := some [['2'], "ALERT".toList]

def showLevels : VariablesMap where
  logLevel := some [['2']]

def setAlertCall : UserCommands Nat Nat :=
  setAlert.logLevelCall [['2'], "ALERT".toList] radioLogs fun _ _ _ => 0

/-- Both had been set to ERROR, and a text is logged before the change. -/
def earlierLevels : List (TagCall Nat Nat) :=
  [.logLevel ⟨['R'], 0, 0⟩ ⟨true, 2, "ERROR"⟩, .logLevel ⟨['M', 'A', 'C'], 2, 1⟩ ⟨true, 2, "ERROR"⟩]

def levelHistory : List (TagCall Nat Nat) :=
  earlierLevels ++ .getLog 0 .info 1 :: setAlertCall.tagCalls smallRadioName

def runLevels : Option (OpState Nat Nat) :=
  let operational := LogStatBase.init radioLogs.statTagToType true radioLogs.statTagTree
    radioLogs.logTagTree fun _ => 9
  run (callStep smallRadioName 3 operational radioLogs.control) (fun _ _ => [], operational.mem)
    levelHistory

theorem logLevel_setShown_radio : ∃ call printer lines,
    setAlert.userCommands radioLogs (fun _ _ _ => 0) = some setAlertCall ∧
      showLevels.userCommands radioLogs (fun _ _ => (runLevels.map Prod.snd).getD fun _ => 0) =
        some call ∧
      parseUserCommands smallRadioName {} call = some printer ∧ printer.showOutput = some lines ∧
      (readDisplay (textOf lines)).2.map (fun tag => (tag.route, tag.note.bind readLevel)) =
        [([['R']], some .error), ([['R'], ['M', 'A', 'C']], some .alert)] := by
  have sets : setAlert.AsksLogLevel [['2'], LogLevel.alert.levelName.toList] :=
    ⟨rfl, rfl, rfl, rfl, rfl, rfl⟩
  have shows : showLevels.AsksLogLevel [['2']] := ⟨rfl, rfl, rfl, rfl, rfl, rfl⟩
  have setCall := sets.userCommands radioLogs fun _ _ _ => 0
  have showCall := shows.userCommands radioLogs fun _ _ => (runLevels.map Prod.snd).getD fun _ => 0
  have returns : runLevels.isSome := rfl
  obtain ⟨state, runs⟩ := Option.isSome_iff_exists.mp returns
  have compiles : ∀ tagCall ∈ levelHistory,
      tagCall.Compiles radioLogs.statTagTree radioLogs.logTagTree := by decide
  obtain ⟨printer, lines, parses, output, levels⟩ := logLevel_setShown smallRadioName sets shows
    (by decide : lexicalCastInt ['2'] = some ((2 : Nat) : Int)) (by decide) setCall showCall rfl (by decide)
    (by decide) ⟨by decide, by decide⟩ ⟨by decide, by decide⟩ (fun _ _ => compiles)
    (fun _ _ => ⟨state, runs, by show (runLevels.map Prod.snd).getD _ = _; rw [runs]; rfl⟩)
    (fun _ _ => ⟨_, rfl, List.sublist_cons_self _ _, fun tagCall member =>
      (List.mem_cons.mp member).elim (fun first => Or.inr (by rw [first]; rfl)) Or.inl⟩)
  exact ⟨_, printer, lines, setCall, showCall, parses, output, levels.trans (by decide)⟩

/-! ### What a command line may change -/

/-- None of the options that only look comes first. -/
structure VariablesMap.Acts (vm : VariablesMap) : Prop where
  help : vm.help = false
  showTags : vm.showTags = false
  statTypes : vm.statTypes = false
  dumpStats : vm.dumpStats = false

/-- **A command clears stats, sets or shows levels, or does something else.** -/
theorem VariablesMap.command_cases (vm : VariablesMap) (help : vm.help = false) :
    (vm.Acts ∧ vm.clearStats = true ∧ vm.command.1 = .clearStat) ∨
      (∃ argVec, vm.AsksLogLevel argVec) ∨
      (vm.command.1 ≠ .clearStat ∧ vm.command.1 ≠ .logLevel) := by
  obtain ⟨_, showTags, tags, dumpStats, statTypes, clearStats, logLevel, outputLog⟩ := vm
  cases showTags with
  | true => exact Or.inr (Or.inr ⟨StatCmd.noConfusion, StatCmd.noConfusion⟩)
  | false =>
    cases statTypes with
    | true => exact Or.inr (Or.inr ⟨StatCmd.noConfusion, StatCmd.noConfusion⟩)
    | false =>
      cases dumpStats with
      | true => exact Or.inr (Or.inr ⟨StatCmd.noConfusion, StatCmd.noConfusion⟩)
      | false =>
        cases clearStats with
        | true => exact Or.inl ⟨⟨help, rfl, rfl, rfl⟩, rfl, rfl⟩
        | false =>
          cases logLevel with
          | some argVec => exact Or.inr (Or.inl ⟨argVec, help, rfl, rfl, rfl, rfl, rfl⟩)
          | none =>
            cases outputLog with
            | some options => exact Or.inr (Or.inr ⟨StatCmd.noConfusion, StatCmd.noConfusion⟩)
            | none => exact Or.inr (Or.inr ⟨StatCmd.noConfusion, StatCmd.noConfusion⟩)

section

variable {Tag Sample : Type}

/-- What a command line hands to `parseUserCommands`. -/
theorem VariablesMap.of_userCommands {vm : VariablesMap} {object : ControlObject Tag Sample}
    {found : Nat → TagHandle Tag → Mem} {call : UserCommands Tag Sample}
    (parsed : vm.userCommands object found = some call) :
    call.object = object ∧ call.tagDispDescs = tagDispDescs (vm.tags.getD []) ∧ vm.help = false ∧
      call.cmd = vm.command.1 ∧ call.cmdArg = vm.command.2.logLevelCommand := by
  unfold VariablesMap.userCommands parseCommandLineArgs at parsed
  split at parsed
  · cases parsed
  · rename_i noHelp
    cases parsed
    exact ⟨rfl, rfl, eq_false_of_ne_true noHelp, rfl, rfl⟩

/-- One of the `--tags` paths denotes the node, with dots wherever they are. -/
def VariablesMap.Denotes (vm : VariablesMap) (name : Tag → List Char) (tree : LabelTree Tag)
    (node : LabelTree.Node Tag) : Prop :=
  ∃ desc ∈ tagDispDescs (vm.tags.getD []), DenotesAny name tree desc.tagHname node

/-- **The bytes that a command line may change**: those of the stats that it clears, or the levels that it
sets for one logger. -/
inductive MayChange [DecidableEq Tag] (name : Tag → List Char) (object : ControlObject Tag Sample)
    (vm : VariablesMap) (address : Nat) : Prop
  | clear (acts : vm.Acts) (clearStats : vm.clearStats = true) (node : LabelTree.Node Tag)
      (inside : node ∈ object.statTagTree.nodes) (denoted : vm.Denotes name object.statTagTree node)
      (owns : Owns object.theStats node.label address)
  | level (index level : List Char) (new : LogLevel) (asks : vm.AsksLogLevel [index, level])
      (names : LogLevel.ofName? (String.ofList level) = some new) (node : LabelTree.Node Tag)
      (inside : node ∈ object.logTagTree.nodes) (denoted : vm.Denotes name object.logTagTree node)
      (placed : PlacedNode Tag Sample) (handle : getHandle object.theLogs node.label = some placed)
      (byte : address = placed.offset + ((lexicalCastInt index).getD 0).toNat)

/-- A call that a command line makes. -/
theorem mem_tagCalls {name : Tag → List Char} {call : UserCommands Tag Sample}
    {tagCall : TagCall Tag Sample} (made : tagCall ∈ call.tagCalls name) :
    ∃ desc ∈ call.tagDispDescs,
      (isStatisticCommand call.cmd ∧ ∃ sent ∈ call.statsSent name desc,
        tagCall = .statCommand sent.1 sent.2) ∨
      (call.cmd = .logLevel ∧ ∃ sent ∈ call.logsSent name desc,
        tagCall = .logLevel sent.1 call.cmdArg) := by
  obtain ⟨desc, member, made⟩ := List.mem_flatMap.mp made
  refine ⟨desc, member, ?_⟩
  unfold UserCommands.statCalls UserCommands.logCalls at made
  rcases List.mem_append.mp made with stat | log
  · split at stat
    · rename_i statistic
      obtain ⟨sent, sends, rfl⟩ := List.mem_map.mp stat
      exact Or.inl ⟨statistic, sent, sends, rfl⟩
    · cases stat
  · split at log
    · rename_i command
      obtain ⟨sent, sends, rfl⟩ := List.mem_map.mp log
      exact Or.inr ⟨command, sent, sends, rfl⟩
    · cases log

/-- Arguments that name a level are two. -/
theorem exists_of_newLevel? {argVec : List (List Char)} {new : LogLevel}
    (names : (logLevelCommand argVec).newLevel? = some new) : ∃ index level, argVec = [index, level] := by
  unfold logLevelCommand at names
  split at names
  · exact ⟨_, _, rfl⟩
  · cases names

/-- It is to a tag of the two trees. -/
theorem compiles_of_mem_tagCalls {name : Tag → List Char} {call : UserCommands Tag Sample}
    {tagCall : TagCall Tag Sample} (made : tagCall ∈ call.tagCalls name) :
    tagCall.Compiles call.object.statTagTree call.object.logTagTree := by
  obtain ⟨desc, -, ⟨-, sent, sends, rfl⟩ | ⟨-, sent, sends, rfl⟩⟩ := mem_tagCalls made
  · exact (mem_tagCommander_tagHierarchy sends).2
  · exact (mem_tagCommander_tagHierarchy sends).2

/-- **It can be taken wherever the log levels are valid**, with an index in range. -/
theorem exists_callStep [DecidableEq Tag] {name : Tag → List Char} {call : UserCommands Tag Sample}
    {tagCall : TagCall Tag Sample} (made : tagCall ∈ call.tagCalls name)
    (index : call.cmd = .logLevel →
      0 ≤ call.cmdArg.loggerIdx ∧ call.cmdArg.loggerIdx < sizeofLogControlStorage)
    {state : OpState Tag Sample} {levels : Tag → Nat → LogLevel}
    (holds : HoldsLevels call.object.theLogs state.2 levels) (loggers : Nat)
    (operational : LogStat Tag Sample) :
    ∃ next, callStep name loggers operational call.object.control state tagCall = some next := by
  obtain ⟨desc, -, ⟨-, sent, sends, rfl⟩ | ⟨command, sent, sends, rfl⟩⟩ := mem_tagCalls made
  · obtain ⟨-, placed, -, handle⟩ := exists_handle_statsSent sends
    have found : getHandle call.object.control.theStats sent.1.tagIndex = some placed := handle
    refine ⟨(state.1, (placed.item.doCommand placed.offset sent.2 state.2).1), ?_⟩
    show (LogStatControl.sendStatCommand call.object.control.theStats state.2 sent).map _ = _
    unfold LogStatControl.sendStatCommand
    rw [found]
    rfl
  · have tags := LogStatBase.map_tag_theLogs call.object.statTagToType call.object.statTagTree
      call.object.logTagTree false call.object.mem
    obtain ⟨placed, member, same, -⟩ := exists_getHandle tags call.object.distinctLogs
      (mem_tagCommander_tagHierarchy sends).2
    have known : ControlLogs call.object.control.theLogs :=
      controlLogs_init call.object.distinctLogs call.object.mem
    refine ⟨(state.1, call.cmdArg.apply placed.offset state.2), ?_⟩
    exact (callStep_logLevel known holds member same.symm call.cmdArg).trans (if_pos (index command))

/-- **What a command line may change.** Whatever the options are, if the index of a `--log-level` is one
of a logger: from every state that calls of any processes reach, its calls come to their end. They change
no accumulator; and a byte of the shared memory only if the command is `--clear-stats` and the byte belongs
to a stat that one of the paths denotes, or if it is `--log-level` with two arguments, the second one a
level, and the byte is the level of a denoted log for the logger of the first. `--show-tags`,
`--stat-types` and `--dump-stats` take precedence and change nothing. -/
theorem commandLine_changes [DecidableEq Tag] (name : Tag → List Char) {vm : VariablesMap}
    {object : ControlObject Tag Sample} {found : Nat → TagHandle Tag → Mem}
    {call : UserCommands Tag Sample} (parsed : vm.userCommands object found = some call)
    (dotFreeStats : ∀ tag ∈ object.statTagTree.labels, '.' ∉ name tag)
    (dotFreeLogs : ∀ tag ∈ object.logTagTree.labels, '.' ∉ name tag)
    (index : ∀ argVec, vm.AsksLogLevel argVec → 0 ≤ (logLevelCommand argVec).loggerIdx ∧
      (logLevelCommand argVec).loggerIdx < sizeofLogControlStorage)
    {loggers : Nat} {mem : Mem} {operational : LogStat Tag Sample}
    (begins : operational =
      LogStatBase.init object.statTagToType true object.statTagTree object.logTagTree mem)
    {earlier : List (TagCall Tag Sample)}
    (compiles : ∀ tagCall ∈ earlier, tagCall.Compiles object.statTagTree object.logTagTree)
    {state : OpState Tag Sample}
    (reached : run (callStep name loggers operational object.control) (fun _ _ => [], operational.mem)
      earlier = some state) :
    ∃ final, run (callStep name loggers operational object.control) state (call.tagCalls name) =
        some final ∧
      final.1 = state.1 ∧
      ∀ address, final.2 address ≠ state.2 address → MayChange name object vm address := by
  obtain ⟨rfl, descs, help, cmd, argument⟩ := VariablesMap.of_userCommands parsed
  have inRange : call.cmd = .logLevel →
      0 ≤ call.cmdArg.loggerIdx ∧ call.cmdArg.loggerIdx < sizeofLogControlStorage := by
    intro command
    rcases vm.command_cases help with ⟨-, -, clear⟩ | ⟨argVec, asks⟩ | ⟨-, other⟩
    · rw [clear, command] at cmd
      cases cmd
    · rw [argument, asks.command]
      exact index argVec asks
    · exact absurd (cmd.symm.trans command) other
  -- Every state on the way is reached by calls, so that the levels in it are valid.
  obtain ⟨final, runs⟩ : ∃ final, run (callStep name loggers operational call.object.control) state
      (call.tagCalls name) = some final := by
    refine exists_run _ (fun state => ∃ earlier : List (TagCall Tag Sample),
      (∀ tagCall ∈ earlier, tagCall.Compiles call.object.statTagTree call.object.logTagTree) ∧
        run (callStep name loggers operational call.object.control)
          (fun _ _ => [], operational.mem) earlier = some state) ⟨earlier, compiles, reached⟩ ?_
    rintro tagCall made state ⟨earlier, compiles, reached⟩
    have valid := reached
    rw [begins] at valid
    have holds := holdsLevels_of_calls call.object.distinctStats call.object.distinctLogs compiles valid
    obtain ⟨next, taken⟩ := exists_callStep made inRange holds loggers operational
    refine ⟨next, taken, earlier ++ [tagCall], ?_, (run_concat _).mpr ⟨state, reached, taken⟩⟩
    intro other member
    rcases List.mem_append.mp member with before | last
    · exact compiles other before
    · rw [List.mem_singleton.mp last]
      exact compiles_of_mem_tagCalls made
  refine ⟨final, runs, ?_, fun address changed => ?_⟩
  · funext tag
    by_contra changed
    obtain ⟨tagCall, made, indices, value, rfl⟩ := exists_of_run_ne _ (fun state => state.1 tag)
      (fun tagCall => ∃ indices value, tagCall = .writeStat tag indices value)
      (fun state tagCall next unwritten taken => callStep_accums
        (fun indices value same => unwritten ⟨indices, value, same⟩) taken) runs changed
    obtain ⟨desc, -, ⟨-, sent, -, same⟩ | ⟨-, sent, -, same⟩⟩ := mem_tagCalls made
    · cases same
    · cases same
  · obtain ⟨tagCall, made, touches⟩ := exists_of_run_ne _ (fun state => state.2 address) _
      (fun state tagCall next untouched taken => callStep_untouched untouched taken) runs changed
    obtain ⟨desc, member, ⟨-, sent, sends, rfl⟩ | ⟨command, sent, sends, rfl⟩⟩ := mem_tagCalls made
    · obtain ⟨clear, owns⟩ := touches
      have command : call.cmd = .clearStat := (mem_tagCommander_tagHierarchy sends).1.symm.trans clear
      obtain ⟨node, inside, tag, denoted⟩ := exists_node_of_sent (by rw [command]; decide)
        call.object.distinctStats dotFreeStats sends
      rw [← tag] at owns
      rw [descs] at member
      rcases vm.command_cases help with ⟨acts, clearStats, -⟩ | ⟨argVec, asks⟩ | ⟨other, -⟩
      · exact .clear acts clearStats node inside ⟨desc, member, denoted⟩ owns
      · rw [asks.command, command] at cmd
        cases cmd
      · exact absurd (cmd.symm.trans command) other
    · obtain ⟨names, placed, handle, byte⟩ := touches
      obtain ⟨node, inside, tag, denoted⟩ := exists_node_of_sent (by rw [command]; decide)
        call.object.distinctLogs dotFreeLogs sends
      rw [← tag] at handle
      rw [descs] at member
      rcases vm.command_cases help with ⟨-, -, clear⟩ | ⟨argVec, asks⟩ | ⟨-, other⟩
      · rw [clear, command] at cmd
        cases cmd
      · rw [asks.command] at argument
        obtain ⟨new, names⟩ := Option.isSome_iff_exists.mp names
        rw [argument] at names byte
        obtain ⟨index, level, rfl⟩ := exists_of_newLevel? names
        exact .level index level new asks names node inside ⟨desc, member, denoted⟩ placed handle byte
      · exact absurd (cmd.symm.trans command) other

end

theorem commandLine_changes_radio : ∃ state final,
    run (callStep smallRadioName 3 (LogStatBase.init radioLogs.statTagToType true radioLogs.statTagTree
          radioLogs.logTagTree fun _ => 9) radioLogs.control)
        (fun _ _ => [], (LogStatBase.init radioLogs.statTagToType true radioLogs.statTagTree
          radioLogs.logTagTree fun _ => 9).mem) earlierLevels = some state ∧
      run (callStep smallRadioName 3 (LogStatBase.init radioLogs.statTagToType true
          radioLogs.statTagTree radioLogs.logTagTree fun _ => 9) radioLogs.control) state
        (setAlertCall.tagCalls smallRadioName) = some final ∧
      ∀ address, final.2 address ≠ state.2 address →
        MayChange smallRadioName radioLogs setAlert address := by
  have sets : setAlert.AsksLogLevel [['2'], "ALERT".toList] := ⟨rfl, rfl, rfl, rfl, rfl, rfl⟩
  have returns : (run (callStep smallRadioName 3 (LogStatBase.init radioLogs.statTagToType true
      radioLogs.statTagTree radioLogs.logTagTree fun _ => 9) radioLogs.control)
    (fun _ _ => [], (LogStatBase.init radioLogs.statTagToType true radioLogs.statTagTree
      radioLogs.logTagTree fun _ => 9).mem) earlierLevels).isSome := rfl
  obtain ⟨state, reached⟩ := Option.isSome_iff_exists.mp returns
  have index : ∀ argVec, setAlert.AsksLogLevel argVec → 0 ≤ (logLevelCommand argVec).loggerIdx ∧
      (logLevelCommand argVec).loggerIdx < sizeofLogControlStorage := by
    intro argVec asks
    obtain rfl := Option.some.inj asks.logLevel
    decide
  obtain ⟨final, runs, -, changes⟩ := commandLine_changes smallRadioName
    (sets.userCommands radioLogs fun _ _ _ => 0) (by decide) (by decide) index rfl (by decide) reached
  exact ⟨state, final, reached, runs, changes⟩

end StatLog.Control
