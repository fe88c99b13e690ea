/-
**Commands on several tags.**

A command line may name several tags, which may overlap. The command goes to the tags one descriptor
after the other, and the printer, whose state all control objects share, keeps one output for each tag.

* `Printer`, `removeTag`, `addStatOutput`, `addLogOutput`: the globals of the printer and what changes
  them.
* `parseUserCommands`, `parseAll`: the loop over the descriptors, and several calls in turn.
* `Selection`: a descriptor of one of the calls, with the tags it selects and what it shows of them.
* `Printer.Holds`: the invariant, kept by every update.
* **`parseUserCommands_held`**: the printer holds the selected tags, once each, as they were selected
  last, and no tag is above `min_tag_depth`.
-/

import StatLog.Control.Filter
import StatLog.Lib.LastByKey
import StatLog.Lib.Transition
import StatLog.Tags.ClearStat
import StatLog.Tags.LogLevel

namespace StatLog.Control

open ByteMemory LastByKey RoseTree Stats Tags Transition

variable {Tag Sample : Type}

/-! ### The printer -/

structure StatDisplay (Tag : Type) where
  tagInfo : TagInfo Tag
  printOptions : PrintOptions
  statOutput : StatCmdOutput

structure LogDisplay (Tag : Type) where
  tagInfo : TagInfo Tag
  logOutput : String

/-- **The printer**, which all control objects of a process share. -/
structure Printer (Tag : Type) where
  theCmd : StatCmd := .noCmd
  printOptions : PrintOptions := {}
  statTagsVector : List (StatDisplay Tag) := []
  logTagsVector : List (LogDisplay Tag) := []
  minTagDepth : Nat := sizeMax

def StatDisplay.tag (display : StatDisplay Tag) : Tag := display.tagInfo.tagIndex

def LogDisplay.tag (display : LogDisplay Tag) : Tag := display.tagInfo.tagIndex

/-- `removeTag`, on the vector of the stats or that of the logs. -/
def removeTag [DecidableEq Tag] {Display : Type} (tagOf : Display → Tag) (v : List Display)
    (tagInfo : TagInfo Tag) : List Display :=
  v.filter fun elem => tagOf elem ≠ tagInfo.tagIndex

namespace Printer

def setCommand (printer : Printer Tag) (cmd : StatCmd) : Printer Tag := { printer with theCmd := cmd }

def setPrintOptions (printer : Printer Tag) (printOptions : PrintOptions) : Printer Tag :=
  { printer with printOptions := printOptions }

/-- `min_tag_depth`, as both functions below update it. -/
def depthWith (printer : Printer Tag) (tagInfo : TagInfo Tag) : Nat :=
  if tagInfo.depth < printer.minTagDepth then tagInfo.depth else printer.minTagDepth

def addStatOutput [DecidableEq Tag] (printer : Printer Tag) (tagInfo : TagInfo Tag)
    (statOutput : StatCmdOutput) : Printer Tag :=
  { printer with
    minTagDepth := printer.depthWith tagInfo
    statTagsVector := removeTag StatDisplay.tag printer.statTagsVector tagInfo ++
      [⟨tagInfo, printer.printOptions, statOutput⟩] }

def addLogOutput [DecidableEq Tag] (printer : Printer Tag) (tagInfo : TagInfo Tag)
    (logOutput : String) : Printer Tag :=
  { printer with
    minTagDepth := printer.depthWith tagInfo
    logTagsVector := removeTag LogDisplay.tag printer.logTagsVector tagInfo ++
      [⟨tagInfo, logOutput⟩] }

/-- `tag_info.depth - min_tag_depth`, in the unsigned arithmetic of `size_t`. -/
def level (printer : Printer Tag) (tagInfo : TagInfo Tag) : Nat :=
  (tagInfo.depth + 2 ^ 64 - printer.minTagDepth) % 2 ^ 64

end Printer

/-- `indent`: one tab for each level, counted by an `int`. -/
def indent (level : Nat) : String := String.ofList (List.replicate (intOfSize level).toNat '\t')

namespace Printer

/-- `printStatType`. -/
def printStatType (printer : Printer Tag) : List String :=
  (if printer.statTagsVector.isEmpty then [] else ["STAT TYPES:"]) ++
    printer.statTagsVector.flatMap fun elem =>
      (indent (printer.level elem.tagInfo) ++ String.ofList elem.tagInfo.name) ::
        if elem.statOutput.entryTitle.isEmpty then []
        else [indent (printer.level elem.tagInfo) ++ "  " ++ elem.statOutput.entryTitle]

/-- `printLogOutput`. -/
def printLogOutput (printer : Printer Tag) : List String :=
  (if printer.logTagsVector.isEmpty then [] else ["LOG LEVELS:"]) ++
    printer.logTagsVector.flatMap fun elem =>
      [indent (printer.level elem.tagInfo) ++ String.ofList elem.tagInfo.name,
        indent (printer.level elem.tagInfo) ++ "  " ++ elem.logOutput]

/-- `printTags`. -/
def printTags (printer : Printer Tag) : List String :=
  (if printer.statTagsVector.isEmpty then [] else ["STATS:"]) ++
    printer.statTagsVector.map (fun elem =>
      indent (printer.level elem.tagInfo) ++ String.ofList elem.tagInfo.name) ++
    (if printer.logTagsVector.isEmpty then [] else ["LOG LEVELS:"]) ++
    printer.logTagsVector.map fun elem =>
      indent (printer.level elem.tagInfo) ++ String.ofList elem.tagInfo.name

/-- `printDumpStat`, for all stats. -/
def printDumpStat (printer : Printer Tag) : Option (List String) := do
  let lines ← printer.statTagsVector.mapM fun elem =>
    Control.printDumpStat (String.ofList elem.tagInfo.name) elem.printOptions.arrayIndices
      elem.statOutput
  some ((if printer.statTagsVector.isEmpty then [] else ["STAT VALUES:"]) ++ lines.flatten)

/-- `showOutput`. -/
def showOutput (printer : Printer Tag) : Option (List String) :=
  match printer.theCmd with
  | .printStatType => some printer.printStatType
  | .dumpStat => printer.printDumpStat
  | .logLevel => some printer.printLogOutput
  | .printTag => some printer.printTags
  | _ => some []

/-- The tag is not above `min_tag_depth`, and its level is the difference. -/
def Indents (printer : Printer Tag) (tagInfo : TagInfo Tag) : Prop :=
  printer.minTagDepth ≤ tagInfo.depth ∧
    (tagInfo.depth < 2 ^ 64 → printer.level tagInfo = tagInfo.depth - printer.minTagDepth)

end Printer

/-! ### Parsing -/

/-- **A control object**, over trees of pairwise distinct tags. -/
structure ControlObject (Tag Sample : Type) where
  statTagToType : Tag → StatType Sample
  statTagTree : LabelTree Tag
  logTagTree : LabelTree Tag
  /-- The shared memory when `init` was called. -/
  mem : Mem
  distinctStats : statTagTree.labels.Nodup
  distinctLogs : logTagTree.labels.Nodup

namespace ControlObject

variable (object : ControlObject Tag Sample)

def control : LogStat Tag Sample :=
  LogStatBase.init object.statTagToType false object.statTagTree object.logTagTree object.mem

def theStats : List (PlacedNode Tag Sample) := object.control.theStats

def theLogs : List (PlacedNode Tag Sample) := object.control.theLogs

end ControlObject

/-- **A call of `parseUserCommands`**, with what `parseCommandLineArgs` finds. The shared memory may
change at any time, by the command as well: `found` is what is there when the command comes to a tag
for the descriptor of a number. -/
structure UserCommands (Tag Sample : Type) where
  object : ControlObject Tag Sample
  tagDispDescs : List TagDisplayDesc
  cmd : StatCmd
  cmdArg : LogLevelCommand := {}
  found : Nat → TagHandle Tag → Mem

section

variable [DecidableEq Tag] (name : Tag → List Char)

namespace UserCommands

variable (call : UserCommands Tag Sample)

/-- `sendCommand` for a node of the stat hierarchy. -/
def sendStat (number : Nat) (printer : Printer Tag) (sent : TagInfo Tag × StatCmd) :
    Option (Printer Tag) := do
  let next ← LogStatControl.sendStatCommand call.object.theStats
    (call.found number (.stat sent.1.tagIndex)) sent
  some (printer.addStatOutput sent.1 next.2)

/-- `sendCommand` for a node of the log hierarchy. -/
def sendLog (number : Nat) (printer : Printer Tag) (sent : TagInfo Tag × StatCmd) :
    Option (Printer Tag) := do
  let next ← LogStatControl.sendLogCommand call.object.theLogs call.cmdArg
    (call.found number (.log sent.1.tagIndex)) sent
  some (printer.addLogOutput sent.1 next.2)

/-- The calls of `sendCommand` for a descriptor. -/
def statsSent (desc : TagDisplayDesc) : List (TagInfo Tag × StatCmd) :=
  tagCommander name call.cmd (tagHierarchy call.object.statTagTree) desc.tagHname

def logsSent (desc : TagDisplayDesc) : List (TagInfo Tag × StatCmd) :=
  tagCommander name call.cmd (tagHierarchy call.object.logTagTree) desc.tagHname

/-- What the body of the loop does to the stats. -/
def parseStats (numbered : TagDisplayDesc × Nat) (printer : Printer Tag) : Option (Printer Tag) :=
  if isStatisticCommand call.cmd then
    run (call.sendStat numbered.2) printer (call.statsSent name numbered.1)
  else some printer

/-- What it does to the logs. The process exits in `outputLog`. -/
def parseLogs (numbered : TagDisplayDesc × Nat) (printer : Printer Tag) : Option (Printer Tag) :=
  if isLogCommand call.cmd then
    if call.cmd = .dumpLog then none
    else run (call.sendLog numbered.2) printer (call.logsSent name numbered.1)
  else some printer

/-- The body of the loop. -/
def parseDesc (printer : Printer Tag) (numbered : TagDisplayDesc × Nat) : Option (Printer Tag) := do
  let stats ← call.parseStats name numbered (printer.setPrintOptions numbered.1.printOptions)
  call.parseLogs name numbered stats

end UserCommands

/-- **`parseUserCommands`**; nothing remains of a process that exits. -/
def parseUserCommands (printer : Printer Tag) (call : UserCommands Tag Sample) :
    Option (Printer Tag) :=
  run (call.parseDesc name) (printer.setCommand call.cmd) call.tagDispDescs.zipIdx

/-- Calls for several control objects in turn, from the start of the process. -/
def parseAll (calls : List (UserCommands Tag Sample)) : Option (Printer Tag) :=
  run (parseUserCommands name) {} calls

/-! ### Selections -/

/-- One of the descriptors of a call, with its number. -/
structure Selection (Tag Sample : Type) where
  call : UserCommands Tag Sample
  desc : TagDisplayDesc
  number : Nat

namespace Selection

variable (selection : Selection Tag Sample)

def sent : List (TagInfo Tag × StatCmd) := selection.call.statsSent name selection.desc

/-- The tags that the descriptor selects. -/
def tags : List Tag := (selection.sent name).map fun sent => sent.1.tagIndex

/-- What is shown of one of them. -/
def display (sent : TagInfo Tag × StatCmd) : StatDisplay Tag where
  tagInfo := sent.1
  printOptions := selection.desc.printOptions
  statOutput := ((LogStatControl.sendStatCommand selection.call.object.theStats
    (selection.call.found selection.number (.stat sent.1.tagIndex)) sent).map Prod.snd).getD {}

def displays : List (StatDisplay Tag) := (selection.sent name).map selection.display

/-- The display is what this selection shows of one of its tags. -/
structure Shows (shown : StatDisplay Tag) : Prop where
  info : (shown.tagInfo, selection.call.cmd) ∈ selection.sent name
  options : shown.printOptions = selection.desc.printOptions
  output : ∃ placed, getHandle selection.call.object.theStats shown.tag = some placed ∧
    shown.statOutput = (placed.item.doCommand placed.offset selection.call.cmd
      (selection.call.found selection.number (.stat shown.tag))).2

end Selection

/-- The descriptors of a call; only the commands on statistics select stats. -/
def UserCommands.selections (call : UserCommands Tag Sample)
    (numbered : List (TagDisplayDesc × Nat)) : List (Selection Tag Sample) :=
  if isStatisticCommand call.cmd then numbered.map fun desc => ⟨call, desc.1, desc.2⟩ else []

/-- The descriptors of several calls, in order. -/
def selections (calls : List (UserCommands Tag Sample)) : List (Selection Tag Sample) :=
  calls.flatMap fun call => call.selections call.tagDispDescs.zipIdx

/-- **What the printer holds after the calls.** -/
structure Held (calls : List (UserCommands Tag Sample)) (printer : Printer Tag) : Prop where
  /-- Every tag is held once. -/
  once : (printer.statTagsVector.map StatDisplay.tag).Nodup
  /-- The tags held are the selected ones. -/
  selected : ∀ tag, tag ∈ printer.statTagsVector.map StatDisplay.tag ↔
    ∃ selection ∈ selections calls, tag ∈ selection.tags name
  /-- Their output and index filter are those of the last selection. -/
  last : ∀ shown ∈ printer.statTagsVector, ∃ earlier selection later,
    selections calls = earlier ++ selection :: later ∧ selection.Shows name shown ∧
      ∀ other ∈ later, shown.tag ∉ other.tags name
  /-- They stand in the order of their last selections: `dedup` keeps the last of equal elements. -/
  order : printer.statTagsVector.map StatDisplay.tag =
    ((selections calls).flatMap (Selection.tags name)).dedup
  /-- The indentation of no tag underflows. -/
  stats : ∀ shown ∈ printer.statTagsVector, printer.Indents shown.tagInfo
  logs : ∀ shown ∈ printer.logTagsVector, printer.Indents shown.tagInfo
  /-- For names without dots, a path that does not end in one selects the stats it denotes. -/
  denoted : ∀ selection ∈ selections calls,
    (∀ tag ∈ selection.call.object.statTagTree.labels, '.' ∉ name tag) →
      selection.desc.tagHname.getLast? ≠ some '.' →
        ∀ node ∈ selection.call.object.statTagTree.nodes,
          (node.label ∈ selection.tags name ↔ Denotes name selection.desc.tagHname node)

end

/-! ### Updates of the printer -/

namespace Printer

variable [DecidableEq Tag] {printer : Printer Tag} {shown : List (StatDisplay Tag)}

omit [DecidableEq Tag] in
theorem indents_of_le {tagInfo : TagInfo Tag} (below : printer.minTagDepth ≤ tagInfo.depth) :
    printer.Indents tagInfo := by
  refine ⟨below, fun fits => ?_⟩
  have shift : tagInfo.depth + 2 ^ 64 - printer.minTagDepth =
      tagInfo.depth - printer.minTagDepth + 2 ^ 64 := by omega
  rw [level, shift, Nat.add_mod_right]
  exact Nat.mod_eq_of_lt (by omega)

/-- **The invariant**: the last of the given displays for each tag, and no tag above
`min_tag_depth`. -/
structure Holds (printer : Printer Tag) (shown : List (StatDisplay Tag)) : Prop where
  stats : printer.statTagsVector = lasts StatDisplay.tag shown
  statDepth : ∀ elem ∈ printer.statTagsVector, printer.minTagDepth ≤ elem.tagInfo.depth
  logDepth : ∀ elem ∈ printer.logTagsVector, printer.minTagDepth ≤ elem.tagInfo.depth

omit [DecidableEq Tag] in
theorem depthWith_le (printer : Printer Tag) (tagInfo : TagInfo Tag) :
    printer.depthWith tagInfo ≤ printer.minTagDepth ∧ printer.depthWith tagInfo ≤ tagInfo.depth := by
  unfold depthWith
  split <;> omega

/-- Removing and appending keeps what is known of the elements. -/
theorem forall_mem_removeTag {Display : Type} {tagOf : Display → Tag} {P : Display → Prop}
    {v : List Display} (all : ∀ elem ∈ v, P elem) {new : Display} (newest : P new)
    (tagInfo : TagInfo Tag) : ∀ elem ∈ removeTag tagOf v tagInfo ++ [new], P elem := by
  intro elem member
  rcases List.mem_append.mp member with kept | added
  · exact all elem (List.mem_filter.mp kept).1
  · obtain rfl := List.mem_singleton.mp added
    exact newest

/-- **A stat is added.** -/
theorem Holds.addStatOutput (holds : printer.Holds shown) (tagInfo : TagInfo Tag)
    (statOutput : StatCmdOutput) :
    (printer.addStatOutput tagInfo statOutput).Holds
      (shown ++ [⟨tagInfo, printer.printOptions, statOutput⟩]) where
  stats := by
    rw [lasts_concat, ← holds.stats]
    rfl
  statDepth := forall_mem_removeTag
    (fun elem member => (printer.depthWith_le tagInfo).1.trans (holds.statDepth elem member))
    (printer.depthWith_le tagInfo).2 tagInfo
  logDepth elem member := (printer.depthWith_le tagInfo).1.trans (holds.logDepth elem member)

/-- **A log is added.** -/
theorem Holds.addLogOutput (holds : printer.Holds shown) (tagInfo : TagInfo Tag)
    (logOutput : String) : (printer.addLogOutput tagInfo logOutput).Holds shown where
  stats := holds.stats
  statDepth elem member := (printer.depthWith_le tagInfo).1.trans (holds.statDepth elem member)
  logDepth := forall_mem_removeTag
    (fun elem member => (printer.depthWith_le tagInfo).1.trans (holds.logDepth elem member))
    (printer.depthWith_le tagInfo).2 tagInfo

theorem holds_initial : ({} : Printer Tag).Holds [] where
  stats := rfl
  statDepth elem member := by cases member
  logDepth elem member := by cases member

theorem Holds.setCommand (holds : printer.Holds shown) (cmd : StatCmd) :
    (printer.setCommand cmd).Holds shown := ⟨holds.stats, holds.statDepth, holds.logDepth⟩

theorem Holds.setPrintOptions (holds : printer.Holds shown) (printOptions : PrintOptions) :
    (printer.setPrintOptions printOptions).Holds shown :=
  ⟨holds.stats, holds.statDepth, holds.logDepth⟩

end Printer

/-! ### The loops -/

section

variable [DecidableEq Tag] {name : Tag → List Char} {call : UserCommands Tag Sample}
  {printer next : Printer Tag} {shown : List (StatDisplay Tag)}

/-- The stats of a descriptor. -/
theorem holds_statsSent {desc : TagDisplayDesc} {number : Nat} (holds : printer.Holds shown)
    (options : printer.printOptions = desc.printOptions) {sent : List (TagInfo Tag × StatCmd)}
    (runs : run (call.sendStat number) printer sent = some next) :
    next.Holds (shown ++ sent.map (Selection.display ⟨call, desc, number⟩)) := by
  suffices kept : next.Holds (shown ++ sent.map (Selection.display ⟨call, desc, number⟩)) ∧
      next.printOptions = desc.printOptions from kept.1
  refine run_induction (call.sendStat number) (fun sent printer =>
    printer.Holds (shown ++ sent.map (Selection.display ⟨call, desc, number⟩)) ∧
      printer.printOptions = desc.printOptions) ?_ ?_ runs
  · rw [List.map_nil, List.append_nil]
    exact ⟨holds, options⟩
  · rintro history before one after ⟨held, same⟩ taken
    obtain ⟨result, found, added⟩ := Option.bind_eq_some_iff.mp taken
    cases added
    have display : Selection.display ⟨call, desc, number⟩ one =
        ⟨one.1, before.printOptions, result.2⟩ := by
      unfold Selection.display
      rw [found, same]
      rfl
    rw [List.map_append, List.map_singleton, ← List.append_assoc, display]
    exact ⟨held.addStatOutput one.1 result.2, same⟩

/-- The logs of a descriptor. -/
theorem holds_logsSent {number : Nat} (holds : printer.Holds shown)
    {sent : List (TagInfo Tag × StatCmd)}
    (runs : run (call.sendLog number) printer sent = some next) : next.Holds shown := by
  refine run_induction (call.sendLog number) (fun _ printer => printer.Holds shown) holds ?_ runs
  intro history before one after held taken
  obtain ⟨result, -, added⟩ := Option.bind_eq_some_iff.mp taken
  cases added
  exact held.addLogOutput one.1 result.2

/-- **One descriptor.** -/
theorem holds_parseDesc (holds : printer.Holds shown) {numbered : TagDisplayDesc × Nat}
    (runs : call.parseDesc name printer numbered = some next) :
    next.Holds (shown ++ (call.selections [numbered]).flatMap (Selection.displays name)) := by
  obtain ⟨stats, statsRun, logsRun⟩ := Option.bind_eq_some_iff.mp runs
  have held : stats.Holds (shown ++ (call.selections [numbered]).flatMap (Selection.displays name)) := by
    unfold UserCommands.parseStats at statsRun
    unfold UserCommands.selections
    split at statsRun
    · rename_i statistic
      rw [if_pos statistic, List.map_singleton, List.flatMap_singleton]
      exact holds_statsSent (holds.setPrintOptions _) rfl statsRun
    · rename_i other
      cases statsRun
      rw [if_neg other, List.flatMap_nil, List.append_nil]
      exact holds.setPrintOptions _
  unfold UserCommands.parseLogs at logsRun
  split at logsRun
  · split at logsRun
    · cases logsRun
    · exact holds_logsSent held logsRun
  · cases logsRun
    exact held

omit [DecidableEq Tag] in
theorem selections_append (call : UserCommands Tag Sample) (numbered more : List (TagDisplayDesc × Nat)) :
    call.selections (numbered ++ more) = call.selections numbered ++ call.selections more := by
  unfold UserCommands.selections
  split
  · exact List.map_append
  · rfl

/-- **One call.** -/
theorem holds_parseUserCommands (holds : printer.Holds shown)
    (runs : parseUserCommands name printer call = some next) :
    next.Holds
      (shown ++ (call.selections call.tagDispDescs.zipIdx).flatMap (Selection.displays name)) := by
  refine run_induction (call.parseDesc name) (fun numbered printer =>
    printer.Holds (shown ++ (call.selections numbered).flatMap (Selection.displays name))) ?_ ?_ runs
  · have nothing : call.selections [] = [] := by
      unfold UserCommands.selections
      split <;> rfl
    rw [nothing, List.flatMap_nil, List.append_nil]
    exact holds.setCommand call.cmd
  · intro history before numbered after held taken
    rw [selections_append, List.flatMap_append, ← List.append_assoc]
    exact holds_parseDesc held taken

/-- **All calls.** -/
theorem holds_parseAll {calls : List (UserCommands Tag Sample)}
    (runs : parseAll name calls = some printer) :
    printer.Holds ((selections calls).flatMap (Selection.displays name)) := by
  refine run_induction (parseUserCommands name) (fun calls printer =>
    printer.Holds ((selections calls).flatMap (Selection.displays name))) Printer.holds_initial ?_ runs
  intro history before call after held taken
  unfold selections at held ⊢
  rw [List.flatMap_append, List.flatMap_singleton, List.flatMap_append]
  exact holds_parseUserCommands held taken

/-! ### Every statistics command comes to its end -/

/-- A stat that the commander selects is found. -/
theorem exists_handle_statsSent {desc : TagDisplayDesc} {sent : TagInfo Tag × StatCmd}
    (member : sent ∈ call.statsSent name desc) :
    sent.2 = call.cmd ∧ ∃ placed ∈ call.object.theStats,
      getHandle call.object.theStats sent.1.tagIndex = some placed := by
  obtain ⟨command, known⟩ := mem_tagCommander_tagHierarchy member
  obtain ⟨placed, belongs, -, handle⟩ := exists_getHandle
    (LogStatBase.map_tag_theStats call.object.statTagToType call.object.statTagTree
      call.object.logTagTree false call.object.mem) call.object.distinctStats known
  exact ⟨command, placed, belongs, handle⟩

/-- A PRINT_TAG leaves the levels of a log alone. -/
theorem sendLog_printTag (printTag : call.cmd = .printTag) {desc : TagDisplayDesc} (number : Nat)
    {sent : TagInfo Tag × StatCmd} (member : sent ∈ call.logsSent name desc) (printer : Printer Tag) :
    (call.sendLog number printer sent).isSome := by
  obtain ⟨command, known⟩ := mem_tagCommander_tagHierarchy member
  obtain ⟨placed, belongs, -, handle⟩ := exists_getHandle
    (LogStatBase.map_tag_theLogs call.object.statTagToType call.object.statTagTree
      call.object.logTagTree false call.object.mem) call.object.distinctLogs known
  have logger := nodeClass_theLogs belongs
  unfold UserCommands.sendLog LogStatControl.sendLogCommand ControlObject.theLogs
    ControlObject.control LogStatNode.doLogCommand
  rw [handle, Option.bind_eq_bind, Option.bind_eq_bind, Option.bind_some, command, printTag]
  simp only [logger]
  rfl

theorem parseDesc_isSome (statistic : isStatisticCommand call.cmd) (printer : Printer Tag)
    (numbered : TagDisplayDesc × Nat) : (call.parseDesc name printer numbered).isSome := by
  have stats : ∀ printer : Printer Tag, (call.parseStats name numbered printer).isSome := by
    intro printer
    unfold UserCommands.parseStats
    rw [if_pos statistic]
    apply run_isSome
    intro sent member before
    obtain ⟨-, placed, -, handle⟩ := exists_handle_statsSent member
    unfold UserCommands.sendStat LogStatControl.sendStatCommand
    rw [handle]
    rfl
  have logs : ∀ printer : Printer Tag, (call.parseLogs name numbered printer).isSome := by
    intro printer
    unfold UserCommands.parseLogs
    split
    · rename_i log
      have printTag : call.cmd = .printTag := by
        revert statistic log
        cases call.cmd <;> decide
      rw [if_neg (by rw [printTag]; decide)]
      exact run_isSome (call.sendLog numbered.2) fun sent member before =>
        sendLog_printTag printTag numbered.2 member before
    · rfl
  obtain ⟨next, first⟩ := Option.isSome_iff_exists.mp
    (stats (printer.setPrintOptions numbered.1.printOptions))
  unfold UserCommands.parseDesc
  rw [first]
  exact logs next

/-! ### What the printer holds -/

/-- What is held of a selection. -/
theorem Selection.shows_of_mem {selection : Selection Tag Sample} {elem : StatDisplay Tag}
    (member : elem ∈ selection.displays name) : selection.Shows name elem := by
  obtain ⟨sent, sends, rfl⟩ := List.mem_map.mp member
  obtain ⟨command, placed, -, handle⟩ := exists_handle_statsSent sends
  refine ⟨?_, rfl, placed, handle, ?_⟩
  · rw [← command]
    exact sends
  · show ((LogStatControl.sendStatCommand selection.call.object.theStats _ sent).map
      Prod.snd).getD {} = _
    unfold LogStatControl.sendStatCommand
    rw [handle, ← command]
    rfl

theorem Selection.map_tag_displays (selection : Selection Tag Sample) :
    (selection.displays name).map StatDisplay.tag = selection.tags name := List.map_map

theorem held_of_holds {calls : List (UserCommands Tag Sample)}
    (holds : printer.Holds ((selections calls).flatMap (Selection.displays name))) :
    Held name calls printer := by
  have tags : ((selections calls).flatMap (Selection.displays name)).map StatDisplay.tag =
      (selections calls).flatMap (Selection.tags name) := by
    rw [List.map_flatMap]
    exact List.flatMap_congr fun selection _ => selection.map_tag_displays
  refine ⟨?_, fun tag => ?_, fun elem member => ?_, ?_,
    fun elem member => Printer.indents_of_le (holds.statDepth elem member),
    fun elem member => Printer.indents_of_le (holds.logDepth elem member),
    fun selection member dotFree closed node inside => ?_⟩
  · rw [holds.stats]
    exact nodup_map_lasts _ _
  · rw [holds.stats, mem_map_lasts, tags]
    exact List.mem_flatMap
  · rw [holds.stats] at member
    obtain ⟨earlier, selection, later, split, shown, absent⟩ := exists_of_mem_lasts member
    refine ⟨earlier, selection, later, split, Selection.shows_of_mem shown, fun other belongs => ?_⟩
    rw [← other.map_tag_displays]
    exact absent other belongs
  · rw [holds.stats, map_lasts, tags]
  · have statistic : isStatisticCommand selection.call.cmd := by
      obtain ⟨call, -, selected⟩ := List.mem_flatMap.mp member
      unfold UserCommands.selections at selected
      split at selected
      · rename_i statistic
        obtain ⟨numbered, -, rfl⟩ := List.mem_map.mp selected
        exact statistic
      · cases selected
    have known : selection.call.cmd ≠ .noCmd := by
      intro none
      rw [none] at statistic
      cases statistic
    exact label_mem_tagCommander selection.call.object.distinctStats dotFree known closed inside

/-- **Several tags, and several control objects in turn.** After any calls that return, the printer
holds what was selected, as it was selected last, and can indent it; and every further call with a
statistics command returns. -/
theorem parseUserCommands_held {calls : List (UserCommands Tag Sample)}
    (runs : parseAll name calls = some printer) :
    Held name calls printer ∧ ∀ call, isStatisticCommand call.cmd →
      ∃ next, parseAll name (calls ++ [call]) = some next ∧ Held name (calls ++ [call]) next := by
  refine ⟨held_of_holds (holds_parseAll runs), fun call statistic => ?_⟩
  have returns : (parseUserCommands name printer call).isSome := by
    apply run_isSome
    intro numbered _ before
    exact parseDesc_isSome statistic before numbered
  obtain ⟨next, last⟩ := Option.isSome_iff_exists.mp returns
  have all : parseAll name (calls ++ [call]) = some next := (run_concat _).mpr ⟨printer, runs, last⟩
  exact ⟨next, all, held_of_holds (holds_parseAll all)⟩

end

/-- A tree of two stats. -/
def twoStats : ControlObject Nat Nat where
  statTagToType _ := .element .nullStat
  statTagTree := .parent 0 [.leaf 1, .leaf 2]
  logTagTree := .leaf 3
  mem _ := 0
  distinctStats := by decide
  distinctLogs := List.nodup_singleton 3

def twoStatsName : Nat → List Char
  | 0 => ['a']
  | 1 => ['b']
  | _ => ['c']

/-- The whole tree first, then one of its stats with an index filter. -/
def overlapping : UserCommands Nat Nat where
  object := twoStats
  tagDispDescs := [⟨['a'], {}⟩, ⟨['a', '.', 'b'], ⟨['1', '-', '2']⟩⟩]
  cmd := .printTag
  found _ _ _ := 0

theorem parseUserCommands_held_overlapping : ∃ printer,
    parseAll twoStatsName [overlapping] = some printer ∧ Held twoStatsName [overlapping] printer :=
  ⟨_, rfl, (parseUserCommands_held rfl).1⟩

/-- The stat selected twice comes last. -/
example : (parseAll twoStatsName [overlapping]).map Printer.printTags =
    some ["STATS:", "a", "\tc", "\tb"] := by decide +kernel

end StatLog.Control
