/-
**From a write to the console.**

`--dump-stats` prints the selected stats, and of each of them the elements whose indices a filter admits.
Every line is known from the writes, the clears and the serializer's visits, and from nothing else.

* `nested_dimensions`: every stat is an array of arrays ... of elements.
* `entryLines_filter`, `printDumpStat_entries`: the lines of one stat under a filter.
* `statLines`: what the calls to a stat say about its lines.
* `DumpShown`: a call of `--dump-stats`, with the calls before each visit of a stat.
* **`dumpStats_console`**: the text on the console.
-/

import StatLog.Control.ArrayDisplay
import StatLog.Control.CommandLine
import StatLog.Stats.TypeTitle

namespace StatLog.Control

open ByteMemory MixedRadix Outline RoseTree Stats Tags Transition

/-! ### The lines of one stat -/

section

variable {Sample : Type}

/-- **Every stat is an array of arrays ... of elements.** -/
theorem nested_dimensions (type : StatType Sample) :
    StatType.nested type.dimensions type.elementType = type := by
  induction type with
  | element type => rfl
  | statArray size entry ih => exact congrArg (StatType.statArray size) ih

/-- A null stat shows nothing. -/
def isNull : ElementType Sample → Bool
  | .nullStat => true
  | _ => false

/-- Any other element has one entry. -/
theorem length_expected {element : ElementType Sample} (shown : isNull element = false)
    (calls : List (StatCall Sample)) : (element.expected calls).length = 1 := by
  cases element with
  | simpleStat stat => rfl
  | nullStat => cases shown
  | accumulator features => rfl

/-- Indices below the sizes fit a `size_t`. -/
theorem le_sizeMax_of_mem {sizes idx : List Nat} (fits : ∀ size ∈ sizes, size ≤ sizeMax)
    (inside : idx ∈ tuples sizes) : ∀ index ∈ idx, index ≤ sizeMax := by
  intro index member
  obtain ⟨size, among, less⟩ := exists_size_of_mem (mem_tuples.mp inside) member
  exact less.le.trans (fits size among)

variable {output : StatCmdOutput} {sizes : List Nat} {shown : List Nat → String}

/-- What the filter says of the entry with the given number. -/
theorem doPrint_digits (filter : IndexFilter) (fits : ∀ size ∈ sizes, size ≤ sizeMax) {number : Nat}
    (below : number < (tuples sizes).length) :
    doPrint (perDimRanges filter.text) (digits sizes number) =
      some (decide (filter.Admits (digits sizes number))) := by
  rw [digits_eq_getElem below]
  exact filter.doPrint_text (le_sizeMax_of_mem fits (List.getElem_mem below))

/-- **The lines of the entries that a filter admits.** -/
theorem entryLines_filter (filter : IndexFilter) (fits : ∀ size ∈ sizes, size ≤ sizeMax)
    (dimensions : output.dimensionSizes = sizes) (entries : output.entries = (tuples sizes).map shown) :
    entryLines filter.text output =
      some (((tuples sizes).filter fun idx => filter.Admits idx).map
        fun idx => (dimString idx, shown idx)) := by
  have count : output.entries.length = (tuples sizes).length := by rw [entries, List.length_map]
  have lines := entryLinesFrom_eq (fun idx => decide (filter.Admits idx)) 0 output.entries
    fun number _ below => doPrint_digits filter fits (by omega)
  rw [map_digits_zipIdx (by rw [count, length_tuples]), entries, List.zip_eq_zipWith,
    List.zipWith_map_right, List.zipWith_self, List.filter_map, List.map_map, ← entries] at lines
  unfold entryLines
  rw [dimensions]
  exact lines

/-- **What is printed of a stat with entries.** -/
theorem printDumpStat_entries (name : String) (filter : IndexFilter)
    (positive : ∀ size ∈ sizes, 0 < size) (fits : ∀ size ∈ sizes, size ≤ sizeMax)
    (dimensions : output.dimensionSizes = sizes) (entries : output.entries = (tuples sizes).map shown) :
    ∃ title, title.length ≤ 1 ∧ printDumpStat name filter.text output =
      some (name :: title ++ ((tuples sizes).filter fun idx => filter.Admits idx).map
        fun idx => dimString idx ++ shown idx) := by
  have some' : 0 < (tuples sizes).length := by
    rw [length_tuples]
    exact List.prod_pos_iff_forall_pos_nat.mpr positive
  have nonempty : output.entries ≠ [] := by
    rw [entries]
    exact List.ne_nil_of_length_pos (by rw [List.length_map]; exact some')
  obtain ⟨title, single, printed⟩ : ∃ title, title.length ≤ 1 ∧
      titleLines filter.text output = some title := by
    unfold titleLines
    split
    · exact ⟨[], Nat.zero_le 1, rfl⟩
    · rw [idxToDimString_eq, dimensions, doPrint_digits filter fits some']
      exact ⟨_, le_rfl, rfl⟩
  refine ⟨title, single, ?_⟩
  unfold printDumpStat
  rw [if_neg nonempty, printed, entryLines_filter filter fits dimensions entries]
  show some (name :: title ++ (List.map _ _).map _) = _
  rw [List.map_map]
  rfl

/-- **What is printed of a stat**, after these calls to it. -/
def statLines (name : List Char) (filter : IndexFilter) (title : List String) (type : StatType Sample)
    (calls : List (StatCall Sample)) : List String :=
  if isNull type.elementType then []
  else String.ofList name :: title ++
    ((tuples type.dimensions).filter fun idx => filter.Admits idx).map fun idx =>
      dimString idx ++ (type.elementType.expected (callsFor type.dimensions idx calls)).headD ""

/-- The lines of a stat that shows what its calls say. -/
theorem printDumpStat_expected (name : List Char) (filter : IndexFilter) {type : StatType Sample}
    (sizes : ∀ size ∈ type.dimensions, 0 < size ∧ size ≤ sizeMax) {calls : List (StatCall Sample)}
    (dimensions : output.dimensionSizes = type.dimensions)
    (entries : output.entries = (tuples type.dimensions).flatMap fun idx =>
      type.elementType.expected (callsFor type.dimensions idx calls)) :
    ∃ title, title.length ≤ 1 ∧ printDumpStat (String.ofList name) filter.text output =
      some (statLines name filter title type calls) := by
  unfold statLines
  by_cases null : isNull type.elementType = true
  · refine ⟨[], Nat.zero_le 1, ?_⟩
    have nothing : output.entries = [] := by
      rw [entries]
      refine List.flatMap_eq_nil_iff.mpr fun idx _ => ?_
      cases element : type.elementType with
      | nullStat => rfl
      | simpleStat stat =>
        rw [element] at null
        cases null
      | accumulator features =>
        rw [element] at null
        cases null
    rw [if_pos null, printDumpStat, if_pos nothing]
  · rw [flatMap_eq_map_of_length fun idx => length_expected (eq_false_of_ne_true null) _] at entries
    obtain ⟨title, single, printed⟩ := printDumpStat_entries (String.ofList name) filter
      (fun size member => (sizes size member).1) (fun size member => (sizes size member).2) dimensions
      entries
    refine ⟨title, single, ?_⟩
    rw [printed, if_neg null]

/-- The lines of several stats, if each of them has lines. -/
theorem mapM_lines {Display : Type} {lines : Display → Option (List String)}
    {expected : Display → List String} {displays : List Display}
    (each : ∀ elem ∈ displays, lines elem = some (expected elem)) :
    displays.mapM lines = some (displays.map expected) := by
  induction displays with
  | nil => rfl
  | cons elem displays ih =>
    rw [List.mapM_cons, each elem List.mem_cons_self,
      ih fun other member => each other (List.mem_cons_of_mem _ member)]
    rfl

end

/-! ### A command line that dumps -/

/-- `--dump-stats` is the command. -/
structure VariablesMap.AsksDump (vm : VariablesMap) : Prop where
  help : vm.help = false
  showTags : vm.showTags = false
  statTypes : vm.statTypes = false
  dumpStats : vm.dumpStats = true

section

variable {Tag Sample : Type}

/-- The call for these options. -/
def VariablesMap.dumpCall (vm : VariablesMap) (object : ControlObject Tag Sample)
    (found : Nat → TagHandle Tag → Mem) : UserCommands Tag Sample where
  object := object
  tagDispDescs := tagDispDescs (vm.tags.getD [])
  cmd := .dumpStat
  found := found

theorem VariablesMap.AsksDump.userCommands {vm : VariablesMap} (asks : vm.AsksDump)
    (object : ControlObject Tag Sample) (found : Nat → TagHandle Tag → Mem) :
    vm.userCommands object found = some (vm.dumpCall object found) := by
  have command : vm.command = (.dumpStat, .empty) := by
    unfold VariablesMap.command
    rw [asks.showTags, asks.statTypes, asks.dumpStats]
    rfl
  unfold VariablesMap.userCommands parseCommandLineArgs
  rw [asks.help, command]
  rfl

variable [DecidableEq Tag] {name : Tag → List Char} {call : UserCommands Tag Sample}
  {desc : TagDisplayDesc} {loggers : Nat} {mem₀ : Mem} {before : Tag → List (TagCall Tag Sample)}

/-- **The visits of a dump.** The shared memory that it finds at a stat is the one left by the calls so
far, from the start of the operational process; the serializer has come by since the last write, if the
stat needs it. -/
structure DumpShown (name : Tag → List Char) (object : ControlObject Tag Sample) (loggers : Nat)
    (mem₀ : Mem) (found : Nat → TagHandle Tag → Mem) (before : Tag → List (TagCall Tag Sample)) :
    Prop where
  compiles : ∀ tag ∈ object.statTagTree.leavesBelow, ∀ tagCall ∈ before tag,
    tagCall.Compiles object.statTagTree object.logTagTree
  found : ∀ tag ∈ object.statTagTree.leavesBelow, ∃ state,
    let operational :=
      LogStatBase.init object.statTagToType true object.statTagTree object.logTagTree mem₀
    run (callStep name loggers operational object.control) (fun _ _ => [], operational.mem)
      (before tag) = some state ∧ found 0 (.stat tag) = state.2
  plain : ∀ tag ∈ object.statTagTree.leavesBelow, (object.statTagToType tag).dimensions = [] →
    ∀ statCall ∈ callsTo object.statTagTree (.stat tag) (before tag), StatCall.Direct statCall
  fresh : ∀ tag ∈ object.statTagTree.leavesBelow,
    (object.statTagToType tag).elementType.isSerializationDeferred = true →
      ∀ idx ∈ tuples (object.statTagToType tag).dimensions,
        serializedSince (callsFor (object.statTagToType tag).dimensions idx
          (callsTo object.statTagTree (.stat tag) (before tag))) = true

variable (name desc) in
/-- What is shown of a node is what DUMP_STAT answers. -/
theorem dumpStat_statShown (command : call.cmd = .dumpStat) {node : LabelTree.Node Tag}
    (known : node.label ∈ call.object.statTagTree.labels) :
    LogStatControl.dumpStat call.object.theStats (call.found 0 (.stat node.label)) node.label =
      some (call.statShown name desc node).statOutput := by
  obtain ⟨placed, -, -, handle, -⟩ := exists_controlNode call.object.statTagToType
    call.object.logTagTree call.object.mem call.object.distinctStats known
  have sends : LogStatControl.sendStatCommand call.object.theStats (call.found 0 (.stat node.label))
      (sentTo name .dumpStat 0 node) =
        some (placed.item.doCommand placed.offset .dumpStat (call.found 0 (.stat node.label))) := by
    show (getHandle call.object.theStats node.label).bind _ = _
    rw [ControlObject.theStats, ControlObject.control, handle]
    rfl
  have output : (call.statShown name desc node).statOutput =
      ((LogStatControl.sendStatCommand call.object.theStats (call.found 0 (.stat node.label))
        (sentTo name call.cmd 0 node)).map Prod.snd).getD {} := rfl
  rw [output, command, sends]
  show (getHandle call.object.theStats node.label).map _ = _
  rw [ControlObject.theStats, ControlObject.control, handle]
  rfl

variable (desc) in
/-- **What one visit comes to.** -/
theorem DumpShown.statShown (shown : DumpShown name call.object loggers mem₀ call.found before)
    (command : call.cmd = .dumpStat)
    (sizes : ∀ tag ∈ call.object.statTagTree.leavesBelow,
      ∀ size ∈ (call.object.statTagToType tag).dimensions, 0 < size)
    {node : LabelTree.Node Tag} (leaf : node.label ∈ call.object.statTagTree.leavesBelow) :
    let type := call.object.statTagToType node.label
    (call.statShown name desc node).statOutput.dimensionSizes = type.dimensions ∧
      (call.statShown name desc node).statOutput.entries = (tuples type.dimensions).flatMap fun idx =>
        type.elementType.expected (callsFor type.dimensions idx
          (callsTo call.object.statTagTree (.stat node.label) (before node.label))) := by
  intro type
  obtain ⟨state, runs, memory⟩ := shown.found _ leaf
  obtain ⟨output, dumps, dimensions, entries⟩ := dumpStat_of_calls call.object.distinctStats
    call.object.distinctLogs (shown.compiles _ leaf) runs leaf (nested_dimensions type).symm
    (sizes _ leaf) (shown.plain _ leaf) (shown.fresh _ leaf)
  rw [← memory] at dumps
  have answer := dumpStat_statShown name desc command (LabelTree.mem_labels_of_mem_leavesBelow leaf)
  obtain rfl := Option.some.inj (dumps.symm.trans answer)
  exact ⟨dimensions, entries⟩

/-- A parent has nothing to show. -/
theorem statShown_parent (command : call.cmd = .dumpStat) {node : LabelTree.Node Tag}
    (known : node.label ∈ call.object.statTagTree.labels)
    (parent : node.label ∉ call.object.statTagTree.leavesBelow) :
    (call.statShown name desc node).statOutput.entries = [] := by
  have answer := dumpStat_statShown name desc command known
  obtain ⟨placed, member, same, handle, -⟩ := exists_controlNode call.object.statTagToType
    call.object.logTagTree call.object.mem call.object.distinctStats known
  have nodeClass := (nodeClass_control call.object.distinctStats member).2 (same.symm ▸ parent)
  unfold LogStatControl.dumpStat ControlObject.theStats ControlObject.control at answer
  rw [handle] at answer
  rw [← Option.some.inj answer]
  show (placed.item.doCommand placed.offset .dumpStat _).2.entries = _
  unfold LogStatNode.doCommand
  rw [nodeClass]

variable (desc) in
/-- **The lines of one node.** -/
theorem exists_printDumpStat (filter : IndexFilter)
    (shown : DumpShown name call.object loggers mem₀ call.found before) (command : call.cmd = .dumpStat)
    (sizes : ∀ tag ∈ call.object.statTagTree.leavesBelow,
      ∀ size ∈ (call.object.statTagToType tag).dimensions, 0 < size ∧ size ≤ sizeMax)
    {node : LabelTree.Node Tag} (known : node.label ∈ call.object.statTagTree.labels) :
    ∃ title : List String, title.length ≤ 1 ∧
      printDumpStat (String.ofList (name node.label)) filter.text
          (call.statShown name desc node).statOutput =
        some (if node.label ∈ call.object.statTagTree.leavesBelow then
          statLines (name node.label) filter title (call.object.statTagToType node.label)
            (callsTo call.object.statTagTree (.stat node.label) (before node.label))
        else []) := by
  by_cases leaf : node.label ∈ call.object.statTagTree.leavesBelow
  · obtain ⟨dimensions, entries⟩ := shown.statShown desc command
      (fun tag member size among => (sizes tag member size among).1) leaf
    simp only [if_pos leaf]
    exact printDumpStat_expected (name node.label) filter (sizes _ leaf) dimensions entries
  · refine ⟨[], Nat.zero_le 1, ?_⟩
    rw [if_neg leaf, printDumpStat, if_pos (statShown_parent command known leaf)]

/-- **The lines on the console**, from the calls before each visit alone. -/
def consoleLines (name : Tag → List Char) (object : ControlObject Tag Sample) (path : List Char)
    (filter : IndexFilter) (title : LabelTree.Node Tag → List String)
    (before : Tag → List (TagCall Tag Sample)) : List String :=
  let denoted := denotedNodes name object.statTagTree path
  (if denoted.isEmpty then [] else ["STAT VALUES:"]) ++ denoted.flatMap fun node =>
    if node.label ∈ object.statTagTree.leavesBelow then
      statLines (name node.label) filter (title node) (object.statTagToType node.label)
        (callsTo object.statTagTree (.stat node.label) (before node.label))
    else []

/-- **The display of a dump.** -/
theorem showOutput_dumpStat (shown : DumpShown name call.object loggers mem₀ call.found before)
    (command : call.cmd = .dumpStat) {path : List Char} {filter : IndexFilter}
    (single : call.tagDispDescs = [⟨path, ⟨filter.text⟩⟩]) (closed : path.getLast? ≠ some '.')
    (dotFreeStats : ∀ tag ∈ call.object.statTagTree.labels, '.' ∉ name tag)
    (dotFreeLogs : ∀ tag ∈ call.object.logTagTree.labels, '.' ∉ name tag)
    (sizes : ∀ tag ∈ call.object.statTagTree.leavesBelow,
      ∀ size ∈ (call.object.statTagToType tag).dimensions, 0 < size ∧ size ≤ sizeMax) :
    ∃ (printer : Printer Tag) (title : LabelTree.Node Tag → List String),
      parseUserCommands name {} call = some printer ∧
      (∀ node ∈ denotedNodes name call.object.statTagTree path, (title node).length ≤ 1) ∧
      printer.showOutput = some (consoleLines name call.object path filter title before) := by
  have statistic : isStatisticCommand call.cmd := by rw [command]; rfl
  obtain ⟨printer, runs⟩ := Option.isSome_iff_exists.mp (parseUserCommands_isSome name statistic {})
  have printed := parseUserCommands_single single dotFreeStats dotFreeLogs closed
    (by rw [command]; decide) runs
  have statNodes : call.statNodes name ⟨path, ⟨filter.text⟩⟩ =
      denotedNodes name call.object.statTagTree path := if_pos statistic
  have labels : ∀ node ∈ denotedNodes name call.object.statTagTree path,
      node.label ∈ call.object.statTagTree.labels := by
    intro node member
    rw [← LabelTree.map_label_nodes]
    exact List.mem_map_of_mem (List.mem_filter.mp member).1
  have lines := fun (node : LabelTree.Node Tag)
      (known : node.label ∈ call.object.statTagTree.labels) =>
    exists_printDumpStat ⟨path, ⟨filter.text⟩⟩ filter shown command sizes known
  choose! title few each using lines
  have mapped := mapM_lines fun node member => each node (labels node member)
  refine ⟨printer, title, runs, fun node member => few node (labels node member), ?_⟩
  unfold Printer.showOutput
  rw [printed.command, command]
  unfold Printer.printDumpStat
  rw [printed.stats, statNodes, List.isEmpty_map, List.mapM_map]
  exact congrArg (· >>= _) mapped

end

/-- **What `--dump-stats` prints.** The lines on the console are those of the stats that the path denotes,
in pre-order. Of each stat that is none of the null stats they are its name, at most one line of titles,
and for every element whose indices the filter admits, in order, its indices and what the writes and
clears of that element say, up to the moment when the stat was visited. -/
theorem dumpStats_console {Tag Sample : Type} [DecidableEq Tag] (name : Tag → List Char)
    {object : ControlObject Tag Sample} {vm : VariablesMap} (asks : vm.AsksDump)
    {found : Nat → TagHandle Tag → Mem} {call : UserCommands Tag Sample}
    (parsed : vm.userCommands object found = some call) {path : List Char} {filter : IndexFilter}
    (single : tagDispDescs (vm.tags.getD []) = [⟨path, ⟨filter.text⟩⟩])
    (closed : path.getLast? ≠ some '.')
    (dotFreeStats : ∀ tag ∈ object.statTagTree.labels, '.' ∉ name tag)
    (dotFreeLogs : ∀ tag ∈ object.logTagTree.labels, '.' ∉ name tag)
    (sizes : ∀ tag ∈ object.statTagTree.leavesBelow, ∀ size ∈ (object.statTagToType tag).dimensions,
      0 < size ∧ size ≤ sizeMax)
    {loggers : Nat} {mem₀ : Mem} {before : Tag → List (TagCall Tag Sample)}
    (shown : DumpShown name object loggers mem₀ found before) :
    ∃ (printer : Printer Tag) (title : LabelTree.Node Tag → List String),
      parseUserCommands name {} call = some printer ∧
      (∀ node ∈ denotedNodes name object.statTagTree path, (title node).length ≤ 1) ∧
      printer.showOutput = some (consoleLines name object path filter title before) := by
  rw [asks.userCommands] at parsed
  obtain rfl := Option.some.inj parsed
  exact showOutput_dumpStat shown rfl single closed dotFreeStats dotFreeLogs sizes

/-- An array of arrays of counters next to a null stat. -/
def radioStats : ControlObject Nat Nat where
  statTagToType
    | 1 => .nested [4, 2] unsignedCounter
    | _ => .element .nullStat
  statTagTree := .parent 0 [.leaf 1, .leaf 3]
  logTagTree := .leaf 8
  mem _ := 0
  distinctStats := by decide
  distinctLogs := List.nodup_singleton 8

/-- `--dump-stats --tags R:1.2-,0` -/
def dumpRows : VariablesMap where
  dumpStats := true
  tags := some ["R:1.2-,0".toList]

def rowWrites : List (TagCall Nat Nat) :=
  [.writeStat 1 [3, 0] 5, .writeStat 1 [1, 1] 9, .writeStat 1 [3, 0] 2]

def runRows : Option (OpState Nat Nat) :=
  let operational := LogStatBase.init radioStats.statTagToType true radioStats.statTagTree
    radioStats.logTagTree fun _ => 9
  run (callStep smallRadioName 0 operational radioStats.control) (fun _ _ => [], operational.mem)
    rowWrites

theorem dumpStats_console_rows : ∃ call, ∃ printer title,
    dumpRows.userCommands radioStats (fun _ _ => (runRows.map Prod.snd).getD fun _ => 0) = some call ∧
      parseUserCommands smallRadioName {} call = some printer ∧ title.length ≤ 1 ∧
      printer.showOutput = some (["STAT VALUES:", String.ofList ['C', 'R', 'C']] ++ title ++
        ["1,0: 0", "2,0: 0", "3,0: 7"]) := by
  have asks : dumpRows.AsksDump := ⟨rfl, rfl, rfl, rfl⟩
  have parsed := asks.userCommands radioStats fun _ _ => (runRows.map Prod.snd).getD fun _ => 0
  have returns : runRows.isSome := rfl
  obtain ⟨state, runs⟩ := Option.isSome_iff_exists.mp returns
  have values : ((tuples [4, 2]).filter fun idx => rowsFilter.Admits idx).map (fun idx => dimString idx ++
      (unsignedCounter.expected (callsFor [4, 2] idx
        (callsTo radioStats.statTagTree (.stat 1) rowWrites))).headD "") =
      ["1,0: 0", "2,0: 0", "3,0: 7"] := by
    decide +kernel
  have compiles : ∀ tagCall ∈ rowWrites,
      tagCall.Compiles radioStats.statTagTree radioStats.logTagTree := by
    decide
  have single : tagDispDescs (dumpRows.tags.getD []) = [⟨['R'], ⟨rowsFilter.text⟩⟩] := by decide +kernel
  obtain ⟨printer, title, parses, few, shows⟩ := dumpStats_console smallRadioName asks parsed single
    (by decide) (by decide) (by decide) (by decide) ⟨fun _ _ => compiles,
      fun _ _ => ⟨state, runs, by show (runRows.map Prod.snd).getD _ = _; rw [runs]; rfl⟩,
      by decide, by decide⟩
  have denoted : denotedNodes smallRadioName radioStats.statTagTree ['R'] = 
    [⟨[], 0⟩, ⟨[0], 1⟩, ⟨[0], 3⟩] := rfl
  rw [denoted] at few
  refine ⟨_, printer, title ⟨[0], 1⟩, parsed, parses, few _ (by simp), shows.trans (congrArg some ?_)⟩
  unfold consoleLines
  rw [denoted, ← values]
  exact congrArg ("STAT VALUES:" :: ·) (List.append_nil _)

end StatLog.Control
