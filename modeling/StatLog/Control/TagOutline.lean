/-
**Displays of a tag tree, read back.**

`show-tags`, `stat-types` and `log-level` print the selected tags as an outline. What they print is
enough to tell the hierarchy of the tags, and what each of them answered.

* `UserCommands.logDisplay`: what is shown of a log tag.
* `run_sendStat`, `run_sendLog`, `parseUserCommands_single`: what one path leaves in a fresh printer.
* `outputLines`, `showOutput_eq`: the three displays in one form.
* `textOf`, `readDisplay`: the printed text and its reader, with `sections` for its two parts.
* `readDisplay_showOutput`: the reader finds the routes and the answers of the denoted tags.
* **`showTags_roundTrip`**: the text of `show-tags` gives the full names of exactly these tags.
-/

import StatLog.Control.UserCommands
import StatLog.Tags.PathForest

namespace StatLog.Control

open ByteMemory LastByKey Outline RoseTree Stats Tags Transition

variable {Tag Sample : Type}

/-! ### One path in a fresh printer -/

section

variable [DecidableEq Tag] {name : Tag → List Char} {call : UserCommands Tag Sample}
  {desc : TagDisplayDesc} {number : Nat} {before next : Printer Tag}

/-- What is shown of one of the log tags. -/
def UserCommands.logDisplay (call : UserCommands Tag Sample) (number : Nat)
    (sent : TagInfo Tag × StatCmd) : LogDisplay Tag where
  tagInfo := sent.1
  logOutput := ((LogStatControl.sendLogCommand call.object.theLogs call.cmdArg
    (call.found number (.log sent.1.tagIndex)) sent).map Prod.snd).getD ""

/-- The least of some depths and of `min_tag_depth`. -/
def leastDepth (start : Nat) (sent : List (TagInfo Tag × StatCmd)) : Nat :=
  sent.foldl (fun least one => min least one.1.depth) start

omit [DecidableEq Tag] in
theorem leastDepth_append (start : Nat) (first second : List (TagInfo Tag × StatCmd)) :
    leastDepth start (first ++ second) = leastDepth (leastDepth start first) second :=
  List.foldl_append

omit [DecidableEq Tag] in
theorem depthWith_eq (printer : Printer Tag) (tagInfo : TagInfo Tag) :
    printer.depthWith tagInfo = min printer.minTagDepth tagInfo.depth := by
  unfold Printer.depthWith
  split <;> omega

/-- **What the stats of a path leave in a printer** without stats. -/
theorem run_sendStat (empty : before.statTagsVector = [])
    (options : before.printOptions = desc.printOptions) {sent : List (TagInfo Tag × StatCmd)}
    (runs : run (call.sendStat number) before sent = some next) :
    next = { before with
      statTagsVector := lasts StatDisplay.tag (sent.map (Selection.display ⟨call, desc, number⟩))
      minTagDepth := leastDepth before.minTagDepth sent } := by
  refine run_induction (call.sendStat number) (fun sent printer => printer = { before with
    statTagsVector := lasts StatDisplay.tag (sent.map (Selection.display ⟨call, desc, number⟩))
    minTagDepth := leastDepth before.minTagDepth sent }) ?_ ?_ runs
  · show before = { before with statTagsVector := [], minTagDepth := before.minTagDepth }
    rw [← empty]
  · rintro history _ one after rfl taken
    obtain ⟨result, found, added⟩ := Option.bind_eq_some_iff.mp taken
    cases added
    have display : Selection.display ⟨call, desc, number⟩ one =
        ⟨one.1, before.printOptions, result.2⟩ := by
      unfold Selection.display
      rw [found, options]
      rfl
    rw [List.map_append, List.map_singleton, lasts_concat, leastDepth_append, display]
    unfold Printer.addStatOutput
    rw [depthWith_eq]
    rfl

/-- **What its logs leave** in a printer without logs. -/
theorem run_sendLog (empty : before.logTagsVector = []) {sent : List (TagInfo Tag × StatCmd)}
    (runs : run (call.sendLog number) before sent = some next) :
    next = { before with
      logTagsVector := lasts LogDisplay.tag (sent.map (call.logDisplay number))
      minTagDepth := leastDepth before.minTagDepth sent } := by
  refine run_induction (call.sendLog number) (fun sent printer => printer = { before with
    logTagsVector := lasts LogDisplay.tag (sent.map (call.logDisplay number))
    minTagDepth := leastDepth before.minTagDepth sent }) ?_ ?_ runs
  · show before = { before with logTagsVector := [], minTagDepth := before.minTagDepth }
    rw [← empty]
  · rintro history _ one after rfl taken
    obtain ⟨result, found, added⟩ := Option.bind_eq_some_iff.mp taken
    cases added
    have display : call.logDisplay number one = ⟨one.1, result.2⟩ := by
      unfold UserCommands.logDisplay
      rw [found]
      rfl
    rw [List.map_append, List.map_singleton, lasts_concat, leastDepth_append, display]
    unfold Printer.addLogOutput
    rw [depthWith_eq]
    rfl

omit [DecidableEq Tag] in
theorem le_leastDepth {least start : Nat} {sent : List (TagInfo Tag × StatCmd)} (first : least ≤ start)
    (all : ∀ one ∈ sent, least ≤ one.1.depth) : least ≤ leastDepth start sent := by
  induction sent generalizing start with
  | nil => exact first
  | cons one sent ih =>
    exact ih (le_min first (all one List.mem_cons_self))
      fun other member => all other (List.mem_cons_of_mem _ member)

omit [DecidableEq Tag] in
theorem leastDepth_le_start (start : Nat) (sent : List (TagInfo Tag × StatCmd)) :
    leastDepth start sent ≤ start := by
  induction sent generalizing start with
  | nil => exact le_rfl
  | cons one sent ih => exact (ih _).trans (min_le_left _ _)

omit [DecidableEq Tag] in
theorem leastDepth_le {start : Nat} {sent : List (TagInfo Tag × StatCmd)} {one : TagInfo Tag × StatCmd}
    (member : one ∈ sent) : leastDepth start sent ≤ one.1.depth := by
  obtain ⟨earlier, later, rfl⟩ := List.append_of_mem member
  rw [leastDepth_append]
  exact (leastDepth_le_start _ later).trans (min_le_right _ _)

/-- The nodes of a tree that a path denotes. -/
def denotedNodes (name : Tag → List Char) (tree : LabelTree Tag) (path : List Char) :
    List (LabelTree.Node Tag) :=
  tree.nodes.filter fun node => Denotes name path node

namespace UserCommands

variable (call) (name) (desc)

/-- The stats and the logs that a command comes to. -/
def statNodes : List (LabelTree.Node Tag) :=
  if isStatisticCommand call.cmd then denotedNodes name call.object.statTagTree desc.tagHname else []

def logNodes : List (LabelTree.Node Tag) :=
  if isLogCommand call.cmd then denotedNodes name call.object.logTagTree desc.tagHname else []

/-- What is shown of a node. -/
def statShown (node : LabelTree.Node Tag) : StatDisplay Tag :=
  Selection.display ⟨call, desc, 0⟩ (sentTo name call.cmd 0 node)

def logShown (node : LabelTree.Node Tag) : LogDisplay Tag :=
  call.logDisplay 0 (sentTo name call.cmd 0 node)

end UserCommands

/-- **What one path leaves in a fresh printer.** -/
structure Printed (name : Tag → List Char) (call : UserCommands Tag Sample) (desc : TagDisplayDesc)
    (printer : Printer Tag) : Prop where
  command : printer.theCmd = call.cmd
  stats : printer.statTagsVector = (call.statNodes name desc).map (call.statShown name desc)
  logs : printer.logTagsVector = (call.logNodes name desc).map (call.logShown name)
  depth : printer.minTagDepth = leastDepth sizeMax
    ((call.statNodes name desc ++ call.logNodes name desc).map (sentTo name call.cmd 0))

omit [DecidableEq Tag] in
/-- The denoted nodes have different tags, if those of the tree are. -/
theorem nodup_denotedNodes {tree : LabelTree Tag} (distinct : tree.labels.Nodup) (path : List Char) :
    ((denotedNodes name tree path).map LabelTree.Node.label).Nodup := by
  rw [← LabelTree.map_label_nodes] at distinct
  exact distinct.sublist (List.filter_sublist.map _)

/-- **One path.** -/
theorem parseUserCommands_single (single : call.tagDispDescs = [desc])
    (dotFreeStats : ∀ tag ∈ call.object.statTagTree.labels, '.' ∉ name tag)
    (dotFreeLogs : ∀ tag ∈ call.object.logTagTree.labels, '.' ∉ name tag)
    (closed : desc.tagHname.getLast? ≠ some '.') (known : call.cmd ≠ .noCmd)
    (runs : parseUserCommands name {} call = some next) : Printed name call desc next := by
  have statsSent := tagCommander_denoted name _ dotFreeStats known closed
  have logsSent := tagCommander_denoted name _ dotFreeLogs known closed
  have parsed : call.parseDesc name (({} : Printer Tag).setCommand call.cmd) (desc, 0) = some next := by
    unfold parseUserCommands at runs
    rw [single] at runs
    obtain ⟨last, taken, rest⟩ := Option.bind_eq_some_iff.mp runs
    obtain rfl : last = next := Option.some.inj rest
    exact taken
  obtain ⟨stats, statsRun, logsRun⟩ := Option.bind_eq_some_iff.mp parsed
  have held : stats = { ((({} : Printer Tag).setCommand call.cmd).setPrintOptions desc.printOptions) with
      statTagsVector := (call.statNodes name desc).map (call.statShown name desc)
      minTagDepth := leastDepth sizeMax ((call.statNodes name desc).map (sentTo name call.cmd 0)) } := by
    unfold UserCommands.parseStats at statsRun
    unfold UserCommands.statNodes
    split at statsRun
    · rename_i statistic
      rw [if_pos statistic, run_sendStat rfl rfl statsRun, UserCommands.statsSent, statsSent,
        List.map_map, lasts_of_nodup]
      · rfl
      · rw [List.map_map]
        exact nodup_denotedNodes call.object.distinctStats _
    · rename_i other
      cases statsRun
      rw [if_neg other]
      rfl
  have empty : stats.logTagsVector = [] := by rw [held]; rfl
  unfold UserCommands.parseLogs at logsRun
  split at logsRun
  · rename_i log
    split at logsRun
    · cases logsRun
    · have nodes : call.logNodes name desc = denotedNodes name call.object.logTagTree desc.tagHname := by
        rw [UserCommands.logNodes, if_pos log]
      rw [run_sendLog empty logsRun, UserCommands.logsSent, logsSent, List.map_map, lasts_of_nodup, held]
      · refine ⟨rfl, rfl, ?_, ?_⟩
        · rw [nodes]
          rfl
        · rw [nodes, List.map_append, leastDepth_append]
          rfl
      · rw [List.map_map]
        exact nodup_denotedNodes call.object.distinctLogs _
  · rename_i other
    cases logsRun
    have nodes : call.logNodes name desc = [] := by rw [UserCommands.logNodes, if_neg other]
    rw [held]
    refine ⟨rfl, rfl, ?_, ?_⟩
    · rw [nodes]
      rfl
    · rw [nodes, List.append_nil]

/-! ### Lines -/

omit [DecidableEq Tag] in
/-- The displayed nodes are forests. -/
theorem forestBelow_statNodes (dotFree : ∀ tag ∈ call.object.statTagTree.labels, '.' ∉ name tag) :
    ForestBelow name (pathAbove desc.tagHname) (call.statNodes name desc) := by
  unfold UserCommands.statNodes
  split
  · exact forestBelow_denoted dotFree _
  · exact forestBelow_nil name _

omit [DecidableEq Tag] in
theorem forestBelow_logNodes (dotFree : ∀ tag ∈ call.object.logTagTree.labels, '.' ∉ name tag) :
    ForestBelow name (pathAbove desc.tagHname) (call.logNodes name desc) := by
  unfold UserCommands.logNodes
  split
  · exact forestBelow_denoted dotFree _
  · exact forestBelow_nil name _

omit [DecidableEq Tag] in
/-- Small levels are printed as they are. -/
theorem toList_indent {level : Nat} (small : level < 2 ^ 31) :
    (indent level).toList = marks '\t' level := by
  rw [indent, String.toList_ofList, intOfSize_of_lt small, Int.toNat_natCast]
  rfl

/-- **The roots are not indented**, and any other tag by its distance from them. -/
theorem Printed.indent_eq (printed : Printed name call desc next)
    (dotFreeStats : ∀ tag ∈ call.object.statTagTree.labels, '.' ∉ name tag)
    (dotFreeLogs : ∀ tag ∈ call.object.logTagTree.labels, '.' ∉ name tag)
    {node : LabelTree.Node Tag} (member : node ∈ call.statNodes name desc ++ call.logNodes name desc)
    (shallow : node.depth < 2 ^ 31) :
    (indent (next.level (sentTo name call.cmd 0 node).1)).toList =
      marks '\t' (node.depth - (pathAbove desc.tagHname).length) := by
  have stats : ForestBelow name (pathAbove desc.tagHname) (call.statNodes name desc) :=
    forestBelow_statNodes dotFreeStats
  have logs : ForestBelow name (pathAbove desc.tagHname) (call.logNodes name desc) :=
    forestBelow_logNodes dotFreeLogs
  have all : ∀ other ∈ call.statNodes name desc ++ call.logNodes name desc,
      (pathAbove desc.tagHname).length ≤ other.depth := by
    intro other belongs
    exact (List.mem_append.mp belongs).elim stats.length_le logs.length_le
  have root : ∃ root ∈ call.statNodes name desc ++ call.logNodes name desc,
      root.depth = (pathAbove desc.tagHname).length := by
    rcases List.mem_append.mp member with stat | log
    · obtain ⟨root, belongs, depth⟩ := stats.top (List.ne_nil_of_mem stat)
      exact ⟨root, List.mem_append_left _ belongs, depth⟩
    · obtain ⟨root, belongs, depth⟩ := logs.top (List.ne_nil_of_mem log)
      exact ⟨root, List.mem_append_right _ belongs, depth⟩
  have bound := all node member
  have least : next.minTagDepth = (pathAbove desc.tagHname).length := by
    rw [printed.depth]
    apply le_antisymm
    · obtain ⟨root, belongs, depth⟩ := root
      refine (leastDepth_le (List.mem_map_of_mem belongs)).trans ?_
      rw [sentTo, Nat.zero_add, depth]
    · refine le_leastDepth (by unfold sizeMax; omega) fun one sent => ?_
      obtain ⟨other, belongs, rfl⟩ := List.mem_map.mp sent
      rw [sentTo, Nat.zero_add]
      exact all other belongs
  have depth : (sentTo name call.cmd 0 node).1.depth = node.depth := Nat.zero_add _
  have indents : next.Indents (sentTo name call.cmd 0 node).1 := by
    apply Printer.indents_of_le
    rw [least, depth]
    exact bound
  have level := indents.2 (by rw [depth]; omega)
  rw [level, depth, least]
  exact toList_indent (by omega)

/-- The two lines of a tag, the second one for its answer. -/
def outputLines (printer : Printer Tag) (tagInfo : TagInfo Tag) (note : Option String) : List String :=
  (indent (printer.level tagInfo) ++ String.ofList tagInfo.name) ::
    (note.map fun note => indent (printer.level tagInfo) ++ "  " ++ note).toList

/-- The answers shown by a command. -/
def statNote (cmd : StatCmd) (display : StatDisplay Tag) : Option String :=
  match cmd with
  | .printStatType =>
    if display.statOutput.entryTitle.isEmpty then none else some display.statOutput.entryTitle
  | _ => none

def logNote (cmd : StatCmd) (display : LogDisplay Tag) : Option String :=
  match cmd with
  | .logLevel => some display.logOutput
  | _ => none

def statHeader : StatCmd → String
  | .printStatType => "STAT TYPES:"
  | _ => "STATS:"

/-- A part of a display. -/
def partLines {Display : Type} (header : String) (displays : List Display)
    (lines : Display → List String) : List String :=
  (if displays.isEmpty then [] else [header]) ++ displays.flatMap lines

def statPart (cmd : StatCmd) (printer : Printer Tag) : List String :=
  partLines (statHeader cmd) printer.statTagsVector fun elem =>
    outputLines printer elem.tagInfo (statNote cmd elem)

def logPart (cmd : StatCmd) (printer : Printer Tag) : List String :=
  partLines "LOG LEVELS:" printer.logTagsVector fun elem =>
    outputLines printer elem.tagInfo (logNote cmd elem)

/-- The commands whose display is an outline. -/
def IsOutline (cmd : StatCmd) : Prop := cmd = .printTag ∨ cmd = .printStatType ∨ cmd = .logLevel

/-- **The three displays in one form.** -/
theorem showOutput_eq (printed : Printed name call desc next) (outline : IsOutline call.cmd) :
    next.showOutput = some (statPart call.cmd next ++ logPart call.cmd next) := by
  have noStats : isStatisticCommand call.cmd = false → next.statTagsVector = [] := by
    intro other
    rw [printed.stats, UserCommands.statNodes, if_neg (by rw [other]; exact Bool.false_ne_true)]
    rfl
  have noLogs : isLogCommand call.cmd = false → next.logTagsVector = [] := by
    intro other
    rw [printed.logs, UserCommands.logNodes, if_neg (by rw [other]; exact Bool.false_ne_true)]
    rfl
  unfold Printer.showOutput
  rw [printed.command]
  rcases outline with printTag | printStatType | logLevel
  · rw [printTag]
    simp only [Printer.printTags, statPart, logPart, partLines, statNote, logNote, outputLines, statHeader,
      Option.map_none, Option.toList_none, List.append_assoc,
      ← List.map_eq_flatMap]
  · rw [printStatType] at noLogs ⊢
    simp only [Printer.printStatType, statPart, logPart, partLines, noLogs rfl, List.isEmpty_nil, if_true,
      List.flatMap_nil, List.append_nil]
    refine congrArg some (congrArg (_ ++ ·) (List.flatMap_congr fun elem _ => ?_))
    unfold outputLines statNote
    dsimp only
    split <;> rfl
  · rw [logLevel] at noStats ⊢
    simp only [Printer.printLogOutput, statPart, logPart, partLines, logNote, outputLines, noStats rfl]
    rfl

end

/-! ### The reader -/

/-- The lines on the standard output. -/
def textOf (lines : List String) : List Char := lines.flatMap fun line => line.toList ++ ['\n']

/-- The lines of a text in which every line ends with a newline. -/
def linesOf (text : List Char) : List (List Char) := (text.splitOn '\n').dropLast

theorem linesOf_textOf {lines : List String} (oneLine : ∀ line ∈ lines, '\n' ∉ line.toList) :
    linesOf (textOf lines) = lines.map String.toList := by
  suffices split : (textOf lines).splitOn '\n' = lines.map String.toList ++ [[]] by
    rw [linesOf, split, List.dropLast_concat]
  induction lines with
  | nil => rfl
  | cons line lines ih =>
    have rest := ih fun other member => oneLine other (List.mem_cons_of_mem _ member)
    rw [textOf, List.flatMap_cons, List.append_assoc, List.singleton_append,
      List.splitOn_append_cons_self_of_not_mem (oneLine line List.mem_cons_self), ← textOf, rest]
    rfl

def logHeader : List Char := "LOG LEVELS:".toList

/-- The lines of the stats and those of the logs, without headers. -/
def sections : List (List Char) → List (List Char) × List (List Char)
  | [] => ([], [])
  | header :: lines =>
    if header = logHeader then ([], lines)
    else (lines.takeWhile (· ≠ logHeader), (lines.dropWhile (· ≠ logHeader)).tail)

/-- What a display says of one tag: its route below the parent of the roots, and its answer. -/
structure ShownTag where
  route : List (List Char)
  note : Option (List Char)
  deriving DecidableEq

def readTags (lines : List (List Char)) : List ShownTag :=
  let items := readItems '\t' [' ', ' '] lines
  List.zipWith ShownTag.mk (routesFrom [] (items.map fun item => (item.level, item.label)))
    (items.map Item.note)

/-- **The reader of a display**: its stats and its logs. -/
def readDisplay (text : List Char) : List ShownTag × List ShownTag :=
  let parts := sections (linesOf text)
  (readTags parts.1, readTags parts.2)

/-- A name that paths and displays can carry. -/
structure PlainName (name : List Char) : Prop where
  nonempty : name ≠ []
  noDot : '.' ∉ name
  oneLine : '\n' ∉ name
  plain : PlainLabel '\t' [' ', ' '] name
  noHeader : name ≠ logHeader

instance (name : List Char) : Decidable (PlainName name) :=
  decidable_of_iff (name ≠ [] ∧ '.' ∉ name ∧ '\n' ∉ name ∧ PlainLabel '\t' [' ', ' '] name ∧
      name ≠ logHeader)
    ⟨fun plain => ⟨plain.1, plain.2.1, plain.2.2.1, plain.2.2.2.1, plain.2.2.2.2⟩,
      fun plain => ⟨plain.nonempty, plain.noDot, plain.oneLine, plain.plain, plain.noHeader⟩⟩

/-- **The headers tell the two parts.** -/
theorem sections_parts {header : List Char} (other : header ≠ logHeader)
    {stats logs : List (List Char)} (plain : logHeader ∉ stats) :
    sections ((if stats.isEmpty then [] else [header]) ++ stats ++
      ((if logs.isEmpty then [] else [logHeader]) ++ logs)) = (stats, logs) := by
  cases stats with
  | nil =>
    cases logs with
    | nil => rfl
    | cons line logs =>
      show sections (logHeader :: line :: logs) = _
      rw [sections, if_pos rfl]
  | cons first stats =>
    have all : ∀ line ∈ first :: stats, decide (line ≠ logHeader) = true := by
      intro line member
      refine decide_eq_true ?_
      rintro rfl
      exact plain member
    show sections (header :: ((first :: stats) ++ _)) = _
    rw [sections, if_neg other, List.takeWhile_append_of_pos all, List.dropWhile_append_of_pos all]
    cases logs with
    | nil => exact congrArg (·, []) (List.append_nil _)
    | cons line logs =>
      show (_ ++ (logHeader :: line :: logs).takeWhile _,
        ((logHeader :: line :: logs).dropWhile _).tail) = _
      rw [List.takeWhile_cons_of_neg (by simp), List.dropWhile_cons_of_neg (by simp), List.append_nil]
      rfl

/-- What the lines of a node under the given names say. -/
def nodeItem (name : Tag → List Char) (above : List (List Char))
    (noteOf : LabelTree.Node Tag → Option String) (node : LabelTree.Node Tag) : Item Char :=
  ⟨node.depth - above.length, name node.label, (noteOf node).map String.toList⟩

/-- The lines of a forest under the given names. -/
def forestLines (name : Tag → List Char) (above : List (List Char))
    (noteOf : LabelTree.Node Tag → Option String) (nodes : List (LabelTree.Node Tag)) :
    List (List Char) :=
  (nodes.map (nodeItem name above noteOf)).flatMap (itemLines '\t' [' ', ' '])

/-- **The reader of a part**, for a forest. -/
theorem readTags_forest {name : Tag → List Char} {above : List (List Char)}
    {nodes : List (LabelTree.Node Tag)} (forest : ForestBelow name above nodes)
    (plain : ∀ node ∈ nodes, PlainName (name node.label)) (noteOf : LabelTree.Node Tag → Option String) :
    readTags (forestLines name above noteOf nodes) =
      nodes.map fun node =>
        ⟨(node.route.map name).drop above.length, (noteOf node).map String.toList⟩ := by
  have labels : ∀ item ∈ nodes.map (nodeItem name above noteOf),
      PlainLabel '\t' [' ', ' '] item.label := by
    intro item member
    obtain ⟨node, belongs, rfl⟩ := List.mem_map.mp member
    exact (plain node belongs).plain
  have routes := (forest.gives [] List.prefix_rfl).1
  rw [readTags, forestLines, readItems_itemLines (by decide) labels, List.map_map, List.map_map]
  show List.zipWith ShownTag.mk (routesFrom [] (nodes.map fun node =>
    (node.depth - above.length, name node.label))) _ = _
  rw [routes, List.map_map, List.zipWith_map, List.zipWith_self]
  rfl

/-- A tree whose tags paths and displays can carry. -/
structure ReadableTree (name : Tag → List Char) (tree : LabelTree Tag) : Prop where
  names : ∀ tag ∈ tree.labels, PlainName (name tag)
  shallow : ∀ node ∈ tree.nodes, node.depth < 2 ^ 31

theorem ReadableTree.dotFree {name : Tag → List Char} {tree : LabelTree Tag}
    (readable : ReadableTree name tree) : ∀ tag ∈ tree.labels, '.' ∉ name tag :=
  fun tag member => (readable.names tag member).noDot

section

variable {name : Tag → List Char} {above : List (List Char)} {nodes : List (LabelTree.Node Tag)}
  {noteOf : LabelTree.Node Tag → Option String}

/-- A line of a forest begins with tabs, behind which there is a name or the answer of a tag. -/
theorem exists_of_mem_forestLines {line : List Char} (member : line ∈ forestLines name above noteOf nodes) :
    ∃ node ∈ nodes, ∃ level text, line = marks '\t' level ++ text ∧
      (text = name node.label ∨ ∃ note ∈ noteOf node, text = [' ', ' '] ++ note.toList) := by
  obtain ⟨item, belongs, line⟩ := List.mem_flatMap.mp member
  obtain ⟨node, inside, rfl⟩ := List.mem_map.mp belongs
  rcases List.mem_cons.mp line with label | answer
  · exact ⟨node, inside, _, _, label, Or.inl rfl⟩
  · obtain ⟨text, shown, rfl⟩ := Option.map_eq_some_iff.mp (Option.mem_toList.mp answer)
    obtain ⟨note, noted, rfl⟩ := Option.map_eq_some_iff.mp shown
    exact ⟨node, inside, _, _, rfl, Or.inr ⟨note, noted, rfl⟩⟩

/-- None of them is a header. -/
theorem logHeader_notMem (plain : ∀ node ∈ nodes, PlainName (name node.label)) :
    logHeader ∉ forestLines name above noteOf nodes := by
  intro member
  obtain ⟨node, inside, level, text, line, shown⟩ := exists_of_mem_forestLines member
  have first : (marks '\t' level ++ text).head? = some 'L' := congrArg List.head? line.symm
  cases level with
  | succ level => cases first
  | zero =>
    rcases shown with rfl | ⟨note, -, rfl⟩
    · exact (plain node inside).noHeader line.symm
    · cases first

theorem newline_notMem_header {header line : List Char} (oneLine : '\n' ∉ header) {none : Bool}
    (member : line ∈ (if none then [] else [header])) : '\n' ∉ line := by
  cases none with
  | true => cases member
  | false =>
    obtain rfl := List.mem_singleton.mp member
    exact oneLine

/-- **None of them contains a newline.** -/
theorem newline_notMem (plain : ∀ node ∈ nodes, PlainName (name node.label))
    (oneLine : ∀ node ∈ nodes, ∀ note ∈ noteOf node, '\n' ∉ note.toList) :
    ∀ line ∈ forestLines name above noteOf nodes, '\n' ∉ line := by
  intro line member
  obtain ⟨node, inside, level, text, rfl, shown⟩ := exists_of_mem_forestLines member
  refine List.not_mem_append (fun tab => ?_) ?_
  · have newline := List.eq_of_mem_replicate tab
    cases newline
  · rcases shown with rfl | ⟨note, noted, rfl⟩
    · exact (plain node inside).oneLine
    · exact List.not_mem_append (by decide) (oneLine node inside note noted)

end

section

variable [DecidableEq Tag] {name : Tag → List Char} {call : UserCommands Tag Sample}
  {desc : TagDisplayDesc} {printer : Printer Tag}

/-- The lines of a node. -/
theorem toList_outputLines (printed : Printed name call desc printer)
    (stats : ReadableTree name call.object.statTagTree) (logs : ReadableTree name call.object.logTagTree)
    {node : LabelTree.Node Tag} (member : node ∈ call.statNodes name desc ++ call.logNodes name desc)
    (shallow : node.depth < 2 ^ 31) (noteOf : LabelTree.Node Tag → Option String) :
    (outputLines printer (sentTo name call.cmd 0 node).1 (noteOf node)).map String.toList =
      itemLines '\t' [' ', ' '] (nodeItem name (pathAbove desc.tagHname) noteOf node) := by
  have indented := printed.indent_eq stats.dotFree logs.dotFree member shallow
  unfold outputLines
  rw [List.map_cons, String.toList_append, indented, String.toList_ofList, itemLines]
  refine congrArg (_ :: ·) ?_
  unfold nodeItem
  dsimp only
  cases noteOf node with
  | none => rfl
  | some note =>
    show [(indent _ ++ "  " ++ note).toList] = [_]
    rw [String.toList_append, String.toList_append, indented, List.append_assoc]
    rfl

/-- What the stats and the logs answered. -/
def UserCommands.statNoteOf (call : UserCommands Tag Sample) (name : Tag → List Char)
    (desc : TagDisplayDesc) (node : LabelTree.Node Tag) : Option String :=
  statNote call.cmd (call.statShown name desc node)

def UserCommands.logNoteOf (call : UserCommands Tag Sample) (name : Tag → List Char)
    (node : LabelTree.Node Tag) : Option String :=
  logNote call.cmd (call.logShown name node)

omit [DecidableEq Tag] in
theorem toList_partLines {Display : Type} {nodes : List (LabelTree.Node Tag)}
    {display : LabelTree.Node Tag → Display} {lines : Display → List String} {above : List (List Char)}
    {noteOf : LabelTree.Node Tag → Option String}
    (same : ∀ node ∈ nodes, (lines (display node)).map String.toList =
      itemLines '\t' [' ', ' '] (nodeItem name above noteOf node)) (header : String) :
    (partLines header (nodes.map display) lines).map String.toList =
      (if (forestLines name above noteOf nodes).isEmpty then [] else [header.toList]) ++
        forestLines name above noteOf nodes := by
  have empty : (forestLines name above noteOf nodes).isEmpty = nodes.isEmpty := by
    cases nodes <;> rfl
  rw [empty, partLines, List.isEmpty_map, List.map_append, List.map_flatMap, List.flatMap_map,
    forestLines, List.flatMap_map]
  refine congrArg₂ (· ++ ·) ?_ (List.flatMap_congr same)
  split <;> rfl

omit [DecidableEq Tag] in
theorem mem_nodes_of_statNodes {node : LabelTree.Node Tag} (member : node ∈ call.statNodes name desc) :
    node ∈ call.object.statTagTree.nodes := by
  unfold UserCommands.statNodes at member
  split at member
  · exact (List.mem_filter.mp member).1
  · cases member

omit [DecidableEq Tag] in
theorem mem_nodes_of_logNodes {node : LabelTree.Node Tag} (member : node ∈ call.logNodes name desc) :
    node ∈ call.object.logTagTree.nodes := by
  unfold UserCommands.logNodes at member
  split at member
  · exact (List.mem_filter.mp member).1
  · cases member

omit [DecidableEq Tag] in
theorem ReadableTree.name_label {tree : LabelTree Tag} (readable : ReadableTree name tree)
    {node : LabelTree.Node Tag} (member : node ∈ tree.nodes) : PlainName (name node.label) := by
  apply readable.names
  rw [← LabelTree.map_label_nodes]
  exact List.mem_map_of_mem member

/-- **A display is read back**: the routes of the denoted tags, and what they answered. -/
theorem readDisplay_showOutput (printed : Printed name call desc printer)
    (outline : IsOutline call.cmd) (stats : ReadableTree name call.object.statTagTree)
    (logs : ReadableTree name call.object.logTagTree)
    (statNotes : ∀ node ∈ call.statNodes name desc,
      ∀ note ∈ call.statNoteOf name desc node, '\n' ∉ note.toList)
    (logNotes : ∀ node ∈ call.logNodes name desc,
      ∀ note ∈ call.logNoteOf name node, '\n' ∉ note.toList) :
    ∃ lines, printer.showOutput = some lines ∧ readDisplay (textOf lines) =
      ((call.statNodes name desc).map fun node =>
        ⟨(node.route.map name).drop (pathAbove desc.tagHname).length,
          (call.statNoteOf name desc node).map String.toList⟩,
      (call.logNodes name desc).map fun node =>
        ⟨(node.route.map name).drop (pathAbove desc.tagHname).length,
          (call.logNoteOf name node).map String.toList⟩) := by
  have statNames := fun node (member : node ∈ call.statNodes name desc) =>
    stats.name_label (mem_nodes_of_statNodes member)
  have logNames := fun node (member : node ∈ call.logNodes name desc) =>
    logs.name_label (mem_nodes_of_logNodes member)
  obtain ⟨statLines, statForest⟩ : ∃ lines, lines = forestLines name (pathAbove desc.tagHname)
    (call.statNoteOf name desc) (call.statNodes name desc) := ⟨_, rfl⟩
  obtain ⟨logLines, logForest⟩ : ∃ lines, lines = forestLines name (pathAbove desc.tagHname)
    (call.logNoteOf name) (call.logNodes name desc) := ⟨_, rfl⟩
  have statText : (statPart call.cmd printer).map String.toList =
      (if statLines.isEmpty then [] else [(statHeader call.cmd).toList]) ++ statLines := by
    rw [statPart, printed.stats, statForest]
    exact toList_partLines (fun node member => toList_outputLines printed stats logs
      (List.mem_append_left _ member) (stats.shallow node (mem_nodes_of_statNodes member)) (call.statNoteOf name desc)) _
  have logText : (logPart call.cmd printer).map String.toList =
      (if logLines.isEmpty then [] else [logHeader]) ++ logLines := by
    rw [logPart, printed.logs, logForest]
    exact toList_partLines (fun node member => toList_outputLines printed stats logs
      (List.mem_append_right _ member) (logs.shallow node (mem_nodes_of_logNodes member)) (call.logNoteOf name)) _
  refine ⟨_, showOutput_eq printed outline, ?_⟩
  have oneLine : ∀ line ∈ statPart call.cmd printer ++ logPart call.cmd printer,
      '\n' ∉ line.toList := by
    intro line member
    have shown : line.toList ∈ _ := List.mem_map_of_mem member
    rw [List.map_append, statText, logText] at shown
    rcases List.mem_append.mp shown with stat | log
    · rcases List.mem_append.mp stat with header | inside
      · exact newline_notMem_header (by cases call.cmd <;> decide) header
      · rw [statForest] at inside
        exact newline_notMem statNames statNotes _ inside
    · rcases List.mem_append.mp log with header | inside
      · exact newline_notMem_header (by decide) header
      · rw [logForest] at inside
        exact newline_notMem logNames logNotes _ inside
  rw [readDisplay, linesOf_textOf oneLine, List.map_append, statText, logText, sections_parts]
  · refine congrArg₂ Prod.mk ?_ ?_
    · rw [statForest]
      exact readTags_forest (forestBelow_statNodes stats.dotFree) statNames _
    · rw [logForest]
      exact readTags_forest (forestBelow_logNodes logs.dotFree) logNames _
  · cases call.cmd <;> decide
  · rw [statForest]
    exact logHeader_notMem statNames

/-! ### show-tags -/

omit [DecidableEq Tag] in
/-- The names on a route of the tree. -/
theorem ReadableTree.plain_route {tree : LabelTree Tag} (readable : ReadableTree name tree)
    {node : LabelTree.Node Tag} (inside : node ∈ tree.nodes) :
    ∀ one ∈ node.route.map name, PlainName one := by
  intro one member
  obtain ⟨tag, onRoute, rfl⟩ := List.mem_map.mp member
  exact readable.names tag (mem_labels_of_mem_route inside onRoute)

omit [DecidableEq Tag] in
/-- **A full name selects the tags that it leads to.** -/
theorem mem_tagCommander_dotted {tree : LabelTree Tag} (readable : ReadableTree name tree)
    (distinct : tree.labels.Nodup) {full : List (List Char)} (plain : ∀ one ∈ full, PlainName one)
    (some' : full ≠ []) {cmd : StatCmd} (known : cmd ≠ .noCmd) {node : LabelTree.Node Tag}
    (inside : node ∈ tree.nodes) :
    node.label ∈ (tagCommander name cmd (tagHierarchy tree) (List.intercalate ['.'] full)).map
        (fun sent => sent.1.tagIndex) ↔
      full <+: node.route.map name := by
  have dotFree := fun one member => (plain one member).noDot
  have nonempty := fun one member => (plain one member).nonempty
  rw [label_mem_tagCommander distinct readable.dotFree known (getLast?_dotted dotFree nonempty) inside,
    Denotes, or_iff_right (dotted_ne_nil dotFree nonempty some')]
  refine reaches_dotted_iff dotFree some' fun tag member => ?_
  exact readable.dotFree tag (mem_labels_of_mem_route inside member)

theorem parseUserCommands_isSome (name : Tag → List Char) (statistic : isStatisticCommand call.cmd)
    (before : Printer Tag) : (parseUserCommands name before call).isSome := by
  apply run_isSome
  intro numbered _ next
  exact parseDesc_isSome statistic next numbered

/-- **What `show-tags` prints is read back.** The text gives the full names of exactly the tags that the
path denotes, in pre-order; and a further command on any of these names goes to the tags it leads to. -/
theorem showTags_roundTrip (name : Tag → List Char) {call : UserCommands Tag Sample}
    {desc : TagDisplayDesc} (single : call.tagDispDescs = [desc]) (printTag : call.cmd = .printTag)
    (closed : desc.tagHname.getLast? ≠ some '.')
    (stats : ReadableTree name call.object.statTagTree)
    (logs : ReadableTree name call.object.logTagTree) :
    ∃ printer lines, parseUserCommands name {} call = some printer ∧ printer.showOutput = some lines ∧
      let shown := readDisplay (textOf lines)
      let fullName := fun tag : ShownTag => pathAbove desc.tagHname ++ tag.route
      shown.1.map fullName =
          (denotedNodes name call.object.statTagTree desc.tagHname).map (fun node => node.route.map name) ∧
        shown.2.map fullName =
          (denotedNodes name call.object.logTagTree desc.tagHname).map (fun node => node.route.map name) ∧
        ∀ full ∈ (shown.1 ++ shown.2).map fullName, ∀ cmd ≠ StatCmd.noCmd,
          ∀ tree ∈ [call.object.statTagTree, call.object.logTagTree], ∀ node ∈ tree.nodes,
            (node.label ∈ (tagCommander name cmd (tagHierarchy tree) (List.intercalate ['.'] full)).map
                (fun sent => sent.1.tagIndex) ↔
              full <+: node.route.map name) := by
  have statistic : isStatisticCommand call.cmd := by rw [printTag]; rfl
  obtain ⟨printer, runs⟩ := Option.isSome_iff_exists.mp
    (parseUserCommands_isSome name statistic {})
  have printed := parseUserCommands_single single stats.dotFree logs.dotFree closed
    (by rw [printTag]; decide) runs
  obtain ⟨lines, shows, read⟩ := readDisplay_showOutput printed (Or.inl printTag) stats logs
    (fun node _ note noted => by rw [UserCommands.statNoteOf, printTag] at noted; cases noted)
    (fun node _ note noted => by rw [UserCommands.logNoteOf, printTag] at noted; cases noted)
  have statNodes : call.statNodes name desc =
      denotedNodes name call.object.statTagTree desc.tagHname := if_pos statistic
  have logNodes : call.logNodes name desc =
      denotedNodes name call.object.logTagTree desc.tagHname := if_pos (by rw [printTag]; rfl)
  refine ⟨printer, lines, runs, shows, ?_⟩
  rw [read, statNodes, logNodes]
  dsimp only
  rw [List.map_append, List.map_map, List.map_map]
  have statNames := fun node
      (member : node ∈ denotedNodes name call.object.statTagTree desc.tagHname) =>
    (forestBelow_denoted stats.dotFree desc.tagHname).append_drop member
  have logNames := fun node
      (member : node ∈ denotedNodes name call.object.logTagTree desc.tagHname) =>
    (forestBelow_denoted logs.dotFree desc.tagHname).append_drop member
  refine ⟨List.map_congr_left statNames, List.map_congr_left logNames,
    fun full member cmd known tree either node inside => ?_⟩
  obtain ⟨plain, some'⟩ : (∀ one ∈ full, PlainName one) ∧ full ≠ [] := by
    rcases List.mem_append.mp member with stat | log
    · obtain ⟨shown, denoted, same⟩ := List.mem_map.mp stat
      rw [same.symm.trans (statNames shown denoted)]
      exact ⟨stats.plain_route (List.mem_filter.mp denoted).1, by simp [LabelTree.Node.route]⟩
    · obtain ⟨shown, denoted, same⟩ := List.mem_map.mp log
      rw [same.symm.trans (logNames shown denoted)]
      exact ⟨logs.plain_route (List.mem_filter.mp denoted).1, by simp [LabelTree.Node.route]⟩
  rcases List.mem_cons.mp either with rfl | other
  · exact mem_tagCommander_dotted stats call.object.distinctStats plain some' known inside
  · obtain rfl := List.mem_singleton.mp other
    exact mem_tagCommander_dotted logs call.object.distinctLogs plain some' known inside

end

/-- A stat below a parent, and an array of arrays two levels below the root. -/
def smallRadio : ControlObject Nat Nat where
  statTagToType
    | 3 => .statArray 2 (.statArray 5 (.element (.accumulator [count])))
    | _ => .element .nullStat
  statTagTree := .parent 0 [.leaf 1, .parent 2 [.leaf 3]]
  logTagTree := .leaf 0
  mem _ := 0
  distinctStats := by decide
  distinctLogs := List.nodup_singleton 0

def smallRadioName : Nat → List Char
  | 0 => ['R']
  | 1 => ['C', 'R', 'C']
  | 2 => ['M', 'A', 'C']
  | _ => ['Q']

def showRadio (cmd : StatCmd) (path : List Char) : UserCommands Nat Nat where
  object := smallRadio
  tagDispDescs := [⟨path, {}⟩]
  cmd := cmd
  found _ _ _ := 0

theorem readable_smallRadio : ReadableTree smallRadioName smallRadio.statTagTree ∧
    ReadableTree smallRadioName smallRadio.logTagTree :=
  ⟨⟨by decide, by decide⟩, ⟨by decide, by decide⟩⟩

theorem showTags_roundTrip_radio : ∃ printer lines,
    parseUserCommands smallRadioName {} (showRadio .printTag ['R', '.', 'M', 'A', 'C']) = some printer ∧
      printer.showOutput = some lines ∧
      (readDisplay (textOf lines)).1.map (fun tag => [['R']] ++ tag.route) =
        [[['R'], ['M', 'A', 'C']], [['R'], ['M', 'A', 'C'], ['Q']]] := by
  obtain ⟨printer, lines, runs, shows, stats, -⟩ := showTags_roundTrip smallRadioName
    (rfl : (showRadio .printTag ['R', '.', 'M', 'A', 'C']).tagDispDescs = [_]) rfl (by decide)
    readable_smallRadio.1 readable_smallRadio.2
  exact ⟨printer, lines, runs, shows, stats⟩

end StatLog.Control
