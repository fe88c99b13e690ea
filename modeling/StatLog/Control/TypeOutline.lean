/-
**The display of stat types, read back.**

`stat-types` prints the selected stats as an outline, and below every stat the title of its type.

* `statNoteOf_printStatType`: what a node of the stat tree answers.
* **`statTypes_roundTrip`**: the text gives the full names of the tags, and for every stat the sizes of
  its arrays and the title of its elements.
-/

import StatLog.Control.TagOutline
import StatLog.Stats.TypeTitle
import StatLog.Tags.Independence

namespace StatLog.Control

open ByteMemory Outline RoseTree Stats Tags Transition

variable {Tag Sample : Type} [DecidableEq Tag] {name : Tag → List Char}
  {call : UserCommands Tag Sample} {desc : TagDisplayDesc}

/-- **A leaf answers with the title of its type**, and a parent with none. -/
theorem statNoteOf_printStatType (command : call.cmd = .printStatType) {node : LabelTree.Node Tag}
    (inside : node ∈ call.object.statTagTree.nodes) :
    call.statNoteOf name desc node =
      if node.label ∈ call.object.statTagTree.leavesBelow then
        some (call.object.statTagToType node.label).title
      else none := by
  have label : node.label ∈ call.object.statTagTree.labels := by
    rw [← LabelTree.map_label_nodes]
    exact List.mem_map_of_mem inside
  obtain ⟨placed, member, tag, handle⟩ := exists_getHandle
    (LogStatBase.map_tag_theStats call.object.statTagToType call.object.statTagTree
      call.object.logTagTree false call.object.mem) call.object.distinctStats label
  obtain ⟨ofLeaf, ofParent⟩ := nodeClass_control call.object.distinctStats member
  rw [tag] at ofLeaf ofParent
  have shown : (call.statShown name desc node).statOutput =
      (placed.item.doCommand placed.offset .printStatType (call.found 0 (.stat node.label))).2 := by
    show ((LogStatControl.sendStatCommand call.object.theStats _ (_, call.cmd)).map Prod.snd).getD {} = _
    unfold LogStatControl.sendStatCommand ControlObject.theStats ControlObject.control
    rw [command]
    show Option.getD (Option.map _ (Option.bind (getHandle _ node.label) _)) _ = _
    rw [handle]
    rfl
  rw [UserCommands.statNoteOf, command, statNote, shown]
  unfold LogStatNode.doCommand
  by_cases leaf : node.label ∈ call.object.statTagTree.leavesBelow
  · rw [if_pos leaf, ofLeaf leaf]
    dsimp only
    rw [doCommand_printStatType, title_ne_empty]
    rfl
  · rw [if_neg leaf, ofParent leaf]
    rfl

/-- **What `stat-types` prints is read back.** The text gives the full names of exactly the tags that
the path denotes, in pre-order; for every leaf the sizes of its nested arrays and the title of what is
in them; and for every parent that it is none. -/
theorem statTypes_roundTrip (name : Tag → List Char) {call : UserCommands Tag Sample}
    {desc : TagDisplayDesc} (single : call.tagDispDescs = [desc]) (command : call.cmd = .printStatType)
    (closed : desc.tagHname.getLast? ≠ some '.')
    (stats : ReadableTree name call.object.statTagTree)
    (logs : ReadableTree name call.object.logTagTree)
    (oneLine : ∀ tag ∈ call.object.statTagTree.leavesBelow,
      (call.object.statTagToType tag).elementType.OneLine) :
    ∃ printer lines, parseUserCommands name {} call = some printer ∧ printer.showOutput = some lines ∧
      let shown := readDisplay (textOf lines)
      shown.2 = [] ∧
        shown.1.map (fun tag => (pathAbove desc.tagHname ++ tag.route, tag.note.map readTitle)) =
          (denotedNodes name call.object.statTagTree desc.tagHname).map fun node =>
            (node.route.map name,
              if node.label ∈ call.object.statTagTree.leavesBelow then
                some ((call.object.statTagToType node.label).dimensions,
                  (call.object.statTagToType node.label).elementType.title.toList)
              else none) := by
  have statistic : isStatisticCommand call.cmd := by rw [command]; rfl
  obtain ⟨printer, runs⟩ := Option.isSome_iff_exists.mp (parseUserCommands_isSome name statistic {})
  have printed := parseUserCommands_single single stats.dotFree logs.dotFree closed
    (by rw [command]; decide) runs
  have statNodes : call.statNodes name desc =
      denotedNodes name call.object.statTagTree desc.tagHname := if_pos statistic
  have logNodes : call.logNodes name desc = [] := if_neg (by rw [command]; decide)
  obtain ⟨lines, shows, read⟩ := readDisplay_showOutput printed (Or.inr (Or.inl command)) stats logs
    (fun node member note noted => by
      rw [statNoteOf_printStatType command (mem_nodes_of_statNodes member)] at noted
      split at noted
      · rename_i leaf
        obtain rfl := Option.some.inj noted
        exact newline_notMem_title (oneLine _ leaf)
      · cases noted)
    (fun node member note noted => by rw [logNodes] at member; cases member)
  refine ⟨printer, lines, runs, shows, ?_⟩
  rw [read, statNodes, logNodes]
  refine ⟨rfl, ?_⟩
  dsimp only
  rw [List.map_map]
  refine List.map_congr_left fun node member => ?_
  have whole := (forestBelow_denoted stats.dotFree desc.tagHname).append_drop member
  have answer : call.statNoteOf name desc node = _ :=
    statNoteOf_printStatType command (List.mem_filter.mp member).1
  show (pathAbove desc.tagHname ++ (node.route.map name).drop (pathAbove desc.tagHname).length,
    ((call.statNoteOf name desc node).map String.toList).map readTitle) = _
  rw [whole, answer]
  refine congrArg _ ?_
  split
  · exact congrArg some (readTitle_title _)
  · rfl

theorem oneLine_smallRadio : ∀ tag ∈ smallRadio.statTagTree.leavesBelow,
    (smallRadio.statTagToType tag).elementType.OneLine := by
  intro tag member
  rcases List.mem_cons.mp member with rfl | other
  · trivial
  · obtain rfl := List.mem_singleton.mp other
    intro feature belongs
    obtain rfl := List.mem_singleton.mp belongs
    exact (by decide : '\n' ∉ "count".toList)

theorem statTypes_roundTrip_radio : ∃ printer lines,
    parseUserCommands smallRadioName {} (showRadio .printStatType []) = some printer ∧
      printer.showOutput = some lines ∧
      (readDisplay (textOf lines)).1.map (fun tag => (tag.route, tag.note.map readTitle)) =
        [([['R']], none), ([['R'], ['C', 'R', 'C']], some ([], "NULL stat".toList)),
          ([['R'], ['M', 'A', 'C']], none),
          ([['R'], ['M', 'A', 'C'], ['Q']], some ([2, 5], "Accumulator: count".toList))] := by
  obtain ⟨printer, lines, runs, shows, -, stats⟩ := statTypes_roundTrip smallRadioName
    (rfl : (showRadio .printStatType []).tagDispDescs = [_]) rfl (by decide) readable_smallRadio.1
    readable_smallRadio.2 oneLine_smallRadio
  exact ⟨printer, lines, runs, shows, stats.trans (by decide)⟩

end StatLog.Control
