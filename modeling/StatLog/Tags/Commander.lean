/-
**Commands sent along a tag path.**

A path such as `TOP.MAC.CRC` names nodes of the tag hierarchy by the names on the way to them.
`tagCommander` cuts the path at its first dot, level by level; where it ends, the command goes to the
whole subtree.

* `getHeadTail`, `processCommand`, `tagCommander`: the source's functions. What `sendCommand` receives
  is collected in a list.
* `Reaches`: the path is the dotted name of the node or of a node above it.
* `reaches_cons_iff`: one level of a path, which `getHeadTail` decides for names without dots.
* **`tagCommander_exact`**: the command goes once, in pre-order, to the nodes the path reaches.
-/

import Mathlib.Data.List.Infix
import Mathlib.Data.List.Nodup
import StatLog.Stats.Accumulator
import StatLog.Tags.Hierarchy

namespace StatLog.Tags

open RoseTree Stats

variable {Tag : Type}

/-! ### The commander -/

/-- `getHeadTail`: a string without the delimiter has no tail. -/
def getHeadTail (s : List Char) (delim : Char) : List Char × List Char :=
  match s.findIdx? (· == delim) with
  | some pos => (s.take pos, s.drop (pos + 1))
  | none => (s, [])

structure TagInfo (Tag : Type) where
  name : List Char
  tagIndex : Tag
  depth : Nat

section

variable (name : Tag → List Char) (cmd : StatCmd)

/-- One call of the control object's `sendCommand`, for the given tag node. -/
def sendCommand (tagNode : TagNode Tag) : TagInfo Tag × StatCmd :=
  (⟨name tagNode.tag, tagNode.tag, tagNode.depth⟩, cmd)

mutual

/-- `DoCmd::Go`. -/
def doCmd : LabelTree (TagNode Tag) → List (TagInfo Tag × StatCmd)
  | .leaf tagNode => [sendCommand name cmd tagNode]
  | .parent tagNode children => sendCommand name cmd tagNode :: doCmdAll children

def doCmdAll : List (LabelTree (TagNode Tag)) → List (TagInfo Tag × StatCmd)
  | [] => []
  | child :: children => doCmd child ++ doCmdAll children

end

def processCommand (tree : LabelTree (TagNode Tag)) : List (TagInfo Tag × StatCmd) :=
  if cmd ≠ .noCmd then doCmd name cmd tree else []

mutual

/-- **`tagCommander`**: all calls of `sendCommand`, in order. -/
def tagCommander : LabelTree (TagNode Tag) → List Char → List (TagInfo Tag × StatCmd)
  | .leaf tagNode, tagName =>
    if tagName = name tagNode.tag ∨ tagName = [] then processCommand name cmd (.leaf tagNode) else []
  | .parent tagNode children, tagName =>
    if tagName = [] then processCommand name cmd (.parent tagNode children)
    else
      let headTail := getHeadTail tagName '.'
      if headTail.1 ≠ name tagNode.tag then []
      else if headTail.2 = [] then processCommand name cmd (.parent tagNode children)
      else tagCommanderAll children headTail.2

def tagCommanderAll : List (LabelTree (TagNode Tag)) → List Char → List (TagInfo Tag × StatCmd)
  | [], _ => []
  | child :: children, tagName => tagCommander child tagName ++ tagCommanderAll children tagName

end

/-! ### What a path denotes -/

/-- The names on a route, joined by dots. -/
def dottedName (route : List Tag) : List Char := List.intercalate ['.'] (route.map name)

/-- The path is the dotted name of a node on the route. -/
def Reaches (path : List Char) (route : List Tag) : Prop :=
  ∃ upper ∈ route.inits, upper ≠ [] ∧ dottedName name upper = path

/-- The nodes a path denotes; the empty path denotes all. -/
def Denotes (path : List Char) (node : LabelTree.Node Tag) : Prop :=
  path = [] ∨ Reaches name path node.route

instance (path : List Char) (route : List Tag) : Decidable (Reaches name path route) :=
  inferInstanceAs (Decidable (∃ upper ∈ route.inits, upper ≠ [] ∧ dottedName name upper = path))

instance (path : List Char) (node : LabelTree.Node Tag) : Decidable (Denotes name path node) :=
  inferInstanceAs (Decidable (path = [] ∨ Reaches name path node.route))

/-- The call of `sendCommand` for a node of the declaration whose root has the given depth. -/
def sentTo (depth : Nat) (node : LabelTree.Node Tag) : TagInfo Tag × StatCmd :=
  (⟨name node.label, node.label, depth + node.depth⟩, cmd)

end

/-! ### Cutting a path -/

theorem getHeadTail_of_not_mem {s : List Char} {delim : Char} (absent : delim ∉ s) :
    getHeadTail s delim = (s, []) := by
  have none : s.findIdx? (· == delim) = none := by
    refine List.findIdx?_eq_none_iff.mpr fun char member => ?_
    simp only [beq_eq_false_iff_ne]
    rintro rfl
    exact absent member
  unfold getHeadTail
  rw [none]

/-- **The head ends at the first delimiter.** -/
theorem getHeadTail_append {head : List Char} {delim : Char} (absent : delim ∉ head)
    (tail : List Char) : getHeadTail (head ++ delim :: tail) delim = (head, tail) := by
  have found : (head ++ delim :: tail).findIdx? (· == delim) = some head.length := by
    refine List.findIdx?_eq_some_iff_getElem.mpr ⟨by simp, by simp, fun position before => ?_⟩
    rw [List.getElem_append_left before, Bool.not_eq_true, beq_eq_false_iff_ne]
    intro same
    exact absent (same ▸ List.getElem_mem before)
  unfold getHeadTail
  rw [found]
  simp

/-! ### One level of a path -/

section

variable {name : Tag → List Char}

theorem dottedName_singleton (tag : Tag) : dottedName name [tag] = name tag := by
  unfold dottedName
  rw [List.map_singleton, List.intercalate_singleton]

theorem dottedName_cons (tag : Tag) {rest : List Tag} (more : rest ≠ []) :
    dottedName name (tag :: rest) = name tag ++ '.' :: dottedName name rest := by
  rw [dottedName, List.map_cons, List.intercalate_cons_of_ne_nil (by simpa using more),
    List.append_assoc]
  rfl

theorem not_reaches_nil (path : List Char) : ¬ Reaches name path [] := by
  rintro ⟨upper, member, some', -⟩
  exact some' (List.prefix_nil.mp ((List.mem_inits _ _).mp member))

/-- **The path ends here, or goes on below a dot.** -/
theorem reaches_cons_iff {path : List Char} {tag : Tag} {rest : List Tag} :
    Reaches name path (tag :: rest) ↔
      path = name tag ∨ ∃ tail, path = name tag ++ '.' :: tail ∧ Reaches name tail rest := by
  constructor
  · rintro ⟨upper, member, some', rfl⟩
    rcases List.prefix_cons_iff.mp ((List.mem_inits _ _).mp member) with none | ⟨lower, rfl, within⟩
    · exact absurd none some'
    · by_cases last : lower = []
      · rw [last, dottedName_singleton]
        exact Or.inl rfl
      · refine Or.inr ⟨dottedName name lower, dottedName_cons tag last, lower, ?_, last, rfl⟩
        exact (List.mem_inits _ _).mpr within
  · rintro (rfl | ⟨tail, rfl, lower, member, some', rfl⟩)
    · refine ⟨[tag], (List.mem_inits _ _).mpr ?_, List.cons_ne_nil _ _, dottedName_singleton tag⟩
      exact List.prefix_cons_iff.mpr (Or.inr ⟨[], rfl, List.nil_prefix⟩)
    · refine ⟨tag :: lower, (List.mem_inits _ _).mpr ?_, List.cons_ne_nil _ _,
        dottedName_cons tag some'⟩
      exact List.prefix_cons_iff.mpr (Or.inr ⟨lower, rfl, (List.mem_inits _ _).mp member⟩)

/-- A path without dots reaches what lies below its name only. -/
theorem reaches_cons_of_not_mem {path : List Char} (plain : '.' ∉ path) {tag : Tag}
    {rest : List Tag} : Reaches name path (tag :: rest) ↔ path = name tag := by
  rw [reaches_cons_iff]
  apply or_iff_left
  rintro ⟨tail, rfl, -⟩
  exact plain (List.mem_append_right _ List.mem_cons_self)

/-- **A path with a dot reaches what its tail reaches below its head**, for names without dots. -/
theorem reaches_cons_of_cut {head tail : List Char} (plain : '.' ∉ head) {tag : Tag}
    (dotFree : '.' ∉ name tag) {rest : List Tag} :
    Reaches name (head ++ '.' :: tail) (tag :: rest) ↔ head = name tag ∧ Reaches name tail rest := by
  rw [reaches_cons_iff]
  constructor
  · rintro (whole | ⟨tail', cut, below⟩)
    · rw [← whole] at dotFree
      exact absurd (List.mem_append_right _ List.mem_cons_self) dotFree
    · have heads := getHeadTail_append plain tail
      rw [cut, getHeadTail_append dotFree] at heads
      obtain ⟨same, rfl⟩ := Prod.mk.inj heads
      exact ⟨same.symm, below⟩
  · rintro ⟨rfl, below⟩
    exact Or.inr ⟨tail, rfl, below⟩

end

/-! ### Commands and nodes -/

section

variable {name : Tag → List Char} {cmd : StatCmd}

theorem sentTo_under (depth : Nat) (tag : Tag) (node : LabelTree.Node Tag) :
    sentTo name cmd depth (node.under tag) = sentTo name cmd (depth + 1) node := by
  simp only [sentTo, LabelTree.Node.depth_under]
  rw [Nat.add_right_comm, Nat.add_assoc]
  rfl

theorem doCmdAll_eq (children : List (LabelTree (TagNode Tag))) :
    doCmdAll name cmd children = children.flatMap (doCmd name cmd) := by
  induction children with
  | nil => rfl
  | cons child children ih => rw [doCmdAll, ih, List.flatMap_cons]

theorem tagCommanderAll_eq (children : List (LabelTree (TagNode Tag))) (tagName : List Char) :
    tagCommanderAll name cmd children tagName =
      children.flatMap fun child => tagCommander name cmd child tagName := by
  induction children with
  | nil => rfl
  | cons child children ih => rw [tagCommanderAll, ih, List.flatMap_cons]

/-- The tags below a child are below its parent. -/
theorem mem_tags_parent {tagNode : TagNode Tag} {children : List (LabelTree (TagNode Tag))}
    {child : LabelTree (TagNode Tag)} (inside : child ∈ children) {tag : Tag}
    (member : tag ∈ child.labels.map TagNode.tag) :
    tag ∈ (LabelTree.parent tagNode children).labels.map TagNode.tag := by
  obtain ⟨label, belongs, rfl⟩ := List.mem_map.mp member
  rw [LabelTree.labels_parent]
  apply List.mem_map_of_mem
  exact List.mem_cons_of_mem _ (List.mem_flatMap.mpr ⟨child, inside, belongs⟩)

/-- The broadcast sends its own command, to tags of its tree. -/
theorem mem_doCmd {tree : LabelTree (TagNode Tag)} {sent : TagInfo Tag × StatCmd}
    (member : sent ∈ doCmd name cmd tree) :
    sent.2 = cmd ∧ sent.1.tagIndex ∈ tree.labels.map TagNode.tag := by
  induction tree using LabelTree.induct with
  | leaf tagNode =>
    obtain rfl := List.mem_singleton.mp member
    exact ⟨rfl, List.mem_cons_self⟩
  | parent tagNode children ih =>
    rw [doCmd, doCmdAll_eq] at member
    rcases List.mem_cons.mp member with rfl | below
    · rw [LabelTree.labels_parent]
      exact ⟨rfl, List.mem_cons_self⟩
    · obtain ⟨child, inside, sentBelow⟩ := List.mem_flatMap.mp below
      obtain ⟨command, known⟩ := ih child inside sentBelow
      exact ⟨command, mem_tags_parent inside known⟩

theorem mem_processCommand {tree : LabelTree (TagNode Tag)} {sent : TagInfo Tag × StatCmd}
    (member : sent ∈ processCommand name cmd tree) :
    sent.2 = cmd ∧ sent.1.tagIndex ∈ tree.labels.map TagNode.tag := by
  unfold processCommand at member
  split at member
  · exact mem_doCmd member
  · cases member

/-- **So does the commander, for any names and paths.** -/
theorem mem_tagCommander {tree : LabelTree (TagNode Tag)} {tagName : List Char}
    {sent : TagInfo Tag × StatCmd} (member : sent ∈ tagCommander name cmd tree tagName) :
    sent.2 = cmd ∧ sent.1.tagIndex ∈ tree.labels.map TagNode.tag := by
  induction tree using LabelTree.induct generalizing tagName with
  | leaf tagNode =>
    unfold tagCommander at member
    split at member
    · exact mem_processCommand member
    · cases member
  | parent tagNode children ih =>
    unfold tagCommander at member
    simp only at member
    split at member
    · exact mem_processCommand member
    split at member
    · cases member
    split at member
    · exact mem_processCommand member
    · rw [tagCommanderAll_eq] at member
      obtain ⟨child, inside, sentBelow⟩ := List.mem_flatMap.mp member
      obtain ⟨command, known⟩ := ih child inside sentBelow
      exact ⟨command, mem_tags_parent inside known⟩

/-- In the hierarchy of a declaration, these are tags of the declaration. -/
theorem mem_tagCommander_tagHierarchy {tree : LabelTree Tag} {path : List Char}
    {sent : TagInfo Tag × StatCmd} (member : sent ∈ tagCommander name cmd (tagHierarchy tree) path) :
    sent.2 = cmd ∧ sent.1.tagIndex ∈ tree.labels := by
  have inTree := mem_tagCommander member
  unfold tagHierarchy at inTree
  rw [map_tag_labels_genTagHierarchy] at inTree
  exact inTree

/-- **The broadcast visits every node of the subtree once, in pre-order.** -/
theorem doCmd_eq (tree : LabelTree Tag) (parent : Option Tag) (depth : Nat) :
    doCmd name cmd (genTagHierarchy parent depth tree) =
      tree.nodes.map (sentTo name cmd depth) := by
  induction tree using LabelTree.induct generalizing parent depth with
  | leaf tag => rfl
  | parent tag children ih =>
    rw [genTagHierarchy, genTagHierarchyAll_eq, doCmd, doCmdAll_eq, LabelTree.nodes, LabelTree.nodesAll_eq,
      List.map_cons, List.map_map, List.map_flatMap, List.flatMap_map]
    refine congrArg (_ :: ·) (List.flatMap_congr fun child member => ?_)
    rw [ih child member (some tag) (depth + 1)]
    exact List.map_congr_left fun node _ => (sentTo_under depth tag node).symm

theorem processCommand_eq (known : cmd ≠ .noCmd) (tree : LabelTree Tag) (parent : Option Tag)
    (depth : Nat) :
    processCommand name cmd (genTagHierarchy parent depth tree) =
      tree.nodes.map (sentTo name cmd depth) := by
  unfold processCommand
  rw [if_pos known, doCmd_eq]

/-- The empty path denotes all nodes. -/
theorem tagCommander_nil (known : cmd ≠ .noCmd) (tree : LabelTree Tag) (parent : Option Tag)
    (depth : Nat) :
    tagCommander name cmd (genTagHierarchy parent depth tree) [] =
      tree.nodes.map (sentTo name cmd depth) := by
  rw [← processCommand_eq known tree parent depth]
  cases tree with
  | leaf tag => rw [genTagHierarchy, tagCommander, if_pos (Or.inr rfl)]
  | parent tag children => rw [genTagHierarchy, tagCommander, if_pos rfl]

/-- **The nodes below a parent that a path with a dot reaches.** -/
theorem filter_nodes_of_cut {head tail : List Char} (plain : '.' ∉ head) {tag : Tag}
    (dotFree : '.' ∉ name tag) (children : List (LabelTree Tag)) :
    ((LabelTree.parent tag children).nodes.filter fun node =>
        Reaches name (head ++ '.' :: tail) node.route) =
      if head = name tag then
        children.flatMap fun child =>
          (child.nodes.filter fun node => Reaches name tail node.route).map (LabelTree.Node.under tag)
      else [] := by
  have reaches : ∀ node : LabelTree.Node Tag, Reaches name (head ++ '.' :: tail) (node.under tag).route ↔
      head = name tag ∧ Reaches name tail node.route := by
    intro node
    exact reaches_cons_of_cut plain dotFree
  have self : ¬ Reaches name (head ++ '.' :: tail) (⟨[], tag⟩ : LabelTree.Node Tag).route := by
    intro reached
    exact not_reaches_nil tail ((reaches_cons_of_cut plain dotFree).mp reached).2
  rw [LabelTree.nodes, LabelTree.nodesAll_eq, List.filter_cons_of_neg (by simpa using self), List.filter_map,
    List.filter_flatMap, List.map_flatMap]
  split
  · rename_i same
    apply List.flatMap_congr
    intro child _
    refine congrArg _ (List.filter_congr fun node _ => ?_)
    exact decide_eq_decide.mpr ((reaches node).trans (and_iff_right same))
  · rename_i differs
    apply List.flatMap_eq_nil_iff.mpr
    intro child _
    rw [List.map_eq_nil_iff]
    apply List.filter_eq_nil_iff.mpr
    intro node _
    rw [Function.comp_apply, decide_eq_true_iff, reaches]
    exact fun reached => differs reached.1

/-- **The nodes below a parent that a path without a dot reaches**: all, or none. -/
theorem filter_nodes_of_plain {path : List Char} (plain : '.' ∉ path) (tag : Tag)
    (children : List (LabelTree Tag)) :
    ((LabelTree.parent tag children).nodes.filter fun node => Reaches name path node.route) =
      if path = name tag then (LabelTree.parent tag children).nodes else [] := by
  have reaches : ∀ node ∈ (LabelTree.parent tag children).nodes,
      Reaches name path node.route ↔ path = name tag := by
    intro node member
    obtain ⟨rest, route⟩ : ∃ rest, node.route = tag :: rest := by
      rcases List.mem_cons.mp member with rfl | inside
      · exact ⟨[], rfl⟩
      · obtain ⟨other, -, rfl⟩ := List.mem_map.mp inside
        exact ⟨other.route, rfl⟩
    rw [route]
    exact reaches_cons_of_not_mem plain
  split
  case isTrue whole =>
    exact List.filter_eq_self.mpr fun node member => decide_eq_true ((reaches node member).mpr whole)
  case isFalse other =>
    refine List.filter_eq_nil_iff.mpr fun node member => ?_
    rw [decide_eq_true_iff, reaches node member]
    exact other

/-- **The commander below any parent**: it sends the command to the nodes the path reaches. -/
theorem tagCommander_genTagHierarchy (known : cmd ≠ .noCmd) (tree : LabelTree Tag)
    (dotFree : ∀ tag ∈ tree.labels, '.' ∉ name tag) {path : List Char} (some' : path ≠ [])
    (closed : path.getLast? ≠ some '.') (parent : Option Tag) (depth : Nat) :
    tagCommander name cmd (genTagHierarchy parent depth tree) path =
      (tree.nodes.filter fun node => Reaches name path node.route).map (sentTo name cmd depth) := by
  induction tree using LabelTree.induct generalizing path parent depth with
  | leaf tag =>
    have reaches : Reaches name path (⟨[], tag⟩ : LabelTree.Node Tag).route ↔ path = name tag := by
      refine reaches_cons_iff.trans (or_iff_left ?_)
      rintro ⟨tail, -, below⟩
      exact not_reaches_nil tail below
    unfold genTagHierarchy tagCommander LabelTree.nodes
    by_cases whole : path = name tag
    · rw [if_pos (Or.inl whole), List.filter_cons_of_pos (by simpa using reaches.mpr whole)]
      exact processCommand_eq known (.leaf tag) parent depth
    · rw [if_neg (not_or.mpr ⟨whole, some'⟩),
        List.filter_cons_of_neg (by simpa using mt reaches.mp whole)]
      rfl
  | parent tag children ih =>
    have names := fun child (member : child ∈ children) other (inside : other ∈ child.labels) =>
      dotFree other (by
        rw [LabelTree.labels_parent]
        exact List.mem_cons_of_mem _ (List.mem_flatMap.mpr ⟨child, member, inside⟩))
    have own : '.' ∉ name tag := by
      apply dotFree tag
      rw [LabelTree.labels_parent]
      exact List.mem_cons_self
    unfold genTagHierarchy tagCommander
    rw [if_neg some']
    by_cases dot : '.' ∈ path
    · -- The head is compared here, the tail by the children.
      obtain ⟨head, tail, rfl, plain⟩ := List.eq_append_cons_of_mem dot
      have below : tail ≠ [] := by
        rintro rfl
        exact closed (by simp)
      have closed' : tail.getLast? ≠ some '.' := by
        rw [List.getLast?_append_cons, List.getLast?_cons_of_ne_nil below] at closed
        exact closed
      simp only [getHeadTail_append plain]
      rw [filter_nodes_of_cut plain own]
      by_cases same : head = name tag
      · rw [if_neg (not_not.mpr same), if_neg below, if_pos same, genTagHierarchyAll_eq,
          tagCommanderAll_eq, List.flatMap_map, List.map_flatMap]
        apply List.flatMap_congr
        intro child member
        rw [ih child member (names child member) below closed' (some tag) (depth + 1), List.map_map]
        exact List.map_congr_left fun node _ => (sentTo_under depth tag node).symm
      · rw [if_pos same, if_neg same]
        rfl
    · -- The path ends here: all of the subtree, or nothing.
      simp only [getHeadTail_of_not_mem dot]
      rw [filter_nodes_of_plain dot]
      by_cases whole : path = name tag
      · rw [if_neg (not_not.mpr whole), if_pos trivial, if_pos whole]
        exact processCommand_eq known (.parent tag children) parent depth
      · rw [if_pos whole, if_neg whole]
        rfl

end

/-! ### The whole hierarchy -/

/-- **Dispatch is exact.** For names without dots and a path that does not end in one, the command
goes once, in pre-order, to every node the path denotes, and to no other. -/
theorem tagCommander_exact (name : Tag → List Char) (tree : LabelTree Tag)
    (dotFree : ∀ tag ∈ tree.labels, '.' ∉ name tag) {cmd : StatCmd} (known : cmd ≠ .noCmd)
    {path : List Char} (closed : path.getLast? ≠ some '.') :
    tagCommander name cmd (tagHierarchy tree) path =
      (tree.nodes.filter fun node => Denotes name path node).map fun node =>
        (⟨name node.label, node.label, node.depth⟩, cmd) := by
  have sent : (fun node : LabelTree.Node Tag => ((⟨name node.label, node.label, node.depth⟩, cmd) :
      TagInfo Tag × StatCmd)) = sentTo name cmd 0 := by
    funext node
    unfold sentTo
    rw [Nat.zero_add]
  rw [sent, tagHierarchy]
  by_cases all : path = []
  · have denotes : ∀ node : LabelTree.Node Tag, Denotes name path node := fun _ => Or.inl all
    rw [List.filter_eq_self.mpr fun node _ => decide_eq_true (denotes node), all,
      tagCommander_nil known tree none 0]
  · rw [tagCommander_genTagHierarchy known tree dotFree all closed none 0]
    refine congrArg _ (List.filter_congr fun node _ => ?_)
    exact decide_eq_decide.mpr (or_iff_right all).symm

/-- A tree in which siblings and nested nodes share a name. -/
def repeatedNames : LabelTree Nat :=
  .parent 0 [.leaf 1, .parent 2 [.leaf 3, .leaf 4], .leaf 5]

def repeatedName : Nat → List Char
  | 4 => ['b', 'c']
  | 0 => ['a']
  | _ => ['b']

theorem tagCommander_exact_repeated :
    tagCommander repeatedName .dumpStat (tagHierarchy repeatedNames) ['a', '.', 'b'] =
      [(⟨['b'], 1, 1⟩, .dumpStat), (⟨['b'], 2, 1⟩, .dumpStat), (⟨['b'], 3, 2⟩, .dumpStat),
        (⟨['b', 'c'], 4, 2⟩, .dumpStat), (⟨['b'], 5, 1⟩, .dumpStat)] := by
  rw [tagCommander_exact repeatedName repeatedNames (by decide) (by decide) (by decide)]
  rfl

/-- The same calls, by `sentTo`. -/
theorem tagCommander_denoted (name : Tag → List Char) (tree : LabelTree Tag)
    (dotFree : ∀ tag ∈ tree.labels, '.' ∉ name tag) {cmd : StatCmd} (known : cmd ≠ .noCmd)
    {path : List Char} (closed : path.getLast? ≠ some '.') :
    tagCommander name cmd (tagHierarchy tree) path =
      (tree.nodes.filter fun node => Denotes name path node).map (sentTo name cmd 0) := by
  rw [tagHierarchy]
  by_cases all : path = []
  · rw [all, tagCommander_nil known tree none 0]
    exact congrArg _ (List.filter_eq_self.mpr fun node _ => decide_eq_true (Or.inl rfl)).symm
  · rw [tagCommander_genTagHierarchy known tree dotFree all closed none 0]
    refine congrArg _ (List.filter_congr fun node _ => ?_)
    exact decide_eq_decide.mpr (or_iff_right all).symm

/-- With pairwise distinct tags, the tags of the denoted nodes tell which nodes are denoted. -/
theorem label_mem_denoted {name : Tag → List Char} {tree : LabelTree Tag}
    (distinct : tree.labels.Nodup) {path : List Char}
    {node : LabelTree.Node Tag} (member : node ∈ tree.nodes) :
    node.label ∈ (tree.nodes.filter fun node => Denotes name path node).map
        LabelTree.Node.label ↔
      Denotes name path node := by
  constructor
  · intro selected
    obtain ⟨other, filtered, same⟩ := List.mem_map.mp selected
    obtain ⟨member', denotes⟩ := List.mem_filter.mp filtered
    rw [← LabelTree.map_label_nodes] at distinct
    rw [← List.inj_on_of_nodup_map distinct member' member same]
    exact of_decide_eq_true denotes
  · intro denotes
    exact List.mem_map_of_mem (List.mem_filter.mpr ⟨member, decide_eq_true denotes⟩)

/-- **The tags that a command reaches.** -/
theorem label_mem_tagCommander {name : Tag → List Char} {tree : LabelTree Tag}
    (distinct : tree.labels.Nodup) (dotFree : ∀ tag ∈ tree.labels, '.' ∉ name tag) {cmd : StatCmd}
    (known : cmd ≠ .noCmd) {path : List Char} (closed : path.getLast? ≠ some '.')
    {node : LabelTree.Node Tag} (member : node ∈ tree.nodes) :
    node.label ∈ (tagCommander name cmd (tagHierarchy tree) path).map (fun sent => sent.1.tagIndex) ↔
      Denotes name path node := by
  have tags : (fun sent : TagInfo Tag × StatCmd => sent.1.tagIndex) ∘ sentTo name cmd 0 =
      LabelTree.Node.label := rfl
  rw [tagCommander_denoted name tree dotFree known closed, List.map_map, tags]
  exact label_mem_denoted distinct member

end StatLog.Tags
