/-
**The nodes of a tag.**

The two processes find the node of a tag in their own lists. The lists differ in the classes of the
nodes, and agree in their tags, types and addresses.

* `getHandle`: the node of a tag; `getHandle_of_mem`: with pairwise distinct tags there is only one.
* `LogStatOperational.writeStat`: a write by the tag of its stat.
* **`map_key_theStats`, `map_key_theLogs`**: the lists of both processes agree.
-/

import Mathlib.Data.List.Nodup
import StatLog.Tags.Layout

namespace StatLog.Tags

open ByteMemory Placement RoseTree Stats

variable {Tag Sample : Type}

/-- A node with its address in the shared memory. -/
abbrev PlacedNode (Tag Sample : Type) := Placed (LogStatNode Tag Sample)

namespace LogStatNode

def tag (node : LogStatNode Tag Sample) : Tag := node.tagNode.tag

/-- The type of a node that is a stat. -/
def statType? (node : LogStatNode Tag Sample) : Option (StatType Sample) :=
  match node.nodeClass with
  | .opStat type => some type
  | .controlStat type => some type
  | _ => none

end LogStatNode

/-- **`getHandle`**. A static assertion makes sure that one node matches. -/
def getHandle [DecidableEq Tag] (nodes : List (PlacedNode Tag Sample)) (tag : Tag) :
    Option (PlacedNode Tag Sample) :=
  nodes.find? fun placed => placed.item.tag = tag

/-- **With pairwise distinct tags every node is found under its own.** -/
theorem getHandle_of_mem [DecidableEq Tag] {nodes : List (PlacedNode Tag Sample)}
    (single : (nodes.map fun placed => placed.item.tag).Nodup) {placed : PlacedNode Tag Sample}
    (member : placed ∈ nodes) : getHandle nodes placed.item.tag = some placed := by
  unfold getHandle
  rcases search : nodes.find? (fun other => other.item.tag = placed.item.tag) with _ | found
  · have missing := List.find?_eq_none.mp search placed member
    simp at missing
  · have same : found.item.tag = placed.item.tag := by simpa using List.find?_some search
    rw [search, List.inj_on_of_nodup_map single (List.mem_of_find?_eq_some search) member same]

/-- The tags of a tree have nodes in the list that was made of it. -/
theorem exists_getHandle [DecidableEq Tag] {nodes : List (PlacedNode Tag Sample)} {labels : List Tag}
    (tags : nodes.map (fun placed => placed.item.tag) = labels.reverse) (distinct : labels.Nodup)
    {tag : Tag} (member : tag ∈ labels) :
    ∃ placed ∈ nodes, placed.item.tag = tag ∧ getHandle nodes tag = some placed := by
  have single : (nodes.map fun placed => placed.item.tag).Nodup := by
    rw [tags]
    exact List.nodup_reverse.mpr distinct
  rw [← List.mem_reverse, ← tags] at member
  obtain ⟨placed, member', same⟩ := List.mem_map.mp member
  refine ⟨placed, member', same, ?_⟩
  rw [← same]
  exact getHandle_of_mem single member'

/-- `writeStat<StatTag>(i1, ..., value)`, on the accumulators of all stats and the shared memory. -/
def LogStatOperational.writeStat [DecidableEq Tag] (theStats : List (PlacedNode Tag Sample))
    (accums : Tag → Accums Sample) (mem : Mem) (statTag : Tag) (indices : List Int) (value : Sample) :
    Option ((Tag → Accums Sample) × Mem) := do
  let placed ← getHandle theStats statTag
  let next ← placed.item.writeVal (accums statTag) mem placed.offset indices value
  some (fun tag => if tag = statTag then next.1 else accums tag, next.2)

/-- `doSerialize` of one node, with the accumulators of its tag. -/
def LogStatOperational.serializeNode (accums : Tag → Accums Sample) (mem : Mem)
    (placed : PlacedNode Tag Sample) : Mem :=
  placed.item.doSerialize (accums placed.item.tag) mem placed.offset

/-! ### The lists of the two processes -/

section

variable {statTagToType : Tag → StatType Sample} {isOperational isStatistic : Bool}

/-- The nodes of a list are those of the hierarchy. -/
theorem exists_nodeOf {tree : LabelTree (TagNode Tag)} {node : LogStatNode Tag Sample}
    (member : node ∈ tagListCreator statTagToType isOperational isStatistic tree) :
    ∃ subtree ∈ tree.asParent.subtrees,
      nodeOf statTagToType isOperational isStatistic subtree = node := by
  rw [tagListCreator_eq, List.mem_reverse] at member
  exact List.mem_map.mp member

theorem exists_nodeOf_of_mem_place {tree : LabelTree (TagNode Tag)} {start : Nat}
    {placed : PlacedNode Tag Sample}
    (member : placed ∈ place LogStatNode.getSharedSize start
      (tagListCreator statTagToType isOperational isStatistic tree)) :
    ∃ subtree ∈ tree.asParent.subtrees,
      nodeOf statTagToType isOperational isStatistic subtree = placed.item := by
  apply exists_nodeOf
  rw [← map_item_place LogStatNode.getSharedSize start
    (tagListCreator statTagToType isOperational isStatistic tree)]
  exact List.mem_map_of_mem member

/-- What both processes know about a node. -/
def LogStatNode.key (node : LogStatNode Tag Sample) : Tag × Option (StatType Sample) :=
  (node.tag, node.statType?)

/-- Lists that agree have the same keys in the same places. -/
theorem exists_same_place {nodes nodes' : List (PlacedNode Tag Sample)}
    (agree : nodes.map (fun placed => (placed.item.key, placed.offset, placed.item.getSharedSize)) =
      nodes'.map fun placed => (placed.item.key, placed.offset, placed.item.getSharedSize))
    {placed : PlacedNode Tag Sample} (member : placed ∈ nodes) :
    ∃ other ∈ nodes', other.item.key = placed.item.key ∧ other.offset = placed.offset ∧
      other.item.getSharedSize = placed.item.getSharedSize := by
  have known : (placed.item.key, placed.offset, placed.item.getSharedSize) ∈ nodes'.map
      fun placed => (placed.item.key, placed.offset, placed.item.getSharedSize) := by
    rw [← agree]
    exact List.mem_map.mpr ⟨placed, member, rfl⟩
  obtain ⟨other, member', same⟩ := List.mem_map.mp known
  simp only [Prod.mk.injEq] at same
  exact ⟨other, member', same⟩

/-- A node's tag and type do not depend on the process. -/
theorem key_nodeOf (tree : LabelTree (TagNode Tag)) :
    (nodeOf statTagToType isOperational isStatistic tree).key =
      (nodeOf statTagToType false isStatistic tree).key := by
  cases tree <;> cases isOperational <;> cases isStatistic <;> rfl

theorem map_key_tagListCreator (tree : LabelTree (TagNode Tag)) :
    (tagListCreator statTagToType isOperational isStatistic tree).map
        (fun node => (node.key, node.getSharedSize)) =
      (tagListCreator statTagToType false isStatistic tree).map
        fun node => (node.key, node.getSharedSize) := by
  rw [tagListCreator_eq, tagListCreator_eq, List.map_reverse, List.map_reverse, List.map_map,
    List.map_map]
  congr 1
  apply List.map_congr_left
  intro subtree _
  rw [Function.comp_apply, Function.comp_apply, key_nodeOf, getSharedSize_nodeOf]

theorem map_tag_tagListCreator (tree : LabelTree Tag) :
    (tagListCreator statTagToType isOperational isStatistic (tagHierarchy tree)).map
        LogStatNode.tag = tree.labels.reverse := by
  rw [← List.map_id tree.labels, LabelTree.map_labels]
  exact map_tagListCreator (fun _ => rfl) (fun _ _ => rfl) tree

end

namespace LogStatBase

variable (statTagToType : Tag → StatType Sample) (statTagTree logTagTree : LabelTree Tag)

/-- The offset of the first log. -/
def logsOffset : Nat :=
  totalSize LogStatNode.getSharedSize
    (tagListCreator statTagToType false true (tagHierarchy statTagTree))

theorem theStats_init (isOperational : Bool) (mem : Mem) :
    (init statTagToType isOperational statTagTree logTagTree mem).theStats =
      place LogStatNode.getSharedSize 0
        (tagListCreator statTagToType isOperational true (tagHierarchy statTagTree)) :=
  (setShmPointers_eq _ _ _).1

theorem theLogs_init (isOperational : Bool) (mem : Mem) :
    (init statTagToType isOperational statTagTree logTagTree mem).theLogs =
      place LogStatNode.getSharedSize (logsOffset statTagToType statTagTree)
        (tagListCreator statTagToType isOperational false (tagHierarchy logTagTree)) := by
  have keys : (tagListCreator statTagToType isOperational true (tagHierarchy statTagTree)).map _ = _ :=
    map_size_tagListCreator (tagHierarchy statTagTree)
  have sizes := congrArg (List.map Prod.snd) keys
  rw [List.map_map, List.map_map] at sizes
  have total : totalSize LogStatNode.getSharedSize
      (tagListCreator statTagToType isOperational true (tagHierarchy statTagTree)) =
        logsOffset statTagToType statTagTree := congrArg List.sum sizes
  unfold init
  simp only [setShmPointers_eq, Nat.zero_add, total]

/-- **The stats of both processes** have the same tags, types, addresses and sizes. -/
theorem map_key_theStats (isOperational : Bool) (mem mem' : Mem) :
    (init statTagToType isOperational statTagTree logTagTree mem).theStats.map
        (fun placed => (placed.item.key, placed.offset, placed.item.getSharedSize)) =
      (init statTagToType false statTagTree logTagTree mem').theStats.map
        fun placed => (placed.item.key, placed.offset, placed.item.getSharedSize) := by
  rw [theStats_init, theStats_init]
  exact map_place_congr 0 (map_key_tagListCreator _)

/-- **The logs of both processes** do as well. -/
theorem map_key_theLogs (isOperational : Bool) (mem mem' : Mem) :
    (init statTagToType isOperational statTagTree logTagTree mem).theLogs.map
        (fun placed => (placed.item.key, placed.offset, placed.item.getSharedSize)) =
      (init statTagToType false statTagTree logTagTree mem').theLogs.map
        fun placed => (placed.item.key, placed.offset, placed.item.getSharedSize) := by
  rw [theLogs_init, theLogs_init]
  exact map_place_congr _ (map_key_tagListCreator _)

theorem map_tag_theStats (isOperational : Bool) (mem : Mem) :
    (init statTagToType isOperational statTagTree logTagTree mem).theStats.map
        (fun placed => placed.item.tag) = statTagTree.labels.reverse := by
  have tags := congrArg (List.map LogStatNode.tag) (map_item_place LogStatNode.getSharedSize 0
    (tagListCreator statTagToType isOperational true (tagHierarchy statTagTree)))
  rw [List.map_map, map_tag_tagListCreator] at tags
  rw [theStats_init]
  exact tags

/-- **The stats of a process** are those of its tree, with the types of their tags. -/
theorem map_nodeClass_theStats (isOperational : Bool) (mem : Mem) :
    (init statTagToType isOperational statTagTree logTagTree mem).theStats.map
        (fun placed => (placed.item.tag, placed.item.nodeClass)) =
      (statTagTree.asParent.subtrees.map fun subtree =>
        (subtree.label, statNodeClass statTagToType isOperational subtree)).reverse := by
  have items := congrArg (List.map fun node => (node.tag, node.nodeClass))
    (map_item_place LogStatNode.getSharedSize 0
      (tagListCreator statTagToType isOperational true (tagHierarchy statTagTree)))
  rw [List.map_map] at items
  rw [theStats_init]
  exact items.trans (map_nodeClass_tagListCreator statTagTree)

variable {statTagToType statTagTree logTagTree} in
/-- A stat has a place in the tree. -/
theorem exists_subtree_of_mem_theStats {isOperational : Bool} {mem : Mem}
    {placed : PlacedNode Tag Sample}
    (member : placed ∈ (init statTagToType isOperational statTagTree logTagTree mem).theStats) :
    ∃ subtree ∈ statTagTree.asParent.subtrees, subtree.label = placed.item.tag ∧
      placed.item.nodeClass = statNodeClass statTagToType isOperational subtree := by
  have listed : (placed.item.tag, placed.item.nodeClass) ∈
      (init statTagToType isOperational statTagTree logTagTree mem).theStats.map
        fun placed => (placed.item.tag, placed.item.nodeClass) := List.mem_map.mpr ⟨placed, member, rfl⟩
  rw [map_nodeClass_theStats, List.mem_reverse] at listed
  obtain ⟨subtree, within, same⟩ := List.mem_map.mp listed
  rw [Prod.mk.injEq] at same
  exact ⟨subtree, within, same.1, same.2.symm⟩

theorem map_tag_theLogs (isOperational : Bool) (mem : Mem) :
    (init statTagToType isOperational statTagTree logTagTree mem).theLogs.map
        (fun placed => placed.item.tag) = logTagTree.labels.reverse := by
  have tags := congrArg (List.map LogStatNode.tag) (map_item_place LogStatNode.getSharedSize
    (logsOffset statTagToType statTagTree)
    (tagListCreator statTagToType isOperational false (tagHierarchy logTagTree)))
  rw [List.map_map, map_tag_tagListCreator] at tags
  rw [theLogs_init]
  exact tags

end LogStatBase

end StatLog.Tags
