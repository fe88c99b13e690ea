/-
**Finite trees with labelled leaves and parents.**

A parent may have no children and is not a leaf for it.

* `LabelTree.nodes`: the nodes in pre-order, each with the labels above it.
* `LabelTree.subtrees`: for every node in pre-order, the tree below it; `LabelTree.leaves`: the labels
  of those without one.
* `LabelTree.asParent`: a tree whose root counts as a parent in any case; `LabelTree.leavesBelow`: its
  leaves.
* `LabelTree.induct`: induction on a tree, with the hypothesis for every child of a parent.
-/

import Mathlib.Data.List.Nodup

namespace RoseTree

inductive LabelTree (Label : Type)
  | leaf (label : Label)
  | parent (label : Label) (children : List (LabelTree Label))

namespace LabelTree

variable {Label : Type}

def label : LabelTree Label → Label
  | leaf label => label
  | parent label _ => label

def children : LabelTree Label → List (LabelTree Label)
  | leaf _ => []
  | parent _ children => children

/-- The tree with a parent for its root, which has no children if it was a leaf. -/
def asParent (tree : LabelTree Label) : LabelTree Label := parent tree.label tree.children

/-- A node of a tree: the labels from the root to its parent, and its own. -/
structure Node (Label : Type) where
  above : List Label
  label : Label

namespace Node

/-- The labels from the root to the node. -/
def route (node : Node Label) : List Label := node.above ++ [node.label]

def depth (node : Node Label) : Nat := node.above.length

/-- The node in a tree that hangs under one more parent. -/
def under (label : Label) (node : Node Label) : Node Label := ⟨label :: node.above, node.label⟩

@[simp] theorem depth_under (label : Label) (node : Node Label) :
    (node.under label).depth = node.depth + 1 := rfl

end Node

mutual

/-- The nodes in pre-order. -/
def nodes : LabelTree Label → List (Node Label)
  | leaf label => [⟨[], label⟩]
  | parent label children => ⟨[], label⟩ :: (nodesAll children).map (Node.under label)

def nodesAll : List (LabelTree Label) → List (Node Label)
  | [] => []
  | child :: children => child.nodes ++ nodesAll children

end

mutual

/-- The tree below each node, in pre-order. -/
def subtrees : LabelTree Label → List (LabelTree Label)
  | leaf label => [leaf label]
  | parent label children => parent label children :: subtreesAll children

def subtreesAll : List (LabelTree Label) → List (LabelTree Label)
  | [] => []
  | child :: children => child.subtrees ++ subtreesAll children

end

/-- The label of a leaf. -/
def leafLabel? : LabelTree Label → Option Label
  | leaf label => some label
  | parent _ _ => none

/-- The labels of the leaves, in pre-order. -/
def leaves (tree : LabelTree Label) : List Label := tree.subtrees.filterMap leafLabel?

theorem mem_leaves_iff {tree : LabelTree Label} {label : Label} :
    label ∈ tree.leaves ↔ leaf label ∈ tree.subtrees := by
  rw [leaves, List.mem_filterMap]
  constructor
  · rintro ⟨subtree, member, found⟩
    cases subtree with
    | leaf other =>
      obtain rfl := Option.some.inj found
      exact member
    | parent other children => cases found
  · exact fun member => ⟨_, member, rfl⟩

/-- **Induction on a tree**, with the hypothesis for every child. -/
theorem induct {motive : LabelTree Label → Prop} (leaf : ∀ label, motive (leaf label))
    (parent : ∀ label children, (∀ child ∈ children, motive child) → motive (parent label children))
    (tree : LabelTree Label) : motive tree := by
  refine LabelTree.rec (motive_1 := motive)
    (motive_2 := fun children => ∀ child ∈ children, motive child) leaf parent ?_ ?_ tree
  · intro child member
    cases member
  · intro child children first rest other member
    rcases List.mem_cons.mp member with rfl | later
    · exact first
    · exact rest other later

theorem nodesAll_eq (children : List (LabelTree Label)) :
    nodesAll children = children.flatMap nodes := by
  induction children with
  | nil => rfl
  | cons child children ih => rw [nodesAll, ih, List.flatMap_cons]

theorem subtreesAll_eq (children : List (LabelTree Label)) :
    subtreesAll children = children.flatMap subtrees := by
  induction children with
  | nil => rfl
  | cons child children ih => rw [subtreesAll, ih, List.flatMap_cons]

/-- The labels in pre-order. -/
def labels (tree : LabelTree Label) : List Label := tree.subtrees.map label

theorem mem_labels_of_mem_leaves {tree : LabelTree Label} {label : Label}
    (member : label ∈ tree.leaves) : label ∈ tree.labels :=
  List.mem_map.mpr ⟨_, mem_leaves_iff.mp member, rfl⟩

/-- A subtree whose label is that of a leaf is this leaf. -/
theorem eq_leaf_of_mem_leaves {tree subtree : LabelTree Label} (distinct : tree.labels.Nodup)
    (member : subtree ∈ tree.subtrees) (isLeaf : subtree.label ∈ tree.leaves) :
    subtree = leaf subtree.label :=
  List.inj_on_of_nodup_map distinct member (mem_leaves_iff.mp isLeaf) rfl

theorem labels_parent (label : Label) (children : List (LabelTree Label)) :
    (parent label children).labels = label :: children.flatMap labels := by
  rw [labels, subtrees, subtreesAll_eq, List.map_cons, List.map_flatMap]
  rfl

theorem leaves_parent (label : Label) (children : List (LabelTree Label)) :
    (parent label children).leaves = children.flatMap leaves := by
  rw [leaves, subtrees, subtreesAll_eq, List.filterMap_cons_none rfl, List.filterMap_flatMap]
  rfl

theorem labels_asParent (tree : LabelTree Label) : tree.asParent.labels = tree.labels := by
  cases tree <;> rfl

theorem map_labels {Key : Type} (tree : LabelTree Label) (key : Label → Key) :
    tree.labels.map key = tree.asParent.subtrees.map fun subtree => key subtree.label := by
  rw [← labels_asParent, labels, List.map_map]
  rfl

/-- The labels of the leaves below the root, in pre-order. -/
def leavesBelow (tree : LabelTree Label) : List Label := tree.children.flatMap leaves

theorem leaves_asParent (tree : LabelTree Label) : tree.asParent.leaves = tree.leavesBelow :=
  leaves_parent tree.label tree.children

theorem mem_labels_of_mem_leavesBelow {tree : LabelTree Label} {label : Label}
    (member : label ∈ tree.leavesBelow) : label ∈ tree.labels := by
  rw [← leaves_asParent] at member
  rw [← labels_asParent]
  exact mem_labels_of_mem_leaves member

/-- The nodes carry the labels. -/
theorem map_label_nodes (tree : LabelTree Label) : tree.nodes.map Node.label = tree.labels := by
  induction tree using LabelTree.induct with
  | leaf label => rfl
  | parent label children ih =>
    rw [nodes, nodesAll_eq, labels_parent, List.map_cons, List.map_map, List.map_flatMap]
    congr 1
    apply List.flatMap_congr
    intro child member
    rw [← ih child member]
    rfl

end LabelTree

end RoseTree
