/-
**The tag hierarchy.**

A tag declares a name and, when it is a parent, a list of children. `GenTagHierarchy` turns such a
declaration into a tree of nodes that also know their parent and depth.

* `genTagHierarchy`, `tagHierarchy`: the source's function, and its value for a whole declaration.
* **`map_subtrees_genTagHierarchy`**: the hierarchy has the nodes of the declaration in the same places.
-/

import StatLog.Lib.RoseTree

namespace StatLog.Tags

open RoseTree

variable {Tag : Type}

/-- What a `TagNode` says about itself; its `child_list` is the list of children of the tree it is a
label in. The parent of the root is the nameless top node. -/
structure TagNode (Tag : Type) where
  tag : Tag
  parent : Option Tag
  depth : Nat

mutual

/-- **`GenTagHierarchy`**. -/
def genTagHierarchy (parent : Option Tag) (depth : Nat) : LabelTree Tag → LabelTree (TagNode Tag)
  | .leaf tag => .leaf ⟨tag, parent, depth⟩
  | .parent tag children =>
    .parent ⟨tag, parent, depth⟩ (genTagHierarchyAll (some tag) (depth + 1) children)

def genTagHierarchyAll (parent : Option Tag) (depth : Nat) :
    List (LabelTree Tag) → List (LabelTree (TagNode Tag))
  | [] => []
  | child :: children => genTagHierarchy parent depth child :: genTagHierarchyAll parent depth children

end

/-- The hierarchy of a log stat: its root stands below the top node. -/
def tagHierarchy (tree : LabelTree Tag) : LabelTree (TagNode Tag) := genTagHierarchy none 0 tree

theorem asParent_tagHierarchy (tree : LabelTree Tag) :
    (tagHierarchy tree).asParent = tagHierarchy tree.asParent := by
  cases tree <;> rfl

theorem genTagHierarchyAll_eq (parent : Option Tag) (depth : Nat) (children : List (LabelTree Tag)) :
    genTagHierarchyAll parent depth children = children.map (genTagHierarchy parent depth) := by
  induction children with
  | nil => rfl
  | cons child children ih => rw [genTagHierarchyAll, ih, List.map_cons]

/-- **The hierarchy has the nodes of the declaration in the same places**: what depends on a node's tag
and on whether it is a leaf is the same in both. -/
theorem map_subtrees_genTagHierarchy {Key : Type} {ofNode : LabelTree (TagNode Tag) → Key}
    {ofTag : LabelTree Tag → Key} (leaf : ∀ tagNode, ofNode (.leaf tagNode) = ofTag (.leaf tagNode.tag))
    (parent : ∀ tagNode children children',
      ofNode (.parent tagNode children) = ofTag (.parent tagNode.tag children'))
    (tree : LabelTree Tag) (above : Option Tag) (depth : Nat) :
    (genTagHierarchy above depth tree).subtrees.map ofNode = tree.subtrees.map ofTag := by
  induction tree using LabelTree.induct generalizing above depth with
  | leaf tag => exact congrArg (fun key => [key]) (leaf ⟨tag, above, depth⟩)
  | parent tag children ih =>
    rw [genTagHierarchy, genTagHierarchyAll_eq, LabelTree.subtrees, LabelTree.subtrees,
      LabelTree.subtreesAll_eq, LabelTree.subtreesAll_eq, List.map_cons, List.map_cons, List.map_flatMap,
      List.map_flatMap, List.flatMap_map]
    refine congrArg₂ List.cons (parent ⟨tag, above, depth⟩ _ children)
      (List.flatMap_congr fun child member => ?_)
    exact ih child member (some tag) (depth + 1)

/-- It has the tags of the declaration. -/
theorem map_tag_labels_genTagHierarchy (tree : LabelTree Tag) (parent : Option Tag) (depth : Nat) :
    (genTagHierarchy parent depth tree).labels.map TagNode.tag = tree.labels := by
  rw [LabelTree.labels, List.map_map, LabelTree.labels]
  exact map_subtrees_genTagHierarchy (fun _ => rfl) (fun _ _ _ => rfl) tree parent depth

end StatLog.Tags
