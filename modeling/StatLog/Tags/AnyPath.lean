/-
**Commands on any path.**

A path that ends in a dot stops at a parent: where its last name is that of a parent, `getHeadTail` leaves
no tail and the command goes to the whole subtree; a leaf compares the dot as well and is not found.

* `DenotesAny`: the nodes that a path denotes, whatever its characters are.
* `tagCommander_trailingDot`: the commander below any parent, on a path that ends in a dot.
* **`tagCommander_anyPath`**: for every string the command goes once, in pre-order, to the nodes that it
  denotes.
-/

import Mathlib.Data.List.Pairwise
import StatLog.Tags.Commander

namespace StatLog.Tags

open RoseTree Stats

variable {Tag : Type} [DecidableEq Tag] {name : Tag → List Char}

/-! ### What any path denotes -/

/-- The node is a leaf, and the path is its own dotted name. -/
def NamesLeaf (name : Tag → List Char) (tree : LabelTree Tag) (path : List Char)
    (node : LabelTree.Node Tag) : Prop :=
  node.label ∈ tree.leaves ∧ dottedName name node.route = path

instance (name : Tag → List Char) (tree : LabelTree Tag) (path : List Char)
    (node : LabelTree.Node Tag) : Decidable (NamesLeaf name tree path node) :=
  inferInstanceAs (Decidable (_ ∧ _))

/-- **The nodes that a string denotes.** A dot at its end stands for any more names: it leaves out the
leaves that the string names without it. -/
def DenotesAny (name : Tag → List Char) (tree : LabelTree Tag) (path : List Char)
    (node : LabelTree.Node Tag) : Prop :=
  if path.getLast? = some '.' then
    Reaches name path.dropLast node.route ∧ ¬ NamesLeaf name tree path.dropLast node
  else Denotes name path node

instance (name : Tag → List Char) (tree : LabelTree Tag) (path : List Char)
    (node : LabelTree.Node Tag) : Decidable (DenotesAny name tree path node) :=
  inferInstanceAs (Decidable (if path.getLast? = some '.' then
    Reaches name path.dropLast node.route ∧ ¬ NamesLeaf name tree path.dropLast node
  else Denotes name path node))

/-! ### Leaves of distinct labels -/

omit [DecidableEq Tag] in
/-- Nodes carry labels of their tree. -/
theorem label_mem_labels {tree : LabelTree Tag} {node : LabelTree.Node Tag} (member : node ∈ tree.nodes) :
    node.label ∈ tree.labels := by
  rw [← LabelTree.map_label_nodes]
  exact List.mem_map_of_mem member

section

variable {tag : Tag} {children : List (LabelTree Tag)}
  (distinct : (LabelTree.parent tag children).labels.Nodup)
include distinct

omit [DecidableEq Tag] in
/-- The root of a parent is no leaf. -/
theorem label_notMem_leaves : tag ∉ (LabelTree.parent tag children).leaves := by
  rw [LabelTree.labels_parent] at distinct
  rw [LabelTree.leaves_parent]
  intro leaf
  obtain ⟨child, belongs, inside⟩ := List.mem_flatMap.mp leaf
  exact (List.nodup_cons.mp distinct).1
    (List.mem_flatMap.mpr ⟨child, belongs, LabelTree.mem_labels_of_mem_leaves inside⟩)

omit [DecidableEq Tag] in
/-- A child has the leaves of the whole tree that are among its labels. -/
theorem mem_leaves_child {child : LabelTree Tag} (belongs : child ∈ children) {label : Tag}
    (inside : label ∈ child.labels) :
    label ∈ (LabelTree.parent tag children).leaves ↔ label ∈ child.leaves := by
  rw [LabelTree.labels_parent] at distinct
  rw [LabelTree.leaves_parent]
  constructor
  · intro leaf
    obtain ⟨other, belongs', leaf⟩ := List.mem_flatMap.mp leaf
    by_cases same : other = child
    · rwa [← same]
    · have apart := (List.nodup_flatMap.mp (List.nodup_cons.mp distinct).2).2
      have symmetric : Std.Symm (Function.onFun List.Disjoint (LabelTree.labels : LabelTree Tag → _)) :=
        ⟨fun _ _ disjoint _ first second => disjoint second first⟩
      have disjoint := apart.forall belongs' belongs same
      exact absurd inside (disjoint (LabelTree.mem_labels_of_mem_leaves leaf))
  · exact fun leaf => List.mem_flatMap.mpr ⟨child, belongs, leaf⟩

omit [DecidableEq Tag] in
theorem nodup_labels_child {child : LabelTree Tag} (belongs : child ∈ children) :
    child.labels.Nodup := by
  rw [LabelTree.labels_parent] at distinct
  exact (List.nodup_flatMap.mp (List.nodup_cons.mp distinct).2).1 child belongs

end

/-! ### A dot at the end -/

section

variable {tag : Tag} {children : List (LabelTree Tag)}
  (distinct : (LabelTree.parent tag children).labels.Nodup)
include distinct

/-- A name without dots: the whole subtree, or nothing. -/
theorem filter_dotted_of_plain {path : List Char} (plain : '.' ∉ path) :
    ((LabelTree.parent tag children).nodes.filter fun node =>
        Reaches name path node.route ∧ ¬ NamesLeaf name (.parent tag children) path node) =
      if path = name tag then (LabelTree.parent tag children).nodes else [] := by
  rw [← filter_nodes_of_plain plain tag children]
  refine List.filter_congr fun node member => ?_
  refine decide_eq_decide.mpr (and_iff_left_of_imp fun _ => ?_)
  rintro ⟨leaf, own⟩
  rw [LabelTree.nodes, LabelTree.nodesAll_eq] at member
  rcases List.mem_cons.mp member with rfl | below
  · exact label_notMem_leaves distinct leaf
  · obtain ⟨inner, -, rfl⟩ := List.mem_map.mp below
    -- Below the root, a dotted name has a dot.
    have route : (inner.under tag).route = tag :: inner.route := rfl
    rw [route, dottedName_cons tag (by simp [LabelTree.Node.route])] at own
    exact plain (own ▸ List.mem_append_right _ List.mem_cons_self)

/-- A name in front of a dot: what the rest denotes below the children. -/
theorem filter_dotted_of_cut {head tail : List Char} (plain : '.' ∉ head) (dotFree : '.' ∉ name tag) :
    ((LabelTree.parent tag children).nodes.filter fun node =>
        Reaches name (head ++ '.' :: tail) node.route ∧
          ¬ NamesLeaf name (.parent tag children) (head ++ '.' :: tail) node) =
      if head = name tag then
        children.flatMap fun child => (child.nodes.filter fun node =>
          Reaches name tail node.route ∧ ¬ NamesLeaf name child tail node).map
            (LabelTree.Node.under tag)
      else [] := by
  have filter : ((LabelTree.parent tag children).nodes.filter fun node =>
      Reaches name (head ++ '.' :: tail) node.route ∧
        ¬ NamesLeaf name (.parent tag children) (head ++ '.' :: tail) node) =
      (((LabelTree.parent tag children).nodes.filter fun node =>
        Reaches name (head ++ '.' :: tail) node.route).filter fun node =>
          ¬ NamesLeaf name (.parent tag children) (head ++ '.' :: tail) node) := by
    rw [List.filter_filter]
    refine List.filter_congr fun node _ => ?_
    rw [← Bool.decide_and]
    exact decide_eq_decide.mpr and_comm
  rw [filter, filter_nodes_of_cut plain dotFree]
  split
  case isFalse => rfl
  case isTrue same =>
    subst same
    rw [List.filter_flatMap]
    refine List.flatMap_congr fun child belongs => ?_
    rw [List.filter_map, List.filter_filter]
    refine congrArg _ (List.filter_congr fun node member => ?_)
    have leaf := mem_leaves_child distinct belongs (label_mem_labels member)
    have own : dottedName name (node.under tag).route = name tag ++ '.' :: tail ↔
        dottedName name node.route = tail := by
      have route : (node.under tag).route = tag :: node.route := rfl
      rw [route, dottedName_cons tag (by simp [LabelTree.Node.route]), List.append_cancel_left_eq,
        List.cons.injEq, and_iff_right rfl]
    have names : NamesLeaf name (.parent tag children) (name tag ++ '.' :: tail) (node.under tag) ↔
        NamesLeaf name child tail node := and_congr leaf own
    rw [Function.comp_apply, ← Bool.decide_and]
    exact decide_eq_decide.mpr ((and_congr_left fun _ => not_congr names).trans and_comm)

end

/-- **The commander on a path that ends in a dot.** -/
theorem tagCommander_trailingDot {cmd : StatCmd} (known : cmd ≠ .noCmd) (tree : LabelTree Tag)
    (distinct : tree.labels.Nodup) (dotFree : ∀ tag ∈ tree.labels, '.' ∉ name tag) (path : List Char)
    (parent : Option Tag) (depth : Nat) :
    tagCommander name cmd (genTagHierarchy parent depth tree) (path ++ ['.']) =
      (tree.nodes.filter fun node =>
        Reaches name path node.route ∧ ¬ NamesLeaf name tree path node).map (sentTo name cmd depth) := by
  induction tree using LabelTree.induct generalizing path parent depth with
  | leaf tag =>
    have own := dotFree tag List.mem_cons_self
    have differs : path ++ ['.'] ≠ name tag := by
      rintro same
      exact own (same ▸ List.mem_append_right _ List.mem_cons_self)
    have excluded : ¬ (Reaches name path (⟨[], tag⟩ : LabelTree.Node Tag).route ∧
        ¬ NamesLeaf name (.leaf tag) path ⟨[], tag⟩) := by
      rintro ⟨reached, other⟩
      refine other ⟨List.mem_cons_self, ?_⟩
      rcases reaches_cons_iff.mp reached with whole | ⟨tail, -, below⟩
      · exact (dottedName_singleton tag).trans whole.symm
      · exact absurd below (not_reaches_nil tail)
    unfold genTagHierarchy tagCommander
    rw [if_neg (not_or.mpr ⟨differs, List.concat_ne_nil _ _⟩), LabelTree.nodes,
      List.filter_cons_of_neg (by simpa using excluded)]
    rfl
  | parent tag children ih =>
    have names := fun child (member : child ∈ children) other (inside : other ∈ child.labels) =>
      dotFree other (by
        rw [LabelTree.labels_parent]
        exact List.mem_cons_of_mem _ (List.mem_flatMap.mpr ⟨child, member, inside⟩))
    have own : '.' ∉ name tag := by
      apply dotFree tag
      rw [LabelTree.labels_parent]
      exact List.mem_cons_self
    unfold genTagHierarchy tagCommander
    rw [if_neg (List.concat_ne_nil _ _)]
    by_cases dot : '.' ∈ path
    · -- The head is compared here, the tail and the last dot by the children.
      obtain ⟨head, tail, rfl, plain⟩ := List.eq_append_cons_of_mem dot
      have cut : head ++ '.' :: tail ++ ['.'] = head ++ '.' :: (tail ++ ['.']) := by
        rw [List.append_assoc, List.cons_append]
      simp only [cut, getHeadTail_append plain]
      rw [filter_dotted_of_cut distinct plain own]
      by_cases same : head = name tag
      · rw [if_neg (not_not.mpr same), if_neg (List.concat_ne_nil _ _), if_pos same,
          genTagHierarchyAll_eq, tagCommanderAll_eq, List.flatMap_map, List.map_flatMap]
        apply List.flatMap_congr
        intro child member
        rw [ih child member (nodup_labels_child distinct member) (names child member) tail (some tag)
          (depth + 1), List.map_map]
        exact List.map_congr_left fun node _ => (sentTo_under depth tag node).symm
      · rw [if_pos same, if_neg same]
        rfl
    · -- Nothing is left behind the dot: all of the subtree, or nothing.
      simp only [getHeadTail_append dot]
      rw [filter_dotted_of_plain distinct dot]
      by_cases whole : path = name tag
      · rw [if_neg (not_not.mpr whole), if_pos trivial, if_pos whole]
        exact processCommand_eq known (.parent tag children) parent depth
      · rw [if_pos whole, if_neg whole]
        rfl

/-- The commander on any path. -/
theorem tagCommander_denotedAny {cmd : StatCmd} (known : cmd ≠ .noCmd) (tree : LabelTree Tag)
    (distinct : tree.labels.Nodup) (dotFree : ∀ tag ∈ tree.labels, '.' ∉ name tag) (path : List Char) :
    tagCommander name cmd (tagHierarchy tree) path =
      (tree.nodes.filter fun node => DenotesAny name tree path node).map (sentTo name cmd 0) := by
  by_cases dot : path.getLast? = some '.'
  · obtain ⟨front, rfl⟩ := List.getLast?_eq_some_iff.mp dot
    rw [tagHierarchy, tagCommander_trailingDot known tree distinct dotFree front none 0]
    refine congrArg _ (List.filter_congr fun node _ => decide_eq_decide.mpr ?_)
    rw [DenotesAny, if_pos dot, List.dropLast_concat]
  · rw [tagCommander_denoted name tree dotFree known dot]
    refine congrArg _ (List.filter_congr fun node _ => decide_eq_decide.mpr ?_)
    rw [DenotesAny, if_neg dot]

/-- What is sent goes to a node that the path denotes. -/
theorem exists_node_of_sent {cmd : StatCmd} (known : cmd ≠ .noCmd) {tree : LabelTree Tag}
    (distinct : tree.labels.Nodup) (dotFree : ∀ tag ∈ tree.labels, '.' ∉ name tag) {path : List Char}
    {sent : TagInfo Tag × StatCmd} (sends : sent ∈ tagCommander name cmd (tagHierarchy tree) path) :
    ∃ node ∈ tree.nodes, node.label = sent.1.tagIndex ∧ DenotesAny name tree path node := by
  rw [tagCommander_denotedAny known tree distinct dotFree] at sends
  obtain ⟨node, member, rfl⟩ := List.mem_map.mp sends
  obtain ⟨inside, denoted⟩ := List.mem_filter.mp member
  exact ⟨node, inside, rfl, of_decide_eq_true denoted⟩

/-- **Dispatch on any string**, with dots wherever they are: for names without dots the command goes
once, in pre-order, to every node that the string denotes, and to no other. -/
theorem tagCommander_anyPath (name : Tag → List Char) (tree : LabelTree Tag)
    (distinct : tree.labels.Nodup) (dotFree : ∀ tag ∈ tree.labels, '.' ∉ name tag) {cmd : StatCmd}
    (known : cmd ≠ .noCmd) (path : List Char) :
    tagCommander name cmd (tagHierarchy tree) path =
      (tree.nodes.filter fun node => DenotesAny name tree path node).map fun node =>
        (⟨name node.label, node.label, node.depth⟩, cmd) := by
  have sent : sentTo name cmd 0 = fun node : LabelTree.Node Tag =>
      ((⟨name node.label, node.label, node.depth⟩, cmd) : TagInfo Tag × StatCmd) := by
    funext node
    unfold sentTo
    rw [Nat.zero_add]
  rw [← sent]
  exact tagCommander_denotedAny known tree distinct dotFree path

/-- A dot behind the name of a parent changes nothing; behind that of a leaf it leaves nothing. -/
theorem tagCommander_anyPath_dots :
    tagCommander repeatedName .dumpStat (tagHierarchy repeatedNames) ['a', '.', 'b', '.'] =
      [(⟨['b'], 2, 1⟩, .dumpStat), (⟨['b'], 3, 2⟩, .dumpStat), (⟨['b', 'c'], 4, 2⟩, .dumpStat)] := by
  rw [tagCommander_anyPath repeatedName repeatedNames (by decide) (by decide) (by decide)]
  rfl

end StatLog.Tags
