/-
**The nodes a path denotes are a forest.**

They are whole trees, whose roots hang under the nodes that all but the last name of the path lead to.

* `pathAbove`: the names of a path without the last one.
* `ForestBelow`: nodes of trees in pre-order, under the given names; what shows them as an outline tells
  their routes.
* **`forestBelow_denoted`**: the nodes that a path denotes are such a forest.
* `reaches_dotted_iff`: what a full name reaches when it is used as a path.
-/

import StatLog.Lib.Outline
import StatLog.Tags.Commander

namespace StatLog.Tags

open Outline RoseTree

variable {Tag : Type}

/-- The names of a path without the last one. -/
def pathAbove (path : List Char) : List (List Char) := (path.splitOn '.').dropLast

theorem pathAbove_of_not_mem {path : List Char} (plain : '.' ∉ path) : pathAbove path = [] := by
  rw [pathAbove, List.splitOn_eq_singleton plain, List.dropLast_singleton]

theorem pathAbove_of_cut {head tail : List Char} (plain : '.' ∉ head) :
    pathAbove (head ++ '.' :: tail) = head :: pathAbove tail := by
  rw [pathAbove, List.splitOn_append_cons_self_of_not_mem plain,
    List.dropLast_cons_of_ne_nil (List.splitOn_ne_nil _ _)]
  rfl

/-- **Nodes of trees in pre-order, under the given names.** -/
structure ForestBelow (name : Tag → List Char) (above : List (List Char))
    (nodes : List (LabelTree.Node Tag)) : Prop where
  /-- Their depths below these names tell what follows them on the routes. -/
  gives : Gives [] (nodes.map fun node => (node.depth - above.length, name node.label))
    (nodes.map fun node => (node.route.map name).drop above.length)
  /-- All are under these names. -/
  below : ∀ node ∈ nodes, above <+: node.above.map name
  /-- The roots are right under them. -/
  top : nodes ≠ [] → ∃ node ∈ nodes, node.depth = above.length

section

variable {name : Tag → List Char} {above : List (List Char)} {nodes : List (LabelTree.Node Tag)}

theorem ForestBelow.length_le (forest : ForestBelow name above nodes) {node : LabelTree.Node Tag}
    (member : node ∈ nodes) : above.length ≤ node.depth := by
  have shorter := (forest.below node member).length_le
  rwa [List.length_map] at shorter

/-- **The route in full.** -/
theorem ForestBelow.append_drop (forest : ForestBelow name above nodes) {node : LabelTree.Node Tag}
    (member : node ∈ nodes) :
    above ++ (node.route.map name).drop above.length = node.route.map name := by
  have leads : above <+: node.route.map name := by
    rw [LabelTree.Node.route, List.map_append]
    exact (forest.below node member).trans (List.prefix_append _ _)
  obtain ⟨rest, whole⟩ := leads
  rw [← whole, List.drop_left]

theorem forestBelow_nil (name : Tag → List Char) (above : List (List Char)) :
    ForestBelow name above [] where
  gives := gives_nil []
  below node member := by cases member
  top some' := absurd rfl some'

/-- A tree. -/
theorem forestBelow_nodes (name : Tag → List Char) (tree : LabelTree Tag) :
    ForestBelow name [] tree.nodes where
  gives := by
    have gives := gives_nodes name tree []
    simp only [List.length_nil, Nat.zero_add] at gives
    exact gives
  below node _ := List.nil_prefix
  top _ := by
    cases tree with
    | leaf tag => exact ⟨⟨[], tag⟩, List.mem_cons_self, rfl⟩
    | parent tag children => exact ⟨⟨[], tag⟩, List.mem_cons_self, rfl⟩

theorem forestBelow_flatMap {Part : Type} {parts : List Part} {inside : Part → List (LabelTree.Node Tag)}
    (forests : ∀ part ∈ parts, ForestBelow name above (inside part)) :
    ForestBelow name above (parts.flatMap inside) where
  gives := by
    rw [List.map_flatMap, List.map_flatMap]
    exact gives_flatMap fun part member => (forests part member).gives
  below node member := by
    obtain ⟨part, belongs, within⟩ := List.mem_flatMap.mp member
    exact (forests part belongs).below node within
  top some' := by
    obtain ⟨first, member⟩ := List.exists_mem_of_ne_nil _ some'
    obtain ⟨part, belongs, within⟩ := List.mem_flatMap.mp member
    obtain ⟨node, root, depth⟩ := (forests part belongs).top (List.ne_nil_of_mem within)
    exact ⟨node, List.mem_flatMap.mpr ⟨part, belongs, root⟩, depth⟩

/-- **Under one more parent.** -/
theorem ForestBelow.under (forest : ForestBelow name above nodes) (tag : Tag) :
    ForestBelow name (name tag :: above) (nodes.map (LabelTree.Node.under tag)) where
  gives := by
    rw [List.map_map, List.map_map]
    refine cast (congrArg₂ (Gives []) (List.map_congr_left fun node _ => ?_)
      (List.map_congr_left fun node _ => ?_)) forest.gives
    · show _ = (node.depth + 1 - (above.length + 1), name node.label)
      rw [Nat.add_sub_add_right]
    · rfl
  below node member := by
    obtain ⟨inner, within, rfl⟩ := List.mem_map.mp member
    exact (List.prefix_cons_inj _).mpr (forest.below inner within)
  top some' := by
    obtain ⟨node, root, depth⟩ := forest.top fun none => some' (by rw [none]; rfl)
    exact ⟨node.under tag, List.mem_map_of_mem root, congrArg (· + 1) depth⟩

end

/-- The nodes that a path reaches. -/
theorem forestBelow_reached {name : Tag → List Char} {tree : LabelTree Tag}
    (dotFree : ∀ tag ∈ tree.labels, '.' ∉ name tag) (path : List Char) :
    ForestBelow name (pathAbove path)
      (tree.nodes.filter fun node => Reaches name path node.route) := by
  induction tree using LabelTree.induct generalizing path with
  | leaf tag =>
    have reaches : Reaches name path (⟨[], tag⟩ : LabelTree.Node Tag).route ↔ path = name tag := by
      refine reaches_cons_iff.trans (or_iff_left ?_)
      rintro ⟨tail, -, below⟩
      exact not_reaches_nil tail below
    by_cases whole : path = name tag
    · have plain : '.' ∉ path := whole ▸ dotFree tag List.mem_cons_self
      rw [LabelTree.nodes, List.filter_cons_of_pos (by simpa using reaches.mpr whole),
        List.filter_nil, pathAbove_of_not_mem plain]
      exact forestBelow_nodes name (.leaf tag)
    · rw [LabelTree.nodes, List.filter_cons_of_neg (by simpa using mt reaches.mp whole), List.filter_nil]
      exact forestBelow_nil name _
  | parent tag children ih =>
    have names := fun child (member : child ∈ children) other (inside : other ∈ child.labels) =>
      dotFree other (by
        rw [LabelTree.labels_parent]
        exact List.mem_cons_of_mem _ (List.mem_flatMap.mpr ⟨child, member, inside⟩))
    have own : '.' ∉ name tag := by
      apply dotFree tag
      rw [LabelTree.labels_parent]
      exact List.mem_cons_self
    by_cases dot : '.' ∈ path
    · obtain ⟨head, tail, rfl, plain⟩ := List.eq_append_cons_of_mem dot
      rw [filter_nodes_of_cut plain own, pathAbove_of_cut plain]
      split
      · rename_i same
        rw [same]
        exact forestBelow_flatMap fun child member =>
          (ih child member (names child member) tail).under tag
      · exact forestBelow_nil name _
    · rw [filter_nodes_of_plain dot, pathAbove_of_not_mem dot]
      split
      · exact forestBelow_nodes name _
      · exact forestBelow_nil name _

/-- **The nodes that a path denotes**, for names without dots. -/
theorem forestBelow_denoted {name : Tag → List Char} {tree : LabelTree Tag}
    (dotFree : ∀ tag ∈ tree.labels, '.' ∉ name tag) (path : List Char) :
    ForestBelow name (pathAbove path) (tree.nodes.filter fun node => Denotes name path node) := by
  by_cases all : path = []
  · have whole : (tree.nodes.filter fun node => Denotes name path node) = tree.nodes :=
      List.filter_eq_self.mpr fun node _ => decide_eq_true (Or.inl all)
    rw [whole, all]
    exact forestBelow_nodes name tree
  · have reached : (tree.nodes.filter fun node => Denotes name path node) =
        tree.nodes.filter fun node => Reaches name path node.route :=
      List.filter_congr fun node _ => decide_eq_decide.mpr (or_iff_right all)
    rw [reached]
    exact forestBelow_reached dotFree path

/-! ### Full names as paths -/

/-- The tags on a route are tags of the tree. -/
theorem mem_labels_of_mem_route {tree : LabelTree Tag} {node : LabelTree.Node Tag}
    (inside : node ∈ tree.nodes) {tag : Tag} (member : tag ∈ node.route) : tag ∈ tree.labels := by
  induction tree using LabelTree.induct generalizing node with
  | leaf root =>
    obtain rfl := List.mem_singleton.mp inside
    exact member
  | parent root children ih =>
    rw [LabelTree.labels_parent]
    rw [LabelTree.nodes, LabelTree.nodesAll_eq] at inside
    rcases List.mem_cons.mp inside with rfl | below
    · obtain rfl := List.mem_singleton.mp member
      exact List.mem_cons_self
    · obtain ⟨inner, within, rfl⟩ := List.mem_map.mp below
      obtain ⟨child, belongs, innermost⟩ := List.mem_flatMap.mp within
      rcases List.mem_cons.mp member with rfl | later
      · exact List.mem_cons_self
      · exact List.mem_cons_of_mem _
          (List.mem_flatMap.mpr ⟨child, belongs, ih child belongs innermost later⟩)

/-- Names without dots can be told from their path. -/
theorem splitOn_dotted {names : List (List Char)} (dotFree : ∀ one ∈ names, '.' ∉ one)
    (some' : names ≠ []) : (List.intercalate ['.'] names).splitOn '.' = names :=
  List.splitOn_intercalate '.' dotFree some'

/-- **A full name reaches what its names lead to.** -/
theorem reaches_dotted_iff {name : Tag → List Char} {names : List (List Char)}
    (dotFree : ∀ one ∈ names, '.' ∉ one) (some' : names ≠ []) {route : List Tag}
    (plain : ∀ tag ∈ route, '.' ∉ name tag) :
    Reaches name (List.intercalate ['.'] names) route ↔ names <+: route.map name := by
  constructor
  · rintro ⟨upper, member, nonempty, same⟩
    have begins := (List.mem_inits _ _).mp member
    have names' : upper.map name = names := by
      rw [← splitOn_dotted dotFree some', ← same, dottedName, splitOn_dotted ?_ (by simpa using nonempty)]
      intro one belongs
      obtain ⟨tag, within, rfl⟩ := List.mem_map.mp belongs
      exact plain tag (begins.subset within)
    rw [← names']
    exact begins.map name
  · intro begins
    refine ⟨route.take names.length, (List.mem_inits _ _).mpr (List.take_prefix _ _), ?_, ?_⟩
    · intro none
      have length := congrArg List.length none
      have shorter := begins.length_le
      have positive := List.length_pos_of_ne_nil some'
      rw [List.length_take, List.length_nil] at length
      rw [List.length_map] at shorter
      omega
    · rw [dottedName, List.map_take, ← List.prefix_iff_eq_take.mp begins]

theorem dotted_ne_nil {names : List (List Char)} (dotFree : ∀ one ∈ names, '.' ∉ one)
    (nonempty : ∀ one ∈ names, one ≠ []) (some' : names ≠ []) : List.intercalate ['.'] names ≠ [] := by
  intro none
  have split := splitOn_dotted dotFree some'
  rw [none, List.splitOn_nil] at split
  exact nonempty [] (split ▸ List.mem_cons_self) rfl

/-- A full name does not end in a dot. -/
theorem getLast?_dotted {names : List (List Char)} (dotFree : ∀ one ∈ names, '.' ∉ one)
    (nonempty : ∀ one ∈ names, one ≠ []) : (List.intercalate ['.'] names).getLast? ≠ some '.' := by
  induction names with
  | nil => exact fun last => by cases last
  | cons first rest ih =>
    cases rest with
    | nil =>
      rw [List.intercalate_singleton]
      intro last
      exact dotFree first List.mem_cons_self (List.mem_of_getLast? last)
    | cons second rest =>
      have dotFree' := fun one member => dotFree one (List.mem_cons_of_mem first member)
      have nonempty' := fun one member => nonempty one (List.mem_cons_of_mem first member)
      rw [List.intercalate_cons_of_ne_nil (List.cons_ne_nil _ _),
        List.getLast?_append_of_ne_nil _ (dotted_ne_nil dotFree' nonempty' (List.cons_ne_nil _ _))]
      exact ih dotFree' nonempty'

end StatLog.Tags
