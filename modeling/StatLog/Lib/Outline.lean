/-
**Outlines.**

An outline is a text that shows a tree: a line for each node in pre-order, which begins with one mark
for each level. A node may have a second line, a note, with the same marks and a lead before its text.

* `routesFrom`: the routes that levels and labels give. A line keeps as many labels of the line before
  as its level says.
* `Gives`: lines give the routes of nodes below the given labels. **`gives_nodes`**: those of a tree do.
* `itemLines`, `readItems`: the lines of an item, and their reader. **`readItems_itemLines`**: they are
  inverse to each other, for plain labels.
-/

import Mathlib.Data.List.Infix
import StatLog.Lib.RoseTree

namespace Outline

open RoseTree

/-! ### Levels and routes -/

section

variable {Label : Type*}

/-- The route of a line, after the line with the given route. -/
def routeOf (previous : List Label) (line : Nat × Label) : List Label := previous.take line.1 ++ [line.2]

/-- **The routes of an outline**, behind a line with the given route. -/
def routesFrom (previous : List Label) : List (Nat × Label) → List (List Label)
  | [] => []
  | line :: lines => routeOf previous line :: routesFrom (routeOf previous line) lines

/-- The route of the last line. -/
def lastRoute (previous : List Label) (lines : List (Nat × Label)) : List Label :=
  lines.foldl routeOf previous

/-- **Lines that give routes**, whatever stands before them below the given labels. -/
def Gives (above : List Label) (lines : List (Nat × Label)) (routes : List (List Label)) : Prop :=
  ∀ previous, above <+: previous →
    routesFrom previous lines = routes.map (above ++ ·) ∧ above <+: lastRoute previous lines

theorem routesFrom_append (previous : List Label) (first second : List (Nat × Label)) :
    routesFrom previous (first ++ second) =
      routesFrom previous first ++ routesFrom (lastRoute previous first) second := by
  induction first generalizing previous with
  | nil => rfl
  | cons line first ih => exact congrArg (_ :: ·) (ih (routeOf previous line))

variable {above : List Label} {label : Label}

theorem gives_nil (above : List Label) : Gives above [] [] :=
  fun _ below => ⟨rfl, below⟩

theorem Gives.append {first second : List (Nat × Label)} {routes more : List (List Label)}
    (gives : Gives above first routes) (then' : Gives above second more) :
    Gives above (first ++ second) (routes ++ more) := by
  intro previous below
  obtain ⟨read, last⟩ := gives previous below
  obtain ⟨read', last'⟩ := then' (lastRoute previous first) last
  rw [routesFrom_append, read, read', List.map_append, lastRoute, List.foldl_append]
  exact ⟨rfl, last'⟩

theorem gives_flatMap {Part : Type*} {parts : List Part} {lines : Part → List (Nat × Label)}
    {routes : Part → List (List Label)} (gives : ∀ part ∈ parts, Gives above (lines part) (routes part)) :
    Gives above (parts.flatMap lines) (parts.flatMap routes) := by
  induction parts with
  | nil => exact gives_nil above
  | cons part parts ih =>
    rw [List.flatMap_cons, List.flatMap_cons]
    exact (gives part List.mem_cons_self).append
      (ih fun other member => gives other (List.mem_cons_of_mem _ member))

/-- **One node and what is below it.** -/
theorem Gives.cons {lines : List (Nat × Label)} {routes : List (List Label)}
    (gives : Gives (above ++ [label]) lines routes) :
    Gives above ((above.length, label) :: lines) ([label] :: routes.map (label :: ·)) := by
  intro previous below
  have own : routeOf previous (above.length, label) = above ++ [label] := by
    rw [routeOf, ← List.prefix_iff_eq_take.mp below]
  obtain ⟨read, last⟩ := gives (above ++ [label]) List.prefix_rfl
  constructor
  · rw [routesFrom, own, read, List.map_cons, List.map_map]
    refine congrArg (_ :: ·) (List.map_congr_left fun route _ => ?_)
    exact List.append_cons above label route |>.symm
  · rw [lastRoute, List.foldl_cons, own]
    exact (List.prefix_append above [label]).trans last

/-- **The nodes of a tree**, by their depths below the given labels, give their routes. -/
theorem gives_nodes {Tag : Type} (labelOf : Tag → Label) (tree : LabelTree Tag) (above : List Label) :
    Gives above (tree.nodes.map fun node => (above.length + node.depth, labelOf node.label))
      (tree.nodes.map fun node => node.route.map labelOf) := by
  induction tree using LabelTree.induct generalizing above with
  | leaf tag => exact (gives_nil (above ++ [labelOf tag])).cons
  | parent tag children ih =>
    have below := gives_flatMap fun child member => ih child member (above ++ [labelOf tag])
    rw [LabelTree.nodes, LabelTree.nodesAll_eq, List.map_cons, List.map_cons, List.map_map, List.map_map,
      List.map_flatMap, List.map_flatMap]
    refine cast (congrArg₂ (Gives above) (congrArg (_ :: ·) ?_) (congrArg (_ :: ·) ?_)) below.cons
    · refine List.flatMap_congr fun child _ => List.map_congr_left fun node _ => ?_
      rw [List.length_append, List.length_singleton]
      show _ = (above.length + (node.depth + 1), _)
      rw [Nat.add_assoc, Nat.add_comm 1]
      rfl
    · rw [List.map_flatMap]
      exact List.flatMap_congr fun child _ => List.map_map

end

/-! ### Lines -/

section

variable {Symbol : Type*} [DecidableEq Symbol] (mark : Symbol) (lead : List Symbol)

/-- What one node shows: its level, its label and perhaps a note. -/
structure Item (Symbol : Type*) where
  level : Nat
  label : List Symbol
  note : Option (List Symbol)

/-- The marks of a level. -/
def marks (level : Nat) : List Symbol := List.replicate level mark

def itemLines (item : Item Symbol) : List (List Symbol) :=
  (marks mark item.level ++ item.label) ::
    (item.note.map fun note => marks mark item.level ++ (lead ++ note)).toList

/-- A line behind its marks. -/
def unmarked (line : List Symbol) : List Symbol := line.dropWhile (· = mark)

/-- The note on a line. -/
def noteOf (line : List Symbol) : Option (List Symbol) := lead.isPrefixOf? (unmarked mark line)

/-- **The reader.** A line that is a note belongs to the one before. -/
def readItems : List (List Symbol) → List (Item Symbol)
  | [] => []
  | line :: lines =>
    match noteOf mark lead line with
    | some _ => readItems lines
    | none =>
      ⟨(line.takeWhile (· = mark)).length, unmarked mark line, lines.head?.bind (noteOf mark lead)⟩ ::
        readItems lines

/-- A text that does not begin with a mark, nor as a note does. -/
def PlainLabel (label : List Symbol) : Prop := label.head? ≠ some mark ∧ ¬ lead <+: label

instance (label : List Symbol) : Decidable (PlainLabel mark lead label) :=
  inferInstanceAs (Decidable (_ ∧ _))

variable {mark lead}

theorem dropWhile_of_head {text : List Symbol} (unmarked : text.head? ≠ some mark) :
    text.dropWhile (· = mark) = text := by
  cases text with
  | nil => rfl
  | cons symbol rest =>
    rw [List.dropWhile_cons_of_neg]
    intro marked
    exact unmarked (congrArg some (of_decide_eq_true marked))

theorem takeWhile_of_head {text : List Symbol} (unmarked : text.head? ≠ some mark) :
    text.takeWhile (· = mark) = [] := by
  cases text with
  | nil => rfl
  | cons symbol rest =>
    rw [List.takeWhile_cons_of_neg]
    intro marked
    exact unmarked (congrArg some (of_decide_eq_true marked))

theorem all_marks (level : Nat) : ∀ symbol ∈ marks mark level, decide (symbol = mark) = true :=
  fun _ member => decide_eq_true (List.eq_of_mem_replicate member)

theorem unmarked_marks {text : List Symbol} (plain : text.head? ≠ some mark) (level : Nat) :
    unmarked mark (marks mark level ++ text) = text := by
  rw [unmarked, List.dropWhile_append_of_pos (all_marks level), dropWhile_of_head plain]

theorem length_takeWhile_marks {text : List Symbol} (plain : text.head? ≠ some mark) (level : Nat) :
    ((marks mark level ++ text).takeWhile (· = mark)).length = level := by
  rw [List.takeWhile_append_of_pos (all_marks level), takeWhile_of_head plain, List.append_nil, marks,
    List.length_replicate]

theorem noteOf_label {label : List Symbol} (plain : PlainLabel mark lead label) (level : Nat) :
    noteOf mark lead (marks mark level ++ label) = none := by
  rw [noteOf, unmarked_marks plain.1]
  refine Option.eq_none_iff_forall_ne_some.mpr fun note found => plain.2 ?_
  exact ⟨note, List.isPrefixOf?_eq_some_iff_append_eq.mp found⟩

theorem noteOf_note (leads : (lead.head?.any (· ≠ mark)) = true) (note : List Symbol) (level : Nat) :
    noteOf mark lead (marks mark level ++ (lead ++ note)) = some note := by
  have unmarked' : (lead ++ note).head? ≠ some mark := by
    intro marked
    cases lead with
    | nil => cases leads
    | cons symbol rest => exact of_decide_eq_true leads (Option.some.inj marked)
  rw [noteOf, unmarked_marks unmarked']
  exact List.isPrefixOf?_eq_some_iff_append_eq.mpr rfl

/-- **The reader finds the items again.** -/
theorem readItems_itemLines (leads : (lead.head?.any (· ≠ mark)) = true) {items : List (Item Symbol)}
    (plain : ∀ item ∈ items, PlainLabel mark lead item.label) :
    readItems mark lead (items.flatMap (itemLines mark lead)) = items := by
  induction items with
  | nil => rfl
  | cons item items ih =>
    obtain ⟨level, label, note⟩ := item
    have own := plain _ List.mem_cons_self
    have rest := ih fun other member => plain other (List.mem_cons_of_mem _ member)
    rw [List.flatMap_cons, itemLines, List.cons_append, readItems, noteOf_label own]
    show (⟨_, _, _⟩ : Item Symbol) :: _ = _
    rw [length_takeWhile_marks own.1, unmarked_marks own.1]
    cases note with
    | none =>
      show ⟨level, label, ((items.flatMap (itemLines mark lead)).head?).bind (noteOf mark lead)⟩ ::
        readItems mark lead (items.flatMap (itemLines mark lead)) = _
      rw [rest]
      refine congrArg (⟨level, label, ·⟩ :: items) ?_
      cases items with
      | nil => rfl
      | cons next items =>
        exact noteOf_label (plain next (List.mem_cons_of_mem _ List.mem_cons_self)) next.level
    | some note =>
      show ⟨level, label, noteOf mark lead (marks mark level ++ (lead ++ note))⟩ ::
        readItems mark lead ((marks mark level ++ (lead ++ note)) ::
          items.flatMap (itemLines mark lead)) = _
      rw [readItems, noteOf_note leads]
      exact congrArg (_ :: ·) rest

end

end Outline
