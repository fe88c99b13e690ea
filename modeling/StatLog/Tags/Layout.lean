/-
**The layout of the shared memory.**

Both processes build a list of nodes from the two tag hierarchies, one for the stats and one for the
logs, and `init` hands out the shared memory node by node. The nodes are of other types in either
process, so that nothing but their sizes makes the two layouts agree.

* `tagListCreatorHelper`: the source's fold over the hierarchy, nested in itself.
* `tagListCreator_eq`: it lists the nodes in reverse pre-order, the root as a parent.
* `LogStatBase.init`, with `init_nodes`: the nodes stand one behind the other.
* `LogStatNode.Step`: what happens to the shared memory under one tag.
* **`init_layout`**: both processes compute the same layout from the sizes of the types, its regions are
  disjoint and cover the shared memory, and what happens under a tag stays inside the tag's region.
-/

import StatLog.Lib.Placement
import StatLog.Stats.StatArray
import StatLog.Tags.Hierarchy

namespace StatLog.Tags

open ByteMemory Placement RoseTree Stats

variable {Tag Sample : Type}

/-! ### Nodes -/

inductive LogLevel
  | debug
  | info
  | alert
  | error
  deriving DecidableEq, Repr

/-- The value of the enumerator. -/
def LogLevel.toByte : LogLevel → UInt8
  | debug => 0
  | info => 1
  | alert => 2
  | error => 3

/-- The size of `LogControlStorage`, one byte for each of at most four loggers. -/
def sizeofLogControlStorage : Nat := 4

/-- The class of a node: `StatParent`, `GenericOpStat`, `GenericControlStat`, `GenericOpLogger` or
`GenericControlLogger`; stats also with the type of their tag. -/
inductive NodeClass (Sample : Type)
  | statParent
  | opStat (type : StatType Sample)
  | controlStat (type : StatType Sample)
  | opLogger
  | controlLogger

structure LogStatNode (Tag Sample : Type) where
  tagNode : TagNode Tag
  nodeClass : NodeClass Sample

/-- A tag together with the tree it is looked up in. -/
inductive TagHandle (Tag : Type)
  | stat (tag : Tag)
  | log (tag : Tag)
  deriving DecidableEq

namespace LogStatNode

def getSharedSize (node : LogStatNode Tag Sample) : Nat :=
  match node.nodeClass with
  | .statParent => 0
  | .opStat type => (statTypeToImpl true type).sharedSize
  | .controlStat type => (statTypeToImpl false type).sharedSize
  | .opLogger => sizeofLogControlStorage
  | .controlLogger => sizeofLogControlStorage

/-- `setSharedPtr`: the operational side of a logger sets its levels to INFO. -/
def setSharedPtr (node : LogStatNode Tag Sample) (ptr : Nat) (mem : Mem) : Mem :=
  match node.nodeClass with
  | .opLogger => mem.write ptr (List.replicate sizeofLogControlStorage LogLevel.info.toByte)
  | _ => mem

/-- `writeVal(i1, ..., value)`, which only `GenericOpStat` has. -/
def writeVal (node : LogStatNode Tag Sample) (accums : Accums Sample) (mem : Mem) (ptr : Nat)
    (indices : List Int) (value : Sample) : Option (Accums Sample × Mem) :=
  match node.nodeClass with
  | .opStat type => OperationalStatProxy.writeVal type accums mem ptr indices value
  | _ => none

/-- `doSerialize`. -/
def doSerialize (node : LogStatNode Tag Sample) (accums : Accums Sample) (mem : Mem) (ptr : Nat) :
    Mem :=
  match node.nodeClass with
  | .opStat type => OperationalStatProxy.serialize type accums mem ptr
  | _ => mem

/-- `doCommand` of the stat nodes. -/
def doCommand (node : LogStatNode Tag Sample) (ptr : Nat) (cmd : StatCmd) (mem : Mem) :
    Mem × StatCmdOutput :=
  match node.nodeClass with
  | .controlStat type => ControlStatProxy.doCommand type ptr cmd mem {}
  | _ => (mem, {})

/-- The tag under which the node is found. -/
def handle (node : LogStatNode Tag Sample) : TagHandle Tag :=
  match node.nodeClass with
  | .statParent => .stat node.tagNode.tag
  | .opStat _ => .stat node.tagNode.tag
  | .controlStat _ => .stat node.tagNode.tag
  | .opLogger => .log node.tagNode.tag
  | .controlLogger => .log node.tagNode.tag

/-- **One thing that may happen under the tag of a node.** -/
inductive Step (node : LogStatNode Tag Sample) (ptr : Nat) (mem : Mem) : Mem → Prop
  | writeVal {accums : Accums Sample} {indices : List Int} {value : Sample}
      {next : Accums Sample × Mem}
      (written : node.writeVal accums mem ptr indices value = some next) : Step node ptr mem next.2
  | setSharedPtr : Step node ptr mem (node.setSharedPtr ptr mem)
  | doSerialize (accums : Accums Sample) : Step node ptr mem (node.doSerialize accums mem ptr)
  | doCommand (cmd : StatCmd) : Step node ptr mem (node.doCommand ptr cmd mem).1

/-- **It stays inside the node's shared memory.** -/
theorem Step.unchangedOutside {node : LogStatNode Tag Sample} {ptr : Nat} {mem next : Mem}
    (step : node.Step ptr mem next) : UnchangedOutside ptr node.getSharedSize mem next := by
  obtain ⟨tagNode, nodeClass⟩ := node
  cases step with
  | writeVal written =>
    cases nodeClass with
    | opStat type => exact StatImpl.write_unchangedOutside written
    | statParent => cases written
    | controlStat type => cases written
    | opLogger => cases written
    | controlLogger => cases written
  | setSharedPtr =>
    cases nodeClass with
    | opLogger => exact UnchangedOutside.write mem (List.length_replicate ..)
    | _ => exact UnchangedOutside.refl _ _ _
  | doSerialize accums =>
    cases nodeClass with
    | opStat type => exact OperationalStatProxy.serialize_unchangedOutside type accums mem ptr
    | _ => exact UnchangedOutside.refl _ _ _
  | doCommand cmd =>
    cases nodeClass with
    | controlStat type => exact ControlStatProxy.doCommand_unchangedOutside type ptr cmd mem {}
    | _ => exact UnchangedOutside.refl _ _ _

end LogStatNode

/-! ### The lists of nodes -/

section

variable (statTagToType : Tag → StatType Sample) (isOperational isStatistic : Bool)

/-- `this_node` of `stat_log_inserter`, for a leaf. -/
def leafNode (tagNode : TagNode Tag) : LogStatNode Tag Sample :=
  ⟨tagNode,
    if isStatistic then
      if isOperational then .opStat (statTagToType tagNode.tag)
      else .controlStat (statTagToType tagNode.tag)
    else if isOperational then .opLogger else .controlLogger⟩

/-- `this_node` of `tag_list_creator_helper`, for a parent. -/
def parentNode (tagNode : TagNode Tag) : LogStatNode Tag Sample :=
  ⟨tagNode,
    if isStatistic then .statParent else if isOperational then .opLogger else .controlLogger⟩

def statLogInserter (globalTagVec : List (LogStatNode Tag Sample)) (tagNode : TagNode Tag) :
    List (LogStatNode Tag Sample) :=
  leafNode statTagToType isOperational isStatistic tagNode :: globalTagVec

mutual

/-- What the `mpl::fold` does with a child: `tag_list_creator_helper` for a parent, and
`stat_log_inserter` for a leaf. -/
def tagListCreatorChild (globalTagVec : List (LogStatNode Tag Sample)) :
    LabelTree (TagNode Tag) → List (LogStatNode Tag Sample)
  | .leaf tagNode => statLogInserter statTagToType isOperational isStatistic globalTagVec tagNode
  | .parent tagNode children =>
    tagListCreatorFold (parentNode isOperational isStatistic tagNode :: globalTagVec) children

/-- The `mpl::fold` over the children. -/
def tagListCreatorFold (globalTagVec : List (LogStatNode Tag Sample)) :
    List (LabelTree (TagNode Tag)) → List (LogStatNode Tag Sample)
  | [] => globalTagVec
  | child :: children => tagListCreatorFold (tagListCreatorChild globalTagVec child) children

end

/-- **`tag_list_creator_helper`**. It does not ask whether its own node is a parent. -/
def tagListCreatorHelper (globalTagVec : List (LogStatNode Tag Sample))
    (tree : LabelTree (TagNode Tag)) : List (LogStatNode Tag Sample) :=
  tagListCreatorFold statTagToType isOperational isStatistic
    (parentNode isOperational isStatistic tree.label :: globalTagVec) tree.children

/-- `tag_list_creator`: the root is a parent in any case. -/
def tagListCreator (tree : LabelTree (TagNode Tag)) : List (LogStatNode Tag Sample) :=
  tagListCreatorHelper statTagToType isOperational isStatistic [] tree

/-- What a child adds for itself. -/
def nodeOf : LabelTree (TagNode Tag) → LogStatNode Tag Sample
  | .leaf tagNode => leafNode statTagToType isOperational isStatistic tagNode
  | .parent tagNode _ => parentNode isOperational isStatistic tagNode

end

/-! ### Handing out the shared memory -/

/-- One process after `init`: the nodes with their addresses in the shared memory. -/
structure LogStat (Tag Sample : Type) where
  totalShmSize : Nat
  theStats : List (Placed (LogStatNode Tag Sample))
  theLogs : List (Placed (LogStatNode Tag Sample))
  mem : Mem

namespace LogStatBase

/-- `get_shm_size_lambda` over a list of nodes. -/
def addShmSizes (totalShmSize : Nat) (nodes : List (LogStatNode Tag Sample)) : Nat :=
  nodes.foldl (fun total node => total + node.getSharedSize) totalShmSize

/-- `set_shm_pointers` over a list of nodes, with `shm_ptr` and the shared memory. -/
def setShmPointers : List (LogStatNode Tag Sample) → Nat → Mem →
    List (Placed (LogStatNode Tag Sample)) × Nat × Mem
  | [], shmPtr, mem => ([], shmPtr, mem)
  | node :: nodes, shmPtr, mem =>
    let rest := setShmPointers nodes (shmPtr + node.getSharedSize) (node.setSharedPtr shmPtr mem)
    (⟨node, shmPtr⟩ :: rest.1, rest.2)

/-- `setParams`: the operational process clears the shared memory. -/
def setParams (isOperational : Bool) (size : Nat) (mem : Mem) : Mem :=
  if isOperational then mem.write 0 (List.replicate size 0) else mem

/-- **`init`**, with addresses relative to where the process has mapped the shared memory. -/
def init (statTagToType : Tag → StatType Sample) (isOperational : Bool)
    (statTagTree logTagTree : LabelTree Tag) (mem : Mem) : LogStat Tag Sample :=
  let theStats := tagListCreator statTagToType isOperational true (tagHierarchy statTagTree)
  let theLogs := tagListCreator statTagToType isOperational false (tagHierarchy logTagTree)
  let totalShmSize := addShmSizes (addShmSizes 0 theStats) theLogs
  let stats := setShmPointers theStats 0 (setParams isOperational totalShmSize mem)
  let logs := setShmPointers theLogs stats.2.1 stats.2.2
  { totalShmSize := totalShmSize
    theStats := stats.1
    theLogs := logs.1
    mem := logs.2.2 }

end LogStatBase

/-- The region of a tag. -/
structure Region (Tag : Type) where
  handle : TagHandle Tag
  offset : Nat
  size : Nat

namespace Region

def Contains (region : Region Tag) (address : Nat) : Prop :=
  region.offset ≤ address ∧ address < region.offset + region.size

/-- No address lies in both. -/
def Disjoint (first second : Region Tag) : Prop :=
  ∀ address, first.Contains address → ¬ second.Contains address

end Region

namespace LogStat

variable (logStat : LogStat Tag Sample)

def nodes : List (Placed (LogStatNode Tag Sample)) := logStat.theStats ++ logStat.theLogs

def regions : List (Region Tag) :=
  logStat.nodes.map fun placed => ⟨placed.item.handle, placed.offset, placed.item.getSharedSize⟩

end LogStat

/-! ### The order of the nodes -/

section

variable {statTagToType : Tag → StatType Sample} {isOperational isStatistic : Bool}

/-- The fold, over children whose own lists are known. -/
theorem tagListCreatorFold_eq {children : List (LabelTree (TagNode Tag))}
    (known : ∀ child ∈ children, ∀ vec,
      tagListCreatorChild statTagToType isOperational isStatistic vec child =
        (child.subtrees.map (nodeOf statTagToType isOperational isStatistic)).reverse ++ vec)
    (vec : List (LogStatNode Tag Sample)) :
    tagListCreatorFold statTagToType isOperational isStatistic vec children =
      ((children.flatMap LabelTree.subtrees).map
        (nodeOf statTagToType isOperational isStatistic)).reverse ++ vec := by
  induction children generalizing vec with
  | nil => rfl
  | cons child children ih =>
    have later := ih fun other member => known other (List.mem_cons_of_mem _ member)
    rw [tagListCreatorFold, later, known child List.mem_cons_self, List.flatMap_cons,
      List.map_append, List.reverse_append, List.append_assoc]

theorem tagListCreatorChild_eq (tree : LabelTree (TagNode Tag)) (vec : List (LogStatNode Tag Sample)) :
    tagListCreatorChild statTagToType isOperational isStatistic vec tree =
      (tree.subtrees.map (nodeOf statTagToType isOperational isStatistic)).reverse ++ vec := by
  induction tree using LabelTree.induct generalizing vec with
  | leaf tagNode => rfl
  | parent tagNode children ih =>
    rw [tagListCreatorChild, tagListCreatorFold_eq ih, LabelTree.subtrees, LabelTree.subtreesAll_eq,
      List.map_cons, List.reverse_cons, List.append_assoc]
    rfl

/-- **The nodes are listed in reverse pre-order**, the root as a parent. -/
theorem tagListCreator_eq (tree : LabelTree (TagNode Tag)) :
    tagListCreator statTagToType isOperational isStatistic tree =
      (tree.asParent.subtrees.map (nodeOf statTagToType isOperational isStatistic)).reverse := by
  rw [← List.append_nil (List.reverse _), ← tagListCreatorChild_eq]
  rfl

/-- The handle of a tag in one of the two trees. -/
def TagHandle.of (isStatistic : Bool) (tag : Tag) : TagHandle Tag :=
  if isStatistic then .stat tag else .log tag

/-- A node's handle does not depend on the process. -/
theorem handle_nodeOf (tree : LabelTree (TagNode Tag)) :
    (nodeOf statTagToType isOperational isStatistic tree).handle =
      TagHandle.of isStatistic tree.label.tag := by
  cases tree <;> cases isOperational <;> cases isStatistic <;> rfl

/-- **A node's size does not depend on the process.** -/
theorem getSharedSize_nodeOf (tree : LabelTree (TagNode Tag)) :
    (nodeOf statTagToType isOperational isStatistic tree).getSharedSize =
      (nodeOf statTagToType false isStatistic tree).getSharedSize := by
  cases isOperational with
  | false => rfl
  | true =>
    cases tree with
    | leaf tagNode =>
      cases isStatistic with
      | false => rfl
      | true => exact sharedSize_statTypeToImpl true (statTagToType tagNode.tag)
    | parent tagNode children => cases isStatistic <;> rfl

/-- **The list of a tree, tag by tag**, for what a node says about its tag and about being a leaf. -/
theorem map_tagListCreator {Key : Type} {ofNode : LogStatNode Tag Sample → Key}
    {ofTag : LabelTree Tag → Key}
    (leaf : ∀ tagNode, ofNode (leafNode statTagToType isOperational isStatistic tagNode) =
      ofTag (.leaf tagNode.tag))
    (parent : ∀ tagNode children, ofNode (parentNode isOperational isStatistic tagNode) =
      ofTag (.parent tagNode.tag children)) (tree : LabelTree Tag) :
    (tagListCreator statTagToType isOperational isStatistic (tagHierarchy tree)).map ofNode =
      (tree.asParent.subtrees.map ofTag).reverse := by
  rw [tagListCreator_eq, asParent_tagHierarchy, List.map_reverse, List.map_map]
  exact congrArg List.reverse (map_subtrees_genTagHierarchy leaf
    (fun tagNode _ children => parent tagNode children) tree.asParent none 0)

/-- Every tag of a tree has one node in its list. -/
theorem map_handle_tagListCreator (tree : LabelTree Tag) :
    (tagListCreator statTagToType isOperational isStatistic (tagHierarchy tree)).map
        LogStatNode.handle =
      (tree.labels.map (TagHandle.of isStatistic)).reverse := by
  rw [LabelTree.map_labels]
  refine map_tagListCreator (fun tagNode => ?_) (fun tagNode _ => ?_) tree
  · cases isOperational <;> cases isStatistic <;> rfl
  · cases isOperational <;> cases isStatistic <;> rfl

/-- The class of the node of a stat tag: in either process a stat of the tag's type, or a parent. -/
def statNodeClass (statTagToType : Tag → StatType Sample) (isOperational : Bool) :
    LabelTree Tag → NodeClass Sample
  | .leaf tag => if isOperational then .opStat (statTagToType tag) else .controlStat (statTagToType tag)
  | .parent _ _ => .statParent

/-- **The nodes of a stat tree** are those of its tags, in the reverse of their order. -/
theorem map_nodeClass_tagListCreator (tree : LabelTree Tag) :
    (tagListCreator statTagToType isOperational true (tagHierarchy tree)).map
        (fun node => (node.tagNode.tag, node.nodeClass)) =
      (tree.asParent.subtrees.map fun subtree =>
        (subtree.label, statNodeClass statTagToType isOperational subtree)).reverse :=
  map_tagListCreator (fun _ => rfl) (fun _ _ => rfl) tree

/-- The bytes of the node of a stat tag: in either process those that its type takes there, and none for
a parent. -/
def statShmSize (statTagToType : Tag → StatType Sample) (isOperational : Bool) : LabelTree Tag → Nat
  | .leaf tag => (statTypeToImpl isOperational (statTagToType tag)).sharedSize
  | .parent _ _ => 0

theorem map_getSharedSize_stats (tree : LabelTree Tag) :
    (tagListCreator statTagToType isOperational true (tagHierarchy tree)).map
        LogStatNode.getSharedSize =
      (tree.asParent.subtrees.map (statShmSize statTagToType isOperational)).reverse := by
  refine map_tagListCreator (fun tagNode => ?_) (fun _ _ => rfl) tree
  cases isOperational <;> rfl

theorem map_getSharedSize_logs (tree : LabelTree Tag) :
    (tagListCreator statTagToType isOperational false (tagHierarchy tree)).map
        LogStatNode.getSharedSize =
      (tree.labels.map fun _ => sizeofLogControlStorage).reverse := by
  rw [LabelTree.map_labels]
  refine map_tagListCreator (fun tagNode => ?_) (fun tagNode _ => ?_) tree
  · cases isOperational <;> rfl
  · cases isOperational <;> rfl

/-- The two processes list the same handles with the same sizes. -/
theorem map_size_tagListCreator (tree : LabelTree (TagNode Tag)) :
    (tagListCreator statTagToType isOperational isStatistic tree).map
        (fun node => (node.handle, node.getSharedSize)) =
      (tagListCreator statTagToType false isStatistic tree).map
        fun node => (node.handle, node.getSharedSize) := by
  rw [tagListCreator_eq, tagListCreator_eq, List.map_reverse, List.map_reverse, List.map_map,
    List.map_map]
  refine congrArg _ (List.map_congr_left fun subtree _ => ?_)
  rw [Function.comp_apply, Function.comp_apply, handle_nodeOf, handle_nodeOf, getSharedSize_nodeOf]

end

/-! ### Nodes one behind the other -/

namespace LogStatBase

theorem addShmSizes_eq (total : Nat) (nodes : List (LogStatNode Tag Sample)) :
    addShmSizes total nodes = total + totalSize LogStatNode.getSharedSize nodes := by
  unfold addShmSizes
  induction nodes generalizing total with
  | nil => rfl
  | cons node nodes ih => rw [List.foldl_cons, ih, totalSize_cons, Nat.add_assoc]

theorem setShmPointers_eq (nodes : List (LogStatNode Tag Sample)) (shmPtr : Nat) (mem : Mem) :
    (setShmPointers nodes shmPtr mem).1 = place LogStatNode.getSharedSize shmPtr nodes ∧
      (setShmPointers nodes shmPtr mem).2.1 =
        shmPtr + totalSize LogStatNode.getSharedSize nodes := by
  induction nodes generalizing shmPtr mem with
  | nil => exact ⟨rfl, rfl⟩
  | cons node nodes ih =>
    obtain ⟨places, next⟩ := ih (shmPtr + node.getSharedSize) (node.setSharedPtr shmPtr mem)
    rw [setShmPointers, places, next, place, totalSize_cons, Nat.add_assoc]
    exact ⟨rfl, rfl⟩

variable (statTagToType : Tag → StatType Sample) (isOperational : Bool)
  (statTagTree logTagTree : LabelTree Tag) (mem : Mem)

/-- The nodes of a process, stats first. -/
def allNodes : List (LogStatNode Tag Sample) :=
  tagListCreator statTagToType isOperational true (tagHierarchy statTagTree) ++
    tagListCreator statTagToType isOperational false (tagHierarchy logTagTree)

/-- **`init` places all nodes one behind the other.** -/
theorem init_nodes :
    (init statTagToType isOperational statTagTree logTagTree mem).nodes =
      place LogStatNode.getSharedSize 0
        (allNodes statTagToType isOperational statTagTree logTagTree) := by
  unfold LogStat.nodes init allNodes
  rw [place_append]
  simp only [setShmPointers_eq]

theorem init_totalShmSize :
    (init statTagToType isOperational statTagTree logTagTree mem).totalShmSize =
      totalSize LogStatNode.getSharedSize
        (allNodes statTagToType isOperational statTagTree logTagTree) := by
  unfold init allNodes
  rw [totalSize_append]
  simp only [addShmSizes_eq, Nat.zero_add]

/-- The operational process has the nodes of the control process, by handle and size. -/
theorem map_size_allNodes :
    (allNodes statTagToType isOperational statTagTree logTagTree).map
        (fun node => (node.handle, node.getSharedSize)) =
      (allNodes statTagToType false statTagTree logTagTree).map
        fun node => (node.handle, node.getSharedSize) := by
  unfold allNodes
  rw [List.map_append, List.map_append]
  exact congrArg₂ (· ++ ·) (map_size_tagListCreator _) (map_size_tagListCreator _)

end LogStatBase

/-! ### The layout of both processes -/

/-- **The two processes share their memory as they should.** -/
structure SharesLayout (statTagToType : Tag → StatType Sample) (statTagTree logTagTree : LabelTree Tag)
    (operational control : LogStat Tag Sample) : Prop where
  total : operational.totalShmSize = control.totalShmSize
  regions : operational.regions = control.regions
  /-- There is one region for every tag of the two trees. -/
  handles : operational.regions.map Region.handle =
    (statTagTree.labels.map TagHandle.stat).reverse ++ (logTagTree.labels.map TagHandle.log).reverse
  /-- For a stat below the root it has the bytes that its type takes, in one process as in the other;
  for a parent of stats none, and for a log those of its levels. -/
  sizes : ∀ isOperational, operational.regions.map Region.size =
    (statTagTree.asParent.subtrees.map (statShmSize statTagToType isOperational)).reverse ++
      (logTagTree.labels.map fun _ => sizeofLogControlStorage).reverse
  disjoint : operational.regions.Pairwise Region.Disjoint
  inside : ∀ region ∈ operational.regions, region.offset + region.size ≤ operational.totalShmSize
  covered : ∀ address < operational.totalShmSize,
    ∃ region ∈ operational.regions, region.Contains address
  /-- What happens under a tag, in either process, stays inside the tag's region. -/
  own : ∀ placed ∈ operational.nodes ++ control.nodes, ∃ region ∈ operational.regions,
    region.handle = placed.item.handle ∧ ∀ mem next, placed.item.Step placed.offset mem next →
      ∀ address, ¬ region.Contains address → next address = mem address
  /-- It leaves the bytes of all other tags alone. -/
  isolated : ∀ placed ∈ operational.nodes ++ control.nodes, ∀ mem next,
    placed.item.Step placed.offset mem next →
      ∀ region ∈ operational.regions, region.handle ≠ placed.item.handle →
        ∀ address, region.Contains address → next address = mem address

namespace LogStatBase

variable (statTagToType : Tag → StatType Sample) (statTagTree logTagTree : LabelTree Tag)

/-- The regions of the operational process are those of the control process. -/
theorem regions_init (isOperational : Bool) (mem mem' : Mem) :
    (init statTagToType isOperational statTagTree logTagTree mem).regions =
      (init statTagToType false statTagTree logTagTree mem').regions := by
  have placed := map_place_congr 0
    (map_size_allNodes statTagToType isOperational statTagTree logTagTree)
  have regions := congrArg
    (List.map fun key : TagHandle Tag × Nat × Nat => (⟨key.1, key.2.1, key.2.2⟩ : Region Tag)) placed
  rw [List.map_map, List.map_map] at regions
  unfold LogStat.regions
  rw [init_nodes, init_nodes]
  exact regions

theorem totalShmSize_init (isOperational : Bool) (mem mem' : Mem) :
    (init statTagToType isOperational statTagTree logTagTree mem).totalShmSize =
      (init statTagToType false statTagTree logTagTree mem').totalShmSize := by
  have sizes := congrArg (List.map Prod.snd)
    (map_size_allNodes statTagToType isOperational statTagTree logTagTree)
  rw [List.map_map, List.map_map] at sizes
  rw [init_totalShmSize, init_totalShmSize]
  exact congrArg List.sum sizes

theorem map_handle_regions (isOperational : Bool) (mem : Mem) :
    (init statTagToType isOperational statTagTree logTagTree mem).regions.map Region.handle =
      (statTagTree.labels.map TagHandle.stat).reverse ++
        (logTagTree.labels.map TagHandle.log).reverse := by
  have handles := map_item_place LogStatNode.getSharedSize 0
    (allNodes statTagToType isOperational statTagTree logTagTree)
  have mapped := congrArg (List.map LogStatNode.handle) handles
  unfold LogStat.regions
  rw [init_nodes, List.map_map]
  rw [List.map_map] at mapped
  apply mapped.trans
  unfold allNodes
  rw [List.map_append]
  exact congrArg₂ (· ++ ·) (map_handle_tagListCreator _) (map_handle_tagListCreator _)

theorem map_size_regions (isOperational : Bool) (mem : Mem) :
    (init statTagToType isOperational statTagTree logTagTree mem).regions.map Region.size =
      (statTagTree.asParent.subtrees.map (statShmSize statTagToType isOperational)).reverse ++
        (logTagTree.labels.map fun _ => sizeofLogControlStorage).reverse := by
  have items := map_item_place LogStatNode.getSharedSize 0
    (allNodes statTagToType isOperational statTagTree logTagTree)
  have mapped := congrArg (List.map LogStatNode.getSharedSize) items
  unfold LogStat.regions
  rw [init_nodes, List.map_map]
  rw [List.map_map] at mapped
  apply mapped.trans
  unfold allNodes
  rw [List.map_append]
  exact congrArg₂ (· ++ ·) (map_getSharedSize_stats _) (map_getSharedSize_logs _)

/-- The nodes of a process do not overlap. -/
theorem nodes_apart (isOperational : Bool) (mem : Mem)
    {first second : Placed (LogStatNode Tag Sample)}
    (member : first ∈ (init statTagToType isOperational statTagTree logTagTree mem).nodes)
    (member' : second ∈ (init statTagToType isOperational statTagTree logTagTree mem).nodes)
    (differ : first ≠ second) :
    first.offset + first.item.getSharedSize ≤ second.offset ∨
      second.offset + second.item.getSharedSize ≤ first.offset := by
  rw [init_nodes] at member member'
  exact apart_of_mem_place member member' differ

/-- What happens under a tag of a process leaves that process's other regions alone. -/
theorem step_isolated (isOperational : Bool) (mem₀ : Mem) {placed : Placed (LogStatNode Tag Sample)}
    (member : placed ∈ (init statTagToType isOperational statTagTree logTagTree mem₀).nodes)
    {mem next : Mem} (step : placed.item.Step placed.offset mem next) {region : Region Tag}
    (known : region ∈ (init statTagToType isOperational statTagTree logTagTree mem₀).regions)
    (other : region.handle ≠ placed.item.handle) {address : Nat} (within : region.Contains address) :
    next address = mem address := by
  obtain ⟨placed', member', rfl⟩ := List.mem_map.mp known
  have differ : placed' ≠ placed := by
    rintro rfl
    exact other rfl
  have apart := nodes_apart statTagToType statTagTree logTagTree isOperational mem₀ member' member
    differ
  obtain ⟨lower, upper⟩ := within
  apply step.unchangedOutside address
  simp only at lower upper
  omega

/-- What happens under a tag of a process stays inside the tag's region. -/
theorem step_own (isOperational : Bool) (mem₀ : Mem) {placed : Placed (LogStatNode Tag Sample)}
    (member : placed ∈ (init statTagToType isOperational statTagTree logTagTree mem₀).nodes) :
    ∃ region ∈ (init statTagToType isOperational statTagTree logTagTree mem₀).regions,
      region.handle = placed.item.handle ∧ ∀ mem next, placed.item.Step placed.offset mem next →
        ∀ address, ¬ region.Contains address → next address = mem address := by
  refine ⟨_, List.mem_map_of_mem member, rfl, fun mem next step address outside => ?_⟩
  apply step.unchangedOutside address
  unfold Region.Contains at outside
  simp only at outside
  omega

/-- **The layouts agree and isolate the tags**, for all tag trees and types of tags. -/
theorem init_layout (mem mem' : Mem) :
    SharesLayout statTagToType statTagTree logTagTree
      (init statTagToType true statTagTree logTagTree mem)
      (init statTagToType false statTagTree logTagTree mem') where
  total := totalShmSize_init statTagToType statTagTree logTagTree true mem mem'
  regions := regions_init statTagToType statTagTree logTagTree true mem mem'
  handles := map_handle_regions statTagToType statTagTree logTagTree true mem
  sizes := by
    intro isOperational
    rw [regions_init statTagToType statTagTree logTagTree true mem mem,
      ← regions_init statTagToType statTagTree logTagTree isOperational mem mem]
    exact map_size_regions statTagToType statTagTree logTagTree isOperational mem
  disjoint := by
    unfold LogStat.regions
    rw [init_nodes]
    refine List.pairwise_map.mpr ((place_pairwise 0 _).imp ?_)
    intro first second before address inFirst inSecond
    exact absurd (Nat.lt_of_lt_of_le inFirst.2 before) (Nat.not_lt.mpr inSecond.1)
  inside := by
    intro region known
    obtain ⟨placed, member, rfl⟩ := List.mem_map.mp known
    rw [init_nodes] at member
    rw [init_totalShmSize]
    have ends := end_le_of_mem_place member
    rwa [Nat.zero_add] at ends
  covered := by
    intro address below
    rw [init_totalShmSize] at below
    obtain ⟨placed, member, within⟩ := exists_mem_place LogStatNode.getSharedSize
      (Nat.zero_le address) (by rwa [Nat.zero_add])
    rw [← init_nodes statTagToType true statTagTree logTagTree mem] at member
    exact ⟨_, List.mem_map_of_mem member, within⟩
  own := by
    intro placed member
    rcases List.mem_append.mp member with here | here
    · exact step_own statTagToType statTagTree logTagTree true mem here
    · rw [regions_init statTagToType statTagTree logTagTree true mem mem']
      exact step_own statTagToType statTagTree logTagTree false mem' here
  isolated := by
    intro placed member mem₁ next step region known other address within
    rcases List.mem_append.mp member with here | here
    · exact step_isolated statTagToType statTagTree logTagTree true mem here step known other within
    · rw [regions_init statTagToType statTagTree logTagTree true mem mem'] at known
      exact step_isolated statTagToType statTagTree logTagTree false mem' here step known other within

end LogStatBase

end StatLog.Tags
