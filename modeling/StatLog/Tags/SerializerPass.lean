/-
**A pass of the serializer.**

One pass calls `doSerialize` of every stat. The operational process computes the addresses it writes
to on its own, level by level and feature by feature; the control process walks over its own nodes,
entries and features when it reads them.

* `LogStatNode.elements`, `storedFields`: the elements of a node, and what a pass stores for all of
  them. `serializeAll_eq_storeAll`: it does nothing else.
* `storedFields_apart`: the fields do not meet an element that is not theirs.
* `PassComplete`: what the control process finds behind a pass.
* **`serializer_serves`**: a pass leaves this behind, for all trees and types, and the thread is started
  if there is an accumulator.
* `Serializer.run_pass`: the thread's steps make such a pass.
-/

import StatLog.Stats.Elements
import StatLog.Tags.ClearStat
import StatLog.Tags.Serializer

namespace StatLog.Tags

open ByteMemory Placement RoseTree Stats Transition

variable {Tag Sample : Type}

/-! ### The elements of a node -/

namespace LogStatNode

/-- The elements of a node that is a stat. -/
def elements (node : LogStatNode Tag Sample) (ptr : Nat) : List (PlacedElement Sample) :=
  match node.statType? with
  | some type => type.elements ptr
  | none => []

theorem exists_type_of_mem_elements {node : LogStatNode Tag Sample} {ptr : Nat}
    {element : PlacedElement Sample} (member : element ∈ node.elements ptr) :
    ∃ type, node.statType? = some type ∧ element ∈ type.elements ptr := by
  unfold elements at member
  split at member
  case h_1 type stat => exact ⟨type, stat, member⟩
  case h_2 => cases member

theorem elements_inside {node : LogStatNode Tag Sample} {ptr : Nat} {element : PlacedElement Sample}
    (member : element ∈ node.elements ptr) :
    ptr ≤ element.ptr ∧ element.ptr + element.type.sharedSize ≤ ptr + node.getSharedSize := by
  obtain ⟨type, stat, member⟩ := exists_type_of_mem_elements member
  rw [getSharedSize_of_statType stat]
  exact StatType.elements_inside member

theorem elements_apart {node : LogStatNode Tag Sample} {ptr : Nat}
    {first second : PlacedElement Sample} (member : first ∈ node.elements ptr)
    (member' : second ∈ node.elements ptr) (differ : first ≠ second) :
    first.ptr + first.type.sharedSize ≤ second.ptr ∨
      second.ptr + second.type.sharedSize ≤ first.ptr := by
  obtain ⟨type, stat, member⟩ := exists_type_of_mem_elements member
  obtain ⟨type', stat', member'⟩ := exists_type_of_mem_elements member'
  cases stat.symm.trans stat'
  exact StatType.elements_apart member member' differ

/-- What a pass stores for a node. -/
def fields (node : LogStatNode Tag Sample) (accums : Accums Sample) (ptr : Nat) : List Field :=
  (node.elements ptr).flatMap (PlacedElement.fields accums)

/-- They stand one after the other, inside the node. -/
theorem fields_fitBetween (node : LogStatNode Tag Sample) (accums : Accums Sample) (ptr : Nat) :
    Field.FitBetween ptr (ptr + node.getSharedSize) (node.fields accums ptr) := by
  unfold fields elements
  split
  case h_1 type stat =>
    rw [getSharedSize_of_statType stat]
    exact type.fields_fitBetween accums ptr
  case h_2 => exact ⟨List.forall_mem_nil _, trivial⟩

/-- **`doSerialize` of a node of the operational process.** -/
theorem doSerialize_eq_storeAll {node : LogStatNode Tag Sample} {type : StatType Sample}
    (operational : node.nodeClass = .statParent ∨ node.nodeClass = .opStat type)
    (accums : Accums Sample) (mem : Mem) (ptr : Nat) :
    node.doSerialize accums mem ptr = Field.storeAll mem 0 (node.fields accums ptr) := by
  obtain ⟨tagNode, nodeClass⟩ := node
  rcases operational with same | same
  · cases same
    rfl
  · cases same
    exact OperationalStatProxy.serialize_eq_storeAll type accums mem ptr

/-- A dump of a control node shows its elements one after the other. -/
theorem dump_eq_elements {node : LogStatNode Tag Sample} {type : StatType Sample}
    (control : node.nodeClass = .statParent ∨ node.nodeClass = .controlStat type) (ptr : Nat)
    (mem : Mem) :
    (node.doCommand ptr .dumpStat mem).2.entries = (node.elements ptr).flatMap fun element =>
      (element.type.toImpl false).shownEntries element.ptr mem := by
  obtain ⟨tagNode, nodeClass⟩ := node
  rcases control with same | same
  · cases same
    rfl
  · cases same
    have shown := (StatImpl.dump_eq (statTypeToImpl false type) ptr mem {}).1
    rw [type.shownEntries_eq_elements] at shown
    exact shown

end LogStatNode

/-! ### All nodes -/

/-- The nodes do not overlap. -/
def NodesApart (theStats : List (PlacedNode Tag Sample)) : Prop :=
  ∀ first ∈ theStats, ∀ second ∈ theStats, first ≠ second →
    first.offset + first.item.getSharedSize ≤ second.offset ∨
      second.offset + second.item.getSharedSize ≤ first.offset

/-- **What a pass stores.** -/
def storedFields (accums : Tag → Accums Sample) (theStats : List (PlacedNode Tag Sample)) :
    List Field :=
  theStats.flatMap fun placed => placed.item.fields (accums placed.item.tag) placed.offset

/-- A pass over operational nodes stores these fields and does nothing else. -/
theorem serializeAll_eq_storeAll {statTagToType : Tag → StatType Sample}
    {theStats : List (PlacedNode Tag Sample)}
    (stats : ∀ placed ∈ theStats, placed.item.nodeClass = .statParent ∨
      placed.item.nodeClass = .opStat (statTagToType placed.item.tag))
    (accums : Tag → Accums Sample) (mem : Mem) :
    LogStatOperational.serializeAll accums theStats mem =
      Field.storeAll mem 0 (storedFields accums theStats) := by
  rw [storedFields, Field.storeAll_flatMap, LogStatOperational.serializeAll]
  apply List.foldl_ext
  intro mem placed member
  exact LogStatNode.doSerialize_eq_storeAll (stats placed member) _ mem placed.offset

/-- The fields depend on what both processes know about the nodes. -/
theorem storedFields_congr {nodes nodes' : List (PlacedNode Tag Sample)}
    (agree : nodes.map (fun placed => (placed.item.key, placed.offset, placed.item.getSharedSize)) =
      nodes'.map fun placed => (placed.item.key, placed.offset, placed.item.getSharedSize))
    (accums : Tag → Accums Sample) : storedFields accums nodes = storedFields accums nodes' := by
  -- The fields of one node, from its key and its offset.
  let known (place : (Tag × Option (StatType Sample)) × Nat × Nat) : List Field :=
    (match place.1.2 with
      | some type => type.elements place.2.1
      | none => []).flatMap (PlacedElement.fields (accums place.1.1))
  have through := congrArg (List.flatMap known) agree
  rw [List.flatMap_map, List.flatMap_map] at through
  exact through

section

variable {theStats : List (PlacedNode Tag Sample)} {accums : Tag → Accums Sample}

/-- The fields of an accumulator are among those that a pass stores. -/
theorem mem_storedFields {placed : PlacedNode Tag Sample} (member : placed ∈ theStats)
    {element : PlacedElement Sample} (belongs : element ∈ placed.item.elements placed.offset)
    {features : List (Feature Sample)} (accumulator : element.type = .accumulator features)
    {slot : Placed (Feature Sample)} (reads : slot ∈ AccumControl.slots features element.ptr) :
    (slot.offset, slot.item.serialize (accums placed.item.tag element.path)) ∈
      storedFields accums theStats := by
  refine List.mem_flatMap.mpr ⟨placed, member, List.mem_flatMap.mpr ⟨element, belongs, ?_⟩⟩
  unfold PlacedElement.fields
  rw [accumulator]
  exact List.mem_map.mpr ⟨slot, reads, rfl⟩

/-- And there are no others. -/
theorem exists_slot_of_mem_storedFields {field : Field} (stored : field ∈ storedFields accums theStats) :
    ∃ placed ∈ theStats, ∃ element ∈ placed.item.elements placed.offset, ∃ features,
      element.type = .accumulator features ∧ ∃ slot ∈ AccumControl.slots features element.ptr,
        (slot.offset, slot.item.serialize (accums placed.item.tag element.path)) = field := by
  obtain ⟨placed, member, stored⟩ := List.mem_flatMap.mp stored
  obtain ⟨element, belongs, stored⟩ := List.mem_flatMap.mp stored
  unfold PlacedElement.fields at stored
  split at stored
  case h_1 features accumulator =>
    exact ⟨placed, member, element, belongs, features, accumulator, List.mem_map.mp stored⟩
  case h_2 => cases stored

/-- **A field does not meet an element that is not its own.** -/
theorem storedFields_apart (apart : NodesApart theStats) {placed : PlacedNode Tag Sample}
    (member : placed ∈ theStats) {element : PlacedElement Sample}
    (belongs : element ∈ placed.item.elements placed.offset) {field : Field}
    (stored : field ∈ storedFields accums theStats) :
    field ∈ element.fields (accums placed.item.tag) ∨
      element.ptr + element.type.sharedSize ≤ field.1 ∨ field.stop ≤ element.ptr := by
  obtain ⟨owner, member', stored⟩ := List.mem_flatMap.mp stored
  obtain ⟨holder, belongs', stored⟩ := List.mem_flatMap.mp stored
  have within := holder.fields_fitBetween (accums owner.item.tag)
  have starts := within.1 field stored
  have ends := (Field.fit_iff.mp within.2).1 field stored
  by_cases same : owner = placed
  · subst same
    by_cases same : holder = element
    · subst same
      exact Or.inl stored
    · have order := LogStatNode.elements_apart belongs belongs' (Ne.symm same)
      exact Or.inr (by omega)
  · have order := apart owner member' placed member same
    have inside := LogStatNode.elements_inside belongs
    have inside' := LogStatNode.elements_inside belongs'
    exact Or.inr (by omega)

/-- **All fields stand one after the other.** -/
theorem storedFields_fitBetween (nodes : List (LogStatNode Tag Sample)) (accums : Tag → Accums Sample) :
    Field.FitBetween 0 (totalSize LogStatNode.getSharedSize nodes)
      (storedFields accums (place LogStatNode.getSharedSize 0 nodes)) := by
  refine Field.FitBetween.flatMap (fun placed _ => placed.item.fields_fitBetween _ placed.offset) ?_
    (place_pairwise 0 nodes)
  intro placed member
  have ends := end_le_of_mem_place member
  exact ⟨Nat.zero_le _, by omega⟩

end

/-! ### What the control process finds -/

/-- What DUMP_STAT shows of an element behind a pass: of an accumulator, the values of its features or
zeros below a mark. -/
def shownAfterPass (accums : Accums Sample) (mem : Mem) (element : PlacedElement Sample) : List String :=
  match element.type with
  | .accumulator features =>
    [if controlWord features mem element.ptr = 0 then
        shownValue features (AccumControl.entryFormat features) (accums element.path)
      else shownZero features (AccumControl.entryFormat features)]
  | type => (type.toImpl false).shownEntries element.ptr mem

/-- **A pass is complete and touches nothing else**, for the addresses of the control process. -/
structure PassComplete (theStats : List (PlacedNode Tag Sample)) (accums : Tag → Accums Sample)
    (mem next : Mem) : Prop where
  /-- Where DUMP_STAT reads a feature, there is that of the element's own accumulator. -/
  stored : ∀ placed ∈ theStats, ∀ element ∈ placed.item.elements placed.offset, ∀ features,
    element.type = .accumulator features → ∀ slot ∈ AccumControl.slots features element.ptr,
      next.read slot.offset slot.item.size =
        slot.item.serialize (accums placed.item.tag element.path)
  controlWords : ∀ placed ∈ theStats, ∀ element ∈ placed.item.elements placed.offset, ∀ features,
    element.type = .accumulator features →
      controlWord features next element.ptr = controlWord features mem element.ptr
  /-- Simple stats, and what else is no accumulator, keep all their bytes. -/
  simpleStats : ∀ placed ∈ theStats, ∀ element ∈ placed.item.elements placed.offset,
    element.type.isSerializationDeferred = false →
      AgreeOn element.ptr element.type.sharedSize next mem
  /-- A byte of no feature is unchanged. -/
  untouched : ∀ address, (∀ placed ∈ theStats, ∀ element ∈ placed.item.elements placed.offset,
    ∀ features, element.type = .accumulator features →
      ∀ slot ∈ AccumControl.slots features element.ptr,
        address < slot.offset ∨ slot.offset + slot.item.size ≤ address) →
    next address = mem address
  /-- DUMP_STAT of a node. -/
  shown : ∀ placed ∈ theStats, (placed.item.doCommand placed.offset .dumpStat next).2.entries =
    (placed.item.elements placed.offset).flatMap (shownAfterPass (accums placed.item.tag) mem)

section

variable {statTagToType : Tag → StatType Sample} {theStats : List (PlacedNode Tag Sample)}
  {accums : Tag → Accums Sample} {mem next : Mem}

/-- The bytes in front of a control word and its own. -/
theorem controlWord_eq_of_fields (apart : NodesApart theStats)
    {placed : PlacedNode Tag Sample} (member : placed ∈ theStats) {element : PlacedElement Sample}
    (belongs : element ∈ placed.item.elements placed.offset) {features : List (Feature Sample)}
    (accumulator : element.type = .accumulator features) :
    controlWord features (Field.storeAll mem 0 (storedFields accums theStats)) element.ptr =
      controlWord features mem element.ptr := by
  unfold controlWord
  rw [Field.read_storeAll_of_missed]
  intro field stored
  have size : element.type.sharedSize = featuresSize features + sizeofControlWord := by
    rw [accumulator]
    rfl
  rw [controlWordPtr_eq, Nat.zero_add, Nat.zero_add]
  rcases storedFields_apart apart member belongs stored with own | apart
  · unfold PlacedElement.fields at own
    rw [accumulator] at own
    have within := AccumOp.fields_fitBetween features element.ptr (accums placed.item.tag element.path)
    exact Or.inr ((Field.fit_iff.mp within.2).1 field own)
  · omega

/-- The bytes of an element that is no accumulator. -/
theorem agreeOn_of_fields (apart : NodesApart theStats)
    {placed : PlacedNode Tag Sample} (member : placed ∈ theStats) {element : PlacedElement Sample}
    (belongs : element ∈ placed.item.elements placed.offset)
    (simple : element.type.isSerializationDeferred = false) :
    AgreeOn element.ptr element.type.sharedSize
      (Field.storeAll mem 0 (storedFields accums theStats)) mem := by
  intro address lower upper
  apply Field.storeAll_of_missed
  intro field stored
  rcases storedFields_apart apart member belongs stored with own | apart
  · unfold PlacedElement.fields at own
    split at own
    case h_1 features accumulator =>
      rw [accumulator] at simple
      cases simple
    case h_2 => cases own
  · omega

/-- What DUMP_STAT shows of an element comes from the slots of its features, its control word and, if
it is no accumulator, its bytes. -/
theorem shownEntries_afterPass {accums : Accums Sample} (element : PlacedElement Sample)
    (stored : ∀ features, element.type = .accumulator features →
      ∀ slot ∈ AccumControl.slots features element.ptr,
        next.read slot.offset slot.item.size = slot.item.serialize (accums element.path))
    (words : ∀ features, element.type = .accumulator features →
      controlWord features next element.ptr = controlWord features mem element.ptr)
    (simple : element.type.isSerializationDeferred = false →
      AgreeOn element.ptr element.type.sharedSize next mem) :
    (element.type.toImpl false).shownEntries element.ptr next = shownAfterPass accums mem element := by
  obtain ⟨path, type, ptr⟩ := element
  cases type with
  | accumulator features =>
    show [AccumControl.dumpFeatures (AccumControl.entryFormat features) _ _ features ptr] = [_]
    rw [words features rfl]
    by_cases zero : controlWord features mem ptr = 0
    · rw [decide_eq_true zero, if_pos zero, AccumControl.dumpFeatures_of_slots _ _ _ (stored features rfl)]
    · rw [decide_eq_false zero, if_neg zero, AccumControl.dumpFeatures_invalid]
  | simpleStat stat => exact ElementImpl.shownEntries_local (simple rfl)
  | nullStat => exact ElementImpl.shownEntries_local (simple rfl)

/-- **Storing the fields of all nodes is a complete pass.** -/
theorem passComplete_storeAll (apart : NodesApart theStats)
    (stats : ∀ placed ∈ theStats, placed.item.nodeClass = .statParent ∨
      placed.item.nodeClass = .controlStat (statTagToType placed.item.tag)) {width : Nat}
    (fit : Field.Fit width (storedFields accums theStats)) :
    PassComplete theStats accums mem (Field.storeAll mem 0 (storedFields accums theStats)) := by
  have stored : ∀ placed ∈ theStats, ∀ element ∈ placed.item.elements placed.offset, ∀ features,
      element.type = .accumulator features → ∀ slot ∈ AccumControl.slots features element.ptr,
        (Field.storeAll mem 0 (storedFields accums theStats)).read slot.offset slot.item.size =
          slot.item.serialize (accums placed.item.tag element.path) := by
    intro placed member element belongs features accumulator slot reads
    have held := Field.heldAt_storeAll fit mem 0 _
      (mem_storedFields member belongs accumulator reads)
    rwa [Nat.zero_add, slot.item.length_serialize] at held
  have words : ∀ placed ∈ theStats, ∀ element ∈ placed.item.elements placed.offset, ∀ features,
      element.type = .accumulator features →
        controlWord features (Field.storeAll mem 0 (storedFields accums theStats)) element.ptr =
          controlWord features mem element.ptr :=
    fun _ member _ belongs _ accumulator => controlWord_eq_of_fields apart member belongs accumulator
  refine ⟨stored, words, ?_, ?_, ?_⟩
  · exact fun placed member element belongs simple => agreeOn_of_fields apart member belongs simple
  · intro address outside
    apply Field.storeAll_of_missed
    intro field within
    obtain ⟨placed, member, element, belongs, features, accumulator, slot, reads, rfl⟩ :=
      exists_slot_of_mem_storedFields within
    have missed := outside placed member element belongs features accumulator slot reads
    rw [Field.stop, slot.item.length_serialize, Nat.zero_add, Nat.zero_add]
    exact missed
  · intro placed member
    rw [LogStatNode.dump_eq_elements (stats placed member)]
    refine List.flatMap_congr fun element belongs => ?_
    exact shownEntries_afterPass element (stored placed member element belongs)
      (words placed member element belongs) (agreeOn_of_fields apart member belongs)

end

/-! ### Every tree -/

/-- **The serializer serves all accumulators**: its passes are complete, and its thread is started
where there is one. -/
structure SerializerServes (statTagToType : Tag → StatType Sample) (statTagTree : LabelTree Tag)
    (operational control : LogStat Tag Sample) : Prop where
  /-- The stats of either process are the leaves below the root, each of the type of its tag. -/
  operationalStats : operational.theStats.map (fun placed => (placed.item.tag, placed.item.nodeClass)) =
    (statTagTree.asParent.subtrees.map fun subtree =>
      (subtree.label, statNodeClass statTagToType true subtree)).reverse
  controlStats : control.theStats.map (fun placed => (placed.item.tag, placed.item.nodeClass)) =
    (statTagTree.asParent.subtrees.map fun subtree =>
      (subtree.label, statNodeClass statTagToType false subtree)).reverse
  pass : ∀ accums mem, PassComplete control.theStats accums mem
    (LogStatOperational.serializeAll accums operational.theStats mem)
  started : ∀ tag ∈ statTagTree.labels, ∀ sizes features,
    statTagToType tag = .nested sizes (.accumulator features) →
      needDeferredSerialization statTagToType (operational.theStats.map Placed.item) = true

/-- **The serializer serves all accumulators**, for all trees, types, samples and contents of the shared
memory. -/
theorem serializer_serves (statTagToType : Tag → StatType Sample) (statTagTree logTagTree : LabelTree Tag)
    (mem₀ mem₁ : Mem) :
    SerializerServes statTagToType statTagTree
      (LogStatBase.init statTagToType true statTagTree logTagTree mem₀)
      (LogStatBase.init statTagToType false statTagTree logTagTree mem₁) where
  operationalStats := LogStatBase.map_nodeClass_theStats statTagToType statTagTree logTagTree true mem₀
  controlStats := LogStatBase.map_nodeClass_theStats statTagToType statTagTree logTagTree false mem₁
  pass accums mem := by
    have agree := LogStatBase.map_key_theStats statTagToType statTagTree logTagTree true mem₀ mem₁
    have apart : NodesApart
        (LogStatBase.init statTagToType false statTagTree logTagTree mem₁).theStats :=
      fun first member second member' differ =>
        LogStatBase.nodes_apart statTagToType statTagTree logTagTree false mem₁
          (List.mem_append_left _ member) (List.mem_append_left _ member') differ
    obtain ⟨width, fit⟩ : ∃ width, Field.Fit width (storedFields accums
        (LogStatBase.init statTagToType false statTagTree logTagTree mem₁).theStats) := by
      rw [LogStatBase.theStats_init]
      exact ⟨_, (storedFields_fitBetween _ accums).2⟩
    have opStats : ∀ placed ∈ (LogStatBase.init statTagToType true statTagTree logTagTree mem₀).theStats,
        placed.item.nodeClass = .statParent ∨
          placed.item.nodeClass = .opStat (statTagToType placed.item.tag) :=
      fun _ member => nodeClass_theStats member
    have controlStats : ∀ placed ∈
        (LogStatBase.init statTagToType false statTagTree logTagTree mem₁).theStats,
        placed.item.nodeClass = .statParent ∨
          placed.item.nodeClass = .controlStat (statTagToType placed.item.tag) :=
      fun _ member => nodeClass_theStats member
    rw [serializeAll_eq_storeAll opStats, storedFields_congr agree]
    exact passComplete_storeAll apart controlStats fit
  started tag label sizes features type := by
    rw [← List.mem_reverse,
      ← LogStatBase.map_tag_theStats statTagToType statTagTree logTagTree true mem₀] at label
    obtain ⟨placed, member, same⟩ := List.mem_map.mp label
    refine List.any_eq_true.mpr ⟨placed.item, List.mem_map_of_mem member, ?_⟩
    rw [same, type]
    exact isSerializationDeferred_nested sizes (.accumulator features)

/-! ### The thread -/

namespace Serializer

variable [DecidableEq Tag] (statTagToType : Tag → StatType Sample) (statTagTree logTagTree : LabelTree Tag)

/-- The thread goes through the stats that are left. -/
theorem run_doSerialize (process : Process Tag Sample) {rest : List (PlacedNode Tag Sample)}
    (serializing : process.serializationThread = .serializing rest) :
    run (step statTagToType statTagTree logTagTree) process
        (List.replicate rest.length .doSerialize ++ [.wake]) =
      some { process with
        mem := LogStatOperational.serializeAll process.accums rest process.mem
        serializationThread := .testing } := by
  induction rest generalizing process with
  | nil => simp [run, step, serializing, LogStatOperational.serializeAll]
  | cons placed rest ih =>
    have taken : step statTagToType statTagTree logTagTree process .doSerialize = some { process with
        mem := LogStatOperational.serializeNode process.accums process.mem placed
        serializationThread := .serializing rest } := by
      simp only [step, serializing]
    rw [List.length_cons, List.replicate_succ, List.cons_append, run, taken]
    exact ih _ rfl

/-- **The thread's steps from one test to the next** are one pass over all stats. -/
theorem run_pass {process : Process Tag Sample} (testing : process.serializationThread = .testing)
    (running : process.serializerRunning = true) :
    run (step statTagToType statTagTree logTagTree) process
        (.testLoop :: (List.replicate process.theStats.length .doSerialize ++ [.wake])) =
      some { process with
        mem := LogStatOperational.serializeAll process.accums process.theStats process.mem } := by
  have taken : step statTagToType statTagTree logTagTree process .testLoop = some { process with
      serializationThread := .serializing process.theStats } := by
    simp only [step, testing, running, if_true]
  rw [run, taken, Option.bind_some, run_doSerialize statTagToType statTagTree logTagTree _ rfl,
    ← testing]

end Serializer

end StatLog.Tags
