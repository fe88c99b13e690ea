/-
**The alignment of stats.**

The code reads and writes the scalars of a stat in place, through a pointer of their type. `init` adds
up sizes from the last tag of the tree to the first and leaves no room between any two stats, entries
or features.

* `Scalar`, `ElementType.scalars`, `AddressesAligned`: what is accessed in place, and where.
* `StatType.FitsAt`: where a stat's scalars are aligned, from its type alone; `fitsAt_add_iff`: a stat
  that is moved, and `fitsAt_entries_iff`: the entries of an array.
* `StatsFit`: the same for all stats, each behind those that come after it in the tree.
* **`addressesAligned_iff`**: the addresses that `init` hands out are aligned exactly for such trees.
-/

import StatLog.Tags.SerializerPass

namespace StatLog.Tags

open ByteMemory Placement RoseTree Stats

variable {Tag Sample : Type}

/-! ### Scalars -/

/-- A scalar that is accessed in place. -/
structure Scalar where
  address : Nat
  alignment : Nat
  deriving DecidableEq, Repr

/-- A `reinterpret_cast` pointer to it is aligned. -/
def Scalar.Aligned (scalar : Scalar) : Prop := scalar.alignment ∣ scalar.address

instance (scalar : Scalar) : Decidable scalar.Aligned :=
  inferInstanceAs (Decidable (scalar.alignment ∣ scalar.address))

def Scalar.shift (distance : Nat) (scalar : Scalar) : Scalar :=
  { scalar with address := scalar.address + distance }

section

variable (alignment : Feature Sample → Nat)

/-- **The scalars of the element at `ptr`.** An arithmetic type is aligned to its size; a feature has
the alignment of its `shared_type`, and a `NullStat` is never accessed. -/
def elementScalars (ptr : Nat) : ElementType Sample → List Scalar
  | .simpleStat stat => [⟨ptr, stat.repr.size⟩]
  | .nullStat => []
  | .accumulator features =>
    (AccumControl.slots features ptr).map (fun slot => ⟨slot.offset, alignment slot.item⟩) ++
      [⟨controlWordPtr features ptr, sizeofControlWord⟩]

/-- The scalars of all elements of the stat at `ptr`. -/
def statScalars (ptr : Nat) (type : StatType Sample) : List Scalar :=
  (type.elements ptr).flatMap fun element => elementScalars alignment element.ptr element.type

/-- **Every scalar of every stat is aligned**, with the shared memory mapped at a page. -/
def AddressesAligned (theStats : List (PlacedNode Tag Sample)) : Prop :=
  ∀ placed ∈ theStats, ∀ type, placed.item.statType? = some type →
    ∀ scalar ∈ statScalars alignment placed.offset type, scalar.Aligned

/-! ### The condition -/

/-- The alignments that occur in a stat. -/
def statAlignments : StatType Sample → List Nat
  | .element type => (elementScalars alignment 0 type).map Scalar.alignment
  | .statArray size entry => if size = 0 then [] else statAlignments entry

/-- **A stat behind `front` bytes has all its scalars aligned**: the first entry of an array, and if
there are more of them, the size of an entry suits all that occurs in it. -/
def FitsAt (front : Nat) : StatType Sample → Prop
  | .element type => ∀ scalar ∈ elementScalars alignment 0 type, (scalar.shift front).Aligned
  | .statArray size entry =>
    (1 ≤ size → FitsAt front entry) ∧
      (2 ≤ size → ∀ needed ∈ statAlignments alignment entry, needed ∣ entry.sharedSize)

/-- **All stats of a tree fit**, each behind those that come after it. -/
def StatsFit : List (StatType Sample) → Prop
  | [] => True
  | type :: later => FitsAt alignment (totalSize StatType.sharedSize later) type ∧ StatsFit later

end

/-! ### One stat -/

section

variable {alignment : Feature Sample → Nat}

/-- The scalars of an element move with it. -/
theorem elementScalars_eq (ptr : Nat) (type : ElementType Sample) :
    elementScalars alignment ptr type = (elementScalars alignment 0 type).map (Scalar.shift ptr) := by
  cases type with
  | simpleStat stat =>
    rw [elementScalars, elementScalars, List.map_singleton, Scalar.shift, Nat.zero_add]
  | nullStat => rfl
  | accumulator features =>
    have slots : AccumControl.slots features ptr =
        (AccumControl.slots features 0).map fun slot => ⟨slot.item, slot.offset + ptr⟩ := by
      have moved : place Feature.size (0 + ptr) features = _ := place_shift Feature.size 0 ptr features
      rwa [Nat.zero_add] at moved
    rw [elementScalars, slots, elementScalars, List.map_append, List.map_map, List.map_map,
      List.map_singleton, controlWordPtr_eq, controlWordPtr_eq, Scalar.shift, Nat.zero_add, Nat.add_comm]
    rfl

theorem statScalars_element (ptr : Nat) (type : ElementType Sample) :
    statScalars alignment ptr (.element type) = elementScalars alignment ptr type := by
  rw [statScalars, StatType.elements, List.flatMap_singleton]

theorem statScalars_statArray (ptr size : Nat) (entry : StatType Sample) :
    statScalars alignment ptr (.statArray size entry) = (List.range size).flatMap fun i =>
      statScalars alignment (ptr + i * entry.sharedSize) entry := by
  rw [statScalars, StatType.elements, List.flatMap_assoc]
  apply List.flatMap_congr
  intro i _
  rw [List.flatMap_map, statScalars]

/-- **A stat that fits does so again at a distance that suits all its alignments**, and at no other. -/
theorem fitsAt_add_iff {front : Nat} {type : StatType Sample} (fits : FitsAt alignment front type)
    (distance : Nat) :
    FitsAt alignment (front + distance) type ↔
      ∀ needed ∈ statAlignments alignment type, needed ∣ distance := by
  induction type with
  | element type =>
    rw [statAlignments, List.forall_mem_map]
    refine forall₂_congr fun scalar member => ?_
    show scalar.alignment ∣ scalar.address + (front + distance) ↔ _
    rw [← Nat.add_assoc]
    exact Nat.dvd_add_right (fits scalar member)
  | statArray size entry ih =>
    obtain ⟨first, others⟩ := fits
    rw [FitsAt, statAlignments]
    by_cases empty : size = 0
    · rw [if_pos empty]
      exact iff_of_true ⟨fun some' => by omega, others⟩ (List.forall_mem_nil _)
    · have some' : 1 ≤ size := by omega
      rw [if_neg empty, ← ih (first some')]
      exact ⟨fun fits => fits.1 some', fun fits => ⟨fun _ => fits, others⟩⟩

/-- **All entries of an array** fit exactly if the first one does and the others follow at a distance
that suits them. -/
theorem fitsAt_entries_iff (front size : Nat) (entry : StatType Sample) :
    (∀ i < size, FitsAt alignment (front + i * entry.sharedSize) entry) ↔
      FitsAt alignment front (.statArray size entry) := by
  constructor
  · intro all
    have first : 1 ≤ size → FitsAt alignment front entry := by
      intro some'
      have fits := all 0 some'
      rwa [Nat.zero_mul, Nat.add_zero] at fits
    refine ⟨first, fun more => ?_⟩
    have second := all 1 more
    rw [Nat.one_mul] at second
    exact (fitsAt_add_iff (first (by omega)) _).mp second
  · rintro ⟨first, others⟩ i inside
    rw [fitsAt_add_iff (first (by omega))]
    intro needed occurs
    by_cases start : i = 0
    · rw [start, Nat.zero_mul]
      exact Nat.dvd_zero needed
    · exact Nat.dvd_mul_left_of_dvd (others (by omega) needed occurs) i

/-- **The scalars of a stat are aligned exactly where it fits.** -/
theorem statScalars_aligned_iff (ptr : Nat) (type : StatType Sample) :
    (∀ scalar ∈ statScalars alignment ptr type, scalar.Aligned) ↔ FitsAt alignment ptr type := by
  induction type generalizing ptr with
  | element type =>
    rw [statScalars_element, elementScalars_eq, List.forall_mem_map]
    rfl
  | statArray size entry ih =>
    rw [statScalars_statArray, List.forall_mem_flatMap, ← fitsAt_entries_iff]
    simp only [ih, List.mem_range]

end

/-! ### All stats -/

section

variable {alignment : Feature Sample → Nat} {statTagToType : Tag → StatType Sample}
  {isOperational : Bool}

/-- The type of a leaf. -/
def leafType? (statTagToType : Tag → StatType Sample) (tree : LabelTree (TagNode Tag)) :
    Option (StatType Sample) :=
  tree.leafLabel?.map fun tagNode => statTagToType tagNode.tag

theorem leafType?_leaf (tagNode : TagNode Tag) :
    leafType? statTagToType (.leaf tagNode) = some (statTagToType tagNode.tag) := rfl

theorem leafType?_parent (tagNode : TagNode Tag) (children : List (LabelTree (TagNode Tag))) :
    leafType? statTagToType (.parent tagNode children) = none := rfl

theorem statType?_nodeOf (tree : LabelTree (TagNode Tag)) :
    (nodeOf statTagToType isOperational true tree).statType? = leafType? statTagToType tree := by
  cases tree <;> cases isOperational <;> rfl

/-- Parents take no room. -/
theorem totalSize_nodes (trees : List (LabelTree (TagNode Tag))) :
    totalSize LogStatNode.getSharedSize (trees.map (nodeOf statTagToType isOperational true)) =
      totalSize StatType.sharedSize (trees.filterMap (leafType? statTagToType)) := by
  induction trees with
  | nil => rfl
  | cons tree trees ih =>
    rw [List.map_cons, totalSize_cons, ih]
    cases tree with
    | leaf tagNode =>
      rw [List.filterMap_cons_some (leafType?_leaf tagNode), totalSize_cons,
        LogStatNode.getSharedSize_of_statType (statType?_nodeOf (.leaf tagNode))]
    | parent tagNode children =>
      rw [List.filterMap_cons_none (leafType?_parent tagNode children)]
      exact Nat.zero_add _

/-- **Nodes in reverse order are aligned exactly if their stats fit behind the later ones.** -/
theorem addressesAligned_place_iff (trees : List (LabelTree (TagNode Tag))) :
    AddressesAligned alignment (place LogStatNode.getSharedSize 0
        (trees.map (nodeOf statTagToType isOperational true)).reverse) ↔
      StatsFit alignment (trees.filterMap (leafType? statTagToType)) := by
  induction trees with
  | nil => exact iff_of_true (List.forall_mem_nil _) trivial
  | cons tree trees ih =>
    rw [List.map_cons, List.reverse_cons, place_append, Nat.zero_add, totalSize_reverse, totalSize_nodes,
      AddressesAligned, List.forall_mem_append, ← AddressesAligned, ih, place, place,
      List.forall_mem_singleton, statType?_nodeOf]
    cases tree with
    | leaf tagNode =>
      rw [List.filterMap_cons_some (leafType?_leaf tagNode), StatsFit, ← statScalars_aligned_iff, and_comm]
      refine and_congr_left fun _ => ⟨fun all => all _ rfl, fun all type same => ?_⟩
      obtain rfl := Option.some.inj same
      exact all
    | parent tagNode children =>
      rw [List.filterMap_cons_none (leafType?_parent tagNode children)]
      refine and_iff_left fun type same => ?_
      cases same

/-- The types of the leaves of the hierarchy. -/
theorem filterMap_leafType? (tree : LabelTree Tag) :
    (tagHierarchy tree).asParent.subtrees.filterMap (leafType? statTagToType) =
      tree.leavesBelow.map statTagToType := by
  have types : (tagHierarchy tree).asParent.subtrees.map (leafType? statTagToType) =
      tree.asParent.subtrees.map fun subtree => subtree.leafLabel?.map statTagToType := by
    rw [asParent_tagHierarchy]
    exact map_subtrees_genTagHierarchy (fun _ => rfl) (fun _ _ _ => rfl) tree.asParent none 0
  have found := congrArg (List.filterMap id) types
  rw [List.filterMap_map, List.filterMap_map] at found
  rw [← LabelTree.leaves_asParent, LabelTree.leaves, List.map_filterMap]
  exact found

end

/-- **The addresses that `init` hands out are aligned exactly if all stats of the tree fit**, for all
trees, types and alignments of features. -/
theorem addressesAligned_iff (alignment : Feature Sample → Nat) (statTagToType : Tag → StatType Sample)
    (isOperational : Bool) (statTagTree logTagTree : LabelTree Tag) (mem : Mem) :
    AddressesAligned alignment
        (LogStatBase.init statTagToType isOperational statTagTree logTagTree mem).theStats ↔
      StatsFit alignment (statTagTree.leavesBelow.map statTagToType) := by
  rw [LogStatBase.theStats_init, tagListCreator_eq, addressesAligned_place_iff, filterMap_leafType?]

/-- An array of two accumulators with a `count`, which has eight bytes. -/
def twoCounts : StatType Nat := .statArray 2 (.element (.accumulator [count]))

/-- The second `count` stands behind eight bytes of the first one and a control word of four. -/
theorem not_addressesAligned_of_control_word :
    ¬ AddressesAligned (fun _ => 8)
      (LogStatBase.init (fun _ : Bool => twoCounts) true (.parent false [.leaf true]) (.leaf false)
        fun _ => 0).theStats := by
  intro aligned
  have second := aligned _ List.mem_cons_self twoCounts rfl ⟨12, 8⟩ (by decide)
  exact absurd second (by decide)

end StatLog.Tags
