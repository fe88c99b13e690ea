/-
**The elements of a stat.**

A stat of any nesting is a row of elements in shared memory. A serializer pass stores the features of
its accumulators there, one field for each feature, and DUMP_STAT walks over the same addresses.

* `StatType.elements`: the elements with their indices and addresses; `elements_inside`,
  `elements_apart`: they lie in the stat and do not overlap.
* `AccumControl.slots`, with `dumpFeatures_eq_slots` and `getTitles_eq_slots`: where the control process
  reads the features. `dumpFeatures_of_slots`: what it shows, if they are stored there.
* `StatType.fields`, with `serialize_eq_storeAll`: what a pass stores, and nothing else.
* `StatType.shownEntries_eq_elements`: a dump shows the elements one after the other.
* **`StatType.fields_fitBetween`**: the fields of a stat stand one after the other, inside it.
-/

import Mathlib.Data.List.Pairwise
import StatLog.Lib.Placement
import StatLog.Stats.ArrayRun
import StatLog.Stats.Cleared

namespace StatLog.Stats

open ByteMemory Placement

variable {Sample : Type}

/-! ### Elements -/

/-- An element of a stat with the indices that lead to it, and its address. -/
structure PlacedElement (Sample : Type) where
  path : List Nat
  type : ElementType Sample
  ptr : Nat

/-- **The elements of the stat at `ptr`.** -/
def StatType.elements (ptr : Nat) : StatType Sample → List (PlacedElement Sample)
  | element type => [⟨[], type, ptr⟩]
  | statArray size entry =>
    (List.range size).flatMap fun i =>
      (entry.elements (ptr + i * entry.sharedSize)).map fun placed =>
        { placed with path := i :: placed.path }

/-- An element of an array is one of its entries'. -/
theorem StatType.mem_elements_statArray {size : Nat} {entry : StatType Sample} {ptr : Nat}
    {placed : PlacedElement Sample} :
    placed ∈ (StatType.statArray size entry).elements ptr ↔ ∃ i < size,
      ∃ inner ∈ entry.elements (ptr + i * entry.sharedSize),
        { inner with path := i :: inner.path } = placed := by
  simp only [StatType.elements, List.mem_flatMap, List.mem_range, List.mem_map]

/-- **An element lies inside its stat.** -/
theorem StatType.elements_inside {type : StatType Sample} {ptr : Nat} {placed : PlacedElement Sample}
    (member : placed ∈ type.elements ptr) :
    ptr ≤ placed.ptr ∧ placed.ptr + placed.type.sharedSize ≤ ptr + type.sharedSize := by
  induction type generalizing ptr placed with
  | element type =>
    obtain rfl := List.mem_singleton.mp member
    exact ⟨Nat.le_refl _, Nat.le_refl _⟩
  | statArray size entry ih =>
    obtain ⟨i, inside, inner, belongs, rfl⟩ := mem_elements_statArray.mp member
    have within := ih belongs
    have below := entry_end_le entry.sharedSize inside
    rw [sharedSize_statArray]
    show ptr ≤ inner.ptr ∧ inner.ptr + inner.type.sharedSize ≤ _
    exact ⟨by omega, by omega⟩

theorem StatType.elements_pairwise (type : StatType Sample) (ptr : Nat) :
    (type.elements ptr).Pairwise fun first second =>
      first.ptr + first.type.sharedSize ≤ second.ptr := by
  induction type generalizing ptr with
  | element type => exact List.pairwise_singleton _ _
  | statArray size entry ih =>
    rw [elements, List.pairwise_flatMap]
    refine ⟨fun i _ => List.pairwise_map.mpr (ih _), List.pairwise_lt_range.imp ?_⟩
    intro i j less first member second member'
    obtain ⟨inner, within, rfl⟩ := List.mem_map.mp member
    obtain ⟨inner', within', rfl⟩ := List.mem_map.mp member'
    have ends := (elements_inside within).2
    have starts := (elements_inside within').1
    have apart := entry_end_le_entry ptr entry.sharedSize less
    exact Nat.le_trans ends (Nat.le_trans apart starts)

/-- **Elements do not overlap.** -/
theorem StatType.elements_apart {type : StatType Sample} {ptr : Nat} {first second : PlacedElement Sample}
    (member : first ∈ type.elements ptr) (member' : second ∈ type.elements ptr)
    (differ : first ≠ second) :
    first.ptr + first.type.sharedSize ≤ second.ptr ∨
      second.ptr + second.type.sharedSize ≤ first.ptr := by
  have apart : (type.elements ptr).Pairwise fun first second =>
      first.ptr + first.type.sharedSize ≤ second.ptr ∨
        second.ptr + second.type.sharedSize ≤ first.ptr := (type.elements_pairwise ptr).imp Or.inl
  have symm : Std.Symm fun first second : PlacedElement Sample =>
      first.ptr + first.type.sharedSize ≤ second.ptr ∨
        second.ptr + second.type.sharedSize ≤ first.ptr := ⟨fun _ _ => Or.symm⟩
  exact apart.forall member member' differ

/-- A stat is deferred when one of its elements is. -/
theorem StatType.isSerializationDeferred_of_mem {type : StatType Sample} {ptr : Nat}
    {placed : PlacedElement Sample} (member : placed ∈ type.elements ptr) :
    placed.type.isSerializationDeferred = type.isSerializationDeferred := by
  induction type generalizing ptr placed with
  | element type =>
    obtain rfl := List.mem_singleton.mp member
    rfl
  | statArray size entry ih =>
    obtain ⟨i, -, inner, belongs, rfl⟩ := mem_elements_statArray.mp member
    have deferred := ih belongs
    exact deferred

/-! ### The features of an accumulator -/

section Features

variable (features : List (Feature Sample)) (mem : Mem) (ptr : Nat)

/-- **The features with the addresses** that DUMP_STAT reads them from. -/
def AccumControl.slots : List (Placed (Feature Sample)) := place Feature.size ptr features

theorem AccumControl.dumpFeatures_eq_slots (format : Option EntryFormat) (isValid : Bool) :
    AccumControl.dumpFeatures format isValid mem features ptr =
      ((AccumControl.slots features ptr).map fun slot =>
        slot.item.dumpStat format isValid (mem.read slot.offset slot.item.size)).foldr (· ++ ·) "" := by
  induction features generalizing ptr with
  | nil => rfl
  | cons feature features ih =>
    rw [AccumControl.dumpFeatures, ih]
    rfl

theorem AccumControl.getTitles_eq_slots (width : Nat) :
    AccumControl.getTitles width mem features ptr =
      ((AccumControl.slots features ptr).map fun slot =>
        slot.item.getTitle width (mem.read slot.offset slot.item.size)).foldr (· ++ ·) "" := by
  induction features generalizing ptr with
  | nil => rfl
  | cons feature features ih =>
    rw [AccumControl.getTitles, ih]
    rfl

/-- Features stored at these addresses are shown as their values. -/
theorem AccumControl.dumpFeatures_of_slots {acc : List Sample}
    (stored : ∀ slot ∈ AccumControl.slots features ptr,
      mem.read slot.offset slot.item.size = slot.item.serialize acc) (format : Option EntryFormat) :
    AccumControl.dumpFeatures format true mem features ptr = shownValue features format acc := by
  have values : (AccumControl.slots features ptr).map (fun slot =>
      slot.item.dumpStat format true (mem.read slot.offset slot.item.size)) =
        features.map fun feature => feature.showValue format (feature.serialize acc) := by
    conv_rhs => rw [← map_item_place Feature.size ptr features, List.map_map]
    apply List.map_congr_left
    intro slot member
    rw [stored slot member]
    rfl
  rw [dumpFeatures_eq_slots, values, shownValue]

/-- The fields that `AccumOp::serialize` stores. -/
def AccumOp.fields (acc : List Sample) : List Field :=
  (AccumControl.slots features ptr).map fun slot => (slot.offset, slot.item.serialize acc)

theorem AccumOp.serialize_eq_storeAll (acc : List Sample) :
    AccumOp.serialize features acc mem ptr =
      Field.storeAll mem 0 (AccumOp.fields features ptr acc) := by
  unfold AccumOp.serialize AccumOp.fields AccumControl.slots
  induction features generalizing mem ptr with
  | nil => rfl
  | cons feature features ih =>
    rw [AccumOp.serializeFeatures, ih, place, List.map_cons, Field.storeAll_cons, Nat.zero_add]

/-- **They stand one after the other, in front of the control word.** -/
theorem AccumOp.fields_fitBetween (acc : List Sample) :
    Field.FitBetween ptr (ptr + featuresSize features) (AccumOp.fields features ptr acc) := by
  have stop : ∀ slot : Placed (Feature Sample),
      Field.stop (slot.offset, slot.item.serialize acc) = slot.offset + slot.item.size :=
    fun slot => congrArg (slot.offset + ·) (slot.item.length_serialize acc)
  refine ⟨fun field member => ?_, Field.fit_iff.mpr ⟨fun field member => ?_, ?_⟩⟩
  · obtain ⟨slot, belongs, rfl⟩ := List.mem_map.mp member
    exact start_le_of_mem_place belongs
  · obtain ⟨slot, belongs, rfl⟩ := List.mem_map.mp member
    rw [stop]
    exact end_le_of_mem_place belongs
  · refine List.pairwise_map.mpr ((place_pairwise ptr features).imp fun {first second} order => ?_)
    rw [stop]
    exact order

end Features

/-! ### The fields of a stat -/

/-- What a serializer pass stores for an element. -/
def PlacedElement.fields (accums : Accums Sample) (placed : PlacedElement Sample) : List Field :=
  match placed.type with
  | .accumulator features => AccumOp.fields features placed.ptr (accums placed.path)
  | _ => []

/-- **What a serializer pass stores for a stat.** -/
def StatType.fields (accums : Accums Sample) (ptr : Nat) (type : StatType Sample) : List Field :=
  (type.elements ptr).flatMap (PlacedElement.fields accums)

theorem StatType.fields_statArray (accums : Accums Sample) (ptr size : Nat) (entry : StatType Sample) :
    (StatType.statArray size entry).fields accums ptr = (List.range size).flatMap fun i =>
      entry.fields (accums.entry i) (ptr + i * entry.sharedSize) := by
  rw [StatType.fields, StatType.elements, List.flatMap_assoc]
  apply List.flatMap_congr
  intro i _
  rw [List.flatMap_map, StatType.fields]
  rfl

/-- **A pass stores these fields and does nothing else.** -/
theorem StatType.serialize_eq_storeAll (type : StatType Sample) (accums : Accums Sample) (mem : Mem)
    (ptr : Nat) :
    (statTypeToImpl true type).serialize accums mem ptr =
      Field.storeAll mem 0 (type.fields accums ptr) := by
  induction type generalizing accums mem ptr with
  | element type =>
    cases type with
    | simpleStat stat => rfl
    | nullStat => rfl
    | accumulator features =>
      rw [StatType.fields, StatType.elements, List.flatMap_singleton]
      exact AccumOp.serialize_eq_storeAll features mem ptr (accums [])
  | statArray size entry ih =>
    rw [statTypeToImpl_statArray, StatImpl.serialize, StatType.fields_statArray,
      Field.storeAll_flatMap, entry.sharedSize_impl true]
    simp only [ih]

/-- A stat that is not deferred has no fields, so that the proxy may skip it. -/
theorem OperationalStatProxy.serialize_eq_storeAll (type : StatType Sample) (accums : Accums Sample)
    (mem : Mem) (ptr : Nat) :
    OperationalStatProxy.serialize type accums mem ptr =
      Field.storeAll mem 0 (type.fields accums ptr) := by
  unfold OperationalStatProxy.serialize
  split
  · exact type.serialize_eq_storeAll accums mem ptr
  case isFalse skipped =>
    have none : type.fields accums ptr = [] := by
      refine List.flatMap_eq_nil_iff.mpr fun placed member => ?_
      rw [← StatType.isSerializationDeferred_of_mem member] at skipped
      unfold PlacedElement.fields
      split
      case h_1 features same => exact absurd (by rw [same]; rfl) skipped
      case h_2 => rfl
    rw [none]
    rfl

/-- The fields of an element. -/
theorem PlacedElement.fields_fitBetween (accums : Accums Sample) (placed : PlacedElement Sample) :
    Field.FitBetween placed.ptr (placed.ptr + placed.type.sharedSize) (placed.fields accums) := by
  obtain ⟨path, type, ptr⟩ := placed
  cases type with
  | simpleStat stat => exact ⟨fun _ member => (List.not_mem_nil member).elim, trivial⟩
  | nullStat => exact ⟨fun _ member => (List.not_mem_nil member).elim, trivial⟩
  | accumulator features =>
    obtain ⟨starts, fit⟩ := AccumOp.fields_fitBetween features ptr (accums path)
    obtain ⟨ends, ordered⟩ := Field.fit_iff.mp fit
    refine ⟨starts, Field.fit_iff.mpr ⟨fun field member => ?_, ordered⟩⟩
    exact Nat.le_trans (ends field member) (Nat.add_le_add_left (Nat.le_add_right _ _) ptr)

/-- **The fields of a stat stand one after the other, inside it.** -/
theorem StatType.fields_fitBetween (type : StatType Sample) (accums : Accums Sample) (ptr : Nat) :
    Field.FitBetween ptr (ptr + type.sharedSize) (type.fields accums ptr) :=
  Field.FitBetween.flatMap (fun placed _ => placed.fields_fitBetween accums)
    (fun _ member => elements_inside member) (type.elements_pairwise ptr)

/-! ### Dumps -/

/-- **A dump shows the elements one after the other.** -/
theorem StatType.shownEntries_eq_elements (type : StatType Sample) (ptr : Nat) (mem : Mem) :
    (statTypeToImpl false type).shownEntries ptr mem =
      (type.elements ptr).flatMap fun placed =>
        (placed.type.toImpl false).shownEntries placed.ptr mem := by
  induction type generalizing ptr with
  | element type => exact (List.append_nil _).symm
  | statArray size entry ih =>
    rw [statTypeToImpl_statArray, StatImpl.shownEntries, StatType.elements, List.flatMap_assoc]
    apply List.flatMap_congr
    intro i _
    rw [List.flatMap_map]
    exact ih _

end StatLog.Stats
