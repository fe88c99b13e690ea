/-
**Nested arrays, element by element.**

Writing descends by the indices, serializing and clearing loop through all levels, and a dump also
collects the sizes of the dimensions on its way. Each of them comes to its counterpart on the
elements, numbered in the order of the index tuples.

* `StatType.nested`: an array of arrays ... of elements.
* `write_nested`, `serialize_nested`, `clear_nested`, `dump_nested`: the functions of a nested array in
  terms of its elements.
* `visitElements_agreeOn`: a loop of local steps, seen from one element.
* `StatImpl.clear_statArray`, `StatImpl.dump_eq`: clears and dumps of any stat, level by level.
-/

import StatLog.Lib.MixedRadix
import StatLog.Stats.StatArray

namespace StatLog.Stats

open ByteMemory MixedRadix

variable {Sample : Type}

/-! ### Nested arrays -/

/-- `StatArray<n1, ... StatArray<nd, T>>`. -/
def StatType.nested (sizes : List Nat) (element : ElementType Sample) : StatType Sample :=
  sizes.foldr .statArray (.element element)

def StatImpl.nested (isOperational : Bool) (sizes : List Nat) (impl : ElementImpl Sample) :
    StatImpl Sample :=
  sizes.foldr (fun size entry => .statArray size isOperational entry) (.element impl)

theorem statTypeToImpl_nested (isOperational : Bool) (sizes : List Nat)
    (element : ElementType Sample) :
    statTypeToImpl isOperational (.nested sizes element) =
      .nested isOperational sizes (element.toImpl isOperational) := by
  induction sizes with
  | nil => rfl
  | cons size sizes ih =>
    unfold StatType.nested
    rw [List.foldr_cons, statTypeToImpl_statArray, ← StatType.nested, ih]
    rfl

theorem isSerializationDeferred_nested (sizes : List Nat) (element : ElementType Sample) :
    (StatType.nested sizes element).isSerializationDeferred = element.isSerializationDeferred := by
  induction sizes with
  | nil => rfl
  | cons size sizes ih => exact ih

namespace StatImpl

variable (isOperational : Bool) (impl : ElementImpl Sample)

theorem nested_cons (size : Nat) (sizes : List Nat) :
    nested isOperational (size :: sizes) impl =
      .statArray size isOperational (nested isOperational sizes impl) := rfl

/-- Arrays without empty dimensions are made of their elements. -/
theorem sharedSize_nested {sizes : List Nat} (positive : ∀ size ∈ sizes, 0 < size) :
    (nested isOperational sizes impl).sharedSize = sizes.prod * impl.sharedSize := by
  induction sizes with
  | nil => exact (Nat.one_mul _).symm
  | cons size sizes ih =>
    have first := positive size List.mem_cons_self
    rw [nested_cons, sharedSize, ih fun other member => positive other (List.mem_cons_of_mem _ member),
      sizeofArray, if_neg (by omega), List.prod_cons, Nat.mul_assoc]

/-- The address of an element, for elements of the given size. -/
def elementPtr (elementSize : Nat) (sizes : List Nat) (ptr : Nat) (idx : List Nat) : Nat :=
  ptr + rank sizes idx * elementSize

/-- The address of an element below one of the entries. -/
theorem elementPtr_cons {sizes : List Nat} (positive : ∀ size ∈ sizes, 0 < size) (size ptr i : Nat)
    (idx : List Nat) :
    elementPtr impl.sharedSize sizes (ptr + i * (nested isOperational sizes impl).sharedSize) idx =
      elementPtr impl.sharedSize (size :: sizes) ptr (i :: idx) := by
  rw [elementPtr, elementPtr, sharedSize_nested _ _ positive, rank, Nat.add_mul, Nat.mul_assoc,
    Nat.add_assoc]

/-- Different elements do not overlap. -/
theorem elementPtr_apart (elementSize : Nat) {sizes idx other : List Nat} (ptr : Nat)
    (bounded : InBounds sizes idx) (bounded' : InBounds sizes other) (differ : idx ≠ other) :
    elementPtr elementSize sizes ptr idx + elementSize ≤ elementPtr elementSize sizes ptr other ∨
      elementPtr elementSize sizes ptr other + elementSize ≤ elementPtr elementSize sizes ptr idx := by
  have numbers : rank sizes idx ≠ rank sizes other := fun same => differ (rank_inj bounded bounded' same)
  rcases Nat.lt_or_gt_of_ne numbers with before | behind
  · exact Or.inl (entry_end_le_entry ptr elementSize before)
  · exact Or.inr (entry_end_le_entry ptr elementSize behind)

end StatImpl

/-! ### Writes -/

namespace Accums

/-- With other samples in the accumulator at the end of a path. -/
def setAt (accums : Accums Sample) (path : List Nat) (acc : List Sample) : Accums Sample :=
  fun other => if other = path then acc else accums other

theorem setElement_eq (accums : Accums Sample) (acc : List Sample) :
    accums.setElement acc = accums.setAt [] acc := by
  funext other
  cases other <;> rfl

theorem setEntry_setAt (accums : Accums Sample) (i : Nat) (path : List Nat) (acc : List Sample) :
    accums.setEntry i ((accums.entry i).setAt path acc) = accums.setAt (i :: path) acc := by
  funext other
  cases other with
  | nil => rfl
  | cons head rest =>
    by_cases same : head = i
    · subst same
      simp [setEntry, setAt, entry]
    · simp [setEntry, setAt, same]

end Accums

/-- The indices of a write pass the assertions of the array. There may be more of them than
dimensions. -/
def InRange : List Nat → List Int → Prop
  | [], _ => True
  | _ :: _, [] => False
  | size :: sizes, idx :: indices => (0 ≤ idx ∧ idx < intOfSize size) ∧ InRange sizes indices

instance InRange.decidable : (sizes : List Nat) → (indices : List Int) →
    Decidable (InRange sizes indices)
  | [], _ => isTrue trivial
  | _ :: _, [] => isFalse fun impossible => impossible
  | size :: sizes, idx :: indices =>
    have := InRange.decidable sizes indices
    inferInstanceAs (Decidable ((0 ≤ idx ∧ idx < intOfSize size) ∧ InRange sizes indices))

/-- The element a write is addressed to. -/
def elementOf (sizes : List Nat) (indices : List Int) : List Nat :=
  (indices.take sizes.length).map Int.toNat

theorem InRange.bounded {sizes : List Nat} {indices : List Int} (inRange : InRange sizes indices) :
    InBounds sizes (elementOf sizes indices) := by
  induction sizes generalizing indices with
  | nil => exact List.Forall₂.nil
  | cons size sizes ih =>
    cases indices with
    | nil => exact inRange.elim
    | cons idx indices =>
      exact List.Forall₂.cons (toNat_lt_of_asserted inRange.1) (ih inRange.2)

/-- What a level hands on to its entries: all other indices, or none to entries that are elements. -/
theorem InRange.handedOn {sizes : List Nat} {indices : List Int} (inRange : InRange sizes indices)
    (isOperational : Bool) (impl : ElementImpl Sample) :
    let handed := if (StatImpl.nested isOperational sizes impl).isStatArray then indices else []
    InRange sizes handed ∧ (sizes = [] → handed = []) ∧
      elementOf sizes handed = elementOf sizes indices := by
  cases sizes with
  | nil => exact ⟨trivial, fun _ => rfl, rfl⟩
  | cons size sizes => exact ⟨inRange, fun none => absurd none (List.cons_ne_nil _ _), rfl⟩

namespace StatImpl

/-- **A write reaches the element its indices denote**, and drops the others. -/
theorem write_nested (isOperational : Bool) {impl : ElementImpl Sample} {sizes : List Nat}
    (positive : ∀ size ∈ sizes, 0 < size) (accums : Accums Sample) (mem : Mem) (ptr : Nat)
    {indices : List Int} (inRange : InRange sizes indices) (plain : sizes = [] → indices = [])
    (value : Sample) :
    (nested isOperational sizes impl).write accums mem ptr indices value =
      (impl.write (accums (elementOf sizes indices)) mem
        (elementPtr impl.sharedSize sizes ptr (elementOf sizes indices)) [] value).map fun next =>
          (accums.setAt (elementOf sizes indices) next.1, next.2) := by
  induction sizes generalizing accums ptr indices with
  | nil =>
    obtain rfl := plain rfl
    have address : elementPtr impl.sharedSize [] ptr (elementOf [] []) = ptr := by
      unfold elementPtr
      rw [rank_nil, Nat.zero_mul, Nat.add_zero]
    rw [address]
    show (impl.write (accums []) mem ptr [] value).map _ = _
    congr 1
    funext next
    rw [Accums.setElement_eq]
    rfl
  | cons size sizes ih =>
    cases indices with
    | nil => exact inRange.elim
    | cons idx indices =>
      have rest := fun other member => positive other (List.mem_cons_of_mem size member)
      obtain ⟨asserted, below⟩ := inRange
      rw [nested_cons, write, if_pos asserted]
      obtain ⟨inRange', plain', sameElement⟩ := below.handedOn isOperational impl
      rw [ih rest _ _ inRange' plain', sameElement, Option.map_map,
        elementPtr_cons isOperational impl rest size]
      congr 1
      funext next
      rw [Function.comp_apply, Accums.setEntry_setAt]
      rfl

/-! ### Loops over all elements -/

/-- Visit all elements in order. -/
def visitElements (elementSize : Nat) (sizes : List Nat) (ptr : Nat)
    (visit : List Nat → Nat → Mem → Mem) (mem : Mem) : Mem :=
  (tuples sizes).foldl (fun mem idx => visit idx (elementPtr elementSize sizes ptr idx) mem) mem

/-- **Each element is left as its own visit alone leaves it**, when visits are local. -/
theorem visitElements_agreeOn {elementSize : Nat} {sizes idx : List Nat} (bounded : InBounds sizes idx)
    {visit : List Nat → Nat → Mem → Mem}
    (local' : ∀ idx ptr, LocalTo ptr elementSize (visit idx ptr)) (ptr : Nat) (mem : Mem) :
    AgreeOn (elementPtr elementSize sizes ptr idx) elementSize
      (visitElements elementSize sizes ptr visit mem)
      (visit idx (elementPtr elementSize sizes ptr idx) mem) := by
  have apart : (tuples sizes).Pairwise fun first second =>
      elementPtr elementSize sizes ptr first + elementSize ≤
          elementPtr elementSize sizes ptr second ∨
        elementPtr elementSize sizes ptr second + elementSize ≤
          elementPtr elementSize sizes ptr first := by
    apply (List.Pairwise.and_mem.mp (nodup_tuples sizes)).imp
    intro first second facts
    exact elementPtr_apart elementSize ptr (mem_tuples.mp facts.1) (mem_tuples.mp facts.2.1) facts.2.2
  exact LocalTo.foldl_agreeOn (fun other _ => local' other _) apart (mem_tuples.mpr bounded) mem

/-- The loop of one level, over loops of the levels below. -/
theorem visitElements_cons (isOperational : Bool) {impl : ElementImpl Sample} {sizes : List Nat}
    (positive : ∀ size ∈ sizes, 0 < size) (size ptr : Nat) (visit : List Nat → Nat → Mem → Mem)
    (mem : Mem) :
    visitElements impl.sharedSize (size :: sizes) ptr visit mem =
      (List.range size).foldl (fun mem i => visitElements impl.sharedSize sizes
        (ptr + i * (nested isOperational sizes impl).sharedSize) (fun idx => visit (i :: idx)) mem)
          mem := by
  rw [visitElements, tuples, List.foldl_flatMap]
  congr 1
  funext mem i
  rw [List.foldl_map, visitElements]
  simp only [elementPtr_cons isOperational impl positive size]

/-- **Serializing an array serializes all elements.** -/
theorem serialize_nested (isOperational : Bool) {impl : ElementImpl Sample} {sizes : List Nat}
    (positive : ∀ size ∈ sizes, 0 < size) (accums : Accums Sample) (mem : Mem) (ptr : Nat) :
    (nested isOperational sizes impl).serialize accums mem ptr =
      visitElements impl.sharedSize sizes ptr
        (fun idx ptr mem => impl.serialize (accums idx) mem ptr) mem := by
  induction sizes generalizing accums mem ptr with
  | nil =>
    rw [visitElements, tuples, List.foldl_cons, List.foldl_nil, elementPtr, rank_nil, Nat.zero_mul,
      Nat.add_zero]
    rfl
  | cons size sizes ih =>
    have rest := fun other member => positive other (List.mem_cons_of_mem size member)
    rw [nested_cons, serialize, visitElements_cons isOperational rest]
    simp only [ih rest]
    rfl

section Loops

variable {command : Nat → Mem → StatCmdOutput → Mem × StatCmdOutput} {step : Nat → Mem → Mem}

/-- What a loop does to the memory, when its passes do not depend on the output. -/
theorem commandEntries_mem (steps : ∀ i mem output, (command i mem output).1 = step i mem)
    (size : Nat) (mem : Mem) (output : StatCmdOutput) :
    (commandEntries command size mem output).1 =
      (List.range size).foldl (fun mem i => step i mem) mem := by
  induction size with
  | zero => rfl
  | succ size ih =>
    rw [commandEntries] at ih
    unfold commandEntries
    rw [List.range_succ, List.foldl_concat, List.foldl_concat, steps, ih]

theorem commandEmbedded_mem (steps : ∀ i mem output, (command i mem output).1 = step i mem)
    (size : Nat) (mem : Mem) (output : StatCmdOutput) :
    (commandEmbedded command size mem output).1 =
      (List.range size).foldl (fun mem i => step i mem) mem := by
  induction size with
  | zero => rfl
  | succ size ih =>
    rw [commandEmbedded] at ih
    unfold commandEmbedded
    rw [List.range_succ, List.foldl_concat, List.foldl_concat, ← ih]
    exact steps size _ _

end Loops

/-- `CLEAR_STAT`, on the shared memory. -/
def clear (impl : StatImpl Sample) (ptr : Nat) (mem : Mem) : Mem :=
  (impl.doStatCommand ptr .clearStat mem {}).1

/-- A clear of an array runs through the entries. -/
theorem clear_loop (size : Nat) (isOperational : Bool) {entry : StatImpl Sample} (ptr : Nat)
    (steps : ∀ ptr mem output, (entry.doStatCommand ptr .clearStat mem output).1 = entry.clear ptr mem)
    (mem : Mem) (output : StatCmdOutput) :
    ((statArray size isOperational entry).doStatCommand ptr .clearStat mem output).1 =
      (List.range size).foldl (fun mem i => entry.clear (ptr + i * entry.sharedSize) mem) mem := by
  have passes := fun i mem output => steps (ptr + i * entry.sharedSize) mem output
  have other : ¬ StatCmd.clearStat = .printStatType := by decide
  rw [doStatCommand, if_neg other]
  split
  · exact commandEmbedded_mem passes size mem _
  · exact commandEntries_mem passes size mem _

/-- What a clear does to the shared memory does not depend on the output so far. -/
theorem clear_eq (impl : StatImpl Sample) (ptr : Nat) (mem : Mem) (output : StatCmdOutput) :
    (impl.doStatCommand ptr .clearStat mem output).1 = impl.clear ptr mem := by
  induction impl generalizing ptr mem output with
  | element impl => exact impl.clear_eq ptr mem output
  | statArray size isOperational entry ih =>
    rw [clear, clear_loop size isOperational ptr ih, clear_loop size isOperational ptr ih]

theorem clear_statArray (size : Nat) (isOperational : Bool) (entry : StatImpl Sample) (ptr : Nat)
    (mem : Mem) :
    (statArray size isOperational entry).clear ptr mem =
      (List.range size).foldl (fun mem i => entry.clear (ptr + i * entry.sharedSize) mem) mem :=
  clear_loop size isOperational ptr entry.clear_eq mem {}

/-- **Clearing an array clears all elements.** -/
theorem clear_nested (isOperational : Bool) {impl : ElementImpl Sample} {sizes : List Nat}
    (positive : ∀ size ∈ sizes, 0 < size) (ptr : Nat) (mem : Mem) :
    (nested isOperational sizes impl).clear ptr mem =
      visitElements impl.sharedSize sizes ptr (fun _ => impl.clear) mem := by
  induction sizes generalizing ptr mem with
  | nil =>
    rw [visitElements, tuples, List.foldl_cons, List.foldl_nil, elementPtr, rank_nil, Nat.zero_mul,
      Nat.add_zero]
    rfl
  | cons size sizes ih =>
    have rest := fun other member => positive other (List.mem_cons_of_mem size member)
    rw [nested_cons, clear_statArray, visitElements_cons isOperational rest]
    simp only [ih rest]

/-! ### Dumps -/

section Loops

variable (command : Nat → Mem → StatCmdOutput → Mem × StatCmdOutput) {mem : Mem}
  {shown : Nat → List String} {inner : List Nat}
  (unchanged : ∀ i output, (command i mem output).1 = mem)
  (entries : ∀ i output, (command i mem output).2.entries = output.entries ++ shown i)
  (dimensions : ∀ i output,
    (command i mem output).2.dimensionSizes = output.dimensionSizes ++ inner)

include unchanged entries dimensions

/-- The loop over elements collects their entries. -/
theorem commandEntries_dump (plain : inner = []) (size : Nat) (output : StatCmdOutput) :
    (commandEntries command size mem output).1 = mem ∧
      (commandEntries command size mem output).2.entries =
        output.entries ++ (List.range size).flatMap shown ∧
      (commandEntries command size mem output).2.dimensionSizes = output.dimensionSizes := by
  induction size with
  | zero => exact ⟨rfl, (List.append_nil _).symm, rfl⟩
  | succ size ih =>
    rw [commandEntries] at ih
    obtain ⟨memory, collected, sizes⟩ := ih
    rw [commandEntries, List.range_succ, List.foldl_concat, memory, unchanged, entries, dimensions,
      collected, sizes, plain, List.append_nil, List.flatMap_append, List.flatMap_singleton,
      List.append_assoc]
    exact ⟨rfl, rfl, rfl⟩

/-- **The loop over embedded arrays, pass by pass.** Before the first pass the dimension sizes are
those of the levels above; behind a pass they are empty, and `dimSizes` holds all of them. -/
theorem foldl_embeddedPass (size : Nat) (output : StatCmdOutput) :
    let state := (List.range size).foldl (embeddedPass command)
      ((mem, output), output.dimensionSizes)
    state.1.1 = mem ∧
      state.1.2.entries = output.entries ++ (List.range size).flatMap shown ∧
      state.1.2.dimensionSizes = (if size = 0 then output.dimensionSizes else []) ∧
      state.2 = output.dimensionSizes ++ (if size = 0 then [] else inner) := by
  induction size with
  | zero => exact ⟨rfl, (List.append_nil _).symm, rfl, (List.append_nil _).symm⟩
  | succ size ih =>
    obtain ⟨memory, collected, cleared, kept⟩ := ih
    rw [List.range_succ, List.foldl_concat, embeddedPass]
    simp only [memory, unchanged, entries, dimensions, collected, cleared, kept,
      List.flatMap_append, List.flatMap_singleton, List.append_assoc, Nat.add_one_ne_zero, if_false]
    refine ⟨trivial, trivial, trivial, ?_⟩
    by_cases first : size = 0
    · rw [if_pos first, if_pos first]
    · rw [if_neg first, if_neg first]

end Loops

/-- The entries that `DUMP_STAT` adds to its output. -/
def shownEntries (ptr : Nat) (mem : Mem) : StatImpl Sample → List String
  | element impl => impl.shownEntries ptr mem
  | statArray size _ entry =>
    (List.range size).flatMap fun i => shownEntries (ptr + i * entry.sharedSize) mem entry

/-- The sizes it adds: behind an array without entries those of its levels below are missing. -/
def shownSizes : StatImpl Sample → List Nat
  | element _ => []
  | statArray size _ entry => size :: if size = 0 then [] else entry.shownSizes

/-- **A dump of any nesting** shows the elements in order. -/
theorem dump_eq (impl : StatImpl Sample) (ptr : Nat) (mem : Mem) (output : StatCmdOutput) :
    (impl.doStatCommand ptr .dumpStat mem output).2.entries =
        output.entries ++ impl.shownEntries ptr mem ∧
      (impl.doStatCommand ptr .dumpStat mem output).2.dimensionSizes =
        output.dimensionSizes ++ impl.shownSizes := by
  induction impl generalizing ptr output with
  | element impl =>
    rw [shownSizes, List.append_nil]
    exact ⟨impl.dump_entries ptr mem output, impl.dump_dimensionSizes ptr mem output⟩
  | statArray size isOperational entry ih =>
    let command := fun i mem output =>
      entry.doStatCommand (ptr + i * entry.sharedSize) .dumpStat mem output
    let pushed := { output with dimensionSizes := output.dimensionSizes ++ [size] }
    have unchanged : ∀ i output, (command i mem output).1 = mem :=
      fun i output => doStatCommand_unchanged (by decide) entry _ mem output
    have entries := fun i output => (ih (ptr + i * entry.sharedSize) output).1
    have sizes := fun i output => (ih (ptr + i * entry.sharedSize) output).2
    have other : ¬ StatCmd.dumpStat = .printStatType := by decide
    rw [doStatCommand, if_neg other, shownEntries, shownSizes]
    cases entry with
    | element impl =>
      obtain ⟨-, collected, kept⟩ :=
        commandEntries_dump command unchanged entries sizes rfl size pushed
      rw [shownSizes, ite_self]
      exact ⟨collected, kept⟩
    | statArray size' isOperational' entry =>
      obtain ⟨-, collected, -, kept⟩ :=
        foldl_embeddedPass command unchanged entries sizes size pushed
      rw [List.append_assoc] at kept
      exact ⟨collected, kept⟩

/-- The entries of all elements. -/
def elementEntries (impl : ElementImpl Sample) (sizes : List Nat) (ptr : Nat) (mem : Mem) :
    List String :=
  (tuples sizes).flatMap fun idx => impl.shownEntries (elementPtr impl.sharedSize sizes ptr idx) mem

/-- An array shows all of them, in order. -/
theorem shownEntries_nested (isOperational : Bool) (impl : ElementImpl Sample) {sizes : List Nat}
    (positive : ∀ size ∈ sizes, 0 < size) (ptr : Nat) (mem : Mem) :
    (nested isOperational sizes impl).shownEntries ptr mem = elementEntries impl sizes ptr mem := by
  induction sizes generalizing ptr with
  | nil =>
    rw [elementEntries, tuples, List.flatMap_singleton, elementPtr, rank_nil, Nat.zero_mul,
      Nat.add_zero]
    rfl
  | cons size sizes ih =>
    have rest := fun other member => positive other (List.mem_cons_of_mem size member)
    rw [nested_cons, shownEntries, elementEntries, tuples, List.flatMap_assoc]
    apply List.flatMap_congr
    intro i _
    rw [ih rest, List.flatMap_map, elementEntries]
    simp only [elementPtr_cons isOperational impl rest size]

theorem shownSizes_nested (isOperational : Bool) (impl : ElementImpl Sample) {sizes : List Nat}
    (positive : ∀ size ∈ sizes, 0 < size) : (nested isOperational sizes impl).shownSizes = sizes := by
  induction sizes with
  | nil => rfl
  | cons size sizes ih =>
    have first := positive size List.mem_cons_self
    rw [nested_cons, shownSizes, if_neg (Nat.ne_of_gt first),
      ih fun other member => positive other (List.mem_cons_of_mem _ member)]

/-- **A dump of an array** shows its elements in order and all sizes. -/
theorem dump_nested (isOperational : Bool) (impl : ElementImpl Sample) {sizes : List Nat}
    (positive : ∀ size ∈ sizes, 0 < size) (mem : Mem) (ptr : Nat) (output : StatCmdOutput) :
    ((nested isOperational sizes impl).doStatCommand ptr .dumpStat mem output).2.entries =
        output.entries ++ elementEntries impl sizes ptr mem ∧
      ((nested isOperational sizes impl).doStatCommand ptr .dumpStat mem output).2.dimensionSizes =
        output.dimensionSizes ++ sizes := by
  have dumped := dump_eq (nested isOperational sizes impl) ptr mem output
  rw [shownEntries_nested isOperational impl positive,
    shownSizes_nested isOperational impl positive] at dumped
  exact dumped

end StatImpl

end StatLog.Stats
