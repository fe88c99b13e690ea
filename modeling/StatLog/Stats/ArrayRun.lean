/-
**Operations on a nested array.**

Both processes work on one stat: the operational process writes and serializes, the control process
sends commands. An element of an array takes no part in what is addressed to the others.

* `StatType.step`: one operation on a stat at a given address.
* `addressedTo`: what an operation on an array is for one of its elements.
* `Mirrors`: an element of an array, and the same stat on its own at the element's address.
* **`run_nested`**: after any operations in range, an element is what a stat on its own is after those
  addressed to it.
-/

import StatLog.Lib.Transition
import StatLog.Stats.ArrayAccess

namespace StatLog.Stats

open ByteMemory MixedRadix Transition

variable {Sample : Type}

/-! ### Operations -/

/-- The accumulators of a stat in the operational process and the shared memory. -/
structure StatState (Sample : Type) where
  accums : Accums Sample
  mem : Mem

/-- One operation of either process. -/
inductive StatCall (Sample : Type)
  | write (indices : List Int) (value : Sample)
  | serialize
  | command (cmd : StatCmd)

namespace StatType

/-- **One operation** on the stat at `ptr`. -/
def step (type : StatType Sample) (ptr : Nat) (state : StatState Sample) :
    StatCall Sample → Option (StatState Sample)
  | .write indices value =>
    (OperationalStatProxy.writeVal type state.accums state.mem ptr indices value).map fun next =>
      ⟨next.1, next.2⟩
  | .serialize =>
    some { state with mem := OperationalStatProxy.serialize type state.accums state.mem ptr }
  | .command cmd =>
    some { state with mem := (ControlStatProxy.doCommand type ptr cmd state.mem {}).1 }

/-- The output of `DUMP_STAT`. -/
def dump (type : StatType Sample) (ptr : Nat) (state : StatState Sample) : StatCmdOutput :=
  (ControlStatProxy.doCommand type ptr .dumpStat state.mem {}).2

end StatType

/-- Accumulators that were given no samples. -/
def StatState.initial (mem : Mem) : StatState Sample := ⟨fun _ => [], mem⟩

/-- Writes are in range. -/
def StatCall.Allowed (sizes : List Nat) : StatCall Sample → Prop
  | .write indices _ => InRange sizes indices
  | _ => True

instance (sizes : List Nat) (call : StatCall Sample) : Decidable (call.Allowed sizes) :=
  match call with
  | .write indices _ => inferInstanceAs (Decidable (InRange sizes indices))
  | .serialize => isTrue trivial
  | .command _ => isTrue trivial

/-- What an operation on an array is for one of its elements: a write is addressed to one element,
everything else to all. -/
def addressedTo (sizes idx : List Nat) : StatCall Sample → Option (StatCall Sample)
  | .write indices value => if elementOf sizes indices = idx then some (.write [] value) else none
  | .serialize => some .serialize
  | .command cmd => some (.command cmd)

/-- The size of an element in shared memory. -/
def ElementType.sharedSize (element : ElementType Sample) : Nat := (element.toImpl false).sharedSize

/-! ### An element and its mirror -/

/-- **An element of an array** holds what the same stat holds on its own at the same address. -/
structure Mirrors (sizes : List Nat) (element : ElementType Sample) (ptr : Nat) (idx : List Nat)
    (whole part : StatState Sample) : Prop where
  accums : whole.accums idx = part.accums []
  mem : AgreeOn (StatImpl.elementPtr element.sharedSize sizes ptr idx) element.sharedSize
    whole.mem part.mem

section

variable {sizes : List Nat} {element : ElementType Sample} {ptr : Nat} {idx : List Nat}
  {whole part : StatState Sample}

theorem ElementType.exists_write (element : ElementType Sample) (acc : List Sample) (mem : Mem)
    (ptr : Nat) (value : Sample) :
    ∃ next, (element.toImpl true).write acc mem ptr [] value = some next := by
  cases element with
  | simpleStat stat => exact ⟨_, rfl⟩
  | nullStat => exact ⟨_, rfl⟩
  | accumulator features => exact ⟨_, rfl⟩

theorem ElementType.sharedSize_eq (element : ElementType Sample) (isOperational : Bool) :
    (element.toImpl isOperational).sharedSize = element.sharedSize :=
  element.sharedSize_toImpl isOperational

/-- A write to an array in terms of its elements. -/
theorem writeVal_nested (some' : sizes ≠ []) (positive : ∀ size ∈ sizes, 0 < size)
    (accums : Accums Sample) (mem : Mem) {indices : List Int} (inRange : InRange sizes indices)
    (value : Sample) :
    OperationalStatProxy.writeVal (.nested sizes element) accums mem ptr indices value =
      ((element.toImpl true).write (accums (elementOf sizes indices)) mem
        (StatImpl.elementPtr element.sharedSize sizes ptr (elementOf sizes indices)) [] value).map
          fun next => (accums.setAt (elementOf sizes indices) next.1, next.2) := by
  unfold OperationalStatProxy.writeVal
  rw [statTypeToImpl_nested, ← element.sharedSize_eq true]
  exact StatImpl.write_nested true positive accums mem ptr inRange (fun none => absurd none some') value

/-- A write to the element itself. -/
theorem Mirrors.write (mirrors : Mirrors sizes element ptr idx whole part)
    (some' : sizes ≠ []) (positive : ∀ size ∈ sizes, 0 < size) {indices : List Int}
    (inRange : InRange sizes indices) (addressed : elementOf sizes indices = idx) (value : Sample) :
    ∃ next nextPart, (StatType.nested sizes element).step ptr whole (.write indices value) = some next ∧
      (StatType.element element).step (StatImpl.elementPtr element.sharedSize sizes ptr idx) part
        (.write [] value) = some nextPart ∧ Mirrors sizes element ptr idx next nextPart := by
  obtain ⟨written, writes⟩ := element.exists_write (whole.accums idx) whole.mem
    (StatImpl.elementPtr element.sharedSize sizes ptr idx) value
  have agree : AgreeOn (StatImpl.elementPtr element.sharedSize sizes ptr idx)
      (element.toImpl true).sharedSize whole.mem part.mem := by
    rw [element.sharedSize_eq]
    exact mirrors.mem
  obtain ⟨written', writes', sameAcc, sameMem⟩ := ElementImpl.write_local _ _ _ agree writes
  rw [element.sharedSize_eq] at sameMem
  rw [mirrors.accums] at writes'
  refine ⟨⟨whole.accums.setAt idx written.1, written.2⟩,
    ⟨part.accums.setElement written'.1, written'.2⟩, ?_, ?_, ?_, sameMem⟩
  · rw [StatType.step, writeVal_nested some' positive _ _ inRange, addressed, writes]
    rfl
  · show ((((element.toImpl true).write (part.accums []) part.mem _ [] value).map _).map _) = _
    rw [writes']
    rfl
  · show (if idx = idx then written.1 else whole.accums idx) = written'.1
    rw [if_pos rfl, sameAcc]

/-- A write to another element. -/
theorem Mirrors.write_other (mirrors : Mirrors sizes element ptr idx whole part)
    (some' : sizes ≠ []) (positive : ∀ size ∈ sizes, 0 < size) (bounded : InBounds sizes idx)
    {indices : List Int} (inRange : InRange sizes indices) (other : elementOf sizes indices ≠ idx)
    (value : Sample) :
    ∃ next, (StatType.nested sizes element).step ptr whole (.write indices value) = some next ∧
      Mirrors sizes element ptr idx next part := by
  obtain ⟨written, writes⟩ := element.exists_write (whole.accums (elementOf sizes indices)) whole.mem
    (StatImpl.elementPtr element.sharedSize sizes ptr (elementOf sizes indices)) value
  refine ⟨⟨whole.accums.setAt (elementOf sizes indices) written.1, written.2⟩, ?_, ?_, ?_⟩
  · rw [StatType.step, writeVal_nested some' positive _ _ inRange, writes]
    rfl
  · show (if idx = elementOf sizes indices then written.1 else whole.accums idx) = part.accums []
    rw [if_neg (Ne.symm other)]
    exact mirrors.accums
  · have frame := ElementImpl.write_unchangedOutside writes
    rw [element.sharedSize_eq] at frame
    have apart := StatImpl.elementPtr_apart element.sharedSize ptr bounded inRange.bounded
      (Ne.symm other)
    exact (AgreeOn.of_unchangedOutside frame apart).trans mirrors.mem

/-- A serializer pass. -/
theorem Mirrors.serialize (mirrors : Mirrors sizes element ptr idx whole part)
    (positive : ∀ size ∈ sizes, 0 < size) (bounded : InBounds sizes idx) :
    ∃ next nextPart, (StatType.nested sizes element).step ptr whole .serialize = some next ∧
      (StatType.element element).step (StatImpl.elementPtr element.sharedSize sizes ptr idx) part
        .serialize = some nextPart ∧ Mirrors sizes element ptr idx next nextPart := by
  refine ⟨_, _, rfl, rfl, mirrors.accums, ?_⟩
  simp only [OperationalStatProxy.serialize]
  by_cases deferred : (StatType.element element).isSerializationDeferred = true
  · rw [if_pos ((isSerializationDeferred_nested sizes element).trans deferred), if_pos deferred]
    have local' : ∀ idx ptr, LocalTo ptr element.sharedSize fun mem =>
        (element.toImpl true).serialize (whole.accums idx) mem ptr := by
      intro idx ptr
      rw [← element.sharedSize_eq true]
      exact ElementImpl.serialize_local _ _ _
    rw [statTypeToImpl_nested, StatImpl.serialize_nested true positive, element.sharedSize_eq]
    apply (StatImpl.visitElements_agreeOn bounded local' ptr whole.mem).trans
    apply ((local' idx _).inside _ _ mirrors.mem).trans
    rw [mirrors.accums]
    exact AgreeOn.refl _ _ _
  · have array : ¬ (StatType.nested sizes element).isSerializationDeferred = true := by
      rw [isSerializationDeferred_nested]
      exact deferred
    rw [if_neg array, if_neg deferred]
    exact mirrors.mem

/-- A command of the control process. -/
theorem Mirrors.command (mirrors : Mirrors sizes element ptr idx whole part)
    (positive : ∀ size ∈ sizes, 0 < size) (bounded : InBounds sizes idx) (cmd : StatCmd) :
    ∃ next nextPart, (StatType.nested sizes element).step ptr whole (.command cmd) = some next ∧
      (StatType.element element).step (StatImpl.elementPtr element.sharedSize sizes ptr idx) part
        (.command cmd) = some nextPart ∧ Mirrors sizes element ptr idx next nextPart := by
  refine ⟨_, _, rfl, rfl, mirrors.accums, ?_⟩
  simp only [ControlStatProxy.doCommand]
  split
  · by_cases clear : cmd = .clearStat
    · subst clear
      have local' : ∀ (idx : List Nat) ptr, LocalTo ptr element.sharedSize
          ((element.toImpl false).clear ptr) := fun _ ptr => ElementImpl.clear_local _ ptr
      rw [statTypeToImpl_nested, StatImpl.clear_eq, StatImpl.clear_nested false positive]
      apply (StatImpl.visitElements_agreeOn bounded local' ptr whole.mem).trans
      exact (local' idx _).inside _ _ mirrors.mem
    · rw [StatImpl.doStatCommand_unchanged clear, StatImpl.doStatCommand_unchanged clear]
      exact mirrors.mem
  · exact mirrors.mem

/-- **An element is what a stat on its own is**, after the operations addressed to it. -/
theorem run_nested (element : ElementType Sample) (ptr : Nat) (some' : sizes ≠ [])
    (positive : ∀ size ∈ sizes, 0 < size)
    (bounded : InBounds sizes idx) (mem : Mem) {calls : List (StatCall Sample)}
    (allowed : ∀ call ∈ calls, call.Allowed sizes) :
    ∃ whole part, run ((StatType.nested sizes element).step ptr) (.initial mem) calls = some whole ∧
      run ((StatType.element element).step (StatImpl.elementPtr element.sharedSize sizes ptr idx))
        (.initial mem) (calls.filterMap (addressedTo sizes idx)) = some part ∧
      Mirrors sizes element ptr idx whole part := by
  refine run_project (Mirrors sizes element ptr idx) ?_ ?_ ⟨rfl, AgreeOn.refl _ _ _⟩ allowed
  · intro whole part call inRange mirrors unseen
    cases call with
    | write indices value =>
      have other : elementOf sizes indices ≠ idx := by
        intro same
        rw [addressedTo, if_pos same] at unseen
        cases unseen
      exact mirrors.write_other some' positive bounded inRange other value
    | serialize => cases unseen
    | command cmd => cases unseen
  · intro whole part call call' inRange mirrors seen
    cases call with
    | write indices value =>
      by_cases addressed : elementOf sizes indices = idx
      · rw [addressedTo, if_pos addressed] at seen
        cases seen
        exact mirrors.write some' positive inRange addressed value
      · rw [addressedTo, if_neg addressed] at seen
        cases seen
    | serialize =>
      cases seen
      exact mirrors.serialize positive bounded
    | command cmd =>
      cases seen
      exact mirrors.command positive bounded cmd

/-! ### Dumps -/

/-- **A dump of an array** shows each element at its place. -/
theorem dump_nested (element : ElementType Sample) (ptr : Nat)
    (positive : ∀ size ∈ sizes, 0 < size) (state : StatState Sample) :
    ((StatType.nested sizes element).dump ptr state).dimensionSizes = sizes ∧
      ((StatType.nested sizes element).dump ptr state).entries =
        (tuples sizes).flatMap fun idx => (element.toImpl false).shownEntries
          (StatImpl.elementPtr element.sharedSize sizes ptr idx) state.mem := by
  obtain ⟨entries, dimensions⟩ := StatImpl.dump_nested false (element.toImpl false) positive
    state.mem ptr {}
  rw [← statTypeToImpl_nested] at entries dimensions
  exact ⟨dimensions, entries⟩

/-- An element shows what its mirror shows. -/
theorem Mirrors.shownEntries (mirrors : Mirrors sizes element ptr idx whole part) :
    (element.toImpl false).shownEntries (StatImpl.elementPtr element.sharedSize sizes ptr idx)
        whole.mem =
      ((StatType.element element).dump (StatImpl.elementPtr element.sharedSize sizes ptr idx)
        part).entries :=
  ElementImpl.shownEntries_local mirrors.mem

end

end StatLog.Stats
