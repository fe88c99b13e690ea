/-
**What a clear leaves behind.**

A counter and a status are set to zero; an accumulator is marked by its control word, and shown as
zeros for as long as the mark stays. Passes of the serializer rewrite the values below the mark and
leave the mark alone. An array is cleared entry by entry.

* `StatType.Cleared`: the zero or the mark, in every element at every depth.
* `clear_local`, `serialize_local`: clears and serializer passes are local to the stat.
* `cleared_clear`, `Cleared.serialize`: a clear establishes `Cleared` and serializer passes keep it.
* **`Cleared.shownEntries`**: a cleared stat shows zeros.
* `StatImpl.dump_local`: a dump reads the stat's own bytes only.
-/

import StatLog.Stats.ArrayAccess

namespace StatLog.Stats

open ByteMemory

variable {Sample : Type}

/-! ### Cleared stats -/

/-- The bytes of a stat, the same in both processes. -/
def StatType.sharedSize (type : StatType Sample) : Nat := (statTypeToImpl false type).sharedSize

/-- The element is zero, or marked. -/
def ElementType.Cleared (ptr : Nat) (mem : Mem) : ElementType Sample → Prop
  | simpleStat stat => stat.value mem ptr = stat.repr.ofInt 0
  | nullStat => True
  | accumulator features => controlWord features mem ptr ≠ 0

/-- **Every element is zero, or marked.** -/
def StatType.Cleared (ptr : Nat) (mem : Mem) : StatType Sample → Prop
  | element type => type.Cleared ptr mem
  | statArray size entry => ∀ i < size, entry.Cleared (ptr + i * entry.sharedSize) mem

/-- The text of a zero; an accumulator has one for each feature. -/
def ElementType.zeroEntries : ElementType Sample → List String
  | simpleStat _ => ["0"]
  | nullStat => []
  | accumulator features => [shownZero features (AccumControl.entryFormat features)]

/-- **The entries of a stat that shows zeros.** -/
def StatType.zeroEntries : StatType Sample → List String
  | element type => type.zeroEntries
  | statArray size entry => (List.range size).flatMap fun _ => entry.zeroEntries

/-- The type's zero is zero. -/
def Representation.ShowsZero (repr : Representation) : Prop := repr.toUnsignedLong (repr.ofInt 0) = 0

def ElementType.ShowsZero : ElementType Sample → Prop
  | simpleStat stat => stat.repr.ShowsZero
  | _ => True

/-- The types of all simple stats have a zero. -/
def StatType.ShowsZero : StatType Sample → Prop
  | element type => type.ShowsZero
  | statArray _ entry => entry.ShowsZero

theorem StatType.sharedSize_statArray (size : Nat) (entry : StatType Sample) :
    (StatType.statArray size entry).sharedSize = sizeofArray size entry.sharedSize := by
  unfold StatType.sharedSize
  rw [statTypeToImpl_statArray]
  rfl

/-- Both processes use them. -/
theorem StatType.sharedSize_impl (type : StatType Sample) (isOperational : Bool) :
    (statTypeToImpl isOperational type).sharedSize = type.sharedSize :=
  sharedSize_statTypeToImpl isOperational type

/-! ### Loops over the entries -/

/-- The entries of an array do not overlap. -/
theorem entries_apart (ptr entrySize size : Nat) :
    (List.range size).Pairwise fun first second =>
      ptr + first * entrySize + entrySize ≤ ptr + second * entrySize ∨
        ptr + second * entrySize + entrySize ≤ ptr + first * entrySize := by
  apply List.pairwise_lt_range.imp
  intro first second less
  exact Or.inl (entry_end_le_entry ptr entrySize less)

section Loops

variable {step : Nat → Mem → Mem} {ptr entrySize size : Nat}

/-- **A loop of local steps is local to the array.** -/
theorem loop_local (steps : ∀ i, LocalTo (ptr + i * entrySize) entrySize (step i)) :
    LocalTo ptr (sizeofArray size entrySize)
      fun mem => (List.range size).foldl (fun mem i => step i mem) mem := by
  apply LocalTo.foldl
  intro i member
  have inside := entry_end_le entrySize (List.mem_range.mp member)
  exact (steps i).mono (Nat.le_add_right _ _) (by omega)

/-- **It leaves every entry as that entry's own step does.** -/
theorem loop_agreeOn (steps : ∀ i, LocalTo (ptr + i * entrySize) entrySize (step i)) {i : Nat}
    (inside : i < size) (mem : Mem) :
    AgreeOn (ptr + i * entrySize) entrySize
      ((List.range size).foldl (fun mem i => step i mem) mem) (step i mem) :=
  LocalTo.foldl_agreeOn (fun i _ => steps i) (entries_apart ptr entrySize size)
    (List.mem_range.mpr inside) mem

end Loops

/-! ### Clears and serializer passes -/

namespace StatImpl

/-- **A clear is local to its stat.** -/
theorem clear_local (impl : StatImpl Sample) (ptr : Nat) :
    LocalTo ptr impl.sharedSize (impl.clear ptr) := by
  induction impl generalizing ptr with
  | element impl => exact impl.clear_local ptr
  | statArray size isOperational entry ih =>
    have same : (statArray size isOperational entry).clear ptr = fun mem =>
        (List.range size).foldl (fun mem i => entry.clear (ptr + i * entry.sharedSize) mem) mem := by
      funext mem
      exact clear_statArray size isOperational entry ptr mem
    rw [same]
    exact loop_local fun i => ih (ptr + i * entry.sharedSize)

/-- **A serializer pass is local to its stat.** -/
theorem serialize_local (impl : StatImpl Sample) (accums : Accums Sample) (ptr : Nat) :
    LocalTo ptr impl.sharedSize fun mem => impl.serialize accums mem ptr := by
  induction impl generalizing accums ptr with
  | element impl => exact impl.serialize_local (accums []) ptr
  | statArray size isOperational entry ih =>
    unfold serialize
    exact loop_local fun i => ih (accums.entry i) (ptr + i * entry.sharedSize)

end StatImpl

/-! ### The invariant -/

theorem ElementType.Cleared.congr {type : ElementType Sample} {ptr : Nat} {mem other : Mem}
    (cleared : type.Cleared ptr mem) (agree : AgreeOn ptr (type.toImpl false).sharedSize other mem) :
    type.Cleared ptr other := by
  cases type with
  | simpleStat stat => exact (Subtype.ext agree.read).trans cleared
  | nullStat => trivial
  | accumulator features =>
    show controlWord features other ptr ≠ 0
    rw [controlWord_congr features agree]
    exact cleared

namespace StatType

/-- It speaks about the bytes of the stat only. -/
theorem Cleared.congr {type : StatType Sample} {ptr : Nat} {mem other : Mem}
    (cleared : type.Cleared ptr mem) (agree : AgreeOn ptr type.sharedSize other mem) :
    type.Cleared ptr other := by
  induction type generalizing ptr with
  | element type => exact ElementType.Cleared.congr cleared agree
  | statArray size entry ih =>
    intro i inside
    have below := entry_end_le entry.sharedSize inside
    rw [sharedSize_statArray] at agree
    exact ih (cleared i inside) (agree.mono (Nat.le_add_right _ _) (by omega))

/-- **A serializer pass keeps it**: the features are stored in front of the mark. -/
theorem Cleared.serialize {type : StatType Sample} {ptr : Nat} {mem : Mem}
    (cleared : type.Cleared ptr mem) (accums : Accums Sample) :
    type.Cleared ptr ((statTypeToImpl true type).serialize accums mem ptr) := by
  induction type generalizing ptr mem accums with
  | element type =>
    cases type with
    | simpleStat stat => exact cleared
    | nullStat => trivial
    | accumulator features =>
      show controlWord features (AccumOp.serialize features (accums []) mem ptr) ptr ≠ 0
      rw [controlWord_serialize]
      exact cleared
  | statArray size entry ih =>
    intro i inside
    have size_eq := entry.sharedSize_impl true
    rw [statTypeToImpl_statArray, StatImpl.serialize, size_eq]
    have steps : ∀ i, LocalTo (ptr + i * entry.sharedSize) entry.sharedSize fun mem =>
        (statTypeToImpl true entry).serialize (accums.entry i) mem (ptr + i * entry.sharedSize) := by
      intro i
      have local' := (statTypeToImpl true entry).serialize_local (accums.entry i)
        (ptr + i * entry.sharedSize)
      rw [size_eq] at local'
      exact local'
    exact (ih (cleared i inside) (accums.entry i)).congr (loop_agreeOn steps inside mem)

end StatType

/-! ### Dumps -/

/-- **A cleared stat shows zeros.** -/
theorem StatType.Cleared.shownEntries {type : StatType Sample} (showsZero : type.ShowsZero) {ptr : Nat}
    {mem : Mem} (cleared : type.Cleared ptr mem) :
    (statTypeToImpl false type).shownEntries ptr mem = type.zeroEntries := by
  induction type generalizing ptr with
  | element type =>
    cases type with
    | simpleStat stat =>
      have zero : stat.repr.toUnsignedLong (stat.value mem ptr) = 0 :=
        (congrArg stat.repr.toUnsignedLong cleared).trans showsZero
      show [toString (stat.repr.toUnsignedLong (stat.value mem ptr))] = ["0"]
      rw [zero]
      rfl
    | nullStat => rfl
    | accumulator features =>
      have marked : ¬ controlWord features mem ptr = 0 := cleared
      show [AccumControl.dumpFeatures (AccumControl.entryFormat features)
        (controlWord features mem ptr = 0) mem features ptr] = _
      rw [decide_eq_false marked, AccumControl.dumpFeatures_invalid]
      rfl
  | statArray size entry ih =>
    rw [statTypeToImpl_statArray, StatImpl.shownEntries, zeroEntries]
    apply List.flatMap_congr
    intro i member
    exact ih showsZero (cleared i (List.mem_range.mp member))

/-! ### Locality of a dump -/

namespace StatImpl

section Loops

variable {command : Nat → Mem → StatCmdOutput → Mem × StatCmdOutput} {mem other : Mem} {size : Nat}
  (unchanged : ∀ i mem output, (command i mem output).1 = mem)
  (same : ∀ i < size, ∀ output, (command i mem output).2 = (command i other output).2)

include unchanged same

/-- Loops that show the same in two memories, entry by entry, show the same. -/
theorem commandEntries_congr (output : StatCmdOutput) :
    (commandEntries command size mem output).1 = mem ∧
      (commandEntries command size other output).1 = other ∧
      (commandEntries command size mem output).2 = (commandEntries command size other output).2 := by
  induction size with
  | zero => exact ⟨rfl, rfl, rfl⟩
  | succ size ih =>
    obtain ⟨first, second, outputs⟩ := ih fun i below => same i (Nat.lt_succ_of_lt below)
    have last := same size (Nat.lt_succ_self size)
    unfold commandEntries at first second outputs ⊢
    simp only [List.range_succ, List.foldl_concat, first, second, outputs, last, unchanged, and_self]

theorem foldl_embeddedPass_congr (output : StatCmdOutput) (dimSizes : List Nat) :
    let state := fun mem =>
      (List.range size).foldl (embeddedPass command) ((mem, output), dimSizes)
    (state mem).1.1 = mem ∧ (state other).1.1 = other ∧ (state mem).1.2 = (state other).1.2 ∧
      (state mem).2 = (state other).2 := by
  induction size with
  | zero => exact ⟨rfl, rfl, rfl, rfl⟩
  | succ size ih =>
    obtain ⟨first, second, outputs, sizes⟩ := ih fun i below => same i (Nat.lt_succ_of_lt below)
    have last := same size (Nat.lt_succ_self size)
    simp only [List.range_succ, List.foldl_concat, embeddedPass, first, second, outputs, sizes, last,
      unchanged, and_self]

end Loops

/-- **A dump shows the stat's own bytes only**, titles and sizes included. -/
theorem dump_local (impl : StatImpl Sample) {ptr : Nat} {mem other : Mem}
    (agree : AgreeOn ptr impl.sharedSize mem other) (output : StatCmdOutput) :
    (impl.doStatCommand ptr .dumpStat mem output).2 =
      (impl.doStatCommand ptr .dumpStat other output).2 := by
  induction impl generalizing ptr output with
  | element impl => exact ElementImpl.dump_local agree output
  | statArray size isOperational entry ih =>
    have unchanged : ∀ i mem output,
        (entry.doStatCommand (ptr + i * entry.sharedSize) .dumpStat mem output).1 = mem :=
      fun i mem output => doStatCommand_unchanged (by decide) entry _ mem output
    have same : ∀ i < size, ∀ output,
        (entry.doStatCommand (ptr + i * entry.sharedSize) .dumpStat mem output).2 =
          (entry.doStatCommand (ptr + i * entry.sharedSize) .dumpStat other output).2 := by
      intro i inside output
      have below := entry_end_le entry.sharedSize inside
      exact ih (agree.mono (Nat.le_add_right _ _) (by rw [sharedSize]; omega)) output
    have notPrint : ¬ StatCmd.dumpStat = .printStatType := by decide
    rw [doStatCommand, doStatCommand, if_neg notPrint, if_neg notPrint]
    split
    · obtain ⟨-, -, outputs, sizes⟩ := foldl_embeddedPass_congr unchanged same
        { output with dimensionSizes := output.dimensionSizes ++ [size] }
        (output.dimensionSizes ++ [size])
      simp only [commandEmbedded, outputs, sizes]
    · exact (commandEntries_congr unchanged same _).2.2

end StatImpl

end StatLog.Stats
