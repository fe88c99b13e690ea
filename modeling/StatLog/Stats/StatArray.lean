/-
**Stat arrays and stat types.**

The type a tag is given is turned into one implementation for the operational process and one for the
control process. Both see the shared memory at the same address.

* `StatType`, `StatImpl`, `statTypeToImpl`: the types a user writes, and what stands for them in either
  process. The source takes nested arrays two levels at a time; `statTypeToImpl_statArray` says that
  one level at a time comes to the same.
* `StatImpl.write`, `StatImpl.serialize`, `StatImpl.doStatCommand`: the source's functions.
* `sharedSize_statTypeToImpl`: both processes use the same number of bytes.
* **`write_unchangedOutside`, `serialize_unchangedOutside`, `doStatCommand_unchangedOutside`**: no
  operation changes a byte outside them.
-/

import StatLog.Stats.Element

namespace StatLog.Stats

open ByteMemory

variable {Sample : Type}

/-! ### Types and implementations -/

/-- **A stat type**, as a user writes it. -/
inductive StatType (Sample : Type)
  | element (type : ElementType Sample)
  | statArray (size : Nat) (entry : StatType Sample)

/-- **An implementation**: the `StatArrayImpl` of an array holds its `stat_type`, which is again the
implementation of one process. -/
inductive StatImpl (Sample : Type)
  | element (impl : ElementImpl Sample)
  | statArray (size : Nat) (isOperational : Bool) (entry : StatImpl Sample)

/-- `stat_type_to_impl`, one specialisation each for an array of arrays and for any other array. -/
def statTypeToImpl (isOperational : Bool) : StatType Sample → StatImpl Sample
  | .element type => .element (type.toImpl isOperational)
  | .statArray size (.statArray size' entry) =>
    .statArray size isOperational
      (.statArray size' isOperational (statTypeToImpl isOperational entry))
  | .statArray size (.element type) =>
    .statArray size isOperational (.element (type.toImpl isOperational))

/-- An array is deferred when its entries are. -/
def StatType.isSerializationDeferred : StatType Sample → Bool
  | element type => type.isSerializationDeferred
  | statArray _ entry => entry.isSerializationDeferred

/-- **Two levels at a time come to the same as one.** -/
theorem statTypeToImpl_statArray (isOperational : Bool) (size : Nat) (entry : StatType Sample) :
    statTypeToImpl isOperational (.statArray size entry) =
      .statArray size isOperational (statTypeToImpl isOperational entry) := by
  induction entry generalizing size with
  | element type => rfl
  | statArray size' entry ih => rw [statTypeToImpl, ih size']

/-- The conversion `(int)Size` to 32 bits. -/
def intOfSize (size : Nat) : Int := (size : Int).bmod (2 ^ 32)

/-- `sizeof` of a `std::array`; without elements its size is one. -/
def sizeofArray (count size : Nat) : Nat := if count = 0 then 1 else count * size

/-- The samples of every accumulator of a stat, by the indices that lead to it. -/
abbrev Accums (Sample : Type) := List Nat → List Sample

namespace Accums

/-- The accumulators of `statEntries[idx]`. -/
def entry (accums : Accums Sample) (idx : Nat) : Accums Sample := fun path => accums (idx :: path)

/-- With other accumulators in `statEntries[idx]`. -/
def setEntry (accums : Accums Sample) (idx : Nat) (next : Accums Sample) : Accums Sample
  | [] => accums []
  | head :: path => if head = idx then next path else accums (head :: path)

/-- With other samples in the accumulator of a stat that is no array. -/
def setElement (accums : Accums Sample) (acc : List Sample) : Accums Sample
  | [] => acc
  | head :: path => accums (head :: path)

end Accums

namespace StatImpl

def isStatArray : StatImpl Sample → Bool
  | element _ => false
  | statArray _ _ _ => true

/-- `sizeof(shared_type)`. -/
def sharedSize : StatImpl Sample → Nat
  | element impl => impl.sharedSize
  | statArray size _ entry => sizeofArray size entry.sharedSize

/-- **`write(ptr, i1, ..., ik, value)`**, on the accumulators and the shared memory; nothing when an
assertion fails or the call does not compile. An array of arrays hands the other indices on; any
other array drops them in `write_idx`. -/
def write (accums : Accums Sample) (mem : Mem) (ptr : Nat) (indices : List Int) (value : Sample) :
    StatImpl Sample → Option (Accums Sample × Mem)
  | element impl =>
    (impl.write (accums []) mem ptr indices value).map fun next =>
      (accums.setElement next.1, next.2)
  | statArray size _ entry =>
    match indices with
    | [] => none
    | idx :: indices =>
      if 0 ≤ idx ∧ idx < intOfSize size then
        (write (accums.entry idx.toNat) mem (ptr + idx.toNat * entry.sharedSize)
          (if entry.isStatArray then indices else []) value entry).map fun next =>
            (accums.setEntry idx.toNat next.1, next.2)
      else none

/-- **`serialize`**, the same loop in both kinds of array. -/
def serialize (accums : Accums Sample) (mem : Mem) (ptr : Nat) : StatImpl Sample → Mem
  | element impl => impl.serialize (accums []) mem ptr
  | statArray size _ entry =>
    (List.range size).foldl
      (fun mem i => serialize (accums.entry i) mem (ptr + i * entry.sharedSize) entry) mem

/-- The loop over the entries of an array whose entries are no arrays. -/
def commandEntries (command : Nat → Mem → StatCmdOutput → Mem × StatCmdOutput) (size : Nat) (mem : Mem)
    (output : StatCmdOutput) : Mem × StatCmdOutput :=
  (List.range size).foldl (fun state i => command i state.1 state.2) (mem, output)

/-- One pass of the loop over embedded arrays; its state also holds `dimSizes`. -/
def embeddedPass (command : Nat → Mem → StatCmdOutput → Mem × StatCmdOutput)
    (state : (Mem × StatCmdOutput) × List Nat) (i : Nat) : (Mem × StatCmdOutput) × List Nat :=
  let next := command i state.1.1 state.1.2
  ((next.1, { next.2 with dimensionSizes := [] }),
    if i = 0 then next.2.dimensionSizes else state.2)

/-- The loop over embedded arrays. The dimension sizes are those after the first pass; they are
cleared after each one and restored behind the loop. -/
def commandEmbedded (command : Nat → Mem → StatCmdOutput → Mem × StatCmdOutput) (size : Nat)
    (mem : Mem) (output : StatCmdOutput) : Mem × StatCmdOutput :=
  let final := (List.range size).foldl (embeddedPass command) ((mem, output), output.dimensionSizes)
  (final.1.1, { final.1.2 with dimensionSizes := final.2 })

/-- **`doStatCommand`**. -/
def doStatCommand (ptr : Nat) (cmd : StatCmd) (mem : Mem) (output : StatCmdOutput) :
    StatImpl Sample → Mem × StatCmdOutput
  | element impl => impl.doStatCommand ptr cmd mem output
  | statArray size _ entry =>
    let pushed := { output with dimensionSizes := output.dimensionSizes ++ [size] }
    if cmd = .printStatType then
      let next := doStatCommand ptr cmd mem pushed entry
      (next.1, { next.2 with
        entryTitle := "STAT_ARRAY [" ++ next.2.entryTitle ++ "] size = " ++ toString size })
    else
      let command := fun i mem output =>
        doStatCommand (ptr + i * entry.sharedSize) cmd mem output entry
      if entry.isStatArray then commandEmbedded command size mem pushed
      else commandEntries command size mem pushed

end StatImpl

/-! ### The proxies -/

/-- `OperationalStatProxy::writeVal`. -/
def OperationalStatProxy.writeVal (type : StatType Sample) (accums : Accums Sample) (mem : Mem)
    (ptr : Nat) (indices : List Int) (value : Sample) : Option (Accums Sample × Mem) :=
  (statTypeToImpl true type).write accums mem ptr indices value

/-- `OperationalStatProxy::serialize`: nothing happens for a type that is not deferred. -/
def OperationalStatProxy.serialize (type : StatType Sample) (accums : Accums Sample) (mem : Mem)
    (ptr : Nat) : Mem :=
  if type.isSerializationDeferred then (statTypeToImpl true type).serialize accums mem ptr else mem

/-- `ControlStatProxy::doCommand`. -/
def ControlStatProxy.doCommand (type : StatType Sample) (ptr : Nat) (cmd : StatCmd) (mem : Mem)
    (output : StatCmdOutput) : Mem × StatCmdOutput :=
  if isStatisticCommand cmd then (statTypeToImpl false type).doStatCommand ptr cmd mem output
  else (mem, output)

/-! ### The shared memory of a stat -/

/-- **Both processes use the same number of bytes.** -/
theorem sharedSize_statTypeToImpl (isOperational : Bool) (type : StatType Sample) :
    (statTypeToImpl isOperational type).sharedSize = (statTypeToImpl false type).sharedSize := by
  induction type with
  | element type => exact type.sharedSize_toImpl isOperational
  | statArray size entry ih =>
    rw [statTypeToImpl_statArray, statTypeToImpl_statArray, StatImpl.sharedSize, StatImpl.sharedSize,
      ih]

/-- An entry ends inside its array. -/
theorem entry_end_le (entrySize : Nat) {size idx : Nat} (inside : idx < size) :
    idx * entrySize + entrySize ≤ sizeofArray size entrySize := by
  unfold sizeofArray
  rw [if_neg (by omega), ← Nat.succ_mul]
  exact Nat.mul_le_mul_right entrySize inside

/-- An entry ends before the later ones begin. -/
theorem entry_end_le_entry (ptr entrySize : Nat) {first second : Nat} (less : first < second) :
    ptr + first * entrySize + entrySize ≤ ptr + second * entrySize := by
  have := Nat.mul_le_mul_right entrySize (Nat.succ_le_of_lt less)
  rw [Nat.succ_mul] at this
  omega

theorem intOfSize_le (size : Nat) : intOfSize size ≤ size := by
  unfold intOfSize
  rw [Int.bmod_def]
  split <;> omega

/-- Small sizes are kept. -/
theorem intOfSize_of_lt {size : Nat} (small : size < 2 ^ 31) : intOfSize size = size := by
  unfold intOfSize
  rw [Int.bmod_def]
  split <;> omega

/-- What the assertion of `write` lets through. -/
theorem toNat_lt_of_asserted {size : Nat} {idx : Int} (asserted : 0 ≤ idx ∧ idx < intOfSize size) :
    idx.toNat < size := by
  have := intOfSize_le size
  omega

/-! ### Frames -/

namespace StatImpl

/-- **A write changes bytes of its own stat only.** -/
theorem write_unchangedOutside {impl : StatImpl Sample} {accums : Accums Sample} {mem : Mem}
    {ptr : Nat} {indices : List Int} {value : Sample} {next : Accums Sample × Mem}
    (written : impl.write accums mem ptr indices value = some next) :
    UnchangedOutside ptr impl.sharedSize mem next.2 := by
  induction impl generalizing accums ptr indices next with
  | element impl =>
    obtain ⟨inner, writtenInner, rfl⟩ := Option.map_eq_some_iff.mp written
    exact ElementImpl.write_unchangedOutside writtenInner
  | statArray size isOperational entry ih =>
    cases indices with
    | nil => cases written
    | cons idx indices =>
      rw [write] at written
      split at written
      · rename_i asserted
        obtain ⟨inner, writtenInner, rfl⟩ := Option.map_eq_some_iff.mp written
        have below := entry_end_le entry.sharedSize (toNat_lt_of_asserted asserted)
        apply (ih writtenInner).mono (Nat.le_add_right _ _)
        rw [sharedSize]
        omega
      · cases written

/-- **A serializer pass changes bytes of its own stat only.** -/
theorem serialize_unchangedOutside (impl : StatImpl Sample) (accums : Accums Sample) (mem : Mem)
    (ptr : Nat) : UnchangedOutside ptr impl.sharedSize mem (impl.serialize accums mem ptr) := by
  induction impl generalizing accums mem ptr with
  | element impl => exact ElementImpl.serialize_unchangedOutside _ mem ptr
  | statArray size isOperational entry ih =>
    unfold serialize
    refine UnchangedOutside.foldl (fun i member mem => ?_) mem
    have below := entry_end_le entry.sharedSize (List.mem_range.mp member)
    apply (ih (accums.entry i) mem (ptr + i * entry.sharedSize)).mono (Nat.le_add_right _ _)
    rw [sharedSize]
    omega

section Loops

variable {command : Nat → Mem → StatCmdOutput → Mem × StatCmdOutput} {start bytes : Nat}

theorem commandEntries_unchangedOutside {size : Nat}
    (commands : ∀ i < size, ∀ mem output, UnchangedOutside start bytes mem (command i mem output).1)
    (mem : Mem) (output : StatCmdOutput) :
    UnchangedOutside start bytes mem (commandEntries command size mem output).1 := by
  induction size with
  | zero => exact UnchangedOutside.refl _ _ _
  | succ size ih =>
    have earlier := ih fun i below => commands i (Nat.lt_succ_of_lt below)
    unfold commandEntries
    rw [List.range_succ, List.foldl_concat]
    exact earlier.trans (commands size (Nat.lt_succ_self size) _ _)

theorem commandEmbedded_unchangedOutside {size : Nat}
    (commands : ∀ i < size, ∀ mem output, UnchangedOutside start bytes mem (command i mem output).1)
    (mem : Mem) (output : StatCmdOutput) :
    UnchangedOutside start bytes mem (commandEmbedded command size mem output).1 := by
  induction size with
  | zero => exact UnchangedOutside.refl _ _ _
  | succ size ih =>
    have earlier := ih fun i below => commands i (Nat.lt_succ_of_lt below)
    unfold commandEmbedded
    rw [List.range_succ, List.foldl_concat]
    exact earlier.trans (commands size (Nat.lt_succ_self size) _ _)

end Loops

/-- Only a clear changes the shared memory. -/
theorem doStatCommand_unchanged {cmd : StatCmd} (other : cmd ≠ .clearStat) (impl : StatImpl Sample)
    (ptr : Nat) (mem : Mem) (output : StatCmdOutput) :
    (impl.doStatCommand ptr cmd mem output).1 = mem := by
  -- No byte lies inside a region of size zero.
  suffices nowhere : UnchangedOutside 0 0 mem (impl.doStatCommand ptr cmd mem output).1 by
    funext address
    exact nowhere address (Or.inr (Nat.zero_le _))
  induction impl generalizing ptr mem output with
  | element impl =>
    unfold doStatCommand
    rw [ElementImpl.doStatCommand_unchanged other]
    exact UnchangedOutside.refl _ _ _
  | statArray size isOperational entry ih =>
    unfold doStatCommand
    split
    · exact ih ptr mem _
    · split
      · exact commandEmbedded_unchangedOutside (fun i _ => ih (ptr + i * entry.sharedSize)) mem _
      · exact commandEntries_unchangedOutside (fun i _ => ih (ptr + i * entry.sharedSize)) mem _

/-- **A command changes bytes of its own stat only.** -/
theorem doStatCommand_unchangedOutside (impl : StatImpl Sample) (ptr : Nat) (cmd : StatCmd)
    (mem : Mem) (output : StatCmdOutput) :
    UnchangedOutside ptr impl.sharedSize mem (impl.doStatCommand ptr cmd mem output).1 := by
  by_cases clear : cmd = .clearStat
  · induction impl generalizing ptr mem output with
    | element impl => exact ElementImpl.doStatCommand_unchangedOutside ptr cmd mem output
    | statArray size isOperational entry ih =>
      have entries : ∀ i < size, ∀ mem output,
          UnchangedOutside ptr (sizeofArray size entry.sharedSize) mem
            (entry.doStatCommand (ptr + i * entry.sharedSize) cmd mem output).1 := by
        intro i below mem output
        have inside := entry_end_le entry.sharedSize below
        exact (ih _ mem output).mono (Nat.le_add_right _ _) (by omega)
      rw [doStatCommand, sharedSize, if_neg (by rw [clear]; decide)]
      split
      · exact commandEmbedded_unchangedOutside entries mem _
      · exact commandEntries_unchangedOutside entries mem _
  · rw [doStatCommand_unchanged clear]
    exact UnchangedOutside.refl _ _ _

end StatImpl

theorem OperationalStatProxy.serialize_unchangedOutside (type : StatType Sample)
    (accums : Accums Sample) (mem : Mem) (ptr : Nat) :
    UnchangedOutside ptr (statTypeToImpl true type).sharedSize mem
      (OperationalStatProxy.serialize type accums mem ptr) := by
  unfold OperationalStatProxy.serialize
  split
  · exact StatImpl.serialize_unchangedOutside _ accums mem ptr
  · exact UnchangedOutside.refl _ _ _

theorem ControlStatProxy.doCommand_unchangedOutside (type : StatType Sample) (ptr : Nat)
    (cmd : StatCmd) (mem : Mem) (output : StatCmdOutput) :
    UnchangedOutside ptr (statTypeToImpl false type).sharedSize mem
      (ControlStatProxy.doCommand type ptr cmd mem output).1 := by
  unfold ControlStatProxy.doCommand
  split
  · exact StatImpl.doStatCommand_unchangedOutside _ ptr cmd mem output
  · exact UnchangedOutside.refl _ _ _

end StatLog.Stats
