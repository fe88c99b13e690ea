/-
**Stats that are no arrays.**

A counter or a status is one value in shared memory, which either process reads and changes in place.
An accumulator is one in the operational process only. Both kinds may also be the entries of an array.

* `Representation`: the arithmetic type of a simple stat; `Representation.integer` is an integer type.
* `ElementType`, `ElementImpl`: the type a user writes and the class that stands for it in one of the
  processes, with the source's functions on the shared memory.
* **`write_unchangedOutside`, `serialize_unchangedOutside`, `doStatCommand_unchangedOutside`**: no
  operation changes a byte outside the element.
* **`write_local`, `serialize_local`, `clear_local`, `dump_local`**: no operation depends on
  one either.
-/

import Mathlib.Algebra.Group.Int.Defs
import StatLog.Lib.Region
import StatLog.Stats.Accumulator

namespace StatLog.Stats

open ByteMemory

variable {Sample : Type}

/-! ### Simple stats -/

/-- The object bytes of a value. -/
abbrev Bytes (size : Nat) := {bytes : List UInt8 // bytes.length = size}

/-- **The template argument `Repr`** of a simple stat: an arithmetic type, on its object bytes. -/
structure Representation where
  size : Nat
  /-- The conversion from `int`. -/
  ofInt : Int → Bytes size
  /-- `+=`. -/
  plus : Bytes size → Bytes size → Bytes size
  /-- The cast to `unsigned long int`. -/
  toUnsignedLong : Bytes size → Nat

/-- The value of an integer type with the given bytes. -/
def integerOfBytes (isSigned : Bool) (bytes : List UInt8) : Int :=
  if isSigned then (ofLE bytes : Int).bmod (256 ^ bytes.length) else ofLE bytes

/-- The bytes of an integer in a type of the given size. -/
def integerBytes (size : Nat) (value : Int) : Bytes size :=
  ⟨leBytes size (value % 256 ^ size).toNat, length_leBytes _ _⟩

/-- **An integer type**; sums wrap. -/
def Representation.integer (size : Nat) (isSigned : Bool) : Representation where
  size := size
  ofInt := integerBytes size
  plus first second :=
    integerBytes size (integerOfBytes isSigned first.1 + integerOfBytes isSigned second.1)
  toUnsignedLong bytes := (integerOfBytes isSigned bytes.1 % 2 ^ 64).toNat

inductive WritePolicy
  | increment
  | assign

/-- `WritePolicy::write`: the stored value after it. -/
def WritePolicy.write (repr : Representation) (stored value : Bytes repr.size) :
    WritePolicy → Bytes repr.size
  | increment => repr.plus stored value
  | assign => value

/-- **`SimpleStat`**, with the conversion of what callers pass to its `sample_type`. -/
structure SimpleStat (Sample : Type) where
  repr : Representation
  writePolicy : WritePolicy
  ofSample : Sample → Bytes repr.size

def simpleCounter (repr : Representation) (ofSample : Sample → Bytes repr.size) : SimpleStat Sample :=
  ⟨repr, .increment, ofSample⟩

def simpleStatus (repr : Representation) (ofSample : Sample → Bytes repr.size) : SimpleStat Sample :=
  ⟨repr, .assign, ofSample⟩

namespace SimpleStat

/-- `*ptr`. -/
def value (stat : SimpleStat Sample) (mem : Mem) (ptr : Nat) : Bytes stat.repr.size :=
  ⟨mem.read ptr stat.repr.size, Mem.length_read _ _ _⟩

def write (stat : SimpleStat Sample) (mem : Mem) (ptr : Nat) (value : Bytes stat.repr.size) : Mem :=
  mem.write ptr (stat.writePolicy.write stat.repr (stat.value mem ptr) value).1

def doStatCommand (stat : SimpleStat Sample) (ptr : Nat) (cmd : StatCmd) (mem : Mem)
    (output : StatCmdOutput) : Mem × StatCmdOutput :=
  match cmd with
  | .dumpStat =>
    (mem, { output with
      entries := output.entries ++ [toString (stat.repr.toUnsignedLong (stat.value mem ptr))] })
  | .printStatType => (mem, { output with entryTitle := "Simple Stat" })
  | .clearStat => (mem.write ptr (stat.repr.ofInt 0).1, output)
  | _ => (mem, output)

end SimpleStat

def NullStat.doStatCommand (cmd : StatCmd) (output : StatCmdOutput) : StatCmdOutput :=
  match cmd with
  | .printStatType => { output with entryTitle := "NULL stat" }
  | _ => output

/-- The size of the `int` that a `NullStat` keeps in shared memory. -/
def sizeofNullStat : Nat := 4

/-! ### Elements -/

/-- A stat type that is no array. -/
inductive ElementType (Sample : Type)
  | simpleStat (stat : SimpleStat Sample)
  | nullStat
  | accumulator (features : List (Feature Sample))

/-- What stands for it in one of the processes. -/
inductive ElementImpl (Sample : Type)
  | simpleStat (stat : SimpleStat Sample)
  | nullStat
  | accumOp (features : List (Feature Sample))
  | accumControl (features : List (Feature Sample))

def ElementType.toImpl (isOperational : Bool) : ElementType Sample → ElementImpl Sample
  | simpleStat stat => .simpleStat stat
  | nullStat => .nullStat
  | accumulator features => if isOperational then .accumOp features else .accumControl features

def ElementType.isSerializationDeferred : ElementType Sample → Bool
  | accumulator _ => true
  | _ => false

namespace ElementImpl

/-- `sizeof(shared_type)`. -/
def sharedSize : ElementImpl Sample → Nat
  | simpleStat stat => stat.repr.size
  | nullStat => sizeofNullStat
  | accumOp features => accumSharedSize features
  | accumControl features => accumSharedSize features

/-- `write(ptr, i1, ..., value)`, on the samples of an accumulator and the shared memory. A simple stat
takes the first argument for its value; an accumulator takes one argument only, and other calls do
not compile. -/
def write (acc : List Sample) (mem : Mem) (ptr : Nat) (indices : List Int) (value : Sample) :
    ElementImpl Sample → Option (List Sample × Mem)
  | simpleStat stat =>
    match indices with
    | [] => some (acc, stat.write mem ptr (stat.ofSample value))
    | first :: _ => some (acc, stat.write mem ptr (stat.repr.ofInt first))
  | nullStat => some (acc, mem)
  | accumOp features =>
    match indices with
    | [] => some (AccumOp.write features acc mem ptr value)
    | _ :: _ => none
  | accumControl _ => none

/-- `serialize`, which only `AccumOp` has. -/
def serialize (acc : List Sample) (mem : Mem) (ptr : Nat) : ElementImpl Sample → Mem
  | accumOp features => AccumOp.serialize features acc mem ptr
  | _ => mem

/-- `doStatCommand`, which `AccumOp` does not have. -/
def doStatCommand (ptr : Nat) (cmd : StatCmd) (mem : Mem) (output : StatCmdOutput) :
    ElementImpl Sample → Mem × StatCmdOutput
  | simpleStat stat => stat.doStatCommand ptr cmd mem output
  | nullStat => (mem, NullStat.doStatCommand cmd output)
  | accumOp _ => (mem, output)
  | accumControl features => AccumControl.doStatCommand features ptr cmd mem output

end ElementImpl

theorem ElementType.sharedSize_toImpl (isOperational : Bool) (type : ElementType Sample) :
    (type.toImpl isOperational).sharedSize = (type.toImpl false).sharedSize := by
  cases type with
  | simpleStat stat => rfl
  | nullStat => rfl
  | accumulator features => cases isOperational <;> rfl

/-! ### Frames -/

theorem setControlWord_unchangedOutside (features : List (Feature Sample)) (mem : Mem)
    (ptr value : Nat) :
    UnchangedOutside ptr (accumSharedSize features) mem (setControlWord features mem ptr value) := by
  have word : UnchangedOutside (controlWordPtr features ptr) sizeofControlWord mem
      (setControlWord features mem ptr value) :=
    UnchangedOutside.write mem (length_leBytes sizeofControlWord value)
  apply word.mono
  · rw [controlWordPtr_eq]
    exact Nat.le_add_right _ _
  · exact Nat.le_of_eq (by rw [controlWordPtr_eq, accumSharedSize, Nat.add_assoc])

theorem accumSerialize_unchangedOutside (features : List (Feature Sample)) (acc : List Sample)
    (mem : Mem) (ptr : Nat) :
    UnchangedOutside ptr (accumSharedSize features) mem
      (AccumOp.serialize features acc mem ptr) := by
  rw [AccumOp.serialize_eq]
  apply (UnchangedOutside.write mem (length_featureBytes features acc)).mono (Nat.le_refl _)
  unfold accumSharedSize
  omega

theorem SimpleStat.write_unchangedOutside (stat : SimpleStat Sample) (mem : Mem) (ptr : Nat)
    (value : Bytes stat.repr.size) :
    UnchangedOutside ptr stat.repr.size mem (stat.write mem ptr value) :=
  UnchangedOutside.write mem (stat.writePolicy.write stat.repr (stat.value mem ptr) value).2

namespace ElementImpl

variable {impl : ElementImpl Sample} {mem : Mem}

theorem write_unchangedOutside {acc : List Sample} {ptr : Nat} {indices : List Int} {value : Sample}
    {next : List Sample × Mem} (written : impl.write acc mem ptr indices value = some next) :
    UnchangedOutside ptr impl.sharedSize mem next.2 := by
  cases impl with
  | simpleStat stat =>
    cases indices with
    | nil =>
      cases written
      exact stat.write_unchangedOutside mem ptr _
    | cons first indices =>
      cases written
      exact stat.write_unchangedOutside mem ptr _
  | nullStat =>
    cases written
    exact UnchangedOutside.refl _ _ _
  | accumOp features =>
    cases indices with
    | nil =>
      cases written
      unfold AccumOp.write
      split
      · exact setControlWord_unchangedOutside features mem ptr 0
      · exact UnchangedOutside.refl _ _ _
    | cons first indices => cases written
  | accumControl features => cases written

theorem serialize_unchangedOutside (acc : List Sample) (mem : Mem) (ptr : Nat) :
    UnchangedOutside ptr impl.sharedSize mem (impl.serialize acc mem ptr) := by
  cases impl with
  | simpleStat stat => exact UnchangedOutside.refl _ _ _
  | nullStat => exact UnchangedOutside.refl _ _ _
  | accumOp features => exact accumSerialize_unchangedOutside features acc mem ptr
  | accumControl features => exact UnchangedOutside.refl _ _ _

/-- Only a clear changes the shared memory. -/
theorem doStatCommand_unchanged {cmd : StatCmd} (other : cmd ≠ .clearStat) (ptr : Nat) (mem : Mem)
    (output : StatCmdOutput) : (impl.doStatCommand ptr cmd mem output).1 = mem := by
  cases impl with
  | simpleStat stat =>
    cases cmd with
    | clearStat => exact absurd rfl other
    | _ => rfl
  | nullStat => rfl
  | accumOp features => rfl
  | accumControl features =>
    cases cmd with
    | clearStat => exact absurd rfl other
    | _ => rfl

theorem doStatCommand_unchangedOutside (ptr : Nat) (cmd : StatCmd) (mem : Mem)
    (output : StatCmdOutput) :
    UnchangedOutside ptr impl.sharedSize mem (impl.doStatCommand ptr cmd mem output).1 := by
  cases impl with
  | simpleStat stat =>
    cases cmd with
    | clearStat => exact UnchangedOutside.write mem (stat.repr.ofInt 0).2
    | _ => exact UnchangedOutside.refl _ _ _
  | nullStat => exact UnchangedOutside.refl _ _ _
  | accumOp features => exact UnchangedOutside.refl _ _ _
  | accumControl features =>
    cases cmd with
    | clearStat => exact setControlWord_unchangedOutside features mem ptr 1
    | _ => exact UnchangedOutside.refl _ _ _

end ElementImpl

/-! ### Locality -/

/-- The words of an accumulator in two memories that agree on it. -/
theorem controlWord_congr (features : List (Feature Sample)) {mem other : Mem} {ptr : Nat}
    (agree : AgreeOn ptr (accumSharedSize features) mem other) :
    controlWord features mem ptr = controlWord features other ptr := by
  have inside : AgreeOn (controlWordPtr features ptr) sizeofControlWord mem other := by
    apply agree.mono
    · rw [controlWordPtr_eq]
      exact Nat.le_add_right _ _
    · exact Nat.le_of_eq (by rw [controlWordPtr_eq, accumSharedSize, Nat.add_assoc])
  rw [controlWord, inside.read, controlWord]

/-- The stored bytes of the first feature, and those of the others. -/
theorem agreeOn_features_cons {feature : Feature Sample} {features : List (Feature Sample)}
    {mem other : Mem} {ptr : Nat} (agree : AgreeOn ptr (featuresSize (feature :: features)) mem other) :
    mem.read ptr feature.size = other.read ptr feature.size ∧
      AgreeOn (ptr + feature.size) (featuresSize features) mem other := by
  rw [featuresSize_cons] at agree
  have first : AgreeOn ptr feature.size mem other := agree.mono (Nat.le_refl _) (by omega)
  exact ⟨first.read, agree.mono (Nat.le_add_right _ _) (by omega)⟩

theorem dumpFeatures_congr (format : Option EntryFormat) (isValid : Bool)
    (features : List (Feature Sample)) {mem other : Mem} {ptr : Nat}
    (agree : AgreeOn ptr (featuresSize features) mem other) :
    AccumControl.dumpFeatures format isValid mem features ptr =
      AccumControl.dumpFeatures format isValid other features ptr := by
  induction features generalizing ptr with
  | nil => rfl
  | cons feature features ih =>
    obtain ⟨first, rest⟩ := agreeOn_features_cons agree
    rw [AccumControl.dumpFeatures, AccumControl.dumpFeatures, first, ih rest]

/-- The titles may show stored bins, which are bytes of the accumulator. -/
theorem getTitles_congr (width : Nat) (features : List (Feature Sample)) {mem other : Mem} {ptr : Nat}
    (agree : AgreeOn ptr (featuresSize features) mem other) :
    AccumControl.getTitles width mem features ptr = AccumControl.getTitles width other features ptr := by
  induction features generalizing ptr with
  | nil => rfl
  | cons feature features ih =>
    obtain ⟨first, rest⟩ := agreeOn_features_cons agree
    rw [AccumControl.getTitles, AccumControl.getTitles, first, ih rest]

namespace ElementImpl

variable {impl : ElementImpl Sample} {mem other : Mem} {ptr : Nat}

/-- **A write depends on the element's own bytes only.** -/
theorem write_local (acc : List Sample) (indices : List Int) (value : Sample)
    (agree : AgreeOn ptr impl.sharedSize mem other) {next : List Sample × Mem}
    (written : impl.write acc mem ptr indices value = some next) :
    ∃ next', impl.write acc other ptr indices value = some next' ∧ next'.1 = next.1 ∧
      AgreeOn ptr impl.sharedSize next.2 next'.2 := by
  cases impl with
  | simpleStat stat =>
    have values : stat.value mem ptr = stat.value other ptr := Subtype.ext agree.read
    have same : ∀ value, AgreeOn ptr stat.repr.size (stat.write mem ptr value)
        (stat.write other ptr value) := by
      intro value
      unfold SimpleStat.write
      rw [values]
      exact agree.write _
    cases indices with
    | nil =>
      cases written
      exact ⟨_, rfl, rfl, same _⟩
    | cons first indices =>
      cases written
      exact ⟨_, rfl, rfl, same _⟩
  | nullStat =>
    cases written
    exact ⟨_, rfl, rfl, agree⟩
  | accumOp features =>
    cases indices with
    | nil =>
      cases written
      refine ⟨_, rfl, ?_⟩
      unfold AccumOp.write
      rw [controlWord_congr features agree]
      split
      · exact ⟨rfl, agree.write _⟩
      · exact ⟨rfl, agree⟩
    | cons first indices => cases written
  | accumControl features => cases written

theorem serialize_local (impl : ElementImpl Sample) (acc : List Sample) (ptr : Nat) :
    LocalTo ptr impl.sharedSize fun mem => impl.serialize acc mem ptr where
  outside mem := serialize_unchangedOutside acc mem ptr
  inside mem other agree := by
    cases impl with
    | simpleStat stat => exact agree
    | nullStat => exact agree
    | accumOp features =>
      simp only [serialize, AccumOp.serialize_eq]
      exact agree.write _
    | accumControl features => exact agree

/-- `CLEAR_STAT`. -/
def clear (impl : ElementImpl Sample) (ptr : Nat) (mem : Mem) : Mem :=
  (impl.doStatCommand ptr .clearStat mem {}).1

/-- What a clear does to the shared memory does not depend on the output so far. -/
theorem clear_eq (impl : ElementImpl Sample) (ptr : Nat) (mem : Mem) (output : StatCmdOutput) :
    (impl.doStatCommand ptr .clearStat mem output).1 = impl.clear ptr mem := by
  cases impl <;> rfl

theorem clear_local (impl : ElementImpl Sample) (ptr : Nat) :
    LocalTo ptr impl.sharedSize (impl.clear ptr) where
  outside mem := doStatCommand_unchangedOutside ptr .clearStat mem {}
  inside mem other agree := by
    cases impl with
    | simpleStat stat => exact agree.write _
    | nullStat => exact agree
    | accumOp features => exact agree
    | accumControl features => exact agree.write _

/-- The entries that `DUMP_STAT` adds to its output. -/
def shownEntries (impl : ElementImpl Sample) (ptr : Nat) (mem : Mem) : List String :=
  (impl.doStatCommand ptr .dumpStat mem {}).2.entries

theorem dump_entries (impl : ElementImpl Sample) (ptr : Nat) (mem : Mem) (output : StatCmdOutput) :
    (impl.doStatCommand ptr .dumpStat mem output).2.entries =
      output.entries ++ impl.shownEntries ptr mem := by
  cases impl with
  | simpleStat stat => rfl
  | nullStat => exact (List.append_nil _).symm
  | accumOp features => exact (List.append_nil _).symm
  | accumControl features => rfl

theorem dump_dimensionSizes (impl : ElementImpl Sample) (ptr : Nat) (mem : Mem)
    (output : StatCmdOutput) :
    (impl.doStatCommand ptr .dumpStat mem output).2.dimensionSizes = output.dimensionSizes := by
  cases impl <;> rfl

/-- **A dump depends on the element's own bytes only**, its title included. -/
theorem dump_local (agree : AgreeOn ptr impl.sharedSize mem other) (output : StatCmdOutput) :
    (impl.doStatCommand ptr .dumpStat mem output).2 =
      (impl.doStatCommand ptr .dumpStat other output).2 := by
  cases impl with
  | simpleStat stat =>
    have values : stat.value mem ptr = stat.value other ptr := Subtype.ext agree.read
    simp only [doStatCommand, SimpleStat.doStatCommand, values]
  | nullStat => rfl
  | accumOp features => rfl
  | accumControl features =>
    have inside : AgreeOn ptr (featuresSize features) mem other :=
      agree.mono (Nat.le_refl _) (by
        rw [sharedSize, accumSharedSize]
        omega)
    simp only [doStatCommand, AccumControl.doStatCommand, controlWord_congr features agree,
      dumpFeatures_congr _ _ features inside, getTitles_congr _ features inside]

theorem shownEntries_local (agree : AgreeOn ptr impl.sharedSize mem other) :
    impl.shownEntries ptr mem = impl.shownEntries ptr other :=
  congrArg StatCmdOutput.entries (dump_local agree {})

end ElementImpl

/-- Every element but a null stat shows one entry. -/
theorem ElementType.length_shownEntries {type : ElementType Sample} (shown : type ≠ .nullStat)
    (ptr : Nat) (mem : Mem) : ((type.toImpl false).shownEntries ptr mem).length = 1 := by
  cases type with
  | simpleStat stat => rfl
  | nullStat => exact absurd rfl shown
  | accumulator features => rfl

end StatLog.Stats
