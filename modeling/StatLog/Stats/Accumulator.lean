/-
**Accumulator stats.**

An accumulator lives in the operational process. `serialize` copies its features to shared memory,
the control process reads that copy, and a control word behind it tells the operational process to
start again.

* `Feature`: one feature handler, such as `count`. An accumulator set is known by the samples it was
  given since it was created; what a feature extracts is a function of these.
* `AccumOp.serialize`, `AccumOp.write`, `AccumControl.doStatCommand`: the source's functions on the
  shared memory.
* `AccumOp.serialize_eq`: the walk over the features stores `featureBytes` in one piece.
* `dumpFeatures_of_read`: what `DUMP_STAT` shows depends on these bytes and the control word only.
-/

import StatLog.Lib.Memory

namespace StatLog.Stats

open ByteMemory

/-! ### Commands -/

inductive StatCmd
  | noCmd
  | printStatType
  | dumpStat
  | clearStat
  | dumpTimeseries
  | logLevel
  | dumpLog
  | printTag
  deriving DecidableEq, Repr

def isStatisticCommand : StatCmd → Bool
  | .printStatType => true
  | .dumpStat => true
  | .clearStat => true
  | .dumpTimeseries => true
  | .printTag => true
  | _ => false

structure StatCmdOutput where
  entryTitle : String := ""
  entries : List String := []
  dimensionSizes : List Nat := []
  deriving DecidableEq, Repr

/-! ### Features -/

/-- The width and the precision set on the stream before a feature is printed, when there is more
than one. -/
structure EntryFormat where
  width : Nat
  precision : Nat

/-- **A feature handler** of accumulators with the given samples: its `accumulator::traits`. -/
structure Feature (Sample : Type) where
  statName : String
  size : Nat
  /-- What `serialize` stores for an accumulator that was given these samples. -/
  serialize : List Sample → List UInt8
  length_serialize : ∀ samples, (serialize samples).length = size
  /-- The title in a column of the given width; the one of a histogram reads the stored bins. -/
  getTitle : Nat → List UInt8 → String
  /-- The text of the stored bytes. -/
  showValue : Option EntryFormat → List UInt8 → String
  /-- The text of `shared_type{}`. -/
  showZero : Option EntryFormat → String
  showValue_zero : ∀ format, showValue format (List.replicate size 0) = showZero format

section

variable {Sample : Type}

/-- `dumpStat(ptr, is_valid, ss)`, on the bytes at `ptr`. -/
def Feature.dumpStat (feature : Feature Sample) (format : Option EntryFormat) (isValid : Bool)
    (bytes : List UInt8) : String :=
  if isValid then feature.showValue format bytes else feature.showZero format

/-- A text on a stream with `std::ios::left` and a width; without one it is printed as it is. -/
def leftJustified (width : Nat) (text : String) : String :=
  text ++ String.ofList (List.replicate (width - text.length) ' ')

/-- `traits_common`: a feature of one scalar, stored as a word of `size` bytes that is zero while there
are no samples. -/
def traitsCommon (statName : String) (size : Nat) (extractor : List Sample → Nat)
    (text : Option EntryFormat → Nat → String) : Feature Sample where
  statName := statName
  size := size
  serialize acc := leBytes size (if acc.length > 0 then extractor acc else 0)
  length_serialize _ := length_leBytes _ _
  getTitle width _ := leftJustified width statName
  showValue format bytes :=
    leftJustified ((format.map EntryFormat.width).getD 0) (text format (ofLE bytes))
  showZero format := leftJustified ((format.map EntryFormat.width).getD 0) (text format 0)
  showValue_zero format := by
    rw [← leBytes_zero, ofLE_leBytes, Nat.zero_mod]

/-- The `count` feature, a `size_t`. -/
def count : Feature Sample := traitsCommon "count" 8 List.length fun _ => toString

/-- The size of all features. -/
def featuresSize (features : List (Feature Sample)) : Nat := (features.map Feature.size).sum

/-- `sizeof(control_word)`. -/
def sizeofControlWord : Nat := 4

/-- The size of `AccumBase::shared_type`. -/
def accumSharedSize (features : List (Feature Sample)) : Nat :=
  featuresSize features + sizeofControlWord

/-- The address of the control word of the accumulator at `ptr`. -/
def controlWordPtr (features : List (Feature Sample)) (ptr : Nat) : Nat :=
  ptr + accumSharedSize features - sizeofControlWord

/-- `*control_word_ptr`. -/
def controlWord (features : List (Feature Sample)) (mem : Mem) (ptr : Nat) : Nat :=
  ofLE (mem.read (controlWordPtr features ptr) sizeofControlWord)

/-- `*control_word_ptr = value`. -/
def setControlWord (features : List (Feature Sample)) (mem : Mem) (ptr value : Nat) : Mem :=
  mem.write (controlWordPtr features ptr) (leBytes sizeofControlWord value)

/-! ### The operational process -/

namespace AccumOp

/-- The visit of the features, from the given address on. -/
def serializeFeatures (acc : List Sample) : List (Feature Sample) → Nat → Mem → Mem
  | [], _, mem => mem
  | feature :: features, shmPtr, mem =>
    serializeFeatures acc features (shmPtr + feature.size) (mem.write shmPtr (feature.serialize acc))

def serialize (features : List (Feature Sample)) (acc : List Sample) (mem : Mem) (ptr : Nat) : Mem :=
  serializeFeatures acc features ptr mem

/-- **`AccumOp::write`**: the accumulator and the shared memory after it. -/
def write (features : List (Feature Sample)) (acc : List Sample) (mem : Mem) (ptr : Nat)
    (sample : Sample) : List Sample × Mem :=
  if controlWord features mem ptr ≠ 0 then ([sample], setControlWord features mem ptr 0)
  else (acc ++ [sample], mem)

end AccumOp

/-! ### The control process -/

namespace AccumControl

/-- `max_width`: the length of the longest name. -/
def maxWidth (features : List (Feature Sample)) : Nat :=
  features.foldl (fun width feature => max width feature.statName.length) 0

/-- `max_pad`. -/
def maxPad (features : List (Feature Sample)) : Nat := maxWidth features + 4

/-- What is set on the stream of the entry before each feature. -/
def entryFormat (features : List (Feature Sample)) : Option EntryFormat :=
  if features.length > 1 then some ⟨maxPad features, maxWidth features⟩ else none

def getTitles (width : Nat) (mem : Mem) : List (Feature Sample) → Nat → String
  | [], _ => ""
  | feature :: features, ptr =>
    feature.getTitle width (mem.read ptr feature.size) ++
      getTitles width mem features (ptr + feature.size)

def dumpFeatures (format : Option EntryFormat) (isValid : Bool) (mem : Mem) :
    List (Feature Sample) → Nat → String
  | [], _ => ""
  | feature :: features, ptr =>
    feature.dumpStat format isValid (mem.read ptr feature.size) ++
      dumpFeatures format isValid mem features (ptr + feature.size)

/-- **`AccumControl::doStatCommand`**, on the shared memory and the output. -/
def doStatCommand (features : List (Feature Sample)) (ptr : Nat) (cmd : StatCmd) (mem : Mem)
    (output : StatCmdOutput) : Mem × StatCmdOutput :=
  match cmd with
  | .dumpStat =>
    (mem, { output with
      entryTitle := getTitles (maxPad features) mem features ptr
      entries := output.entries ++ [dumpFeatures (entryFormat features)
        (controlWord features mem ptr = 0) mem features ptr] })
  | .printStatType =>
    (mem, { output with
      entryTitle := features.foldl (fun title feature => title ++ " " ++ feature.statName)
        "Accumulator:" })
  | .clearStat => (setControlWord features mem ptr 1, output)
  | _ => (mem, output)

end AccumControl

/-! ### The serialized bytes -/

/-- The bytes of all features, for an accumulator with the given samples. -/
def featureBytes (features : List (Feature Sample)) (acc : List Sample) : List UInt8 :=
  features.flatMap fun feature => feature.serialize acc

theorem featuresSize_cons (feature : Feature Sample) (features : List (Feature Sample)) :
    featuresSize (feature :: features) = feature.size + featuresSize features := by
  rw [featuresSize, List.map_cons, List.sum_cons, featuresSize]

@[simp] theorem length_featureBytes (features : List (Feature Sample)) (acc : List Sample) :
    (featureBytes features acc).length = featuresSize features := by
  induction features with
  | nil => rfl
  | cons feature features ih =>
    rw [featureBytes, List.flatMap_cons, List.length_append, feature.length_serialize,
      featuresSize_cons]
    exact congrArg _ ih

theorem controlWordPtr_eq (features : List (Feature Sample)) (ptr : Nat) :
    controlWordPtr features ptr = ptr + featuresSize features := by
  unfold controlWordPtr accumSharedSize
  omega

/-- **`serialize` stores the bytes of all features in one piece**, in front of the control word. -/
theorem AccumOp.serialize_eq (features : List (Feature Sample)) (acc : List Sample) (mem : Mem)
    (ptr : Nat) :
    AccumOp.serialize features acc mem ptr = mem.write ptr (featureBytes features acc) := by
  unfold AccumOp.serialize
  induction features generalizing mem ptr with
  | nil =>
    rw [AccumOp.serializeFeatures, featureBytes, List.flatMap_nil, Mem.write_nil]
  | cons feature features ih =>
    rw [AccumOp.serializeFeatures, ih, featureBytes, featureBytes, List.flatMap_cons,
      ← Mem.write_append, feature.length_serialize]

/-- The text of the given samples. -/
def shownValue (features : List (Feature Sample)) (format : Option EntryFormat)
    (acc : List Sample) : String :=
  (features.map fun feature => feature.showValue format (feature.serialize acc)).foldr (· ++ ·) ""

/-- The text of all zeros. -/
def shownZero (features : List (Feature Sample)) (format : Option EntryFormat) : String :=
  (features.map fun feature => feature.showZero format).foldr (· ++ ·) ""

/-- With the control word set, zeros are shown. -/
theorem AccumControl.dumpFeatures_invalid (features : List (Feature Sample))
    (format : Option EntryFormat) (mem : Mem) (ptr : Nat) :
    AccumControl.dumpFeatures format false mem features ptr = shownZero features format := by
  induction features generalizing ptr with
  | nil => rfl
  | cons feature features ih =>
    rw [AccumControl.dumpFeatures, ih]
    rfl

/-- **A serialized accumulator is shown as its features' values.** -/
theorem AccumControl.dumpFeatures_of_read {features : List (Feature Sample)} {acc : List Sample}
    {mem : Mem} {ptr : Nat}
    (stored : mem.read ptr (featuresSize features) = featureBytes features acc)
    (format : Option EntryFormat) :
    AccumControl.dumpFeatures format true mem features ptr = shownValue features format acc := by
  induction features generalizing ptr with
  | nil => rfl
  | cons feature features ih =>
    rw [featuresSize_cons, Mem.read_add, featureBytes, List.flatMap_cons] at stored
    obtain ⟨first, rest⟩ := List.append_inj stored (by
      rw [Mem.length_read, feature.length_serialize])
    rw [AccumControl.dumpFeatures, ih rest, first]
    rfl

/-- Zeroed memory is shown as zeros. -/
theorem AccumControl.dumpFeatures_of_zero {features : List (Feature Sample)} {mem : Mem} {ptr : Nat}
    (stored : mem.read ptr (featuresSize features) = List.replicate (featuresSize features) 0)
    (format : Option EntryFormat) :
    AccumControl.dumpFeatures format true mem features ptr = shownZero features format := by
  induction features generalizing ptr with
  | nil => rfl
  | cons feature features ih =>
    rw [featuresSize_cons, Mem.read_add, List.replicate_add] at stored
    obtain ⟨first, rest⟩ := List.append_inj stored (by
      rw [Mem.length_read, List.length_replicate])
    rw [AccumControl.dumpFeatures, ih rest, first, Feature.dumpStat, if_pos rfl,
      feature.showValue_zero]
    rfl

/-! ### The control word and the serialized bytes do not overlap -/

section Layout

variable (features : List (Feature Sample)) (mem : Mem) (ptr : Nat)

@[simp] theorem controlWord_setControlWord (value : Nat) :
    controlWord features (setControlWord features mem ptr value) ptr = value % 2 ^ 32 := by
  have stored := Mem.read_write mem (controlWordPtr features ptr) (leBytes sizeofControlWord value)
  rw [length_leBytes] at stored
  rw [controlWord, setControlWord, stored, ofLE_leBytes]
  rfl

@[simp] theorem controlWord_serialize (acc : List Sample) :
    controlWord features (AccumOp.serialize features acc mem ptr) ptr =
      controlWord features mem ptr := by
  rw [controlWord, AccumOp.serialize_eq, Mem.read_write_of_disjoint, controlWord]
  rw [length_featureBytes, controlWordPtr_eq]
  exact Or.inr (Nat.le_refl _)

theorem read_setControlWord (value : Nat) :
    (setControlWord features mem ptr value).read ptr (featuresSize features) =
      mem.read ptr (featuresSize features) := by
  rw [setControlWord, Mem.read_write_of_disjoint]
  rw [controlWordPtr_eq]
  exact Or.inl (Nat.le_refl _)

theorem read_serialize (acc : List Sample) :
    (AccumOp.serialize features acc mem ptr).read ptr (featuresSize features) =
      featureBytes features acc := by
  have stored := Mem.read_write mem ptr (featureBytes features acc)
  rw [length_featureBytes] at stored
  rw [AccumOp.serialize_eq, stored]

end Layout

end

end StatLog.Stats
