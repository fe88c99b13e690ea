/-
**Histograms.**

A histogram cuts the range between two bounds into bins of one size. Its bin positions are `double`s;
`serialize` converts them to the type of the samples before it stores them with the counts. Arithmetic
is exact here.

* `SampleType`, `SampleType.ofDouble`: integer types and a real, with the conversion from `double`.
* `HistogramGeneric`, `binOf`, `resultCount`, `histSerialize`: the source's histogram and the pairs in
  shared memory.
* `histogramCount`: the feature handler.
* `binCounts_binPosition`: the counters match the positions.
* **`serialize_binsMatch_iff`**: when they match the bin starts that are stored and displayed.
-/

import Mathlib.Data.Rat.Floor
import Mathlib.Tactic.Linarith
import StatLog.Lib.Binning
import StatLog.Stats.SimpleValue

namespace StatLog.Stats

open ByteMemory Binning

/-! ### Samples -/

/-- A `sample_type`: an integer type, or a real that computes exactly. -/
inductive SampleType
  | integer (size : Nat) (isSigned : Bool)
  | real

namespace SampleType

def IsValue : SampleType → ℚ → Prop
  | integer size isSigned, sample => ∃ value : Int, value = sample ∧ Fits size isSigned value
  | real, _ => True

/-- **The samples of a type**, as numbers. -/
abbrev Sample (type : SampleType) := {sample : ℚ // type.IsValue sample}

/-- The conversion of a `double` to an integer: the fractional part is discarded. -/
def truncate (double : ℚ) : Int := if 0 ≤ double then ⌊double⌋ else ⌈double⌉

/-- The conversion of a `double` to `sample_type`; undefined for an integer out of range. -/
def ofDouble : (type : SampleType) → ℚ → Option type.Sample
  | integer size isSigned, double =>
    if fits : Fits size isSigned (truncate double) then
      some ⟨truncate double, truncate double, rfl, fits⟩
    else none
  | real, double => some ⟨double, trivial⟩

end SampleType

/-! ### The accumulator -/

/-- **`HistogramGeneric<Sample, tag_type, min_range, max_range, num_bins>`**. -/
structure HistogramGeneric where
  minRange : Int
  maxRange : Int
  numBins : Nat
  minRange_lt_maxRange : minRange < maxRange
  one_le_numBins : 1 ≤ numBins

/-- `std::upper_bound` on a sorted vector: the first position behind the sample. -/
def upperBound (positions : List ℚ) (sample : ℚ) : Nat :=
  positions.findIdx fun position => sample < position

namespace HistogramGeneric

variable (hist : HistogramGeneric)

/-- `numeric::average(max_range - min_range, num_bins)`. -/
def binSize : ℚ := ((hist.maxRange - hist.minRange : Int) : ℚ) / hist.numBins

/-- `bin_positions[i]`. -/
def binPosition (i : Nat) : ℚ := hist.minRange + ((i : ℚ) - 1) * hist.binSize

def binPositions : List ℚ := (List.range (hist.numBins + 2)).map hist.binPosition

/-- The counter that `histogram_impl::operator()` increments. -/
def binOf (sample : ℚ) : Nat :=
  if sample < hist.binPosition 1 then 0
  else if sample ≥ hist.binPosition (hist.numBins + 1) then hist.numBins + 1
  else upperBound hist.binPositions sample - 1

/-- `samples_in_bin`, behind the given samples. -/
def samplesInBin (samples : List ℚ) : List Nat := increments hist.binOf (hist.numBins + 2) samples

/-- `histogram_impl<Sample, false>::result`. -/
def resultCount (samples : List ℚ) : List (ℚ × Nat) :=
  hist.binPositions.zip (hist.samplesInBin samples)

end HistogramGeneric

/-- The numbers of the given samples. -/
def sampleValues {type : SampleType} (samples : List type.Sample) : List ℚ :=
  samples.map Subtype.val

/-- **`traits_common_hist::serialize`**: the tuples in shared memory. -/
def histSerialize {Value : Type} (type : SampleType) (hist : List (ℚ × Value)) :
    List (Option type.Sample × Value) :=
  hist.map fun pair => (type.ofDouble pair.1, pair.2)

/-! ### The stored tuples against the samples -/

section

variable {type : SampleType}

/-- `start_i`, when the conversion to it is defined. -/
def binStart (tuples : List (Option type.Sample × Nat)) (i : Nat) : Option ℚ :=
  (tuples[i]?.bind Prod.fst).map Subtype.val

/-- `value_i`. -/
def binValue (tuples : List (Option type.Sample × Nat)) (i : Nat) : Nat :=
  (tuples[i]?.map Prod.snd).getD 0

/-- **Every value is the number of samples from the bin's start to the next one.** -/
structure HistogramGeneric.BinsMatch (hist : HistogramGeneric)
    (tuples : List (Option type.Sample × Nat)) (samples : List type.Sample) : Prop where
  length : tuples.length = hist.numBins + 2
  defined : ∀ i, 1 ≤ i → i ≤ hist.numBins + 1 → (binStart tuples i).isSome
  counts : BinCounts (fun i => (binStart tuples i).getD 0) hist.numBins (binValue tuples)
    (sampleValues samples)

end

/-- **No sample is in the gap between a bin's position and what is stored for it.** Truncation moves
positive positions only, to the integer below them. -/
def SampleType.StartsExact (hist : HistogramGeneric) (samples : List ℚ) : SampleType → Prop
  | integer size isSigned => ∀ i, 1 ≤ i → i ≤ hist.numBins + 1 →
      Fits size isSigned (truncate (hist.binPosition i)) ∧
        (0 ≤ hist.binPosition i → ⌊hist.binPosition i⌋ < hist.binPosition i →
          ∀ sample ∈ samples, sample ≠ ⌊hist.binPosition i⌋)
  | real => True

/-! ### Positions -/

namespace HistogramGeneric

variable (hist : HistogramGeneric)

theorem binSize_pos : 0 < hist.binSize := by
  have range : 0 < hist.maxRange - hist.minRange := sub_pos.mpr hist.minRange_lt_maxRange
  have bins : 0 < hist.numBins := hist.one_le_numBins
  exact div_pos (Int.cast_pos.mpr range) (Nat.cast_pos.mpr bins)

theorem binPosition_strictMono : StrictMono hist.binPosition := by
  intro i j below
  have cast : (i : ℚ) < j := Nat.cast_lt.mpr below
  unfold binPosition
  have := mul_lt_mul_of_pos_right (sub_lt_sub_right cast 1) hist.binSize_pos
  linarith

theorem getElem?_binPositions {i : Nat} (inside : i < hist.numBins + 2) :
    hist.binPositions[i]? = some (hist.binPosition i) := by
  rw [binPositions, List.getElem?_map, List.getElem?_range inside, Option.map_some]

@[simp] theorem length_binPositions : hist.binPositions.length = hist.numBins + 2 := by
  rw [binPositions, List.length_map, List.length_range]

/-- The search finds the position behind the sample. -/
theorem upperBound_spec {sample : ℚ} (first : hist.binPosition 1 ≤ sample)
    (last : sample < hist.binPosition (hist.numBins + 1)) :
    ∃ i, 1 ≤ i ∧ i ≤ hist.numBins ∧ upperBound hist.binPositions sample = i + 1 ∧
      hist.binPosition i ≤ sample ∧ sample < hist.binPosition (i + 1) := by
  generalize found : upperBound hist.binPositions sample = d
  have before : ∀ j < d, hist.binPosition j ≤ sample := by
    intro j below
    rw [← found] at below
    have not_behind := List.not_of_lt_findIdx below
    simpa [binPositions] using not_behind
  have le : d ≤ hist.numBins + 1 := by
    by_contra beyond
    exact absurd last (before _ (Nat.lt_of_not_le beyond)).not_gt
  have behind : sample < hist.binPosition d := by
    have position := hist.getElem?_binPositions (Nat.lt_succ_of_le le)
    rw [← found] at position ⊢
    simpa using List.findIdx_of_getElem?_eq_some position
  have two_le : 1 < d := by
    by_contra small
    exact absurd (behind.trans_le (hist.binPosition_strictMono.monotone (Nat.le_of_not_lt small)))
      first.not_gt
  obtain ⟨i, rfl⟩ := Nat.exists_eq_add_of_lt two_le
  exact ⟨1 + i, by omega, by omega, by omega, before _ (by omega), behind⟩

/-- **The three ways a sample is counted.** -/
theorem binOf_spec (sample : ℚ) :
    (hist.binOf sample = 0 ∧ sample < hist.binPosition 1) ∨
      (∃ i, 1 ≤ i ∧ i ≤ hist.numBins ∧ hist.binOf sample = i ∧ hist.binPosition i ≤ sample ∧
        sample < hist.binPosition (i + 1)) ∨
      (hist.binOf sample = hist.numBins + 1 ∧ hist.binPosition (hist.numBins + 1) ≤ sample) := by
  unfold binOf
  by_cases low : sample < hist.binPosition 1
  · exact Or.inl ⟨if_pos low, low⟩
  · rw [if_neg low]
    by_cases high : sample ≥ hist.binPosition (hist.numBins + 1)
    · exact Or.inr (Or.inr ⟨if_pos high, high⟩)
    · rw [if_neg high]
      obtain ⟨i, positive, inside, found, from_i, to_next⟩ :=
        hist.upperBound_spec (not_lt.mp low) (not_le.mp high)
      exact Or.inr (Or.inl ⟨i, positive, inside, by rw [found, Nat.add_sub_cancel], from_i, to_next⟩)

theorem getElem?_samplesInBin {i : Nat} (inside : i < hist.numBins + 2) (samples : List ℚ) :
    (hist.samplesInBin samples)[i]? =
      some (samples.countP fun sample => hist.binOf sample = i) :=
  increments_getElem? inside samples

theorem binOf_eq_zero_iff (sample : ℚ) :
    hist.binOf sample = 0 ↔ sample < hist.binPosition 1 := by
  have mono := hist.binPosition_strictMono.monotone
  rcases hist.binOf_spec sample with ⟨bin, below⟩ | ⟨i, positive, inside, bin, from_i, -⟩ |
    ⟨bin, above⟩
  · exact iff_of_true bin below
  · exact iff_of_false (by omega) ((mono positive).trans from_i).not_gt
  · exact iff_of_false (by omega) ((mono (Nat.le_add_left 1 hist.numBins)).trans above).not_gt

theorem binOf_eq_iff {j : Nat} (positive : 1 ≤ j) (inside : j ≤ hist.numBins) (sample : ℚ) :
    hist.binOf sample = j ↔ hist.binPosition j ≤ sample ∧ sample < hist.binPosition (j + 1) := by
  have mono := hist.binPosition_strictMono
  rcases hist.binOf_spec sample with ⟨bin, below⟩ | ⟨i, positive', inside', bin, from_i, to_next⟩ |
    ⟨bin, above⟩
  · have first := mono.monotone positive
    exact iff_of_false (by omega) fun both => absurd (below.trans_le first) both.1.not_gt
  · rw [bin]
    constructor
    · rintro rfl
      exact ⟨from_i, to_next⟩
    · rintro ⟨from_j, to_next'⟩
      have le := mono.lt_iff_lt.mp (from_i.trans_lt to_next')
      have ge := mono.lt_iff_lt.mp (from_j.trans_lt to_next)
      omega
  · have last := mono.monotone (Nat.succ_le_succ inside)
    exact iff_of_false (by omega) fun both => absurd (both.2.trans_le last) above.not_gt

theorem binOf_eq_last_iff (sample : ℚ) :
    hist.binOf sample = hist.numBins + 1 ↔ hist.binPosition (hist.numBins + 1) ≤ sample := by
  have mono := hist.binPosition_strictMono.monotone
  rcases hist.binOf_spec sample with ⟨bin, below⟩ | ⟨i, positive, inside, bin, -, to_next⟩ |
    ⟨bin, above⟩
  · have first := mono (Nat.le_add_left 1 hist.numBins)
    exact iff_of_false (by omega) (below.trans_le first).not_ge
  · have last := mono (Nat.succ_le_succ inside)
    exact iff_of_false (by omega) (to_next.trans_le last).not_ge
  · exact iff_of_true bin above

/-- **The counters match the positions.** -/
theorem binCounts_binPosition (samples : List ℚ) :
    BinCounts hist.binPosition hist.numBins (fun i => (hist.samplesInBin samples)[i]?.getD 0)
      samples := by
  have counter : ∀ {i}, i < hist.numBins + 2 →
      (hist.samplesInBin samples)[i]?.getD 0 =
        samples.countP fun sample => hist.binOf sample = i := by
    intro i inside
    rw [hist.getElem?_samplesInBin inside, Option.getD_some]
  refine ⟨?_, fun j positive inside => ?_, ?_⟩
  · rw [counter (by omega)]
    exact List.countP_congr fun sample _ => by
      simpa only [decide_eq_true_eq] using hist.binOf_eq_zero_iff sample
  · rw [counter (by omega)]
    exact List.countP_congr fun sample _ => by
      simpa only [decide_eq_true_eq] using hist.binOf_eq_iff positive inside sample
  · rw [counter (by omega)]
    exact List.countP_congr fun sample _ => by
      simpa only [decide_eq_true_eq] using hist.binOf_eq_last_iff sample

end HistogramGeneric

/-! ### Conversions -/

namespace SampleType

theorem truncate_mono {low high : ℚ} (le : low ≤ high) : truncate low ≤ truncate high := by
  unfold truncate
  by_cases nonneg : 0 ≤ low
  · rw [if_pos nonneg, if_pos (nonneg.trans le)]
    exact Int.floor_mono le
  · rw [if_neg nonneg]
    by_cases nonneg' : 0 ≤ high
    · rw [if_pos nonneg']
      have first : ⌈low⌉ ≤ 0 := Int.ceil_le.mpr (by exact_mod_cast (not_le.mp nonneg).le)
      exact first.trans (Int.floor_nonneg.mpr nonneg')
    · rw [if_neg nonneg']
      exact Int.ceil_mono le

theorem isSome_ofDouble_integer {size : Nat} {isSigned : Bool} {double : ℚ} :
    ((integer size isSigned).ofDouble double).isSome ↔ Fits size isSigned (truncate double) := by
  rw [ofDouble]
  split
  · rename_i fits
    exact iff_of_true rfl fits
  · rename_i outside
    exact iff_of_false nofun outside

theorem ofDouble_integer {size : Nat} {isSigned : Bool} {double : ℚ}
    {start : (integer size isSigned).Sample}
    (stored : (integer size isSigned).ofDouble double = some start) :
    start.1 = truncate double := by
  rw [ofDouble] at stored
  split at stored
  · cases stored
    rfl
  · cases stored

/-- The conversion keeps the order. -/
theorem ofDouble_mono {type : SampleType} {low high : ℚ} (le : low ≤ high)
    {start next : type.Sample} (stored : type.ofDouble low = some start)
    (stored' : type.ofDouble high = some next) : start.1 ≤ next.1 := by
  cases type with
  | integer size isSigned =>
    rw [ofDouble_integer stored, ofDouble_integer stored']
    exact Int.cast_le.mpr (truncate_mono le)
  | real =>
    cases stored
    cases stored'
    exact le

/-- **A position separates the integers as its truncation does**, unless the integer below a positive
position is among them. -/
theorem lt_truncate_iff (position : ℚ) (value : Int) :
    ((value : ℚ) < (truncate position : ℚ) ↔ (value : ℚ) < position) ↔
      (0 ≤ position → ⌊position⌋ < position → value ≠ ⌊position⌋) := by
  rw [Int.cast_lt]
  unfold truncate
  by_cases nonneg : 0 ≤ position
  · rw [if_pos nonneg]
    constructor
    · rintro same - fraction rfl
      exact lt_irrefl _ (same.mpr fraction)
    · intro outside
      refine ⟨fun below => (Int.cast_lt.mpr below).trans_le (Int.floor_le position), fun below => ?_⟩
      rcases (Int.le_floor.mpr below.le).lt_or_eq with lower | rfl
      · exact lower
      · exact absurd rfl (outside nonneg below)
  · rw [if_neg nonneg]
    exact iff_of_true Int.lt_ceil fun nonneg' => absurd nonneg' nonneg

end SampleType

/-! ### The stored tuples -/

namespace HistogramGeneric

variable {type : SampleType} (hist : HistogramGeneric) (samples : List type.Sample)

/-- What `serialize` stores in shared memory. -/
def countTuples : List (Option type.Sample × Nat) :=
  histSerialize type (hist.resultCount (sampleValues samples))

@[simp] theorem length_countTuples : (hist.countTuples samples).length = hist.numBins + 2 := by
  rw [countTuples, histSerialize, List.length_map, resultCount, List.length_zip,
    length_binPositions, samplesInBin, length_increments, Nat.min_self]

theorem getElem?_countTuples {i : Nat} (inside : i < hist.numBins + 2) :
    (hist.countTuples samples)[i]? = some (type.ofDouble (hist.binPosition i),
      (hist.samplesInBin (sampleValues samples))[i]?.getD 0) := by
  have counter := hist.getElem?_samplesInBin inside (sampleValues samples)
  have pair : (hist.resultCount (sampleValues samples))[i]? = some (hist.binPosition i,
      (sampleValues samples).countP fun sample => hist.binOf sample = i) :=
    List.getElem?_zip_eq_some.mpr ⟨hist.getElem?_binPositions inside, counter⟩
  rw [countTuples, histSerialize, List.getElem?_map, pair, counter]
  rfl

/-- The stored values are the counters. -/
theorem binValue_countTuples :
    binValue (hist.countTuples samples) =
      fun i => (hist.samplesInBin (sampleValues samples))[i]?.getD 0 := by
  ext i
  unfold binValue
  by_cases inside : i < hist.numBins + 2
  · rw [hist.getElem?_countTuples samples inside]
    rfl
  · rw [List.getElem?_eq_none (by rw [length_countTuples]; omega), samplesInBin,
      List.getElem?_eq_none (by rw [length_increments]; omega)]
    rfl

/-- The stored starts are the converted positions. -/
theorem binStart_countTuples {i : Nat} (inside : i < hist.numBins + 2) :
    binStart (hist.countTuples samples) i =
      (type.ofDouble (hist.binPosition i)).map Subtype.val := by
  rw [binStart, hist.getElem?_countTuples samples inside]
  rfl

/-- **The tuples match the samples exactly if every start is defined and separates the samples as its
position does.** -/
theorem binsMatch_iff_separate :
    hist.BinsMatch (hist.countTuples samples) samples ↔
      (∀ i, 1 ≤ i → i ≤ hist.numBins + 1 → (type.ofDouble (hist.binPosition i)).isSome) ∧
        Separate hist.binPosition (fun i => (binStart (hist.countTuples samples) i).getD 0)
          hist.numBins (sampleValues samples) := by
  have counts := hist.binCounts_binPosition (sampleValues samples)
  rw [← hist.binValue_countTuples samples] at counts
  have rising : Rising hist.binPosition hist.numBins :=
    fun i _ _ => hist.binPosition_strictMono.monotone (Nat.le_succ i)
  have defined : ∀ {i}, i < hist.numBins + 2 →
      ((binStart (hist.countTuples samples) i).isSome ↔
        (type.ofDouble (hist.binPosition i)).isSome) := by
    intro i inside
    rw [hist.binStart_countTuples samples inside, Option.isSome_map]
  have rising' : (∀ i, 1 ≤ i → i ≤ hist.numBins + 1 →
      (type.ofDouble (hist.binPosition i)).isSome) →
        Rising (fun i => (binStart (hist.countTuples samples) i).getD 0) hist.numBins := by
    intro starts i positive inside
    obtain ⟨start, stored⟩ := Option.isSome_iff_exists.mp (starts i positive (by omega))
    obtain ⟨next, stored'⟩ := Option.isSome_iff_exists.mp (starts (i + 1) (by omega) (by omega))
    simp only [hist.binStart_countTuples samples (show i < hist.numBins + 2 by omega),
      hist.binStart_countTuples samples (show i + 1 < hist.numBins + 2 by omega), stored, stored',
      Option.map_some, Option.getD_some]
    exact SampleType.ofDouble_mono (hist.binPosition_strictMono.monotone (Nat.le_succ i)) stored
      stored'
  constructor
  · rintro ⟨-, starts, counts'⟩
    have starts' := fun i positive inside =>
      (defined (Nat.lt_succ_of_le inside)).mp (starts i positive inside)
    exact ⟨starts', (counts.iff_separate rising (rising' starts')).mp counts'⟩
  · rintro ⟨starts, separate⟩
    refine ⟨hist.length_countTuples samples, fun i positive inside => ?_, ?_⟩
    · exact (defined (Nat.lt_succ_of_le inside)).mpr (starts i positive inside)
    · exact (counts.iff_separate rising (rising' starts)).mpr separate

/-- **The stored and displayed histogram matches its displayed bounds exactly if no sample is in the
gap that truncation leaves in front of a bin's position.** -/
theorem serialize_binsMatch_iff :
    hist.BinsMatch (hist.countTuples samples) samples ↔
      type.StartsExact hist (sampleValues samples) := by
  rw [binsMatch_iff_separate]
  cases type with
  | real =>
    refine iff_of_true ⟨fun _ _ _ => rfl, fun i positive inside sample _ => ?_⟩ trivial
    show sample < (binStart (hist.countTuples samples) i).getD 0 ↔ _
    rw [hist.binStart_countTuples samples (Nat.lt_succ_of_le inside)]
    rfl
  | integer size isSigned =>
    have start : ∀ {i}, i ≤ hist.numBins + 1 →
        Fits size isSigned (SampleType.truncate (hist.binPosition i)) →
          (binStart (hist.countTuples samples) i).getD 0 =
            SampleType.truncate (hist.binPosition i) := by
      intro i inside fits
      obtain ⟨start, stored⟩ :=
        Option.isSome_iff_exists.mp (SampleType.isSome_ofDouble_integer.mpr fits)
      rw [hist.binStart_countTuples samples (Nat.lt_succ_of_le inside), stored, Option.map_some,
        Option.getD_some, SampleType.ofDouble_integer stored]
    constructor
    · rintro ⟨starts, separate⟩ i positive inside
      have fits := SampleType.isSome_ofDouble_integer.mp (starts i positive inside)
      refine ⟨fits, fun nonneg fraction sample member => ?_⟩
      have same := separate i positive inside sample member
      obtain ⟨⟨_, value, rfl, _⟩, -, rfl⟩ := List.mem_map.mp member
      simp only [start inside fits] at same
      have outside := (SampleType.lt_truncate_iff _ value).mp same nonneg fraction
      exact fun equal => outside (Int.cast_injective equal)
    · intro exact'
      refine ⟨fun i positive inside =>
        SampleType.isSome_ofDouble_integer.mpr (exact' i positive inside).1,
        fun i positive inside sample member => ?_⟩
      obtain ⟨fits, outside⟩ := exact' i positive inside
      have away := fun nonneg fraction => outside nonneg fraction sample member
      obtain ⟨⟨_, value, rfl, _⟩, -, rfl⟩ := List.mem_map.mp member
      show (value : ℚ) < (binStart (hist.countTuples samples) i).getD 0 ↔ _
      rw [start inside fits]
      exact (SampleType.lt_truncate_iff _ value).mpr fun nonneg fraction equal =>
        away nonneg fraction (congrArg Int.cast equal)

end HistogramGeneric

/-- Bounds that three bins do not divide: the bins begin at 0, 3 1/3, 6 2/3 and 10. -/
def undivided : HistogramGeneric := ⟨0, 10, 3, by decide, by decide⟩

/-- The `int` 3. -/
def three : (SampleType.integer 4 true).Sample := ⟨3, 3, by norm_num, by decide⟩

/-- It is counted in the bin that begins at 0, and the next one is displayed as beginning at 3. -/
theorem countTuples_undivided :
    ¬ undivided.BinsMatch (undivided.countTuples [three]) [three] := by
  rintro ⟨-, -, counts⟩
  have between := counts.between 2 (by decide) (by decide)
  exact absurd between (by decide +kernel)

/-! ### The feature handler -/

/-- What `std::tuple<sample_type, std::size_t>` looks like in memory, and how its first component is
printed. -/
structure TupleFormat (type : SampleType) where
  size : Nat
  bytes : Option type.Sample × Nat → List UInt8
  length_bytes : ∀ tuple, (bytes tuple).length = size
  /-- The text of the first component. -/
  startText : List UInt8 → String
  text : Option type.Sample → String
  startText_bytes : ∀ tuple, startText (bytes tuple) = text tuple.1
  /-- The second component. -/
  value : List UInt8 → Nat
  value_bytes : ∀ tuple, value (bytes tuple) = tuple.2 % 2 ^ 64
  value_zero : value (List.replicate size 0) = 0

/-- The bytes of `(*hist_ptr)[i]`. -/
def tupleBytes (size : Nat) (bytes : List UInt8) (i : Nat) : List UInt8 :=
  (bytes.drop (i * size)).take size

theorem tupleBytes_flatMap {Item : Type} {size : Nat} {bytes : Item → List UInt8}
    (length : ∀ item, (bytes item).length = size) {items : List Item} {i : Nat} {item : Item}
    (found : items[i]? = some item) : tupleBytes size (items.flatMap bytes) i = bytes item := by
  induction items generalizing i with
  | nil => cases found
  | cons first items ih =>
    unfold tupleBytes
    rw [List.flatMap_cons]
    cases i with
    | zero =>
      obtain rfl : first = item := by simpa using found
      rw [Nat.zero_mul, List.drop_zero, List.take_left' (length first)]
    | succ i =>
      rw [Nat.succ_mul, Nat.add_comm, ← List.drop_drop, List.drop_left' (length first)]
      exact ih (by simpa using found)

namespace HistogramGeneric

variable {type : SampleType} (hist : HistogramGeneric) (format : TupleFormat type)

/-- **`traits<AccumSet, histogram_count>`**. Both texts are printed tuple by tuple, with a width of
their own. A cleared one prints `sample_type{}` for each, which is `0` for a number. -/
def histogramCount : Feature type.Sample where
  statName := "histogram (count)"
  size := (hist.numBins + 2) * format.size
  serialize samples := (hist.countTuples samples).flatMap format.bytes
  length_serialize samples := by
    rw [List.length_flatMap, List.map_congr_left fun tuple _ => format.length_bytes tuple,
      List.map_const', List.sum_replicate, length_countTuples, nsmul_eq_mul, Nat.cast_id]
  getTitle _ bytes := String.join ((List.range (hist.numBins + 2)).map fun i =>
    leftJustified 8 (format.startText (tupleBytes format.size bytes i)))
  showValue _ bytes := String.join ((List.range (hist.numBins + 2)).map fun i =>
    leftJustified 8 (toString (format.value (tupleBytes format.size bytes i))))
  showZero _ := String.join ((List.range (hist.numBins + 2)).map fun _ => leftJustified 8 "0")
  showValue_zero _ := by
    congr 1
    apply List.map_congr_left
    intro i member
    have inside : (i + 1) * format.size ≤ (hist.numBins + 2) * format.size :=
      Nat.mul_le_mul_right _ (List.mem_range.mp member)
    rw [Nat.succ_mul] at inside
    rw [tupleBytes, List.drop_replicate, List.take_replicate, Nat.min_eq_left (by omega),
      format.value_zero]
    rfl

/-- A text of every stored tuple. -/
theorem map_tupleBytes_serialize (samples : List type.Sample) (text : List UInt8 → String)
    {text' : Option type.Sample × Nat → String}
    (same : ∀ tuple, text (format.bytes tuple) = text' tuple) :
    (List.range (hist.numBins + 2)).map (fun i => text (tupleBytes format.size
        ((hist.histogramCount format).serialize samples) i)) =
      (hist.countTuples samples).map text' := by
  apply List.ext_getElem?
  intro i
  by_cases inside : i < hist.numBins + 2
  · have found := hist.getElem?_countTuples samples inside
    rw [List.getElem?_map, List.getElem?_range inside, Option.map_some, List.getElem?_map, found,
      Option.map_some, ← same, ← tupleBytes_flatMap format.length_bytes found]
    rfl
  · rw [List.getElem?_eq_none (by simpa using inside), List.getElem?_eq_none (by
      simpa using inside)]

/-- **The title shows the stored starts, the entry the stored values.** -/
theorem histogramCount_shown (samples : List type.Sample) (width : Nat)
    (entryFormat : Option EntryFormat) :
    (hist.histogramCount format).getTitle width ((hist.histogramCount format).serialize samples) =
        String.join ((hist.countTuples samples).map fun tuple =>
          leftJustified 8 (format.text tuple.1)) ∧
      (hist.histogramCount format).showValue entryFormat
          ((hist.histogramCount format).serialize samples) =
        String.join ((hist.countTuples samples).map fun tuple =>
          leftJustified 8 (toString (tuple.2 % 2 ^ 64))) := by
  constructor
  · exact congrArg String.join (hist.map_tupleBytes_serialize format samples
      (fun bytes => leftJustified 8 (format.startText bytes)) fun tuple =>
        congrArg (leftJustified 8) (format.startText_bytes tuple))
  · exact congrArg String.join (hist.map_tupleBytes_serialize format samples
      (fun bytes => leftJustified 8 (toString (format.value bytes))) fun tuple => by
        rw [format.value_bytes])

end HistogramGeneric

end StatLog.Stats
