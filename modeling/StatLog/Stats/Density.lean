/-
**Density histograms.**

A density histogram stores its counters divided by the number of samples. The serializer thread runs
from start-up on; `traits_common` asks for the number of samples before it extracts a feature, and
`traits_common_hist` does not.

* `average`, `resultDensity`: the division, which is undefined for a count of zero.
* `DensityStat.step`: `write`, `CLEAR_STAT` and `serialize` of one accumulator.
* `Normalised`: the densities of an empty accumulator are zero, those of any other sum to one.
* `normalised_of_nonempty`, `written_run`: samples that were written once are only ever replaced.
* **`density_normalised_iff`**: which runs divide by a count that is not zero, and store normalised
  densities.
-/

import Mathlib.Algebra.BigOperators.Ring.Finset
import Mathlib.Algebra.BigOperators.Ring.List
import StatLog.Lib.Transition
import StatLog.Stats.Histogram

namespace StatLog.Stats

open Binning Transition

/-- `numeric::average(total, count)`. -/
def average (total : ℚ) (count : Nat) : Option ℚ :=
  if count = 0 then none else some (total / count)

namespace HistogramGeneric

/-- `histogram_impl<Sample, true>::result`. -/
def resultDensity (hist : HistogramGeneric) (samples : List ℚ) : Option (List (ℚ × ℚ)) :=
  (hist.resultCount samples).mapM fun pair =>
    (average pair.2 samples.length).map fun density => (pair.1, density)

end HistogramGeneric

/-- **One accumulator with a density histogram**, with its shared memory. -/
structure DensityStat (type : SampleType) where
  acc : List type.Sample
  tuples : List (Option type.Sample × ℚ)
  controlWord : Nat

inductive DensityEvent (type : SampleType)
  | write (sample : type.Sample)
  | clear
  | serialize

namespace DensityStat

variable {type : SampleType} (hist : HistogramGeneric)

/-- At start-up the shared memory is zeroed. -/
def initial (zero : Option type.Sample) : DensityStat type :=
  ⟨[], List.replicate (hist.numBins + 2) (zero, 0), 0⟩

/-- **`AccumOp::write`, `AccumControl`'s `CLEAR_STAT` and `AccumOp::serialize`**; no step where a
division is undefined. -/
def step (stat : DensityStat type) : DensityEvent type → Option (DensityStat type)
  | .write sample =>
    if stat.controlWord ≠ 0 then some { stat with acc := [sample], controlWord := 0 }
    else some { stat with acc := stat.acc ++ [sample] }
  | .clear => some { stat with controlWord := 1 }
  | .serialize =>
    (hist.resultDensity (sampleValues stat.acc)).map fun result =>
      { stat with tuples := histSerialize type result }

end DensityStat

/-- **The stored densities are normalised**: all zero for an accumulator without samples, and
otherwise not negative and of sum one. -/
structure HistogramGeneric.Normalised {type : SampleType} (hist : HistogramGeneric)
    (stat : DensityStat type) : Prop where
  length : stat.tuples.length = hist.numBins + 2
  empty : stat.acc = [] → ∀ tuple ∈ stat.tuples, tuple.2 = 0
  nonneg : ∀ tuple ∈ stat.tuples, 0 ≤ tuple.2
  sum : stat.acc ≠ [] → (stat.tuples.map Prod.snd).sum = 1

/-- A sample was written before. -/
def Written {type : SampleType} (history : List (DensityEvent type)) : Prop :=
  ∃ sample, DensityEvent.write sample ∈ history

namespace HistogramGeneric

variable (hist : HistogramGeneric)

/-! ### The division -/

theorem mapM_eq_some_map {Item Value : Type} {f : Item → Option Value} {g : Item → Value}
    {items : List Item} (each : ∀ item ∈ items, f item = some (g item)) :
    items.mapM f = some (items.map g) := by
  induction items with
  | nil => rfl
  | cons item items ih =>
    rw [List.mapM_cons, each item List.mem_cons_self,
      ih fun other member => each other (List.mem_cons_of_mem item member)]
    rfl

theorem length_resultCount (samples : List ℚ) :
    (hist.resultCount samples).length = hist.numBins + 2 := by
  rw [resultCount, List.length_zip, length_binPositions, samplesInBin, length_increments,
    Nat.min_self]

/-- Without samples the division is undefined. -/
theorem resultDensity_nil : hist.resultDensity [] = none := by
  have length := hist.length_resultCount []
  rcases pairs : hist.resultCount [] with _ | ⟨pair, rest⟩
  · rw [pairs] at length
    cases length
  · rw [resultDensity, pairs, List.mapM_cons]
    rfl

/-- With samples every counter is divided by their number. -/
theorem resultDensity_of_ne_nil {samples : List ℚ} (some' : samples ≠ []) :
    hist.resultDensity samples =
      some ((hist.resultCount samples).map fun pair => (pair.1, (pair.2 : ℚ) / samples.length)) := by
  apply mapM_eq_some_map
  intro pair _
  rw [average, if_neg (List.length_pos_iff.mpr some').ne', Option.map_some]

/-- Every sample has a counter. -/
theorem binOf_lt (sample : ℚ) : hist.binOf sample < hist.numBins + 2 := by
  rcases hist.binOf_spec sample with ⟨bin, -⟩ | ⟨i, -, inside, bin, -, -⟩ | ⟨bin, -⟩ <;> omega

/-- The counters sum to the number of samples. -/
theorem sum_samplesInBin (samples : List ℚ) :
    (hist.samplesInBin samples).sum = samples.length :=
  sum_increments hist.binOf_lt samples

theorem map_snd_resultCount (samples : List ℚ) :
    (hist.resultCount samples).map Prod.snd = hist.samplesInBin samples := by
  apply List.map_snd_zip
  rw [length_binPositions, samplesInBin, length_increments]

/-- **The densities of some samples sum to one.** -/
theorem sum_densities {samples : List ℚ} (some' : samples ≠ []) :
    ((hist.resultCount samples).map fun pair => (pair.2 : ℚ) / samples.length).sum = 1 := by
  have total : (samples.length : ℚ) ≠ 0 := by
    rw [Nat.cast_ne_zero]
    exact (List.length_pos_iff.mpr some').ne'
  have counters : (hist.resultCount samples).map (fun pair => (pair.2 : ℚ)) =
      (hist.samplesInBin samples).map Nat.cast := by
    rw [← hist.map_snd_resultCount, List.map_map]
    rfl
  calc ((hist.resultCount samples).map fun pair => (pair.2 : ℚ) / samples.length).sum
      = ((hist.resultCount samples).map fun pair => (pair.2 : ℚ) * (samples.length : ℚ)⁻¹).sum := by
        simp only [div_eq_mul_inv]
    _ = ((hist.resultCount samples).map fun pair => (pair.2 : ℚ)).sum * (samples.length : ℚ)⁻¹ :=
        List.sum_map_mul_right _ _ _
    _ = ((hist.samplesInBin samples).sum : ℚ) * (samples.length : ℚ)⁻¹ := by
        rw [counters, Nat.cast_list_sum]
    _ = 1 := by rw [hist.sum_samplesInBin, mul_inv_cancel₀ total]

/-- **The densities of some samples are normalised.** -/
theorem normalised_of_nonempty {type : SampleType} {stat : DensityStat type} (some' : stat.acc ≠ []) :
    ∃ next, stat.step hist .serialize = some next ∧ hist.Normalised next := by
  have values : sampleValues stat.acc ≠ [] := by
    rwa [sampleValues, ne_eq, List.map_eq_nil_iff]
  refine ⟨_, by rw [DensityStat.step, hist.resultDensity_of_ne_nil values, Option.map_some], ?_⟩
  refine ⟨?_, fun empty => absurd empty some', ?_, fun _ => ?_⟩
  · show (histSerialize type _).length = _
    rw [histSerialize, List.length_map, List.length_map, length_resultCount]
  · intro tuple member
    obtain ⟨_, inner, rfl⟩ := List.mem_map.mp member
    obtain ⟨pair, -, rfl⟩ := List.mem_map.mp inner
    exact div_nonneg (Nat.cast_nonneg pair.2) (Nat.cast_nonneg _)
  · show ((histSerialize type _).map Prod.snd).sum = 1
    rw [histSerialize, List.map_map, List.map_map]
    exact hist.sum_densities values

end HistogramGeneric

/-! ### Runs -/

namespace DensityStat

variable {type : SampleType} {hist : HistogramGeneric} {zero : Option type.Sample}
  {history : List (DensityEvent type)} {stat : DensityStat type}

/-- **An accumulator is empty until the first write**, and never again: a reset is part of one. -/
theorem written_run (runs : run (step hist) (initial hist zero) history = some stat) :
    stat.acc ≠ [] ↔ Written history := by
  refine run_induction (step hist) (fun history stat => stat.acc ≠ [] ↔ Written history) ?_ ?_ runs
  · exact iff_of_false (fun some' => some' rfl) fun ⟨_, member⟩ => List.not_mem_nil member
  · intro history stat event next known taken
    have earlier : Written history → Written (history ++ [event]) :=
      fun ⟨sample, member⟩ => ⟨sample, List.mem_append_left _ member⟩
    have later : (∀ sample, event ≠ .write sample) → Written (history ++ [event]) → Written history := by
      rintro other ⟨sample, member⟩
      rcases List.mem_append.mp member with before | last
      · exact ⟨sample, before⟩
      · exact absurd (List.mem_singleton.mp last).symm (other sample)
    cases event with
    | write sample =>
      refine iff_of_true ?_ ⟨sample, List.mem_append_right _ List.mem_cons_self⟩
      rw [step] at taken
      split at taken
      · cases taken
        exact List.cons_ne_nil _ _
      · cases taken
        exact List.append_ne_nil_of_right_ne_nil _ (List.cons_ne_nil _ _)
    | clear =>
      cases taken
      exact known.trans ⟨earlier, later nofun⟩
    | serialize =>
      obtain ⟨result, -, rfl⟩ := Option.map_eq_some_iff.mp taken
      exact known.trans ⟨earlier, later nofun⟩

/-- Every step of the serializer comes after a write. -/
def SerializedAfterWrite (history : List (DensityEvent type)) : Prop :=
  ∀ before after, history = before ++ .serialize :: after → Written before

/-- Every step of the serializer divides by a count that is not zero, and stores normalised
densities. -/
def SerializesNormalised (hist : HistogramGeneric) (zero : Option type.Sample)
    (history : List (DensityEvent type)) : Prop :=
  ∀ before after, history = before ++ .serialize :: after →
    ∃ stat next, run (step hist) (initial hist zero) before = some stat ∧
      stat.step hist .serialize = some next ∧ hist.Normalised next

/-- Such runs meet no undefined division. -/
theorem run_of_serializedAfterWrite (ordered : SerializedAfterWrite history) :
    ∃ stat, run (step hist) (initial hist zero) history = some stat := by
  induction history using List.reverseRecOn with
  | nil => exact ⟨_, rfl⟩
  | append_singleton history event ih =>
    obtain ⟨stat, runs⟩ := ih fun before after split =>
      ordered before (after ++ [event]) (by rw [split, List.append_assoc, List.cons_append])
    suffices taken : ∃ next, stat.step hist event = some next by
      obtain ⟨next, taken⟩ := taken
      exact ⟨next, (run_concat (step hist)).mpr ⟨stat, runs, taken⟩⟩
    cases event with
    | write sample =>
      rw [step]
      split
      · exact ⟨_, rfl⟩
      · exact ⟨_, rfl⟩
    | clear => exact ⟨_, rfl⟩
    | serialize =>
      obtain ⟨next, taken, -⟩ :=
        hist.normalised_of_nonempty ((written_run runs).mpr (ordered history [] rfl))
      exact ⟨next, taken⟩

/-- **The serializer divides by a count that is not zero, and stores normalised densities, in exactly
those runs in which a sample was written before it first ran.** -/
theorem density_normalised_iff (hist : HistogramGeneric) (zero : Option type.Sample)
    (history : List (DensityEvent type)) :
    SerializesNormalised hist zero history ↔ SerializedAfterWrite history := by
  constructor
  · intro normalised before after split
    obtain ⟨stat, next, runs, taken, -⟩ := normalised before after split
    refine (written_run runs).mp fun empty => ?_
    have undefined : hist.resultDensity (sampleValues stat.acc) = none := by
      rw [empty]
      exact hist.resultDensity_nil
    rw [step, undefined] at taken
    cases taken
  · intro ordered before after split
    have ordered' : SerializedAfterWrite before := fun first rest inner =>
      ordered first (rest ++ .serialize :: after) (by
        rw [split, inner, List.append_assoc, List.cons_append])
    obtain ⟨stat, runs⟩ := run_of_serializedAfterWrite ordered'
    obtain ⟨next, taken, normalised⟩ :=
      hist.normalised_of_nonempty ((written_run runs).mpr (ordered before after split))
    exact ⟨stat, next, runs, taken, normalised⟩

/-- The serializer thread runs before the first write: it divides zero by zero. -/
theorem serialize_at_start : ¬ SerializesNormalised undivided (some three) [.serialize] := by
  intro normalised
  obtain ⟨stat, next, runs, taken, -⟩ := normalised [] [] rfl
  obtain rfl := Option.some.inj runs
  have undefined : step undivided (initial undivided (some three)) .serialize = none := rfl
  rw [undefined] at taken
  cases taken

end DensityStat

end StatLog.Stats
