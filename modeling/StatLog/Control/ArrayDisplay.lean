/-
**Arrays on display.**

What is written to an element of a nested array, dumped by the control process and labelled by the
printer.

* `filter_label`: one line has the label of a given tuple.
* **`arrayDisplay_exact`**: a dump has one line for every tuple below the sizes, and the line shows the
  element's own state.
-/

import StatLog.Control.Printer
import StatLog.Stats.ArrayRun

namespace StatLog.Control

open ByteMemory MixedRadix Stats Transition

variable {Sample : Type}

/-- A list of one entry for every tuple. -/
theorem flatMap_eq_map_of_length {sizes : List Nat} {entries : List Nat → List String}
    (single : ∀ idx, (entries idx).length = 1) :
    (tuples sizes).flatMap entries = (tuples sizes).map fun idx => (entries idx).headD "" := by
  rw [← List.flatMap_singleton' (tuples sizes), List.map_flatMap, List.flatMap_assoc]
  apply List.flatMap_congr
  intro idx _
  obtain ⟨entry, only⟩ := List.length_eq_one_iff.mp (single idx)
  rw [List.flatMap_singleton, List.map_singleton, only]
  rfl

/-- **One line has the label of a tuple.** -/
theorem filter_label {sizes idx : List Nat} (some' : sizes ≠ []) (bounded : InBounds sizes idx)
    (shown : List Nat → String) :
    ((tuples sizes).map fun idx => (dimString idx, shown idx)).filter
      (fun line => line.1 = dimString idx) = [(dimString idx, shown idx)] := by
  have ne_nil : ∀ {idx}, InBounds sizes idx → idx ≠ [] := by
    rintro idx bounded rfl
    exact some' (List.forall₂_nil_left_iff.mp bounded)
  have labels : ∀ other ∈ tuples sizes,
      decide (dimString other = dimString idx) = (other == idx) := by
    intro other member
    rw [Bool.eq_iff_iff, decide_eq_true_iff, beq_iff_eq]
    refine ⟨fun same => ?_, fun same => congrArg dimString same⟩
    exact dimString_inj (ne_nil (mem_tuples.mp member)) (ne_nil bounded) same
  have once : (tuples sizes).count idx = 1 :=
    List.count_eq_one_of_mem (nodup_tuples sizes) (mem_tuples.mpr bounded)
  have only : (tuples sizes).filter (fun other => dimString other = dimString idx) = [idx] := by
    rw [List.filter_congr labels, List.filter_beq, once, List.replicate_one]
  rw [List.filter_map]
  exact congrArg (List.map fun idx => (dimString idx, shown idx)) only

/-- **The display of an array is exact.** After any operations whose writes are in range, a dump has
the sizes of the array and one entry for every tuple below them; and exactly one line carries the
label of a tuple, with the entry that the element shows when it is a stat on its own, at its own place
in the shared memory, to which the operations addressed to it were applied. -/
theorem arrayDisplay_exact {sizes : List Nat} (some' : sizes ≠ [])
    (positive : ∀ size ∈ sizes, 0 < size) {element : ElementType Sample}
    (shown : element ≠ .nullStat) (ptr : Nat) (mem : Mem) {calls : List (StatCall Sample)}
    (allowed : ∀ call ∈ calls, call.Allowed sizes) :
    ∃ state, run ((StatType.nested sizes element).step ptr) (.initial mem) calls = some state ∧
      let output := (StatType.nested sizes element).dump ptr state
      output.dimensionSizes = sizes ∧ output.entries.length = sizes.prod ∧
      ∃ lines, entryLines [] output = some lines ∧ ∀ idx, InBounds sizes idx →
        ∃ entry, lines.filter (fun line => line.1 = dimString idx) = [(dimString idx, entry)] ∧
        let elementPtr := StatImpl.elementPtr element.sharedSize sizes ptr idx
        ∃ part, run ((StatType.element element).step elementPtr) (.initial mem)
            (calls.filterMap (addressedTo sizes idx)) = some part ∧
          ((StatType.element element).dump elementPtr part).entries = [entry] := by
  -- Any tuple will do to see that the operations are possible.
  have zeros : InBounds sizes (sizes.map fun _ => 0) := by
    unfold InBounds
    rw [List.forall₂_map_left_iff, List.forall₂_same]
    exact positive
  obtain ⟨state, -, runs, -, -⟩ := run_nested element ptr some' positive zeros mem allowed
  have single : ∀ idx, ((element.toImpl false).shownEntries
      (StatImpl.elementPtr element.sharedSize sizes ptr idx) state.mem).length = 1 :=
    fun idx => ElementType.length_shownEntries shown _ _
  obtain ⟨dimensions, entries⟩ := dump_nested element ptr positive state
  rw [flatMap_eq_map_of_length single] at entries
  refine ⟨state, runs, dimensions, ?_, _, entryLines_eq dimensions entries, ?_⟩
  · rw [entries, List.length_map, length_tuples]
  · intro idx bounded
    obtain ⟨whole, part, runs', runsPart, mirrors⟩ :=
      run_nested element ptr some' positive bounded mem allowed
    rw [runs, Option.some.injEq] at runs'
    subst runs'
    obtain ⟨entry, only⟩ := List.length_eq_one_iff.mp (single idx)
    refine ⟨entry, ?_, part, runsPart, ?_⟩
    · rw [filter_label some' bounded, only]
      rfl
    · rw [← mirrors.shownEntries, only]

/-- A counter of the type `unsigned int`. -/
def unsignedCounter : ElementType Nat :=
  .simpleStat (simpleCounter (.integer 4 false) fun value => integerBytes 4 value)

/-- Two writes to one element, one of them with an index too many, and a write to another one. -/
def counterCalls : List (StatCall Nat) :=
  [.write [1, 2] 5, .write [0, 2] 7, .write [1, 2, 9] 6]

/-- The same with a pass of the serializer, and a write behind it. -/
def serializedCalls : List (StatCall Nat) := counterCalls ++ [.serialize, .write [1, 2] 8]

/-- An entry of a run that can be evaluated. -/
theorem entry_eq_of_run {element : ElementType Sample} {ptr : Nat} {mem : Mem}
    {calls : List (StatCall Sample)} {part : StatState Sample} {entry text : String}
    (runsPart : run ((StatType.element element).step ptr) (.initial mem) calls = some part)
    (shown : ((StatType.element element).dump ptr part).entries = [entry])
    (computed : (run ((StatType.element element).step ptr) (.initial mem) calls).map
      (fun part => ((StatType.element element).dump ptr part).entries) = some [text]) :
    entry = text := by
  rw [runsPart, Option.map_some, shown, Option.some.injEq] at computed
  exact List.singleton_inj.mp computed

/-- A row of counters, and one of accumulators, which show what the serializer has brought them. -/
theorem arrayDisplay_exact_counters :
    (∃ state lines,
      run ((StatType.nested [2, 3] unsignedCounter).step 0) (.initial fun _ => 0) counterCalls =
        some state ∧
      entryLines [] ((StatType.nested [2, 3] unsignedCounter).dump 0 state) = some lines ∧
      lines.filter (fun line => line.1 = dimString [1, 2]) = [("1,2: ", "11")]) ∧
    ∃ state lines,
      run ((StatType.nested [2, 3] (.accumulator [count])).step 0) (.initial fun _ => 0)
        serializedCalls = some state ∧
      entryLines [] ((StatType.nested [2, 3] (.accumulator [count])).dump 0 state) = some lines ∧
      lines.filter (fun line => line.1 = dimString [1, 2]) = [("1,2: ", "2")] := by
  constructor
  · obtain ⟨state, runs, -, -, lines, printed, exact⟩ := arrayDisplay_exact
      (List.cons_ne_nil 2 [3]) (by decide) (fun null => nomatch null : unsignedCounter ≠ .nullStat) 0
      (fun _ => 0) (by decide : ∀ call ∈ counterCalls, call.Allowed [2, 3])
    obtain ⟨entry, only, part, runsPart, shown⟩ := exact [1, 2] (by decide)
    obtain rfl : entry = "11" := entry_eq_of_run runsPart shown (by decide +kernel)
    exact ⟨state, lines, runs, printed, only⟩
  · obtain ⟨state, runs, -, -, lines, printed, exact⟩ := arrayDisplay_exact
      (List.cons_ne_nil 2 [3]) (by decide)
      (fun null => nomatch null : ElementType.accumulator [count] ≠ .nullStat) 0 (fun _ => 0)
      (by decide : ∀ call ∈ serializedCalls, call.Allowed [2, 3])
    obtain ⟨entry, only, part, runsPart, shown⟩ := exact [1, 2] (by decide)
    obtain rfl : entry = "2" := entry_eq_of_run runsPart shown (by decide +kernel)
    exact ⟨state, lines, runs, printed, only⟩

end StatLog.Control
