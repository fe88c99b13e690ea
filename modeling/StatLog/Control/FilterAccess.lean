/-
**Which filters are safe.**

The source reads and writes the elements of its vectors by their numbers. The definitions of this
module do the same, and have no result where a number is not below the size of the vector.

* `Access.belongsToAlternative`, `Access.belongsToRange`, `Access.idxToDimString`: the source's
  functions with every access to a vector checked.
* `Access.idxToDimString_eq`: they have the results of the definitions without these numbers.
* **`filter_safe_iff`**: no vector is left exactly when no specifier that is looked at reaches an
  alternative with a second hyphen. `filter_leaves_vals`: for `1-2-3` one is.
-/

import StatLog.Control.Filter

namespace StatLog.Control

open MixedRadix Stats

namespace Access

/-- An assignment to an element. -/
def store (elements : List Nat) (number value : Nat) : Option (List Nat) :=
  if number < elements.length then some (elements.set number value) else none

/-- One of the alternatives of `belongs_to_range`; `vals` are the values that its pointers point to. -/
def belongsToAlternative (range : List Char) (val : Nat) : Option Bool := do
  let firstLast := range.splitOn '-'
  if firstLast.length = 1 then
    let first ← firstLast[0]?
    let theVal := convertStrToNumber first sizeMax
    some (theVal = val ∨ theVal = sizeMax)
  else
    let vals ← (List.range firstLast.length).foldlM (fun vals i => do
      let str ← firstLast[i]?
      let num ← vals[i]?
      store vals i (convertStrToNumber str num)) [0, sizeMax]
    let lowVal ← vals[0]?
    let highVal ← vals[1]?
    some (lowVal ≤ val ∧ val ≤ highVal)

def belongsToRange (rangeStr : List Char) (val : Nat) : Option Bool :=
  (rangeStr.splitOn '.').foldlM (fun found range =>
    if found then some true else belongsToAlternative range val) false

/-- One pass of the loop that finds the indices of a number. -/
def dimIndicesStep (dimSizes : List Nat) (state : List Nat × Nat) (i : Nat) :
    Option (List Nat × Nat) := do
  let j := dimSizes.length - 1 - i
  let size ← dimSizes[j]?
  let dimIndices ← store state.1 j (state.2 % size)
  some (dimIndices, state.2 / size)

def dimIndices (dimSizes : List Nat) (idx : Nat) : Option (List Nat) := do
  let state ← (List.range dimSizes.length).foldlM (dimIndicesStep dimSizes)
    (List.replicate dimSizes.length 0, idx)
  some state.1

/-- One pass of the loop that writes the label. -/
def labelStep (perDimRanges : List (List Char)) (dimIndices : List Nat) (state : String × Bool)
    (i : Nat) : Option (String × Bool) := do
  let print ←
    if i < perDimRanges.length ∧ state.2 then do
      let range ← perDimRanges[i]?
      let index ← dimIndices[i]?
      belongsToRange range index
    else some state.2
  let index ← dimIndices[i]?
  some (state.1 ++ toString index ++ (if i < dimIndices.length - 1 then "," else ": "), print)

/-- **`idx_to_dim_string`** with all its accesses. -/
def idxToDimString (arrayIndices : List Char) (dimSizes : List Nat) (idx : Nat) :
    Option (String × Bool) := do
  let dimIndices ← dimIndices dimSizes idx
  (List.range dimIndices.length).foldlM (labelStep (perDimRanges arrayIndices) dimIndices) ("", true)

/-! ### The loops without the numbers -/

theorem store_of_lt {elements : List Nat} {number : Nat} (inside : number < elements.length)
    (value : Nat) : store elements number value = some (elements.set number value) := if_pos inside

theorem belongsToAlternative_eq (range : List Char) (val : Nat) :
    belongsToAlternative range val = Control.belongsToAlternative range val := by
  unfold belongsToAlternative Control.belongsToAlternative
  match pieces : range.splitOn '-' with
  | [] => exact absurd pieces (List.splitOn_ne_nil _ _)
  | [first] => rfl
  | [first, last] => rfl
  | first :: last :: third :: more =>
    -- The pass for the third text finds no element of `vals`.
    have passes : List.range (first :: last :: third :: more).length =
        0 :: 1 :: 2 :: (List.range more.length).map (· + 3) := by
      simp [List.range_succ_eq_map, Function.comp_def]
    dsimp only
    rw [passes]
    rfl

theorem belongsToRange_eq (rangeStr : List Char) (val : Nat) :
    belongsToRange rangeStr val = Control.belongsToRange rangeStr val := by
  unfold belongsToRange Control.belongsToRange
  congr 1
  funext found range
  rw [belongsToAlternative_eq]

/-- One pass takes the size in front of those already used. -/
theorem dimIndicesStep_eq {dimSizes : List Nat} {i front : Nat}
    (position : front + 1 + i = dimSizes.length) (found : List Nat) (idx : Nat) :
    dimIndicesStep dimSizes (List.replicate (front + 1) 0 ++ found, idx) i =
      some (List.replicate front 0 ++ idx % dimSizes[front] :: found, idx / dimSizes[front]) := by
  have last : dimSizes.length - 1 - i = front := by omega
  have inside : front < dimSizes.length := by omega
  unfold dimIndicesStep
  dsimp only
  rw [last, List.getElem?_eq_getElem inside, List.replicate_succ', List.append_assoc,
    Option.bind_eq_bind, Option.bind_some, store_of_lt (by simp), List.set_append_right _ _ (by simp)]
  simp

/-- After `i` passes the last `i` indices are there, and the rest of the number is left. -/
theorem foldlM_dimIndicesStep (dimSizes : List Nat) (idx : Nat) {i front : Nat}
    (position : front + i = dimSizes.length) :
    (List.range i).foldlM (dimIndicesStep dimSizes) (List.replicate dimSizes.length 0, idx) =
      some (List.replicate front 0 ++ ((dimSizes.drop front).foldr digitStep ([], idx)).1,
        ((dimSizes.drop front).foldr digitStep ([], idx)).2) := by
  induction i generalizing front with
  | zero =>
    rw [Nat.add_zero] at position
    rw [position, List.drop_length, List.foldr_nil, List.append_nil]
    rfl
  | succ i ih =>
    have inside : front < dimSizes.length := by omega
    rw [List.range_succ, List.foldlM_append, ih (by omega : front + 1 + i = dimSizes.length),
      Option.bind_eq_bind, Option.bind_some, List.foldlM_cons, dimIndicesStep_eq (by omega),
      List.drop_eq_getElem_cons inside]
    rfl

theorem dimIndices_eq (dimSizes : List Nat) (idx : Nat) :
    dimIndices dimSizes idx = some (digits dimSizes idx) := by
  unfold dimIndices
  rw [foldlM_dimIndicesStep dimSizes idx (Nat.zero_add _)]
  rfl

theorem doPrint_nil (ranges : List (List Char)) : doPrint ranges [] = some true := by
  cases ranges <;> rfl

/-- What one pass writes, and what it makes of `do_print`. -/
theorem labelStep_eq (ranges : List (List Char)) (done rest : List Nat) (index : Nat) (ss : String)
    (print : Bool) :
    labelStep ranges (done ++ index :: rest) (ss, print) done.length =
      (match ranges[done.length]?, print with
        | some range, true => Control.belongsToRange range index
        | _, _ => some print).map
        fun print => (ss ++ toString index ++ (if rest ≠ [] then "," else ": "), print) := by
  have here : (done ++ index :: rest)[done.length]? = some index := by simp
  have more : done.length < (done ++ index :: rest).length - 1 ↔ rest ≠ [] := by
    rw [List.length_append, List.length_cons, ← List.length_pos_iff]
    omega
  unfold labelStep
  simp only [here, more, belongsToRange_eq]
  by_cases below : done.length < ranges.length
  · cases print
    · simp
    · simp only [below, List.getElem?_eq_getElem below, and_self, if_true, Option.bind_eq_bind,
        Option.bind_some, Option.map_eq_bind]
      rfl
  · rw [List.getElem?_eq_none (by omega)]
    simp [below]

theorem dimString_cons (index : Nat) (rest : List Nat) :
    dimString (index :: rest) =
      toString index ++ (if rest ≠ [] then "," else ": ") ++ dimString rest := by
  cases rest with
  | nil => simp [dimString]
  | cons next rest => rfl

/-- The passes from an index on: they go on with `do_print` and write the rest of the label. -/
theorem foldlM_labelStep (ranges : List (List Char)) (done rest : List Nat) (ss : String)
    (print : Bool) :
    (List.range' done.length rest.length).foldlM (labelStep ranges (done ++ rest)) (ss, print) =
      (if print then doPrint (ranges.drop done.length) rest else some false).map
        fun print => (ss ++ dimString rest, print) := by
  induction rest generalizing done ss print with
  | nil =>
    rw [doPrint_nil, dimString, String.append_empty]
    cases print <;> rfl
  | cons index rest ih =>
    have next := ih (done ++ [index])
    rw [List.length_append, List.length_singleton, List.append_assoc, List.singleton_append] at next
    rw [List.length_cons, List.range'_succ, List.foldlM_cons, labelStep_eq, dimString_cons]
    simp only [← String.append_assoc]
    generalize ss ++ toString index ++ (if rest ≠ [] then "," else ": ") = written at next ⊢
    by_cases below : done.length < ranges.length
    · rw [List.getElem?_eq_getElem below, List.drop_eq_getElem_cons below, doPrint]
      cases print with
      | false => exact next written false
      | true =>
        rw [if_pos rfl]
        dsimp only
        cases Control.belongsToRange ranges[done.length] index with
        | none => rfl
        | some print => exact next written print
    · have none : ranges[done.length]? = none := List.getElem?_eq_none (by omega)
      have past := next written print
      rw [List.drop_eq_nil_of_le (by omega)] at past ⊢
      rw [none]
      cases print with
      | false => exact past
      | true => exact past

/-- **The numbers play no part but for the alternatives' texts.** -/
theorem idxToDimString_eq (arrayIndices : List Char) (dimSizes : List Nat) (idx : Nat) :
    idxToDimString arrayIndices dimSizes idx = Control.idxToDimString arrayIndices dimSizes idx := by
  have passes := foldlM_labelStep (perDimRanges arrayIndices) [] (digits dimSizes idx) "" true
  rw [List.length_nil, List.nil_append, ← List.range_eq_range', List.drop_zero, if_pos rfl] at passes
  unfold idxToDimString
  rw [dimIndices_eq, Option.bind_eq_bind, Option.bind_some, passes, Control.idxToDimString_eq]
  simp only [String.empty_append]

end Access

/-! ### Safe filters -/

theorem belongsToRange_isSome (rangeStr : List Char) (val : Nat) :
    (belongsToRange rangeStr val).isSome ↔ SpecifierSafe rangeStr val := by
  by_cases safe : SpecifierSafe rangeStr val
  · simp [belongsToRange_of_safe safe, safe]
  · simp [belongsToRange_of_not_safe safe, safe]

theorem doPrint_isSome (specifiers : List (List Char)) (indices : List Nat) :
    (doPrint specifiers indices).isSome ↔ SpecifiersSafe specifiers indices := by
  by_cases safe : SpecifiersSafe specifiers indices
  · simp [doPrint_of_safe safe, safe]
  · simp [doPrint_of_not_safe safe, safe]

theorem idxToDimString_isSome (arrayIndices : List Char) (dimSizes : List Nat) (idx : Nat) :
    (idxToDimString arrayIndices dimSizes idx).isSome ↔
      SpecifiersSafe (perDimRanges arrayIndices) (digits dimSizes idx) := by
  rw [idxToDimString_eq, Option.isSome_map, doPrint_isSome]

theorem entryLinesFrom_isSome (arrayIndices : List Char) (dimSizes : List Nat) (i : Nat)
    (entries : List String) :
    (entryLinesFrom arrayIndices dimSizes i entries).isSome ↔
      ∀ number, i ≤ number → number < i + entries.length →
        (idxToDimString arrayIndices dimSizes number).isSome := by
  induction entries generalizing i with
  | nil =>
    rw [entryLinesFrom, List.length_nil]
    exact ⟨fun _ number above below => absurd below (by omega), fun _ => rfl⟩
  | cons statEntry entries ih =>
    have first : (entryLinesFrom arrayIndices dimSizes i (statEntry :: entries)).isSome ↔
        (idxToDimString arrayIndices dimSizes i).isSome ∧
          (entryLinesFrom arrayIndices dimSizes (i + 1) entries).isSome := by
      rw [entryLinesFrom]
      cases idxToDimString arrayIndices dimSizes i with
      | none => simp
      | some label =>
        cases entryLinesFrom arrayIndices dimSizes (i + 1) entries <;> simp
    rw [first, ih, List.length_cons]
    constructor
    · rintro ⟨here, later⟩ number above below
      rcases Nat.eq_or_lt_of_le above with rfl | above
      · exact here
      · exact later number above (by omega)
    · intro all
      exact ⟨all i le_rfl (by omega), fun number above below => all number (by omega) (by omega)⟩

/-- The labels of the entries are those of the tuples. -/
theorem forall_number_iff {sizes : List Nat} {count : Nat} (all : count = sizes.prod)
    (P : List Nat → Prop) :
    (∀ number, number < count → P (digits sizes number)) ↔ ∀ idx, InBounds sizes idx → P idx := by
  rw [all, ← length_tuples]
  constructor
  · intro numbers idx bounded
    obtain ⟨number, below, rfl⟩ := List.getElem_of_mem (mem_tuples.mpr bounded)
    rw [← digits_eq_getElem below]
    exact numbers number below
  · intro tuples' number below
    rw [digits_eq_getElem below]
    exact tuples' _ (mem_tuples.mp (List.getElem_mem below))

theorem printDumpStat_isSome {output : StatCmdOutput} (name : String) (arrayIndices : List Char)
    (count : output.entries.length = output.dimensionSizes.prod) :
    (printDumpStat name arrayIndices output).isSome ↔
      ∀ idx, InBounds output.dimensionSizes idx → SpecifiersSafe (perDimRanges arrayIndices) idx := by
  rw [← forall_number_iff count]
  have entries : (entryLines arrayIndices output).isSome ↔ ∀ number, number < output.entries.length →
      SpecifiersSafe (perDimRanges arrayIndices) (digits output.dimensionSizes number) := by
    unfold entryLines
    rw [entryLinesFrom_isSome]
    simp only [Nat.zero_le, true_imp_iff, Nat.zero_add, idxToDimString_isSome]
  rw [← entries]
  unfold printDumpStat
  split
  · rename_i empty
    simp [entryLines, empty, entryLinesFrom]
  · rename_i some'
    -- The title takes the label of the first entry.
    have title : (entryLines arrayIndices output).isSome →
        (titleLines arrayIndices output).isSome := by
      intro safe
      have first := entries.mp safe 0 (List.length_pos_iff.mpr some')
      unfold titleLines
      split
      · rfl
      · obtain ⟨label, found⟩ := Option.isSome_iff_exists.mp
          ((idxToDimString_isSome arrayIndices output.dimensionSizes 0).mpr first)
        rw [found]
        rfl
    revert title
    cases titleLines arrayIndices output <;> cases entryLines arrayIndices output <;> simp

/-- **The vectors are left exactly when a second hyphen is reached.** The loop over the alternatives
of a specifier stays inside its vectors when every alternative with more than one hyphen stands behind
one that admits the index. For an entry only the specifiers of the leading dimensions are looked at, up
to the first that does not admit its index; and a whole stat is printed without leaving a vector when
the filter is safe for all its entries. -/
theorem filter_safe_iff (arrayIndices : List Char) :
    (∀ rangeStr val, (Access.belongsToRange rangeStr val).isSome ↔ SpecifierSafe rangeStr val) ∧
    (∀ sizes idx, InBounds sizes idx →
      ((Access.idxToDimString arrayIndices sizes (rank sizes idx)).isSome ↔
        SpecifiersSafe (perDimRanges arrayIndices) idx)) ∧
    ∀ name output, output.entries.length = output.dimensionSizes.prod →
      ((printDumpStat name arrayIndices output).isSome ↔
        ∀ idx, InBounds output.dimensionSizes idx →
          SpecifiersSafe (perDimRanges arrayIndices) idx) := by
  refine ⟨fun rangeStr val => ?_, fun sizes idx bounded => ?_, fun name output count => ?_⟩
  · rw [Access.belongsToRange_eq, belongsToRange_isSome]
  · rw [Access.idxToDimString_eq, idxToDimString_isSome, digits_rank bounded]
  · exact printDumpStat_isSome name arrayIndices count

/-- The filter `1.1-2-3` leaves `vals` for every index but one. -/
theorem filter_safe_iff_hyphens :
    let arrayIndices := ['1', '.', '1', '-', '2', '-', '3']
    SpecifiersSafe (perDimRanges arrayIndices) [1] ∧ ¬ SpecifiersSafe (perDimRanges arrayIndices) [0] :=
  ⟨((filter_safe_iff _).2.1 [2] [1] (by decide)).mp (by decide),
    fun safe => absurd (((filter_safe_iff _).2.1 [2] [0] (by decide)).mpr safe) (by decide)⟩

/-- The specifier `1-2-3`, which the user may write behind a tag. -/
def hyphensTag : List Char := ['T', ':', '1', '-', '2', '-', '3']

/-- **Not every filter is safe.** -/
theorem filter_leaves_vals :
    ¬ ∀ (tag : List Char) (sizes idx : List Nat), InBounds sizes idx →
      (Access.idxToDimString (TagDisplayDesc.ofTag tag).printOptions.arrayIndices sizes
        (rank sizes idx)).isSome := by
  intro always
  have safe := always hyphensTag [4] [0] (by decide)
  exact absurd safe (by decide)

end StatLog.Control
