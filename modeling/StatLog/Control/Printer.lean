/-
**Printing dumped stats.**

The printer labels every entry of a stat with its indices, which it computes from the number of the
entry and the sizes of the dimensions. With an index filter it prints some of the entries only.

* `belongsToRange`, `idxToDimString`, `printDumpStat`: the source's functions. `none` stands for an
  access behind the end of `vals`.
* `toList_dimString`, `dimString_inj`: the label of a tuple, and that no other tuple has it.
* **`entryLines_eq`**: without a filter there is one line for every tuple below the sizes.
-/

import Mathlib.Data.List.Basic
import StatLog.Lib.MixedRadix
import StatLog.Stats.Accumulator

namespace StatLog.Control

open MixedRadix Stats

/-! ### The index filter -/

/-- `std::numeric_limits<size_t>::max()`. -/
def sizeMax : Nat := 2 ^ 64 - 1

/-- Digits that fit a `size_t`. -/
def sizeOfDigits (digits : List Char) : Option Nat :=
  if digits ≠ [] ∧ digits.all Char.isDigit ∧ Nat.ofDigitChars 10 digits 0 ≤ sizeMax then
    some (Nat.ofDigitChars 10 digits 0)
  else none

/-- `boost::lexical_cast<size_t>`, which takes a sign as well; `none` for `bad_lexical_cast`. -/
def lexicalCast : List Char → Option Nat
  | '+' :: digits => sizeOfDigits digits
  | '-' :: digits => (sizeOfDigits digits).map fun number => (2 ^ 64 - number) % 2 ^ 64
  | digits => sizeOfDigits digits

/-- `convert_str_to_number`: what is no number leaves `num` as it was. -/
def convertStrToNumber (str : List Char) (num : Nat) : Nat := (lexicalCast str).getD num

/-- One of the alternatives of `belongs_to_range`. With more than one hyphen its loop leaves the two
elements of `vals`. -/
def belongsToAlternative (range : List Char) (val : Nat) : Option Bool :=
  match range.splitOn '-' with
  | [first] =>
    let theVal := convertStrToNumber first sizeMax
    some (theVal = val ∨ theVal = sizeMax)
  | [first, last] =>
    some (convertStrToNumber first 0 ≤ val ∧ val ≤ convertStrToNumber last sizeMax)
  | _ => none

def belongsToRange (rangeStr : List Char) (val : Nat) : Option Bool :=
  (rangeStr.splitOn '.').foldlM (fun found range =>
    if found then some true else belongsToAlternative range val) false

/-- Whether every index lies in the range given for it. -/
def doPrint : List (List Char) → List Nat → Option Bool
  | range :: ranges, index :: indices => do
    if ← belongsToRange range index then doPrint ranges indices else some false
  | _, _ => some true

/-! ### Labels -/

/-- The indices of a label, as they are written to the stream. -/
def dimString : List Nat → String
  | [] => ""
  | [index] => toString index ++ ": "
  | index :: next :: indices => toString index ++ "," ++ dimString (next :: indices)

/-- **`idx_to_dim_string`**, with `do_print`. -/
def idxToDimString (arrayIndices : List Char) (dimSizes : List Nat) (idx : Nat) :
    Option (String × Bool) := do
  let dimIndices := digits dimSizes idx
  let perDimRanges := if arrayIndices = [] then [] else arrayIndices.splitOn ','
  let print ← doPrint perDimRanges dimIndices
  some (dimString dimIndices, print)

/-! ### The output of one stat -/

/-- The entries that are printed, from the given number on, with their labels. -/
def entryLinesFrom (arrayIndices : List Char) (dimSizes : List Nat) :
    Nat → List String → Option (List (String × String))
  | _, [] => some []
  | i, statEntry :: entries => do
    let (idxStr, print) ← idxToDimString arrayIndices dimSizes i
    let lines ← entryLinesFrom arrayIndices dimSizes (i + 1) entries
    some (if print then (idxStr, statEntry) :: lines else lines)

/-- The loop over `stat_output.entries`. -/
def entryLines (arrayIndices : List Char) (output : StatCmdOutput) :
    Option (List (String × String)) :=
  entryLinesFrom arrayIndices output.dimensionSizes 0 output.entries

/-- The line of the title, behind as many blanks as a label has characters. -/
def titleLines (arrayIndices : List Char) (output : StatCmdOutput) : Option (List String) :=
  if output.entryTitle = "" then some []
  else do
    let (idxString, _) ← idxToDimString arrayIndices output.dimensionSizes 0
    some [String.ofList (List.replicate idxString.length ' ') ++ output.entryTitle]

/-- **`printDumpStat`** for one stat: the lines it prints. -/
def printDumpStat (name : String) (arrayIndices : List Char) (output : StatCmdOutput) :
    Option (List String) :=
  if output.entries = [] then some []
  else do
    let title ← titleLines arrayIndices output
    let lines ← entryLines arrayIndices output
    some (name :: title ++ lines.map fun line => line.1 ++ line.2)

/-! ### Labels denote tuples -/

/-- A label is its indices, separated by commas. -/
theorem toList_dimString {indices : List Nat} (some' : indices ≠ []) :
    (dimString indices).toList =
      List.intercalate [','] (indices.map (Nat.toDigits 10)) ++ [':', ' '] := by
  induction indices with
  | nil => exact absurd rfl some'
  | cons index indices ih =>
    cases indices with
    | nil =>
      rw [dimString, String.toList_append, Nat.toString_eq_repr, Nat.toList_repr, List.map_singleton,
        List.intercalate_singleton]
      rfl
    | cons next indices =>
      rw [dimString, String.toList_append, String.toList_append, Nat.toString_eq_repr,
        Nat.toList_repr, ih (List.cons_ne_nil _ _)]
      simp only [List.map_cons, List.intercalate_cons_cons, List.append_assoc]
      rfl

theorem toDigits_injective : Function.Injective (Nat.toDigits 10) := by
  intro index index' same
  have numbers := congrArg (fun digits => Nat.ofDigitChars 10 digits 0) same
  simpa using numbers

/-- No digit is a comma. -/
theorem comma_not_mem_toDigits (index : Nat) : ',' ∉ Nat.toDigits 10 index := by
  intro member
  have digit := Nat.isDigit_of_mem_toDigits (by decide) (by decide) member
  exact absurd digit (by decide)

/-- **No two tuples share a label.** -/
theorem dimString_inj {indices indices' : List Nat} (some' : indices ≠ []) (some'' : indices' ≠ [])
    (same : dimString indices = dimString indices') : indices = indices' := by
  have texts := congrArg String.toList same
  rw [toList_dimString some', toList_dimString some'', List.append_left_inj] at texts
  have pieces : ∀ {indices : List Nat}, indices ≠ [] →
      (List.intercalate [','] (indices.map (Nat.toDigits 10))).splitOn ',' =
        indices.map (Nat.toDigits 10) := by
    intro indices some'
    refine List.splitOn_intercalate ',' (fun piece member => ?_) (by simpa using some')
    obtain ⟨index, -, rfl⟩ := List.mem_map.mp member
    exact comma_not_mem_toDigits index
  have split := congrArg (List.splitOn ',') texts
  rw [pieces some', pieces some''] at split
  exact List.map_injective_iff.mpr toDigits_injective split

/-! ### Without a filter -/

theorem idxToDimString_nil (dimSizes : List Nat) (idx : Nat) :
    idxToDimString [] dimSizes idx = some (dimString (digits dimSizes idx), true) := by
  rw [idxToDimString, if_pos rfl, doPrint]
  · rfl
  · exact fun _ _ _ _ impossible => nomatch impossible

theorem entryLinesFrom_nil (dimSizes : List Nat) (i : Nat) (entries : List String) :
    entryLinesFrom [] dimSizes i entries =
      some ((entries.zipIdx i).map fun entry => (dimString (digits dimSizes entry.2), entry.1)) := by
  induction entries generalizing i with
  | nil => rfl
  | cons statEntry entries ih =>
    rw [entryLinesFrom, idxToDimString_nil, ih, List.zipIdx_cons, List.map_cons]
    rfl

/-- **There is one line for every tuple below the sizes**, with its label. -/
theorem entryLines_eq {output : StatCmdOutput} {sizes : List Nat} {shown : List Nat → String}
    (dimensions : output.dimensionSizes = sizes)
    (entries : output.entries = (tuples sizes).map shown) :
    entryLines [] output = some ((tuples sizes).map fun idx => (dimString idx, shown idx)) := by
  unfold entryLines
  rw [entryLinesFrom_nil, entries, dimensions]
  congr 1
  apply List.ext_getElem
  · simp
  intro number below below'
  rw [List.getElem_map, List.getElem_map, List.getElem_zipIdx, List.getElem_map, Nat.zero_add,
    digits_eq_getElem]

end StatLog.Control
