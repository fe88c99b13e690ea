/-
**The index filter and its grammar.**

A tag of the command line may end in a colon and a filter: comma-separated specifiers, one for each
dimension, each of them empty or alternatives separated by dots.

* `TagDisplayDesc.ofTag`, `tagDispDescs`: how the command line is cut at the colons.
* `Admits`: what an alternative of at most one hyphen admits, whatever its text.
* `SpecifiersSafe`: no alternative with a second hyphen is reached. `doPrint_of_safe`: then every
  specifier admits what one of its alternatives admits; `doPrint_of_not_safe`: else `vals` is left.
* `Alternative`, `Filter.text`, `Filter.Admits`: the documented grammar and the sets it denotes.
* **`printDumpStat_filter`**: the entries printed are those the filter denotes.
-/

import Mathlib.Tactic.NormNum
import StatLog.Control.Printer

namespace StatLog.Control

open MixedRadix Stats

/-! ### The command line -/

structure PrintOptions where
  arrayIndices : List Char := []
  deriving DecidableEq

structure TagDisplayDesc where
  tagHname : List Char := []
  printOptions : PrintOptions := {}
  deriving DecidableEq

/-- One tag of `parseCommandLineArgs`. What stands behind a second colon is not looked at. -/
def TagDisplayDesc.ofTag (tag : List Char) : TagDisplayDesc :=
  match tag.splitOn ':' with
  | tagHname :: arrayIndices :: _ => ⟨tagHname, ⟨arrayIndices⟩⟩
  | [tagHname] => ⟨tagHname, {}⟩
  | [] => {}

/-- The descriptors of `parseCommandLineArgs`: without tags, the one that denotes all of them. -/
def tagDispDescs (tags : List (List Char)) : List TagDisplayDesc :=
  if tags = [] then [{}] else tags.map TagDisplayDesc.ofTag

/-- **The filter stands behind the colon.** -/
theorem TagDisplayDesc.ofTag_append {tagHname arrayIndices : List Char} (plain : ':' ∉ tagHname)
    (single : ':' ∉ arrayIndices) :
    TagDisplayDesc.ofTag (tagHname ++ ':' :: arrayIndices) = ⟨tagHname, ⟨arrayIndices⟩⟩ := by
  unfold TagDisplayDesc.ofTag
  rw [List.splitOn_append_cons_self_of_not_mem plain, List.splitOn_eq_singleton single]

/-! ### Alternatives of at most one hyphen -/

theorem length_splitOn (separator : Char) (text : List Char) :
    (text.splitOn separator).length = text.count separator + 1 := by
  induction text with
  | nil => rw [List.splitOn_nil, List.length_singleton, List.count_nil]
  | cons char text ih =>
    rw [List.splitOn_cons_eq_if_modifyHead, List.count_cons]
    split
    · rw [List.length_cons, ih]
    · rw [List.length_modifyHead, ih, Nat.add_zero]

/-- What an alternative with at most one hyphen admits. A text that is no number is passed over: it
leaves the bound open, and a whole alternative of this kind admits everything. -/
def Admits (range : List Char) (val : Nat) : Prop :=
  match range.splitOn '-' with
  | [number] => (lexicalCast number).getD sizeMax ∈ [val, sizeMax]
  | [low, high] => (lexicalCast low).getD 0 ≤ val ∧ val ≤ (lexicalCast high).getD sizeMax
  | _ => False

instance (range : List Char) (val : Nat) : Decidable (Admits range val) := by
  unfold Admits
  split <;> infer_instance

/-- A specifier admits what one of its alternatives admits. -/
def SpecifierAdmits (specifier : List Char) (val : Nat) : Prop :=
  ∃ range ∈ specifier.splitOn '.', Admits range val

instance (specifier : List Char) (val : Nat) : Decidable (SpecifierAdmits specifier val) :=
  inferInstanceAs (Decidable (∃ range ∈ specifier.splitOn '.', Admits range val))

theorem admits_of_splitOn_singleton {range number : List Char} (pieces : range.splitOn '-' = [number])
    (val : Nat) :
    Admits range val ↔ (lexicalCast number).getD sizeMax = val ∨
      (lexicalCast number).getD sizeMax = sizeMax := by
  unfold Admits
  rw [pieces]
  exact List.mem_pair

theorem admits_of_splitOn_pair {range low high : List Char} (pieces : range.splitOn '-' = [low, high])
    (val : Nat) :
    Admits range val ↔ (lexicalCast low).getD 0 ≤ val ∧ val ≤ (lexicalCast high).getD sizeMax := by
  unfold Admits
  rw [pieces]

theorem belongsToAlternative_eq {range : List Char} (val : Nat) (few : range.count '-' ≤ 1) :
    belongsToAlternative range val = some (decide (Admits range val)) := by
  have length := length_splitOn '-' range
  unfold belongsToAlternative
  split
  · rename_i number pieces
    rw [Option.some.injEq, decide_eq_decide, admits_of_splitOn_singleton pieces]
    rfl
  · rename_i low high pieces
    rw [Option.some.injEq, decide_eq_decide, admits_of_splitOn_pair pieces]
    rfl
  · rename_i notOne notTwo
    rcases pieces : range.splitOn '-' with _ | ⟨first, _ | ⟨second, _ | ⟨third, more⟩⟩⟩
    · exact absurd pieces (List.splitOn_ne_nil _ _)
    · exact absurd pieces (notOne first)
    · exact absurd pieces (notTwo first second)
    · rw [pieces, List.length_cons, List.length_cons, List.length_cons] at length
      omega

/-- More than one hyphen: the loop leaves `vals`. -/
theorem belongsToAlternative_eq_none {range : List Char} (val : Nat) (many : 2 ≤ range.count '-') :
    belongsToAlternative range val = none := by
  have pieces := length_splitOn '-' range
  unfold belongsToAlternative
  split
  · rename_i split
    rw [split, List.length_singleton] at pieces
    omega
  · rename_i split
    rw [split, List.length_cons, List.length_singleton] at pieces
    omega
  · rfl

/-- The loop over the alternatives returns with the first that admits the index. -/
theorem foldlM_found (ranges : List (List Char)) (val : Nat) :
    ranges.foldlM (fun found range => if found then some true else belongsToAlternative range val)
      true = some true := by
  induction ranges with
  | nil => rfl
  | cons range ranges ih => rw [List.foldlM_cons, if_pos rfl, Option.bind_eq_bind, Option.bind_some, ih]

/-! ### Which texts stay inside `vals` -/

/-- Every alternative with a second hyphen stands behind one that admits the index. -/
def AlternativesSafe (ranges : List (List Char)) (val : Nat) : Prop :=
  ∀ before range after, ranges = before ++ range :: after → 2 ≤ range.count '-' →
    ∃ earlier ∈ before, Admits earlier val

def SpecifierSafe (specifier : List Char) (val : Nat) : Prop :=
  AlternativesSafe (specifier.splitOn '.') val

/-- The specifiers of the leading dimensions are safe, up to the first that does not admit its
index. -/
def SpecifiersSafe (specifiers : List (List Char)) (indices : List Nat) : Prop :=
  ∀ before pair after, specifiers.zip indices = before ++ pair :: after →
    (∀ earlier ∈ before, SpecifierAdmits earlier.1 earlier.2) → SpecifierSafe pair.1 pair.2

/-- The ways to cut a list in front of an element: at the first one, or later. -/
theorem forall_cut_cons {Item : Type} (P : List Item → Item → Prop) (first : Item)
    (items : List Item) :
    (∀ before item after, first :: items = before ++ item :: after → P before item) ↔
      P [] first ∧ ∀ before item after, items = before ++ item :: after → P (first :: before) item := by
  constructor
  · intro cuts
    refine ⟨cuts [] first items rfl, ?_⟩
    rintro before item after rfl
    exact cuts (first :: before) item after rfl
  · rintro ⟨here, later⟩ before item after cut
    cases before with
    | nil =>
      rw [List.nil_append, List.cons.injEq] at cut
      rw [← cut.1]
      exact here
    | cons head before =>
      rw [List.cons_append, List.cons.injEq] at cut
      rw [← cut.1]
      exact later before item after cut.2

theorem alternativesSafe_of_few {ranges : List (List Char)} (val : Nat)
    (few : ∀ range ∈ ranges, range.count '-' ≤ 1) : AlternativesSafe ranges val := by
  rintro before range after rfl many
  have once := few range (by simp)
  omega

theorem alternativesSafe_nil (val : Nat) : AlternativesSafe [] val := by
  intro before range after cut
  exact absurd cut (by simp)

theorem alternativesSafe_cons {range : List Char} {ranges : List (List Char)} {val : Nat} :
    AlternativesSafe (range :: ranges) val ↔
      range.count '-' ≤ 1 ∧ (Admits range val ∨ AlternativesSafe ranges val) := by
  unfold AlternativesSafe
  refine (forall_cut_cons (fun before range => 2 ≤ range.count '-' →
    ∃ earlier ∈ before, Admits earlier val) range ranges).trans (and_congr ?_ ?_)
  · simp only [List.not_mem_nil, false_and, exists_false, imp_false]
    omega
  · by_cases admits : Admits range val <;> simp [admits]

theorem specifiersSafe_cons {specifier : List Char} {specifiers : List (List Char)} {index : Nat}
    {indices : List Nat} :
    SpecifiersSafe (specifier :: specifiers) (index :: indices) ↔
      SpecifierSafe specifier index ∧
        (SpecifierAdmits specifier index → SpecifiersSafe specifiers indices) := by
  unfold SpecifiersSafe
  rw [List.zip_cons_cons]
  refine (forall_cut_cons (fun before pair => (∀ earlier ∈ before,
    SpecifierAdmits earlier.1 earlier.2) → SpecifierSafe pair.1 pair.2) (specifier, index)
    (specifiers.zip indices)).trans (and_congr ?_ ?_)
  · exact ⟨fun safe => safe fun _ member => absurd member List.not_mem_nil, fun safe _ => safe⟩
  · by_cases admits : SpecifierAdmits specifier index
    · simp only [List.forall_mem_cons, admits, true_and, true_imp_iff]
    · simp only [List.forall_mem_cons, admits, false_and, false_imp_iff, implies_true]

/-- **A safe specifier admits what one of its alternatives admits.** -/
theorem foldlM_of_safe {ranges : List (List Char)} {val : Nat} (safe : AlternativesSafe ranges val) :
    ranges.foldlM (fun found range => if found then some true else belongsToAlternative range val)
      false = some (decide (∃ range ∈ ranges, Admits range val)) := by
  induction ranges with
  | nil => simp
  | cons range ranges ih =>
    obtain ⟨few, rest⟩ := alternativesSafe_cons.mp safe
    rw [List.foldlM_cons, if_neg Bool.false_ne_true, belongsToAlternative_eq val few,
      Option.bind_eq_bind, Option.bind_some]
    by_cases admits : Admits range val
    · rw [decide_eq_true admits, foldlM_found]
      simp [admits]
    · rw [decide_eq_false admits, ih (rest.resolve_left admits)]
      simp [admits]

theorem foldlM_of_not_safe {ranges : List (List Char)} {val : Nat}
    (leaves : ¬ AlternativesSafe ranges val) :
    ranges.foldlM (fun found range => if found then some true else belongsToAlternative range val)
      false = none := by
  induction ranges with
  | nil => exact absurd (alternativesSafe_nil val) leaves
  | cons range ranges ih =>
    rw [alternativesSafe_cons, not_and_or, not_or] at leaves
    rw [List.foldlM_cons, if_neg Bool.false_ne_true, Option.bind_eq_bind]
    by_cases few : range.count '-' ≤ 1
    · obtain ⟨rejects, rest⟩ := leaves.resolve_left (not_not_intro few)
      rw [belongsToAlternative_eq val few, decide_eq_false rejects, Option.bind_some, ih rest]
    · rw [belongsToAlternative_eq_none val (by omega), Option.bind_none]

theorem belongsToRange_of_safe {rangeStr : List Char} {val : Nat} (safe : SpecifierSafe rangeStr val) :
    belongsToRange rangeStr val = some (decide (SpecifierAdmits rangeStr val)) :=
  foldlM_of_safe safe

theorem belongsToRange_of_not_safe {rangeStr : List Char} {val : Nat}
    (leaves : ¬ SpecifierSafe rangeStr val) : belongsToRange rangeStr val = none :=
  foldlM_of_not_safe leaves

/-- **All indices with a specifier must be admitted by it.** -/
theorem doPrint_of_safe {specifiers : List (List Char)} {indices : List Nat}
    (safe : SpecifiersSafe specifiers indices) :
    doPrint specifiers indices =
      some (decide (∀ pair ∈ specifiers.zip indices, SpecifierAdmits pair.1 pair.2)) := by
  induction specifiers generalizing indices with
  | nil => simp [doPrint]
  | cons specifier specifiers ih =>
    cases indices with
    | nil => simp [doPrint]
    | cons index indices =>
      obtain ⟨first, later⟩ := specifiersSafe_cons.mp safe
      rw [doPrint, belongsToRange_of_safe first, Option.bind_eq_bind, Option.bind_some]
      by_cases admits : SpecifierAdmits specifier index
      · rw [decide_eq_true admits, if_pos rfl, ih (later admits), Option.some.injEq, decide_eq_decide,
          List.zip_cons_cons, List.forall_mem_cons]
        exact (and_iff_right admits).symm
      · rw [decide_eq_false admits, if_neg Bool.false_ne_true, Option.some.injEq, eq_comm,
          decide_eq_false_iff_not, List.zip_cons_cons, List.forall_mem_cons]
        exact fun both => admits both.1

theorem doPrint_of_not_safe {specifiers : List (List Char)} {indices : List Nat}
    (leaves : ¬ SpecifiersSafe specifiers indices) : doPrint specifiers indices = none := by
  induction specifiers generalizing indices with
  | nil => exact absurd (fun _ _ _ cut => absurd cut (by simp)) leaves
  | cons specifier specifiers ih =>
    cases indices with
    | nil => exact absurd (fun _ _ _ cut => absurd cut (by simp)) leaves
    | cons index indices =>
      rw [doPrint, Option.bind_eq_bind]
      by_cases first : SpecifierSafe specifier index
      · rw [specifiersSafe_cons, not_and_or, Classical.not_imp] at leaves
        obtain ⟨admits, later⟩ := leaves.resolve_left (not_not_intro first)
        rw [belongsToRange_of_safe first, Option.bind_some, decide_eq_true admits, if_pos rfl, ih later]
      · rw [belongsToRange_of_not_safe first, Option.bind_none]

theorem specifiersSafe_of_few {specifiers : List (List Char)} (indices : List Nat)
    (few : ∀ specifier ∈ specifiers, ∀ range ∈ specifier.splitOn '.', range.count '-' ≤ 1) :
    SpecifiersSafe specifiers indices := by
  intro before pair after cut _
  apply alternativesSafe_of_few
  apply few
  have member : pair ∈ specifiers.zip indices := by simp [cut]
  exact (List.of_mem_zip member).1

/-! ### The grammar -/

/-- A decimal digit string. Its value is below the one that stands for no number. -/
structure Numeral where
  digits : List Char
  nonempty : digits ≠ []
  decimal : digits.all Char.isDigit
  small : Nat.ofDigitChars 10 digits 0 < sizeMax

def Numeral.value (numeral : Numeral) : Nat := Nat.ofDigitChars 10 numeral.digits 0

/-- `n`, `n-m`, `n-` and `-m`. -/
inductive Alternative
  | single (number : Numeral)
  | between (low high : Numeral)
  | atLeast (low : Numeral)
  | atMost (high : Numeral)

def Alternative.text : Alternative → List Char
  | .single number => number.digits
  | .between low high => low.digits ++ '-' :: high.digits
  | .atLeast low => low.digits ++ ['-']
  | .atMost high => '-' :: high.digits

/-- The indices an alternative denotes. -/
def Alternative.denotes : Alternative → Set Nat
  | .single number => {number.value}
  | .between low high => Set.Icc low.value high.value
  | .atLeast low => Set.Ici low.value
  | .atMost high => Set.Iic high.value

instance (alternative : Alternative) (index : Nat) : Decidable (index ∈ alternative.denotes) :=
  match alternative with
  | .single number => inferInstanceAs (Decidable (index = number.value))
  | .between low high => inferInstanceAs (Decidable (low.value ≤ index ∧ index ≤ high.value))
  | .atLeast low => inferInstanceAs (Decidable (low.value ≤ index))
  | .atMost high => inferInstanceAs (Decidable (index ≤ high.value))

/-- The alternatives of one dimension. -/
abbrev Specifier := List Alternative

def Specifier.text (specifier : Specifier) : List Char :=
  List.intercalate ['.'] (specifier.map Alternative.text)

abbrev IndexFilter := List Specifier

def IndexFilter.text (filter : IndexFilter) : List Char :=
  List.intercalate [','] (filter.map Specifier.text)

/-- Every dimension that has a non-empty specifier has its index in the set of an alternative. -/
def IndexFilter.Admits (filter : IndexFilter) (idx : List Nat) : Prop :=
  ∀ pair ∈ filter.zip idx, pair.1 ≠ [] → ∃ alternative ∈ pair.1, pair.2 ∈ alternative.denotes

instance (filter : IndexFilter) (idx : List Nat) : Decidable (filter.Admits idx) :=
  inferInstanceAs (Decidable (∀ pair ∈ filter.zip idx, pair.1 ≠ [] →
    ∃ alternative ∈ pair.1, pair.2 ∈ alternative.denotes))

/-! ### Texts of the grammar are read as what they denote -/

theorem Numeral.not_mem {numeral : Numeral} {char : Char} (separator : char.isDigit = false) :
    char ∉ numeral.digits := by
  intro member
  have digit := List.all_eq_true.mp numeral.decimal char member
  rw [separator] at digit
  exact Bool.false_ne_true digit

/-- **A numeral is read as its value.** -/
theorem Numeral.lexicalCast_digits (numeral : Numeral) :
    lexicalCast numeral.digits = some numeral.value := by
  have read : sizeOfDigits numeral.digits = some numeral.value := by
    unfold sizeOfDigits
    rw [if_pos ⟨numeral.nonempty, numeral.decimal, numeral.small.le⟩]
    rfl
  unfold lexicalCast
  split
  · rename_i digits sign
    have member : '+' ∈ numeral.digits := by simp [sign]
    exact absurd member (Numeral.not_mem (by decide))
  · rename_i digits sign
    have member : '-' ∈ numeral.digits := by simp [sign]
    exact absurd member (Numeral.not_mem (by decide))
  · exact read

/-- The pieces of an alternative at its hyphen. -/
theorem Alternative.admits_text (alternative : Alternative) {val : Nat} (bounded : val ≤ sizeMax) :
    Control.Admits alternative.text val ↔ val ∈ alternative.denotes := by
  have noHyphen : ∀ numeral : Numeral, '-' ∉ numeral.digits :=
    fun numeral => Numeral.not_mem (by decide)
  cases alternative with
  | single number =>
    have pieces : (Alternative.single number).text.splitOn '-' = [number.digits] :=
      List.splitOn_eq_singleton (noHyphen number)
    rw [admits_of_splitOn_singleton pieces, number.lexicalCast_digits, Option.getD_some]
    have small : number.value ≠ sizeMax := number.small.ne
    simp only [small, or_false, Alternative.denotes, Set.mem_singleton_iff]
    exact eq_comm
  | between low high =>
    have pieces : (Alternative.between low high).text.splitOn '-' = [low.digits, high.digits] := by
      rw [Alternative.text, List.splitOn_append_cons_self_of_not_mem (noHyphen low),
        List.splitOn_eq_singleton (noHyphen high)]
    rw [admits_of_splitOn_pair pieces, low.lexicalCast_digits, high.lexicalCast_digits]
    rfl
  | atLeast low =>
    have pieces : (Alternative.atLeast low).text.splitOn '-' = [low.digits, []] := by
      rw [Alternative.text, List.splitOn_append_cons_self_of_not_mem (noHyphen low),
        List.splitOn_nil]
    rw [admits_of_splitOn_pair pieces, low.lexicalCast_digits]
    exact ⟨fun both => both.1, fun above => ⟨above, bounded⟩⟩
  | atMost high =>
    have pieces : (Alternative.atMost high).text.splitOn '-' = [[], high.digits] := by
      rw [Alternative.text, ← List.nil_append ('-' :: high.digits),
        List.splitOn_append_cons_self_of_not_mem List.not_mem_nil,
        List.splitOn_eq_singleton (noHyphen high)]
    rw [admits_of_splitOn_pair pieces, high.lexicalCast_digits]
    exact ⟨fun both => both.2, fun below => ⟨Nat.zero_le val, below⟩⟩

/-- A separator that is neither a hyphen nor a digit is in no alternative. -/
theorem Alternative.not_mem_text (alternative : Alternative) {char : Char}
    (separator : char.isDigit = false) (other : char ≠ '-') : char ∉ alternative.text := by
  have absent : ∀ numeral : Numeral, char ∉ numeral.digits := fun _ => Numeral.not_mem separator
  cases alternative with
  | single number => exact absent number
  | between low high => simp [Alternative.text, absent, other]
  | atLeast low => simp [Alternative.text, absent, other]
  | atMost high => simp [Alternative.text, absent, other]

/-- No alternative has two hyphens. -/
theorem Alternative.count_text (alternative : Alternative) : alternative.text.count '-' ≤ 1 := by
  have absent : ∀ numeral : Numeral, numeral.digits.count '-' = 0 :=
    fun numeral => List.count_eq_zero.mpr (Numeral.not_mem (by decide))
  cases alternative <;> simp [Alternative.text, absent]

/-- The alternatives of a specifier, as it is cut at the dots; the empty text is one alternative. -/
theorem Specifier.splitOn_text (specifier : Specifier) :
    specifier.text.splitOn '.' =
      if specifier = [] then [[]] else specifier.map Alternative.text := by
  unfold Specifier.text
  split
  · rename_i empty
    rw [empty]
    rfl
  · rename_i some'
    apply List.splitOn_intercalate
    · intro text member
      obtain ⟨alternative, -, rfl⟩ := List.mem_map.mp member
      exact alternative.not_mem_text (by decide) (by decide)
    · simpa using some'

theorem Specifier.few (specifier : Specifier) :
    ∀ range ∈ specifier.text.splitOn '.', range.count '-' ≤ 1 := by
  rw [specifier.splitOn_text]
  split
  · simp
  · intro range member
    obtain ⟨alternative, -, rfl⟩ := List.mem_map.mp member
    exact alternative.count_text

/-- **The empty specifier admits every index, another one what it denotes.** -/
theorem Specifier.admits_text (specifier : Specifier) {val : Nat} (bounded : val ≤ sizeMax) :
    SpecifierAdmits specifier.text val ↔
      (specifier ≠ [] → ∃ alternative ∈ specifier, val ∈ alternative.denotes) := by
  unfold SpecifierAdmits
  rw [specifier.splitOn_text]
  split
  · rename_i empty
    have everything : Control.Admits [] val :=
      (admits_of_splitOn_singleton (List.splitOn_nil '-') val).mpr (Or.inr rfl)
    simp [empty, everything]
  · rename_i some'
    simp only [List.mem_map, exists_exists_and_eq_and, ne_eq, some', not_false_eq_true, true_imp_iff,
      Alternative.admits_text _ bounded]

/-- What stands in a joined text stands in a piece or is the separator. -/
theorem mem_intercalate {char separator : Char} {pieces : List (List Char)}
    (member : char ∈ List.intercalate [separator] pieces) :
    char = separator ∨ ∃ piece ∈ pieces, char ∈ piece := by
  induction pieces with
  | nil => exact absurd member List.not_mem_nil
  | cons piece pieces ih =>
    cases pieces with
    | nil =>
      rw [List.intercalate_singleton] at member
      exact Or.inr ⟨piece, List.mem_singleton_self piece, member⟩
    | cons next pieces =>
      rw [List.intercalate_cons_cons, List.mem_append, List.mem_append, List.mem_singleton] at member
      rcases member with (inside | same) | later
      · exact Or.inr ⟨piece, List.mem_cons_self, inside⟩
      · exact Or.inl same
      · exact (ih later).imp_right fun ⟨piece, member, inside⟩ =>
          ⟨piece, List.mem_cons_of_mem _ member, inside⟩

/-- A separator that is no dot either is in no specifier. -/
theorem Specifier.not_mem_text (specifier : Specifier) {char : Char}
    (separator : char.isDigit = false) (other : char ≠ '-') (notDot : char ≠ '.') :
    char ∉ specifier.text := by
  intro member
  rcases mem_intercalate member with same | ⟨text, among, inside⟩
  · exact notDot same
  · obtain ⟨alternative, -, rfl⟩ := List.mem_map.mp among
    exact alternative.not_mem_text separator other inside

theorem IndexFilter.colon_not_mem (filter : IndexFilter) : ':' ∉ filter.text := by
  intro member
  rcases mem_intercalate member with same | ⟨text, among, inside⟩
  · exact absurd same (by decide)
  · obtain ⟨specifier, -, rfl⟩ := List.mem_map.mp among
    exact specifier.not_mem_text (by decide) (by decide) (by decide) inside

/-- The specifiers that `idx_to_dim_string` cuts out of a filter. -/
def perDimRanges (arrayIndices : List Char) : List (List Char) :=
  if arrayIndices = [] then [] else arrayIndices.splitOn ','

theorem idxToDimString_eq (arrayIndices : List Char) (dimSizes : List Nat) (idx : Nat) :
    idxToDimString arrayIndices dimSizes idx =
      (doPrint (perDimRanges arrayIndices) (digits dimSizes idx)).map fun print =>
        (dimString (digits dimSizes idx), print) := by
  unfold idxToDimString perDimRanges
  exact (Option.map_eq_bind ..).symm

/-- The pieces of a filter's text are the texts of its specifiers, if any of them has a text. -/
theorem IndexFilter.perDimRanges_text (filter : IndexFilter) (some' : filter.text ≠ []) :
    perDimRanges filter.text = filter.map Specifier.text := by
  unfold perDimRanges
  rw [if_neg some']
  apply List.splitOn_intercalate
  · intro text member
    obtain ⟨specifier, -, rfl⟩ := List.mem_map.mp member
    exact specifier.not_mem_text (by decide) (by decide) (by decide)
  · intro empty
    apply some'
    unfold IndexFilter.text
    rw [empty, List.intercalate_nil]

theorem Specifier.doPrint_map_text (filter : IndexFilter) {idx : List Nat}
    (bounded : ∀ index ∈ idx, index ≤ sizeMax) :
    doPrint (filter.map Specifier.text) idx = some (decide (filter.Admits idx)) := by
  have safe : SpecifiersSafe (filter.map Specifier.text) idx := by
    apply specifiersSafe_of_few
    intro text member
    obtain ⟨specifier, -, rfl⟩ := List.mem_map.mp member
    exact specifier.few
  rw [doPrint_of_safe safe, Option.some.injEq, decide_eq_decide]
  unfold IndexFilter.Admits
  rw [List.zip_map_left, List.forall_mem_map]
  apply forall₂_congr
  intro pair member
  exact pair.1.admits_text (bounded _ (List.of_mem_zip member).2)

/-- **A filter admits an entry when it denotes the indices.** -/
theorem IndexFilter.doPrint_text (filter : IndexFilter) {idx : List Nat}
    (bounded : ∀ index ∈ idx, index ≤ sizeMax) :
    doPrint (perDimRanges filter.text) idx = some (decide (filter.Admits idx)) := by
  by_cases empty : filter.text = []
  · -- At most one specifier, and that without a text: cut or not, it admits everything.
    rw [← Specifier.doPrint_map_text filter bounded]
    match filter with
    | [] => rw [empty]; rfl
    | [specifier] =>
      have noText : specifier.text = [] := by
        unfold IndexFilter.text at empty
        rwa [List.map_singleton, List.intercalate_singleton] at empty
      rw [empty, List.map_singleton, noText, perDimRanges, if_pos rfl]
      cases idx with
      | nil => rfl
      | cons index idx =>
        rw [doPrint, belongsToRange_of_safe (alternativesSafe_of_few index (by simp)), decide_eq_true]
        · cases idx <;> rfl
        · exact ⟨[], List.mem_singleton_self _, (admits_of_splitOn_singleton (List.splitOn_nil '-') _).mpr
            (Or.inr rfl)⟩
    | specifier :: next :: filter =>
      unfold IndexFilter.text at empty
      rw [List.map_cons, List.map_cons, List.intercalate_cons_cons] at empty
      simp at empty
  · rw [filter.perDimRanges_text empty, Specifier.doPrint_map_text filter bounded]

/-! ### The entries that are printed -/

theorem entryLinesFrom_eq {arrayIndices : List Char} {dimSizes : List Nat} (admits : List Nat → Bool)
    (i : Nat) (entries : List String)
    (prints : ∀ number, i ≤ number → number < i + entries.length →
      doPrint (perDimRanges arrayIndices) (digits dimSizes number) =
        some (admits (digits dimSizes number))) :
    entryLinesFrom arrayIndices dimSizes i entries =
      some ((((entries.zipIdx i).map fun entry => (digits dimSizes entry.2, entry.1)).filter
        fun entry => admits entry.1).map fun entry => (dimString entry.1, entry.2)) := by
  induction entries generalizing i with
  | nil => rfl
  | cons statEntry entries ih =>
    have first := prints i le_rfl (by rw [List.length_cons]; omega)
    have later := ih (i + 1) fun number above below =>
      prints number (by omega) (by rw [List.length_cons]; omega)
    rw [entryLinesFrom, idxToDimString_eq, first, later, List.zipIdx_cons, List.map_cons,
      List.filter_cons]
    cases admits (digits dimSizes i) <;> rfl

/-- The entries of a stat, each with its tuple. -/
theorem map_digits_zipIdx {sizes : List Nat} {entries : List String}
    (count : entries.length = sizes.prod) :
    (entries.zipIdx.map fun entry => (digits sizes entry.2, entry.1)) =
      (tuples sizes).zip entries := by
  apply List.ext_getElem
  · simp [length_tuples, count]
  intro number below below'
  rw [List.getElem_map, List.getElem_zipIdx, List.getElem_zip, Nat.zero_add, digits_eq_getElem]

/-- An index of a tuple below the sizes is below one of them. -/
theorem exists_size_of_mem {sizes idx : List Nat} (bounded : InBounds sizes idx) {index : Nat}
    (member : index ∈ idx) : ∃ size ∈ sizes, index < size := by
  induction bounded with
  | nil => exact absurd member List.not_mem_nil
  | cons less later ih =>
    rcases List.mem_cons.mp member with rfl | member
    · exact ⟨_, List.mem_cons_self, less⟩
    · obtain ⟨size, among, less⟩ := ih member
      exact ⟨size, List.mem_cons_of_mem _ among, less⟩

/-- **The filter prints what its grammar denotes.** Behind the tag's name a filter is given, of which
every text is one that the grammar derives; then the lines below the title are the entries of the
tuples that the filter admits, in order, each with its label. -/
theorem printDumpStat_filter (name : String) {tagHname : List Char} (plain : ':' ∉ tagHname)
    (filter : IndexFilter) {output : StatCmdOutput}
    (sizes : ∀ size ∈ output.dimensionSizes, size ≤ sizeMax)
    (count : output.entries.length = output.dimensionSizes.prod) :
    let tagDesc := TagDisplayDesc.ofTag (tagHname ++ ':' :: filter.text)
    tagDesc.tagHname = tagHname ∧
    ∃ title, title.length ≤ 1 ∧
      printDumpStat name tagDesc.printOptions.arrayIndices output =
        some (if output.entries = [] then [] else name :: title ++
          ((((tuples output.dimensionSizes).zip output.entries).filter
            fun entry => filter.Admits entry.1).map
              fun entry => dimString entry.1 ++ entry.2)) := by
  intro tagDesc
  have desc : tagDesc = ⟨tagHname, ⟨filter.text⟩⟩ :=
    TagDisplayDesc.ofTag_append plain filter.colon_not_mem
  rw [desc]
  have prints : ∀ number, number < output.entries.length →
      doPrint (perDimRanges filter.text) (digits output.dimensionSizes number) =
        some (decide (filter.Admits (digits output.dimensionSizes number))) := by
    intro number below
    apply filter.doPrint_text
    intro index member
    rw [count, ← length_tuples] at below
    rw [digits_eq_getElem below] at member
    have inside := mem_tuples.mp (List.getElem_mem below)
    obtain ⟨size, among, less⟩ := exists_size_of_mem inside member
    exact less.le.trans (sizes size among)
  have lines := entryLinesFrom_eq (fun idx => decide (filter.Admits idx)) 0 output.entries
    fun number _ below => prints number (by omega)
  rw [map_digits_zipIdx count] at lines
  unfold printDumpStat
  split
  · exact ⟨rfl, [], Nat.zero_le 1, rfl⟩
  · rename_i some'
    obtain ⟨title, single, printed⟩ : ∃ title, title.length ≤ 1 ∧
        titleLines filter.text output = some title := by
      unfold titleLines
      split
      · exact ⟨[], Nat.zero_le 1, rfl⟩
      · rw [idxToDimString_eq, prints 0 (List.length_pos_iff.mpr some')]
        exact ⟨_, le_rfl, rfl⟩
    refine ⟨rfl, title, single, ?_⟩
    rw [printed, entryLines, lines]
    simp

/-- The filter `1.2-,0`. -/
def rowsFilter : IndexFilter :=
  [[.single ⟨['1'], by decide, rfl, by decide⟩, .atLeast ⟨['2'], by decide, rfl, by decide⟩],
    [.single ⟨['0'], by decide, rfl, by decide⟩]]

def rowsOutput : StatCmdOutput :=
  { entryTitle := "", entries := ["a", "b", "c", "d", "e", "f", "g", "h"], dimensionSizes := [4, 2] }

theorem printDumpStat_filter_rows : ∃ title, title.length ≤ 1 ∧
    printDumpStat "STAT"
        (TagDisplayDesc.ofTag (['T'] ++ ':' :: rowsFilter.text)).printOptions.arrayIndices rowsOutput =
      some ("STAT" :: title ++ ["1,0: c", "2,0: e", "3,0: g"]) := by
  obtain ⟨-, title, single, printed⟩ := printDumpStat_filter "STAT" (by decide : ':' ∉ ['T'])
    rowsFilter (by decide : ∀ size ∈ rowsOutput.dimensionSizes, size ≤ sizeMax) (by decide)
  refine ⟨title, single, printed.trans ?_⟩
  have lines : (((tuples rowsOutput.dimensionSizes).zip rowsOutput.entries).filter
      fun entry => rowsFilter.Admits entry.1).map (fun entry => dimString entry.1 ++ entry.2) =
        ["1,0: c", "2,0: e", "3,0: g"] := by
    decide +kernel
  rw [lines, if_neg (by decide : rowsOutput.entries ≠ [])]

end StatLog.Control
