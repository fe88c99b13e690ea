/-
**The titles of stat types.**

`stat-types` prints one title for each stat. An array writes the title of its entries between its own
name and its size.

* `StatType.dimensions`, `StatType.elementType`: the sizes of nested arrays, and what is in them.
* `StatType.title`: the title; `doCommand_printStatType`: it is what PRINT_STAT_TYPE answers, whatever is
  in the shared memory.
* `readTitle`: the reader of titles. **`readTitle_title`**: it finds the sizes and the element.
-/

import Mathlib.Data.List.Infix
import StatLog.Stats.StatArray

namespace StatLog.Stats

open ByteMemory

variable {Sample : Type}

/-! ### Titles -/

/-- The sizes of nested arrays, the outermost first. -/
def StatType.dimensions : StatType Sample → List Nat
  | element _ => []
  | statArray size entry => size :: entry.dimensions

/-- What is in the innermost array. -/
def StatType.elementType : StatType Sample → ElementType Sample
  | element type => type
  | statArray _ entry => entry.elementType

def ElementType.title : ElementType Sample → String
  | simpleStat _ => "Simple Stat"
  | nullStat => "NULL stat"
  | accumulator features =>
    features.foldl (fun title feature => title ++ " " ++ feature.statName) "Accumulator:"

def StatType.title : StatType Sample → String
  | element type => type.title
  | statArray size entry => "STAT_ARRAY [" ++ entry.title ++ "] size = " ++ toString size

/-- **The answer to PRINT_STAT_TYPE.** -/
theorem doCommand_printStatType (type : StatType Sample) (ptr : Nat) (mem : Mem)
    (output : StatCmdOutput) :
    (ControlStatProxy.doCommand type ptr .printStatType mem output).2.entryTitle = type.title := by
  show ((statTypeToImpl false type).doStatCommand ptr .printStatType mem output).2.entryTitle = _
  induction type generalizing output with
  | element type => cases type <;> rfl
  | statArray size entry ih =>
    rw [statTypeToImpl_statArray, StatImpl.doStatCommand, if_pos rfl]
    show "STAT_ARRAY [" ++ _ ++ "] size = " ++ _ = _
    rw [ih, StatType.title]

/-! ### The reader -/

def arrayLead : List Char := "STAT_ARRAY [".toList

def sizeLead : List Char := "] size = ".toList

/-- The size and the title of the entries, if the title is that of an array. -/
def readArray (title : List Char) : Option (Nat × List Char) := do
  let rest ← arrayLead.isPrefixOf? title
  let inner ← sizeLead.reverse.isPrefixOf? (rest.reverse.dropWhile Char.isDigit)
  some (Nat.ofDigitChars 10 (rest.reverse.takeWhile Char.isDigit).reverse 0, inner.reverse)

/-- The sizes and the title of the element, for at most the given number of nested arrays. -/
def readArrays : Nat → List Char → List Nat × List Char
  | 0, title => ([], title)
  | depth + 1, title =>
    match readArray title with
    | none => ([], title)
    | some array => (array.1 :: (readArrays depth array.2).1, (readArrays depth array.2).2)

/-- **The reader**: every array takes more than one character of a title. -/
def readTitle (title : List Char) : List Nat × List Char := readArrays title.length title

theorem toList_title_statArray (size : Nat) (entry : StatType Sample) :
    (StatType.statArray size entry).title.toList =
      arrayLead ++ (entry.title.toList ++ (sizeLead ++ Nat.toDigits 10 size)) := by
  rw [StatType.title, String.toList_append, String.toList_append, String.toList_append,
    Nat.toString_eq_repr, Nat.toList_repr, List.append_assoc, List.append_assoc]
  rfl

theorem isDigit_of_mem_reverse_toDigits (size : Nat) :
    ∀ char ∈ (Nat.toDigits 10 size).reverse, char.isDigit = true :=
  fun _ member => Nat.isDigit_of_mem_toDigits (by decide) (by decide) (List.mem_reverse.mp member)

/-- **The title of an array is read back.** -/
theorem readArray_statArray (size : Nat) (entry : StatType Sample) :
    readArray (StatType.statArray size entry).title.toList = some (size, entry.title.toList) := by
  have digits := isDigit_of_mem_reverse_toDigits size
  have lead : arrayLead.isPrefixOf? (StatType.statArray size entry).title.toList =
      some (entry.title.toList ++ (sizeLead ++ Nat.toDigits 10 size)) := by
    rw [List.isPrefixOf?_eq_some_iff_append_eq, toList_title_statArray]
  have reversed : (entry.title.toList ++ (sizeLead ++ Nat.toDigits 10 size)).reverse =
      (Nat.toDigits 10 size).reverse ++ (sizeLead.reverse ++ entry.title.toList.reverse) := by
    rw [List.reverse_append, List.reverse_append, List.append_assoc]
  have stop : ∀ rest : List Char, (sizeLead.reverse ++ rest).takeWhile Char.isDigit = [] :=
    fun _ => rfl
  have stay : ∀ rest : List Char,
      (sizeLead.reverse ++ rest).dropWhile Char.isDigit = sizeLead.reverse ++ rest := fun _ => rfl
  have inner : sizeLead.reverse.isPrefixOf? (sizeLead.reverse ++ entry.title.toList.reverse) =
      some entry.title.toList.reverse := List.isPrefixOf?_eq_some_iff_append_eq.mpr rfl
  rw [readArray, lead, Option.bind_eq_bind, Option.bind_some, reversed,
    List.dropWhile_append_of_pos digits, List.takeWhile_append_of_pos digits, stop, stay, inner,
    List.append_nil, List.reverse_reverse, Nat.ofDigitChars_ten_toDigits]
  show some (size, entry.title.toList.reverse.reverse) = _
  rw [List.reverse_reverse]

theorem toList_foldl_title (features : List (Feature Sample)) (start : String) :
    (features.foldl (fun title feature => title ++ " " ++ feature.statName) start).toList =
      start.toList ++ features.flatMap fun feature => ' ' :: feature.statName.toList := by
  induction features generalizing start with
  | nil => exact (List.append_nil _).symm
  | cons feature features ih =>
    rw [List.foldl_cons, ih, String.toList_append, String.toList_append, List.flatMap_cons,
      List.append_assoc, List.append_assoc]
    rfl

/-- The title of an element is not that of an array. -/
theorem readArray_element (type : ElementType Sample) : readArray type.title.toList = none := by
  cases type with
  | simpleStat stat => exact (by decide : readArray "Simple Stat".toList = none)
  | nullStat => exact (by decide : readArray "NULL stat".toList = none)
  | accumulator features =>
    rw [ElementType.title, toList_foldl_title]
    rfl

theorem readArrays_title (type : StatType Sample) {depth : Nat}
    (enough : type.dimensions.length ≤ depth) :
    readArrays depth type.title.toList = (type.dimensions, type.elementType.title.toList) := by
  induction type generalizing depth with
  | element type =>
    cases depth with
    | zero => rfl
    | succ depth =>
      show readArrays (depth + 1) type.title.toList = _
      rw [readArrays, readArray_element]
      rfl
  | statArray size entry ih =>
    cases depth with
    | zero => exact absurd enough (Nat.not_succ_le_zero _)
    | succ depth =>
      rw [readArrays, readArray_statArray]
      show (size :: _, _) = _
      rw [ih (Nat.le_of_succ_le_succ enough)]
      rfl

theorem length_dimensions_le (type : StatType Sample) :
    type.dimensions.length ≤ type.title.toList.length := by
  induction type with
  | element type => exact Nat.zero_le _
  | statArray size entry ih =>
    rw [toList_title_statArray, List.length_append, List.length_append]
    have lead : arrayLead.length = 12 := rfl
    show entry.dimensions.length + 1 ≤ _
    omega

/-- **A title tells the sizes of all dimensions and the title of the element.** -/
theorem readTitle_title (type : StatType Sample) :
    readTitle type.title.toList = (type.dimensions, type.elementType.title.toList) :=
  readArrays_title type (length_dimensions_le type)

/-- A title is never empty. -/
theorem title_ne_empty (type : StatType Sample) : type.title.isEmpty = false := by
  have some' : type.title.toList ≠ [] := by
    cases type with
    | element type =>
      cases type with
      | simpleStat stat => exact (by decide : "Simple Stat".toList ≠ [])
      | nullStat => exact (by decide : "NULL stat".toList ≠ [])
      | accumulator features =>
        show (ElementType.accumulator features).title.toList ≠ []
        rw [ElementType.title, toList_foldl_title]
        exact List.cons_ne_nil _ _
    | statArray size entry =>
      rw [toList_title_statArray]
      exact List.cons_ne_nil _ _
  rw [Bool.eq_false_iff]
  intro empty
  rw [String.isEmpty_iff] at empty
  exact some' (by rw [empty]; rfl)

/-- No name of a feature contains a newline. -/
def ElementType.OneLine : ElementType Sample → Prop
  | accumulator features => ∀ feature ∈ features, '\n' ∉ feature.statName.toList
  | _ => True

/-- **Then no title does.** -/
theorem newline_notMem_title {type : StatType Sample} (oneLine : type.elementType.OneLine) :
    '\n' ∉ type.title.toList := by
  induction type with
  | element type =>
    cases type with
    | simpleStat stat => exact (by decide : '\n' ∉ "Simple Stat".toList)
    | nullStat => exact (by decide : '\n' ∉ "NULL stat".toList)
    | accumulator features =>
      show '\n' ∉ (ElementType.accumulator features).title.toList
      rw [ElementType.title, toList_foldl_title]
      refine List.not_mem_append (by decide) fun member => ?_
      obtain ⟨feature, belongs, inside⟩ := List.mem_flatMap.mp member
      rcases List.mem_cons.mp inside with blank | inside
      · cases blank
      · exact oneLine feature belongs inside
  | statArray size entry ih =>
    rw [toList_title_statArray]
    refine List.not_mem_append (by decide) (List.not_mem_append (ih oneLine)
      (List.not_mem_append (by decide) fun member => ?_))
    have digit := Nat.isDigit_of_mem_toDigits (by decide) (by decide) member
    exact absurd digit (by decide)

end StatLog.Stats
