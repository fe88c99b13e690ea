/-
**Numerals in text.**

Numbers written in a base up to sixteen, as the bytes of an output stream, and read back.

* `numeral`: the digits of a number without leading zeros. `numeral_of_lt`, `numeral_of_le` take
  the last digit off; `toUTF8_repr` says that this is how numbers are printed.
* **`value_numeral`**: reading a numeral gives the number back. `length_numeral_le_iff` counts its
  digits.
* `readFraction`: a number with a point, and `readFraction_eq`.
-/

import Mathlib.Algebra.Order.Field.Rat
import Mathlib.Data.List.Induction
import Mathlib.Tactic.FieldSimp
import Mathlib.Tactic.Linarith

namespace Numeral

/-! ### Digits -/

/-- The character of a digit: `0` to `9`, then the letters from `a` on. -/
def digit (number : Nat) : UInt8 := UInt8.ofNat (if number < 10 then 48 + number else 87 + number)

def digitValue (byte : UInt8) : Nat := if byte.toNat < 58 then byte.toNat - 48 else byte.toNat - 87

/-- The characters of the digits below sixteen. -/
def IsDigit (byte : UInt8) : Prop :=
  48 ≤ byte.toNat ∧ byte.toNat ≤ 57 ∨ 97 ≤ byte.toNat ∧ byte.toNat ≤ 102

instance (byte : UInt8) : Decidable (IsDigit byte) := inferInstanceAs (Decidable (_ ∨ _))

theorem digitValue_digit {number : Nat} (below : number < 16) : digitValue (digit number) = number := by
  have all : ∀ number < 16, digitValue (digit number) = number := by decide
  exact all number below

theorem isDigit_digit {number : Nat} (below : number < 16) : IsDigit (digit number) := by
  have all : ∀ number < 16, IsDigit (digit number) := by decide
  exact all number below

/-- The byte of a character below 256. -/
def charByte (char : Char) : UInt8 := UInt8.ofNat char.toNat

theorem charByte_digitChar {number : Nat} (below : number < 16) :
    charByte number.digitChar = digit number := by
  have all : ∀ number < 16, charByte (Nat.digitChar number) = digit number := by decide
  exact all number below

/-! ### Numerals -/

/-- The digits of a number, the first one not zero unless it is the only one. -/
def numeral (base number : Nat) : List UInt8 := (Nat.toDigits base number).map charByte

/-- The number with the given digits. -/
def value (base : Nat) (digits : List UInt8) : Nat :=
  digits.foldl (fun number byte => base * number + digitValue byte) 0

variable {base number : Nat}

theorem numeral_of_lt (small : base ≤ 16) (below : number < base) :
    numeral base number = [digit number] := by
  rw [numeral, Nat.toDigits_of_lt_base below, List.map_singleton, charByte_digitChar (by omega)]

theorem numeral_of_le (small : base ≤ 16) (big : 1 < base) (above : base ≤ number) :
    numeral base number = numeral base (number / base) ++ [digit (number % base)] := by
  have last : number % base < 16 := (Nat.mod_lt _ (by omega)).trans_le small
  rw [numeral, Nat.toDigits_of_base_le big above, List.map_append, List.map_singleton,
    charByte_digitChar last]
  rfl

/-- A property of numerals, by taking the last digit off. -/
theorem numeral_induction {motive : Nat → Prop} (big : 1 < base)
    (single : ∀ number < base, motive number)
    (append : ∀ number, base ≤ number → motive (number / base) → motive number) (number : Nat) :
    motive number := by
  induction number using Nat.strong_induction_on with
  | _ number ih =>
    by_cases below : number < base
    · exact single number below
    · exact append number (by omega) (ih _ (Nat.div_lt_self (by omega) big))

@[simp] theorem value_nil (base : Nat) : value base [] = 0 := rfl

theorem value_append_singleton (base : Nat) (digits : List UInt8) (byte : UInt8) :
    value base (digits ++ [byte]) = base * value base digits + digitValue byte := by
  rw [value, List.foldl_append]
  rfl

/-- Digits are worth more in a larger base. -/
theorem value_le_value {other : Nat} (le : base ≤ other) (digits : List UInt8) :
    value base digits ≤ value other digits := by
  induction digits using List.reverseRecOn with
  | nil => exact Nat.le_refl 0
  | append_singleton digits byte ih =>
    rw [value_append_singleton, value_append_singleton]
    exact Nat.add_le_add_right (Nat.mul_le_mul le ih) _

/-- **Reading a numeral gives the number back.** -/
theorem value_numeral (small : base ≤ 16) (big : 1 < base) (number : Nat) :
    value base (numeral base number) = number := by
  induction number using numeral_induction big with
  | single number below =>
    rw [numeral_of_lt small below, value, List.foldl_cons, List.foldl_nil, Nat.mul_zero, Nat.zero_add,
      digitValue_digit (by omega)]
  | append number above ih =>
    have last : number % base < 16 := (Nat.mod_lt _ (by omega)).trans_le small
    rw [numeral_of_le small big above, value_append_singleton, ih, digitValue_digit last,
      Nat.div_add_mod]

theorem isDigit_of_mem_numeral (small : base ≤ 16) (big : 1 < base) (number : Nat) :
    ∀ byte ∈ numeral base number, IsDigit byte := by
  induction number using numeral_induction big with
  | single number below =>
    rw [numeral_of_lt small below, List.forall_mem_singleton]
    exact isDigit_digit (by omega)
  | append number above ih =>
    have last : number % base < 16 := (Nat.mod_lt _ (by omega)).trans_le small
    rw [numeral_of_le small big above, List.forall_mem_append, List.forall_mem_singleton]
    exact ⟨ih, isDigit_digit last⟩

theorem length_numeral_pos (base number : Nat) : 0 < (numeral base number).length := by
  rw [numeral, List.length_map]
  exact Nat.length_toDigits_pos

/-- A numeral has at most `count` digits exactly when its number is below that power. -/
theorem length_numeral_le_iff (big : 1 < base) {count : Nat} (positive : 0 < count) :
    (numeral base number).length ≤ count ↔ number < base ^ count := by
  rw [numeral, List.length_map]
  exact Nat.length_toDigits_le_iff big positive

/-! ### The bytes of a printed number -/

theorem toListLoop_eq (bytes : ByteArray) (index : Nat) (read : List UInt8) :
    ByteArray.toList.loop bytes index read = read.reverse ++ bytes.data.toList.drop index := by
  induction index, read using ByteArray.toList.loop.induct bytes with
  | case1 index read inside ih =>
    have lt : index < bytes.data.toList.length := inside
    have byte : bytes.get! index = bytes.data.toList[index] := getElem!_pos bytes.data index inside
    rw [ByteArray.toList.loop, if_pos inside, ih, List.reverse_cons, List.append_assoc,
      List.drop_eq_getElem_cons lt, byte]
    rfl
  | case2 index read outside =>
    have behind : bytes.data.toList.length ≤ index := Nat.le_of_not_lt outside
    rw [ByteArray.toList.loop, if_neg outside, List.drop_of_length_le behind, List.append_nil]

theorem toList_eq (bytes : ByteArray) : bytes.toList = bytes.data.toList := by
  rw [ByteArray.toList, toListLoop_eq]
  rfl

theorem utf8EncodeChar_of_ascii {char : Char} (ascii : char.toNat < 128) :
    String.utf8EncodeChar char = [charByte char] := by
  rw [String.utf8EncodeChar_eq_singleton]
  · rfl
  · rw [Char.utf8Size, if_pos]
    show char.toNat ≤ 127
    omega

theorem toUTF8_ofList {chars : List Char} (ascii : ∀ char ∈ chars, char.toNat < 128) :
    (String.ofList chars).toUTF8.toList = chars.map charByte := by
  rw [toList_eq, String.toUTF8, String.toByteArray_ofList, List.utf8Encode,
    List.toList_data_toByteArray]
  induction chars with
  | nil => rfl
  | cons char chars ih =>
    rw [List.forall_mem_cons] at ascii
    rw [List.flatMap_cons, utf8EncodeChar_of_ascii ascii.1, ih ascii.2]
    rfl

/-- The bytes of two texts one after the other. -/
theorem toUTF8_append (first second : String) :
    (first ++ second).toUTF8.toList = first.toUTF8.toList ++ second.toUTF8.toList := by
  rw [toList_eq, toList_eq, toList_eq, String.toUTF8_eq_toByteArray, String.toByteArray_append,
    ByteArray.data_append, Array.toList_append]
  rfl

/-- Only the empty text has no bytes. -/
theorem toUTF8_eq_nil_iff {text : String} : text.toUTF8.toList = [] ↔ text = "" := by
  rw [toList_eq, String.toUTF8_eq_toByteArray, Array.toList_eq_nil_iff]
  constructor
  · intro empty
    rw [← String.toByteArray_inj]
    exact ByteArray.ext empty
  · rintro rfl
    rfl

/-- **Numbers are printed as decimal numerals.** -/
theorem toUTF8_repr (number : Nat) : number.repr.toUTF8.toList = numeral 10 number := by
  rw [Nat.repr_eq_ofList_toDigits, toUTF8_ofList]
  · rfl
  · intro char member
    have digit := Nat.isDigit_of_mem_toDigits (by decide) (by decide) member
    rw [Char.isDigit, Bool.and_eq_true, decide_eq_true_eq, decide_eq_true_eq] at digit
    have small : char.toNat ≤ 57 := digit.2
    omega

/-! ### Numbers with a point -/

/-- The decimal point. -/
def point : UInt8 := 46

/-- A number with a point, as a fraction. -/
def readFraction (text : List UInt8) : Option ℚ :=
  match text.splitOn point with
  | [whole, fraction] => some (value 10 whole + value 10 fraction / 10 ^ fraction.length)
  | _ => none

theorem ne_of_isDigit {byte other : UInt8} (isDigit : IsDigit byte) (noDigit : ¬ IsDigit other) :
    byte ≠ other := by
  rintro rfl
  exact noDigit isDigit

/-- Digits stand on both sides of the point. -/
theorem readFraction_eq {whole fraction : List UInt8} (wholeDigits : ∀ byte ∈ whole, IsDigit byte)
    (fractionDigits : ∀ byte ∈ fraction, IsDigit byte) :
    readFraction (whole ++ point :: fraction) =
      some ((value 10 whole : ℚ) + value 10 fraction / 10 ^ fraction.length) := by
  have noPoint : ¬ IsDigit point := by decide
  have left : point ∉ whole := fun member => ne_of_isDigit (wholeDigits _ member) noPoint rfl
  have right : point ∉ fraction := fun member => ne_of_isDigit (fractionDigits _ member) noPoint rfl
  rw [readFraction, List.splitOn_append_cons_self_of_not_mem left, List.splitOn_eq_singleton right]

end Numeral
