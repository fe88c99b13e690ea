/-
**Formatted output.**

A text stream with the formatting state of an `std::ostream`: the base of integers and the fill
character persist, the width is used up by the next insertion.

* `OStream.put`: one formatted insertion; `put_of_width_zero`.
* `Integer`: a value of an integer type, with the range of the type. `Integer.render` prints it:
  in hexadecimal a negative value is that of the unsigned type of the same width.
* `flatMap_eq_flatMap_iff`: two renderings of a list of items give the same text only item by item,
  if one of them is never shorter.
* **`Integer.render_hex_eq_iff`**: decimal and hexadecimal text agree exactly on `0` to `9`.
-/

import StatLog.Lib.Numeral

namespace OutputStream

open Numeral

/-! ### Streams -/

/-- The base of `std::dec` and `std::hex`. -/
inductive Base
  | dec
  | hex
  deriving DecidableEq, Repr

/-- What was written, and the formatting state. -/
structure OStream where
  text : List UInt8 := []
  base : Base := .dec
  fill : UInt8 := 32
  width : Nat := 0
  deriving DecidableEq

namespace OStream

/-- `std::hex`. -/
def hex (stream : OStream) : OStream := { stream with base := .hex }

/-- `std::setfill`. -/
def setfill (stream : OStream) (fill : UInt8) : OStream := { stream with fill }

/-- `std::setw`. -/
def setw (stream : OStream) (width : Nat) : OStream := { stream with width }

/-- **A formatted insertion** fills up to the width, on the left, and resets the width. -/
def put (stream : OStream) (chars : List UInt8) : OStream :=
  { stream with
    text := stream.text ++ (List.replicate (stream.width - chars.length) stream.fill ++ chars)
    width := 0 }

theorem put_of_width_zero {stream : OStream} (zero : stream.width = 0) (chars : List UInt8) :
    stream.put chars = { stream with text := stream.text ++ chars } := by
  rw [put, zero, Nat.zero_sub, List.replicate_zero, List.nil_append, ← zero]

end OStream

/-! ### Texts made of items -/

section Items

variable {Item : Type} {f g : Item → List UInt8}

/-- A measure that adds up is equal on every item when it is equal on the whole text. -/
theorem measure_eq_of_flatMap {measure : List UInt8 → Nat}
    (add : ∀ first second, measure (first ++ second) = measure first + measure second)
    {items : List Item} (le : ∀ item ∈ items, measure (f item) ≤ measure (g item))
    (same : measure (items.flatMap f) = measure (items.flatMap g)) :
    ∀ item ∈ items, measure (f item) = measure (g item) := by
  have total : ∀ items : List Item, (∀ item ∈ items, measure (f item) ≤ measure (g item)) →
      measure (items.flatMap f) ≤ measure (items.flatMap g) := by
    intro items le
    induction items with
    | nil => exact Nat.le_refl _
    | cons item items ih =>
      rw [List.forall_mem_cons] at le
      rw [List.flatMap_cons, List.flatMap_cons, add, add]
      exact Nat.add_le_add le.1 (ih le.2)
  induction items with
  | nil => exact List.forall_mem_nil _
  | cons item items ih =>
    rw [List.forall_mem_cons] at le ⊢
    rw [List.flatMap_cons, List.flatMap_cons, add, add] at same
    have here := le.1
    have later := total items le.2
    exact ⟨by omega, ih le.2 (by omega)⟩

/-- **Two texts are equal only item by item**, if the items of one never have more of some
character and, where they have as many, are never longer. -/
theorem flatMap_eq_flatMap_iff (char : UInt8) {items : List Item}
    (counts : ∀ item ∈ items, (f item).count char ≤ (g item).count char)
    (lengths : ∀ item ∈ items, (f item).count char = (g item).count char →
      (f item).length ≤ (g item).length) :
    items.flatMap f = items.flatMap g ↔ ∀ item ∈ items, f item = g item := by
  refine ⟨fun same => ?_, fun same => List.flatMap_congr same⟩
  have equalCounts := measure_eq_of_flatMap (fun _ _ => List.count_append) counts
    (congrArg (List.count char) same)
  have equalLengths := measure_eq_of_flatMap (fun _ _ => List.length_append)
    (fun item member => lengths item member (equalCounts item member)) (congrArg List.length same)
  clear counts lengths equalCounts
  induction items with
  | nil => exact List.forall_mem_nil _
  | cons item items ih =>
    rw [List.forall_mem_cons] at equalLengths ⊢
    rw [List.flatMap_cons, List.flatMap_cons] at same
    obtain ⟨here, later⟩ := List.append_inj same equalLengths.1
    exact ⟨here, ih later equalLengths.2⟩

end Items

/-! ### Integers -/

/-- A value of an integer type of the given width, signed or unsigned. -/
structure Integer where
  bits : Nat
  value : Int
  lower : -2 ^ bits ≤ 2 * value
  upper : value < 2 ^ bits
  deriving DecidableEq

/-- The sign of a negative number. -/
def minus : UInt8 := 45

namespace Integer

/-- The characters of an integer. -/
def render (integer : Integer) : Base → List UInt8
  | .dec =>
    if integer.value < 0 then minus :: numeral 10 integer.value.natAbs
    else numeral 10 integer.value.natAbs
  | .hex => numeral 16 (integer.value % 2 ^ integer.bits).toNat

theorem render_dec_of_nonneg {integer : Integer} (nonneg : 0 ≤ integer.value) :
    integer.render .dec = numeral 10 integer.value.natAbs :=
  if_neg (by omega)

theorem render_dec_of_neg {integer : Integer} (neg : integer.value < 0) :
    integer.render .dec = minus :: numeral 10 integer.value.natAbs :=
  if_pos neg

theorem render_hex_of_nonneg {integer : Integer} (nonneg : 0 ≤ integer.value) :
    integer.render .hex = numeral 16 integer.value.natAbs := by
  rw [render, Int.emod_eq_of_lt nonneg integer.upper]
  congr 1
  omega

/-- Hexadecimal text has no sign. -/
theorem minus_notMem_numeral {base : Nat} (small : base ≤ 16) (big : 1 < base) (number : Nat) :
    minus ∉ numeral base number := by
  intro member
  exact absurd (isDigit_of_mem_numeral small big number minus member) (by decide)

theorem count_minus_hex (integer : Integer) : (integer.render .hex).count minus = 0 :=
  List.count_eq_zero.mpr (minus_notMem_numeral (by decide) (by decide) _)

theorem count_minus_dec (integer : Integer) :
    (integer.render .dec).count minus = if integer.value < 0 then 1 else 0 := by
  have digits := List.count_eq_zero.mpr
    (minus_notMem_numeral (show 10 ≤ 16 by decide) (by decide) integer.value.natAbs)
  by_cases neg : integer.value < 0
  · rw [render_dec_of_neg neg, if_pos neg, List.count_cons_self, digits]
  · rw [render_dec_of_nonneg (by omega), if_neg neg, digits]

/-- A number has no more hexadecimal than decimal digits. -/
theorem length_hex_le {integer : Integer} (nonneg : 0 ≤ integer.value) :
    (integer.render .hex).length ≤ (integer.render .dec).length := by
  rw [render_hex_of_nonneg nonneg, render_dec_of_nonneg nonneg]
  have positive := length_numeral_pos 10 integer.value.natAbs
  rw [length_numeral_le_iff (by decide) positive]
  exact ((length_numeral_le_iff (by decide) positive).mp (Nat.le_refl _)).trans_le
    (Nat.pow_le_pow_left (by decide) _)

/-- **Decimal and hexadecimal text agree on `0` to `9` only.** -/
theorem render_hex_eq_iff {integer : Integer} (nonneg : 0 ≤ integer.value) :
    integer.render .hex = integer.render .dec ↔ integer.value ≤ 9 := by
  rw [render_hex_of_nonneg nonneg, render_dec_of_nonneg nonneg]
  have number : (integer.value.natAbs : Int) = integer.value := Int.natAbs_of_nonneg nonneg
  constructor
  · intro same
    by_contra big
    -- the last of several decimal digits, read in base sixteen, leaves the others too large
    have above : 10 ≤ integer.value.natAbs := by omega
    have hex := value_numeral (show 16 ≤ 16 by decide) (by decide) integer.value.natAbs
    rw [same, numeral_of_le (by decide) (by decide) above, value_append_singleton,
      digitValue_digit (by omega)] at hex
    have tens := value_le_value (show 10 ≤ 16 by decide) (numeral 10 (integer.value.natAbs / 10))
    rw [value_numeral (by decide) (by decide)] at tens
    omega
  · intro small
    rw [numeral_of_lt (by decide) (by omega), numeral_of_lt (by decide) (by omega)]

end Integer

end OutputStream
