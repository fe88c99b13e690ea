/-
**Items placed one behind the other.**

Each item has a size and starts where the one before it ends.

* `place`: the items with their offsets.
* `place_pairwise`, `end_le_of_mem_place`, `exists_mem_place`: the places are disjoint, lie in the
  total size and cover it.
* `map_place_congr`: the places depend on the sizes only; `place_shift`: they move with the first one.
-/

import Mathlib.Algebra.GroupWithZero.Nat
import Mathlib.Data.List.Basic

namespace Placement

variable {Item Item' Key : Type}

structure Placed (Item : Type) where
  item : Item
  offset : Nat

def totalSize (size : Item → Nat) (items : List Item) : Nat := (items.map size).sum

/-- The items from the given offset on. -/
def place (size : Item → Nat) (start : Nat) : List Item → List (Placed Item)
  | [] => []
  | item :: items => ⟨item, start⟩ :: place size (start + size item) items

variable (size : Item → Nat)

theorem totalSize_cons (item : Item) (items : List Item) :
    totalSize size (item :: items) = size item + totalSize size items := by
  rw [totalSize, List.map_cons, List.sum_cons, totalSize]

theorem totalSize_append (items more : List Item) :
    totalSize size (items ++ more) = totalSize size items + totalSize size more := by
  rw [totalSize, List.map_append, List.sum_append, totalSize, totalSize]

theorem totalSize_reverse (items : List Item) : totalSize size items.reverse = totalSize size items := by
  rw [totalSize, List.map_reverse, List.sum_reverse, totalSize]

theorem place_append (start : Nat) (items more : List Item) :
    place size start (items ++ more) =
      place size start items ++ place size (start + totalSize size items) more := by
  induction items generalizing start with
  | nil => rfl
  | cons item items ih =>
    rw [List.cons_append, place, ih, place, totalSize_cons, Nat.add_assoc, List.cons_append]

/-- Items that start later stand later. -/
theorem place_shift (start distance : Nat) (items : List Item) :
    place size (start + distance) items =
      (place size start items).map fun placed => ⟨placed.item, placed.offset + distance⟩ := by
  induction items generalizing start with
  | nil => rfl
  | cons item items ih =>
    rw [place, place, List.map_cons, ← ih, Nat.add_right_comm]

theorem map_item_place (start : Nat) (items : List Item) :
    (place size start items).map Placed.item = items := by
  induction items generalizing start with
  | nil => rfl
  | cons item items ih => rw [place, List.map_cons, ih]

variable {size}

theorem start_le_of_mem_place {start : Nat} {items : List Item} {placed : Placed Item}
    (member : placed ∈ place size start items) : start ≤ placed.offset := by
  induction items generalizing start with
  | nil => cases member
  | cons item items ih =>
    rcases List.mem_cons.mp member with rfl | later
    · exact Nat.le_refl _
    · exact Nat.le_trans (Nat.le_add_right _ _) (ih later)

/-- **Every item ends inside the total size.** -/
theorem end_le_of_mem_place {start : Nat} {items : List Item} {placed : Placed Item}
    (member : placed ∈ place size start items) :
    placed.offset + size placed.item ≤ start + totalSize size items := by
  induction items generalizing start with
  | nil => cases member
  | cons item items ih =>
    rw [totalSize_cons]
    rcases List.mem_cons.mp member with rfl | later
    · exact Nat.add_le_add_left (Nat.le_add_right _ _) _
    · have := ih later
      omega

/-- **No item begins before the ones in front of it end.** -/
theorem place_pairwise (start : Nat) (items : List Item) :
    (place size start items).Pairwise fun first second =>
      first.offset + size first.item ≤ second.offset := by
  induction items generalizing start with
  | nil => exact List.Pairwise.nil
  | cons item items ih =>
    exact List.pairwise_cons.mpr ⟨fun placed later => start_le_of_mem_place later, ih _⟩

/-- Two of the placed items do not overlap. -/
theorem apart_of_mem_place {start : Nat} {items : List Item} {first second : Placed Item}
    (member : first ∈ place size start items) (member' : second ∈ place size start items)
    (differ : first ≠ second) :
    first.offset + size first.item ≤ second.offset ∨
      second.offset + size second.item ≤ first.offset := by
  induction items generalizing start with
  | nil => cases member
  | cons item items ih =>
    rcases List.mem_cons.mp member with rfl | later
    · rcases List.mem_cons.mp member' with rfl | later'
      · exact absurd rfl differ
      · exact Or.inl (start_le_of_mem_place later')
    · rcases List.mem_cons.mp member' with rfl | later'
      · exact Or.inr (start_le_of_mem_place later)
      · exact ih later later'

variable (size) in
/-- **Every address of the total size lies in an item.** -/
theorem exists_mem_place {start address : Nat} {items : List Item} (lower : start ≤ address)
    (upper : address < start + totalSize size items) :
    ∃ placed ∈ place size start items,
      placed.offset ≤ address ∧ address < placed.offset + size placed.item := by
  induction items generalizing start with
  | nil => exact absurd upper (Nat.not_lt.mpr lower)
  | cons item items ih =>
    rw [totalSize_cons] at upper
    by_cases here : address < start + size item
    · exact ⟨⟨item, start⟩, List.mem_cons_self, lower, here⟩
    · obtain ⟨placed, member, inside⟩ := ih (Nat.not_lt.mp here) (by omega)
      exact ⟨placed, List.mem_cons_of_mem _ member, inside⟩

/-- **Items of the same keys and sizes are placed alike.** -/
theorem map_place_congr {size' : Item' → Nat} {key : Item → Key} {key' : Item' → Key} (start : Nat)
    {items : List Item} {items' : List Item'}
    (same : items.map (fun item => (key item, size item)) =
      items'.map fun item => (key' item, size' item)) :
    (place size start items).map (fun placed => (key placed.item, placed.offset, size placed.item)) =
      (place size' start items').map fun placed =>
        (key' placed.item, placed.offset, size' placed.item) := by
  induction items generalizing start items' with
  | nil =>
    rw [List.map_nil] at same
    rw [List.map_eq_nil_iff.mp same.symm]
    rfl
  | cons item items ih =>
    cases items' with
    | nil => cases same
    | cons item' items' =>
      rw [List.map_cons, List.map_cons, List.cons.injEq, Prod.mk.injEq] at same
      obtain ⟨⟨keys, sizes⟩, rest⟩ := same
      rw [place, place, List.map_cons, List.map_cons, sizes, ih _ rest, keys]

end Placement
