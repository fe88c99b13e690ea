/-
**Numbers of index tuples.**

The tuples below a list of sizes, in lexicographic order, are numbered from zero on; the last index
varies fastest.

* `tuples`, `rank`: the tuples, and the number of one. `map_rank_tuples`: the numbers are those below
  the product of the sizes, in order.
* `digits`: the indices of a number, by remainders from the last size on.
* **`digits_rank`**: the indices of a tuple's number are the tuple.
-/

import Mathlib.Algebra.BigOperators.Group.List.Basic
import Mathlib.Data.List.Forall2
import Mathlib.Data.List.Nodup

namespace MixedRadix

/-- There are as many indices as sizes, each below its own. -/
def InBounds (sizes idx : List Nat) : Prop := List.Forall₂ (· < ·) idx sizes

instance (sizes idx : List Nat) : Decidable (InBounds sizes idx) :=
  inferInstanceAs (Decidable (List.Forall₂ _ _ _))

/-- All tuples in bounds, in lexicographic order. -/
def tuples : List Nat → List (List Nat)
  | [] => [[]]
  | size :: sizes => (List.range size).flatMap fun i => (tuples sizes).map (i :: ·)

/-- The number of a tuple. -/
def rank : List Nat → List Nat → Nat
  | _ :: sizes, i :: idx => i * sizes.prod + rank sizes idx
  | _, _ => 0

/-- One remainder, with the indices found so far and what is left of the number. -/
def digitStep (size : Nat) (state : List Nat × Nat) : List Nat × Nat :=
  (state.2 % size :: state.1, state.2 / size)

/-- The indices of a number, the last one first. -/
def digits (sizes : List Nat) (number : Nat) : List Nat := (sizes.foldr digitStep ([], number)).1

variable {sizes idx : List Nat}

/-- A tuple in bounds leaves no size empty. -/
theorem InBounds.pos (bounded : InBounds sizes idx) : ∀ size ∈ sizes, 0 < size := by
  induction bounded with
  | nil => exact List.forall_mem_nil _
  | cons below _ ih => exact List.forall_mem_cons.mpr ⟨Nat.zero_lt_of_lt below, ih⟩

/-- One more index behind a tuple. -/
theorem InBounds.concat (bounded : InBounds sizes idx) {size i : Nat} (below : i < size) :
    InBounds (sizes ++ [size]) (idx ++ [i]) :=
  List.rel_append bounded (List.Forall₂.cons below List.Forall₂.nil)

@[simp] theorem rank_nil (idx : List Nat) : rank [] idx = 0 := rfl

theorem mem_tuples : idx ∈ tuples sizes ↔ InBounds sizes idx := by
  induction sizes generalizing idx with
  | nil =>
    rw [tuples, List.mem_singleton, InBounds, List.forall₂_nil_right_iff]
  | cons size sizes ih =>
    rw [tuples, List.mem_flatMap, InBounds, List.forall₂_cons_right_iff]
    constructor
    · rintro ⟨i, member, inside⟩
      obtain ⟨rest, belongs, rfl⟩ := List.mem_map.mp inside
      exact ⟨i, rest, List.mem_range.mp member, ih.mp belongs, rfl⟩
    · rintro ⟨i, rest, below, bounded, rfl⟩
      exact ⟨i, List.mem_range.mpr below, List.mem_map_of_mem (ih.mpr bounded)⟩

/-- Blocks of equal length, one behind the other, make up one range. -/
theorem flatMap_range_blocks (count width : Nat) :
    ((List.range count).flatMap fun i => (List.range width).map (i * width + ·)) =
      List.range (count * width) := by
  induction count with
  | zero => rw [Nat.zero_mul, List.range_zero, List.flatMap_nil]
  | succ count ih =>
    rw [List.range_succ, List.flatMap_append, ih, Nat.succ_mul, List.range_add, List.flatMap_singleton]

/-- **The tuples are numbered in order.** -/
theorem map_rank_tuples (sizes : List Nat) :
    (tuples sizes).map (rank sizes) = List.range sizes.prod := by
  induction sizes with
  | nil => rfl
  | cons size sizes ih =>
    rw [tuples, List.map_flatMap, List.prod_cons, ← flatMap_range_blocks, ← ih]
    apply List.flatMap_congr
    intro i _
    rw [List.map_map, List.map_map]
    rfl

theorem length_tuples (sizes : List Nat) : (tuples sizes).length = sizes.prod := by
  have := congrArg List.length (map_rank_tuples sizes)
  rwa [List.length_map, List.length_range] at this

theorem nodup_tuples (sizes : List Nat) : (tuples sizes).Nodup := by
  apply List.Nodup.of_map (rank sizes)
  rw [map_rank_tuples]
  exact List.nodup_range

/-- The remainders of a number that stands before a tuple's own: they find the tuple, and leave what
stands in front of it. -/
theorem foldr_digitStep_rank (bounded : InBounds sizes idx) (front : Nat) :
    sizes.foldr digitStep ([], front * sizes.prod + rank sizes idx) = (idx, front) := by
  induction sizes generalizing idx front with
  | nil =>
    rw [InBounds, List.forall₂_nil_right_iff] at bounded
    rw [bounded, List.foldr_nil, List.prod_nil, Nat.mul_one]
    rfl
  | cons size sizes ih =>
    obtain ⟨i, rest, below, later, rfl⟩ := List.forall₂_cons_right_iff.mp bounded
    have number : front * (size :: sizes).prod + rank (size :: sizes) (i :: rest) =
        (front * size + i) * sizes.prod + rank sizes rest := by
      rw [List.prod_cons, rank, Nat.add_mul, Nat.mul_assoc, Nat.add_assoc]
    rw [number, List.foldr_cons, ih later, digitStep, Nat.mul_comm, Nat.mul_add_mod,
      Nat.mod_eq_of_lt below, Nat.mul_add_div (Nat.zero_lt_of_lt below), Nat.div_eq_of_lt below,
      Nat.add_zero]

/-- **The indices of a tuple's number are the tuple.** -/
theorem digits_rank (bounded : InBounds sizes idx) : digits sizes (rank sizes idx) = idx := by
  have found := foldr_digitStep_rank bounded 0
  rw [Nat.zero_mul, Nat.zero_add] at found
  rw [digits, found]

/-- The indices of a number are the tuple that has this place in the order. -/
theorem digits_eq_getElem {number : Nat} (below : number < (tuples sizes).length) :
    digits sizes number = (tuples sizes)[number] := by
  have bounded := mem_tuples.mp (List.getElem_mem below)
  have numbered : ((tuples sizes).map (rank sizes))[number]? = some number := by
    rw [map_rank_tuples, List.getElem?_range (by rwa [← length_tuples])]
  rw [List.getElem?_map, List.getElem?_eq_getElem below, Option.map_some, Option.some.injEq] at numbered
  have found := digits_rank bounded
  rwa [numbered] at found

/-- The numbers of two tuples differ when the tuples do. -/
theorem rank_inj {other : List Nat} (bounded : InBounds sizes idx) (bounded' : InBounds sizes other)
    (same : rank sizes idx = rank sizes other) : idx = other := by
  rw [← digits_rank bounded, same, digits_rank bounded']

end MixedRadix
