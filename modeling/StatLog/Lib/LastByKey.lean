/-
**Lists with one item for each key.**

A new item goes to the end and takes the place of the one with its key.

* `put`: the update.
* `lasts`: the last item of each key, without any updates.
* **`foldl_put`**: updates one after the other leave the last item of each key.
* `map_lasts`: the keys, in the order of their last items.
* `exists_of_mem_lasts`: an item of a list made of groups is from the last group that has its key.
-/

import Mathlib.Data.List.Dedup

namespace LastByKey

variable {Item Key Group : Type} [DecidableEq Key] (key : Item → Key)

/-- The item behind the others, without the ones of its key. -/
def put (items : List Item) (item : Item) : List Item :=
  items.filter (fun other => key other ≠ key item) ++ [item]

/-- **The last item of each key**, in order. -/
def lasts : List Item → List Item
  | [] => []
  | item :: items => if key item ∈ items.map key then lasts items else item :: lasts items

/-- **The keys, in the order of their last items.** -/
theorem map_lasts (items : List Item) : (lasts key items).map key = (items.map key).dedup := by
  induction items with
  | nil => rfl
  | cons item items ih =>
    rw [lasts, List.map_cons]
    by_cases later : key item ∈ items.map key
    · rw [if_pos later, List.dedup_cons_of_mem later, ih]
    · rw [if_neg later, List.dedup_cons_of_notMem later, List.map_cons, ih]

/-- Items of different keys are all kept. -/
theorem lasts_of_nodup {items : List Item} (distinct : (items.map key).Nodup) :
    lasts key items = items := by
  induction items with
  | nil => rfl
  | cons item items ih =>
    obtain ⟨fresh, rest⟩ := List.nodup_cons.mp distinct
    rw [lasts, if_neg fresh, ih rest]

/-- **Updates leave the last item of each key**, behind what there was of other keys. -/
theorem foldl_put (start items : List Item) :
    items.foldl (put key) start =
      start.filter (fun other => key other ∉ items.map key) ++ lasts key items := by
  induction items generalizing start with
  | nil =>
    rw [List.foldl_nil, lasts, List.append_nil]
    exact (List.filter_eq_self.mpr fun _ _ => by simp).symm
  | cons item items ih =>
    have others : start.filter (fun other => key other ∉ (item :: items).map key) =
        (start.filter fun other => key other ≠ key item).filter
          fun other => key other ∉ items.map key := by
      rw [List.filter_filter]
      apply List.filter_congr
      intro other _
      rw [List.map_cons, ← Bool.decide_and]
      exact decide_eq_decide.mpr (by rw [List.mem_cons, not_or, and_comm])
    rw [List.foldl_cons, ih, put, List.filter_append, others, List.append_assoc, lasts]
    by_cases later : key item ∈ items.map key
    · rw [if_pos later, List.filter_cons_of_neg (by simpa using later), List.filter_nil,
        List.nil_append]
    · rw [if_neg later, List.filter_cons_of_pos (by simpa using later), List.filter_nil]
      rfl

theorem lasts_append (items more : List Item) :
    lasts key (items ++ more) =
      (lasts key items).filter (fun other => key other ∉ more.map key) ++ lasts key more := by
  have all := foldl_put key [] (items ++ more)
  rw [List.foldl_append, foldl_put key [] items, foldl_put key _ more] at all
  simp only [List.filter_nil, List.nil_append] at all
  exact all.symm

/-- One more item is one more update. -/
theorem lasts_concat (items : List Item) (item : Item) :
    lasts key (items ++ [item]) = put key (lasts key items) item := by
  have all := foldl_put key [] (items ++ [item])
  rw [List.foldl_append, foldl_put key [] items] at all
  exact all.symm

theorem nodup_map_lasts (items : List Item) : ((lasts key items).map key).Nodup := by
  rw [map_lasts]
  exact List.nodup_dedup _

theorem mem_map_lasts {items : List Item} {value : Key} :
    value ∈ (lasts key items).map key ↔ value ∈ items.map key := by
  rw [map_lasts]
  exact List.mem_dedup

theorem mem_of_mem_lasts {items : List Item} {item : Item} (member : item ∈ lasts key items) :
    item ∈ items := by
  induction items with
  | nil => cases member
  | cons first items ih =>
    rw [lasts] at member
    split at member
    · exact List.mem_cons_of_mem _ (ih member)
    · rcases List.mem_cons.mp member with rfl | later
      · exact List.mem_cons_self
      · exact List.mem_cons_of_mem _ (ih later)

variable {key}

/-- **An item that is left comes from the last group with its key.** -/
theorem exists_of_mem_lasts {groups : List Group} {items : Group → List Item} {item : Item}
    (member : item ∈ lasts key (groups.flatMap items)) :
    ∃ earlier group later, groups = earlier ++ group :: later ∧ item ∈ items group ∧
      ∀ other ∈ later, key item ∉ (items other).map key := by
  induction groups with
  | nil => cases member
  | cons first groups ih =>
    rw [List.flatMap_cons, lasts_append] at member
    rcases List.mem_append.mp member with here | later
    · obtain ⟨kept, absent⟩ := List.mem_filter.mp here
      refine ⟨[], first, groups, rfl, mem_of_mem_lasts key kept, fun other belongs own => ?_⟩
      have present : key item ∈ (groups.flatMap items).map key := by
        rw [List.map_flatMap]
        exact List.mem_flatMap.mpr ⟨other, belongs, own⟩
      exact of_decide_eq_true absent present
    · obtain ⟨earlier, group, behind, split, inside, last⟩ := ih later
      exact ⟨first :: earlier, group, behind, by rw [split, List.cons_append], inside, last⟩

end LastByKey
