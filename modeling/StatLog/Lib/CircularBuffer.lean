/-
**Circular buffers of variable-size records.**

A circular buffer of `n` cells is filled one cell at a time from a cursor that wraps. What it holds
is the *window* of the last `n` items stored, oldest first, starting at the cursor.

* `CellStore`: a state with addressable cells, by two laws (a stored item is held; storing one cell
  keeps the others). `CellStore.Holds` says that a state holds a window, and
  `Holds.storeAll` that storing a list of items shifts the window.
* `window_records`: when every record is a list of items with one head, the window is a headless
  remainder followed by exactly the records that fit into the last `n` items whole.
* `visit`: a reader that walks the cells, emits each head and skips the items it announces.
  `Parses.visit_rotate`: started at any head, it emits all heads in a rotation of their order.
-/

import Mathlib.Data.List.DropRight
import Mathlib.Data.List.Nodup
import Mathlib.Data.Nat.Find
import Mathlib.Data.Nat.ModEq

namespace CircularBuffer

/-! ### Cells in circular order -/

/-- The `count` cells from position `start` on, in a buffer of `n` cells. -/
def cellsFrom (n start count : Nat) : List Nat :=
  (List.range count).map fun offset => (start + offset) % n

@[simp] theorem length_cellsFrom (n start count : Nat) : (cellsFrom n start count).length = count := by
  simp [cellsFrom]

theorem cellsFrom_add (n start count more : Nat) :
    cellsFrom n start (count + more) = cellsFrom n start count ++ cellsFrom n (start + count) more := by
  simp [cellsFrom, List.range_add, List.map_map, Function.comp_def, Nat.add_assoc]

theorem cellsFrom_succ (n start count : Nat) :
    cellsFrom n start (count + 1) = start % n :: cellsFrom n (start + 1) count := by
  rw [Nat.add_comm count 1, cellsFrom_add]
  rfl

theorem cellsFrom_congr {n start other : Nat} (same : start % n = other % n) (count : Nat) :
    cellsFrom n start count = cellsFrom n other count := by
  unfold cellsFrom
  apply List.map_congr_left
  intro offset _
  rw [Nat.add_mod, same, ← Nat.add_mod]

/-- A full round from a later cell is a full round from an earlier one, rotated. -/
theorem cellsFrom_round {n start count : Nat} (within : count ≤ n) :
    cellsFrom n (start + count) n =
      cellsFrom n (start + count) (n - count) ++ cellsFrom n start count := by
  conv_lhs => rw [show n = n - count + count by omega, cellsFrom_add]
  rw [show n - count + count = n by omega]
  congr 1
  refine cellsFrom_congr ?_ count
  rw [show start + count + (n - count) = start + n by omega, Nat.add_mod_right]

/-- Distinct positions of one round are distinct cells. -/
theorem add_mod_inj {n start first second : Nat} (firstLt : first < n) (secondLt : second < n)
    (same : (start + first) % n = (start + second) % n) : first = second := by
  have congruent : first ≡ second [MOD n] := Nat.ModEq.add_left_cancel' start same
  exact Nat.ModEq.eq_of_lt_of_lt congruent firstLt secondLt

theorem nodup_cellsFrom {n start count : Nat} (within : count ≤ n) :
    (cellsFrom n start count).Nodup := by
  unfold cellsFrom
  refine List.Nodup.map_on (fun first firstMem second secondMem same => ?_) List.nodup_range
  have firstLt := List.mem_range.mp firstMem
  have secondLt := List.mem_range.mp secondMem
  exact add_mod_inj (by omega) (by omega) same

theorem mem_cellsFrom_round {n start cell : Nat} (below : cell < n) :
    cell ∈ cellsFrom n start n := by
  have positive : 0 < n := by omega
  have wraps := Nat.mod_lt start positive
  have rounds : start + (cell + (n - start % n)) = cell + n * (start / n + 1) := by
    have := Nat.div_add_mod start n
    rw [Nat.mul_add, Nat.mul_one]
    omega
  refine List.mem_map.mpr ⟨(cell + (n - start % n)) % n, List.mem_range.mpr (Nat.mod_lt _ positive), ?_⟩
  rw [Nat.add_mod_mod, rounds, Nat.add_mul_mod_self_left, Nat.mod_eq_of_lt below]

/-! ### A store of cells -/

/-- A state with addressable cells: a stored item is held in its cell, and storing one cell keeps
the items of the others. `Ok` is what an item must satisfy to fit a cell. -/
structure CellStore (State Item : Type) where
  store : State → Nat → Item → State
  held : State → Nat → Item → Prop
  Ok : Item → Prop
  held_store : ∀ state cell item, Ok item → held (store state cell item) cell item
  held_store_of_ne : ∀ state cell other item kept, Ok item → Ok kept → other ≠ cell →
    held state other kept → held (store state cell item) other kept

namespace CellStore

variable {State Item : Type} (cells : CellStore State Item)

/-- Store the items one after the other, from a cursor that wraps at `n`. -/
def storeAll (n : Nat) : State → Nat → List Item → State
  | state, _, [] => state
  | state, cursor, item :: items => storeAll n (cells.store state cursor item) ((cursor + 1) % n) items

theorem storeAll_append {n cursor : Nat} (below : cursor < n) (state : State)
    (items more : List Item) :
    cells.storeAll n state cursor (items ++ more) =
      cells.storeAll n (cells.storeAll n state cursor items) ((cursor + items.length) % n) more := by
  induction items generalizing state cursor with
  | nil => rw [List.length_nil, Nat.add_zero, Nat.mod_eq_of_lt below]; rfl
  | cons item items ih =>
    rw [List.cons_append, storeAll, storeAll, ih (Nat.mod_lt _ (by omega)), Nat.mod_add_mod,
      List.length_cons, Nat.add_assoc, Nat.add_comm 1]

variable {cells} in
/-- A cell in which nothing was stored still holds what it held. -/
theorem held_storeAll_of_notMem {n cursor : Nat} (below : cursor < n) {items : List Item}
    (ok : ∀ item ∈ items, cells.Ok item) {state : State} {cell : Nat} {kept : Item}
    (okKept : cells.Ok kept) (held : cells.held state cell kept)
    (outside : cell ∉ cellsFrom n cursor items.length) :
    cells.held (cells.storeAll n state cursor items) cell kept := by
  induction items generalizing state cursor with
  | nil => exact held
  | cons item items ih =>
    rw [List.length_cons, cellsFrom_succ, Nat.mod_eq_of_lt below, List.mem_cons, not_or] at outside
    obtain ⟨different, later⟩ := outside
    rw [storeAll]
    refine ih (Nat.mod_lt _ (by omega)) (fun item member => ok item (List.mem_cons_of_mem _ member))
      (cells.held_store_of_ne _ _ _ _ _ (ok item List.mem_cons_self) okKept different held) ?_
    rwa [cellsFrom_congr (Nat.mod_mod _ _)]

variable {cells} in
/-- **At most `n` items stored one after the other are all held.** -/
theorem held_storeAll {n cursor : Nat} (below : cursor < n) {items : List Item}
    (ok : ∀ item ∈ items, cells.Ok item) (few : items.length ≤ n) (state : State) {offset : Nat}
    (inside : offset < items.length) :
    cells.held (cells.storeAll n state cursor items) ((cursor + offset) % n) items[offset] := by
  induction items generalizing state cursor offset with
  | nil => cases inside
  | cons item items ih =>
    have okLater : ∀ item ∈ items, cells.Ok item := fun item member =>
      ok item (List.mem_cons_of_mem _ member)
    rw [List.length_cons] at few inside
    have wrapped : (cursor + 1) % n < n := Nat.mod_lt _ (by omega)
    rw [storeAll]
    cases offset with
    | zero =>
      show cells.held _ (cursor % n) item
      rw [Nat.mod_eq_of_lt below]
      refine held_storeAll_of_notMem wrapped okLater (ok item List.mem_cons_self)
        (cells.held_store _ _ _ (ok item List.mem_cons_self)) ?_
      -- a round of at most `n` cells does not come back to the cursor
      have distinct : (cellsFrom n cursor (items.length + 1)).Nodup := nodup_cellsFrom few
      rw [cellsFrom_succ, Nat.mod_eq_of_lt below, List.nodup_cons] at distinct
      rw [cellsFrom_congr (Nat.mod_mod _ _)]
      exact distinct.1
    | succ offset =>
      have later := ih wrapped okLater (by omega) (cells.store state cursor item)
        (Nat.lt_of_succ_lt_succ inside)
      rw [Nat.mod_add_mod, Nat.add_assoc, Nat.add_comm 1] at later
      exact later

/-- **The window of a state**: `n` items, oldest first, in the cells from the cursor on. -/
structure Holds (n : Nat) (state : State) (cursor : Nat) (window : List Item) : Prop where
  length_eq : window.length = n
  ok : ∀ item ∈ window, cells.Ok item
  held : ∀ offset (inside : offset < window.length),
    cells.held state ((cursor + offset) % n) window[offset]

variable {cells} {n cursor : Nat} {state : State} {window : List Item}

/-- **One store drops the oldest item of the window and appends the new one.** -/
theorem Holds.store (holds : cells.Holds n state cursor window) (below : cursor < n) {item : Item}
    (ok : cells.Ok item) :
    cells.Holds n (cells.store state cursor item) ((cursor + 1) % n) (window.tail ++ [item]) := by
  have length := holds.length_eq
  refine ⟨by simp [length]; omega, fun kept member => ?_, fun offset inside => ?_⟩
  · rcases List.mem_append.mp member with old | new
    · exact holds.ok kept (List.mem_of_mem_tail old)
    · rw [List.mem_singleton.mp new]
      exact ok
  · rw [Nat.mod_add_mod, Nat.add_assoc]
    simp only [List.length_append, List.length_tail, List.length_singleton, length] at inside
    rcases Nat.lt_or_ge offset (n - 1) with early | last
    · have old : 1 + offset < window.length := by omega
      have different : (cursor + (1 + offset)) % n ≠ cursor := by
        intro same
        have back : (cursor + (1 + offset)) % n = (cursor + 0) % n :=
          same.trans (Nat.mod_eq_of_lt below).symm
        have := add_mod_inj (by omega) (by omega) back
        omega
      rw [List.getElem_append_left (by simp [length]; omega), List.getElem_tail]
      simp only [Nat.add_comm offset 1]
      exact cells.held_store_of_ne _ _ _ _ _ ok (holds.ok _ (List.getElem_mem old)) different
        (holds.held _ old)
    · have isLast : offset = n - 1 := by omega
      subst isLast
      rw [List.getElem_append_right (by simp [length]), List.getElem_singleton]
      rw [show cursor + (1 + (n - 1)) = cursor + n by omega, Nat.add_mod_right,
        Nat.mod_eq_of_lt below]
      exact cells.held_store _ _ _ ok

/-- The items of a segment of the window are held in consecutive cells. -/
theorem Holds.segment (holds : cells.Holds n state cursor window) {before items after : List Item}
    (parts : window = before ++ items ++ after) {offset : Nat} (inside : offset < items.length) :
    cells.held state ((cursor + before.length + offset) % n) items[offset] := by
  subst parts
  have held := holds.held (before.length + offset) (by simp only [List.length_append]; omega)
  rw [List.getElem_append_left (by simp only [List.length_append]; omega),
    List.getElem_append_right (Nat.le_add_right _ _)] at held
  simp only [Nat.add_sub_cancel_left] at held
  rw [Nat.add_assoc]
  exact held

theorem rtake_of_length_eq {items : List Item} (full : items.length = n) : items.rtake n = items := by
  simp [List.rtake, full]

/-- Shifting a full window by one item and then by the rest shifts it by all of them. -/
theorem rtake_tail_append (full : window.length = n) (positive : 0 < n) (item : Item)
    (items : List Item) :
    (window.tail ++ [item] ++ items).rtake n = (window ++ item :: items).rtake n := by
  cases window with
  | nil => simp at full; omega
  | cons oldest window =>
    simp only [List.length_cons] at full
    simp only [List.rtake, List.tail_cons, List.append_assoc, List.nil_append, List.cons_append,
      List.length_append, List.length_cons]
    rw [show window.length + (items.length + 1) + 1 - n =
      window.length + (items.length + 1) - n + 1 by omega, List.drop_succ_cons]

/-- The last items of a list end with all of a short enough suffix. -/
theorem rtake_append {before kept : List Item} (short : kept.length ≤ n)
    (long : n ≤ before.length + kept.length) :
    (before ++ kept).rtake n = before.rtake (n - kept.length) ++ kept := by
  rw [List.rtake, List.rtake, List.length_append, List.drop_append_of_le_length (by omega),
    show before.length + kept.length - n = before.length - (n - kept.length) by omega]

/-- **A run of stores leaves the last `n` items in the window.** -/
theorem Holds.storeAll (holds : cells.Holds n state cursor window) (below : cursor < n)
    {items : List Item} (ok : ∀ item ∈ items, cells.Ok item) :
    cells.Holds n (cells.storeAll n state cursor items) ((cursor + items.length) % n)
      ((window ++ items).rtake n) := by
  induction items generalizing state cursor window with
  | nil =>
    rw [List.append_nil, rtake_of_length_eq holds.length_eq, List.length_nil, Nat.add_zero,
      Nat.mod_eq_of_lt below]
    exact holds
  | cons item items ih =>
    have first := holds.store below (ok item List.mem_cons_self)
    have rest := ih first (Nat.mod_lt _ (by omega)) fun later member =>
      ok later (List.mem_cons_of_mem _ member)
    rw [Nat.mod_add_mod, Nat.add_assoc, Nat.add_comm 1,
      rtake_tail_append holds.length_eq (by omega)] at rest
    exact rest

end CellStore

/-! ### Records in the window -/

section Records

variable {Record Item : Type} (items : Record → List Item)

/-- The number of items of the records from the `index`-th on. -/
def sizeFrom (records : List Record) (index : Nat) : Nat :=
  ((records.drop index).map fun record => (items record).length).sum

/-- The number of items of the records before the `index`-th. -/
def sizeBefore (records : List Record) (index : Nat) : Nat :=
  ((records.take index).map fun record => (items record).length).sum

theorem sizeFrom_eq_length (records : List Record) (index : Nat) :
    sizeFrom items records index = ((records.drop index).flatMap items).length := by
  simp [sizeFrom, List.length_flatMap]

theorem sizeBefore_add_sizeFrom (records : List Record) (index : Nat) :
    sizeBefore items records index + sizeFrom items records index = (records.flatMap items).length := by
  rw [sizeBefore, sizeFrom, ← List.sum_append, ← List.map_append, List.take_append_drop,
    List.length_flatMap]

theorem sizeFrom_succ (records : List Record) {index : Nat} (inside : index < records.length) :
    sizeFrom items records index =
      (items records[index]).length + sizeFrom items records (index + 1) := by
  unfold sizeFrom
  rw [List.drop_eq_getElem_cons inside, List.map_cons, List.sum_cons]

theorem sizeBefore_succ (records : List Record) {index : Nat} (inside : index < records.length) :
    sizeBefore items records (index + 1) =
      sizeBefore items records index + (items records[index]).length := by
  unfold sizeBefore
  rw [List.take_succ_eq_append_getElem inside, List.map_append, List.sum_append]
  simp

theorem sizeFrom_antitone (records : List Record) {first second : Nat} (le : first ≤ second) :
    sizeFrom items records second ≤ sizeFrom items records first := by
  rw [sizeFrom_eq_length, sizeFrom_eq_length, show second = first + (second - first) by omega,
    ← List.drop_drop]
  conv_rhs => rw [← List.take_append_drop (second - first) (records.drop first)]
  rw [List.flatMap_append, List.length_append]
  omega

/-- A window ends with all records from an index on whose sizes sum to at most its length. -/
theorem window_split {n : Nat} {blank : List Item} (full : blank.length = n) (records : List Record)
    {index : Nat} (fits : sizeFrom items records index ≤ n) :
    (blank ++ records.flatMap items).rtake n =
      (blank ++ (records.take index).flatMap items).rtake (n - sizeFrom items records index) ++
        (records.drop index).flatMap items := by
  rw [sizeFrom_eq_length] at fits ⊢
  rw [← CellStore.rtake_append fits (by rw [List.length_append, full]; omega), List.append_assoc,
    ← List.flatMap_append, List.take_append_drop]

/-- **The records of a window.** In a buffer of `n` cells that started with headless items, the last
`n` items are a headless remainder followed by the records that fit whole, and these are the ones
whose own and later sizes sum to at most `n`. -/
theorem window_records (isHead : Item → Prop) (n : Nat) (blank : List Item)
    (full : blank.length = n) (blankHeadless : ∀ item ∈ blank, ¬ isHead item)
    (records : List Record) (tailHeadless : ∀ record, ∀ item ∈ (items record).tail, ¬ isHead item) :
    ∃ first ≤ records.length, ∃ remainder,
      (blank ++ records.flatMap items).rtake n = remainder ++ (records.drop first).flatMap items ∧
      (∀ item ∈ remainder, ¬ isHead item) ∧
      ∀ index, first ≤ index ↔ sizeFrom items records index ≤ n := by
  classical
  have fits : ∃ index, sizeFrom items records index ≤ n :=
    ⟨records.length, by simp [sizeFrom]⟩
  let first := Nat.find fits
  have firstFits : sizeFrom items records first ≤ n := Nat.find_spec fits
  have firstLe : first ≤ records.length := Nat.find_min' fits (by simp [sizeFrom])
  have iff : ∀ index, first ≤ index ↔ sizeFrom items records index ≤ n := fun index =>
    ⟨fun le => (sizeFrom_antitone items records le).trans firstFits, fun le => Nat.find_min' fits le⟩
  have split := window_split items full records firstFits
  refine ⟨first, firstLe, _, split, fun item member => ?_, iff⟩
  rcases Nat.eq_zero_or_pos first with isZero | positive
  · rw [isZero] at member
    simp only [List.take_zero, List.flatMap_nil, List.append_nil] at member
    exact blankHeadless item (List.mem_of_mem_drop member)
  · -- the record before the first one that fits has lost at least its head
    have inside : first - 1 < records.length := by omega
    have tooLarge : n < sizeFrom items records (first - 1) := by
      have := mt (iff (first - 1)).mpr (by omega)
      omega
    rw [sizeFrom_succ items records inside, show first - 1 + 1 = first by omega] at tooLarge
    have last : records.take first = records.take (first - 1) ++ [records[first - 1]] := by
      rw [← List.take_succ_eq_append_getElem inside, show first - 1 + 1 = first by omega]
    rw [last, List.flatMap_append, List.flatMap_singleton, ← List.append_assoc] at member
    generalize blank ++ (records.take (first - 1)).flatMap items = before at member
    generalize room : n - sizeFrom items records first = count at member
    rw [List.rtake, List.length_append, List.drop_append, List.drop_of_length_le (by omega),
      List.nil_append] at member
    apply tailHeadless records[first - 1] item
    rw [← List.drop_one]
    exact (List.drop_subset_drop_left _ (by omega)) member

end Records

/-! ### Walking the cells -/

section Visit

variable (count : Nat → Nat)

/-- Walk a list of cells: emit a cell that announces `count` items and skip the others of its
record; pass over a cell that announces none. -/
def visit : List Nat → Nat → List Nat
  | [], _ => []
  | _ :: cells, skip + 1 => visit cells skip
  | cell :: cells, 0 => if count cell = 0 then visit cells 0 else cell :: visit cells (count cell - 1)

/-- The cells are orphans and whole records, with the given heads in order. -/
inductive Parses : List Nat → List Nat → Prop
  | nil : Parses [] []
  | orphan {cell : Nat} {cells heads : List Nat} :
      count cell = 0 → Parses cells heads → Parses (cell :: cells) heads
  | record {cell : Nat} {tail cells heads : List Nat} :
      0 < count cell → count cell ≤ tail.length + 1 → (∀ other ∈ tail, count other = 0) →
      Parses cells heads → Parses (cell :: (tail ++ cells)) (cell :: heads)

variable {count}

/-- A run of orphans is passed over, and any skip that ends inside it with it. -/
theorem visit_orphans {tail : List Nat} (orphans : ∀ other ∈ tail, count other = 0)
    (cells : List Nat) {skip : Nat} (within : skip ≤ tail.length) :
    visit count (tail ++ cells) skip = visit count cells 0 := by
  induction tail generalizing skip with
  | nil =>
    have : skip = 0 := by simpa using within
    subst this
    rfl
  | cons cell tail ih =>
    have rest := fun other member => orphans other (List.mem_cons_of_mem _ member)
    cases skip with
    | zero =>
      rw [List.cons_append, visit, if_pos (orphans cell List.mem_cons_self)]
      exact ih rest (Nat.zero_le _)
    | succ skip =>
      rw [List.cons_append, visit]
      exact ih rest (by simpa using within)

namespace Parses

variable {cells heads more moreHeads : List Nat}

theorem append (first : Parses count cells heads) (second : Parses count more moreHeads) :
    Parses count (cells ++ more) (heads ++ moreHeads) := by
  induction first with
  | nil => exact second
  | orphan zero _ ih => exact .orphan zero ih
  | record positive within orphans _ ih =>
    rw [List.cons_append, List.cons_append, List.append_assoc]
    exact .record positive within orphans ih

theorem of_orphans (orphans : ∀ cell ∈ cells, count cell = 0) : Parses count cells [] := by
  induction cells with
  | nil => exact .nil
  | cons cell cells ih =>
    exact .orphan (orphans cell List.mem_cons_self)
      (ih fun other member => orphans other (List.mem_cons_of_mem _ member))

/-- **The walk emits the heads**, and goes on behind the cells. -/
theorem visit_append (parses : Parses count cells heads) (more : List Nat) :
    visit count (cells ++ more) 0 = heads ++ visit count more 0 := by
  induction parses with
  | nil => rfl
  | orphan zero _ ih =>
    rw [List.cons_append, visit, if_pos zero]
    exact ih
  | record positive within orphans _ ih =>
    rw [List.cons_append, visit, if_neg (by omega), List.append_assoc,
      visit_orphans orphans _ (by omega), ih]
    rfl

theorem visit_eq (parses : Parses count cells heads) : visit count cells 0 = heads := by
  have := parses.visit_append []
  rwa [List.append_nil, visit, List.append_nil] at this

theorem heads_sublist (parses : Parses count cells heads) : heads.Sublist cells := by
  induction parses with
  | nil => exact .slnil
  | orphan _ _ ih => exact ih.cons _
  | record _ _ _ _ ih => exact (ih.trans (List.sublist_append_right _ _)).cons_cons _

theorem pos_of_mem (parses : Parses count cells heads) : ∀ head ∈ heads, 0 < count head := by
  induction parses with
  | nil => exact fun _ member => by cases member
  | orphan _ _ ih => exact ih
  | record positive _ _ _ ih =>
    intro head member
    rcases List.mem_cons.mp member with rfl | later
    · exact positive
    · exact ih head later

/-- **Every cell that announces items is a head, and the cells split there.** -/
theorem split (parses : Parses count cells heads) {cell : Nat} (member : cell ∈ cells)
    (positive : 0 < count cell) :
    ∃ before after headsBefore headsAfter, cells = before ++ cell :: after ∧
      heads = headsBefore ++ cell :: headsAfter ∧ Parses count before headsBefore ∧
      Parses count (cell :: after) (cell :: headsAfter) := by
  induction parses with
  | nil => cases member
  | @orphan other cells heads zero rest ih =>
    rcases List.mem_cons.mp member with rfl | later
    · omega
    · obtain ⟨before, after, headsBefore, headsAfter, rfl, rfl, first, second⟩ := ih later
      exact ⟨other :: before, after, headsBefore, headsAfter, rfl, rfl, .orphan zero first, second⟩
  | @record other tail cells heads counted within orphans rest ih =>
    rcases List.mem_cons.mp member with rfl | later
    · exact ⟨[], tail ++ cells, [], heads, rfl, rfl, .nil, .record counted within orphans rest⟩
    · rcases List.mem_append.mp later with inTail | inCells
      · have := orphans cell inTail
        omega
      · obtain ⟨before, after, headsBefore, headsAfter, rfl, rfl, first, second⟩ := ih inCells
        exact ⟨other :: (tail ++ before), after, other :: headsBefore, headsAfter, by simp, rfl,
          .record counted within orphans first, second⟩

/-- **Started at any head, a full round emits the heads in a rotation of their order**, beginning
with the one it was started at. -/
theorem visit_rotate {n cursor start : Nat} (parses : Parses count (cellsFrom n cursor n) heads)
    (below : start < n) (positive : 0 < count start) :
    ∃ headsBefore headsAfter, heads = headsBefore ++ start :: headsAfter ∧
      visit count (cellsFrom n start n) 0 = start :: headsAfter ++ headsBefore := by
  obtain ⟨before, after, headsBefore, headsAfter, cells, rfl, first, second⟩ :=
    parses.split (mem_cellsFrom_round below) positive
  refine ⟨headsBefore, headsAfter, rfl, ?_⟩
  have lengths := congrArg List.length cells
  simp only [length_cellsFrom, List.length_append, List.length_cons] at lengths
  -- the round from `start` is the second part of the round from the cursor, then the first part
  have round : cellsFrom n start n = (start :: after) ++ before := by
    have parts : cellsFrom n cursor before.length ++
        cellsFrom n (cursor + before.length) (n - before.length) = before ++ start :: after := by
      rw [← cellsFrom_add, show before.length + (n - before.length) = n by omega, cells]
    obtain ⟨beforeEq, afterEq⟩ := List.append_inj parts (by simp)
    have head : (cursor + before.length) % n = start := by
      rw [show n - before.length = after.length + 1 by omega, cellsFrom_succ] at afterEq
      exact (List.cons.inj afterEq).1
    have sameCell : start % n = (cursor + before.length) % n := by rw [head, Nat.mod_eq_of_lt below]
    rw [cellsFrom_congr sameCell, cellsFrom_round (by omega), afterEq, beforeEq]
  rw [round, second.visit_append, first.visit_eq]

end Parses

end Visit

/-! ### Walking the records of a window -/

/-- **The shape of a record**: its first item announces how many items the reader takes for it, at
most as many as there are, and its other items announce none. -/
structure RecordShape {Record Item : Type} (items : Record → List Item) (announces : Item → Nat)
    (announced : Record → Nat) : Prop where
  eq_cons : ∀ record, ∃ head tail, items record = head :: tail ∧ announces head = announced record ∧
    ∀ item ∈ tail, announces item = 0
  le : ∀ record, announced record ≤ (items record).length

/-- The records that are still in the window whole. -/
def survivors {Record Item : Type} (items : Record → List Item) (n : Nat) (records : List Record) :
    List Nat :=
  (List.range records.length).filter fun index => sizeFrom items records index ≤ n

theorem filter_range_le (first count : Nat) :
    (List.range count).filter (fun index => first ≤ index) = List.range' first (count - first) := by
  induction count with
  | zero => simp
  | succ count ih =>
    rw [List.range_succ, List.filter_append, ih]
    by_cases reached : first ≤ count
    · rw [show count + 1 - first = count - first + 1 by omega, List.range'_1_concat,
        show first + (count - first) = count by omega]
      simp [reached]
    · rw [show count + 1 - first = 0 by omega, show count - first = 0 by omega]
      simp [reached]

section WindowRecords

variable {State Item Record : Type} {cells : CellStore State Item} {n : Nat} {state : State}
  {items : Record → List Item} {blank : List Item} {records : List Record}
  (holds : cells.Holds n state ((records.flatMap items).length % n)
    ((blank ++ records.flatMap items).rtake n))
  (full : blank.length = n)

include holds full

/-- **Every record that is still in the window whole is held**, in the cells behind the earlier
records. -/
theorem record_held {index : Nat} (inside : index < records.length)
    (fits : sizeFrom items records index ≤ n) {offset : Nat}
    (within : offset < (items records[index]).length) :
    cells.held state ((sizeBefore items records index + offset) % n) (items records[index])[offset] := by
  have parts := window_split items full records fits
  have total := sizeBefore_add_sizeFrom items records index
  generalize (blank ++ (records.take index).flatMap items).rtake
    (n - sizeFrom items records index) = remainder at parts
  have remainderLength : remainder.length = n - sizeFrom items records index := by
    have := holds.length_eq
    rw [parts, List.length_append, ← sizeFrom_eq_length] at this
    omega
  rw [List.drop_eq_getElem_cons inside, List.flatMap_cons, ← List.append_assoc] at parts
  have held := holds.segment parts within
  rw [remainderLength, ← total, Nat.add_assoc, Nat.mod_add_mod] at held
  rwa [show sizeBefore items records index + sizeFrom items records index +
      (n - sizeFrom items records index + offset) =
    sizeBefore items records index + offset + n by omega, Nat.add_mod_right] at held

variable {announces : Item → Nat} {announced : Record → Nat} {count : Nat → Nat}
  (shape : RecordShape items announces announced)
  (counts : ∀ cell item, cells.held state cell item → count cell = announces item)

include shape counts

/-- The cells of one surviving record, as the walk sees them. -/
theorem parses_record {index : Nat} (inside : index < records.length)
    (fits : sizeFrom items records index ≤ n) :
    Parses count (cellsFrom n (sizeBefore items records index) (items records[index]).length)
      (if announced records[index] = 0 then [] else [sizeBefore items records index % n]) := by
  have record := @record_held _ _ _ _ _ _ _ _ _ holds full _ inside fits
  obtain ⟨head, tail, shaped, headCount, tailCount⟩ := shape.eq_cons records[index]
  have bound := shape.le records[index]
  simp only [shaped, List.length_cons] at record bound ⊢
  rw [cellsFrom_succ]
  have first : count (sizeBefore items records index % n) = announced records[index] := by
    have held := record (Nat.succ_pos tail.length)
    rw [Nat.add_zero] at held
    rw [counts _ _ held]
    exact headCount
  have rest : ∀ cell ∈ cellsFrom n (sizeBefore items records index + 1) tail.length,
      count cell = 0 := by
    intro cell member
    obtain ⟨offset, offsetMem, rfl⟩ := List.mem_map.mp member
    have offsetLt := List.mem_range.mp offsetMem
    have held := record (Nat.add_lt_add_right offsetLt 1)
    rw [List.getElem_cons_succ] at held
    rw [Nat.add_assoc, Nat.add_comm 1, counts _ _ held]
    exact tailCount _ (List.getElem_mem _)
  by_cases silent : announced records[index] = 0
  · rw [if_pos silent]
    exact .orphan (first.trans silent) (.of_orphans rest)
  · rw [if_neg silent, ← List.append_nil (cellsFrom n (sizeBefore items records index + 1) tail.length)]
    refine .record (by omega) ?_ rest .nil
    rw [first, length_cellsFrom]
    exact bound

/-- The cells from a surviving record to the cursor. -/
theorem parses_suffix (left index : Nat) (ends : index + left = records.length)
    (fits : sizeFrom items records index ≤ n) :
    Parses count (cellsFrom n (sizeBefore items records index) (sizeFrom items records index))
      (((List.range' index left).filter fun index =>
        (records[index]?.map announced).getD 0 ≠ 0).map fun index =>
          sizeBefore items records index % n) := by
  induction left generalizing index with
  | zero =>
    rw [show index = records.length by omega]
    simp only [sizeFrom, List.drop_length, List.map_nil, List.sum_nil, List.range'_zero,
      List.filter_nil]
    exact .nil
  | succ left ih =>
    have inside : index < records.length := by omega
    have here := parses_record holds full shape counts inside fits
    have later := ih (index + 1) (by omega)
      ((sizeFrom_antitone items records (Nat.le_succ index)).trans fits)
    rw [sizeBefore_succ items records inside] at later
    rw [sizeFrom_succ items records inside, cellsFrom_add]
    convert here.append later using 1
    rw [List.range'_succ, List.filter_cons, List.getElem?_eq_getElem inside]
    by_cases silent : announced records[index] = 0 <;> simp [silent]

/-- **The walk over a full round from the cursor** meets exactly the surviving records that announce
themselves, in the order in which they were stored. -/
theorem parses_window (silent : ∀ item ∈ blank, announces item = 0) :
    Parses count (cellsFrom n ((records.flatMap items).length % n) n)
      (((survivors items n records).filter fun index =>
        (records[index]?.map announced).getD 0 ≠ 0).map fun index =>
          sizeBefore items records index % n) := by
  have tails : ∀ record, ∀ item ∈ (items record).tail, ¬ announces item ≠ 0 := by
    intro record item member
    obtain ⟨head, tail, shaped, -, tailCount⟩ := shape.eq_cons record
    rw [shaped] at member
    exact not_not.mpr (tailCount item member)
  obtain ⟨first, firstLe, remainder, parts, headless, fits⟩ :=
    window_records items (fun item => announces item ≠ 0) n blank full
      (fun item member => not_not.mpr (silent item member)) records tails
  have total := sizeBefore_add_sizeFrom items records first
  have lengths := holds.length_eq
  rw [parts, List.length_append, ← sizeFrom_eq_length] at lengths
  have which : survivors items n records = List.range' first (records.length - first) := by
    rw [← filter_range_le, survivors]
    apply List.filter_congr
    intro index _
    rw [decide_eq_decide]
    exact (fits index).symm
  have orphans : ∀ cell ∈ cellsFrom n ((records.flatMap items).length % n) remainder.length,
      count cell = 0 := by
    intro cell member
    obtain ⟨offset, offsetMem, rfl⟩ := List.mem_map.mp member
    have segment := parts.trans (congrArg (· ++ _) (List.nil_append remainder).symm)
    have held := holds.segment segment (List.mem_range.mp offsetMem)
    rw [List.length_nil, Nat.add_zero] at held
    rw [counts _ _ held]
    exact not_not.mp (headless _ (List.getElem_mem _))
  have sameCell : ((records.flatMap items).length % n + remainder.length) % n =
      sizeBefore items records first % n := by
    rw [← total, Nat.mod_add_mod, show sizeBefore items records first +
      sizeFrom items records first + remainder.length = sizeBefore items records first + n by omega,
      Nat.add_mod_right]
  have round : cellsFrom n ((records.flatMap items).length % n) n =
      cellsFrom n ((records.flatMap items).length % n) remainder.length ++
        cellsFrom n (sizeBefore items records first) (sizeFrom items records first) := by
    rw [← cellsFrom_congr sameCell, ← cellsFrom_add, lengths]
  rw [which, round]
  exact (Parses.of_orphans orphans).append (parses_suffix holds full shape counts
    (records.length - first) first (by omega) ((fits first).mp (Nat.le_refl first)))

end WindowRecords

end CircularBuffer
