/-
**The ring after any sequence of writes.**

* `survivors`: the calls whose own and later slot counts sum to at most the number of slots;
  `startSlot`: the slot where the entry of a call begins.
* **`ring_holds`**: after every sequence of calls the region holds the last `numLogEntries` slot
  images stored, oldest first from the cursor.
* **`survivor_held`**: every slot of a surviving entry is as it was stored.
* **`printOrder_rotate`**: `getLog` comes to the surviving entries in a rotation of the order in
  which they were written, starting with the first slot among those with the smallest stamp.
* `spare_unchanged`: no write touches the bytes behind the last slot.
-/

import StatLog.Logger.Read

namespace StatLog.Logger

open ByteMemory CircularBuffer

/-- The number of slots the calls before the `index`-th need. -/
def slotsBefore (calls : List WriteCall) (index : Nat) : Nat :=
  ((calls.take index).map fun call => numLogBufs call.buf.length).sum

/-- The number of slots the calls from the `index`-th on need. -/
def slotsFrom (calls : List WriteCall) (index : Nat) : Nat :=
  ((calls.drop index).map fun call => numLogBufs call.buf.length).sum

/-- The calls whose entries are still in the ring whole, oldest first. -/
def survivors (numLogEntries : Nat) (calls : List WriteCall) : List Nat :=
  (List.range calls.length).filter fun index => slotsFrom calls index ≤ numLogEntries

/-- The slot of the header of a call's entry. -/
def startSlot (numLogEntries : Nat) (calls : List WriteCall) (index : Nat) : Nat :=
  slotsBefore calls index % numLogEntries

/-- The value `numBlocks` has in the header of a call's entry is not zero. -/
def announcesItself (calls : List WriteCall) (index : Nat) : Bool :=
  (calls[index]?.map fun call => numLogBufs call.buf.length % 2 ^ 32).getD 0 ≠ 0

theorem slotsBefore_eq (calls : List WriteCall) (index : Nat) :
    slotsBefore calls index = sizeBefore slotImages calls index := by
  simp only [slotsBefore, sizeBefore, length_slotImages]

theorem slotsFrom_eq (calls : List WriteCall) (index : Nat) :
    slotsFrom calls index = sizeFrom slotImages calls index := by
  simp only [slotsFrom, sizeFrom, length_slotImages]

theorem survivors_eq (numLogEntries : Nat) (calls : List WriteCall) :
    survivors numLogEntries calls = CircularBuffer.survivors slotImages numLogEntries calls := by
  simp only [survivors, CircularBuffer.survivors, slotsFrom_eq]

theorem mem_survivors {numLogEntries index : Nat} {calls : List WriteCall} :
    index ∈ survivors numLogEntries calls ↔
      index < calls.length ∧ slotsFrom calls index ≤ numLogEntries := by
  simp [survivors]

theorem numLogBufs_pos (len : Nat) : 0 < numLogBufs len := by
  unfold numLogBufs
  omega

/-- A surviving entry needs no more slots than there are. -/
theorem numLogBufs_le_of_survivor {numLogEntries index : Nat} {calls : List WriteCall}
    (inside : index < calls.length) (fits : slotsFrom calls index ≤ numLogEntries) :
    numLogBufs calls[index].buf.length ≤ numLogEntries := by
  rw [slotsFrom_eq, sizeFrom_succ slotImages calls inside, length_slotImages] at fits
  omega

/-- In a ring of less than `2 ^ 32` slots every surviving entry announces all its blocks. -/
theorem numBlocks_of_survivor {numLogEntries index : Nat} (small : numLogEntries < 2 ^ 32)
    {calls : List WriteCall} (inside : index < calls.length)
    (fits : slotsFrom calls index ≤ numLogEntries) :
    numLogBufs calls[index].buf.length % 2 ^ 32 = numLogBufs calls[index].buf.length :=
  Nat.mod_eq_of_lt ((numLogBufs_le_of_survivor inside fits).trans_lt small)

theorem announcesItself_of_survivor {numLogEntries index : Nat} (small : numLogEntries < 2 ^ 32)
    {calls : List WriteCall} (survives : index ∈ survivors numLogEntries calls) :
    announcesItself calls index = true := by
  obtain ⟨inside, fits⟩ := mem_survivors.mp survives
  have positive := numLogBufs_pos calls[index].buf.length
  simp only [announcesItself, List.getElem?_eq_getElem inside, Option.map_some, Option.getD_some,
    numBlocks_of_survivor small inside fits, decide_eq_true_eq]
  omega

/-! ### The region holds the last slots stored -/

/-- The images of a zeroed region. -/
def blankImages (numLogEntries : Nat) : List SlotImage :=
  List.replicate numLogEntries (.other [])

theorem initial_holds (numLogEntries : Nat) :
    logCells.Holds numLogEntries LogRing.initial.mem 0 (blankImages numLogEntries) where
  length_eq := List.length_replicate
  ok image member := by
    rw [List.eq_of_mem_replicate member]
    exact Nat.zero_le _
  held offset inside := by
    simp only [blankImages, List.getElem_replicate]
    intro field member
    simp only [SlotImage.fields, List.mem_cons, List.not_mem_nil, or_false] at member
    rcases member with rfl | rfl <;> rfl

theorem writeAll_eq {numLogEntries : Nat} (ring : LogRing) (below : ring.currentLogEntry < numLogEntries)
    (calls : List WriteCall) :
    writeAll numLogEntries ring calls =
      ⟨logCells.storeAll numLogEntries ring.mem ring.currentLogEntry (calls.flatMap slotImages),
        (ring.currentLogEntry + (calls.flatMap slotImages).length) % numLogEntries⟩ := by
  induction calls generalizing ring with
  | nil =>
    rw [List.flatMap_nil, List.length_nil, Nat.add_zero, Nat.mod_eq_of_lt below]
    rfl
  | cons call calls ih =>
    have step : writeAll numLogEntries ring (call :: calls) =
        writeAll numLogEntries (doWriteData numLogEntries ring call) calls := rfl
    rw [step, doWriteData_eq, ih _ (Nat.mod_lt _ (by omega)), List.flatMap_cons,
      logCells.storeAll_append below, List.length_append, Nat.mod_add_mod, Nat.add_assoc]

theorem flatMap_ok (calls : List WriteCall) : ∀ image ∈ calls.flatMap slotImages, image.Ok := by
  intro image member
  obtain ⟨call, -, inside⟩ := List.mem_flatMap.mp member
  exact slotImages_ok call image inside

/-- **The ring invariant**, from the zeroed region over any sequence of writes. -/
theorem ring_holds {numLogEntries : Nat} (positive : 0 < numLogEntries) (calls : List WriteCall) :
    logCells.Holds numLogEntries (writeAll numLogEntries .initial calls).mem
      ((calls.flatMap slotImages).length % numLogEntries)
      ((blankImages numLogEntries ++ calls.flatMap slotImages).rtake numLogEntries) := by
  have holds := (initial_holds numLogEntries).storeAll positive (flatMap_ok calls)
  rw [Nat.zero_add] at holds
  rw [writeAll_eq .initial positive]
  exact holds

/-- The cursor is the sum of all slot counts, modulo the number of slots. -/
theorem cursor_eq {numLogEntries : Nat} (positive : 0 < numLogEntries) (calls : List WriteCall) :
    (writeAll numLogEntries .initial calls).currentLogEntry =
      (calls.map fun call => numLogBufs call.buf.length).sum % numLogEntries := by
  rw [writeAll_eq .initial positive]
  simp only [LogRing.initial, Nat.zero_add, List.length_flatMap, length_slotImages]

/-- **Every slot of a surviving entry is as it was stored.** -/
theorem survivor_held {numLogEntries : Nat} (positive : 0 < numLogEntries) {calls : List WriteCall}
    {index : Nat} (inside : index < calls.length) (fits : slotsFrom calls index ≤ numLogEntries)
    {offset : Nat} (within : offset < (slotImages calls[index]).length) :
    logCells.held (writeAll numLogEntries .initial calls).mem
      ((slotsBefore calls index + offset) % numLogEntries) (slotImages calls[index])[offset] := by
  rw [slotsFrom_eq] at fits
  rw [slotsBefore_eq]
  exact record_held (ring_holds positive calls) List.length_replicate inside fits within

/-- The header of a surviving entry. -/
theorem survivor_header {numLogEntries : Nat} (positive : 0 < numLogEntries) {calls : List WriteCall}
    {index : Nat} (inside : index < calls.length) (fits : slotsFrom calls index ≤ numLogEntries) :
    logCells.held (writeAll numLogEntries .initial calls).mem (startSlot numLogEntries calls index)
      (.first (numLogBufs calls[index].buf.length) calls[index]
        (calls[index].buf.take maxCharsInFirstBlock)) :=
  survivor_held positive inside fits (Nat.succ_pos _)

/-! ### The order of the walk -/

/-- The first slot of an entry announces its blocks, the other ones announce none. -/
theorem slotImages_shape : RecordShape slotImages SlotImage.numBlocks
    fun call => numLogBufs call.buf.length % 2 ^ 32 where
  eq_cons call := ⟨_, _, rfl, rfl, otherImages_numBlocks _⟩
  le call := by
    rw [length_slotImages]
    exact Nat.mod_le _ _

/-- The survivors in a full round from the cursor. -/
theorem ring_parses {numLogEntries : Nat} (positive : 0 < numLogEntries) (calls : List WriteCall) :
    Parses (numBlocksAt (writeAll numLogEntries .initial calls).mem)
      (cellsFrom numLogEntries ((calls.flatMap slotImages).length % numLogEntries) numLogEntries)
      (((survivors numLogEntries calls).filter (announcesItself calls)).map
        (startSlot numLogEntries calls)) := by
  have parses := parses_window (ring_holds positive calls) List.length_replicate slotImages_shape
    (fun slot image held => SlotImage.numBlocksAt_of_held held) fun image member => by
      rw [List.eq_of_mem_replicate member]
      rfl
  simp only [← slotsBefore_eq, ← survivors_eq] at parses
  exact parses

/-- The slots where the entries start that are still in the ring and announce themselves. -/
def visibleSlots (numLogEntries : Nat) (calls : List WriteCall) : List Nat :=
  ((survivors numLogEntries calls).filter (announcesItself calls)).map (startSlot numLogEntries calls)

theorem visibleSlots_nodup {numLogEntries : Nat} (positive : 0 < numLogEntries)
    (calls : List WriteCall) : (visibleSlots numLogEntries calls).Nodup :=
  (ring_parses positive calls).heads_sublist.nodup (nodup_cellsFrom (Nat.le_refl _))

theorem visibleSlots_of_small {numLogEntries : Nat} (small : numLogEntries < 2 ^ 32)
    (calls : List WriteCall) : visibleSlots numLogEntries calls =
      (survivors numLogEntries calls).map (startSlot numLogEntries calls) := by
  rw [visibleSlots, List.filter_eq_self.mpr]
  exact fun index member => announcesItself_of_survivor small member

/-- **The walk visits the entries in a rotation of the order in which they were written**, starting
with the first slot among those with the smallest time stamp. -/
theorem printOrder_rotate {numLogEntries : Nat} (positive : 0 < numLogEntries)
    (calls : List WriteCall) :
    let mem := (writeAll numLogEntries .initial calls).mem
    (firstLogEntry numLogEntries mem = none ∧ visibleSlots numLogEntries calls = [] ∧
      printOrder numLogEntries mem = []) ∨
    ∃ first before after, firstLogEntry numLogEntries mem = some first ∧
      IsFirst mem numLogEntries first ∧
      visibleSlots numLogEntries calls = before ++ first :: after ∧
      printOrder numLogEntries mem = first :: after ++ before := by
  intro mem
  have parses : Parses (numBlocksAt mem) _ (visibleSlots numLogEntries calls) :=
    ring_parses positive calls
  rcases search : firstLogEntry numLogEntries mem with _ | first
  · refine Or.inl ⟨rfl, ?_, by rw [printOrder, search]⟩
    apply List.eq_nil_iff_forall_not_mem.mpr
    intro slot member
    have counted := parses.pos_of_mem slot member
    obtain ⟨index, -, rfl⟩ := List.mem_map.mp member
    have silent := firstLogEntry_eq_none.mp search (startSlot numLogEntries calls index)
      (Nat.mod_lt _ positive)
    omega
  · have isFirst := firstLogEntry_spec search
    obtain ⟨before, after, heads, round⟩ := parses.visit_rotate isFirst.below isFirst.positive
    refine Or.inr ⟨first, before, after, rfl, isFirst, heads, ?_⟩
    rw [printOrder, search]
    exact (entrySlots_eq_visit mem numLogEntries isFirst.below 0).trans round

/-! ### Behind the ring -/

/-- **Storing slots changes no byte of another slot**, and none behind the ring. -/
theorem storeAll_of_outside {numLogEntries : Nat} {images : List SlotImage}
    (ok : ∀ image ∈ images, image.Ok) (mem : Mem) {cursor : Nat} (below : cursor < numLogEntries)
    {address : Nat}
    (outside : ∀ slot ∈ cellsFrom numLogEntries cursor images.length,
      address < slotPtr slot ∨ slotPtr (slot + 1) ≤ address) :
    logCells.storeAll numLogEntries mem cursor images address = mem address := by
  induction images generalizing mem cursor with
  | nil => rfl
  | cons image images ih =>
    rw [List.length_cons, cellsFrom_succ, Nat.mod_eq_of_lt below, List.forall_mem_cons] at outside
    obtain ⟨here, later⟩ := outside
    rw [← cellsFrom_congr (Nat.mod_mod _ _)] at later
    rw [CellStore.storeAll, ih (fun later member => ok later (List.mem_cons_of_mem _ member)) _
      (Nat.mod_lt _ (by omega)) later]
    refine Field.storeAll_of_outside (SlotImage.fit (ok image List.mem_cons_self)) mem _ ?_
    unfold slotPtr at *
    rwa [Nat.mul_succ] at here

theorem storeAll_of_behind {numLogEntries : Nat} {images : List SlotImage}
    (ok : ∀ image ∈ images, image.Ok) (mem : Mem) {cursor : Nat} (below : cursor < numLogEntries)
    {address : Nat} (behind : slotPtr numLogEntries ≤ address) :
    logCells.storeAll numLogEntries mem cursor images address = mem address := by
  refine storeAll_of_outside ok mem below fun slot member => Or.inr ?_
  obtain ⟨offset, -, rfl⟩ := List.mem_map.mp member
  have inside : (cursor + offset) % numLogEntries < numLogEntries := Nat.mod_lt _ (by omega)
  exact (Nat.mul_le_mul_left bytesPerLogBuf inside).trans behind

/-- **No write touches the bytes behind the last slot.** -/
theorem spare_unchanged {numLogEntries : Nat} (positive : 0 < numLogEntries) (calls : List WriteCall)
    {address : Nat} (behind : slotPtr numLogEntries ≤ address) :
    (writeAll numLogEntries .initial calls).mem address = 0 := by
  rw [writeAll_eq .initial positive]
  exact storeAll_of_behind (flatMap_ok calls) LogRing.initial.mem positive behind

end StatLog.Logger
