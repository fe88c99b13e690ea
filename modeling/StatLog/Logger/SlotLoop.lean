/-
**The copy loop against the slot count.**

`doWriteData` counts the slots of an entry twice: by `numLogBufs`, which advances the cursor and
goes into the header, and by its loop, which moves on to the next slot while characters are left.

* `pass`: the loop variables after a number of passes. `pass_buf` and `pass_curLogIdx` say what is
  left of the buffer and which slot is next; `copyLoop_of_stop`: the loop ends at the first pass
  that has nothing to copy, whatever the fuel.
* `areaBefore_lt`, `le_areaBefore`: the formula counts exactly the slots the data areas need.
* `take_flatMap_dataArea`: the data areas, read in order, give the buffer back.
* **`slotLoopAgrees_iff`**: loop and formula agree on everything; the header's `numBlocks` is 32
  bits wide and holds the count when that is below `2 ^ 32`.
-/

import Mathlib.Algebra.Order.Floor.Div
import StatLog.Logger.Ring

namespace StatLog.Logger

open ByteMemory CircularBuffer

/-! ### The data areas of an entry -/

/-- The size of the data area of an entry's `index`-th slot. -/
def areaSize (index : Nat) : Nat :=
  if index = 0 then maxCharsInFirstBlock else maxCharsInOtherBlocks

/-- The characters that the data areas before an entry's `index`-th slot take. -/
def areaBefore : Nat → Nat
  | 0 => 0
  | index + 1 => areaBefore index + areaSize index

/-- The data area of the `index`-th slot of an entry that starts at the cursor. -/
def dataArea (numLogEntries cursor : Nat) (mem : Mem) (index : Nat) : List UInt8 :=
  let sizeofHeader := if index = 0 then sizeofLogHeader else sizeofLogHeaderCommon
  mem.read (slotPtr ((cursor + index) % numLogEntries) + sizeofHeader) (areaSize index)

/-- One slot, and one more for every started `maxCharsInOtherBlocks` characters that do not fit
into the first one. -/
def slotsNeeded (len : Nat) : Nat := 1 + (len - maxCharsInFirstBlock) ⌈/⌉ maxCharsInOtherBlocks

theorem numLogBufs_eq_slotsNeeded (len : Nat) : numLogBufs len = slotsNeeded len := by
  rw [numLogBufs, slotsNeeded, Nat.ceilDiv_eq_add_pred_div]
  by_cases long : len > maxCharsInFirstBlock
  · rw [if_pos long]
    rfl
  · rw [if_neg long, show len - maxCharsInFirstBlock = 0 by omega]
    rfl

theorem areaBefore_succ (index : Nat) :
    areaBefore (index + 1) = maxCharsInFirstBlock + maxCharsInOtherBlocks * index := by
  induction index with
  | zero => rfl
  | succ index ih =>
    have size : areaSize (index + 1) = maxCharsInOtherBlocks := rfl
    rw [areaBefore, ih, size, Nat.mul_succ, Nat.add_assoc]

theorem numLogBufs_cases (len : Nat) :
    len ≤ 464 ∧ numLogBufs len = 1 ∨ 464 < len ∧ numLogBufs len = 1 + (len - 464 + 507) / 508 := by
  have first : maxCharsInFirstBlock = 464 := rfl
  unfold numLogBufs
  rw [first]
  by_cases long : len > 464
  · rw [if_pos long]
    exact Or.inr ⟨long, rfl⟩
  · rw [if_neg long]
    exact Or.inl ⟨Nat.le_of_not_lt long, rfl⟩

/-- **The formula counts no slot too many**: characters are left for the last one. -/
theorem areaBefore_lt {len : Nat} (nonempty : 0 < len) {index : Nat}
    (counted : index < numLogBufs len) : areaBefore index < len := by
  cases index with
  | zero => exact nonempty
  | succ index =>
    rw [areaBefore_succ]
    show 464 + 508 * index < len
    have := numLogBufs_cases len
    omega

/-- **The formula counts no slot too few.** -/
theorem le_areaBefore (len : Nat) : len ≤ areaBefore (numLogBufs len) := by
  have count := numLogBufs_cases len
  obtain ⟨others, eq⟩ : ∃ others, numLogBufs len = others + 1 := ⟨numLogBufs len - 1, by omega⟩
  rw [eq, areaBefore_succ]
  show len ≤ 464 + 508 * others
  omega

theorem numLogBufs_le {len : Nat} (nonempty : 0 < len) : numLogBufs len ≤ len := by
  have := numLogBufs_cases len
  omega

/-! ### The passes of the loop -/

/-- The loop variables after the given number of passes. -/
def pass (numLogEntries cursor : Nat) (buf : List UInt8) (count : Nat) : CopyState :=
  (CopyState.next numLogEntries)^[count] (.start cursor buf)

section Pass

variable (numLogEntries cursor : Nat) (buf : List UInt8)

theorem pass_succ (count : Nat) :
    pass numLogEntries cursor buf (count + 1) = (pass numLogEntries cursor buf count).next numLogEntries :=
  Function.iterate_succ_apply' _ _ _

theorem pass_capped (count : Nat) :
    (pass numLogEntries cursor buf count).Capped (areaSize count) := by
  cases count with
  | zero => exact CopyState.start_capped cursor buf
  | succ count =>
    rw [pass_succ]
    exact CopyState.next_capped numLogEntries _

/-- What is left of the buffer. -/
theorem pass_buf (count : Nat) :
    (pass numLogEntries cursor buf count).buf = buf.drop (areaBefore count) := by
  induction count with
  | zero => rfl
  | succ count ih =>
    rw [pass_succ, CopyState.next_buf, (pass_capped numLogEntries cursor buf count).drop_eq, ih,
      List.drop_drop, areaBefore]

/-- A pass copies something exactly when the data areas before do not hold the buffer. -/
theorem pass_bytesToWrite_pos_iff {count : Nat} :
    (pass numLogEntries cursor buf count).bytesToWrite > 0 ↔ areaBefore count < buf.length := by
  have capped := pass_capped numLogEntries cursor buf count
  have positive := capped.positive
  rw [capped.eq, pass_buf, List.length_drop]
  omega

variable {numLogEntries cursor buf}

/-- The slot of a pass that has something to copy. -/
theorem pass_curLogIdx (below : cursor < numLogEntries) {count : Nat}
    (more : areaBefore count < buf.length) :
    (pass numLogEntries cursor buf count).curLogIdx = (cursor + count) % numLogEntries := by
  induction count with
  | zero => exact (Nat.mod_eq_of_lt below).symm
  | succ count ih =>
    have earlier : areaBefore count < buf.length := by
      rw [areaBefore] at more
      omega
    have copies := (pass_bytesToWrite_pos_iff numLogEntries cursor buf).mpr more
    rw [pass_succ] at copies ⊢
    rw [(CopyState.next_of_pos copies).1, ih earlier, Nat.mod_add_mod, Nat.add_assoc]

/-- **The loop ends at the first pass that has nothing to copy**, with any fuel that gets there. -/
theorem copyLoop_of_stop {state : CopyState} {count fuel : Nat}
    (copies : ∀ index < count, ((CopyState.next numLogEntries)^[index] state).bytesToWrite > 0)
    (stop : ¬ ((CopyState.next numLogEntries)^[count] state).bytesToWrite > 0) (enough : count ≤ fuel)
    (mem : Mem) :
    copyLoop numLogEntries fuel state mem =
      ((CopyState.next numLogEntries)^[count] state, (copyLoop numLogEntries count state mem).2) := by
  induction count generalizing state fuel mem with
  | zero =>
    cases fuel with
    | zero => rfl
    | succ fuel => exact if_neg stop
  | succ count ih =>
    obtain ⟨fuel, rfl⟩ : ∃ more, fuel = more + 1 := ⟨fuel - 1, by omega⟩
    have copying : state.bytesToWrite > 0 := copies 0 (Nat.succ_pos _)
    rw [copyLoop, copyLoop, if_pos copying, if_pos copying]
    exact ih (fun index inside => copies (index + 1) (Nat.succ_lt_succ inside)) stop (by omega) _

end Pass

/-! ### The region after the write -/

section Write

variable {numLogEntries : Nat} {ring : LogRing} {call : WriteCall}

/-- The slots behind the first one hold the rest of the buffer, `maxCharsInOtherBlocks` characters
each. -/
theorem otherImages_getElem? {buf : List UInt8} {index : Nat}
    (more : maxCharsInOtherBlocks * index < buf.length) :
    (otherImages buf)[index]? =
      some (.other ((buf.drop (maxCharsInOtherBlocks * index)).take maxCharsInOtherBlocks)) := by
  induction index generalizing buf with
  | zero =>
    rw [otherImages_of_pos more]
    rfl
  | succ index ih =>
    rw [Nat.mul_succ] at more
    rw [otherImages_of_pos (by omega), List.getElem?_cons_succ,
      ih (by rw [List.length_drop]; omega), List.drop_drop, Nat.mul_succ, Nat.add_comm]

/-- The fields of a slot's own characters: the header size and the piece of the buffer. -/
theorem slotImages_data {index : Nat} (more : areaBefore index < call.buf.length) :
    ∃ image, (slotImages call)[index]? = some image ∧
      (if index = 0 then sizeofLogHeader else sizeofLogHeaderCommon,
        (call.buf.drop (areaBefore index)).take (areaSize index)) ∈ image.fields := by
  cases index with
  | zero => exact ⟨_, rfl, by simp [SlotImage.fields, areaBefore, areaSize]⟩
  | succ index =>
    rw [areaBefore_succ] at more ⊢
    refine ⟨_, otherImages_getElem? ?_, ?_⟩
    · rw [List.length_drop]
      omega
    · rw [List.drop_drop]
      exact List.mem_cons_of_mem _ List.mem_cons_self

variable (below : ring.currentLogEntry < numLogEntries)
  (fits : numLogBufs call.buf.length ≤ numLogEntries)

include below fits

/-- Every slot of the entry is as it was stored. -/
theorem doWriteData_held {index : Nat} {image : SlotImage}
    (stored : (slotImages call)[index]? = some image) :
    logCells.held (doWriteData numLogEntries ring call).mem
      ((ring.currentLogEntry + index) % numLogEntries) image := by
  rw [← length_slotImages] at fits
  obtain ⟨inside, rfl⟩ := List.getElem?_eq_some_iff.mp stored
  rw [doWriteData_eq]
  exact CellStore.held_storeAll below (slotImages_ok call) fits ring.mem inside

/-- A data area starts with its piece of the buffer. -/
theorem dataArea_eq {index : Nat} (more : areaBefore index < call.buf.length) :
    ∃ rest, dataArea numLogEntries ring.currentLogEntry (doWriteData numLogEntries ring call).mem index =
      (call.buf.drop (areaBefore index)).take (areaSize index) ++ rest := by
  obtain ⟨image, stored, field⟩ := slotImages_data more
  have piece := doWriteData_held below fits stored _ field
  exact Mem.read_eq_append _ _ _ _ piece (List.length_take_le _ _)

/-- Full data areas, read in order, are a prefix of the buffer. -/
theorem flatMap_dataArea {count : Nat} (full : areaBefore count ≤ call.buf.length) :
    (List.range count).flatMap (dataArea numLogEntries ring.currentLogEntry
        (doWriteData numLogEntries ring call).mem) = call.buf.take (areaBefore count) := by
  induction count with
  | zero => rfl
  | succ count ih =>
    rw [areaBefore] at full
    have positive : 0 < areaSize count := (pass_capped 0 0 [] count).positive
    have more : areaBefore count < call.buf.length := by omega
    obtain ⟨rest, area⟩ := dataArea_eq below fits more
    have length := congrArg List.length area
    rw [List.length_append, List.length_take, List.length_drop, dataArea, Mem.length_read] at length
    have none : rest = [] := List.length_eq_zero_iff.mp (by omega)
    rw [List.range_succ, List.flatMap_append, ih (by omega), List.flatMap_singleton, area, none,
      List.append_nil, areaBefore, List.take_add]

/-- **The data areas of the entry, read in order, give the buffer back.** -/
theorem take_flatMap_dataArea (nonempty : 0 < call.buf.length) :
    ((List.range (numLogBufs call.buf.length)).flatMap (dataArea numLogEntries ring.currentLogEntry
        (doWriteData numLogEntries ring call).mem)).take call.buf.length = call.buf := by
  obtain ⟨others, count⟩ : ∃ others, numLogBufs call.buf.length = others + 1 :=
    ⟨numLogBufs call.buf.length - 1, by have := numLogBufs_pos call.buf.length; omega⟩
  have last : areaBefore others < call.buf.length := areaBefore_lt nonempty (by omega)
  have enough : call.buf.length ≤ areaBefore others + areaSize others := by
    have := le_areaBefore call.buf.length
    rwa [count] at this
  obtain ⟨rest, area⟩ := dataArea_eq below fits last
  rw [count, List.range_succ, List.flatMap_append, flatMap_dataArea below fits last.le,
    List.flatMap_singleton, area, ← List.append_assoc, ← List.take_add, List.take_of_length_le enough]
  exact List.take_left

omit fits in
/-- Every byte outside the slots of the entry is unchanged. -/
theorem doWriteData_frame {address : Nat}
    (outside : ∀ index < numLogBufs call.buf.length,
      address < slotPtr ((ring.currentLogEntry + index) % numLogEntries) ∨
        slotPtr ((ring.currentLogEntry + index) % numLogEntries + 1) ≤ address) :
    (doWriteData numLogEntries ring call).mem address = ring.mem address := by
  rw [doWriteData_eq]
  refine storeAll_of_outside (slotImages_ok call) ring.mem below fun slot member => ?_
  obtain ⟨index, inside, rfl⟩ := List.mem_map.mp member
  rw [List.mem_range, length_slotImages] at inside
  exact outside index inside

/-- The header of the entry announces the slot count, in an `unsigned int`. -/
theorem doWriteData_numBlocks :
    numBlocksAt (doWriteData numLogEntries ring call).mem ring.currentLogEntry =
      numLogBufs call.buf.length % 2 ^ 32 := by
  have first : (slotImages call)[0]? = some (.first (numLogBufs call.buf.length) call
      (call.buf.take maxCharsInFirstBlock)) := rfl
  have header := SlotImage.numBlocksAt_of_held (doWriteData_held below fits first)
  rwa [Nat.add_zero, Nat.mod_eq_of_lt below] at header

/-- Its other slots announce no blocks. -/
theorem doWriteData_numBlocks_other {index : Nat} (other : 0 < index)
    (counted : index < numLogBufs call.buf.length) :
    numBlocksAt (doWriteData numLogEntries ring call).mem
      ((ring.currentLogEntry + index) % numLogEntries) = 0 := by
  obtain ⟨before, rfl⟩ : ∃ before, index = before + 1 := ⟨index - 1, by omega⟩
  rw [← length_slotImages] at counted
  have stored := List.getElem?_eq_getElem counted
  rw [SlotImage.numBlocksAt_of_held (doWriteData_held below fits stored)]
  exact otherImages_numBlocks _ _ (List.getElem_mem _)

end Write

/-! ### Loop and formula -/

/-- **The slot loop agrees with a slot count**: what the loop does when an entry is written at the
cursor, and what it leaves in the region. -/
structure SlotLoopAgrees (numLogEntries : Nat) (ring : LogRing) (call : WriteCall) (count : Nat) :
    Prop where
  /-- Every counted pass copies to the next slot of the ring. -/
  visits : ∀ index < count,
    (pass numLogEntries ring.currentLogEntry call.buf index).bytesToWrite > 0 ∧
      (pass numLogEntries ring.currentLogEntry call.buf index).curLogIdx =
        (ring.currentLogEntry + index) % numLogEntries
  /-- Then the loop condition is false and the buffer consumed. -/
  stops : (pass numLogEntries ring.currentLogEntry call.buf count).bytesToWrite = 0 ∧
    (pass numLogEntries ring.currentLogEntry call.buf count).buf = []
  /-- No more fuel changes the result. -/
  terminates : ∀ fuel ≥ count,
    copyLoop numLogEntries fuel (.start ring.currentLogEntry call.buf)
        (storeHeader ring.currentLogEntry call ring.mem) =
      (pass numLogEntries ring.currentLogEntry call.buf count, (doWriteData numLogEntries ring call).mem)
  cursor : (doWriteData numLogEntries ring call).currentLogEntry =
    (ring.currentLogEntry + count) % numLogEntries
  data : ((List.range count).flatMap (dataArea numLogEntries ring.currentLogEntry
    (doWriteData numLogEntries ring call).mem)).take call.buf.length = call.buf
  /-- All data areas but the last are full, and the last one is not empty. -/
  full : areaBefore (count - 1) < call.buf.length ∧ call.buf.length ≤ areaBefore count
  header : numBlocksAt (doWriteData numLogEntries ring call).mem ring.currentLogEntry = count
  others : ∀ index, 0 < index → index < count →
    numBlocksAt (doWriteData numLogEntries ring call).mem
      ((ring.currentLogEntry + index) % numLogEntries) = 0
  frame : ∀ address, (∀ index < count,
      address < slotPtr ((ring.currentLogEntry + index) % numLogEntries) ∨
        slotPtr ((ring.currentLogEntry + index) % numLogEntries + 1) ≤ address) →
    (doWriteData numLogEntries ring call).mem address = ring.mem address

/-- **The slot loop agrees with the slot count**, whatever the ring held before, exactly when the
count fits `numBlocks`, an `unsigned int`. -/
theorem slotLoopAgrees_iff {numLogEntries : Nat} {ring : LogRing} {call : WriteCall}
    (below : ring.currentLogEntry < numLogEntries) (nonempty : 0 < call.buf.length)
    (fits : slotsNeeded call.buf.length ≤ numLogEntries) :
    SlotLoopAgrees numLogEntries ring call (slotsNeeded call.buf.length) ↔
      slotsNeeded call.buf.length < 2 ^ 32 := by
  rw [← numLogBufs_eq_slotsNeeded] at fits ⊢
  have header := doWriteData_numBlocks below fits
  refine ⟨fun agrees => ?_, fun small => ?_⟩
  · rw [← agrees.header, header]
    exact Nat.mod_lt _ (by decide)
  · have copies : ∀ index < numLogBufs call.buf.length,
        (pass numLogEntries ring.currentLogEntry call.buf index).bytesToWrite > 0 :=
      fun index counted => (pass_bytesToWrite_pos_iff _ _ _).mpr (areaBefore_lt nonempty counted)
    have stop : ¬ (pass numLogEntries ring.currentLogEntry call.buf
        (numLogBufs call.buf.length)).bytesToWrite > 0 := by
      rw [pass_bytesToWrite_pos_iff]
      exact (le_areaBefore _).not_gt
    have ends := fun fuel (enough : numLogBufs call.buf.length ≤ fuel) =>
      copyLoop_of_stop copies stop enough (storeHeader ring.currentLogEntry call ring.mem)
    exact
      { visits := fun index counted =>
          ⟨copies index counted, pass_curLogIdx below (areaBefore_lt nonempty counted)⟩
        stops := ⟨Nat.eq_zero_of_not_pos stop, (pass_capped _ _ _ _).empty stop⟩
        terminates := fun fuel enough => by
          rw [doWriteData, ends fuel enough, ends call.buf.length (numLogBufs_le nonempty)]
          rfl
        cursor := rfl
        data := take_flatMap_dataArea below fits nonempty
        full := ⟨areaBefore_lt nonempty (Nat.sub_lt (numLogBufs_pos _) Nat.one_pos), le_areaBefore _⟩
        header := by rw [header, Nat.mod_eq_of_lt small]
        others := fun index => doWriteData_numBlocks_other below fits
        frame := fun address => doWriteData_frame below }

/-- A call with `length` equal characters. -/
def evenCall (length : Nat) : WriteCall :=
  ⟨List.replicate length 97, ⟨[85], by decide⟩, ⟨[86], by decide⟩, ⟨0, 0⟩⟩

theorem length_evenCall (length : Nat) : (evenCall length).buf.length = length :=
  List.length_replicate

/-- From the last of three slots, 500 characters take the last slot and the first one. -/
theorem slotLoopAgrees_wrapping :
    SlotLoopAgrees 3 ⟨fun _ => 0, 2⟩ (evenCall 500) (slotsNeeded (evenCall 500).buf.length) := by
  have count : slotsNeeded (evenCall 500).buf.length = 2 := by
    rw [← numLogBufs_eq_slotsNeeded, length_evenCall]
    decide
  have nonempty : 0 < (evenCall 500).buf.length := by
    rw [length_evenCall]
    decide
  have below : (⟨fun _ => 0, 2⟩ : LogRing).currentLogEntry < 3 := Nat.lt_succ_self 2
  refine (slotLoopAgrees_iff below nonempty ?_).mpr ?_
  · rw [count]
    decide
  · rw [count]
    decide

/-- An entry that fills all `2 ^ 32` slots of a ring announces no blocks at all. -/
theorem not_slotLoopAgrees_of_wide :
    let len := 464 + 508 * (2 ^ 32 - 1)
    0 < (evenCall len).buf.length ∧ slotsNeeded (evenCall len).buf.length ≤ 2 ^ 32 ∧
      ¬ SlotLoopAgrees (2 ^ 32) ⟨fun _ => 0, 0⟩ (evenCall len) (slotsNeeded (evenCall len).buf.length) := by
  intro len
  have length : (evenCall len).buf.length = len := length_evenCall len
  have count : numLogBufs (evenCall len).buf.length = 2 ^ 32 := by
    have cases := numLogBufs_cases len
    rw [length]
    omega
  rw [← numLogBufs_eq_slotsNeeded]
  refine ⟨by rw [length]; omega, count.le, fun agrees => ?_⟩
  have below : (⟨fun _ => 0, 0⟩ : LogRing).currentLogEntry < 2 ^ 32 := by decide
  have announced := doWriteData_numBlocks below count.le
  rw [agrees.header, count] at announced
  exact absurd announced (by decide)

end StatLog.Logger
