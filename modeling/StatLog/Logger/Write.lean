/-
**`doWriteData` on the log region.**

The writer computes the number of slots from the length, advances the cursor by it, stores the
header and then copies the buffer in a loop that moves on to the next slot, modulo the number of
slots, whenever characters are left.

* `doWriteData`: the function on the shared region and the cursor, with `CopyState` for the
  variables of its loop.
* `slotImages`: the slots an entry should fill; `length_slotImages` is the slot count `numLogBufs`.
* **`doWriteData_eq`**: the loop stores exactly these images, one after the other from the cursor,
  and leaves the cursor behind them.
-/

import StatLog.Logger.Slot

namespace StatLog.Logger

open ByteMemory CircularBuffer

/-! ### The writer -/

/-- `CEIL_DIVIDE`. -/
def ceilDivide (a b : Nat) : Nat := (a + b - 1) / b

/-- `num_log_bufs` of a buffer of `len` bytes. -/
def numLogBufs (len : Nat) : Nat :=
  1 + if len > maxCharsInFirstBlock then
    ceilDivide (len - maxCharsInFirstBlock) maxCharsInOtherBlocks
  else 0

/-- What `doWriteData` changes: the shared region behind the mutex and the process-local cursor. -/
structure LogRing where
  mem : Mem
  currentLogEntry : Nat

/-- The variables of the copy loop. `buf` is what is left of the buffer and its length is `len`. -/
structure CopyState where
  buf : List UInt8
  curLogIdx : Nat
  dataPtr : Nat
  bytesToWrite : Nat

namespace CopyState

/-- The variables after one pass of the loop. -/
def next (numLogEntries : Nat) (state : CopyState) : CopyState :=
  let buf := state.buf.drop state.bytesToWrite
  let bytesToWrite := min buf.length maxCharsInOtherBlocks
  if bytesToWrite > 0 then
    let curLogIdx := (state.curLogIdx + 1) % numLogEntries
    ⟨buf, curLogIdx, slotPtr curLogIdx + sizeofLogHeaderCommon, bytesToWrite⟩
  else { state with buf, bytesToWrite }

/-- The stores of one pass: the characters, then `numBlocks` of the next slot if there is one. -/
def store (numLogEntries : Nat) (state : CopyState) (mem : Mem) : Mem :=
  let mem := mem.write state.dataPtr (state.buf.take state.bytesToWrite)
  if (state.next numLogEntries).bytesToWrite > 0 then
    mem.write (slotPtr (state.next numLogEntries).curLogIdx) (leBytes 4 0)
  else mem

end CopyState

/-- `while(bytes_to_write > 0)`. -/
def copyLoop (numLogEntries : Nat) : Nat → CopyState → Mem → CopyState × Mem
  | 0, state, mem => (state, mem)
  | fuel + 1, state, mem =>
    if state.bytesToWrite > 0 then
      copyLoop numLogEntries fuel (state.next numLogEntries) (state.store numLogEntries mem)
    else (state, mem)

/-- The loop variables before the first pass. -/
def CopyState.start (cursor : Nat) (buf : List UInt8) : CopyState :=
  ⟨buf, cursor, slotPtr cursor + sizeofLogHeader, min buf.length maxCharsInFirstBlock⟩

/-- The store of the header of an entry that starts at the given slot. -/
def storeHeader (slot : Nat) (call : WriteCall) (mem : Mem) : Mem :=
  Field.storeAll mem (slotPtr slot) (headerFields (numLogBufs call.buf.length) call)

/-- `currentLogEntry` once an entry of `len` bytes has taken its slots. -/
def advanceCursor (numLogEntries cursor len : Nat) : Nat :=
  (cursor + numLogBufs len) % numLogEntries

/-- **`doWriteData`**, once it holds the interprocess mutex. Each pass of the loop copies at least
one byte, so `len` passes are enough (`copyLoop_eq`). -/
def doWriteData (numLogEntries : Nat) (ring : LogRing) (call : WriteCall) : LogRing :=
  let startLogIdx := ring.currentLogEntry
  let mem := storeHeader startLogIdx call ring.mem
  let copied := copyLoop numLogEntries call.buf.length (.start startLogIdx call.buf) mem
  ⟨copied.2, advanceCursor numLogEntries startLogIdx call.buf.length⟩

/-- The region and the cursor the constructor of `shared_mem_logger_generator` leaves: everything
zeroed. -/
def LogRing.initial : LogRing := ⟨fun _ => 0, 0⟩

/-- A sequence of calls that each acquired the mutex. -/
def writeAll (numLogEntries : Nat) (ring : LogRing) (calls : List WriteCall) : LogRing :=
  calls.foldl (doWriteData numLogEntries) ring

theorem writeAll_concat (numLogEntries : Nat) (ring : LogRing) (calls : List WriteCall)
    (call : WriteCall) :
    writeAll numLogEntries ring (calls ++ [call]) =
      doWriteData numLogEntries (writeAll numLogEntries ring calls) call := by
  rw [writeAll, List.foldl_append]
  rfl

/-! ### The slots of an entry -/

/-- The slots behind the first one, for the bytes that did not fit there. -/
def otherImages (buf : List UInt8) : List SlotImage :=
  if buf.length = 0 then []
  else .other (buf.take maxCharsInOtherBlocks) :: otherImages (buf.drop maxCharsInOtherBlocks)
termination_by buf.length
decreasing_by
  simp only [List.length_drop, maxCharsInOtherBlocks, bytesPerLogBuf, sizeofLogHeaderCommon]
  omega

/-- **The slots of an entry.** -/
def slotImages (call : WriteCall) : List SlotImage :=
  .first (numLogBufs call.buf.length) call (call.buf.take maxCharsInFirstBlock) ::
    otherImages (call.buf.drop maxCharsInFirstBlock)

theorem otherImages_nil : otherImages [] = [] := by
  rw [otherImages]
  rfl

theorem otherImages_of_pos {buf : List UInt8} (positive : 0 < buf.length) :
    otherImages buf =
      .other (buf.take maxCharsInOtherBlocks) :: otherImages (buf.drop maxCharsInOtherBlocks) := by
  rw [otherImages, if_neg (by omega)]

theorem length_otherImages (buf : List UInt8) :
    (otherImages buf).length = ceilDivide buf.length maxCharsInOtherBlocks := by
  induction buf using otherImages.induct with
  | case1 buf empty =>
    rw [otherImages, if_pos empty, empty]
    rfl
  | case2 buf nonempty ih =>
    rw [otherImages, if_neg nonempty, List.length_cons, ih]
    simp only [ceilDivide, List.length_drop, maxCharsInOtherBlocks, bytesPerLogBuf,
      sizeofLogHeaderCommon]
    omega

/-- **The slot count of the formula is the number of slots filled.** -/
theorem length_slotImages (call : WriteCall) :
    (slotImages call).length = numLogBufs call.buf.length := by
  rw [slotImages, List.length_cons, length_otherImages, numLogBufs, List.length_drop]
  by_cases long : call.buf.length > maxCharsInFirstBlock
  · rw [if_pos long, Nat.add_comm]
  · rw [if_neg long, show call.buf.length - maxCharsInFirstBlock = 0 by omega]
    rfl

theorem otherImages_ok (buf : List UInt8) : ∀ image ∈ otherImages buf, image.Ok := by
  induction buf using otherImages.induct with
  | case1 buf empty =>
    rw [otherImages, if_pos empty]
    exact fun _ member => by cases member
  | case2 buf nonempty ih =>
    rw [otherImages, if_neg nonempty]
    intro image member
    rcases List.mem_cons.mp member with rfl | later
    · exact List.length_take_le _ _
    · exact ih image later

theorem slotImages_ok (call : WriteCall) : ∀ image ∈ slotImages call, image.Ok := by
  intro image member
  rcases List.mem_cons.mp member with rfl | later
  · exact List.length_take_le _ _
  · exact otherImages_ok _ image later

theorem otherImages_numBlocks (buf : List UInt8) :
    ∀ image ∈ otherImages buf, image.numBlocks = 0 := by
  induction buf using otherImages.induct with
  | case1 buf empty =>
    rw [otherImages, if_pos empty]
    exact fun _ member => by cases member
  | case2 buf nonempty ih =>
    rw [otherImages, if_neg nonempty]
    intro image member
    rcases List.mem_cons.mp member with rfl | later
    · rfl
    · exact ih image later

/-! ### The loop fills these slots -/

namespace CopyState

variable {numLogEntries cap : Nat} {state : CopyState}

/-- The announced count is what the buffer and the slot allow. -/
structure Capped (cap : Nat) (state : CopyState) : Prop where
  positive : 0 < cap
  eq : state.bytesToWrite = min state.buf.length cap

theorem Capped.empty (capped : state.Capped cap) (done : ¬ state.bytesToWrite > 0) :
    state.buf = [] := by
  have := capped.eq
  have := capped.positive
  exact List.length_eq_zero_iff.mp (by omega)

theorem Capped.take_eq (capped : state.Capped cap) :
    state.buf.take state.bytesToWrite = state.buf.take cap := by
  rw [capped.eq, Nat.min_comm, ← List.take_eq_take_min]

theorem Capped.drop_eq (capped : state.Capped cap) :
    state.buf.drop state.bytesToWrite = state.buf.drop cap := by
  rw [capped.eq, Nat.min_comm, ← List.drop_eq_drop_min]

theorem next_buf (numLogEntries : Nat) (state : CopyState) :
    (state.next numLogEntries).buf = state.buf.drop state.bytesToWrite := by
  simp only [next]
  split <;> rfl

theorem next_capped (numLogEntries : Nat) (state : CopyState) :
    (state.next numLogEntries).Capped maxCharsInOtherBlocks := by
  refine ⟨by decide, ?_⟩
  simp only [next]
  split <;> rfl

/-- The cursor moves on when characters are left, to the data area of the next slot. -/
theorem next_of_pos (more : (state.next numLogEntries).bytesToWrite > 0) :
    (state.next numLogEntries).curLogIdx = (state.curLogIdx + 1) % numLogEntries ∧
      (state.next numLogEntries).dataPtr =
        slotPtr ((state.curLogIdx + 1) % numLogEntries) + sizeofLogHeaderCommon := by
  simp only [next] at more ⊢
  split
  · exact ⟨rfl, rfl⟩
  · rename_i none
    rw [if_neg none] at more
    exact absurd more none

theorem start_capped (cursor : Nat) (buf : List UInt8) :
    (start cursor buf).Capped maxCharsInFirstBlock :=
  ⟨by decide, rfl⟩

end CopyState

/-- **The copy loop.** From a loop state that announces what buffer and slot allow, the loop copies
it to the current slot, fills the following slots with the rest of the buffer, and ends with the
whole buffer consumed. -/
theorem copyLoop_eq (numLogEntries : Nat) {fuel cap : Nat} {state : CopyState} (mem : Mem)
    (enough : state.buf.length ≤ fuel) (capped : state.Capped cap) :
    (copyLoop numLogEntries fuel state mem).2 =
        logCells.storeAll numLogEntries (mem.write state.dataPtr (state.buf.take cap))
          ((state.curLogIdx + 1) % numLogEntries) (otherImages (state.buf.drop cap)) ∧
      (copyLoop numLogEntries fuel state mem).1.buf = [] := by
  induction fuel generalizing cap state mem with
  | zero =>
    have empty : state.buf = [] := List.length_eq_zero_iff.mp (by omega)
    refine ⟨?_, empty⟩
    rw [empty, List.take_nil, List.drop_nil, otherImages_nil, Mem.write_nil]
    rfl
  | succ fuel ih =>
    rw [copyLoop]
    by_cases copying : state.bytesToWrite > 0
    · rw [if_pos copying]
      have next := state.next_capped numLogEntries
      have nextBuf := state.next_buf numLogEntries
      have shorter : (state.next numLogEntries).buf.length ≤ fuel := by
        rw [nextBuf, List.length_drop]
        omega
      obtain ⟨memEq, consumed⟩ := ih (state.store numLogEntries mem) shorter next
      refine ⟨?_, consumed⟩
      rw [memEq, ← capped.take_eq, ← capped.drop_eq, ← nextBuf]
      by_cases more : (state.next numLogEntries).bytesToWrite > 0
      · -- `numBlocks` from this pass and the characters of the next one make up one slot
        obtain ⟨cursor, pointer⟩ := CopyState.next_of_pos more
        have left : 0 < (state.next numLogEntries).buf.length := by
          have := next.eq
          omega
        rw [otherImages_of_pos left, CellStore.storeAll, pointer, cursor]
        simp only [CopyState.store, if_pos more, cursor]
        rfl
      · rw [next.empty more, List.take_nil, List.drop_nil, otherImages_nil, Mem.write_nil]
        simp only [CopyState.store, if_neg more, CellStore.storeAll]
    · rw [if_neg copying]
      have empty := capped.empty copying
      refine ⟨?_, empty⟩
      simp only [empty, List.take_nil, List.drop_nil, otherImages_nil, Mem.write_nil]
      rfl

/-- **`doWriteData` stores the slots of its entry**, one after the other from the cursor, and leaves
the cursor behind them. -/
theorem doWriteData_eq {numLogEntries : Nat} {ring : LogRing} (call : WriteCall) :
    doWriteData numLogEntries ring call =
      ⟨logCells.storeAll numLogEntries ring.mem ring.currentLogEntry (slotImages call),
        (ring.currentLogEntry + (slotImages call).length) % numLogEntries⟩ := by
  have loop := copyLoop_eq numLogEntries (storeHeader ring.currentLogEntry call ring.mem)
    (Nat.le_refl call.buf.length) (CopyState.start_capped ring.currentLogEntry call.buf)
  have header : (storeHeader ring.currentLogEntry call ring.mem).write
      (CopyState.start ring.currentLogEntry call.buf).dataPtr
        ((CopyState.start ring.currentLogEntry call.buf).buf.take maxCharsInFirstBlock) =
      logCells.store ring.mem ring.currentLogEntry (.first (numLogBufs call.buf.length) call
        (call.buf.take maxCharsInFirstBlock)) := by
    simp only [logCells, SlotImage.fields, Field.storeAll_append]
    rfl
  rw [header] at loop
  rw [doWriteData, length_slotImages, slotImages, CellStore.storeAll]
  exact congrArg₂ LogRing.mk loop.1 rfl

end StatLog.Logger
