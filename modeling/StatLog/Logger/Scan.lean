/-
**What the reader's C-string scans meet.**

A full slot carries no terminator: its text ends at the first byte behind the slot, which is the
zero `numBlocks` of the entry's next slot or, behind the last slot of the ring, a spare byte.

* `SlotImage.data`, `flatten_data`: the data areas of an entry's slots make up its buffer.
* **`survivor_stop`**: behind the data of every slot of a surviving message, or in it, is a NUL.
* **`survivor_text`**: the reader's scans of a surviving message join to its text.
* `survivor_tagName`, `survivor_logLevelName`: the names the reader sees; `seenTagName` and
  `seenLogLevelName` depend on the message alone.
-/

import StatLog.Logger.Ring

namespace StatLog.Logger

open ByteMemory CircularBuffer

/-! ### The data areas -/

namespace SlotImage

def data : SlotImage → List UInt8
  | .first _ _ data => data
  | .other data => data

/-- The offset of the data area in a slot. -/
def dataOffset : SlotImage → Nat
  | .first .. => sizeofLogHeader
  | .other _ => sizeofLogHeaderCommon

theorem dataOffset_add_length_le {image : SlotImage} (ok : image.Ok) :
    image.dataOffset + image.data.length ≤ bytesPerLogBuf := by
  cases image with
  | first numBlocks call data =>
    have ok : data.length ≤ bytesPerLogBuf - sizeofLogHeader := ok
    simp only [dataOffset, SlotImage.data, bytesPerLogBuf, sizeofLogHeader] at *
    omega
  | other data =>
    have ok : data.length ≤ bytesPerLogBuf - sizeofLogHeaderCommon := ok
    simp only [dataOffset, SlotImage.data, bytesPerLogBuf, sizeofLogHeaderCommon] at *
    omega

/-- The data area holds the characters of the image. -/
theorem read_data {mem : Mem} {slot : Nat} {image : SlotImage}
    (held : logCells.held mem slot image) :
    mem.read (slotPtr slot + image.dataOffset) image.data.length = image.data := by
  cases image with
  | first numBlocks call data => exact held (sizeofLogHeader, data) (by simp [fields])
  | other data => exact held (sizeofLogHeaderCommon, data) (by simp [fields])

/-- A continuation slot starts with a zero byte. -/
theorem first_byte_of_other {mem : Mem} {slot : Nat} {data : List UInt8}
    (held : logCells.held mem slot (.other data)) : mem (slotPtr slot) = 0 := by
  have stored := held (0, leBytes 4 0) (by simp [fields])
  rw [leBytes_zero, List.length_replicate, Nat.add_zero, show (4 : Nat) = 1 + 3 from rfl,
    Mem.read_add, Mem.read_one] at stored
  exact (List.cons.inj stored).1

end SlotImage

theorem length_pos_of_lt_otherImages {buf : List UInt8} {j : Nat}
    (inside : j < (otherImages buf).length) : 0 < buf.length := by
  rcases Nat.eq_zero_or_pos buf.length with empty | positive
  · rw [List.length_eq_zero_iff.mp empty, otherImages_nil] at inside
    exact absurd inside (Nat.not_lt_zero j)
  · exact positive

theorem otherImages_getElem {buf : List UInt8} {j : Nat} (inside : j < (otherImages buf).length) :
    (otherImages buf)[j] =
      .other ((buf.drop (maxCharsInOtherBlocks * j)).take maxCharsInOtherBlocks) := by
  induction j generalizing buf with
  | zero =>
    have positive := length_pos_of_lt_otherImages inside
    simp only [otherImages_of_pos positive, List.getElem_cons_zero, Nat.mul_zero, List.drop_zero]
  | succ j ih =>
    have positive := length_pos_of_lt_otherImages inside
    simp only [otherImages_of_pos positive, List.length_cons] at inside ⊢
    rw [List.getElem_cons_succ, ih (by omega), List.drop_drop,
      show maxCharsInOtherBlocks + maxCharsInOtherBlocks * j = maxCharsInOtherBlocks * (j + 1) by
        rw [Nat.mul_add, Nat.mul_one, Nat.add_comm]]

theorem flatten_otherImages (buf : List UInt8) :
    ((otherImages buf).map SlotImage.data).flatten = buf := by
  induction buf using otherImages.induct with
  | case1 buf empty =>
    rw [otherImages, if_pos empty, List.length_eq_zero_iff.mp empty]
    rfl
  | case2 buf nonempty ih =>
    rw [otherImages, if_neg nonempty, List.map_cons, List.flatten_cons, ih]
    exact List.take_append_drop _ _

/-- **The data areas of an entry's slots make up its buffer.** -/
theorem flatten_data (call : WriteCall) :
    ((slotImages call).map SlotImage.data).flatten = call.buf := by
  rw [slotImages, List.map_cons, List.flatten_cons, flatten_otherImages]
  exact List.take_append_drop _ _

theorem otherImages_data_ne_nil (buf : List UInt8) :
    ∀ image ∈ otherImages buf, image.data ≠ [] := by
  induction buf using otherImages.induct with
  | case1 buf empty =>
    rw [otherImages, if_pos empty]
    exact fun _ member => by cases member
  | case2 buf nonempty ih =>
    rw [otherImages, if_neg nonempty]
    intro image member
    rcases List.mem_cons.mp member with rfl | later
    · intro empty
      have := congrArg List.length empty
      simp only [SlotImage.data, List.length_take, List.length_nil, maxCharsInOtherBlocks,
        bytesPerLogBuf, sizeofLogHeaderCommon] at this
      omega
    · exact ih image later

/-- **Every slot but the last of an entry is full**, and the last one ends with the buffer's last
byte. -/
theorem slotImages_full_or_last {call : WriteCall} {last : UInt8} {front : List UInt8}
    (ends : call.buf = front ++ [last]) {j : Nat} (inside : j < (slotImages call).length) :
    (j + 1 < (slotImages call).length ∧
      (slotImages call)[j].dataOffset + (slotImages call)[j].data.length = bytesPerLogBuf) ∨
    last ∈ (slotImages call)[j].data := by
  have lastMem : ∀ {count}, count ≤ front.length → last ∈ call.buf.drop count := by
    intro count within
    rw [ends, List.drop_append_of_le_length within]
    exact List.mem_append_right _ List.mem_cons_self
  have length : call.buf.length = front.length + 1 := by rw [ends]; simp
  have count := length_slotImages call
  have total := length_otherImages (call.buf.drop maxCharsInFirstBlock)
  rw [slotImages, List.length_cons, total, List.length_drop] at count
  simp only [slotImages, List.length_cons, total, List.length_drop] at inside ⊢
  simp only [ceilDivide, maxCharsInFirstBlock, maxCharsInOtherBlocks, bytesPerLogBuf,
    sizeofLogHeader, sizeofLogHeaderCommon] at inside ⊢
  cases j with
  | zero =>
    simp only [List.getElem_cons_zero, SlotImage.data, SlotImage.dataOffset, sizeofLogHeader]
    by_cases long : call.buf.length > 464
    · refine Or.inl ⟨by omega, ?_⟩
      rw [List.length_take]
      omega
    · have := @lastMem 0 (Nat.zero_le _)
      rw [List.drop_zero] at this
      rw [List.take_of_length_le (by omega)]
      exact Or.inr this
  | succ j =>
    simp only [List.getElem_cons_succ, otherImages_getElem, SlotImage.data, SlotImage.dataOffset,
      List.drop_drop, maxCharsInOtherBlocks, bytesPerLogBuf, sizeofLogHeaderCommon]
    by_cases full : 464 + 508 * (j + 1) < call.buf.length
    · refine Or.inl ⟨by omega, ?_⟩
      rw [List.length_take, List.length_drop]
      omega
    · have := @lastMem (464 + 508 * j) (by omega)
      rw [List.take_of_length_le (by rw [List.length_drop]; omega)]
      exact Or.inr this

/-! ### Messages -/

/-- A NUL-free message with its names and its time stamp. -/
structure LogMessage where
  text : CString
  tagName : CString
  logLevelName : CString
  timeStamp : TimeStamp

/-- The call `writeData` makes for a message: `len` counts the trailing NUL. -/
def LogMessage.call (message : LogMessage) : WriteCall :=
  ⟨message.text.bytes ++ [0], message.tagName, message.logLevelName, message.timeStamp⟩

/-- The region after the messages were written, from the zeroed state. -/
def memAfter (numLogEntries : Nat) (messages : List LogMessage) : Mem :=
  (writeAll numLogEntries .initial (messages.map LogMessage.call)).mem

section Survivor

variable {size : Nat} (positive : 0 < numLogEntriesOf size) (spare : 0 < size % bytesPerLogBuf)
  {calls : List WriteCall} {index : Nat} (inside : index < calls.length)
  (fits : slotsFrom calls index ≤ numLogEntriesOf size)

theorem slot_end_le {slot : Nat} (below : slot < numLogEntriesOf size) :
    slotPtr slot + bytesPerLogBuf ≤ size := by
  unfold numLogEntriesOf slotPtr bytesPerLogBuf at *
  omega

include spare in
theorem slot_end_lt {slot : Nat} (below : slot < numLogEntriesOf size) :
    slotPtr slot + bytesPerLogBuf < size := by
  unfold numLogEntriesOf slotPtr bytesPerLogBuf at *
  omega

include positive fits in
/-- **A NUL ends every data area of a surviving entry**: it is in the area, or behind it. -/
theorem survivor_stop {front : List UInt8} (ends : calls[index].buf = front ++ [0]) {j : Nat}
    (within : j < (slotImages calls[index]).length) :
    let mem := (writeAll (numLogEntriesOf size) .initial calls).mem
    let image := (slotImages calls[index])[j]
    0 ∈ image.data ∨ mem (slotPtr ((slotsBefore calls index + j) % numLogEntriesOf size) +
      image.dataOffset + image.data.length) = 0 := by
  intro mem image
  rcases slotImages_full_or_last ends within with ⟨more, full⟩ | terminated
  · right
    have cell : (slotsBefore calls index + j) % numLogEntriesOf size < numLogEntriesOf size :=
      Nat.mod_lt _ positive
    generalize slotEq : (slotsBefore calls index + j) % numLogEntriesOf size = slot at cell
    rw [show slotPtr slot + image.dataOffset + image.data.length = slotPtr (slot + 1) by
      rw [Nat.add_assoc, full]; unfold slotPtr; rw [Nat.mul_add, Nat.mul_one]]
    by_cases last : slot + 1 = numLogEntriesOf size
    · -- behind the ring lie the spare bytes
      rw [last]
      exact spare_unchanged positive calls (Nat.le_refl _)
    · -- the next slot continues the entry
      have held := survivor_held positive inside fits more
      have next : (slotsBefore calls index + (j + 1)) % numLogEntriesOf size = slot + 1 := by
        rw [← Nat.add_assoc, ← Nat.mod_add_mod, slotEq, Nat.mod_eq_of_lt (by omega)]
      rw [next] at held
      simp only [slotImages, List.getElem_cons_succ, otherImages_getElem] at held
      exact SlotImage.first_byte_of_other held
  · exact Or.inl terminated

include positive spare fits in
/-- The scan of one data area meets what was stored there, up to its first NUL. -/
theorem survivor_scan {front : List UInt8} (ends : calls[index].buf = front ++ [0]) {j : Nat}
    (within : j < (slotImages calls[index]).length) :
    cString (writeAll (numLogEntriesOf size) .initial calls).mem size
        (slotPtr ((slotsBefore calls index + j) % numLogEntriesOf size) +
          (slotImages calls[index])[j].dataOffset) =
      some ((slotImages calls[index])[j].data.takeWhile (· ≠ 0)) := by
  refine cString_eq (SlotImage.read_data (survivor_held positive inside fits within))
    (survivor_stop positive inside fits ends within) ?_
  have areaEnd := SlotImage.dataOffset_add_length_le (slotImages_ok _ _ (List.getElem_mem within))
  have slotEnd := slot_end_lt spare
    (Nat.mod_lt (slotsBefore calls index + j) positive)
  omega

end Survivor

theorem joinScans_map_some (texts : List (List UInt8)) :
    joinScans (texts.map some) = some texts.flatten := by
  induction texts with
  | nil => rfl
  | cons text texts ih =>
    rw [List.map_cons, joinScans, ih]
    rfl

/-- A header at the start of a survivor reads back. -/
theorem survivor_numBlocks {numLogEntries : Nat} (positive : 0 < numLogEntries)
    (small : numLogEntries < 2 ^ 32) {calls : List WriteCall} {index : Nat}
    (inside : index < calls.length) (fits : slotsFrom calls index ≤ numLogEntries) :
    numBlocksAt (writeAll numLogEntries .initial calls).mem (startSlot numLogEntries calls index) =
      numLogBufs calls[index].buf.length := by
  rw [SlotImage.numBlocksAt_of_held (survivor_header positive inside fits)]
  exact numBlocks_of_survivor small inside fits

theorem survivor_timeStamp {numLogEntries : Nat} (positive : 0 < numLogEntries)
    {calls : List WriteCall} {index : Nat} (inside : index < calls.length)
    (fits : slotsFrom calls index ≤ numLogEntries) :
    timeStampAt (writeAll numLogEntries .initial calls).mem (startSlot numLogEntries calls index) =
      calls[index].timeStamp :=
  SlotImage.timeStampAt_of_held (survivor_header positive inside fits)

/-- **The reader's scans of a surviving message join to its text.** -/
theorem survivor_text {size : Nat} (positive : 0 < numLogEntriesOf size)
    (small : numLogEntriesOf size < 2 ^ 32) (spare : 0 < size % bytesPerLogBuf)
    {calls : List WriteCall} {index : Nat} (inside : index < calls.length)
    (fits : slotsFrom calls index ≤ numLogEntriesOf size) {text : CString}
    (message : calls[index].buf = text.bytes ++ [0]) :
    joinScans (textScans (numLogEntriesOf size) size
      (writeAll (numLogEntriesOf size) .initial calls).mem
      (startSlot (numLogEntriesOf size) calls index)) = some text.bytes := by
  have blocks := survivor_numBlocks positive small inside fits
  have count := length_slotImages calls[index]
  have scans : textScans (numLogEntriesOf size) size
      (writeAll (numLogEntriesOf size) .initial calls).mem (startSlot (numLogEntriesOf size) calls index) =
      (((slotImages calls[index]).map SlotImage.data).map (·.takeWhile (· ≠ 0))).map some := by
    apply List.ext_getElem
    · have := numLogBufs_pos calls[index].buf.length
      simp only [textScans, List.length_cons, List.length_map, List.length_range, blocks, count]
      omega
    · intro j within within'
      simp only [List.length_map] at within'
      have scan := survivor_scan positive spare inside fits message within'
      simp only [List.getElem_map]
      cases j with
      | zero => exact scan
      | succ j =>
        simp only [textScans, List.getElem_cons_succ, List.getElem_map, List.getElem_range]
        rw [← scan, startSlot, Nat.add_assoc, Nat.mod_add_mod, Nat.add_comm 1 j]
        simp only [slotImages, List.getElem_cons_succ, otherImages_getElem]
        rfl
  have nonempty : ∀ piece ∈ (slotImages calls[index]).map SlotImage.data, piece ≠ [] := by
    intro piece member
    obtain ⟨image, imageMem, rfl⟩ := List.mem_map.mp member
    rcases List.mem_cons.mp imageMem with rfl | later
    · intro empty
      have := congrArg List.length empty
      rw [message] at this
      simp [SlotImage.data, maxCharsInFirstBlock, bytesPerLogBuf, sizeofLogHeader] at this
    · exact otherImages_data_ne_nil _ image later
  rw [scans, joinScans_map_some,
    takeWhile_pieces text.nulFree ((flatten_data _).trans message) nonempty]

/-! ### Names -/

/-- What the reader sees as the tag name of an entry: a field without a NUL runs on into the level
name and the text. -/
def seenTagName (call : WriteCall) : List UInt8 :=
  (strncpy 16 call.tagName ++ (strncpy 8 call.logLevelName ++
    call.buf.take maxCharsInFirstBlock)).takeWhile (· ≠ 0)

/-- What the reader sees as the level name of an entry. -/
def seenLogLevelName (call : WriteCall) : List UInt8 :=
  (strncpy 8 call.logLevelName ++ call.buf.take maxCharsInFirstBlock).takeWhile (· ≠ 0)

section Names

variable {mem : Mem} {slot numBlocks : Nat} {call : WriteCall} {data : List UInt8}
  (held : logCells.held mem slot (.first numBlocks call data))

include held

theorem read_logLevelName :
    mem.read (slotPtr slot + 40) (strncpy 8 call.logLevelName ++ data).length =
      strncpy 8 call.logLevelName ++ data := by
  have level := held (40, strncpy 8 call.logLevelName) (by simp [SlotImage.fields, headerFields])
  have text := held (sizeofLogHeader, data) (by simp [SlotImage.fields])
  rw [List.length_append, Mem.read_add, level, length_strncpy, Nat.add_assoc]
  exact congrArg _ text

theorem read_tagName :
    mem.read (slotPtr slot + 24)
        (strncpy 16 call.tagName ++ (strncpy 8 call.logLevelName ++ data)).length =
      strncpy 16 call.tagName ++ (strncpy 8 call.logLevelName ++ data) := by
  have tag := held (24, strncpy 16 call.tagName) (by simp [SlotImage.fields, headerFields])
  have rest := read_logLevelName held
  rw [List.length_append, Mem.read_add, tag, length_strncpy, Nat.add_assoc]
  exact congrArg _ rest

end Names

section SurvivorNames

variable {size : Nat} (positive : 0 < numLogEntriesOf size) (spare : 0 < size % bytesPerLogBuf)
  {calls : List WriteCall} {index : Nat} (inside : index < calls.length)
  (fits : slotsFrom calls index ≤ numLogEntriesOf size) {front : List UInt8}
  (ends : calls[index].buf = front ++ [0])

include positive spare fits ends

/-- The name fields of a surviving message end with a NUL before the copy does. -/
theorem survivor_logLevelName :
    logLevelNameAt size (writeAll (numLogEntriesOf size) .initial calls).mem
        (startSlot (numLogEntriesOf size) calls index) = some (seenLogLevelName calls[index]) := by
  have held := survivor_header positive inside fits
  have stop := survivor_stop positive inside fits ends (Nat.succ_pos _)
  have slotEnd := slot_end_lt spare (Nat.mod_lt (slotsBefore calls index) positive)
  apply cString_eq (read_logLevelName held)
  · rcases stop with terminated | behind
    · exact Or.inl (List.mem_append_right _ terminated)
    · rw [List.length_append, length_strncpy, ← Nat.add_assoc]
      exact Or.inr behind
  · rw [List.length_append, length_strncpy, List.length_take]
    unfold startSlot maxCharsInFirstBlock bytesPerLogBuf sizeofLogHeader at *
    omega

theorem survivor_tagName :
    tagNameAt size (writeAll (numLogEntriesOf size) .initial calls).mem
        (startSlot (numLogEntriesOf size) calls index) = some (seenTagName calls[index]) := by
  have held := survivor_header positive inside fits
  have stop := survivor_stop positive inside fits ends (Nat.succ_pos _)
  have slotEnd := slot_end_lt spare (Nat.mod_lt (slotsBefore calls index) positive)
  apply cString_eq (read_tagName held)
  · rcases stop with terminated | behind
    · exact Or.inl (List.mem_append_right _ (List.mem_append_right _ terminated))
    · rw [List.length_append, List.length_append, length_strncpy, length_strncpy, ← Nat.add_assoc,
        ← Nat.add_assoc]
      exact Or.inr behind
  · rw [List.length_append, List.length_append, length_strncpy, length_strncpy, List.length_take]
    unfold startSlot maxCharsInFirstBlock bytesPerLogBuf sizeofLogHeader at *
    omega

end SurvivorNames

end StatLog.Logger
