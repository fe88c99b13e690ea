/-
**Where the scans of a text end.**

A full slot ends without a NUL, and the scan of its text goes on behind it. Behind the last slot of
the ring only spare bytes of the region can end it.

* `textScan_isSome_iff`: when the scan of one slot of a surviving entry meets a NUL.
* `WrapsUnended`: a slot of an entry that is scanned, but not its last one, is the ring's last.
* **`getLog_text_isSome_iff`**: all scans of all outputs stay inside the copy exactly when there is a
  spare byte or no surviving entry wraps. `getLog_leaves_copy`: a region of two slots without one.
-/

import StatLog.Logger.Exclude

namespace StatLog.Logger

open ByteMemory CircularBuffer

/-! ### Which slots hold the NUL -/

/-- A piece of a text that is followed by other pieces does not reach its last character. -/
theorem subset_of_getElem_flatten {pieces : List (List UInt8)} {text : List UInt8} {last : UInt8}
    (joined : pieces.flatten = text ++ [last]) (nonempty : ∀ piece ∈ pieces, piece ≠ []) {j : Nat}
    (more : j + 1 < pieces.length) : ∀ byte ∈ pieces[j], byte ∈ text := by
  intro byte member
  obtain ⟨front, final, ends⟩ := List.eq_nil_or_concat (pieces.drop (j + 1)).flatten |>.resolve_left
    fun empty => by
      have none := List.flatten_eq_nil_iff.mp empty pieces[j + 1] (by
        rw [List.drop_eq_getElem_cons more]
        exact List.mem_cons_self)
      exact nonempty _ (List.getElem_mem more) none
  have cut : pieces.flatten = (pieces.take (j + 1)).flatten ++ (pieces.drop (j + 1)).flatten := by
    rw [← List.flatten_append, List.take_append_drop]
  rw [cut, ends, List.concat_eq_append, ← List.append_assoc] at joined
  rw [← (List.append_inj' joined rfl).1]
  apply List.mem_append_left
  exact List.mem_flatten.mpr ⟨pieces[j], List.mem_take_iff_getElem.mpr ⟨j, by omega, rfl⟩, member⟩

theorem slotImages_data_ne_nil {call : WriteCall} (some' : call.buf ≠ []) :
    ∀ piece ∈ (slotImages call).map SlotImage.data, piece ≠ [] := by
  intro piece member
  obtain ⟨image, among, rfl⟩ := List.mem_map.mp member
  rcases List.mem_cons.mp among with rfl | later
  · intro empty
    apply some'
    apply List.eq_nil_of_length_eq_zero
    have length := congrArg List.length empty
    simp only [SlotImage.data, List.length_take, List.length_nil, maxCharsInFirstBlock,
      bytesPerLogBuf, sizeofLogHeader] at length
    omega
  · exact otherImages_data_ne_nil _ image later

/-- **The NUL of a message is in the last slot of its entry.** -/
theorem zero_mem_data_iff {call : WriteCall} {text : CString} (message : call.buf = text.bytes ++ [0])
    {j : Nat} (within : j < (slotImages call).length) :
    0 ∈ (slotImages call)[j].data ↔ j + 1 = (slotImages call).length := by
  constructor
  · intro member
    by_contra notLast
    have some' : call.buf ≠ [] := by simp [message]
    have nonempty := slotImages_data_ne_nil some'
    have more : j + 1 < ((slotImages call).map SlotImage.data).length := by
      rw [List.length_map]
      omega
    have inText := subset_of_getElem_flatten ((flatten_data call).trans message) nonempty more 0
      (by rwa [List.getElem_map])
    exact text.nulFree inText
  · intro last
    rcases slotImages_full_or_last message within with ⟨more, -⟩ | terminated
    · omega
    · exact terminated

/-! ### One scan -/

section Survivor

variable {size : Nat} (positive : 0 < numLogEntriesOf size) {calls : List WriteCall} {index : Nat}
  (inside : index < calls.length) (fits : slotsFrom calls index ≤ numLogEntriesOf size)
  {text : CString} (message : calls[index].buf = text.bytes ++ [0])

include positive fits message

/-- **The scan of a slot of a surviving entry meets a NUL** if it is the entry's last, if it is not the
ring's last, or if a spare byte follows the ring. -/
theorem textScan_isSome_iff {j : Nat} (within : j < (slotImages calls[index]).length) :
    (cString (writeAll (numLogEntriesOf size) .initial calls).mem size
        (slotPtr ((slotsBefore calls index + j) % numLogEntriesOf size) +
          (slotImages calls[index])[j].dataOffset)).isSome ↔
      0 < size % bytesPerLogBuf ∨ j + 1 = (slotImages calls[index]).length ∨
        (slotsBefore calls index + j) % numLogEntriesOf size + 1 ≠ numLogEntriesOf size := by
  have held := survivor_held positive inside fits within
  have stop := survivor_stop positive inside fits message within
  have cell : (slotsBefore calls index + j) % numLogEntriesOf size < numLogEntriesOf size :=
    Nat.mod_lt _ positive
  have area := SlotImage.dataOffset_add_length_le (slotImages_ok _ _ (List.getElem_mem within))
  have full := slotImages_full_or_last message within
  rw [← zero_mem_data_iff message within, cString_isSome_iff]
  dsimp only at stop
  generalize (slotsBefore calls index + j) % numLogEntriesOf size = slot at *
  have slotEnd := slot_end_le cell
  have stored := SlotImage.read_data held
  generalize (slotImages calls[index])[j] = image at *
  by_cases terminated : 0 ∈ image.data
  · -- the NUL stands in the slot itself
    simp only [terminated, true_or, or_true, iff_true]
    rw [← stored, Mem.read, List.mem_map] at terminated
    obtain ⟨offset, below, zero⟩ := terminated
    rw [List.mem_range] at below
    exact ⟨_, Nat.le_add_right _ _, by omega, zero⟩
  · -- the slot is full, and the byte behind it is the first NUL
    have behind := stop.resolve_left terminated
    obtain ⟨-, exact'⟩ := full.resolve_right terminated
    have last : slotPtr slot + image.dataOffset + image.data.length = slotPtr (slot + 1) := by
      unfold slotPtr bytesPerLogBuf at *
      omega
    rw [last] at behind
    simp only [terminated, false_or]
    constructor
    · rintro ⟨address, above, below, zero⟩
      have beyond : slotPtr (slot + 1) ≤ address := by
        by_contra within'
        apply terminated
        rw [← stored, Mem.read, List.mem_map]
        refine ⟨address - (slotPtr slot + image.dataOffset), List.mem_range.mpr (by omega), ?_⟩
        rw [Nat.add_sub_cancel' above, zero]
      unfold numLogEntriesOf slotPtr bytesPerLogBuf at *
      omega
    · intro room
      refine ⟨slotPtr (slot + 1), by omega, ?_, behind⟩
      unfold numLogEntriesOf slotPtr bytesPerLogBuf at *
      omega

end Survivor

theorem joinScans_isSome_iff (scans : List (Option (List UInt8))) :
    (joinScans scans).isSome ↔ ∀ scan ∈ scans, scan.isSome := by
  induction scans with
  | nil => simp [joinScans]
  | cons scan scans ih =>
    rw [joinScans, List.forall_mem_cons, ← ih]
    cases scan with
    | none => simp
    | some text => simp

/-- A slot whose text is printed, and which is not the last one of its entry, is the ring's last. -/
def WrapsUnended (numLogEntries : Nat) (calls : List WriteCall) (index : Nat) : Prop :=
  ∃ call, calls[index]? = some call ∧ ∃ j < numLogBufs call.buf.length % 2 ^ 32,
    j + 1 < numLogBufs call.buf.length ∧
      (slotsBefore calls index + j) % numLogEntries + 1 = numLogEntries

/-- The scans of a text are those of the slots that the header announces. -/
theorem forall_textScans_iff {size : Nat} (positive : 0 < numLogEntriesOf size)
    {calls : List WriteCall} {index : Nat} (inside : index < calls.length)
    (fits : slotsFrom calls index ≤ numLogEntriesOf size)
    (announces : 0 < numLogBufs calls[index].buf.length % 2 ^ 32) :
    let mem := (writeAll (numLogEntriesOf size) .initial calls).mem
    (∀ scan ∈ textScans (numLogEntriesOf size) size mem (startSlot (numLogEntriesOf size) calls index),
        scan.isSome) ↔
      ∀ j, j < numLogBufs calls[index].buf.length % 2 ^ 32 →
        ∀ within : j < (slotImages calls[index]).length,
        (cString mem size (slotPtr ((slotsBefore calls index + j) % numLogEntriesOf size) +
          (slotImages calls[index])[j].dataOffset)).isSome := by
  intro mem
  have blocks : numBlocksAt mem (startSlot (numLogEntriesOf size) calls index) =
      numLogBufs calls[index].buf.length % 2 ^ 32 :=
    SlotImage.numBlocksAt_of_held (survivor_header positive inside fits)
  have count := length_slotImages calls[index]
  have le := Nat.mod_le (numLogBufs calls[index].buf.length) (2 ^ 32)
  unfold textScans
  rw [blocks, List.forall_mem_cons, List.forall_mem_map]
  simp only [List.mem_range]
  have later : ∀ j, (startSlot (numLogEntriesOf size) calls index + 1 + j) % numLogEntriesOf size =
      (slotsBefore calls index + (j + 1)) % numLogEntriesOf size := by
    intro j
    rw [startSlot, Nat.add_assoc, Nat.mod_add_mod, Nat.add_comm 1 j]
  constructor
  · rintro ⟨first, others⟩ j below within
    cases j with
    | zero => exact first
    | succ j =>
      have other := others j (by omega)
      rw [later] at other
      simp only [slotImages, List.getElem_cons_succ, otherImages_getElem]
      exact other
  · intro all
    refine ⟨all 0 announces (by omega), fun j below => ?_⟩
    have other := all (j + 1) (by omega) (by omega)
    simp only [slotImages, List.getElem_cons_succ, otherImages_getElem] at other
    rw [later]
    exact other

/-- A slot is announced that has a number below the one announced. -/
theorem announcesItself_of_wraps {numLogEntries index : Nat} {calls : List WriteCall}
    (wraps : WrapsUnended numLogEntries calls index) : announcesItself calls index = true := by
  obtain ⟨call, found, j, below, -⟩ := wraps
  rw [announcesItself, found]
  exact decide_eq_true (Nat.ne_of_gt (Nat.zero_lt_of_lt below))

/-- What any command prints are the texts of the slots that the walk comes to. -/
theorem printed_texts_iff (size : Nat) (mem : Mem) :
    (∀ localtime cmd, ∀ entry ∈ (getLog localtime size mem cmd).printed, entry.text.isSome) ↔
      ∀ slot ∈ printOrder (numLogEntriesOf size) mem,
        (joinScans (textScans (numLogEntriesOf size) size mem slot)).isSome := by
  constructor
  · -- without time stamps and exclusions every entry is printed
    intro all slot visited
    have accepted : ∀ slot ∈ printOrder (numLogEntriesOf size) mem,
        stampAccepted (fun _ => none) mem { showTimeStamp := false } slot = true := fun _ _ => rfl
    apply all (fun _ => none) { showTimeStamp := false }
      (printedEntry (fun _ => none) (numLogEntriesOf size) size mem { showTimeStamp := false } slot)
    rw [getLog_printed, List.takeWhile_eq_self_iff.mpr accepted,
      List.filter_eq_self.mpr fun slot _ => shouldPrintEntry_of_empty rfl rfl slot]
    exact List.mem_map_of_mem visited
  · intro all localtime cmd entry member
    rw [getLog_printed, List.mem_map] at member
    obtain ⟨slot, kept, rfl⟩ := member
    exact all slot ((List.takeWhile_sublist _).subset (List.mem_of_mem_filter kept))

section Messages

variable {size : Nat} (positive : 0 < numLogEntriesOf size) (messages : List LogMessage)

include positive

/-- **The text of a surviving entry is printed from the copy** if there is a spare byte or the entry
does not wrap. -/
theorem survivor_text_isSome_iff {index : Nat}
    (survives : index ∈ survivors (numLogEntriesOf size) (messages.map LogMessage.call))
    (announces : announcesItself (messages.map LogMessage.call) index = true) :
    (joinScans (textScans (numLogEntriesOf size) size (memAfter (numLogEntriesOf size) messages)
      (startSlot (numLogEntriesOf size) (messages.map LogMessage.call) index))).isSome ↔
      0 < size % bytesPerLogBuf ∨
        ¬ WrapsUnended (numLogEntriesOf size) (messages.map LogMessage.call) index := by
  obtain ⟨inside, fits⟩ := mem_survivors.mp survives
  have found := List.getElem?_eq_getElem inside
  obtain ⟨sent, -, sentCall⟩ := List.mem_map.mp (List.getElem_mem inside)
  have message : (messages.map LogMessage.call)[index].buf = sent.text.bytes ++ [0] := by
    rw [← sentCall]
    rfl
  have blocks : 0 < numLogBufs (messages.map LogMessage.call)[index].buf.length % 2 ^ 32 := by
    rw [announcesItself, found] at announces
    exact Nat.pos_of_ne_zero (of_decide_eq_true announces)
  have count := length_slotImages (messages.map LogMessage.call)[index]
  have le := Nat.mod_le (numLogBufs (messages.map LogMessage.call)[index].buf.length) (2 ^ 32)
  rw [joinScans_isSome_iff]
  refine (forall_textScans_iff positive inside fits blocks).trans ?_
  by_cases spare : 0 < size % bytesPerLogBuf
  · simp only [spare, true_or, iff_true]
    intro j _ within
    exact (textScan_isSome_iff positive inside fits message within).mpr (Or.inl spare)
  · simp only [spare, false_or]
    constructor
    · rintro scans ⟨call, same, j, below, more, wraps⟩
      rw [found, Option.some.injEq] at same
      rw [← same] at below more
      have within : j < (slotImages (messages.map LogMessage.call)[index]).length := by omega
      have ends := (textScan_isSome_iff positive inside fits message within).mp
        (scans j below within)
      rcases ends with room | last | early
      · exact spare room
      · omega
      · exact early wraps
    · intro stays j below within
      rw [textScan_isSome_iff positive inside fits message within]
      by_contra leaves
      rw [not_or, not_or, not_not] at leaves
      exact stays ⟨_, found, j, below, by omega, leaves.2.2⟩

/-- **Where the scans of a text end.** Every scan of a text that any `getLog` makes meets a NUL in the
copy exactly when the copy goes on behind the ring, or no entry that is still whole in the ring has its
full slots on both sides of the ring's end. -/
theorem getLog_text_isSome_iff :
    (∀ localtime cmd, ∀ entry ∈ (getLog localtime size
        (memAfter (numLogEntriesOf size) messages) cmd).printed, entry.text.isSome) ↔
      0 < size % bytesPerLogBuf ∨
        ∀ index ∈ survivors (numLogEntriesOf size) (messages.map LogMessage.call),
          ¬ WrapsUnended (numLogEntriesOf size) (messages.map LogMessage.call) index := by
  rw [printed_texts_iff]
  have slots : (∀ slot ∈ printOrder (numLogEntriesOf size) (memAfter (numLogEntriesOf size) messages),
        (joinScans (textScans (numLogEntriesOf size) size (memAfter (numLogEntriesOf size) messages)
          slot)).isSome) ↔
      ∀ index ∈ survivors (numLogEntriesOf size) (messages.map LogMessage.call),
        announcesItself (messages.map LogMessage.call) index = true → 0 < size % bytesPerLogBuf ∨
          ¬ WrapsUnended (numLogEntriesOf size) (messages.map LogMessage.call) index := by
    unfold memAfter
    simp only [mem_printOrder positive]
    rw [visibleSlots, List.forall_mem_map]
    simp only [List.mem_filter, and_imp]
    apply forall₂_congr
    intro index survives
    apply forall_congr'
    intro announces
    exact survivor_text_isSome_iff positive messages survives announces
  rw [slots]
  by_cases spare : 0 < size % bytesPerLogBuf
  · simp only [spare, true_or, implies_true]
  · simp only [spare, false_or]
    apply forall₂_congr
    intro index survives
    refine ⟨fun stays wraps => stays (announcesItself_of_wraps wraps) wraps, fun stays _ => stays⟩

end Messages

/-- A message of one slot, then one of two: in a ring of two slots the second one wraps. -/
def wrappingMessages : List LogMessage := [sampleMessage 3 1, sampleMessage 500 0]

theorem numLogBufs_wrappingMessages :
    slotsBefore (wrappingMessages.map LogMessage.call) 1 = 1 ∧
      slotsFrom (wrappingMessages.map LogMessage.call) 1 = 2 ∧
      ∃ call, (wrappingMessages.map LogMessage.call)[1]? = some call ∧
        numLogBufs call.buf.length = 2 := by
  have counts : (numLogBufs 4, numLogBufs 501) = (1, 2) := by decide
  rw [Prod.mk.injEq] at counts
  refine ⟨?_, ?_, (sampleMessage 500 0).call, rfl, ?_⟩
  · simp [wrappingMessages, slotsBefore, length_sampleMessage, counts]
  · simp [wrappingMessages, slotsFrom, length_sampleMessage, counts]
  · rw [length_sampleMessage, counts.2]

theorem wrapsUnended_wrappingMessages :
    1 ∈ survivors 2 (wrappingMessages.map LogMessage.call) ∧
      WrapsUnended 2 (wrappingMessages.map LogMessage.call) 1 := by
  obtain ⟨before, from', call, found, blocks⟩ := numLogBufs_wrappingMessages
  refine ⟨mem_survivors.mpr ⟨by decide, from'.le⟩, call, found, 0, ?_, ?_, ?_⟩
  · rw [blocks]
    decide
  · rw [blocks]
    decide
  · rw [before]

/-- With a spare byte every text of these messages is printed. -/
theorem getLog_text_isSome_spare :
    (getLog (fun _ => some []) 1025 (memAfter (numLogEntriesOf 1025) wrappingMessages) {}).printed.all
      (fun entry => entry.text.isSome) = true := by
  have all := (getLog_text_isSome_iff (by decide : 0 < numLogEntriesOf 1025) wrappingMessages).mpr
    (Or.inl (by decide))
  exact List.all_eq_true.mpr fun entry member => all _ _ entry member

/-- **Without a spare byte a scan leaves the copy.** -/
theorem getLog_leaves_copy :
    ¬ ∀ (size : Nat) (messages : List LogMessage), 0 < numLogEntriesOf size →
      ∀ localtime cmd, ∀ entry ∈ (getLog localtime size
        (memAfter (numLogEntriesOf size) messages) cmd).printed, entry.text.isSome := by
  intro always
  have positive : 0 < numLogEntriesOf 1024 := by decide
  obtain ⟨survives, wraps⟩ := wrapsUnended_wrappingMessages
  have announces := announcesItself_of_wraps wraps
  have visited : startSlot 2 (wrappingMessages.map LogMessage.call) 1 ∈
      printOrder 2 (memAfter 2 wrappingMessages) :=
    (mem_printOrder positive).mpr (List.mem_map_of_mem (List.mem_filter.mpr ⟨survives, announces⟩))
  have text := (printed_texts_iff 1024 _).mp (always 1024 wrappingMessages positive) _ visited
  rcases (survivor_text_isSome_iff positive wrappingMessages survives announces).mp text with room | stays
  · exact absurd room (by decide)
  · exact stays wraps

end StatLog.Logger
