/-
**Excluding tags and log levels.**

The writer stores the names with `strncpy` in fields of 16 and 8 bytes, the reader compares and
prints them as C strings. A tag name that fills its field has no terminator there, and the reader
runs on into the level name.

* `writerAt`: the call whose entry starts in a slot.
* `FiltersExactly`: a command prints exactly the lines it would print without exclusions whose
  writer's tag and level are not excluded, and the tag shown is the writer's.
* `TagNameFits`: the tag name reads back as it was written.
* **`getLog_filtersExactly_iff`**: every command filters exactly if and only if the tag names of all
  entries in the ring fit.
* `getLog_not_filtersExactly`: a tag name of 16 characters.
-/

import StatLog.Logger.Order

namespace StatLog.Logger

open ByteMemory CircularBuffer

/-- `LogLevelNames`. -/
def LogLevelNames : List (List UInt8) :=
  ["DEBUG".toUTF8.toList, "INFO".toUTF8.toList, "ALERT".toUTF8.toList, "ERROR".toUTF8.toList]

/-- Every level name is shorter than its field. -/
theorem length_lt_of_mem_logLevelNames : ∀ name ∈ LogLevelNames, name.length < 8 ∧ name ≠ [] := by
  decide +kernel

/-- The call whose entry starts in a slot. -/
def writerAt (numLogEntries : Nat) (calls : List WriteCall) (slot : Nat) : Option WriteCall :=
  (((survivors numLogEntries calls).filter (announcesItself calls)).find? fun index =>
    startSlot numLogEntries calls index = slot).bind fun index => calls[index]?

/-- The same command with empty exclusion lists. -/
def LogOutputCommand.withoutExclusions (cmd : LogOutputCommand) : LogOutputCommand :=
  { cmd with excludeTags := [], excludeLogLevels := [] }

/-- The writer of a slot's entry passed a tag and a level that are not excluded. -/
def notExcluded (numLogEntries : Nat) (calls : List WriteCall) (cmd : LogOutputCommand)
    (slot : Nat) : Bool :=
  match writerAt numLogEntries calls slot with
  | some call =>
    !cmd.excludeTags.contains call.tagName.bytes &&
      !cmd.excludeLogLevels.contains call.logLevelName.bytes
  | none => false

/-- The slots of the entries printed without exclusions: all, up to a stamp `localtime` rejects. -/
def shownSlots (localtime : Int64 → Option (List UInt8)) (size : Nat) (calls : List WriteCall)
    (cmd : LogOutputCommand) : List Nat :=
  let mem := (writeAll (numLogEntriesOf size) .initial calls).mem
  (printOrder (numLogEntriesOf size) mem).takeWhile (stampAccepted localtime mem cmd)

/-- **A command is an exact filter.** -/
structure FiltersExactly (localtime : Int64 → Option (List UInt8)) (size : Nat)
    (calls : List WriteCall) (cmd : LogOutputCommand) : Prop where
  unfiltered :
    let mem := (writeAll (numLogEntriesOf size) .initial calls).mem
    (getLog localtime size mem cmd.withoutExclusions).printed =
      (shownSlots localtime size calls cmd).map
        (printedEntry localtime (numLogEntriesOf size) size mem cmd)
  filtered :
    let mem := (writeAll (numLogEntriesOf size) .initial calls).mem
    (getLog localtime size mem cmd).printed =
      ((shownSlots localtime size calls cmd).filter
        (notExcluded (numLogEntriesOf size) calls cmd)).map
          (printedEntry localtime (numLogEntriesOf size) size mem cmd)
  shownTag : cmd.showTag = true →
    let mem := (writeAll (numLogEntriesOf size) .initial calls).mem
    ∀ slot ∈ shownSlots localtime size calls cmd,
      (printedEntry localtime (numLogEntriesOf size) size mem cmd slot).tagName =
        (writerAt (numLogEntriesOf size) calls slot).map fun call => some call.tagName.bytes

/-- A tag name reads back: it leaves room for a NUL, or what runs over is the level name that is read
behind the field. -/
def TagNameFits (call : WriteCall) : Prop :=
  call.tagName.bytes.length < 16 ∨ call.tagName.bytes.drop 16 = call.logLevelName.bytes

instance (call : WriteCall) : Decidable (TagNameFits call) :=
  inferInstanceAs (Decidable (_ ∨ _))

/-! ### The names read back -/

section Names

variable {size : Nat} {mem : Mem} {slot numBlocks : Nat} {call : WriteCall} {data : List UInt8}
  (held : logCells.held mem slot (.first numBlocks call data))
  (within : slotPtr slot + bytesPerLogBuf ≤ size)
  (short : call.logLevelName.bytes.length < 8)

/-- What is read behind a tag field that has no NUL. -/
def readTagName (call : WriteCall) : List UInt8 :=
  if call.tagName.bytes.length < 16 then call.tagName.bytes
  else call.tagName.bytes.take 16 ++ call.logLevelName.bytes

theorem readTagName_eq_iff {call : WriteCall} :
    readTagName call = call.tagName.bytes ↔ TagNameFits call := by
  unfold readTagName TagNameFits
  by_cases shorter : call.tagName.bytes.length < 16
  · simp [shorter]
  · rw [if_neg shorter]
    constructor
    · intro same
      have halves := (List.take_append_drop 16 call.tagName.bytes).trans same.symm
      exact Or.inr (List.append_cancel_left halves)
    · rintro (contra | runsOn)
      · exact absurd contra shorter
      · rw [← runsOn, List.take_append_drop]

include held within short

theorem logLevelNameAt_of_held : logLevelNameAt size mem slot = some call.logLevelName.bytes := by
  have level := held (40, strncpy 8 call.logLevelName) (by simp [SlotImage.fields, headerFields])
  have inside : slotPtr slot + 40 + (strncpy 8 call.logLevelName).length < size := by
    rw [length_strncpy]
    unfold bytesPerLogBuf at within
    omega
  have read := cString_eq level (Or.inl (zero_mem_strncpy short)) inside
  rw [logLevelNameAt, read]
  have back := takeWhile_strncpy_of_lt short []
  rw [List.append_nil] at back
  rw [back]

/-- **The tag name the reader sees** runs on into the level name when it fills its field. -/
theorem tagNameAt_of_held : tagNameAt size mem slot = some (readTagName call) := by
  have tag := held (24, strncpy 16 call.tagName) (by simp [SlotImage.fields, headerFields])
  have level := held (40, strncpy 8 call.logLevelName) (by simp [SlotImage.fields, headerFields])
  have both : mem.read (slotPtr slot + 24)
      (strncpy 16 call.tagName ++ strncpy 8 call.logLevelName).length =
      strncpy 16 call.tagName ++ strncpy 8 call.logLevelName := by
    rw [List.length_append, Mem.read_add, tag, length_strncpy]
    exact congrArg _ level
  have inside : slotPtr slot + 24 +
      (strncpy 16 call.tagName ++ strncpy 8 call.logLevelName).length < size := by
    rw [List.length_append, length_strncpy, length_strncpy]
    unfold bytesPerLogBuf at within
    omega
  have read := cString_eq both (Or.inl (List.mem_append_right _ (zero_mem_strncpy short))) inside
  rw [tagNameAt, read, readTagName]
  by_cases shorter : call.tagName.bytes.length < 16
  · rw [if_pos shorter, takeWhile_strncpy_of_lt shorter]
  · have back := takeWhile_strncpy_of_lt short []
    rw [List.append_nil] at back
    rw [if_neg shorter, takeWhile_strncpy_of_le (Nat.le_of_not_lt shorter), back]

end Names

/-! ### The writer of a slot -/

section Writer

variable {numLogEntries : Nat} (positive : 0 < numLogEntries) {calls : List WriteCall}

include positive

/-- The walk comes to the visible slots and to no others. -/
theorem mem_printOrder {slot : Nat} :
    slot ∈ printOrder numLogEntries (writeAll numLogEntries .initial calls).mem ↔
      slot ∈ visibleSlots numLogEntries calls := by
  rcases printOrder_rotate positive calls with ⟨-, silent, order⟩ |
    ⟨first, before, after, -, -, heads, order⟩
  · rw [silent, order]
  · rw [heads, order]
    simp only [List.mem_append, List.mem_cons]
    tauto

/-- **Every slot the walk comes to is the header of its writer's entry.** -/
theorem writerAt_of_mem_printOrder {slot : Nat}
    (member : slot ∈ printOrder numLogEntries (writeAll numLogEntries .initial calls).mem) :
    ∃ index ∈ survivors numLogEntries calls, announcesItself calls index = true ∧
      startSlot numLogEntries calls index = slot ∧
      ∃ call, calls[index]? = some call ∧ writerAt numLogEntries calls slot = some call ∧
        logCells.held (writeAll numLogEntries .initial calls).mem slot
          (.first (numLogBufs call.buf.length) call (call.buf.take maxCharsInFirstBlock)) := by
  obtain ⟨index, visible, rfl⟩ := List.mem_map.mp ((mem_printOrder positive).mp member)
  obtain ⟨survives, announces⟩ := List.mem_filter.mp visible
  obtain ⟨inside, fits⟩ := mem_survivors.mp survives
  refine ⟨index, survives, announces, rfl, calls[index], List.getElem?_eq_getElem inside, ?_,
    survivor_header positive inside fits⟩
  unfold writerAt
  rcases search : ((survivors numLogEntries calls).filter (announcesItself calls)).find? (fun other =>
    startSlot numLogEntries calls other = startSlot numLogEntries calls index) with _ | found
  · have := List.find?_eq_none.mp search index visible
    simp at this
  · have sameSlot := List.find?_some search
    have same : found = index := List.inj_on_of_nodup_map (visibleSlots_nodup positive calls)
      (List.mem_of_find?_eq_some search) visible (of_decide_eq_true sameSlot)
    rw [same, Option.bind_some, List.getElem?_eq_getElem inside]

end Writer

/-! ### The filter -/

section Filter

variable (localtime : Int64 → Option (List UInt8)) {size : Nat}
  (positive : 0 < numLogEntriesOf size) {calls : List WriteCall}
  (levels : ∀ call ∈ calls, call.logLevelName.bytes ∈ LogLevelNames)

theorem getLog_printed (mem : Mem) (cmd : LogOutputCommand) :
    (getLog localtime size mem cmd).printed =
      (((printOrder (numLogEntriesOf size) mem).takeWhile (stampAccepted localtime mem cmd)).filter
        (shouldPrintEntry size mem cmd)).map
          (printedEntry localtime (numLogEntriesOf size) size mem cmd) := by
  rcases search : firstLogEntry (numLogEntriesOf size) mem with _ | first
  · rw [getLog, search, printOrder, search]
    rfl
  · rw [getLog, search, printEntries_printed, List.nil_append]

include positive levels

/-- The names read at a slot of the walk. -/
theorem names_of_mem_printOrder {slot : Nat}
    (member : slot ∈ printOrder (numLogEntriesOf size)
      (writeAll (numLogEntriesOf size) .initial calls).mem) :
    ∃ index ∈ survivors (numLogEntriesOf size) calls, announcesItself calls index = true ∧
      startSlot (numLogEntriesOf size) calls index = slot ∧
      ∃ call, calls[index]? = some call ∧ writerAt (numLogEntriesOf size) calls slot = some call ∧
        tagNameAt size (writeAll (numLogEntriesOf size) .initial calls).mem slot =
          some (readTagName call) ∧
        logLevelNameAt size (writeAll (numLogEntriesOf size) .initial calls).mem slot =
          some call.logLevelName.bytes := by
  obtain ⟨index, survives, announces, start, call, found, writer, held⟩ :=
    writerAt_of_mem_printOrder positive member
  have short := (length_lt_of_mem_logLevelNames _ (levels call (List.mem_of_getElem? found))).1
  have below : slot < numLogEntriesOf size := by
    rw [← start]
    exact Nat.mod_lt _ positive
  exact ⟨index, survives, announces, start, call, found, writer,
    tagNameAt_of_held held (slot_end_le below) short,
    logLevelNameAt_of_held held (slot_end_le below) short⟩

/-- **Where all tag names fit, every command filters exactly.** -/
theorem filtersExactly_of_fit
    (fit : ∀ index ∈ survivors (numLogEntriesOf size) calls, announcesItself calls index = true →
      ∀ call, calls[index]? = some call → TagNameFits call) (cmd : LogOutputCommand) :
    FiltersExactly localtime size calls cmd := by
  refine ⟨?_, ?_, ?_⟩
  · intro mem
    rw [getLog_printed, List.filter_eq_self.mpr fun slot _ => shouldPrintEntry_of_empty rfl rfl slot]
    rfl
  · intro mem
    rw [getLog_printed]
    refine congrArg _ (List.filter_congr fun slot member => ?_)
    obtain ⟨index, survives, announces, start, call, found, writer, tag, level⟩ :=
      names_of_mem_printOrder positive levels ((List.takeWhile_sublist _).mem member)
    rw [readTagName_eq_iff.mpr (fit index survives announces call found)] at tag
    rw [shouldPrintEntry, notExcluded, writer, tag, level]
    by_cases tags : cmd.excludeTags = []
    · by_cases logLevels : cmd.excludeLogLevels = []
      · simp [tags, logLevels]
      · simp [tags, logLevels, foundStringInList]
    · by_cases logLevels : cmd.excludeLogLevels = []
      · simp [tags, logLevels, foundStringInList]
      · by_cases excluded : call.tagName.bytes ∈ cmd.excludeTags
        · simp [tags, foundStringInList, excluded]
        · simp [tags, logLevels, foundStringInList, excluded]
  · intro showTag mem slot member
    obtain ⟨index, survives, announces, start, call, found, writer, tag, level⟩ :=
      names_of_mem_printOrder positive levels ((List.takeWhile_sublist _).mem member)
    rw [readTagName_eq_iff.mpr (fit index survives announces call found)] at tag
    rw [printedEntry, if_pos showTag, tag, writer]
    rfl

/-- **Where every command filters exactly, all tag names fit.** -/
theorem fit_of_filtersExactly (exact' : ∀ cmd, FiltersExactly localtime size calls cmd) :
    ∀ index ∈ survivors (numLogEntriesOf size) calls, announcesItself calls index = true →
      ∀ call, calls[index]? = some call → TagNameFits call := by
  intro index survives announces call found
  -- a command that shows the tag and needs no time stamp
  have member : startSlot (numLogEntriesOf size) calls index ∈ printOrder (numLogEntriesOf size)
      (writeAll (numLogEntriesOf size) .initial calls).mem :=
    (mem_printOrder positive).mpr (List.mem_map_of_mem (List.mem_filter.mpr ⟨survives, announces⟩))
  have all : shownSlots localtime size calls { showTimeStamp := false } =
      printOrder (numLogEntriesOf size) (writeAll (numLogEntriesOf size) .initial calls).mem :=
    List.takeWhile_eq_self_iff.mpr fun slot _ => rfl
  have shown := (exact' { showTimeStamp := false }).shownTag rfl _ (all ▸ member)
  obtain ⟨other, otherSurvives, otherAnnounces, start, writer, otherFound, writes, tag, -⟩ :=
    names_of_mem_printOrder positive levels member
  have same : other = index := List.inj_on_of_nodup_map (visibleSlots_nodup positive calls)
    (List.mem_filter.mpr ⟨otherSurvives, otherAnnounces⟩)
    (List.mem_filter.mpr ⟨survives, announces⟩) start
  rw [same, found, Option.some.injEq] at otherFound
  rw [printedEntry, if_pos rfl, tag, writes, Option.map_some, Option.some.injEq, Option.some.injEq,
    ← otherFound] at shown
  exact readTagName_eq_iff.mp shown

/-- **When excluding is an exact filter.** Every command prints exactly the lines it would print
without exclusions whose writer's tag and level are not excluded, and shows the writer's tag, if and
only if each entry in the ring has a tag name that leaves room for a NUL in its field or runs over
with exactly its level name. -/
theorem getLog_filtersExactly_iff :
    (∀ cmd, FiltersExactly localtime size calls cmd) ↔
      ∀ index ∈ survivors (numLogEntriesOf size) calls, announcesItself calls index = true →
        ∀ call, calls[index]? = some call → TagNameFits call := by
  constructor
  · exact fit_of_filtersExactly localtime positive levels
  · exact filtersExactly_of_fit localtime positive levels

end Filter

theorem zero_not_mem_info : (0 : UInt8) ∉ "INFO".toUTF8.toList := by
  decide +kernel

/-- A one-slot entry with a tag name of `length` characters at level `INFO`. -/
def taggedCall (length : Nat) : WriteCall where
  buf := [97, 0]
  tagName := ⟨List.replicate length 84, by simp [List.mem_replicate]⟩
  logLevelName := ⟨"INFO".toUTF8.toList, zero_not_mem_info⟩
  timeStamp := ⟨0, 0⟩

/-- A tag name of 15 characters is excluded exactly. -/
theorem getLog_filtersExactly_fifteen :
    FiltersExactly (fun _ => some []) 513 [taggedCall 15] { excludeTags := [List.replicate 15 84] } :=
  (getLog_filtersExactly_iff (fun _ => some []) (by decide) (by decide +kernel)).mpr
    (by decide +kernel) _

/-- **Not always an exact filter**: a tag name of 16 characters is shown with the level name behind
it. -/
theorem getLog_not_filtersExactly :
    ¬ ∀ (localtime : Int64 → Option (List UInt8)) (size : Nat) (calls : List WriteCall),
      0 < numLogEntriesOf size → (∀ call ∈ calls, call.logLevelName.bytes ∈ LogLevelNames) →
      ∀ cmd, FiltersExactly localtime size calls cmd := by
  intro always
  have exactly' := always (fun _ => some []) 513 [taggedCall 16] (by decide) (by decide +kernel) {}
  have order : shownSlots (fun _ => some []) 513 [taggedCall 16] {} = [0] := by
    decide +kernel
  have shown := exactly'.shownTag rfl 0 (by rw [order]; exact List.mem_cons_self)
  have printed : (printedEntry (fun _ => some []) 1 513 (writeAll 1 .initial [taggedCall 16]).mem {}
      0).tagName = some (some (List.replicate 16 84 ++ "INFO".toUTF8.toList)) := by
    decide +kernel
  have written : (writerAt 1 [taggedCall 16] 0).map (fun call => some call.tagName.bytes) =
      some (some (List.replicate 16 84)) := by
    decide +kernel
  have different : List.replicate 16 (84 : UInt8) ++ "INFO".toUTF8.toList ≠ List.replicate 16 84 := by
    decide +kernel
  rw [show numLogEntriesOf 513 = 1 from rfl, printed, written] at shown
  exact different (Option.some.inj (Option.some.inj shown))

end StatLog.Logger
