/-
**The log ring round trip.**

A ring that starts zeroed and is followed by at least one spare byte is given any sequence of
messages, of any length, whose time stamps `localtime` accepts.

* `keptMessages`: the messages whose own and later slot counts sum to at most the number of slots.
* `LogMessage.line`: the line of a message, a function of the message alone.
* `printedEntry_survivor`: the line printed at a survivor's first slot is the line of its message.
* **`getLog_roundTrip`**: `getLog` without exclusions prints the lines of the kept messages, each
  once and as a whole, in a rotation of the order in which they were written, and `Empty log!` when
  there are none.
-/

import Mathlib.Data.List.Rotate
import StatLog.Logger.Scan

namespace StatLog.Logger

open ByteMemory CircularBuffer

/-- **The messages still in the ring**, oldest first. -/
def keptMessages (numLogEntries : Nat) (messages : List LogMessage) : List LogMessage :=
  (survivors numLogEntries (messages.map LogMessage.call)).filterMap fun index => messages[index]?

/-- The line of a message. -/
def LogMessage.line (localtime : Int64 → Option (List UInt8)) (cmd : LogOutputCommand)
    (message : LogMessage) : PrintedEntry where
  timeStamp :=
    if cmd.showTimeStamp then
      (localtime message.timeStamp.sec).map fun mbstr => (mbstr, message.timeStamp.usec)
    else none
  tagName := if cmd.showTag then some (some (seenTagName message.call)) else none
  logLevelName := if cmd.showLogLevel then some (some (seenLogLevelName message.call)) else none
  text := some message.text.bytes

section RoundTrip

variable (localtime : Int64 → Option (List UInt8)) {size : Nat} (cmd : LogOutputCommand)
  {messages : List LogMessage}

/-- Every part of a message's line was read without leaving the copy. -/
theorem LogMessage.line_renders (message : LogMessage) :
    (message.line localtime cmd).render.isSome = true := by
  unfold LogMessage.line PrintedEntry.render
  by_cases tag : cmd.showTag = true
  · by_cases level : cmd.showLogLevel = true
    · simp [tag, level, renderName]
    · simp [tag, level, renderName]
  · by_cases level : cmd.showLogLevel = true
    · simp [tag, level, renderName]
    · simp [tag, level, renderName]

/-- **The line printed at a survivor's first slot is the line of its message.** -/
theorem printedEntry_survivor (positive : 0 < numLogEntriesOf size)
    (small : numLogEntriesOf size < 2 ^ 32) (spare : 0 < size % bytesPerLogBuf) {index : Nat}
    (survives : index ∈ survivors (numLogEntriesOf size) (messages.map LogMessage.call)) :
    ∃ message, messages[index]? = some message ∧
      printedEntry localtime (numLogEntriesOf size) size (memAfter (numLogEntriesOf size) messages) cmd
        (startSlot (numLogEntriesOf size) (messages.map LogMessage.call) index) =
      message.line localtime cmd := by
  obtain ⟨inside, fits⟩ := mem_survivors.mp survives
  have below : index < messages.length := by rwa [List.length_map] at inside
  refine ⟨messages[index], List.getElem?_eq_getElem below, ?_⟩
  have call : (messages.map LogMessage.call)[index] = messages[index].call := List.getElem_map _
  have ends : (messages.map LogMessage.call)[index].buf = messages[index].text.bytes ++ [0] := by
    rw [call]
    rfl
  have stamp := survivor_timeStamp positive inside fits
  have tag := survivor_tagName positive spare inside fits ends
  have level := survivor_logLevelName positive spare inside fits ends
  have text := survivor_text positive small spare inside fits ends
  rw [call] at stamp tag level
  unfold printedEntry LogMessage.line memAfter
  rw [stamp, tag, level, text]
  rfl

/-- Every survivor's stamp is one that `localtime` accepts. -/
theorem stampAccepted_survivor (positive : 0 < numLogEntriesOf size)
    (accepted : ∀ message ∈ messages, (localtime message.timeStamp.sec).isSome = true) {index : Nat}
    (survives : index ∈ survivors (numLogEntriesOf size) (messages.map LogMessage.call)) :
    stampAccepted localtime (memAfter (numLogEntriesOf size) messages) cmd
      (startSlot (numLogEntriesOf size) (messages.map LogMessage.call) index) = true := by
  obtain ⟨inside, fits⟩ := mem_survivors.mp survives
  have below : index < messages.length := by rwa [List.length_map] at inside
  have stamp := survivor_timeStamp positive inside fits
  rw [List.getElem_map] at stamp
  unfold stampAccepted memAfter
  rw [stamp]
  exact Bool.or_eq_true_iff.mpr (Or.inr (accepted _ (List.getElem_mem below)))

/-- The slots the walk comes to are the first slots of the survivors, in a rotation of the order in
which they were written. -/
theorem printOrder_survivors {numLogEntries : Nat} (positive : 0 < numLogEntries)
    (small : numLogEntries < 2 ^ 32) (calls : List WriteCall) :
    let mem := (writeAll numLogEntries .initial calls).mem
    ∃ turn, printOrder numLogEntries mem =
        ((survivors numLogEntries calls).rotate turn).map (startSlot numLogEntries calls) ∧
      (firstLogEntry numLogEntries mem = none ↔ survivors numLogEntries calls = []) := by
  intro mem
  rcases printOrder_rotate positive calls with ⟨search, silent, order⟩ |
    ⟨first, before, after, search, -, heads, order⟩
  · rw [visibleSlots_of_small small, List.map_eq_nil_iff] at silent
    refine ⟨0, ?_, fun _ => silent, fun _ => search⟩
    rw [order, silent]
    rfl
  · rw [visibleSlots_of_small small] at heads
    refine ⟨before.length, ?_, fun impossible => ?_, fun empty => ?_⟩
    · rw [order, List.map_rotate, heads, List.rotate_append_length_eq]
    · rw [search] at impossible
      cases impossible
    · rw [empty] at heads
      have := congrArg List.length heads
      simp at this

/-- A list whose every element has an image maps to the images found. -/
theorem map_eq_map_filterMap {α β γ : Type} {find : α → Option β} {f : α → γ} {g : β → γ}
    {list : List α} (found : ∀ x ∈ list, ∃ y, find x = some y ∧ f x = g y) :
    list.map f = (list.filterMap find).map g := by
  induction list with
  | nil => rfl
  | cons x list ih =>
    obtain ⟨y, image, same⟩ := found x List.mem_cons_self
    rw [List.map_cons, List.filterMap_cons_some image, List.map_cons, same,
      ih fun later member => found later (List.mem_cons_of_mem _ member)]

variable (size messages) in
/-- **The log ring round trip.** Without exclusions `getLog` prints exactly the messages whose own
and later slot counts sum to at most the number of slots: each once, with its whole text and nothing
else, in a rotation of the order in which they were written. All parts of a line are there to be
printed. -/
theorem getLog_roundTrip (positive : 0 < numLogEntriesOf size)
    (small : numLogEntriesOf size < 2 ^ 32) (spare : 0 < size % bytesPerLogBuf)
    (accepted : ∀ message ∈ messages, (localtime message.timeStamp.sec).isSome = true)
    (noTags : cmd.excludeTags = []) (noLevels : cmd.excludeLogLevels = []) :
    ∃ turn, getLog localtime size (memAfter (numLogEntriesOf size) messages) cmd =
        (if survivors (numLogEntriesOf size) (messages.map LogMessage.call) = [] then .emptyLog
        else .entries (((keptMessages (numLogEntriesOf size) messages).rotate turn).map
          (LogMessage.line localtime cmd))) ∧
      ∀ message ∈ keptMessages (numLogEntriesOf size) messages,
        (message.line localtime cmd).render.isSome = true := by
  obtain ⟨turn, order, empty⟩ := printOrder_survivors positive small (messages.map LogMessage.call)
  refine ⟨turn, ?_, fun message _ => message.line_renders localtime cmd⟩
  have lines : (survivors (numLogEntriesOf size) (messages.map LogMessage.call)).map
      (fun index => printedEntry localtime (numLogEntriesOf size) size
        (memAfter (numLogEntriesOf size) messages) cmd
        (startSlot (numLogEntriesOf size) (messages.map LogMessage.call) index)) =
      (keptMessages (numLogEntriesOf size) messages).map (LogMessage.line localtime cmd) :=
    map_eq_map_filterMap fun index survives =>
      printedEntry_survivor localtime cmd positive small spare survives
  have printable : ∀ slot ∈ printOrder (numLogEntriesOf size) (memAfter (numLogEntriesOf size) messages),
      stampAccepted localtime (memAfter (numLogEntriesOf size) messages) cmd slot = true := by
    intro slot member
    unfold memAfter at member
    rw [order] at member
    obtain ⟨index, survives, rfl⟩ := List.mem_map.mp member
    exact stampAccepted_survivor localtime cmd positive accepted (List.mem_rotate.mp survives)
  rcases search : firstLogEntry (numLogEntriesOf size) (memAfter (numLogEntriesOf size) messages)
    with _ | first
  · rw [getLog, search, if_pos (empty.mp search)]
  · have present : survivors (numLogEntriesOf size) (messages.map LogMessage.call) ≠ [] := by
      intro none
      have silent := empty.mpr none
      unfold memAfter at search
      rw [search] at silent
      cases silent
    rw [getLog, search, if_neg present, printEntries_accepted printable, List.nil_append,
      List.filter_eq_self.mpr fun slot _ => shouldPrintEntry_of_empty noTags noLevels slot]
    unfold memAfter at lines ⊢
    rw [order, List.map_map, List.map_rotate, List.map_rotate, ← lines]
    rfl

end RoundTrip

/-- A message of `length` equal characters at a second. -/
def sampleMessage (length : Nat) (sec : Int64) : LogMessage where
  text := ⟨List.replicate length 97, by simp [List.mem_replicate]⟩
  tagName := ⟨[84], by decide⟩
  logLevelName := ⟨[76], by decide⟩
  timeStamp := ⟨sec, 0⟩

theorem length_sampleMessage (length : Nat) (sec : Int64) :
    (sampleMessage length sec).call.buf.length = length + 1 := by
  rw [LogMessage.call, sampleMessage, List.length_append, List.length_replicate, List.length_singleton]

/-- Two slots, given one message of one slot and then one of two: the second is printed. -/
theorem getLog_roundTrip_two_slots :
    ∃ turn, getLog (fun _ => some []) 1025
        (memAfter (numLogEntriesOf 1025) [sampleMessage 3 1, sampleMessage 500 0]) {} =
      .entries (([sampleMessage 500 0].rotate turn).map (LogMessage.line (fun _ => some []) {})) ∧
      ((sampleMessage 500 0).line (fun _ => some []) {}).render.isSome = true := by
  have kept : survivors 2 ([sampleMessage 3 1, sampleMessage 500 0].map LogMessage.call) = [1] := by
    have counts : (numLogBufs 4, numLogBufs 501) = (1, 2) := by decide
    rw [Prod.mk.injEq] at counts
    simp [survivors, slotsFrom, length_sampleMessage, List.range_succ, counts]
  obtain ⟨turn, printed, whole⟩ := getLog_roundTrip (fun _ => some []) 1025 {}
    [sampleMessage 3 1, sampleMessage 500 0] (by decide) (by decide) (by decide)
    (fun _ _ => rfl) rfl rfl
  rw [show numLogEntriesOf 1025 = 2 from rfl, keptMessages, kept] at printed whole
  exact ⟨turn, printed, whole _ List.mem_cons_self⟩

end StatLog.Logger
