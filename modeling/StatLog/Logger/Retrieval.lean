/-
**What retrievers print, in every run.**

Any number of threads write messages while any number of retrievers copy the ring and print what they
have copied. What a retriever prints is a function of the messages whose calls took the mutex before it
did: the last ones of them, as many as have room.

* `getLog_congr`: `getLog` reads the copy and nothing else.
* `oldestKept`: the first message that has not been overwritten; `keptMessages_eq_drop`: the messages
  kept are those from it on. `oldestKept_append`: it never goes back.
* `getLog_messages`: what `getLog` prints of a ring, with exclusions.
* **`getLog_everyRun`**: of two copies finished in a run, both are printed so, and the later one shows
  no message that was gone from the earlier one.
-/

import Mathlib.Data.List.Chain
import StatLog.Lib.Region
import StatLog.Logger.Order
import StatLog.Logger.Snapshot

set_option linter.unusedSectionVars false

namespace StatLog.Logger

open ByteMemory CircularBuffer Transition

/-! ### The copy alone -/

section Congr

variable {localtime : Int64 → Option (List UInt8)} {size : Nat} {mem other : Mem}
  (agree : AgreeOn 0 size mem other) {cmd : LogOutputCommand}

include agree

omit cmd localtime in
theorem read_slot {slot : Nat} (below : slot < numLogEntriesOf size) {field width : Nat}
    (within : field + width ≤ bytesPerLogBuf) :
    mem.read (slotPtr slot + field) width = other.read (slotPtr slot + field) width := by
  have ends := slot_end_le below
  exact (agree.mono (Nat.zero_le _) (by omega)).read

theorem numBlocksAt_congr {slot : Nat} (below : slot < numLogEntriesOf size) :
    numBlocksAt mem slot = numBlocksAt other slot :=
  congrArg ofLE (read_slot agree below (by decide : 0 + 4 ≤ bytesPerLogBuf))

theorem timeStampAt_congr {slot : Nat} (below : slot < numLogEntriesOf size) :
    timeStampAt mem slot = timeStampAt other slot := by
  unfold timeStampAt
  rw [read_slot agree below (by decide : 8 + 8 ≤ bytesPerLogBuf),
    read_slot agree below (by decide : 16 + 8 ≤ bytesPerLogBuf)]

theorem firstLogEntry_congr :
    firstLogEntry (numLogEntriesOf size) mem = firstLogEntry (numLogEntriesOf size) other := by
  have searches : ∀ bound ≤ numLogEntriesOf size,
      (List.range bound).foldl (searchStep mem) none =
        (List.range bound).foldl (searchStep other) none := by
    intro bound
    induction bound with
    | zero => exact fun _ => rfl
    | succ bound ih =>
      intro within
      rw [List.range_succ, List.foldl_append, List.foldl_append, ih (Nat.le_of_succ_le within)]
      show searchStep mem _ bound = searchStep other _ bound
      unfold searchStep
      rw [numBlocksAt_congr agree within, timeStampAt_congr agree within]
  unfold firstLogEntry
  rw [searches _ (Nat.le_refl _)]

theorem entrySlots_congr (left : Nat) {cur : Nat} (below : cur < numLogEntriesOf size) (skip : Nat) :
    entrySlots (numLogEntriesOf size) mem left cur skip =
      entrySlots (numLogEntriesOf size) other left cur skip := by
  induction left generalizing cur skip with
  | zero => rfl
  | succ left ih =>
    have next : (cur + 1) % numLogEntriesOf size < numLogEntriesOf size := Nat.mod_lt _ (by omega)
    cases skip with
    | zero => rw [entrySlots, entrySlots, numBlocksAt_congr agree below, ih next, ih next]
    | succ skip => rw [entrySlots, entrySlots, ih next]

theorem printOrder_congr :
    printOrder (numLogEntriesOf size) mem = printOrder (numLogEntriesOf size) other := by
  unfold printOrder
  rw [← firstLogEntry_congr agree]
  rcases search : firstLogEntry (numLogEntriesOf size) mem with _ | first
  · rfl
  · exact entrySlots_congr agree _ (firstLogEntry_spec search).below 0

theorem stampAccepted_congr {slot : Nat} (below : slot < numLogEntriesOf size) :
    stampAccepted localtime mem cmd slot = stampAccepted localtime other cmd slot := by
  unfold stampAccepted
  rw [timeStampAt_congr agree below]

theorem shouldPrintEntry_congr (slot : Nat) :
    shouldPrintEntry size mem cmd slot = shouldPrintEntry size other cmd slot := by
  unfold shouldPrintEntry tagNameAt logLevelNameAt
  rw [agree.cString, agree.cString]

theorem printedEntry_congr {slot : Nat} (below : slot < numLogEntriesOf size) :
    printedEntry localtime (numLogEntriesOf size) size mem cmd slot =
      printedEntry localtime (numLogEntriesOf size) size other cmd slot := by
  unfold printedEntry textScans tagNameAt logLevelNameAt
  simp only [agree.cString, timeStampAt_congr agree below, numBlocksAt_congr agree below]

theorem printEntries_congr {slots : List Nat} (below : ∀ slot ∈ slots, slot < numLogEntriesOf size)
    (printed : List PrintedEntry) :
    printEntries localtime (numLogEntriesOf size) size mem cmd slots printed =
      printEntries localtime (numLogEntriesOf size) size other cmd slots printed := by
  induction slots generalizing printed with
  | nil => rfl
  | cons slot slots ih =>
    have first := below slot List.mem_cons_self
    have later := fun other member => below other (List.mem_cons_of_mem slot member)
    rw [printEntries, printEntries, stampAccepted_congr agree first, shouldPrintEntry_congr agree,
      printedEntry_congr agree first, ih later]

end Congr

/-- The walk stays in the ring. -/
theorem entrySlots_below {numLogEntries : Nat} (mem : Mem) (left : Nat) {cur : Nat}
    (below : cur < numLogEntries) (skip : Nat) :
    ∀ slot ∈ entrySlots numLogEntries mem left cur skip, slot < numLogEntries := by
  induction left generalizing cur skip with
  | zero => exact fun slot member => absurd member List.not_mem_nil
  | succ left ih =>
    have next : (cur + 1) % numLogEntries < numLogEntries := Nat.mod_lt _ (by omega)
    cases skip with
    | succ skip => exact ih next skip
    | zero =>
      rw [entrySlots]
      split
      · exact ih next 0
      · intro slot member
        rcases List.mem_cons.mp member with rfl | later
        · exact below
        · exact ih next _ slot later

theorem printOrder_below {numLogEntries : Nat} (mem : Mem) :
    ∀ slot ∈ printOrder numLogEntries mem, slot < numLogEntries := by
  unfold printOrder
  rcases search : firstLogEntry numLogEntries mem with _ | first
  · exact fun slot member => absurd member List.not_mem_nil
  · exact entrySlots_below mem _ (firstLogEntry_spec search).below 0

/-- **`getLog` reads its copy and nothing else.** -/
theorem getLog_congr (localtime : Int64 → Option (List UInt8)) {size : Nat} {mem other : Mem}
    (agree : AgreeOn 0 size mem other) (cmd : LogOutputCommand) :
    getLog localtime size mem cmd = getLog localtime size other cmd := by
  unfold getLog
  rw [← firstLogEntry_congr agree, ← printOrder_congr agree,
    printEntries_congr agree (printOrder_below mem)]

/-! ### What is kept -/

/-- **The first message that has not been overwritten.** -/
def oldestKept (numLogEntries : Nat) (messages : List LogMessage) : Nat :=
  (survivors numLogEntries (messages.map LogMessage.call)).head?.getD messages.length

theorem slotsFrom_antitone (calls : List WriteCall) {first second : Nat} (le : first ≤ second) :
    slotsFrom calls second ≤ slotsFrom calls first := by
  rw [slotsFrom_eq, slotsFrom_eq]
  exact sizeFrom_antitone slotImages calls le

section Kept

variable {numLogEntries : Nat} {messages : List LogMessage}

/-- The survivors are the calls from the oldest one on. -/
theorem oldestKept_le_iff {index : Nat} (inside : index < messages.length) :
    oldestKept numLogEntries messages ≤ index ↔
      slotsFrom (messages.map LogMessage.call) index ≤ numLogEntries := by
  unfold oldestKept
  have inside' : index < (messages.map LogMessage.call).length := by rwa [List.length_map]
  constructor
  · intro reached
    rcases oldest : (survivors numLogEntries (messages.map LogMessage.call)).head? with _ | first
    · rw [oldest, Option.getD_none] at reached
      omega
    · rw [oldest, Option.getD_some] at reached
      have survives := (mem_survivors.mp (List.mem_of_mem_head? oldest)).2
      exact Nat.le_trans (slotsFrom_antitone _ reached) survives
  · intro fits
    have survives := mem_survivors.mpr ⟨inside', fits⟩
    rcases oldest : (survivors numLogEntries (messages.map LogMessage.call)).head? with _ | first
    · rw [List.head?_eq_none_iff.mp oldest] at survives
      cases survives
    · obtain ⟨younger, split⟩ := List.head?_eq_some_iff.mp oldest
      have sorted := survivors_sorted numLogEntries (messages.map LogMessage.call)
      rw [split] at sorted survives
      rw [Option.getD_some]
      rcases List.mem_cons.mp survives with rfl | later
      · exact Nat.le_refl _
      · exact Nat.le_of_lt (List.rel_of_pairwise_cons sorted later)

theorem oldestKept_le_length : oldestKept numLogEntries messages ≤ messages.length := by
  unfold oldestKept
  rcases oldest : (survivors numLogEntries (messages.map LogMessage.call)).head? with _ | first
  · exact Nat.le_refl _
  · have inside := (mem_survivors.mp (List.mem_of_mem_head? oldest)).1
    rw [List.length_map] at inside
    exact Nat.le_of_lt inside

/-- Looking up the positions from one on. -/
theorem filterMap_getElem?_range' {Item : Type} (items : List Item) {first count : Nat}
    (ends : first + count = items.length) :
    (List.range' first count).filterMap (fun index => items[index]?) = items.drop first := by
  induction count generalizing first with
  | zero => exact (List.drop_eq_nil_of_le (by omega)).symm
  | succ count ih =>
    have inside : first < items.length := by omega
    rw [List.range'_succ, List.filterMap_cons_some (List.getElem?_eq_getElem inside),
      ih (by omega), List.drop_eq_getElem_cons inside]

/-- **The messages kept are the last ones.** -/
theorem keptMessages_eq_drop :
    keptMessages numLogEntries messages = messages.drop (oldestKept numLogEntries messages) := by
  have newest : survivors numLogEntries (messages.map LogMessage.call) =
      List.range' (oldestKept numLogEntries messages)
        (messages.length - oldestKept numLogEntries messages) := by
    rw [← filter_range_le, survivors, List.length_map]
    refine List.filter_congr fun index member => ?_
    rw [decide_eq_decide]
    exact (oldestKept_le_iff (List.mem_range.mp member)).symm
  have within : oldestKept numLogEntries messages ≤ messages.length := oldestKept_le_length
  unfold keptMessages
  rw [newest]
  exact filterMap_getElem?_range' messages (by omega)

/-- **What is gone does not come back.** -/
theorem oldestKept_append (more : List LogMessage) :
    oldestKept numLogEntries messages ≤ oldestKept numLogEntries (messages ++ more) := by
  by_cases inside : oldestKept numLogEntries (messages ++ more) < messages.length
  · have among : oldestKept numLogEntries (messages ++ more) < (messages ++ more).length := by
      rw [List.length_append]
      omega
    refine (oldestKept_le_iff inside).mpr (Nat.le_trans ?_ ((oldestKept_le_iff among).mp (Nat.le_refl _)))
    unfold slotsFrom
    rw [List.map_append, List.drop_append_of_le_length (by rw [List.length_map]; omega),
      List.map_append, List.sum_append]
    exact Nat.le_add_right _ _
  · exact Nat.le_trans oldestKept_le_length (Nat.le_of_not_lt inside)

end Kept

/-! ### What is printed -/

/-- The reader excludes by the names that it sees. -/
def LogMessage.shown (cmd : LogOutputCommand) (message : LogMessage) : Bool :=
  !cmd.excludeTags.contains (seenTagName message.call) &&
    !cmd.excludeLogLevels.contains (seenLogLevelName message.call)

/-- **What is printed of the messages in the ring**, if the walk begins at one of them. -/
def outputOf (localtime : Int64 → Option (List UInt8)) (cmd : LogOutputCommand) (turn : Nat)
    (kept : List LogMessage) : LogOutput :=
  if kept = [] then .emptyLog
  else .entries (((kept.rotate turn).filter (LogMessage.shown cmd)).map (LogMessage.line localtime cmd))

/-- Filtering and mapping, with both answers beside each other. -/
theorem map_filter_eq {Item Line : Type} (keep : Item → Bool) (line : Item → Line) (items : List Item) :
    (items.filter keep).map line =
      ((items.map fun item => (keep item, line item)).filter Prod.fst).map Prod.snd := by
  rw [List.filter_map, List.map_map]
  rfl

/-- The stamps increase from one message to the next. -/
def StampsIncrease (messages : List LogMessage) : Prop :=
  messages.IsChain fun first second => second.timeStamp.gt first.timeStamp = true

section Messages

variable (localtime : Int64 → Option (List UInt8)) {size : Nat} (cmd : LogOutputCommand)
  {messages : List LogMessage}

/-- A later message has a later stamp. -/
theorem StampsIncrease.gt (increase : StampsIncrease messages) {first second : Nat}
    (order : first < second) (inside : second < messages.length) :
    messages[second].timeStamp.gt messages[first].timeStamp = true := by
  have transitive : IsTrans LogMessage fun first second =>
      second.timeStamp.gt first.timeStamp = true :=
    ⟨fun _ _ _ one two => TimeStamp.gt_of_le_of_gt (TimeStamp.le_of_gt two) one⟩
  exact List.pairwise_iff_getElem.mp (List.isChain_iff_pairwise.mp increase) first second _ inside order

theorem StampsIncrease.nondecreasing (increase : StampsIncrease messages) :
    StampsNondecreasing (messages.map LogMessage.call) := by
  exact List.isChain_map_of_isChain LogMessage.call
    (fun first second later => TimeStamp.le_of_gt later) increase

/-- Increasing stamps leave no doubt about the oldest entry. -/
theorem StampsIncrease.startsLowest {numLogEntries : Nat} (increase : StampsIncrease messages) :
    StartsLowest numLogEntries (messages.map LogMessage.call) := by
  intro oldest head index survives same
  obtain ⟨younger, split⟩ := List.head?_eq_some_iff.mp head
  rcases List.mem_cons.mp (split ▸ survives) with rfl | later
  · exact Nat.le_refl _
  · have sorted := survivors_sorted numLogEntries (messages.map LogMessage.call)
    rw [split] at sorted
    have order := List.rel_of_pairwise_cons sorted later
    obtain ⟨inside, -⟩ := mem_survivors.mp survives
    rw [List.length_map] at inside
    have greater := increase.gt order inside
    have stamps : messages[index].timeStamp = messages[oldest].timeStamp := by
      unfold stampOf at same
      rw [List.getElem?_map, List.getElem?_map, List.getElem?_eq_getElem inside,
        List.getElem?_eq_getElem (Nat.lt_trans order inside)] at same
      exact Option.some.inj same
    have still := TimeStamp.Le.refl messages[oldest].timeStamp
    rw [stamps, still] at greater
    cases greater

/-- The order of the entries printed. -/
theorem printOrder_messages (messages : List LogMessage) {numLogEntries : Nat} (positive : 0 < numLogEntries)
    (small : numLogEntries < 2 ^ 32) :
    ∃ turn, printOrder numLogEntries (memAfter numLogEntries messages) =
        ((survivors numLogEntries (messages.map LogMessage.call)).rotate turn).map
          (startSlot numLogEntries (messages.map LogMessage.call)) ∧
      (StampsIncrease messages → turn = 0) := by
  by_cases increase : StampsIncrease messages
  · refine ⟨0, ?_, fun _ => rfl⟩
    rw [List.rotate_zero]
    exact printOrder_of_startsLowest positive increase.nondecreasing
      (fun index survives => announcesItself_of_survivor small survives) increase.startsLowest
  · obtain ⟨turn, order, -⟩ := printOrder_survivors positive small (messages.map LogMessage.call)
    exact ⟨turn, order, fun both => absurd both increase⟩

/-- The reader excludes a survivor by the names of its message. -/
theorem shouldPrintEntry_survivor (positive : 0 < numLogEntriesOf size)
    (spare : 0 < size % bytesPerLogBuf) {index : Nat}
    (survives : index ∈ survivors (numLogEntriesOf size) (messages.map LogMessage.call))
    {message : LogMessage} (found : messages[index]? = some message) :
    shouldPrintEntry size (memAfter (numLogEntriesOf size) messages) cmd
      (startSlot (numLogEntriesOf size) (messages.map LogMessage.call) index) = message.shown cmd := by
  obtain ⟨inside, fits⟩ := mem_survivors.mp survives
  obtain ⟨below, rfl⟩ := List.getElem?_eq_some_iff.mp found
  have call : (messages.map LogMessage.call)[index] = messages[index].call := List.getElem_map _
  have ends : (messages.map LogMessage.call)[index].buf = messages[index].text.bytes ++ [0] := by
    rw [call]
    rfl
  have tag := survivor_tagName positive spare inside fits ends
  have level := survivor_logLevelName positive spare inside fits ends
  rw [call] at tag level
  unfold shouldPrintEntry LogMessage.shown memAfter
  rw [tag, level]
  by_cases tags : cmd.excludeTags = []
  · by_cases levels : cmd.excludeLogLevels = []
    · simp [tags, levels]
    · simp [tags, levels, foundStringInList]
  · by_cases levels : cmd.excludeLogLevels = []
    · simp [tags, levels, foundStringInList]
    · by_cases excluded : seenTagName messages[index].call ∈ cmd.excludeTags
      · simp [tags, foundStringInList, excluded]
      · simp [tags, levels, foundStringInList, excluded]

/-- **What `getLog` prints of a ring**: the messages kept, less those excluded, in a rotation of the
order in which they were written, or in this order if the stamps increase. -/
theorem getLog_messages (positive : 0 < numLogEntriesOf size) (small : numLogEntriesOf size < 2 ^ 32)
    (spare : 0 < size % bytesPerLogBuf)
    (accepted : ∀ message ∈ messages, (localtime message.timeStamp.sec).isSome = true) :
    ∃ turn, (StampsIncrease messages → turn = 0) ∧
      getLog localtime size (memAfter (numLogEntriesOf size) messages) cmd =
        outputOf localtime cmd turn (messages.drop (oldestKept (numLogEntriesOf size) messages)) := by
  obtain ⟨turn, order, increase⟩ := printOrder_messages messages positive small
  refine ⟨turn, increase, ?_⟩
  obtain ⟨-, -, empty⟩ := printOrder_survivors positive small (messages.map LogMessage.call)
  have pairs : (survivors (numLogEntriesOf size) (messages.map LogMessage.call)).map (fun index =>
      (shouldPrintEntry size (memAfter (numLogEntriesOf size) messages) cmd
          (startSlot (numLogEntriesOf size) (messages.map LogMessage.call) index),
        printedEntry localtime (numLogEntriesOf size) size (memAfter (numLogEntriesOf size) messages) cmd
          (startSlot (numLogEntriesOf size) (messages.map LogMessage.call) index))) =
      (keptMessages (numLogEntriesOf size) messages).map fun message =>
        (message.shown cmd, message.line localtime cmd) := by
    refine map_eq_map_filterMap fun index survives => ?_
    obtain ⟨message, found, line⟩ := printedEntry_survivor localtime cmd positive small spare survives
    exact ⟨message, found,
      Prod.ext (shouldPrintEntry_survivor cmd positive spare survives found) line⟩
  have printable : ∀ slot ∈ printOrder (numLogEntriesOf size) (memAfter (numLogEntriesOf size) messages),
      stampAccepted localtime (memAfter (numLogEntriesOf size) messages) cmd slot = true := by
    intro slot member
    rw [order] at member
    obtain ⟨index, survives, rfl⟩ := List.mem_map.mp member
    exact stampAccepted_survivor localtime cmd positive accepted (List.mem_rotate.mp survives)
  unfold outputOf
  rw [← keptMessages_eq_drop]
  rcases search : firstLogEntry (numLogEntriesOf size) (memAfter (numLogEntriesOf size) messages)
    with _ | first
  · have none : keptMessages (numLogEntriesOf size) messages = [] := by
      unfold keptMessages
      rw [empty.mp search]
      rfl
    rw [getLog, search, if_pos none]
  · have some' : keptMessages (numLogEntriesOf size) messages ≠ [] := by
      intro none
      rw [none, List.map_nil, List.map_eq_nil_iff] at pairs
      have silent := empty.mpr pairs
      unfold memAfter at search
      rw [search] at silent
      cases silent
    rw [getLog, search, if_neg some', printEntries_accepted printable, List.nil_append, map_filter_eq,
      map_filter_eq (LogMessage.shown cmd), List.map_rotate, ← pairs, order, List.map_map,
      List.map_rotate]
    rfl

end Messages

/-! ### Every run -/

/-- Calls that were made for messages. -/
theorem exists_messages {calls : List WriteCall} {Accepted : LogMessage → Prop}
    (written : ∀ call ∈ calls, ∃ message, LogMessage.call message = call ∧ Accepted message) :
    ∃ messages : List LogMessage, calls = messages.map LogMessage.call ∧
      ∀ message ∈ messages, Accepted message := by
  induction calls with
  | nil => exact ⟨[], rfl, fun message member => absurd member List.not_mem_nil⟩
  | cons call calls ih =>
    obtain ⟨message, rfl, accepted⟩ := written call List.mem_cons_self
    obtain ⟨messages, rfl, all⟩ := ih fun other member => written other (List.mem_cons_of_mem _ member)
    exact ⟨message :: messages, rfl, List.forall_mem_cons.mpr ⟨accepted, all⟩⟩

namespace System

variable {Thread Reader : Type}

/-- **A copy that is begun behind these events** and finished later in the history. -/
def CopiedBehind (history before : List (LogEvent Thread Reader)) (tempLogBuf : List UInt8) : Prop :=
  ∃ reader middle after,
    history = before ++ .lock reader :: (middle ++ .finished reader tempLogBuf :: after) ∧
      ∀ other, LogEvent.finished reader other ∉ middle

variable [DecidableEq Thread] [DecidableEq Reader] {size : Nat}
  {history before : List (LogEvent Thread Reader)} {system : System Thread Reader}

/-- A finished copy is the ring behind the calls that took the mutex before it. -/
theorem copied_eq (positive : 0 < numLogEntriesOf size)
    (runs : run (step size) initial history = some system) {tempLogBuf : List UInt8}
    (copied : CopiedBehind history before tempLogBuf) :
    tempLogBuf = (writeAll (numLogEntriesOf size) .initial (acquired before)).mem.read 0 size := by
  obtain ⟨reader, middle, after, rfl, unfinished⟩ := copied
  obtain ⟨start, locked, earlier, locks, rest⟩ := run_split (step size) runs
  obtain ⟨last, finished, copies, finishes, -⟩ := run_split (step size) rest
  have copying : (locked.retrievers reader).inside = true := by
    cases takes_of_step locks with
    | lock waiting free =>
      rw [retrievers_setRetriever]
      rfl
  have consistent := (takes_of_step locks).consistent positive (consistent_of_run positive earlier)
  have quiet := acquired_while_copying positive consistent copying copies unfinished
  have copyRun : run (step size) initial (before ++ .lock reader :: middle) = some last := by
    rw [run_append, earlier, Option.bind_some, run, locks, Option.bind_some, copies]
  have agrees := consistent_of_run positive copyRun
  rw [acquired_append, show acquired (.lock reader :: middle) = acquired middle from rfl, quiet,
    List.append_nil] at agrees
  cases takes_of_step finishes with
  | finished still whole =>
    have owner : last.mutex = some (.inr reader) := (agrees.guards (.inr reader)).mp (by
      show (last.retrievers reader).inside = true
      rw [still]
      rfl)
    have image := agrees.completed
    simp only [completed, active_of_reader owner] at image
    have bytes := agrees.copies reader tempLogBuf still
    rw [whole, image] at bytes
    exact bytes

/-- **What a retriever prints, in every run.** Of two copies that retrievers finish, each is printed as
the last messages among those whose calls took the mutex before it was begun, as many as fit in the
ring, less those excluded; in a rotation of the order of those calls, or in this order if the time
stamps increase. No message that was gone from the copy begun first is back in the other one. -/
theorem getLog_everyRun (localtime : Int64 → Option (List UInt8)) (cmd cmd' : LogOutputCommand)
    (positive : 0 < numLogEntriesOf size) (small : numLogEntriesOf size < 2 ^ 32)
    (spare : 0 < size % bytesPerLogBuf) (runs : run (step size) initial history = some system)
    (written : ∀ call ∈ acquired history, ∃ message, LogMessage.call message = call ∧
      (localtime message.timeStamp.sec).isSome = true)
    {before' : List (LogEvent Thread Reader)} {tempLogBuf tempLogBuf' : List UInt8}
    (copied : CopiedBehind history before tempLogBuf)
    (copied' : CopiedBehind history before' tempLogBuf') (earlier : before <+: before') :
    ∃ messages more turn turn', acquired before = messages.map LogMessage.call ∧
      acquired before' = (messages ++ more).map LogMessage.call ∧
      getLog localtime size (imageOf tempLogBuf) cmd = outputOf localtime cmd turn
        (messages.drop (oldestKept (numLogEntriesOf size) messages)) ∧
      getLog localtime size (imageOf tempLogBuf') cmd' = outputOf localtime cmd' turn'
        ((messages ++ more).drop (oldestKept (numLogEntriesOf size) (messages ++ more))) ∧
      (StampsIncrease messages → turn = 0) ∧ (StampsIncrease (messages ++ more) → turn' = 0) ∧
      oldestKept (numLogEntriesOf size) messages ≤
        oldestKept (numLogEntriesOf size) (messages ++ more) := by
  have bytes := copied_eq positive runs copied
  have bytes' := copied_eq positive runs copied'
  obtain ⟨later, rfl⟩ := earlier
  have within : ∀ call ∈ acquired (before ++ later), call ∈ acquired history := by
    obtain ⟨reader, middle, after, rfl, -⟩ := copied'
    intro call member
    rw [acquired_append]
    exact List.mem_append_left _ member
  rw [acquired_append] at within bytes'
  obtain ⟨messages, calls, accepted⟩ := exists_messages fun call member =>
    written call (within call (List.mem_append_left _ member))
  obtain ⟨more, moreCalls, moreAccepted⟩ := exists_messages fun call member =>
    written call (within call (List.mem_append_right _ member))
  rw [calls] at bytes bytes'
  rw [moreCalls, ← List.map_append] at bytes'
  have all : ∀ message ∈ messages ++ more, (localtime message.timeStamp.sec).isSome = true := by
    intro message member
    rcases List.mem_append.mp member with old | new
    · exact accepted message old
    · exact moreAccepted message new
  obtain ⟨turn, increase, printed⟩ := getLog_messages localtime cmd positive small spare accepted
  obtain ⟨turn', increase', printed'⟩ := getLog_messages localtime cmd' positive small spare all
  refine ⟨messages, more, turn, turn', calls, ?_, ?_, ?_, increase, increase', oldestKept_append more⟩
  · rw [acquired_append, calls, moreCalls, List.map_append]
  · rw [← printed, bytes]
    exact getLog_congr localtime (AgreeOn.imageOf size _) cmd
  · rw [← printed', bytes']
    exact getLog_congr localtime (AgreeOn.imageOf size _) cmd'

/-- One slot, given one message while another one is dropped. -/
theorem getLog_everyRun_one_slot :
    ∃ tempLogBuf system, run (step 513) initial (sampleHistory sampleEntry ++ .lock () ::
        (List.replicate 513 (.copyByte ()) ++ [.finished () tempLogBuf])) = some system ∧
      ∃ (messages : List LogMessage) (turn : Nat), [sampleEntry] = messages.map LogMessage.call ∧
        getLog (fun _ => some []) 513 (imageOf tempLogBuf) {} = outputOf (fun _ => some []) {} turn
          (messages.drop (oldestKept 1 messages)) := by
  have state : (run (step 513) initial (sampleHistory sampleEntry)).map (fun system =>
      (system.mutex.isNone, decide (system.retrievers () = .waiting))) =
      some (true, true) := by
    decide +kernel
  obtain ⟨start, earlier, facts⟩ := Option.map_eq_some_iff.mp state
  have free : start.mutex = none := Option.isNone_iff_eq_none.mp (congrArg Prod.fst facts)
  have waiting : start.retrievers () = .waiting := of_decide_eq_true (congrArg Prod.snd facts)
  have copies : (run (step 513) start (.lock () :: (List.replicate 513 (.copyByte ()) ++
      [.finished () (start.ring.mem.read 0 513)]))).isSome = true := run_getLog waiting free
  obtain ⟨system, copies⟩ := Option.isSome_iff_exists.mp copies
  have runs : run (step 513) initial (sampleHistory sampleEntry ++ .lock () ::
      (List.replicate 513 (.copyByte ()) ++ [.finished () (start.ring.mem.read 0 513)])) =
      some system := by
    rw [run_append, earlier, Option.bind_some, copies]
  have copied : CopiedBehind (sampleHistory sampleEntry ++ .lock () ::
      (List.replicate 513 (.copyByte ()) ++ [.finished () (start.ring.mem.read 0 513)]))
      (sampleHistory sampleEntry) (start.ring.mem.read 0 513) :=
    ⟨(), _, [], rfl, fun other member => by cases List.eq_of_mem_replicate member⟩
  have calls : acquired (sampleHistory sampleEntry ++ .lock () ::
      (List.replicate 513 (.copyByte ()) ++ [.finished () (start.ring.mem.read 0 513)])) =
      [sampleEntry] := by
    rw [acquired_append]
    refine (congrArg _ (List.filterMap_eq_nil_iff.mpr fun event member => ?_)).trans
      (List.append_nil [sampleEntry])
    rcases List.mem_cons.mp member with rfl | member
    · rfl
    · rcases List.mem_append.mp member with copied | finished
      · rw [List.eq_of_mem_replicate copied]
        rfl
      · rw [List.mem_singleton.mp finished]
        rfl
  obtain ⟨messages, more, turn, turn', made, -, printed, -⟩ := getLog_everyRun (fun _ => some []) {} {}
    (by decide) (by decide) (by decide) runs (fun call member => by
      rw [calls, List.mem_singleton] at member
      exact ⟨⟨⟨[97], by decide⟩, ⟨[66], by decide⟩, ⟨[73], by decide⟩, ⟨0, 0⟩⟩, member.symm, rfl⟩)
    copied copied (List.prefix_refl _)
  exact ⟨_, system, runs, messages, turn, made, printed⟩

end System

end StatLog.Logger
