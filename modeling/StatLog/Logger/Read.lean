/-
**`getLog` on a copy of the log region.**

The reader searches the slots for the smallest time stamp, starts there and walks once around the
ring, printing every slot that announces blocks together with the continuation slots it announces.

* `firstLogEntry`, `entrySlots`, `printOrder`: the search and the walk.
* `printedEntry`, `printEntries`, `getLog`: what is printed. A scan of a C string that leaves the
  copy is the value `none`; `localtime` stands for `std::localtime` with `strftime("%T")`.
* **`firstLogEntry_spec`**: the search finds the first slot among those with the smallest stamp.
* **`entrySlots_eq_visit`**: the walk is `visit` over a full round of slots.
* `printEntries_printed`: what is printed, slot by slot, up to a stamp that `localtime` rejects.
-/

import StatLog.Logger.Write

namespace StatLog.Logger

open ByteMemory CircularBuffer

/-- `numLogEntries` of a log region of `size` bytes, the lock not counted. -/
def numLogEntriesOf (size : Nat) : Nat := size / bytesPerLogBuf

/-! ### The beginning of the log -/

/-- One pass of the search: `first_log_entry` and `firstTimeStamp` once an entry was found. -/
def searchStep (mem : Mem) (found : Option (Nat × TimeStamp)) (i : Nat) : Option (Nat × TimeStamp) :=
  if numBlocksAt mem i > 0 then
    match found with
    | none => some (i, timeStampAt mem i)
    | some (first, stamp) =>
      if stamp.gt (timeStampAt mem i) then some (i, timeStampAt mem i) else some (first, stamp)
  else found

/-- The first slot of the log: the one with the smallest time stamp. -/
def firstLogEntry (numLogEntries : Nat) (mem : Mem) : Option Nat :=
  ((List.range numLogEntries).foldl (searchStep mem) none).map Prod.fst

/-! ### The walk -/

/-- `while(num_log_entries_processed < numLogEntries)`: `left` slots are not processed yet, `cur` is
`cur_log_entry` and `skip` counts the passes left of the loop over continuation slots. -/
def entrySlots (numLogEntries : Nat) (mem : Mem) : Nat → Nat → Nat → List Nat
  | 0, _, _ => []
  | left + 1, cur, skip + 1 => entrySlots numLogEntries mem left ((cur + 1) % numLogEntries) skip
  | left + 1, cur, 0 =>
    if numBlocksAt mem cur = 0 then
      entrySlots numLogEntries mem left ((cur + 1) % numLogEntries) 0
    else
      cur :: entrySlots numLogEntries mem left ((cur + 1) % numLogEntries) (numBlocksAt mem cur - 1)

/-- The slots of the entries in the order in which `getLog` comes to print them. -/
def printOrder (numLogEntries : Nat) (mem : Mem) : List Nat :=
  match firstLogEntry numLogEntries mem with
  | none => []
  | some first => entrySlots numLogEntries mem numLogEntries first 0

/-! ### What is printed -/

/-- The fields of a `LogOutputCommand` that decide what is printed. -/
structure LogOutputCommand where
  excludeTags : List (List UInt8) := []
  excludeLogLevels : List (List UInt8) := []
  showTag : Bool := true
  showTimeStamp : Bool := true
  showLogLevel : Bool := true

/-- `log_hdr_ptr->tagName.data()`, read as a C string. -/
def tagNameAt (size : Nat) (mem : Mem) (slot : Nat) : Option (List UInt8) :=
  cString mem size (slotPtr slot + 24)

/-- `log_hdr_ptr->logLevelName.data()`, read as a C string. -/
def logLevelNameAt (size : Nat) (mem : Mem) (slot : Nat) : Option (List UInt8) :=
  cString mem size (slotPtr slot + 40)

/-- Scans printed one after the other; `none` when one of them leaves the buffer. -/
def joinScans : List (Option (List UInt8)) → Option (List UInt8)
  | [] => some []
  | scan :: scans => scan.bind fun text => (joinScans scans).map (text ++ ·)

/-- The scans of the text of an entry: one behind its header, one in each continuation slot. -/
def textScans (numLogEntries size : Nat) (mem : Mem) (slot : Nat) : List (Option (List UInt8)) :=
  cString mem size (slotPtr slot + sizeofLogHeader) ::
    (List.range (numBlocksAt mem slot - 1)).map fun i =>
      cString mem size (slotPtr ((slot + 1 + i) % numLogEntries) + sizeofLogHeaderCommon)

/-- One printed line: the parts that were asked for, then the text. -/
structure PrintedEntry where
  timeStamp : Option (List UInt8 × Int64)
  tagName : Option (Option (List UInt8))
  logLevelName : Option (Option (List UInt8))
  text : Option (List UInt8)
  deriving DecidableEq

/-- The line printed for the entry of a slot. -/
def printedEntry (localtime : Int64 → Option (List UInt8)) (numLogEntries size : Nat) (mem : Mem)
    (cmd : LogOutputCommand) (slot : Nat) : PrintedEntry where
  timeStamp :=
    if cmd.showTimeStamp then
      (localtime (timeStampAt mem slot).sec).map fun mbstr => (mbstr, (timeStampAt mem slot).usec)
    else none
  tagName := if cmd.showTag then some (tagNameAt size mem slot) else none
  logLevelName := if cmd.showLogLevel then some (logLevelNameAt size mem slot) else none
  text := joinScans (textScans numLogEntries size mem slot)

/-- `found_string_in_list`. -/
def foundStringInList (strings : List (List UInt8)) (toFind : Option (List UInt8)) : Bool :=
  match toFind with
  | some string => strings.contains string
  | none => false

/-- `should_print_entry`. -/
def shouldPrintEntry (size : Nat) (mem : Mem) (cmd : LogOutputCommand) (slot : Nat) : Bool :=
  let keepTag :=
    if cmd.excludeTags.isEmpty = false then
      !foundStringInList cmd.excludeTags (tagNameAt size mem slot)
    else true
  if keepTag && cmd.excludeLogLevels.isEmpty = false then
    !foundStringInList cmd.excludeLogLevels (logLevelNameAt size mem slot)
  else keepTag

/-- What a call of `getLog` leaves on its stream, and whether it ended the process because
`localtime` rejected a time stamp. -/
inductive LogOutput
  | emptyLog
  | entries (printed : List PrintedEntry)
  | invalidTimeStamp (printed : List PrintedEntry)
  deriving DecidableEq

def LogOutput.printed : LogOutput → List PrintedEntry
  | .emptyLog => []
  | .entries printed => printed
  | .invalidTimeStamp printed => printed

/-- The time stamp of a slot can be printed, or need not be. -/
def stampAccepted (localtime : Int64 → Option (List UInt8)) (mem : Mem) (cmd : LogOutputCommand)
    (slot : Nat) : Bool :=
  !cmd.showTimeStamp || (localtime (timeStampAt mem slot).sec).isSome

/-- The body of the walk, over the slots it comes to. -/
def printEntries (localtime : Int64 → Option (List UInt8)) (numLogEntries size : Nat) (mem : Mem)
    (cmd : LogOutputCommand) : List Nat → List PrintedEntry → LogOutput
  | [], printed => .entries printed
  | slot :: slots, printed =>
    -- a rejected stamp ends the process even when the entry is excluded
    if stampAccepted localtime mem cmd slot then
      printEntries localtime numLogEntries size mem cmd slots
        (if shouldPrintEntry size mem cmd slot then
          printed ++ [printedEntry localtime numLogEntries size mem cmd slot]
        else printed)
    else .invalidTimeStamp printed

/-- **`getLog`** on the copy of a log region of `size` bytes. -/
def getLog (localtime : Int64 → Option (List UInt8)) (size : Nat) (mem : Mem)
    (cmd : LogOutputCommand) : LogOutput :=
  match firstLogEntry (numLogEntriesOf size) mem with
  | none => .emptyLog
  | some _ =>
    printEntries localtime (numLogEntriesOf size) size mem cmd (printOrder (numLogEntriesOf size) mem) []

/-- A number as `std::dec` prints it. -/
def decimal (value : Int) : List UInt8 := (toString value).toUTF8.toList

def colon : List UInt8 := ": ".toUTF8.toList

/-- A name that was asked for, and the colon behind it. -/
def renderName : Option (Option (List UInt8)) → Option (List UInt8)
  | none => some []
  | some name => name.map (· ++ colon)

/-- The bytes of a printed line; `none` when a scan left the buffer. -/
def PrintedEntry.render (entry : PrintedEntry) : Option (List UInt8) := do
  let time := match entry.timeStamp with
    | some (mbstr, usec) => mbstr ++ ".".toUTF8.toList ++ decimal usec.toInt ++ colon
    | none => []
  let tagName ← renderName entry.tagName
  let logLevelName ← renderName entry.logLevelName
  let text ← entry.text
  return time ++ tagName ++ logLevelName ++ text ++ "\n".toUTF8.toList

/-! ### The search finds the smallest time stamp -/

section Search

variable {mem : Mem}

-- the search only compares what it reads
attribute [local irreducible] timeStampAt numBlocksAt

/-- `first` is the first slot below `bound` among those with the smallest time stamp. -/
structure IsFirst (mem : Mem) (bound first : Nat) : Prop where
  below : first < bound
  positive : 0 < numBlocksAt mem first
  smallest : ∀ i < bound, 0 < numBlocksAt mem i →
    TimeStamp.Le (timeStampAt mem first) (timeStampAt mem i)
  earliest : ∀ i < first, 0 < numBlocksAt mem i → timeStampAt mem i ≠ timeStampAt mem first

/-- What the search knows after the slots below `bound`. -/
def SearchedTo (mem : Mem) (bound : Nat) : Option (Nat × TimeStamp) → Prop
  | none => ∀ i < bound, numBlocksAt mem i = 0
  | some (first, stamp) => stamp = timeStampAt mem first ∧ IsFirst mem bound first

/-- A slot with a smaller stamp than all before it is the first one. -/
theorem IsFirst.new {bound : Nat} (announces : 0 < numBlocksAt mem bound)
    (smaller : ∀ i < bound, 0 < numBlocksAt mem i →
      (timeStampAt mem i).gt (timeStampAt mem bound) = true) :
    IsFirst mem (bound + 1) bound where
  below := Nat.lt_succ_self bound
  positive := announces
  smallest i lt counted := by
    rcases Nat.lt_succ_iff_lt_or_eq.mp lt with earlier | rfl
    · exact TimeStamp.le_of_gt (smaller i earlier counted)
    · exact TimeStamp.Le.refl _
  earliest i lt counted same := by
    have greater := smaller i lt counted
    have notGreater := TimeStamp.Le.refl (timeStampAt mem bound)
    rw [same, notGreater] at greater
    cases greater

/-- A slot that is silent or has no smaller stamp does not change the first one. -/
theorem IsFirst.keep {bound first : Nat} (isFirst : IsFirst mem bound first)
    (notSmaller : 0 < numBlocksAt mem bound →
      TimeStamp.Le (timeStampAt mem first) (timeStampAt mem bound)) :
    IsFirst mem (bound + 1) first where
  below := Nat.lt_succ_of_lt isFirst.below
  positive := isFirst.positive
  smallest i lt counted := by
    rcases Nat.lt_succ_iff_lt_or_eq.mp lt with earlier | rfl
    · exact isFirst.smallest i earlier counted
    · exact notSmaller counted
  earliest := isFirst.earliest

/-- One pass of the search extends what it knows by one slot. -/
theorem SearchedTo.step {bound : Nat} {found : Option (Nat × TimeStamp)}
    (searched : SearchedTo mem bound found) :
    SearchedTo mem (bound + 1) (searchStep mem found bound) := by
  unfold searchStep
  by_cases announces : numBlocksAt mem bound > 0
  · rw [if_pos announces]
    cases found with
    | none =>
      exact ⟨rfl, .new announces fun i lt counted => absurd (searched i lt) (Nat.ne_of_gt counted)⟩
    | some pair =>
      obtain ⟨first, stamp⟩ := pair
      obtain ⟨rfl, isFirst⟩ := searched
      by_cases smaller : (timeStampAt mem first).gt (timeStampAt mem bound) = true
      · simp only [if_pos smaller]
        refine ⟨rfl, .new announces fun i lt counted => ?_⟩
        exact TimeStamp.gt_of_le_of_gt (isFirst.smallest i lt counted) smaller
      · simp only [if_neg smaller]
        exact ⟨rfl, isFirst.keep fun _ => Bool.eq_false_of_not_eq_true smaller⟩
  · rw [if_neg announces]
    cases found with
    | none =>
      intro i below
      rcases Nat.lt_succ_iff_lt_or_eq.mp below with earlier | rfl
      · exact searched i earlier
      · exact Nat.eq_zero_of_not_pos announces
    | some pair => exact ⟨searched.1, searched.2.keep fun positive => absurd positive announces⟩

theorem searchedTo_range (mem : Mem) (bound : Nat) :
    SearchedTo mem bound ((List.range bound).foldl (searchStep mem) none) := by
  induction bound with
  | zero => exact fun i below => absurd below (Nat.not_lt_zero i)
  | succ bound ih =>
    rw [List.range_succ, List.foldl_append]
    exact ih.step

theorem firstLogEntry_eq_none {numLogEntries : Nat} :
    firstLogEntry numLogEntries mem = none ↔ ∀ i < numLogEntries, numBlocksAt mem i = 0 := by
  have searched := searchedTo_range mem numLogEntries
  unfold firstLogEntry
  generalize (List.range numLogEntries).foldl (searchStep mem) none = found at searched ⊢
  cases found with
  | none => exact ⟨fun _ => searched, fun _ => rfl⟩
  | some pair =>
    constructor
    · intro impossible
      cases impossible
    · intro zeros
      have counted := searched.2.positive
      rw [zeros _ searched.2.below] at counted
      exact absurd counted (Nat.lt_irrefl 0)

/-- **The search finds the first slot among those with the smallest time stamp.** -/
theorem firstLogEntry_spec {numLogEntries first : Nat}
    (found : firstLogEntry numLogEntries mem = some first) : IsFirst mem numLogEntries first := by
  have searched := searchedTo_range mem numLogEntries
  unfold firstLogEntry at found
  generalize (List.range numLogEntries).foldl (searchStep mem) none = result at searched found
  cases result with
  | none => cases found
  | some pair =>
    cases found
    exact searched.2

end Search

/-! ### The walk is a full round -/

/-- **The walk is `visit` over the cells it processes.** -/
theorem entrySlots_eq_visit {numLogEntries : Nat} (mem : Mem) (left : Nat) {cur : Nat}
    (below : cur < numLogEntries) (skip : Nat) :
    entrySlots numLogEntries mem left cur skip =
      visit (numBlocksAt mem) (cellsFrom numLogEntries cur left) skip := by
  induction left generalizing cur skip with
  | zero => rfl
  | succ left ih =>
    have next : (cur + 1) % numLogEntries < numLogEntries := Nat.mod_lt _ (by omega)
    have sameCells : cellsFrom numLogEntries ((cur + 1) % numLogEntries) left =
        cellsFrom numLogEntries (cur + 1) left :=
      cellsFrom_congr (Nat.mod_mod _ _) left
    rw [cellsFrom_succ, Nat.mod_eq_of_lt below]
    cases skip with
    | zero => rw [entrySlots, visit, ih next, ih next, sameCells]
    | succ skip => rw [entrySlots, visit, ih next, sameCells]

/-! ### What the walk prints -/

section Print

variable {localtime : Int64 → Option (List UInt8)} {numLogEntries size : Nat} {mem : Mem}
  {cmd : LogOutputCommand}

/-- **The printed lines**: those of the slots that are not excluded, up to the first rejected
stamp. -/
theorem printEntries_printed (slots : List Nat) (printed : List PrintedEntry) :
    (printEntries localtime numLogEntries size mem cmd slots printed).printed =
      printed ++ ((slots.takeWhile (stampAccepted localtime mem cmd)).filter
        (shouldPrintEntry size mem cmd)).map (printedEntry localtime numLogEntries size mem cmd) := by
  induction slots generalizing printed with
  | nil => simp [printEntries, LogOutput.printed]
  | cons slot slots ih =>
    rw [printEntries]
    by_cases accepted : stampAccepted localtime mem cmd slot = true
    · rw [if_pos accepted, ih, List.takeWhile_cons_of_pos accepted]
      by_cases kept : shouldPrintEntry size mem cmd slot = true
      · rw [if_pos kept, List.filter_cons_of_pos kept, List.map_cons, List.append_assoc]
        rfl
      · rw [if_neg kept, List.filter_cons_of_neg kept]
    · rw [if_neg accepted, List.takeWhile_cons_of_neg accepted]
      simp [LogOutput.printed]

/-- When every stamp is accepted the walk runs to its end. -/
theorem printEntries_accepted {slots : List Nat}
    (accepted : ∀ slot ∈ slots, stampAccepted localtime mem cmd slot = true)
    (printed : List PrintedEntry) :
    printEntries localtime numLogEntries size mem cmd slots printed =
      .entries (printed ++ (slots.filter (shouldPrintEntry size mem cmd)).map
        (printedEntry localtime numLogEntries size mem cmd)) := by
  induction slots generalizing printed with
  | nil => simp [printEntries]
  | cons slot slots ih =>
    rw [printEntries, if_pos (accepted slot List.mem_cons_self),
      ih fun later member => accepted later (List.mem_cons_of_mem _ member)]
    by_cases kept : shouldPrintEntry size mem cmd slot = true
    · rw [if_pos kept, List.filter_cons_of_pos kept, List.map_cons, List.append_assoc]
      rfl
    · rw [if_neg kept, List.filter_cons_of_neg kept]

theorem shouldPrintEntry_of_empty (noTags : cmd.excludeTags = [])
    (noLevels : cmd.excludeLogLevels = []) (slot : Nat) : shouldPrintEntry size mem cmd slot = true := by
  simp [shouldPrintEntry, noTags, noLevels]

end Print

end StatLog.Logger
