/-
**The time in front of a printed entry.**

`writeData` splits a clock reading into seconds and microseconds, and `getLog` prints the two
parts separately: `strftime("%T")` of the seconds, a point, and the number of microseconds.

* `clockStamp`, `writeData`: the time stamp of a clock reading and the call that is made with it.
* `LocalClock`: what is taken from `localtime` and `strftime`, which are faithful on whole seconds.
* `printedTime`, `readSeconds`, `readTime`: the text in front of an entry and how it is read.
* `readTime_printed`: what the text denotes. The microseconds are printed without leading zeros, so
  `usec` stands for `usec / 10 ^ (number of its digits)` seconds.
* **`timesRecovered_iff`**: the printed times denote the recorded ones, and order them, exactly when
  no entry's microseconds needed a leading zero.
-/

import StatLog.Lib.Numeral
import StatLog.Logger.Scan

namespace StatLog.Logger

open ByteMemory CircularBuffer Numeral

/-! ### Clock readings -/

/-- The seconds and microseconds `writeData` takes from the clock, for a number of microseconds
since the epoch: `to_time_t(now)` and `us % seconds{1}`. -/
def clockStamp (now : Nat) : TimeStamp := ⟨Int64.ofNat (now / 1000000), Int64.ofNat (now % 1000000)⟩

/-- The arguments of `writeData`, and the clock at the call. -/
structure LogEntry where
  logEntry : List UInt8
  tagName : CString
  logLevelName : CString
  now : Nat
  deriving DecidableEq

/-- **`writeData`**: the characters of the string, with the zero behind them. -/
def LogEntry.writeData (entry : LogEntry) : WriteCall :=
  ⟨entry.logEntry ++ [0], entry.tagName, entry.logLevelName, clockStamp entry.now⟩

theorem clockStamp_usec (now : Nat) : (clockStamp now).usec.toInt = (now % 1000000 : Nat) :=
  Int64.toInt_ofNat_of_lt (by omega)

/-! ### The text of a time -/

/-- A number below a hundred with two digits. -/
def twoDigits (number : Nat) : List UInt8 := [digit (number / 10), digit (number % 10)]

/-- The separator of hours, minutes and seconds. -/
def separator : UInt8 := 58

/-- `%T` of a number of seconds since midnight. -/
def clockText (timeOfDay : Nat) : List UInt8 :=
  twoDigits (timeOfDay / 3600) ++ separator :: twoDigits (timeOfDay / 60 % 60) ++
    separator :: twoDigits (timeOfDay % 60)

/-- **The local time of the seconds recorded**: `localtime` accepts them and `strftime` prints hours,
minutes and seconds of the day, which advance with the seconds recorded. -/
structure LocalClock (localtime : Int64 → Option (List UInt8)) (recorded : Int64 → Prop) where
  day : Int64 → Int
  timeOfDay : Int64 → Nat
  below : ∀ sec, recorded sec → timeOfDay sec < 86400
  prints : ∀ sec, recorded sec → localtime sec = some (clockText (timeOfDay sec))
  seconds : ∀ sec, recorded sec → (timeOfDay sec : Int) % 60 = sec.toInt % 60
  sameDay : ∀ sec, recorded sec → ∀ later, recorded later → day sec = day later →
    later.toInt - sec.toInt = timeOfDay later - timeOfDay sec

/-- The time in front of a printed entry, without the colon behind it. -/
def PrintedEntry.printedTime (entry : PrintedEntry) : Option (List UInt8) :=
  entry.timeStamp.map fun (mbstr, usec) => mbstr ++ ".".toUTF8.toList ++ decimal usec.toInt

/-- The printed line starts with it. -/
theorem PrintedEntry.render_of_printedTime {entry : PrintedEntry} {time line : List UInt8}
    (stamped : entry.printedTime = some time) (rendered : entry.render = some line) :
    ∃ rest, line = time ++ colon ++ rest := by
  obtain ⟨stamp, shown, rfl⟩ := Option.map_eq_some_iff.mp stamped
  rw [PrintedEntry.render, shown] at rendered
  simp only [Option.bind_eq_bind, Option.bind_eq_some_iff, Option.pure_def, Option.some.injEq] at rendered
  obtain ⟨tagName, -, logLevelName, -, text, -, rfl⟩ := rendered
  exact ⟨tagName ++ logLevelName ++ text ++ "\n".toUTF8.toList, by simp only [List.append_assoc]⟩

/-- The 'seconds.fraction' part of a time, behind hours and minutes, as a number. -/
def readSeconds (time : List UInt8) : Option ℚ :=
  match time.splitOn separator with
  | [_, _, seconds] => readFraction seconds
  | _ => none

/-- A time as a number of seconds since midnight. -/
def readTime (time : List UInt8) : Option ℚ :=
  match time.splitOn separator with
  | [hours, minutes, seconds] =>
    (readFraction seconds).map (3600 * value 10 hours + 60 * value 10 minutes + ·)
  | _ => none

theorem isDigit_twoDigits {number : Nat} (below : number < 100) :
    ∀ byte ∈ twoDigits number, IsDigit byte := by
  rw [twoDigits, List.forall_mem_cons, List.forall_mem_singleton]
  exact ⟨isDigit_digit (by omega), isDigit_digit (by omega)⟩

theorem value_twoDigits {number : Nat} (below : number < 100) : value 10 (twoDigits number) = number := by
  rw [twoDigits, value, List.foldl_cons, List.foldl_cons, List.foldl_nil, digitValue_digit (by omega),
    digitValue_digit (by omega)]
  omega

theorem separator_notMem {text : List UInt8} (digits : ∀ byte ∈ text, IsDigit byte) :
    separator ∉ text := by
  intro member
  exact absurd (digits _ member) (by decide)

/-- A number of microseconds as it is printed behind the point. -/
theorem decimal_usec (number : Nat) : decimal (number : Int) = numeral 10 number :=
  toUTF8_repr number

/-- What the digits behind the point denote. -/
def printedFraction (usec : Nat) : ℚ := usec / 10 ^ (numeral 10 usec).length

section Text

variable {timeOfDay : Nat} (below : timeOfDay < 86400) (usec : Nat)

include below

theorem splitOn_printed :
    (clockText timeOfDay ++ ".".toUTF8.toList ++ decimal usec).splitOn separator =
      [twoDigits (timeOfDay / 3600), twoDigits (timeOfDay / 60 % 60),
        twoDigits (timeOfDay % 60) ++ point :: numeral 10 usec] := by
  have pointText : ".".toUTF8.toList = [point] := by decide +kernel
  have hours : separator ∉ twoDigits (timeOfDay / 3600) :=
    separator_notMem (isDigit_twoDigits (by omega))
  have minutes : separator ∉ twoDigits (timeOfDay / 60 % 60) :=
    separator_notMem (isDigit_twoDigits (by omega))
  have seconds : ∀ byte ∈ twoDigits (timeOfDay % 60), IsDigit byte := isDigit_twoDigits (by omega)
  have usecDigits : ∀ byte ∈ numeral 10 usec, IsDigit byte :=
    isDigit_of_mem_numeral (by decide) (by decide) usec
  have last : separator ∉ twoDigits (timeOfDay % 60) ++ point :: numeral 10 usec := by
    rw [List.mem_append, List.mem_cons]
    rintro (inSeconds | isPoint | inUsec)
    · exact separator_notMem seconds inSeconds
    · exact absurd isPoint (by decide)
    · exact separator_notMem usecDigits inUsec
  have shape : clockText timeOfDay ++ ".".toUTF8.toList ++ decimal usec =
      twoDigits (timeOfDay / 3600) ++ separator :: (twoDigits (timeOfDay / 60 % 60) ++
        separator :: (twoDigits (timeOfDay % 60) ++ point :: numeral 10 usec)) := by
    rw [pointText, decimal_usec, clockText]
    simp only [List.append_assoc, List.cons_append, List.nil_append]
  rw [shape, List.splitOn_append_cons_self_of_not_mem hours,
    List.splitOn_append_cons_self_of_not_mem minutes, List.splitOn_eq_singleton last]

omit below in
theorem readFraction_printed :
    readFraction (twoDigits (timeOfDay % 60) ++ point :: numeral 10 usec) =
      some ((timeOfDay % 60 : Nat) + printedFraction usec) := by
  rw [readFraction_eq (isDigit_twoDigits (by omega)) (isDigit_of_mem_numeral (by decide) (by decide) usec),
    value_twoDigits (by omega), value_numeral (by decide) (by decide), printedFraction]

/-- What the printed 'seconds.fraction' part denotes. -/
theorem readSeconds_printed :
    readSeconds (clockText timeOfDay ++ ".".toUTF8.toList ++ decimal usec) =
      some ((timeOfDay % 60 : Nat) + printedFraction usec) := by
  rw [readSeconds, splitOn_printed below]
  exact readFraction_printed usec

/-- **What a printed time denotes.** -/
theorem readTime_printed :
    readTime (clockText timeOfDay ++ ".".toUTF8.toList ++ decimal usec) =
      some (timeOfDay + printedFraction usec) := by
  have parts : 3600 * (timeOfDay / 3600) + (60 * (timeOfDay / 60 % 60) + timeOfDay % 60) = timeOfDay := by
    omega
  have parts' : (3600 * (timeOfDay / 3600 : Nat) + (60 * (timeOfDay / 60 % 60 : Nat) +
      (timeOfDay % 60 : Nat)) : ℚ) = timeOfDay := by
    exact_mod_cast parts
  rw [readTime, splitOn_printed below]
  simp only [readFraction_printed, Option.map_some, value_twoDigits (show timeOfDay / 3600 < 100 by omega),
    value_twoDigits (show timeOfDay / 60 % 60 < 100 by omega), Option.some.injEq]
  linarith only [parts']

end Text

/-- **The digits behind the point denote the microseconds** when there is no leading zero to print. -/
theorem printedFraction_eq_iff {usec : Nat} (below : usec < 1000000) :
    printedFraction usec = usec / 1000000 ↔ usec = 0 ∨ 100000 ≤ usec := by
  have most : (numeral 10 usec).length ≤ 6 :=
    (length_numeral_le_iff (by decide) (by decide)).mpr (by omega)
  have few : (numeral 10 usec).length ≤ 5 ↔ usec < 10 ^ 5 :=
    length_numeral_le_iff (by decide) (by decide)
  rw [printedFraction]
  constructor
  · intro same
    by_cases zero : usec = 0
    · exact Or.inl zero
    · have nonzero : (usec : ℚ) ≠ 0 := Nat.cast_ne_zero.mpr zero
      have powers : ((10 ^ (numeral 10 usec).length : Nat) : ℚ) = (1000000 : Nat) := by
        field_simp at same
        exact_mod_cast same.symm
      have length : (numeral 10 usec).length = 6 :=
        Nat.pow_right_injective (by decide) (Nat.cast_injective powers)
      refine Or.inr (Nat.le_of_not_lt fun small => ?_)
      have := few.mpr small
      omega
  · rintro (rfl | big)
    · simp
    · have length : (numeral 10 usec).length = 6 := by omega
      rw [length]
      norm_num

/-! ### The printed times of a log -/

/-- The region after the entries were written to a zeroed ring. -/
def regionAfter (size : Nat) (entries : List LogEntry) : Mem :=
  (writeAll (numLogEntriesOf size) .initial (entries.map LogEntry.writeData)).mem

/-- `getLog` prints this line for the entry with the given number. -/
structure PrintsEntry (localtime : Int64 → Option (List UInt8)) (size : Nat) (entries : List LogEntry)
    (cmd : LogOutputCommand) (index : Nat) (entry : LogEntry) (line : PrintedEntry) : Prop where
  entry_eq : entries[index]? = some entry
  survives : index ∈ survivors (numLogEntriesOf size) (entries.map LogEntry.writeData)
  announced : announcesItself (entries.map LogEntry.writeData) index = true
  line_eq : line = printedEntry localtime (numLogEntriesOf size) size (regionAfter size entries) cmd
    (startSlot (numLogEntriesOf size) (entries.map LogEntry.writeData) index)
  printed : line ∈ (getLog localtime size (regionAfter size entries) cmd).printed

/-- The seconds that were recorded for some entry. -/
def Recorded (entries : List LogEntry) (sec : Int64) : Prop :=
  ∃ entry ∈ entries, (clockStamp entry.now).sec = sec

/-- The seconds and microseconds of a stamp that stand behind hours and minutes. -/
def TimeStamp.secondsOfMinute (stamp : TimeStamp) : ℚ :=
  ((stamp.sec.toInt % 60 : Int) : ℚ) + (stamp.usec.toInt : ℚ) / 1000000

/-- **Printed times recover recorded times**: the 'seconds.fraction' part of a printed time, which
stands in front of the line, denotes the recorded stamp, and two printed times of a day compare as the
recorded stamps do. -/
structure TimesRecovered {localtime : Int64 → Option (List UInt8)} (size : Nat)
    (entries : List LogEntry) (clock : LocalClock localtime (Recorded entries)) : Prop where
  seconds : ∀ cmd index entry line, cmd.showTimeStamp = true →
    PrintsEntry localtime size entries cmd index entry line →
    ∃ time, line.printedTime = some time ∧
      (∀ text, line.render = some text → ∃ rest, text = time ++ colon ++ rest) ∧
      readSeconds time = some (clockStamp entry.now).secondsOfMinute
  order : ∀ cmd index entry line index' entry' line', cmd.showTimeStamp = true →
    PrintsEntry localtime size entries cmd index entry line →
    PrintsEntry localtime size entries cmd index' entry' line' →
    clock.day (clockStamp entry.now).sec = clock.day (clockStamp entry'.now).sec →
    ∃ time time' number number', line.printedTime = some time ∧ line'.printedTime = some time' ∧
      readTime time = some number ∧ readTime time' = some number' ∧
      (number < number' ↔ (clockStamp entry'.now).gt (clockStamp entry.now) = true)

theorem add_div_million_lt_iff {whole part whole' part' : Nat} :
    (whole + part / 1000000 : ℚ) < whole' + part' / 1000000 ↔
      whole * 1000000 + part < whole' * 1000000 + part' := by
  rw [← @Nat.cast_lt ℚ]
  push_cast
  constructor
  · intro less
    linarith
  · intro less
    linarith

section Printed

variable {localtime : Int64 → Option (List UInt8)} {size : Nat} {entries : List LogEntry}
  {cmd : LogOutputCommand} {index : Nat} {entry : LogEntry} {line : PrintedEntry}

/-- The stamp that stands in the slot of a surviving entry. -/
theorem timeStampAt_entry (positive : 0 < numLogEntriesOf size) (atIndex : entries[index]? = some entry)
    (survives : index ∈ survivors (numLogEntriesOf size) (entries.map LogEntry.writeData)) :
    timeStampAt (regionAfter size entries)
      (startSlot (numLogEntriesOf size) (entries.map LogEntry.writeData) index) = clockStamp entry.now := by
  obtain ⟨inside, fits⟩ := mem_survivors.mp survives
  obtain ⟨below, rfl⟩ := List.getElem?_eq_some_iff.mp atIndex
  have stamp := survivor_timeStamp positive inside fits
  rw [List.getElem_map] at stamp
  exact stamp

variable (clock : LocalClock localtime (Recorded entries))

include clock

/-- The time printed for an entry. -/
theorem PrintsEntry.printedTime_eq (positive : 0 < numLogEntriesOf size)
    (shown : cmd.showTimeStamp = true) (prints : PrintsEntry localtime size entries cmd index entry line) :
    line.printedTime = some (clockText (clock.timeOfDay (clockStamp entry.now).sec) ++ ".".toUTF8.toList ++
      decimal (entry.now % 1000000 : Nat)) := by
  have recorded : Recorded entries (clockStamp entry.now).sec :=
    ⟨entry, List.mem_of_getElem? prints.entry_eq, rfl⟩
  rw [prints.line_eq, PrintedEntry.printedTime, printedEntry, if_pos shown,
    timeStampAt_entry positive prints.entry_eq prints.survives, clock.prints _ recorded]
  show some (_ ++ _ ++ decimal (clockStamp entry.now).usec.toInt) = _
  rw [clockStamp_usec]

/-- Every entry that is still in the ring and announces itself is printed by the plain command. -/
theorem printsEntry_of_survivor (positive : 0 < numLogEntriesOf size)
    (atIndex : entries[index]? = some entry)
    (survives : index ∈ survivors (numLogEntriesOf size) (entries.map LogEntry.writeData))
    (announced : announcesItself (entries.map LogEntry.writeData) index = true) :
    ∃ line, PrintsEntry localtime size entries {} index entry line := by
  refine ⟨_, atIndex, survives, announced, rfl, ?_⟩
  have visible : ∀ slot, slot ∈ printOrder (numLogEntriesOf size) (regionAfter size entries) ↔
      slot ∈ visibleSlots (numLogEntriesOf size) (entries.map LogEntry.writeData) := by
    intro slot
    rcases printOrder_rotate positive (entries.map LogEntry.writeData) with ⟨-, silent, order⟩ |
      ⟨first, before, after, -, -, heads, order⟩
    · rw [regionAfter, order, silent]
    · rw [regionAfter, order, heads, List.mem_append, List.mem_append, or_comm]
  have accepted : ∀ slot ∈ printOrder (numLogEntriesOf size) (regionAfter size entries),
      stampAccepted localtime (regionAfter size entries) {} slot = true := by
    intro slot member
    obtain ⟨other, kept, rfl⟩ := List.mem_map.mp ((visible slot).mp member)
    have survivesToo := (List.mem_filter.mp kept).1
    have inside := (mem_survivors.mp survivesToo).1
    rw [List.length_map] at inside
    have stamp := timeStampAt_entry positive (List.getElem?_eq_getElem inside) survivesToo
    rw [stampAccepted, stamp, clock.prints _ ⟨entries[other], List.getElem_mem inside, rfl⟩]
    rfl
  have slot : startSlot (numLogEntriesOf size) (entries.map LogEntry.writeData) index ∈
      printOrder (numLogEntriesOf size) (regionAfter size entries) :=
    (visible _).mpr (List.mem_map_of_mem (List.mem_filter.mpr ⟨survives, announced⟩))
  rcases search : firstLogEntry (numLogEntriesOf size) (regionAfter size entries) with _ | first
  · rw [printOrder, search] at slot
    cases slot
  · rw [getLog, search, printEntries_accepted accepted, List.nil_append,
      List.filter_eq_self.mpr fun slot _ => shouldPrintEntry_of_empty rfl rfl slot]
    exact List.mem_map_of_mem slot

/-- The seconds and microseconds of a recorded stamp, by the local clock. -/
theorem secondsOfMinute_eq (recorded : Recorded entries (clockStamp entry.now).sec) :
    (clockStamp entry.now).secondsOfMinute = (clock.timeOfDay (clockStamp entry.now).sec % 60 : Nat) +
      ((entry.now % 1000000 : Nat) : ℚ) / 1000000 := by
  rw [TimeStamp.secondsOfMinute, ← clock.seconds _ recorded, clockStamp_usec, Int.cast_natCast]
  rfl

variable {clock}

omit clock in
theorem PrintsEntry.recorded (prints : PrintsEntry localtime size entries cmd index entry line) :
    Recorded entries (clockStamp entry.now).sec :=
  ⟨entry, List.mem_of_getElem? prints.entry_eq, rfl⟩

/-- Where the times are recovered, the digits printed for an entry denote its microseconds. -/
theorem TimesRecovered.fraction_eq (recovered : TimesRecovered size entries clock)
    (positive : 0 < numLogEntriesOf size) (shown : cmd.showTimeStamp = true)
    (prints : PrintsEntry localtime size entries cmd index entry line) :
    printedFraction (entry.now % 1000000) = (entry.now % 1000000 : Nat) / 1000000 := by
  obtain ⟨time, printed, -, denotes⟩ := recovered.seconds cmd index entry line shown prints
  rw [prints.printedTime_eq clock positive shown, Option.some.injEq] at printed
  rw [← printed, readSeconds_printed (clock.below _ prints.recorded), Option.some.injEq,
    secondsOfMinute_eq clock prints.recorded] at denotes
  exact add_left_cancel denotes

end Printed

/-- **Printed times recover recorded times exactly when no microseconds needed a leading zero**: for
every entry that is still in the ring and announces its slots, the microseconds of its clock reading
are zero or have six digits. -/
theorem timesRecovered_iff {localtime : Int64 → Option (List UInt8)} {size : Nat}
    (positive : 0 < numLogEntriesOf size) {entries : List LogEntry}
    (clock : LocalClock localtime (Recorded entries)) :
    TimesRecovered size entries clock ↔
      ∀ index ∈ survivors (numLogEntriesOf size) (entries.map LogEntry.writeData),
        announcesItself (entries.map LogEntry.writeData) index = true →
        ∀ entry, entries[index]? = some entry →
          entry.now % 1000000 = 0 ∨ 100000 ≤ entry.now % 1000000 := by
  have small : ∀ entry : LogEntry, entry.now % 1000000 < 1000000 := fun entry => Nat.mod_lt _ (by decide)
  constructor
  · intro recovered index survives announced entry atIndex
    obtain ⟨line, prints⟩ := printsEntry_of_survivor clock positive atIndex survives announced
    exact (printedFraction_eq_iff (small entry)).mp (recovered.fraction_eq positive rfl prints)
  · intro padded
    have fraction : ∀ {cmd index entry line}, PrintsEntry localtime size entries cmd index entry line →
        printedFraction (entry.now % 1000000) = (entry.now % 1000000 : Nat) / 1000000 :=
      fun prints => (printedFraction_eq_iff (small _)).mpr
        (padded _ prints.survives prints.announced _ prints.entry_eq)
    refine ⟨fun cmd index entry line shown prints => ?_,
      fun cmd index entry line index' entry' line' shown prints prints' same => ?_⟩
    · have stamped := prints.printedTime_eq clock positive shown
      refine ⟨_, stamped, fun text rendered => PrintedEntry.render_of_printedTime stamped rendered, ?_⟩
      rw [readSeconds_printed (clock.below _ prints.recorded), fraction prints,
        secondsOfMinute_eq clock prints.recorded]
    · refine ⟨_, _, _, _, prints.printedTime_eq clock positive shown,
        prints'.printedTime_eq clock positive shown, readTime_printed (clock.below _ prints.recorded) _,
        readTime_printed (clock.below _ prints'.recorded) _, ?_⟩
      have advance := clock.sameDay _ prints.recorded _ prints'.recorded same
      have := small entry
      have := small entry'
      rw [fraction prints, fraction prints', add_div_million_lt_iff, TimeStamp.gt_iff, clockStamp_usec,
        clockStamp_usec]
      omega

/-- `localtime` and `strftime("%T")` in a zone without an offset. -/
def utcTime (sec : Int64) : Option (List UInt8) := some (clockText (sec.toInt % 86400).toNat)

/-- The clock of that zone. -/
def utcClock (recorded : Int64 → Prop) : LocalClock utcTime recorded where
  day sec := sec.toInt / 86400
  timeOfDay sec := (sec.toInt % 86400).toNat
  below sec _ := by omega
  prints _ _ := rfl
  seconds sec _ := by omega
  sameDay sec _ later _ same := by omega

/-- A short entry at a number of microseconds since the epoch. -/
def entryAt (now : Nat) : LogEntry := ⟨[104], ⟨[87], by decide⟩, ⟨[88], by decide⟩, now⟩

/-- Two entries with six digits of microseconds. -/
theorem timesRecovered_six_digits :
    TimesRecovered 1025 [entryAt 1568309, entryAt 2100000] (utcClock _) := by
  have positive : 0 < numLogEntriesOf 1025 := by decide
  refine (timesRecovered_iff positive (utcClock _)).mpr fun index _ _ entry atIndex => ?_
  have member := List.mem_of_getElem? atIndex
  rw [List.mem_cons, List.mem_singleton] at member
  rcases member with rfl | rfl
  · exact Or.inr (by decide)
  · exact Or.inr (by decide)

/-- Five microseconds after a full second are printed as half a second. -/
theorem not_timesRecovered_of_leading_zeros :
    ¬ TimesRecovered 513 [entryAt 1000005] (utcClock _) := by
  intro recovered
  have positive : 0 < numLogEntriesOf 513 := by decide
  have survives : 0 ∈ survivors (numLogEntriesOf 513) ([entryAt 1000005].map LogEntry.writeData) := by
    decide
  have announced : announcesItself ([entryAt 1000005].map LogEntry.writeData) 0 = true := by decide
  obtain ⟨line, prints⟩ := printsEntry_of_survivor (utcClock _) positive rfl survives announced
  have denotes := recovered.fraction_eq positive rfl prints
  have padded := (printedFraction_eq_iff (show 5 < 1000000 by decide)).mp denotes
  omega

end StatLog.Logger
