/-
**Monitoring does not interfere.**

A control process maps the shared memory of the operational one for reading and writing. Most of its
commands only look; the others write to the tags that they name.

* `TagCall.isQuery`: the calls that only look; `callStep_query`: they change nothing.
* `TagCall.Touches`: the bytes that a call may change; `callStep_untouched`: it changes no others.
* **`monitoring_unobtrusive`**: a run of the whole system may leave its queries out, and every byte and
  every accumulator that it changed belongs to a write, a visit of the serializer, a clear or a new
  level of that tag.
-/

import StatLog.Tags.EndToEnd

namespace StatLog.Tags

open ByteMemory Placement RoseTree Stats Transition

variable {Tag Sample : Type}

/-! ### Queries -/

/-- A call that only looks: a command that is no clear, a LOG_LEVEL that names no level, a `getLog`. -/
def TagCall.isQuery : TagCall Tag Sample → Bool
  | .statCommand _ cmd => cmd ≠ .clearStat
  | .logLevel _ cmdArg => cmdArg.newLevel?.isNone
  | .getLog _ _ _ => true
  | _ => false

def SystemEvent.isQuery : SystemEvent Tag Sample → Bool
  | .call tagCall => tagCall.isQuery
  | .thread _ => false

/-- A node changes the shared memory on a clear only. -/
theorem LogStatNode.doCommand_unchanged {cmd : StatCmd} (other : cmd ≠ .clearStat)
    (node : LogStatNode Tag Sample) (ptr : Nat) (mem : Mem) : (node.doCommand ptr cmd mem).1 = mem := by
  unfold doCommand
  split
  · unfold ControlStatProxy.doCommand
    split
    · exact StatImpl.doStatCommand_unchanged other _ ptr mem {}
    · rfl
  · rfl

/-- **LOG_LEVEL writes the byte of its logger**, or nothing if it names no level. -/
theorem LogControlProxy.doCommand_apply {ptr : Nat} {cmdArg : LogLevelCommand} {mem : Mem}
    {logOutput : String} {result : Mem × String}
    (done : LogControlProxy.doCommand ptr .logLevel cmdArg mem logOutput = some result) :
    result.1 = cmdArg.apply ptr mem := by
  unfold doCommand at done
  rw [if_neg (by decide), if_pos rfl] at done
  split at done
  · unfold LogLevelCommand.apply LogLevelCommand.newLevel?
    split at done
    · rename_i sets
      obtain ⟨previous, -, done⟩ := Option.bind_eq_some_iff.mp done
      obtain ⟨new, -, done⟩ := Option.bind_eq_some_iff.mp done
      cases done
      have found := LogLevel.idxOf?_logLevelNames cmdArg.newLogLevel
      rw [if_pos sets]
      cases index : logLevelNames.idxOf? cmdArg.newLogLevel with
      | none =>
        rw [index] at found
        rw [Option.map_eq_none_iff.mp found.symm]
      | some idx =>
        rw [index] at found
        obtain ⟨level, names, byte⟩ := Option.map_eq_some_iff.mp found.symm
        rw [names]
        show mem.write _ [UInt8.ofNat idx] = mem.write _ [level.toByte]
        rw [byte]
    · rename_i shows
      obtain ⟨level, -, done⟩ := Option.bind_eq_some_iff.mp done
      cases done
      rw [if_neg shows]
  · cases done

section

variable [DecidableEq Tag] {name : Tag → List Char} {loggers : Nat}
  {operational control : LogStat Tag Sample} {state next : OpState Tag Sample}

/-- What LOG_LEVEL does to the node it comes to. -/
theorem exists_of_logLevel {info : TagInfo Tag} {cmdArg : LogLevelCommand}
    (taken : callStep name loggers operational control state (.logLevel info cmdArg) = some next) :
    ∃ placed, getHandle control.theLogs info.tagIndex = some placed ∧
      next = (state.1, cmdArg.apply placed.offset state.2) := by
  obtain ⟨result, sent, rfl⟩ := Option.map_eq_some_iff.mp taken
  obtain ⟨placed, handle, done⟩ := Option.bind_eq_some_iff.mp sent
  refine ⟨placed, handle, Prod.ext rfl ?_⟩
  unfold LogStatNode.doLogCommand at done
  split at done
  · exact LogControlProxy.doCommand_apply done
  · cases done

/-- What a command does to the stat it comes to. -/
theorem exists_of_statCommand {info : TagInfo Tag} {cmd : StatCmd}
    (taken : callStep name loggers operational control state (.statCommand info cmd) = some next) :
    ∃ placed, getHandle control.theStats info.tagIndex = some placed ∧
      next = (state.1, (placed.item.doCommand placed.offset cmd state.2).1) := by
  obtain ⟨result, sent, rfl⟩ := Option.map_eq_some_iff.mp taken
  obtain ⟨placed, handle, done⟩ := Option.bind_eq_some_iff.mp sent
  obtain rfl := Option.some.inj done
  exact ⟨placed, handle, rfl⟩

/-- **A query changes nothing.** -/
theorem callStep_query {tagCall : TagCall Tag Sample} (query : tagCall.isQuery = true)
    (taken : callStep name loggers operational control state tagCall = some next) : next = state := by
  cases tagCall with
  | writeStat statTag indices value => cases query
  | doSerialize statTag => cases query
  | statCommand info cmd =>
    obtain ⟨placed, -, rfl⟩ := exists_of_statCommand taken
    rw [LogStatNode.doCommand_unchanged (of_decide_eq_true query)]
  | logLevel info cmdArg =>
    obtain ⟨placed, -, rfl⟩ := exists_of_logLevel taken
    rw [LogLevelCommand.apply_of_none (Option.isNone_iff_eq_none.mp query)]
  | getLog logTag level logIdx =>
    obtain ⟨proxy, -, rfl⟩ := Option.map_eq_some_iff.mp taken
    rfl

/-! ### What a call may change -/

/-- The address is in the shared memory of the tag. -/
def Owns (nodes : List (PlacedNode Tag Sample)) (tag : Tag) (address : Nat) : Prop :=
  ∃ placed, getHandle nodes tag = some placed ∧ placed.offset ≤ address ∧
    address < placed.offset + placed.item.getSharedSize

/-- **The bytes that a call may change**: those of the stat that is written, serialized or cleared, or
the one byte of a level that is set. -/
def TagCall.Touches (operational control : LogStat Tag Sample) (address : Nat) :
    TagCall Tag Sample → Prop
  | .writeStat statTag _ _ => Owns operational.theStats statTag address
  | .doSerialize statTag => Owns operational.theStats statTag address
  | .statCommand info cmd => cmd = .clearStat ∧ Owns control.theStats info.tagIndex address
  | .logLevel info cmdArg => cmdArg.newLevel?.isSome ∧ ∃ placed,
      getHandle control.theLogs info.tagIndex = some placed ∧
        address = placed.offset + cmdArg.loggerIdx.toNat
  | .getLog _ _ _ => False

/-- A step of a node leaves the bytes outside of its shared memory. -/
theorem eq_of_not_owns {nodes : List (PlacedNode Tag Sample)} {tag : Tag}
    {placed : PlacedNode Tag Sample} (handle : getHandle nodes tag = some placed) {mem mem' : Mem}
    (step : placed.item.Step placed.offset mem mem') {address : Nat} (other : ¬ Owns nodes tag address) :
    mem' address = mem address := by
  apply step.unchangedOutside address
  by_contra inside
  rw [not_or, Nat.not_lt, Nat.not_le] at inside
  exact other ⟨placed, handle, inside⟩

/-- **A call changes no other byte.** -/
theorem callStep_untouched {tagCall : TagCall Tag Sample} {address : Nat}
    (untouched : ¬ tagCall.Touches operational control address)
    (taken : callStep name loggers operational control state tagCall = some next) :
    next.2 address = state.2 address := by
  cases tagCall with
  | writeStat statTag indices value =>
    obtain ⟨placed, handle, written⟩ := Option.bind_eq_some_iff.mp taken
    obtain ⟨result, writes, done⟩ := Option.bind_eq_some_iff.mp written
    obtain rfl := Option.some.inj done
    exact eq_of_not_owns handle (.writeVal writes) untouched
  | doSerialize statTag =>
    obtain ⟨placed, handle, rfl⟩ := Option.map_eq_some_iff.mp taken
    exact eq_of_not_owns handle (.doSerialize (state.1 placed.item.tag)) untouched
  | statCommand info cmd =>
    obtain ⟨placed, handle, rfl⟩ := exists_of_statCommand taken
    by_cases clear : cmd = .clearStat
    · exact eq_of_not_owns handle (.doCommand cmd) fun owns => untouched ⟨clear, owns⟩
    · exact congrFun (LogStatNode.doCommand_unchanged clear _ _ _) address
  | logLevel info cmdArg =>
    obtain ⟨placed, handle, rfl⟩ := exists_of_logLevel taken
    cases sets : cmdArg.newLevel? with
    | none => exact congrFun (LogLevelCommand.apply_of_none sets _ _) address
    | some level =>
      refine LogLevelCommand.apply_of_ne cmdArg state.2 fun same => untouched ⟨?_, placed, handle, same⟩
      rw [sets]
      rfl
  | getLog logTag level logIdx =>
    obtain ⟨proxy, -, rfl⟩ := Option.map_eq_some_iff.mp taken
    rfl

/-- The samples of a stat come from its writes. -/
theorem callStep_accums {tagCall : TagCall Tag Sample} {tag : Tag}
    (unwritten : ∀ indices value, tagCall ≠ .writeStat tag indices value)
    (taken : callStep name loggers operational control state tagCall = some next) :
    next.1 tag = state.1 tag := by
  cases tagCall with
  | writeStat statTag indices value =>
    obtain ⟨placed, handle, written⟩ := Option.bind_eq_some_iff.mp taken
    obtain ⟨result, writes, done⟩ := Option.bind_eq_some_iff.mp written
    obtain rfl := Option.some.inj done
    refine if_neg ?_
    rintro rfl
    exact unwritten indices value rfl
  | doSerialize statTag =>
    obtain ⟨placed, -, rfl⟩ := Option.map_eq_some_iff.mp taken
    rfl
  | statCommand info cmd =>
    obtain ⟨placed, -, rfl⟩ := exists_of_statCommand taken
    rfl
  | logLevel info cmdArg =>
    obtain ⟨placed, -, rfl⟩ := exists_of_logLevel taken
    rfl
  | getLog logTag level logIdx =>
    obtain ⟨proxy, -, rfl⟩ := Option.map_eq_some_iff.mp taken
    rfl

end

/-! ### Whole runs -/

/-- **Monitoring does not interfere.** Main thread, serializer thread, other threads and control processes
take their steps in any order. The same steps without all queries (dumps, types, tags, levels shown,
`getLog`) lead to the same process. A byte of the shared memory changes only if the run writes, serializes
or clears the stat that owns it, or sets the level that it is; samples change only where they are
written. -/
theorem monitoring_unobtrusive [DecidableEq Tag] (name : Tag → List Char)
    (statTagToType : Tag → StatType Sample) (statTagTree logTagTree : LabelTree Tag) (loggers : Nat)
    (distinct : statTagTree.labels.Nodup) (mem : Mem) {operational control : LogStat Tag Sample}
    (begins : operational = LogStatBase.init statTagToType true statTagTree logTagTree mem)
    {events : List (SystemEvent Tag Sample)} {final : Serializer.Process Tag Sample}
    (runs : run (systemStep name statTagToType statTagTree logTagTree loggers operational control)
      (systemStart statTagToType statTagTree logTagTree mem) events = some final) :
    run (systemStep name statTagToType statTagTree logTagTree loggers operational control)
        (systemStart statTagToType statTagTree logTagTree mem)
        (events.filter fun event => !event.isQuery) = some final ∧
      (∀ address, final.mem address ≠ operational.mem address →
        ∃ tagCall ∈ systemCalls name statTagToType statTagTree logTagTree loggers operational control
          (systemStart statTagToType statTagTree logTagTree mem) events,
          tagCall.Touches operational control address) ∧
      ∀ tag, final.accums tag ≠ (fun _ => []) →
        ∃ indices value, .writeStat tag indices value ∈ events.filterMap SystemEvent.call? := by
  subst begins
  have started := started_init statTagToType statTagTree logTagTree mem
  have single : ((LogStatBase.init statTagToType true statTagTree logTagTree mem).theStats.map
      fun placed => placed.item.tag).Nodup := by
    rw [LogStatBase.map_tag_theStats]
    exact List.nodup_reverse.mpr distinct
  have called := run_systemCalls single started runs
  refine ⟨run_erase _ ?_ runs, fun address changed => ?_, fun tag changed => ?_⟩
  · intro process event next query taken
    cases event with
    | thread event => cases query
    | call tagCall =>
      obtain ⟨result, step, rfl⟩ := Option.map_eq_some_iff.mp taken
      rw [callStep_query query step]
  · exact exists_of_run_ne _ (fun state => state.2 address) _
      (fun state tagCall next untouched taken => callStep_untouched untouched taken) called changed
  · obtain ⟨tagCall, among, indices, value, rfl⟩ := exists_of_run_ne _ (fun state => state.1 tag)
      (fun tagCall => ∃ indices value, tagCall = .writeStat tag indices value)
      (fun state tagCall next unwritten taken => callStep_accums
        (fun indices value same => unwritten ⟨indices, value, same⟩) taken) called changed
    rcases mem_systemCalls single started runs among with ⟨placed, -, visit⟩ | own
    · cases visit
    · exact ⟨indices, value, own⟩

/-- Writes and a clear, watched by a dump and a `getLog`. -/
def watchedWrites : List (SystemEvent Nat Nat) :=
  .call (.statCommand ⟨['c'], 2, 1⟩ .dumpStat) :: accumWrites ++ [.call (.getLog 0 .info 0)]

theorem monitoring_unobtrusive_watched : ∃ final,
    run (systemStep nestedName nestedType nestedTree (.leaf 0) 3 mixedOperational mixedControl)
        (systemStart nestedType nestedTree (.leaf 0) fun _ => 9) watchedWrites = some final ∧
      run (systemStep nestedName nestedType nestedTree (.leaf 0) 3 mixedOperational mixedControl)
        (systemStart nestedType nestedTree (.leaf 0) fun _ => 9) accumWrites = some final := by
  have ends : (run (systemStep nestedName nestedType nestedTree (.leaf 0) 3 mixedOperational
      mixedControl) (systemStart nestedType nestedTree (.leaf 0) fun _ => 9) watchedWrites).isSome := rfl
  obtain ⟨final, runs⟩ := Option.isSome_iff_exists.mp ends
  have same := monitoring_unobtrusive nestedName nestedType nestedTree (.leaf 0) 3 (by decide)
    (fun _ => 9) rfl runs
  exact ⟨final, runs, same.1⟩

end StatLog.Tags
