/-
**Levels in force under calls.**

Among all calls under the tags of a log stat, the level of a tag for a logger is that of the last
LOG_LEVEL for the two that names one.

* `levelOf`: the level in force, known from the calls alone.
* `callsTo_log`, `levels_eq_levelOf`: the log of the tag, on its own, has it.
* **`holdsLevels_of_calls`**: so has the shared memory, in every run of calls.
-/

import StatLog.Tags.Independence

namespace StatLog.Tags

open ByteMemory Placement RoseTree Stats Transition

variable {Tag Sample : Type}

/-! ### What calls set -/

/-- The level that a call sets for a tag and a logger. -/
def TagCall.setsLevel [DecidableEq Tag] (tag : Tag) (logIdx : Nat) : TagCall Tag Sample → Option LogLevel
  | .logLevel info cmdArg =>
    if info.tagIndex = tag ∧ cmdArg.loggerIdx = logIdx then cmdArg.newLevel? else none
  | _ => none

/-- **The level in force** behind some calls: that of the last one that sets it, INFO at first. -/
def levelOf [DecidableEq Tag] (calls : List (TagCall Tag Sample)) (tag : Tag) (logIdx : Nat) : LogLevel :=
  ((calls.filterMap (TagCall.setsLevel tag logIdx)).getLast?).getD .info

section

variable [DecidableEq Tag]

theorem levelOf_concat (calls : List (TagCall Tag Sample)) (call : TagCall Tag Sample) (tag : Tag)
    (logIdx : Nat) : levelOf (calls ++ [call]) tag logIdx =
      (call.setsLevel tag logIdx).getD (levelOf calls tag logIdx) := by
  unfold levelOf
  rw [List.filterMap_append]
  cases sets : call.setsLevel tag logIdx with
  | none => rw [List.filterMap_cons_none sets, List.filterMap_nil, List.append_nil, Option.getD_none]
  | some level =>
    rw [List.filterMap_cons_some sets, List.filterMap_nil, List.getLast?_concat]
    rfl

/-- What a call is to the log of the tag. -/
def TagCall.logCall? (tag : Tag) : TagCall Tag Sample → Option LogCall
  | .logLevel info cmdArg => if info.tagIndex = tag then some (.logLevel cmdArg) else none
  | .getLog logTag level logIdx => if logTag = tag then some (.getLog level logIdx) else none
  | _ => none

theorem callsTo_log (statTagTree : LabelTree Tag) (tag : Tag) (calls : List (TagCall Tag Sample)) :
    callsTo statTagTree (.log tag) calls = calls.filterMap (TagCall.logCall? tag) := by
  have other : ∀ (owner : Tag) (call : PartCall Sample (.stat owner)),
      eventAt (TagHandle.log tag) ⟨TagHandle.stat owner, call⟩ = none :=
    fun owner call => eventAt_of_ne (fun same => by cases same) call
  unfold callsTo
  refine congrFun (congrArg List.filterMap (funext fun call => ?_)) calls
  cases call with
  | writeStat statTag indices value => exact other statTag _
  | doSerialize statTag =>
    simp only [TagCall.part?]
    split
    · exact other statTag _
    · rfl
  | statCommand info cmd =>
    simp only [TagCall.part?]
    split
    · exact other info.tagIndex _
    · rfl
  | logLevel info cmdArg =>
    by_cases same : info.tagIndex = tag
    · subst same
      exact (eventAt_self _ _).trans (if_pos rfl).symm
    · exact (eventAt_of_ne (fun handles => same (TagHandle.log.inj handles)) _).trans (if_neg same).symm
  | getLog logTag logLevel logIdx =>
    by_cases same : logTag = tag
    · subst same
      exact (eventAt_self _ _).trans (if_pos rfl).symm
    · exact (eventAt_of_ne (fun handles => same (TagHandle.log.inj handles)) _).trans (if_neg same).symm

/-- **The log of a tag on its own has the levels in force.** -/
theorem levels_eq_levelOf {loggers : Nat} {tag : Tag} {calls : List (TagCall Tag Sample)}
    {levels : Nat → LogLevel}
    (runs : run (logPartStep loggers) (fun _ => .info) (calls.filterMap (TagCall.logCall? tag)) =
      some levels) : levels = levelOf calls tag := by
  induction calls using List.reverseRecOn generalizing levels with
  | nil => exact (Option.some.inj runs).symm
  | append_singleton calls call ih =>
    rw [List.filterMap_append, run_append, Option.bind_eq_some_iff] at runs
    obtain ⟨before, earlier, last⟩ := runs
    obtain rfl := ih earlier
    funext logIdx
    rw [levelOf_concat]
    cases seen : call.logCall? tag with
    | none =>
      rw [List.filterMap_cons_none seen] at last
      obtain rfl := Option.some.inj last
      have sets : call.setsLevel tag logIdx = none := by
        cases call with
        | logLevel info cmdArg =>
          simp only [TagCall.logCall?] at seen
          split at seen
          case isTrue => cases seen
          case isFalse differ => exact if_neg fun both => differ both.1
        | _ => rfl
      rw [sets, Option.getD_none]
    | some logCall =>
      rw [List.filterMap_cons_some seen, List.filterMap_nil, run] at last
      obtain ⟨next, taken, done⟩ := Option.bind_eq_some_iff.mp last
      obtain rfl := Option.some.inj done
      cases call with
      | logLevel info cmdArg =>
        simp only [TagCall.logCall?] at seen
        split at seen
        case isFalse => cases seen
        case isTrue same =>
          cases seen
          simp only [logPartStep] at taken
          split at taken
          case isFalse => cases taken
          case isTrue =>
            obtain rfl := Option.some.inj taken
            simp only [TagCall.setsLevel]
            by_cases index : cmdArg.loggerIdx = logIdx
            · rw [if_pos index, if_pos ⟨same, index⟩]
            · rw [if_neg index, if_neg fun both => index both.2]
              rfl
      | getLog logTag logLevel index =>
        simp only [TagCall.logCall?] at seen
        split at seen
        case isFalse => cases seen
        case isTrue =>
          cases seen
          simp only [logPartStep] at taken
          split at taken
          case isFalse => cases taken
          case isTrue => rw [← Option.some.inj taken]; rfl
      | _ => cases seen

/-- **The shared memory has the levels in force**, in every run of calls. -/
theorem holdsLevels_of_calls {name : Tag → List Char} {statTagToType : Tag → StatType Sample}
    {statTagTree logTagTree : LabelTree Tag} {loggers : Nat} (distinct : statTagTree.labels.Nodup)
    (distinct' : logTagTree.labels.Nodup) {mem mem₁ : Mem} {calls : List (TagCall Tag Sample)}
    (compiles : ∀ call ∈ calls, call.Compiles statTagTree logTagTree) {state : OpState Tag Sample}
    (runs : run (callStep name loggers (LogStatBase.init statTagToType true statTagTree logTagTree mem)
        (LogStatBase.init statTagToType false statTagTree logTagTree mem₁))
      (fun _ _ => [], (LogStatBase.init statTagToType true statTagTree logTagTree mem).mem) calls =
        some state) :
    HoldsLevels (LogStatBase.init statTagToType false statTagTree logTagTree mem₁).theLogs state.2
      (levelOf calls) := by
  obtain ⟨succeeds, related⟩ := run_refines_product
    (runs_relate name statTagToType loggers distinct distinct' mem mem₁ compiles)
  have together := Option.isSome_iff_exists.mpr ⟨state, runs⟩
  choose parts parted using fun handle => Option.isSome_iff_exists.mp (succeeds.mp together handle)
  have levels : logParts parts = levelOf calls := by
    funext tag
    have alone : run (logPartStep loggers) (fun _ => .info)
        (callsTo statTagTree (.log tag) calls) = some (logParts parts tag) := parted (.log tag)
    rw [callsTo_log] at alone
    exact levels_eq_levelOf alone
  rw [← levels]
  exact (related state parts runs parted).levels

end

end StatLog.Tags
