/-
**The guards of logger indices.**

An index of a logger goes into `loggers[...]`, a vector that grows with `addLogger`, and into the
four levels of a tag, which stand in shared memory next to those of other tags. Each way there has
its own guards.

* `addLogger`, `registered`: the loggers after any calls of `addLogger`.
* `IndexUse.accesses`: the elements a call goes to, if the guards on its way let the index pass.
* `IndexUse.Covered`: the indices on which the guards do their work.
* **`guardsProtect_iff`**: the accesses are in bounds, and no other tag's levels are touched, exactly
  on these. The assertions of `getLog` let the index behind the last one pass, and the guards on
  `int` indices every negative one.
* `LogControlProxy.accepts_of_doCommand`, `LogStatOperational.getLog_accesses_of_some`: where a command
  or a `getLog` of a run does anything, the guards let the index pass and the accesses are in bounds.
-/

import StatLog.Tags.LogLevel

namespace StatLog.Tags

open ByteMemory Placement RoseTree Stats

variable {Tag Sample Logger : Type}

/-! ### Loggers -/

/-- **`addLogger`**: the loggers and the index it returns. -/
def addLogger (loggers : List Logger) (logger : Logger) : List Logger × Nat :=
  (loggers ++ [logger], (loggers ++ [logger]).length - 1)

/-- The loggers after calls of `addLogger`. -/
def registered (calls : List Logger) : List Logger :=
  calls.foldl (fun loggers logger => (addLogger loggers logger).1) []

theorem length_registered (calls : List Logger) : (registered calls).length = calls.length := by
  have grows : ∀ loggers : List Logger, (calls.foldl (fun loggers logger => (addLogger loggers logger).1)
      loggers).length = loggers.length + calls.length := by
    induction calls with
    | nil => exact fun _ => rfl
    | cons logger calls ih =>
      intro loggers
      rw [List.foldl_cons, ih, addLogger, List.length_append, List.length_singleton, List.length_cons,
        Nat.add_assoc, Nat.add_comm 1]
  rw [registered, grows, List.length_nil, Nat.zero_add]

/-! ### Guards and accesses -/

/-- The assertion of `LogStatOperational::getLog`. -/
def LogStatOperational.assertLogIdx (loggers : List Logger) (logIdx : Nat) : Bool :=
  logIdx ≤ loggers.length

/-- The assertion of `LogOpProxy::getLevel`. -/
def LogOpProxy.assertLogIdx (logIdx : Int) : Bool := logIdx ≤ intOfSize sizeofLogControlStorage

/-- `LogControlProxy::doCommand` does not exit. -/
def LogControlProxy.accepts (logIdx : Int) : Bool := !(logIdx ≥ intOfSize sizeofLogControlStorage)

/-- `outputLog` does not exit before it comes to the logger. -/
def LogStatControl.accepts (loggers : List Logger) (loggerIdx : Int) : Bool :=
  !(loggerIdx ≥ intOfSize loggers.length)

/-- `(*shared_ptr)[index]` or `loggers[index]`. -/
inductive Access
  | level (index : Int)
  | logger (index : Int)
  deriving DecidableEq

def Access.InBounds (loggers : List Logger) : Access → Prop
  | .level index => 0 ≤ index ∧ index < sizeofLogControlStorage
  | .logger index => 0 ≤ index ∧ index < loggers.length

/-- A call with an index of a logger: `getLog` with a `size_t`, the others with an `int`. -/
inductive IndexUse
  | getLog (logIdx : Nat)
  | logLevel (loggerIdx : Int)
  | outputLog (loggerIdx : Int)

namespace IndexUse

/-- **The accesses of a call**, once the guards on its way have let the index pass. -/
def accesses (loggers : List Logger) : IndexUse → Option (List Access)
  | .getLog logIdx =>
    if LogStatOperational.assertLogIdx loggers logIdx then
      -- `getLevel` takes an `int`
      if LogOpProxy.assertLogIdx (intOfSize logIdx) then
        some [.level (intOfSize logIdx), .logger logIdx]
      else none
    else none
  | .logLevel loggerIdx =>
    if LogControlProxy.accepts loggerIdx then some [.level loggerIdx] else none
  | .outputLog loggerIdx =>
    if LogStatControl.accepts loggers loggerIdx then some [.logger loggerIdx] else none

/-- **The indices on which the guards do their work.** -/
def Covered (loggers : Nat) : IndexUse → Prop
  | .getLog logIdx => logIdx ≤ loggers → intOfSize logIdx ≤ 4 →
    logIdx ≠ loggers ∧ intOfSize logIdx ≠ 4 ∧ 0 ≤ intOfSize logIdx
  | .logLevel loggerIdx => 0 ≤ loggerIdx
  | .outputLog loggerIdx => loggerIdx < intOfSize loggers → 0 ≤ loggerIdx

/-- Every access that the guards let through is in bounds. -/
def StaysInBounds (loggers : List Logger) (use : IndexUse) : Prop :=
  ∀ accesses, use.accesses loggers = some accesses → ∀ access ∈ accesses, access.InBounds loggers

theorem intOfSize_levels : intOfSize sizeofLogControlStorage = 4 := by decide

theorem staysInBounds_of_rejected {loggers : List Logger} {use : IndexUse}
    (rejected : use.accesses loggers = none) : use.StaysInBounds loggers := by
  intro accesses accepted
  rw [rejected] at accepted
  cases accepted

theorem staysInBounds_of_accepted {loggers : List Logger} {use : IndexUse} {accesses : List Access}
    (accepted : use.accesses loggers = some accesses) :
    use.StaysInBounds loggers ↔ ∀ access ∈ accesses, access.InBounds loggers := by
  refine ⟨fun stays => stays accesses accepted, fun inside accesses' accepted' => ?_⟩
  rw [accepted] at accepted'
  exact Option.some.inj accepted' ▸ inside

/-- **The accesses stay in bounds exactly on the indices covered.** -/
theorem staysInBounds_iff (loggers : List Logger) (use : IndexUse) :
    use.StaysInBounds loggers ↔ use.Covered loggers.length := by
  have storage : (sizeofLogControlStorage : Int) = 4 := rfl
  cases use with
  | getLog logIdx =>
    by_cases asserted : logIdx ≤ loggers.length ∧ intOfSize logIdx ≤ 4
    · have accepted : (getLog logIdx).accesses loggers =
          some [.level (intOfSize logIdx), .logger logIdx] := by
        rw [accesses, LogStatOperational.assertLogIdx, LogOpProxy.assertLogIdx, intOfSize_levels,
          if_pos (decide_eq_true asserted.1), if_pos (decide_eq_true asserted.2)]
      rw [staysInBounds_of_accepted accepted, List.forall_mem_cons, List.forall_mem_singleton,
        Access.InBounds, Access.InBounds, Covered]
      omega
    · have rejected : (getLog logIdx).accesses loggers = none := by
        rw [accesses, LogStatOperational.assertLogIdx, LogOpProxy.assertLogIdx, intOfSize_levels]
        by_cases first : logIdx ≤ loggers.length
        · have second : ¬ intOfSize logIdx ≤ 4 := fun second => asserted ⟨first, second⟩
          rw [if_pos (decide_eq_true first), if_neg (by simpa using second)]
        · rw [if_neg (by simpa using first)]
      refine iff_of_true (staysInBounds_of_rejected rejected) fun first second => ?_
      exact absurd ⟨first, second⟩ asserted
  | logLevel loggerIdx =>
    by_cases exits : loggerIdx ≥ 4
    · have rejected : (logLevel loggerIdx).accesses loggers = none := by
        simp [accesses, LogControlProxy.accepts, intOfSize_levels, exits]
      exact iff_of_true (staysInBounds_of_rejected rejected) (by unfold Covered; omega)
    · have accepted : (logLevel loggerIdx).accesses loggers = some [.level loggerIdx] := by
        simp [accesses, LogControlProxy.accepts, intOfSize_levels, exits]
      rw [staysInBounds_of_accepted accepted, List.forall_mem_singleton, Access.InBounds, Covered]
      omega
  | outputLog loggerIdx =>
    have size := intOfSize_le loggers.length
    by_cases exits : loggerIdx ≥ intOfSize loggers.length
    · have rejected : (outputLog loggerIdx).accesses loggers = none := by
        simp [accesses, LogStatControl.accepts, exits]
      exact iff_of_true (staysInBounds_of_rejected rejected) (by unfold Covered; omega)
    · have accepted : (outputLog loggerIdx).accesses loggers = some [.logger loggerIdx] := by
        simp [accesses, LogStatControl.accepts, exits]
      rw [staysInBounds_of_accepted accepted, List.forall_mem_singleton, Access.InBounds, Covered]
      omega

end IndexUse

/-! ### Where a command or a call does anything -/

/-- A LOG_LEVEL command that does not exit has an index that the guard lets pass, and its access is
in bounds. -/
theorem LogControlProxy.accepts_of_doCommand {ptr : Nat} {cmdArg : LogLevelCommand} {mem : Mem}
    {logOutput : String} {result : Mem × String}
    (done : LogControlProxy.doCommand ptr .logLevel cmdArg mem logOutput = some result)
    (loggers : List Logger) :
    (IndexUse.logLevel cmdArg.loggerIdx).accesses loggers = some [.level cmdArg.loggerIdx] ∧
      (IndexUse.logLevel cmdArg.loggerIdx).StaysInBounds loggers := by
  have inside : 0 ≤ cmdArg.loggerIdx ∧ cmdArg.loggerIdx < sizeofLogControlStorage := by
    by_contra outside
    unfold doCommand at done
    rw [if_neg (by decide), if_pos rfl, if_neg outside] at done
    cases done
  refine ⟨?_, (IndexUse.staysInBounds_iff loggers _).2 inside.1⟩
  have below : cmdArg.loggerIdx < 4 := inside.2
  rw [IndexUse.accesses, accepts, IndexUse.intOfSize_levels, if_pos (by simpa using below)]

/-- A `getLog` that has a level and a logger passes both assertions, and its accesses are in bounds. -/
theorem LogStatOperational.getLog_accesses_of_some [DecidableEq Tag] {name : Tag → List Char}
    {theLogs : List (PlacedNode Tag Sample)} {loggers : List Logger} {mem : Mem} {logTag : Tag}
    {logLevel : LogLevel} {logIdx : Nat} {proxy : LogGenProxy}
    (found : getLog name theLogs loggers.length mem logTag logLevel logIdx = some proxy) :
    (IndexUse.getLog logIdx).accesses loggers = some [.level logIdx, .logger logIdx] ∧
      (IndexUse.getLog logIdx).StaysInBounds loggers := by
  obtain ⟨below, registered⟩ : logIdx < 4 ∧ logIdx < loggers.length := by
    unfold getLog at found
    obtain ⟨placed, -, found⟩ := Option.bind_eq_some_iff.1 found
    obtain ⟨level, stored, found⟩ := Option.bind_eq_some_iff.1 found
    constructor
    · unfold LogStatNode.getLevel LogOpProxy.getLevel at stored
      split at stored
      · split at stored
        case isTrue below => exact below
        case isFalse => cases stored
      · cases stored
    · by_contra outside
      rw [if_neg outside] at found
      cases found
  have same : intOfSize logIdx = logIdx := intOfSize_of_lt (by omega)
  constructor
  · rw [IndexUse.accesses, assertLogIdx, LogOpProxy.assertLogIdx, IndexUse.intOfSize_levels, same,
      if_pos (decide_eq_true registered.le), if_pos (decide_eq_true (by omega))]
  · rw [IndexUse.staysInBounds_iff, IndexUse.Covered]
    omega

/-! ### The levels of other tags -/

/-- **The guards protect both containers**: every access they let through is in bounds, and a level
that is reached from a tag does not belong to another one. -/
structure GuardsProtect (loggers : List Logger) (theLogs : List (PlacedNode Tag Sample))
    (use : IndexUse) : Prop where
  inBounds : use.StaysInBounds loggers
  ownLevel : ∀ accesses, use.accesses loggers = some accesses → ∀ index, .level index ∈ accesses →
    ∀ placed ∈ theLogs, ∀ other ∈ theLogs, other.item.tag ≠ placed.item.tag →
      ¬ ((other.offset : Int) ≤ placed.offset + index ∧
        placed.offset + index < other.offset + sizeofLogControlStorage)

/-- **The guards protect both containers exactly on the indices covered**: for any trees and any
calls of `addLogger`. -/
theorem guardsProtect_iff (statTagToType : Tag → StatType Sample) (isOperational : Bool)
    (statTagTree logTagTree : LabelTree Tag) (mem : Mem) (calls : List Logger) (use : IndexUse) :
    GuardsProtect (registered calls)
        (LogStatBase.init statTagToType isOperational statTagTree logTagTree mem).theLogs use ↔
      use.Covered calls.length := by
  rw [← length_registered, ← IndexUse.staysInBounds_iff]
  refine ⟨GuardsProtect.inBounds, fun inBounds => ⟨inBounds, ?_⟩⟩
  intro accesses accepted index level placed member other member' differ
  have within := inBounds accesses accepted _ level
  have apart := LogStatBase.nodes_apart statTagToType statTagTree logTagTree isOperational mem
    (List.mem_append_right _ member') (List.mem_append_right _ member) (by rintro rfl; exact differ rfl)
  rw [getSharedSize_theLogs member, getSharedSize_theLogs member'] at apart
  simp only [Access.InBounds] at within
  omega

/-- With one logger, `getLog` asserts that index one is allowed and goes to `loggers[1]`. -/
theorem not_guardsProtect_of_one_logger :
    ¬ GuardsProtect (registered [()])
      (LogStatBase.init (fun _ : Bool => .element .nullStat) true (.parent false [.leaf true])
        (.parent false [.leaf true]) (fun _ => 0) : LogStat Bool Unit).theLogs (.getLog 1) := by
  intro protects
  have inBounds := protects.inBounds [.level 1, .logger 1] (by decide) (.logger 1) (by decide)
  exact absurd inBounds.2 (by decide)

end StatLog.Tags
