/-
**Independent tags.**

All tags of a log stat share one memory, and any number of threads and processes call under any of them
in any order. Each stat and each log takes part in its own calls only: it behaves as if it were the only
one, in a memory of its own.

* `Part`, `partStep`: a stat or a log on its own.
* `TagCall.part?`: the stat or log that a call is to, and what it is there.
* `SharedBy`: the shared memory holds what the parts hold on their own, with one lemma for a step of a
  stat and one for a step of a log.
* **`run_independent`**: any calls run to their end exactly if each part takes its own ones, and then
  every dump, every `getLog` and every shown level is that of the part.
-/

import StatLog.Lib.Product
import StatLog.Tags.TagCalls

namespace StatLog.Tags

open ByteMemory Placement RoseTree Stats Transition

variable {Tag Sample : Type}

/-! ### Parts -/

/-- What a call is to a log on its own. -/
inductive LogCall
  | logLevel (cmdArg : LogLevelCommand)
  | getLog (logLevel : LogLevel) (logIdx : Nat)

/-- A stat has accumulators and a memory, a log its levels. -/
abbrev Part (Sample : Type) : TagHandle Tag → Type
  | .stat _ => StatState Sample
  | .log _ => Nat → LogLevel

abbrev PartCall (Sample : Type) : TagHandle Tag → Type
  | .stat _ => StatCall Sample
  | .log _ => LogCall

/-- A stat without samples in a memory of zeros, and a log at INFO. -/
def Part.initial : (handle : TagHandle Tag) → Part Sample handle
  | .stat _ => StatState.initial fun _ => 0
  | .log _ => fun _ => .info

/-- The stats among the parts. -/
def statParts (parts : ∀ handle : TagHandle Tag, Part Sample handle) (tag : Tag) : StatState Sample :=
  parts (.stat tag)

/-- The levels of the logs among them. -/
def logParts (parts : ∀ handle : TagHandle Tag, Part Sample handle) (tag : Tag) : Nat → LogLevel :=
  parts (.log tag)

/-- One call of a log on its own. -/
def logPartStep (loggers : Nat) (levels : Nat → LogLevel) : LogCall → Option (Nat → LogLevel)
  | .logLevel cmdArg =>
    if 0 ≤ cmdArg.loggerIdx ∧ cmdArg.loggerIdx < sizeofLogControlStorage then
      some fun logIdx =>
        if cmdArg.loggerIdx = logIdx then cmdArg.newLevel?.getD (levels logIdx) else levels logIdx
    else none
  | .getLog _ logIdx =>
    if logIdx < sizeofLogControlStorage ∧ logIdx < loggers then some levels else none

section

variable [DecidableEq Tag]

/-- The address of the tag's node. -/
def offsetOf (nodes : List (PlacedNode Tag Sample)) (tag : Tag) : Nat :=
  ((getHandle nodes tag).map Placed.offset).getD 0

/-- **One call of a part on its own**; a stat keeps the address it has in the log stat. -/
def partStep (statTagToType : Tag → StatType Sample) (theStats : List (PlacedNode Tag Sample))
    (loggers : Nat) : (handle : TagHandle Tag) → Part Sample handle → PartCall Sample handle →
      Option (Part Sample handle)
  | .stat tag => (statTagToType tag).step (offsetOf theStats tag)
  | .log _ => logPartStep loggers

/-- **The part that a call is to**; there is none for the parents of the stat tree. -/
def TagCall.part? (statTagTree : LabelTree Tag) :
    TagCall Tag Sample → Option (Σ handle : TagHandle Tag, PartCall Sample handle)
  | .writeStat statTag indices value => some ⟨.stat statTag, StatCall.write indices value⟩
  | .doSerialize statTag =>
    if statTag ∈ statTagTree.leavesBelow then some ⟨.stat statTag, StatCall.serialize⟩ else none
  | .statCommand info cmd =>
    if info.tagIndex ∈ statTagTree.leavesBelow then some ⟨.stat info.tagIndex, StatCall.command cmd⟩
    else none
  | .logLevel info cmdArg => some ⟨.log info.tagIndex, LogCall.logLevel cmdArg⟩
  | .getLog logTag level logIdx => some ⟨.log logTag, LogCall.getLog level logIdx⟩

/-- The calls of a history that are to one part. -/
def callsTo (statTagTree : LabelTree Tag) (handle : TagHandle Tag) (history : List (TagCall Tag Sample)) :
    List (PartCall Sample handle) :=
  history.filterMap fun call => (call.part? statTagTree).bind (eventAt handle)

end

/-- **What is shown of a log stat**: of each stat and each log, what it shows on its own. -/
structure ShowsParts [DecidableEq Tag] (name : Tag → List Char)
    (statTagToType : Tag → StatType Sample) (statTagTree logTagTree : LabelTree Tag) (loggers : Nat)
    (operational control : LogStat Tag Sample) (mem : Mem)
    (parts : ∀ handle : TagHandle Tag, Part Sample handle) : Prop where
  dump : ∀ tag ∈ statTagTree.leavesBelow, LogStatControl.dumpStat control.theStats mem tag =
    some ((statTagToType tag).dump (offsetOf control.theStats tag) (statParts parts tag))
  getLog : ∀ tag ∈ logTagTree.labels, ∀ logIdx < sizeofLogControlStorage, logIdx < loggers →
    ∀ logLevel, LogStatOperational.getLog name operational.theLogs loggers mem tag logLevel logIdx =
      some {
        loggerIdx := logIdx
        enabled := (logParts parts tag logIdx).toByte ≤ logLevel.toByte
        tagName := name tag
        logLevelName := logLevel.levelName }
  /-- What LOG_LEVEL shows of a tag and a logger. -/
  shownLevel : ∀ info : TagInfo Tag, info.tagIndex ∈ logTagTree.labels →
    ∀ logIdx < sizeofLogControlStorage,
      LogStatControl.sendLogCommand control.theLogs ⟨false, (logIdx : Nat), ""⟩ mem
          (info, .logLevel) =
        some (mem, "log level = " ++ (logParts parts info.tagIndex logIdx).levelName)

/-! ### The shared memory -/

/-- **A log stat whose nodes are apart**, stats from logs as well. -/
structure TagsApart (statTagToType : Tag → StatType Sample) (statTagTree : LabelTree Tag)
    (control : LogStat Tag Sample) : Prop where
  stats : ∀ placed ∈ control.theStats, placed.item.tag ∈ statTagTree.leavesBelow →
    placed.item.getSharedSize = (statTagToType placed.item.tag).sharedSize
  single : (control.theStats.map fun placed => placed.item.tag).Nodup
  logs : ControlLogs control.theLogs
  apart : ∀ first ∈ control.nodes, ∀ second ∈ control.nodes, first ≠ second →
    first.offset + first.item.getSharedSize ≤ second.offset ∨
      second.offset + second.item.getSharedSize ≤ first.offset
  /-- A leaf of the stat tree is none of the logs. -/
  differ : ∀ placed ∈ control.theStats, ∀ other ∈ control.theLogs, placed ≠ other
  logSize : ∀ placed ∈ control.theLogs, placed.item.getSharedSize = sizeofLogControlStorage

/-- **Accumulators and shared memory hold what the parts hold.** -/
structure SharedBy (statTagToType : Tag → StatType Sample) (statTagTree : LabelTree Tag)
    (control : LogStat Tag Sample) (state : OpState Tag Sample)
    (parts : ∀ handle : TagHandle Tag, Part Sample handle) : Prop where
  stats : ∀ placed ∈ control.theStats, placed.item.tag ∈ statTagTree.leavesBelow →
    (statTagToType placed.item.tag).SameStat placed.offset (statOf placed.item.tag state)
      (statParts parts placed.item.tag)
  levels : HoldsLevels control.theLogs state.2 (logParts parts)

section

variable [DecidableEq Tag] {statTagToType : Tag → StatType Sample} {statTagTree : LabelTree Tag}
  {control : LogStat Tag Sample} {state : OpState Tag Sample}
  {parts : ∀ handle : TagHandle Tag, Part Sample handle}

@[simp] theorem statParts_update_self (tag : Tag) (next : Part Sample (.stat tag)) :
    statParts (Function.update parts (.stat tag) next) tag = next :=
  Function.update_self (TagHandle.stat tag) next parts

theorem statParts_update_of_ne {tag other : Tag} (differ : other ≠ tag) (next : Part Sample (.stat tag)) :
    statParts (Function.update parts (.stat tag) next) other = statParts parts other :=
  Function.update_of_ne (fun handles => differ (TagHandle.stat.inj handles)) next parts

@[simp] theorem statParts_update_log (tag other : Tag) (next : Part Sample (.log tag)) :
    statParts (Function.update parts (.log tag) next) other = statParts parts other :=
  Function.update_of_ne (fun handles => by cases handles) next parts

@[simp] theorem logParts_update_stat (tag : Tag) (next : Part Sample (.stat tag)) :
    logParts (Function.update parts (.stat tag) next) = logParts parts := by
  funext other
  exact Function.update_of_ne (fun handles => by cases handles) next parts

theorem logParts_update_log (tag : Tag) (next : Part Sample (.log tag)) :
    logParts (Function.update parts (.log tag) next) = Function.update (logParts parts) tag next := by
  funext other
  by_cases same : other = tag
  · subst same
    rw [Function.update_self]
    exact Function.update_self (TagHandle.log other) next parts
  · rw [Function.update_of_ne same]
    exact Function.update_of_ne (fun handles => same (TagHandle.log.inj handles)) next parts

/-- **A step of one stat** keeps all other parts. -/
theorem SharedBy.stat (known : TagsApart statTagToType statTagTree control)
    (shared : SharedBy statTagToType statTagTree control state parts)
    {placed : PlacedNode Tag Sample} (member : placed ∈ control.theStats)
    (leaf : placed.item.tag ∈ statTagTree.leavesBelow) {next nextPart : StatState Sample}
    (frame : UnchangedOutside placed.offset (statTagToType placed.item.tag).sharedSize state.2 next.mem)
    (same : (statTagToType placed.item.tag).SameStat placed.offset next nextPart) :
    SharedBy statTagToType statTagTree control (withStat placed.item.tag state next)
      (Function.update parts (.stat placed.item.tag) nextPart) where
  stats other member' leaf' := by
    by_cases equal : other = placed
    · subst equal
      rw [statOf_withStat, statParts_update_self]
      exact same
    · have tags : other.item.tag ≠ placed.item.tag := fun tags =>
        equal (List.inj_on_of_nodup_map known.single member' member tags)
      have apart := known.apart other (List.mem_append_left _ member') placed
        (List.mem_append_left _ member) equal
      rw [known.stats other member' leaf', known.stats placed member leaf] at apart
      have accums : (withStat placed.item.tag state next).1 other.item.tag = state.1 other.item.tag :=
        if_neg tags
      have kept := (shared.stats other member' leaf').of_unchangedOutside frame apart
      rw [statParts_update_of_ne tags]
      unfold statOf at kept ⊢
      rw [accums]
      exact kept
  levels other member' logIdx inside := by
    have apart := known.apart placed (List.mem_append_left _ member) other
      (List.mem_append_right _ member') (known.differ placed member other member')
    rw [known.stats placed member leaf, known.logSize other member'] at apart
    rw [logParts_update_stat]
    show next.mem (other.offset + logIdx) = _
    rw [frame (other.offset + logIdx) (by omega)]
    exact shared.levels other member' logIdx inside

theorem setLevels_own (cmdArg : LogLevelCommand) (tag : Tag) (levels : Tag → Nat → LogLevel) :
    setLevels cmdArg [tag] levels tag = fun logIdx : Nat =>
      if cmdArg.loggerIdx = logIdx then cmdArg.newLevel?.getD (levels tag logIdx)
      else levels tag logIdx := by
  funext logIdx
  unfold setLevels
  simp only [List.mem_singleton, true_and]

/-- **A step of one log** keeps all other parts. -/
theorem SharedBy.log (known : TagsApart statTagToType statTagTree control)
    (shared : SharedBy statTagToType statTagTree control state parts)
    {placed : PlacedNode Tag Sample} (member : placed ∈ control.theLogs) {cmdArg : LogLevelCommand}
    (inside : 0 ≤ cmdArg.loggerIdx ∧ cmdArg.loggerIdx < sizeofLogControlStorage) :
    SharedBy statTagToType statTagTree control (state.1, cmdArg.apply placed.offset state.2)
      (Function.update parts (.log placed.item.tag)
        (setLevels cmdArg [placed.item.tag] (logParts parts) placed.item.tag)) where
  stats other member' leaf' := by
    have apart := known.apart other (List.mem_append_left _ member') placed
      (List.mem_append_right _ member) (known.differ other member' placed member)
    rw [known.stats other member' leaf', known.logSize placed member] at apart
    rw [statParts_update_log]
    have kept : UnchangedOutside placed.offset sizeofLogControlStorage state.2
        (cmdArg.apply placed.offset state.2) := by
      intro address outside
      exact cmdArg.apply_of_ne state.2 (by omega)
    exact (shared.stats other member' leaf').of_unchangedOutside kept apart
  levels := by
    have stored := holdsLevels_apply known.logs inside.1 inside.2 shared.levels member
    intro other member' logIdx below
    rw [logParts_update_log]
    refine (stored other member' logIdx below).trans ?_
    by_cases equal : other.item.tag = placed.item.tag
    · rw [equal, Function.update_self]
    · rw [Function.update_of_ne equal]
      exact congrArg LogLevel.toByte (if_neg fun both => equal (List.mem_singleton.mp both.1))

end

/-! ### One call -/

section

variable [DecidableEq Tag] {name : Tag → List Char} {loggers : Nat}
  {statTagToType : Tag → StatType Sample} {statTagTree logTagTree : LabelTree Tag} {mem₀ mem₁ : Mem}
  {state : OpState Tag Sample} {parts : ∀ handle : TagHandle Tag, Part Sample handle}

theorem tagsApart_init (distinct : statTagTree.labels.Nodup) (distinct' : logTagTree.labels.Nodup)
    (mem : Mem) : TagsApart statTagToType statTagTree
      (LogStatBase.init statTagToType false statTagTree logTagTree mem) where
  stats placed member leaf := by
    have nodeClass := nodeClass_theStats_leaf distinct member
    rw [if_pos leaf] at nodeClass
    unfold LogStatNode.getSharedSize
    rw [nodeClass]
    rfl
  single := (controlStats_init statTagToType logTagTree distinct mem).single
  logs := controlLogs_init distinct' mem
  apart first member second member' differ :=
    LogStatBase.nodes_apart statTagToType statTagTree logTagTree false mem member member' differ
  differ placed member other member' := by
    rintro rfl
    have logger := nodeClass_theLogs member'
    rcases nodeClass_theStats member with parent | stat
    · rw [parent] at logger
      cases logger
    · rw [stat] at logger
      cases logger
  logSize placed member := getSharedSize_theLogs member

/-- The node of a tag in the list of the control process. -/
theorem exists_controlNode (statTagToType : Tag → StatType Sample) (logTagTree : LabelTree Tag)
    (mem₁ : Mem) (distinct : statTagTree.labels.Nodup) {tag : Tag} (known : tag ∈ statTagTree.labels) :
    ∃ placed ∈ (LogStatBase.init statTagToType false statTagTree logTagTree mem₁).theStats,
      placed.item.tag = tag ∧
        getHandle (LogStatBase.init statTagToType false statTagTree logTagTree mem₁).theStats tag =
          some placed ∧
        offsetOf (LogStatBase.init statTagToType false statTagTree logTagTree mem₁).theStats tag =
          placed.offset := by
  have tags := LogStatBase.map_tag_theStats statTagToType statTagTree logTagTree false mem₁
  obtain ⟨placed, member, same, handle⟩ := exists_getHandle tags distinct known
  refine ⟨placed, member, same, handle, ?_⟩
  unfold offsetOf
  rw [handle]
  rfl

/-- The operational process finds a node of the same tag at the same address. -/
theorem exists_operationalNode (distinct : statTagTree.labels.Nodup) (mem₀ : Mem)
    {other : PlacedNode Tag Sample}
    (member : other ∈ (LogStatBase.init statTagToType false statTagTree logTagTree mem₁).theStats) :
    ∃ placed ∈ (LogStatBase.init statTagToType true statTagTree logTagTree mem₀).theStats,
      placed.item.tag = other.item.tag ∧ placed.offset = other.offset ∧
        getHandle (LogStatBase.init statTagToType true statTagTree logTagTree mem₀).theStats
          other.item.tag = some placed := by
  obtain ⟨placed, member', key, offset, -⟩ := exists_same_place
    (LogStatBase.map_key_theStats statTagToType statTagTree logTagTree true mem₀ mem₁).symm member
  have tag : placed.item.tag = other.item.tag := congrArg Prod.fst key
  have single : ((LogStatBase.init statTagToType true statTagTree logTagTree mem₀).theStats.map
      fun placed => placed.item.tag).Nodup := by
    rw [LogStatBase.map_tag_theStats]
    exact List.nodup_reverse.mpr distinct
  refine ⟨placed, member', tag, offset, ?_⟩
  rw [← tag]
  exact getHandle_of_mem single member'

/-- The operational process has a stat under the tag of a leaf, and a parent under any other. -/
theorem nodeClass_operational (distinct : statTagTree.labels.Nodup) {placed : PlacedNode Tag Sample}
    (member : placed ∈ (LogStatBase.init statTagToType true statTagTree logTagTree mem₀).theStats) :
    (placed.item.tag ∈ statTagTree.leavesBelow →
        placed.item.nodeClass = .opStat (statTagToType placed.item.tag)) ∧
      (placed.item.tag ∉ statTagTree.leavesBelow → placed.item.nodeClass = .statParent) := by
  have nodeClass := nodeClass_theStats_leaf distinct member
  constructor
  · intro leaf
    rw [nodeClass, if_pos leaf, if_pos rfl]
  · intro parent
    rw [nodeClass, if_neg parent]

theorem nodeClass_control (distinct : statTagTree.labels.Nodup) {placed : PlacedNode Tag Sample}
    (member : placed ∈ (LogStatBase.init statTagToType false statTagTree logTagTree mem₁).theStats) :
    (placed.item.tag ∈ statTagTree.leavesBelow →
        placed.item.nodeClass = .controlStat (statTagToType placed.item.tag)) ∧
      (placed.item.tag ∉ statTagTree.leavesBelow → placed.item.nodeClass = .statParent) := by
  have nodeClass := nodeClass_theStats_leaf distinct member
  constructor
  · intro leaf
    rw [nodeClass, if_pos leaf]
    rfl
  · intro parent
    rw [nodeClass, if_neg parent]

/-- **A call to a stat** is an operation of the stat in the shared memory. -/
theorem callStep_stat (name : Tag → List Char) (loggers : Nat) (mem₀ : Mem)
    (distinct : statTagTree.labels.Nodup) {call : TagCall Tag Sample} {tag : Tag}
    {statCall : StatCall Sample} (compiles : call.Compiles statTagTree logTagTree)
    (addressed : call.part? statTagTree = some ⟨.stat tag, statCall⟩)
    {placed : PlacedNode Tag Sample}
    (member : placed ∈ (LogStatBase.init statTagToType false statTagTree logTagTree mem₁).theStats)
    (same : placed.item.tag = tag) (state : OpState Tag Sample) :
    tag ∈ statTagTree.leavesBelow ∧
      callStep name loggers (LogStatBase.init statTagToType true statTagTree logTagTree mem₀)
          (LogStatBase.init statTagToType false statTagTree logTagTree mem₁) state call =
        ((statTagToType tag).step placed.offset (statOf tag state) statCall).map
          (withStat tag state) := by
  obtain ⟨twin, member', tag', offset, handle⟩ := exists_operationalNode distinct mem₀ member
  rw [same] at tag' handle
  rw [← offset]
  cases call with
  | writeStat statTag indices value =>
    cases addressed
    have stat := (nodeClass_operational distinct member').1 (tag'.symm ▸ compiles)
    rw [tag'] at stat
    exact ⟨compiles, callStep_writeStat handle stat state indices value⟩
  | doSerialize statTag =>
    simp only [TagCall.part?] at addressed
    split at addressed
    case isTrue leaf =>
      cases addressed
      have stat := (nodeClass_operational distinct member').1 (tag'.symm ▸ leaf)
      rw [tag'] at stat
      exact ⟨leaf, callStep_doSerialize handle tag' stat state⟩
    case isFalse => cases addressed
  | statCommand info cmd =>
    simp only [TagCall.part?] at addressed
    split at addressed
    case isTrue leaf =>
      cases addressed
      have stat := (nodeClass_control distinct member).1 (same.symm ▸ leaf)
      have single := (controlStats_init statTagToType logTagTree distinct mem₁).single
      have handle' := getHandle_of_mem single member
      rw [same] at stat handle'
      rw [offset]
      exact ⟨leaf, callStep_statCommand handle' stat state cmd⟩
    case isFalse => cases addressed
  | logLevel info cmdArg => cases addressed
  | getLog logTag logLevel logIdx => cases addressed

/-- A call to no part changes nothing. -/
theorem callStep_unseen (distinct : statTagTree.labels.Nodup) {call : TagCall Tag Sample}
    (compiles : call.Compiles statTagTree logTagTree) (unseen : call.part? statTagTree = none)
    (state : OpState Tag Sample) :
    callStep name loggers (LogStatBase.init statTagToType true statTagTree logTagTree mem₀)
        (LogStatBase.init statTagToType false statTagTree logTagTree mem₁) state call =
      some state := by
  cases call with
  | writeStat statTag indices value => cases unseen
  | doSerialize statTag =>
    simp only [TagCall.part?] at unseen
    split at unseen
    case isTrue => cases unseen
    case isFalse parent =>
      have tags := LogStatBase.map_tag_theStats statTagToType statTagTree logTagTree true mem₀
      obtain ⟨placed, member, same, handle⟩ := exists_getHandle tags distinct compiles
      have node := (nodeClass_operational distinct member).2 (same.symm ▸ parent)
      exact callStep_parent handle node state
  | statCommand info cmd =>
    simp only [TagCall.part?] at unseen
    split at unseen
    case isTrue => cases unseen
    case isFalse parent =>
      have tags := LogStatBase.map_tag_theStats statTagToType statTagTree logTagTree false mem₁
      obtain ⟨placed, member, same, handle⟩ := exists_getHandle tags distinct compiles
      have node := (nodeClass_control distinct member).2 (same.symm ▸ parent)
      exact callStep_parent_command handle node state cmd
  | logLevel info cmdArg => cases unseen
  | getLog logTag logLevel logIdx => cases unseen

/-- **A call to a part** does in the shared memory what it does to the part on its own. -/
theorem callStep_seen (distinct : statTagTree.labels.Nodup) (distinct' : logTagTree.labels.Nodup)
    {call : TagCall Tag Sample} (compiles : call.Compiles statTagTree logTagTree)
    {partCall : Σ handle : TagHandle Tag, PartCall Sample handle}
    (seen : call.part? statTagTree = some partCall)
    (shared : SharedBy statTagToType statTagTree
      (LogStatBase.init statTagToType false statTagTree logTagTree mem₁) state parts) :
    Option.Rel (SharedBy statTagToType statTagTree
        (LogStatBase.init statTagToType false statTagTree logTagTree mem₁))
      (callStep name loggers (LogStatBase.init statTagToType true statTagTree logTagTree mem₀)
        (LogStatBase.init statTagToType false statTagTree logTagTree mem₁) state call)
      (productStep (partStep statTagToType
        (LogStatBase.init statTagToType false statTagTree logTagTree mem₁).theStats loggers)
          parts partCall) := by
  have known : TagsApart statTagToType statTagTree
      (LogStatBase.init statTagToType false statTagTree logTagTree mem₁) :=
    tagsApart_init distinct distinct' mem₁
  obtain ⟨handle, partCall⟩ := partCall
  cases handle with
  | stat tag =>
    have label : tag ∈ statTagTree.labels := by
      cases call with
      | writeStat statTag indices value =>
        cases seen
        exact LabelTree.mem_labels_of_mem_leavesBelow compiles
      | doSerialize statTag =>
        simp only [TagCall.part?] at seen
        split at seen <;> cases seen
        exact compiles
      | statCommand info cmd =>
        simp only [TagCall.part?] at seen
        split at seen <;> cases seen
        exact compiles
      | logLevel info cmdArg => cases seen
      | getLog logTag logLevel logIdx => cases seen
    obtain ⟨placed, member, same, -, offset⟩ := exists_controlNode statTagToType logTagTree mem₁
      distinct label
    obtain ⟨leaf, steps⟩ := callStep_stat name loggers mem₀ distinct compiles seen member same state
    subst same
    have alone := StatType.step_same (shared.stats placed member leaf) partCall
    rw [steps]
    show Option.Rel _ _ (((statTagToType placed.item.tag).step (offsetOf _ placed.item.tag)
      (statParts parts placed.item.tag) partCall).map _)
    rw [offset]
    refine rel_map alone fun next nextPart taken takenPart same => ?_
    exact shared.stat known member leaf (StatType.step_unchangedOutside taken) same
  | log tag =>
    cases call with
    | writeStat statTag indices value => cases seen
    | doSerialize statTag =>
      simp only [TagCall.part?] at seen
      split at seen <;> cases seen
    | statCommand info cmd =>
      simp only [TagCall.part?] at seen
      split at seen <;> cases seen
    | logLevel info cmdArg =>
      cases seen
      have tags := LogStatBase.map_tag_theLogs statTagToType statTagTree logTagTree false mem₁
      obtain ⟨placed, member, same, -⟩ := exists_getHandle tags distinct' compiles
      rw [callStep_logLevel known.logs shared.levels member same.symm]
      show Option.Rel _ _ ((logPartStep loggers (logParts parts info.tagIndex) (.logLevel cmdArg)).map _)
      rw [← same]
      by_cases inside : 0 ≤ cmdArg.loggerIdx ∧ cmdArg.loggerIdx < sizeofLogControlStorage
      · have alone : logPartStep loggers (logParts parts placed.item.tag) (.logLevel cmdArg) = some _ :=
          if_pos inside
        have next := shared.log known member inside
        rw [setLevels_own] at next
        rw [if_pos inside, alone]
        exact .some next
      · have alone : logPartStep loggers (logParts parts placed.item.tag) (.logLevel cmdArg) = none :=
          if_neg inside
        rw [if_neg inside, alone]
        exact .none
    | getLog logTag logLevel logIdx =>
      cases seen
      show Option.Rel _ ((LogStatOperational.getLog name _ loggers state.2 tag logLevel logIdx).map _)
        ((logPartStep loggers (logParts parts tag) (.getLog logLevel logIdx)).map _)
      rw [getLog_of_holdsLevels mem₀ distinct' shared.levels compiles]
      by_cases inside : logIdx < sizeofLogControlStorage ∧ logIdx < loggers
      · have alone : logPartStep loggers (logParts parts tag) (.getLog logLevel logIdx) =
            some (parts (.log tag)) := if_pos inside
        rw [if_pos inside, alone, Option.map_some, Option.map_some, Function.update_eq_self]
        exact .some shared
      · have alone : logPartStep loggers (logParts parts tag) (.getLog logLevel logIdx) = none :=
          if_neg inside
        rw [if_neg inside, alone]
        exact .none

/-- At the start every part is in its initial state. -/
theorem sharedBy_init (distinct : statTagTree.labels.Nodup) (mem : Mem) :
    SharedBy statTagToType statTagTree
      (LogStatBase.init statTagToType false statTagTree logTagTree mem₁)
      (fun _ _ => [], (LogStatBase.init statTagToType true statTagTree logTagTree mem).mem)
      Part.initial where
  stats placed member leaf := by
    obtain ⟨twin, member', -, offset, size⟩ := exists_same_place
      (LogStatBase.map_key_theStats statTagToType statTagTree logTagTree true mem mem₁).symm member
    have zero := mem_init_zero mem member'
    have nodeClass := (nodeClass_control distinct member).1 leaf
    have size' : placed.item.getSharedSize = (statTagToType placed.item.tag).sharedSize := by
      unfold LogStatNode.getSharedSize
      rw [nodeClass]
      rfl
    rw [offset, size, size'] at zero
    exact ⟨rfl, zero⟩
  levels placed member logIdx inside := by
    obtain ⟨twin, member', -, offset, -⟩ := exists_same_place
      (LogStatBase.map_key_theLogs statTagToType statTagTree logTagTree true mem mem₁).symm member
    rw [← offset]
    exact mem_init_info mem member' inside

/-- What the shared memory holds is shown. -/
theorem SharedBy.shows (name : Tag → List Char) (loggers : Nat) (mem₀ : Mem)
    (distinct : statTagTree.labels.Nodup) (distinct' : logTagTree.labels.Nodup)
    (shared : SharedBy statTagToType statTagTree
      (LogStatBase.init statTagToType false statTagTree logTagTree mem₁) state parts) :
    ShowsParts name statTagToType statTagTree logTagTree loggers
      (LogStatBase.init statTagToType true statTagTree logTagTree mem₀)
      (LogStatBase.init statTagToType false statTagTree logTagTree mem₁) state.2 parts where
  dump tag leaf := by
    obtain ⟨placed, member, same, handle, offset⟩ := exists_controlNode statTagToType logTagTree mem₁
      distinct (LabelTree.mem_labels_of_mem_leavesBelow leaf)
    subst same
    have nodeClass := (nodeClass_control distinct member).1 leaf
    have shown : (placed.item.doCommand placed.offset .dumpStat state.2).2 =
        (statTagToType placed.item.tag).dump placed.offset (statOf placed.item.tag state) := by
      unfold LogStatNode.doCommand
      rw [nodeClass]
      rfl
    unfold LogStatControl.dumpStat
    rw [handle, Option.map_some, shown, offset, (shared.stats placed member leaf).dump]
  getLog tag label logIdx inside exists' logLevel := by
    rw [getLog_of_holdsLevels mem₀ distinct' shared.levels label, if_pos ⟨inside, exists'⟩]
  shownLevel info label logIdx inside := by
    have tags := LogStatBase.map_tag_theLogs statTagToType statTagTree logTagTree false mem₁
    obtain ⟨placed, member, same, -⟩ := exists_getHandle tags distinct' label
    have text := sendLogCommand_show (controlLogs_init distinct' mem₁) shared.levels member same.symm
      inside
    rw [same] at text
    exact text

/-! ### Whole runs -/

/-- **The shared memory and its parts run together.** -/
theorem runs_relate (name : Tag → List Char) (statTagToType : Tag → StatType Sample) (loggers : Nat)
    (distinct : statTagTree.labels.Nodup) (distinct' : logTagTree.labels.Nodup) (mem mem₁ : Mem) {history : List (TagCall Tag Sample)}
    (compiles : ∀ call ∈ history, call.Compiles statTagTree logTagTree) :
    Option.Rel (SharedBy statTagToType statTagTree
        (LogStatBase.init statTagToType false statTagTree logTagTree mem₁))
      (run (callStep name loggers (LogStatBase.init statTagToType true statTagTree logTagTree mem)
          (LogStatBase.init statTagToType false statTagTree logTagTree mem₁))
        (fun _ _ => [], (LogStatBase.init statTagToType true statTagTree logTagTree mem).mem) history)
      (run (productStep (partStep statTagToType
          (LogStatBase.init statTagToType false statTagTree logTagTree mem₁).theStats loggers))
        Part.initial (history.filterMap (TagCall.part? statTagTree))) := by
  refine run_relates _ ?_ ?_ (sharedBy_init distinct mem) compiles
  · intro state parts call compiles shared unseen
    exact ⟨state, callStep_unseen distinct compiles unseen state, shared⟩
  · intro state parts call partCall compiles shared seen
    exact callStep_seen distinct distinct' compiles seen shared

/-- **The tags of a log stat are independent.** Any calls under its tags, by any threads of an
operational process and any control processes and in any order, run to their end exactly if every stat
and every log takes those that are to it on its own; and then dumps, calls of `getLog` and shown levels
are those of the stats and logs on their own. -/
theorem run_independent (name : Tag → List Char) (statTagToType : Tag → StatType Sample)
    (statTagTree logTagTree : LabelTree Tag) (loggers : Nat) (distinct : statTagTree.labels.Nodup)
    (distinct' : logTagTree.labels.Nodup) (mem : Mem) {operational control : LogStat Tag Sample}
    (started : operational = LogStatBase.init statTagToType true statTagTree logTagTree mem)
    (started' : control = LogStatBase.init statTagToType false statTagTree logTagTree operational.mem)
    {history : List (TagCall Tag Sample)}
    (compiles : ∀ call ∈ history, call.Compiles statTagTree logTagTree) :
    let alone := fun handle => run (partStep statTagToType control.theStats loggers handle)
      (Part.initial handle) (callsTo statTagTree handle history)
    let together := run (callStep name loggers operational control) (fun _ _ => [], operational.mem)
      history
    (together.isSome ↔ ∀ handle, (alone handle).isSome) ∧
      ∀ final parts, together = some final → (∀ handle, alone handle = some (parts handle)) →
        ShowsParts name statTagToType statTagTree logTagTree loggers operational control final.2
          parts := by
  subst started'
  subst started
  obtain ⟨succeeds, related⟩ := run_refines_product
    (runs_relate name statTagToType loggers distinct distinct' mem _ compiles)
  exact ⟨succeeds, fun final parts runs parted =>
    (related final parts runs parted).shows name loggers mem distinct distinct'⟩

end

/-- A counter and an array of arrays of accumulators are written, serialized and cleared while the level
of the log is changed and read. -/
def mixedHistory : List (TagCall Nat Nat) :=
  [.writeStat 1 [] 5, .logLevel ⟨['l'], 0, 0⟩ ⟨true, 2, "ALERT"⟩, .writeStat 2 [1, 2] 7, .doSerialize 2,
    .getLog 0 .error 2, .doSerialize 0, .statCommand ⟨['b'], 1, 1⟩ .clearStat, .writeStat 1 [] 3]

def mixedOperational : LogStat Nat Nat :=
  LogStatBase.init nestedType true nestedTree (.leaf 0) fun _ => 9

def mixedControl : LogStat Nat Nat :=
  LogStatBase.init nestedType false nestedTree (.leaf 0) mixedOperational.mem

theorem run_independent_mixed : ∃ final parts,
    run (callStep nestedName 3 mixedOperational mixedControl) (fun _ _ => [], mixedOperational.mem)
        mixedHistory = some final ∧
      (∀ handle, run (partStep nestedType mixedControl.theStats 3 handle) (Part.initial handle)
        (callsTo nestedTree handle mixedHistory) = some (parts handle)) ∧
      ShowsParts nestedName nestedType nestedTree (.leaf 0) 3 mixedOperational mixedControl final.2
        parts := by
  obtain ⟨succeeds, shows⟩ := run_independent nestedName nestedType nestedTree (.leaf 0) 3 (by decide)
    (by decide) (fun _ => 9) rfl rfl
    (by decide : ∀ call ∈ mixedHistory, call.Compiles nestedTree (.leaf 0))
  have together : (run (callStep nestedName 3 mixedOperational mixedControl)
      (fun _ _ => [], mixedOperational.mem) mixedHistory).isSome := rfl
  obtain ⟨final, runs⟩ := Option.isSome_iff_exists.mp together
  choose parts parted using fun handle => Option.isSome_iff_exists.mp (succeeds.mp together handle)
  exact ⟨final, parts, runs, parted, shows final parts runs parted⟩

end StatLog.Tags
