/-
**From a write to its display.**

The operational process writes stats in any of its threads, its serializer thread copies accumulators
to the shared memory, and control processes clear and dump stats by their tags. What a dump shows is
known from the writes and commands alone, as soon as the serializer has made a pass.

* `SystemEvent`, `systemStep`: the main thread, the serializer thread, and the calls of everybody else.
* `systemCalls`: the calls under tags that a run makes, with `run_systemCalls`: they are its whole effect.
* `visited_of_pass`: between its test and its sleep the serializer visits every stat.
* `dumpStat_of_calls`: a dump shows what is expected of the calls to its stat.
* `PassedSince`: the serializer has made a pass since the last write to a stat.
* **`dumpStat_afterPass`**: then a dump of the stat shows the samples written since its last clear.
-/

import StatLog.Stats.Expected
import StatLog.Tags.Independence
import StatLog.Tags.Serializer

namespace StatLog.Tags

open ByteMemory MixedRadix Placement RoseTree Stats Transition

variable {Tag Sample : Type}

/-! ### The whole system -/

/-- A step of the main or the serializer thread, or a call by another thread or a control process. -/
inductive SystemEvent (Tag Sample : Type)
  | thread (event : Serializer.Event Tag Sample)
  | call (call : TagCall Tag Sample)

/-- The call under a tag that an event is; of the serializer's visits the event does not know. -/
def SystemEvent.call? : SystemEvent Tag Sample → Option (TagCall Tag Sample)
  | .thread (.writeStat statTag indices value) => some (.writeStat statTag indices value)
  | .thread _ => none
  | .call tagCall => some tagCall

section

variable [DecidableEq Tag] (name : Tag → List Char) (statTagToType : Tag → StatType Sample)
  (statTagTree logTagTree : LabelTree Tag) (loggers : Nat) (operational control : LogStat Tag Sample)

/-- **One step of the system.** -/
def systemStep (process : Serializer.Process Tag Sample) :
    SystemEvent Tag Sample → Option (Serializer.Process Tag Sample)
  | .thread event => Serializer.step statTagToType statTagTree logTagTree process event
  | .call call =>
    (callStep name loggers operational control (process.accums, process.mem) call).map fun next =>
      { process with accums := next.1, mem := next.2 }

/-- The process behind `init`. -/
def systemStart (mem : Mem) : Serializer.Process Tag Sample :=
  Serializer.init statTagToType statTagTree logTagTree (Serializer.constructed (fun _ _ => []) mem)

end

/-- **The calls that a step makes.** -/
def stepCalls (process : Serializer.Process Tag Sample) :
    SystemEvent Tag Sample → List (TagCall Tag Sample)
  | .thread .doSerialize =>
    match process.serializationThread with
    | .serializing (placed :: _) => [.doSerialize placed.item.tag]
    | _ => []
  | event => event.call?.toList

/-- The process has passed `init`. -/
structure Started (operational : LogStat Tag Sample) (process : Serializer.Process Tag Sample) : Prop where
  theStats : process.theStats = operational.theStats
  main : process.mainThread ≠ .constructed
  rest : ∀ rest, process.serializationThread = .serializing rest →
    ∀ placed ∈ rest, placed ∈ operational.theStats

section

variable [DecidableEq Tag] {name : Tag → List Char} {statTagToType : Tag → StatType Sample}
  {statTagTree logTagTree : LabelTree Tag} {loggers : Nat} {operational control : LogStat Tag Sample}
  {process next : Serializer.Process Tag Sample}

/-- The calls of a run. -/
def systemCalls (name : Tag → List Char) (statTagToType : Tag → StatType Sample)
    (statTagTree logTagTree : LabelTree Tag) (loggers : Nat) (operational control : LogStat Tag Sample)
    (process : Serializer.Process Tag Sample) (events : List (SystemEvent Tag Sample)) :
    List (TagCall Tag Sample) :=
  labels (systemStep name statTagToType statTagTree logTagTree loggers operational control) stepCalls
    process events

/-- **A step of one of the threads** does what its calls do. -/
theorem run_stepCalls_thread
    (single : (operational.theStats.map fun placed => placed.item.tag).Nodup)
    (started : Started operational process) {event : Serializer.Event Tag Sample}
    (taken : Serializer.step statTagToType statTagTree logTagTree process event = some next) :
    Started operational next ∧
      run (callStep name loggers operational control) (process.accums, process.mem)
        (stepCalls process (.thread event)) = some (next.accums, next.mem) := by
  obtain ⟨theStats, accums, mem, running, thread, main⟩ := process
  obtain ⟨rfl, main', rest'⟩ := started
  cases event with
  | init =>
    cases main with
    | constructed => exact absurd rfl main'
    | _ => cases taken
  | writeStat statTag indices value =>
    obtain ⟨written, writes, rfl⟩ := Option.map_eq_some_iff.mp taken
    refine ⟨⟨rfl, main', rest'⟩, ?_⟩
    show (LogStatOperational.writeStat operational.theStats accums mem statTag indices value).bind _ = _
    rw [writes]
    rfl
  | doSerialize =>
    cases thread with
    | serializing rest =>
      cases rest with
      | nil => cases taken
      | cons placed rest =>
        obtain rfl := Option.some.inj taken
        have visits := rest' (placed :: rest) rfl
        refine ⟨⟨rfl, main', ?_⟩, ?_⟩
        · intro rest'' same other member
          cases same
          exact visits other (List.mem_cons_of_mem _ member)
        · have found := getHandle_of_mem single (visits placed List.mem_cons_self)
          show ((getHandle operational.theStats placed.item.tag).map _).bind _ = _
          rw [found]
          rfl
    | _ => cases taken
  | testRunning =>
    simp only [Serializer.step] at taken
    split at taken
    · obtain rfl := Option.some.inj taken
      refine ⟨⟨rfl, ?_, rest'⟩, rfl⟩
      intro main
      cases running <;> cases main
    · cases taken
  | clearRunning =>
    simp only [Serializer.step] at taken
    split at taken
    · obtain rfl := Option.some.inj taken
      exact ⟨⟨rfl, (fun main => by cases main), rest'⟩, rfl⟩
    · cases taken
  | join =>
    simp only [Serializer.step] at taken
    split at taken
    · obtain rfl := Option.some.inj taken
      exact ⟨⟨rfl, (fun main => by cases main), rest'⟩, rfl⟩
    · cases taken
  | setRunning =>
    simp only [Serializer.step] at taken
    split at taken
    · obtain rfl := Option.some.inj taken
      exact ⟨⟨rfl, main', (fun rest serializing => by cases serializing)⟩, rfl⟩
    · cases taken
  | testLoop =>
    simp only [Serializer.step] at taken
    split at taken
    · obtain rfl := Option.some.inj taken
      refine ⟨⟨rfl, main', ?_⟩, rfl⟩
      intro rest same placed member
      cases running with
      | true =>
        cases same
        exact member
      | false => cases same
    · cases taken
  | wake =>
    simp only [Serializer.step] at taken
    split at taken
    · obtain rfl := Option.some.inj taken
      exact ⟨⟨rfl, main', (fun rest serializing => by cases serializing)⟩, rfl⟩
    · cases taken

/-- **Every step of the system** does. -/
theorem run_stepCalls (single : (operational.theStats.map fun placed => placed.item.tag).Nodup)
    (started : Started operational process) {event : SystemEvent Tag Sample}
    (taken : systemStep name statTagToType statTagTree logTagTree loggers operational control process
      event = some next) :
    Started operational next ∧
      run (callStep name loggers operational control) (process.accums, process.mem)
        (stepCalls process event) = some (next.accums, next.mem) := by
  cases event with
  | thread event => exact run_stepCalls_thread single started taken
  | call call =>
    obtain ⟨called, calls, rfl⟩ := Option.map_eq_some_iff.mp taken
    refine ⟨⟨started.theStats, started.main, started.rest⟩, ?_⟩
    show (callStep name loggers operational control (process.accums, process.mem) call).bind _ = _
    rw [calls]
    rfl

/-- **The calls of a run are its whole effect** on accumulators and shared memory. -/
theorem run_systemCalls (single : (operational.theStats.map fun placed => placed.item.tag).Nodup)
    {start final : Serializer.Process Tag Sample} (started : Started operational start)
    {events : List (SystemEvent Tag Sample)}
    (runs : run (systemStep name statTagToType statTagTree logTagTree loggers operational control) start
      events = some final) :
    run (callStep name loggers operational control) (start.accums, start.mem)
        (systemCalls name statTagToType statTagTree logTagTree loggers operational control start
          events) = some (final.accums, final.mem) :=
  run_labels _ stepCalls (Started operational) (fun process => (process.accums, process.mem))
    (fun _ _ _ started taken => run_stepCalls single started taken) started runs

theorem started_run (single : (operational.theStats.map fun placed => placed.item.tag).Nodup)
    {start final : Serializer.Process Tag Sample} (started : Started operational start)
    {events : List (SystemEvent Tag Sample)}
    (runs : run (systemStep name statTagToType statTagTree logTagTree loggers operational control) start
      events = some final) : Started operational final := by
  refine run_induction _ (fun _ process => Started operational process) started ?_ runs
  intro history process event next started taken
  exact (run_stepCalls single started taken).1

theorem systemCalls_append {start mid : Serializer.Process Tag Sample}
    {before : List (SystemEvent Tag Sample)}
    (runs : run (systemStep name statTagToType statTagTree logTagTree loggers operational control) start
      before = some mid) (after : List (SystemEvent Tag Sample)) :
    systemCalls name statTagToType statTagTree logTagTree loggers operational control start
        (before ++ after) =
      systemCalls name statTagToType statTagTree logTagTree loggers operational control start before ++
        systemCalls name statTagToType statTagTree logTagTree loggers operational control mid after :=
  labels_append _ _ runs after

omit [DecidableEq Tag] in
theorem mem_stepCalls (started : Started operational process) {event : SystemEvent Tag Sample}
    {tagCall : TagCall Tag Sample} (member : tagCall ∈ stepCalls process event) :
    (∃ placed ∈ operational.theStats, tagCall = .doSerialize placed.item.tag) ∨
      event.call? = some tagCall := by
  cases event with
  | call other =>
    obtain rfl := List.mem_singleton.mp member
    exact Or.inr rfl
  | thread event =>
    cases event with
    | writeStat statTag indices value =>
      obtain rfl := List.mem_singleton.mp member
      exact Or.inr rfl
    | doSerialize =>
      simp only [stepCalls] at member
      split at member
      case h_1 placed rest serializing =>
        obtain rfl := List.mem_singleton.mp member
        exact Or.inl ⟨placed, started.rest _ serializing placed List.mem_cons_self, rfl⟩
      case h_2 => cases member
    | _ => cases member

/-- **A call of a run** is a visit of the serializer or one of the events. -/
theorem mem_systemCalls (single : (operational.theStats.map fun placed => placed.item.tag).Nodup)
    {start final : Serializer.Process Tag Sample} (started : Started operational start)
    {events : List (SystemEvent Tag Sample)}
    (runs : run (systemStep name statTagToType statTagTree logTagTree loggers operational control) start
      events = some final) {tagCall : TagCall Tag Sample}
    (member : tagCall ∈ systemCalls name statTagToType statTagTree logTagTree loggers operational
      control start events) :
    (∃ placed ∈ operational.theStats, tagCall = .doSerialize placed.item.tag) ∨
      tagCall ∈ events.filterMap SystemEvent.call? := by
  induction events generalizing start with
  | nil => cases member
  | cons event events ih =>
    rw [run, Option.bind_eq_some_iff] at runs
    obtain ⟨next, taken, later⟩ := runs
    unfold systemCalls at member ih
    rw [labels, taken, Option.map_some, Option.getD_some] at member
    rcases List.mem_append.mp member with first | rest
    · rcases mem_stepCalls started first with visit | own
      · exact Or.inl visit
      · exact Or.inr (List.mem_filterMap.mpr ⟨event, List.mem_cons_self, own⟩)
    · rcases ih (run_stepCalls single started taken).1 later rest with visit | own
      · exact Or.inl visit
      · obtain ⟨other, among, seen⟩ := List.mem_filterMap.mp own
        exact Or.inr (List.mem_filterMap.mpr ⟨other, List.mem_cons_of_mem _ among, seen⟩)

/-! ### A pass -/

/-- One step of the serializer's way through the stats that are left. -/
theorem visited_step {placed : PlacedNode Tag Sample} {rest : List (PlacedNode Tag Sample)}
    {event : SystemEvent Tag Sample} (started : Started operational process)
    (taken : systemStep name statTagToType statTagTree logTagTree loggers operational control process
      event = some next)
    (serializing : process.serializationThread = .serializing rest) (waits : placed ∈ rest) :
    .doSerialize placed.item.tag ∈ stepCalls process event ∨
      ∃ rest, next.serializationThread = .serializing rest ∧ placed ∈ rest := by
  obtain ⟨theStats, accums, mem, running, thread, main⟩ := process
  obtain rfl : thread = .serializing rest := serializing
  cases event with
  | call call =>
    obtain ⟨called, -, rfl⟩ := Option.map_eq_some_iff.mp taken
    exact Or.inr ⟨rest, rfl, waits⟩
  | thread event =>
    cases event with
    | doSerialize =>
      cases rest with
      | nil => cases taken
      | cons head rest =>
        obtain rfl := Option.some.inj taken
        rcases List.mem_cons.mp waits with rfl | later
        · exact Or.inl List.mem_cons_self
        · exact Or.inr ⟨rest, rfl, later⟩
    | writeStat statTag indices value =>
      obtain ⟨written, -, rfl⟩ := Option.map_eq_some_iff.mp taken
      exact Or.inr ⟨rest, rfl, waits⟩
    | wake =>
      cases rest with
      | nil => cases waits
      | cons head rest => cases taken
    | setRunning => cases taken
    | testLoop => cases taken
    | join => cases main <;> cases taken
    | init =>
      cases main with
      | constructed => exact absurd rfl started.main
      | _ => cases taken
    | testRunning =>
      cases main with
      | operational =>
        obtain rfl := Option.some.inj taken
        exact Or.inr ⟨rest, rfl, waits⟩
      | _ => cases taken
    | clearRunning =>
      cases main with
      | stopping =>
        obtain rfl := Option.some.inj taken
        exact Or.inr ⟨rest, rfl, waits⟩
      | _ => cases taken

/-- **A pass visits every stat** that it begins with. -/
theorem visited_of_pass (single : (operational.theStats.map fun placed => placed.item.tag).Nodup)
    {start mid : Serializer.Process Tag Sample} (started : Started operational start)
    {rest : List (PlacedNode Tag Sample)} (serializing : start.serializationThread = .serializing rest)
    {placed : PlacedNode Tag Sample} (waits : placed ∈ rest) {pass : List (SystemEvent Tag Sample)}
    (runs : run (systemStep name statTagToType statTagTree logTagTree loggers operational control) start
      pass = some mid)
    (slept : mid.serializationThread = .serializing []) :
    .doSerialize placed.item.tag ∈
      systemCalls name statTagToType statTagTree logTagTree loggers operational control start pass := by
  induction pass generalizing start rest with
  | nil =>
    obtain rfl := Option.some.inj runs
    rw [serializing] at slept
    cases slept
    cases waits
  | cons event pass ih =>
    rw [run, Option.bind_eq_some_iff] at runs
    obtain ⟨next, taken, later⟩ := runs
    unfold systemCalls
    rw [labels, taken, Option.map_some, Option.getD_some]
    rcases visited_step started taken serializing waits with visited | ⟨rest', serializing', waits'⟩
    · exact List.mem_append_left _ visited
    · exact List.mem_append_right _
        (ih (run_stepCalls single started taken).1 serializing' waits' later)

omit [DecidableEq Tag] in
theorem stepCalls_unserialized (process : Serializer.Process Tag Sample) (event : SystemEvent Tag Sample)
    {keep : TagCall Tag Sample → Bool} (visits : ∀ statTag, keep (.doSerialize statTag) = false) :
    (stepCalls process event).filter keep = event.call?.toList.filter keep := by
  cases event with
  | call call => rfl
  | thread event =>
    cases event with
    | doSerialize =>
      simp only [stepCalls]
      split
      · rw [List.filter_cons_of_neg (by rw [visits]; exact Bool.false_ne_true)]
        rfl
      · rfl
    | _ => rfl

/-- What a run's calls are, but for the visits of the serializer. -/
theorem systemCalls_unserialized {start final : Serializer.Process Tag Sample}
    {events : List (SystemEvent Tag Sample)}
    (runs : run (systemStep name statTagToType statTagTree logTagTree loggers operational control) start
      events = some final) {keep : TagCall Tag Sample → Bool}
    (visits : ∀ statTag, keep (.doSerialize statTag) = false) :
    (systemCalls name statTagToType statTagTree logTagTree loggers operational control start
        events).filter keep = (events.filterMap SystemEvent.call?).filter keep := by
  induction events generalizing start with
  | nil => rfl
  | cons event events ih =>
    rw [run, Option.bind_eq_some_iff] at runs
    obtain ⟨next, taken, later⟩ := runs
    have split : (event :: events).filterMap SystemEvent.call? =
        event.call?.toList ++ events.filterMap SystemEvent.call? := by
      rw [List.filterMap_cons]
      cases event.call? <;> rfl
    unfold systemCalls at ih ⊢
    rw [labels, taken, Option.map_some, Option.getD_some, List.filter_append, ih later, split,
      List.filter_append, stepCalls_unserialized start event visits]

end

/-! ### Dumps -/

section

variable [DecidableEq Tag] {name : Tag → List Char} {statTagToType : Tag → StatType Sample}
  {statTagTree logTagTree : LabelTree Tag} {loggers : Nat} {mem mem₁ : Mem}

/-- **A dump shows what is expected of the calls to its stat.** -/
theorem dumpStat_of_calls (distinct : statTagTree.labels.Nodup) (distinct' : logTagTree.labels.Nodup)
    {history : List (TagCall Tag Sample)}
    (compiles : ∀ call ∈ history, call.Compiles statTagTree logTagTree) {final : OpState Tag Sample}
    (runs : run (callStep name loggers
        (LogStatBase.init statTagToType true statTagTree logTagTree mem)
        (LogStatBase.init statTagToType false statTagTree logTagTree mem₁))
      (fun _ _ => [], (LogStatBase.init statTagToType true statTagTree logTagTree mem).mem) history =
        some final)
    {tag : Tag} (leaf : tag ∈ statTagTree.leavesBelow) {sizes : List Nat} {element : ElementType Sample}
    (type : statTagToType tag = .nested sizes element) (positive : ∀ size ∈ sizes, 0 < size)
    (plain : sizes = [] → ∀ call ∈ callsTo statTagTree (.stat tag) history, StatCall.Direct call)
    (fresh : element.isSerializationDeferred = true → ∀ idx ∈ tuples sizes,
      serializedSince (callsFor sizes idx (callsTo statTagTree (.stat tag) history)) = true) :
    ∃ output, LogStatControl.dumpStat
        (LogStatBase.init statTagToType false statTagTree logTagTree mem₁).theStats final.2 tag =
          some output ∧
      output.dimensionSizes = sizes ∧
      output.entries = (tuples sizes).flatMap fun idx =>
        element.expected (callsFor sizes idx (callsTo statTagTree (.stat tag) history)) := by
  obtain ⟨succeeds, related⟩ := run_refines_product (runs_relate name statTagToType
    loggers distinct distinct' mem mem₁ compiles)
  have together := Option.isSome_iff_exists.mpr ⟨final, runs⟩
  choose parts parted using fun handle => Option.isSome_iff_exists.mp (succeeds.mp together handle)
  have shown := ((related final parts runs parted).shows name loggers mem distinct distinct').dump tag
    leaf
  refine ⟨_, shown, ?_⟩
  have alone := parted (.stat tag)
  rw [type]
  refine dump_expected element positive _ plain fresh ?_
  rw [← type]
  exact alone

/-! ### Behind a pass -/

def TagCall.isDoSerialize : TagCall Tag Sample → Bool
  | .doSerialize _ => true
  | _ => false

/-- The serializer's visits to a stat are those that it sees. -/
theorem callsTo_unserialized (statTagTree : LabelTree Tag) (tag : Tag)
    (history : List (TagCall Tag Sample)) :
    (callsTo statTagTree (.stat tag) history).filter (fun call => !StatCall.isSerialize call) =
      callsTo statTagTree (.stat tag) (history.filter fun call => !call.isDoSerialize) := by
  unfold callsTo
  rw [List.filter_filterMap, List.filterMap_filter]
  refine List.filterMap_congr fun call _ => ?_
  cases call with
  | writeStat statTag indices value =>
    by_cases same : statTag = tag
    · subst same
      simp [TagCall.part?, eventAt, TagCall.isDoSerialize, StatCall.isSerialize]
    · simp [TagCall.part?, eventAt, TagCall.isDoSerialize, same]
  | doSerialize statTag =>
    by_cases leaf : statTag ∈ statTagTree.leavesBelow
    · by_cases same : statTag = tag
      · subst same
        simp [TagCall.part?, eventAt, TagCall.isDoSerialize, StatCall.isSerialize, leaf]
      · simp [TagCall.part?, eventAt, TagCall.isDoSerialize, same, leaf]
    · simp [TagCall.part?, TagCall.isDoSerialize, leaf]
  | statCommand info cmd =>
    by_cases leaf : info.tagIndex ∈ statTagTree.leavesBelow
    · by_cases same : info.tagIndex = tag
      · subst same
        simp [TagCall.part?, eventAt, TagCall.isDoSerialize, StatCall.isSerialize, leaf]
      · simp [TagCall.part?, eventAt, TagCall.isDoSerialize, same, leaf]
    · simp [TagCall.part?, TagCall.isDoSerialize, leaf]
  | logLevel info cmdArg => simp [TagCall.part?, eventAt, TagCall.isDoSerialize]
  | getLog logTag logLevel logIdx => simp [TagCall.part?, eventAt, TagCall.isDoSerialize]

theorem serialize_mem_callsTo {statTagTree : LabelTree Tag} {tag : Tag}
    (leaf : tag ∈ statTagTree.leavesBelow) {history : List (TagCall Tag Sample)}
    (visited : .doSerialize tag ∈ history) :
    StatCall.serialize ∈ callsTo statTagTree (.stat tag) history := by
  refine List.mem_filterMap.mpr ⟨_, visited, ?_⟩
  have addressed : (TagCall.doSerialize tag : TagCall Tag Sample).part? statTagTree =
      some ⟨.stat tag, StatCall.serialize⟩ := if_pos leaf
  rw [addressed, Option.bind_some]
  exact dif_pos rfl

/-- A write that a stat sees is one under its tag. -/
theorem writeStat_of_mem_callsTo {statTagTree : LabelTree Tag} {tag : Tag}
    {history : List (TagCall Tag Sample)} {indices : List Int} {value : Sample}
    (member : StatCall.write indices value ∈ callsTo statTagTree (.stat tag) history) :
    .writeStat tag indices value ∈ history := by
  obtain ⟨tagCall, among, seen⟩ := List.mem_filterMap.mp member
  obtain ⟨partCall, addressed, own⟩ := Option.bind_eq_some_iff.mp seen
  obtain rfl := eq_of_eventAt own
  cases tagCall with
  | writeStat statTag indices' value' =>
    cases addressed
    exact among
  | doSerialize statTag =>
    simp only [TagCall.part?] at addressed
    split at addressed <;> cases addressed
  | statCommand info cmd =>
    simp only [TagCall.part?] at addressed
    split at addressed <;> cases addressed
  | logLevel info cmdArg => cases addressed
  | getLog logTag logLevel logIdx => cases addressed

theorem still_callsTo {statTagTree : LabelTree Tag} {tag : Tag} {history : List (TagCall Tag Sample)}
    (unwritten : ∀ indices value, .writeStat tag indices value ∉ history) :
    ∀ call ∈ callsTo statTagTree (.stat tag) history, StatCall.sample? call = none := by
  intro call member
  cases call with
  | write indices value => exact absurd (writeStat_of_mem_callsTo member) (unwritten indices value)
  | serialize => rfl
  | command cmd => rfl

end

section

variable [DecidableEq Tag] (name : Tag → List Char) (statTagToType : Tag → StatType Sample)
  (statTagTree logTagTree : LabelTree Tag) (loggers : Nat) (operational control : LogStat Tag Sample)

/-- **The serializer has made a whole pass since the last write** to a stat. -/
def PassedSince (start : Serializer.Process Tag Sample) (tag : Tag)
    (events : List (SystemEvent Tag Sample)) : Prop :=
  ∃ before pass after begun mid, events = before ++ (pass ++ after) ∧
    run (systemStep name statTagToType statTagTree logTagTree loggers operational control) start before =
      some begun ∧ begun.serializationThread = .serializing operational.theStats ∧
    run (systemStep name statTagToType statTagTree logTagTree loggers operational control) begun pass =
      some mid ∧ mid.serializationThread = .serializing [] ∧
    ∀ indices value, .writeStat tag indices value ∉ (pass ++ after).filterMap SystemEvent.call?

end

section

variable [DecidableEq Tag] {name : Tag → List Char} {statTagToType : Tag → StatType Sample}
  {statTagTree logTagTree : LabelTree Tag} {loggers : Nat} {operational control : LogStat Tag Sample}
  {start : Serializer.Process Tag Sample}

/-- A pass that begins behind the last write is the serializer's visit that an accumulator needs. -/
theorem serializedSince_of_passed (single : (operational.theStats.map fun placed => placed.item.tag).Nodup)
    (started : Started operational start) {tag : Tag} (leaf : tag ∈ statTagTree.leavesBelow)
    {placed : PlacedNode Tag Sample} (member : placed ∈ operational.theStats)
    (same : placed.item.tag = tag) {events : List (SystemEvent Tag Sample)}
    {final : Serializer.Process Tag Sample}
    (runs : run (systemStep name statTagToType statTagTree logTagTree loggers operational control) start
      events = some final)
    (passed : PassedSince name statTagToType statTagTree logTagTree loggers operational control start tag
      events) (sizes idx : List Nat) :
    serializedSince (callsFor sizes idx (callsTo statTagTree (.stat tag)
      (systemCalls name statTagToType statTagTree logTagTree loggers operational control start
        events))) = true := by
  obtain ⟨before, pass, after, begun, mid, rfl, runsBefore, serializing, runsPass, slept, unwritten⟩ :=
    passed
  have started' := started_run single started runsBefore
  have runsLater : run (systemStep name statTagToType statTagTree logTagTree loggers operational control)
      begun (pass ++ after) = some final := by
    rw [run_append, runsBefore, Option.bind_some] at runs
    exact runs
  have visited : .doSerialize tag ∈ systemCalls name statTagToType statTagTree logTagTree loggers
      operational control begun (pass ++ after) := by
    rw [systemCalls_append runsPass, ← same]
    exact List.mem_append_left _
      (visited_of_pass single started' serializing member runsPass slept)
  have still : ∀ call ∈ callsTo statTagTree (.stat tag) (systemCalls name statTagToType statTagTree
      logTagTree loggers operational control begun (pass ++ after)), StatCall.sample? call = none := by
    refine still_callsTo fun indices value written => ?_
    rcases mem_systemCalls single started' runsLater written with visit | own
    · obtain ⟨other, -, visit⟩ := visit
      cases visit
    · exact unwritten indices value own
  rw [systemCalls_append runsBefore]
  unfold callsTo at still ⊢
  rw [List.filterMap_append, callsFor_append]
  exact serializedSince_append _ (still_callsFor still)
    (serialize_mem_callsFor (serialize_mem_callsTo leaf visited))

/-- What a stat sees of a run, but for the visits of the serializer, are the events to it. -/
theorem callsTo_systemCalls {events : List (SystemEvent Tag Sample)}
    {final : Serializer.Process Tag Sample}
    (runs : run (systemStep name statTagToType statTagTree logTagTree loggers operational control) start
      events = some final) (tag : Tag) :
    (callsTo statTagTree (.stat tag) (systemCalls name statTagToType statTagTree logTagTree loggers
        operational control start events)).filter (fun call => !StatCall.isSerialize call) =
      (callsTo statTagTree (.stat tag) (events.filterMap SystemEvent.call?)).filter
        (fun call => !StatCall.isSerialize call) := by
  rw [callsTo_unserialized, callsTo_unserialized, systemCalls_unserialized runs fun _ => rfl]

/-- So an element is expected to show the same. -/
theorem expected_systemCalls {events : List (SystemEvent Tag Sample)}
    {final : Serializer.Process Tag Sample}
    (runs : run (systemStep name statTagToType statTagTree logTagTree loggers operational control) start
      events = some final) (tag : Tag) (sizes idx : List Nat) (element : ElementType Sample) :
    element.expected (callsFor sizes idx (callsTo statTagTree (.stat tag) (systemCalls name statTagToType
        statTagTree logTagTree loggers operational control start events))) =
      element.expected (callsFor sizes idx
        (callsTo statTagTree (.stat tag) (events.filterMap SystemEvent.call?))) := by
  rw [← expected_unserialized, callsFor_unserialized, callsTo_systemCalls runs, ← callsFor_unserialized,
    expected_unserialized]

omit [DecidableEq Tag] in
/-- The process behind `init` is started. -/
theorem started_init (statTagToType : Tag → StatType Sample) (statTagTree logTagTree : LabelTree Tag)
    (mem : Mem) :
    Started (LogStatBase.init statTagToType true statTagTree logTagTree mem)
      (systemStart statTagToType statTagTree logTagTree mem) where
  theStats := rfl
  main constructed := by cases constructed
  rest rest serializing := by
    unfold systemStart Serializer.init at serializing
    simp only at serializing
    split at serializing <;> cases serializing

/-- All calls of a run compile, if those of its events do. -/
theorem compiles_systemCalls (distinct : statTagTree.labels.Nodup) {mem : Mem}
    (started : Started (LogStatBase.init statTagToType true statTagTree logTagTree mem) start)
    {events : List (SystemEvent Tag Sample)} {final : Serializer.Process Tag Sample}
    (runs : run (systemStep name statTagToType statTagTree logTagTree loggers
      (LogStatBase.init statTagToType true statTagTree logTagTree mem) control) start events =
        some final)
    (compiles : ∀ tagCall ∈ events.filterMap SystemEvent.call?,
      tagCall.Compiles statTagTree logTagTree) :
    ∀ tagCall ∈ systemCalls name statTagToType statTagTree logTagTree loggers
      (LogStatBase.init statTagToType true statTagTree logTagTree mem) control start events,
      tagCall.Compiles statTagTree logTagTree := by
  have tags := LogStatBase.map_tag_theStats statTagToType statTagTree logTagTree true mem
  have single : ((LogStatBase.init statTagToType true statTagTree logTagTree mem).theStats.map
      fun placed => placed.item.tag).Nodup := by
    rw [tags]
    exact List.nodup_reverse.mpr distinct
  intro tagCall member
  rcases mem_systemCalls single started runs member with ⟨placed, among, rfl⟩ | own
  · show placed.item.tag ∈ statTagTree.labels
    rw [← List.mem_reverse, ← tags]
    exact List.mem_map_of_mem among
  · exact compiles tagCall own

/-- A stat that is no array is written without indices. -/
theorem direct_systemCalls (single : (operational.theStats.map fun placed => placed.item.tag).Nodup)
    (started : Started operational start) {events : List (SystemEvent Tag Sample)}
    {final : Serializer.Process Tag Sample}
    (runs : run (systemStep name statTagToType statTagTree logTagTree loggers operational control) start
      events = some final) {tag : Tag} {sizes : List Nat}
    (plain : sizes = [] → ∀ indices value,
      .writeStat tag indices value ∈ events.filterMap SystemEvent.call? → indices = [])
    (array : sizes = []) : ∀ call ∈ callsTo statTagTree (.stat tag) (systemCalls name statTagToType
      statTagTree logTagTree loggers operational control start events), StatCall.Direct call := by
  intro call among
  cases call with
  | write indices value =>
    rcases mem_systemCalls single started runs (writeStat_of_mem_callsTo among) with visit | own
    · obtain ⟨placed, -, visit⟩ := visit
      cases visit
    · exact plain array indices value own
  | serialize => trivial
  | command cmd => trivial

end

/-- **A dump shows what was written.** Main thread, serializer thread, other threads of the operational
process and control processes take their steps in any order. A dump of a stat, of any type and depth of
arrays, then shows of every element exactly what the writes and clears of that element say; an
accumulator needs that the serializer has made a pass since the last write. -/
theorem dumpStat_afterPass [DecidableEq Tag] (name : Tag → List Char)
    (statTagToType : Tag → StatType Sample) (statTagTree logTagTree : LabelTree Tag) (loggers : Nat)
    (distinct : statTagTree.labels.Nodup) (distinct' : logTagTree.labels.Nodup) (mem : Mem)
    {operational control : LogStat Tag Sample}
    (begins : operational = LogStatBase.init statTagToType true statTagTree logTagTree mem)
    (begins' : control = LogStatBase.init statTagToType false statTagTree logTagTree operational.mem)
    {events : List (SystemEvent Tag Sample)} {final : Serializer.Process Tag Sample}
    (runs : run (systemStep name statTagToType statTagTree logTagTree loggers operational control)
      (systemStart statTagToType statTagTree logTagTree mem) events = some final)
    (compiles : ∀ tagCall ∈ events.filterMap SystemEvent.call?,
      tagCall.Compiles statTagTree logTagTree)
    {tag : Tag} (leaf : tag ∈ statTagTree.leavesBelow) {sizes : List Nat} {element : ElementType Sample}
    (type : statTagToType tag = .nested sizes element) (positive : ∀ size ∈ sizes, 0 < size)
    (plain : sizes = [] → ∀ indices value,
      .writeStat tag indices value ∈ events.filterMap SystemEvent.call? → indices = [])
    (passed : element.isSerializationDeferred = true → PassedSince name statTagToType statTagTree
      logTagTree loggers operational control (systemStart statTagToType statTagTree logTagTree mem) tag
      events) :
    ∃ output, LogStatControl.dumpStat control.theStats final.mem tag = some output ∧
      output.dimensionSizes = sizes ∧
      output.entries = (tuples sizes).flatMap fun idx => element.expected
        (callsFor sizes idx (callsTo statTagTree (.stat tag) (events.filterMap SystemEvent.call?))) := by
  subst begins'
  subst begins
  have started := started_init statTagToType statTagTree logTagTree mem
  have tags := LogStatBase.map_tag_theStats statTagToType statTagTree logTagTree true mem
  have single : ((LogStatBase.init statTagToType true statTagTree logTagTree mem).theStats.map
      fun placed => placed.item.tag).Nodup := by
    rw [tags]
    exact List.nodup_reverse.mpr distinct
  obtain ⟨placed, member, same, -⟩ :=
    exists_getHandle tags distinct (LabelTree.mem_labels_of_mem_leavesBelow leaf)
  obtain ⟨output, dumps, dimensions, entries⟩ := dumpStat_of_calls distinct distinct'
    (compiles_systemCalls distinct started runs compiles) (run_systemCalls single started runs) leaf type
    positive (direct_systemCalls single started runs plain) fun deferred idx _ =>
      serializedSince_of_passed single started leaf member same runs (passed deferred) sizes idx
  refine ⟨output, dumps, dimensions, entries.trans (List.flatMap_congr fun idx _ => ?_)⟩
  exact expected_systemCalls runs tag sizes idx element

/-- An accumulator in an array of arrays is written, cleared and written again before the serializer tests
its loop. -/
def accumWrites : List (SystemEvent Nat Nat) :=
  [.thread .setRunning, .thread (.writeStat 2 [1, 2] 7), .call (.statCommand ⟨['c'], 2, 1⟩ .clearStat),
    .thread (.writeStat 2 [1, 2] 3), .thread .testLoop]

/-- In its pass another stat is written. -/
def serializerPass : List (SystemEvent Nat Nat) :=
  [.thread .doSerialize, .call (.writeStat 1 [] 5), .thread .doSerialize, .thread .doSerialize]

theorem dumpStat_afterPass_nested : ∃ final output,
    run (systemStep nestedName nestedType nestedTree (.leaf 0) 3 mixedOperational mixedControl)
        (systemStart nestedType nestedTree (.leaf 0) fun _ => 9) (accumWrites ++ serializerPass) =
          some final ∧
      LogStatControl.dumpStat mixedControl.theStats final.mem 2 = some output ∧
      output.dimensionSizes = [2, 3] ∧
      output.entries = (tuples [2, 3]).flatMap fun idx => (ElementType.accumulator [count]).expected
        (callsFor [2, 3] idx (callsTo nestedTree (.stat 2)
          ((accumWrites ++ serializerPass).filterMap SystemEvent.call?))) := by
  have begins : (run (systemStep nestedName nestedType nestedTree (.leaf 0) 3 mixedOperational
      mixedControl) (systemStart nestedType nestedTree (.leaf 0) fun _ => 9) accumWrites).map
        (fun process => process.serializationThread) = some (.serializing mixedOperational.theStats) :=
    rfl
  obtain ⟨begun, runsBefore, serializing⟩ := Option.map_eq_some_iff.mp begins
  have ends : (run (systemStep nestedName nestedType nestedTree (.leaf 0) 3 mixedOperational
      mixedControl) (systemStart nestedType nestedTree (.leaf 0) fun _ => 9)
      (accumWrites ++ serializerPass)).map (fun process => process.serializationThread) =
        some (.serializing []) := rfl
  obtain ⟨final, runs, slept⟩ := Option.map_eq_some_iff.mp ends
  have runsPass : run (systemStep nestedName nestedType nestedTree (.leaf 0) 3 mixedOperational
      mixedControl) begun serializerPass = some final := by
    rw [run_append, runsBefore, Option.bind_some] at runs
    exact runs
  have type : nestedType 2 = .nested [2, 3] (.accumulator [count]) := rfl
  obtain ⟨output, shown⟩ := dumpStat_afterPass nestedName nestedType nestedTree (.leaf 0) 3 (by decide)
    (by decide) (fun _ => 9) rfl rfl runs (by decide) (by decide) type (by decide)
    (fun array => by cases array) fun _ => ⟨accumWrites, serializerPass, [], begun, final, rfl, runsBefore,
      serializing, runsPass, slept, by simp [serializerPass, SystemEvent.call?]⟩
  exact ⟨final, output, runs, shown⟩

end StatLog.Tags
