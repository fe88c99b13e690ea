/-
**Interrupted dumps.**

A dump reads one element after the other, and the operational process does not wait for it. An element
that is a simple stat is read at once.

* `ElementAt`: an element of a stat under its tag; `ElementAt.entry`: the entry that a dump adds for it.
* `dumpStat_entries`: DUMP_STAT for a tag adds the entries of all its elements; `run_dump`: reading them
  one by one without interruption does the same.
* `entry_of_calls`: behind any calls an element shows what was written to it since its last clear.
* **`dump_interrupted`**: in every run each element is shown as it was at a moment within the dump, the
  later ones as they were later, and the run goes on as if there were no dump; without interruption
  the entries are those of DUMP_STAT.
-/

import StatLog.Lib.Sweep
import StatLog.Tags.EndToEnd

namespace StatLog.Tags

open ByteMemory MixedRadix Placement RoseTree Stats Transition

variable {Tag Sample : Type}

/-! ### Elements under tags -/

/-- **An element of a stat of simple stats**: its tag, the sizes of the arrays around it, what it is, and
its indices. -/
structure ElementAt (Tag Sample : Type) where
  tag : Tag
  sizes : List Nat
  stat : SimpleStat Sample
  idx : List Nat

namespace ElementAt

/-- There is such an element. -/
structure Exists (statTagToType : Tag → StatType Sample) (statTagTree : LabelTree Tag)
    (element : ElementAt Tag Sample) : Prop where
  leaf : element.tag ∈ statTagTree.leavesBelow
  type : statTagToType element.tag = .nested element.sizes (.simpleStat element.stat)
  positive : ∀ size ∈ element.sizes, 0 < size
  inside : element.idx ∈ tuples element.sizes

/-- **The entry that a dump adds for it.** -/
def entry [DecidableEq Tag] (theStats : List (PlacedNode Tag Sample)) (mem : Mem)
    (element : ElementAt Tag Sample) : String :=
  toString (element.stat.repr.toUnsignedLong (element.stat.value mem
    (StatImpl.elementPtr element.stat.repr.size element.sizes (offsetOf theStats element.tag)
      element.idx)))

/-- What the calls under its tag say. -/
def expected [DecidableEq Tag] (statTagTree : LabelTree Tag) (calls : List (TagCall Tag Sample))
    (element : ElementAt Tag Sample) : String :=
  toString (element.stat.repr.toUnsignedLong (element.stat.storedBy
    (callsFor element.sizes element.idx (callsTo statTagTree (.stat element.tag) calls))))

end ElementAt

/-- The elements of one stat, in the order of a dump. -/
def elementsOf (tag : Tag) (sizes : List Nat) (stat : SimpleStat Sample) : List (ElementAt Tag Sample) :=
  (tuples sizes).map fun idx => ⟨tag, sizes, stat, idx⟩

section

variable [DecidableEq Tag] {statTagToType : Tag → StatType Sample} {statTagTree logTagTree : LabelTree Tag}
  {mem₁ : Mem}

/-- **DUMP_STAT for a tag** adds the entries of its elements. -/
theorem dumpStat_entries (distinct : statTagTree.labels.Nodup) {tag : Tag}
    (leaf : tag ∈ statTagTree.leavesBelow) {sizes : List Nat} {stat : SimpleStat Sample}
    (type : statTagToType tag = .nested sizes (.simpleStat stat)) (positive : ∀ size ∈ sizes, 0 < size)
    (mem : Mem) : ∃ output, LogStatControl.dumpStat
        (LogStatBase.init statTagToType false statTagTree logTagTree mem₁).theStats mem tag = some output ∧
      output.dimensionSizes = sizes ∧
      output.entries = (elementsOf tag sizes stat).map (ElementAt.entry
        (LogStatBase.init statTagToType false statTagTree logTagTree mem₁).theStats mem) := by
  obtain ⟨placed, member, same, handle, offset⟩ := exists_controlNode statTagToType logTagTree mem₁
    distinct (LabelTree.mem_labels_of_mem_leavesBelow leaf)
  have nodeClass := (nodeClass_control distinct member).1 (same.symm ▸ leaf)
  rw [same, type] at nodeClass
  have shown : (placed.item.doCommand placed.offset .dumpStat mem).2 =
      (StatType.nested sizes (.simpleStat stat)).dump placed.offset ⟨fun _ => [], mem⟩ := by
    unfold LogStatNode.doCommand
    rw [nodeClass]
    rfl
  obtain ⟨dimensions, entries⟩ := dump_nested (.simpleStat stat) placed.offset positive
    ⟨fun _ => [], mem⟩
  refine ⟨_, ?_, dimensions, ?_⟩
  · unfold LogStatControl.dumpStat
    rw [handle, Option.map_some, shown]
  · rw [entries, elementsOf, List.map_map]
    unfold ElementAt.entry
    rw [Function.comp_def]
    simp only
    rw [offset]
    exact List.map_eq_flatMap.symm

/-- Reading them one by one, without interruption, does the same. -/
theorem run_dump {State Event : Type} (step : State → Event → Option State) (memOf : State → Mem)
    (distinct : statTagTree.labels.Nodup) {tag : Tag} (leaf : tag ∈ statTagTree.leavesBelow)
    {sizes : List Nat} {stat : SimpleStat Sample}
    (type : statTagToType tag = .nested sizes (.simpleStat stat)) (positive : ∀ size ∈ sizes, 0 < size)
    (state : State) :
    let theStats := (LogStatBase.init statTagToType false statTagTree logTagTree mem₁).theStats
    ∃ output, LogStatControl.dumpStat theStats (memOf state) tag = some output ∧
      run (sweepStep step fun element state => ElementAt.entry theStats (memOf state) element)
        ⟨state, elementsOf tag sizes stat, []⟩
        (List.replicate (elementsOf tag sizes stat).length .look) = some ⟨state, [], output.entries⟩ := by
  intro theStats
  obtain ⟨output, dumps, -, entries⟩ := dumpStat_entries distinct leaf type positive (memOf state)
  refine ⟨output, dumps, ?_⟩
  rw [entries, run_looks, List.nil_append]

/-! ### Behind some calls -/

/-- **An element shows what the calls under its tag say.** -/
theorem entry_of_calls {name : Tag → List Char} {loggers : Nat} (distinct : statTagTree.labels.Nodup)
    (distinct' : logTagTree.labels.Nodup) {mem : Mem} {history : List (TagCall Tag Sample)}
    (compiles : ∀ call ∈ history, call.Compiles statTagTree logTagTree) {state : OpState Tag Sample}
    (runs : run (callStep name loggers (LogStatBase.init statTagToType true statTagTree logTagTree mem)
        (LogStatBase.init statTagToType false statTagTree logTagTree mem₁))
      (fun _ _ => [], (LogStatBase.init statTagToType true statTagTree logTagTree mem).mem) history =
        some state)
    {element : ElementAt Tag Sample} (exists' : element.Exists statTagToType statTagTree)
    (plain : element.sizes = [] →
      ∀ call ∈ callsTo statTagTree (.stat element.tag) history, StatCall.Direct call) :
    element.entry (LogStatBase.init statTagToType false statTagTree logTagTree mem₁).theStats state.2 =
      element.expected statTagTree history := by
  obtain ⟨output, dumps, -, entries⟩ := dumpStat_entries distinct exists'.leaf exists'.type
    exists'.positive state.2
  obtain ⟨output', dumps', -, entries'⟩ := dumpStat_of_calls distinct distinct' compiles runs exists'.leaf
    exists'.type exists'.positive plain fun deferred => by cases deferred
  obtain rfl := Option.some.inj (dumps.symm.trans dumps')
  rw [entries', elementsOf, List.map_map] at entries
  -- Every element has one entry, so the lists agree place by place.
  have places := (List.map_eq_flatMap.trans entries)
  exact (List.map_inj_left.mp places element.idx exists'.inside).symm

end

/-! ### While the system runs -/

section

variable [DecidableEq Tag] {name : Tag → List Char} {statTagToType : Tag → StatType Sample}
  {statTagTree logTagTree : LabelTree Tag} {loggers : Nat} {mem : Mem}
  {operational control : LogStat Tag Sample}
  (begins : operational = LogStatBase.init statTagToType true statTagTree logTagTree mem)
  (begins' : control = LogStatBase.init statTagToType false statTagTree logTagTree operational.mem)
include begins begins'

/-- **Behind any run an element shows what its events say.** -/
theorem entry_of_run (distinct : statTagTree.labels.Nodup) (distinct' : logTagTree.labels.Nodup)
    {events : List (SystemEvent Tag Sample)} {process : Serializer.Process Tag Sample}
    (runs : run (systemStep name statTagToType statTagTree logTagTree loggers operational control)
      (systemStart statTagToType statTagTree logTagTree mem) events = some process)
    (compiles : ∀ tagCall ∈ events.filterMap SystemEvent.call?, tagCall.Compiles statTagTree logTagTree)
    {element : ElementAt Tag Sample} (exists' : element.Exists statTagToType statTagTree)
    (plain : element.sizes = [] → ∀ indices value,
      .writeStat element.tag indices value ∈ events.filterMap SystemEvent.call? → indices = []) :
    element.entry control.theStats process.mem =
      element.expected statTagTree (events.filterMap SystemEvent.call?) := by
  subst begins'
  subst begins
  have started := started_init statTagToType statTagTree logTagTree mem
  have single : ((LogStatBase.init statTagToType true statTagTree logTagTree mem).theStats.map
      fun placed => placed.item.tag).Nodup := by
    rw [LogStatBase.map_tag_theStats]
    exact List.nodup_reverse.mpr distinct
  have shown := entry_of_calls distinct distinct' (compiles_systemCalls distinct started runs compiles)
    (run_systemCalls single started runs) exists' (direct_systemCalls single started runs plain)
  rw [shown]
  exact List.singleton_inj.mp
    (expected_systemCalls runs element.tag element.sizes element.idx (.simpleStat element.stat))

end

/-- **A dump while the system runs.** After a run of main thread, serializer thread, other threads and
control processes, a control process reads elements of simple stats one after the other, and the others
go on in between. The run is the one without the dump, and every element is shown as the writes and
clears up to some moment within the dump say, later elements as of the same or a later moment. If nothing
comes in between, the elements of a stat are shown as DUMP_STAT shows them. -/
theorem dump_interrupted [DecidableEq Tag] (name : Tag → List Char)
    (statTagToType : Tag → StatType Sample) (statTagTree logTagTree : LabelTree Tag) (loggers : Nat)
    (distinct : statTagTree.labels.Nodup) (distinct' : logTagTree.labels.Nodup) (mem : Mem)
    {operational control : LogStat Tag Sample}
    (begins : operational = LogStatBase.init statTagToType true statTagTree logTagTree mem)
    (begins' : control = LogStatBase.init statTagToType false statTagTree logTagTree operational.mem)
    {earlier : List (SystemEvent Tag Sample)} {start : Serializer.Process Tag Sample}
    (runs : run (systemStep name statTagToType statTagTree logTagTree loggers operational control)
      (systemStart statTagToType statTagTree logTagTree mem) earlier = some start)
    {elements : List (ElementAt Tag Sample)}
    (exist : ∀ element ∈ elements, element.Exists statTagToType statTagTree)
    {events : List (SweepEvent (SystemEvent Tag Sample))}
    {final : Sweep (Serializer.Process Tag Sample) (ElementAt Tag Sample) String}
    (dumps : run (sweepStep
        (systemStep name statTagToType statTagTree logTagTree loggers operational control)
        fun element process => element.entry control.theStats process.mem)
      ⟨start, elements, []⟩ events = some final)
    (compiles : ∀ tagCall ∈ (earlier ++ eventsOf events).filterMap SystemEvent.call?,
      tagCall.Compiles statTagTree logTagTree)
    (plain : ∀ element ∈ elements, element.sizes = [] → ∀ indices value, .writeStat element.tag indices value ∈
      (earlier ++ eventsOf events).filterMap SystemEvent.call? → indices = []) :
    run (systemStep name statTagToType statTagTree logTagTree loggers operational control)
        (systemStart statTagToType statTagTree logTagTree mem) (earlier ++ eventsOf events) =
          some final.state ∧
      final.seen = List.zipWith
        (fun element cut => element.expected statTagTree (cut.filterMap SystemEvent.call?)) elements
        (cutsFrom earlier events) ∧
      (cutsFrom earlier events).Pairwise (· <+: ·) ∧
      (∀ cut ∈ cutsFrom earlier events, earlier <+: cut ∧ cut <+: earlier ++ eventsOf events) ∧
      ∀ tag ∈ statTagTree.leavesBelow, ∀ sizes stat,
        statTagToType tag = .nested sizes (.simpleStat stat) → (∀ size ∈ sizes, 0 < size) →
          ∃ output, LogStatControl.dumpStat control.theStats start.mem tag = some output ∧
            run (sweepStep
                (systemStep name statTagToType statTagTree logTagTree loggers operational control)
                fun element process => element.entry control.theStats process.mem)
              ⟨start, elementsOf tag sizes stat, []⟩
              (List.replicate (elementsOf tag sizes stat).length .look) =
                some ⟨start, [], output.entries⟩ := by
  obtain ⟨goes, -, seen⟩ := run_sweep dumps runs fun element member cut among process reached => by
    have within := (prefix_of_mem_cutsFrom among).2.filterMap SystemEvent.call?
    exact entry_of_run begins begins' distinct distinct' reached
      (fun tagCall written => compiles tagCall (within.subset written)) (exist element member)
      fun array indices value written => plain element member array indices value (within.subset written)
  refine ⟨goes, seen, pairwise_cutsFrom, fun cut among => prefix_of_mem_cutsFrom among, ?_⟩
  intro tag leaf sizes stat type positive
  subst begins'
  exact run_dump _ Serializer.Process.mem distinct leaf type positive start

/-- Two counters of four bytes. -/
def fourBytes : SimpleStat Nat := simpleCounter (.integer 4 false) fun sample => integerBytes 4 sample

def twoCounters : Nat → StatType Nat := fun _ => .nested [2] (.simpleStat fourBytes)

def countersOperational : LogStat Nat Nat :=
  LogStatBase.init twoCounters true nestedTree (.leaf 0) fun _ => 9

def countersControl : LogStat Nat Nat :=
  LogStatBase.init twoCounters false nestedTree (.leaf 0) countersOperational.mem

/-- The second counter is written while the dump is on its way. -/
def writeBetween : List (SweepEvent (SystemEvent Nat Nat)) :=
  [.look, .event (.thread (.writeStat 1 [1] 7)), .look]

theorem dump_interrupted_between : ∃ start final,
    run (systemStep nestedName twoCounters nestedTree (.leaf 0) 3 countersOperational countersControl)
        (systemStart twoCounters nestedTree (.leaf 0) fun _ => 9) [.thread (.writeStat 1 [0] 5)] =
          some start ∧
      run (sweepStep
          (systemStep nestedName twoCounters nestedTree (.leaf 0) 3 countersOperational countersControl)
          fun element process => element.entry countersControl.theStats process.mem)
        ⟨start, elementsOf 1 [2] fourBytes, []⟩ writeBetween = some final ∧
      final.seen = List.zipWith
        (fun element cut => ElementAt.expected nestedTree (cut.filterMap SystemEvent.call?) element)
        (elementsOf 1 [2] fourBytes)
        [[.thread (.writeStat 1 [0] 5)],
          [.thread (.writeStat 1 [0] 5), .thread (.writeStat 1 [1] 7)]] := by
  have begins : (run (systemStep nestedName twoCounters nestedTree (.leaf 0) 3 countersOperational
      countersControl) (systemStart twoCounters nestedTree (.leaf 0) fun _ => 9)
        [.thread (.writeStat 1 [0] 5)]).isSome := rfl
  obtain ⟨start, runs⟩ := Option.isSome_iff_exists.mp begins
  have ends : ((run (systemStep nestedName twoCounters nestedTree (.leaf 0) 3 countersOperational
      countersControl) (systemStart twoCounters nestedTree (.leaf 0) fun _ => 9)
        [.thread (.writeStat 1 [0] 5)]).bind fun start => run (sweepStep
          (systemStep nestedName twoCounters nestedTree (.leaf 0) 3 countersOperational countersControl)
          fun element process => element.entry countersControl.theStats process.mem)
        ⟨start, elementsOf 1 [2] fourBytes, []⟩ writeBetween).isSome := rfl
  rw [runs, Option.bind_some] at ends
  obtain ⟨final, dumps⟩ := Option.isSome_iff_exists.mp ends
  have exist : ∀ element ∈ elementsOf 1 [2] fourBytes, element.Exists twoCounters nestedTree := by
    intro element member
    obtain ⟨idx, inside, rfl⟩ := List.mem_map.mp member
    exact ⟨(by decide : 1 ∈ nestedTree.leavesBelow), rfl, (by decide : ∀ size ∈ [2], 0 < size), inside⟩
  obtain ⟨-, seen, -⟩ := dump_interrupted nestedName twoCounters nestedTree (.leaf 0) 3 (by decide)
    (by decide) (fun _ => 9) rfl rfl runs exist dumps (by decide) fun element member array => by
      obtain ⟨idx, -, rfl⟩ := List.mem_map.mp member
      cases array
  exact ⟨start, final, runs, dumps, seen⟩

end StatLog.Tags
