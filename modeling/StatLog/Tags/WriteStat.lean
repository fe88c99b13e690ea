/-
**Writes by tag.**

`writeStat<TAG>` and `writeBitStatus<TAG>` look for the node of the tag in a log stat, and go on with
its stat.

* `statOf`, `withStat`: the stat of a tag in a log stat, and a log stat with another one.
* `LogStatOperational.writeBitStatus`: the source's function, with the `writeStat` of a log stat.
* **`writeStat_eq_step`, `run_writeBitStatus`**: such calls do to the stat of their tag what they do to
  a stat on its own, and leave the accumulators of all other tags alone.
* `bitsCounted_of_writeBitStatus`: so the bits of statuses written by tag are counted.
-/

import StatLog.Stats.BitStatus
import StatLog.Tags.Handles

namespace StatLog.Tags

open ByteMemory Placement Stats Transition

variable {Tag Sample : Type} [DecidableEq Tag]

/-- The accumulators of all stats and the shared memory. -/
abbrev OpState (Tag Sample : Type) := (Tag → Accums Sample) × Mem

/-- The accumulators of one tag with the shared memory. -/
def statOf (statTag : Tag) (state : OpState Tag Sample) : StatState Sample := ⟨state.1 statTag, state.2⟩

/-- With others. -/
def withStat (statTag : Tag) (state : OpState Tag Sample) (next : StatState Sample) :
    OpState Tag Sample :=
  (fun tag => if tag = statTag then next.accums else state.1 tag, next.mem)

theorem withStat_statOf (statTag : Tag) (state : OpState Tag Sample) :
    withStat statTag state (statOf statTag state) = state := by
  refine Prod.ext ?_ rfl
  funext tag
  show (if tag = statTag then state.1 statTag else state.1 tag) = state.1 tag
  split
  case isTrue same => rw [same]
  case isFalse => rfl

theorem statOf_withStat (statTag : Tag) (state : OpState Tag Sample) (next : StatState Sample) :
    statOf statTag (withStat statTag state next) = next := by
  show StatState.mk (if statTag = statTag then next.accums else state.1 statTag) next.mem = next
  rw [if_pos rfl]

theorem withStat_withStat (statTag : Tag) (state : OpState Tag Sample) (next later : StatState Sample) :
    withStat statTag (withStat statTag state next) later = withStat statTag state later := by
  refine Prod.ext ?_ rfl
  funext tag
  show (if tag = statTag then later.accums else if tag = statTag then next.accums else state.1 tag) =
    if tag = statTag then later.accums else state.1 tag
  by_cases same : tag = statTag
  · rw [if_pos same, if_pos same]
  · rw [if_neg same, if_neg same, if_neg same]

namespace LogStatOperational

/-- **`writeBitStatus<StatTag>(bitstatus, i1, ...)`**. -/
def writeBitStatus (theStats : List (PlacedNode Tag Sample)) (statTag : Tag) (one : Sample)
    {width : Nat} (isSigned : Bool) (state : OpState Tag Sample) (call : BitStatusCall width) :
    Option (OpState Tag Sample) :=
  Stats.writeBitStatus (fun (state : OpState Tag Sample) indices value =>
    writeStat theStats state.1 state.2 statTag indices value) one isSigned state call

variable {theStats : List (PlacedNode Tag Sample)} {statTag : Tag} {placed : PlacedNode Tag Sample}
  {type : StatType Sample}

/-- **A write by tag is one step of the tag's stat.** -/
theorem writeStat_eq_step (found : getHandle theStats statTag = some placed)
    (stat : placed.item.nodeClass = .opStat type) (state : OpState Tag Sample) (indices : List Int)
    (value : Sample) :
    writeStat theStats state.1 state.2 statTag indices value =
      (type.step placed.offset (statOf statTag state) (.write indices value)).map
        (withStat statTag state) := by
  obtain ⟨⟨tagNode, nodeClass⟩, offset⟩ := placed
  cases stat
  unfold writeStat StatType.step
  rw [found, Option.map_map]
  show (OperationalStatProxy.writeVal type (state.1 statTag) state.2 offset indices value).bind _ =
    (OperationalStatProxy.writeVal type (state.1 statTag) state.2 offset indices value).map _
  generalize OperationalStatProxy.writeVal type (state.1 statTag) state.2 offset indices value = written
  cases written <;> rfl

/-- **Statuses written by tag** are runs of the tag's stat. -/
theorem run_writeBitStatus (found : getHandle theStats statTag = some placed)
    (stat : placed.item.nodeClass = .opStat type) (one : Sample) {width : Nat} (isSigned : Bool)
    (state : OpState Tag Sample) (history : List (BitStatusCall width)) :
    run (writeBitStatus theStats statTag one isSigned) state history =
      (run (Stats.writeBitStatus (fun state indices value =>
          type.step placed.offset state (.write indices value)) one isSigned)
        (statOf statTag state) history).map (withStat statTag state) := by
  unfold writeBitStatus
  rw [run_flatMap _ _ (BitStatusCall.writes isSigned) fun state call =>
      writeBitStatus_eq_run _ one isSigned state call,
    run_flatMap _ _ (BitStatusCall.writes isSigned) fun state call =>
      writeBitStatus_eq_run _ one isSigned state call]
  apply run_embed (statOf statTag) (withStat statTag) (withStat_statOf statTag)
    (statOf_withStat statTag) (withStat_withStat statTag)
  exact fun state indices => writeStat_eq_step found stat state indices one

end LogStatOperational

/-- **The bits of statuses written by tag are counted** in the stat of the tag. -/
theorem bitsCounted_of_writeBitStatus {size : Nat} (positive : 0 < size) {isSigned : Bool}
    {leading : List Nat} {last width : Nat} (narrow : width ≤ 64) (room : width ≤ last)
    {theStats : List (PlacedNode Tag (IntegerValue size isSigned))} {statTag : Tag}
    {placed : PlacedNode Tag (IntegerValue size isSigned)}
    (found : getHandle theStats statTag = some placed)
    (stat : placed.item.nodeClass = .opStat (counterArray size isSigned (leading ++ [last])))
    {statusSigned : Bool} {history : List (BitStatusCall width)}
    (same : ∀ call ∈ history, call.indices.length = leading.length)
    {state next : OpState Tag (IntegerValue size isSigned)}
    (runs : run (LogStatOperational.writeBitStatus theStats statTag (counterOne positive isSigned)
      statusSigned) state history = some next) :
    BitsCounted size isSigned leading last placed.offset history state.2 next.2 := by
  rw [LogStatOperational.run_writeBitStatus found stat] at runs
  obtain ⟨part, runsPart, rfl⟩ := Option.map_eq_some_iff.mp runs
  exact bitsCounted_of_run positive isSigned leading narrow placed.offset statusSigned same
    (statOf statTag state) room runsPart

end StatLog.Tags
