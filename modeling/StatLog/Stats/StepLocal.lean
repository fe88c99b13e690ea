/-
**A stat depends on its own bytes only.**

An operation reads the accumulators and the bytes of its stat, and changes no others. So a stat takes
the same operations in any two memories that hold the same for it, and is the same afterwards.

* `StatType.SameStat`: accumulators and bytes of a stat are the same in two states.
* `StatImpl.write_same`: a write at any depth fails in both, or leaves both the same.
* **`StatType.step_same`**: so does every operation of either process; `StatType.step_unchangedOutside`:
  it stays inside the stat. `SameStat.dump`: dumps agree.
-/

import StatLog.Stats.ArrayRun
import StatLog.Stats.Cleared

namespace StatLog.Stats

open ByteMemory

variable {Sample : Type}

/-- Bytes that agree around two steps and inside of them agree behind the steps. -/
theorem agreeOn_of_steps {start size inner innerSize : Nat} {mem other next next' : Mem}
    (agree : AgreeOn start size mem other) (frame : UnchangedOutside inner innerSize mem next)
    (frame' : UnchangedOutside inner innerSize other next')
    (inside : AgreeOn inner innerSize next next') : AgreeOn start size next next' := by
  intro address above below
  by_cases within : inner ≤ address ∧ address < inner + innerSize
  · exact inside address within.1 within.2
  · have elsewhere : address < inner ∨ inner + innerSize ≤ address := by omega
    rw [frame address elsewhere, frame' address elsewhere]
    exact agree address above below

/-! ### Writes -/

/-- The outcomes of two writes to the same stat. -/
def SameWrite {State : Type} (ptr size : Nat) (next next' : State × Mem) : Prop :=
  next.1 = next'.1 ∧ AgreeOn ptr size next.2 next'.2

theorem ElementImpl.write_same (impl : ElementImpl Sample) (acc : List Sample) {mem other : Mem}
    {ptr : Nat} (indices : List Int) (value : Sample) (agree : AgreeOn ptr impl.sharedSize mem other) :
    Option.Rel (SameWrite ptr impl.sharedSize) (impl.write acc mem ptr indices value)
      (impl.write acc other ptr indices value) := by
  cases written : impl.write acc mem ptr indices value with
  | some next =>
    obtain ⟨next', written', same, agree'⟩ := write_local acc indices value agree written
    rw [written']
    exact .some ⟨same.symm, agree'⟩
  | none =>
    cases written' : impl.write acc other ptr indices value with
    | none => exact .none
    | some next' =>
      obtain ⟨next, written'', -⟩ := write_local acc indices value agree.symm written'
      rw [written] at written''
      cases written''

/-- A relation between outcomes that are passed on. -/
theorem rel_map {First Second First' Second' : Type} {Rel : First → Second → Prop}
    {Rel' : First' → Second' → Prop} {f : First → First'} {g : Second → Second'} {first : Option First}
    {second : Option Second} (rel : Option.Rel Rel first second)
    (passes : ∀ one other, first = some one → second = some other → Rel one other →
      Rel' (f one) (g other)) : Option.Rel Rel' (first.map f) (second.map g) := by
  cases rel with
  | none => exact .none
  | some related => exact .some (passes _ _ rfl rfl related)

/-- **A write at any depth** fails in both memories, or leaves both the same. -/
theorem StatImpl.write_same (impl : StatImpl Sample) (accums : Accums Sample) {mem other : Mem}
    {ptr : Nat} (indices : List Int) (value : Sample) (agree : AgreeOn ptr impl.sharedSize mem other) :
    Option.Rel (SameWrite ptr impl.sharedSize) (impl.write accums mem ptr indices value)
      (impl.write accums other ptr indices value) := by
  induction impl generalizing accums ptr indices with
  | element impl =>
    refine rel_map (impl.write_same (accums []) indices value agree) ?_
    rintro next next' - - ⟨same, agree'⟩
    exact ⟨congrArg accums.setElement same, agree'⟩
  | statArray size isOperational entry ih =>
    cases indices with
    | nil => exact .none
    | cons idx indices =>
      rw [write, write]
      split
      case isFalse => exact .none
      case isTrue asserted =>
        have below := entry_end_le entry.sharedSize (toNat_lt_of_asserted asserted)
        have entryAgree : AgreeOn (ptr + idx.toNat * entry.sharedSize) entry.sharedSize mem other := by
          apply agree.mono (Nat.le_add_right _ _)
          rw [sharedSize]
          omega
        refine rel_map (ih _ _ entryAgree) ?_
        rintro next next' written written' ⟨same, inside⟩
        have frame := write_unchangedOutside written
        have frame' := write_unchangedOutside written'
        exact ⟨congrArg (accums.setEntry idx.toNat) same,
          agreeOn_of_steps agree frame frame' inside⟩

/-! ### All operations -/

namespace StatType

/-- **The stat at `ptr` is the same** in both states. -/
structure SameStat (type : StatType Sample) (ptr : Nat) (state other : StatState Sample) : Prop where
  accums : state.accums = other.accums
  mem : AgreeOn ptr type.sharedSize state.mem other.mem

variable {type : StatType Sample} {ptr : Nat} {state other : StatState Sample}

/-- The bytes behind a serializer pass. -/
theorem serialize_same (type : StatType Sample) (accums : Accums Sample) {mem mem' : Mem}
    (agree : AgreeOn ptr type.sharedSize mem mem') :
    AgreeOn ptr type.sharedSize (OperationalStatProxy.serialize type accums mem ptr)
      (OperationalStatProxy.serialize type accums mem' ptr) := by
  unfold OperationalStatProxy.serialize
  split
  case isTrue =>
    have steps := (statTypeToImpl true type).serialize_local accums ptr
    rw [type.sharedSize_impl true] at steps
    exact steps.inside mem mem' agree
  case isFalse => exact agree

/-- The bytes behind a command. -/
theorem command_same (type : StatType Sample) (cmd : StatCmd) {mem mem' : Mem}
    (agree : AgreeOn ptr type.sharedSize mem mem') :
    AgreeOn ptr type.sharedSize (ControlStatProxy.doCommand type ptr cmd mem {}).1
      (ControlStatProxy.doCommand type ptr cmd mem' {}).1 := by
  unfold ControlStatProxy.doCommand
  split
  case isFalse => exact agree
  case isTrue =>
    by_cases clear : cmd = .clearStat
    · subst clear
      exact ((statTypeToImpl false type).clear_local ptr).inside mem mem' agree
    · rw [StatImpl.doStatCommand_unchanged clear, StatImpl.doStatCommand_unchanged clear]
      exact agree

/-- **Every operation** fails in both states, or leaves the stat the same in both. -/
theorem step_same (same : type.SameStat ptr state other) (call : StatCall Sample) :
    Option.Rel (type.SameStat ptr) (type.step ptr state call) (type.step ptr other call) := by
  obtain ⟨accums, mem⟩ := state
  obtain ⟨accums', mem'⟩ := other
  obtain ⟨rfl, agree⟩ := same
  cases call with
  | write indices value =>
    have agree' : AgreeOn ptr (statTypeToImpl true type).sharedSize mem mem' := by
      rw [type.sharedSize_impl true]
      exact agree
    refine rel_map (StatImpl.write_same _ accums indices value agree') ?_
    rintro next next' - - ⟨sameAccums, inside⟩
    rw [type.sharedSize_impl true] at inside
    exact ⟨sameAccums, inside⟩
  | serialize => exact .some ⟨rfl, type.serialize_same accums agree⟩
  | command cmd => exact .some ⟨rfl, type.command_same cmd agree⟩

/-- **An operation stays inside its stat.** -/
theorem step_unchangedOutside {call : StatCall Sample} {next : StatState Sample}
    (taken : type.step ptr state call = some next) :
    UnchangedOutside ptr type.sharedSize state.mem next.mem := by
  cases call with
  | write indices value =>
    obtain ⟨written, writes, rfl⟩ := Option.map_eq_some_iff.mp taken
    rw [← type.sharedSize_impl true]
    exact StatImpl.write_unchangedOutside writes
  | serialize =>
    obtain rfl := Option.some.inj taken
    rw [← type.sharedSize_impl true]
    exact OperationalStatProxy.serialize_unchangedOutside type state.accums state.mem ptr
  | command cmd =>
    obtain rfl := Option.some.inj taken
    exact ControlStatProxy.doCommand_unchangedOutside type ptr cmd state.mem {}

/-- A step elsewhere in the memory leaves the stat the same. -/
theorem SameStat.of_unchangedOutside {start size : Nat} {next : Mem}
    (same : type.SameStat ptr state other) (step : UnchangedOutside start size state.mem next)
    (apart : ptr + type.sharedSize ≤ start ∨ start + size ≤ ptr) :
    type.SameStat ptr ⟨state.accums, next⟩ other :=
  ⟨same.accums, (AgreeOn.of_unchangedOutside step apart).trans same.mem⟩

/-- **DUMP_STAT shows the same of it.** -/
theorem SameStat.dump (same : type.SameStat ptr state other) :
    type.dump ptr state = type.dump ptr other :=
  StatImpl.dump_local (statTypeToImpl false type) same.mem {}

end StatType

end StatLog.Stats
