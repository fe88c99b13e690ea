/-
**What a stat shows, from its calls alone.**

A dump is read off the shared memory. What it shows is known from the calls so far without any memory:
a simple stat shows what was written since the last clear, and an accumulator the values of the samples
since then, once the serializer has visited it after the last write.

* `SimpleStat.storedBy`, `clearedBy`, `serializedSince`: found in the calls.
* `ElementType.expected`: the entries that a dump of an element shows.
* `AccumHolds`: what accumulator, control word and stored features are like, with one step lemma.
* `dump_element`: a stat that is no array shows what is expected of it.
* **`dump_expected`**: so does every element of a nested array of any depth, at its own place.
-/

import StatLog.Stats.SimpleValue
import StatLog.Stats.StepLocal

namespace StatLog.Stats

open ByteMemory MixedRadix Transition

variable {Sample : Type}

/-! ### From the calls -/

def StatCall.isSerialize : StatCall Sample → Bool
  | .serialize => true
  | _ => false

/-- The bytes of a simple stat: those of the last clear, or the zeros it began with, and what was written
since. -/
def SimpleStat.storedBy (stat : SimpleStat Sample) (calls : List (StatCall Sample)) :
    Bytes stat.repr.size :=
  (writtenSince calls).foldl
    (fun stored value => stat.writePolicy.write stat.repr stored (stat.ofSample value))
    (if calls.any StatCall.isClear then stat.repr.ofInt 0
      else ⟨List.replicate stat.repr.size 0, List.length_replicate ..⟩)

/-- The last clear has not been followed by a write. -/
def clearedBy (calls : List (StatCall Sample)) : Bool :=
  calls.any StatCall.isClear && (writtenSince calls).isEmpty

/-- **The serializer has come by since the last write.** -/
def serializedSince (calls : List (StatCall Sample)) : Bool :=
  (calls.rtakeWhile fun call => call.sample?.isNone).any StatCall.isSerialize

/-- **The entries that a dump shows of an element**, after these calls. -/
def ElementType.expected (calls : List (StatCall Sample)) : ElementType Sample → List String
  | .simpleStat stat => [toString (stat.repr.toUnsignedLong (stat.storedBy calls))]
  | .nullStat => []
  | .accumulator features =>
    [if clearedBy calls then shownZero features (AccumControl.entryFormat features)
      else shownValue features (AccumControl.entryFormat features) (writtenSince calls)]

theorem isClear_command {cmd : StatCmd} (other : cmd ≠ .clearStat) :
    (StatCall.command cmd : StatCall Sample).isClear = false := decide_eq_false other

section

variable (calls : List (StatCall Sample))

theorem any_isClear_concat (call : StatCall Sample) :
    (calls ++ [call]).any StatCall.isClear = (calls.any StatCall.isClear || call.isClear) := by
  rw [List.any_append, List.any_cons, List.any_nil, Bool.or_false]

theorem clearedBy_write (indices : List Int) (value : Sample) :
    clearedBy (calls ++ [.write indices value]) = false := by
  unfold clearedBy
  rw [writtenSince_write, List.isEmpty_eq_false_iff.mpr (by simp), Bool.and_false]

theorem clearedBy_clear : clearedBy (calls ++ [.command .clearStat]) = true := by
  unfold clearedBy
  rw [writtenSince_clear, any_isClear_concat]
  exact Bool.and_eq_true_iff.mpr ⟨Bool.or_true _, rfl⟩

theorem clearedBy_other {call : StatCall Sample} (noWrite : call.sample? = none)
    (noClear : call.isClear = false) : clearedBy (calls ++ [call]) = clearedBy calls := by
  unfold clearedBy
  rw [writtenSince_other calls noWrite noClear, any_isClear_concat, noClear, Bool.or_false]

theorem serializedSince_write (indices : List Int) (value : Sample) :
    serializedSince (calls ++ [.write indices value]) = false := by
  unfold serializedSince
  rw [List.rtakeWhile_concat_neg _ _ _ (by simp [StatCall.sample?])]
  rfl

theorem serializedSince_command (cmd : StatCmd) :
    serializedSince (calls ++ [.command cmd]) = serializedSince calls := by
  unfold serializedSince
  rw [List.rtakeWhile_concat_pos _ _ _ rfl, List.any_append]
  exact Bool.or_false _

/-- Calls that write nothing and serialize are enough at the end. -/
theorem serializedSince_append {later : List (StatCall Sample)}
    (still : ∀ call ∈ later, call.sample? = none) (visited : .serialize ∈ later) :
    serializedSince (calls ++ later) = true := by
  unfold serializedSince
  rw [List.rtakeWhile, List.reverse_append, List.takeWhile_append_of_pos, List.reverse_append,
    List.reverse_reverse, List.any_append]
  · exact Bool.or_eq_true_iff.mpr (Or.inr (List.any_eq_true.mpr ⟨_, visited, rfl⟩))
  · intro call member
    rw [still call (List.mem_reverse.mp member)]
    rfl

/-- What the serializer does is not seen in the samples written. -/
theorem writtenSince_unserialized :
    writtenSince (calls.filter fun call => !call.isSerialize) = writtenSince calls := by
  induction calls using List.reverseRecOn with
  | nil => rfl
  | append_singleton calls call ih =>
    rw [List.filter_append]
    cases call with
    | write indices value =>
      rw [writtenSince_write, ← ih]
      exact writtenSince_write _ indices value
    | serialize =>
      rw [writtenSince_other calls rfl rfl, ← ih]
      exact congrArg writtenSince (List.append_nil _)
    | command cmd =>
      by_cases clear : cmd = .clearStat
      · subst clear
        exact (writtenSince_clear _).trans (writtenSince_clear calls).symm
      · rw [writtenSince_other calls rfl (isClear_command clear), ← ih]
        exact writtenSince_other _ rfl (isClear_command clear)

theorem any_isClear_unserialized :
    (calls.filter fun call => !call.isSerialize).any StatCall.isClear =
      calls.any StatCall.isClear := by
  rw [List.any_filter]
  congr 1
  funext call
  cases call <;> rfl

/-- **Nor in what a dump is expected to show.** -/
theorem expected_unserialized (element : ElementType Sample) :
    element.expected (calls.filter fun call => !call.isSerialize) = element.expected calls := by
  cases element with
  | simpleStat stat =>
    show [toString (stat.repr.toUnsignedLong (stat.storedBy _))] = [_]
    unfold SimpleStat.storedBy
    rw [writtenSince_unserialized, any_isClear_unserialized]
  | nullStat => rfl
  | accumulator features =>
    show [if clearedBy _ then _ else shownValue _ _ (writtenSince _)] = [_]
    unfold clearedBy
    rw [writtenSince_unserialized, any_isClear_unserialized]

end

section

variable {stat : SimpleStat Sample} {calls : List (StatCall Sample)}

theorem storedBy_write (indices : List Int) (value : Sample) :
    stat.storedBy (calls ++ [.write indices value]) =
      stat.writePolicy.write stat.repr (stat.storedBy calls) (stat.ofSample value) := by
  unfold SimpleStat.storedBy
  rw [writtenSince_write, any_isClear_concat, List.foldl_concat]
  show stat.writePolicy.write stat.repr (List.foldl _ (if (_ || false) = true then _ else _) _) _ = _
  rw [Bool.or_false]

theorem storedBy_clear : stat.storedBy (calls ++ [.command .clearStat]) = stat.repr.ofInt 0 := by
  unfold SimpleStat.storedBy
  rw [writtenSince_clear, any_isClear_concat, List.foldl_nil, if_pos]
  exact Bool.or_true _

theorem storedBy_other {call : StatCall Sample} (noWrite : call.sample? = none)
    (noClear : call.isClear = false) : stat.storedBy (calls ++ [call]) = stat.storedBy calls := by
  unfold SimpleStat.storedBy
  rw [writtenSince_other calls noWrite noClear, any_isClear_concat, noClear, Bool.or_false]

end

/-! ### One element -/

/-- A command that is no clear leaves a stat as it is. -/
theorem StatType.step_command_other (type : StatType Sample) (ptr : Nat) (state : StatState Sample)
    {cmd : StatCmd} (other : cmd ≠ .clearStat) :
    type.step ptr state (.command cmd) = some state := by
  show some { state with mem := (ControlStatProxy.doCommand type ptr cmd state.mem {}).1 } = some state
  unfold ControlStatProxy.doCommand
  split
  case isTrue => rw [StatImpl.doStatCommand_unchanged other]
  case isFalse => rfl

/-- **A simple stat holds what its calls stored.** -/
theorem storedBy_run {stat : SimpleStat Sample} {ptr : Nat} {mem : Mem}
    (zeroed : mem.read ptr stat.repr.size = List.replicate stat.repr.size 0)
    {calls : List (StatCall Sample)} (direct : ∀ call ∈ calls, call.Direct) {state : StatState Sample}
    (runs : run ((StatType.element (.simpleStat stat)).step ptr) (.initial mem) calls = some state) :
    stat.value state.mem ptr = stat.storedBy calls := by
  refine run_induction ((StatType.element (.simpleStat stat)).step ptr)
    (fun calls state => (∀ call ∈ calls, call.Direct) → stat.value state.mem ptr = stat.storedBy calls)
    ?_ ?_ runs direct
  · intro _
    unfold SimpleStat.storedBy
    rw [writtenSince_nil]
    exact Subtype.ext zeroed
  · intro calls state call next ih taken direct
    have holds := ih fun other member => direct other (List.mem_append_left _ member)
    have last := direct call (List.mem_append_right _ List.mem_cons_self)
    cases call with
    | write indices value =>
      obtain rfl : indices = [] := last
      obtain rfl := Option.some.inj taken
      rw [storedBy_write, ← holds]
      exact Subtype.ext (read_write_bytes state.mem ptr _)
    | serialize =>
      obtain rfl := Option.some.inj taken
      rw [storedBy_other rfl rfl]
      exact holds
    | command cmd =>
      by_cases clear : cmd = .clearStat
      · subst clear
        obtain rfl := Option.some.inj taken
        rw [storedBy_clear]
        exact Subtype.ext (read_write_bytes state.mem ptr _)
      · rw [StatType.step_command_other _ _ _ clear, Option.some.injEq] at taken
        subst taken
        rw [storedBy_other rfl (isClear_command clear)]
        exact holds

/-- **What an accumulator is like behind these calls**: its control word, its samples and the copy of
its features. -/
structure AccumHolds (features : List (Feature Sample)) (ptr : Nat) (calls : List (StatCall Sample))
    (state : StatState Sample) : Prop where
  word : controlWord features state.mem ptr ≠ 0 ↔ clearedBy calls = true
  samples : clearedBy calls = false → state.accums [] = writtenSince calls
  copy : serializedSince calls = true →
    state.mem.read ptr (featuresSize features) = featureBytes features (state.accums [])

section

variable {features : List (Feature Sample)} {ptr : Nat} {calls : List (StatCall Sample)}
  {state next : StatState Sample}

theorem accumHolds_initial : AccumHolds features ptr [] (.initial fun _ => 0) where
  word := by
    refine iff_of_false (not_not.mpr ?_) (by simp [clearedBy])
    unfold controlWord StatState.initial
    rw [Mem.read_const]
    rfl
  samples _ := writtenSince_nil.symm
  copy fresh := by
    unfold serializedSince at fresh
    rw [List.rtakeWhile_nil] at fresh
    cases fresh

/-- A write of a cleared accumulator begins anew. -/
theorem AccumHolds.write (holds : AccumHolds features ptr calls state) (value : Sample)
    (taken : (StatType.element (.accumulator features)).step ptr state (.write [] value) = some next) :
    AccumHolds features ptr (calls ++ [.write [] value]) next := by
  have steps : next = ⟨state.accums.setElement
      (AccumOp.write features (state.accums []) state.mem ptr value).1,
      (AccumOp.write features (state.accums []) state.mem ptr value).2⟩ :=
    (Option.some.inj taken).symm
  subst steps
  unfold AccumOp.write
  by_cases flagged : controlWord features state.mem ptr ≠ 0
  · have cleared := holds.word.mp flagged
    have none : writtenSince calls = [] :=
      List.isEmpty_iff.mp (Bool.and_eq_true_iff.mp cleared).2
    rw [if_pos flagged]
    refine ⟨?_, fun _ => ?_, fun fresh => ?_⟩
    · rw [clearedBy_write, controlWord_setControlWord]
      exact iff_of_false (fun differ => differ rfl) Bool.false_ne_true
    · rw [writtenSince_write, none]
      rfl
    · rw [serializedSince_write] at fresh
      cases fresh
  · have clear : clearedBy calls = false := by
      rw [← Bool.not_eq_true, ← holds.word]
      exact flagged
    rw [if_neg flagged]
    refine ⟨?_, fun _ => ?_, fun fresh => ?_⟩
    · rw [clearedBy_write]
      exact iff_of_false flagged Bool.false_ne_true
    · rw [writtenSince_write, ← holds.samples clear]
      rfl
    · rw [serializedSince_write] at fresh
      cases fresh

theorem AccumHolds.serialize (holds : AccumHolds features ptr calls state)
    (taken : (StatType.element (.accumulator features)).step ptr state .serialize = some next) :
    AccumHolds features ptr (calls ++ [.serialize]) next := by
  obtain rfl := Option.some.inj taken
  have cleared : clearedBy (calls ++ [.serialize]) = clearedBy calls := clearedBy_other calls rfl rfl
  refine ⟨?_, fun clear => ?_, fun _ => ?_⟩
  · rw [cleared, ← holds.word]
    exact not_congr (Eq.congr (controlWord_serialize features state.mem ptr (state.accums [])) rfl)
  · rw [cleared] at clear
    rw [writtenSince_other calls rfl rfl]
    exact holds.samples clear
  · exact read_serialize features state.mem ptr (state.accums [])

theorem AccumHolds.command (holds : AccumHolds features ptr calls state) (cmd : StatCmd)
    (taken : (StatType.element (.accumulator features)).step ptr state (.command cmd) = some next) :
    AccumHolds features ptr (calls ++ [.command cmd]) next := by
  by_cases clear : cmd = .clearStat
  · subst clear
    obtain rfl := Option.some.inj taken
    refine ⟨?_, fun none => ?_, fun fresh => ?_⟩
    · rw [clearedBy_clear]
      have flagged := controlWord_setControlWord features state.mem ptr 1
      exact iff_of_true (fun zero => absurd (flagged.symm.trans zero) (by decide)) rfl
    · rw [clearedBy_clear] at none
      cases none
    · rw [serializedSince_command] at fresh
      exact (read_setControlWord features state.mem ptr 1).trans (holds.copy fresh)
  · rw [StatType.step_command_other _ _ _ clear, Option.some.injEq] at taken
    subst taken
    have cleared : clearedBy (calls ++ [.command cmd]) = clearedBy calls :=
      clearedBy_other calls rfl (isClear_command clear)
    refine ⟨by rw [cleared]; exact holds.word, fun none => ?_, fun fresh => ?_⟩
    · rw [cleared] at none
      rw [writtenSince_other calls rfl (isClear_command clear)]
      exact holds.samples none
    · rw [serializedSince_command] at fresh
      exact holds.copy fresh

/-- **An accumulator is tracked through every run.** -/
theorem accumHolds_run
    (runs : run ((StatType.element (.accumulator features)).step ptr) (.initial fun _ => 0) calls =
      some state) : AccumHolds features ptr calls state := by
  refine run_induction ((StatType.element (.accumulator features)).step ptr)
    (AccumHolds features ptr) accumHolds_initial ?_ runs
  intro calls state call next holds taken
  cases call with
  | write indices value =>
    cases indices with
    | nil => exact holds.write value taken
    | cons first indices => cases taken
  | serialize => exact holds.serialize taken
  | command cmd => exact holds.command cmd taken

end

/-- **An element shows what is expected of it**, if it is serialized where it has to be. -/
theorem dump_element (element : ElementType Sample) (ptr : Nat) {calls : List (StatCall Sample)}
    (direct : ∀ call ∈ calls, call.Direct)
    (fresh : element.isSerializationDeferred = true → serializedSince calls = true)
    {state : StatState Sample}
    (runs : run ((StatType.element element).step ptr) (.initial fun _ => 0) calls = some state) :
    ((StatType.element element).dump ptr state).entries = element.expected calls := by
  cases element with
  | simpleStat stat =>
    have holds := storedBy_run (Mem.read_const ptr stat.repr.size 0) direct runs
    show [toString (stat.repr.toUnsignedLong (stat.value state.mem ptr))] = _
    rw [holds]
    rfl
  | nullStat => rfl
  | accumulator features =>
    have holds := accumHolds_run runs
    show [AccumControl.dumpFeatures (AccumControl.entryFormat features)
      (controlWord features state.mem ptr = 0) state.mem features ptr] = [_]
    cases cleared : clearedBy calls with
    | true =>
      rw [decide_eq_false (holds.word.mpr cleared), AccumControl.dumpFeatures_invalid]
      rfl
    | false =>
      have zero : controlWord features state.mem ptr = 0 := by
        by_contra flagged
        rw [holds.word.mp flagged] at cleared
        cases cleared
      rw [decide_eq_true zero, AccumControl.dumpFeatures_of_read (holds.copy (fresh rfl)),
        holds.samples cleared]
      rfl

/-! ### Nested arrays -/

/-- The calls that an element of an array sees; a stat that is no array sees all. -/
def callsFor (sizes idx : List Nat) (calls : List (StatCall Sample)) : List (StatCall Sample) :=
  if sizes = [] then calls else calls.filterMap (addressedTo sizes idx)

theorem callsFor_unserialized (sizes idx : List Nat) (calls : List (StatCall Sample)) :
    (callsFor sizes idx calls).filter (fun call => !call.isSerialize) =
      callsFor sizes idx (calls.filter fun call => !call.isSerialize) := by
  unfold callsFor
  split
  · rfl
  · rw [List.filter_filterMap, List.filterMap_filter]
    refine List.filterMap_congr fun call _ => ?_
    cases call with
    | write indices value =>
      by_cases own : elementOf sizes indices = idx
      · simp [addressedTo, StatCall.isSerialize, own]
      · simp [addressedTo, StatCall.isSerialize, own]
    | serialize => simp [addressedTo, StatCall.isSerialize]
    | command cmd => simp [addressedTo, StatCall.isSerialize]

theorem callsFor_append (sizes idx : List Nat) (calls later : List (StatCall Sample)) :
    callsFor sizes idx (calls ++ later) = callsFor sizes idx calls ++ callsFor sizes idx later := by
  unfold callsFor
  split
  · rfl
  · exact List.filterMap_append

theorem serialize_mem_callsFor {sizes idx : List Nat} {calls : List (StatCall Sample)}
    (visited : .serialize ∈ calls) : .serialize ∈ callsFor sizes idx calls := by
  unfold callsFor
  split
  · exact visited
  · exact List.mem_filterMap.mpr ⟨.serialize, visited, rfl⟩

/-- Where nothing is written, no element is. -/
theorem still_callsFor {sizes idx : List Nat} {calls : List (StatCall Sample)}
    (still : ∀ call ∈ calls, call.sample? = none) :
    ∀ call ∈ callsFor sizes idx calls, call.sample? = none := by
  intro call member
  unfold callsFor at member
  split at member
  · exact still call member
  · obtain ⟨whole, among, seen⟩ := List.mem_filterMap.mp member
    have unwritten := still whole among
    cases whole with
    | write indices value => cases unwritten
    | serialize =>
      obtain rfl := Option.some.inj seen
      rfl
    | command cmd =>
      obtain rfl := Option.some.inj seen
      rfl

/-- Writes outside of an array fail their assertion. -/
theorem StatImpl.inRange_of_write {isOperational : Bool} {impl : ElementImpl Sample} {sizes : List Nat}
    {accums : Accums Sample} {mem : Mem} {ptr : Nat} {indices : List Int} {value : Sample}
    {next : Accums Sample × Mem}
    (written : (nested isOperational sizes impl).write accums mem ptr indices value = some next) :
    InRange sizes indices := by
  induction sizes generalizing accums ptr indices next with
  | nil => exact trivial
  | cons size sizes ih =>
    cases indices with
    | nil => cases written
    | cons idx indices =>
      rw [nested_cons, write] at written
      split at written
      case isFalse => cases written
      case isTrue asserted =>
        obtain ⟨inner, writtenInner, -⟩ := Option.map_eq_some_iff.mp written
        refine ⟨asserted, ?_⟩
        cases sizes with
        | nil => exact trivial
        | cons size' sizes => exact ih writtenInner

/-- **A run's writes are in range**, as they passed the assertions. -/
theorem allowed_of_run {element : ElementType Sample} {sizes : List Nat} {ptr : Nat}
    {start state : StatState Sample} {calls : List (StatCall Sample)}
    (runs : run ((StatType.nested sizes element).step ptr) start calls = some state) :
    ∀ call ∈ calls, call.Allowed sizes := by
  intro call member
  obtain ⟨before, after, rfl⟩ := List.append_of_mem member
  obtain ⟨earlier, next, -, taken, -⟩ := run_split _ runs
  cases call with
  | write indices value =>
    obtain ⟨written, writes, -⟩ := Option.map_eq_some_iff.mp taken
    unfold OperationalStatProxy.writeVal at writes
    rw [statTypeToImpl_nested] at writes
    exact StatImpl.inRange_of_write writes
  | serialize => exact trivial
  | command cmd => exact trivial

theorem direct_of_addressedTo {sizes idx : List Nat} {calls : List (StatCall Sample)} :
    ∀ call ∈ calls.filterMap (addressedTo sizes idx), call.Direct := by
  intro call member
  obtain ⟨whole, -, seen⟩ := List.mem_filterMap.mp member
  cases whole with
  | write indices value =>
    by_cases own : elementOf sizes indices = idx
    · rw [addressedTo, if_pos own, Option.some.injEq] at seen
      subst seen
      exact rfl
    · rw [addressedTo, if_neg own] at seen
      cases seen
  | serialize =>
    obtain rfl := Option.some.inj seen
    exact trivial
  | command cmd =>
    obtain rfl := Option.some.inj seen
    exact trivial

/-- **A nested array shows of each element what is expected of it**, for any depth and any calls. -/
theorem dump_expected (element : ElementType Sample) {sizes : List Nat}
    (positive : ∀ size ∈ sizes, 0 < size) (ptr : Nat) {calls : List (StatCall Sample)}
    (plain : sizes = [] → ∀ call ∈ calls, call.Direct)
    (fresh : element.isSerializationDeferred = true → ∀ idx ∈ tuples sizes,
      serializedSince (callsFor sizes idx calls) = true)
    {state : StatState Sample}
    (runs : run ((StatType.nested sizes element).step ptr) (.initial fun _ => 0) calls = some state) :
    ((StatType.nested sizes element).dump ptr state).dimensionSizes = sizes ∧
      ((StatType.nested sizes element).dump ptr state).entries =
        (tuples sizes).flatMap fun idx => element.expected (callsFor sizes idx calls) := by
  obtain ⟨dimensions, entries⟩ := dump_nested element ptr positive state
  refine ⟨dimensions, ?_⟩
  by_cases array : sizes = []
  · subst array
    have all : ∀ idx, callsFor [] idx calls = calls := fun idx => if_pos rfl
    simp only [all] at fresh ⊢
    rw [tuples, List.flatMap_singleton]
    exact dump_element element ptr (plain rfl)
      (fun deferred => fresh deferred [] (List.mem_singleton_self _)) runs
  · have own : ∀ idx, callsFor sizes idx calls = calls.filterMap (addressedTo sizes idx) :=
      fun idx => if_neg array
    simp only [own] at fresh ⊢
    rw [entries]
    refine List.flatMap_congr fun idx member => ?_
    have bounded := mem_tuples.mp member
    obtain ⟨whole, part, runs', runsPart, mirrors⟩ :=
      run_nested element ptr array positive bounded (fun _ => 0) (allowed_of_run runs)
    obtain rfl := Option.some.inj (runs.symm.trans runs')
    rw [mirrors.shownEntries]
    exact dump_element element _ direct_of_addressedTo (fun deferred => fresh deferred idx member)
      runsPart

end StatLog.Stats
