/-
**Statistics after a clear.**

One accumulator stat, with `write` and `serialize` of the operational process and `CLEAR_STAT` and
`DUMP_STAT` of the control process as atomic steps in any order. `write` drops the control word at
once, but the serialized copy keeps its old values until the next `serialize`.

* `NotStale`: a dump shows zeros, or values of samples written since the last clear.
* `Refreshed`: no sample was written since that clear, or `serialize` ran after one was, or the copy
  has never held a sample.
* **`dump_notStale`**: in every run whose dumps are refreshed, no dump is stale.
* `dump_stale`: a sample written before a clear is shown after it.
-/

import StatLog.Lib.Transition
import StatLog.Stats.Accumulator

namespace StatLog.Stats

open ByteMemory Transition

variable {Sample : Type}

/-- The accumulator of the operational process and the shared memory. -/
structure AccumStat (Sample : Type) where
  acc : List Sample
  mem : Mem

/-- One atomic step of either process. -/
inductive StatEvent (Sample : Type)
  | write (sample : Sample)
  | serialize
  | clear
  | dump

namespace StatEvent

/-- The sample an event writes. -/
def sample : StatEvent Sample → Option Sample
  | .write x => some x
  | _ => none

end StatEvent

/-- The samples written in a list of events. -/
def written (events : List (StatEvent Sample)) : List Sample := events.filterMap StatEvent.sample

theorem written_append (events later : List (StatEvent Sample)) :
    written (events ++ later) = written events ++ written later :=
  List.filterMap_append

/-- `serialize` ran after a sample was written. -/
def SerializedSample (events : List (StatEvent Sample)) : Prop :=
  ∃ before x after, events = before ++ .write x :: after ∧ .serialize ∈ after

namespace AccumStat

/-- An accumulator without samples, and zeroed memory. -/
def initial : AccumStat Sample := ⟨[], fun _ => 0⟩

variable (features : List (Feature Sample)) (ptr : Nat)

/-- What `DUMP_STAT` shows. -/
def shown (stat : AccumStat Sample) : List String :=
  (AccumControl.doStatCommand features ptr .dumpStat stat.mem {}).2.entries

/-- **One step**, for an accumulator at `ptr`. -/
def step (stat : AccumStat Sample) : StatEvent Sample → Option (AccumStat Sample)
  | .write x =>
    let next := AccumOp.write features stat.acc stat.mem ptr x
    some ⟨next.1, next.2⟩
  | .serialize => some { stat with mem := AccumOp.serialize features stat.acc stat.mem ptr }
  | .clear => some { stat with
      mem := (AccumControl.doStatCommand features ptr .clearStat stat.mem {}).1 }
  | .dump => some { stat with
      mem := (AccumControl.doStatCommand features ptr .dumpStat stat.mem {}).1 }

/-- A dump after a clear shows zeros, or the values of samples written since the last one. -/
def NotStale (history : List (StatEvent Sample)) (stat : AccumStat Sample) :
    StatEvent Sample → Prop
  | .dump => ∀ before after, history = before ++ .clear :: after → .clear ∉ after →
      stat.shown features ptr = [shownZero features (AccumControl.entryFormat features)] ∨
        ∃ samples, samples <+: written after ∧
          stat.shown features ptr = [shownValue features (AccumControl.entryFormat features) samples]
  | _ => True

/-- A dump after a clear comes before the next sample is written, or after a `serialize` that saw a
sample written since, or while `serialize` has not seen any sample at all. -/
def Refreshed (history : List (StatEvent Sample)) (_ : AccumStat Sample) : StatEvent Sample → Prop
  | .dump => ∀ before after, history = before ++ .clear :: after → .clear ∉ after →
      written after = [] ∨ SerializedSample after ∨ ¬ SerializedSample history
  | _ => True

end AccumStat

/-! ### What was serialized -/

/-- Other events than writes write nothing. -/
theorem written_concat {event : StatEvent Sample} (silent : event.sample = none)
    (events : List (StatEvent Sample)) : written (events ++ [event]) = written events := by
  rw [written_append, written, written, List.filterMap_cons_none silent, List.filterMap_nil,
    List.append_nil]

theorem written_ne_nil {events : List (StatEvent Sample)} {x : Sample} (member : .write x ∈ events) :
    written events ≠ [] := by
  intro none
  have := List.filterMap_eq_nil_iff.mp none _ member
  cases this

theorem exists_write_of_written {events : List (StatEvent Sample)} (some' : written events ≠ []) :
    ∃ x, StatEvent.write x ∈ events := by
  obtain ⟨x, member⟩ := List.exists_mem_of_ne_nil _ some'
  obtain ⟨event, inside, samples⟩ := List.mem_filterMap.mp member
  cases event with
  | write y =>
    cases samples
    exact ⟨_, inside⟩
  | serialize => cases samples
  | clear => cases samples
  | dump => cases samples

/-- One more event serializes a sample only if it is a `serialize` after one was written. -/
theorem serializedSample_concat {events : List (StatEvent Sample)} {event : StatEvent Sample} :
    SerializedSample (events ++ [event]) ↔
      SerializedSample events ∨ event = .serialize ∧ written events ≠ [] := by
  constructor
  · rintro ⟨before, x, after, split, member⟩
    rcases List.eq_nil_or_concat after with rfl | ⟨earlier, newest, rfl⟩
    · cases member
    · rw [List.concat_eq_append] at split member
      rw [← List.cons_append, ← List.append_assoc] at split
      obtain ⟨same, lastEq⟩ := List.append_inj' split rfl
      obtain rfl := List.singleton_inj.mp lastEq
      rcases List.mem_append.mp member with earlier' | last
      · exact Or.inl ⟨before, x, earlier, same, earlier'⟩
      · refine Or.inr ⟨(List.mem_singleton.mp last).symm, ?_⟩
        rw [same]
        exact written_ne_nil (List.mem_append_right _ List.mem_cons_self)
  · rintro (⟨before, x, after, rfl, member⟩ | ⟨rfl, some'⟩)
    · refine ⟨before, x, after ++ [event], ?_, List.mem_append_left _ member⟩
      rw [List.append_assoc, List.cons_append]
    · obtain ⟨x, member⟩ := exists_write_of_written some'
      obtain ⟨before, after, rfl⟩ := List.append_of_mem member
      refine ⟨before, x, after ++ [.serialize], ?_, List.mem_append_right _ List.mem_cons_self⟩
      rw [List.append_assoc, List.cons_append]

namespace AccumStat

variable (features : List (Feature Sample)) (ptr : Nat)

/-- The samples the serialized copy was made of; none when it is still zeroed. -/
def CopyOf (stat : AccumStat Sample) : Option (List Sample) → Prop
  | none => stat.mem.read ptr (featuresSize features) = List.replicate (featuresSize features) 0
  | some samples => stat.mem.read ptr (featuresSize features) = featureBytes features samples

/-- What is known after the last clear. -/
structure Since (stat : AccumStat Sample) (copied : Option (List Sample))
    (after : List (StatEvent Sample)) : Prop where
  control : controlWord features stat.mem ptr = 0 ↔ written after ≠ []
  acc : written after ≠ [] → stat.acc = written after
  copy : SerializedSample after → ∃ samples, copied = some samples ∧ samples <+: written after

/-- **The invariant**: what the three pieces of state were made of. -/
structure Tracks (history : List (StatEvent Sample)) (stat : AccumStat Sample)
    (copied : Option (List Sample)) : Prop where
  copyOf : stat.CopyOf features ptr copied
  empty : written history = [] → stat.acc = []
  unserialized : ¬ SerializedSample history → copied = none ∨ copied = some []
  since : ∀ before after, history = before ++ .clear :: after → .clear ∉ after →
    stat.Since features ptr copied after

variable {features ptr} {history : List (StatEvent Sample)} {stat next : AccumStat Sample}
  {copied : Option (List Sample)}

theorem tracks_initial : (initial : AccumStat Sample).Tracks features ptr [] none where
  copyOf := by
    refine List.eq_replicate_iff.mpr ⟨Mem.length_read _ _ _, fun byte member => ?_⟩
    obtain ⟨offset, -, rfl⟩ := List.mem_map.mp member
    rfl
  empty _ := rfl
  unserialized _ := Or.inl rfl
  since before after split _ := by
    have := congrArg List.length split
    simp at this

/-- The copy does not change with the control word. -/
theorem CopyOf.setControlWord (copy : stat.CopyOf features ptr copied) (acc : List Sample)
    (value : Nat) :
    (⟨acc, StatLog.Stats.setControlWord features stat.mem ptr value⟩ : AccumStat Sample).CopyOf
      features ptr copied := by
  cases copied with
  | none => exact (read_setControlWord features stat.mem ptr value).trans copy
  | some samples => exact (read_setControlWord features stat.mem ptr value).trans copy

/-- While no sample has been serialized, the copy holds none. -/
theorem Tracks.unserialized_concat (tracks : stat.Tracks features ptr history copied)
    {event : StatEvent Sample} (fresh : ¬ SerializedSample (history ++ [event])) :
    copied = none ∨ copied = some [] :=
  tracks.unserialized fun serialized => fresh (serializedSample_concat.mpr (Or.inl serialized))

/-- A write serializes nothing. -/
theorem serializedSample_of_write {events : List (StatEvent Sample)} {x : Sample}
    (serialized : SerializedSample (events ++ [.write x])) : SerializedSample events := by
  rcases serializedSample_concat.mp serialized with earlier | ⟨impossible, -⟩
  · exact earlier
  · cases impossible

/-- A write that finds the control word set starts again. -/
theorem Since.reset {events : List (StatEvent Sample)} (since : stat.Since features ptr copied events)
    (flagged : controlWord features stat.mem ptr ≠ 0) (x : Sample) :
    (⟨[x], StatLog.Stats.setControlWord features stat.mem ptr 0⟩ : AccumStat Sample).Since features ptr
      copied (events ++ [.write x]) := by
  have first : written events = [] := by
    by_contra some'
    exact flagged (since.control.mpr some')
  have new : written (events ++ [.write x]) = [x] := by
    rw [written_append, first]
    rfl
  refine ⟨?_, fun _ => new.symm, fun serialized => ?_⟩
  · rw [new]
    refine ⟨fun _ => List.cons_ne_nil _ _, fun _ => ?_⟩
    exact controlWord_setControlWord features stat.mem ptr 0
  · obtain ⟨samples, copy, isPrefix⟩ := since.copy (serializedSample_of_write serialized)
    exact ⟨samples, copy, isPrefix.trans (by rw [first]; exact List.nil_prefix)⟩

/-- Any other write is one more sample. -/
theorem Since.add {events : List (StatEvent Sample)} (since : stat.Since features ptr copied events)
    (clear : controlWord features stat.mem ptr = 0) (x : Sample) :
    (⟨stat.acc ++ [x], stat.mem⟩ : AccumStat Sample).Since features ptr copied
      (events ++ [.write x]) := by
  have some' := since.control.mp clear
  have new : written (events ++ [.write x]) = written events ++ [x] := written_append _ _
  refine ⟨?_, fun _ => ?_, fun serialized => ?_⟩
  · rw [new]
    exact ⟨fun _ => List.append_ne_nil_of_right_ne_nil _ (List.cons_ne_nil _ _), fun _ => clear⟩
  · rw [new, ← since.acc some']
  · obtain ⟨samples, copy, isPrefix⟩ := since.copy (serializedSample_of_write serialized)
    exact ⟨samples, copy, isPrefix.trans (by rw [new]; exact List.prefix_append _ _)⟩

/-- After one more sample. -/
theorem Tracks.write (tracks : stat.Tracks features ptr history copied) (x : Sample)
    (taken : stat.step features ptr (.write x) = some next) :
    next.Tracks features ptr (history ++ [.write x]) copied := by
  have never : written (history ++ [.write x]) ≠ [] := by
    rw [written_append]
    exact List.append_ne_nil_of_right_ne_nil _ (List.cons_ne_nil _ _)
  simp only [step, AccumOp.write, Option.some.injEq] at taken
  by_cases flagged : controlWord features stat.mem ptr ≠ 0
  · rw [if_pos flagged] at taken
    subst taken
    refine ⟨tracks.copyOf.setControlWord _ 0, fun none => absurd none never,
      tracks.unserialized_concat, fun before after split isLast => ?_⟩
    rcases last_concat split isLast with ⟨-, -, impossible⟩ | ⟨earlier, rfl, same, notIn, -⟩
    · cases impossible
    · exact (tracks.since before earlier same notIn).reset flagged x
  · rw [if_neg flagged] at taken
    subst taken
    refine ⟨tracks.copyOf, fun none => absurd none never, tracks.unserialized_concat,
      fun before after split isLast => ?_⟩
    rcases last_concat split isLast with ⟨-, -, impossible⟩ | ⟨earlier, rfl, same, notIn, -⟩
    · cases impossible
    · exact (tracks.since before earlier same notIn).add (not_not.mp flagged) x

/-- After `serialize`, the copy is made of the samples of the accumulator. -/
theorem Tracks.serialize (tracks : stat.Tracks features ptr history copied)
    (taken : stat.step features ptr .serialize = some next) :
    next.Tracks features ptr (history ++ [.serialize]) (some stat.acc) := by
  simp only [step, Option.some.injEq] at taken
  subst taken
  have sameSamples : ∀ events : List (StatEvent Sample),
      written (events ++ [.serialize]) = written events := written_concat rfl
  refine ⟨read_serialize features stat.mem ptr stat.acc, ?_, ?_, ?_⟩
  · intro none
    rw [sameSamples] at none
    exact tracks.empty none
  · intro fresh
    have none : written history = [] := by
      by_contra some'
      exact fresh (serializedSample_concat.mpr (Or.inr ⟨rfl, some'⟩))
    exact Or.inr (congrArg some (tracks.empty none))
  · intro before after split isLast
    rcases last_concat split isLast with ⟨-, -, impossible⟩ | ⟨earlier, rfl, same, notIn, -⟩
    · cases impossible
    · have since := tracks.since before earlier same notIn
      refine ⟨?_, ?_, fun serialized => ?_⟩
      · rw [sameSamples, ← since.control]
        exact Eq.congr (controlWord_serialize features stat.mem ptr stat.acc) rfl
      · rw [sameSamples]
        exact since.acc
      · have some' : written earlier ≠ [] := by
          rcases serializedSample_concat.mp serialized with ⟨b, x, a, rfl, -⟩ | ⟨-, some'⟩
          · exact written_ne_nil (List.mem_append_right _ List.mem_cons_self)
          · exact some'
        rw [sameSamples, ← since.acc some']
        exact ⟨stat.acc, rfl, List.prefix_refl _⟩

/-- After a clear, no sample was written since. -/
theorem Tracks.clear (tracks : stat.Tracks features ptr history copied)
    (taken : stat.step features ptr .clear = some next) :
    next.Tracks features ptr (history ++ [.clear]) copied := by
  simp only [step, AccumControl.doStatCommand, Option.some.injEq] at taken
  subst taken
  have sameSamples : written (history ++ [.clear]) = written history := written_concat rfl history
  refine ⟨tracks.copyOf.setControlWord _ 1, ?_, ?_, ?_⟩
  · intro none
    rw [sameSamples] at none
    exact tracks.empty none
  · exact tracks.unserialized_concat
  · intro before after split isLast
    rcases last_concat split isLast with ⟨-, rfl, -⟩ | ⟨earlier, rfl, same, notIn, different⟩
    · refine ⟨?_, fun some' => absurd rfl some', fun serialized => ?_⟩
      · have flagged := controlWord_setControlWord features stat.mem ptr 1
        refine ⟨fun zero => ?_, fun some' => absurd rfl some'⟩
        rw [zero] at flagged
        cases flagged
      · obtain ⟨b, x, a, split, -⟩ := serialized
        have := congrArg List.length split
        simp at this
    · exact absurd rfl different

/-- A dump changes nothing. -/
theorem Tracks.dump (tracks : stat.Tracks features ptr history copied)
    (taken : stat.step features ptr .dump = some next) :
    next.Tracks features ptr (history ++ [.dump]) copied := by
  simp only [step, AccumControl.doStatCommand, Option.some.injEq] at taken
  subst taken
  have sameSamples : ∀ events : List (StatEvent Sample), written (events ++ [.dump]) = written events :=
    written_concat rfl
  refine ⟨tracks.copyOf, ?_, ?_, ?_⟩
  · intro none
    rw [sameSamples] at none
    exact tracks.empty none
  · exact tracks.unserialized_concat
  · intro before after split isLast
    rcases last_concat split isLast with ⟨-, -, impossible⟩ | ⟨earlier, rfl, same, notIn, -⟩
    · cases impossible
    · have since := tracks.since before earlier same notIn
      refine ⟨?_, ?_, fun serialized => ?_⟩
      · rw [sameSamples]
        exact since.control
      · rw [sameSamples]
        exact since.acc
      · rcases serializedSample_concat.mp serialized with earlier' | ⟨impossible, -⟩
        · rw [sameSamples]
          exact since.copy earlier'
        · cases impossible

/-- **Every run is tracked.** -/
theorem tracks_of_run (runs : run (step features ptr) initial history = some stat) :
    ∃ copied, stat.Tracks features ptr history copied := by
  refine run_induction (step features ptr) (fun history stat =>
    ∃ copied, stat.Tracks features ptr history copied) ⟨none, tracks_initial⟩ ?_ runs
  rintro history stat event next ⟨copied, tracks⟩ taken
  cases event with
  | write x => exact ⟨copied, tracks.write x taken⟩
  | serialize => exact ⟨some stat.acc, tracks.serialize taken⟩
  | clear => exact ⟨copied, tracks.clear taken⟩
  | dump => exact ⟨copied, tracks.dump taken⟩

/-- A refreshed dump is not stale. -/
theorem Tracks.notStale (tracks : stat.Tracks features ptr history copied) {event : StatEvent Sample}
    (refreshed : Refreshed history stat event) : NotStale features ptr history stat event := by
  cases event with
  | write x => trivial
  | serialize => trivial
  | clear => trivial
  | dump =>
    intro before after split isLast
    have since := tracks.since before after split isLast
    simp only [shown, AccumControl.doStatCommand, List.nil_append]
    by_cases clear : controlWord features stat.mem ptr = 0
    · rw [decide_eq_true clear]
      have some' := since.control.mp clear
      have copy := tracks.copyOf
      rcases refreshed before after split isLast with none | serialized | unserialized
      · exact absurd none some'
      · obtain ⟨samples, rfl, isPrefix⟩ := since.copy serialized
        rw [AccumControl.dumpFeatures_of_read copy]
        exact Or.inr ⟨samples, isPrefix, rfl⟩
      · rcases tracks.unserialized unserialized with rfl | rfl
        · rw [AccumControl.dumpFeatures_of_zero copy]
          exact Or.inl rfl
        · rw [AccumControl.dumpFeatures_of_read copy]
          exact Or.inr ⟨[], List.nil_prefix, rfl⟩
    · rw [decide_eq_false clear, AccumControl.dumpFeatures_invalid]
      exact Or.inl rfl

variable (features ptr)

/-- **When no dump is stale.** In every run in which each dump after a clear comes before the next
sample is written, or after a `serialize` that saw a sample written since, or while `serialize` has
not seen any sample, every dump after a clear shows zeros or values of samples written since. -/
theorem dump_notStale {history : List (StatEvent Sample)} {final : AccumStat Sample}
    (runs : run (step features ptr) initial history = some final)
    (refreshed : Along (step features ptr) initial history Refreshed) :
    Along (step features ptr) initial history (NotStale features ptr) :=
  refreshed.mono (fun history stat => ∃ copied, stat.Tracks features ptr history copied)
    tracks_of_run runs fun _ _ _ _ ⟨_, tracks⟩ _ => tracks.notStale

/-- A dump after a clear, a sample and a `serialize` shows no sample from before the clear. -/
theorem dump_notStale_serialized :
    Along (step [count] 0) (initial : AccumStat Nat) [.write 5, .clear, .write 7, .serialize, .dump]
      (NotStale [count] 0) := by
  have first : Along (step [count] 0) (initial : AccumStat Nat)
      ([] ++ [.write 5] ++ [.clear] ++ [.write 7] ++ [.serialize]) Refreshed :=
    Along.concat (Along.concat (Along.concat (Along.concat (along_nil _ _) fun _ _ => trivial)
      fun _ _ => trivial) fun _ _ => trivial) fun _ _ => trivial
  refine dump_notStale [count] 0 rfl (first.concat fun stat _ before after split isLast => ?_)
  have split : [.write 5, .clear, .write 7, .serialize] = before ++ StatEvent.clear :: after := split
  rcases before with _ | ⟨oldest, _ | ⟨second, rest⟩⟩
  · cases split
  · cases split
    exact Or.inr (Or.inl ⟨[], 7, [.serialize], rfl, List.mem_singleton_self _⟩)
  · simp only [List.cons_append, List.cons.injEq] at split
    have another : StatEvent.clear ∈ [StatEvent.write 7, .serialize] := by
      rw [split.2.2]
      exact List.mem_append_right _ List.mem_cons_self
    simp at another

/-- **Not always fresh**: two samples are written and serialized, then comes a clear and one more
sample. The dump still shows a count of two. -/
theorem dump_stale :
    ¬ ∀ (Sample : Type) (features : List (Feature Sample)) (ptr : Nat)
      (history : List (StatEvent Sample)) (final : AccumStat Sample),
      run (step features ptr) initial history = some final →
      Along (step features ptr) initial history (NotStale features ptr) := by
  intro always
  have along := always Nat [count] 0 [.write 5, .write 6, .serialize, .clear, .write 7, .dump] _ rfl
  obtain ⟨stat, runs⟩ : ∃ stat, run (step [count] 0) (initial : AccumStat Nat)
      [.write 5, .write 6, .serialize, .clear, .write 7] = some stat := ⟨_, rfl⟩
  have two : stat.shown [count] 0 = ["2"] := by
    cases runs
    decide +kernel
  have fresh := along _ .dump [] stat rfl runs [.write 5, .write 6, .serialize] [.write 7] rfl (by simp)
  rw [two] at fresh
  rcases fresh with zeros | ⟨samples, isPrefix, shownSamples⟩
  · revert zeros
    decide +kernel
  · rcases List.prefix_cons_iff.mp isPrefix with rfl | ⟨rest, rfl, none⟩
    · revert shownSamples
      decide +kernel
    · obtain rfl := List.prefix_nil.mp none
      revert shownSamples
      decide +kernel

end AccumStat

end StatLog.Stats
