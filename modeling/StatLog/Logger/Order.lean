/-
**The order in which the log is printed.**

`getLog` does not know the write cursor. It takes the first slot among those with the smallest time
stamp for the beginning of the log, so for stamps that never decrease everything depends on how the
entries with the oldest survivor's stamp lie around the end of the ring.

* `StartsLowest`: no survivor with the oldest one's stamp starts in a lower slot.
* `printOrder_of_startsLowest`, `startsLowest_of_printOrder`: the two directions.
* **`printOrder_eq_writeOrder_iff`**: for stamps that never decrease the entries are printed in the
  order in which they were written if and only if each announces itself and `StartsLowest` holds.
* `printOrder_ne_writeOrder`: two slots, and three entries with one stamp.
-/

import StatLog.Logger.RoundTrip

namespace StatLog.Logger

open ByteMemory CircularBuffer

/-- The stamps never decrease from one call to the next. -/
def StampsNondecreasing (calls : List WriteCall) : Prop :=
  calls.IsChain fun first second => TimeStamp.Le first.timeStamp second.timeStamp

/-- The stamp of a call. -/
def stampOf (calls : List WriteCall) (index : Nat) : Option TimeStamp :=
  calls[index]?.map WriteCall.timeStamp

/-- Among the survivors with the stamp of the oldest one, the oldest starts in the lowest slot. -/
def StartsLowest (numLogEntries : Nat) (calls : List WriteCall) : Prop :=
  ∀ oldest, (survivors numLogEntries calls).head? = some oldest →
    ∀ index ∈ survivors numLogEntries calls, stampOf calls index = stampOf calls oldest →
      startSlot numLogEntries calls oldest ≤ startSlot numLogEntries calls index

instance (numLogEntries : Nat) (calls : List WriteCall) :
    Decidable (StartsLowest numLogEntries calls) :=
  match equal : (survivors numLogEntries calls).head? with
  | none => isTrue fun oldest found => by rw [equal] at found; cases found
  | some first =>
    decidable_of_iff (∀ index ∈ survivors numLogEntries calls,
        stampOf calls index = stampOf calls first →
          startSlot numLogEntries calls first ≤ startSlot numLogEntries calls index)
      ⟨fun lowest oldest found => by
        rw [equal] at found
        cases found
        exact lowest, fun lowest => lowest first equal⟩

/-- An earlier call has no later stamp. -/
theorem StampsNondecreasing.le {calls : List WriteCall} (nondecreasing : StampsNondecreasing calls)
    {first second : Nat} (order : first < second) (inside : second < calls.length) :
    TimeStamp.Le calls[first].timeStamp calls[second].timeStamp := by
  have transitive : IsTrans WriteCall fun first second =>
      TimeStamp.Le first.timeStamp second.timeStamp := ⟨fun _ _ _ => TimeStamp.Le.trans⟩
  exact List.pairwise_iff_getElem.mp (List.isChain_iff_pairwise.mp nondecreasing) first second _
    inside order

theorem stampOf_eq {numLogEntries : Nat} (positive : 0 < numLogEntries) {calls : List WriteCall}
    {index : Nat} (survives : index ∈ survivors numLogEntries calls) :
    stampOf calls index = some (timeStampAt (writeAll numLogEntries .initial calls).mem
      (startSlot numLogEntries calls index)) := by
  obtain ⟨inside, fits⟩ := mem_survivors.mp survives
  rw [stampOf, List.getElem?_eq_getElem inside, survivor_timeStamp positive inside fits]
  rfl

/-- A survivor that announces itself has a header with blocks. -/
theorem numBlocksAt_pos {numLogEntries : Nat} (positive : 0 < numLogEntries) {calls : List WriteCall}
    {index : Nat} (survives : index ∈ survivors numLogEntries calls)
    (announces : announcesItself calls index = true) :
    0 < numBlocksAt (writeAll numLogEntries .initial calls).mem
      (startSlot numLogEntries calls index) := by
  refine (ring_parses positive calls).pos_of_mem _ (List.mem_map_of_mem ?_)
  exact List.mem_filter.mpr ⟨survives, announces⟩

theorem survivors_sorted (numLogEntries : Nat) (calls : List WriteCall) :
    (survivors numLogEntries calls).Pairwise (· < ·) :=
  List.pairwise_lt_range.filter _

section Order

variable {numLogEntries : Nat} (positive : 0 < numLogEntries) {calls : List WriteCall}

include positive

/-- No survivor has a smaller stamp than the oldest one. -/
theorem oldest_le (nondecreasing : StampsNondecreasing calls) {oldest index : Nat}
    (head : (survivors numLogEntries calls).head? = some oldest)
    (survives : index ∈ survivors numLogEntries calls) :
    TimeStamp.Le
      (timeStampAt (writeAll numLogEntries .initial calls).mem (startSlot numLogEntries calls oldest))
      (timeStampAt (writeAll numLogEntries .initial calls).mem
        (startSlot numLogEntries calls index)) := by
  obtain ⟨younger, split⟩ := List.head?_eq_some_iff.mp head
  obtain ⟨inside, fits⟩ := mem_survivors.mp survives
  obtain ⟨oldestInside, oldestFits⟩ := mem_survivors.mp (List.mem_of_mem_head? head)
  rcases List.mem_cons.mp (split ▸ survives) with rfl | later
  · exact TimeStamp.Le.refl _
  · have sorted := survivors_sorted numLogEntries calls
    rw [split] at sorted
    rw [survivor_timeStamp positive inside fits, survivor_timeStamp positive oldestInside oldestFits]
    exact nondecreasing.le (List.rel_of_pairwise_cons sorted later) inside

/-- **The search finds the oldest survivor**: no survivor has a smaller stamp, and none with the same
stamp lies below it. -/
theorem first_eq_oldest (nondecreasing : StampsNondecreasing calls)
    (announce : ∀ index ∈ survivors numLogEntries calls, announcesItself calls index = true)
    (lowest : StartsLowest numLogEntries calls) {oldest index : Nat}
    (head : (survivors numLogEntries calls).head? = some oldest)
    (survives : index ∈ survivors numLogEntries calls)
    (isFirst : IsFirst (writeAll numLogEntries .initial calls).mem numLogEntries
      (startSlot numLogEntries calls index)) :
    startSlot numLogEntries calls index = startSlot numLogEntries calls oldest := by
  have oldestSurvives : oldest ∈ survivors numLogEntries calls := List.mem_of_mem_head? head
  have counted := numBlocksAt_pos positive oldestSurvives (announce oldest oldestSurvives)
  have same := TimeStamp.Le.antisymm (isFirst.smallest _ (Nat.mod_lt _ positive) counted)
    (oldest_le positive nondecreasing head survives)
  have below : startSlot numLogEntries calls oldest ≤ startSlot numLogEntries calls index := by
    apply lowest oldest head index survives
    rw [stampOf_eq positive survives, stampOf_eq positive oldestSurvives, same]
    rfl
  by_contra different
  apply isFirst.earliest _ (Nat.lt_of_le_of_ne below (Ne.symm different)) counted
  exact same.symm

/-- **Enough for the write order.** -/
theorem printOrder_of_startsLowest (nondecreasing : StampsNondecreasing calls)
    (announce : ∀ index ∈ survivors numLogEntries calls, announcesItself calls index = true)
    (lowest : StartsLowest numLogEntries calls) :
    printOrder numLogEntries (writeAll numLogEntries .initial calls).mem =
      (survivors numLogEntries calls).map (startSlot numLogEntries calls) := by
  have visible : visibleSlots numLogEntries calls =
      (survivors numLogEntries calls).map (startSlot numLogEntries calls) := by
    rw [visibleSlots, List.filter_eq_self.mpr announce]
  rcases printOrder_rotate positive calls with ⟨-, silent, order⟩ |
    ⟨first, before, after, -, isFirst, heads, order⟩
  · rw [order, ← visible, silent]
  · have distinct := visibleSlots_nodup positive calls
    rw [← visible, heads, order]
    rw [heads] at distinct
    cases before with
    | nil => exact List.append_nil _
    | cons slot before =>
      -- the slots before the first one would begin with the oldest survivor, which is the first one
      exfalso
      rw [visible] at heads
      have member : first ∈ (survivors numLogEntries calls).map (startSlot numLogEntries calls) := by
        rw [heads]
        exact List.mem_append_right _ List.mem_cons_self
      obtain ⟨index, survives, rfl⟩ := List.mem_map.mp member
      obtain ⟨oldest, younger, split, rfl, -⟩ := List.map_eq_cons_iff.mp heads
      have same := first_eq_oldest positive nondecreasing announce lowest
        (List.head?_eq_some_iff.mpr ⟨younger, split⟩) survives isFirst
      apply (List.nodup_cons.mp distinct).1
      rw [← same]
      exact List.mem_append_right _ List.mem_cons_self

/-- The write order is printed only if every survivor announces itself. -/
theorem announce_of_printOrder
    (order : printOrder numLogEntries (writeAll numLogEntries .initial calls).mem =
      (survivors numLogEntries calls).map (startSlot numLogEntries calls)) :
    ∀ index ∈ survivors numLogEntries calls, announcesItself calls index = true := by
  have sameLength : (printOrder numLogEntries (writeAll numLogEntries .initial calls).mem).length =
      (visibleSlots numLogEntries calls).length := by
    rcases printOrder_rotate positive calls with ⟨-, silent, empty⟩ |
      ⟨first, before, after, -, -, heads, rotated⟩
    · rw [silent, empty]
    · rw [heads, rotated]
      simp only [List.length_append, List.length_cons]
      omega
  rw [order, visibleSlots, List.length_map, List.length_map] at sameLength
  exact List.filter_eq_self.mp (List.Sublist.eq_of_length List.filter_sublist sameLength.symm)

/-- **Needed for the write order**: the search takes the lowest of the slots with its stamp. -/
theorem startsLowest_of_printOrder
    (order : printOrder numLogEntries (writeAll numLogEntries .initial calls).mem =
      (survivors numLogEntries calls).map (startSlot numLogEntries calls)) :
    StartsLowest numLogEntries calls := by
  have announce := announce_of_printOrder positive order
  intro oldest head index survives same
  have oldestSurvives : oldest ∈ survivors numLogEntries calls := List.mem_of_mem_head? head
  rw [stampOf_eq positive survives, stampOf_eq positive oldestSurvives, Option.some.injEq] at same
  rcases printOrder_rotate positive calls with ⟨-, -, empty⟩ |
    ⟨first, before, after, -, isFirst, -, rotated⟩
  · rw [empty] at order
    rw [List.map_eq_nil_iff.mp order.symm] at survives
    cases survives
  · have starts : startSlot numLogEntries calls oldest = first := by
      have heads := congrArg List.head? order
      rw [rotated, List.head?_map, head] at heads
      exact (Option.some.inj heads).symm
    by_cases below : startSlot numLogEntries calls index < first
    · refine absurd ?_ (isFirst.earliest _ below
        (numBlocksAt_pos positive survives (announce index survives)))
      rw [same, starts]
    · rw [starts]
      exact Nat.le_of_not_lt below

/-- **When the log is printed in the order in which it was written.** For stamps that never decrease
this is so if and only if every surviving entry announces itself (always, with less than `2 ^ 32`
slots) and, among those with the oldest one's stamp, the oldest starts in the lowest slot. -/
theorem printOrder_eq_writeOrder_iff (nondecreasing : StampsNondecreasing calls) :
    printOrder numLogEntries (writeAll numLogEntries .initial calls).mem =
        (survivors numLogEntries calls).map (startSlot numLogEntries calls) ↔
      (∀ index ∈ survivors numLogEntries calls, announcesItself calls index = true) ∧
        StartsLowest numLogEntries calls := by
  constructor
  · intro order
    exact ⟨announce_of_printOrder positive order, startsLowest_of_printOrder positive order⟩
  · rintro ⟨announce, lowest⟩
    exact printOrder_of_startsLowest positive nondecreasing announce lowest

end Order

/-- Three entries of one slot each at seconds `0`, `1` and `2`, in a ring of two slots. -/
theorem printOrder_eq_writeOrder_three :
    printOrder 2 (writeAll 2 .initial
        [(sampleMessage 1 0).call, (sampleMessage 1 1).call, (sampleMessage 1 2).call]).mem =
      [1, 0] :=
  (printOrder_eq_writeOrder_iff (by decide) (by
    unfold StampsNondecreasing
    decide)).mpr ⟨by decide, by decide⟩

/-- **Not always the write order**: with one stamp for all three entries the last one, in slot `0`,
is printed before the second, in slot `1`. -/
theorem printOrder_ne_writeOrder :
    ¬ ∀ (numLogEntries : Nat) (calls : List WriteCall), 0 < numLogEntries →
      StampsNondecreasing calls →
      printOrder numLogEntries (writeAll numLogEntries .initial calls).mem =
        (survivors numLogEntries calls).map (startSlot numLogEntries calls) := by
  intro always
  have order := always 2 (List.replicate 3 (sampleMessage 1 0).call) (by decide) (by
    unfold StampsNondecreasing
    decide)
  have printed : printOrder 2
      (writeAll 2 .initial (List.replicate 3 (sampleMessage 1 0).call)).mem = [0, 1] := by
    decide +kernel
  have written : (survivors 2 (List.replicate 3 (sampleMessage 1 0).call)).map
      (startSlot 2 (List.replicate 3 (sampleMessage 1 0).call)) = [1, 0] := by
    decide
  rw [printed, written] at order
  cases order

end StatLog.Logger
