/-
**Samples counted in bins.**

Points that do not decrease cut a line into bins. The samples in front of the first one and those
behind the last one have a bin each.

* `BinCounts`: the numbers of samples in all bins.
* `increments`: one counter for each bin, incremented sample by sample; `increments_getElem?` and
  `sum_increments` say what it comes to.
* **`BinCounts.iff_separate`**: other points have the same counts exactly if each of them separates the
  samples in the same way.
-/

import Mathlib.Algebra.GroupWithZero.Nat
import Mathlib.Data.List.Basic
import Mathlib.Data.List.Induction
import Mathlib.Order.Lattice

namespace Binning

/-! ### Counters -/

section

variable {Sample : Type*} (index : Sample → Nat)

/-- One counter for each bin, incremented sample by sample. -/
def increments (bins : Nat) (samples : List Sample) : List Nat :=
  samples.foldl (fun counters sample => counters.modify (index sample) (· + 1))
    (List.replicate bins 0)

variable {index}

theorem foldl_modify_getElem? (samples : List Sample) (counters : List Nat) (i : Nat) :
    (samples.foldl (fun counters sample => counters.modify (index sample) (· + 1)) counters)[i]? =
      counters[i]?.map (· + samples.countP fun sample => index sample = i) := by
  induction samples generalizing counters with
  | nil => simp
  | cons sample samples ih =>
    rw [List.foldl_cons, ih, List.getElem?_modify, Option.map_eq_map, Option.map_map,
      List.countP_cons]
    congr 1
    ext counter
    show (if index sample = i then counter + 1 else counter) +
      samples.countP (fun sample => index sample = i) = _
    by_cases here : index sample = i
    · rw [if_pos here, if_pos (decide_eq_true here)]
      omega
    · rw [if_neg here, if_neg (by simpa using here), Nat.add_zero]

/-- **Every counter holds the number of samples in its bin.** -/
theorem increments_getElem? {bins i : Nat} (inside : i < bins) (samples : List Sample) :
    (increments index bins samples)[i]? =
      some (samples.countP fun sample => index sample = i) := by
  rw [increments, foldl_modify_getElem?, List.getElem?_replicate, if_pos inside, Option.map_some,
    Nat.zero_add]

@[simp] theorem length_increments (bins : Nat) (samples : List Sample) :
    (increments index bins samples).length = bins := by
  unfold increments
  generalize start : List.replicate bins 0 = counters
  have length : counters.length = bins := by rw [← start, List.length_replicate]
  clear start
  induction samples generalizing counters with
  | nil => exact length
  | cons sample samples ih => exact ih _ (by rw [List.length_modify, length])

theorem sum_modify {counters : List Nat} {i : Nat} (inside : i < counters.length) :
    (counters.modify i (· + 1)).sum = counters.sum + 1 := by
  induction counters generalizing i with
  | nil => cases inside
  | cons counter counters ih =>
    cases i with
    | zero =>
      rw [List.modify_zero_cons, List.sum_cons, List.sum_cons]
      omega
    | succ i =>
      rw [List.modify_succ_cons, List.sum_cons, List.sum_cons, ih (Nat.lt_of_succ_lt_succ inside)]
      omega

/-- **Every sample is counted once.** -/
theorem sum_increments {bins : Nat} (inside : ∀ sample, index sample < bins)
    (samples : List Sample) : (increments index bins samples).sum = samples.length := by
  induction samples using List.reverseRecOn with
  | nil => simp [increments]
  | append_singleton samples sample ih =>
    have step : increments index bins (samples ++ [sample]) =
        (increments index bins samples).modify (index sample) (· + 1) := by
      rw [increments, List.foldl_concat]
      rfl
    rw [step, sum_modify (by rw [length_increments]; exact inside sample), ih, List.length_append]
    rfl

end

/-! ### Bins between points -/

section

variable {Point : Type*} [LinearOrder Point]

/-- **The number of samples in each bin**: in front of the first of `bins + 1` points, from each of
them to the next one, and behind the last. -/
structure BinCounts (cut : Nat → Point) (bins : Nat) (value : Nat → Nat) (samples : List Point) :
    Prop where
  underflow : value 0 = samples.countP fun sample => sample < cut 1
  between : ∀ i, 1 ≤ i → i ≤ bins →
    value i = samples.countP fun sample => cut i ≤ sample ∧ sample < cut (i + 1)
  overflow : value (bins + 1) = samples.countP fun sample => cut (bins + 1) ≤ sample

/-- The points do not decrease. -/
def Rising (cut : Nat → Point) (bins : Nat) : Prop :=
  ∀ i, 1 ≤ i → i ≤ bins → cut i ≤ cut (i + 1)

/-- Each of the points separates the samples in the same way. -/
def Separate (cut cut' : Nat → Point) (bins : Nat) (samples : List Point) : Prop :=
  ∀ i, 1 ≤ i → i ≤ bins + 1 → ∀ sample ∈ samples, sample < cut' i ↔ sample < cut i

variable {cut cut' : Nat → Point} {bins : Nat} {value : Nat → Nat} {samples : List Point}

/-- The samples below a point, and those between it and the next one. -/
theorem countP_lt_succ {low high : Point} (le : low ≤ high) :
    samples.countP (fun sample => sample < high) =
      samples.countP (fun sample => sample < low) +
        samples.countP fun sample => low ≤ sample ∧ sample < high := by
  induction samples with
  | nil => rfl
  | cons sample samples ih =>
    rw [List.countP_cons, List.countP_cons, List.countP_cons, ih]
    simp only [decide_eq_true_eq]
    rcases lt_or_ge sample low with below | above
    · rw [if_pos (below.trans_le le), if_pos below, if_neg fun both => absurd below both.1.not_gt]
      omega
    · rw [if_neg above.not_gt]
      by_cases inside : sample < high
      · rw [if_pos inside, if_pos ⟨above, inside⟩]
        omega
      · rw [if_neg inside, if_neg fun both => inside both.2]
        omega

omit [LinearOrder Point] in
/-- Two conditions, one of which implies the other, hold of the same samples if they hold of equally
many. -/
theorem iff_of_countP_eq {p q : Point → Prop} [DecidablePred p] [DecidablePred q]
    (implied : ∀ sample ∈ samples, p sample → q sample)
    (equal : samples.countP (fun sample => p sample) = samples.countP fun sample => q sample) :
    ∀ sample ∈ samples, q sample → p sample := by
  induction samples with
  | nil => nofun
  | cons first samples ih =>
    have rest := fun sample member => implied sample (List.mem_cons_of_mem first member)
    have le : samples.countP (fun sample => p sample) ≤ samples.countP fun sample => q sample :=
      List.countP_mono_left fun sample member holds => by
        simpa using rest sample member (by simpa using holds)
    have head := implied first List.mem_cons_self
    rw [List.countP_cons, List.countP_cons] at equal
    by_cases holds : p first
    · simp only [holds, head holds, decide_true, if_true, Nat.add_right_cancel_iff] at equal
      intro sample member
      rcases List.mem_cons.mp member with rfl | later
      · exact fun _ => holds
      · exact ih rest equal sample later
    · by_cases holds' : q first
      · simp only [holds, holds', decide_true, decide_false, if_true] at equal
        simp at equal
        omega
      · intro sample member
        simp only [holds, holds', decide_false] at equal
        rcases List.mem_cons.mp member with rfl | later
        · exact fun impossible => absurd impossible holds'
        · exact ih rest (by simpa using equal) sample later

/-- Two points below which there are equally many samples separate them in the same way. -/
theorem separate_of_countP_eq {point point' : Point}
    (equal : samples.countP (fun sample => sample < point') =
      samples.countP fun sample => sample < point) :
    ∀ sample ∈ samples, sample < point' ↔ sample < point := by
  rcases le_total point point' with le | le
  · have back := iff_of_countP_eq (fun sample _ below => below.trans_le le) equal.symm
    exact fun sample member => ⟨back sample member, fun below => below.trans_le le⟩
  · have back := iff_of_countP_eq (fun sample _ below => below.trans_le le) equal
    exact fun sample member => ⟨fun below => below.trans_le le, back sample member⟩

/-- With the same counts there are equally many samples below each point. -/
theorem BinCounts.countP_lt (counts : BinCounts cut bins value samples)
    (counts' : BinCounts cut' bins value samples) (rising : Rising cut bins)
    (rising' : Rising cut' bins) {i : Nat} (inside : i ≤ bins) :
    samples.countP (fun sample => sample < cut' (i + 1)) =
      samples.countP fun sample => sample < cut (i + 1) := by
  induction i with
  | zero => rw [← counts.underflow, ← counts'.underflow]
  | succ i ih =>
    rw [countP_lt_succ (rising (i + 1) (Nat.le_add_left 1 i) inside),
      countP_lt_succ (rising' (i + 1) (Nat.le_add_left 1 i) inside), ih (Nat.le_of_succ_le inside),
      ← counts.between (i + 1) (Nat.le_add_left 1 i) inside,
      ← counts'.between (i + 1) (Nat.le_add_left 1 i) inside]

/-- **Other points have the same counts exactly if each of them separates the samples in the same
way.** -/
theorem BinCounts.iff_separate (counts : BinCounts cut bins value samples)
    (rising : Rising cut bins) (rising' : Rising cut' bins) :
    BinCounts cut' bins value samples ↔ Separate cut cut' bins samples := by
  constructor
  · intro counts' i positive inside
    obtain ⟨i, rfl⟩ := Nat.exists_eq_add_of_le' positive
    exact separate_of_countP_eq
      (counts.countP_lt counts' rising rising' (Nat.le_of_succ_le_succ inside))
  · intro separate
    refine ⟨?_, ?_, ?_⟩
    · rw [counts.underflow]
      apply List.countP_congr
      intro sample member
      simpa using (separate 1 (Nat.le_refl 1) (Nat.le_add_left 1 bins) sample member).symm
    · intro i positive inside
      rw [counts.between i positive inside]
      apply List.countP_congr
      intro sample member
      have low := separate i positive (Nat.le_succ_of_le inside) sample member
      have high := separate (i + 1) (Nat.le_add_left 1 i) (Nat.succ_le_succ inside) sample member
      simp only [decide_eq_true_eq, ← not_lt, low, high]
    · rw [counts.overflow]
      apply List.countP_congr
      intro sample member
      have last := separate (bins + 1) (Nat.le_add_left 1 bins) (Nat.le_refl _) sample member
      simp only [decide_eq_true_eq, ← not_lt, last]

end

end Binning
