/-
**The value a simple stat shows.**

A `SimpleStatus` or a `SimpleCounter` of an integer type keeps its value in shared memory. The dump
casts it to `unsigned long int`.

* `IntegerValue`: the values of an integer type; `integerOfBytes_integerBytes`: their bytes read back.
* `writtenSince`, `WritePolicy.current`: the value a stat has, from its operations alone.
* `value_run`: the shared memory holds that value after any operations.
* **`simpleStat_dump_iff`**: the dump shows it exactly when it is not negative.
-/

import Mathlib.Algebra.BigOperators.Group.List.Basic
import Mathlib.Data.List.DropRight
import Mathlib.Tactic.NormNum
import Mathlib.Tactic.Positivity
import StatLog.Stats.ArrayRun

namespace StatLog.Stats

open ByteMemory Transition

/-! ### Integer types -/

/-- The value is one of the integer type's. -/
def Fits (size : Nat) (isSigned : Bool) (value : Int) : Prop :=
  if isSigned then -2 ^ (8 * size - 1) ≤ value ∧ value < 2 ^ (8 * size - 1)
  else 0 ≤ value ∧ value < 2 ^ (8 * size)

instance (size : Nat) (isSigned : Bool) (value : Int) : Decidable (Fits size isSigned value) := by
  unfold Fits
  infer_instance

/-- **A value of an integer type** of the given size. -/
abbrev IntegerValue (size : Nat) (isSigned : Bool) := {value : Int // Fits size isSigned value}

theorem two_pow_size (size : Nat) : (2 : Int) ^ (8 * size) = ((256 ^ size : Nat) : Int) := by
  rw [pow_mul]
  norm_num

theorem ofLE_integerBytes (size : Nat) (value : Int) :
    (ofLE (integerBytes size value).1 : Int) = value % (256 ^ size : Nat) := by
  have positive : (0 : Int) < (256 ^ size : Nat) := by positivity
  have nonneg := Int.emod_nonneg value positive.ne'
  have below := Int.emod_lt_of_pos value positive
  rw [integerBytes, ofLE_leBytes]
  push_cast at nonneg below ⊢
  rw [Int.toNat_of_nonneg nonneg, Int.emod_emod_of_dvd _ (dvd_refl _)]

/-- **The bytes of a value read back.** -/
theorem integerOfBytes_integerBytes {size : Nat} (positive : 0 < size) {isSigned : Bool} {value : Int}
    (fits : Fits size isSigned value) :
    integerOfBytes isSigned (integerBytes size value).1 = value := by
  unfold integerOfBytes
  rw [ofLE_integerBytes, (integerBytes size value).2]
  unfold Fits at fits
  have halves : (2 : Int) ^ (8 * size) = 2 * 2 ^ (8 * size - 1) := by
    rw [← pow_succ', Nat.sub_add_cancel (by omega)]
  have width := two_pow_size size
  cases isSigned with
  | false =>
    simp only [Bool.false_eq_true, if_false] at fits ⊢
    exact Int.emod_eq_of_lt fits.1 (by omega)
  | true =>
    simp only [if_true] at fits ⊢
    rw [Int.emod_bmod]
    exact Int.bmod_eq_of_le (by omega) (by omega)

/-- Values that differ by a multiple of the type's range have the same bytes. -/
theorem integerBytes_congr {size : Nat} {value other : Int}
    (same : value % (256 ^ size : Nat) = other % (256 ^ size : Nat)) :
    integerBytes size value = integerBytes size other := by
  push_cast at same
  exact Subtype.ext (congrArg (fun rest : Int => leBytes size rest.toNat) same)

theorem integerOfBytes_emod (size : Nat) (isSigned : Bool) (value : Int) :
    integerOfBytes isSigned (integerBytes size value).1 % (256 ^ size : Nat) =
      value % (256 ^ size : Nat) := by
  unfold integerOfBytes
  rw [ofLE_integerBytes, (integerBytes size value).2]
  cases isSigned with
  | false => exact Int.emod_emod_of_dvd _ (dvd_refl _)
  | true =>
    rw [if_pos rfl, Int.bmod_emod]
    exact Int.emod_emod_of_dvd _ (dvd_refl _)

/-- **Sums wrap.** -/
theorem plus_integerBytes (size : Nat) (isSigned : Bool) (value other : Int) :
    (Representation.integer size isSigned).plus (integerBytes size value) (integerBytes size other) =
      integerBytes size (value + other) := by
  apply integerBytes_congr
  rw [Int.add_emod, integerOfBytes_emod, integerOfBytes_emod, ← Int.add_emod]

/-! ### The value of a stat -/

section

variable {Sample : Type}

/-- `CLEAR_STAT`. -/
def StatCall.isClear : StatCall Sample → Bool
  | .command cmd => cmd = .clearStat
  | _ => false

def StatCall.sample? : StatCall Sample → Option Sample
  | .write _ value => some value
  | _ => none

/-- Writes have no indices, as those to a stat that is no array. -/
def StatCall.Direct : StatCall Sample → Prop
  | .write indices _ => indices = []
  | _ => True

instance (call : StatCall Sample) : Decidable call.Direct :=
  match call with
  | .write indices _ => inferInstanceAs (Decidable (indices = []))
  | .serialize => isTrue trivial
  | .command _ => isTrue trivial

/-- What was written since the last clear. -/
def writtenSince (calls : List (StatCall Sample)) : List Sample :=
  (calls.rtakeWhile fun call => !call.isClear).filterMap StatCall.sample?

theorem writtenSince_nil : writtenSince ([] : List (StatCall Sample)) = [] := by
  rw [writtenSince, List.rtakeWhile_nil, List.filterMap_nil]

theorem writtenSince_write (calls : List (StatCall Sample)) (indices : List Int) (value : Sample) :
    writtenSince (calls ++ [.write indices value]) = writtenSince calls ++ [value] := by
  rw [writtenSince, List.rtakeWhile_concat_pos _ _ _ rfl, List.filterMap_append]
  rfl

theorem writtenSince_clear (calls : List (StatCall Sample)) :
    writtenSince (calls ++ [.command .clearStat]) = [] := by
  rw [writtenSince, List.rtakeWhile_concat_neg _ _ _ (by simp [StatCall.isClear]), List.filterMap_nil]

theorem writtenSince_other (calls : List (StatCall Sample)) {call : StatCall Sample}
    (noWrite : call.sample? = none) (noClear : call.isClear = false) :
    writtenSince (calls ++ [call]) = writtenSince calls := by
  rw [writtenSince, List.rtakeWhile_concat_pos _ _ _ (by rw [noClear]; rfl), List.filterMap_append,
    List.filterMap_cons_none noWrite, List.filterMap_nil, List.append_nil]
  rfl

end

/-- **The value of a stat** to which the given values were written since the last clear. -/
def WritePolicy.current (written : List Int) : WritePolicy → Int
  | increment => written.sum
  | assign => written.getLastD 0

/-- `SimpleCounter` or `SimpleStatus` of an integer type. -/
def integerStat (size : Nat) (isSigned : Bool) (writePolicy : WritePolicy) :
    SimpleStat (IntegerValue size isSigned) where
  repr := .integer size isSigned
  writePolicy := writePolicy
  ofSample value := integerBytes size value

section Run

variable {size : Nat} {isSigned : Bool} {writePolicy : WritePolicy}

/-- The values written since the last clear. -/
def valuesSince (calls : List (StatCall (IntegerValue size isSigned))) : List Int :=
  (writtenSince calls).map Subtype.val

/-- The bytes that a write leaves are those of the new value. -/
theorem write_integerBytes (written : List Int) (value : IntegerValue size isSigned) :
    writePolicy.write (.integer size isSigned) (integerBytes size (writePolicy.current written))
      (integerBytes size value) =
        integerBytes size (writePolicy.current (written ++ [value.1])) := by
  cases writePolicy with
  | increment =>
    rw [WritePolicy.current, WritePolicy.current, List.sum_append, List.sum_singleton]
    exact plus_integerBytes size isSigned _ _
  | assign =>
    rw [WritePolicy.current, WritePolicy.current, List.getLastD_concat]
    rfl

/-- Stored bytes are the value's. -/
theorem read_write_bytes (mem : Mem) (ptr : Nat) (bytes : Bytes size) :
    (mem.write ptr bytes.1).read ptr size = bytes.1 := by
  have stored := Mem.read_write mem ptr bytes.1
  rwa [bytes.2] at stored

/-- **The shared memory holds the value**, after any operations. -/
theorem value_run (writePolicy : WritePolicy) {mem : Mem} {ptr : Nat}
    (zeroed : mem.read ptr size = List.replicate size 0)
    {calls : List (StatCall (IntegerValue size isSigned))} (direct : ∀ call ∈ calls, call.Direct) :
    ∃ state, run ((StatType.element (.simpleStat (integerStat size isSigned writePolicy))).step ptr)
        (.initial mem) calls = some state ∧
      (integerStat size isSigned writePolicy).value state.mem ptr =
        integerBytes size (writePolicy.current (valuesSince calls)) := by
  induction calls using List.reverseRecOn with
  | nil =>
    refine ⟨_, rfl, Subtype.ext (zeroed.trans ?_)⟩
    have none : writePolicy.current [] = 0 := by cases writePolicy <;> rfl
    rw [valuesSince, writtenSince_nil, List.map_nil, none]
    simp only [integerBytes, Int.zero_emod, Int.toNat_zero, leBytes_zero]
  | append_singleton calls call ih =>
    obtain ⟨state, runs, holds⟩ := ih fun other member => direct other (List.mem_append_left _ member)
    have last := direct call (List.mem_append_right _ (List.mem_singleton_self call))
    cases call with
    | write indices value =>
      obtain rfl : indices = [] := last
      refine ⟨⟨state.accums.setElement (state.accums []),
        (integerStat size isSigned writePolicy).write state.mem ptr (integerBytes size value)⟩,
        (run_concat _).mpr ⟨state, runs, rfl⟩, ?_⟩
      rw [valuesSince, writtenSince_write, List.map_append, List.map_singleton,
        ← write_integerBytes]
      unfold SimpleStat.write
      rw [holds]
      exact Subtype.ext (read_write_bytes state.mem ptr _)
    | serialize =>
      refine ⟨state, (run_concat _).mpr ⟨state, runs, rfl⟩, ?_⟩
      rw [valuesSince, writtenSince_other calls rfl rfl]
      exact holds
    | command cmd =>
      by_cases clear : cmd = .clearStat
      · subst clear
        refine ⟨⟨state.accums, state.mem.write ptr (integerBytes size 0).1⟩,
          (run_concat _).mpr ⟨state, runs, rfl⟩, ?_⟩
        have none : writePolicy.current [] = 0 := by cases writePolicy <;> rfl
        rw [valuesSince, writtenSince_clear, List.map_nil, none]
        exact Subtype.ext (read_write_bytes state.mem ptr _)
      · have noClear : (StatCall.command cmd : StatCall (IntegerValue size isSigned)).isClear = false :=
          decide_eq_false clear
        refine ⟨state, (run_concat _).mpr ⟨state, runs, ?_⟩, ?_⟩
        · cases cmd with
          | clearStat => exact absurd rfl clear
          | _ => rfl
        · rw [valuesSince, writtenSince_other calls rfl noClear]
          exact holds

/-- The value a stat has is one of its type. -/
theorem fits_current {calls : List (StatCall (IntegerValue size isSigned))}
    (sums : writePolicy = .increment → ∀ front ∈ (valuesSince calls).inits, Fits size isSigned front.sum) :
    Fits size isSigned (writePolicy.current (valuesSince calls)) := by
  cases writePolicy with
  | increment => exact sums rfl _ (List.mem_inits _ _ |>.mpr (List.prefix_refl _))
  | assign =>
    rw [WritePolicy.current]
    rcases List.eq_nil_or_concat (valuesSince calls) with none | ⟨front, last, ends⟩
    · rw [none]
      unfold Fits
      cases isSigned <;> simp
    · have member : last ∈ valuesSince calls := by simp [ends]
      obtain ⟨value, -, rfl⟩ := List.mem_map.mp member
      rw [ends, List.concat_eq_append, List.getLastD_concat]
      exact value.2

end Run

/-! ### The display -/

theorem Fits.lt {size : Nat} {isSigned : Bool} {value : Int} (fits : Fits size isSigned value)
    (small : size ≤ 8) : value < 2 ^ 64 := by
  unfold Fits at fits
  cases isSigned with
  | false => exact fits.2.trans_le (pow_le_pow_right₀ (by decide) (by omega))
  | true => exact fits.2.trans_le (pow_le_pow_right₀ (by decide) (by omega))

/-- Negative numbers are not displayed as natural numbers are. -/
theorem toString_natCast_ne {value : Int} (negative : value < 0) (shown : Nat) :
    toString shown ≠ toString value := by
  intro same
  have texts := congrArg String.toList same
  rw [Int.toString_eq_repr, Int.repr_eq_if, if_neg (by omega), String.toList_append,
    Nat.toString_eq_repr, Nat.toList_repr] at texts
  have hyphen : '-' ∈ Nat.toDigits 10 shown := by
    rw [texts]
    exact List.mem_append_left _ (List.mem_singleton_self '-')
  have digit := Nat.isDigit_of_mem_toDigits (by decide) (by decide) hyphen
  exact absurd digit (by decide)

theorem toString_toNat {value : Int} (nonneg : 0 ≤ value) : toString value.toNat = toString value := by
  obtain ⟨number, rfl⟩ := Int.eq_ofNat_of_zero_le nonneg
  rfl

/-- **A simple stat shows its value exactly when it is not negative.** -/
theorem simpleStat_dump_iff {size : Nat} (positive : 0 < size) (small : size ≤ 8) (isSigned : Bool)
    (writePolicy : WritePolicy) {mem : Mem} {ptr : Nat}
    (zeroed : mem.read ptr size = List.replicate size 0)
    {calls : List (StatCall (IntegerValue size isSigned))} (direct : ∀ call ∈ calls, call.Direct)
    (sums : writePolicy = .increment →
      ∀ front ∈ (valuesSince calls).inits, Fits size isSigned front.sum) :
    let type := StatType.element (.simpleStat (integerStat size isSigned writePolicy))
    let value := writePolicy.current (valuesSince calls)
    ∃ state, run (type.step ptr) (.initial mem) calls = some state ∧
      ((type.dump ptr state).entries = [toString value] ↔ 0 ≤ value) := by
  intro type value
  obtain ⟨state, runs, holds⟩ := value_run writePolicy zeroed direct
  have fits : Fits size isSigned value := fits_current sums
  refine ⟨state, runs, ?_⟩
  have entries : (type.dump ptr state).entries = [toString (value % 2 ^ 64).toNat] := by
    have read := integerOfBytes_integerBytes positive fits
    show [toString (integerOfBytes isSigned
      ((integerStat size isSigned writePolicy).value state.mem ptr).1 % 2 ^ 64).toNat] = _
    rw [holds, read]
  rw [entries, List.singleton_inj]
  constructor
  · intro shown
    by_contra negative
    exact toString_natCast_ne (Int.not_le.mp negative) _ shown
  · intro nonneg
    rw [Int.emod_eq_of_lt nonneg (fits.lt small), toString_toNat nonneg]

/-- A counter of the type `int` goes up and down again. -/
def upAndDown : List (StatCall (IntegerValue 4 true)) :=
  [.write [] ⟨7, by decide⟩, .write [] ⟨-3, by decide⟩]

theorem simpleStat_dump_iff_counter :
    ∃ state, run ((StatType.element (.simpleStat (integerStat 4 true .increment))).step 0)
        (.initial fun _ => 0) upAndDown = some state ∧
      ((StatType.element (.simpleStat (integerStat 4 true .increment))).dump 0 state).entries =
        ["4"] := by
  obtain ⟨state, runs, shows⟩ := simpleStat_dump_iff (by decide) (by decide : 4 ≤ 8) true .increment
    (by decide : Mem.read (fun _ => 0) 0 4 = List.replicate 4 0)
    (by decide : ∀ call ∈ upAndDown, call.Direct) (fun _ => by decide)
  exact ⟨state, runs, shows.mpr (by decide)⟩

/-- **A negative status is not displayed.** -/
theorem simpleStatus_hides_sign :
    ¬ ∀ (size : Nat) (isSigned : Bool) (writePolicy : WritePolicy)
      (calls : List (StatCall (IntegerValue size isSigned))), 0 < size → size ≤ 8 →
      (∀ call ∈ calls, call.Direct) → (writePolicy = .increment →
        ∀ front ∈ (valuesSince calls).inits, Fits size isSigned front.sum) →
      ∃ state, run ((StatType.element (.simpleStat (integerStat size isSigned writePolicy))).step 0)
          (.initial fun _ => 0) calls = some state ∧
        ((StatType.element (.simpleStat (integerStat size isSigned writePolicy))).dump 0 state).entries =
          [toString (writePolicy.current (valuesSince calls))] := by
  intro always
  obtain ⟨state, runs, shown⟩ := always 4 true .assign [.write [] ⟨-1, by decide⟩] (by decide)
    (by decide) (by decide) (fun increment => nomatch increment)
  have dumped : ((StatType.element (.simpleStat (integerStat 4 true .assign))).dump 0 state).entries =
      ["18446744073709551615"] := by
    cases runs
    decide +kernel
  rw [shown] at dumped
  exact absurd dumped (by decide)

end StatLog.Stats
