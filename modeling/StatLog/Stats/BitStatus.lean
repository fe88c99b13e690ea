/-
**Counting status bits.**

`writeBitStatus` counts each set bit of a status in an element of its own: it writes a one to the last
dimension of an array, at the bit's number, behind the leading indices of the call.

* `bitset`, `writeBitStatus`: the source's functions; `bitset_eq`: the detour over an unsigned 64-bit
  number keeps the bits, of negative values as well.
* `BitStatusCall.writes`, with `writeBitStatus_eq_run`: the writes that a call comes to.
* `counter_run`, `kept_run`: a counter behind any writes of ones, by the number of those addressed
  to it.
* `countP_writes`: how many writes of a call are addressed to one element.
* **`bitStatus_counted`**, from `bitsCounted_of_run` and `runBitStatus_isSome`: after any calls, each
  element has grown by the number of those that had its bit set, and the elements behind the last bit
  are unchanged.
-/

import StatLog.Stats.SimpleValue

namespace StatLog.Stats

open ByteMemory MixedRadix Transition

/-! ### The calls -/

/-- A status of `width` bits, converted to `unsigned long long`. -/
def toUnsignedLongLong {width : Nat} (isSigned : Bool) (bitstatus : BitVec width) : BitVec 64 :=
  if isSigned then bitstatus.signExtend 64 else bitstatus.setWidth 64

/-- `bs[i]`, for `i` below `bs.size()`. -/
def bitset {width : Nat} (isSigned : Bool) (bitstatus : BitVec width) (i : Nat) : Bool :=
  (toUnsignedLongLong isSigned bitstatus).getLsbD i

/-- **The bitset has the bits of the status.** -/
theorem bitset_eq {width i : Nat} (narrow : width ≤ 64) (isSigned : Bool) (bitstatus : BitVec width)
    (below : i < width) : bitset isSigned bitstatus i = bitstatus.getLsbD i := by
  have inside : i < 64 := by omega
  unfold bitset toUnsignedLongLong
  cases isSigned with
  | false => simp [inside]
  | true =>
    rw [if_pos rfl, BitVec.getLsbD_signExtend, decide_eq_true inside, Bool.true_and, if_pos below]

/-- A call `writeBitStatus(bitstatus, indices...)`. -/
structure BitStatusCall (width : Nat) where
  bitstatus : BitVec width
  indices : List Int
  deriving DecidableEq

/-- **`writeBitStatus`**, with the `writeStat` of a tag; the number of a bit is a `size_t` that
`writeStat` takes for an `int`. -/
def writeBitStatus {State Sample : Type} (writeStat : State → List Int → Sample → Option State)
    (one : Sample) {width : Nat} (isSigned : Bool) (state : State) (call : BitStatusCall width) :
    Option State :=
  (List.range width).foldlM (fun state i =>
    if bitset isSigned call.bitstatus i then writeStat state (call.indices ++ [intOfSize i]) one
    else some state) state

/-- The indices of the writes that a call comes to. -/
def BitStatusCall.writes {width : Nat} (isSigned : Bool) (call : BitStatusCall width) :
    List (List Int) :=
  ((List.range width).filter (bitset isSigned call.bitstatus)).map fun i =>
    call.indices ++ [intOfSize i]

/-- **A call is a run of writes.** -/
theorem writeBitStatus_eq_run {State Sample : Type}
    (writeStat : State → List Int → Sample → Option State) (one : Sample) {width : Nat}
    (isSigned : Bool) (state : State) (call : BitStatusCall width) :
    writeBitStatus writeStat one isSigned state call =
      run (fun state indices => writeStat state indices one) state (call.writes isSigned) := by
  unfold writeBitStatus BitStatusCall.writes
  induction List.range width generalizing state with
  | nil => rfl
  | cons i rest ih =>
    rw [List.foldlM_cons]
    by_cases set : bitset isSigned call.bitstatus i = true
    · rw [if_pos set, List.filter_cons_of_pos set, List.map_cons, run]
      congr 1
      funext next
      exact ih next
    · rw [if_neg set, List.filter_cons_of_neg set]
      exact ih state

/-! ### Writes to counters -/

/-- The bytes of the value that some bytes stand for. -/
theorem integerBytes_integerOfBytes {size : Nat} (isSigned : Bool) (bytes : Bytes size) :
    integerBytes size (integerOfBytes isSigned bytes.1) = bytes := by
  obtain ⟨bytes, rfl⟩ := bytes
  have own : integerBytes bytes.length (ofLE bytes) = ⟨bytes, rfl⟩ := by
    have round := leBytes_ofLE bytes
    have small := ofLE_leBytes bytes.length (ofLE bytes)
    rw [round] at small
    apply Subtype.ext
    show leBytes bytes.length ((ofLE bytes : Int) % 256 ^ bytes.length).toNat = bytes
    have cast : ((ofLE bytes : Int) % 256 ^ bytes.length).toNat = ofLE bytes := by
      rw [show (256 : Int) ^ bytes.length = ((256 ^ bytes.length : Nat) : Int) by push_cast; rfl,
        ← Int.natCast_mod, Int.toNat_natCast, ← small]
    rw [cast, round]
  cases isSigned with
  | false => exact own
  | true =>
    rw [← own]
    apply integerBytes_congr
    show (Int.bmod (ofLE (integerBytes bytes.length (ofLE bytes)).1) _) % _ = _
    rw [own, Int.bmod_emod]

/-- A counter after some writes of one; each of them is read back and counted from there. -/
theorem integerBytes_add (size : Nat) (isSigned : Bool) (value other : Int) :
    integerBytes size (integerOfBytes isSigned (integerBytes size value).1 + other) =
      integerBytes size (value + other) := by
  apply integerBytes_congr
  rw [Int.add_emod, integerOfBytes_emod, ← Int.add_emod]

section Counters

variable {size : Nat} {isSigned : Bool} {sizes : List Nat} {ptr : Nat}
  {state next : StatState (IntegerValue size isSigned)}

/-- An array of `SimpleCounter`. -/
abbrev counterArray (size : Nat) (isSigned : Bool) (sizes : List Nat) :
    StatType (IntegerValue size isSigned) :=
  .nested sizes (.simpleStat (integerStat size isSigned .increment))

/-- A write to an array of counters, for the indices alone. -/
def writeOne (sizes : List Nat) (ptr : Nat) (one : IntegerValue size isSigned)
    (state : StatState (IntegerValue size isSigned)) (indices : List Int) :
    Option (StatState (IntegerValue size isSigned)) :=
  (counterArray size isSigned sizes).step ptr state (.write indices one)

/-- The address of an element. -/
def counterPtr (size : Nat) (sizes : List Nat) (ptr : Nat) (idx : List Nat) : Nat :=
  StatImpl.elementPtr size sizes ptr idx

/-- The bytes of a counter. -/
def counterBytes (size ptr : Nat) (mem : Mem) : Bytes size := ⟨mem.read ptr size, Mem.length_read _ _ _⟩

/-- The value of a counter. -/
def counterAt (isSigned : Bool) (size ptr : Nat) (mem : Mem) : Int :=
  integerOfBytes isSigned (counterBytes size ptr mem).1

/-- **A write that passes all assertions** has its indices in range. -/
theorem inRange_of_write (isOperational : Bool) {impl : ElementImpl (IntegerValue size isSigned)}
    {accums : Accums (IntegerValue size isSigned)} {mem : Mem} {indices : List Int}
    {value : IntegerValue size isSigned} {written : Accums (IntegerValue size isSigned) × Mem}
    (writes : (StatImpl.nested isOperational sizes impl).write accums mem ptr indices value =
      some written) : InRange sizes indices := by
  induction sizes generalizing accums ptr indices written with
  | nil => trivial
  | cons count sizes ih =>
    cases indices with
    | nil => cases writes
    | cons idx indices =>
      rw [StatImpl.nested_cons, StatImpl.write] at writes
      split at writes
      case isFalse => cases writes
      case isTrue asserted =>
        obtain ⟨inner, innerWrites, -⟩ := Option.map_eq_some_iff.mp writes
        refine ⟨asserted, ?_⟩
        cases sizes with
        | nil => trivial
        | cons count' sizes => exact ih innerWrites

/-- **A write of one counts it** in the element it is addressed to, and nowhere else. -/
theorem counter_step (some' : sizes ≠ []) {one : IntegerValue size isSigned} {indices : List Int}
    (written : writeOne sizes ptr one state indices = some next) :
    InRange sizes indices ∧ ∀ idx, InBounds sizes idx →
      (elementOf sizes indices = idx →
        counterBytes size (counterPtr size sizes ptr idx) next.mem =
          integerBytes size
            (one.1 + counterAt isSigned size (counterPtr size sizes ptr idx) state.mem)) ∧
      (elementOf sizes indices ≠ idx →
        AgreeOn (counterPtr size sizes ptr idx) size next.mem state.mem) := by
  have inRange : InRange sizes indices := by
    obtain ⟨inner, writes, -⟩ := Option.map_eq_some_iff.mp written
    unfold OperationalStatProxy.writeVal at writes
    rw [statTypeToImpl_nested] at writes
    exact inRange_of_write true writes
  refine ⟨inRange, fun idx bounded => ?_⟩
  rw [writeOne, StatType.step, writeVal_nested some' bounded.pos _ _ inRange] at written
  obtain rfl := Option.some.inj written
  constructor
  · rintro rfl
    rw [← integerBytes_add size isSigned one.1, Int.add_comm]
    exact Subtype.ext (read_write_bytes state.mem _ _)
  · intro other
    have frame := (integerStat size isSigned .increment).write_unchangedOutside state.mem
      (counterPtr size sizes ptr (elementOf sizes indices)) (integerBytes size one)
    exact AgreeOn.of_unchangedOutside frame
      (StatImpl.elementPtr_apart size ptr bounded inRange.bounded (Ne.symm other))

/-- **A counter after a run of writes** has counted those addressed to it. -/
theorem counter_run (some' : sizes ≠ []) {one : IntegerValue size isSigned} (unit : one.1 = 1)
    {writes : List (List Int)}
    (runs : run (writeOne sizes ptr one) state writes = some next) {idx : List Nat} (bounded : InBounds sizes idx) :
    counterBytes size (counterPtr size sizes ptr idx) next.mem =
      integerBytes size (counterAt isSigned size (counterPtr size sizes ptr idx) state.mem +
        writes.countP fun indices => elementOf sizes indices = idx) := by
  induction writes generalizing state with
  | nil =>
    obtain rfl := Option.some.inj runs
    rw [List.countP_nil, Nat.cast_zero, Int.add_zero, counterAt, integerBytes_integerOfBytes]
  | cons indices writes ih =>
    obtain ⟨mid, written, rest⟩ := Option.bind_eq_some_iff.mp runs
    obtain ⟨-, elements⟩ := counter_step some' written
    obtain ⟨own, others⟩ := elements idx bounded
    rw [ih rest, List.countP_cons, counterAt]
    by_cases addressed : elementOf sizes indices = idx
    · rw [own addressed, integerBytes_add, unit, if_pos (decide_eq_true addressed)]
      congr 1
      push_cast
      omega
    · have same : counterBytes size (counterPtr size sizes ptr idx) mid.mem =
          counterBytes size (counterPtr size sizes ptr idx) state.mem :=
        Subtype.ext (others addressed).read
      rw [same, if_neg (by simpa using addressed), Nat.add_zero, counterAt]

/-- Writes to other elements leave it alone. -/
theorem kept_run (some' : sizes ≠ []) {one : IntegerValue size isSigned} {writes : List (List Int)}
    (runs : run (writeOne sizes ptr one) state writes = some next) {idx : List Nat} (bounded : InBounds sizes idx)
    (elsewhere : ∀ indices ∈ writes, elementOf sizes indices ≠ idx) :
    AgreeOn (counterPtr size sizes ptr idx) size next.mem state.mem := by
  induction writes generalizing state with
  | nil =>
    obtain rfl := Option.some.inj runs
    exact AgreeOn.refl _ _ _
  | cons indices writes ih =>
    obtain ⟨mid, written, rest⟩ := Option.bind_eq_some_iff.mp runs
    rw [List.forall_mem_cons] at elsewhere
    exact (ih rest elsewhere.2).trans (((counter_step some' written).2 idx bounded).2 elsewhere.1)

/-- The writes of a run were in range. -/
theorem inRange_of_run (some' : sizes ≠ []) {one : IntegerValue size isSigned}
    {writes : List (List Int)}
    (runs : run (writeOne sizes ptr one) state writes = some next) :
    ∀ indices ∈ writes, InRange sizes indices := by
  induction writes generalizing state with
  | nil => exact List.forall_mem_nil _
  | cons indices writes ih =>
    obtain ⟨mid, written, rest⟩ := Option.bind_eq_some_iff.mp runs
    exact List.forall_mem_cons.mpr ⟨(counter_step some' written).1, ih rest⟩

/-- Writes in range have a run. -/
theorem run_isSome_of_inRange (some' : sizes ≠ []) (one : IntegerValue size isSigned)
    {writes : List (List Int)} (inRange : ∀ indices ∈ writes, InRange sizes indices) :
    (run (writeOne sizes ptr one) state writes).isSome := by
  apply run_isSome
  intro indices member state
  have known := inRange indices member
  rw [writeOne, StatType.step, writeVal_nested some' known.bounded.pos _ _ known]
  rfl

end Counters

/-! ### The writes of a call -/

section Calls

variable {width : Nat} {isSigned : Bool} {leading lead : List Nat} {last : Nat}

/-- One more index behind as many as there are leading dimensions. -/
theorem elementOf_concat {indices : List Int} (same : indices.length = leading.length) (index : Int) :
    elementOf (leading ++ [last]) (indices ++ [index]) = indices.map Int.toNat ++ [index.toNat] := by
  unfold elementOf
  rw [List.take_of_length_le (by simp [same]), List.map_append, List.map_singleton]

theorem inRange_concat {indices : List Int} (same : indices.length = leading.length) {index : Int} :
    InRange (leading ++ [last]) (indices ++ [index]) ↔
      InRange leading indices ∧ 0 ≤ index ∧ index < intOfSize last := by
  induction leading generalizing indices with
  | nil =>
    obtain rfl := List.length_eq_zero_iff.mp same
    simp [InRange]
  | cons count leading ih =>
    cases indices with
    | nil => cases same
    | cons first indices =>
      rw [List.cons_append, List.cons_append, InRange, InRange, ih (Nat.succ.inj same)]
      exact and_assoc.symm

theorem nonneg_of_inRange {indices : List Int} (same : indices.length = leading.length)
    (inRange : InRange leading indices) : ∀ index ∈ indices, 0 ≤ index := by
  induction leading generalizing indices with
  | nil =>
    obtain rfl := List.length_eq_zero_iff.mp same
    exact List.forall_mem_nil _
  | cons count leading ih =>
    cases indices with
    | nil => exact List.forall_mem_nil _
    | cons first indices =>
      exact List.forall_mem_cons.mpr ⟨inRange.1.1, ih (Nat.succ.inj same) inRange.2⟩

/-- Indices in range are those of the element they denote. -/
theorem map_toNat_eq_iff {indices : List Int} (same : indices.length = leading.length)
    (inRange : InRange leading indices) :
    indices.map Int.toNat = lead ↔ indices = lead.map Nat.cast := by
  constructor
  · rintro rfl
    rw [List.map_map]
    conv_lhs => rw [← List.map_id indices]
    apply List.map_congr_left
    intro index member
    exact (Int.toNat_of_nonneg (nonneg_of_inRange same inRange index member)).symm
  · rintro rfl
    rw [List.map_map]
    exact List.map_id'' (fun _ => rfl) lead

/-- The call has these leading indices, and the bit is set. -/
def BitStatusCall.Sets (lead : List Nat) (bit : Nat) (call : BitStatusCall width) : Prop :=
  call.indices = lead.map Nat.cast ∧ call.bitstatus.getLsbD bit = true

instance (bit : Nat) (call : BitStatusCall width) : Decidable (call.Sets lead bit) :=
  inferInstanceAs (Decidable (_ ∧ _))

/-- **A call writes once to the element of a set bit**, and not at all to that of another one. -/
theorem countP_writes (narrow : width ≤ 64) {call : BitStatusCall width}
    (same : call.indices.length = leading.length)
    (inRange : ∀ indices ∈ call.writes isSigned, InRange (leading ++ [last]) indices) {bit : Nat}
    (below : bit < width) :
    (call.writes isSigned).countP (fun indices => elementOf (leading ++ [last]) indices = lead ++ [bit]) =
      if call.Sets lead bit then 1 else 0 := by
  have addressed : ∀ i ∈ (List.range width).filter (bitset isSigned call.bitstatus),
      (elementOf (leading ++ [last]) (call.indices ++ [intOfSize i]) = lead ++ [bit] ↔
        call.indices = lead.map Nat.cast ∧ i = bit) := by
    intro i member
    have within : i < width := List.mem_range.mp (List.mem_filter.mp member).1
    have known := (inRange_concat same).mp (inRange _ (List.mem_map_of_mem member))
    rw [elementOf_concat same, intOfSize_of_lt (by omega), Int.toNat_natCast,
      List.append_singleton_inj, map_toNat_eq_iff same known.1]
  rw [BitStatusCall.writes, List.countP_map]
  by_cases sets : call.Sets lead bit
  · -- The bit's number stands in the list of set bits once.
    have counted : ((List.range width).filter (bitset isSigned call.bitstatus)).count bit = 1 := by
      apply List.count_eq_one_of_mem (List.nodup_range.filter _)
      refine List.mem_filter.mpr ⟨List.mem_range.mpr below, ?_⟩
      rw [bitset_eq narrow isSigned _ below, sets.2]
    rw [if_pos sets, ← counted, List.count]
    apply List.countP_congr
    intro i member
    rw [Function.comp_apply, decide_eq_true_iff, addressed i member, beq_iff_eq]
    exact and_iff_right sets.1
  · rw [if_neg sets, List.countP_eq_zero]
    intro i member
    rw [Function.comp_apply, decide_eq_true_iff, addressed i member]
    rintro ⟨indices, rfl⟩
    have set := (List.mem_filter.mp member).2
    rw [bitset_eq narrow isSigned _ below] at set
    exact sets ⟨indices, set⟩

/-- Over a history, they add up. -/
theorem countP_flatMap_writes (narrow : width ≤ 64) {history : List (BitStatusCall width)}
    (same : ∀ call ∈ history, call.indices.length = leading.length)
    (inRange : ∀ indices ∈ history.flatMap (BitStatusCall.writes isSigned),
      InRange (leading ++ [last]) indices) {bit : Nat} (below : bit < width) :
    (history.flatMap (BitStatusCall.writes isSigned)).countP
        (fun indices => elementOf (leading ++ [last]) indices = lead ++ [bit]) =
      history.countP fun call => call.Sets lead bit := by
  induction history with
  | nil => rfl
  | cons call history ih =>
    rw [List.forall_mem_cons] at same
    rw [List.flatMap_cons, List.forall_mem_append] at inRange
    rw [List.flatMap_cons, List.countP_append, List.countP_cons, ih same.2 inRange.2,
      countP_writes narrow same.1 inRange.1 below, Nat.add_comm]
    simp only [decide_eq_true_iff]

/-- The bits of a status are written in front of the elements behind them. -/
theorem elementOf_ne_of_le (narrow : width ≤ 64) {call : BitStatusCall width}
    (same : call.indices.length = leading.length) {indices : List Int}
    (member : indices ∈ call.writes isSigned) {index : Nat} (behind : width ≤ index) :
    elementOf (leading ++ [last]) indices ≠ lead ++ [index] := by
  obtain ⟨i, set, rfl⟩ := List.mem_map.mp member
  have within : i < width := List.mem_range.mp (List.mem_filter.mp set).1
  rw [elementOf_concat same, intOfSize_of_lt (by omega), Int.toNat_natCast]
  intro equal
  have last := (List.append_singleton_inj.mp equal).2
  omega

end Calls

/-! ### Histories -/

theorem fits_one {size : Nat} (positive : 0 < size) (isSigned : Bool) : Fits size isSigned 1 := by
  have room : (2 : Int) ^ 1 ≤ 2 ^ (8 * size - 1) := pow_le_pow_right₀ (by decide) (by omega)
  have room' : (2 : Int) ^ 1 ≤ 2 ^ (8 * size) := pow_le_pow_right₀ (by decide) (by omega)
  unfold Fits
  split
  · omega
  · omega

/-- The value `1` in the type of a counter. -/
def counterOne {size : Nat} (positive : 0 < size) (isSigned : Bool) : IntegerValue size isSigned :=
  ⟨1, fits_one positive isSigned⟩

/-- **Calls of `writeBitStatus`** for the array of counters at `ptr`, one after the other. -/
def runBitStatus {size : Nat} (positive : 0 < size) (isSigned : Bool) (sizes : List Nat) (ptr : Nat)
    {width : Nat} (statusSigned : Bool) (history : List (BitStatusCall width))
    (state : StatState (IntegerValue size isSigned)) : Option (StatState (IntegerValue size isSigned)) :=
  run (writeBitStatus (fun state indices value =>
      (counterArray size isSigned sizes).step ptr state (.write indices value))
    (counterOne positive isSigned) statusSigned) state history

/-- **The bits are counted**: in the elements of an array with these leading dimensions and this last
one, behind calls for statuses of `width` bits. -/
structure BitsCounted (size : Nat) (isSigned : Bool) (leading : List Nat) (last ptr : Nat) {width : Nat}
    (history : List (BitStatusCall width)) (mem next : Mem) : Prop where
  /-- An element grows by the number of calls that set its bit, unless it overflows. -/
  counted : ∀ lead, InBounds leading lead → ∀ bit < width,
    let element := counterPtr size (leading ++ [last]) ptr (lead ++ [bit])
    let grown := counterAt isSigned size element mem +
      history.countP fun call => call.Sets lead bit
    Fits size isSigned grown → counterAt isSigned size element next = grown
  /-- The elements behind the last bit keep all their bytes. -/
  kept : ∀ lead, InBounds leading lead → ∀ index, width ≤ index → index < last →
    AgreeOn (counterPtr size (leading ++ [last]) ptr (lead ++ [index])) size next mem

section History

variable {size : Nat} (positive : 0 < size) (isSigned : Bool) (leading : List Nat) {last width : Nat}
  (narrow : width ≤ 64) (ptr : Nat) (statusSigned : Bool) {history : List (BitStatusCall width)}
  (same : ∀ call ∈ history, call.indices.length = leading.length)
  (state : StatState (IntegerValue size isSigned))

theorem runBitStatus_eq_run :
    runBitStatus positive isSigned (leading ++ [last]) ptr statusSigned history state =
      run (writeOne (leading ++ [last]) ptr (counterOne positive isSigned)) state
        (history.flatMap (BitStatusCall.writes statusSigned)) := by
  unfold runBitStatus
  rw [run_flatMap _ _ (BitStatusCall.writes statusSigned)
    fun state call => writeBitStatus_eq_run _ _ statusSigned state call]
  rfl

include narrow same

/-- Calls that get through have counted the bits. -/
theorem bitsCounted_of_run (room : width ≤ last) {next : StatState (IntegerValue size isSigned)}
    (runs : runBitStatus positive isSigned (leading ++ [last]) ptr statusSigned history state =
      some next) :
    BitsCounted size isSigned leading last ptr history state.mem next.mem := by
  have some' : leading ++ [last] ≠ [] := List.append_ne_nil_of_right_ne_nil _ (List.cons_ne_nil _ _)
  rw [runBitStatus_eq_run] at runs
  have inRange := inRange_of_run some' runs
  constructor
  · intro lead bounded bit below element grown fits
    have inside := bounded.concat (below.trans_le room)
    have bytes := counter_run some' rfl runs inside
    rw [countP_flatMap_writes narrow same inRange below] at bytes
    show integerOfBytes isSigned (counterBytes size element next.mem).1 = grown
    rw [bytes]
    exact integerOfBytes_integerBytes positive fits
  · intro lead bounded index behind inside
    refine kept_run some' runs (bounded.concat inside) fun indices member => ?_
    obtain ⟨call, belongs, written⟩ := List.mem_flatMap.mp member
    exact elementOf_ne_of_le narrow (same call belongs) written behind

/-- Calls in range get through. -/
theorem runBitStatus_isSome (covers : (width : Int) ≤ intOfSize last)
    (inRange : ∀ call ∈ history, InRange leading call.indices) :
    (runBitStatus positive isSigned (leading ++ [last]) ptr statusSigned history state).isSome := by
  have some' : leading ++ [last] ≠ [] := List.append_ne_nil_of_right_ne_nil _ (List.cons_ne_nil _ _)
  rw [runBitStatus_eq_run]
  refine run_isSome_of_inRange some' _ fun indices member => ?_
  obtain ⟨call, belongs, written⟩ := List.mem_flatMap.mp member
  obtain ⟨i, set, rfl⟩ := List.mem_map.mp written
  have within : i < width := List.mem_range.mp (List.mem_filter.mp set).1
  rw [inRange_concat (same call belongs), intOfSize_of_lt (by omega)]
  exact ⟨inRange call belongs, by omega, by omega⟩

end History

/-- **Status bits are counted**, for statuses of up to 64 bits, signed or not, and arrays of any
dimensions whose last one has an element for each bit: whenever no assertion fails, and none does if
the leading indices are in range and the array's own count of its last dimension covers the bits. -/
theorem bitStatus_counted {size : Nat} (positive : 0 < size) (isSigned : Bool) (leading : List Nat)
    {last width : Nat} (narrow : width ≤ 64) (room : width ≤ last) (ptr : Nat) (statusSigned : Bool)
    {history : List (BitStatusCall width)}
    (same : ∀ call ∈ history, call.indices.length = leading.length)
    (state : StatState (IntegerValue size isSigned)) :
    (∀ next, runBitStatus positive isSigned (leading ++ [last]) ptr statusSigned history state =
      some next → BitsCounted size isSigned leading last ptr history state.mem next.mem) ∧
    ((width : Int) ≤ intOfSize last → (∀ call ∈ history, InRange leading call.indices) →
      (runBitStatus positive isSigned (leading ++ [last]) ptr statusSigned history state).isSome) :=
  ⟨fun _ runs => bitsCounted_of_run positive isSigned leading narrow ptr statusSigned same state room
    runs, runBitStatus_isSome positive isSigned leading narrow ptr statusSigned same state⟩

/-- A negative status and a positive one, for the second row of eight counters. -/
def twoStatuses : List (BitStatusCall 8) := [⟨-1, [1]⟩, ⟨5, [1]⟩]

theorem bitStatus_counted_twoStatuses :
    ∃ next, runBitStatus (by decide : 0 < 4) true [2, 8] 0 true twoStatuses
        (.initial fun _ => 0) = some next ∧
      counterAt true 4 (counterPtr 4 [2, 8] 0 [1, 2]) next.mem = 2 ∧
      counterAt true 4 (counterPtr 4 [2, 8] 0 [1, 3]) next.mem = 1 := by
  have counted := bitStatus_counted (by decide : 0 < 4) true [2] (by decide : 8 ≤ 64)
    (by decide : 8 ≤ 8) 0 true (by decide : ∀ call ∈ twoStatuses, call.indices.length = [2].length)
    (.initial fun _ => 0)
  obtain ⟨next, runs⟩ := Option.isSome_iff_exists.mp (counted.2 (by decide) (by decide))
  have bits := counted.1 next runs
  exact ⟨next, runs, bits.counted [1] (by decide) 2 (by decide) (by decide),
    bits.counted [1] (by decide) 3 (by decide) (by decide)⟩

end StatLog.Stats
