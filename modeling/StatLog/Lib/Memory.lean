/-
**Byte-addressed memory.**

A memory is a total function from addresses to bytes; a program that must stay inside a buffer
says so with a limit of its own.

* `Mem.write`, `Mem.read`: a block copy into the memory and out of it. What is written reads back
  (`Mem.read_write`), and a disjoint range reads as before (`Mem.read_write_of_disjoint`).
* `leBytes`, `ofLE`: little-endian integers, with `ofLE_leBytes` (up to the width).
* `Field.storeAll`, `Field.HeldAt`: a record of disjoint fields at a base address. Storing it makes
  every field readable (`Field.heldAt_storeAll`) and leaves all other records alone
  (`Field.heldAt_storeAll_of_disjoint`).
* `strncpy`, `cString`: the C library's bounded copy and the scan of a C string.
-/

import Mathlib.Algebra.GroupWithZero.Nat
import Mathlib.Data.List.Basic
import Mathlib.Data.List.GetD

namespace ByteMemory

/-- A byte-addressed memory. -/
abbrev Mem := Nat → UInt8

namespace Mem

/-- Copy `bytes` to the addresses from `start` on. -/
def write (mem : Mem) (start : Nat) (bytes : List UInt8) : Mem := fun address =>
  if start ≤ address ∧ address < start + bytes.length then bytes.getD (address - start) 0
  else mem address

/-- The `count` bytes from `start` on. -/
def read (mem : Mem) (start count : Nat) : List UInt8 :=
  (List.range count).map fun offset => mem (start + offset)

variable (mem : Mem) (start count : Nat) (bytes : List UInt8)

@[simp] theorem length_read : (mem.read start count).length = count := by
  simp [read]

theorem write_of_outside {address : Nat}
    (outside : address < start ∨ start + bytes.length ≤ address) :
    mem.write start bytes address = mem address := by
  unfold write
  rw [if_neg]
  omega

theorem write_of_inside {offset : Nat} (inside : offset < bytes.length) :
    mem.write start bytes (start + offset) = bytes[offset] := by
  unfold write
  rw [if_pos ⟨Nat.le_add_right _ _, Nat.add_lt_add_left inside _⟩, Nat.add_sub_cancel_left,
    List.getD_eq_getElem _ _ inside]

/-- What `memset` leaves. -/
theorem write_replicate_of_lt (byte : UInt8) {size offset : Nat} (inside : offset < size) :
    mem.write start (List.replicate size byte) (start + offset) = byte := by
  rw [write_of_inside mem start _ (by rwa [List.length_replicate]), List.getElem_replicate]

@[simp] theorem write_nil : mem.write start [] = mem := by
  funext address
  apply write_of_outside
  rw [List.length_nil]
  omega

/-- A memory that holds the same byte everywhere. -/
theorem read_const (byte : UInt8) :
    read (fun _ => byte) start count = List.replicate count byte := by
  refine List.eq_replicate_iff.mpr ⟨length_read _ _ _, fun other member => ?_⟩
  obtain ⟨offset, -, rfl⟩ := List.mem_map.mp member
  rfl

/-- Two memories that agree on a range read the same there. -/
theorem read_congr {mem other : Mem}
    (same : ∀ address, start ≤ address → address < start + count → mem address = other address) :
    mem.read start count = other.read start count := by
  unfold read
  apply List.map_congr_left
  intro offset member
  have below := List.mem_range.mp member
  exact same _ (Nat.le_add_right _ _) (Nat.add_lt_add_left below _)

/-- **What is written reads back.** -/
theorem read_write : (mem.write start bytes).read start bytes.length = bytes := by
  apply List.ext_getElem (length_read _ _ _)
  intro offset _ inside
  simp only [read, List.getElem_map, List.getElem_range]
  exact write_of_inside mem start bytes inside

/-- **A write leaves every disjoint range alone.** -/
theorem read_write_of_disjoint {other : Nat}
    (disjoint : other + count ≤ start ∨ start + bytes.length ≤ other) :
    (mem.write start bytes).read other count = mem.read other count := by
  apply read_congr
  intro address lower upper
  apply write_of_outside
  omega

theorem read_add (more : Nat) :
    mem.read start (count + more) = mem.read start count ++ mem.read (start + count) more := by
  simp [read, List.range_add, List.map_map, Function.comp_def, Nat.add_assoc]

theorem read_one : mem.read start 1 = [mem start] := rfl

/-- More is read behind what is known. -/
theorem read_eq_append (stored : mem.read start bytes.length = bytes) (within : bytes.length ≤ count) :
    ∃ rest, mem.read start count = bytes ++ rest := by
  obtain ⟨more, rfl⟩ := Nat.exists_eq_add_of_le within
  exact ⟨mem.read (start + bytes.length) more, by rw [read_add, stored]⟩

/-- Two adjacent writes are one. -/
theorem write_append (more : List UInt8) :
    (mem.write start bytes).write (start + bytes.length) more = mem.write start (bytes ++ more) := by
  funext address
  unfold write
  by_cases first : start ≤ address ∧ address < start + bytes.length
  · rw [if_neg (by omega), if_pos first, if_pos (by rw [List.length_append]; omega),
      List.getD_append _ _ _ _ (by omega)]
  · rw [if_neg first]
    by_cases second : start + bytes.length ≤ address ∧ address < start + bytes.length + more.length
    · rw [if_pos second, if_pos (by rw [List.length_append]; omega),
        List.getD_append_right _ _ _ _ (by omega), show address - start - bytes.length =
          address - (start + bytes.length) by omega]
    · rw [if_neg second, if_neg (by rw [List.length_append]; omega)]

end Mem

/-! ### Little-endian integers -/

/-- The `width` low bytes of a number, least significant first. -/
def leBytes : Nat → Nat → List UInt8
  | 0, _ => []
  | width + 1, value => UInt8.ofNat (value % 256) :: leBytes width (value / 256)

/-- The number with the given little-endian bytes. -/
def ofLE : List UInt8 → Nat
  | [] => 0
  | byte :: bytes => byte.toNat + 256 * ofLE bytes

@[simp] theorem length_leBytes (width value : Nat) : (leBytes width value).length = width := by
  induction width generalizing value with
  | zero => rfl
  | succ width ih => simp [leBytes, ih]

/-- **A stored integer reads back modulo its width.** -/
theorem ofLE_leBytes (width value : Nat) : ofLE (leBytes width value) = value % 256 ^ width := by
  induction width generalizing value with
  | zero => simp [leBytes, ofLE, Nat.mod_one]
  | succ width ih =>
    have digit : (UInt8.ofNat (value % 256)).toNat = value % 256 := by
      rw [UInt8.toNat_ofNat']
      exact Nat.mod_eq_of_lt (Nat.mod_lt _ (by decide))
    rw [leBytes, ofLE, digit, ih, Nat.pow_succ', Nat.mod_mul]

/-- The bytes of the number that some bytes stand for. -/
theorem leBytes_ofLE (bytes : List UInt8) : leBytes bytes.length (ofLE bytes) = bytes := by
  induction bytes with
  | nil => rfl
  | cons byte bytes ih =>
    have small := byte.toNat_lt
    have first : (byte.toNat + 256 * ofLE bytes) % 256 = byte.toNat := by omega
    have rest : (byte.toNat + 256 * ofLE bytes) / 256 = ofLE bytes := by omega
    rw [List.length_cons, leBytes, ofLE, first, rest, ih, UInt8.ofNat_toNat]

theorem leBytes_zero (width : Nat) : leBytes width 0 = List.replicate width 0 := by
  induction width with
  | zero => rfl
  | succ width ih => simp [leBytes, ih, List.replicate_succ]

/-! ### Records of disjoint fields -/

/-- A field of a record: its offset and the bytes it holds. -/
abbrev Field := Nat × List UInt8

namespace Field

/-- The address after the field. -/
def stop (field : Field) : Nat := field.1 + field.2.length

/-- The fields stand one after the other and end before `width`. -/
def Fit (width : Nat) : List Field → Prop
  | [] => True
  | field :: fields => field.stop ≤ width ∧ (∀ next ∈ fields, field.stop ≤ next.1) ∧ Fit width fields

/-- Store the fields in order, at offsets from `base`. -/
def storeAll (mem : Mem) (base : Nat) (fields : List Field) : Mem :=
  fields.foldl (fun mem field => mem.write (base + field.1) field.2) mem

/-- The memory holds the fields of the record at `base`. -/
def HeldAt (mem : Mem) (base : Nat) (fields : List Field) : Prop :=
  ∀ field ∈ fields, mem.read (base + field.1) field.2.length = field.2

@[simp] theorem storeAll_cons (mem : Mem) (base : Nat) (field : Field) (fields : List Field) :
    storeAll mem base (field :: fields) =
      storeAll (mem.write (base + field.1) field.2) base fields := rfl

theorem storeAll_append (mem : Mem) (base : Nat) (fields more : List Field) :
    storeAll mem base (fields ++ more) = storeAll (storeAll mem base fields) base more := by
  simp [storeAll]

/-- The fields of several items, item by item. -/
theorem storeAll_flatMap {Item : Type} (mem : Mem) (base : Nat) (fields : Item → List Field)
    (items : List Item) :
    storeAll mem base (items.flatMap fields) =
      items.foldl (fun mem item => storeAll mem base (fields item)) mem := by
  unfold storeAll
  rw [List.foldl_flatMap]

/-- A byte in none of the fields is unchanged. -/
theorem storeAll_of_missed {fields : List Field} (mem : Mem) (base : Nat) {address : Nat}
    (missed : ∀ field ∈ fields, address < base + field.1 ∨ base + field.stop ≤ address) :
    storeAll mem base fields address = mem address := by
  induction fields generalizing mem with
  | nil => rfl
  | cons field fields ih =>
    rw [storeAll_cons, ih _ fun later member => missed later (List.mem_cons_of_mem _ member)]
    apply Mem.write_of_outside
    have first := missed field List.mem_cons_self
    unfold stop at first
    omega

/-- So is a range that meets none of them. -/
theorem read_storeAll_of_missed {fields : List Field} (mem : Mem) (base : Nat) {start count : Nat}
    (missed : ∀ field ∈ fields, start + count ≤ base + field.1 ∨ base + field.stop ≤ start) :
    (storeAll mem base fields).read start count = mem.read start count := by
  apply Mem.read_congr
  intro address lower upper
  apply storeAll_of_missed
  intro field member
  have apart := missed field member
  omega

theorem Fit.stop_le {width : Nat} {fields : List Field} (fit : Fit width fields) :
    ∀ field ∈ fields, field.stop ≤ width := by
  induction fields with
  | nil => exact fun _ member => by cases member
  | cons head fields ih =>
    intro field member
    rcases List.mem_cons.mp member with rfl | later
    · exact fit.1
    · exact ih fit.2.2 field later

/-- `Fit`, by the bound of each field and the order of any two. -/
theorem fit_iff {width : Nat} {fields : List Field} :
    Fit width fields ↔ (∀ field ∈ fields, field.stop ≤ width) ∧
      fields.Pairwise fun first second => first.stop ≤ second.1 := by
  induction fields with
  | nil => exact iff_of_true trivial ⟨fun _ member => (List.not_mem_nil member).elim, .nil⟩
  | cons field fields ih =>
    rw [Fit, ih, List.forall_mem_cons, List.pairwise_cons]
    constructor
    · rintro ⟨here, order, later, ordered⟩
      exact ⟨⟨here, later⟩, order, ordered⟩
    · rintro ⟨⟨here, later⟩, order, ordered⟩
      exact ⟨here, order, later, ordered⟩

/-- The fields stand one after the other between two addresses. -/
def FitBetween (start stop : Nat) (fields : List Field) : Prop :=
  (∀ field ∈ fields, start ≤ field.1) ∧ Fit stop fields

/-- **The fields of items that stand one after the other.** -/
theorem FitBetween.flatMap {Item : Type} {items : List Item} {fields : Item → List Field}
    {start stop : Item → Nat} {lower upper : Nat}
    (each : ∀ item ∈ items, FitBetween (start item) (stop item) (fields item))
    (inside : ∀ item ∈ items, lower ≤ start item ∧ stop item ≤ upper)
    (ordered : items.Pairwise fun first second => stop first ≤ start second) :
    FitBetween lower upper (items.flatMap fields) := by
  have ends : ∀ item ∈ items, ∀ field ∈ fields item, field.stop ≤ stop item :=
    fun item member => (fit_iff.mp (each item member).2).1
  refine ⟨fun field member => ?_, fit_iff.mpr ⟨fun field member => ?_, ?_⟩⟩
  · obtain ⟨item, member, belongs⟩ := List.mem_flatMap.mp member
    exact Nat.le_trans (inside item member).1 ((each item member).1 field belongs)
  · obtain ⟨item, member, belongs⟩ := List.mem_flatMap.mp member
    exact Nat.le_trans (ends item member field belongs) (inside item member).2
  · rw [List.pairwise_flatMap]
    refine ⟨fun item member => (fit_iff.mp (each item member).2).2, ?_⟩
    refine (List.Pairwise.and_mem.mp ordered).imp fun ⟨member, member', order⟩ => ?_
    intro field belongs field' belongs'
    have behind := (each _ member').1 field' belongs'
    exact Nat.le_trans (ends _ member field belongs) (Nat.le_trans order behind)

/-- Storing a record changes no byte before its first field's base and none past its width. -/
theorem storeAll_of_outside {width : Nat} {fields : List Field} (fit : Fit width fields)
    (mem : Mem) (base : Nat) {address : Nat} (outside : address < base ∨ base + width ≤ address) :
    storeAll mem base fields address = mem address := by
  apply storeAll_of_missed
  intro field member
  have inside := fit.stop_le field member
  unfold stop at *
  omega

/-- Storing later fields leaves an earlier range of the record alone. -/
theorem read_storeAll_of_before {fields : List Field} (mem : Mem) (base start count : Nat)
    (before : ∀ field ∈ fields, start + count ≤ field.1) :
    (storeAll mem base fields).read (base + start) count = mem.read (base + start) count := by
  apply read_storeAll_of_missed
  intro field member
  have behind := before field member
  omega

/-- **A stored record is held.** -/
theorem heldAt_storeAll {width : Nat} {fields : List Field} (fit : Fit width fields)
    (mem : Mem) (base : Nat) : HeldAt (storeAll mem base fields) base fields := by
  induction fields generalizing mem with
  | nil => exact fun _ member => by cases member
  | cons head fields ih =>
    intro field member
    rcases List.mem_cons.mp member with rfl | later
    · rw [storeAll_cons, read_storeAll_of_before _ _ _ _ fit.2.1]
      exact Mem.read_write mem _ _
    · exact ih fit.2.2 _ field later

/-- A held record stays held in a memory that agrees with the first one on its width. -/
theorem HeldAt.congr {width base : Nat} {fields : List Field} (fit : Fit width fields)
    {mem other : Mem} (held : HeldAt mem base fields)
    (same : ∀ address, base ≤ address → address < base + width → other address = mem address) :
    HeldAt other base fields := by
  intro field member
  have inside := fit.stop_le field member
  unfold stop at inside
  have unchanged : other.read (base + field.1) field.2.length =
      mem.read (base + field.1) field.2.length :=
    Mem.read_congr _ _ fun address lower upper => same address (by omega) (by omega)
  rw [unchanged]
  exact held field member

/-- **A record stays held while another one is stored elsewhere.** -/
theorem heldAt_storeAll_of_disjoint {width base base' : Nat} {fields other : List Field}
    (fit : Fit width fields) (fit' : Fit width other) {mem : Mem} (held : HeldAt mem base fields)
    (disjoint : base + width ≤ base' ∨ base' + width ≤ base) :
    HeldAt (storeAll mem base' other) base fields :=
  held.congr fit fun _ _ _ => storeAll_of_outside fit' mem base' (by omega)

end Field

/-! ### C strings -/

/-- The bytes of a C string: everything before its first NUL. -/
structure CString where
  bytes : List UInt8
  nulFree : 0 ∉ bytes
  deriving DecidableEq

/-- `std::strncpy`: at most `size` characters, padded with NULs when the string is shorter. -/
def strncpy (size : Nat) (source : CString) : List UInt8 :=
  source.bytes.take size ++ List.replicate (size - source.bytes.length) 0

@[simp] theorem length_strncpy (size : Nat) (source : CString) :
    (strncpy size source).length = size := by
  simp [strncpy]
  omega

/-- The C string at `start`, scanned over at most `fuel` bytes; `none` when no NUL is met. -/
def scan (mem : Mem) (start : Nat) : Nat → Option (List UInt8)
  | 0 => none
  | fuel + 1 =>
    if mem start = 0 then some []
    else (scan mem (start + 1) fuel).map (mem start :: ·)

/-- The C string at `start` of a buffer of `limit` bytes; `none` when the scan leaves the buffer. -/
def cString (mem : Mem) (limit start : Nat) : Option (List UInt8) :=
  scan mem start (limit - start)

/-- **The scan stops at the first NUL**, which may be the byte behind the range known. -/
theorem cString_eq {mem : Mem} {limit start : Nat} {bytes : List UInt8}
    (stored : mem.read start bytes.length = bytes)
    (stop : 0 ∈ bytes ∨ mem (start + bytes.length) = 0) (inside : start + bytes.length < limit) :
    cString mem limit start = some (bytes.takeWhile (· ≠ 0)) := by
  unfold cString
  obtain ⟨fuel, room⟩ : ∃ fuel, limit - start = bytes.length + 1 + fuel :=
    ⟨limit - start - (bytes.length + 1), by omega⟩
  rw [room]
  clear room inside
  induction bytes generalizing start with
  | nil =>
    have zero : mem start = 0 := stop.resolve_left List.not_mem_nil
    rw [List.length_nil, Nat.zero_add, Nat.add_comm, scan, if_pos zero]
    rfl
  | cons byte bytes ih =>
    rw [List.length_cons, Nat.add_comm bytes.length 1, Mem.read_add, Mem.read_one] at stored
    obtain ⟨first, rest⟩ := List.cons.inj stored
    rw [show (byte :: bytes).length + 1 + fuel = (bytes.length + 1 + fuel) + 1 by simp; omega, scan,
      first]
    by_cases zero : byte = 0
    · rw [if_pos zero, zero]
      rfl
    · have later : 0 ∈ bytes ∨ mem (start + 1 + bytes.length) = 0 := by
        rcases stop with member | behind
        · exact Or.inl ((List.mem_cons.mp member).resolve_left fun same => zero same.symm)
        · rw [List.length_cons, Nat.add_comm bytes.length 1, ← Nat.add_assoc] at behind
          exact Or.inr behind
      rw [if_neg zero, ih rest later, List.takeWhile_cons_of_pos (by simpa using zero)]
      rfl

theorem scan_isSome_iff {mem : Mem} {start fuel : Nat} :
    (scan mem start fuel).isSome ↔ ∃ offset < fuel, mem (start + offset) = 0 := by
  induction fuel generalizing start with
  | zero => simp [scan]
  | succ fuel ih =>
    rw [scan]
    by_cases zero : mem start = 0
    · rw [if_pos zero]
      exact ⟨fun _ => ⟨0, Nat.succ_pos _, zero⟩, fun _ => rfl⟩
    · rw [if_neg zero, Option.isSome_map, ih]
      constructor
      · rintro ⟨offset, below, found⟩
        exact ⟨offset + 1, by omega, by rw [← found, Nat.add_assoc, Nat.add_comm 1]⟩
      · rintro ⟨offset, below, found⟩
        cases offset with
        | zero => exact absurd found zero
        | succ offset => exact ⟨offset, by omega, by rw [← found, Nat.add_assoc, Nat.add_comm 1]⟩

/-- **A scan stays inside the buffer when there is a NUL to meet.** -/
theorem cString_isSome_iff {mem : Mem} {limit start : Nat} :
    (cString mem limit start).isSome ↔ ∃ address, start ≤ address ∧ address < limit ∧ mem address = 0 := by
  unfold cString
  rw [scan_isSome_iff]
  constructor
  · rintro ⟨offset, below, found⟩
    exact ⟨start + offset, Nat.le_add_right _ _, by omega, found⟩
  · rintro ⟨address, above, below, found⟩
    exact ⟨address - start, by omega, by rw [← found, Nat.add_sub_cancel' above]⟩

theorem takeWhile_append_of_nulFree {bytes : List UInt8} (nulFree : 0 ∉ bytes) (more : List UInt8) :
    (bytes ++ more).takeWhile (· ≠ 0) = bytes ++ more.takeWhile (· ≠ 0) := by
  refine List.takeWhile_append_of_pos fun byte member => decide_eq_true fun zero => ?_
  rw [zero] at member
  exact nulFree member

theorem takeWhile_of_nulFree {bytes : List UInt8} (nulFree : 0 ∉ bytes) :
    bytes.takeWhile (· ≠ 0) = bytes := by
  have := takeWhile_append_of_nulFree nulFree []
  rwa [List.append_nil, List.takeWhile_nil, List.append_nil] at this

/-- A string shorter than its field reads back from it. -/
theorem takeWhile_strncpy_of_lt {size : Nat} {source : CString}
    (shorter : source.bytes.length < size) (more : List UInt8) :
    (strncpy size source ++ more).takeWhile (· ≠ 0) = source.bytes := by
  obtain ⟨count, padding⟩ : ∃ count, size - source.bytes.length = count + 1 :=
    ⟨size - source.bytes.length - 1, by omega⟩
  rw [strncpy, List.take_of_length_le (by omega), padding, List.append_assoc,
    takeWhile_append_of_nulFree source.nulFree]
  simp [List.replicate_succ]

/-- A string that fills its field runs on into what lies behind it. -/
theorem takeWhile_strncpy_of_le {size : Nat} {source : CString}
    (fills : size ≤ source.bytes.length) (more : List UInt8) :
    (strncpy size source ++ more).takeWhile (· ≠ 0) =
      source.bytes.take size ++ more.takeWhile (· ≠ 0) := by
  rw [strncpy, show size - source.bytes.length = 0 by omega, List.replicate_zero, List.append_nil]
  exact takeWhile_append_of_nulFree (fun member => source.nulFree (List.mem_of_mem_take member)) more

/-- A field longer than its string holds a NUL. -/
theorem zero_mem_strncpy {size : Nat} {source : CString} (shorter : source.bytes.length < size) :
    0 ∈ strncpy size source := by
  refine List.mem_append_right _ (List.mem_replicate.mpr ⟨?_, rfl⟩)
  omega

/-- A C string with its NUL, cut into pieces none of which is empty: up to their first NUL the
pieces make up the string. -/
theorem takeWhile_pieces {text : List UInt8} (nulFree : 0 ∉ text) {pieces : List (List UInt8)}
    (joined : pieces.flatten = text ++ [0]) (nonempty : ∀ piece ∈ pieces, piece ≠ []) :
    (pieces.map (·.takeWhile (· ≠ 0))).flatten = text := by
  induction pieces generalizing text with
  | nil => simp at joined
  | cons piece pieces ih =>
    rw [List.flatten_cons] at joined
    rw [List.map_cons, List.flatten_cons]
    rcases List.eq_nil_or_concat pieces.flatten with none | ⟨front, last, some⟩
    · have empty : pieces = [] := by
        apply List.eq_nil_iff_forall_not_mem.mpr
        intro other member
        exact nonempty other (List.mem_cons_of_mem _ member) (List.flatten_eq_nil_iff.mp none _ member)
      rw [none, List.append_nil] at joined
      rw [empty, joined, takeWhile_append_of_nulFree nulFree]
      simp
    · rw [List.concat_eq_append] at some
      rw [some, ← List.append_assoc] at joined
      obtain ⟨textEq, lastEq⟩ := List.append_inj' joined rfl
      rw [List.singleton_inj.mp lastEq] at some
      subst textEq
      simp only [List.mem_append, not_or] at nulFree
      rw [takeWhile_of_nulFree nulFree.1, ih nulFree.2 some fun other member =>
        nonempty other (List.mem_cons_of_mem _ member)]

end ByteMemory
