/-
**The slots of the shared-memory log.**

The log region is an array of slots of `bytesPerLogBuf` bytes. The first slot of an entry starts
with a `LogHeader`, every other one with a `LogHeaderCommon` whose `numBlocks` is zero.

* `headerFields`, `SlotImage`: the fields `doWriteData` stores in a slot, as a record of disjoint
  fields. `logCells` makes the region a store of such cells.
* `numBlocksAt`, `timeStampAt`: what `getLog` reads back, and `SlotImage.numBlocksAt_of_held`,
  `SlotImage.timeStampAt_of_held`: it is what was stored.
* `TimeStamp.gt`: the comparison of two time stamps, a strict order on (seconds, microseconds).
-/

import StatLog.Lib.CircularBuffer
import StatLog.Lib.Memory

namespace StatLog.Logger

open ByteMemory CircularBuffer

/-! ### Sizes -/

def bytesPerLogBuf : Nat := 512

/-- `sizeof(LogHeaderCommon)`: one `unsigned int`. -/
def sizeofLogHeaderCommon : Nat := 4

/-- `sizeof(LogHeader)`: `numBlocks` (4 bytes and 4 of padding), the two 8-byte words of the time
stamp, 16 bytes of tag name and 8 of level name. -/
def sizeofLogHeader : Nat := 48

def maxCharsInFirstBlock : Nat := bytesPerLogBuf - sizeofLogHeader

def maxCharsInOtherBlocks : Nat := bytesPerLogBuf - sizeofLogHeaderCommon

/-- The address of a slot, from the start of the log region. -/
def slotPtr (slot : Nat) : Nat := bytesPerLogBuf * slot

/-! ### Time stamps -/

/-- `time_t` and `std::chrono::microseconds`, both 64 bits wide. -/
structure TimeStamp where
  sec : Int64
  usec : Int64
  deriving DecidableEq, Repr

namespace TimeStamp

/-- `operator>` on time stamps: `std::make_tuple(rhs...) > std::make_tuple(lhs...)`. -/
def gt (rhs lhs : TimeStamp) : Bool :=
  decide (lhs.sec < rhs.sec) || (!decide (rhs.sec < lhs.sec) && decide (lhs.usec < rhs.usec))

/-- The order the comparison decides. -/
def Le (first second : TimeStamp) : Prop := first.gt second = false

instance (first second : TimeStamp) : Decidable (Le first second) :=
  inferInstanceAs (Decidable (_ = _))

theorem gt_iff {rhs lhs : TimeStamp} : rhs.gt lhs = true ↔
    lhs.sec.toInt < rhs.sec.toInt ∨
      lhs.sec.toInt = rhs.sec.toInt ∧ lhs.usec.toInt < rhs.usec.toInt := by
  simp only [gt, Bool.or_eq_true, Bool.and_eq_true, Bool.not_eq_true', decide_eq_true_eq,
    decide_eq_false_iff_not, Int64.lt_iff_toInt_lt]
  omega

theorem le_iff {first second : TimeStamp} : Le first second ↔
    first.sec.toInt < second.sec.toInt ∨
      first.sec.toInt = second.sec.toInt ∧ first.usec.toInt ≤ second.usec.toInt := by
  rw [Le, ← Bool.not_eq_true, gt_iff]
  omega

theorem Le.refl (stamp : TimeStamp) : Le stamp stamp := by
  rw [le_iff]
  omega

theorem Le.trans {first second third : TimeStamp} (one : Le first second) (two : Le second third) :
    Le first third := by
  rw [le_iff] at *
  omega

theorem Le.antisymm {first second : TimeStamp} (one : Le first second) (two : Le second first) :
    first = second := by
  rw [le_iff] at *
  obtain ⟨sec, usec⟩ := first
  obtain ⟨sec', usec'⟩ := second
  simp only at one two
  rw [TimeStamp.mk.injEq, ← Int64.toInt_inj, ← Int64.toInt_inj]
  omega

theorem le_of_gt {first second : TimeStamp} (greater : first.gt second = true) : Le second first := by
  rw [gt_iff] at greater
  rw [le_iff]
  omega

theorem gt_of_le_of_gt {first second third : TimeStamp} (le : Le first second)
    (greater : first.gt third = true) : second.gt third = true := by
  rw [le_iff] at le
  rw [gt_iff] at *
  omega

end TimeStamp

/-! ### The fields of a slot -/

/-- The arguments of one call of `doWriteData`: the `len` bytes of `buf`, the two names and the
time stamp. -/
structure WriteCall where
  buf : List UInt8
  tagName : CString
  logLevelName : CString
  timeStamp : TimeStamp
  deriving DecidableEq

/-- A 64-bit word as it is stored. -/
def int64Bytes (value : Int64) : List UInt8 := leBytes 8 value.toUInt64.toNat

/-- The 64-bit word stored as the given bytes. -/
def int64OfBytes (bytes : List UInt8) : Int64 := (UInt64.ofNat (ofLE bytes)).toInt64

theorem int64OfBytes_int64Bytes (value : Int64) : int64OfBytes (int64Bytes value) = value := by
  have small : value.toUInt64.toNat < 256 ^ 8 := value.toUInt64.toNat_lt
  rw [int64OfBytes, int64Bytes, ofLE_leBytes, Nat.mod_eq_of_lt small, UInt64.ofNat_toNat,
    Int64.toInt64_toUInt64]

/-- The assignments to `*log_hdr_ptr`, in order. -/
def headerFields (numBlocks : Nat) (call : WriteCall) : List Field :=
  [(0, leBytes 4 numBlocks), (8, int64Bytes call.timeStamp.sec), (16, int64Bytes call.timeStamp.usec),
    (24, strncpy 16 call.tagName), (40, strncpy 8 call.logLevelName)]

/-- What a slot has been given: a header and the first characters of an entry, or a zero
`numBlocks` and more of its characters. -/
inductive SlotImage
  | first (numBlocks : Nat) (call : WriteCall) (data : List UInt8)
  | other (data : List UInt8)

namespace SlotImage

def fields : SlotImage → List Field
  | .first numBlocks call data => headerFields numBlocks call ++ [(sizeofLogHeader, data)]
  | .other data => [(0, leBytes 4 0), (sizeofLogHeaderCommon, data)]

/-- The characters fit the slot. -/
def Ok : SlotImage → Prop
  | .first _ _ data => data.length ≤ maxCharsInFirstBlock
  | .other data => data.length ≤ maxCharsInOtherBlocks

/-- The value of `numBlocks` in a slot: an `unsigned int`. -/
def numBlocks : SlotImage → Nat
  | .first numBlocks _ _ => numBlocks % 2 ^ 32
  | .other _ => 0

theorem fit {image : SlotImage} (ok : image.Ok) : Field.Fit bytesPerLogBuf image.fields := by
  cases image with
  | first numBlocks call data =>
    simp only [Ok, maxCharsInFirstBlock, bytesPerLogBuf, sizeofLogHeader] at ok
    simp [fields, headerFields, Field.Fit, Field.stop, int64Bytes, bytesPerLogBuf, sizeofLogHeader]
    omega
  | other data =>
    simp only [Ok, maxCharsInOtherBlocks, bytesPerLogBuf, sizeofLogHeaderCommon] at ok
    simp [fields, Field.Fit, Field.stop, bytesPerLogBuf, sizeofLogHeaderCommon]
    omega

end SlotImage

/-- **The log region as a store of cells.** -/
def logCells : CellStore Mem SlotImage where
  store mem slot image := Field.storeAll mem (slotPtr slot) image.fields
  held mem slot image := Field.HeldAt mem (slotPtr slot) image.fields
  Ok := SlotImage.Ok
  held_store mem slot _ ok := Field.heldAt_storeAll (SlotImage.fit ok) mem (slotPtr slot)
  held_store_of_ne mem slot other _ _ ok okKept different held := by
    apply Field.heldAt_storeAll_of_disjoint (SlotImage.fit okKept) (SlotImage.fit ok) held
    unfold slotPtr bytesPerLogBuf
    omega

/-! ### Reading a header -/

/-- `commonHeader.numBlocks` of a slot. -/
def numBlocksAt (mem : Mem) (slot : Nat) : Nat := ofLE (mem.read (slotPtr slot) 4)

/-- `timeStamp` of a slot. -/
def timeStampAt (mem : Mem) (slot : Nat) : TimeStamp :=
  ⟨int64OfBytes (mem.read (slotPtr slot + 8) 8), int64OfBytes (mem.read (slotPtr slot + 16) 8)⟩

/-- **A slot announces the number of blocks it was given.** -/
theorem SlotImage.numBlocksAt_of_held {mem : Mem} {slot : Nat} {image : SlotImage}
    (held : logCells.held mem slot image) : numBlocksAt mem slot = image.numBlocks := by
  cases image with
  | first numBlocks call data =>
    have stored := held (0, leBytes 4 numBlocks) (by simp [fields, headerFields])
    rw [Nat.add_zero, length_leBytes] at stored
    rw [numBlocksAt, stored, ofLE_leBytes]
    rfl
  | other data =>
    have stored := held (0, leBytes 4 0) (by simp [fields])
    rw [Nat.add_zero, length_leBytes] at stored
    rw [numBlocksAt, stored, ofLE_leBytes]
    rfl

theorem SlotImage.timeStampAt_of_held {mem : Mem} {slot numBlocks : Nat} {call : WriteCall}
    {data : List UInt8} (held : logCells.held mem slot (.first numBlocks call data)) :
    timeStampAt mem slot = call.timeStamp := by
  have sec := held (8, int64Bytes call.timeStamp.sec) (by simp [fields, headerFields])
  have usec := held (16, int64Bytes call.timeStamp.usec) (by simp [fields, headerFields])
  simp only [int64Bytes, length_leBytes] at sec usec
  rw [timeStampAt, sec, usec]
  have first := int64OfBytes_int64Bytes call.timeStamp.sec
  have second := int64OfBytes_int64Bytes call.timeStamp.usec
  rw [int64Bytes] at first second
  rw [first, second]

end StatLog.Logger
