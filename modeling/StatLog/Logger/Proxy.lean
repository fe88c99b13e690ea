/-
**`LogGenProxy` and its stream.**

A proxy owns a string stream through `ss_ptr`. Insertions and `hexDump` write to the stream of an
enabled proxy, and the destructor hands the text to `writeData`. A null `ss_ptr` is `none`, and so
is what follows from using one.

* `insert`, `hexDump`, `moveFrom`, `destroy`: the source's functions on one proxy.
* `Piece`, `logMessage`: a message made of several insertions and dumps.
* `Piece.apply_eq`: what a piece appends, given the base the stream is in; a dump of at least one
  byte leaves the stream in base sixteen.
* `withBases`: the pieces with the bases they are written in.
* **`piecesIndependent_iff`**: the text is what the pieces give alone exactly when every integer
  inserted after a dump of at least one byte is one of `0` to `9`.
-/

import StatLog.Lib.Memory
import StatLog.Lib.OutputStream

namespace StatLog.Logger

open ByteMemory Numeral OutputStream

/-! ### The source's functions -/

def newline : UInt8 := 10

def blank : UInt8 := 32

/-- A value that is inserted: characters, or an integer. -/
inductive Value
  | string (chars : List UInt8)
  | int (integer : Integer)
  deriving DecidableEq

/-- `operator<<` of the stream. -/
def Value.print (stream : OStream) : Value → OStream
  | .string chars => stream.put chars
  | .int integer => stream.put (integer.render stream.base)

/-- `(unsigned int)buf[i]`. -/
def unsignedInt (byte : UInt8) : Integer where
  bits := 32
  value := byte.toNat
  lower := by omega
  upper := by
    have := byte.toNat_lt
    omega

/-- The loop of `hexDump`, from index `i` on. -/
def hexDumpLoop : Nat → List UInt8 → OStream → OStream
  | _, [], stream => stream
  | i, byte :: buf, stream =>
    let stream := (Value.int (unsignedInt byte)).print (stream.hex.setw 2)
    hexDumpLoop (i + 1) buf (stream.put (if (i + 1) % 32 = 0 then [newline] else [blank]))

/-- What `hexDump` writes to the stream of an enabled proxy. -/
def hexDumpTo (buf label : List UInt8) (stream : OStream) : OStream :=
  hexDumpLoop 0 buf (((stream.put label).put [newline]).setfill 48)

/-- **`LogGenProxy`.** -/
structure LogGenProxy where
  ssPtr : Option OStream
  theLogger : Nat
  enabled : Bool
  tagName : CString
  logLevelName : CString
  deriving DecidableEq

/-- A call of `writeData`, and the logger it is for. -/
structure WriteDataCall where
  theLogger : Nat
  logEntry : List UInt8
  tagName : CString
  logLevelName : CString
  deriving DecidableEq

namespace LogGenProxy

/-- The constructor, with an empty stream. -/
def construct (theLogger : Nat) (enabled : Bool) (tagName logLevelName : CString) : LogGenProxy :=
  ⟨some {}, theLogger, enabled, tagName, logLevelName⟩

/-- The defaulted move constructor: the new proxy and what is left in the other one. -/
def moveFrom (other : LogGenProxy) : LogGenProxy × LogGenProxy :=
  (other, { other with ssPtr := none })

/-- `operator<<`. -/
def insert (proxy : LogGenProxy) (value : Value) : Option LogGenProxy :=
  if proxy.enabled = false then some proxy
  else proxy.ssPtr.map fun stream => { proxy with ssPtr := some (value.print stream) }

def hexDump (proxy : LogGenProxy) (buf label : List UInt8) : Option LogGenProxy :=
  if proxy.enabled = false then some proxy
  else proxy.ssPtr.map fun stream => { proxy with ssPtr := some (hexDumpTo buf label stream) }

/-- The destructor: the call of `writeData`, if there is one. -/
def destroy (proxy : LogGenProxy) : Option (Option WriteDataCall) :=
  proxy.ssPtr.map fun stream =>
    if stream.text = [] then none
    else some ⟨proxy.theLogger, stream.text, proxy.tagName, proxy.logLevelName⟩

end LogGenProxy

/-! ### Messages of several pieces -/

/-- An insertion, or a `hexDump`. -/
inductive Piece
  | insert (value : Value)
  | hexDump (buf label : List UInt8)
  deriving DecidableEq

namespace Piece

/-- What a piece does to the stream of an enabled proxy. -/
def apply (stream : OStream) : Piece → OStream
  | .insert value => value.print stream
  | .hexDump buf label => hexDumpTo buf label stream

/-- The call a piece stands for. -/
def call (proxy : LogGenProxy) : Piece → Option LogGenProxy
  | .insert value => proxy.insert value
  | .hexDump buf label => proxy.hexDump buf label

end Piece

/-- A message of the given pieces, through one fresh proxy. -/
def logMessage (proxy : LogGenProxy) (pieces : List Piece) : Option (Option WriteDataCall) := do
  let proxy ← pieces.foldlM Piece.call proxy
  proxy.destroy

/-- The text of a message of an enabled proxy. -/
def messageText (pieces : List Piece) : List UInt8 := (pieces.foldl Piece.apply {}).text

theorem Piece.call_of_enabled {proxy : LogGenProxy} {stream : OStream} (enabled : proxy.enabled = true)
    (owns : proxy.ssPtr = some stream) (piece : Piece) :
    piece.call proxy = some { proxy with ssPtr := some (piece.apply stream) } := by
  have on : proxy.enabled ≠ false := by
    rw [enabled]
    decide
  cases piece with
  | insert value => rw [call, LogGenProxy.insert, if_neg on, owns]; rfl
  | hexDump buf label => rw [call, LogGenProxy.hexDump, if_neg on, owns]; rfl

theorem Piece.call_of_disabled {proxy : LogGenProxy} (disabled : proxy.enabled = false) (piece : Piece) :
    piece.call proxy = some proxy := by
  cases piece with
  | insert value => rw [call, LogGenProxy.insert, if_pos disabled]
  | hexDump buf label => rw [call, LogGenProxy.hexDump, if_pos disabled]

theorem foldlM_call_of_enabled {proxy : LogGenProxy} {stream : OStream} (enabled : proxy.enabled = true)
    (owns : proxy.ssPtr = some stream) (pieces : List Piece) :
    pieces.foldlM Piece.call proxy =
      some { proxy with ssPtr := some (pieces.foldl Piece.apply stream) } := by
  induction pieces generalizing proxy stream with
  | nil =>
    rw [List.foldl_nil, ← owns]
    rfl
  | cons piece pieces ih =>
    rw [List.foldlM_cons, Piece.call_of_enabled enabled owns, Option.bind_eq_bind, Option.bind_some]
    exact ih enabled rfl

/-- **The destructor hands over the text of the message**, if there is any. -/
theorem logMessage_of_enabled (theLogger : Nat) (tagName logLevelName : CString) (pieces : List Piece) :
    logMessage (.construct theLogger true tagName logLevelName) pieces =
      some (if messageText pieces = [] then none
        else some ⟨theLogger, messageText pieces, tagName, logLevelName⟩) := by
  rw [logMessage, foldlM_call_of_enabled rfl rfl]
  rfl

/-- Nothing is written through a disabled proxy. -/
theorem logMessage_of_disabled (theLogger : Nat) (tagName logLevelName : CString) (pieces : List Piece) :
    logMessage (.construct theLogger false tagName logLevelName) pieces = some none := by
  have same : pieces.foldlM Piece.call (.construct theLogger false tagName logLevelName) =
      some (.construct theLogger false tagName logLevelName) := by
    induction pieces with
    | nil => rfl
    | cons piece pieces ih =>
      rw [List.foldlM_cons, Piece.call_of_disabled rfl, Option.bind_eq_bind, Option.bind_some, ih]
  rw [logMessage, same]
  rfl

/-! ### What a piece appends -/

/-- Two digits of a byte. -/
def hexByte (byte : UInt8) : List UInt8 := [digit (byte.toNat / 16), digit (byte.toNat % 16)]

/-- The bytes of a dump from index `i` on, each with the character behind it. -/
def dumpBody : Nat → List UInt8 → List UInt8
  | _, [] => []
  | i, byte :: buf => hexByte byte ++ (if (i + 1) % 32 = 0 then newline else blank) :: dumpBody (i + 1) buf

/-- **The text of a dump.** -/
def dumpText (buf label : List UInt8) : List UInt8 := label ++ newline :: dumpBody 0 buf

/-- Filled up with zeros to two characters, a byte has two digits. -/
theorem replicate_numeral_byte (byte : UInt8) :
    List.replicate (2 - (numeral 16 byte.toNat).length) 48 ++ numeral 16 byte.toNat = hexByte byte := by
  have small := byte.toNat_lt
  by_cases one : byte.toNat < 16
  · rw [numeral_of_lt (by decide) one, hexByte, Nat.div_eq_of_lt one, Nat.mod_eq_of_lt one]
    rfl
  · rw [numeral_of_le (by decide) (by decide) (by omega), numeral_of_lt (by decide) (by omega)]
    rfl

theorem print_unsignedInt {stream : OStream} (zeros : stream.fill = 48) (byte : UInt8) :
    (Value.int (unsignedInt byte)).print (stream.hex.setw 2) =
      { stream with text := stream.text ++ hexByte byte, base := .hex, width := 0 } := by
  have number : (unsignedInt byte).render .hex = numeral 16 byte.toNat := by
    rw [Integer.render_hex_of_nonneg (Int.natCast_nonneg _)]
    rfl
  rw [← replicate_numeral_byte, ← number, ← zeros]
  rfl

/-- **The loop appends the bytes** and leaves the stream in base sixteen, once it has run. -/
theorem hexDumpLoop_eq (i : Nat) (buf : List UInt8) {stream : OStream} (zeros : stream.fill = 48)
    (free : stream.width = 0) :
    hexDumpLoop i buf stream =
      { stream with
        text := stream.text ++ dumpBody i buf
        base := if buf = [] then stream.base else .hex } := by
  induction buf generalizing i stream with
  | nil =>
    rw [if_pos rfl, dumpBody, List.append_nil]
    rfl
  | cons byte buf ih =>
    have separated : (if (i + 1) % 32 = 0 then [newline] else [blank]) =
        [if (i + 1) % 32 = 0 then newline else blank] := by
      by_cases full : (i + 1) % 32 = 0
      · rw [if_pos full, if_pos full]
      · rw [if_neg full, if_neg full]
    rw [hexDumpLoop, print_unsignedInt zeros, OStream.put_of_width_zero rfl, separated,
      ih (i + 1) (by exact zeros) (by rfl), if_neg (List.cons_ne_nil _ _), ite_self, dumpBody, ← free]
    simp only [List.append_assoc, List.singleton_append]

namespace Piece

/-- What a piece appends to a stream in the given base. -/
def render (base : Base) : Piece → List UInt8
  | .insert (.string chars) => chars
  | .insert (.int integer) => integer.render base
  | .hexDump buf label => dumpText buf label

/-- The base the stream is in behind a piece. -/
def baseAfter (base : Base) : Piece → Base
  | .insert _ => base
  | .hexDump buf _ => if buf = [] then base else .hex

/-- **What a piece does to a stream without a width.** -/
theorem apply_eq {stream : OStream} (free : stream.width = 0) (piece : Piece) :
    (piece.apply stream).text = stream.text ++ piece.render stream.base ∧
      (piece.apply stream).base = piece.baseAfter stream.base ∧ (piece.apply stream).width = 0 := by
  cases piece with
  | insert value =>
    cases value with
    | string chars =>
      rw [apply, Value.print, OStream.put_of_width_zero free]
      exact ⟨rfl, rfl, free⟩
    | int integer =>
      rw [apply, Value.print, OStream.put_of_width_zero free]
      exact ⟨rfl, rfl, free⟩
  | hexDump buf label =>
    rw [apply, hexDumpTo, OStream.put_of_width_zero free, OStream.put_of_width_zero (by exact free),
      hexDumpLoop_eq 0 buf (by rfl) (by exact free)]
    refine ⟨?_, rfl, free⟩
    show stream.text ++ label ++ [newline] ++ dumpBody 0 buf =
      stream.text ++ (label ++ newline :: dumpBody 0 buf)
    rw [List.append_assoc, List.append_assoc, List.singleton_append]

end Piece

/-- What pieces append to a stream in the given base. -/
def renderAll : Base → List Piece → List UInt8
  | _, [] => []
  | base, piece :: pieces => piece.render base ++ renderAll (piece.baseAfter base) pieces

theorem foldl_apply_text (pieces : List Piece) {stream : OStream} (free : stream.width = 0) :
    (pieces.foldl Piece.apply stream).text = stream.text ++ renderAll stream.base pieces := by
  induction pieces generalizing stream with
  | nil => exact (List.append_nil _).symm
  | cons piece pieces ih =>
    obtain ⟨text, base, free'⟩ := piece.apply_eq free
    rw [List.foldl_cons, ih free', text, base, renderAll, List.append_assoc]

theorem messageText_eq (pieces : List Piece) : messageText pieces = renderAll .dec pieces :=
  foldl_apply_text pieces rfl

/-! ### Pieces on their own -/

/-- The pieces, each with the base its stream is in. -/
def withBases : Base → List Piece → List (Base × Piece)
  | _, [] => []
  | base, piece :: pieces => (base, piece) :: withBases (piece.baseAfter base) pieces

theorem renderAll_eq_flatMap (base : Base) (pieces : List Piece) :
    renderAll base pieces = (withBases base pieces).flatMap fun (base, piece) => piece.render base := by
  induction pieces generalizing base with
  | nil => rfl
  | cons piece pieces ih => rw [renderAll, ih, withBases, List.flatMap_cons]

theorem flatMap_render_dec (base : Base) (pieces : List Piece) :
    pieces.flatMap (Piece.render .dec) =
      (withBases base pieces).flatMap fun (_, piece) => piece.render .dec := by
  induction pieces generalizing base with
  | nil => rfl
  | cons piece pieces ih => rw [List.flatMap_cons, ih, withBases, List.flatMap_cons]

/-- The base of a piece comes from the pieces before it. -/
theorem mem_withBases {base : Base} {pieces : List Piece} {item : Base × Piece} :
    item ∈ withBases base pieces ↔ ∃ before after, pieces = before ++ item.2 :: after ∧
      item.1 = before.foldl Piece.baseAfter base := by
  induction pieces generalizing base with
  | nil => simp [withBases]
  | cons piece pieces ih =>
    rw [withBases, List.mem_cons, ih]
    constructor
    · rintro (rfl | ⟨before, after, rfl, same⟩)
      · exact ⟨[], pieces, rfl, rfl⟩
      · exact ⟨piece :: before, after, rfl, same⟩
    · rintro ⟨before, after, split, same⟩
      cases before with
      | nil =>
        obtain ⟨rfl, -⟩ := List.cons_eq_cons.mp split
        exact Or.inl (Prod.ext same rfl)
      | cons first before =>
        obtain ⟨rfl, rfl⟩ := List.cons_eq_cons.mp split
        exact Or.inr ⟨before, after, rfl, same⟩

/-- Base sixteen stays, and comes from a dump of at least one byte. -/
theorem foldl_baseAfter_eq_hex {base : Base} {pieces : List Piece} :
    pieces.foldl Piece.baseAfter base = .hex ↔
      base = .hex ∨ ∃ buf label, .hexDump buf label ∈ pieces ∧ buf ≠ [] := by
  induction pieces generalizing base with
  | nil => simp
  | cons piece pieces ih =>
    rw [List.foldl_cons, ih]
    cases piece with
    | insert value => simp [Piece.baseAfter]
    | hexDump buf label =>
      by_cases empty : buf = []
      · rw [Piece.baseAfter, if_pos empty]
        refine or_congr_right ⟨?_, ?_⟩
        · rintro ⟨buf', label', member, nonempty⟩
          exact ⟨buf', label', List.mem_cons_of_mem _ member, nonempty⟩
        · rintro ⟨buf', label', member, nonempty⟩
          rcases List.mem_cons.mp member with same | later
          · cases same
            exact absurd empty nonempty
          · exact ⟨buf', label', later, nonempty⟩
      · simp only [Piece.baseAfter, if_neg empty, true_or, true_iff]
        exact Or.inr ⟨buf, label, List.mem_cons_self, empty⟩

/-- Where a piece written in some base differs from the piece alone. -/
theorem Piece.render_eq_render_dec_iff (base : Base) (piece : Piece) :
    piece.render base = piece.render .dec ↔ ∀ integer, piece = .insert (.int integer) → base = .hex →
      0 ≤ integer.value ∧ integer.value ≤ 9 := by
  cases piece with
  | hexDump buf label => simp [render]
  | insert value =>
    cases value with
    | string chars => simp [render]
    | int integer =>
      cases base with
      | dec => simp
      | hex =>
        constructor
        · rintro same _ ⟨⟩ -
          have counts := congrArg (List.count minus) same
          rw [render, render, integer.count_minus_hex, integer.count_minus_dec] at counts
          have nonneg : 0 ≤ integer.value := by
            by_contra neg
            rw [if_pos (by omega)] at counts
            cases counts
          exact ⟨nonneg, (Integer.render_hex_eq_iff nonneg).mp same⟩
        · intro small
          obtain ⟨nonneg, digit⟩ := small integer rfl rfl
          exact (Integer.render_hex_eq_iff nonneg).mpr digit

/-- A piece never has more minus signs than alone, and with as many it is never longer. -/
theorem Piece.render_le (base : Base) (piece : Piece) :
    (piece.render base).count minus ≤ (piece.render .dec).count minus ∧
      ((piece.render base).count minus = (piece.render .dec).count minus →
        (piece.render base).length ≤ (piece.render .dec).length) := by
  cases piece with
  | hexDump buf label => exact ⟨Nat.le_refl _, fun _ => Nat.le_refl _⟩
  | insert value =>
    cases value with
    | string chars => exact ⟨Nat.le_refl _, fun _ => Nat.le_refl _⟩
    | int integer =>
      cases base with
      | dec => exact ⟨Nat.le_refl _, fun _ => Nat.le_refl _⟩
      | hex =>
        rw [render, render, integer.count_minus_hex, integer.count_minus_dec]
        refine ⟨Nat.zero_le _, fun counts => Integer.length_hex_le ?_⟩
        by_contra neg
        rw [if_pos (by omega)] at counts
        cases counts

/-- The characters that a proxy's message hands to `writeData`, none if there is no call. -/
def loggedText (proxy : LogGenProxy) (pieces : List Piece) : Option (List UInt8) :=
  (logMessage proxy pieces).map fun call => (call.map WriteDataCall.logEntry).getD []

theorem loggedText_of_enabled (theLogger : Nat) (tagName logLevelName : CString) (pieces : List Piece) :
    loggedText (.construct theLogger true tagName logLevelName) pieces = some (messageText pieces) := by
  rw [loggedText, logMessage_of_enabled]
  by_cases empty : messageText pieces = []
  · rw [if_pos empty, empty]
    rfl
  · rw [if_neg empty]
    rfl

/-- **The pieces of a message render independently**: its text is what the pieces give alone, each on
a fresh proxy, one after the other. -/
def PiecesIndependent (proxy : LogGenProxy) (pieces : List Piece) : Prop :=
  loggedText proxy pieces = (pieces.mapM fun piece => loggedText proxy [piece]).map List.flatten

/-- **The pieces of a message render independently exactly when** every integer that is inserted
after a dump of at least one byte is one of `0` to `9`: the dump leaves the stream in base sixteen. -/
theorem piecesIndependent_iff (theLogger : Nat) (tagName logLevelName : CString)
    (pieces : List Piece) :
    PiecesIndependent (.construct theLogger true tagName logLevelName) pieces ↔
      ∀ before integer after, pieces = before ++ .insert (.int integer) :: after →
        (∃ buf label, .hexDump buf label ∈ before ∧ buf ≠ []) →
        0 ≤ integer.value ∧ integer.value ≤ 9 := by
  have alone : (pieces.mapM fun piece => loggedText (.construct theLogger true tagName logLevelName)
      [piece]) = some (pieces.map (Piece.render .dec)) := by
    induction pieces with
    | nil => rfl
    | cons piece pieces ih =>
      rw [List.mapM_cons, ih, loggedText_of_enabled, messageText_eq, renderAll, renderAll,
        List.append_nil]
      rfl
  rw [PiecesIndependent, alone, loggedText_of_enabled, messageText_eq, Option.map_some,
    Option.some.injEq, ← List.flatMap_def, renderAll_eq_flatMap, flatMap_render_dec .dec,
    flatMap_eq_flatMap_iff minus (fun item _ => (item.2.render_le item.1).1)
      (fun item _ => (item.2.render_le item.1).2)]
  constructor
  · rintro equal before integer after split ⟨buf, label, dumped, nonempty⟩
    have hex : before.foldl Piece.baseAfter .dec = .hex :=
      foldl_baseAfter_eq_hex.mpr (Or.inr ⟨buf, label, dumped, nonempty⟩)
    have same := equal (.hex, .insert (.int integer)) (mem_withBases.mpr ⟨before, after, split, hex.symm⟩)
    exact (Piece.render_eq_render_dec_iff _ _).mp same integer rfl rfl
  · rintro small ⟨base, piece⟩ member
    obtain ⟨before, after, split, same⟩ := mem_withBases.mp member
    refine (Piece.render_eq_render_dec_iff _ _).mpr fun integer isInt isHex => ?_
    subst isInt
    rcases foldl_baseAfter_eq_hex.mp (same.symm.trans isHex) with impossible | dumped
    · cases impossible
    · exact small before integer after split dumped

/-- The names of a short message. -/
def sampleTag : CString := ⟨[89], by decide⟩

def sampleLevel : CString := ⟨[90], by decide⟩

/-- Behind a dump of one byte, sixteen is written as `10`. -/
theorem not_piecesIndependent_of_dump :
    ¬ PiecesIndependent (.construct 0 true sampleTag sampleLevel)
      [.hexDump [255] [100], .insert (.int ⟨32, 16, by decide, by decide⟩)] := by
  unfold PiecesIndependent
  decide +kernel

end StatLog.Logger
