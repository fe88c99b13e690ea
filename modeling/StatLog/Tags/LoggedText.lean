/-
**The text of a `getLog`, in bytes.**

The levels of a log stat need a proxy with its text only; the logger side has the stream, with its
formatting state. Here the two are the same proxy.

* `Streams`: the stream holds the bytes of the text, in base ten and without a width.
* `Streams.insert`, `Streams.destroy`: an insertion keeps the two together, and the destructors hand
  over the same text under the same names.
* `render_dec_eq`: an integer is inserted as its decimal text.
* **`getLog_logMessage`**: with the levels of a run, the pieces of a message reach `writeData` exactly
  if its level is not below the one in force and they have a text.
-/

import StatLog.Logger.Proxy
import StatLog.Tags.LogLevel

namespace StatLog.Tags

open ByteMemory Numeral OutputStream Placement RoseTree Logger

/-! ### One proxy in two forms -/

/-- A C string that spells a text. -/
def Spells (chars : CString) (text : String) : Prop := chars.bytes = text.toUTF8.toList

/-- **The stream of the second proxy holds the text of the first**, and the rest agrees. -/
structure Streams (proxy : LogGenProxy) (streamed : Logger.LogGenProxy) : Prop where
  owns : ∃ stream, streamed.ssPtr = some stream ∧ stream.text = proxy.text.toUTF8.toList ∧
    stream.base = .dec ∧ stream.width = 0
  theLogger : streamed.theLogger = proxy.loggerIdx
  enabled : streamed.enabled = proxy.enabled
  tagName : Spells streamed.tagName (String.ofList proxy.tagName)
  logLevelName : Spells streamed.logLevelName proxy.logLevelName

/-- What the two destructors hand over is the same. -/
structure SameCall (loggerIdx : Nat) (handed : String × List Char × String) (call : WriteDataCall) :
    Prop where
  theLogger : call.theLogger = loggerIdx
  logEntry : call.logEntry = handed.1.toUTF8.toList
  tagName : Spells call.tagName (String.ofList handed.2.1)
  logLevelName : Spells call.logLevelName handed.2.2

/-- The constructor. -/
theorem Streams.construct {proxy : LogGenProxy} (fresh : proxy.text = "") {tagName logLevelName : CString}
    (tag : Spells tagName (String.ofList proxy.tagName)) (level : Spells logLevelName proxy.logLevelName) :
    Streams proxy (.construct proxy.loggerIdx proxy.enabled tagName logLevelName) where
  owns := ⟨{}, rfl, by rw [fresh, toUTF8_eq_nil_iff.mpr rfl], rfl, rfl⟩
  theLogger := rfl
  enabled := rfl
  tagName := tag
  logLevelName := level

/-- **An insertion keeps the two together**, if the stream prints the value as that text. -/
theorem Streams.insert {proxy : LogGenProxy} {streamed : Logger.LogGenProxy}
    (streams : Streams proxy streamed) {value : Value} {text : String}
    (prints : (Piece.insert value).render .dec = text.toUTF8.toList) :
    ∃ next, streamed.insert value = some next ∧ Streams (proxy.insert text) next := by
  obtain ⟨stream, owns, bytes, base, free⟩ := streams.owns
  by_cases enabled : proxy.enabled = false
  · refine ⟨streamed, ?_, ?_⟩
    · rw [Logger.LogGenProxy.insert, if_pos (streams.enabled.trans enabled)]
    · rw [LogGenProxy.insert, if_pos enabled]
      exact streams
  · have on := Bool.eq_true_of_not_eq_false enabled
    refine ⟨_, Piece.call_of_enabled (streams.enabled.trans on) owns (.insert value), ?_⟩
    obtain ⟨text', base', free'⟩ := (Piece.insert value).apply_eq free
    rw [LogGenProxy.insert, if_neg enabled]
    refine ⟨⟨_, rfl, ?_, base'.trans base, free'⟩, streams.theLogger, streams.enabled, streams.tagName,
      streams.logLevelName⟩
    rw [text', base, prints, bytes, toUTF8_append]

/-- **The destructors hand over the same.** -/
theorem Streams.destroy {proxy : LogGenProxy} {streamed : Logger.LogGenProxy}
    (streams : Streams proxy streamed) :
    ∃ call, streamed.destroy = some call ∧
      Option.Rel (SameCall proxy.loggerIdx) proxy.destroy call := by
  obtain ⟨stream, owns, bytes, -, -⟩ := streams.owns
  rw [Logger.LogGenProxy.destroy, LogGenProxy.destroy, owns, Option.map_some, bytes]
  refine ⟨_, rfl, ?_⟩
  by_cases empty : proxy.text = ""
  · rw [if_pos (toUTF8_eq_nil_iff.mpr empty), empty]
    exact .none
  · have shown : proxy.text.isEmpty ≠ true := by simpa using empty
    rw [if_neg (mt toUTF8_eq_nil_iff.mp empty), if_neg shown]
    exact .some ⟨streams.theLogger, rfl, streams.tagName, streams.logLevelName⟩

/-- **An integer is inserted as its decimal text.** -/
theorem render_dec_eq (integer : Integer) :
    (Piece.insert (.int integer)).render .dec = (toString integer.value).toUTF8.toList := by
  show integer.render .dec = _
  have sign : "-".toUTF8.toList = [minus] := by decide +kernel
  cases same : integer.value with
  | ofNat number =>
    have nonneg : 0 ≤ integer.value := by
      rw [same]
      exact Int.natCast_nonneg number
    rw [Integer.render_dec_of_nonneg nonneg, same]
    exact (toUTF8_repr number).symm
  | negSucc number =>
    have neg : integer.value < 0 := by
      rw [same]
      exact Int.negSucc_lt_zero number
    rw [Integer.render_dec_of_neg neg, same]
    show _ = ("-" ++ (number + 1).repr).toUTF8.toList
    rw [toUTF8_append, toUTF8_repr, sign]
    rfl

/-! ### Messages at the level in force -/

/-- **A message of any pieces** through the proxy of a `getLog`. -/
theorem getLog_logMessage {Tag Sample : Type} [DecidableEq Tag] {name : Tag → List Char}
    {logTagTree : LabelTree Tag} {loggers : Nat} {operational control : LogStat Tag Sample} {mem : Mem}
    {levels : LabelTree.Node Tag → Nat → LogLevel}
    (shown : LevelsShown name logTagTree loggers operational control mem levels)
    {node : LabelTree.Node Tag} (member : node ∈ logTagTree.nodes) {logIdx : Nat}
    (inside : logIdx < sizeofLogControlStorage) (registered : logIdx < loggers) (logLevel : LogLevel)
    {tagName logLevelName : CString} (tag : Spells tagName (String.ofList (name node.label)))
    (level : Spells logLevelName logLevel.levelName) :
    ∃ proxy streamed,
      LogStatOperational.getLog name operational.theLogs loggers mem node.label logLevel logIdx =
          some proxy ∧
        Streams proxy streamed ∧
        ∀ pieces, logMessage streamed pieces =
          some (if (levels node logIdx).toByte ≤ logLevel.toByte ∧ messageText pieces ≠ [] then
            some ⟨logIdx, messageText pieces, tagName, logLevelName⟩
          else none) := by
  obtain ⟨placed, handle, stored, -⟩ := shown.stored node member logIdx inside
  have found : LogStatOperational.getLog name operational.theLogs loggers mem node.label logLevel logIdx =
      some {
        loggerIdx := logIdx
        enabled := (levels node logIdx).toByte ≤ logLevel.toByte
        tagName := name node.label
        logLevelName := logLevel.levelName } := by
    rw [LogStatOperational.getLog, handle, Option.bind_eq_bind, Option.bind_some, stored,
      Option.bind_eq_bind, Option.bind_some, if_pos registered]
  refine ⟨_, _, found, Streams.construct rfl tag level, fun pieces => ?_⟩
  by_cases enabled : (levels node logIdx).toByte ≤ logLevel.toByte
  · simp only [enabled, decide_true, true_and]
    rw [logMessage_of_enabled]
    by_cases empty : messageText pieces = []
    · rw [if_pos empty, if_neg (not_not_intro empty)]
    · rw [if_neg empty, if_pos empty]
  · simp only [enabled, decide_false, false_and, if_false]
    exact logMessage_of_disabled logIdx tagName logLevelName pieces

end StatLog.Tags
