/-
**Reading a hex dump back.**

The text of a dump is its label, a newline and the bytes as two hexadecimal digits each, with a
blank behind each byte or, behind every 32nd one, a newline.

* `tokens`: what stands between blanks and newlines. `tokens_dumpBody`: the bytes, one token each.
* `lines_dumpBody`: the lines hold 32 bytes each, the last one what is left.
* `decodeDump`, `decodeDump_dumpText`: label and bytes are read back.
* **`hexDump_decodes`**: all this about the text that the destructor of a fresh enabled proxy hands
  to `writeData`.
-/

import StatLog.Logger.Proxy

namespace StatLog.Logger

open ByteMemory Numeral OutputStream

/-! ### Tokens -/

/-- The characters between bytes. -/
def isSeparator (char : UInt8) : Bool := char == blank || char == newline

/-- The pieces between blanks and newlines that are not empty. -/
def tokens (text : List UInt8) : List (List UInt8) := (text.splitOnP isSeparator).filter (· ≠ [])

/-- Label and bytes of a dump. -/
def decodeDump (text : List UInt8) : List UInt8 × List UInt8 :=
  (text.takeWhile (· ≠ newline),
    (tokens ((text.dropWhile (· ≠ newline)).drop 1)).map fun token => UInt8.ofNat (value 16 token))

theorem isDigit_hexByte (byte : UInt8) : ∀ char ∈ hexByte byte, IsDigit char := by
  have := byte.toNat_lt
  rw [hexByte, List.forall_mem_cons, List.forall_mem_singleton]
  exact ⟨isDigit_digit (by omega), isDigit_digit (by omega)⟩

theorem isSeparator_hexByte (byte : UInt8) : ∀ char ∈ hexByte byte, isSeparator char = false := by
  intro char member
  have digit := isDigit_hexByte byte char member
  have notBlank := ne_of_isDigit digit (show ¬ IsDigit blank by decide)
  have notNewline := ne_of_isDigit digit (show ¬ IsDigit newline by decide)
  rw [isSeparator, beq_false_of_ne notBlank, beq_false_of_ne notNewline]
  rfl

theorem newline_notMem_hexByte (byte : UInt8) : newline ∉ hexByte byte := by
  intro member
  exact absurd (isDigit_hexByte byte _ member) (by decide)

/-- The byte of its two digits. -/
theorem ofNat_value_hexByte (byte : UInt8) : UInt8.ofNat (value 16 (hexByte byte)) = byte := by
  have := byte.toNat_lt
  have number : value 16 (hexByte byte) = byte.toNat := by
    rw [hexByte, value, List.foldl_cons, List.foldl_cons, List.foldl_nil, digitValue_digit (by omega),
      digitValue_digit (by omega)]
    omega
  rw [number, UInt8.ofNat_toNat]

theorem tokens_hexByte_append (byte : UInt8) {separator : UInt8} (separates : isSeparator separator = true)
    (rest : List UInt8) : tokens (hexByte byte ++ separator :: rest) = hexByte byte :: tokens rest := by
  rw [tokens, List.splitOnP_append_cons_of_forall_mem (isSeparator_hexByte byte) separator separates,
    List.filter_cons_of_pos (by exact decide_eq_true (List.cons_ne_nil _ _)), tokens]

theorem isSeparator_behind (i : Nat) :
    isSeparator (if (i + 1) % 32 = 0 then newline else blank) = true := by
  by_cases full : (i + 1) % 32 = 0
  · rw [if_pos full]
    rfl
  · rw [if_neg full]
    rfl

/-- **The tokens of a dump are its bytes.** -/
theorem tokens_dumpBody (i : Nat) (buf : List UInt8) : tokens (dumpBody i buf) = buf.map hexByte := by
  induction buf generalizing i with
  | nil => rfl
  | cons byte buf ih => rw [dumpBody, tokens_hexByte_append byte (isSeparator_behind i), ih, List.map_cons]

/-! ### Lines -/

theorem dumpBody_append (i : Nat) (first second : List UInt8) :
    dumpBody i (first ++ second) = dumpBody i first ++ dumpBody (i + first.length) second := by
  induction first generalizing i with
  | nil => rfl
  | cons byte first ih =>
    rw [List.cons_append, dumpBody, dumpBody, ih, List.length_cons, List.append_assoc, List.cons_append,
      Nat.add_assoc, Nat.add_comm 1]

/-- Less than 32 bytes from the start of a line stay in it. -/
theorem newline_notMem_dumpBody {i : Nat} {buf : List UInt8} (short : i % 32 + buf.length < 32) :
    newline ∉ dumpBody i buf := by
  induction buf generalizing i with
  | nil => exact List.not_mem_nil
  | cons byte buf ih =>
    rw [List.length_cons] at short
    rw [dumpBody, if_neg (by omega), List.mem_append, List.mem_cons, not_or, not_or]
    exact ⟨newline_notMem_hexByte byte, by decide, ih (by omega)⟩

theorem tokens_append_newline (line : List UInt8) : tokens (line ++ [newline]) = tokens line := by
  rw [tokens, List.splitOnP_append_cons line [] (show isSeparator newline = true by decide),
    List.filter_append, List.splitOnP_nil]
  exact List.append_nil _

/-- 32 bytes from the start of a line fill it: the newline stands behind the last one. -/
theorem dumpBody_fullLine {i : Nat} (start : i % 32 = 0) {buf : List UInt8} (full : buf.length = 32) :
    ∃ line, dumpBody i buf = line ++ [newline] ∧ newline ∉ line ∧ tokens line = buf.map hexByte := by
  obtain ⟨bytes, last, rfl⟩ : ∃ bytes last, buf = bytes ++ [last] := by
    rcases List.eq_nil_or_concat' buf with rfl | split
    · cases full
    · exact split
  rw [List.length_append, List.length_singleton] at full
  have inLine := newline_notMem_dumpBody (show i % 32 + bytes.length < 32 by omega)
  have line : dumpBody i (bytes ++ [last]) = dumpBody i bytes ++ hexByte last ++ [newline] := by
    rw [dumpBody_append, dumpBody, dumpBody, if_pos (by omega), List.append_assoc]
  refine ⟨dumpBody i bytes ++ hexByte last, line, ?_, ?_⟩
  · rw [List.mem_append, not_or]
    exact ⟨inLine, newline_notMem_hexByte last⟩
  · rw [← tokens_append_newline, ← line, tokens_dumpBody]

/-- **The lines of a dump hold 32 bytes each**, the last one what is left. -/
theorem lines_dumpBody {i : Nat} (start : i % 32 = 0) (buf : List UInt8) :
    ((dumpBody i buf).splitOn newline).map tokens =
      (List.range (buf.length / 32 + 1)).map fun line => ((buf.drop (32 * line)).take 32).map hexByte := by
  induction lines : buf.length / 32 generalizing i buf with
  | zero =>
    have short : buf.length < 32 := by omega
    rw [List.splitOn_eq_singleton (newline_notMem_dumpBody (by omega)), List.map_singleton,
      tokens_dumpBody, List.range_one, List.map_singleton, List.drop_zero,
      List.take_of_length_le short.le]
  | succ count ih =>
    have full : (buf.take 32).length = 32 := by
      rw [List.length_take]
      omega
    obtain ⟨line, eq, inLine, bytes⟩ := dumpBody_fullLine start full
    have split : dumpBody i buf = line ++ newline :: dumpBody (i + 32) (buf.drop 32) := by
      conv_lhs => rw [← List.take_append_drop 32 buf, dumpBody_append, eq, full, List.append_assoc]
      rfl
    have left : (buf.drop 32).length / 32 = count := by
      rw [List.length_drop]
      omega
    have first : List.range (count + 1 + 1) = 0 :: (List.range (count + 1)).map Nat.succ :=
      List.range_succ_eq_map
    rw [split, List.splitOn_append_cons_self_of_not_mem inLine, List.map_cons, bytes,
      ih (by omega) (buf.drop 32) left, first, List.map_cons, List.map_map]
    refine congrArg₂ List.cons rfl (List.map_congr_left fun line _ => ?_)
    rw [List.drop_drop, Function.comp_apply, Nat.succ_eq_add_one, Nat.mul_succ, Nat.add_comm]

/-! ### Reading back -/

/-- **Label and bytes of a dump are read back.** -/
theorem decodeDump_dumpText (buf : List UInt8) {label : List UInt8} (oneLine : newline ∉ label) :
    decodeDump (dumpText buf label) = (label, buf) := by
  have inLabel : ∀ char ∈ label, decide (char ≠ newline) = true := by
    intro char member
    refine decide_eq_true fun same => ?_
    rw [same] at member
    exact oneLine member
  have bytes : (fun byte => UInt8.ofNat (value 16 (hexByte byte))) = id := by
    funext byte
    exact ofNat_value_hexByte byte
  rw [decodeDump, dumpText, List.takeWhile_append_of_pos inLabel, List.dropWhile_append_of_pos inLabel]
  show (label ++ [], (tokens (dumpBody 0 buf)).map _) = _
  rw [List.append_nil, tokens_dumpBody, List.map_map, Function.comp_def, bytes, List.map_id]

/-- The message of a dump alone. -/
theorem logMessage_hexDump (theLogger : Nat) (tagName logLevelName : CString) (buf label : List UInt8) :
    logMessage (.construct theLogger true tagName logLevelName) [.hexDump buf label] =
      some (some ⟨theLogger, dumpText buf label, tagName, logLevelName⟩) := by
  have text : messageText [.hexDump buf label] = dumpText buf label := by
    rw [messageText_eq, renderAll, renderAll, List.append_nil]
    rfl
  have nonempty : dumpText buf label ≠ [] := List.append_ne_nil_of_right_ne_nil _ (List.cons_ne_nil _ _)
  rw [logMessage_of_enabled, text, if_neg nonempty]

/-- **Hex dumps decode back.** A dump through a fresh enabled proxy is one message: the label line,
then one token of two lower-case digits for each byte, 32 in a full line. Label and bytes are read
back, so different ones give different texts. -/
theorem hexDump_decodes (theLogger : Nat) (tagName logLevelName : CString) (buf : List UInt8)
    {label : List UInt8} (oneLine : newline ∉ label) :
    (∃ body, logMessage (.construct theLogger true tagName logLevelName) [.hexDump buf label] =
        some (some ⟨theLogger, label ++ newline :: body, tagName, logLevelName⟩) ∧
      (tokens body).length = buf.length ∧
      (∀ token ∈ tokens body, token.length = 2 ∧ ∀ char ∈ token, IsDigit char) ∧
      (body.splitOn newline).map tokens = (List.range (buf.length / 32 + 1)).map (fun line =>
        ((tokens body).drop (32 * line)).take 32) ∧
      (tokens body).map (fun token => UInt8.ofNat (value 16 token)) = buf ∧
      decodeDump (label ++ newline :: body) = (label, buf)) ∧
    ∀ buf' label', newline ∉ label' →
      logMessage (.construct theLogger true tagName logLevelName) [.hexDump buf' label'] =
        logMessage (.construct theLogger true tagName logLevelName) [.hexDump buf label] →
      buf' = buf ∧ label' = label := by
  refine ⟨⟨dumpBody 0 buf, logMessage_hexDump _ _ _ _ _, ?_, ?_, ?_, ?_, decodeDump_dumpText buf oneLine⟩,
    fun buf' label' oneLine' same => ?_⟩
  · rw [tokens_dumpBody, List.length_map]
  · rw [tokens_dumpBody, List.forall_mem_map]
    exact fun byte _ => ⟨rfl, isDigit_hexByte byte⟩
  · rw [lines_dumpBody rfl, tokens_dumpBody]
    simp only [List.map_take, List.map_drop]
  · rw [tokens_dumpBody, List.map_map]
    refine (List.map_congr_left fun byte _ => ?_).trans (List.map_id buf)
    exact ofNat_value_hexByte byte
  · rw [logMessage_hexDump, logMessage_hexDump, Option.some.injEq, Option.some.injEq,
      WriteDataCall.mk.injEq] at same
    have decoded := congrArg decodeDump same.2.1
    rw [decodeDump_dumpText _ oneLine', decodeDump_dumpText _ oneLine, Prod.mk.injEq] at decoded
    exact ⟨decoded.2, decoded.1⟩

/-- A dump of three bytes. -/
theorem hexDump_decodes_three :
    decodeDump (dumpText [0, 10, 255] [72]) = ([72], [0, 10, 255]) ∧
      ∀ buf label, newline ∉ label →
        logMessage (.construct 0 true sampleTag sampleLevel) [.hexDump buf label] =
          logMessage (.construct 0 true sampleTag sampleLevel) [.hexDump [0, 10, 255] [72]] →
        buf = [0, 10, 255] ∧ label = [72] := by
  have oneLine : newline ∉ [72] := by decide
  exact ⟨decodeDump_dumpText _ oneLine,
    (hexDump_decodes 0 sampleTag sampleLevel [0, 10, 255] oneLine).2⟩

end StatLog.Logger
