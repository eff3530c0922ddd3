import Amalgam.Wire.Backplane

/-!
# Notifications on the Redis wire

Version 2 notifications are JSON objects; anything else is read as the legacy text
`source|ticks|action|key`.

* **`backplane_round_trip`** — every command survives the message and the wire, data and control
  commands are never taken for each other, hexadecimal frames are read back and nothing else is
  taken for one, and legacy texts are read as their four fields.
-/

namespace Amalgam.Wire

open Text Keys

inductive LegacyField where
  | source
  | timestamp
  | action
  | key
deriving DecidableEq

inductive IncomingFrameError where
  | json
  | version (version : UInt8)
  | action (byte : UInt8)
  | utf8
  | missing (field : LegacyField)
  | number
deriving DecidableEq

def actionByte : BackplaneAction → UInt8
  | .set => 1
  | .remove => 2
  | .expire => 3

def actionFromByte (byte : UInt8) : Option BackplaneAction :=
  if byte = 1 then some .set
  else if byte = 2 then some .remove
  else if byte = 3 then some .expire
  else none

@[simp] theorem actionFromByte_actionByte (action : BackplaneAction) :
    actionFromByte (actionByte action) = some action := by
  cases action <;> rfl

/-! ## Numbers as text -/

/-- One or more decimal digits. -/
def parseDigits (text : List Char) : Option Nat :=
  if text.isEmpty || !text.all Char.isDigit then none else some (Nat.ofDigitChars 10 text 0)

/-- `str::parse::<i64>` -/
def parseI64 (text : List Char) : Option I64 :=
  match text with
  | '+' :: digits => (parseDigits digits).bind fun n => I64.ofInt? n
  | '-' :: digits => (parseDigits digits).bind fun n => I64.ofInt? (-n)
  | digits => (parseDigits digits).bind fun n => I64.ofInt? n

/-- `str::parse::<u8>` -/
def parseU8 (text : List Char) : Option UInt8 :=
  (parseDigits (if text.head? = some '+' then text.tail else text)).bind fun n =>
    if n < 256 then some (UInt8.ofNat n) else none

theorem parseDigits_repr (n : Nat) : parseDigits (Nat.repr n).toList = some n := by
  have hdigits : ((Nat.repr n).toList.all Char.isDigit) = true :=
    List.all_eq_true.mpr fun _ => isDigit_of_mem_repr
  have hne : (Nat.repr n).toList.isEmpty = false := by
    rw [Nat.toList_repr]
    simp [Nat.toDigits_ne_nil]
  rw [parseDigits, hdigits, hne, Nat.toList_repr, Nat.ofDigitChars_ten_toDigits]
  rfl

/-- A digit is neither of the signs. -/
theorem parseI64_digits {text : List Char} (h : ∀ c ∈ text, c.isDigit = true) :
    parseI64 text = (parseDigits text).bind fun n => I64.ofInt? n := by
  unfold parseI64
  split
  · exact absurd (h '+' List.mem_cons_self) (by decide)
  · exact absurd (h '-' List.mem_cons_self) (by decide)
  · rfl

theorem parseI64_toString (n : I64) : parseI64 (toString n.val).toList = some n := by
  obtain ⟨n, hn⟩ := n
  cases n with
  | ofNat m =>
    have htext : (toString (Int.ofNat m)).toList = (Nat.repr m).toList := rfl
    rw [htext, parseI64_digits fun _ => isDigit_of_mem_repr, parseDigits_repr, Option.bind_some]
    exact I64.ofInt?_val ⟨Int.ofNat m, hn⟩
  | negSucc m =>
    have htext : (toString (Int.negSucc m)).toList = '-' :: (Nat.repr (m + 1)).toList := by
      show ("-" ++ Nat.repr (m + 1)).toList = _
      rw [String.toList_append]
      rfl
    rw [htext, parseI64, parseDigits_repr, Option.bind_some]
    exact I64.ofInt?_val ⟨Int.negSucc m, hn⟩

theorem parseU8_toString (action : BackplaneAction) :
    parseU8 (toString (actionByte action)).toList = some (actionByte action) := by
  cases action <;> decide

/-! ## Messages -/

def encodeMessage (format : FrameFormat) (message : BackplaneMessage) : Bytes :=
  format.messageText
    { version := 2, source := message.sourceId, ticks := I64.ofTimestamp message.timestamp
      action := actionByte message.action, key := message.key }

/-- `str::splitn`: the last of the `count` pieces keeps the separators that are left. -/
def splitn (separator : Char) : Nat → List Char → List (List Char)
  | 0, _ => []
  | 1, text => [text]
  | count + 1, text =>
    match text.dropWhile (· ≠ separator) with
    | [] => [text]
    | _ :: rest => text.takeWhile (· ≠ separator) :: splitn separator count rest

def decodeLegacy (text : String) : Except IncomingFrameError BackplaneMessage := do
  let fields := splitn '|' 4 text.toList
  let source ← (fields[0]?).elim (.error (.missing .source)) .ok
  let ticks ← (fields[1]?).elim (.error (.missing .timestamp)) fun field =>
    (parseI64 field).elim (.error .number) .ok
  let action ← (fields[2]?).elim (.error (.missing .action)) fun field =>
    (parseU8 field).elim (.error .number) .ok
  let key ← (fields[3]?).elim (.error (.missing .key)) .ok
  match actionFromByte action with
  | none => .error (.action action)
  | some action =>
    return { sourceId := String.ofList source, timestamp := ticks.toTimestamp, action
             key := String.ofList key }

def decodeMessage (format : FrameFormat) (bytes : Bytes) :
    Except IncomingFrameError BackplaneMessage :=
  if bytes.head? = some 123 then
    match format.readMessage bytes with
    | none => .error .json
    | some frame =>
      if frame.version ≠ 2 then .error (.version frame.version)
      else match actionFromByte frame.action with
        | none => .error (.action frame.action)
        | some action => .ok
          { sourceId := frame.source, timestamp := frame.ticks.toTimestamp, action
            key := frame.key }
  else match fromUtf8 bytes with
    | none => .error .utf8
    | some text => decodeLegacy text

theorem decodeMessage_encodeMessage {format : FrameFormat} (h : format.RoundTrips)
    (message : BackplaneMessage) :
    decodeMessage format (encodeMessage format message) = .ok message := by
  rw [decodeMessage, encodeMessage, if_pos (h.object _), h.message]
  show (if (2 : UInt8) ≠ 2 then _ else _) = _
  rw [if_neg (by decide), actionFromByte_actionByte]
  rfl

/-! ## Legacy texts -/

/-- What a node of the earlier version writes. -/
def legacyFrame (message : BackplaneMessage) : String :=
  s!"{message.sourceId}|{message.timestamp.ticks}|{actionByte message.action}|{message.key}"

theorem splitn_cons {separator : Char} {field rest : List Char} (count : Nat)
    (h : separator ∉ field) :
    splitn separator (count + 2) (field ++ separator :: rest)
      = field :: splitn separator (count + 1) rest := by
  have hfield : ∀ c ∈ field, decide (c ≠ separator) = true := by
    intro c hc
    rw [decide_eq_true_eq]
    rintro rfl
    exact h hc
  have hstop : decide (separator ≠ separator) = false := by simp
  have hdrop : (field ++ separator :: rest).dropWhile (· ≠ separator) = separator :: rest := by
    rw [List.dropWhile_append_of_pos hfield, List.dropWhile_cons, hstop]
    rfl
  have htake : (field ++ separator :: rest).takeWhile (· ≠ separator) = field := by
    rw [List.takeWhile_append_of_pos hfield, List.takeWhile_cons, hstop]
    simp
  rw [splitn, hdrop, htake]
  simp

theorem bar_not_mem_ticks (n : Int) : '|' ∉ (toString n).toList := by
  intro h
  cases n with
  | ofNat m => exact absurd (isDigit_of_mem_repr (n := m) h) (by decide)
  | negSucc m =>
    have htext : (toString (Int.negSucc m)).toList = '-' :: (Nat.repr (m + 1)).toList := by
      show ("-" ++ Nat.repr (m + 1)).toList = _
      rw [String.toList_append]
      rfl
    rw [htext] at h
    rcases List.mem_cons.mp h with h | h
    · exact absurd h (by decide)
    · exact absurd (isDigit_of_mem_repr h) (by decide)

theorem splitn_legacyFrame (message : BackplaneMessage) (h : '|' ∉ message.sourceId.toList) :
    splitn '|' 4 (legacyFrame message).toList =
      [message.sourceId.toList, (toString message.timestamp.ticks).toList,
        (toString (actionByte message.action)).toList, message.key.toList] := by
  have htext : (legacyFrame message).toList = message.sourceId.toList ++ '|' ::
      ((toString message.timestamp.ticks).toList ++ '|' ::
        ((toString (actionByte message.action)).toList ++ '|' :: message.key.toList)) := by
    simp [legacyFrame, String.toList_append]
    rfl
  have haction : '|' ∉ (toString (actionByte message.action)).toList := by
    cases message.action <;> decide
  rw [htext, splitn_cons 2 h, splitn_cons 1 (bar_not_mem_ticks _), splitn_cons 0 haction]
  rfl

theorem decodeLegacy_legacyFrame (message : BackplaneMessage)
    (h : '|' ∉ message.sourceId.toList) : decodeLegacy (legacyFrame message) = .ok message := by
  have hticks := parseI64_toString (I64.ofTimestamp message.timestamp)
  have haction := parseU8_toString message.action
  unfold decodeLegacy
  rw [splitn_legacyFrame message h]
  show (((parseI64 (toString (I64.ofTimestamp message.timestamp).val).toList).elim
    (Except.error IncomingFrameError.number) Except.ok).bind _) = _
  rw [hticks]
  show (((parseU8 (toString (actionByte message.action)).toList).elim
    (Except.error IncomingFrameError.number) Except.ok).bind _) = _
  rw [haction]
  show (match actionFromByte (actionByte message.action) with
    | none => Except.error (IncomingFrameError.action (actionByte message.action))
    | some action => .ok (BackplaneMessage.mk (String.ofList message.sourceId.toList)
        message.timestamp action (String.ofList message.key.toList))) = _
  rw [actionFromByte_actionByte, String.ofList_toList, String.ofList_toList]

theorem decodeMessage_legacyFrame (format : FrameFormat) (message : BackplaneMessage)
    (hbar : '|' ∉ message.sourceId.toList) (hbrace : message.sourceId.toList.head? ≠ some '\x7b') :
    decodeMessage format (utf8 (legacyFrame message)) = .ok message := by
  have hhead : (utf8 (legacyFrame message)).head? ≠ some 123 := by
    intro hbyte
    have hchar := head?_of_utf8 hbyte (by decide)
    have htext : ∃ rest, (legacyFrame message).toList = message.sourceId.toList ++ '|' :: rest := by
      simp [legacyFrame, String.toList_append]
      exact ⟨_, rfl⟩
    obtain ⟨rest, htext⟩ := htext
    rw [htext] at hchar
    cases hsource : message.sourceId.toList with
    | nil =>
      rw [hsource] at hchar
      exact absurd (Option.some.inj hchar) (by decide)
    | cons c source =>
      rw [hsource] at hchar hbrace
      exact hbrace hchar
  rw [decodeMessage, if_neg hhead, fromUtf8_utf8]
  exact decodeLegacy_legacyFrame message hbar

/-! ## Commands on the wire -/

theorem backplane_round_trip (format : FrameFormat) (h : format.RoundTrips) :
    (∀ command : BackplaneCommand, ∃ message, command.intoMessage format = .ok message ∧
      BackplaneCommand.fromMessage format message = .ok command ∧
      (decodeMessage format (encodeMessage format message)).toOption.map
        (BackplaneCommand.fromMessage format) = some (.ok command)) ∧
    (∀ data message, (BackplaneCommand.data data).intoMessage format = .ok message →
      ∀ command, BackplaneCommand.fromMessage format message ≠ .ok (.marker command)) ∧
    (∀ command message, (BackplaneCommand.marker command).intoMessage format = .ok message →
      ∀ data, BackplaneCommand.fromMessage format message ≠ .ok (.data data)) ∧
    (∀ bytes, decodeHex (encodeHex bytes) = .ok bytes) ∧
    (∀ encoded, (∃ bytes, decodeHex encoded = .ok bytes) ↔
      encoded.length % 2 = 0 ∧ ∀ c ∈ encoded.toList, isHexDigit c = true) ∧
    (∀ message : BackplaneMessage, '|' ∉ message.sourceId.toList →
      message.sourceId.toList.head? ≠ some '\x7b' →
      decodeMessage format (utf8 (legacyFrame message)) = .ok message) := by
  have hback : ∀ command message, BackplaneCommand.intoMessage format command = .ok message →
      BackplaneCommand.fromMessage format message = .ok command := by
    intro command message hinto
    obtain ⟨sent, hsent, hread⟩ := BackplaneCommand.fromMessage_intoMessage h command
    rw [hinto] at hsent
    cases hsent
    exact hread
  refine ⟨fun command => ?_, fun data message hinto command hread => ?_,
    fun command message hinto data hread => ?_, decodeHex_encodeHex, decodeHex_accepts_iff,
    fun message hbar hbrace => decodeMessage_legacyFrame format message hbar hbrace⟩
  · obtain ⟨message, hinto, hread⟩ := BackplaneCommand.fromMessage_intoMessage h command
    refine ⟨message, hinto, hread, ?_⟩
    rw [decodeMessage_encodeMessage h message]
    show some (BackplaneCommand.fromMessage format message) = _
    rw [hread]
  · rw [hback _ _ hinto] at hread
    cases hread
  · rw [hback _ _ hinto] at hread
    cases hread

/-! ## The JSON texts -/

namespace WireMarker

def toJson : WireMarker → Json
  | .tag text => .object [("kind", .string "Tag"), ("tag", .string text)]
  | .clearExpire => .object [("kind", .string "ClearExpire")]
  | .clearRemove => .object [("kind", .string "ClearRemove")]

def fromJson : Json → Option WireMarker
  | .object members =>
    match (field "kind" members).join.bind readString with
    | some "Tag" => (required readString none "tag" members).map .tag
    | some "ClearExpire" => some .clearExpire
    | some "ClearRemove" => some .clearRemove
    | _ => none
  | _ => none

theorem fromJson_toJson (marker : WireMarker) : fromJson marker.toJson = some marker := by
  cases marker with
  | tag text => simp [toJson, fromJson, field, required, readString]
  | clearExpire => simp [toJson, fromJson, field, readString]
  | clearRemove => simp [toJson, fromJson, field, readString]

end WireMarker

namespace SourceFrame

def toJson : SourceFrame → Json
  | .data source => .object [("kind", .string "Data"), ("source", .string source)]
  | .marker source scopePrefix version modifier wire ticks => .object
    [("kind", .string "Marker"), ("source", .string source), ("prefix", .string scopePrefix),
     ("version", .string version), ("modifier", .integer false modifier.toNat),
     ("marker", wire.toJson), ("ticks", ticks.toJson)]

def fromJson : Json → Option SourceFrame
  | .object members =>
    match (field "kind" members).join.bind readString with
    | some "Data" => (required readString none "source" members).map .data
    | some "Marker" => do
      let source ← required readString none "source" members
      let scopePrefix ← required readString none "prefix" members
      let version ← required readString none "version" members
      let modifier ← required readU8 none "modifier" members
      let wire ← required WireMarker.fromJson none "marker" members
      let ticks ← required readI64 none "ticks" members
      return .marker source scopePrefix version modifier wire ticks
    | _ => none
  | _ => none

theorem fromJson_toJson (frame : SourceFrame) : fromJson frame.toJson = some frame := by
  cases frame with
  | data source => simp [toJson, fromJson, field, required, readString]
  | marker source scopePrefix version modifier wire ticks =>
    simp [toJson, fromJson, field, required, readString, readU8_toNat, readI64_toJson,
      WireMarker.fromJson_toJson]

end SourceFrame

namespace WireMessage

/-- Members in the order of their names. -/
def toJson (frame : WireMessage) : Json := .object
  [("action", .integer false frame.action.toNat), ("key", .string frame.key),
   ("source", .string frame.source), ("ticks", frame.ticks.toJson),
   ("version", .integer false frame.version.toNat)]

/-- Unknown fields are refused. -/
def fromJson : Json → Option WireMessage
  | .object members =>
    if members.all fun m => ["version", "source", "ticks", "action", "key"].contains m.1 then do
      let version ← required readU8 none "version" members
      let source ← required readString none "source" members
      let ticks ← required readI64 none "ticks" members
      let action ← required readU8 none "action" members
      let key ← required readString none "key" members
      return { version, source, ticks, action, key }
    else none
  | _ => none

theorem fromJson_toJson (frame : WireMessage) : fromJson frame.toJson = some frame := by
  simp [toJson, fromJson, field, required, readString, readU8_toNat, readI64_toJson]

end WireMessage

def jsonFrames : FrameFormat where
  sourceText frame := some (Json.render frame.toJson)
  readSource bytes := (Json.document recursionLimit bytes).bind SourceFrame.fromJson
  messageText frame := Json.render frame.toJson
  readMessage bytes := (Json.document recursionLimit bytes).bind WireMessage.fromJson

theorem jsonFrames_roundTrips : jsonFrames.RoundTrips where
  source frame := by
    have hintegral : Json.integral frame.toJson = true := by
      cases frame with
      | data source => rfl
      | marker source scopePrefix version modifier wire ticks => cases wire <;> rfl
    have hnesting : Json.nesting frame.toJson ≤ 2 := by
      cases frame with
      | data source => exact Nat.le_of_ble_eq_true rfl
      | marker source scopePrefix version modifier wire ticks =>
        cases wire <;> exact Nat.le_of_ble_eq_true rfl
    refine ⟨_, rfl, ?_⟩
    show (Json.document recursionLimit (Json.render frame.toJson)).bind _ = _
    rw [Json.document_render hintegral (le_trans hnesting (by decide))]
    exact frame.fromJson_toJson
  message frame := by
    show (Json.document recursionLimit (Json.render frame.toJson)).bind _ = _
    have hnesting : Json.nesting frame.toJson = 1 := rfl
    rw [Json.document_render rfl (by rw [hnesting]; decide)]
    exact frame.fromJson_toJson
  object frame := rfl

/-- A source that carries the reserved prefix, and a key that is named like a marker. -/
def reservedSource : BackplaneMessage :=
  ⟨controlPrefix ++ "garbage|source", Timestamp.MAX, .set, "__amalgam:clear:remove"⟩

theorem backplane_round_trip_reserved_source : ∃ message,
    (BackplaneCommand.data reservedSource).intoMessage jsonFrames = .ok message ∧
      BackplaneCommand.fromMessage jsonFrames message = .ok (.data reservedSource) := by
  obtain ⟨message, hinto, hread, -⟩ :=
    (backplane_round_trip jsonFrames jsonFrames_roundTrips).1 (.data reservedSource)
  exact ⟨message, hinto, hread⟩

end Amalgam.Wire
