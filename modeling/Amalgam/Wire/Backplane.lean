import Amalgam.Lib.Hex
import Amalgam.Wire.Envelope

/-!
# Backplane commands

Typed invalidation commands travel inside the ordinary notification: a control command is written
as a JSON frame, in hexadecimal, behind a reserved prefix of the notification's source. An ordinary
source that happens to carry the prefix is framed the same way, so that it stays a source.

The JSON texts are the serializer's: `FrameFormat` is what it writes and reads, and
`FrameFormat.RoundTrips` says that it reads back what it wrote.
-/

namespace Amalgam.Wire

open Text Keys

inductive BackplaneAction where
  | set
  | remove
  | expire
deriving DecidableEq

/-- The data notification, which also carries control commands. -/
structure BackplaneMessage where
  sourceId : String
  timestamp : Timestamp
  action : BackplaneAction
  key : String
deriving DecidableEq

/-- A control notification; its source is not blank. -/
structure MarkerCommand where
  sourceId : String
  scope : CacheScope
  marker : StoredMarker
  named : isBlank sourceId = false

def MarkerCommand.new (sourceId : String) (scope : CacheScope) (marker : StoredMarker) :
    Except MarkerError MarkerCommand :=
  if h : isBlank sourceId = false then .ok ⟨sourceId, scope, marker, h⟩
  else .error (.protocol "control source must not be blank")

theorem MarkerCommand.new_self (command : MarkerCommand) :
    new command.sourceId command.scope command.marker = .ok command := by
  rw [new, dif_pos command.named]

inductive BackplaneCommand where
  | data (message : BackplaneMessage)
  | marker (command : MarkerCommand)

/-! ## Frames -/

inductive WireMarker where
  | tag (text : String)
  | clearExpire
  | clearRemove
deriving DecidableEq

inductive SourceFrame where
  | data (source : String)
  | marker (source scopePrefix version : String) (modifier : UInt8) (marker : WireMarker)
      (ticks : I64)
deriving DecidableEq

/-- A version 2 notification on the Redis wire. -/
structure WireMessage where
  version : UInt8
  source : String
  ticks : I64
  action : UInt8
  key : String
deriving DecidableEq

/-- The JSON texts of both kinds of frame, as bytes. -/
structure FrameFormat where
  sourceText : SourceFrame → Option Bytes
  readSource : Bytes → Option SourceFrame
  messageText : WireMessage → Bytes
  readMessage : Bytes → Option WireMessage

/-- Frames are read back, and a notification is written as a JSON object. -/
structure FrameFormat.RoundTrips (format : FrameFormat) : Prop where
  source : ∀ frame, ∃ bytes,
    format.sourceText frame = some bytes ∧ format.readSource bytes = some frame
  message : ∀ frame, format.readMessage (format.messageText frame) = some frame
  object : ∀ frame, (format.messageText frame).head? = some 123

/-! ## Hexadecimal texts -/

def encodeHex (bytes : Bytes) : String := ofAscii (Hex.encode bytes)

def decodeHex (encoded : String) : Except MarkerError Bytes :=
  if (utf8 encoded).length % 2 ≠ 0 then .error (.protocol "odd hex frame length")
  else match Hex.decode (utf8 encoded) with
    | none => .error (.protocol "invalid hex frame")
    | some bytes => .ok bytes

/-- An ASCII hex digit of either case. -/
def isHexDigit (c : Char) : Bool :=
  let n := c.toNat
  (48 ≤ n && n ≤ 57) || (97 ≤ n && n ≤ 102) || (65 ≤ n && n ≤ 70)

theorem decodeHex_encodeHex (bytes : Bytes) : decodeHex (encodeHex bytes) = .ok bytes := by
  have htext : utf8 (encodeHex bytes) = Hex.encode bytes := utf8_ofAscii (Hex.encode_ascii bytes)
  have hread := Hex.decode_encode bytes
  have heven : (Hex.encode bytes).length % 2 = 0 := by
    have hsome : (Hex.decode (Hex.encode bytes)).isSome := by rw [hread]; rfl
    exact ((Hex.decode_isSome_iff _).mp hsome).1
  rw [decodeHex, htext, if_neg (by omega), hread]

theorem decodeHex_ok_iff (encoded : String) :
    (∃ bytes, decodeHex encoded = .ok bytes) ↔ (Hex.decode (utf8 encoded)).isSome := by
  rw [decodeHex]
  constructor
  · rintro ⟨bytes, h⟩
    split at h
    · cases h
    · split at h
      · cases h
      · rename_i found hfound
        rw [hfound]
        rfl
  · intro h
    have heven := ((Hex.decode_isSome_iff _).mp h).1
    rw [if_neg (by omega)]
    obtain ⟨bytes, hbytes⟩ := Option.isSome_iff_exists.mp h
    exact ⟨bytes, by rw [hbytes]⟩

theorem isHexDigit_ofNat {b : UInt8} :
    isHexDigit (Char.ofNat b.toNat) = (Hex.digitValue b).isSome := by
  have hall : ∀ n < 256, isHexDigit (Char.ofNat n) = (Hex.digitValue (UInt8.ofNat n)).isSome := by
    decide +kernel
  have hb := hall b.toNat b.toNat_lt
  rw [UInt8.ofNat_toNat] at hb
  exact hb

theorem digitValue_ascii {b : UInt8} (h : (Hex.digitValue b).isSome) : b.toNat < 128 := by
  rw [← isHexDigit_ofNat] at h
  have hall : ∀ n < 256, isHexDigit (Char.ofNat n) = true → n < 128 := by decide +kernel
  exact hall b.toNat b.toNat_lt h

/-- Digits of a text are digits among its bytes: neither has any other byte. -/
theorem hex_text_iff (encoded : String) :
    (∀ d ∈ utf8 encoded, (Hex.digitValue d).isSome) ↔
      ∀ c ∈ encoded.toList, isHexDigit c = true := by
  constructor
  · intro h
    have hascii : utf8 (ofAscii (utf8 encoded)) = utf8 encoded :=
      utf8_ofAscii fun d hd => digitValue_ascii (h d hd)
    have htext : (ofAscii (utf8 encoded)).toList = encoded.toList :=
      String.toList_inj.mpr (utf8_injective hascii)
    rw [← htext, ofAscii, String.toList_ofList]
    intro c hc
    obtain ⟨d, hd, rfl⟩ := List.mem_map.mp hc
    rw [isHexDigit_ofNat]
    exact h d hd
  · intro h
    have hsmall : ∀ c ∈ encoded.toList, c.toNat < 128 := by
      intro c hc
      have hdigit := h c hc
      simp only [isHexDigit, Bool.or_eq_true, Bool.and_eq_true, decide_eq_true_eq] at hdigit
      omega
    have hbyte : ∀ c ∈ encoded.toList, (UInt8.ofNat c.toNat).toNat = c.toNat := by
      intro c hc
      have hc' := hsmall c hc
      rw [UInt8.toNat_ofNat', Nat.mod_eq_of_lt (by omega)]
    have hback : ∀ c ∈ encoded.toList, Char.ofNat (UInt8.ofNat c.toNat).toNat = c := by
      intro c hc
      rw [hbyte c hc, Char.ofNat_toNat]
    have htext : ofAscii (encoded.toList.map fun c => UInt8.ofNat c.toNat) = encoded := by
      apply String.toList_inj.mp
      rw [ofAscii, String.toList_ofList, List.map_map]
      conv_rhs => rw [← List.map_id encoded.toList]
      exact List.map_congr_left hback
    rw [← htext, utf8_ofAscii]
    · intro d hd
      obtain ⟨c, hc, rfl⟩ := List.mem_map.mp hd
      rw [← isHexDigit_ofNat, hback c hc]
      exact h c hc
    · intro d hd
      obtain ⟨c, hc, rfl⟩ := List.mem_map.mp hd
      rw [hbyte c hc]
      exact hsmall c hc

/-- A text of ASCII characters has as many bytes as characters. -/
theorem length_utf8_of_hex {encoded : String} (h : ∀ d ∈ utf8 encoded, (Hex.digitValue d).isSome) :
    (utf8 encoded).length = encoded.length := by
  have hascii : utf8 (ofAscii (utf8 encoded)) = utf8 encoded :=
    utf8_ofAscii fun d hd => digitValue_ascii (h d hd)
  have htext : ofAscii (utf8 encoded) = encoded := utf8_injective hascii
  have hlength : (ofAscii (utf8 encoded)).length = (utf8 encoded).length := by
    rw [ofAscii, String.length_ofList, List.length_map]
  rw [← hlength, htext]

theorem decodeHex_accepts_iff (encoded : String) :
    (∃ bytes, decodeHex encoded = .ok bytes) ↔
      encoded.length % 2 = 0 ∧ ∀ c ∈ encoded.toList, isHexDigit c = true := by
  rw [decodeHex_ok_iff, Hex.decode_isSome_iff, ← hex_text_iff]
  constructor
  · rintro ⟨heven, hdigits⟩
    exact ⟨by rw [← length_utf8_of_hex hdigits]; exact heven, hdigits⟩
  · rintro ⟨heven, hdigits⟩
    exact ⟨by rw [length_utf8_of_hex hdigits]; exact heven, hdigits⟩

/-! ## Commands as messages -/

def controlPrefix : String := "\x1famalgam-control-v2:"

def modifierByte : KeyModifierMode → UInt8
  | .Prefix => 1
  | .Suffix => 2
  | .None => 3

def modifierFromByte (byte : UInt8) : Except MarkerError KeyModifierMode :=
  if byte = 1 then .ok .Prefix
  else if byte = 2 then .ok .Suffix
  else if byte = 3 then .ok .None
  else .error (.protocol s!"unknown namespace modifier {byte}")

@[simp] theorem modifierFromByte_modifierByte (modifier : KeyModifierMode) :
    modifierFromByte (modifierByte modifier) = .ok modifier := by
  cases modifier <;> rfl

def wireMarker : MarkerKind → WireMarker
  | .tag tag => .tag tag.asStr
  | .clearExpire => .clearExpire
  | .clearRemove => .clearRemove

def markerKind : WireMarker → Except MarkerError MarkerKind
  | .tag text =>
    match Tag.new text with
    | .ok tag => .ok (.tag tag)
    | .error error => .error (.protocolWithSource (.tag error))
  | .clearExpire => .ok .clearExpire
  | .clearRemove => .ok .clearRemove

@[simp] theorem markerKind_wireMarker (kind : MarkerKind) :
    markerKind (wireMarker kind) = .ok kind := by
  cases kind with
  | tag tag => simp [wireMarker, markerKind]
  | clearExpire => rfl
  | clearRemove => rfl

def encodeSource (format : FrameFormat) (frame : SourceFrame) : Except MarkerError String :=
  match format.sourceText frame with
  | none => .error (.protocolWithSource .json)
  | some bytes => .ok (controlPrefix ++ encodeHex bytes)

namespace BackplaneCommand

def markerFrame (command : MarkerCommand) : SourceFrame :=
  .marker command.sourceId command.scope.keyPrefix command.scope.version
    (modifierByte command.scope.modifier) (wireMarker command.marker.kind)
    (I64.ofTimestamp command.marker.version)

def intoMessage (format : FrameFormat) : BackplaneCommand → Except MarkerError BackplaneMessage
  | .data message =>
    if (stripLead controlPrefix message.sourceId).isSome then
      (encodeSource format (.data message.sourceId)).map fun sourceId =>
        { message with sourceId }
    else .ok message
  | .marker command =>
    (encodeSource format (markerFrame command)).map fun sourceId =>
      { sourceId, timestamp := command.marker.version, action := .set
        key := command.scope.storageId }

/-- What a frame found behind the prefix says about the message that carried it. -/
def ofFrame (message : BackplaneMessage) : SourceFrame → Except MarkerError BackplaneCommand
  | .data source => .ok (.data { message with sourceId := source })
  | .marker source scopePrefix version modifier wire ticks => do
    let modifier ← modifierFromByte modifier
    let scope ← CacheScope.new scopePrefix version modifier
    let kind ← markerKind wire
    if message.timestamp.ticks ≠ ticks.val ∨ message.key ≠ scope.storageId
        ∨ message.action ≠ .set then
      .error (.protocol "control envelope disagrees with its typed frame")
    else
      (MarkerCommand.new source scope ⟨kind, ticks.toTimestamp⟩).map .marker

def fromMessage (format : FrameFormat) (message : BackplaneMessage) :
    Except MarkerError BackplaneCommand :=
  match stripLead controlPrefix message.sourceId with
  | none => .ok (.data message)
  | some encoded => do
    let bytes ← decodeHex encoded
    match format.readSource bytes with
    | none => .error (.protocolWithSource .json)
    | some frame => ofFrame message frame

/-- Behind the prefix stands a frame, whatever else the message carries. -/
theorem fromMessage_encodeSource {format : FrameFormat} (h : format.RoundTrips)
    (frame : SourceFrame) : ∃ sourceId, encodeSource format frame = .ok sourceId ∧
      ∀ message : BackplaneMessage, message.sourceId = sourceId →
        fromMessage format message = ofFrame message frame := by
  obtain ⟨bytes, hwrite, hread⟩ := h.source frame
  refine ⟨controlPrefix ++ encodeHex bytes, by rw [encodeSource, hwrite], ?_⟩
  intro message hsource
  have hstrip : stripLead controlPrefix message.sourceId = some (encodeHex bytes) :=
    stripLead_eq_some_iff.mpr hsource
  rw [fromMessage, hstrip]
  show (decodeHex (encodeHex bytes)).bind _ = _
  rw [decodeHex_encodeHex]
  show (match format.readSource bytes with
    | none => Except.error (MarkerError.protocolWithSource .json)
    | some frame => ofFrame message frame) = _
  rw [hread]

/-- The envelope of a control command agrees with its frame. -/
theorem ofFrame_markerFrame (command : MarkerCommand) (message : BackplaneMessage)
    (htime : message.timestamp = command.marker.version)
    (hkey : message.key = command.scope.storageId) (haction : message.action = .set) :
    ofFrame message (markerFrame command) = .ok (.marker command) := by
  have hagree : ¬ (message.timestamp.ticks ≠ (I64.ofTimestamp command.marker.version).val
      ∨ message.key ≠ command.scope.storageId ∨ message.action ≠ .set) := by
    rw [htime]
    simp [I64.ofTimestamp, hkey, haction]
  rw [markerFrame, ofFrame, modifierFromByte_modifierByte]
  show (CacheScope.new command.scope.keyPrefix command.scope.version command.scope.modifier).bind
    _ = _
  rw [CacheScope.new_self]
  show (markerKind (wireMarker command.marker.kind)).bind _ = _
  rw [markerKind_wireMarker]
  show (if _ then _ else _) = _
  rw [if_neg hagree]
  show (MarkerCommand.new command.sourceId command.scope command.marker).map _ = _
  rw [MarkerCommand.new_self]
  rfl

theorem fromMessage_intoMessage {format : FrameFormat} (h : format.RoundTrips)
    (command : BackplaneCommand) : ∃ message,
      command.intoMessage format = .ok message ∧ fromMessage format message = .ok command := by
  cases command with
  | data message =>
    rw [intoMessage]
    split
    · obtain ⟨sourceId, hwrite, hread⟩ := fromMessage_encodeSource h (.data message.sourceId)
      rw [hwrite]
      exact ⟨{ message with sourceId }, rfl, hread _ rfl⟩
    · rename_i hplain
      have hstrip : stripLead controlPrefix message.sourceId = none := by
        simpa using hplain
      refine ⟨message, rfl, ?_⟩
      rw [fromMessage, hstrip]
  | marker command =>
    obtain ⟨sourceId, hwrite, hread⟩ := fromMessage_encodeSource h (markerFrame command)
    rw [intoMessage, hwrite]
    refine ⟨_, rfl, ?_⟩
    rw [hread _ rfl]
    exact ofFrame_markerFrame command _ rfl rfl rfl

/-- Only a source behind the prefix selects a control command. -/
theorem control_of_fromMessage {format : FrameFormat} {message : BackplaneMessage}
    {command : MarkerCommand} (h : fromMessage format message = .ok (.marker command)) :
    ∃ encoded, message.sourceId = controlPrefix ++ encoded := by
  cases hstrip : stripLead controlPrefix message.sourceId with
  | none =>
    rw [fromMessage, hstrip] at h
    cases h
  | some encoded => exact ⟨encoded, stripLead_eq_some_iff.mp hstrip⟩

end BackplaneCommand

end Amalgam.Wire
