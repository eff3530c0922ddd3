import Amalgam.Entry
import Amalgam.Wire.Canonical

/-!
# Snapshot frames

The versioned frame around a codec's payload: a magic, a version byte, the header's length, the
header, the payload. Bytes that do not begin with the magic are a legacy payload.

Reads of single bytes and slices are checked: `none` stands for a read outside the bytes.

* **`snapshot_frames`** — framed snapshots are read back, whatever is accepted is exactly a frame,
  and frames and legacy payloads are never taken for each other.
-/

namespace Amalgam.Wire

open Text Keys

/-! ## Snapshots -/

inductive SnapshotError where
  | serialization (detail : String)
  | deserialization (detail : String)
  | invalidEntryDeadlines
  | blankTag
deriving DecidableEq

/-- Deadlines in order, no blank tag. -/
def DistributedEntry.validate {V : Type} (entry : DistributedEntry V) : Except SnapshotError Unit :=
  if entry.logicalExpirationTicks.val > entry.physicalExpirationTicks.val then
    .error .invalidEntryDeadlines
  else if entry.tags.any fun tag => isBlank tag then .error .blankTag
  else .ok ()

inductive SnapshotRetention where
  | unspecified
  | specified (size : Option U64) (priority : Priority)
deriving DecidableEq

structure DistributedSnapshot (V : Type) where
  entry : DistributedEntry V
  insertedAt : Timestamp
  retention : SnapshotRetention
  valid : entry.validate = .ok ()

def DistributedSnapshot.new {V : Type} (entry : DistributedEntry V) (insertedAt : Timestamp)
    (retention : SnapshotRetention) : Except SnapshotError (DistributedSnapshot V) :=
  match h : entry.validate with
  | .error error => .error error
  | .ok () => .ok ⟨entry, insertedAt, retention, h⟩

theorem DistributedSnapshot.new_self {V : Type} (s : DistributedSnapshot V) :
    new s.entry s.insertedAt s.retention = .ok s := by
  have hvalid := s.valid
  unfold new
  split
  · rename_i herror
    rw [hvalid] at herror
    cases herror
  · rfl

theorem DistributedSnapshot.new_eq_ok {V : Type} {entry : DistributedEntry V} {insertedAt : Timestamp}
    {retention : SnapshotRetention} {s : DistributedSnapshot V}
    (h : new entry insertedAt retention = .ok s) :
    s.entry = entry ∧ s.insertedAt = insertedAt ∧ s.retention = retention := by
  unfold new at h
  split at h
  · cases h
  · obtain rfl := Except.ok.inj h
    exact ⟨rfl, rfl, rfl⟩

/-- The codec of payloads. -/
structure PayloadCodec (V : Type) where
  serialize : DistributedEntry V → Except SnapshotError Bytes
  deserialize : Bytes → Except SnapshotError (DistributedEntry V)

def PayloadCodec.RoundTrips {V : Type} (codec : PayloadCodec V) (entry : DistributedEntry V) : Prop :=
  ∃ payload, codec.serialize entry = .ok payload ∧ codec.deserialize payload = .ok entry

/-! ## Priorities -/

def priorityByte : Priority → UInt8
  | .low => 1
  | .normal => 2
  | .high => 3
  | .neverRemove => 4

def priorityFromByte (byte : UInt8) : Except SnapshotError Priority :=
  if byte = 1 then .ok .low
  else if byte = 2 then .ok .normal
  else if byte = 3 then .ok .high
  else if byte = 4 then .ok .neverRemove
  else .error (.deserialization "unknown persisted priority")

@[simp] theorem priorityFromByte_priorityByte (priority : Priority) :
    priorityFromByte (priorityByte priority) = .ok priority := by
  cases priority <;> rfl

/-! ## Checked reads -/

/-- `bytes[start..stop]` -/
def slice (bytes : Bytes) (start stop : Nat) : Option Bytes :=
  if start ≤ stop ∧ stop ≤ bytes.length then some ((bytes.take stop).drop start) else none

/-- `u32::to_be_bytes` -/
def toBeBytes (n : Nat) : Bytes :=
  [UInt8.ofNat (n / 2 ^ 24), UInt8.ofNat (n / 2 ^ 16), UInt8.ofNat (n / 2 ^ 8), UInt8.ofNat n]

/-- `u32::from_be_bytes` -/
def fromBeBytes (b₀ b₁ b₂ b₃ : UInt8) : Nat :=
  b₀.toNat * 2 ^ 24 + b₁.toNat * 2 ^ 16 + b₂.toNat * 2 ^ 8 + b₃.toNat

theorem toBeBytes_fromBeBytes (b₀ b₁ b₂ b₃ : UInt8) :
    toBeBytes (fromBeBytes b₀ b₁ b₂ b₃) = [b₀, b₁, b₂, b₃] := by
  have h₀ := b₀.toNat_lt
  have h₁ := b₁.toNat_lt
  have h₂ := b₂.toNat_lt
  have h₃ := b₃.toNat_lt
  have hbyte : ∀ (n : Nat) (b : UInt8), n % 256 = b.toNat → UInt8.ofNat n = b := fun n b h =>
    UInt8.toNat_inj.mp (by rw [UInt8.toNat_ofNat']; exact h)
  unfold toBeBytes fromBeBytes
  rw [hbyte _ b₀ (by omega), hbyte _ b₁ (by omega), hbyte _ b₂ (by omega), hbyte _ b₃ (by omega)]

theorem fromBeBytes_toBeBytes {n : Nat} (h : n < 2 ^ 32) :
    ∃ b₀ b₁ b₂ b₃, toBeBytes n = [b₀, b₁, b₂, b₃] ∧ fromBeBytes b₀ b₁ b₂ b₃ = n := by
  refine ⟨_, _, _, _, rfl, ?_⟩
  unfold fromBeBytes
  simp only [UInt8.toNat_ofNat']
  omega

theorem fromBeBytes_lt (b₀ b₁ b₂ b₃ : UInt8) : fromBeBytes b₀ b₁ b₂ b₃ < 2 ^ 32 := by
  have h₀ := b₀.toNat_lt
  have h₁ := b₁.toNat_lt
  have h₂ := b₂.toNat_lt
  have h₃ := b₃.toNat_lt
  unfold fromBeBytes
  omega

/-! ## The frame -/

def snapshotMagic : Bytes := utf8 "AMALGAM" ++ [0]

def snapshotVersion : UInt8 := 2

@[irreducible] def usizeMax : Nat := 2 ^ 64 - 1

theorem le_usizeMax : 13 + 2 ^ 32 ≤ usizeMax := by
  unfold usizeMax
  omega

def wireRetention : SnapshotRetention → WireRetention
  | .unspecified => .unspecified
  | .specified size priority => .specified size (priorityByte priority)

def headerOf {V : Type} (s : DistributedSnapshot V) : SnapshotHeader :=
  ⟨I64.ofTimestamp s.insertedAt, wireRetention s.retention⟩

def frameSnapshot {V : Type} (s : DistributedSnapshot V) (payload : Bytes) :
    Except SnapshotError Bytes :=
  let header := Json.render (headerOf s).toJson
  if header.length ≥ 2 ^ 32 then .error (.serialization "snapshot header is too large")
  else .ok (snapshotMagic ++ [snapshotVersion] ++ toBeBytes header.length ++ header ++ payload)

def unframeSnapshot (bytes : Bytes) :
    Option (Except SnapshotError (Option (SnapshotHeader × Bytes))) :=
  if !snapshotMagic.isPrefixOf bytes then some (.ok none)
  else if bytes.length < 13 then
    some (.error (.deserialization "unknown or truncated snapshot frame"))
  else
    bytes[8]?.bind fun version =>
    if version ≠ snapshotVersion then
      some (.error (.deserialization "unknown or truncated snapshot frame"))
    else
      bytes[9]?.bind fun b₀ => bytes[10]?.bind fun b₁ => bytes[11]?.bind fun b₂ =>
      bytes[12]?.bind fun b₃ =>
        let stop := 13 + fromBeBytes b₀ b₁ b₂ b₃
        if stop > usizeMax ∨ stop > bytes.length then
          some (.error (.deserialization "truncated snapshot header"))
        else
          (slice bytes 13 stop).bind fun headerBytes =>
          match decodeHeader headerBytes with
          | none => some (.error (.deserialization "invalid snapshot header"))
          | some header => (slice bytes stop bytes.length).map fun payload =>
            .ok (some (header, payload))

def serializeSnapshot {V : Type} (codec : PayloadCodec V) (s : DistributedSnapshot V) :
    Except SnapshotError Bytes := do
  let payload ← codec.serialize s.entry
  frameSnapshot s payload

def snapshotRetention : WireRetention → Except SnapshotError SnapshotRetention
  | .unspecified => .ok .unspecified
  | .specified size priority => (priorityFromByte priority).map (.specified size)

def deserializeSnapshot {V : Type} (codec : PayloadCodec V) (bytes : Bytes) :
    Option (Except SnapshotError (DistributedSnapshot V)) :=
  (unframeSnapshot bytes).map fun unframed => do
    match ← unframed with
    | some (header, payload) =>
      let retention ← snapshotRetention header.retention
      let entry ← codec.deserialize payload
      DistributedSnapshot.new entry header.insertedTicks.toTimestamp retention
    | none =>
      let entry ← codec.deserialize bytes
      DistributedSnapshot.new entry entry.createdTicks.toTimestamp .unspecified

/-! ## What unframing accepts -/

theorem snapshotMagic_eq : snapshotMagic = [65, 77, 65, 76, 71, 65, 77, 0] := by decide

theorem unframeSnapshot_legacy {bytes : Bytes} (h : ¬ snapshotMagic <+: bytes) :
    unframeSnapshot bytes = some (.ok none) := by
  have hprefix : snapshotMagic.isPrefixOf bytes = false :=
    Bool.eq_false_iff.mpr fun hp => h (List.isPrefixOf_iff_prefix.mp hp)
  rw [unframeSnapshot, hprefix]
  rfl

theorem unframeSnapshot_short {bytes : Bytes} (h : snapshotMagic <+: bytes)
    (hshort : bytes.length < 13) :
    unframeSnapshot bytes
      = some (.error (.deserialization "unknown or truncated snapshot frame")) := by
  rw [unframeSnapshot, List.isPrefixOf_iff_prefix.mpr h]
  simp only [Bool.not_true, Bool.false_eq_true, if_false]
  rw [if_pos hshort]

/-- Bytes that begin with the magic are too short, or have a version, a length and more. -/
theorem magic_cases {bytes : Bytes} (h : snapshotMagic <+: bytes) :
    bytes.length < 13 ∨ ∃ version b₀ b₁ b₂ b₃ tail,
      bytes = snapshotMagic ++ version :: b₀ :: b₁ :: b₂ :: b₃ :: tail := by
  obtain ⟨rest, rfl⟩ := h
  rw [snapshotMagic_eq]
  match rest with
  | version :: b₀ :: b₁ :: b₂ :: b₃ :: tail => exact Or.inr ⟨_, _, _, _, _, _, rfl⟩
  | [] | [_] | [_, _] | [_, _, _] | [_, _, _, _] => exact Or.inl (by simp)

/-- Every read is inside the bytes. -/
theorem unframeSnapshot_magic (version b₀ b₁ b₂ b₃ : UInt8) (tail : Bytes) :
    unframeSnapshot (snapshotMagic ++ version :: b₀ :: b₁ :: b₂ :: b₃ :: tail)
      = some (if version ≠ snapshotVersion then
          .error (.deserialization "unknown or truncated snapshot frame")
        else if 13 + fromBeBytes b₀ b₁ b₂ b₃ > usizeMax ∨ tail.length < fromBeBytes b₀ b₁ b₂ b₃ then
          .error (.deserialization "truncated snapshot header")
        else match decodeHeader (tail.take (fromBeBytes b₀ b₁ b₂ b₃)) with
          | none => .error (.deserialization "invalid snapshot header")
          | some header => .ok (some (header, tail.drop (fromBeBytes b₀ b₁ b₂ b₃)))) := by
  have hmagic : snapshotMagic.isPrefixOf
      (snapshotMagic ++ version :: b₀ :: b₁ :: b₂ :: b₃ :: tail) = true :=
    List.isPrefixOf_iff_prefix.mpr (List.prefix_append _ _)
  generalize hlength : fromBeBytes b₀ b₁ b₂ b₃ = length
  rw [unframeSnapshot, hmagic, snapshotMagic_eq]
  have hlong : ¬ ([65, 77, 65, 76, 71, 65, 77, 0]
      ++ version :: b₀ :: b₁ :: b₂ :: b₃ :: tail).length < 13 := by
    simp
  have hheader : ∀ n, n ≤ tail.length → slice ([65, 77, 65, 76, 71, 65, 77, 0]
      ++ version :: b₀ :: b₁ :: b₂ :: b₃ :: tail) 13 (13 + n) = some (tail.take n) := by
    intro n hn
    have hdrop : ([65, 77, 65, 76, 71, 65, 77, 0]
        ++ version :: b₀ :: b₁ :: b₂ :: b₃ :: tail).drop 13 = tail := by simp
    rw [slice, if_pos (by simp; omega), List.drop_take, hdrop, Nat.add_sub_cancel_left]
  have hpayload : ∀ n, n ≤ tail.length → slice ([65, 77, 65, 76, 71, 65, 77, 0]
      ++ version :: b₀ :: b₁ :: b₂ :: b₃ :: tail) (13 + n) ([65, 77, 65, 76, 71, 65, 77, 0]
      ++ version :: b₀ :: b₁ :: b₂ :: b₃ :: tail).length = some (tail.drop n) := by
    intro n hn
    have hdrop : ([65, 77, 65, 76, 71, 65, 77, 0]
        ++ version :: b₀ :: b₁ :: b₂ :: b₃ :: tail).drop 13 = tail := by simp
    rw [slice, if_pos (by simp; omega), List.take_length, ← List.drop_drop, hdrop]
  simp only [Bool.not_true, Bool.false_eq_true, if_false]
  rw [if_neg hlong]
  generalize hbytes : [65, 77, 65, 76, 71, 65, 77, 0]
    ++ version :: b₀ :: b₁ :: b₂ :: b₃ :: tail = bytes at hheader hpayload ⊢
  have h₈ : bytes[8]? = some version := by rw [← hbytes]; rfl
  have h₉ : bytes[9]? = some b₀ := by rw [← hbytes]; rfl
  have h₁₀ : bytes[10]? = some b₁ := by rw [← hbytes]; rfl
  have h₁₁ : bytes[11]? = some b₂ := by rw [← hbytes]; rfl
  have h₁₂ : bytes[12]? = some b₃ := by rw [← hbytes]; rfl
  have hsize : bytes.length = 13 + tail.length := by
    rw [← hbytes]
    simp only [List.length_append, List.length_cons, List.length_nil]
    omega
  rw [h₈, h₉, h₁₀, h₁₁, h₁₂, Option.bind_some, Option.bind_some, Option.bind_some,
    Option.bind_some, Option.bind_some, hlength]
  by_cases hversion : version ≠ snapshotVersion
  · rw [if_pos hversion, if_pos hversion]
  rw [if_neg hversion, if_neg hversion]
  by_cases hover : 13 + length > usizeMax ∨ tail.length < length
  · have hstop : 13 + length > usizeMax ∨ 13 + length > bytes.length := by omega
    rw [if_pos hover, if_pos hstop]
  · have hfit : length ≤ tail.length := by omega
    have hstop : ¬ (13 + length > usizeMax ∨ 13 + length > bytes.length) := by omega
    rw [if_neg hover, if_neg hstop, hheader length hfit, hpayload length hfit, Option.bind_some]
    cases decodeHeader (tail.take length) with
    | none => rfl
    | some header => rfl

/-- No read leaves the bytes. -/
theorem unframeSnapshot_isSome (bytes : Bytes) : (unframeSnapshot bytes).isSome := by
  by_cases hmagic : snapshotMagic <+: bytes
  · rcases magic_cases hmagic with hshort | ⟨version, b₀, b₁, b₂, b₃, tail, rfl⟩
    · rw [unframeSnapshot_short hmagic hshort]
      rfl
    · rw [unframeSnapshot_magic]
      rfl
  · rw [unframeSnapshot_legacy hmagic]
    rfl

/-- What is taken for a frame is one, byte for byte. -/
theorem unframeSnapshot_frame {bytes payload : Bytes} {header : SnapshotHeader}
    (h : unframeSnapshot bytes = some (.ok (some (header, payload)))) :
    ∃ headerBytes, headerBytes.length < 2 ^ 32 ∧ decodeHeader headerBytes = some header ∧
      bytes = snapshotMagic ++ [snapshotVersion] ++ toBeBytes headerBytes.length ++ headerBytes
        ++ payload := by
  by_cases hmagic : snapshotMagic <+: bytes
  · rcases magic_cases hmagic with hshort | ⟨version, b₀, b₁, b₂, b₃, tail, rfl⟩
    · rw [unframeSnapshot_short hmagic hshort] at h
      cases h
    · rw [unframeSnapshot_magic] at h
      have h := Option.some.inj h
      split at h
      · cases h
      rename_i hversion
      split at h
      · cases h
      rename_i hover
      split at h
      · cases h
      rename_i found hfound
      cases h
      have hlength : (tail.take (fromBeBytes b₀ b₁ b₂ b₃)).length = fromBeBytes b₀ b₁ b₂ b₃ := by
        rw [List.length_take]
        omega
      refine ⟨tail.take (fromBeBytes b₀ b₁ b₂ b₃), ?_, hfound, ?_⟩
      · rw [hlength]
        exact fromBeBytes_lt b₀ b₁ b₂ b₃
      · have hsplit := List.take_append_drop (fromBeBytes b₀ b₁ b₂ b₃) tail
        rw [hlength, toBeBytes_fromBeBytes, not_not.mp hversion,
          List.append_assoc _ (tail.take _), hsplit, List.append_assoc, List.append_assoc]
        rfl
  · rw [unframeSnapshot_legacy hmagic] at h
    cases h

/-- A frame is unframed into what it was made of. -/
theorem unframeSnapshot_of_frame {headerBytes payload : Bytes} {header : SnapshotHeader}
    (hlength : headerBytes.length < 2 ^ 32) (hheader : decodeHeader headerBytes = some header) :
    unframeSnapshot (snapshotMagic ++ [snapshotVersion] ++ toBeBytes headerBytes.length
      ++ headerBytes ++ payload) = some (.ok (some (header, payload))) := by
  obtain ⟨b₀, b₁, b₂, b₃, hbytes, hvalue⟩ := fromBeBytes_toBeBytes hlength
  have htext : snapshotMagic ++ [snapshotVersion] ++ toBeBytes headerBytes.length
      ++ headerBytes ++ payload = snapshotMagic
        ++ snapshotVersion :: b₀ :: b₁ :: b₂ :: b₃ :: (headerBytes ++ payload) := by
    rw [hbytes]
    simp only [List.append_assoc, List.cons_append, List.nil_append]
  have hover : ¬ (13 + headerBytes.length > usizeMax
      ∨ (headerBytes ++ payload).length < headerBytes.length) := by
    have hmax := le_usizeMax
    rw [List.length_append]
    omega
  have hversion : ¬ snapshotVersion ≠ snapshotVersion := not_not.mpr rfl
  rw [htext, unframeSnapshot_magic, hvalue, if_neg hversion, if_neg hover,
    List.take_left' rfl, List.drop_left' rfl, hheader]

/-! ## Headers -/

/-- The header's own encoding is read back, on the fast path as by the general decoder. -/
theorem decodeHeader_render (header : SnapshotHeader) :
    decodeHeader (Json.render header.toJson) = some header := by
  have hgeneral : generalHeader (Json.render header.toJson) = some header := by
    have hintegral : Json.integral header.toJson = true := by
      obtain ⟨inserted, retention⟩ := header
      cases retention with
      | unspecified => rfl
      | specified size priority => cases size <;> rfl
    have hnesting : Json.nesting header.toJson ≤ recursionLimit := by
      have htwo : Json.nesting header.toJson = 2 := by
        obtain ⟨inserted, retention⟩ := header
        cases retention with
        | unspecified => rfl
        | specified size priority => cases size <;> rfl
      rw [htwo]
      decide
    rw [generalHeader, Json.document_render hintegral hnesting, Option.bind_some,
      SnapshotHeader.fromJson_toJson]
  unfold decodeHeader
  split
  · rename_i found hfound
    rw [generalHeader_of_canonical hfound] at hgeneral
    split at hgeneral
    · exact hgeneral
    · cases hgeneral
  · exact hgeneral

theorem digits_length_le {n k : Nat} (hn : n < 10 ^ k) (hk : 0 < k) :
    (Json.digits n).length ≤ k := by
  unfold Json.digits
  split
  · exact hk
  · rw [List.length_map, List.length_reverse]
    exact (Nat.digits_length_le_iff (by decide) n).mpr hn

theorem integer_length_le {negative : Bool} {n k : Nat} (hn : n < 10 ^ k) (hk : 0 < k) :
    (Json.render (.integer negative n)).length ≤ k + 1 := by
  have hdigits := digits_length_le hn hk
  rw [Json.render, List.length_append]
  cases negative with
  | true =>
    simp only [if_true, List.length_cons, List.length_nil]
    omega
  | false =>
    simp only [Bool.false_eq_true, if_false, List.length_nil]
    omega

theorem ticks_length_le (n : I64) : (Json.render n.toJson).length ≤ 20 := by
  obtain ⟨n, hn⟩ := n
  have hbound : n.natAbs < 10 ^ 19 := by
    unfold i64Min i64Max at hn
    omega
  exact integer_length_le hbound (by decide)

theorem priority_length_le (b : UInt8) : (Json.render (.integer false b.toNat)).length ≤ 4 := by
  have hb := b.toNat_lt
  exact integer_length_le (by omega) (by decide)

theorem size_length_le (size : Option U64) :
    (Json.render (WireRetention.sizeJson size)).length ≤ 21 := by
  cases size with
  | none => decide
  | some units =>
    have hunits := units.property
    unfold u64Max at hunits
    exact integer_length_le (by omega) (by decide)

theorem retention_length_le (retention : WireRetention) :
    (Json.render retention.toJson).length ≤ 100 := by
  cases retention with
  | unspecified => decide
  | specified size priority =>
    have hsize := size_length_le size
    have hpriority := priority_length_le priority
    have hkind : (Json.renderText "kind").length = 6 := by decide
    have hspecified : (Json.render (.string "Specified")).length = 11 := by decide
    have hsizeName : (Json.renderText "size").length = 6 := by decide
    have hpriorityName : (Json.renderText "priority").length = 10 := by decide
    show (123 :: ((Json.renderText "kind" ++ 58 :: (Json.render (.string "Specified")
      ++ 44 :: (Json.renderText "size" ++ 58 :: (Json.render (WireRetention.sizeJson size)
        ++ 44 :: (Json.renderText "priority"
          ++ 58 :: Json.render (.integer false priority.toNat)))))) ++ [125])).length ≤ 100
    simp only [List.length_append, List.length_cons, List.length_nil]
    omega

/-- No header comes near the limit of its length field. -/
theorem header_short (header : SnapshotHeader) : (Json.render header.toJson).length < 2 ^ 32 := by
  have hticks := ticks_length_le header.insertedTicks
  have hretention := retention_length_le header.retention
  have hticksName : (Json.renderText "inserted_ticks").length = 16 := by decide
  have hretentionName : (Json.renderText "retention").length = 11 := by decide
  show (123 :: ((Json.renderText "inserted_ticks" ++ 58 :: (Json.render header.insertedTicks.toJson
    ++ 44 :: (Json.renderText "retention" ++ 58 :: Json.render header.retention.toJson)))
      ++ [125])).length < 2 ^ 32
  simp only [List.length_append, List.length_cons, List.length_nil]
  omega

/-! ## Whole snapshots -/

theorem snapshotRetention_wireRetention (retention : SnapshotRetention) :
    snapshotRetention (wireRetention retention) = .ok retention := by
  cases retention with
  | unspecified => rfl
  | specified size priority =>
    rw [wireRetention, snapshotRetention, priorityFromByte_priorityByte]
    rfl

theorem frameSnapshot_eq {V : Type} (s : DistributedSnapshot V) (payload : Bytes) :
    frameSnapshot s payload = .ok (snapshotMagic ++ [snapshotVersion]
      ++ toBeBytes (Json.render (headerOf s).toJson).length ++ Json.render (headerOf s).toJson
      ++ payload) := by
  have hshort := header_short (headerOf s)
  rw [frameSnapshot, if_neg (by omega)]

theorem deserialize_serialize {V : Type} {codec : PayloadCodec V} {s : DistributedSnapshot V}
    (h : codec.RoundTrips s.entry) :
    ∃ bytes, serializeSnapshot codec s = .ok bytes ∧
      deserializeSnapshot codec bytes = some (.ok s) := by
  obtain ⟨payload, hserialize, hdeserialize⟩ := h
  have hframe : serializeSnapshot codec s = frameSnapshot s payload := by
    rw [serializeSnapshot, hserialize]
    rfl
  rw [hframe, frameSnapshot_eq]
  refine ⟨_, rfl, ?_⟩
  rw [deserializeSnapshot, unframeSnapshot_of_frame (header_short (headerOf s))
    (decodeHeader_render (headerOf s))]
  show some (do
    let retention ← snapshotRetention (wireRetention s.retention)
    let entry ← codec.deserialize payload
    DistributedSnapshot.new entry s.insertedAt retention) = _
  rw [snapshotRetention_wireRetention, hdeserialize]
  exact congrArg some s.new_self

theorem bind_eq_ok {ε α β : Type} {x : Except ε α} {f : α → Except ε β} {b : β}
    (h : x.bind f = .ok b) : ∃ a, x = .ok a ∧ f a = .ok b := by
  cases x with
  | error e => cases h
  | ok a => exact ⟨a, rfl, h⟩

/-- Bytes with the magic are read as a frame or not at all. -/
theorem deserializeSnapshot_magic {V : Type} {codec : PayloadCodec V} {bytes : Bytes}
    {s : DistributedSnapshot V} (hmagic : snapshotMagic <+: bytes)
    (h : deserializeSnapshot codec bytes = some (.ok s)) :
    ∃ header payload, unframeSnapshot bytes = some (.ok (some (header, payload))) ∧
      codec.deserialize payload = .ok s.entry ∧
      s.insertedAt = header.insertedTicks.toTimestamp ∧
      snapshotRetention header.retention = .ok s.retention := by
  obtain ⟨unframed, hunframe, h⟩ := Option.map_eq_some_iff.mp h
  cases unframed with
  | error e => cases h
  | ok found =>
    cases found with
    | none =>
      rcases magic_cases hmagic with hshort | ⟨version, b₀, b₁, b₂, b₃, tail, rfl⟩
      · rw [unframeSnapshot_short hmagic hshort] at hunframe
        cases hunframe
      · rw [unframeSnapshot_magic] at hunframe
        have hunframe := Option.some.inj hunframe
        split at hunframe
        · cases hunframe
        split at hunframe
        · cases hunframe
        split at hunframe
        · cases hunframe
        · cases hunframe
    | some p =>
      obtain ⟨_, hfound, h⟩ := bind_eq_ok h
      cases hfound
      obtain ⟨retention, hretention, h⟩ := bind_eq_ok h
      obtain ⟨entry, hentry, h⟩ := bind_eq_ok h
      obtain ⟨rfl, hinserted, rfl⟩ := DistributedSnapshot.new_eq_ok h
      exact ⟨p.1, p.2, hunframe, hentry, hinserted, hretention⟩

/-- Bytes without the magic are the codec's own payload. -/
theorem deserializeSnapshot_legacy {V : Type} (codec : PayloadCodec V) {bytes : Bytes}
    (hmagic : ¬ snapshotMagic <+: bytes) :
    deserializeSnapshot codec bytes = some (codec.deserialize bytes >>= fun entry =>
      DistributedSnapshot.new entry entry.createdTicks.toTimestamp .unspecified) := by
  rw [deserializeSnapshot, unframeSnapshot_legacy hmagic]
  rfl

theorem snapshot_frames {V : Type} (codec : PayloadCodec V) :
    (∀ s : DistributedSnapshot V, codec.RoundTrips s.entry →
      ∃ bytes, serializeSnapshot codec s = .ok bytes ∧
        deserializeSnapshot codec bytes = some (.ok s)) ∧
    (∀ bytes, (unframeSnapshot bytes).isSome) ∧
    (∀ bytes header payload, unframeSnapshot bytes = some (.ok (some (header, payload))) →
      ∃ headerBytes, headerBytes.length < 2 ^ 32 ∧ decodeHeader headerBytes = some header ∧
        bytes = snapshotMagic ++ [snapshotVersion] ++ toBeBytes headerBytes.length ++ headerBytes
          ++ payload) ∧
    (∀ bytes s, snapshotMagic <+: bytes → deserializeSnapshot codec bytes = some (.ok s) →
      ∃ header payload, unframeSnapshot bytes = some (.ok (some (header, payload))) ∧
        codec.deserialize payload = .ok s.entry) ∧
    (∀ bytes entry, ¬ snapshotMagic <+: bytes → codec.deserialize bytes = .ok entry →
      deserializeSnapshot codec bytes = some (DistributedSnapshot.new entry
        entry.createdTicks.toTimestamp .unspecified)) := by
  refine ⟨fun s h => deserialize_serialize h, unframeSnapshot_isSome,
    fun _ _ _ h => unframeSnapshot_frame h, fun bytes s hmagic h => ?_,
    fun bytes entry hmagic h => ?_⟩
  · obtain ⟨header, payload, hunframe, hentry, -⟩ := deserializeSnapshot_magic hmagic h
    exact ⟨header, payload, hunframe, hentry⟩
  · rw [deserializeSnapshot_legacy codec hmagic, h]
    rfl

/-! ## The JSON codec -/

def ticksOrNull : Option I64 → Json
  | none => .null
  | some n => n.toJson

def DistributedEntry.toJson {V : Type} (write : V → Json) (entry : DistributedEntry V) : Json :=
  entryJson (write entry.value) entry.createdTicks.toJson entry.logicalExpirationTicks.toJson
    entry.physicalExpirationTicks.toJson entry.isFromFailSafe entry.etag
    (ticksOrNull entry.lastModifiedTicks) entry.tags

/-- `JsonSerializer` -/
def jsonCodec {V : Type} (reader : ValueReader V) (write : V → Json) : PayloadCodec V where
  serialize entry := .ok (Json.render (entry.toJson write))
  deserialize bytes :=
    match Wire.deserialize reader bytes with
    | some entry => .ok entry
    | none => .error (.deserialization "invalid envelope")

theorem integral_entryJson {value created logical physical modified : Json} {failSafe : Bool}
    {etag : Option String} {tags : List String} (hvalue : Json.integral value = true)
    (hcreated : Json.integral created = true) (hlogical : Json.integral logical = true)
    (hphysical : Json.integral physical = true) (hmodified : Json.integral modified = true) :
    Json.integral (entryJson value created logical physical failSafe etag modified tags) = true := by
  have hetag : Json.integral (textOrNull etag) = true := by cases etag <;> rfl
  have htags := integral_strings tags
  simp [entryJson, Json.integral, Json.membersIntegral, hvalue, hcreated, hlogical, hphysical,
    hmodified, hetag, htags]

theorem nesting_strings (tags : List String) : Json.itemsNesting (tags.map Json.string) = 0 := by
  induction tags with
  | nil => rfl
  | cons tag tags ih =>
    rw [List.map_cons, Json.itemsNesting, ih]
    rfl

/-- Values that are written as JSON without decimals and read back make a codec that round-trips. -/
theorem jsonCodec_roundTrips {V : Type} {reader : ValueReader V} {write : V → Json}
    (entry : DistributedEntry V) (hread : reader.read (write entry.value) = some entry.value)
    (hintegral : Json.integral (write entry.value) = true)
    (hnesting : Json.nesting (write entry.value) < recursionLimit) :
    (jsonCodec reader write).RoundTrips entry := by
  have hmodified : readOption readI64 (ticksOrNull entry.lastModifiedTicks)
      = some entry.lastModifiedTicks := by
    cases entry.lastModifiedTicks with
    | none => rfl
    | some n =>
      show (readI64 n.toJson).map some = _
      rw [readI64_toJson]
      rfl
  have hdocument : Json.integral (entry.toJson write) = true ∧
      Json.nesting (entry.toJson write) ≤ recursionLimit := by
    constructor
    · apply integral_entryJson hintegral rfl rfl rfl
      cases entry.lastModifiedTicks <;> rfl
    · have hetag : Json.nesting (textOrNull entry.etag) = 0 := by cases entry.etag <;> rfl
      have hticks : Json.nesting (ticksOrNull entry.lastModifiedTicks) = 0 := by
        cases entry.lastModifiedTicks <;> rfl
      have hnumber : ∀ n : I64, Json.nesting n.toJson = 0 := fun _ => rfl
      have hlimit : 2 ≤ recursionLimit := by decide
      simp only [DistributedEntry.toJson, entryJson, Json.nesting, Json.membersNesting, hetag,
        hticks, hnumber, nesting_strings]
      omega
  have hgeneral : generalEntry reader (Json.render (entry.toJson write)) = some entry := by
    rw [generalEntry, Json.document_render hdocument.1 hdocument.2, Option.bind_some,
      DistributedEntry.toJson, fromJson_entryJson, hread, readI64_toJson, readI64_toJson,
      readI64_toJson, hmodified]
    rfl
  refine ⟨Json.render (entry.toJson write), rfl, ?_⟩
  have hdecode : Wire.deserialize reader (Json.render (entry.toJson write)) = some entry := by
    unfold Wire.deserialize
    split
    · rename_i found hfound
      rw [generalEntry_of_canonical hfound] at hgeneral
      split at hgeneral
      · exact hgeneral
      · cases hgeneral
    · exact hgeneral
  simp only [jsonCodec, hdecode]

def textReader : ValueReader String := ⟨readString, none⟩

/-- A value of one key, framed with its retention. -/
def newsSnapshot : DistributedSnapshot String where
  entry := ⟨"AMALGAM\x00", zeroTicks, zeroTicks, zeroTicks, false, some "v1", none, ["news", "sport"]⟩
  insertedAt := Timestamp.MAX
  retention := .specified none .high
  valid := by decide

theorem snapshot_frames_news :
    ∃ bytes, serializeSnapshot (jsonCodec textReader .string) newsSnapshot = .ok bytes ∧
      deserializeSnapshot (jsonCodec textReader .string) bytes = some (.ok newsSnapshot) :=
  (snapshot_frames (jsonCodec textReader .string)).1 newsSnapshot
    (jsonCodec_roundTrips newsSnapshot.entry rfl rfl (by decide))

end Amalgam.Wire
