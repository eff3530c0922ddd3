import Amalgam.Keys.Physical
import Amalgam.Lib.Hex
import Amalgam.Time
import Mathlib.Logic.Function.Basic

/-!
# Ordinary byte markers

Invalidation markers kept in a plain byte store, beside the values: what a marker is called, what
is written under that name, and which values are stored where a marker belongs.

* **`scope_identity`** — storage ids, scopes and value names agree with each other; marker names
  are injective; physical keys are exact concatenations that can be taken apart again.
* **`values_spare_markers_iff`** — the values of a cache leave a marker alone exactly when the
  marker's name does not itself carry the scope's prefix and suffix around some raw key.
-/

namespace Amalgam.Keys

open Text

/-! ## Marker names -/

namespace OrdinaryMarkers

/-- What a marker's name has after its scope. -/
def kindTrail : MarkerKind → String
  | .clearRemove => ":remove"
  | .clearExpire => ":expire"
  | .tag tag => s!":tag:{tag.asStr.utf8ByteSize}:{tag.asStr}"

def key (scope : CacheScope) (kind : MarkerKind) : String :=
  s!"amalgam:byte-marker:{scope.storageId}{kindTrail kind}"

theorem key_eq (scope : CacheScope) (kind : MarkerKind) :
    key scope kind = "amalgam:byte-marker:" ++ (scope.storageId ++ kindTrail kind) := by
  show "amalgam:byte-marker:" ++ scope.storageId ++ kindTrail kind = _
  rw [String.append_assoc]

theorem kindTrail_tag (tag : Tag) : kindTrail (.tag tag) = ":tag:" ++ frame tag.asStr := by
  simp [kindTrail, frame, toString, String.append_assoc]

theorem head_ne_of_tag (tag : Tag) (text : String) (h : ":tag:".toList.take 2 ≠ text.toList.take 2) :
    kindTrail (.tag tag) ≠ text := by
  rintro rfl
  apply h
  rw [kindTrail_tag, String.toList_append, List.take_append_of_le_length (by decide)]

theorem kindTrail_injective {kind kind' : MarkerKind} (h : kindTrail kind = kindTrail kind') :
    kind = kind' := by
  cases kind with
  | tag tag =>
    cases kind' with
    | tag tag' =>
      rw [kindTrail_tag, kindTrail_tag, String.append_right_inj] at h
      have htext : tag.asStr = tag'.asStr := frame_injective h
      cases tag
      cases tag'
      cases htext
      rfl
    | clearExpire => exact absurd h (head_ne_of_tag tag _ (by decide))
    | clearRemove => exact absurd h (head_ne_of_tag tag _ (by decide))
  | clearExpire =>
    cases kind' with
    | tag tag' => exact absurd h.symm (head_ne_of_tag tag' _ (by decide))
    | clearExpire => rfl
    | clearRemove => exact absurd h (by decide)
  | clearRemove =>
    cases kind' with
    | tag tag' => exact absurd h.symm (head_ne_of_tag tag' _ (by decide))
    | clearExpire => exact absurd h (by decide)
    | clearRemove => rfl

theorem key_eq_iff {scope scope' : CacheScope} {kind kind' : MarkerKind} :
    key scope kind = key scope' kind' ↔ scope == scope' ∧ kind = kind' := by
  rw [key_eq, key_eq, String.append_right_inj]
  constructor
  · intro h
    have hparts := CacheScope.storageId_append_inj h
    exact ⟨hparts.1, kindTrail_injective hparts.2⟩
  · rintro ⟨hscope, rfl⟩
    rw [CacheScope.storageId_congr hscope]

end OrdinaryMarkers

theorem scope_identity :
    (∀ s t : CacheScope, s.storageId = t.storageId ↔ s == t) ∧
    (∀ config other : Configuration, config.scope == other.scope ↔
      ∀ raw, config.valueKey raw = other.valueKey raw) ∧
    (∀ (scope scope' : CacheScope) (kind kind' : MarkerKind),
      OrdinaryMarkers.key scope kind = OrdinaryMarkers.key scope' kind' ↔
        scope == scope' ∧ kind = kind') ∧
    (∀ first second : String,
      (PhysicalKey.joined first second).deref = some (first ++ second)) ∧
    (∀ (version : String) (mode : KeyModifierMode) (k : String),
      ((DistributedKey.new version mode).physical k).deref.bind
        (DistributedKey.new version mode).logical = some k) :=
  ⟨fun _ _ => CacheScope.storageId_eq_iff, scope_beq_iff_valueKey,
    fun _ _ _ _ => OrdinaryMarkers.key_eq_iff, PhysicalKey.deref_joined,
    fun _ _ k => DistributedKey.logical_physical _ k⟩

/-! ## Marker records -/

namespace MarkerVersion

/-- The revision with its sign bit flipped: unsigned order is then its order. -/
def biased (version : Timestamp) : BitVec 64 := BitVec.ofInt 64 version.ticks ^^^ (1#64 <<< 63)

def orderedHex (version : Timestamp) : Bytes := Hex.ofNat 16 (biased version).toNat

theorem toInt_bounds (bits : BitVec 64) : i64Min ≤ bits.toInt ∧ bits.toInt ≤ i64Max := by
  have hlower := bits.le_toInt
  have hupper := bits.toInt_lt
  unfold i64Min i64Max
  omega

/-- `(biased ^ (1 << 63)) as i64` -/
def unbiased (bits : BitVec 64) : Timestamp :=
  ⟨(bits ^^^ (1#64 <<< 63)).toInt, (toInt_bounds _).1, (toInt_bounds _).2⟩

def fromOrderedHex (encoded : Bytes) : Except MarkerError Timestamp :=
  if encoded.length ≠ 16 ∨ !encoded.all (fun b => (Hex.digitValue b).isSome) then
    .error (.protocol "invalid marker revision")
  else
    match Hex.toNat encoded with
    | none => .error (.protocol "invalid digit found in string")
    | some n => .ok (unbiased (BitVec.ofNat 64 n))

theorem unbiased_biased (version : Timestamp) : unbiased (biased version) = version := by
  have hlower := version.lower
  have hupper := version.upper
  apply Timestamp.ext
  show (BitVec.ofInt 64 version.ticks ^^^ (1#64 <<< 63) ^^^ (1#64 <<< 63)).toInt = version.ticks
  rw [BitVec.xor_assoc, BitVec.xor_self, BitVec.xor_zero, BitVec.toInt_ofInt]
  unfold i64Min at hlower
  unfold i64Max at hupper
  rw [Int.bmod_eq_of_le (by omega) (by omega)]

theorem fromOrderedHex_orderedHex (version : Timestamp) :
    fromOrderedHex (orderedHex version) = .ok version := by
  have hdigits : (orderedHex version).all (fun b => (Hex.digitValue b).isSome) = true := by
    rw [List.all_eq_true]
    intro b hb
    obtain ⟨m, hm, rfl⟩ := Hex.mem_ofNat hb
    rw [Hex.digitValue_digit m hm]
    rfl
  have hvalid : ¬ ((orderedHex version).length ≠ 16 ∨
      !(orderedHex version).all (fun b => (Hex.digitValue b).isSome)) := by
    rw [hdigits, orderedHex, Hex.length_ofNat]
    decide
  have hread : Hex.toNat (orderedHex version) = some (biased version).toNat :=
    Hex.toNat_ofNat (biased version).isLt
  rw [fromOrderedHex, if_neg hvalid, hread]
  simp [unbiased_biased]

end MarkerVersion

/-! ## Values and markers in one store -/

structure Stored where
  bytes : Bytes
  ttl : Option Duration

abbrev ByteStore := String → Option Stored

namespace OrdinaryMarkers

def write (scope : CacheScope) (kind : MarkerKind) (version : Timestamp) (ttl : Duration)
    (store : ByteStore) : ByteStore :=
  Function.update store (key scope kind) (some ⟨MarkerVersion.orderedHex version, some ttl⟩)

def read (scope : CacheScope) (kind : MarkerKind) (store : ByteStore) :
    Except MarkerError (Option Timestamp) :=
  match store (key scope kind) with
  | none => .ok none
  | some stored =>
    match fromUtf8 stored.bytes with
    | none => .error (.protocolWithSource .utf8)
    | some _ => (MarkerVersion.fromOrderedHex stored.bytes).map some

end OrdinaryMarkers

/-- What the value path does to L2 for a raw key. -/
inductive ValueWrite where
  | set (raw : String) (stored : Stored)
  | remove (raw : String)

namespace ValueWrite

def raw : ValueWrite → String
  | .set raw _ => raw
  | .remove raw => raw

def stored : ValueWrite → Option Stored
  | .set _ stored => some stored
  | .remove _ => none

def apply (config : Configuration) (store : ByteStore) (write : ValueWrite) : ByteStore :=
  match config.valueKey write.raw with
  | none => store
  | some physical => Function.update store physical write.stored

/-- A value write changes nothing that is not stored under the name of a value. -/
theorem apply_of_ne {config : Configuration} {name : String}
    (h : ∀ raw, config.valueKey raw ≠ some name) (store : ByteStore) (write : ValueWrite) :
    apply config store write name = store name := by
  cases hphysical : config.valueKey write.raw with
  | none => simp only [apply, hphysical]
  | some physical =>
    have hne : name ≠ physical := by
      rintro rfl
      exact h write.raw hphysical
    simp only [apply, hphysical]
    exact Function.update_of_ne hne _ _

theorem foldl_apply_of_ne {config : Configuration} {name : String}
    (h : ∀ raw, config.valueKey raw ≠ some name) (writes : List ValueWrite) (store : ByteStore) :
    writes.foldl (apply config) store name = store name := by
  induction writes generalizing store with
  | nil => rfl
  | cons write writes ih =>
    rw [List.foldl_cons, ih, apply_of_ne h]

end ValueWrite

/-- The physical prefix is also how the marker names of its scope begin. -/
def startsAsMarker (scope : CacheScope) : Bool :=
  (stripLead scope.physicalPrefix ("amalgam:byte-marker:" ++ frame scope.physicalPrefix)).isSome

/-- The physical suffix is also how the marker's name ends. -/
def endsAsMarker (scope : CacheScope) (kind : MarkerKind) : Bool :=
  (stripTrail scope.physicalSuffix
    (scope.physicalSuffix ++ OrdinaryMarkers.kindTrail kind)).isSome

theorem startsAsMarker_iff (scope : CacheScope) :
    startsAsMarker scope ↔
      ∃ r, "amalgam:byte-marker:" ++ frame scope.physicalPrefix = scope.physicalPrefix ++ r := by
  rw [startsAsMarker, Option.isSome_iff_exists]
  simp only [stripLead_eq_some_iff]

theorem endsAsMarker_iff (scope : CacheScope) (kind : MarkerKind) :
    endsAsMarker scope kind ↔ ∃ r, scope.physicalSuffix ++ OrdinaryMarkers.kindTrail kind
      = r ++ scope.physicalSuffix := by
  rw [endsAsMarker, Option.isSome_iff_exists]
  simp only [stripTrail_eq_some_iff]

theorem exists_valueKey_eq_iff (config : Configuration) (kind : MarkerKind) :
    (∃ raw, config.valueKey raw = some (OrdinaryMarkers.key config.scope kind)) ↔
      startsAsMarker config.scope ∧ endsAsMarker config.scope kind := by
  rw [startsAsMarker_iff, endsAsMarker_iff]
  have hname : OrdinaryMarkers.key config.scope kind
      = ("amalgam:byte-marker:" ++ Nat.repr config.scope.physicalPrefix.utf8ByteSize ++ ":")
        ++ config.scope.physicalPrefix
        ++ (Nat.repr config.scope.physicalSuffix.utf8ByteSize ++ ":")
        ++ (config.scope.physicalSuffix ++ OrdinaryMarkers.kindTrail kind) := by
    rw [OrdinaryMarkers.key_eq, CacheScope.storageId, frame_eq, frame_eq]
    simp only [String.append_assoc]
  have hframe : "amalgam:byte-marker:" ++ frame config.scope.physicalPrefix
      = ("amalgam:byte-marker:" ++ Nat.repr config.scope.physicalPrefix.utf8ByteSize ++ ":")
        ++ config.scope.physicalPrefix := by
    rw [frame_eq]
    simp only [String.append_assoc]
  rw [hname, hframe, ← exists_between_iff _ _
    (Nat.repr config.scope.physicalSuffix.utf8ByteSize ++ ":")]
  simp only [Configuration.valueKey_eq, Option.some.injEq]

/-- The value of a raw key, as L2 holds it. -/
def valueOf (config : Configuration) (raw : String) (store : ByteStore) : Option Stored :=
  (config.valueKey raw).bind store

theorem values_spare_markers_iff (config : Configuration) (kind : MarkerKind) :
    ((∀ raw, config.valueKey raw ≠ some (OrdinaryMarkers.key config.scope kind)) ∧
      (∀ (writes : List ValueWrite) (store : ByteStore),
        OrdinaryMarkers.read config.scope kind (writes.foldl (ValueWrite.apply config) store)
          = OrdinaryMarkers.read config.scope kind store) ∧
      (∀ (version : Timestamp) (ttl : Duration) (store : ByteStore) (raw : String),
        valueOf config raw (OrdinaryMarkers.write config.scope kind version ttl store)
          = valueOf config raw store)) ↔
      ¬ (startsAsMarker config.scope ∧ endsAsMarker config.scope kind) := by
  rw [← exists_valueKey_eq_iff, not_exists]
  constructor
  · rintro ⟨hdistinct, -⟩
    exact hdistinct
  · intro hdistinct
    refine ⟨hdistinct, ?_, ?_⟩
    · intro writes store
      rw [OrdinaryMarkers.read, OrdinaryMarkers.read,
        ValueWrite.foldl_apply_of_ne hdistinct writes store]
    · intro version ttl store raw
      rw [valueOf, valueOf, Configuration.valueKey_eq, Option.bind_some, Option.bind_some]
      apply Function.update_of_ne
      intro h
      exact hdistinct raw (by rw [Configuration.valueKey_eq, h])

def amalgamPrefixed : Configuration := ⟨none, "amalgam", .Prefix, by decide⟩

def v2Suffixed : Configuration := ⟨none, "v2", .Suffix, by decide⟩

theorem value_named_as_marker :
    amalgamPrefixed.valueKey "byte-marker:8:amalgam:0::remove"
        = some (OrdinaryMarkers.key amalgamPrefixed.scope .clearRemove) ∧
      v2Suffixed.valueKey "amalgam:byte-marker:0:3::v2:tag:7:news"
        = some (OrdinaryMarkers.key v2Suffixed.scope (.tag ⟨"news:v2", by decide⟩)) := by
  rw [Configuration.valueKey_eq, Configuration.valueKey_eq]
  decide

end Amalgam.Keys
