import Amalgam.Keys.Scope
import Amalgam.Lib.JsonText
import Amalgam.Time

/-!
# The L2 envelope and its general decoder

The record that carries a value across the wire, and how it and the snapshot header are read from
any JSON document: fields in any order, each at most once, and options that may be left out.
-/

namespace Amalgam.Wire

open Keys

/-! ## Fixed-width integers -/

abbrev I64 := { n : Int // i64Min ≤ n ∧ n ≤ i64Max }

abbrev U64 := { n : Nat // n ≤ u64Max }

/-- `i64::try_from` -/
def I64.ofInt? (n : Int) : Option I64 :=
  if h : i64Min ≤ n ∧ n ≤ i64Max then some ⟨n, h⟩ else none

theorem I64.ofInt?_val (n : I64) : ofInt? n.val = some n := dif_pos n.property

def I64.ofTimestamp (t : Timestamp) : I64 := ⟨t.ticks, t.lower, t.upper⟩

def I64.toTimestamp (n : I64) : Timestamp := ⟨n.val, n.property.1, n.property.2⟩

@[simp] theorem I64.toTimestamp_ofTimestamp (t : Timestamp) : (ofTimestamp t).toTimestamp = t := rfl

/-! ## Reading JSON values -/

/-- The literal `-0` is a float, which no integer field accepts. -/
def readI64 : Json → Option I64
  | .integer negative magnitude =>
    if negative && magnitude == 0 then none
    else I64.ofInt? (if negative then -(magnitude : Int) else magnitude)
  | _ => none

def readU64 : Json → Option U64
  | .integer false magnitude => if h : magnitude ≤ u64Max then some ⟨magnitude, h⟩ else none
  | _ => none

def readU8 : Json → Option UInt8
  | .integer false magnitude =>
    if magnitude < 256 then some (UInt8.ofNat magnitude) else none
  | _ => none

def readBool : Json → Option Bool
  | .bool b => some b
  | _ => none

def readString : Json → Option String
  | .string text => some text
  | _ => none

def readOption {α : Type} (read : Json → Option α) : Json → Option (Option α)
  | .null => some none
  | j => (read j).map some

def readList {α : Type} (read : Json → Option α) : Json → Option (List α)
  | .array items => items.mapM read
  | _ => none

/-- The one value under `key`; a key that stands twice is an error. -/
def field (key : String) (members : List (String × Json)) : Option (Option Json) :=
  match members.filter fun m => m.1 == key with
  | [] => some none
  | [m] => some (some m.2)
  | _ => none

/-- A field that must be there, unless its type stands for its absence. -/
def required {α : Type} (read : Json → Option α) (absent : Option α) (key : String)
    (members : List (String × Json)) : Option α :=
  (field key members).bind fun
    | none => absent
    | some j => read j

/-! ## The envelope -/

structure DistributedEntry (V : Type) where
  value : V
  createdTicks : I64
  logicalExpirationTicks : I64
  physicalExpirationTicks : I64
  isFromFailSafe : Bool
  etag : Option String
  lastModifiedTicks : Option I64
  tags : List String
deriving DecidableEq

/-- How values are read from JSON: from what stands there, or from nothing. -/
structure ValueReader (V : Type) where
  read : Json → Option V
  absent : Option V

/-- From an object by names, or from an array by positions. -/
def DistributedEntry.fromJson {V : Type} (reader : ValueReader V) :
    Json → Option (DistributedEntry V)
  | .object members => do
    let value ← required reader.read reader.absent "value" members
    let createdTicks ← required readI64 none "created_ticks" members
    let logicalExpirationTicks ← required readI64 none "logical_expiration_ticks" members
    let physicalExpirationTicks ← required readI64 none "physical_expiration_ticks" members
    let isFromFailSafe ← required readBool none "is_from_fail_safe" members
    let etag ← required (readOption readString) (some none) "etag" members
    let lastModifiedTicks ← required (readOption readI64) (some none) "last_modified_ticks" members
    let tags ← required (readList readString) none "tags" members
    return { value, createdTicks, logicalExpirationTicks, physicalExpirationTicks, isFromFailSafe,
             etag, lastModifiedTicks, tags }
  | .array [v, created, logical, physical, failSafe, etag, modified, tags] => do
    let value ← reader.read v
    let createdTicks ← readI64 created
    let logicalExpirationTicks ← readI64 logical
    let physicalExpirationTicks ← readI64 physical
    let isFromFailSafe ← readBool failSafe
    let etag ← readOption readString etag
    let lastModifiedTicks ← readOption readI64 modified
    let tags ← readList readString tags
    return { value, createdTicks, logicalExpirationTicks, physicalExpirationTicks, isFromFailSafe,
             etag, lastModifiedTicks, tags }
  | _ => none

/-- How many arrays and objects may be open at once, counted from the root of a document. -/
def recursionLimit : Nat := 128

/-- The general decoder. -/
def generalEntry {V : Type} (reader : ValueReader V) (bytes : Bytes) :
    Option (DistributedEntry V) :=
  (Json.document recursionLimit bytes).bind (DistributedEntry.fromJson reader)

/-! ## The snapshot header -/

inductive WireRetention where
  | unspecified
  | specified (size : Option U64) (priority : UInt8)
deriving DecidableEq

structure SnapshotHeader where
  insertedTicks : I64
  retention : WireRetention
deriving DecidableEq

namespace WireRetention

/-- Tagged by its `kind`; what else an unspecified retention carries is ignored. -/
def fromJson : Json → Option WireRetention
  | .object members =>
    match (field "kind" members).join.bind readString with
    | some "Unspecified" => some .unspecified
    | some "Specified" => do
      let size ← required (readOption readU64) (some none) "size" members
      let priority ← required readU8 none "priority" members
      return .specified size priority
    | _ => none
  | _ => none

def sizeJson : Option U64 → Json
  | none => .null
  | some units => .integer false units.val

def toJson : WireRetention → Json
  | .unspecified => .object [("kind", .string "Unspecified")]
  | .specified size priority => .object
    [("kind", .string "Specified"), ("size", sizeJson size),
     ("priority", .integer false priority.toNat)]

end WireRetention

def I64.toJson (n : I64) : Json := .integer (decide (n.val < 0)) n.val.natAbs

namespace SnapshotHeader

/-- Unknown fields are refused. -/
def fromJson : Json → Option SnapshotHeader
  | .object members =>
    if members.all fun m => m.1 == "inserted_ticks" || m.1 == "retention" then do
      let insertedTicks ← required readI64 none "inserted_ticks" members
      let retention ← required WireRetention.fromJson none "retention" members
      return { insertedTicks, retention }
    else none
  | .array [ticks, retention] => do
    let insertedTicks ← readI64 ticks
    let retention ← WireRetention.fromJson retention
    return { insertedTicks, retention }
  | _ => none

def toJson (header : SnapshotHeader) : Json := .object
  [("inserted_ticks", header.insertedTicks.toJson), ("retention", header.retention.toJson)]

end SnapshotHeader

/-- The general decoder. -/
def generalHeader (bytes : Bytes) : Option SnapshotHeader :=
  (Json.document recursionLimit bytes).bind SnapshotHeader.fromJson

theorem readI64_toJson (n : I64) : readI64 n.toJson = some n := by
  have hzero : (decide (n.val < 0) && n.val.natAbs == 0) = false := by
    simp only [Bool.and_eq_false_iff, decide_eq_false_iff_not, beq_eq_false_iff_ne]
    omega
  have hvalue : (if decide (n.val < 0) = true then -(n.val.natAbs : Int) else n.val.natAbs)
      = n.val := by
    split
    · rename_i h
      rw [decide_eq_true_eq] at h
      omega
    · rename_i h
      rw [decide_eq_true_eq] at h
      omega
  rw [I64.toJson, readI64, hzero, hvalue]
  exact I64.ofInt?_val n

theorem readU8_toNat (b : UInt8) : readU8 (.integer false b.toNat) = some b := by
  rw [readU8, if_pos b.toNat_lt, UInt8.ofNat_toNat]

theorem WireRetention.fromJson_toJson (retention : WireRetention) :
    fromJson retention.toJson = some retention := by
  cases retention with
  | unspecified => rfl
  | specified size priority =>
    have hpriority := readU8_toNat priority
    cases size with
    | none => simp [toJson, sizeJson, fromJson, field, required, readOption, readString, hpriority]
    | some units =>
      simp [toJson, sizeJson, fromJson, field, required, readOption, readString, readU64,
        units.property, hpriority]

/-- The general decoder reads back what is written for a header. -/
theorem SnapshotHeader.fromJson_toJson (header : SnapshotHeader) :
    fromJson header.toJson = some header := by
  simp [toJson, fromJson, field, required, readI64_toJson, WireRetention.fromJson_toJson]

end Amalgam.Wire
