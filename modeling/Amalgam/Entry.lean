import Amalgam.Markers.State

/-!
# Amalgam — entries

`src/entry.rs`. An `Entry` is a handle to an immutable representation: a value, its metadata
and its eligibility. Two handles are the same instance when they point to one allocation, so
a representation carries the identity of its allocation; whoever builds a new one supplies
an identity that is not in use. Storage may reuse an allocation that nobody else holds; no
handle can tell that from a new one.
-/

namespace Amalgam

inductive Priority where
  | low
  | normal
  | high
  | neverRemove
deriving DecidableEq

def Priority.evictionRank : Priority → Nat
  | .low => 0
  | .normal => 1
  | .high => 2
  | .neverRemove => 3

inductive RetentionMetadata where
  | unspecified
  | specified (size : Option Nat) (priority : Priority)
deriving DecidableEq

inductive EntryOrigin where
  | fresh (eagerRefreshAt : Option Timestamp)
  | failSafe
deriving DecidableEq

structure Metadata where
  created : Timestamp
  insertedAt : Timestamp
  logicalExpiration : Timestamp
  physicalExpiration : Timestamp
  backendTtl : Duration
  origin : EntryOrigin
  etag : Option String
  lastModified : Option Timestamp
  tags : List Tag
  retention : RetentionMetadata
deriving DecidableEq

namespace Metadata

def size (m : Metadata) : Option Nat :=
  match m.retention with
  | .unspecified => none
  | .specified size _ => size

def priority (m : Metadata) : Priority :=
  match m.retention with
  | .unspecified => .normal
  | .specified _ priority => priority

def isFromFailSafe (m : Metadata) : Bool := m.origin = .failSafe

/-- `entry_weight`: an absent size counts as one unit. -/
def weight (m : Metadata) : Nat := m.size.getD 1

end Metadata

/-- `ContinuityStamp::captured`; the epoch it is compared with belongs to the cache. -/
inductive Eligibility where
  | ofLocal
  | hydrated (captured : Nat)
deriving DecidableEq

abbrev Instance := Nat

structure Entry (V : Type) where
  inst : Instance
  value : V
  metadata : Metadata
  eligibility : Eligibility
deriving DecidableEq

inductive Freshness where
  | fresh
  | stale
deriving DecidableEq

namespace Entry

variable {V : Type}

def isSameInstance (e other : Entry V) : Bool := e.inst = other.inst

def isReadEligible (epoch : Nat) (e : Entry V) : Bool :=
  match e.eligibility with
  | .ofLocal => true
  | .hydrated captured => epoch = captured

def isLogicallyExpired (e : Entry V) (now : Timestamp) : Bool :=
  !now.isBefore e.metadata.logicalExpiration

def isPhysicallyExpired (e : Entry V) (now : Timestamp) : Bool :=
  !now.isBefore e.metadata.physicalExpiration

def freshness (e : Entry V) (now : Timestamp) : Freshness :=
  if now.isBefore e.metadata.logicalExpiration then .fresh else .stale

def backendTtlAt (e : Entry V) (now : Timestamp) : Duration :=
  e.metadata.physicalExpiration.saturatingDurationSince now

/-- `at_insertion`: a representation inserted at its own instant is the same one. -/
def atInsertion (e : Entry V) (insertedAt : Timestamp) (inst : Instance) : Entry V :=
  if insertedAt = e.metadata.insertedAt then e
  else { e with
    inst
    metadata := { e.metadata with insertedAt, backendTtl := e.backendTtlAt insertedAt } }

/-- `try_throttled` under valid options: `throttle` is their `fail_safe_throttle_duration`. -/
def tryThrottled (epoch : Nat) (source : Entry V) (throttle : Duration) (now : Timestamp)
    (inst : Instance) : Option (Entry V) :=
  if !source.isReadEligible epoch || source.isPhysicallyExpired now then none
  else
    let physicalExpiration := source.metadata.physicalExpiration
    some { source with
      inst
      metadata := { source.metadata with
        insertedAt := now
        logicalExpiration := min (now.saturatingAdd throttle) physicalExpiration
        backendTtl := physicalExpiration.saturatingDurationSince now
        origin := .failSafe } }

/-- `with_logical_expiration_at`. -/
def withLogicalExpirationAt (e : Entry V) (at_ insertedAt : Timestamp) (inst : Instance) :
    Entry V :=
  { e with
    inst
    metadata := { e.metadata with
      logicalExpiration := min at_ e.metadata.physicalExpiration
      insertedAt
      origin := match e.metadata.origin with
        | .fresh _ => .fresh none
        | .failSafe => .failSafe
      backendTtl := e.metadata.physicalExpiration.saturatingDurationSince insertedAt } }

/-- `PlainMetadata::into_fresh`: a representation with default metadata and no tags. -/
def intoFresh (value : V) (created expires : Timestamp) (inst : Instance) : Entry V where
  inst
  value
  metadata :=
    { created
      insertedAt := created
      logicalExpiration := expires
      physicalExpiration := expires
      backendTtl := expires.saturatingDurationSince created
      origin := .fresh none
      etag := none
      lastModified := none
      tags := []
      retention := .unspecified }
  eligibility := .ofLocal

/-- A throttled copy keeps the version and the physical boundary of its source. -/
theorem tryThrottled_eq_some {epoch : Nat} {source copy : Entry V} {throttle : Duration}
    {now : Timestamp} {inst : Instance}
    (h : tryThrottled epoch source throttle now inst = some copy) :
    source.isReadEligible epoch = true ∧ source.isPhysicallyExpired now = false ∧
      copy.inst = inst ∧ copy.value = source.value ∧
      copy.metadata.created = source.metadata.created ∧
      copy.metadata.insertedAt = now ∧
      copy.metadata.physicalExpiration = source.metadata.physicalExpiration ∧
      copy.metadata.retention = source.metadata.retention ∧
      copy.eligibility = source.eligibility := by
  unfold tryThrottled at h
  split at h
  · cases h
  · rename_i hok
    obtain ⟨heligible, halive⟩ : source.isReadEligible epoch = true ∧
        source.isPhysicallyExpired now = false := by simpa using hok
    obtain rfl := Option.some.inj h
    exact ⟨heligible, halive, rfl, rfl, rfl, rfl, rfl, rfl, rfl⟩

end Entry

end Amalgam
