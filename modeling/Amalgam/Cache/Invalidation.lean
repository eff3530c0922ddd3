import Amalgam.Markers.Ledger
import Amalgam.Memory.Contents

/-!
# Amalgam — factories, invalidations and reads of one cache

A factory takes its timestamp when it starts (`compute_origin`, the eager refresh and the
inline origin of `src/cache`), and its product carries it as created version. A `clear` or
`remove_by_tag` (`mutate_markers` of `src/cache/markers.rs`) takes one timestamp, advances
the local registry for each of its markers and empties L1 where a `ClearRemove` was set. A
read gets a representation from L1 or L2 and judges it with the registry.

Every access to shared state is one action. In a memory-only cache a product is committed
through its origin; in a hybrid cache the prepared write lands in L1 and in L2 at later
moments, which are left to the schedule together with retries and recovery. Representations
that are re-made on the way (hydrated, throttled, logically expired, re-inserted) keep value,
version and tags.
-/

namespace Amalgam

namespace Invalidations

abbrev FactoryId := Nat
abbrev CallId := Nat
abbrev ReadId := Nat

structure Config where
  /-- `Storage::Hybrid`. -/
  hybrid : Bool
  disableTagging : Bool
  behavior : RemoveByTagBehavior

/-- A value together with the factory run that produced it, if one did. -/
structure Produced (V : Type) where
  value : V
  producer : Option FactoryId

structure Product (V : Type) where
  value : V
  tags : List Tag

structure Factory (K V : Type) where
  key : K
  started : Timestamp
  /-- `OriginVersion::Memory`; a hybrid cache captures a lane fence instead. -/
  version : Option Memory.OriginId
  product : Option (Product V)

/-- A `clear` or `remove_by_tag`: its timestamp, its markers and the factories that had
started when it took the timestamp. -/
structure Invalidation where
  now : Timestamp
  kinds : List MarkerKind
  startedBefore : List FactoryId

/-- The accesses of the loop of `mutate_markers`. -/
inductive Work where
  | advance (kind : MarkerKind)
  | invalidateAll

structure Call where
  record : Invalidation
  todo : List Work

/-- A read, with the invalidations that had completed when it began. -/
structure Reading (V : Type) where
  after : List Invalidation
  entry : Option (Entry (Produced V))

structure Judgement (V : Type) where
  after : List Invalidation
  entry : Entry (Produced V)
  verdict : TagVerdict

structure State (K V : Type) where
  clock : Timestamp
  registry : TagRegistry
  memory : Memory.State K (Produced V)
  distributed : AList fun _ : K => Entry (Produced V)
  /-- Prepared writes of a hybrid cache. -/
  writes : List (K × Entry (Produced V))
  factories : AList fun _ : FactoryId => Factory K V
  calls : AList fun _ : CallId => Call
  completed : List Invalidation
  reads : AList fun _ : ReadId => Reading V
  judged : List (Judgement V)

/-- What the options and the clock add to a fresh entry. -/
structure Shape where
  inst : Instance
  logicalExpiration : Timestamp
  physicalExpiration : Timestamp
  eagerRefreshAt : Option Timestamp
  etag : Option String
  lastModified : Option Timestamp
  retention : RetentionMetadata

/-- `Entry::try_fresh_with_jitter`: `created` orders the value, the lifetime starts `now`. -/
def freshEntry {V : Type} (value : Produced V) (created now : Timestamp) (tags : List Tag)
    (shape : Shape) : Entry (Produced V) where
  inst := shape.inst
  value
  metadata :=
    { created
      insertedAt := now
      logicalExpiration := shape.logicalExpiration
      physicalExpiration := shape.physicalExpiration
      backendTtl := shape.physicalExpiration.saturatingDurationSince now
      origin := .fresh shape.eagerRefreshAt
      etag := shape.etag
      lastModified := shape.lastModified
      tags
      retention := shape.retention }
  eligibility := .ofLocal

/-- The ways a cache re-makes a representation it holds. -/
inductive Derivation where
  | throttled (duration : Duration)
  | expired
  | inserted
  | hydrated
  | withoutEagerRefresh

def Derivation.apply {V : Type} (d : Derivation) (epoch : Nat) (now : Timestamp)
    (inst : Instance) (e : Entry V) : Option (Entry V) :=
  match d with
  | .throttled duration => e.tryThrottled epoch duration now inst
  | .expired => some (e.withLogicalExpirationAt now now inst)
  | .inserted => some (e.atInsertion now inst)
  | .hydrated => some { e with inst, eligibility := .hydrated epoch }
  | .withoutEagerRefresh =>
    some { e with
      inst
      metadata := { e.metadata with
        origin := match e.metadata.origin with
          | .fresh _ => .fresh none
          | .failSafe => .failSafe } }

/-- How a re-made representation is written back to L1. -/
inductive Rewrite (V : Type) where
  | insertAt
  | insertIfUnchanged (expected : Option (Entry V))
  | applyExpire (expected : Entry V)

def Rewrite.op {K V : Type} (rewrite : Rewrite V) (write : Memory.PreparedWrite K V) :
    Memory.Op K V :=
  match rewrite with
  | .insertAt => .insertAt write
  | .insertIfUnchanged expected => .insertIfUnchanged write expected
  | .applyExpire expected => .applyExpire write expected

inductive Action (K V : Type) where
  | tick (now : Timestamp)
  | startFactory (f : FactoryId) (key : K) (provided : Option Memory.RevisionId)
  | returnProduct (f : FactoryId) (product : Product V)
  | commit (f : FactoryId) (shape : Shape)
  /-- An explicit `set`; a value of another node arrives in L2 with `remote`. -/
  | set (key : K) (value : V) (tags : List Tag) (shape : Shape)
  | remote (key : K) (value : V) (created : Timestamp) (tags : List Tag) (shape : Shape)
  | storeLocal (write : Nat) (inst : Instance)
  | storeDistributed (write : Nat)
  | removeDistributed (key : K)
  /-- Any other operation of the memory store; it writes no representation. -/
  | memoryOp (op : Memory.Op K (Produced V))
  | beginInvalidation (c : CallId) (kinds : List MarkerKind)
  | workInvalidation (c : CallId)
  | completeInvalidation (c : CallId)
  /-- A marker learned from the backplane or the marker store. -/
  | observeMarker (kind : MarkerKind) (version : MarkerVersion)
  | beginRead (r : ReadId)
  | fetchMemory (r : ReadId) (key : K)
  | fetchDistributed (r : ReadId) (key : K) (inst : Instance)
  | rewrite (r : ReadId) (key : K) (derivation : Derivation) (inst : Instance)
      (mode : Rewrite (Produced V))
  | judge (r : ReadId)

section

variable {K V : Type} [LinearOrder K]

def init (capacity : Nat) (backend : Memory.Backend K (Produced V)) (world : Memory.World)
    (clock : Timestamp) : State K V where
  clock
  registry := { capacity }
  memory := Memory.init backend world
  distributed := ∅
  writes := []
  factories := ∅
  calls := ∅
  completed := []
  reads := ∅
  judged := []

namespace State

def time (s : State K V) : Memory.WriteTime := ⟨s.clock, s.memory.world.instant⟩

/-- Runs an operation of the memory store. -/
def onMemory (s : State K V) (op : Memory.Op K (Produced V)) : Option (State K V) :=
  (Memory.next s.memory op).map fun memory => { s with memory }

/-- `evaluate` through the cache: with tagging disabled everything is valid. -/
def verdict (cfg : Config) (s : State K V) (e : Entry (Produced V)) : TagVerdict :=
  if cfg.disableTagging then .valid
  else s.registry.evaluate e.metadata.created e.metadata.tags cfg.behavior

end State

/-- The clears of L1 that follow the advance of `kind`. -/
def clearsAfter (kind : MarkerKind) (outcome : MarkerAdvanceOutcome) : List Work :=
  let cleared := if kind = .clearRemove then [Work.invalidateAll] else []
  match outcome with
  | .advanced _ => cleared
  | .compacted _ _ => cleared ++ [.invalidateAll]

/-- One access of the loop of `mutate_markers`. -/
def workInvalidation (s : State K V) (c : CallId) : Option (State K V) :=
  match s.calls.lookup c with
  | some ⟨record, .advance kind :: rest⟩ =>
    let advanced := s.registry.advance kind record.now
    some { s with
      registry := advanced.1
      calls := s.calls.insert c ⟨record, clearsAfter kind advanced.2 ++ rest⟩ }
  | some ⟨record, .invalidateAll :: rest⟩ =>
    { s with calls := s.calls.insert c ⟨record, rest⟩ }.onMemory .invalidateAll
  | _ => none

def next (cfg : Config) (s : State K V) : Action K V → Option (State K V)
  | .tick now => if s.clock ≤ now then some { s with clock := now } else none
  | .startFactory f key provided =>
    if f ∈ s.factories then none
    else if cfg.hybrid then
      some { s with factories := s.factories.insert f ⟨key, s.clock, none, none⟩ }
    else
      match Memory.perform s.memory (.captureOrigin key provided) with
      | some (.origin id, memory) =>
        some { s with
          memory
          factories := s.factories.insert f ⟨key, s.clock, some id, none⟩ }
      | _ => none
  | .returnProduct f product =>
    match s.factories.lookup f with
    | some ⟨key, started, version, none⟩ =>
      some { s with factories := s.factories.insert f ⟨key, started, version, some product⟩ }
    | _ => none
  | .commit f shape =>
    match s.factories.lookup f with
    | some ⟨key, started, version, some product⟩ =>
      let entry := freshEntry ⟨product.value, some f⟩ started s.clock product.tags shape
      match version with
      | some id => s.onMemory (.applyOrigin ⟨key, entry, s.time, .set⟩ id)
      | none => some { s with writes := (key, entry) :: s.writes }
    | _ => none
  | .set key value tags shape =>
    let entry := freshEntry ⟨value, none⟩ s.clock s.clock tags shape
    if cfg.hybrid then some { s with writes := (key, entry) :: s.writes }
    else s.onMemory (.applyInsert ⟨key, entry, s.time, .set⟩)
  | .remote key value created tags shape =>
    if cfg.hybrid then
      let entry := freshEntry ⟨value, none⟩ created s.clock tags shape
      some { s with distributed := s.distributed.insert key entry }
    else none
  | .storeLocal write inst =>
    match s.writes[write]? with
    | none => none
    | some (key, entry) => s.onMemory (.insertAt (Memory.prepareWrite key entry s.time .set inst))
  | .storeDistributed write =>
    match s.writes[write]? with
    | none => none
    | some (key, entry) => some { s with distributed := s.distributed.insert key entry }
  | .removeDistributed key => some { s with distributed := s.distributed.erase key }
  | .memoryOp op => if op.written.isNone then s.onMemory op else none
  | .beginInvalidation c kinds =>
    -- `MarkerError::Unsupported`
    if cfg.disableTagging ∨ c ∈ s.calls then none
    else
      some { s with
        calls := s.calls.insert c ⟨⟨s.clock, kinds, s.factories.keys⟩, kinds.map .advance⟩ }
  | .workInvalidation c => workInvalidation s c
  | .completeInvalidation c =>
    match s.calls.lookup c with
    | some ⟨record, []⟩ =>
      some { s with calls := s.calls.erase c, completed := record :: s.completed }
    | _ => none
  | .observeMarker kind version =>
    some { s with registry := (s.registry.advance kind version).1 }
  | .beginRead r =>
    if r ∈ s.reads then none
    else some { s with reads := s.reads.insert r ⟨s.completed, none⟩ }
  | .fetchMemory r key =>
    match s.reads.lookup r with
    | none => none
    | some reading =>
      let (entry, backend) := s.memory.backend.read s.memory.world key (some s.clock)
      some { s with
        memory := { s.memory with backend }
        reads := s.reads.insert r { reading with entry } }
  | .fetchDistributed r key inst =>
    match s.reads.lookup r, s.distributed.lookup key with
    | some reading, some entry =>
      let entry := { entry with inst, eligibility := .hydrated s.memory.world.epoch }
      some { s with reads := s.reads.insert r { reading with entry := some entry } }
    | _, _ => none
  | .rewrite r key derivation inst mode =>
    match (s.reads.lookup r).bind (·.entry) with
    | none => none
    | some entry =>
      match derivation.apply s.memory.world.epoch s.clock inst entry with
      | none => none
      | some copy => s.onMemory (mode.op ⟨key, copy, s.time, .set⟩)
  | .judge r =>
    match s.reads.lookup r with
    | some ⟨after, some entry⟩ =>
      some { s with judged := ⟨after, entry, s.verdict cfg entry⟩ :: s.judged }
    | _ => none

end

end Invalidations

end Amalgam
