import Amalgam.Lib.History
import Amalgam.Memory.EvictionStream
import Amalgam.Memory.LocalReads

/-!
# Amalgam — supplied memory storage

`src/memory_storage.rs` and the `Supplied` side of `src/memory/custom.rs`: a storage provider
holds the records of any number of caches. A cache stamps a record with the generation of the
epoch of its namespace before it offers it, and compares the stamp with the epoch again when it
reads the record back. Between these two steps the epoch may have moved, the record may have
been cleared, and it may even reach the provider after the clear.

The provider is known by its contract alone (`Write.accepted`, `Task.step`): it may fail without
an effect, it gives out only records that it holds, and what it lets go of it returns.
-/

namespace Amalgam

namespace Supplied

open EvictionStream (MemoryEvictionReason)
open Memory (Instant MemoryExpiry CapacityRejection MemoryAdmission MemoryWriteEvent
  RetirementReason checkedAdd)

abbrev EpochId := Nat
abbrev CacheId := Nat
abbrev TaskId := Nat

/-- An allocation of `RecordInner`. -/
abbrev Serial := Nat

inductive MemoryRecordViolation where
  | key
  | namespace_
deriving DecidableEq

inductive MemoryStorageError where
  | provider
  | generationExhausted
  | invalidRecord (violation : MemoryRecordViolation)
deriving DecidableEq

structure MemoryGeneration where
  epoch : EpochId
  value : Nat
deriving DecidableEq

structure MemoryRecord (K V : Type) where
  serial : Serial
  key : K
  entry : Entry V
  generation : MemoryGeneration
  expires : Option Instant
  owner : CacheId

/-- What is read outside the provider: `MemoryStorageEpoch`s, where zero is exhausted, the
continuity epoch of each cache, and `Instant::now()`. -/
structure World where
  epochs : EpochId → Nat
  continuity : CacheId → Nat
  instant : Instant

/-- `MemoryStorageEpoch::current`. -/
def World.current (w : World) (epoch : EpochId) : Option MemoryGeneration :=
  if w.epochs epoch = 0 then none else some ⟨epoch, w.epochs epoch⟩

/-- The value after an advance: `checked_add(1).unwrap_or(0)`. -/
def following (value : Nat) : Nat := if value = u64Max then 0 else value + 1

/-- `MemoryStorageEpoch::advance`: the last value is followed by the exhausted one, without a
barrier. -/
def World.advance (w : World) (epoch : EpochId) : World × Option MemoryGeneration :=
  let value := w.epochs epoch
  if value = 0 then (w, none)
  else
    ({ w with epochs := Function.update w.epochs epoch (following value) },
      if value = u64Max then none else some ⟨epoch, following value⟩)

namespace MemoryGeneration

def precedes {K V : Type} (g : MemoryGeneration) (r : MemoryRecord K V) : Bool :=
  g.epoch = r.generation.epoch && r.generation.value < g.value

def isCurrent (g : MemoryGeneration) (w : World) : Bool :=
  g.value ≠ 0 && w.epochs g.epoch = g.value

end MemoryGeneration

namespace MemoryRecord

variable {K V : Type}

def isReadEligible (r : MemoryRecord K V) (w : World) : Bool :=
  r.entry.isReadEligible (w.continuity r.owner)

def isExpired (r : MemoryRecord K V) (w : World) (now : Timestamp) : Bool :=
  r.entry.isPhysicallyExpired now || r.expires.any fun deadline => deadline ≤ w.instant

def retirementReason (r : MemoryRecord K V) (w : World) (now : Timestamp) :
    Option MemoryEvictionReason :=
  if !r.generation.isCurrent w || !r.isReadEligible w then some .removed
  else if r.isExpired w now then some .expired
  else none

def isLiveAt (r : MemoryRecord K V) (w : World) (now : Timestamp) : Bool :=
  (r.retirementReason w now).isNone

/-- `dead_reason`. -/
def deadReason (r : MemoryRecord K V) (w : World) : RetirementReason :=
  if !r.generation.isCurrent w then .continuity
  else if !r.isReadEligible w then .eligibility
  else .expired

end MemoryRecord

inductive MemoryCondition (V : Type) where
  | any
  | absent
  | same (entry : Entry V)

/-- `MemoryCondition::matches`. -/
def MemoryCondition.isMetBy {K V : Type} (c : MemoryCondition V)
    (current : Option (MemoryRecord K V)) (w : World) (now : Timestamp) : Bool :=
  let current := current.filter fun r => r.isLiveAt w now
  match c with
  | .any => true
  | .absent => current.isNone
  | .same entry => current.any fun r => r.entry.isSameInstance entry

/-- The reason with which `retire` tells the observer. -/
def retirementOf : MemoryEvictionReason → RetirementReason
  | .removed => .explicit
  | .replaced => .replaced
  | .expired => .expired
  | .capacity => .capacity

/-- What a provider lets go of in one call, and why. -/
abbrev Gone := Serial → Option MemoryEvictionReason

/-- `MemoryStorageWrite`; the previous record is the one in the slot of the key. -/
inductive Write where
  | admitted (gone : Gone)
  | replaced (gone : Gone)
  | rejected (reason : CapacityRejection) (gone : Gone)

section

variable {K V : Type}

def kept (gone : Gone) (held : List (MemoryRecord K V)) : List (MemoryRecord K V) :=
  held.filter fun r => (gone r.serial).isNone

def lost (gone : Gone) (held : List (MemoryRecord K V)) :
    List (MemoryRecord K V × RetirementReason) :=
  held.filterMap fun r => (gone r.serial).map fun reason => (r, retirementOf reason)

/-- `replace_record`. -/
def replacement : MemoryWriteEvent → RetirementReason
  | .set => .replaced
  | .expire => .metadata

/-- What `insert` may do under its contract: what the provider holds afterwards, what it returns
as removed, and the admission. A candidate is stored only if it is live and the condition is met
in the same transaction. -/
def Write.accepted [DecidableEq K] (w : World) (now : Timestamp) (held : List (MemoryRecord K V))
    (candidate : MemoryRecord K V) (condition : MemoryCondition V) (event : MemoryWriteEvent) :
    Write → Option (List (MemoryRecord K V) × List (MemoryRecord K V × RetirementReason) ×
      MemoryAdmission)
  | .admitted gone =>
    let current := held.find? fun r => r.key = candidate.key
    if candidate.isLiveAt w now && condition.isMetBy current w now
        && current.all fun r => !r.isLiveAt w now && (gone r.serial).isSome then
      some (candidate :: kept gone held, lost gone held, .admitted)
    else none
  | .replaced gone =>
    match held.find? fun r => r.key = candidate.key with
    | none => none
    | some previous =>
      let others := held.filter fun r => r.serial ≠ previous.serial
      if candidate.isLiveAt w now && condition.isMetBy (some previous) w now
          && previous.isLiveAt w now then
        some (candidate :: kept gone others, (previous, replacement event) :: lost gone others,
          .replaced)
      else none
  | .rejected reason gone => some (kept gone held, lost gone held, .rejected reason)

end

/-! ## Operations of the caches -/

/-- `Supplied`, without its provider and its clock. -/
structure Cache where
  id : CacheId
  epoch : EpochId
  expiry : MemoryExpiry

/-- `get_at` or `ready_at`. -/
inductive ReadMode where
  | ordinary
  | ready
deriving DecidableEq

inductive Op (K V : Type) where
  | read (mode : ReadMode) (key : K) (now : Timestamp)
  | insert (key : K) (entry : Entry V) (now : Timestamp) (condition : MemoryCondition V)
      (event : MemoryWriteEvent)
  | remove (key : K) (expected : Option (Entry V))
  | invalidate
  | maintain

inductive Outcome (V : Type) where
  | entry (found : Option (Entry V))
  | admission (admission : MemoryAdmission)
  | finished
  | failed (error : MemoryStorageError)

inductive Pc (K V : Type) where
  | start
  -- `get_at`, `ready_at`
  | lookup
  | generation (record : MemoryRecord K V)
  | representation (record : MemoryRecord K V)
  | discard (record : MemoryRecord K V)
  | explain (record removed : MemoryRecord K V)
  -- `insert`
  | offer (candidate : MemoryRecord K V)
  -- `MemoryInvalidation`
  | clear (barrier : MemoryGeneration)
  -- The records to tell the observer of.
  | retiring (records : List (MemoryRecord K V × RetirementReason)) (outcome : Outcome V)
  | done (outcome : Outcome V)

structure Task (K V : Type) where
  cache : Cache
  op : Op K V
  pc : Pc K V

/-- What the provider answers to a call. -/
inductive Reply where
  | failed
  | found (record : Option Serial)
  | wrote (write : Write)
  | gone (gone : Gone)

structure Input where
  reply : Reply
  inst : Instance
  last : Instant

inductive Event (K V : Type) where
  | began (t : TaskId)
  | prepared (record : MemoryRecord K V)
  | advanced (epoch : EpochId) (t : TaskId)
  /-- `insert` stored the record. -/
  | placed (record : MemoryRecord K V)
  | retired (record : MemoryRecord K V) (reason : RetirementReason)

structure Shared (K V : Type) where
  world : World
  held : List (MemoryRecord K V)
  nextSerial : Serial
  history : List (Event K V)

structure State (K V : Type) where
  shared : Shared K V
  tasks : AList fun _ : TaskId => Task K V

section

variable {K V : Type} [DecidableEq K]

/-- `prepare_record`, once the epoch is known not to be exhausted. -/
def prepareRecord (cache : Cache) (sh : Shared K V) (key : K) (entry : Entry V) (now : Timestamp)
    (generation : MemoryGeneration) (input : Input) : MemoryRecord K V :=
  let prepared := entry.atInsertion now input.inst
  { serial := sh.nextSerial, key, entry := prepared, generation, owner := cache.id
    expires := match cache.expiry with
      | .clockDriven => none
      | .realTime => checkedAdd input.last sh.world.instant prepared.metadata.backendTtl }

/-- `validate_record`. -/
def validateRecord (cache : Cache) (key : K) (r : MemoryRecord K V) :
    Option MemoryRecordViolation :=
  if r.key ≠ key then some .key
  else if r.generation.epoch ≠ cache.epoch then some .namespace_
  else none

/-- `provider.remove`: the record in the slot of the key, if it is the expected one. -/
def removable (held : List (MemoryRecord K V)) (key : K) (expected : Option (Entry V))
    (serial : Serial) : Option (MemoryRecord K V) :=
  held.find? fun r => r.serial = serial && r.key = key
    && expected.all fun entry => r.entry.isSameInstance entry

def without (held : List (MemoryRecord K V)) (r : MemoryRecord K V) : List (MemoryRecord K V) :=
  held.filter fun other => other.serial ≠ r.serial

/-- One step of a read at its `key` and `now`. -/
def stepRead (cache : Cache) (mode : ReadMode) (key : K) (now : Timestamp)
    (sh : Shared K V) (input : Input) : Pc K V → Option (Pc K V × Shared K V)
  | .start =>
    match sh.world.current cache.epoch with
    | none => some (.done (.failed .generationExhausted), sh)
    | some _ => some (.lookup, sh)
  | .lookup =>
    match input.reply with
    | .failed => some (.done (.failed .provider), sh)
    | .found none => some (.done (.entry none), sh)
    | .found (some serial) =>
      match sh.held.find? fun r => r.serial = serial with
      | none => none
      | some record =>
        match validateRecord cache key record with
        | some violation => some (.done (.failed (.invalidRecord violation)), sh)
        | none => some (.generation record, sh)
    | _ => none
  -- `is_live_at` reads the epoch first, then what the entry says.
  | .generation record =>
    if record.generation.isCurrent sh.world then some (.representation record, sh)
    else
      match mode with
      | .ordinary => some (.discard record, sh)
      | .ready => some (.done (.entry none), sh)
  | .representation record =>
    if record.isReadEligible sh.world && !record.isExpired sh.world now then
      some (.done (.entry (some record.entry)), sh)
    else
      match mode with
      | .ordinary => some (.discard record, sh)
      | .ready => some (.done (.entry none), sh)
  | .discard record =>
    match input.reply with
    | .failed => some (.done (.failed .provider), sh)
    | .found none => some (.done (.entry none), sh)
    | .found (some serial) =>
      (removable sh.held key (some record.entry) serial).map fun removed =>
        (.explain record removed, { sh with held := without sh.held removed })
    | _ => none
  | .explain record removed =>
    some (.retiring [(removed, record.deadReason sh.world)] (.entry none), sh)
  | _ => none

def stepInsert (cache : Cache) (key : K) (entry : Entry V) (now : Timestamp)
    (condition : MemoryCondition V) (event : MemoryWriteEvent) (sh : Shared K V) (input : Input) :
    Pc K V → Option (Pc K V × Shared K V)
  | .start =>
    if entry.isPhysicallyExpired now then
      some (.done (.admission (.rejected .physicallyExpired)), sh)
    else
      match sh.world.current cache.epoch with
      | none => some (.done (.failed .generationExhausted), sh)
      | some generation =>
        let record := prepareRecord cache sh key entry now generation input
        some (.offer record,
          { sh with nextSerial := sh.nextSerial + 1, history := .prepared record :: sh.history })
  | .offer candidate =>
    match input.reply with
    | .failed => some (.done (.failed .provider), sh)
    | .wrote write =>
      (write.accepted sh.world now sh.held candidate condition event).map
        fun (held, removed, admission) =>
          (.retiring removed (.admission admission),
            { sh with
              held
              history :=
                if admission.stored then .placed candidate :: sh.history else sh.history })
    | _ => none
  | _ => none

def stepRemove (key : K) (expected : Option (Entry V)) (sh : Shared K V) (input : Input) :
    Pc K V → Option (Pc K V × Shared K V)
  | .start =>
    match input.reply with
    | .failed => some (.done (.failed .provider), sh)
    | .found none => some (.done (.entry none), sh)
    | .found (some serial) =>
      (removable sh.held key expected serial).map fun removed =>
        (.retiring [(removed, .explicit)] (.entry (some removed.entry)),
          { sh with held := without sh.held removed })
    | _ => none
  | _ => none

/-- `begin_invalidation`, then `finish`. The contract of `clear_before` allows only records that
the barrier selects. -/
def stepInvalidate (t : TaskId) (cache : Cache) (sh : Shared K V) (input : Input) :
    Pc K V → Option (Pc K V × Shared K V)
  | .start =>
    if sh.world.epochs cache.epoch = 0 then some (.done (.failed .generationExhausted), sh)
    else
      let advanced := sh.world.advance cache.epoch
      let sh := { sh with
        world := advanced.1
        history := .advanced cache.epoch t :: sh.history }
      match advanced.2 with
      | none => some (.done (.failed .generationExhausted), sh)
      | some barrier => some (.clear barrier, sh)
  | .clear barrier =>
    match input.reply with
    | .failed => some (.done (.failed .provider), sh)
    | .gone gone =>
      if sh.held.all fun r => (gone r.serial).isNone || barrier.precedes r then
        let removed := sh.held.filter fun r => (gone r.serial).isSome
        some (.retiring (removed.map fun r => (r, .explicit)) .finished,
          { sh with held := kept gone sh.held })
      else none
    | _ => none
  | _ => none

def stepMaintain (sh : Shared K V) (input : Input) : Pc K V → Option (Pc K V × Shared K V)
  | .start =>
    match input.reply with
    | .failed => some (.done (.failed .provider), sh)
    | .gone gone => some (.retiring (lost gone sh.held) .finished,
        { sh with held := kept gone sh.held })
    | _ => none
  | _ => none

def Task.step (t : TaskId) (sh : Shared K V) (input : Input) (task : Task K V) :
    Option (Task K V × Shared K V) :=
  match task.pc with
  | .retiring [] outcome => some ({ task with pc := .done outcome }, sh)
  | .retiring ((r, reason) :: records) outcome =>
    some ({ task with pc := .retiring records outcome },
      { sh with history := .retired r reason :: sh.history })
  | pc =>
    (match task.op with
      | .read mode key now => stepRead task.cache mode key now sh input pc
      | .insert key entry now condition event =>
        stepInsert task.cache key entry now condition event sh input pc
      | .remove key expected => stepRemove key expected sh input pc
      | .invalidate => stepInvalidate t task.cache sh input pc
      | .maintain => stepMaintain sh input pc).map
        fun (pc, sh) => ({ task with pc }, sh)

inductive Action (K V : Type) where
  | begin_ (t : TaskId) (cache : Cache) (op : Op K V)
  | step (t : TaskId) (input : Input)
  /-- An invalidation that was begun is dropped before `finish`. -/
  | abandon (t : TaskId)
  /-- Other parts move the continuity epochs, and time passes. -/
  | observe (continuity : CacheId → Nat) (instant : Instant)

def next (s : State K V) : Action K V → Option (State K V)
  | .begin_ t cache op =>
    if t ∈ s.tasks then none
    else some { s with
      shared := { s.shared with history := .began t :: s.shared.history }
      tasks := s.tasks.insert t ⟨cache, op, .start⟩ }
  | .step t input =>
    match s.tasks.lookup t with
    | none => none
    | some task => (task.step t s.shared input).map fun (task, shared) =>
        ⟨shared, s.tasks.insert t task⟩
  | .abandon t =>
    match s.tasks.lookup t with
    | some ⟨cache, op, .clear _⟩ =>
      some { s with tasks := s.tasks.insert t ⟨cache, op, .done .finished⟩ }
    | _ => none
  | .observe continuity instant =>
    some { s with shared := { s.shared with
      world := { s.shared.world with continuity, instant } } }

/-- Nothing is held. A provider makes its epochs with `MemoryStorageEpoch::new`; here they may
begin at any value. -/
def init (epochs : EpochId → Nat) : State K V where
  shared := ⟨⟨epochs, fun _ => 0, 0⟩, [], 0, []⟩
  tasks := ∅

end

end Supplied

end Amalgam
