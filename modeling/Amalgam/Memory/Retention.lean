import Amalgam.Memory.Origin

/-!
# Amalgam — bounded memory storage

`src/memory.rs`, `Retention`: the store behind `MemoryLimits`. A candidate is compared with
the expected representation, moves the active revision of its key when it is a mutation,
and is then admitted if it fits, evicting entries of no higher priority in the order of
(priority, last access, key).

What a write or a removal takes out of storage is returned as `Retirement`s for the
observer. The capture flag that tells the observer whether to keep a copy is left out.
-/

namespace Amalgam

namespace Memory

/-- A reading of the monotonic clock, in nanoseconds. -/
abbrev Instant := Nat

structure MemoryLimits where
  entries : Option Nat
  weight : Option Nat
deriving DecidableEq

def MemoryLimits.fits (limits : MemoryLimits) (entries weight : Nat) : Bool :=
  limits.entries.all (fun limit => entries ≤ limit)
    && limits.weight.all (fun limit => weight ≤ limit)

inductive MemoryExpiry where
  | clockDriven
  | realTime
deriving DecidableEq

inductive CapacityRejection where
  | oversized
  | protectedCapacity
  | physicallyExpired
  | versionChanged
  | generationExhausted
deriving DecidableEq

inductive MemoryAdmission where
  | admitted
  | replaced
  | rejected (reason : CapacityRejection)
deriving DecidableEq

/-- The candidate is in storage after the attempt. -/
def MemoryAdmission.stored : MemoryAdmission → Bool
  | .admitted | .replaced => true
  | .rejected _ => false

inductive MemoryWriteEvent where
  | set
  | expire
deriving DecidableEq

inductive RetirementReason where
  | explicit
  | replaced
  | expired
  | capacity
  | eligibility
  | continuity
  | metadata
deriving DecidableEq

structure Retirement (K V : Type) where
  key : K
  entry : Entry V
  reason : RetirementReason

structure RetentionCommit (K V : Type) where
  admission : MemoryAdmission
  retired : List (Retirement K V)

def RetentionCommit.rejected {K V : Type} (reason : CapacityRejection)
    (retired : List (Retirement K V)) : RetentionCommit K V :=
  ⟨.rejected reason, retired⟩

/-- `WriteTime`: the timestamp of a write and the instant its lifetime starts at. -/
structure WriteTime where
  now : Timestamp
  physicalStart : Instant

/-- What storage reads from outside while it holds its lock: the continuity epoch hydrated
entries are checked against, and `Instant::now()`. -/
structure World where
  epoch : Nat
  instant : Instant

inductive Expected (V : Type) where
  | any
  | absent
  | same (entry : Entry V)
  | mutation
  | mutationOf (entry : Entry V)
  | origin (snapshot : RevisionSnapshot)

namespace Expected

variable {V : Type}

def changesOrigin : Expected V → Bool
  | .mutation | .mutationOf _ | .origin _ => true
  | .any | .absent | .same _ => false

/-- `matches_generation`. -/
def matchesGeneration (cells : Cells) (current : Option (Entry V)) (generation : Nat) :
    Expected V → Bool
  | .origin snapshot => snapshot.matches cells generation
  | .any | .mutation => true
  | .absent => current.isNone
  | .same expected | .mutationOf expected =>
    current.any fun entry => entry.isSameInstance expected

end Expected

/-- `PreparedWrite`. -/
structure PreparedWrite (K V : Type) where
  key : K
  entry : Entry V
  time : WriteTime
  event : MemoryWriteEvent

/-- `prepare_write`: a candidate that was built for another instant is rebuilt for `now`. -/
def prepareWrite {K V : Type} (key : K) (entry : Entry V) (time : WriteTime)
    (event : MemoryWriteEvent) (inst : Instance) : PreparedWrite K V where
  key
  entry := entry.atInsertion time.now inst
  time
  event

/-! ## The store -/

structure Stored (V : Type) where
  entry : Entry V
  access : Nat
  monotonicExpiration : Option Instant

def Stored.retirementReason {V : Type} (world : World) (now : Option Timestamp)
    (stored : Stored V) : Option RetirementReason :=
  if !stored.entry.isReadEligible world.epoch then some .eligibility
  else if now.any (fun now => stored.entry.isPhysicallyExpired now)
      || stored.monotonicExpiration.any (fun deadline => deadline ≤ world.instant) then
    some .expired
  else none

structure Retention (K V : Type) where
  origins : Origins K
  generation : Nat
  entries : AList fun _ : K => Stored V
  weight : Nat
  nextAccess : Nat
  limits : MemoryLimits
  expiry : MemoryExpiry

/-- The outcome of a read, `MemoryRead`. -/
inductive MemoryRead (K V : Type) where
  | present (entry : Entry V)
  | absent
  | expired (retirement : Retirement K V)

/-- What a caller of a read gets. -/
def MemoryRead.entry {K V : Type} : MemoryRead K V → Option (Entry V)
  | .present entry => some entry
  | .absent | .expired _ => none

structure ProjectedCapacity where
  entries : Nat
  weight : Nat

def ProjectedCapacity.fits (p : ProjectedCapacity) (limits : MemoryLimits) : Bool :=
  limits.fits p.entries p.weight

structure EvictionCandidate (K : Type) where
  key : K
  priority : Priority
  access : Nat
  weight : Nat

def u128Max : Nat := 2 ^ 128 - 1

namespace Retention

variable {K V : Type} [LinearOrder K]

def new (limits : MemoryLimits) (expiry : MemoryExpiry) : Retention K V where
  origins := ⟨∅⟩
  generation := 1
  entries := ∅
  weight := 0
  nextAccess := 0
  limits
  expiry

/-- `ticket`: the next access number. -/
def ticket (r : Retention K V) : Nat × Retention K V :=
  let access := min (r.nextAccess + 1) u128Max
  (access, { r with nextAccess := access })

def remove (r : Retention K V) (key : K) : Option (Stored V) × Retention K V :=
  match r.entries.lookup key with
  | none => (none, r)
  | some stored =>
    (some stored,
      { r with
        entries := r.entries.erase key
        weight := r.weight - stored.entry.metadata.weight })

def get (r : Retention K V) (world : World) (key : K) (now : Option Timestamp) :
    MemoryRead K V × Retention K V :=
  let retire := (r.entries.lookup key).bind fun stored =>
    (stored.retirementReason world now).map fun reason => (stored, reason)
  match retire with
  | some (stored, reason) => (.expired ⟨key, stored.entry, reason⟩, (r.remove key).2)
  | none =>
    let (access, r) := r.ticket
    match r.entries.lookup key with
    | none => (.absent, r)
    | some stored =>
      (.present stored.entry, { r with entries := r.entries.insert key { stored with access } })

/-- `remove_expired`: in the source a loop over the keys of the retired entries. -/
def removeExpired (r : Retention K V) (world : World) (now : Option Timestamp) :
    List (Retirement K V) × Retention K V :=
  let retired := r.entries.entries.filterMap fun ⟨key, stored⟩ =>
    (stored.retirementReason world now).map fun reason => Retirement.mk key stored.entry reason
  (retired, retired.foldl (fun r retirement => (r.remove retirement.key).2) r)

def projection (r : Retention K V) (key : K) (weight : Nat) : ProjectedCapacity :=
  let current := r.entries.lookup key
  { entries := r.entries.size + (if current.isNone then 1 else 0)
    weight := r.weight - current.elim 0 (·.entry.metadata.weight) + weight }

def expireUnderPressure (r : Retention K V) (world : World) (key : K) (weight : Nat)
    (now : Timestamp) : List (Retirement K V) × Retention K V :=
  if (r.projection key weight).fits r.limits then ([], r) else r.removeExpired world (some now)

/-- The order of `sort_unstable_by` on (eviction rank, access, key); keys are distinct. -/
def precedes (a b : EvictionCandidate K) : Bool :=
  if a.priority.evictionRank ≠ b.priority.evictionRank then
    a.priority.evictionRank < b.priority.evictionRank
  else if a.access ≠ b.access then a.access < b.access
  else a.key ≤ b.key

def eligibleVictims (r : Retention K V) (key : K) (priority : Priority) :
    List (EvictionCandidate K) :=
  let candidates := r.entries.entries.filterMap fun ⟨existing, stored⟩ =>
    let candidate : EvictionCandidate K :=
      ⟨existing, stored.entry.metadata.priority, stored.access, stored.entry.metadata.weight⟩
    if existing ≠ key ∧ candidate.priority ≠ .neverRemove ∧
        candidate.priority.evictionRank ≤ priority.evictionRank then
      some candidate
    else none
  candidates.mergeSort precedes

/-- The loop of `plan`: victims are taken until the projection fits. -/
def takeVictims (limits : MemoryLimits) :
    ProjectedCapacity → List (EvictionCandidate K) → Option (List K)
  | _, [] => none
  | projected, victim :: rest =>
    let projected := ⟨projected.entries - 1, projected.weight - victim.weight⟩
    if projected.fits limits then some [victim.key]
    else (takeVictims limits projected rest).map (victim.key :: ·)

/-- `plan`; `none` is `Err(ProtectedCapacity)`. -/
def plan (r : Retention K V) (key : K) (weight : Nat) (priority : Priority) : Option (List K) :=
  let projected := r.projection key weight
  if projected.fits r.limits then some []
  else takeVictims r.limits projected (r.eligibleVictims key priority)

def store (r : Retention K V) (world : World) (key : K) (entry : Entry V) : Retention K V :=
  let (access, r) := r.ticket
  let monotonicExpiration := match r.expiry with
    | .clockDriven => none
    | .realTime => some (world.instant + entry.metadata.backendTtl.asNanos)
  { r with
    entries := r.entries.insert key ⟨entry, access, monotonicExpiration⟩
    weight := r.weight + entry.metadata.weight }

/-- The eviction loop of `commit`. -/
def evict (r : Retention K V) : List K → List (Retirement K V) × Retention K V
  | [] => ([], r)
  | victim :: rest =>
    let (stored, r) := r.remove victim
    let (retired, r) := r.evict rest
    (stored.toList.map (fun stored => ⟨victim, stored.entry, .capacity⟩) ++ retired, r)

def commit (r : Retention K V) (world : World) (write : PreparedWrite K V) (victims : List K)
    (retired : List (Retirement K V)) : RetentionCommit K V × Retention K V :=
  let (evicted, r) := r.evict victims
  let (replaced, r) := r.remove write.key
  let reason := match write.event with
    | .set => .replaced
    | .expire => .metadata
  let retired := retired ++ evicted
    ++ replaced.toList.map fun stored => ⟨write.key, stored.entry, reason⟩
  let admission := if replaced.isSome then .replaced else .admitted
  (⟨admission, retired⟩, r.store world write.key write.entry)

/-- `Retention::insert`, together with the revision counters it may advance. -/
def insert (r : Retention K V) (owners : List RevisionId) (cells : Cells) (world : World)
    (write : PreparedWrite K V) (expected : Expected V) :
    RetentionCommit K V × Retention K V × Cells :=
  let current := (r.entries.lookup write.key).map (·.entry)
  if !expected.matchesGeneration cells current r.generation then
    (.rejected .versionChanged [], r, cells)
  else
    let cells :=
      if expected.changesOrigin then r.origins.advance owners cells write.key else cells
    let weight := write.entry.metadata.weight
    if !r.limits.fits 1 weight then (.rejected .oversized [], r, cells)
    else
      let (retired, r) := r.expireUnderPressure world write.key weight write.time.now
      match r.plan write.key weight write.entry.metadata.priority with
      | none => (.rejected .protectedCapacity retired, r, cells)
      | some victims =>
        let (commit, r) := r.commit world write victims retired
        (commit, r, cells)

/-- The `Retained` arm of `invalidate_all`. -/
def invalidateAll (r : Retention K V) : List (Retirement K V) × Retention K V :=
  (r.entries.entries.map fun ⟨key, stored⟩ => ⟨key, stored.entry, .explicit⟩,
    { r with generation := saturatingSucc r.generation, entries := ∅, weight := 0 })

end Retention

end Memory

end Amalgam
