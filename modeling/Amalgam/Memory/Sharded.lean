import Amalgam.Memory.Retention

/-!
# Amalgam — unbounded memory storage

`src/memory/sharded.rs` and `src/memory/sharded/plain.rs`. Entries carry the clear
generation they were stored under; a clear only raises the generation, and an entry of
another generation is absent for admission until a read or the maintenance extracts it.

A key is routed to one of 64 independently locked shards by its hash. Every operation on a
key works inside its shard, so the shards are one map here, with `route` kept for the
maintenance, which works on one shard at a time.
-/

namespace Amalgam

namespace Memory

/-- `LocalClock`: a wall-clock reading and the instant it was taken at. -/
structure LocalClock where
  epoch : Timestamp
  origin : Instant

/-- `LocalClock::deadline`; instants are unbounded here, so nothing is `BeyondRange`. -/
def LocalClock.deadline (clock : LocalClock) (at_ : Timestamp) : Instant :=
  clock.origin + (at_.saturatingDurationSince clock.epoch).asNanos

inductive Timing where
  | interoperable
  | ofLocal (clock : LocalClock)

inductive Deadlines where
  | interoperable (physical : Option Instant)
  | ofLocal (logical physical : Instant)

/-- `Timing::prepare_boundaries`. -/
def Timing.prepareBoundaries (timing : Timing) (logical physical : Timestamp) (time : WriteTime)
    (expiry : MemoryExpiry) : Deadlines :=
  match timing with
  | .interoperable =>
    .interoperable (match expiry with
      | .clockDriven => none
      | .realTime =>
        some (time.physicalStart + (physical.saturatingDurationSince time.now).asNanos))
  | .ofLocal clock => .ofLocal (clock.deadline logical) (clock.deadline physical)

/-- `Deadlines::physically_expired`. -/
def Deadlines.physicallyExpired (deadlines : Deadlines) (metadata : Metadata)
    (now : Option Timestamp) (elapsed : Instant) : Bool :=
  match deadlines with
  | .interoperable physical =>
    now.any (fun now => metadata.physicalExpiration ≤ now)
      || physical.any (fun deadline => deadline ≤ elapsed)
  | .ofLocal _ physical => physical ≤ elapsed

namespace Sharded

structure Stored (V : Type) where
  entry : Entry V
  generation : Nat
  deadlines : Deadlines

def Stored.retirementReason {V : Type} (world : World) (now : Option Timestamp)
    (generation : Nat) (stored : Stored V) : Option RetirementReason :=
  if stored.generation ≠ generation then some .continuity
  else if !stored.entry.isReadEligible world.epoch then some .eligibility
  else if stored.deadlines.physicallyExpired stored.entry.metadata now world.instant then
    some .expired
  else none

end Sharded

structure Sharded (K V : Type) where
  origins : Origins K
  generation : Nat
  entries : AList fun _ : K => Sharded.Stored V
  weight : Nat
  expiry : MemoryExpiry
  timing : Timing
  route : K → Fin 64

/-- The shard that every key may be routed to. -/
def firstShard : Fin 64 := 0

namespace Sharded

variable {K V : Type} [LinearOrder K]

def forTiming (expiry : MemoryExpiry) (timing : Timing) (route : K → Fin 64) : Sharded K V where
  origins := ⟨∅⟩
  generation := 1
  entries := ∅
  weight := 0
  expiry
  timing
  route

/-- `remove_same`: removes the selected representation, or whatever is there. -/
def removeSame (s : Sharded K V) (key : K) (expected : Option (Entry V)) :
    Option (Stored V) × Sharded K V :=
  match s.entries.lookup key with
  | none => (none, s)
  | some stored =>
    if expected.all fun entry => stored.entry.isSameInstance entry then
      (some stored,
        { s with
          entries := s.entries.erase key
          weight := s.weight - stored.entry.metadata.weight })
    else (none, s)

/-- `get`. The removal of a retired entry is conditional on the representation judged. -/
def get (s : Sharded K V) (world : World) (key : K) (now : Option Timestamp) :
    MemoryRead K V × Sharded K V :=
  match s.entries.lookup key with
  | none => (.absent, s)
  | some stored =>
    match stored.retirementReason world now s.generation with
    | none => (.present stored.entry, s)
    | some reason =>
      (.expired ⟨key, stored.entry, reason⟩, (s.removeSame key (some stored.entry)).2)

/-- `insert_prepared`, together with the revision counters it may advance. -/
def insertPrepared (s : Sharded K V) (owners : List RevisionId) (cells : Cells)
    (write : PreparedWrite K V) (expected : Expected V) :
    RetentionCommit K V × Sharded K V × Cells :=
  let deadlines := s.timing.prepareBoundaries write.entry.metadata.logicalExpiration
    write.entry.metadata.physicalExpiration write.time s.expiry
  if s.generation = u64Max then (.rejected .generationExhausted [], s, cells)
  else
    let current := s.entries.lookup write.key
    let visible := current.filter fun stored => stored.generation = s.generation
    if !expected.matchesGeneration cells (visible.map (·.entry)) s.generation then
      (.rejected .versionChanged [], s, cells)
    else
      let oldWeight := current.elim 0 (·.entry.metadata.weight)
      let cells :=
        if expected.changesOrigin then s.origins.advance owners cells write.key else cells
      let reason := match write.event with
        | .set => if visible.isSome then .replaced else .continuity
        | .expire => .metadata
      let retired := current.toList.map fun stored => ⟨write.key, stored.entry, reason⟩
      let admission := if visible.isSome then .replaced else .admitted
      (⟨admission, retired⟩,
        { s with
          entries := s.entries.insert write.key ⟨write.entry, s.generation, deadlines⟩
          weight := s.weight - oldWeight + write.entry.metadata.weight },
        cells)

/-- `PlainMetadata`: both boundaries of a default lifetime are `expires`. -/
structure PlainMetadata where
  created : Timestamp
  expires : Timestamp

/-- `insert_plain`. A plain entry has no size, so its weight is one. -/
def insertPlain (s : Sharded K V) (owners : List RevisionId) (cells : Cells) (key : K)
    (value : V) (metadata : PlainMetadata) (time : WriteTime) (inst : Instance) :
    RetentionCommit K V × Sharded K V × Cells :=
  let deadlines := s.timing.prepareBoundaries metadata.expires metadata.expires time s.expiry
  if s.generation = u64Max then (.rejected .generationExhausted [], s, cells)
  else
    let cells := s.origins.advance owners cells key
    let entry := Entry.intoFresh value metadata.created metadata.expires inst
    let previous := s.entries.lookup key
    let replacing := previous.any fun stored => stored.generation = s.generation
    let reason : RetirementReason := if replacing then .replaced else .continuity
    let retired := previous.toList.map fun stored => ⟨key, stored.entry, reason⟩
    let oldWeight := previous.elim 0 (·.entry.metadata.weight)
    (⟨if replacing then .replaced else .admitted, retired⟩,
      { s with
        entries := s.entries.insert key ⟨entry, s.generation, deadlines⟩
        weight := s.weight - oldWeight + 1 },
      cells)

/-- `begin_clear`. -/
def beginClear (s : Sharded K V) : Sharded K V :=
  { s with generation := saturatingSucc s.generation }

/-- `expire` on one shard. -/
def expire (s : Sharded K V) (world : World) (shard : Fin 64) (now : Option Timestamp) :
    List (Retirement K V) × Sharded K V :=
  let dead := s.entries.entries.filterMap fun ⟨key, stored⟩ =>
    if s.route key = shard then
      (stored.retirementReason world now s.generation).map fun reason =>
        Retirement.mk key stored.entry reason
    else none
  (dead, dead.foldl (fun s retirement => (s.removeSame retirement.key none).2) s)

end Sharded

end Memory

end Amalgam
