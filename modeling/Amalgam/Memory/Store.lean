import Amalgam.Lib.Run
import Amalgam.Memory.Sharded

/-!
# Amalgam — the memory store and its origins

`src/memory.rs`, `MemoryStore` over either backend, together with the handles its callers
keep: the live origins of running factories and the flights that lend their revision
counter. Every operation takes its backend lock once, so a schedule of operations is an
interleaving of the callers.

`perform` answers `none` only for an operation the types exclude: using an origin that was
dropped, or lending the counter of a flight that no longer exists.
-/

namespace Amalgam

namespace Memory

inductive Backend (K V : Type) where
  | unbounded (store : Sharded K V)
  | retained (store : Retention K V)

namespace Backend

variable {K V : Type}

def origins : Backend K V → Origins K
  | .unbounded store => store.origins
  | .retained store => store.origins

def generation : Backend K V → Nat
  | .unbounded store => store.generation
  | .retained store => store.generation

def withOrigins (origins : Origins K) : Backend K V → Backend K V
  | .unbounded store => .unbounded { store with origins }
  | .retained store => .retained { store with origins }

@[simp] theorem withOrigins_origins (o : Origins K) (b : Backend K V) :
    (b.withOrigins o).origins = o := by
  cases b <;> rfl

@[simp] theorem withOrigins_generation (o : Origins K) (b : Backend K V) :
    (b.withOrigins o).generation = b.generation := by
  cases b <;> rfl

variable [LinearOrder K]

/-- `MemoryStore::create`: no limits select the unbounded store. -/
def create (limits : MemoryLimits) (expiry : MemoryExpiry) (timing : Timing)
    (route : K → Fin 64) : Backend K V :=
  if limits = ⟨none, none⟩ then .unbounded (.forTiming expiry timing route)
  else .retained (.new limits expiry)

/-- The backend call of `apply_write`. -/
def insertPrepared (b : Backend K V) (owners : List RevisionId) (cells : Cells) (world : World)
    (write : PreparedWrite K V) (expected : Expected V) :
    RetentionCommit K V × Backend K V × Cells :=
  match b with
  | .unbounded store =>
    let (commit, store, cells) := store.insertPrepared owners cells write expected
    (commit, .unbounded store, cells)
  | .retained store =>
    let (commit, store, cells) := store.insert owners cells world write expected
    (commit, .retained store, cells)

/-- `matches!(expected, Expected::Mutation)`. -/
def isMutation : Expected V → Bool
  | .mutation => true
  | _ => false

/-- `apply_write`. -/
def applyWrite (b : Backend K V) (owners : List RevisionId) (cells : Cells) (world : World)
    (write : PreparedWrite K V) (expected : Expected V) :
    RetentionCommit K V × Backend K V × Cells :=
  if !write.time.now.isBefore write.entry.metadata.physicalExpiration then
    -- A rejected old factory must not invalidate a newer origin.
    let cells := if isMutation expected then b.origins.advance owners cells write.key else cells
    (.rejected .physicallyExpired [], b, cells)
  else b.insertPrepared owners cells world write expected

/-- `insert_value_borrowed`, which repeats `apply_write` for a borrowed key. -/
def insertValueBorrowed (b : Backend K V) (owners : List RevisionId) (cells : Cells)
    (world : World) (write : PreparedWrite K V) : RetentionCommit K V × Backend K V × Cells :=
  if !write.time.now.isBefore write.entry.metadata.physicalExpiration then
    (.rejected .physicallyExpired [], b, b.origins.advance owners cells write.key)
  else b.insertPrepared owners cells world write .mutation

/-- `insert_plain_borrowed`. -/
def insertPlainBorrowed (b : Backend K V) (owners : List RevisionId) (cells : Cells)
    (world : World) (key : K) (value : V) (metadata : Sharded.PlainMetadata) (time : WriteTime)
    (inst : Instance) : RetentionCommit K V × Backend K V × Cells :=
  match b with
  | .retained _ =>
    let entry := Entry.intoFresh value metadata.created metadata.expires inst
    b.insertValueBorrowed owners cells world ⟨key, entry, time, .set⟩
  | .unbounded store =>
    if !time.now.isBefore metadata.expires then
      (.rejected .physicallyExpired [], b, b.origins.advance owners cells key)
    else
      let (commit, store, cells) := store.insertPlain owners cells key value metadata time inst
      (commit, .unbounded store, cells)

/-- `removed`: takes out the selected representation, or whatever is there. -/
def removed (b : Backend K V) (key : K) (expected : Option (Entry V)) :
    Option (Entry V) × Backend K V :=
  match b with
  | .unbounded store =>
    let (stored, store) := store.removeSame key expected
    (stored.map (·.entry), .unbounded store)
  | .retained store =>
    if expected.any fun expected =>
        !(store.entries.lookup key).any fun stored => stored.entry.isSameInstance expected then
      (none, b)
    else
      let (stored, store) := store.remove key
      (stored.map (·.entry), .retained store)

/-- `read`. -/
def read (b : Backend K V) (world : World) (key : K) (now : Option Timestamp) :
    Option (Entry V) × Backend K V :=
  match b with
  | .unbounded store =>
    let (result, store) := store.get world key now
    (result.entry, .unbounded store)
  | .retained store =>
    let (result, store) := store.get world key now
    (result.entry, .retained store)

/-- One step of the maintenance: a shard, or the whole of a bounded store. -/
def maintain (b : Backend K V) (world : World) (shard : Fin 64) (now : Option Timestamp) :
    Backend K V :=
  match b with
  | .unbounded store => .unbounded (store.expire world shard now).2
  | .retained store => .retained (store.removeExpired world now).2

/-- `invalidate_all`. -/
def invalidateAll : Backend K V → Backend K V
  | .unbounded store => .unbounded store.beginClear
  | .retained store => .retained store.invalidateAll.2

end Backend

/-! ## The store with its callers -/

abbrev OriginId := Nat

structure State (K V : Type) where
  backend : Backend K V
  cells : Cells
  nextRevision : RevisionId
  /-- Revision counters owned by flights. -/
  flights : List RevisionId
  /-- The origins held by running factories. -/
  live : AList fun _ : OriginId => MemoryOrigin K
  nextOrigin : OriginId
  world : World

namespace State

variable {K V : Type}

/-- Whoever keeps a revision counter allocated. -/
def owners (s : State K V) : List RevisionId :=
  s.flights ++ s.live.values.map (·.snapshot.revision)

def generation (s : State K V) : Nat := s.backend.generation

def origins (s : State K V) : Origins K := s.backend.origins

end State

variable {K V : Type} [LinearOrder K]

def init (backend : Backend K V) (world : World) : State K V where
  backend
  cells := fun _ => 0
  nextRevision := 0
  flights := []
  live := ∅
  nextOrigin := 0
  world

inductive Op (K V : Type) where
  /-- `capture_origin_from`, `capture_borrowed_origin_from`; `capture_origin` provides none. -/
  | captureOrigin (key : K) (provided : Option RevisionId)
  | dropOrigin (origin : OriginId)
  | applyOrigin (write : PreparedWrite K V) (origin : OriginId)
  | skipOrigin (key : K) (origin : OriginId)
  | applyInsert (write : PreparedWrite K V)
  | insertValueBorrowed (write : PreparedWrite K V)
  | insertPlainBorrowed (key : K) (value : V) (metadata : Sharded.PlainMetadata)
      (time : WriteTime) (inst : Instance)
  | applyExpire (write : PreparedWrite K V) (expected : Entry V)
  | detachRemove (key : K)
  | invalidateOrigin (key : K)
  | invalidateAll
  /-- `insert_at`. -/
  | insertAt (write : PreparedWrite K V)
  /-- `insert_if_unchanged` and `expire_if_unchanged`. -/
  | insertIfUnchanged (write : PreparedWrite K V) (expected : Option (Entry V))
  | remove (key : K) (expected : Option (Entry V))
  | get (key : K) (now : Option Timestamp)
  | maintain (shard : Fin 64) (now : Option Timestamp)
  | newFlight
  | dropFlight (revision : RevisionId)
  /-- Time passes and the continuity epoch moves, outside of the store. -/
  | observe (world : World)

inductive Output (K V : Type) where
  | origin (id : OriginId)
  /-- `RecoveryError::GenerationExhausted`. -/
  | exhausted
  | admission (admission : MemoryAdmission)
  | skipped (current : Bool)
  | entry (entry : Option (Entry V))
  | done

/-- `capture_revision` and the construction of the origin. -/
def captureRevision (s : State K V) (key : K) (provided : Option RevisionId) :
    Output K V × State K V :=
  if s.generation = u64Max then (.exhausted, s)
  else
    match s.origins.captureFrom s.owners s.cells s.nextRevision key provided with
    | none => (.exhausted, s)
    | some (origins, cells, revision, captured) =>
      (.origin s.nextOrigin,
        { s with
          backend := s.backend.withOrigins origins
          cells
          nextRevision := s.nextRevision + 1
          live := s.live.insert s.nextOrigin ⟨key, revision, captured, s.generation⟩
          nextOrigin := s.nextOrigin + 1 })

/-- The storage effect of a write and what its caller is told. -/
def committed (s : State K V) (result : RetentionCommit K V × Backend K V × Cells) :
    Output K V × State K V :=
  (.admission result.1.admission, { s with backend := result.2.1, cells := result.2.2 })

def applyWrite (s : State K V) (write : PreparedWrite K V) (expected : Expected V) :
    Output K V × State K V :=
  committed s (s.backend.applyWrite s.owners s.cells s.world write expected)

def advanceOrigin (s : State K V) (key : K) : State K V :=
  { s with cells := s.origins.advance s.owners s.cells key }

/-- `skip_revision`. -/
def skipRevision (s : State K V) (key : K) (snapshot : RevisionSnapshot) :
    Output K V × State K V :=
  if snapshot.matches s.cells s.generation then (.skipped true, advanceOrigin s key)
  else (.skipped false, s)

def perform (s : State K V) : Op K V → Option (Output K V × State K V)
  | .captureOrigin key provided =>
    if provided.all fun r => r ∈ s.flights then some (captureRevision s key provided) else none
  | .dropOrigin id =>
    (s.live.lookup id).map fun origin =>
      (.done,
        { s with
          backend := s.backend.withOrigins (s.origins.forget origin.key origin.snapshot.revision)
          live := s.live.erase id })
  | .applyOrigin write id =>
    (s.live.lookup id).map fun origin => applyWrite s write (.origin origin.snapshot)
  | .skipOrigin key id =>
    (s.live.lookup id).map fun origin => skipRevision s key origin.snapshot
  | .applyInsert write => some (applyWrite s write .mutation)
  | .insertValueBorrowed write =>
    some (committed s (s.backend.insertValueBorrowed s.owners s.cells s.world write))
  | .insertPlainBorrowed key value metadata time inst =>
    some (committed s
      (s.backend.insertPlainBorrowed s.owners s.cells s.world key value metadata time inst))
  | .applyExpire write expected => some (applyWrite s write (.mutationOf expected))
  | .detachRemove key =>
    let (removed, backend) := s.backend.removed key none
    some (.entry removed, { advanceOrigin s key with backend })
  | .invalidateOrigin key => some (.done, advanceOrigin s key)
  | .invalidateAll => some (.done, { s with backend := s.backend.invalidateAll })
  | .insertAt write => some (applyWrite s write .any)
  | .insertIfUnchanged write expected =>
    some (applyWrite s write (expected.elim .absent .same))
  | .remove key expected =>
    let (removed, backend) := s.backend.removed key expected
    some (.entry removed, { s with backend })
  | .get key now =>
    let (entry, backend) := s.backend.read s.world key now
    some (.entry entry, { s with backend })
  | .maintain shard now =>
    some (.done, { s with backend := s.backend.maintain s.world shard now })
  | .newFlight =>
    some (.done,
      { s with
        cells := Function.update s.cells s.nextRevision 1
        nextRevision := s.nextRevision + 1
        flights := s.nextRevision :: s.flights })
  | .dropFlight r =>
    if r ∈ s.flights then some (.done, { s with flights := s.flights.erase r }) else none
  | .observe world => some (.done, { s with world })

def next (s : State K V) (op : Op K V) : Option (State K V) := (perform s op).map Prod.snd

def output (s : State K V) (op : Op K V) : Option (Output K V) := (perform s op).map Prod.fst

end Memory

end Amalgam
