import Amalgam.Lib.Run
import Amalgam.Memory.Store
import Amalgam.Recovery.Queue

/-!
# Amalgam — mutations, hydrations and replays of a hybrid cache

`src/cache/write.rs`, `read.rs`, `runtime.rs` and `recovery.rs` over L1, L2, the backplane and
the recovery queue. A task is one call of `write_entry` or `key_mutation`, one received data
message with the passive refresh it may start, one L2 read with its hydration, or one replay
of a claimed ticket. Every access of a task to shared state is a step of its own, and between
two steps anything else can happen; a task can also be dropped between any two of its steps.

What a step learns from outside comes with it: the clock, the reply of a provider, the
verdict on tags. A provider call that fails may have taken effect.

Two records are not part of the program: the `history` of the run and the marks of fences.
No step reads them.
-/

namespace Amalgam

namespace Hybrid

open Commit Recovery

structure Config (M R : Type) where
  recovery : Recovery.Config
  markerWork : MarkerWork M R
  /-- `CoordinationPlan::Reuse`. -/
  reuse : Bool
  /-- A backplane is configured. -/
  backplane : Bool

/-- The options of a write that its stages read. Where an option moves stages to the
background, the same stages run in the same order. -/
structure WriteOptions where
  skipMemoryWrite : Bool
  skipDistributedWrite : Bool
  skipBackplaneNotifications : Bool
  rethrowDistributed : Bool
  rethrowBackplane : Bool

inductive SkipReason where
  | policy
  | physicallyExpired
  | superseded
deriving DecidableEq

inductive EffectOutcome where
  | notConfigured
  | skipped (reason : SkipReason)
  | applied
  | recoveryQueued
  | failedSuppressed
deriving DecidableEq

inductive LocalEffect where
  | stored (admission : Memory.MemoryAdmission)
  | removed
  | expired
  | skipped
deriving DecidableEq

structure CommitReport where
  localEffect : LocalEffect
  distributed : EffectOutcome
  backplane : EffectOutcome
deriving DecidableEq

inductive PreparedData (V : Type) where
  | skipped
  | failed
  | coldExpire (logicalExpiration : Timestamp)
  | ready (data : DataMutation V)

/-- `LocalCommit`: L1 is done, or waits for the fenced write. -/
inductive LocalCommit (V : Type) where
  | applied (effect : LocalEffect)
  | store (entry : Entry V)

/-- What a mutation does, once it is prepared. -/
inductive Write (V : Type) where
  | store (entry : Entry V) (data : PreparedData V)
  | remove
  | expire (retainStale : Bool)

/-! ## Tasks -/

/-- After the admission to the lane: the local effect and the stages of `commit_data`. -/
inductive CommitPc (K V : Type) where
  | localEffect (write : Write V) (now : Timestamp)
  | expireLocal (retainStale : Bool) (now : Timestamp) (observed : Entry V)
  | prepare (retainStale : Bool) (now : Timestamp) (effect : LocalEffect)
  | write (data : PreparedData V) (commit : LocalCommit V)
  | enqueue (pending : PendingMutation K V) (commit : LocalCommit V)
  /-- `commit_local` of a commit whose storage stage failed. -/
  | storeFailed (commit : LocalCommit V) (distributed : EffectOutcome)
  | store (commit : LocalCommit V) (distributed : EffectOutcome)
  | supersede (effect : LocalEffect) (distributed : EffectOutcome)
  | publish (effect : LocalEffect) (distributed : EffectOutcome)
  | enqueueNotify (command : Message K) (effect : LocalEffect) (distributed : EffectOutcome)

inductive MutationPc (K V : Type) where
  -- `capture_origin`, for the product of a factory
  | capture
  | captureEpoch (snapshot : Snapshot)
  | running
  -- `write_entry` and `key_mutation`
  | getLane (write : Write V)
  | lock (write : Write V) (lane : LaneId)
  | check (write : Write V) (lane : LaneId)
  | admission (write : Write V) (lane : LaneId)
  | admitted (fence : Fence) (command : Option (Message K)) (pc : CommitPc K V)
  | release (lane : LaneId) (result : Option CommitReport)
  /-- Returned; `none` is an error, or the caller dropped it. -/
  | done (result : Option CommitReport)

structure Mutation (K V : Type) where
  key : K
  opts : WriteOptions
  /-- `flight.lease.is_fenced()`. -/
  fenced : Bool
  /-- `started_at` of a product. -/
  origin : Option Fence
  pc : MutationPc K V

/-- `found` is what the passive refresh read from L2; an error counts as nothing. -/
inductive IncomingPc (V : Type) where
  | getLane
  | lock (lane : LaneId)
  | checkLane (lane : LaneId)
  | read (lane : LaneId)
  | admission (lane : LaneId) (existing : Option (Entry V))
  | loadEpoch (snapshot : Snapshot) (existing : Option (Entry V))
  | cancel (fence : Fence) (existing : Option (Entry V))
  | apply (fence : Fence) (existing : Option (Entry V))
  | release (lane : LaneId)
  -- `passive`
  | passiveRead (fence : Fence) (expected : Entry V)
  | passiveLock (fence : Fence) (expected : Entry V) (found : Option (Entry V))
  | passiveCheck (fence : Fence) (expected : Entry V) (found : Option (Entry V))
  | passiveRecheck (fence : Fence) (expected copy : Entry V)
  | passiveInsert (fence : Fence) (expected copy : Entry V)
  | passiveRemove (fence : Fence) (expected : Entry V)
  | done

structure Incoming (K V : Type) where
  message : Message K
  pc : IncomingPc V

inductive HydrationPc (V : Type) where
  -- `hydration_fence`
  | getLane
  | fence (lane : LaneId)
  | observe (fence : Fence)
  -- `fetch_l2`
  | fetch (fence : Fence) (observed : Option (Entry V))
  -- `hydrate`
  | tryLock (fence : Fence) (observed : Option (Entry V)) (source : Entry V)
  | check (fence : Fence) (observed : Option (Entry V)) (source : Entry V)
  | recheck (fence : Fence) (observed : Option (Entry V)) (copy : Entry V)
  | insert (fence : Fence) (observed : Option (Entry V)) (copy : Entry V)
  | release (lane : LaneId)
  | done

structure Hydration (K V : Type) where
  key : K
  pc : HydrationPc V

inductive ReplayOutcome where
  | applied
  | superseded
  | expired
  | paused
  /-- `Err`. -/
  | failed
deriving DecidableEq

inductive ReplayPc (K V : Type) where
  -- `drain_once`, then `replay_owned`
  | claimed
  | getLane
  | lock (lane : LaneId)
  | check (lane : LaneId)
  | reconcile (lane : LaneId)
  | recheck (lane : LaneId)
  | write (lane : LaneId)
  | store (lane : LaneId) (data : DataMutation V) (notification : Option (Message K))
  | stage (lane : LaneId) (notification : Option (Message K))
  | confirm (lane : LaneId) (notification : Option (Message K))
  | publish (lane : LaneId) (command : Message K)
  | release (lane : LaneId) (outcome : ReplayOutcome)
  | settle (outcome : ReplayOutcome)
  | done

structure Replay (K V M : Type) where
  /-- The copy that `claim` returned. -/
  ticket : ReplayTicket K V M
  item : RecoveryItem K
  mutation : PendingMutation K V
  isData : ticket.work = .data item mutation
  pc : ReplayPc K V

inductive Task (K V M : Type) where
  | mutation (m : Mutation K V)
  | incoming (i : Incoming K V)
  | hydration (h : Hydration K V)
  | replay (r : Replay K V M)

/-! ## Shared state -/

/-- What the properties of whole runs speak about. -/
inductive Event (K : Type) where
  /-- The lane of the key was advanced for the task. -/
  | admitted (key : K) (task : TaskId)
  /-- The continuity epoch was advanced. -/
  | epoch
  /-- The origin of a product, or for the second time the fence of a hydration, was found
  current. -/
  | passed (task : TaskId)
  /-- A replay of the ticket wrote to L2. -/
  | replayed (key : K) (id : RecoveryId) (fence : Option Fence)
  /-- The queued ticket has only its notification left. -/
  | notified (key : K) (id : RecoveryId)
deriving DecidableEq

structure Shared (K V M R : Type) where
  lanes : Lanes K
  /-- L1; its world carries the continuity epoch. -/
  memory : Memory.State K V
  /-- L2. -/
  distributed : AList fun _ : K => Entry V
  queue : Queue K V M R
  published : List (Message K)
  history : List (Event K)

/-- The answer of a provider, or what a task was given from outside. -/
inductive Reply (V : Type) where
  | ok
  | failed (landed : Bool)
  /-- A frame could not be decoded or encoded. -/
  | malformed
  /-- The lease is lost, replay is paused, a lock is taken, a tag invalidates the frame. -/
  | refused
  /-- The factory returned and its product was encoded. -/
  | produced (entry : Entry V) (data : PreparedData V)
  /-- The verdict on the tags and the metadata `prepare_memory_hydration` gives. -/
  | judged (verdict : TagVerdict) (prepared : Option Metadata)

structure Input (K V R : Type) where
  now : Timestamp
  inst : Instance
  /-- Iteration order of the recovery map. -/
  order : List (RecoveryKey K R)
  reply : Reply V

section

variable {K V M R : Type} [LinearOrder K] [DecidableEq R]

namespace Shared

def epoch (sh : Shared K V M R) : Nat := sh.memory.world.epoch

def record (sh : Shared K V M R) (e : Event K) : Shared K V M R :=
  { sh with history := e :: sh.history }

/-- `get_at`. -/
def readMemory (sh : Shared K V M R) (key : K) (now : Timestamp) :
    Option (Entry V) × Shared K V M R :=
  let read := sh.memory.backend.read sh.memory.world key (some now)
  (read.1, { sh with memory := { sh.memory with backend := read.2 } })

/-- A write of L1. -/
def writeMemory (sh : Shared K V M R) (write : Memory.PreparedWrite K V)
    (expected : Memory.Expected V) : Memory.MemoryAdmission × Shared K V M R :=
  let commit := sh.memory.backend.applyWrite sh.memory.owners sh.memory.cells sh.memory.world
    write expected
  (commit.1.admission, { sh with memory := (Memory.committed sh.memory commit).2 })

/-- `remove` and `remove_if_same`. -/
def removeMemory (sh : Shared K V M R) (key : K) (expected : Option (Entry V)) :
    Shared K V M R :=
  { sh with memory := { sh.memory with backend := (sh.memory.backend.removed key expected).2 } }

def prepareWrite (sh : Shared K V M R) (key : K) (entry : Entry V) (input : Input K V R)
    (event : Memory.MemoryWriteEvent) : Memory.PreparedWrite K V :=
  Memory.prepareWrite key entry ⟨input.now, sh.memory.world.instant⟩ event input.inst

/-- The effect of a mutation on L2. -/
def applyData (sh : Shared K V M R) (key : K) (data : DataMutation V) : Shared K V M R :=
  match data with
  | .set frame | .expire frame => { sh with distributed := sh.distributed.insert key frame }
  | .remove => { sh with distributed := sh.distributed.erase key }

/-- `enqueue_versioned` of a data mutation. -/
def enqueue (cfg : Config M R) (sh : Shared K V M R) (input : Input K V R)
    (item : RecoveryItem K) (pending : PendingMutation K V) (fence : Fence) :
    EnqueueOutcome × Shared K V M R :=
  let result := sh.queue.enqueueWork cfg.recovery cfg.markerWork input.now input.order
    (.data item pending) (some fence) (sh.lanes.isCurrent fence.toSnapshot)
  let sh := { sh with queue := result.2 }
  match result.1 with
  | .queued id | .replaced id =>
    (result.1, if pending.isNotify then sh.record (.notified item.key id) else sh)
  | outcome => (outcome, sh)

/-- `recovery.is_current`. -/
def ticketIsCurrent (cfg : Config M R) (sh : Shared K V M R) (ticket : ReplayTicket K V M) :
    Bool :=
  ticket.fence.all (fun fence => sh.lanes.isCurrent fence.toSnapshot)
    && (sh.queue.find cfg.markerWork ticket).isSome

end Shared

def isZero (ttl : Option Duration) : Bool := ttl.any fun ttl => ttl.asNanos = 0

/-- A frame whose logical expiration is moved back to the boundary. -/
def expiredFrame (frame : Entry V) (boundary : Timestamp) : Entry V :=
  { frame with metadata := { frame.metadata with
      logicalExpiration := min frame.metadata.logicalExpiration boundary } }

/-! ## `write_entry`, `key_mutation` and `commit_data` -/

/-- The revision a mutation advances its lane to. -/
def Write.revision (now : Timestamp) : Write V → Timestamp
  | .store entry _ => entry.metadata.created
  | .remove | .expire _ => now

def Write.action : Write V → BackplaneAction
  | .store _ _ => .set
  | .remove => .remove
  | .expire _ => .expire

/-- `data_command`. -/
def dataCommand (cfg : Config M R) (opts : WriteOptions) (action : BackplaneAction) (key : K)
    (timestamp : Timestamp) : Option (Message K) :=
  if opts.skipBackplaneNotifications || !cfg.backplane then none
  else some ⟨timestamp, action, key⟩

/-- What `enqueue_data` makes of a failed stage. -/
def recoveryItem (key : K) (pending : PendingMutation K V) (command : Option (Message K))
    (revision : Timestamp) : RecoveryItem K where
  key
  action := match pending with
    | .coldExpire _ _ => .expire
    | _ => (command.map fun command => recoveryAction command.action).getD .set
  timestamp := revision
  expiresAt := match pending with
    | .commit (.set frame) _ | .commit (.expire frame) _
    | .fencedCommit (.set frame) _ | .fencedCommit (.expire frame) _ =>
      frame.metadata.physicalExpiration
    | _ => revision.saturatingAdd (.fromSecs 600)
  remainingRetries := none

/-- `commit_local`; `none` when the lease proof fails. -/
def commitLocal (sh : Shared K V M R) (m : Mutation K V) (input : Input K V R) :
    LocalCommit V → Option (LocalEffect × Shared K V M R)
  | .applied effect => some (effect, sh)
  | .store entry =>
    match input.reply with
    | .refused => none
    | _ =>
      let stored := sh.writeMemory (sh.prepareWrite m.key entry input .set) .any
      some (.stored stored.1, stored.2)

/-- The stages of a mutation after its admission. -/
def stepCommit (cfg : Config M R) (sh : Shared K V M R) (m : Mutation K V) (fence : Fence)
    (command : Option (Message K)) (input : Input K V R) :
    CommitPc K V → Option (MutationPc K V × Shared K V M R)
  | .localEffect (.store entry data) _ =>
    if m.opts.skipMemoryWrite then
      some (.admitted fence command (.write data (.applied .skipped)), sh)
    else
      match input.reply, m.fenced, data with
      | .refused, _, _ => if m.origin.isSome then some (.release fence.lane none, sh) else none
      -- The fenced write must succeed before the value is visible in L1.
      | _, true, .ready _ => some (.admitted fence command (.write data (.store entry)), sh)
      | _, _, _ =>
        let stored := sh.writeMemory (sh.prepareWrite m.key entry input .set) .any
        some (.admitted fence command (.write data (.applied (.stored stored.1))), stored.2)
  | .localEffect .remove _ =>
    let data : PreparedData V := if m.opts.skipDistributedWrite then .skipped else .ready .remove
    if m.opts.skipMemoryWrite then
      some (.admitted fence command (.write data (.applied .skipped)), sh)
    else
      some (.admitted fence command (.write data (.applied .removed)), sh.removeMemory m.key none)
  | .localEffect (.expire retainStale) now =>
    if m.opts.skipMemoryWrite then
      some (.admitted fence command (.prepare retainStale now .skipped), sh)
    else
      let read := sh.readMemory m.key now
      match read.1 with
      | none => some (.admitted fence command (.prepare retainStale now .expired), read.2)
      | some observed =>
        some (.admitted fence command (.expireLocal retainStale now observed), read.2)
  | .expireLocal retainStale now observed =>
    let expired := observed.withLogicalExpirationAt now now input.inst
    let stored := sh.writeMemory (sh.prepareWrite m.key expired { input with now } .expire)
      (.same observed)
    some (.admitted fence command (.prepare retainStale now .expired), stored.2)
  | .prepare retainStale now effect =>
    if m.opts.skipDistributedWrite then
      some (.admitted fence command (.write .skipped (.applied effect)), sh)
    else if !retainStale then
      some (.admitted fence command (.write (.ready .remove) (.applied effect)), sh)
    else
      match input.reply with
      | .ok =>
        let data : DataMutation V := match sh.distributed.lookup m.key with
          | some frame => .expire (expiredFrame frame now)
          | none => .remove
        some (.admitted fence command (.write (.ready data) (.applied effect)), sh)
      | .failed _ => some (.admitted fence command (.write (.coldExpire now) (.applied effect)), sh)
      | .malformed => some (.admitted fence command (.write .failed (.applied effect)), sh)
      -- `rethrow_serialization_exceptions`, or cancelled in the codec
      | .refused => some (.release fence.lane none, sh)
      | _ => none
  | .write .skipped commit =>
    some (.admitted fence command (.store commit (.skipped .policy)), sh)
  | .write .failed commit =>
    some (.admitted fence command (.storeFailed commit .failedSuppressed), sh)
  | .write (.coldExpire boundary) commit =>
    some (.admitted fence command (.enqueue (.coldExpire boundary command) commit), sh)
  | .write (.ready data) commit =>
    match input.reply with
    | .ok =>
      if isZero (data.remainingTtl input.now) then
        some (.admitted fence command (.store commit (.skipped .physicallyExpired)), sh)
      else some (.admitted fence command (.store commit .applied), sh.applyData m.key data)
    | .failed landed =>
      let pending : PendingMutation K V :=
        if m.fenced then .fencedCommit data command else .commit data command
      some (.admitted fence command (.enqueue pending commit),
        if landed then sh.applyData m.key data else sh)
    -- The lease is lost.
    | .refused => some (.release fence.lane none, sh)
    | _ => none
  | .enqueue pending commit =>
    let revision := (sh.lanes.lane fence.lane).timestamp.getD input.now
    let queued := sh.enqueue cfg input (recoveryItem m.key pending command revision) pending fence
    if queued.1.isError || m.opts.rethrowDistributed then
      some (.release fence.lane none, queued.2)
    else
      some (.admitted fence command
        (.storeFailed commit (if queued.1.isQueued then .recoveryQueued else .failedSuppressed)),
        queued.2)
  | .storeFailed commit distributed =>
    match commitLocal sh m input commit with
    | none => some (.release fence.lane none, sh)
    | some (effect, sh) =>
      some (.release fence.lane (some ⟨effect, distributed, .skipped .policy⟩), sh)
  | .store commit distributed =>
    match commitLocal sh m input commit with
    | none => some (.release fence.lane none, sh)
    | some (effect, sh) => some (.admitted fence command (.supersede effect distributed), sh)
  | .supersede effect distributed =>
    some (.admitted fence command (.publish effect distributed),
      { sh with queue := sh.queue.supersedeThrough m.key fence.generation })
  | .publish effect distributed =>
    match command, input.reply with
    | none, _ =>
      let backplane : EffectOutcome := if cfg.backplane then .skipped .policy else .notConfigured
      some (.release fence.lane (some ⟨effect, distributed, backplane⟩), sh)
    | some message, .ok =>
      some (.release fence.lane (some ⟨effect, distributed, .applied⟩),
        { sh with published := message :: sh.published })
    | some message, .failed landed =>
      some (.admitted fence command (.enqueueNotify message effect distributed),
        if landed then { sh with published := message :: sh.published } else sh)
    | _, _ => none
  | .enqueueNotify message effect distributed =>
    let revision := (sh.lanes.lane fence.lane).timestamp.getD input.now
    let pending : PendingMutation K V := .notify message
    let queued := sh.enqueue cfg input (recoveryItem m.key pending command revision) pending fence
    if queued.1.isError || m.opts.rethrowBackplane then
      some (.release fence.lane none, queued.2)
    else
      let backplane : EffectOutcome :=
        if queued.1.isQueued then .recoveryQueued else .failedSuppressed
      some (.release fence.lane (some ⟨effect, distributed, backplane⟩), queued.2)

/-- The report of a product whose origin is no longer current. -/
def versionChanged (cfg : Config M R) : CommitReport where
  localEffect := .stored (.rejected .versionChanged)
  distributed := .skipped .superseded
  backplane := if cfg.backplane then .skipped .superseded else .notConfigured

def Mutation.at (m : Mutation K V) (pc : MutationPc K V) : Mutation K V := { m with pc }

/-- `lanes.get`. -/
def lookupLane (cfg : Config M R) (refs : List LaneId) (sh : Shared K V M R) (key : K) :
    LaneId × Shared K V M R :=
  let found := sh.lanes.get cfg.reuse refs key
  (found.1, { sh with lanes := found.2 })

/-- `lane.advance`: the admission of a task to the lane it holds. -/
def admitTo (sh : Shared K V M R) (task : TaskId) (key : K) (lane : LaneId)
    (revision : Timestamp) : Option (Snapshot × Shared K V M R) :=
  match (sh.lanes.lane lane).advance revision with
  | none => none
  | some advanced =>
    let sh := { sh with
      lanes := sh.lanes.modify lane advanced
      history := .admitted key task :: sh.history }
    some (⟨lane, advanced.generation, sh.history.length⟩, sh)

def stepMutation (cfg : Config M R) (task : TaskId) (refs : List LaneId) (sh : Shared K V M R)
    (m : Mutation K V) (input : Input K V R) : Option (Mutation K V × Shared K V M R) :=
  match m.pc with
  | .capture =>
    let found := lookupLane cfg refs sh m.key
    let generation := (found.2.lanes.lane found.1).generation
    some (m.at (.captureEpoch ⟨found.1, generation, sh.history.length⟩), found.2)
  | .captureEpoch snapshot =>
    some ({ m with origin := some ⟨snapshot, sh.epoch, sh.history.length⟩, pc := .running }, sh)
  | .running =>
    match input.reply with
    | .produced entry data => some (m.at (.getLane (.store entry data)), sh)
    | .failed _ => some (m.at (.done none), sh)
    | _ => none
  | .getLane write =>
    let found := lookupLane cfg refs sh m.key
    some (m.at (.lock write found.1), found.2)
  | .lock write lane =>
    match sh.lanes.lock lane task with
    | none => none
    | some lanes =>
      some (m.at (if m.origin.isSome then .check write lane else .admission write lane),
        { sh with lanes })
  | .check write lane =>
    match m.origin, input.reply with
    -- The lease is lost.
    | some _, .refused => some (m.at (.release lane none), sh)
    | some origin, .ok =>
      if sh.lanes.passiveIsCurrent sh.epoch origin then
        some (m.at (.admission write lane), sh.record (.passed task))
      else some (m.at (.release lane (some (versionChanged cfg))), sh)
    | _, _ => none
  | .admission write lane =>
    match admitTo sh task m.key lane (write.revision input.now) with
    | none => some (m.at (.release lane none), sh)
    | some (snapshot, sh) =>
      let command := dataCommand cfg m.opts write.action m.key (write.revision input.now)
      some (m.at (.admitted ⟨snapshot, sh.epoch, sh.history.length⟩ command
        (.localEffect write input.now)), sh)
  | .admitted fence command pc =>
    (stepCommit cfg sh m fence command input pc).map fun (pc, sh) => (m.at pc, sh)
  | .release lane result =>
    some (m.at (.done result), { sh with lanes := sh.lanes.unlock lane })
  | .done _ => none

/-! ## `apply_backplane` and `passive` -/

/-- A representation read from L2, as it is put into L1. -/
def hydratedCopy (source : Entry V) (metadata : Metadata) (fence : Fence) (inst : Instance) :
    Entry V :=
  { source with inst, metadata, eligibility := .hydrated fence.capturedEpoch }

def stepIncoming (cfg : Config M R) (task : TaskId) (refs : List LaneId) (sh : Shared K V M R)
    (message : Message K) (input : Input K V R) :
    IncomingPc V → Option (IncomingPc V × Shared K V M R)
  | .getLane =>
    let found := lookupLane cfg refs sh message.key
    some (.lock found.1, found.2)
  | .lock lane => (sh.lanes.lock lane task).map fun lanes => (.checkLane lane, { sh with lanes })
  | .checkLane lane =>
    if (sh.lanes.lane lane).timestamp.any fun revision => message.timestamp < revision then
      some (.release lane, sh)
    else some (.read lane, sh)
  | .read lane =>
    let read := sh.readMemory message.key input.now
    if read.1.any fun entry => message.timestamp < entry.metadata.created then
      some (.release lane, read.2)
    else some (.admission lane read.1, read.2)
  | .admission lane existing =>
    match admitTo sh task message.key lane message.timestamp with
    | none => some (.release lane, sh)
    | some (snapshot, sh) => some (.loadEpoch snapshot existing, sh)
  | .loadEpoch snapshot existing =>
    some (.cancel ⟨snapshot, sh.epoch, sh.history.length⟩ existing, sh)
  | .cancel fence existing =>
    some (.apply fence existing,
      { sh with queue := sh.queue.cancelThrough cfg.markerWork message.key message.timestamp })
  | .apply fence existing =>
    match message.action, existing with
    | .remove, _ => some (.release fence.lane, sh.removeMemory message.key none)
    | .expire, some entry =>
      let expired := entry.withLogicalExpirationAt message.timestamp input.now input.inst
      let stored := sh.writeMemory (sh.prepareWrite message.key expired input .expire) (.same entry)
      some (.release fence.lane, stored.2)
    -- The guard is dropped before the passive refresh starts.
    | .set, some entry =>
      some (.passiveRead fence entry, { sh with lanes := sh.lanes.unlock fence.lane })
    | _, none => some (.release fence.lane, sh)
  | .release lane => some (.done, { sh with lanes := sh.lanes.unlock lane })
  | .passiveRead fence expected =>
    match input.reply with
    | .ok => some (.passiveLock fence expected (sh.distributed.lookup message.key), sh)
    | _ => some (.passiveLock fence expected none, sh)
  | .passiveLock fence expected found =>
    (sh.lanes.lock fence.lane task).map fun lanes =>
      (.passiveCheck fence expected found, { sh with lanes })
  | .passiveCheck fence expected found =>
    if !sh.lanes.passiveIsCurrent sh.epoch fence then some (.release fence.lane, sh)
    else
      match found, input.reply with
      | none, _ | some _, .judged .remove _ => some (.passiveRemove fence expected, sh)
      | some source, .judged _ (some metadata) =>
        some (.passiveRecheck fence expected (hydratedCopy source metadata fence input.inst), sh)
      | some _, .judged _ none => some (.release fence.lane, sh)
      | _, _ => none
  | .passiveRecheck fence expected copy =>
    if sh.lanes.passiveIsCurrent sh.epoch fence then
      some (.passiveInsert fence expected copy, sh)
    else some (.release fence.lane, sh)
  | .passiveInsert fence expected copy =>
    let stored := sh.writeMemory (sh.prepareWrite message.key copy input .set) (.same expected)
    some (.release fence.lane, stored.2)
  | .passiveRemove fence expected =>
    some (.release fence.lane, sh.removeMemory message.key (some expected))
  | .done => none

/-! ## `fetch_l2` and `hydrate` -/

/-- `observed` keeps the snapshot out of L1. -/
def supersedes (observed : Option (Entry V)) (source : Entry V) (verdict : TagVerdict)
    (now : Timestamp) : Bool :=
  observed.any fun entry =>
    source.metadata.created < entry.metadata.created
      || entry.metadata.created = source.metadata.created
        && (verdict = .expire || source.isLogicallyExpired now)

def stepHydration (cfg : Config M R) (task : TaskId) (refs : List LaneId) (sh : Shared K V M R)
    (key : K) (input : Input K V R) : HydrationPc V → Option (HydrationPc V × Shared K V M R)
  | .getLane =>
    let found := lookupLane cfg refs sh key
    some (.fence found.1, found.2)
  | .fence lane =>
    match input.reply with
    | .ok =>
      -- The guard is held for the snapshot only; a lane that is taken gives no fence.
      if (sh.lanes.lane lane).holder = none then
        let snapshot : Snapshot := ⟨lane, (sh.lanes.lane lane).generation, sh.history.length⟩
        some (.observe ⟨snapshot, sh.epoch, sh.history.length⟩, sh)
      else some (.done, sh)
    | _ => some (.done, sh)
  | .observe fence =>
    let read := sh.readMemory key input.now
    some (.fetch fence read.1, read.2)
  | .fetch fence observed =>
    match input.reply, sh.distributed.lookup key with
    | .ok, some source => some (.tryLock fence observed source, sh)
    | _, _ => some (.done, sh)
  | .tryLock fence observed source =>
    match input.reply, sh.lanes.lock fence.lane task with
    | .ok, some lanes => some (.check fence observed source, { sh with lanes })
    | _, _ => some (.done, sh)
  | .check fence observed source =>
    match input.reply with
    | .judged verdict prepared =>
      if !sh.lanes.passiveIsCurrent sh.epoch fence || verdict = .remove
          || supersedes observed source verdict input.now then some (.release fence.lane, sh)
      else
        match prepared with
        | none => some (.release fence.lane, sh)
        | some metadata =>
          some (.recheck fence observed (hydratedCopy source metadata fence input.inst), sh)
    | _ => none
  | .recheck fence observed copy =>
    if sh.lanes.passiveIsCurrent sh.epoch fence then
      some (.insert fence observed copy, sh.record (.passed task))
    else some (.release fence.lane, sh)
  | .insert fence observed copy =>
    let stored := sh.writeMemory (sh.prepareWrite key copy input .set)
      (observed.elim .absent .same)
    some (.release fence.lane, stored.2)
  | .release lane => some (.done, { sh with lanes := sh.lanes.unlock lane })
  | .done => none

/-! ## `replay_owned` -/

/-- The checks between two stages: still current, and replay not paused. -/
def stillCurrent (cfg : Config M R) (sh : Shared K V M R) (ticket : ReplayTicket K V M)
    (lane : LaneId) (input : Input K V R) (pc : ReplayPc K V) :
    Option (ReplayPc K V × Shared K V M R) :=
  if !sh.ticketIsCurrent cfg ticket then some (.release lane .superseded, sh)
  else
    match input.reply with
    | .ok => some (pc, sh)
    | .refused => some (.release lane .paused, sh)
    | .failed _ => some (.release lane .failed, sh)
    | _ => none

def stepReplay (cfg : Config M R) (task : TaskId) (refs : List LaneId) (sh : Shared K V M R)
    (ticket : ReplayTicket K V M) (item : RecoveryItem K) (mutation : PendingMutation K V)
    (input : Input K V R) : ReplayPc K V → Option (ReplayPc K V × Shared K V M R)
  | .claimed =>
    if item.expiresAt ≤ input.now
        || !ticket.fence.all (fun fence => sh.lanes.isCurrent fence.toSnapshot) then
      some (.settle .superseded, sh)
    else
      match input.reply with
      | .ok => some (.getLane, sh)
      | .refused => some (.settle .paused, sh)
      -- The lease of a fenced commit was not acquired.
      | .failed _ => some (.settle .failed, sh)
      | _ => none
  | .getLane =>
    let found := lookupLane cfg refs sh item.key
    some (.lock found.1, found.2)
  | .lock lane => (sh.lanes.lock lane task).map fun lanes => (.check lane, { sh with lanes })
  | .check lane => stillCurrent cfg sh ticket lane input (.reconcile lane)
  | .reconcile lane =>
    match input.reply with
    | .ok =>
      if (sh.distributed.lookup item.key).any fun frame =>
          item.timestamp < frame.metadata.created then
        some (.release lane .superseded, sh)
      else some (.recheck lane, sh)
    | .refused => some (.release lane .superseded, sh)
    | _ => some (.release lane .failed, sh)
  | .recheck lane => stillCurrent cfg sh ticket lane input (.write lane)
  | .write lane =>
    match mutation with
    -- The cache enqueues no legacy work.
    | .legacy => none
    | .notify command => some (.confirm lane (some command), sh)
    | .coldExpire boundary notification =>
      match input.reply, sh.distributed.lookup item.key with
      | .ok, none => some (.stage lane notification, sh)
      | .ok, some frame =>
        if boundary < frame.metadata.created then some (.release lane .superseded, sh)
        else some (.store lane (.expire (expiredFrame frame boundary)) notification, sh)
      | _, _ => some (.release lane .failed, sh)
    | .commit data notification | .fencedCommit data notification =>
      if isZero (data.remainingTtl input.now) then some (.release lane .expired, sh)
      else some (.store lane data notification, sh)
  | .store lane data notification =>
    if isZero (data.remainingTtl input.now) then some (.stage lane notification, sh)
    else
      let written := (sh.applyData item.key data).record
        (.replayed item.key ticket.id ticket.fence)
      match input.reply with
      | .ok => some (.stage lane notification, written)
      | .failed landed => some (.release lane .failed, if landed then written else sh)
      | _ => some (.release lane .failed, sh)
  | .stage lane notification =>
    if notification.isSome then
      let queue := sh.queue.notificationStage cfg.markerWork ticket
      let sh := { sh with queue }
      let notified := (queue.find cfg.markerWork ticket).any fun queued =>
        queued.ticket.work.isNotify
      some (.confirm lane notification,
        if notified then sh.record (.notified item.key ticket.id) else sh)
    else some (.confirm lane notification, sh)
  | .confirm lane notification =>
    stillCurrent cfg sh ticket lane input (match notification with
      | some command => if cfg.backplane then .publish lane command else .release lane .applied
      | none => .release lane .applied)
  | .publish lane command =>
    let published := { sh with published := command :: sh.published }
    match input.reply with
    | .ok => some (.release lane .applied, published)
    | .failed landed => some (.release lane .failed, if landed then published else sh)
    | _ => none
  | .release lane outcome =>
    some (.settle outcome, { sh with lanes := sh.lanes.unlock lane })
  | .settle outcome =>
    let queue := match outcome with
      | .paused => sh.queue.unclaim cfg.markerWork ticket
      | .failed => sh.queue.recordFailure cfg.markerWork ticket
      | _ => sh.queue.complete cfg.markerWork ticket
    some (.done, { sh with queue })
  | .done => none

/-! ## The whole system -/

/-- What a task owns of the lane of its key: loaded generations, each with a reference to
the lane, further references, and the guard. -/
structure View (K : Type) where
  key : K
  snapshots : List Snapshot
  lanes : List LaneId
  guard : Option LaneId

def View.refs (v : View K) : List LaneId :=
  v.snapshots.map (·.lane) ++ v.lanes ++ v.guard.toList

def Mutation.view (m : Mutation K V) : View K :=
  let origin := m.origin.toList.map (·.toSnapshot)
  match m.pc with
  | .capture | .done _ => ⟨m.key, [], [], none⟩
  | .captureEpoch snapshot => ⟨m.key, [snapshot], [], none⟩
  | .running | .getLane _ => ⟨m.key, origin, [], none⟩
  | .lock _ lane => ⟨m.key, origin, [lane], none⟩
  | .check _ lane => ⟨m.key, origin, [], some lane⟩
  | .admission _ lane | .release lane _ => ⟨m.key, [], [], some lane⟩
  | .admitted fence _ _ => ⟨m.key, [fence.toSnapshot], [], some fence.lane⟩

def Incoming.view (i : Incoming K V) : View K :=
  let key := i.message.key
  match i.pc with
  | .getLane | .done => ⟨key, [], [], none⟩
  | .lock lane => ⟨key, [], [lane], none⟩
  | .checkLane lane | .read lane | .admission lane _ | .release lane => ⟨key, [], [], some lane⟩
  | .loadEpoch snapshot _ => ⟨key, [snapshot], [], some snapshot.lane⟩
  | .passiveRead fence _ | .passiveLock fence _ _ => ⟨key, [fence.toSnapshot], [], none⟩
  | .cancel fence _ | .apply fence _ | .passiveCheck fence _ _ | .passiveRecheck fence _ _
  | .passiveInsert fence _ _ | .passiveRemove fence _ =>
    ⟨key, [fence.toSnapshot], [], some fence.lane⟩

def Hydration.view (h : Hydration K V) : View K :=
  match h.pc with
  | .getLane | .done => ⟨h.key, [], [], none⟩
  | .fence lane => ⟨h.key, [], [lane], none⟩
  | .observe fence | .fetch fence _ | .tryLock fence _ _ => ⟨h.key, [fence.toSnapshot], [], none⟩
  | .check fence _ _ | .recheck fence _ _ | .insert fence _ _ =>
    ⟨h.key, [fence.toSnapshot], [], some fence.lane⟩
  | .release lane => ⟨h.key, [], [], some lane⟩

def Replay.view (r : Replay K V M) : View K :=
  let fence := r.ticket.fence.toList.map (·.toSnapshot)
  match r.pc with
  | .claimed | .getLane | .settle _ => ⟨r.item.key, fence, [], none⟩
  | .lock lane => ⟨r.item.key, fence, [lane], none⟩
  | .check lane | .reconcile lane | .recheck lane | .write lane | .store lane _ _
  | .stage lane _ | .confirm lane _ | .publish lane _ | .release lane _ =>
    ⟨r.item.key, fence, [], some lane⟩
  | .done => ⟨r.item.key, [], [], none⟩

def Task.view : Task K V M → View K
  | .mutation m => m.view
  | .incoming i => i.view
  | .hydration h => h.view
  | .replay r => r.view

structure State (K V M R : Type) where
  shared : Shared K V M R
  tasks : AList fun _ : TaskId => Task K V M

/-- The strong references of tasks and of queued tickets. -/
def State.refs (s : State K V M R) : List LaneId :=
  s.tasks.values.flatMap (fun task => task.view.refs)
    ++ s.shared.queue.entries.values.filterMap fun queued =>
      queued.ticket.fence.map (·.lane)

def stepTask (cfg : Config M R) (task : TaskId) (refs : List LaneId) (sh : Shared K V M R)
    (input : Input K V R) : Task K V M → Option (Task K V M × Shared K V M R)
  | .mutation m =>
    (stepMutation cfg task refs sh m input).map fun (m, sh) => (.mutation m, sh)
  | .incoming i =>
    (stepIncoming cfg task refs sh i.message input i.pc).map fun (pc, sh) =>
      (.incoming { i with pc }, sh)
  | .hydration h =>
    (stepHydration cfg task refs sh h.key input h.pc).map fun (pc, sh) =>
      (.hydration { h with pc }, sh)
  | .replay r =>
    (stepReplay cfg task refs sh r.ticket r.item r.mutation input r.pc).map fun (pc, sh) =>
      (.replay { r with pc }, sh)

/-- How a task begins; a replay begins with a claim instead. -/
def Task.isInitial : Task K V M → Bool
  | .mutation ⟨_, _, _, none, .capture⟩ | .mutation ⟨_, _, _, none, .getLane _⟩ => true
  | .incoming ⟨_, .getLane⟩ | .hydration ⟨_, .getLane⟩ => true
  | _ => false

/-- A task whose future was dropped. The claim of a replay is dropped after it. -/
def Task.dropped : Task K V M → Task K V M
  | .mutation m =>
    match m.pc with
    | .done _ => .mutation m
    | _ => .mutation (m.at (.done none))
  | .incoming i => .incoming { i with pc := .done }
  | .hydration h => .hydration { h with pc := .done }
  | .replay r =>
    match r.pc with
    | .settle _ | .done => .replay r
    | _ => .replay { r with pc := .settle .paused }

inductive Action (K V M R : Type) where
  | start (task : TaskId) (begun : Task K V M)
  /-- `drain_once` claims the ticket of a key. -/
  | claim (task : TaskId) (key : K)
  | step (task : TaskId) (input : Input K V R)
  | drop (task : TaskId)
  /-- Anything else that is done with L1: reads, evictions, clears, other writers. -/
  | memoryOp (op : Memory.Op K V)
  /-- L2 is written by another node, or loses a value. -/
  | remote (key : K) (entry : Option (Entry V))
  | advanceEpoch
  /-- A retention pool, or a caller with a ticket, gives up a lane. -/
  | unhold (lane : LaneId)
  /-- `recovery_ticket`. -/
  | handOut (key : K)
  | sweep (key : K)
  | enqueueMarker (work : M) (now : Timestamp) (order : List (RecoveryKey K R))
  | dropMarker (key : R)
  | stopRecovery

/-- `op` leaves the continuity epoch alone. -/
def keepsEpoch (sh : Shared K V M R) : Memory.Op K V → Bool
  | .observe world => world.epoch = sh.epoch
  | _ => true

def next (cfg : Config M R) (s : State K V M R) : Action K V M R → Option (State K V M R)
  | .start task begun =>
    if task ∈ s.tasks ∨ !begun.isInitial then none
    else some { s with tasks := s.tasks.insert task begun }
  | .claim task key =>
    if task ∈ s.tasks then none
    else
      match s.shared.queue.claim (.data key) with
      | none => none
      | some (ticket, queue) =>
        match h : ticket.work with
        | .marker _ => none
        | .data item mutation =>
          some ⟨{ s.shared with queue },
            s.tasks.insert task (.replay ⟨ticket, item, mutation, h, .claimed⟩)⟩
  | .step task input =>
    match s.tasks.lookup task with
    | none => none
    | some current =>
      (stepTask cfg task s.refs s.shared input current).map fun (stepped, shared) =>
        ⟨shared, s.tasks.insert task stepped⟩
  | .drop task =>
    match s.tasks.lookup task with
    | none => none
    | some current =>
      let lanes := match current.view.guard with
        | none => s.shared.lanes
        | some lane => s.shared.lanes.unlock lane
      some ⟨{ s.shared with lanes }, s.tasks.insert task current.dropped⟩
  | .memoryOp op =>
    if keepsEpoch s.shared op then
      (Memory.next s.shared.memory op).map fun memory => { s with shared := { s.shared with memory } }
    else none
  | .remote key entry =>
    let distributed := match entry with
      | none => s.shared.distributed.erase key
      | some entry => s.shared.distributed.insert key entry
    some { s with shared := { s.shared with distributed } }
  | .advanceEpoch =>
    if s.shared.epoch < u64Max then
      let world := { s.shared.memory.world with epoch := s.shared.epoch + 1 }
      let memory := { s.shared.memory with world }
      some { s with shared := { s.shared with memory }.record .epoch }
    else none
  | .unhold lane =>
    let lanes := { s.shared.lanes with held := s.shared.lanes.held.erase lane }
    some { s with shared := { s.shared with lanes } }
  | .handOut key =>
    match (s.shared.queue.entries.lookup (.data key)).bind (·.ticket.fence) with
    | none => none
    | some fence =>
      let lanes := { s.shared.lanes with held := fence.lane :: s.shared.lanes.held }
      some { s with shared := { s.shared with lanes } }
  | .sweep key =>
    some { s with shared := { s.shared with lanes := s.shared.lanes.sweep s.refs key } }
  | .enqueueMarker work now order =>
    let queue := (s.shared.queue.enqueueWork cfg.recovery cfg.markerWork now order (.marker work)
      none true).2
    some { s with shared := { s.shared with queue } }
  | .dropMarker key =>
    some { s with shared := { s.shared with queue := s.shared.queue.remove (.marker key) } }
  | .stopRecovery =>
    some { s with shared := { s.shared with queue := { s.shared.queue with stopped := true } } }

/-- An idle cache: no lane, no task, nothing queued. -/
def init (memory : Memory.State K V) (distributed : AList fun _ : K => Entry V) :
    State K V M R where
  shared :=
    { lanes := Lanes.empty
      memory
      distributed
      queue := Queue.empty
      published := []
      history := [] }
  tasks := ∅

end

end Hybrid

end Amalgam
