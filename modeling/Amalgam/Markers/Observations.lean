import Amalgam.Markers.Snapshots
import Amalgam.Memory.Contents
import Amalgam.Wire.Backplane
import Mathlib.Data.Fintype.EquivFin
import Mathlib.Order.WithBot

/-!
# Amalgam — the observation cache of markers

`src/marker_reads.rs`: what L1 knows about a marker, and the operations that race on its slot.
Each reads the slot, computes an observation and puts it back only if the slot still holds the
representation it read.

* **`observations_monotone`** — while a slot stays occupied the version it holds never decreases
  and never turns into absence, whatever the operations and the upkeep of the store do.

A task is one call of an operation, stopped before its next access to the store. The slots are
addressed by any function of the kind; the source's is `MarkerMemoryNamespace.key`.
-/

namespace Amalgam

inductive MarkerReadFailure where
  | lockTimeout
  | softTimeout
  | hardTimeout
  | factorySoftTimeout
  | factoryHardTimeout
  | backend
  | protocol
deriving DecidableEq

inductive MarkerPresence where
  | present (version : MarkerVersion)
  | absent
deriving DecidableEq

namespace MarkerPresence

def version? : MarkerPresence → Option MarkerVersion
  | .present version => some version
  | .absent => none

/-- Absence lies below every version. -/
def rank : MarkerPresence → WithBot MarkerVersion
  | .present version => version
  | .absent => ⊥

end MarkerPresence

/-- `MarkerObservation`; `Local` facts were selected by a memory-only factory. -/
inductive MarkerObservation where
  | confirmed (presence : MarkerPresence)
  | ofLocal (presence : MarkerPresence)
  | knownMaximum (version : MarkerVersion)
  | retained (presence : MarkerPresence) (failure : MarkerReadFailure)
deriving DecidableEq

namespace MarkerObservation

def presence : MarkerObservation → MarkerPresence
  | .confirmed presence | .ofLocal presence | .retained presence _ => presence
  | .knownMaximum version => .present version

def rank (o : MarkerObservation) : WithBot MarkerVersion := o.presence.rank

def reconcileMaximum (o : MarkerObservation) (maximum : Option MarkerVersion) :
    MarkerObservation :=
  match o.presence, maximum with
  | .absent, some maximum => .knownMaximum maximum
  | .present version, some maximum => if maximum > version then .knownMaximum maximum else o
  | _, none => o

/-- Reconciling loses neither side. -/
theorem rank_reconcileMaximum (o : MarkerObservation) (maximum : Option MarkerVersion) :
    (o.reconcileMaximum maximum).rank = max o.rank (maximum.elim ⊥ fun m => (m : WithBot _)) := by
  unfold reconcileMaximum
  split
  · rename_i maximum habsent
    show ((maximum : WithBot MarkerVersion)) = _
    rw [rank, habsent, MarkerPresence.rank, Option.elim_some,
      max_eq_right bot_le]
  · rename_i version maximum hpresent
    split
    · rename_i hlt
      show ((maximum : WithBot MarkerVersion)) = _
      rw [rank, hpresent, MarkerPresence.rank, Option.elim_some,
        max_eq_right (WithBot.coe_le_coe.mpr hlt.le)]
    · rename_i hle
      rw [rank, hpresent, MarkerPresence.rank, Option.elim_some,
        max_eq_left (WithBot.coe_le_coe.mpr (not_lt.mp hle))]
  · exact (max_eq_left bot_le).symm

theorem rank_eq_version? (o : MarkerObservation) :
    o.rank = o.presence.version?.elim ⊥ fun m => (m : WithBot _) := by
  rw [rank]
  cases o.presence <;> rfl

end MarkerObservation

/-! ## Slots -/

inductive MarkerMemoryNamespace where
  | ofLocal (keyPrefix : String)
  | durable (scope : Keys.CacheScope)

/-- `MarkerObservations::key`. -/
def MarkerKind.observationKey : MarkerKind → String
  | .clearRemove => "clear:remove"
  | .clearExpire => "clear:expire"
  | .tag named => "tag:" ++ named.asStr

theorem MarkerKind.observationKey_injective : Function.Injective MarkerKind.observationKey := by
  -- A tag's key starts with a letter that no clear marker's key starts with.
  have htag : ∀ named : Tag, ("tag:" ++ named.asStr).toList.head? = some 't' := fun named => by
    rw [String.toList_append]
    rfl
  intro kind kind' h
  have hhead := congrArg (fun key : String => key.toList.head?) h
  cases kind with
  | clearRemove =>
    cases kind' with
    | clearRemove => rfl
    | clearExpire => exact absurd h (by decide)
    | tag named => exact absurd (hhead.trans (htag named)) (by decide)
  | clearExpire =>
    cases kind' with
    | clearRemove => exact absurd h (by decide)
    | clearExpire => rfl
    | tag named => exact absurd (hhead.trans (htag named)) (by decide)
  | tag named =>
    cases kind' with
    | clearRemove => exact absurd (hhead.symm.trans (htag named)) (by decide)
    | clearExpire => exact absurd (hhead.symm.trans (htag named)) (by decide)
    | tag named' =>
      have htext : named.asStr = named'.asStr := (String.append_right_inj "tag:").mp h
      cases named
      cases named'
      cases htext
      rfl

def MarkerMemoryNamespace.key (ns : MarkerMemoryNamespace) (kind : MarkerKind) : String :=
  let (authority, scope) := match ns with
    | .ofLocal keyPrefix => ("local", keyPrefix)
    | .durable scope => ("durable", scope.storageId)
  "\u001famalgam/marker-memory/" ++ authority ++ "/" ++ Wire.encodeHex (Text.utf8 scope) ++ "/"
    ++ Wire.encodeHex (Text.utf8 kind.observationKey)

/-- The kinds of one authority have slots of their own. -/
theorem MarkerMemoryNamespace.key_injective (ns : MarkerMemoryNamespace) :
    Function.Injective ns.key := by
  intro kind kind' h
  have hhex := (String.append_right_inj _).mp h
  have hbytes : Text.utf8 kind.observationKey = Text.utf8 kind'.observationKey :=
    Except.ok.inj ((Wire.decodeHex_encodeHex _).symm.trans
      ((congrArg Wire.decodeHex hhex).trans (Wire.decodeHex_encodeHex _)))
  exact MarkerKind.observationKey_injective (Text.utf8_injective hbytes)

/-! ## The store of observations -/

structure MarkerOptions extends EntryOptions where
  skipMemoryWrite : Bool

namespace MarkerObservations

open Memory (Instant MemoryAdmission)

variable {K : Type}

abbrev Observed := Entry MarkerObservation

abbrev MarkerMemory (K : Type) := Memory.State K MarkerObservation

section Accesses

variable [LinearOrder K]

/-- `MarkerMemory::get_at`. -/
def getAt (memory : MarkerMemory K) (key : K) (now : Timestamp) :
    Option Observed × MarkerMemory K :=
  let (entry, backend) := memory.backend.read memory.world key (some now)
  (entry, { memory with backend })

/-- `MarkerMemory::insert_if_unchanged`. -/
def insertIfUnchanged (memory : MarkerMemory K) (key : K) (expected : Option Observed)
    (entry : Observed) (now : Timestamp) (inst : Instance) :
    MemoryAdmission × MarkerMemory K :=
  let write := Memory.prepareWrite key entry ⟨now, memory.world.instant⟩ .set inst
  let (commit, backend, cells) := memory.backend.applyWrite memory.owners memory.cells memory.world
    write (expected.elim .absent .same)
  (commit.admission, { memory with backend, cells })

/-- The two accesses are operations of the memory store. -/
theorem getAt_perform (memory : MarkerMemory K) (key : K) (now : Timestamp) :
    Memory.perform memory (.get key (some now))
      = some (.entry (getAt memory key now).1, (getAt memory key now).2) := rfl

theorem insertIfUnchanged_perform (memory : MarkerMemory K) (key : K) (expected : Option Observed)
    (entry : Observed) (now : Timestamp) (inst : Instance) :
    Memory.perform memory (.insertIfUnchanged
        (Memory.prepareWrite key entry ⟨now, memory.world.instant⟩ .set inst) expected)
      = some (.admission (insertIfUnchanged memory key expected entry now inst).1,
          (insertIfUnchanged memory key expected entry now inst).2) := rfl

end Accesses

/-! ## Operations -/

/-- Where a call stands: before its next access to the store, or returned. -/
inductive Stage (K : Type) where
  /-- `admit_observation`, at the head of its loop. -/
  | admission (key : K) (entry : Observed) (now : Timestamp) (captured : Nat)
  /-- `admit_observation`, after its read. -/
  | admitting (key : K) (entry : Observed) (current : Option Observed) (now : Timestamp)
      (captured : Nat)
  /-- `merge_maximum`, at the head of its loop. -/
  | merge (key : K) (maximum : MarkerVersion) (now : Timestamp) (captured : Nat)
  | merging (key : K) (maximum : MarkerVersion) (current : Observed) (now : Timestamp)
      (captured : Nat)
  /-- A caller of `marker_cached` that holds what it found. -/
  | cached (key : K) (current : Observed)
  /-- `retain_fallback`, before and after its insertion. -/
  | retaining (key : K) (source copy : Observed) (failure : MarkerReadFailure) (now : Timestamp)
  | rereading (key : K) (observation : MarkerObservation) (now : Timestamp)
  | returned (result : Except ConfigError (Option MarkerObservation))

/-- What a call keeps allocated. -/
def Stage.handles : Stage K → List Observed
  | .admission _ entry _ _ => [entry]
  | .admitting _ entry current _ _ => entry :: current.toList
  | .merging _ _ current _ _ | .cached _ current => [current]
  | .retaining _ source copy _ _ => [source, copy]
  | .merge .. | .rereading .. | .returned _ => []

/-- `store`. -/
def store (epoch : Nat) (key : K) (observation : MarkerObservation) (options : MarkerOptions)
    (now : Timestamp) (jitter : JitterSample) (captured : Nat) (inst : Instance) : Stage K :=
  if options.skipMemoryWrite || epoch ≠ captured then .returned (.ok (some observation))
  else
    match Entry.prepareFreshWithJitter observation options.toEntryOptions now now jitter [] none none
        inst with
    | .error e => .returned (.error e)
    | .ok entry => .admission key (entry.withHydratedValue observation captured inst) now captured

/-- `store_snapshot`. -/
def storeSnapshot (epoch : Nat) (key : K) (observation : MarkerObservation)
    (snapshot : MarkerSnapshot) (options : MarkerOptions) (now : Timestamp) (captured : Nat)
    (inst : Instance) : Stage K :=
  if options.skipMemoryWrite || epoch ≠ captured then .returned (.ok (some observation))
  else
    match Entry.tryRehydrateWithRetention observation snapshot.created snapshot.logical
        snapshot.physical false none none [] .unspecified now inst with
    | .error e => .returned (.error e)
    | .ok source =>
      match source.prepareMemoryHydration epoch options.toEntryOptions now with
      | .error e => .returned (.error e)
      | .ok none => .returned (.ok (some observation))
      | .ok (some metadata) =>
        .admission key ⟨inst, observation, metadata, .hydrated captured⟩ now captured

/-- `retain_snapshot_fallback`. -/
def retainSnapshotFallback (epoch : Nat) (key : K) (snapshot : MarkerSnapshot)
    (presence : MarkerPresence) (options : MarkerOptions) (now : Timestamp)
    (failure : MarkerReadFailure) (captured : Nat) (inst : Instance) : Stage K :=
  let observation := MarkerObservation.retained presence failure
  if options.skipMemoryWrite || epoch ≠ captured then .returned (.ok (some observation))
  else
    match Entry.tryRehydrateWithRetention observation snapshot.created snapshot.logical
        snapshot.physical false none none [] .unspecified now inst with
    | .error e => .returned (.error e)
    | .ok source =>
      match options.toEntryOptions.weight with
      | .error e => .returned (.error e)
      | .ok size =>
        match Entry.tryThrottledUnder epoch (source.withRetention size options.priority inst)
            options.toEntryOptions now inst with
        | .error e => .returned (.error e)
        | .ok none => .returned (.ok (some observation))
        | .ok (some throttled) =>
          .admission key (throttled.withHydratedValue observation captured inst) now captured

/-- `retain_fallback`, for an observation that its caller read before. -/
def retainFallback (epoch : Nat) (key : K) (source : Observed) (options : MarkerOptions)
    (now : Timestamp) (failure : MarkerReadFailure) (inst : Instance) : Stage K :=
  let observation := MarkerObservation.retained source.value.presence failure
  if options.skipMemoryWrite then .returned (.ok (some observation))
  else
    match Entry.tryThrottledUnder epoch source options.toEntryOptions now inst with
    | .error e => .returned (.error e)
    | .ok none => .returned (.ok (some observation))
    | .ok (some copy) => .retaining key source copy failure now

/-- The next access of a call to the store. -/
def work [LinearOrder K] (memory : MarkerMemory K) (inst : Instance) : Stage K → Stage K × MarkerMemory K
  | .admission key entry now captured =>
    if memory.world.epoch ≠ captured then (.returned (.ok (some entry.value)), memory)
    else
      let (current, memory) := getAt memory key now
      (.admitting key entry current now captured, memory)
  | .admitting key entry current now captured =>
    let maximum := current.bind fun e => e.value.presence.version?
    let merged := entry.withValue (entry.value.reconcileMaximum maximum) inst
    let (admission, memory) := insertIfUnchanged memory key current merged now inst
    -- A retry reads the slot and merges again.
    if admission = .rejected .versionChanged then (.admission key entry now captured, memory)
    else (.returned (.ok (some merged.value)), memory)
  | .merge key maximum now captured =>
    if memory.world.epoch ≠ captured then (.returned (.ok none), memory)
    else
      match getAt memory key now with
      | (none, memory) => (.returned (.ok none), memory)
      | (some current, memory) =>
        let observation := current.value.reconcileMaximum (some maximum)
        if observation = current.value then (.returned (.ok (some observation)), memory)
        else (.merging key maximum current now captured, memory)
  | .merging key maximum current now captured =>
    let merged := current.withValue (current.value.reconcileMaximum (some maximum)) inst
    let (admission, memory) := insertIfUnchanged memory key (some current) merged now inst
    if admission = .rejected .versionChanged then (.merge key maximum now captured, memory)
    else (.returned (.ok (some merged.value)), memory)
  | .cached key current => (.cached key current, memory)
  | .retaining key source copy failure now =>
    let observation := MarkerObservation.retained source.value.presence failure
    let (admission, memory) :=
      insertIfUnchanged memory key (some source) (copy.withValue observation inst) now inst
    if admission = .rejected .versionChanged then (.rereading key observation now, memory)
    else (.returned (.ok (some observation)), memory)
  | .rereading key observation now =>
    let (current, memory) := getAt memory key now
    (.returned (.ok (some (current.elim observation (·.value)))), memory)
  | .returned result => (.returned result, memory)

/-- `should_eager_refresh`. -/
def shouldEagerRefresh (e : Observed) (now : Timestamp) : Bool :=
  match e.metadata.origin with
  | .fresh (some at_) => !now.isBefore at_ && now.isBefore e.metadata.logicalExpiration
  | .fresh none | .failSafe => false

/-- The claim of an eager refresh: the observation stays, its attempt is used up. -/
def claimEagerRefresh [LinearOrder K] (memory : MarkerMemory K) (key : K) (current : Observed) (now : Timestamp)
    (inst : Instance) : MarkerMemory K :=
  if shouldEagerRefresh current now && current.isReadEligible memory.world.epoch then
    (insertIfUnchanged memory key (some current) (current.withoutEagerRefresh inst) now inst).2
  else memory

/-! ## The system -/

abbrev TaskId := Nat

structure State (K : Type) where
  memory : MarkerMemory K
  tasks : AList fun _ : TaskId => Stage K

inductive Call where
  | store (observation : MarkerObservation) (options : MarkerOptions) (jitter : JitterSample)
      (captured : Nat)
  | storeSnapshot (observation : MarkerObservation) (snapshot : MarkerSnapshot)
      (options : MarkerOptions) (captured : Nat)
  | retainSnapshotFallback (snapshot : MarkerSnapshot) (presence : MarkerPresence)
      (options : MarkerOptions) (failure : MarkerReadFailure) (captured : Nat)
  | mergeMaximum (maximum : MarkerVersion) (captured : Nat)

/-- A call up to its first access to the store. -/
def Call.start (epoch : Nat) (key : K) (now : Timestamp) (inst : Instance) : Call → Stage K
  | .store observation options jitter captured =>
    MarkerObservations.store epoch key observation options now jitter captured inst
  | .storeSnapshot observation snapshot options captured =>
    MarkerObservations.storeSnapshot epoch key observation snapshot options now captured inst
  | .retainSnapshotFallback snapshot presence options failure captured =>
    MarkerObservations.retainSnapshotFallback epoch key snapshot presence options now failure
      captured inst
  | .mergeMaximum maximum captured => .merge key maximum now captured

inductive Action where
  | call (task : TaskId) (kind : MarkerKind) (call : Call) (now : Timestamp) (inst : Instance)
  /-- `marker_cached`: a caller reads the slot and keeps what it finds. -/
  | read (task : TaskId) (kind : MarkerKind) (now : Timestamp)
  | retainFallback (task : TaskId) (options : MarkerOptions) (now : Timestamp)
      (failure : MarkerReadFailure) (inst : Instance)
  | claimEagerRefresh (task : TaskId) (now : Timestamp) (inst : Instance)
  | work (task : TaskId) (inst : Instance)
  /-- A call returns to its caller, or is dropped. -/
  | leave (task : TaskId)
  | maintain (shard : Fin 64) (now : Option Timestamp)
  | invalidateAll
  /-- Time passes and the continuity epoch moves. -/
  | observe (world : Memory.World)

/-- The allocations that somebody can reach. -/
def inUse (s : State K) : List Instance :=
  s.memory.backend.instances ++ s.tasks.values.flatMap fun stage => stage.handles.map (·.inst)

/-- Puts a task at a stage. -/
def State.at (s : State K) (task : TaskId) (stage : Stage K) (memory : MarkerMemory K) : State K :=
  { memory, tasks := s.tasks.insert task stage }

def next [LinearOrder K] (key : MarkerKind → K) (s : State K) : Action → Option (State K)
  | .call task kind call now inst =>
    if (s.tasks.lookup task).isSome ∨ inst ∈ inUse s then none
    else some (s.at task (call.start s.memory.world.epoch (key kind) now inst) s.memory)
  | .read task kind now =>
    if (s.tasks.lookup task).isSome then none
    else
      match getAt s.memory (key kind) now with
      | (none, memory) => some { s with memory }
      | (some current, memory) => some (s.at task (.cached (key kind) current) memory)
  | .retainFallback task options now failure inst =>
    match s.tasks.lookup task with
    | some (.cached key source) =>
      if inst ∈ inUse s then none
      else some (s.at task
        (MarkerObservations.retainFallback s.memory.world.epoch key source options now failure inst)
        s.memory)
    | _ => none
  | .claimEagerRefresh task now inst =>
    match s.tasks.lookup task with
    | some (.cached key current) =>
      if inst ∈ inUse s then none
      else some (s.at task (.cached key current)
        (MarkerObservations.claimEagerRefresh s.memory key current now inst))
    | _ => none
  | .work task inst =>
    match s.tasks.lookup task with
    | none => none
    | some stage =>
      if inst ∈ inUse s then none
      else
        let (stage, memory) := MarkerObservations.work s.memory inst stage
        some (s.at task stage memory)
  | .leave task => some { s with tasks := s.tasks.erase task }
  | .maintain shard now =>
    some { s with memory := { s.memory with
      backend := s.memory.backend.maintain s.memory.world shard now } }
  | .invalidateAll =>
    some { s with memory := { s.memory with backend := s.memory.backend.invalidateAll } }
  | .observe world => some { s with memory := { s.memory with world } }

/-- An empty store and no call under way. -/
def init [LinearOrder K] (limits : Memory.MemoryLimits) (expiry : Memory.MemoryExpiry) (timing : Memory.Timing)
    (route : K → Fin 64) (world : Memory.World) : State K :=
  ⟨Memory.init (.create limits expiry timing route) world, ∅⟩

/-- The observation a slot holds. -/
def State.live [LinearOrder K] (s : State K) (key : K) : Option Observed := s.memory.backend.lookup key

/-! ## What one access does to a slot -/

theorem prepareWrite_value (key : K) (entry : Observed) (time : Memory.WriteTime)
    (event : Memory.MemoryWriteEvent) (inst : Instance) :
    (Memory.prepareWrite key entry time event inst).entry.value = entry.value := by
  unfold Memory.prepareWrite Entry.atInsertion
  dsimp only
  split
  · rfl
  · rfl

theorem prepareWrite_inst {key : K} {entry : Observed} {time : Memory.WriteTime}
    {event : Memory.MemoryWriteEvent} {inst : Instance} (h : entry.inst = inst) :
    (Memory.prepareWrite key entry time event inst).entry.inst = inst := by
  unfold Memory.prepareWrite Entry.atInsertion
  dsimp only
  split
  · exact h
  · rfl

/-- A call that starts has either returned or built one candidate. -/
def Starts (key : K) (now : Timestamp) (captured : Nat) (inst : Instance) (stage : Stage K) :
    Prop :=
  (∃ result, stage = .returned result) ∨
    ∃ entry, entry.inst = inst ∧ stage = .admission key entry now captured

theorem store_starts (epoch : Nat) (key : K) (observation : MarkerObservation)
    (options : MarkerOptions) (now : Timestamp) (jitter : JitterSample) (captured : Nat)
    (inst : Instance) :
    Starts key now captured inst (store epoch key observation options now jitter captured inst) := by
  unfold store
  split
  · exact .inl ⟨_, rfl⟩
  split
  · exact .inl ⟨_, rfl⟩
  · exact .inr ⟨_, rfl, rfl⟩

theorem storeSnapshot_starts (epoch : Nat) (key : K) (observation : MarkerObservation)
    (snapshot : MarkerSnapshot) (options : MarkerOptions) (now : Timestamp) (captured : Nat)
    (inst : Instance) :
    Starts key now captured inst
      (storeSnapshot epoch key observation snapshot options now captured inst) := by
  unfold storeSnapshot
  split
  · exact .inl ⟨_, rfl⟩
  split
  · exact .inl ⟨_, rfl⟩
  split
  · exact .inl ⟨_, rfl⟩
  · exact .inl ⟨_, rfl⟩
  · exact .inr ⟨_, rfl, rfl⟩

theorem retainSnapshotFallback_starts (epoch : Nat) (key : K) (snapshot : MarkerSnapshot)
    (presence : MarkerPresence) (options : MarkerOptions) (now : Timestamp)
    (failure : MarkerReadFailure) (captured : Nat) (inst : Instance) :
    Starts key now captured inst
      (retainSnapshotFallback epoch key snapshot presence options now failure captured inst) := by
  unfold retainSnapshotFallback
  dsimp only
  split
  · exact .inl ⟨_, rfl⟩
  split
  · exact .inl ⟨_, rfl⟩
  split
  · exact .inl ⟨_, rfl⟩
  split
  · exact .inl ⟨_, rfl⟩
  · exact .inl ⟨_, rfl⟩
  · exact .inr ⟨_, rfl, rfl⟩

variable [LinearOrder K]

/-- The representations that somebody can reach. -/
def Known (s : State K) (e : Observed) : Prop :=
  (∃ key, s.memory.backend.stored key = some e) ∨
    ∃ task stage, s.tasks.lookup task = some stage ∧ e ∈ stage.handles

theorem inst_mem_inUse {s : State K} {e : Observed} (h : Known s e) : e.inst ∈ inUse s := by
  rcases h with ⟨key, hstored⟩ | ⟨task, stage, hstage, he⟩
  · exact List.mem_append_left _ (Memory.Backend.stored_inst_mem hstored)
  · refine List.mem_append_right _ (List.mem_flatMap.mpr ⟨stage, ?_, List.mem_map_of_mem he⟩)
    exact AList.mem_values.mpr ⟨task, hstage⟩

/-- An allocation holds one representation. -/
def Coherent (s : State K) : Prop :=
  ∀ e e', Known s e → Known s e' → e.inst = e'.inst → e = e'

/-- What an access leaves under each key: what was there, or an observation that took the place of
a known one of no higher rank, or of nothing. -/
def Raises (s : State K) (memory : MarkerMemory K) : Prop :=
  ∀ key entry, memory.backend.lookup key = some entry →
    s.live key = some entry ∨ s.live key = none ∨
      ∃ expected held, Known s expected ∧ s.live key = some held ∧ held.inst = expected.inst ∧
        expected.value.rank ≤ entry.value.rank

theorem Raises.of_shrinks {s : State K} {memory : MarkerMemory K}
    (h : s.memory.backend.Shrinks memory.backend) : Raises s memory :=
  fun key entry hentry => .inl (h key entry hentry)

theorem getAt_shrinks (memory : MarkerMemory K) (key : K) (now : Timestamp) :
    memory.backend.Shrinks (getAt memory key now).2.backend :=
  memory.backend.read_shrinks memory.world key (some now)

/-- A candidate built for its expected representation raises the slot. -/
theorem insertIfUnchanged_raises {s : State K} {key : K} {expected : Option Observed}
    {entry : Observed} {now : Timestamp} {inst : Instance}
    (hexpected : ∀ e, expected = some e → Known s e ∧ e.value.rank ≤ entry.value.rank) :
    Raises s (insertIfUnchanged s.memory key expected entry now inst).2 := by
  intro k held h
  rcases Memory.Backend.insertIfUnchanged_lookup h with hsame | ⟨rfl, rfl, hunchanged⟩
  · exact .inl hsame
  · refine .inr ?_
    cases expected with
    | none => exact .inl hunchanged
    | some e =>
      obtain ⟨before, hbefore, hinst⟩ := hunchanged
      obtain ⟨hknown, hrank⟩ := hexpected e rfl
      refine .inr ⟨e, before, hknown, hbefore, hinst, ?_⟩
      rw [prepareWrite_value]
      exact hrank

/-- What one access of a call does: it raises slots, and what can be reached afterwards could be
reached before or is one new representation in the allocation `inst`. -/
structure Access (s : State K) (inst : Instance) (stage : Stage K) (memory : MarkerMemory K) :
    Prop where
  raises : Raises s memory
  created : ∃ fresh : Option Observed, (∀ e, fresh = some e → e.inst = inst) ∧
    s.memory.backend.Gains memory.backend fresh ∧
    ∀ e ∈ stage.handles, Known s e ∨ fresh = some e

namespace Access

variable {s : State K} {inst : Instance} {stage : Stage K} {memory : MarkerMemory K}

/-- A call that returns without an access. -/
theorem returned (s : State K) (inst : Instance) (stage : Stage K)
    (h : ∀ e ∈ stage.handles, Known s e) : Access s inst stage s.memory where
  raises := .of_shrinks (.refl _)
  created := ⟨none, fun _ he => (nomatch he), .refl _, fun e he => .inl (h e he)⟩

/-- A read takes nothing in, and hands out something stored. -/
theorem read (s : State K) (inst : Instance) (key : K) (now : Timestamp)
    (h : ∀ e ∈ stage.handles, Known s e ∨ (getAt s.memory key now).1 = some e) :
    Access s inst stage (getAt s.memory key now).2 where
  raises := .of_shrinks (getAt_shrinks s.memory key now)
  created := by
    refine ⟨none, fun _ he => (nomatch he), s.memory.backend.read_gains _ _ key (some now), ?_⟩
    intro e he
    rcases h e he with hknown | hread
    · exact .inl hknown
    · exact .inl (.inl ⟨key, Memory.Backend.read_stored hread⟩)

/-- An insertion of a candidate in a new allocation, over an expected representation of no higher
rank. -/
theorem insert {key : K} {expected : Option Observed} {entry : Observed} {now : Timestamp}
    (hinst : entry.inst = inst)
    (hexpected : ∀ e, expected = some e → Known s e ∧ e.value.rank ≤ entry.value.rank)
    (hhandles : ∀ e ∈ stage.handles, Known s e) :
    Access s inst stage (insertIfUnchanged s.memory key expected entry now inst).2 where
  raises := insertIfUnchanged_raises hexpected
  created := by
    let write := Memory.prepareWrite key entry ⟨now, s.memory.world.instant⟩ .set inst
    refine ⟨some write.entry, fun e he => ?_, ?_, fun e he => .inl (hhandles e he)⟩
    · obtain rfl := Option.some.inj he
      exact prepareWrite_inst hinst
    · exact s.memory.backend.applyWrite_gains _ _ _ write _

/-- Allocations stay coherent when the new one was not in use. -/
theorem coherent (h : Access s inst stage memory) (hs : Coherent s) (hinst : inst ∉ inUse s)
    (task : TaskId) : Coherent (s.at task stage memory) := by
  obtain ⟨fresh, hfresh, hgains, hhandles⟩ := h.created
  have hknown : ∀ e, Known (s.at task stage memory) e → Known s e ∨ fresh = some e := by
    rintro e (⟨key, hstored⟩ | ⟨other, held, hheld, he⟩)
    · rcases hgains key e hstored with hbefore | hnew
      · exact .inl (.inl ⟨key, hbefore⟩)
      · exact .inr hnew
    · by_cases hother : other = task
      · subst hother
        have hstage := Option.some.inj ((AList.lookup_insert s.tasks).symm.trans hheld)
        exact hhandles e (hstage ▸ he)
      · have hbefore := (AList.lookup_insert_ne hother).symm.trans hheld
        exact .inl (.inr ⟨other, held, hbefore, he⟩)
  -- A new representation shares its allocation with nothing that could be reached before.
  have hnew : ∀ e e', Known s e → fresh = some e' → e.inst ≠ e'.inst := by
    intro e e' he he' heq
    exact hinst (hfresh e' he' ▸ heq ▸ inst_mem_inUse he)
  intro e e' he he' heq
  rcases hknown e he with hold | hcreated
  · rcases hknown e' he' with hold' | hcreated'
    · exact hs e e' hold hold' heq
    · exact absurd heq (hnew e e' hold hcreated')
  · rcases hknown e' he' with hold' | hcreated'
    · exact absurd heq.symm (hnew e' e hold' hcreated)
    · exact Option.some.inj (hcreated.symm.trans hcreated')

end Access

/-! ## Calls, access by access -/

theorem Starts.access {s : State K} {key : K} {now : Timestamp} {captured : Nat} {inst : Instance}
    {stage : Stage K} (h : Starts key now captured inst stage) : Access s inst stage s.memory where
  raises := .of_shrinks (.refl _)
  created := by
    rcases h with ⟨result, rfl⟩ | ⟨entry, hinst, rfl⟩
    · exact ⟨none, fun _ he => (nomatch he), .refl _, fun _ he => (nomatch he)⟩
    · refine ⟨some entry, fun e he => Option.some.inj he ▸ hinst, .refl _, fun e he => .inr ?_⟩
      rw [List.mem_singleton.mp he]

theorem call_access (s : State K) (key : K) (call : Call) (now : Timestamp) (inst : Instance) :
    Access s inst (call.start s.memory.world.epoch key now inst) s.memory := by
  cases call with
  | store observation options jitter captured =>
    exact (store_starts _ key observation options now jitter captured inst).access
  | storeSnapshot observation snapshot options captured =>
    exact (storeSnapshot_starts _ key observation snapshot options now captured inst).access
  | retainSnapshotFallback snapshot presence options failure captured =>
    exact (retainSnapshotFallback_starts _ key snapshot presence options now failure captured
      inst).access
  | mergeMaximum maximum captured => exact .returned s inst _ fun e he => (nomatch he)

theorem tryThrottledUnder_eq_some {epoch : Nat} {source copy : Observed} {options : EntryOptions}
    {now : Timestamp} {inst : Instance}
    (h : Entry.tryThrottledUnder epoch source options now inst = .ok (some copy)) :
    source.tryThrottled epoch options.failSafeThrottleDuration now inst = some copy := by
  unfold Entry.tryThrottledUnder at h
  cases hvalid : options.validate with
  | error e => rw [hvalid] at h; cases h
  | ok u => rw [hvalid] at h; exact Except.ok.inj h

theorem retainFallback_access {s : State K} {key : K} {source : Observed} (options : MarkerOptions)
    (now : Timestamp) (failure : MarkerReadFailure) (inst : Instance) (hsource : Known s source) :
    Access s inst
      (retainFallback s.memory.world.epoch key source options now failure inst) s.memory := by
  unfold retainFallback
  dsimp only
  split
  · exact .returned s inst _ fun e he => (nomatch he)
  split
  · exact .returned s inst _ fun e he => (nomatch he)
  · exact .returned s inst _ fun e he => (nomatch he)
  · rename_i copy hcopy
    have hinst := (Entry.tryThrottled_eq_some (tryThrottledUnder_eq_some hcopy)).2.2.1
    refine ⟨.of_shrinks (.refl _), some copy, fun e he => Option.some.inj he ▸ hinst, .refl _, ?_⟩
    intro e he
    rcases List.mem_cons.mp he with rfl | hrest
    · exact .inl hsource
    · exact .inr (by rw [List.mem_singleton.mp hrest])

/-- **Every access of a call raises its slot.** One case for each stage. -/
theorem work_access {s : State K} {stage : Stage K} (inst : Instance)
    (hstage : ∀ e ∈ stage.handles, Known s e) :
    Access s inst (work s.memory inst stage).1 (work s.memory inst stage).2 := by
  cases stage with
  | admission key entry now captured =>
    dsimp only [work]
    split
    · exact .returned s inst _ fun e he => (nomatch he)
    · refine .read s inst key now fun e he => ?_
      rcases List.mem_cons.mp he with rfl | hcurrent
      · exact .inl (hstage e (List.mem_singleton_self e))
      · exact .inr (Option.mem_toList.mp hcurrent)
  | admitting key entry current now captured =>
    have hentry : Known s entry := hstage entry (List.mem_cons_self ..)
    have hinsert : ∀ stage' : Stage K, (∀ e ∈ stage'.handles, Known s e) →
        Access s inst stage' (insertIfUnchanged s.memory key current (entry.withValue
          (entry.value.reconcileMaximum (current.bind fun e => e.value.presence.version?)) inst)
          now inst).2 := by
      intro stage' hhandles
      refine .insert rfl (fun e he => ⟨hstage e ?_, ?_⟩) hhandles
      · exact List.mem_cons_of_mem _ (Option.mem_toList.mpr he)
      · subst he
        show e.value.rank ≤ (entry.value.reconcileMaximum e.value.presence.version?).rank
        rw [MarkerObservation.rank_reconcileMaximum, MarkerObservation.rank_eq_version?]
        exact le_max_right _ _
    dsimp only [work]
    split
    · exact hinsert _ fun e he => List.mem_singleton.mp he ▸ hentry
    · exact hinsert _ fun e he => (nomatch he)
  | merge key maximum now captured =>
    dsimp only [work]
    split
    · exact .returned s inst _ fun e he => (nomatch he)
    split
    · rename_i memory hget
      obtain rfl : (getAt s.memory key now).2 = memory := by rw [hget]
      exact .read s inst key now fun e he => (nomatch he)
    · rename_i current memory hget
      obtain rfl : (getAt s.memory key now).2 = memory := by rw [hget]
      split
      · exact .read s inst key now fun e he => (nomatch he)
      · refine .read s inst key now fun e he => .inr ?_
        rw [hget, List.mem_singleton.mp he]
  | merging key maximum current now captured =>
    have hinsert : ∀ stage' : Stage K, (∀ e ∈ stage'.handles, Known s e) →
        Access s inst stage' (insertIfUnchanged s.memory key (some current) (current.withValue
          (current.value.reconcileMaximum (some maximum)) inst) now inst).2 := by
      intro stage' hhandles
      refine .insert rfl (fun e he => ?_) hhandles
      obtain rfl := Option.some.inj he
      refine ⟨hstage current (List.mem_singleton_self current), ?_⟩
      show current.value.rank ≤ (current.value.reconcileMaximum (some maximum)).rank
      rw [MarkerObservation.rank_reconcileMaximum]
      exact le_max_left _ _
    dsimp only [work]
    split
    · exact hinsert _ fun e he => (nomatch he)
    · exact hinsert _ fun e he => (nomatch he)
  | cached key current => exact .returned s inst _ hstage
  | retaining key source copy failure now =>
    have hinsert : ∀ stage' : Stage K, (∀ e ∈ stage'.handles, Known s e) →
        Access s inst stage' (insertIfUnchanged s.memory key (some source) (copy.withValue
          (.retained source.value.presence failure) inst) now inst).2 := by
      intro stage' hhandles
      refine .insert rfl (fun e he => ?_) hhandles
      obtain rfl := Option.some.inj he
      exact ⟨hstage source (List.mem_cons_self ..), le_refl _⟩
    dsimp only [work]
    split
    · exact hinsert _ fun e he => (nomatch he)
    · exact hinsert _ fun e he => (nomatch he)
  | rereading key observation now =>
    exact .read s inst key now fun e he => (nomatch he)
  | returned result => exact .returned s inst _ fun e he => (nomatch he)

/-- The claim of an eager refresh puts the same observation back. -/
theorem claimEagerRefresh_access {s : State K} {key : K} {current : Observed} (now : Timestamp)
    (inst : Instance) {stage : Stage K} (hcurrent : Known s current)
    (hstage : ∀ e ∈ stage.handles, Known s e) :
    Access s inst stage (claimEagerRefresh s.memory key current now inst) := by
  unfold claimEagerRefresh
  split
  · refine .insert rfl (fun e he => ?_) hstage
    obtain rfl := Option.some.inj he
    exact ⟨hcurrent, le_refl _⟩
  · exact .returned s inst stage hstage

/-! ## Steps and runs -/

/-- What a step leaves: coherent allocations and raised slots. -/
structure Advances (s t : State K) : Prop where
  raises : Raises s t.memory
  coherent : Coherent s → Coherent t

theorem Access.advances {s : State K} {inst : Instance} {stage : Stage K}
    {memory : MarkerMemory K} (h : Access s inst stage memory) (hinst : inst ∉ inUse s)
    (task : TaskId) : Advances s (s.at task stage memory) :=
  ⟨h.raises, fun hs => h.coherent hs hinst task⟩

/-- Nothing becomes reachable. -/
theorem Coherent.anti {s t : State K} (hs : Coherent s) (h : ∀ e, Known t e → Known s e) :
    Coherent t :=
  fun e e' he he' => hs e e' (h e he) (h e' he')

/-- Upkeep of the store, outside of all calls. -/
theorem upkeep_advances {s : State K} {memory : MarkerMemory K} (hraises : Raises s memory)
    (hgains : s.memory.backend.Gains memory.backend none) :
    Advances s { s with memory } where
  raises := hraises
  coherent hs := hs.anti fun e he => by
    rcases he with ⟨key, hstored⟩ | htask
    · rcases hgains key e hstored with hbefore | hnew
      · exact .inl ⟨key, hbefore⟩
      · cases hnew
    · exact .inr htask

variable {key : MarkerKind → K}

theorem known_cached {s : State K} {task : TaskId} {slot : K} {current : Observed}
    (h : s.tasks.lookup task = some (.cached slot current)) : Known s current :=
  .inr ⟨task, _, h, List.mem_singleton_self current⟩

/-- **The step lemma.** One case for each action. -/
theorem next_advances {s t : State K} {a : Action} (h : next key s a = some t) :
    Advances s t := by
  cases a with
  | call task kind call now inst =>
    dsimp only [next] at h
    split at h
    · cases h
    · rename_i hfree
      obtain rfl := Option.some.inj h
      exact (call_access s (key kind) call now inst).advances (fun hin => hfree (.inr hin)) task
  | read task kind now =>
    -- A read creates nothing; any free allocation stands in for the one it does not use.
    obtain ⟨inst, hfree⟩ := Infinite.exists_notMem_finset (inUse s).toFinset
    rw [List.mem_toFinset] at hfree
    dsimp only [next] at h
    split at h
    · cases h
    split at h
    · rename_i memory hget
      obtain rfl : (getAt s.memory (key kind) now).2 = memory := by rw [hget]
      obtain rfl := Option.some.inj h
      exact upkeep_advances (.of_shrinks (getAt_shrinks s.memory (key kind) now))
        (s.memory.backend.read_gains _ _ (key kind) (some now))
    · rename_i current memory hget
      obtain rfl : (getAt s.memory (key kind) now).2 = memory := by rw [hget]
      obtain rfl := Option.some.inj h
      have hread : Access s inst (.cached (key kind) current) (getAt s.memory (key kind) now).2 :=
        .read s inst (key kind) now fun e he => .inr (by rw [hget, List.mem_singleton.mp he])
      exact hread.advances hfree task
  | retainFallback task options now failure inst =>
    dsimp only [next] at h
    split at h
    · rename_i slot source hstage
      split at h
      · cases h
      · rename_i hfree
        obtain rfl := Option.some.inj h
        exact (retainFallback_access options now failure inst
          (known_cached hstage)).advances hfree task
    · cases h
  | claimEagerRefresh task now inst =>
    dsimp only [next] at h
    split at h
    · rename_i slot current hstage
      have hknown := known_cached hstage
      split at h
      · cases h
      · rename_i hfree
        obtain rfl := Option.some.inj h
        have haccess : Access s inst (.cached slot current)
            (MarkerObservations.claimEagerRefresh s.memory slot current now inst) :=
          claimEagerRefresh_access now inst hknown fun e he => List.mem_singleton.mp he ▸ hknown
        exact haccess.advances hfree task
    · cases h
  | work task inst =>
    dsimp only [next] at h
    split at h
    · cases h
    · rename_i stage hstage
      split at h
      · cases h
      · rename_i hfree
        obtain rfl := Option.some.inj h
        exact (work_access inst fun e he => .inr ⟨task, stage, hstage, he⟩).advances hfree task
  | leave task =>
    obtain rfl := Option.some.inj h
    refine ⟨.of_shrinks (.refl _), fun hs => hs.anti fun e he => ?_⟩
    rcases he with hstored | ⟨other, stage, hstage, he⟩
    · exact .inl hstored
    · have hne : other ≠ task := by
        rintro rfl
        exact absurd hstage (by rw [AList.lookup_erase]; exact nofun)
      exact .inr ⟨other, stage, (AList.lookup_erase_ne hne).symm.trans hstage, he⟩
  | maintain shard now =>
    obtain rfl := Option.some.inj h
    exact upkeep_advances (.of_shrinks (s.memory.backend.maintain_shrinks _ shard now))
      (s.memory.backend.maintain_gains _ shard now)
  | invalidateAll =>
    obtain rfl := Option.some.inj h
    refine upkeep_advances (fun slot entry hentry => ?_) s.memory.backend.invalidateAll_gains
    rcases Memory.Backend.invalidateAll_lookup hentry with hsame | hnone
    · exact .inl hsame
    · exact .inr (.inl hnone)
  | observe world =>
    obtain rfl := Option.some.inj h
    exact upkeep_advances (.of_shrinks (.refl _)) (.refl _)

theorem coherent_init (limits : Memory.MemoryLimits) (expiry : Memory.MemoryExpiry)
    (timing : Memory.Timing) (route : K → Fin 64) (world : Memory.World) :
    Coherent (init limits expiry timing route world) := by
  rintro e e' (⟨slot, hstored⟩ | ⟨task, stage, hstage, he⟩) he' heq
  · unfold init Memory.init Memory.Backend.create at hstored
    dsimp only at hstored
    split at hstored
    · cases hstored
    · cases hstored
  · cases hstage

/-- While the slot of a kind is occupied, a step does not lower what it holds. -/
theorem rank_le_of_next {s t : State K} {a : Action} {slot : K} {before after : Observed}
    (hs : Coherent s) (h : next key s a = some t) (hbefore : s.live slot = some before)
    (hafter : t.live slot = some after) : before.value.rank ≤ after.value.rank := by
  rcases (next_advances h).raises slot after hafter with hsame | hnone | hraised
  · rw [Option.some.inj (hbefore.symm.trans hsame)]
  · exact absurd (hbefore.symm.trans hnone) (Option.some_ne_none before)
  · obtain ⟨expected, held, hknown, hheld, hinst, hrank⟩ := hraised
    obtain rfl := Option.some.inj (hbefore.symm.trans hheld)
    -- The compared allocation still holds the representation that was read.
    have hsame := hs before expected (.inl ⟨slot, Memory.Backend.stored_of_lookup hbefore⟩) hknown
      hinst
    rw [hsame]
    exact hrank

/-- From one moment to a later one, with the slot occupied in between. -/
theorem rank_le_of_exec {s t : State K} {as : List Action} {slot : K} {before after : Observed}
    (hs : Coherent s) (hrun : Run.exec (next key) s as = some t)
    (hlive : Run.Along (next key) (fun m _ => (m.live slot).isSome) s as)
    (hbefore : s.live slot = some before) (hafter : t.live slot = some after) :
    before.value.rank ≤ after.value.rank := by
  induction as generalizing s before with
  | nil =>
    obtain rfl : s = t := by simpa using hrun
    rw [Option.some.inj (hbefore.symm.trans hafter)]
  | cons a as ih =>
    obtain ⟨m, ha, hrest⟩ := Run.exec_cons_eq_some.mp hrun
    have hm := hlive.2 m ha
    obtain ⟨held, hheld⟩ : ∃ held, m.live slot = some held := by
      cases as with
      | nil =>
        obtain rfl : m = t := by simpa using hrest
        exact ⟨after, hafter⟩
      | cons b bs => exact Option.isSome_iff_exists.mp hm.1
    calc before.value.rank
        ≤ held.value.rank := rank_le_of_next hs ha hbefore hheld
      _ ≤ after.value.rank := ih ((next_advances ha).coherent hs) hrest hm hheld

/-- **A live observation is monotone.** Between any two moments of any run, if the slot of a kind
is occupied all the time and held a present version, it still holds one that is no smaller. -/
theorem observations_monotone (key : MarkerKind → K) {limits : Memory.MemoryLimits}
    {expiry : Memory.MemoryExpiry} {timing : Memory.Timing} {route : K → Fin 64}
    {world : Memory.World} {s t : State K} {as : List Action} {kind : MarkerKind}
    {before after : Observed} {version : MarkerVersion}
    (hs : Run.Reachable (next key) (init limits expiry timing route world) s)
    (hrun : Run.exec (next key) s as = some t)
    (hlive : Run.Along (next key) (fun m _ => (m.live (key kind)).isSome) s as)
    (hbefore : s.live (key kind) = some before) (hafter : t.live (key kind) = some after)
    (hpresent : before.value.presence = .present version) :
    ∃ later, after.value.presence = .present later ∧ version ≤ later := by
  have hcoherent : Coherent s :=
    hs.invariant (coherent_init limits expiry timing route world)
      fun m a n hm ha => (next_advances ha).coherent hm
  have hrank := rank_le_of_exec hcoherent hrun hlive hbefore hafter
  rw [MarkerObservation.rank, hpresent] at hrank
  cases hlater : after.value.presence with
  | present later =>
    rw [MarkerObservation.rank, hlater] at hrank
    exact ⟨later, rfl, WithBot.coe_le_coe.mp hrank⟩
  | absent =>
    rw [MarkerObservation.rank, hlater] at hrank
    exact absurd (le_bot_iff.mp hrank) WithBot.coe_ne_bot

/-- A version is observed; then a later one is merged into what is there. -/
def observing : List Action :=
  [.call 0 .clearRemove (.store (.confirmed (.present epochStart)) ⟨subTickOptions, false⟩
      ⟨.fromSecs 0⟩ 0) epochStart 1,
    .work 0 2, .work 0 3]

def merging : List Action :=
  [.call 1 .clearRemove (.mergeMaximum Timestamp.MAX 0) epochStart 4, .work 1 5, .work 1 6]

theorem observations_monotone_merging_run :
    ∃ s t after later, Run.exec (next fun _ => 0)
        (init ⟨none, none⟩ .clockDriven .interoperable (fun _ => 0) ⟨0, 0⟩) observing = some s ∧
      Run.exec (next fun _ => 0) s merging = some t ∧ t.live 0 = some after ∧
      after.value.presence = .present later ∧ epochStart ≤ later := by
  obtain ⟨later, hlater⟩ := @observations_monotone Nat _ (fun _ => 0) ⟨none, none⟩ .clockDriven
    .interoperable (fun _ => 0) ⟨0, 0⟩ _ _ merging .clearRemove _ _ epochStart ⟨observing, rfl⟩ rfl
    (Run.along_cons rfl rfl (Run.along_cons rfl rfl (Run.along_cons rfl rfl trivial))) rfl rfl rfl
  exact ⟨_, _, _, later, rfl, rfl, rfl, hlater⟩

end MarkerObservations

end Amalgam
