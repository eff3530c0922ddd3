import Amalgam.Lib.PlainMap
import Amalgam.Lib.Run
import Amalgam.Memory.Sharded

/-!
# Amalgam — the shards of unbounded memory storage

`src/memory/sharded.rs` and `src/memory/sharded/plain.rs` at the grain of their locks. A key
is routed to one of 64 maps, each behind its own lock and with its own weight; the clear
generation is one atomic counter beside them. A write takes its shard, loads the generation
and then changes the map, and a clear may fall in between. A `get` that finds its entry
retired gives the shard back before it takes it again to remove the entry.

The registry of origins behind the same locks is left out: a candidate is compared with the
counters its step is given. So is the reuse of a payload in place, which stores the same
value, generation and deadlines.
-/

namespace Amalgam

namespace Memory

namespace Shards

variable {K V : Type} [LinearOrder K]

/-- What a write binds a key to. -/
structure Binding (V : Type) where
  entry : Entry V
  deadlines : Deadlines

/-- A read at this moment finds the binding ineligible or physically expired. -/
def Binding.unavailable {V : Type} (b : Binding V) (world : World) (now : Option Timestamp) :
    Bool :=
  !b.entry.isReadEligible world.epoch
    || b.deadlines.physicallyExpired b.entry.metadata now world.instant

def binding {V : Type} (stored : Sharded.Stored V) : Binding V := ⟨stored.entry, stored.deadlines⟩

/-! ## One shard, under its lock -/

structure Shard (K V : Type) where
  entries : AList fun _ : K => Sharded.Stored V
  weight : Nat

namespace Shard

/-- `remove_same`. -/
def removeSame (shard : Shard K V) (key : K) (expected : Option (Entry V)) :
    Option (Sharded.Stored V) × Shard K V :=
  match shard.entries.lookup key with
  | none => (none, shard)
  | some stored =>
    if expected.all fun entry => stored.entry.isSameInstance entry then
      (some stored,
        { entries := shard.entries.erase key
          weight := shard.weight - stored.entry.metadata.weight })
    else (none, shard)

/-- `insert_prepared`, from the load of the generation on. -/
def insertPrepared (shard : Shard K V) (cells : Cells) (generation : Nat) (deadlines : Deadlines)
    (write : PreparedWrite K V) (expected : Expected V) : RetentionCommit K V × Shard K V :=
  if generation = u64Max then (.rejected .generationExhausted [], shard)
  else
    let current := shard.entries.lookup write.key
    let visible := current.filter fun stored => stored.generation = generation
    if !expected.matchesGeneration cells (visible.map (·.entry)) generation then
      (.rejected .versionChanged [], shard)
    else
      let oldWeight := current.elim 0 (·.entry.metadata.weight)
      let reason := match write.event with
        | .set => if visible.isSome then .replaced else .continuity
        | .expire => .metadata
      let retired := current.toList.map fun stored => ⟨write.key, stored.entry, reason⟩
      let admission := if visible.isSome then .replaced else .admitted
      (⟨admission, retired⟩,
        { entries := shard.entries.insert write.key ⟨write.entry, generation, deadlines⟩
          weight := shard.weight - oldWeight + write.entry.metadata.weight })

/-- `insert_plain`, from the load of the generation on. -/
def insertPlain (shard : Shard K V) (generation : Nat) (deadlines : Deadlines) (key : K)
    (value : V) (metadata : Sharded.PlainMetadata) (inst : Instance) :
    RetentionCommit K V × Shard K V :=
  if generation = u64Max then (.rejected .generationExhausted [], shard)
  else
    let entry := Entry.intoFresh value metadata.created metadata.expires inst
    let previous := shard.entries.lookup key
    let replacing := previous.any fun stored => stored.generation = generation
    let reason : RetirementReason := if replacing then .replaced else .continuity
    let retired := previous.toList.map fun stored => ⟨key, stored.entry, reason⟩
    let oldWeight := previous.elim 0 (·.entry.metadata.weight)
    (⟨if replacing then .replaced else .admitted, retired⟩,
      { entries := shard.entries.insert key ⟨entry, generation, deadlines⟩
        weight := shard.weight - oldWeight + 1 })

/-- `expire_locked`, from the load of the generation on. -/
def expireLocked (shard : Shard K V) (generation : Nat) (world : World)
    (now : Option Timestamp) : List (Retirement K V) × Shard K V :=
  let dead := shard.entries.entries.filterMap fun ⟨key, stored⟩ =>
    (stored.retirementReason world now generation).map fun reason =>
      Retirement.mk key stored.entry reason
  (dead, dead.foldl (fun shard retirement => (shard.removeSame retirement.key none).2) shard)

end Shard

/-! ## The store -/

/-- What is fixed when the store is created. -/
structure Layout (K : Type) where
  route : K → Fin 64
  expiry : MemoryExpiry
  timing : Timing

/-- A writer inside its shard, with the generation it loaded. -/
inductive Held (K V : Type) where
  | insertPrepared (cells : Cells) (generation : Nat) (deadlines : Deadlines)
      (write : PreparedWrite K V) (expected : Expected V)
  | insertPlain (generation : Nat) (deadlines : Deadlines) (key : K) (value : V)
      (metadata : Sharded.PlainMetadata) (inst : Instance)
  | expire (generation : Nat) (world : World) (now : Option Timestamp)

/-- What a held insertion is about to bind, if it is admitted. -/
def Held.admits (shard : Shard K V) : Held K V → Option (K × Binding V)
  | .insertPrepared cells generation deadlines write expected =>
    if (shard.insertPrepared cells generation deadlines write expected).1.admission.stored then
      some (write.key, ⟨write.entry, deadlines⟩)
    else none
  | .insertPlain generation deadlines key value metadata inst =>
    if (shard.insertPlain generation deadlines key value metadata inst).1.admission.stored then
      some (key, ⟨Entry.intoFresh value metadata.created metadata.expires inst, deadlines⟩)
    else none
  | .expire .. => none

abbrev TaskId := Nat

/-- A `get` between its two critical sections: what it found retired, and when. -/
structure Candidate (K V : Type) where
  key : K
  entry : Entry V
  world : World
  now : Option Timestamp

/-- Why a binding ended without being replaced or cleared. -/
inductive Ended where
  | removed
  | retired (world : World) (now : Option Timestamp)

abbrev Event (K V : Type) := PlainMap.Event K (Binding V) Ended

structure State (K V : Type) where
  shards : Fin 64 → Shard K V
  generation : Nat
  held : Fin 64 → Option (Held K V)
  candidates : AList fun _ : TaskId => Candidate K V
  /-- What the operations amount to on a plain map, newest first. -/
  log : List (Event K V)

namespace State

/-- A writer takes its shard. An insertion is in force from here on. -/
def acquire (s : State K V) (i : Fin 64) (held : Held K V) : Option (State K V) :=
  if (s.held i).isSome then none
  else
    some { s with
      held := Function.update s.held i (some held)
      log := (held.admits (s.shards i)).toList.map (fun b => .put b.1 b.2) ++ s.log }

def release (s : State K V) (i : Fin 64) (shard : Shard K V) (events : List (Event K V)) :
    State K V :=
  { s with
    shards := Function.update s.shards i shard
    held := Function.update s.held i none
    log := events ++ s.log }

/-- The keys of the present generation among the retired. -/
def retiredNow (retired : List (Retirement K V)) : List K :=
  (retired.filter fun retirement => retirement.reason ≠ .continuity).map (·.key)

/-- The first critical section of `get`. -/
def peek (s : State K V) (layout : Layout K) (world : World) (key : K) (now : Option Timestamp) :
    Option (Sharded.Stored V × Option RetirementReason) :=
  ((s.shards (layout.route key)).entries.lookup key).map fun stored =>
    (stored, stored.retirementReason world now s.generation)

/-- What `get` answers: a retired entry is `Expired` or `Raced`, and nothing to the caller. -/
def read (s : State K V) (layout : Layout K) (world : World) (key : K) (now : Option Timestamp) :
    Option (Entry V) :=
  (s.peek layout world key now).bind fun found =>
    if found.2.isNone then some found.1.entry else none

end State

inductive Action (K V : Type) where
  | insertPrepared (cells : Cells) (write : PreparedWrite K V) (expected : Expected V)
  | insertPlain (key : K) (value : V) (metadata : Sharded.PlainMetadata) (time : WriteTime)
      (inst : Instance)
  /-- `expire`, and one of the eight shards of `maintain_step`. -/
  | expire (shard : Fin 64) (world : World) (now : Option Timestamp)
  /-- The writer in the shard changes the map and leaves. -/
  | finish (shard : Fin 64)
  /-- `remove` and `remove_as_mutation`. -/
  | remove (key : K) (expected : Option (Entry V))
  | get (task : TaskId) (world : World) (key : K) (now : Option Timestamp)
  /-- The second critical section of a `get`. -/
  | settle (task : TaskId)
  | beginClear

/-- A map operation of one critical section. -/
def atomically (s : State K V) (i : Fin 64) (shard : Shard K V) (events : List (Event K V)) :
    Option (State K V) :=
  if (s.held i).isSome then none
  else some { s with shards := Function.update s.shards i shard, log := events ++ s.log }

def next (layout : Layout K) (s : State K V) : Action K V → Option (State K V)
  | .insertPrepared cells write expected =>
    let deadlines := layout.timing.prepareBoundaries write.entry.metadata.logicalExpiration
      write.entry.metadata.physicalExpiration write.time layout.expiry
    s.acquire (layout.route write.key)
      (.insertPrepared cells s.generation deadlines write expected)
  | .insertPlain key value metadata time inst =>
    let deadlines :=
      layout.timing.prepareBoundaries metadata.expires metadata.expires time layout.expiry
    -- The representation is allocated here, so no handle to it exists.
    if s.candidates.values.any fun candidate => candidate.entry.inst = inst then none
    else
      s.acquire (layout.route key) (.insertPlain s.generation deadlines key value metadata inst)
  | .expire shard world now => s.acquire shard (.expire s.generation world now)
  | .finish i =>
    (s.held i).map fun
      | .insertPrepared cells generation deadlines write expected =>
        s.release i ((s.shards i).insertPrepared cells generation deadlines write expected).2 []
      | .insertPlain generation deadlines key value metadata inst =>
        s.release i ((s.shards i).insertPlain generation deadlines key value metadata inst).2 []
      | .expire generation world now =>
        let expired := (s.shards i).expireLocked generation world now
        s.release i expired.2
          (if generation = s.generation then
            (State.retiredNow expired.1).map (PlainMap.Event.drop · (.retired world now))
          else [])
  | .remove key expected =>
    let removed := (s.shards (layout.route key)).removeSame key expected
    atomically s (layout.route key) removed.2
      (if expected.isNone || removed.1.isSome then [.drop key .removed] else [])
  | .get task world key now =>
    if (s.held (layout.route key)).isSome || (s.candidates.lookup task).isSome then none
    else
      match s.peek layout world key now with
      | some (stored, some _) =>
        some { s with candidates := s.candidates.insert task ⟨key, stored.entry, world, now⟩ }
      | some (_, none) | none => some s
  | .settle task =>
    (s.candidates.lookup task).bind fun candidate =>
      let i := layout.route candidate.key
      let removed := (s.shards i).removeSame candidate.key (some candidate.entry)
      atomically { s with candidates := s.candidates.erase task } i removed.2
        (if removed.1.any fun stored => stored.generation = s.generation then
          [.drop candidate.key (.retired candidate.world candidate.now)]
        else [])
  | .beginClear =>
    some { s with generation := saturatingSucc s.generation, log := .clear :: s.log }

def init : State K V where
  shards := fun _ => ⟨∅, 0⟩
  generation := 1
  held := fun _ => none
  candidates := ∅
  log := []

end Shards

end Memory

end Amalgam
