import Amalgam.Cache.Fallback

/-!
# Amalgam — `get_or_set`

`lookup_origin`, `compute_origin`, `fallback` and `eager` of `src/cache/read.rs` with
`store_product` and the end of `write_entry` of `src/cache/write.rs`, for a cache with the locks of
`KeyedLock`. A call reads L1, waits for the lock of its key, reads L1 again, reads L2, and hands the
lock over to its origin, which runs on when the call stops waiting. The product is stored before the
lock is given back. An eager refresh tries the lock and runs its origin in the background.

Other callers may do anything to L1 at any time; so does a hydration of L1, whose fences are those
of `Cache.Hybrid`, and whether a product is still current when it is stored is decided there too.
-/

namespace Amalgam

namespace GetOrSet

abbrev CallId := Nat
abbrev LeaseId := Nat

inductive Timeout where
  | infinite
  | after (duration : Duration)
deriving DecidableEq

namespace Timeout

def isInfinite (t : Timeout) : Bool := t = .infinite

def isZero : Timeout → Bool
  | .infinite => false
  | .after duration => duration.asNanos = 0

/-- `min` -/
def least : Timeout → Timeout → Timeout
  | .infinite, other => other
  | self, .infinite => self
  | .after a, .after b => if b.asNanos < a.asNanos then .after b else .after a

end Timeout

/-- What a call reads of `EntryOptions`; options are validated before. -/
structure Options extends Fallback.EntryOptions where
  memoryLockTimeout : Timeout
  factorySoftTimeout : Timeout
  factoryHardTimeout : Timeout
  skipDistributedReadWhenStale : Bool
  skipDistributedLocker : Bool
  rethrowDistributedLockerExceptions : Bool

namespace Options

/-- `appropriate_factory_timeout` -/
def appropriateFactoryTimeout (opts : Options) (hasFallback : Bool) : Timeout :=
  let selected :=
    if opts.isFailSafeEnabled && hasFallback && !opts.factorySoftTimeout.isInfinite then
      opts.factorySoftTimeout
    else .infinite
  selected.least opts.factoryHardTimeout

/-- How long `acquire_lock` waits for the local lock. -/
def lockTimeout (opts : Options) (stale : Bool) : Timeout :=
  if opts.memoryLockTimeout.isInfinite && opts.isFailSafeEnabled && stale then
    opts.factorySoftTimeout
  else opts.memoryLockTimeout

end Options

inductive LeasePolicy where
  | cooperative
  | fenced
deriving DecidableEq

structure Config (V : Type) where
  /-- `copy`: the value cloner may fail. -/
  copy : V → Option V
  distributedLocker : Bool
  leasePolicy : LeasePolicy

inductive OriginKind where
  | factory
  | constant
deriving DecidableEq

/-- `should_eager_refresh` -/
def shouldEagerRefresh {V : Type} (e : Entry V) (now : Timestamp) : Bool :=
  match e.metadata.origin with
  | .fresh (some at_) => !now.isBefore at_ && now.isBefore e.metadata.logicalExpiration
  | _ => false

inductive L1Read (V : Type) where
  | fresh (entry : Entry V)
  | stale (entry : Entry V)
  | miss

def L1Read.isFresh {V : Type} : L1Read V → Bool
  | .fresh _ => true
  | _ => false

inductive LocalParticipation where
  | held
  | unlockedAfterTimeout
deriving DecidableEq

/-- `FlightGuard` -/
structure Guard where
  participation : LocalParticipation
  lease : Option LeaseId
deriving DecidableEq

/-- Why a call falls back. -/
inductive Cause where
  | failed
  | timedOut
deriving DecidableEq

inductive Error where
  | factory
  | factoryTimeout
  | lockTimeout
  | other
deriving DecidableEq

inductive Reply (V : Type) where
  /-- A fresh entry of L1. -/
  | hit (value : V)
  | distributed (value : V)
  /-- The stale entry, because the lock was not to be had in time. -/
  | stale (value : V)
  /-- What `fallback` served. -/
  | fallback (value : V)
  | product (value : V)
  | error (error : Error)

inductive CallPc (V : Type) where
  -- `read_l1`; with `OriginLock::Held` the lock is there from the start.
  | firstGet (lock : Option Guard)
  | firstJudge (lock : Option Guard) (got : Entry V) (epoch : Nat)
  -- `refresh_and_serve`
  | refresh (current : Entry V)
  -- `acquire_lock`
  | lock (stale : Option (Entry V))
  | lease (participation : LocalParticipation) (stale : Option (Entry V))
  | secondGet (guard : Guard) (stale : Option (Entry V))
  | secondJudge (guard : Guard) (stale : Option (Entry V)) (got : Entry V) (epoch : Nat)
  -- `read_l2` and `hydrate`
  | fetch (guard : Guard) (stale : Option (Entry V))
  | hydrate (guard : Guard) (stale : Option (Entry V)) (found : Entry V) (fresh : Bool)
  -- `compute_origin`
  | compute (guard : Guard) (stale : Option (Entry V))
  | waiting (stale : Option (Entry V)) (timeout : Timeout)
  | fallback (stale : Option (Entry V)) (cause : Cause)
  | done (reply : Reply V)
  | dropped

inductive FlightResult (V : Type) where
  | value (value : V)
  | distributed (value : V)
  | factoryError
  | error
  | cancelled

inductive FlightPc (V : Type) where
  -- An eager refresh looks for a lease and into L2 first.
  | lease (current : Entry V)
  | fetch (current : Entry V)
  | hydrate (found : Entry V)
  | begun
  | running
  | storing (value : V)
  /-- L2 and the backplane; an entry of a fenced write enters L1 after L2 has taken it. -/
  | committing (value : V) (pending : Option (Entry V)) (background : Bool)
  | ended (result : FlightResult V)

/-- An origin, with the lock and the lease that it was given. -/
structure Flight (V : Type) where
  pc : FlightPc V
  guard : Guard

/-- A call and the origin that it started. -/
structure Work (K V : Type) where
  key : K
  kind : OriginKind
  opts : Options
  default : Option V
  call : CallPc V
  flight : Option (Flight V)

inductive Event (K V : Type) where
  | locked (call : CallId) (key : K)
  | released (call : CallId) (key : K)
  | looked (call : CallId) (key : K) (found : L1Read V)
  | fetched (call : CallId) (entry : Entry V) (fresh : Bool)
  /-- The wait for the local lock was over without it. -/
  | unlocked (call : CallId)
  /-- The origin of a call or of an eager refresh starts; a call that reads L1 has `reads`. -/
  | invoked (call : CallId) (key : K) (participation : LocalParticipation) (reads : Bool)
  | failed (call : CallId)
  | timedOut (call : CallId)
  | stored (call : CallId) (key : K) (participation : LocalParticipation) (entry : Entry V)
  | produced (call : CallId) (value : V)

structure Shared (K V : Type) where
  memory : Memory.State K V
  locks : AList fun _ : K => CallId
  leases : AList fun _ : LeaseId => CallId
  history : List (Event K V)

structure State (K V : Type) where
  shared : Shared K V
  work : AList fun _ : CallId => Work K V

/-- What an awaited operation answers, and the clock. -/
inductive Input (V : Type) where
  | ready (now : Timestamp)
  | judged (verdict : TagVerdict) (now : Timestamp)
  | failed
  | timedOut
  | granted (lease : LeaseId)
  | refused
  | found (entry : Option (Entry V)) (verdict : TagVerdict) (now : Timestamp)
  | product (value : V)
  | leaseLost
  /-- A fallback or a prepared entry needs an allocation that is not in use. -/
  | write (now : Timestamp) (inst : Instance)
  | commit (current : Bool) (entry : Option Metadata) (fenced background : Bool) (now : Timestamp)
      (inst : Instance)

section

variable {K V : Type} [LinearOrder K]

namespace Shared

def record (sh : Shared K V) (e : Event K V) : Shared K V := { sh with history := e :: sh.history }

/-- The drop of a `FlightGuard`. -/
def release (sh : Shared K V) (c : CallId) (key : K) (guard : Guard) : Shared K V :=
  let leases := match guard.lease with
    | none => sh.leases
    | some lease => sh.leases.erase lease
  match guard.participation with
  | .held =>
    { sh with leases, locks := sh.locks.erase key, history := .released c key :: sh.history }
  | .unlockedAfterTimeout => { sh with leases }

/-- The drop of the lock of a lookup, if it has one. -/
def releaseLock (sh : Shared K V) (c : CallId) (key : K) (lock : Option Guard) : Shared K V :=
  match lock with
  | none => sh
  | some guard => sh.release c key guard

def insertAt (sh : Shared K V) (key : K) (entry : Entry V) (now : Timestamp) (inst : Instance) :
    Shared K V :=
  { sh with memory := Fallback.insertAt sh.memory key entry now inst }

end Shared

namespace Work

def at_ (w : Work K V) (call : CallPc V) : Work K V := { w with call }

def fly (w : Work K V) (pc : FlightPc V) (guard : Guard) : Work K V :=
  { w with flight := some ⟨pc, guard⟩ }

end Work

/-- `served`, or the error of the value cloner. -/
def served (cfg : Config V) (reply : V → Reply V) (value : V) : CallPc V :=
  match cfg.copy value with
  | none => .done (.error .other)
  | some value => .done (reply value)

/-- The end of `read_l1`: what the entry is worth now, and whether it has to go. -/
def judge (epoch captured : Nat) (got : Entry V) (verdict : TagVerdict) (now : Timestamp) :
    L1Read V × Bool :=
  if epoch ≠ captured || !got.isReadEligible epoch || got.isPhysicallyExpired now then
    (.miss, false)
  else
    match verdict with
    | .remove => (.miss, true)
    | .expire => (.stale got, false)
    | .valid =>
      match got.freshness now with
      | .fresh => (.fresh got, false)
      | .stale => (.stale got, false)

/-- `remove_if_same` of an entry whose tag was removed. -/
def Shared.judged (sh : Shared K V) (c : CallId) (key : K) (got : Entry V)
    (read : L1Read V × Bool) : Shared K V :=
  let memory :=
    if read.2 then { sh.memory with backend := (sh.memory.backend.removed key (some got)).2 }
    else sh.memory
  { sh with memory, history := .looked c key read.1 :: sh.history }

/-- Where a lookup begins. -/
def start (opts : Options) (lock : Option Guard) : CallPc V :=
  if !opts.skipMemoryRead then .firstGet lock
  else
    match lock with
    | none => .lock none
    | some guard => .fetch guard none

/-- After `acquire_lock`. -/
def afterLock (w : Work K V) (guard : Guard) (stale : Option (Entry V)) : CallPc V :=
  if w.opts.skipMemoryRead then .fetch guard stale else .secondGet guard stale

/-- After the first look: to the lock, or on with the lock that is held. -/
def afterFirst (w : Work K V) (lock : Option Guard) (stale : Option (Entry V)) : CallPc V :=
  match lock with
  | none => .lock stale
  | some guard => afterLock w guard stale

/-- The local part of `acquire_lock` is done. -/
def withLocal (cfg : Config V) (w : Work K V) (participation : LocalParticipation)
    (stale : Option (Entry V)) : CallPc V :=
  if w.opts.skipDistributedLocker || !cfg.distributedLocker then
    afterLock w ⟨participation, none⟩ stale
  else .lease participation stale

/-! ## A call -/

def stepCall (cfg : Config V) (sh : Shared K V) (c : CallId) (w : Work K V) (input : Input V) :
    Option (Work K V × Shared K V) :=
  match w.call, input with
  | .firstGet lock, .ready now =>
    let (got, backend) := sh.memory.backend.read sh.memory.world w.key (some now)
    let read := { sh with memory := { sh.memory with backend } }
    match got with
    | none => some (w.at_ (afterFirst w lock none), read.record (.looked c w.key .miss))
    | some entry => some (w.at_ (.firstJudge lock entry sh.memory.world.epoch), read)
  | .firstJudge lock got epoch, .judged verdict now =>
    let read := judge sh.memory.world.epoch epoch got verdict now
    let looked := sh.judged c w.key got read
    match read.1 with
    | .fresh entry =>
      let call := if w.kind = .factory ∧ shouldEagerRefresh entry now then .refresh entry
        else served cfg .hit entry.value
      some (w.at_ call, looked.releaseLock c w.key lock)
    | .stale entry => some (w.at_ (afterFirst w lock (some entry)), looked)
    | .miss => some (w.at_ (afterFirst w lock none), looked)
  | .refresh current, .ready _ =>
    let call := served cfg .hit current.value
    match sh.locks.lookup w.key with
    | some _ => some (w.at_ call, sh)
    | none =>
      let pc := if w.opts.skipDistributedLocker || !cfg.distributedLocker then .fetch current
        else .lease current
      some ((w.at_ call).fly pc ⟨.held, none⟩,
        { sh with locks := sh.locks.insert w.key c, history := .locked c w.key :: sh.history })
  | .lock stale, .ready _ =>
    match sh.locks.lookup w.key with
    | some _ => none
    | none =>
      if (w.opts.lockTimeout stale.isSome).isZero then none
      else
        some (w.at_ (withLocal cfg w .held stale),
          { sh with locks := sh.locks.insert w.key c, history := .locked c w.key :: sh.history })
  | .lock stale, .timedOut =>
    if (w.opts.lockTimeout stale.isSome).isInfinite then none
    else
      match stale with
      | some entry =>
        if w.opts.isFailSafeEnabled then
          some (w.at_ (served cfg .stale entry.value), sh.record (.unlocked c))
        else
          some (w.at_ (withLocal cfg w .unlockedAfterTimeout stale), sh.record (.unlocked c))
      | none => some (w.at_ (withLocal cfg w .unlockedAfterTimeout stale), sh.record (.unlocked c))
  | .lock _, .failed => some (w.at_ (.done (.error .other)), sh)
  | .lease participation stale, .granted lease =>
    match sh.leases.lookup lease with
    | some _ => none
    | none =>
      some (w.at_ (afterLock w ⟨participation, some lease⟩ stale),
        { sh with leases := sh.leases.insert lease c })
  | .lease participation _, .refused =>
    some (w.at_ (.done (.error .lockTimeout)), sh.release c w.key ⟨participation, none⟩)
  | .lease participation stale, .failed =>
    if w.opts.rethrowDistributedLockerExceptions || cfg.leasePolicy = .fenced then
      some (w.at_ (.done (.error .other)), sh.release c w.key ⟨participation, none⟩)
    else some (w.at_ (afterLock w ⟨participation, none⟩ stale), sh)
  | .secondGet guard stale, .ready now =>
    let (got, backend) := sh.memory.backend.read sh.memory.world w.key (some now)
    let read := { sh with memory := { sh.memory with backend } }
    match got with
    | none => some (w.at_ (.fetch guard stale), read.record (.looked c w.key .miss))
    | some entry => some (w.at_ (.secondJudge guard stale entry sh.memory.world.epoch), read)
  | .secondJudge guard stale got epoch, .judged verdict now =>
    let read := judge sh.memory.world.epoch epoch got verdict now
    let looked := sh.judged c w.key got read
    match read.1 with
    | .fresh entry =>
      some (w.at_ (served cfg .hit entry.value), looked.release c w.key guard)
    | .stale entry => some (w.at_ (.fetch guard (some entry)), looked)
    | .miss => some (w.at_ (.fetch guard stale), looked)
  | .fetch guard stale, .found found verdict now =>
    if stale.isSome ∧ w.opts.skipDistributedReadWhenStale then
      some (w.at_ (.compute guard stale), sh)
    else
      match found with
      | none => some (w.at_ (.compute guard stale), sh)
      | some entry =>
        if verdict = .remove then some (w.at_ (.compute guard stale), sh)
        else
          let fresh := verdict = .valid ∧ entry.freshness now = .fresh
          some (w.at_ (.hydrate guard stale entry fresh), sh.record (.fetched c entry fresh))
  | .hydrate guard stale found fresh, .ready _ =>
    if fresh then some (w.at_ (served cfg .distributed found.value), sh.release c w.key guard)
    else some (w.at_ (.compute guard (some (Fallback.newerOf stale found))), sh)
  | .compute guard stale, .ready _ =>
    let timeout := match w.kind with
      | .factory => w.opts.appropriateFactoryTimeout stale.isSome
      | .constant => .infinite
    if timeout.isZero then
      some (w.at_ (.fallback stale .timedOut), (sh.record (.timedOut c)).release c w.key guard)
    else some ((w.at_ (.waiting stale timeout)).fly .begun guard, sh)
  -- An error before the origin begins drops the lock on the way out.
  | .firstGet lock, .failed | .firstJudge lock _ _, .failed =>
    some (w.at_ (.done (.error .other)), sh.releaseLock c w.key lock)
  | .secondGet guard _, .failed | .secondJudge guard _ _ _, .failed | .fetch guard _, .failed
  | .hydrate guard _ _ _, .failed | .compute guard _, .failed =>
    some (w.at_ (.done (.error .other)), sh.release c w.key guard)
  | .waiting stale _, .ready _ =>
    match w.flight with
    | some ⟨.ended (.value value), _⟩ | some ⟨.committing value _ true, _⟩ =>
      some (w.at_ (.done (.product value)), sh)
    | some ⟨.ended .factoryError, _⟩ => some (w.at_ (.fallback stale .failed), sh)
    | some ⟨.ended _, _⟩ => some (w.at_ (.done (.error .other)), sh)
    | _ => none
  | .waiting stale timeout, .timedOut =>
    if timeout.isInfinite then none
    else some (w.at_ (.fallback stale .timedOut), sh.record (.timedOut c))
  | .fallback stale cause, .write now inst =>
    if inst ∈ sh.memory.backend.instances then none
    else
      let result := Fallback.fallback cfg.copy sh.memory
        ⟨w.key, w.opts.toEntryOptions, w.default, stale⟩ now inst
      let call := match result.1, cause with
        | none, _ => .done (.error .other)
        | some none, .failed => .done (.error .factory)
        | some none, .timedOut => .done (.error .factoryTimeout)
        | some (some value), _ => .done (.fallback value)
      some (w.at_ call, { sh with memory := result.2 })
  | _, _ => none

/-! ## An origin -/

/-- A flight that ends drops its guard. -/
def finish (sh : Shared K V) (c : CallId) (w : Work K V) (guard : Guard) (result : FlightResult V) :
    Work K V × Shared K V :=
  (w.fly (.ended result) guard, sh.release c w.key guard)

/-- A product enters L1. -/
def store (sh : Shared K V) (c : CallId) (w : Work K V) (guard : Guard) (entry : Entry V)
    (now : Timestamp) (inst : Instance) : Shared K V :=
  (sh.insertAt w.key entry now inst).record (.stored c w.key guard.participation entry)

def stepFlight (cfg : Config V) (sh : Shared K V) (c : CallId) (w : Work K V) (flight : Flight V)
    (input : Input V) : Option (Work K V × Shared K V) :=
  let guard := flight.guard
  match flight.pc, input with
  | .lease current, .granted lease =>
    match sh.leases.lookup lease with
    | some _ => none
    | none =>
      some (w.fly (.fetch current) ⟨guard.participation, some lease⟩,
        { sh with leases := sh.leases.insert lease c })
  | .fetch current, .found found verdict now =>
    match found with
    | some entry =>
      if current.metadata.created < entry.metadata.created ∧ verdict = .valid ∧
          entry.freshness now = .fresh then some (w.fly (.hydrate entry) guard, sh)
      else some (w.fly .running guard, sh.record (.invoked c w.key guard.participation false))
    | none => some (w.fly .running guard, sh.record (.invoked c w.key guard.participation false))
  | .hydrate found, .ready _ =>
    match cfg.copy found.value with
    | none => some (finish sh c w guard .error)
    | some value => some (finish sh c w guard (.distributed value))
  | .begun, .ready _ =>
    some (w.fly .running guard,
      sh.record (.invoked c w.key guard.participation !w.opts.skipMemoryRead))
  | .running, .product value =>
    match cfg.copy value with
    | none => some (finish sh c w guard .error)
    | some value => some (w.fly (.storing value) guard, sh)
  | .running, .failed => some (finish (sh.record (.failed c)) c w guard .factoryError)
  | .running, .leaseLost => some (finish sh c w guard .error)
  | .storing value, .commit current metadata fenced background now inst =>
    let produced := sh.record (.produced c value)
    if !current then some (finish produced c w guard (.value value))
    else if inst ∈ sh.memory.backend.instances then none
    else
      match metadata with
      -- `skip_memory_write`
      | none => some (w.fly (.committing value none background) guard, produced)
      | some metadata =>
        let entry := { inst, value, metadata, eligibility := .ofLocal }
        if fenced then some (w.fly (.committing value (some entry) background) guard, produced)
        else
          some (w.fly (.committing value none background) guard,
            store produced c w guard entry now inst)
  | .committing value pending _, .write now inst =>
    match pending with
    | none => some (finish sh c w guard (.value value))
    | some entry => some (finish (store sh c w guard entry now inst) c w guard (.value value))
  -- The commit fails, or the preparation of the product does.
  | .committing value _ background, .failed =>
    some (finish sh c w guard (if background then .value value else .error))
  | .lease _, .refused | .lease _, .failed | .fetch _, .failed | .hydrate _, .failed
  | .storing _, .failed => some (finish sh c w guard .error)
  | _, _ => none

/-- The future of an origin is dropped, or its origin panics; a background commit goes on. -/
def cancelFlight (sh : Shared K V) (c : CallId) (w : Work K V) (flight : Flight V) :
    Option (Work K V × Shared K V) :=
  match flight.pc with
  | .ended _ | .committing _ _ true => none
  | _ => some (finish sh c w flight.guard .cancelled)

/-! ## The cache -/

/-- The lock or the lease that a call has in its own hands. -/
def CallPc.guard : CallPc V → Option Guard
  | .firstGet own | .firstJudge own _ _ => own
  | .lease participation _ => some ⟨participation, none⟩
  | .secondGet guard _ | .secondJudge guard _ _ _ | .fetch guard _ | .hydrate guard _ _ _
  | .compute guard _ => some guard
  | _ => none

inductive Action (K V : Type) where
  /-- `held` is `try_origin_guard`. -/
  | begin_ (c : CallId) (key : K) (kind : OriginKind) (opts : Options) (default : Option V)
      (held : Bool)
  | call (c : CallId) (input : Input V)
  | flight (c : CallId) (input : Input V)
  | cancel (c : CallId)
  /-- The caller drops its future. -/
  | drop (c : CallId)
  /-- Whatever else happens to L1. -/
  | memory (op : Memory.Op K V)

def next (cfg : Config V) (s : State K V) : Action K V → Option (State K V)
  | .begin_ c key kind opts default held =>
    if c ∈ s.work then none
    else
      let w lock : Work K V := ⟨key, kind, opts, default, start opts lock, none⟩
      if held then
        match s.shared.locks.lookup key with
        | some _ => none
        | none =>
          some ⟨{ s.shared with
              locks := s.shared.locks.insert key c
              history := .locked c key :: s.shared.history },
            s.work.insert c (w (some ⟨.held, none⟩))⟩
      else some { s with work := s.work.insert c (w none) }
  | .call c input =>
    match s.work.lookup c with
    | none => none
    | some w =>
      (stepCall cfg s.shared c w input).map fun (w, shared) => ⟨shared, s.work.insert c w⟩
  | .flight c input =>
    match s.work.lookup c with
    | none => none
    | some w =>
      match w.flight with
      | none => none
      | some flight =>
        (stepFlight cfg s.shared c w flight input).map fun (w, shared) =>
          ⟨shared, s.work.insert c w⟩
  | .cancel c =>
    match s.work.lookup c with
    | none => none
    | some w =>
      match w.flight with
      | none => none
      | some flight =>
        (cancelFlight s.shared c w flight).map fun (w, shared) => ⟨shared, s.work.insert c w⟩
  | .drop c =>
    match s.work.lookup c with
    | none => none
    | some w =>
      match w.call with
      | .done _ | .dropped => none
      | call =>
        some ⟨s.shared.releaseLock c w.key call.guard, s.work.insert c (w.at_ .dropped)⟩
  | .memory op =>
    (Memory.next s.shared.memory op).map fun memory =>
      { s with shared := { s.shared with memory } }

def init (memory : Memory.State K V) : State K V where
  shared := ⟨memory, ∅, ∅, []⟩
  work := ∅

end

end GetOrSet

end Amalgam
