import Amalgam.Lib.FiniteMap
import Amalgam.Lib.History
import Amalgam.Lib.Run

/-!
# Amalgam — supervised tasks and the shutdown report

`src/lifecycle.rs` and `shutdown` of `src/cache/runtime.rs`. Every background task of a cache has
a supervisor that keeps the failure of its worker and then publishes its completion. The handles of
the supervisors are kept in a queue: every new task prunes the finished ones among the first four,
a flush waits for what the queue holds, and a drain empties it, joining one supervisor at a time.
A shutdown drains twice and reports the failures it took.

What the supervisors tell events and tracing is left out, and so are the receivers of the results.
-/

namespace Amalgam

namespace Tasks

abbrev JobId := Nat
abbrev FlushId := Nat
abbrev ShutdownId := Nat

inductive ShutdownTask where
  | factory
  | distributed
  | backplane
  | recovery
  | maintenance
  | leaseRelease
  | memoryLockerAcquisition
  | memoryLocker
deriving DecidableEq

/-- The tasks that `flush` waits for. -/
def ShutdownTask.flushed : ShutdownTask → Bool
  | .factory | .distributed | .leaseRelease | .memoryLockerAcquisition => true
  | _ => false

/-- Whose `JoinError` it is. -/
inductive Joined where
  | worker
  | supervisor
deriving DecidableEq

inductive WorkFailure where
  | cleanup (job : JobId)
  /-- A cleanup for which there is no runtime. -/
  | refused
  | recovery
deriving DecidableEq

inductive ShutdownFailure where
  | backgroundTask (task : ShutdownTask) (job : JobId) (joined : Joined)
  | work (failure : WorkFailure)
  | plugin (failure : Nat)
deriving DecidableEq

/-- How the worker of a task ended. -/
inductive Outcome where
  | completed
  | failed
  | cleanupFailed
  | panicked
deriving DecidableEq

inductive Progress where
  | working
  /-- The failure is about to be kept. -/
  | noting
  /-- The result is about to be sent. -/
  | settling
  /-- `finished` is true. -/
  | published
  | ended
deriving DecidableEq

structure Job where
  task : ShutdownTask
  /-- `cleanup_task`: its work keeps its own failure. -/
  cleanup : Bool
  outcome : Option Outcome
  progress : Progress
  /-- The runtime dropped the supervisor before its end. -/
  lost : Bool
deriving DecidableEq

namespace Job

/-- `finished`. -/
def finished (job : Job) : Bool :=
  match job.progress with
  | .published | .ended => true
  | _ => false

/-- `join.is_finished()`. -/
def joinFinished (job : Job) : Bool := job.lost || job.progress = .ended

/-- The failure of the worker, which its supervisor or the cleanup itself keeps. -/
def failure (id : JobId) (job : Job) : Option ShutdownFailure :=
  match job.outcome with
  | some .panicked => some (.backgroundTask job.task id .worker)
  | some .cleanupFailed => some (.work (.cleanup id))
  | _ => none

end Job

inductive FlushPc where
  | collect
  | waiting (pending : List JobId)
  | done
deriving DecidableEq

/-- The two drains of a shutdown. -/
inductive Round where
  | first
  | second
deriving DecidableEq

inductive ShutdownPc where
  | gate
  | check
  | close
  | scopes
  | plugins
  -- `drain`
  | lock (round : Round)
  | pop (round : Round)
  | join (round : Round) (job : JobId)
  | joinFailed (round : Round) (job : JobId)
  | take (round : Round)
  | recovery
  | locks
  | track (job : JobId)
  | finish
  | done (report : List ShutdownFailure)
  /-- The future was dropped, and with it the handle that it was joining. -/
  | dropped (joining : Option JobId)
deriving DecidableEq

structure Shutdown where
  pc : ShutdownPc
  failures : List ShutdownFailure
  plugins : List Nat
deriving DecidableEq

/-- An empty report is `Ok(ShutdownReport)`. -/
inductive Lifecycle where
  | running
  | closing
  | closed (closer : ShutdownId) (report : List ShutdownFailure)
deriving DecidableEq

inductive Event where
  | tracked (job : JobId)
  | flushed (flush : FlushId)
  | drained (shutdown : ShutdownId) (round : Round)
deriving DecidableEq

structure State where
  jobs : AList fun _ : JobId => Job
  /-- Spawned by a call that has not reached the queue yet. -/
  untracked : List JobId
  handles : List JobId
  failures : List ShutdownFailure
  gate : Option ShutdownId
  join : Option ShutdownId
  lifecycle : Lifecycle
  flushes : AList fun _ : FlushId => FlushPc
  shutdowns : AList fun _ : ShutdownId => Shutdown
  history : List Event

namespace State

def isOver (s : State) (j : JobId) : Bool := (s.jobs.lookup j).any Job.joinFinished

def isFinished (s : State) (j : JobId) : Bool := (s.jobs.lookup j).any Job.finished

/-- Nothing will change `finished` any more: it is true, or its sender is gone. -/
def isSettled (s : State) (j : JobId) : Bool := s.isFinished j || s.isOver j

def isFlushed (s : State) (j : JobId) : Bool := (s.jobs.lookup j).any fun job => job.task.flushed

/-- The rounds of `supervise`: a handle that is taken from the front goes to the back unless its
supervisor is finished. -/
def prune (s : State) : Nat → List JobId → List JobId
  | 0, handles => handles
  | _ + 1, [] => []
  | n + 1, j :: handles => s.prune n (if s.isOver j then handles else handles ++ [j])

/-- The queue after `supervise` has tracked a task. -/
def track (s : State) (j : JobId) : State :=
  { s with
    handles := s.prune (min s.handles.length 4) s.handles ++ [j]
    history := .tracked j :: s.history }

def spawn (s : State) (j : JobId) (task : ShutdownTask) (cleanup : Bool) : State :=
  { s with jobs := s.jobs.insert j ⟨task, cleanup, none, .working, false⟩ }

def keepFailure (s : State) (f : ShutdownFailure) : State :=
  { s with failures := s.failures ++ [f] }

def setJob (s : State) (j : JobId) (job : Job) : State := { s with jobs := s.jobs.insert j job }

def setShutdown (s : State) (d : ShutdownId) (sd : Shutdown) : State :=
  { s with shutdowns := s.shutdowns.insert d sd }

end State

/-! ## Workers and their supervisors -/

/-- The worker ends. A cleanup reports no failure of its own to the supervisor. -/
def Job.endWork (job : Job) (outcome : Outcome) : Option Job :=
  match job.progress, outcome, job.cleanup with
  | .working, .completed, _ | .working, .failed, false =>
    some { job with outcome := some outcome, progress := .settling }
  | .working, .cleanupFailed, true | .working, .panicked, _ =>
    some { job with outcome := some outcome, progress := .noting }
  | _, _, _ => none

/-- One step of the supervisor, or of a cleanup that keeps its failure. -/
def stepJob (s : State) (j : JobId) (job : Job) : Option State :=
  match job.progress with
  | .noting =>
    (job.failure j).map fun f => (s.keepFailure f).setJob j { job with progress := .settling }
  | .settling => some (s.setJob j { job with progress := .published })
  | .published => some (s.setJob j { job with progress := .ended })
  | _ => none

/-! ## `flush` -/

def stepFlush (s : State) (f : FlushId) : FlushPc → Option State
  | .collect =>
    let pending := s.handles.filter fun j => s.isFlushed j && !s.isFinished j
    if pending.isEmpty then
      some { s with flushes := s.flushes.insert f .done, history := .flushed f :: s.history }
    else some { s with flushes := s.flushes.insert f (.waiting pending) }
  | .waiting [] => some { s with flushes := s.flushes.insert f .collect }
  | .waiting (j :: pending) =>
    if s.isSettled j then some { s with flushes := s.flushes.insert f (.waiting pending) } else none
  | .done => none

/-! ## `shutdown` -/

/-- What a shutdown awaits besides the drains. -/
inductive Input where
  | ready
  | plugins (failures : List Nat)
  | recovery (failed : Bool)
  /-- The cleanup of a supplied memory locker: none, refused, or a task. -/
  | locker (cleanup : Option (Option JobId))
deriving DecidableEq

def stepShutdown (s : State) (d : ShutdownId) (sd : Shutdown) (input : Input) : Option State :=
  match sd.pc with
  | .gate =>
    match s.gate with
    | none => some ({ s with gate := some d }.setShutdown d { sd with pc := .check })
    | some _ => none
  | .check =>
    match s.lifecycle with
    | .closed _ report =>
      some ({ s with gate := none }.setShutdown d { sd with pc := .done report })
    | _ => some (s.setShutdown d { sd with pc := .close })
  | .close =>
    let lifecycle := match s.lifecycle with
      | .running => .closing
      | lifecycle => lifecycle
    some ({ s with lifecycle }.setShutdown d { sd with pc := .scopes })
  | .scopes => some (s.setShutdown d { sd with pc := .plugins })
  | .plugins =>
    match input with
    | .plugins failures =>
      some (s.setShutdown d { sd with pc := .lock .first, plugins := failures })
    | _ => none
  | .lock round =>
    match s.join with
    | none => some ({ s with join := some d }.setShutdown d { sd with pc := .pop round })
    | some _ => none
  | .pop round =>
    match s.handles with
    | [] => some ({ s with join := none, history := .drained d round :: s.history }.setShutdown d
        { sd with pc := .take round })
    | j :: handles => some ({ s with handles }.setShutdown d { sd with pc := .join round j })
  | .join round j =>
    match s.jobs.lookup j with
    | none => none
    | some job =>
      if job.lost then some (s.setShutdown d { sd with pc := .joinFailed round j })
      else if job.joinFinished then some (s.setShutdown d { sd with pc := .pop round })
      else none
  | .joinFailed round j =>
    (s.jobs.lookup j).map fun job =>
      (s.keepFailure (.backgroundTask job.task j .supervisor)).setShutdown d
        { sd with pc := .pop round }
  | .take .first =>
    some ({ s with failures := [] }.setShutdown d
      { sd with pc := .recovery, failures := s.failures })
  | .recovery =>
    match input with
    | .recovery failed =>
      let failures := if failed then sd.failures ++ [.work .recovery] else sd.failures
      some (s.setShutdown d { sd with pc := .locks, failures })
    | _ => none
  | .locks =>
    match input with
    | .locker none => some (s.setShutdown d { sd with pc := .lock .second })
    | .locker (some none) =>
      some ((s.keepFailure (.work .refused)).setShutdown d { sd with pc := .lock .second })
    | .locker (some (some j)) =>
      if j ∈ s.jobs then none
      else some ((s.spawn j .memoryLocker true).setShutdown d { sd with pc := .track j })
    | _ => none
  | .track j => some ((s.track j).setShutdown d { sd with pc := .lock .second })
  | .take .second =>
    some ({ s with failures := [] }.setShutdown d
      { sd with pc := .finish, failures := sd.failures ++ s.failures })
  | .finish =>
    let report := sd.failures ++ sd.plugins.map .plugin
    some ({ s with gate := none, lifecycle := .closed d report }.setShutdown d
      { sd with pc := .done report })
  | .done _ | .dropped _ => none

/-- The future of a shutdown is dropped where it awaits, with the guards it holds. -/
def dropShutdown (s : State) (d : ShutdownId) (sd : Shutdown) : Option State :=
  match sd.pc with
  | .gate => some (s.setShutdown d { sd with pc := .dropped none })
  | .scopes | .plugins | .lock _ | .recovery =>
    some ({ s with gate := none }.setShutdown d { sd with pc := .dropped none })
  | .join _ j =>
    some ({ s with gate := none, join := none }.setShutdown d { sd with pc := .dropped (some j) })
  | _ => none

inductive Action where
  | spawn (j : JobId) (task : ShutdownTask) (cleanup : Bool)
  | track (j : JobId)
  /-- A cleanup without a runtime. -/
  | refuse
  | work (j : JobId) (outcome : Outcome)
  | supervise (j : JobId)
  /-- The runtime drops a supervisor. -/
  | lose (j : JobId)
  | flush (f : FlushId)
  | stepFlush (f : FlushId)
  | shutdown (d : ShutdownId)
  | stepShutdown (d : ShutdownId) (input : Input)
  | dropShutdown (d : ShutdownId)
deriving DecidableEq

def next (s : State) : Action → Option State
  | .spawn j task cleanup =>
    if j ∈ s.jobs then none
    else some { s.spawn j task cleanup with untracked := j :: s.untracked }
  | .track j =>
    if j ∈ s.untracked then some { s.track j with untracked := s.untracked.erase j } else none
  | .refuse => some (s.keepFailure (.work .refused))
  | .work j outcome =>
    match s.jobs.lookup j with
    | none => none
    | some job =>
      if job.lost then none else (job.endWork outcome).map fun job => s.setJob j job
  | .supervise j =>
    match s.jobs.lookup j with
    | none => none
    | some job => if job.lost then none else stepJob s j job
  | .lose j =>
    match s.jobs.lookup j with
    | none => none
    | some job => if job.joinFinished then none else some (s.setJob j { job with lost := true })
  | .flush f =>
    if f ∈ s.flushes then none else some { s with flushes := s.flushes.insert f .collect }
  | .stepFlush f =>
    match s.flushes.lookup f with
    | none => none
    | some pc => stepFlush s f pc
  | .shutdown d =>
    if d ∈ s.shutdowns then none
    else some (s.setShutdown d { pc := .gate, failures := [], plugins := [] })
  | .stepShutdown d input =>
    match s.shutdowns.lookup d with
    | none => none
    | some sd => stepShutdown s d sd input
  | .dropShutdown d =>
    match s.shutdowns.lookup d with
    | none => none
    | some sd => dropShutdown s d sd

def init : State where
  jobs := ∅
  untracked := []
  handles := []
  failures := []
  gate := none
  join := none
  lifecycle := .running
  flushes := ∅
  shutdowns := ∅
  history := []

end Tasks

end Amalgam
