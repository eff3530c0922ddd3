import Amalgam.Execution.Scope
import Amalgam.Execution.Wakeup
import Mathlib.Data.Finset.Card

/-!
# Amalgam — activities, registered work and the shutdown

`Scopes` of `src/execution.rs` with everything that reserves an activity: the two permits,
`register_work`, `close`, and `Scope::cancel` and `poll_work` of the registered work. Every access
to an atomic and every section under a lock is a step. Any number of calls on any number of threads
take their steps in any order, and any number of works are created, registered, polled and
cancelled. `drained` scans the stripes and looks at the task tracker one access at a time; it only
reads, so that one drain that may start again at any moment stands for all of them.

The calls of one thread are interleaved like those of several, but no other call of a thread counts
while one of them is between the load and the store of the thread's own count.
-/

namespace Amalgam

namespace Shutdown

open Flights (Reason)
open Owned (ScopeState)
open Buffered (activeStripes ownerOf position)

/-- A counter of `active`. -/
structure Slot where
  shared : Bool
  stripe : Nat
deriving DecidableEq

inductive Job where
  /-- An `InlinePermit` of a thread. -/
  | inline
  /-- An `OwnedInlinePermit`: any thread may take its steps. -/
  | owned
  | register (work : Nat)
  | cancel (work : Nat) (reason : Reason)
  | poll (work : Nat)
  | close
deriving DecidableEq

/-- The work that a call is about. -/
def Job.work : Job → Option Nat
  | .register w | .cancel w _ | .poll w => some w
  | .inline | .owned | .close => none

/-- Where a call stands: the access that comes next. -/
inductive Pc where
  -- `reserve_activity`
  | owner
  | exchange
  | load
  | store (count : Nat)
  /-- Also `inline_owned`. -/
  | add
  -- the permits
  | running
  -- `register_work`
  | slot
  | check (closed : Bool)
  /-- Also `close`: a nested `cancel` is under way. -/
  | await (child : Nat)
  /-- Also the drop of a `PollLease`: `finished()`. -/
  | finished
  -- `Scope::cancel`
  | reason
  | section_ (reason : Reason)
  -- `poll_work`
  | begin_
  | polling
  | unwound
  /-- The tracking is taken into a `Retirement`, if the scope is `terminal`. `work` tells whether
  the call has taken the future, `last` whether its activity ends next. -/
  | take (last work terminal : Bool) (recorded : Option Reason)
  /-- `source.cancel_with`. -/
  | publish (last work : Bool) (token : Option Nat) (recorded : Option Reason)
  /-- The `Retirement` is dropped, the future first. -/
  | retire (last work : Bool) (token : Option Nat)
  -- `close`
  | closing
  | shutdown
  | wake (waiters : List (Nat × Nat))
  | pop
  -- `ThreadActivity::drop`, `OwnedInlinePermit::drop`
  | leave
  | unstore (count : Nat)
  | done
deriving DecidableEq

/-- Where a call goes when it has its activity. -/
def Job.entry : Job → Pc
  | .inline | .owned => .running
  | .register _ => .slot
  | .cancel _ _ => .reason
  | .poll _ => .begin_
  | .close => .closing

structure Call where
  thread : Nat
  job : Job
  pc : Pc
  /-- The counter that holds the activity. -/
  at_ : Option Slot := none
  /-- The call has seen the cache open. -/
  admitted : Bool := false
deriving DecidableEq

structure Work where
  state : ScopeState := .pending
  destroyed : Bool := false
  /-- The state of the request of its source. -/
  source : Option Reason := none
  /-- The token of the task tracker in the tracking slot. -/
  tracking : Option Nat := none
  /-- It has been in a tracking slot. -/
  registered : Bool := false
  /-- The reasons that were given to it by others than the shutdown. -/
  asked : List Reason := []

/-- Where `drained` stands. -/
inductive Drain where
  /-- Before a loop, or waiting between two. -/
  | idle
  | scan (second : Bool) (slot : Slot)
  | tasks
  | returned
deriving DecidableEq

structure State where
  owner : Nat → Nat
  local_ : Nat → Nat
  shared : Nat → Nat
  /-- The call of a thread that is between the load and the store of its count. -/
  busy : Nat → Option Nat
  closing : Bool
  /-- The shutdown token is cancelled. -/
  shutdown : Bool
  /-- The registrations that wait for the shutdown token, each with its work. -/
  waiters : List (Nat × Nat)
  /-- The tokens that the task tracker counts. -/
  tasks : List Nat
  cancelled : List Nat
  works : Nat → Option Work
  calls : Nat → Option Call
  drain : Drain
  /-- Who is counted where. -/
  held : Slot → Finset Nat
  /-- The calls that were counted behind the back of the second scan. -/
  late : Finset Nat
  /-- The works that were registered when the drain looked at the task tracker. -/
  old : Nat → Bool

namespace State

def put (s : State) (id : Nat) (c : Call) : State :=
  { s with calls := Function.update s.calls id (some c) }

def goto (s : State) (id : Nat) (c : Call) (pc : Pc) : State := s.put id { c with pc }

def setWork (s : State) (w : Nat) (a : Work) : State :=
  { s with works := Function.update s.works w (some a) }

def count (s : State) (slot : Slot) : Nat :=
  if slot.shared then s.shared slot.stripe else s.local_ slot.stripe

def setCount (s : State) (slot : Slot) (count : Nat) : State :=
  { s with
    local_ := if slot.shared then s.local_ else Function.update s.local_ slot.stripe count
    shared := if slot.shared then Function.update s.shared slot.stripe count else s.shared }

end State

/-- The scan has read the counter already. -/
def Drain.passed (slot : Slot) : Drain → Bool
  | .scan true next =>
    slot.stripe < next.stripe || slot.stripe == next.stripe && !slot.shared && next.shared
  | .returned => true
  | .idle | .scan false _ | .tasks => false

/-- The activity is counted, and the call goes on to its own business. -/
def publish (s : State) (id : Nat) (c : Call) (slot : Slot) : State :=
  { s.put id { c with pc := c.job.entry, at_ := some slot } with
    held := Function.update s.held slot (insert id (s.held slot))
    late := if s.drain.passed slot then insert id s.late else s.late }

/-- The activity is over. -/
def unpublish (s : State) (id : Nat) (c : Call) (slot : Slot) : State :=
  { s.put id { c with pc := .done, at_ := none } with
    held := Function.update s.held slot ((s.held slot).erase id) }

/-- What a call meets at its next step. -/
inductive Choice where
  | go
  /-- A permit is asked to `admit`. -/
  | admission
  /-- The identifier of a nested call. -/
  | child (id : Nat)
  -- How the poll of the user's future ends.
  | pending
  | ready
  | panicked
deriving DecidableEq

/-- A nested `cancel(Reason::CacheShutdown)` on the same thread. -/
def spawn (s : State) (id : Nat) (c : Call) (child w : Nat) : State :=
  (s.put child { thread := c.thread, job := .cancel w .cacheShutdown, pc := .owner }).goto id c
    (.await child)

/-- `reserve_activity` and `inline_owned`. -/
def stepReserve (s : State) (id : Nat) (c : Call) : Option State :=
  let stripe := position c.thread
  match c.pc with
  | .owner =>
    if s.owner stripe = ownerOf c.thread then some (s.goto id c .load)
    else if s.owner stripe = 0 then some (s.goto id c .exchange)
    else some (s.goto id c .add)
  | .exchange =>
    if s.owner stripe = 0 then
      some ({ s with owner := Function.update s.owner stripe (ownerOf c.thread) }.goto id c .load)
    else some (s.goto id c .add)
  | .load =>
    if s.busy c.thread = none then
      some ({ s with busy := Function.update s.busy c.thread (some id) }.goto id c
        (.store (s.local_ stripe)))
    else none
  | .store count =>
    some (publish ({ s with busy := Function.update s.busy c.thread none }.setCount ⟨false, stripe⟩
      (count + 1)) id c ⟨false, stripe⟩)
  | .add =>
    some (publish (s.setCount ⟨true, stripe⟩ (s.shared stripe + 1)) id c ⟨true, stripe⟩)
  | _ => none

/-- The drop of an activity. -/
def stepLeave (s : State) (id : Nat) (c : Call) (slot : Slot) : Option State :=
  match c.pc with
  | .leave =>
    if slot.shared then
      some (unpublish (s.setCount slot (s.shared slot.stripe - 1)) id c slot)
    else if s.busy c.thread = none then
      some ({ s with busy := Function.update s.busy c.thread (some id) }.goto id c
        (.unstore (s.local_ slot.stripe)))
    else none
  | .unstore count =>
    some (unpublish ({ s with busy := Function.update s.busy c.thread none }.setCount slot
      (count - 1)) id c slot)
  | _ => none

/-- `register_work`, once it has its activity. -/
def stepRegister (s : State) (id : Nat) (c : Call) (w : Nat) (a : Work) (choice : Choice) :
    Option State :=
  match c.pc with
  | .slot =>
    match a.tracking with
    | some _ => some (s.goto id c .leave)
    | none =>
      -- The registration waits for the shutdown token unless it is cancelled already.
      some (({ s with
        tasks := id :: s.tasks
        waiters := if s.shutdown then s.waiters else s.waiters ++ [(id, w)] }.setWork w
          { a with tracking := some id, registered := true }).goto id c (.check s.shutdown))
  | .check closed =>
    if closed || s.closing then
      match choice with
      | .child k => if s.calls k = none then some (spawn s id c k w) else none
      | _ => none
    else some (s.goto id c .finished)
  | .await k =>
    match s.calls k with
    | some d => if d.pc = .done then some (s.goto id c .finished) else none
    | none => none
  | _ => none

/-- `Scope::cancel` up to its `Retirement`. -/
def stepCancel (s : State) (id : Nat) (c : Call) (w : Nat) (a : Work) (reason : Reason) :
    Option State :=
  match c.pc with
  | .reason => some (s.goto id c (.section_ (a.source.getD reason)))
  | .section_ reason =>
    match a.state with
    | .pending =>
      some ((s.setWork w { a with state := .cancelled reason }).goto id c
        (.take true true true (some reason)))
    | .polling cancellation =>
      let recorded := cancellation.getD reason
      some ((s.setWork w { a with state := .polling (some recorded) }).goto id c
        (.take true false false (some recorded)))
    | .cancelled recorded => some (s.goto id c (.take true false true (some recorded)))
    | .completed => some (s.goto id c (.take true false true (some .scopeFinished)))
  | _ => none

/-- `poll_work` up to its `Retirement`. -/
def stepPoll (s : State) (id : Nat) (c : Call) (w : Nat) (a : Work) (choice : Choice) :
    Option State :=
  match c.pc with
  | .begin_ =>
    match a.state with
    | .pending => some ((s.setWork w { a with state := .polling none }).goto id c .polling)
    | .cancelled reason => some (s.goto id c (.publish false false none (some reason)))
    -- It panics, and the lease is dropped.
    | .completed => some (s.goto id c .finished)
    -- `Execution::poll` takes `&mut`.
    | .polling _ => none
  | .polling =>
    match a.state with
    | .polling cancellation =>
      let shut := if s.closing then some Reason.cacheShutdown else none
      match choice, cancellation.or shut with
      | .panicked, _ => some ((s.setWork w { a with destroyed := true }).goto id c .unwound)
      | .pending, some reason | .ready, some reason =>
        some ((s.setWork w { a with state := .cancelled reason }).goto id c
          (.take false true true (some reason)))
      | .ready, none =>
        some ((s.setWork w { a with state := .completed }).goto id c
          (.take false true true (some .scopeFinished)))
      | .pending, none => some ((s.setWork w { a with state := .pending }).goto id c .finished)
      | _, _ => none
    | _ => none
  | .unwound =>
    match a.state with
    | .polling cancellation =>
      -- `drop_reason`
      let dropped := a.source.getD (if s.closing then .cacheShutdown else .callerDropped)
      let reason := cancellation.getD dropped
      some ((s.setWork w { a with
        state := .cancelled reason
        asked := dropped :: a.asked }).goto id c (.publish false false none (some reason)))
    | _ => none
  | _ => none

/-- `finish_tracking` and the `Retirement` of a cancel or a poll. -/
def stepRetire (s : State) (id : Nat) (c : Call) (w : Nat) (a : Work) : Option State :=
  match c.pc with
  | .finished =>
    if a.state.isTerminal then some (s.goto id c (.take true false true none))
    else some (s.goto id c .leave)
  | .take last work true recorded =>
    some ((s.setWork w { a with tracking := none }).goto id c (.publish last work a.tracking recorded))
  | .take last work false recorded => some (s.goto id c (.publish last work none recorded))
  | .publish last work token recorded =>
    some ((s.setWork w { a with source := a.source.or recorded }).goto id c (.retire last work token))
  | .retire last true token =>
    some ((s.setWork w { a with destroyed := true }).goto id c (.retire last false token))
  | .retire last false (some k) =>
    some ({ s with tasks := s.tasks.erase k }.goto id c (.retire last false none))
  | .retire last false none => some (s.goto id c (if last then .leave else .finished))
  | _ => none

/-- `close`, once it has its activity. -/
def stepClose (s : State) (id : Nat) (c : Call) (choice : Choice) : Option State :=
  match c.pc with
  | .closing => some ({ s with closing := true }.goto id c .shutdown)
  | .shutdown => some ({ s with shutdown := true, waiters := [] }.goto id c (.wake s.waiters))
  | .wake [] => some (s.goto id c .pop)
  | .wake ((k, w) :: rest) =>
    -- A registration that was dropped waits no longer.
    some ({ s with cancelled := if k ∈ s.tasks then s.cancelled ++ [w] else s.cancelled }.goto id c
      (.wake rest))
  | .pop =>
    match s.cancelled with
    | [] => some (s.goto id c .leave)
    | w :: rest =>
      match choice with
      | .child k =>
        if s.calls k = none then some (spawn { s with cancelled := rest } id c k w) else none
      | _ => none
  | .await k =>
    match s.calls k with
    | some d => if d.pc = .done then some (s.goto id c .pop) else none
    | none => none
  | _ => none

/-- The retirement of what a call has taken out of a scope. -/
def Pc.retiring : Pc → Bool
  | .finished | .take .. | .publish .. | .retire .. => true
  | _ => false

/-- One step of a call between its two ends. -/
def stepBody (s : State) (id : Nat) (c : Call) (choice : Choice) : Option State :=
  match c.job with
  | .inline | .owned =>
    if c.pc = .running then
      if choice = .admission then some (s.put id { c with admitted := c.admitted || !s.closing })
      else some (s.goto id c .leave)
    else none
  | .register w =>
    (s.works w).bind fun a =>
      if c.pc.retiring then stepRetire s id c w a else stepRegister s id c w a choice
  | .cancel w reason =>
    (s.works w).bind fun a =>
      if c.pc.retiring then stepRetire s id c w a else stepCancel s id c w a reason
  | .poll w =>
    (s.works w).bind fun a =>
      if c.pc.retiring then stepRetire s id c w a else stepPoll s id c w a choice
  | .close => stepClose s id c choice

def stepCall (s : State) (id : Nat) (c : Call) (choice : Choice) : Option State :=
  match c.at_, c.pc with
  | none, _ => stepReserve s id c
  | some slot, .leave | some slot, .unstore _ => stepLeave s id c slot
  | some _, _ => stepBody s id c choice

/-- The counter that `idle` reads next. -/
def Slot.next (slot : Slot) : Option Slot :=
  if slot.shared then
    if slot.stripe + 1 < activeStripes then some ⟨false, slot.stripe + 1⟩ else none
  else some ⟨true, slot.stripe⟩

/-- One access of `drained`. -/
def stepDrain (s : State) : Option State :=
  match s.drain with
  -- Its callers close first.
  | .idle | .returned =>
    if s.closing then some { s with drain := .scan false ⟨false, 0⟩ } else none
  | .scan second slot =>
    if s.count slot ≠ 0 then some { s with drain := .idle }
    else
      match slot.next with
      | some next => some { s with drain := .scan second next }
      | none => some { s with drain := if second then .returned else .tasks }
  | .tasks =>
    if s.tasks = [] then
      some { s with
        drain := .scan true ⟨false, 0⟩
        late := ∅
        old := fun w => (s.works w).any (·.registered) }
    else some { s with drain := .idle }

inductive Action where
  | start (id thread : Nat) (job : Job)
  | step (id : Nat) (choice : Choice)
  | drain
  /-- A scope is created. -/
  | create (w : Nat)
  /-- The request of a scope is cancelled. -/
  | request (w : Nat) (reason : Reason)

/-- A cancellation that is not of the shutdown is noted with its work. -/
def ask (s : State) (w : Nat) (a : Work) (reason : Reason) : State :=
  s.setWork w { a with asked := reason :: a.asked }

def start (s : State) (id thread : Nat) (job : Job) : Option State :=
  let c : Call := { thread, job, pc := if job = .owned then .add else .owner }
  match job with
  | .inline | .owned | .close => some (s.put id c)
  | .register w | .poll w => (s.works w).map fun _ => s.put id c
  | .cancel w reason => (s.works w).map fun a => (ask s w a reason).put id c

def next (s : State) : Action → Option State
  | .start id thread job => if s.calls id = none then start s id thread job else none
  | .step id choice => (s.calls id).bind fun c => stepCall s id c choice
  | .drain => stepDrain s
  | .create w => if s.works w = none then some (s.setWork w {}) else none
  | .request w reason => (s.works w).map fun a =>
    ask s w { a with source := a.source.or (some reason) } reason

def init : State where
  owner := fun _ => 0
  local_ := fun _ => 0
  shared := fun _ => 0
  busy := fun _ => none
  closing := false
  shutdown := false
  waiters := []
  tasks := []
  cancelled := []
  works := fun _ => none
  calls := fun _ => none
  drain := .idle
  held := fun _ => ∅
  late := ∅
  old := fun _ => false

end Shutdown

end Amalgam
