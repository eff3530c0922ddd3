import Mathlib.Data.List.Basic
import Mathlib.Logic.Function.Basic
import Amalgam.Lib.Run

/-!
# Amalgam — one commit lane and its queue of suspended mutations

`src/commit/ordered.rs`. Ownership of a lane lives in three places: the atomic admission word
(`Free`, `Held`, `Queued`), the waiters of the lane in a mutex-protected shard, and the
`granted` flag of each waiter. An uncontended claim touches only the word.

A party is one `LaneAcquisition` or one `try_lock`, together with the guard it may obtain.
Between two accesses to the shared state another party can run, so every such access is a
program point of its own; what a party does to the queue map under the shard lock is one
access, because nobody else can look. Other lanes hash to the same shard and may hold its
lock.
-/

namespace Amalgam

namespace Ordered

/-! ## The admission word -/

inductive GateState where
  | free
  | held
  | queued
deriving DecidableEq

/-- `as u8`. -/
def GateState.toU8 : GateState → UInt8
  | .free => 0
  | .held => 1
  | .queued => 2

abbrev PartyId := Nat

/-- Who holds the lock of the shard: a party of this lane or one of another. -/
inductive Holder where
  | party (p : PartyId)
  | otherLane
deriving DecidableEq

structure Shared where
  /-- `Admission::state`. -/
  word : UInt8 := GateState.free.toU8
  /-- The shard's mutex. -/
  shard : Option Holder := none
  /-- The entry of this lane in the shard's map. -/
  queue : Option (List PartyId) := none
  /-- `Waiter::granted` of the party's waiter. -/
  granted : PartyId → Bool := fun _ => false
  /-- A waker is registered in `Waiter::waker`. -/
  waker : PartyId → Bool := fun _ => false
  /-- The party's task was woken since it was last polled. -/
  woken : PartyId → Bool := fun _ => false
  -- history: who queued, who left the queue without a grant, who was granted
  arrivals : List PartyId := []
  withdrawn : List PartyId := []
  grants : List PartyId := []

/-- The waiters of the lane; an absent entry has none. -/
def Shared.waiters (sh : Shared) : List PartyId := sh.queue.getD []

/-- `compare_exchange` on the word: the shared state after it, if it succeeded. -/
def compareExchange (sh : Shared) (current new : GateState) : Option Shared :=
  if sh.word = current.toU8 then some { sh with word := new.toU8 } else none

def claim (sh : Shared) : Option Shared := compareExchange sh .free .held

def markQueued (sh : Shared) : Option Shared := compareExchange sh .held .queued

def releaseReady (sh : Shared) : Option Shared := compareExchange sh .held .free

/-- `Admission::state`: any other byte is its `unreachable!`. -/
def Shared.state (sh : Shared) : Option GateState :=
  if sh.word = 0 then some .free
  else if sh.word = 1 then some .held
  else if sh.word = 2 then some .queued
  else none

/-! ## Parties -/

/-- `AcquisitionState`. -/
inductive Acquisition where
  | new
  | queued
  | finished
deriving DecidableEq

/-- Where a party stands: the access it makes next. -/
inductive Pc where
  | absent
  /-- The future exists and is not being polled. -/
  | idle
  | start
  -- `QueueRef::enqueue`
  | lockEnqueue
  | loadState
  | sawState (state : GateState)
  | push
  | unlockClaimed
  | unlockWaiting
  -- `poll_waiter`
  | register
  | checkGranted
  | complete
  /-- The caller holds the `LaneGuard`. -/
  | guard
  -- `QueueRef::release` and `handoff`
  | release
  | lockHandoff
  | pop
  | storeHandoff (next : Option PartyId) (state : GateState)
  | grant (waiter : PartyId)
  | unlockHandoff (next : Option PartyId)
  | wake (waiter : PartyId)
  -- `QueueRef::withdraw`
  | lockWithdraw
  | checkWithdraw
  | remove
  | storeWithdraw
  | unlockWithdraw (granted : Bool)
  | done
  /-- Some `unreachable!` was reached. -/
  | unreachable
deriving DecidableEq

structure Party where
  pc : Pc := .absent
  acquisition : Acquisition := .finished
deriving DecidableEq

def Party.at (me : Party) (pc : Pc) : Party := { me with pc }

def lockShard (p : PartyId) (sh : Shared) : Option Shared :=
  if sh.shard = none then some { sh with shard := some (.party p) } else none

def unlockShard (sh : Shared) : Shared := { sh with shard := none }

/-- The state word `handoff` publishes for the waiter it popped and those that remain. -/
def handoffState (next : Option PartyId) (remaining : Option (List PartyId)) : GateState :=
  match next with
  | some _ => if remaining.isSome then .queued else .held
  | none => .free

/-- `pop_front`, dropping an entry that became empty. -/
def popFront (queue : Option (List PartyId)) : Option PartyId × Option (List PartyId) :=
  match queue with
  | none => (none, none)
  | some [] => (none, none)
  | some [waiter] => (some waiter, none)
  | some (waiter :: second :: rest) => (some waiter, some (second :: rest))

/-- The next access of party `p`. -/
def step (p : PartyId) (me : Party) (sh : Shared) : Option (Party × Shared) :=
  match me.pc with
  | .start =>
    -- `mem::replace` leaves `Finished` behind before the claim is tried
    if me.acquisition = .new then
      match claim sh with
      | some sh => some (⟨.guard, .finished⟩, sh)
      | none => some (⟨.lockEnqueue, .finished⟩, sh)
    else some (⟨.unreachable, .finished⟩, sh)
  | .lockEnqueue => (lockShard p sh).map fun sh => (me.at .loadState, sh)
  | .loadState =>
    match sh.state with
    | some state => some (me.at (.sawState state), sh)
    | none => some (me.at .unreachable, sh)
  | .sawState .free =>
    match claim sh with
    | some sh => some (me.at .unlockClaimed, sh)
    | none => some (me.at .loadState, sh)
  | .sawState .held =>
    match markQueued sh with
    | some sh => some (me.at .push, sh)
    | none => some (me.at .loadState, sh)
  | .sawState .queued => some (me.at .push, sh)
  | .push =>
    some (me.at .unlockWaiting,
      { sh with queue := some (sh.waiters ++ [p]), arrivals := sh.arrivals ++ [p] })
  | .unlockClaimed => some (me.at .guard, unlockShard sh)
  | .unlockWaiting => some (⟨.register, .queued⟩, unlockShard sh)
  | .register => some (me.at .checkGranted, { sh with waker := Function.update sh.waker p true })
  | .checkGranted => some (me.at (if sh.granted p then .complete else .idle), sh)
  | .complete =>
    if me.acquisition = .queued then some (⟨.guard, .finished⟩, sh)
    else some (⟨.unreachable, .finished⟩, sh)
  | .release =>
    match releaseReady sh with
    | some sh => some (me.at .done, sh)
    | none => some (me.at .lockHandoff, sh)
  | .lockHandoff => (lockShard p sh).map fun sh => (me.at .pop, sh)
  | .pop =>
    let (next, queue) := popFront sh.queue
    some (me.at (.storeHandoff next (handoffState next queue)), { sh with queue })
  | .storeHandoff next state =>
    let pc := match next with
      | some waiter => Pc.grant waiter
      | none => .unlockHandoff none
    some (me.at pc, { sh with word := state.toU8 })
  | .grant waiter =>
    -- reserve ownership before waking; a new ready claim cannot steal it
    some (me.at (.unlockHandoff (some waiter)),
      { sh with
        granted := Function.update sh.granted waiter true
        grants := sh.grants ++ [waiter] })
  | .unlockHandoff next =>
    let pc := match next with
      | some waiter => Pc.wake waiter
      | none => .done
    some (me.at pc, unlockShard sh)
  | .wake waiter =>
    let sh := if sh.waker waiter then
        { sh with
          waker := Function.update sh.waker waiter false
          woken := Function.update sh.woken waiter true }
      else sh
    some (me.at .done, sh)
  | .lockWithdraw => (lockShard p sh).map fun sh => (me.at .checkWithdraw, sh)
  | .checkWithdraw =>
    some (me.at (if sh.granted p then .unlockWithdraw true else .remove), sh)
  | .remove =>
    match sh.queue with
    | none => some (me.at .unreachable, sh)
    | some queue =>
      if p ∈ queue then
        let sh := { sh with withdrawn := sh.withdrawn ++ [p] }
        match queue.erase p with
        | [] => some (me.at .storeWithdraw, { sh with queue := none })
        | rest => some (me.at (.unlockWithdraw false), { sh with queue := some rest })
      else some (me.at .unreachable, sh)
  | .storeWithdraw =>
    some (me.at (.unlockWithdraw false), { sh with word := GateState.held.toU8 })
  | .unlockWithdraw granted =>
    some (me.at (if granted then .release else .done), unlockShard sh)
  | .absent | .idle | .guard | .done | .unreachable => none

/-! ## The lane -/

structure Lane where
  shared : Shared := {}
  party : PartyId → Party := fun _ => {}

def Lane.set (s : Lane) (p : PartyId) (me : Party) (sh : Shared) : Lane :=
  { shared := sh, party := Function.update s.party p me }

inductive Action where
  /-- `KeyLane::lock` returns its future. -/
  | lock (p : PartyId)
  | tryLock (p : PartyId)
  /-- The executor polls the future. -/
  | poll (p : PartyId)
  /-- The caller drops the future or the guard. -/
  | drop (p : PartyId)
  | step (p : PartyId)
  | lockOtherLane
  | unlockOtherLane
deriving DecidableEq

def next (s : Lane) : Action → Option Lane
  | .lock p =>
    match (s.party p).pc with
    | .absent => some (s.set p ⟨.idle, .new⟩ s.shared)
    | _ => none
  | .tryLock p =>
    match (s.party p).pc with
    | .absent =>
      match claim s.shared with
      | some sh => some (s.set p ⟨.guard, .finished⟩ sh)
      | none => some (s.set p ⟨.done, .finished⟩ s.shared)
    | _ => none
  | .poll p =>
    match s.party p with
    | ⟨.idle, .new⟩ => some (s.set p ⟨.start, .new⟩ s.shared)
    | ⟨.idle, .queued⟩ =>
      some (s.set p ⟨.register, .queued⟩
        { s.shared with woken := Function.update s.shared.woken p false })
    | _ => none
  | .drop p =>
    match s.party p with
    | ⟨.idle, .new⟩ => some (s.set p ⟨.done, .finished⟩ s.shared)
    | ⟨.idle, .queued⟩ => some (s.set p ⟨.lockWithdraw, .queued⟩ s.shared)
    | ⟨.guard, acquisition⟩ => some (s.set p ⟨.release, acquisition⟩ s.shared)
    | _ => none
  | .step p => (step p (s.party p) s.shared).map fun (me, sh) => s.set p me sh
  | .lockOtherLane =>
    if s.shared.shard = none then
      some { s with shared := { s.shared with shard := some .otherLane } }
    else none
  | .unlockOtherLane =>
    if s.shared.shard = some .otherLane then some { s with shared := unlockShard s.shared }
    else none

/-- A new lane: nobody has asked for it. -/
def init : Lane := {}

end Ordered

end Amalgam
