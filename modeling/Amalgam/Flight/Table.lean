import Mathlib.Data.Finset.Card
import Mathlib.Logic.Function.Basic
import Mathlib.Tactic.Simps.Basic
import Amalgam.Lib.Run

/-!
# Amalgam — the single-flight table

`src/single_flight.rs`. A flight is one computation under an identity; callers hold
subscriptions to it. The table of a shard and the cell of a flight have separate locks, and
work is polled outside of both, so `poll_work`, `complete` and `cancel` are several accesses
with other callers in between. Each access is one step here.

A call is one execution of `poll_work`, `cancel` or `Subscription::drop` on some thread.
Which future a driver polls, and when, is left to the schedule. The wakers, the progress
futures and the scope tracking carry no state of the protocol and are left out.
-/

namespace Amalgam

namespace Flights

/-- `FactoryCancellationReason`. -/
inductive Reason where
  | callerCancelled
  | callerDropped
  | softTimeout
  | hardTimeout
  | cacheShutdown
  | leaseLost
  | scopeFinished
deriving DecidableEq

/-- The errors the table itself tells apart. -/
inductive Error where
  | operationCancelled (reason : Reason)
  /-- `Error::Lease(LeaseError::Lost)`. -/
  | leaseLost
  | other (code : Nat)
deriving DecidableEq

abbrev FlightId := Nat
abbrev SubId := Nat
abbrev WorkId := Nat
abbrev CallId := Nat
/-- The boxed payload of a panic, by identity. -/
abbrev Panic := Nat

inductive Completion (T : Type) where
  | owned (result : Except Error T)
  | shared (result : Except Error T)
  | panicked (payload : Panic)
  | followerPanicked

inductive Terminal (T : Type) where
  | owned (result : Except Error T)
  | shared (result : Except Error T)
  | panicked (payload : Option Panic)
  | cancelled (reason : Reason)

/-- `State`. -/
inductive FlightState (T : Type) where
  | starting
  | pending (work : WorkId)
  | polling
  | completed (terminal : Terminal T)
  | finished

/-- `Completed` or `Finished`. -/
def FlightState.isFinished {T : Type} : FlightState T → Bool
  | .completed _ | .finished => true
  | .starting | .pending _ | .polling => false

structure Flight (K T : Type) where
  key : K
  subscribers : Nat
  state : FlightState T
  runnable : Bool := true
  /-- The terminal reason of the flight's `Request`. -/
  reason : Option Reason := none
  -- history: the work installed, what was published and to how many
  installed : Option WorkId := none
  outcome : Option (Terminal T) := none
  audience : Nat := 0

structure Subscription where
  flight : FlightId
  leader : Bool
  consumed : Bool := false
  /-- History: the flight was not yet `Completed` or `Finished` when this one joined. -/
  early : Bool

/-- Where a call stands: the access it makes next. -/
inductive Pc (T : Type) where
  | idle
  -- `poll_work`, holding the work it took
  | polling (f : FlightId) (work : WorkId)
  | returned (f : FlightId) (work : WorkId)
  | restore (f : FlightId) (work : WorkId)
  | recheck (f : FlightId)
  -- `complete`
  | removeEntry (f : FlightId) (terminal : Terminal T)
  | readReason (f : FlightId) (terminal : Terminal T)
  | publish (f : FlightId) (terminal : Terminal T)
  | finishScope (f : FlightId)
  -- `cancel`; the flag says that it took the state of a flight that had not ended
  | cancelRequest (f : FlightId) (reason : Reason)
  | cancelCell (f : FlightId) (reason : Reason)
  | cancelRemove (f : FlightId) (took : Bool)
  -- `abandon_start`
  | abandonStart (f : FlightId)

structure Table (K T : Type) where
  /-- The strong owner of the table is alive. -/
  alive : Bool := true
  entries : K → Option FlightId := fun _ => none
  flight : FlightId → Option (Flight K T) := fun _ => none
  nextFlight : FlightId := 0
  sub : SubId → Option Subscription := fun _ => none
  live : Finset SubId := ∅
  nextSub : SubId := 0
  nextWork : WorkId := 0
  call : CallId → Pc T := fun _ => .idle
  -- history: work that returned `Ready` or panicked, what was delivered to whom, and the
  -- subscriptions whose poll hit the panic of `State::Finished`
  ended : Finset WorkId := ∅
  deliveries : List (SubId × Completion T) := []
  aborted : List SubId := []

inductive Action (K T : Type) where
  | acquire (key : K)
  | install (f : FlightId)
  /-- `runnable.store(true)`, by a waker or a new driver. -/
  | wake (f : FlightId)
  | pollWork (c : CallId) (f : FlightId)
  /-- What the user's future does when it is polled. -/
  | ready (c : CallId) (result : Except Error T)
  | pending (c : CallId)
  | panic (c : CallId) (payload : Option Panic)
  | cancel (c : CallId) (f : FlightId) (reason : Reason)
  /-- Only the request is cancelled, as through a factory's own source. -/
  | request (f : FlightId) (reason : Reason)
  | tryComplete (u : SubId)
  | drop (c : CallId) (u : SubId)
  | step (c : CallId)
  /-- The strong owner of the table goes away. -/
  | close

section Model

variable {K T : Type} [DecidableEq K]

@[simps]
def Table.setFlight (s : Table K T) (f : FlightId) (flight : Flight K T) : Table K T :=
  { s with flight := Function.update s.flight f (some flight) }

@[simps]
def Table.setCall (s : Table K T) (c : CallId) (pc : Pc T) : Table K T :=
  { s with call := Function.update s.call c pc }

@[simps]
def Table.setSub (s : Table K T) (u : SubId) (sub : Subscription) : Table K T :=
  { s with sub := Function.update s.sub u (some sub) }

/-- A new subscription, alive. -/
@[simps]
def Table.subscribe (s : Table K T) (sub : Subscription) : Table K T :=
  { s with
    sub := Function.update s.sub s.nextSub (some sub)
    live := insert s.nextSub s.live
    nextSub := s.nextSub + 1 }

/-- `Flights::acquire`: the table's lock is held until the cell was changed. -/
def acquire (s : Table K T) (key : K) : Option (Table K T) :=
  if s.alive then
    match s.entries key with
    | some f => do
      let flight ← s.flight f
      let s := s.setFlight f { flight with subscribers := flight.subscribers + 1 }
      some (s.subscribe { flight := f, leader := false, early := !flight.state.isFinished })
    | none =>
      let f := s.nextFlight
      let s := s.setFlight f { key, subscribers := 1, state := .starting }
      let s := { s with entries := Function.update s.entries key (some f), nextFlight := f + 1 }
      some (s.subscribe { flight := f, leader := true, early := true })
  else none

/-- `Flight::install`. -/
def install (s : Table K T) (f : FlightId) : Option (Table K T) := do
  let flight ← s.flight f
  let work := s.nextWork
  let s := { s with nextWork := work + 1 }
  match flight.state with
  | .starting => some (s.setFlight f { flight with state := .pending work, installed := some work })
  | _ => some s

/-- The first critical section of `Flight::poll_work`. -/
def pollWork (s : Table K T) (c : CallId) (f : FlightId) : Option (Table K T) := do
  let flight ← s.flight f
  match flight.state with
  | .pending work =>
    if flight.runnable then
      let s := s.setFlight f { flight with state := .polling, runnable := false }
      some (s.setCall c (.polling f work))
    else some s
  | _ => some s

/-- Removes the entry of this flight, if it is the registered one. -/
def removeEntry (s : Table K T) (f : FlightId) (key : K) : Table K T :=
  if s.entries key = some f then
    { s with entries := Function.update s.entries key none }
  else s

/-- `complete`: a cancelled request replaces the result, except for the lease error itself. -/
def mergeReason (reason : Option Reason) (terminal : Terminal T) : Terminal T :=
  match reason, terminal with
  | some .leaseLost, .owned (.error .leaseLost) => .owned (.error .leaseLost)
  | some reason, _ => .cancelled reason
  | none, terminal => terminal

/-- `complete`: a result that several subscribers wait for is shared. -/
def shareResult (subscribers : Nat) (terminal : Terminal T) : Terminal T :=
  match terminal with
  | .owned result => if 1 < subscribers then .shared result else .owned result
  | other => other

/-- `Request::cancel_with`: the first reason stays. -/
def cancelWith (reason : Option Reason) (new : Reason) : Option Reason := some (reason.getD new)

/-- The next access of a call. -/
def step (s : Table K T) (c : CallId) : Option (Table K T) :=
  match s.call c with
  | .returned f work => do
    let flight ← s.flight f
    match flight.reason with
    | some reason => some (s.setCall c (.removeEntry f (.cancelled reason)))
    | none => some (s.setCall c (.restore f work))
  | .restore f work => do
    let flight ← s.flight f
    some ((s.setFlight f { flight with state := .pending work }).setCall c (.recheck f))
  | .recheck f => do
    let flight ← s.flight f
    match flight.reason with
    | some reason => some (s.setCall c (.cancelRequest f reason))
    | none => some (s.setCall c .idle)
  | .removeEntry f terminal => do
    let flight ← s.flight f
    some ((removeEntry s f flight.key).setCall c (.readReason f terminal))
  | .readReason f terminal => do
    let flight ← s.flight f
    some (s.setCall c (.publish f (mergeReason flight.reason terminal)))
  | .publish f terminal => do
    let flight ← s.flight f
    let terminal := shareResult flight.subscribers terminal
    let state := if flight.subscribers = 0 then .finished else .completed terminal
    some ((s.setFlight f
      { flight with
        state
        outcome := some terminal
        audience := flight.subscribers }).setCall c (.finishScope f))
  | .finishScope f => do
    let flight ← s.flight f
    let s := s.setFlight f { flight with reason := cancelWith flight.reason .scopeFinished }
    some (s.setCall c .idle)
  | .cancelRequest f reason => do
    let flight ← s.flight f
    let s := s.setFlight f { flight with reason := cancelWith flight.reason reason }
    some (s.setCall c (.cancelCell f reason))
  | .cancelCell f reason => do
    let flight ← s.flight f
    match flight.state with
    | .starting | .pending _ =>
      some ((s.setFlight f
        { flight with
          state := .completed (.cancelled reason)
          outcome := some (.cancelled reason)
          audience := flight.subscribers }).setCall c (.cancelRemove f true))
    | _ => some (s.setCall c (.cancelRemove f false))
  | .cancelRemove f _ => do
    let flight ← s.flight f
    some ((removeEntry s f flight.key).setCall c .idle)
  | .abandonStart f => do
    let flight ← s.flight f
    let s := s.setCall c .idle
    match s.alive, flight.subscribers, flight.state with
    | true, 0, .starting =>
      -- the entry of the key goes, whoever's it is
      let reason := match s.entries flight.key with
        | some _ => cancelWith flight.reason .scopeFinished
        | none => flight.reason
      let s := { s with entries := Function.update s.entries flight.key none }
      some (s.setFlight f { flight with state := .finished, reason })
    | _, _, _ => some s
  | .idle | .polling _ _ => none

/-- `Subscription::try_complete`, for a subscription that was not consumed. -/
def tryComplete (s : Table K T) (u : SubId) : Option (Table K T) := do
  let sub ← s.sub u
  let flight ← s.flight sub.flight
  if u ∈ s.live ∧ sub.consumed = false then
    let deliver (completion : Completion T) (state : FlightState T) : Table K T :=
      let s := s.setFlight sub.flight { flight with state }
      let s := s.setSub u { sub with consumed := true }
      { s with deliveries := s.deliveries ++ [(u, completion)] }
    match flight.state with
    | .completed (.owned result) => some (deliver (.owned result) .finished)
    | .completed (.shared result) => some (deliver (.shared result) flight.state)
    | .completed (.panicked payload) =>
      match sub.leader, payload with
      | true, some payload => some (deliver (.panicked payload) (.completed (.panicked none)))
      | _, _ => some (deliver .followerPanicked flight.state)
    | .completed (.cancelled reason) =>
      some (deliver (.owned (.error (.operationCancelled reason))) flight.state)
    | .starting | .pending _ | .polling => some s
    | .finished => some { s with aborted := s.aborted ++ [u] }
  else none

/-- The critical section of `Subscription::drop`; an abandoned start is retired afterwards. -/
def dropSub (s : Table K T) (c : CallId) (u : SubId) : Option (Table K T) := do
  let sub ← s.sub u
  let flight ← s.flight sub.flight
  if u ∈ s.live then
    let subscribers := flight.subscribers - 1
    let s := { s with live := s.live.erase u }
    match subscribers, flight.state with
    | 0, .starting =>
      some ((s.setFlight sub.flight { flight with subscribers }).setCall c
        (.abandonStart sub.flight))
    | 0, .completed _ => some (s.setFlight sub.flight { flight with subscribers, state := .finished })
    | _, _ => some (s.setFlight sub.flight { flight with subscribers })
  else none

def next (s : Table K T) : Action K T → Option (Table K T)
  | .acquire key => acquire s key
  | .install f => install s f
  | .wake f => do
    let flight ← s.flight f
    some (s.setFlight f { flight with runnable := true })
  | .pollWork c f =>
    match s.call c with
    | .idle => pollWork s c f
    | _ => none
  | .ready c result =>
    match s.call c with
    | .polling f work =>
      let s := { s with ended := insert work s.ended }
      some (s.setCall c (.removeEntry f (.owned result)))
    | _ => none
  | .pending c =>
    match s.call c with
    | .polling f work => some (s.setCall c (.returned f work))
    | _ => none
  | .panic c payload =>
    match s.call c with
    | .polling f work =>
      let s := { s with ended := insert work s.ended }
      some (s.setCall c (.removeEntry f (.panicked payload)))
    | _ => none
  | .cancel c f reason =>
    match s.call c, s.flight f with
    | .idle, some _ => some (s.setCall c (.cancelRequest f reason))
    | _, _ => none
  | .request f reason => do
    let flight ← s.flight f
    some (s.setFlight f { flight with reason := cancelWith flight.reason reason })
  | .tryComplete u => tryComplete s u
  | .drop c u =>
    match s.call c with
    | .idle => dropSub s c u
    | _ => none
  | .step c => step s c
  | .close => some { s with alive := false, entries := fun _ => none }

/-- A new table. -/
def init : Table K T := {}

end Model

end Flights

end Amalgam
