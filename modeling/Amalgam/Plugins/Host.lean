import Amalgam.Execution.Drain

/-!
# Amalgam — the plugin host

`PluginHostInner` and `PluginSlot` of `src/plugins.rs`: attaching a session, capturing the
recipients of an event, requesting the stop of a session, pruning, `stop_all` and `shutdown`. Every section
under a lock, every access to a published counter and every run of a hook of a plugin is a step; any
number of calls take their steps in any order. The registry of the attachments is the one of
`Amalgam.Execution.Shutdown`, and takes its own steps between those of the host.
-/

namespace Amalgam

namespace Plugins

inductive SessionState where
  | running (callbacks : Nat)
  | draining (callbacks : Nat)
  | stopping
  /-- With the answer of the stop hook. -/
  | stopped (ok : Bool)
deriving DecidableEq

/-- A `PluginSlot`, and what has become of it. -/
structure Session where
  /-- `PluginObservations::All` -/
  observing : Bool
  state : SessionState := .running 0
  /-- Its stop was requested. -/
  asked : Bool := false
  /-- How often its stop hook ran. -/
  stops : Nat := 0
  /-- It has been in the host. -/
  entered : Bool := false
  /-- The caller of `attach` has it. -/
  handed : Bool := false

inductive HostState where
  | running (slots : List Nat)
  | stopped (slots : List Nat)

def HostState.slots : HostState → List Nat
  | .running slots | .stopped slots => slots

def HostState.push (k : Nat) : HostState → HostState
  | .running slots => .running (slots ++ [k])
  | .stopped slots => .stopped (slots ++ [k])

/-- `NotificationSelection` -/
inductive Selection where
  | every
  | legacy
  | observers
deriving DecidableEq

def Selection.selects : Selection → Bool → Bool
  | .every, _ => true
  | .legacy, observing => !observing
  | .observers, observing => observing

def Selection.empty (listeners observers : Nat) : Selection → Bool
  | .every => listeners == 0
  | .observers => observers == 0
  | .legacy => listeners == observers

inductive Job where
  | attach
  | capture (selection : Selection)
  /-- `PluginRegistration::stop`, and its drop. -/
  | stop (k : Nat)
  | stopAll
  | shutdown
deriving DecidableEq

/-- What a permit of the attachments is for. -/
inductive Purpose where
  | attach
  | capture (selection : Selection)
deriving DecidableEq

/-- Whose `closing_slots` it is: `shutdown` makes two snapshots. -/
inductive Closing where
  | all
  | first
  | second
deriving DecidableEq

/-- What a call does after a section under the host's lock, or after a stop. -/
inductive Cont where
  | check
  | status (k : Nat)
  /-- The host was stopped before the session came. -/
  | refuse (k : Nat)
  | leave
  | prune
  | return_
  /-- The stops of the other slots of the snapshot are requested next. -/
  | stops (closing : Closing) (slots : List Nat)
  /-- The other slots of the second snapshot are stopped and awaited next. -/
  | waits (slots : List Nat)
  | wait (k : Nat) (slots : List Nat)
  | drops (leases : List Nat)
deriving DecidableEq

/-- Where a call stands: the access that comes next. -/
inductive Pc where
  -- the permit
  | reserve (purpose : Purpose)
  | admission (purpose : Purpose)
  -- `attach_admitted`
  | check
  /-- The hooks of the plugin run. -/
  | user
  | push (k : Nat)
  | status (k : Nat)
  | leave
  | left
  -- `prune_stopped`
  | prune (cont : Cont)
  | scan (index : Nat) (cont : Cont)
  -- `publish_listeners`, and the end of the section
  | observers (cont : Cont)
  | listeners (cont : Cont)
  | unlock (cont : Cont)
  -- `capture_selected`
  | count (selection : Selection)
  | select (selection : Selection) (listeners : Nat)
  | slots (selection : Selection)
  | lease (rest leases : List Nat)
  | notify (leases : List Nat)
  /-- The leases are dropped. -/
  | drops (leases : List Nat)
  -- `request_stop` and `finish_stop`
  | stop (k : Nat) (cont : Cont)
  | hook (k : Nat) (cont : Cont)
  | settle (k : Nat) (ok : Bool) (cont : Cont)
  -- `closing_slots`
  | close (closing : Closing)
  | closing (closing : Closing)
  | seal (closing : Closing)
  -- `shutdown`
  | drained
  | wait (k : Nat) (slots : List Nat)
  -- The counter of the callbacks goes below zero.
  | underflow
  -- `unreachable!("callback leases drain before stopping")`
  | unreachable
  | done
deriving DecidableEq

def Cont.pc : Cont → Pc
  | .check => .check
  | .status k => .status k
  | .refuse k => .stop k .leave
  | .leave => .leave
  | .prune => .prune .return_
  | .return_ => .done
  | .stops closing (k :: slots) => .stop k (.stops closing slots)
  | .stops closing [] => if closing = .first then .drained else .done
  | .waits (k :: slots) => .stop k (.wait k slots)
  | .waits [] => .done
  | .wait k slots => .wait k slots
  | .drops leases => .drops leases

def Purpose.pc : Purpose → Pc
  | .attach => .prune .check
  | .capture selection => .slots selection

/-- An `InlinePermit` of the thread, or an `OwnedInlinePermit`. -/
def Purpose.job : Purpose → Shutdown.Job
  | .attach => .inline
  | .capture _ => .owned

def Closing.cont (slots : List Nat) : Closing → Cont
  | .all => .stops .all slots
  | .first => .stops .first slots
  | .second => .waits slots

def Job.entry : Job → Pc
  | .attach => .reserve .attach
  | .capture selection => .count selection
  | .stop k => .stop k .prune
  | .stopAll => .close .all
  | .shutdown => .close .first

structure Call where
  thread : Nat
  job : Job
  pc : Pc
  /-- Its call in the registry of the attachments. -/
  permit : Option Nat := none

structure State where
  sessions : Nat → Option Session
  host : HostState
  /-- The call that has the lock of the slots for writing. -/
  writer : Option Nat
  listeners : Nat
  observers : Nat
  attachments : Shutdown.State
  calls : Nat → Option Call
  /-- The leases that are not dropped: the call and the session. -/
  leases : List (Nat × Nat)
  /-- A `shutdown` has seen the attachments drained. -/
  drained : Bool

namespace State

def put (s : State) (id : Nat) (c : Call) : State :=
  { s with calls := Function.update s.calls id (some c) }

def goto (s : State) (id : Nat) (c : Call) (pc : Pc) : State := s.put id { c with pc }

def setSession (s : State) (k : Nat) (a : Session) : State :=
  { s with sessions := Function.update s.sessions k (some a) }

/-- `is_stopped` -/
def isStopped (s : State) (k : Nat) : Bool :=
  match s.sessions k with
  | some { state := .stopped _, .. } => true
  | _ => false

/-- `observations == PluginObservations::All` -/
def isObserving (s : State) (k : Nat) : Bool := (s.sessions k).any (·.observing)

/-- The number of recipients that `publish_listeners` finds. -/
def listening (s : State) : Nat :=
  match s.host with
  | .running slots => slots.length
  | .stopped _ => 0

def observing (s : State) : Nat :=
  match s.host with
  | .running slots => (slots.filter s.isObserving).length
  | .stopped _ => 0

end State

/-- `Vec::swap_remove` -/
def swapRemove (slots : List Nat) (index : Nat) : List Nat :=
  (slots.set index (slots.getLastD 0)).dropLast

/-- What a call meets at its next step. -/
inductive Choice where
  | go
  /-- The name of a new call in the registry of the attachments. -/
  | scope (k : Nat)
  /-- A hook of a plugin fails before there is a session. -/
  | refused
  /-- The plugin is attached: the name of its slot. -/
  | attached (k : Nat) (observing : Bool)
  /-- How the stop hook ends. -/
  | stopped (ok : Bool)
deriving DecidableEq

/-- The call of the registry that a call waits for. -/
def State.permitPc (s : State) (c : Call) : Option Shutdown.Pc :=
  c.permit.bind fun k => (s.attachments.calls k).map (·.pc)

/-- A call of the registry is made. -/
def stepEnter (s : State) (id : Nat) (c : Call) (job : Shutdown.Job) (pc : Pc) (choice : Choice) :
    Option State :=
  match choice with
  | .scope k =>
    (Shutdown.next s.attachments (.start k c.thread job)).map fun attachments =>
      { s with attachments }.put id { c with pc, permit := some k }
  | _ => none

/-- A call of the registry that has its activity goes on. -/
def stepPermit (s : State) (id : Nat) (c : Call) (choice : Shutdown.Choice) (pc : Pc) :
    Option State :=
  if s.permitPc c = some .running then
    c.permit.bind fun k =>
      (Shutdown.next s.attachments (.step k choice)).map fun attachments =>
        { s with attachments }.goto id c pc
  else none

/-- `attach` and `attach_admitted`. -/
def stepAttach (s : State) (id : Nat) (c : Call) (choice : Choice) : Option State :=
  match c.pc with
  | .reserve purpose => stepEnter s id c purpose.job (.admission purpose) choice
  | .admission purpose =>
    stepPermit s id c .admission (if s.attachments.closing then .leave else purpose.pc)
  | .check =>
    if s.writer = none then
      match s.host with
      | .running _ => some (s.goto id c .user)
      | .stopped _ => some (s.goto id c .leave)
    else none
  | .user =>
    match choice with
    | .refused => some (s.goto id c .leave)
    | .attached k observing =>
      if (s.sessions k).isNone then some ((s.setSession k { observing }).goto id c (.push k))
      else none
    | _ => none
  | .push k =>
    if s.writer = none then
      (s.sessions k).map fun a =>
        ({ s with writer := some id, host := s.host.push k }.setSession k
          { a with entered := true }).goto id c
            (.observers (match s.host with
              | .running _ => .status k
              | .stopped _ => .refuse k))
    else none
  | .status k =>
    if s.attachments.closing then some (s.goto id c (.stop k .leave))
    else (s.sessions k).map fun a => (s.setSession k { a with handed := true }).goto id c .leave
  | .leave => stepPermit s id c .go .left
  | .left => if s.permitPc c = some .done then some (s.goto id c .done) else none
  | _ => none

/-- `prune_stopped`, and `publish_listeners`. -/
def stepHost (s : State) (id : Nat) (c : Call) : Option State :=
  match c.pc with
  | .prune cont =>
    if s.writer = none then some ({ s with writer := some id }.goto id c (.scan 0 cont)) else none
  | .scan index cont =>
    match s.host with
    | .running slots =>
      match slots[index]? with
      | some k =>
        if s.isStopped k then
          some ({ s with host := .running (swapRemove slots index) }.goto id c (.scan index cont))
        else some (s.goto id c (.scan (index + 1) cont))
      | none => some (s.goto id c (.observers cont))
    | .stopped _ => some (s.goto id c (.observers cont))
  | .observers cont => some ({ s with observers := s.observing }.goto id c (.listeners cont))
  | .listeners cont => some ({ s with listeners := s.listening }.goto id c (.unlock cont))
  | .unlock cont => some ({ s with writer := none }.goto id c cont.pc)
  | _ => none

/-- `PluginSlot::finish_callback`, for the first of the leases. -/
def finishCallback (s : State) (id : Nat) (c : Call) (k : Nat) (rest : List Nat) : Option State :=
  (s.sessions k).map fun a =>
    let s := { s with leases := s.leases.erase (id, k) }
    match a.state with
    | .running 0 | .draining 0 => s.goto id c .underflow
    | .running (n + 1) => (s.setSession k { a with state := .running n }).goto id c (.drops rest)
    | .draining (n + 1) =>
      if n = 0 then (s.setSession k { a with state := .stopping }).goto id c (.hook k (.drops rest))
      else (s.setSession k { a with state := .draining n }).goto id c (.drops rest)
    | .stopping | .stopped _ => s.goto id c .unreachable

/-- `capture_selected`, the callbacks, and the drop of the leases. -/
def stepCapture (s : State) (id : Nat) (c : Call) : Option State :=
  match c.pc with
  | .count selection => some (s.goto id c (.select selection s.listeners))
  | .select selection listeners =>
    if selection.empty listeners s.observers then some (s.goto id c .done)
    else some (s.goto id c (.reserve (.capture selection)))
  | .slots selection =>
    if s.writer = none then
      match s.host with
      | .running slots =>
        some (s.goto id c (.lease (slots.filter fun k => selection.selects (s.isObserving k)) []))
      | .stopped _ => some (s.goto id c (.lease [] []))
    else none
  | .lease (k :: rest) leases =>
    (s.sessions k).map fun a =>
      match a.state with
      | .running n =>
        ({ s with leases := (id, k) :: s.leases }.setSession k
          { a with state := .running (n + 1) }).goto id c (.lease rest (leases ++ [k]))
      | .draining _ | .stopping | .stopped _ => s.goto id c (.lease rest leases)
  | .lease [] leases => some (s.goto id c (if leases = [] then .leave else .notify leases))
  | .notify leases => some (s.goto id c (.drops leases))
  | .drops (k :: rest) => finishCallback s id c k rest
  | .drops [] => some (s.goto id c .leave)
  | _ => none

/-- `PluginSlot::request_stop` and `PluginSlot::finish_stop`. -/
def stepStop (s : State) (id : Nat) (c : Call) (choice : Choice) : Option State :=
  match c.pc with
  | .stop k cont =>
    (s.sessions k).map fun a =>
      match a.state with
      | .running 0 =>
        (s.setSession k { a with state := .stopping, asked := true }).goto id c (.hook k cont)
      | .running (n + 1) =>
        (s.setSession k { a with state := .draining (n + 1), asked := true }).goto id c cont.pc
      | .draining _ | .stopping | .stopped _ => s.goto id c cont.pc
  | .hook k cont =>
    match choice with
    | .stopped ok =>
      (s.sessions k).map fun a =>
        (s.setSession k { a with stops := a.stops + 1 }).goto id c (.settle k ok cont)
    | _ => none
  | .settle k ok cont =>
    (s.sessions k).map fun a => (s.setSession k { a with state := .stopped ok }).goto id c cont.pc
  | _ => none

/-- `closing_slots`, `drained` and `wait_stopped`. -/
def stepClose (s : State) (id : Nat) (c : Call) (choice : Choice) : Option State :=
  match c.pc with
  | .close closing => stepEnter s id c .close (.closing closing) choice
  | .closing closing =>
    if s.permitPc c = some .done then some (s.goto id c (.seal closing)) else none
  | .seal closing =>
    if s.writer = none then
      match s.host with
      | .running slots =>
        some ({ s with writer := some id, host := .stopped slots }.goto id c
          (.observers (closing.cont slots)))
      | .stopped slots => some (s.goto id c (closing.cont slots).pc)
    else none
  | .drained =>
    if s.attachments.drain = .returned then
      some ({ s with drained := true }.goto id c (.close .second))
    else none
  | .wait k slots =>
    if s.isStopped k then some (s.goto id c (Cont.waits slots).pc) else none
  | _ => none

def stepCall (s : State) (id : Nat) (c : Call) (choice : Choice) : Option State :=
  match c.pc with
  | .reserve _ | .admission _ | .check | .user | .push _ | .status _ | .leave | .left =>
    stepAttach s id c choice
  | .prune _ | .scan .. | .observers _ | .listeners _ | .unlock _ => stepHost s id c
  | .count _ | .select .. | .slots _ | .lease .. | .notify _ | .drops _ => stepCapture s id c
  | .stop .. | .hook .. | .settle .. => stepStop s id c choice
  | .close _ | .closing _ | .seal _ | .drained | .wait .. => stepClose s id c choice
  | .underflow | .unreachable | .done => none

inductive Action where
  | start (id thread : Nat) (job : Job)
  | step (id : Nat) (choice : Choice)
  /-- A step inside the registry of the attachments; a permit in use is the host's. -/
  | scope (k : Nat) (choice : Shutdown.Choice)
  | drain

/-- A registration is made of a session that its caller has. -/
def Job.isPossible (s : State) : Job → Bool
  | .stop k => (s.sessions k).any (·.handed)
  | .attach | .capture _ | .stopAll | .shutdown => true

def next (s : State) : Action → Option State
  | .start id thread job =>
    if (s.calls id).isNone ∧ job.isPossible s then some (s.put id { thread, job, pc := job.entry })
    else none
  | .step id choice => (s.calls id).bind fun c => stepCall s id c choice
  | .scope k choice =>
    if (s.attachments.calls k).any (·.pc = .running) then none
    else
      (Shutdown.next s.attachments (.step k choice)).map fun attachments => { s with attachments }
  | .drain => (Shutdown.next s.attachments .drain).map fun attachments => { s with attachments }

def init : State where
  sessions := fun _ => none
  host := .running []
  writer := none
  listeners := 0
  observers := 0
  attachments := Shutdown.init
  calls := fun _ => none
  leases := []
  drained := false

end Plugins

end Amalgam
