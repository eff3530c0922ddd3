import Amalgam.Flight.Table

/-!
# Amalgam — retained origins

`src/retained_origin.rs` over one flight of `src/single_flight.rs`, with the work that
`compute_origin` installs. The identity of a retained origin is fresh, so the flight has one
subscriber, its client; a driver supervises the work, and other callers may help to poll it.
A poll of the work is several accesses with the other parties in between. The `runnable` flag and
the wakers only delay polls and are left out, like the table entry.

* **`failure_observed_once_iff`** — a failure is never reported twice, and it is reported once
  exactly in the runs that do not drop an undelivered client after the driver read the audience.
* **`failure_lost`** — a client dropped between the driver's reading and its own poll.
-/

namespace Amalgam

namespace RetainedOrigin

open Run
open Flights (Reason Panic Terminal Completion mergeReason cancelWith)

inductive Audience where
  | foreground
  | background
deriving DecidableEq

/-- The errors a result is kept with. -/
inductive OriginError where
  | failed (error : Flights.Error)
  | factoryPanicked
deriving DecidableEq

inductive Delivery where
  | active (audience : Audience)
  | completed (audience : Audience) (result : Except OriginError Unit)
  | backgroundPanic (payload : Panic)

/-- How the driver future ends. -/
inductive Supervision where
  | result (result : Except OriginError Unit)
  /-- `resume_unwind`. -/
  | panic (payload : Panic)

/-- What `complete` keeps of a result. -/
def keep {T : Type} : Except Flights.Error T → Except OriginError Unit
  | .ok _ => .ok ()
  | .error error => .error (.failed error)

namespace Delivery

def audience : Delivery → Audience
  | .active audience | .completed audience _ => audience
  | .backgroundPanic _ => .background

/-- `OriginIdentity::panicked`: the payload goes on to the flight, or stays for the driver. -/
def panicked (payload : Panic) : Delivery → Delivery × Option Panic
  | .active .foreground | .completed .foreground _ =>
    (.completed .foreground (.error .factoryPanicked), some payload)
  | .active .background | .completed .background _ | .backgroundPanic _ =>
    (.backgroundPanic payload, none)

/-- `OriginIdentity::complete`. -/
def complete (d : Delivery) (result : Except OriginError Unit) : Delivery :=
  .completed d.audience result

/-- `OriginIdentity::detach`. -/
def detach : Delivery → Delivery
  | .active _ => .active .background
  | .completed _ result => .completed .background result
  | .backgroundPanic payload => .backgroundPanic payload

/-- `OriginIdentity::background_result`. -/
def backgroundResult : Delivery → Supervision × Delivery
  | .completed .background result => (.result result, .completed .background result)
  | .active audience => (.result (.ok ()), .active audience)
  | .completed .foreground result => (.result (.ok ()), .completed .foreground result)
  | .backgroundPanic payload =>
    (.panic payload, .completed .background (.error .factoryPanicked))

end Delivery

/-- `State` of the flight, once the work is installed. -/
inductive Cell (T : Type) where
  | pending
  | polling
  | completed (terminal : Terminal T)
  | finished

def Cell.isFinished {T : Type} : Cell T → Bool
  | .completed _ | .finished => true
  | .pending | .polling => false

/-- Where the poll of the work stands: the access it makes next. -/
inductive Poll (T : Type) where
  | idle
  /-- The factory and the storing of its product run. -/
  | running
  /-- The result was reported to the identity; the work is dropped. -/
  | returning (result : Except Flights.Error T)
  | suspended
  | restoring
  | unwinding (payload : Panic)
  -- `complete`
  | finishing (terminal : Terminal T)
  | publishing (terminal : Terminal T)
  | closing

/-- `OriginClient`. -/
inductive Client (T : Type) where
  | waiting
  | delivered (completion : Completion T)
  /-- Dropped before it was delivered; `detach` has run. -/
  | detached
  /-- The panic of a subscription polled again. -/
  | aborted

inductive Driver where
  | driving
  /-- The flight has ended; `background_result` comes next. -/
  | reading
  | ended (supervision : Supervision)

structure State (T : Type) where
  delivery : Delivery
  cell : Cell T
  poll : Poll T
  reason : Option Reason
  client : Client T
  /-- The subscription of the client is counted in the cell. -/
  subscribed : Bool
  driver : Driver
  -- history: what `complete` or `cancel` published
  outcome : Option (Terminal T)

inductive Action (T : Type) where
  /-- `poll_work` of the client, the driver or a helper takes the work. -/
  | poll
  | suspend
  | report (result : Except Flights.Error T)
  | panic (payload : Panic)
  /-- The next access of the poll. -/
  | step
  | request (reason : Reason)
  /-- The cell of a cancelled flight. -/
  | cancel (reason : Reason)
  | tryComplete
  | detach
  | unsubscribe
  /-- The driver finds the flight ended. -/
  | observe
  | read

variable {T : Type}

def step (s : State T) : Option (State T) :=
  match s.poll with
  | .returning result => some { s with poll := .finishing (.owned result) }
  | .suspended =>
    match s.reason with
    | some reason => some { s with poll := .finishing (.cancelled reason) }
    | none => some { s with poll := .restoring }
  | .restoring => some { s with cell := .pending, poll := .idle }
  | .unwinding payload =>
    let panicked := s.delivery.panicked payload
    some { s with delivery := panicked.1, poll := .finishing (.panicked panicked.2) }
  | .finishing terminal => some { s with poll := .publishing (mergeReason s.reason terminal) }
  | .publishing terminal =>
    some { s with
      cell := if s.subscribed then .completed terminal else .finished
      poll := .closing
      outcome := some terminal }
  | .closing => some { s with reason := cancelWith s.reason .scopeFinished, poll := .idle }
  | .idle | .running => none

/-- `try_complete` of the client's subscription, which leads the flight alone. -/
def tryComplete (s : State T) : State T :=
  match s.cell with
  | .completed (.owned result) =>
    { s with cell := .finished, client := .delivered (.owned result) }
  | .completed (.shared result) => { s with client := .delivered (.shared result) }
  | .completed (.panicked (some payload)) =>
    { s with cell := .completed (.panicked none), client := .delivered (.panicked payload) }
  | .completed (.panicked none) => { s with client := .delivered .followerPanicked }
  | .completed (.cancelled reason) =>
    { s with client := .delivered (.owned (.error (.operationCancelled reason))) }
  | .pending | .polling => s
  | .finished => { s with client := .aborted }

def next (s : State T) : Action T → Option (State T)
  | .poll =>
    match s.cell, s.poll with
    | .pending, .idle => some { s with cell := .polling, poll := .running }
    | _, _ => none
  | .suspend =>
    match s.poll with
    | .running => some { s with poll := .suspended }
    | _ => none
  | .report result =>
    match s.poll with
    | .running =>
      some { s with delivery := s.delivery.complete (keep result), poll := .returning result }
    | _ => none
  | .panic payload =>
    match s.poll with
    | .running | .returning _ => some { s with poll := .unwinding payload }
    | _ => none
  | .step => step s
  | .request reason => some { s with reason := cancelWith s.reason reason }
  | .cancel reason =>
    match s.reason, s.cell with
    | some _, .pending =>
      some { s with
        cell := .completed (.cancelled reason), outcome := some (.cancelled reason) }
    | _, _ => none
  | .tryComplete =>
    match s.client with
    | .waiting => some (tryComplete s)
    | _ => none
  | .detach =>
    match s.client with
    | .waiting => some { s with delivery := s.delivery.detach, client := .detached }
    | _ => none
  | .unsubscribe =>
    match s.client, s.subscribed with
    | .waiting, _ | _, false => none
    | _, true =>
      some { s with
        subscribed := false
        cell := match s.cell with
          | .completed _ => .finished
          | cell => cell }
  | .observe =>
    match s.driver with
    | .driving => if s.cell.isFinished then some { s with driver := .reading } else none
    | _ => none
  | .read =>
    match s.driver with
    | .reading =>
      let read := s.delivery.backgroundResult
      some { s with delivery := read.2, driver := .ended read.1 }
    | _ => none

/-- The work is installed and was not polled yet. -/
def init : State T where
  delivery := .active .foreground
  cell := .pending
  poll := .idle
  reason := none
  client := .waiting
  subscribed := true
  driver := .driving
  outcome := none

/-! ## Who is told -/

/-- The client's caller gets a failure. -/
def Client.reports : Client T → Bool
  | .delivered (.owned (.error _)) | .delivered (.shared (.error _)) => true
  | .delivered (.panicked _) | .delivered .followerPanicked => true
  | _ => false

/-- The driver ends with a failure. -/
def Supervision.reports : Supervision → Bool
  | .result (.ok ()) => false
  | .result (.error _) | .panic _ => true

def Driver.reports : Driver → Bool
  | .ended supervision => supervision.reports
  | .driving | .reading => false

/-- How many of the two are told of a failure. -/
def State.reports (s : State T) : Nat := s.client.reports.toNat + s.driver.reports.toNat

/-- The work ended with an error or a panic and was not cancelled. -/
def IsFailure : Terminal T → Bool
  | .owned (.error _) | .panicked _ => true
  | .owned (.ok _) | .shared _ | .cancelled _ => false

/-- The client got its outcome, or was dropped. -/
def Client.isOver : Client T → Bool
  | .waiting => false
  | .delivered _ | .detached | .aborted => true

/-- What the client gets of a terminal state. -/
def Gives : Terminal T → Completion T → Prop
  | .owned result, completion => completion = .owned result
  | .panicked payload, completion => ∃ p, payload = some p ∧ completion = .panicked p
  | .cancelled reason, completion => completion = .owned (.error (.operationCancelled reason))
  | .shared _, _ => False

/-- What the driver ends with is nothing, or tells of this terminal state. -/
def Tells : Terminal T → Supervision → Prop
  | _, .result (.ok ()) => True
  | .owned result, .result (.error error) => keep result = .error error
  | .panicked _, .result (.error error) => error = .factoryPanicked
  | .panicked _, .panic _ => True
  | .cancelled _, _ => True
  | .owned _, .panic _ | .shared _, _ => False

theorem tells_cancelled (reason : Reason) (supervision : Supervision) :
    Tells (.cancelled reason : Terminal T) supervision := by
  match supervision with
  | .result (.ok ()) => trivial
  | .result (.error _) => trivial
  | .panic _ => trivial

/-- A delivered failure is a failure. -/
theorem Gives.reports {terminal : Terminal T} {completion : Completion T}
    (h : Gives terminal completion) (hfailed : IsFailure terminal = true) :
    (Client.delivered completion).reports = true := by
  match terminal, h with
  | .owned (.error _), h =>
    obtain rfl := h
    rfl
  | .panicked _, ⟨_, _, h⟩ =>
    obtain rfl := h
    rfl

/-! ## What holds in every state -/

/-- The poll has the work, or decides on the end of the flight. -/
def Poll.holds : Poll T → Bool
  | .idle | .closing => false
  | .running | .returning _ | .suspended | .restoring | .unwinding _ | .finishing _
  | .publishing _ => true

/-- What the identity holds of a terminal state. -/
def Told : Terminal T → Delivery → Driver → Prop
  | .owned result, d, _ => ∃ audience, d = .completed audience (keep result)
  | .panicked (some _), d, _ => ∃ audience, d = .completed audience (.error .factoryPanicked)
  | .panicked none, d, driver =>
    (∃ payload, d = .backgroundPanic payload) ∧ (∀ supervision, driver ≠ .ended supervision) ∨
      d = .completed .background (.error .factoryPanicked) ∧
        ∃ payload, driver = .ended (.panic payload)
  | .shared _, _, _ => False
  | .cancelled _, _, _ => True

/-- What the identity holds while the work is polled. -/
def Poll.Ready (d : Delivery) (driver : Driver) : Poll T → Prop
  | .idle | .closing => True
  | .running | .suspended | .restoring => ∃ audience, d = .active audience
  | .returning result => ∃ audience, d = .completed audience (keep result)
  | .unwinding _ => ∀ payload, d ≠ .backgroundPanic payload
  | .finishing terminal | .publishing terminal => Told terminal d driver

structure Inv (s : State T) : Prop where
  holds : s.poll.holds = true ↔ s.cell = .polling
  ready : s.poll.Ready s.delivery s.driver
  pending : s.cell = .pending → ∃ audience, s.delivery = .active audience
  ended : s.cell.isFinished = s.outcome.isSome
  told : ∀ terminal, s.outcome = some terminal → Told terminal s.delivery s.driver
  detached : s.delivery.audience = .background ↔ s.client = .detached
  shown : ∀ terminal, s.cell = .completed terminal → s.client = .waiting →
    s.outcome = some terminal
  waiting : s.client = .waiting → s.subscribed = true ∧ s.cell ≠ .finished
  delivered : ∀ completion, s.client = .delivered completion →
    ∃ terminal, s.outcome = some terminal ∧ Gives terminal completion
  consumed : s.client ≠ .aborted
  reading : s.driver ≠ .driving → s.outcome.isSome = true
  reported : ∀ supervision, s.driver = .ended supervision →
    (supervision.reports = true → s.client = .detached) ∧
      ∀ terminal, s.outcome = some terminal → Tells terminal supervision

theorem Inv.init : Inv (init : State T) where
  holds := by constructor <;> nofun
  ready := trivial
  pending _ := ⟨.foreground, rfl⟩
  ended := rfl
  told := nofun
  detached := by constructor <;> nofun
  shown := nofun
  waiting _ := ⟨rfl, nofun⟩
  delivered := nofun
  consumed := nofun
  reading h := absurd rfl h
  reported := nofun

/-! ### The identity -/

namespace Delivery

theorem detach_audience (d : Delivery) : d.detach.audience = .background := by
  cases d <;> rfl

theorem backgroundResult_audience (d : Delivery) : d.backgroundResult.2.audience = d.audience := by
  cases d with
  | active _ => rfl
  | completed audience _ => cases audience <;> rfl
  | backgroundPanic _ => rfl

theorem panicked_audience (d : Delivery) (payload : Panic) :
    (d.panicked payload).1.audience = d.audience := by
  cases d with
  | active audience => cases audience <;> rfl
  | completed audience _ => cases audience <;> rfl
  | backgroundPanic _ => rfl

end Delivery

theorem Told.detach {terminal : Terminal T} {d : Delivery} {driver : Driver}
    (h : Told terminal d driver) : Told terminal d.detach driver := by
  match terminal, h with
  | .owned _, ⟨_, h⟩ => exact ⟨.background, by rw [h]; rfl⟩
  | .panicked (some _), ⟨_, h⟩ => exact ⟨.background, by rw [h]; rfl⟩
  | .panicked none, .inl ⟨⟨payload, h⟩, hdriver⟩ => exact .inl ⟨⟨payload, by rw [h]; rfl⟩, hdriver⟩
  | .panicked none, .inr ⟨h, hdriver⟩ => exact .inr ⟨by rw [h]; rfl, hdriver⟩
  | .cancelled _, _ => trivial

/-- A panic is told before the driver has ended. -/
theorem Told.panicked {d : Delivery} {driver : Driver} (payload : Panic)
    (hdriver : ∀ supervision, driver ≠ .ended supervision) :
    Told (.panicked (d.panicked payload).2 : Terminal T) (d.panicked payload).1 driver := by
  cases d with
  | active audience =>
    cases audience with
    | foreground => exact ⟨.foreground, rfl⟩
    | background => exact .inl ⟨⟨payload, rfl⟩, hdriver⟩
  | completed audience _ =>
    cases audience with
    | foreground => exact ⟨.foreground, rfl⟩
    | background => exact .inl ⟨⟨payload, rfl⟩, hdriver⟩
  | backgroundPanic _ => exact .inl ⟨⟨payload, rfl⟩, hdriver⟩

theorem Told.mergeReason {terminal : Terminal T} {d : Delivery} {driver : Driver}
    (h : Told terminal d driver) (reason : Option Reason) :
    Told (Flights.mergeReason reason terminal) d driver := by
  unfold Flights.mergeReason
  split
  · exact h
  · trivial
  · exact h

/-! ### The steps -/

namespace Inv

variable {s t : State T}

/-- While the work is polled nothing was published and the driver goes on. -/
theorem quiet (hs : Inv s) (h : s.poll.holds = true) :
    s.outcome = none ∧ s.driver = .driving := by
  have hcell := hs.holds.mp h
  have hnone : s.outcome.isSome = false := by rw [← hs.ended, hcell]; rfl
  refine ⟨Option.isSome_eq_false_iff.mp hnone |> Option.isNone_iff_eq_none.mp, ?_⟩
  by_contra hdriver
  rw [hs.reading hdriver] at hnone
  cases hnone

/-- A poll that goes on with the work. -/
theorem goOn (hs : Inv s) (h : s.poll.holds = true) {poll : Poll T} (hpoll : poll.holds = true)
    {delivery : Delivery} (haudience : delivery.audience = s.delivery.audience)
    (hready : poll.Ready delivery s.driver) : Inv { s with delivery, poll } := by
  obtain ⟨houtcome, hdriver⟩ := hs.quiet h
  have hcell := hs.holds.mp h
  exact { hs with
    holds := iff_of_true hpoll hcell
    ready := hready
    pending := fun hpending => by
      rw [show s.cell = .pending from hpending] at hcell
      cases hcell
    told := fun terminal hterminal => by
      rw [show s.outcome = some terminal from hterminal] at houtcome
      cases houtcome
    detached := by
      rw [← hs.detached, ← haudience] }

theorem step (hs : Inv s) (h : RetainedOrigin.step s = some t) : Inv t := by
  have hready := hs.ready
  have hholds := hs.holds
  unfold RetainedOrigin.step at h
  cases hpoll : s.poll with
  | idle => simp only [hpoll, reduceCtorEq] at h
  | running => simp only [hpoll, reduceCtorEq] at h
  | returning result =>
    simp only [hpoll, Option.some.injEq] at h
    subst h
    rw [hpoll] at hready
    exact hs.goOn (by rw [hpoll]; rfl) rfl rfl hready
  | suspended =>
    rw [hpoll] at hready
    simp only [hpoll] at h
    split at h
    · obtain rfl := Option.some.inj h
      exact hs.goOn (by rw [hpoll]; rfl) rfl rfl trivial
    · obtain rfl := Option.some.inj h
      exact hs.goOn (by rw [hpoll]; rfl) rfl rfl hready
  | restoring =>
    simp only [hpoll, Option.some.injEq] at h
    subst h
    obtain ⟨houtcome, hdriver⟩ := hs.quiet (by rw [hpoll]; rfl)
    rw [hpoll] at hready
    exact { hs with
      holds := by constructor <;> nofun
      ready := trivial
      pending := fun _ => hready
      ended := by
        show false = s.outcome.isSome
        rw [houtcome]
        rfl
      shown := nofun
      waiting := fun hclient => ⟨(hs.waiting hclient).1, nofun⟩ }
  | unwinding payload =>
    simp only [hpoll, Option.some.injEq] at h
    subst h
    obtain ⟨-, hdriver⟩ := hs.quiet (by rw [hpoll]; rfl)
    exact hs.goOn (by rw [hpoll]; rfl) rfl (s.delivery.panicked_audience payload)
      (.panicked payload (by rw [hdriver]; nofun))
  | finishing terminal =>
    simp only [hpoll, Option.some.injEq] at h
    subst h
    rw [hpoll] at hready
    exact hs.goOn (by rw [hpoll]; rfl) rfl rfl (Told.mergeReason hready s.reason)
  | publishing terminal =>
    simp only [hpoll, Option.some.injEq] at h
    subst h
    obtain ⟨houtcome, hdriver⟩ := hs.quiet (by rw [hpoll]; rfl)
    rw [hpoll] at hready
    exact { hs with
      holds := by
        refine iff_of_false nofun ?_
        dsimp only
        split <;> nofun
      ready := trivial
      pending := by
        dsimp only
        split <;> nofun
      ended := by
        dsimp only
        split <;> rfl
      told := fun terminal' hterminal => by
        obtain rfl := Option.some.inj hterminal
        exact hready
      shown := fun terminal' hterminal hclient => by
        dsimp only at hterminal
        rw [if_pos (hs.waiting hclient).1] at hterminal
        exact congrArg some (Cell.completed.inj hterminal)
      waiting := fun hclient => by
        refine ⟨(hs.waiting hclient).1, ?_⟩
        dsimp only
        rw [if_pos (hs.waiting hclient).1]
        nofun
      delivered := fun completion hcompletion => by
        obtain ⟨other, hother, -⟩ := hs.delivered completion hcompletion
        rw [houtcome] at hother
        cases hother
      reading := fun _ => rfl
      reported := fun supervision hended => by
        rw [show s.driver = .ended supervision from hended] at hdriver
        cases hdriver }
  | closing =>
    simp only [hpoll, Option.some.injEq] at h
    subst h
    exact { hs with
      holds := by
        rw [hpoll] at hholds
        exact hholds
      ready := trivial }

/-- The client takes the outcome of an ended flight. -/
theorem deliver (hs : Inv s) (hclient : s.client = .waiting) {terminal : Terminal T}
    (hterminal : s.cell = .completed terminal) {cell : Cell T} (hcell : cell.isFinished = true)
    {completion : Completion T} (hgives : Gives terminal completion) :
    Inv { s with cell, client := .delivered completion } := by
  have hshown := hs.shown terminal hterminal hclient
  have hpoll : s.poll.holds ≠ true := fun hholds => by
    rw [hs.holds.mp hholds] at hterminal
    cases hterminal
  have hforeground : s.delivery.audience ≠ .background := fun hbackground => by
    rw [hs.detached.mp hbackground] at hclient
    cases hclient
  exact { hs with
    holds := iff_of_false hpoll fun h => by
      rw [show cell = .polling from h] at hcell
      cases hcell
    pending := fun h => by
      rw [show cell = .pending from h] at hcell
      cases hcell
    ended := by
      show cell.isFinished = s.outcome.isSome
      rw [hcell, hshown]
      rfl
    detached := iff_of_false hforeground nofun
    shown := nofun
    waiting := nofun
    delivered := fun other hother => by
      obtain rfl := Client.delivered.inj hother
      exact ⟨terminal, hshown, hgives⟩
    consumed := nofun
    reported := fun supervision hended => by
      refine ⟨fun hreports => ?_, (hs.reported supervision hended).2⟩
      rw [(hs.reported supervision hended).1 hreports] at hclient
      cases hclient }

theorem tryComplete (hs : Inv s) (hclient : s.client = .waiting) :
    Inv (RetainedOrigin.tryComplete s) := by
  unfold RetainedOrigin.tryComplete
  split
  · rename_i hterminal
    exact hs.deliver hclient hterminal rfl rfl
  · rename_i hterminal
    exact (hs.told _ (hs.shown _ hterminal hclient)).elim
  · rename_i hterminal
    exact hs.deliver hclient hterminal rfl ⟨_, rfl, rfl⟩
  · -- The payload stays with the identity only once the client was dropped.
    rename_i hterminal
    have hbackground : s.delivery.audience = .background := by
      rcases hs.told _ (hs.shown _ hterminal hclient) with ⟨⟨payload, h⟩, -⟩ | ⟨h, -⟩ <;>
      · rw [h]
        rfl
    rw [hs.detached.mp hbackground] at hclient
    cases hclient
  · rename_i hterminal
    exact hs.deliver hclient hterminal (by rw [hterminal]; rfl) rfl
  · exact hs
  · exact hs
  · rename_i hterminal
    exact absurd hterminal (hs.waiting hclient).2

theorem detach (hs : Inv s) :
    Inv { s with delivery := s.delivery.detach, client := .detached } where
  holds := hs.holds
  ready := by
    have hready := hs.ready
    revert hready
    cases s.poll with
    | idle => exact id
    | closing => exact id
    | running => exact fun ⟨_, h⟩ => ⟨.background, by rw [h]; rfl⟩
    | suspended => exact fun ⟨_, h⟩ => ⟨.background, by rw [h]; rfl⟩
    | restoring => exact fun ⟨_, h⟩ => ⟨.background, by rw [h]; rfl⟩
    | returning _ => exact fun ⟨_, h⟩ => ⟨.background, by rw [h]; rfl⟩
    | unwinding _ =>
      intro h payload hpanic
      cases hdelivery : s.delivery with
      | active _ =>
        rw [hdelivery] at hpanic
        cases hpanic
      | completed _ _ =>
        rw [hdelivery] at hpanic
        cases hpanic
      | backgroundPanic other => exact h other hdelivery
    | finishing _ => exact Told.detach
    | publishing _ => exact Told.detach
  pending h := by
    obtain ⟨_, hactive⟩ := hs.pending h
    exact ⟨.background, by rw [hactive]; rfl⟩
  ended := hs.ended
  told terminal h := (hs.told terminal h).detach
  detached := iff_of_true s.delivery.detach_audience rfl
  shown := nofun
  waiting := nofun
  delivered := nofun
  consumed := nofun
  reading := hs.reading
  reported supervision h := ⟨fun _ => rfl, (hs.reported supervision h).2⟩

/-- What the driver reads: nothing in the foreground, and in the background the outcome. -/
theorem backgroundResult {terminal : Terminal T} (hs : Inv s) (hdriver : s.driver = .reading)
    (houtcome : s.outcome = some terminal) :
    (s.delivery.backgroundResult.1.reports = true → s.delivery.audience = .background) ∧
      Tells terminal s.delivery.backgroundResult.1 ∧
      Told terminal s.delivery.backgroundResult.2 (.ended s.delivery.backgroundResult.1) ∧
      (IsFailure terminal = true → s.delivery.audience = .background →
        s.delivery.backgroundResult.1.reports = true) := by
  have htold := hs.told terminal houtcome
  match terminal, htold with
  | .owned result, ⟨.foreground, h⟩ =>
    rw [h]
    exact ⟨nofun, trivial, ⟨.foreground, rfl⟩, nofun⟩
  | .owned (.ok _), ⟨.background, h⟩ =>
    rw [h]
    exact ⟨fun _ => rfl, trivial, ⟨.background, rfl⟩, nofun⟩
  | .owned (.error _), ⟨.background, h⟩ =>
    rw [h]
    exact ⟨fun _ => rfl, rfl, ⟨.background, rfl⟩, fun _ _ => rfl⟩
  | .panicked (some _), ⟨.foreground, h⟩ =>
    rw [h]
    exact ⟨nofun, trivial, ⟨.foreground, rfl⟩, nofun⟩
  | .panicked (some _), ⟨.background, h⟩ =>
    rw [h]
    exact ⟨fun _ => rfl, rfl, ⟨.background, rfl⟩, fun _ _ => rfl⟩
  | .panicked none, .inl ⟨⟨payload, h⟩, _⟩ =>
    rw [h]
    exact ⟨fun _ => rfl, trivial, .inr ⟨rfl, payload, rfl⟩, fun _ _ => rfl⟩
  | .panicked none, .inr ⟨_, payload, hended⟩ =>
    rw [hended] at hdriver
    cases hdriver
  | .cancelled _, _ =>
    refine ⟨fun hreports => ?_, tells_cancelled _ _, trivial, nofun⟩
    cases hdelivery : s.delivery with
    | active _ =>
      rw [hdelivery] at hreports
      cases hreports
    | completed audience _ =>
      cases audience with
      | foreground =>
        rw [hdelivery] at hreports
        cases hreports
      | background => rfl
    | backgroundPanic _ => rfl

/-- Where something was published nobody has the work. -/
theorem not_holds {terminal : Terminal T} (hs : Inv s) (houtcome : s.outcome = some terminal) :
    s.poll.holds = false := by
  by_contra hholds
  rw [Bool.not_eq_false] at hholds
  rw [(hs.quiet hholds).1] at houtcome
  cases houtcome

theorem ready_of_not_holds {poll : Poll T} (h : poll.holds = false) (d : Delivery)
    (driver : Driver) : poll.Ready d driver := by
  cases poll <;> trivial

theorem read (hs : Inv s) (hdriver : s.driver = .reading) :
    Inv { s with
      delivery := s.delivery.backgroundResult.2
      driver := .ended s.delivery.backgroundResult.1 } := by
  obtain ⟨terminal, houtcome⟩ :=
    Option.isSome_iff_exists.mp (hs.reading (by rw [hdriver]; nofun))
  obtain ⟨hbackground, htells, htold, -⟩ := hs.backgroundResult hdriver houtcome
  exact { hs with
    ready := ready_of_not_holds (hs.not_holds houtcome) _ _
    pending := fun hpending => by
      have hended := hs.ended
      rw [show s.cell = .pending from hpending, houtcome] at hended
      cases hended
    told := fun other hother => by
      obtain rfl := Option.some.inj (houtcome.symm.trans hother)
      exact htold
    detached := by
      rw [← hs.detached]
      show s.delivery.backgroundResult.2.audience = _ ↔ _
      rw [s.delivery.backgroundResult_audience]
    reading := fun _ => Option.isSome_iff_exists.mpr ⟨terminal, houtcome⟩
    reported := fun supervision hended => by
      obtain rfl := Driver.ended.inj hended
      refine ⟨fun hreports => hs.detached.mp (hbackground hreports), fun other hother => ?_⟩
      obtain rfl := Option.some.inj (houtcome.symm.trans hother)
      exact htells }

theorem cancel (hs : Inv s) (hcell : s.cell = .pending) (reason : Reason) :
    Inv { s with
      cell := .completed (.cancelled reason), outcome := some (.cancelled reason) } := by
  have hnone : s.outcome = none := by
    have hended := hs.ended
    rw [hcell] at hended
    exact Option.isNone_iff_eq_none.mp (Option.isSome_eq_false_iff.mp hended.symm)
  have hpoll : s.poll.holds ≠ true := fun hholds => by
    rw [hs.holds.mp hholds] at hcell
    cases hcell
  have hdriver : s.driver = .driving := by
    by_contra hdriver
    have hsome := hs.reading hdriver
    rw [hnone] at hsome
    cases hsome
  exact { hs with
    holds := iff_of_false hpoll nofun
    pending := nofun
    ended := rfl
    told := fun terminal hterminal => by
      obtain rfl := Option.some.inj hterminal
      trivial
    shown := fun terminal hterminal _ => congrArg some (Cell.completed.inj hterminal)
    waiting := fun hclient => ⟨(hs.waiting hclient).1, nofun⟩
    delivered := fun completion hcompletion => by
      obtain ⟨terminal, hterminal, -⟩ := hs.delivered completion hcompletion
      rw [hnone] at hterminal
      cases hterminal
    reading := fun _ => rfl
    reported := fun supervision hended => by
      rw [show s.driver = .ended supervision from hended] at hdriver
      cases hdriver }

theorem unsubscribe (hs : Inv s) (hclient : s.client ≠ .waiting) :
    Inv { s with
      subscribed := false
      cell := match s.cell with
        | .completed _ => .finished
        | cell => cell } := by
  have hother : ∀ {P : Prop}, s.client = .waiting → P := fun h => absurd h hclient
  cases hcell : s.cell with
  | completed terminal =>
    exact { hs with
      holds := by
        rw [hs.holds, hcell]
        constructor <;> nofun
      pending := nofun
      ended := by
        rw [← hs.ended, hcell]
        rfl
      shown := nofun
      waiting := hother }
  | pending =>
    exact { hs with
      holds := by rw [hs.holds, hcell]
      pending := fun _ => hs.pending hcell
      ended := by rw [← hs.ended, hcell]
      shown := nofun
      waiting := hother }
  | polling =>
    exact { hs with
      holds := by rw [hs.holds, hcell]
      pending := nofun
      ended := by rw [← hs.ended, hcell]
      shown := nofun
      waiting := hother }
  | finished =>
    exact { hs with
      holds := by rw [hs.holds, hcell]
      pending := nofun
      ended := by rw [← hs.ended, hcell]
      shown := nofun
      waiting := hother }

theorem observe (hs : Inv s) (hdriver : s.driver = .driving) (hcell : s.cell.isFinished = true) :
    Inv { s with driver := .reading } := by
  have hsome : s.outcome.isSome = true := hs.ended ▸ hcell
  obtain ⟨terminal, houtcome⟩ := Option.isSome_iff_exists.mp hsome
  exact { hs with
    ready := ready_of_not_holds (hs.not_holds houtcome) _ _
    told := fun other hother => by
      match other, hs.told other hother with
      | .owned _, h => exact h
      | .panicked (some _), h => exact h
      | .panicked none, .inl ⟨h, _⟩ => exact .inl ⟨h, nofun⟩
      | .panicked none, .inr ⟨_, _, hended⟩ =>
        rw [hended] at hdriver
        cases hdriver
      | .cancelled _, _ => trivial
    reading := fun _ => hsome
    reported := nofun }

theorem next {a : Action T} (hs : Inv s) (h : RetainedOrigin.next s a = some t) : Inv t := by
  cases a with
  | poll =>
    simp only [RetainedOrigin.next] at h
    split at h
    · rename_i hcell hpoll
      obtain rfl := Option.some.inj h
      have hactive := hs.pending hcell
      exact { hs with
        holds := by exact iff_of_true rfl rfl
        ready := hactive
        pending := nofun
        ended := by
          rw [← hs.ended, hcell]
          rfl
        shown := nofun
        waiting := fun hclient => ⟨(hs.waiting hclient).1, nofun⟩ }
    · cases h
  | suspend =>
    simp only [RetainedOrigin.next] at h
    split at h
    · rename_i hpoll
      obtain rfl := Option.some.inj h
      have hready := hs.ready
      rw [hpoll] at hready
      exact hs.goOn (by rw [hpoll]; rfl) rfl rfl hready
    · cases h
  | report result =>
    simp only [RetainedOrigin.next] at h
    split at h
    · rename_i hpoll
      obtain rfl := Option.some.inj h
      exact hs.goOn (by rw [hpoll]; rfl) rfl rfl ⟨s.delivery.audience, rfl⟩
    · cases h
  | panic payload =>
    simp only [RetainedOrigin.next] at h
    have hready := hs.ready
    split at h
    · rename_i hpoll
      obtain rfl := Option.some.inj h
      rw [hpoll] at hready
      obtain ⟨_, hactive⟩ := hready
      refine hs.goOn (by rw [hpoll]; rfl) rfl rfl fun other hother => ?_
      rw [hactive] at hother
      cases hother
    · rename_i hpoll
      obtain rfl := Option.some.inj h
      rw [hpoll] at hready
      obtain ⟨_, hcompleted⟩ := hready
      refine hs.goOn (by rw [hpoll]; rfl) rfl rfl fun other hother => ?_
      rw [hcompleted] at hother
      cases hother
    · cases h
  | step => exact hs.step h
  | request reason =>
    obtain rfl := Option.some.inj h
    exact { hs with }
  | cancel reason =>
    simp only [RetainedOrigin.next] at h
    split at h
    · rename_i hreason hcell
      obtain rfl := Option.some.inj h
      exact hs.cancel hcell reason
    · cases h
  | tryComplete =>
    simp only [RetainedOrigin.next] at h
    split at h
    · rename_i hclient
      obtain rfl := Option.some.inj h
      exact hs.tryComplete hclient
    · cases h
  | detach =>
    simp only [RetainedOrigin.next] at h
    split at h
    · obtain rfl := Option.some.inj h
      exact hs.detach
    · cases h
  | unsubscribe =>
    simp only [RetainedOrigin.next] at h
    split at h
    · cases h
    · cases h
    · rename_i hclient
      obtain rfl := Option.some.inj h
      exact hs.unsubscribe hclient
  | observe =>
    simp only [RetainedOrigin.next] at h
    split at h
    · split at h
      · rename_i hdriver hcell
        obtain rfl := Option.some.inj h
        exact hs.observe hdriver hcell
      · cases h
    · cases h
  | read =>
    simp only [RetainedOrigin.next] at h
    split at h
    · rename_i hdriver
      obtain rfl := Option.some.inj h
      exact hs.read hdriver
    · cases h

end Inv

/-! ## Whole runs -/

/-- The step does not drop an undelivered client after the driver has read the audience. -/
def Prompt (s : State T) (a : Action T) : Prop :=
  a = .detach → ∀ supervision, s.driver ≠ .ended supervision

/-- The driver read the audience before the client was dropped undelivered. -/
def Lost (s : State T) : Prop := s.client = .detached ∧ s.driver.reports = false ∧
  ∃ supervision, s.driver = .ended supervision

/-- What a step does to the two who may be told. -/
structure Settled (s : State T) (a : Action T) (t : State T) : Prop where
  driver : ∀ supervision, s.driver = .ended supervision → t.driver = .ended supervision
  client : s.client = .detached → t.client = .detached
  dropped : t.client = .detached → s.client = .detached ∨ a = .detach ∧ s.client = .waiting
  read : ∀ supervision, t.driver = .ended supervision → s.driver = .ended supervision ∨
    a = .read ∧ s.driver = .reading ∧ supervision = s.delivery.backgroundResult.1

/-- A driver that has ended stays as it ended, and a dropped client stays dropped. -/
theorem settled_of_next {s t : State T} {a : Action T} (h : next s a = some t) :
    Settled s a t := by
  cases a with
  | step =>
    simp only [next, step] at h
    repeat' split at h
    all_goals cases h
    all_goals exact ⟨fun _ => id, id, .inl, fun _ => .inl⟩
  | tryComplete =>
    simp only [next] at h
    split at h
    · rename_i hclient
      obtain rfl := Option.some.inj h
      have hother : s.client ≠ .detached := by rw [hclient]; nofun
      unfold tryComplete
      split <;> exact ⟨fun _ => id, fun h => absurd h hother,
        fun h => (by first | exact absurd h hother | cases h), fun _ => .inl⟩
    · cases h
  | detach =>
    simp only [next] at h
    split at h
    · rename_i hclient
      obtain rfl := Option.some.inj h
      exact ⟨fun _ => id, fun _ => rfl, fun _ => .inr ⟨rfl, hclient⟩, fun _ => .inl⟩
    · cases h
  | observe =>
    simp only [next] at h
    split at h
    · rename_i hdriver
      split at h
      · obtain rfl := Option.some.inj h
        exact ⟨fun _ hended => absurd (hdriver.symm.trans hended) nofun, id, .inl, nofun⟩
      · cases h
    · cases h
  | read =>
    simp only [next] at h
    split at h
    · rename_i hdriver
      obtain rfl := Option.some.inj h
      exact ⟨fun _ hended => absurd (hdriver.symm.trans hended) nofun, id, .inl,
        fun _ hended => .inr ⟨rfl, hdriver, (Driver.ended.inj hended).symm⟩⟩
    · cases h
  | request reason =>
    obtain rfl := Option.some.inj h
    exact ⟨fun _ => id, id, .inl, fun _ => .inl⟩
  | poll | suspend | report | panic | cancel | unsubscribe =>
    simp only [next] at h
    repeat' split at h
    all_goals cases h
    all_goals exact ⟨fun _ => id, id, .inl, fun _ => .inl⟩

/-- What was published stays. -/
theorem Inv.outcome_stays {s t : State T} {a : Action T} (hs : Inv s) (h : RetainedOrigin.next s a = some t)
    {terminal : Terminal T} (houtcome : s.outcome = some terminal) :
    t.outcome = some terminal := by
  have hpoll := hs.not_holds houtcome
  have hended := hs.ended
  rw [houtcome] at hended
  cases a with
  | step =>
    simp only [RetainedOrigin.next, RetainedOrigin.step] at h
    split at h
    case h_6 hpublishing =>
      rw [hpublishing] at hpoll
      cases hpoll
    all_goals (repeat' split at h)
    all_goals cases h
    all_goals exact houtcome
  | cancel reason =>
    simp only [RetainedOrigin.next] at h
    split at h
    · rename_i hcell
      rw [hcell] at hended
      cases hended
    · cases h
  | tryComplete =>
    simp only [RetainedOrigin.next] at h
    split at h
    · obtain rfl := Option.some.inj h
      unfold RetainedOrigin.tryComplete
      split <;> exact houtcome
    · cases h
  | poll | suspend | report | panic | unsubscribe | detach | observe | read | request =>
    simp only [RetainedOrigin.next] at h
    repeat' split at h
    all_goals cases h
    all_goals exact houtcome

theorem Lost.run {s t : State T} {schedule : List (Action T)} (hs : Lost s)
    (h : exec next s schedule = some t) : Lost t := by
  refine exec_invariant (I := Lost) (fun m a n hm hstep => ?_) hs h
  obtain ⟨hclient, hreports, supervision, hended⟩ := hm
  have hsettled := settled_of_next hstep
  have hstays := hsettled.driver supervision hended
  refine ⟨hsettled.client hclient, ?_, supervision, hstays⟩
  rw [hended] at hreports
  rw [hstays]
  exact hreports

/-- A run drops its client in time, or loses what the client was to get. -/
theorem prompt_or_lost {s t : State T} {schedule : List (Action T)} (hs : Inv s)
    (h : exec next s schedule = some t) : Along next Prompt s schedule ∨ Lost t := by
  induction schedule generalizing s with
  | nil => exact .inl trivial
  | cons a schedule ih =>
    obtain ⟨m, hstep, hrest⟩ := exec_cons_eq_some.mp h
    rcases ih (hs.next hstep) hrest with hprompt | hlost
    · by_cases hlate : a = .detach ∧ ∃ supervision, s.driver = .ended supervision
      · obtain ⟨rfl, supervision, hended⟩ := hlate
        refine .inr (Lost.run ?_ hrest)
        simp only [next] at hstep
        split at hstep
        · rename_i hclient
          obtain rfl := Option.some.inj hstep
          refine ⟨rfl, ?_, supervision, hended⟩
          -- A driver that told of a failure had found the client gone.
          have hreported := (hs.reported supervision hended).1
          cases hreports : supervision.reports with
          | true =>
            rw [hreported hreports] at hclient
            cases hclient
          | false =>
            show s.driver.reports = false
            rw [hended]
            exact hreports
        · cases hstep
      · refine .inl (along_cons (fun hdetach supervision hended => ?_) hstep hprompt)
        exact hlate ⟨hdetach, supervision, hended⟩
    · exact .inr hlost

/-- After a prompt run a driver that was told nothing of a failure left it to the client. -/
def Left (s : State T) : Prop :=
  ∀ supervision terminal, s.driver = .ended supervision → s.outcome = some terminal →
    IsFailure terminal = true → supervision.reports = false → s.client ≠ .detached

theorem Left.next {s t : State T} {a : Action T} (hinv : Inv s) (hs : Left s) (hprompt : Prompt s a)
    (h : RetainedOrigin.next s a = some t) : Left t := by
  intro supervision terminal hended houtcome hfailed hreports hclient
  have hsettled := settled_of_next h
  have hsome : s.outcome = some terminal := by
    have hpublished : s.outcome.isSome = true := by
      refine hinv.reading fun hdriving => ?_
      rcases hsettled.read supervision hended with hold | ⟨-, hreading, -⟩
      · rw [hold] at hdriving
        cases hdriving
      · rw [hreading] at hdriving
        cases hdriving
    obtain ⟨other, hother⟩ := Option.isSome_iff_exists.mp hpublished
    rw [hother, ← hinv.outcome_stays h hother, houtcome]
  rcases hsettled.read supervision hended with hold | ⟨rfl, hreading, rfl⟩
  · rcases hsettled.dropped hclient with hdetached | ⟨rfl, -⟩
    · exact hs supervision terminal hold hsome hfailed hreports hdetached
    · exact hprompt rfl supervision hold
  · -- In the background the driver is told.
    obtain ⟨-, -, -, htells⟩ := hinv.backgroundResult hreading hsome
    have hdetached : s.client = .detached := by
      rcases hsettled.dropped hclient with hdetached | ⟨hdetach, -⟩
      · exact hdetached
      · cases hdetach
    rw [htells hfailed (hinv.detached.mpr hdetached)] at hreports
    cases hreports

/-- **Who observes the failure of a retained origin.** When the work ended with an error or a
panic, the driver future ran to its end and the client got its outcome or was dropped, at most one
of the client's caller and the driver is told, with the failure itself; one of them is told exactly
if the run never drops an undelivered client after the driver has read the audience. -/
theorem failure_observed_once_iff (schedule : List (Action T)) (s : State T)
    (supervision : Supervision) (terminal : Terminal T)
    (h : exec next init schedule = some s) (hdriver : s.driver = .ended supervision)
    (hclient : s.client.isOver = true) (houtcome : s.outcome = some terminal)
    (hfailed : IsFailure terminal = true) :
    s.reports ≤ 1 ∧ Tells terminal supervision ∧
      (∀ completion, s.client = .delivered completion → Gives terminal completion) ∧
      (s.reports = 1 ↔ Along next Prompt init schedule) := by
  have hinv : Inv s := exec_invariant (fun _ _ _ hm hstep => Inv.next hm hstep) Inv.init h
  have hreported := hinv.reported supervision hdriver
  have hgives : ∀ completion, s.client = .delivered completion → Gives terminal completion := by
    intro completion hcompletion
    obtain ⟨other, hother, hgives⟩ := hinv.delivered completion hcompletion
    obtain rfl := Option.some.inj (houtcome.symm.trans hother)
    exact hgives
  have hleft : Along next Prompt init schedule → s.client = .detached →
      supervision.reports = true := by
    intro hprompt hdetached
    have hboth : Inv s ∧ Left s := exec_invariant_along (I := fun m => Inv m ∧ Left m)
      (fun m a n hm hP hstep => ⟨Inv.next hm.1 hstep, Left.next hm.1 hm.2 hP hstep⟩)
      ⟨Inv.init, nofun⟩ hprompt h
    by_contra hsilent
    rw [Bool.not_eq_true] at hsilent
    exact hboth.2 supervision terminal hdriver houtcome hfailed hsilent hdetached
  have htells := hreported.2 terminal houtcome
  have hreports : s.driver.reports = supervision.reports := by rw [hdriver]; rfl
  unfold State.reports
  rw [hreports]
  cases hclient' : s.client with
  | waiting =>
    rw [hclient'] at hclient
    cases hclient
  | aborted => exact absurd hclient' hinv.consumed
  | delivered completion =>
    -- The driver was not told, and every run that delivers is prompt.
    have hsilent : supervision.reports = false := by
      by_contra hsaid
      rw [hreported.1 (by simpa using hsaid)] at hclient'
      cases hclient'
    have htold : (Client.delivered completion).reports = true :=
      (hgives completion hclient').reports hfailed
    rw [hsilent, htold]
    refine ⟨Nat.le_refl 1, htells, fun other hother => ?_, iff_of_true rfl ?_⟩
    · exact hgives other (hclient' ▸ hother)
    · rcases prompt_or_lost Inv.init h with hprompt | ⟨hdetached, -⟩
      · exact hprompt
      · rw [hdetached] at hclient'
        cases hclient'
  | detached =>
    refine ⟨?_, htells, nofun, ?_, fun hprompt => ?_⟩
    · rw [show (Client.detached : Client T).reports.toNat = 0 from rfl, Nat.zero_add]
      exact Bool.toNat_le _
    · intro hone
      rcases prompt_or_lost Inv.init h with hprompt | ⟨-, hsilent, -⟩
      · exact hprompt
      · rw [hreports] at hsilent
        rw [hsilent] at hone
        cases hone
    · rw [hleft hprompt hclient']
      rfl

/-! ## A client dropped too late -/

/-- The factory fails while a client waits, and the driver reads the audience. -/
def failedInForeground : List (Action Unit) :=
  [.poll, .report (.error (.other 7)), .step, .step, .step, .step, .observe, .read]

theorem failure_lost : ∃ s : State Unit,
    exec next init (failedInForeground ++ [.detach]) = some s ∧
      s.outcome = some (.owned (.error (.other 7))) ∧ s.driver = .ended (.result (.ok ())) ∧
      s.client.isOver = true ∧ s.reports = 0 :=
  ⟨_, rfl, rfl, rfl, rfl, rfl⟩

theorem failure_observed_once_iff_delivered : ∃ s : State Unit,
    exec next init (failedInForeground ++ [.tryComplete]) = some s ∧
      s.client = .delivered (.owned (.error (.other 7))) ∧ s.reports ≤ 1 :=
  ⟨_, rfl, rfl, (failure_observed_once_iff (failedInForeground ++ [.tryComplete]) _
    (.result (.ok ())) (.owned (.error (.other 7))) rfl rfl rfl rfl rfl).1⟩

end RetainedOrigin

end Amalgam
