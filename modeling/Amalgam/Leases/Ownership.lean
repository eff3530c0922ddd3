import Amalgam.Lib.FiniteMap
import Amalgam.Lib.Run
import Mathlib.Data.List.AList

/-!
# Amalgam — an owned lease

`DistributedLease` of `src/distributed_lock.rs` over a provider that expires leases and cannot be
asked about them: the acquisition that makes the lease, the task that renews it, the calls of
`proof`, and its release. A request starts at one instant, the backend acts on it at a later one, if
at all, and the reply comes at a third, if it comes.

* **`owned_lease_is_held`** — a lease that is lost or released stays so, no proof that begins after
  that succeeds, and at the instant at which a proof succeeds the backend holds the token.

One clock serves the owner and the backend. Of the backend only this is assumed: when it answers
that it granted or extended, it did so at some instant since the request's start, for the lifetime
sent or longer, and until then only a release of the token ends it.
-/

namespace Amalgam.OwnedLease

/-! ## States -/

inductive LeaseState where
  | held
  | lost
  | released
deriving DecidableEq

/-- The owner, from its first request on. A lease that was made is live until its handle goes. -/
inductive Owner where
  | idle
  | asking (started : Nat) (granted : Bool)
  | live
  | gone
  | abandoned
deriving DecidableEq

/-- The renewal task, statement by statement. -/
inductive RenewalTask where
  | sleeping
  | woken
  | sawHeld
  | valid
  | awaiting (started : Nat) (extended : Option Bool)
  | renewed (started : Nat)
  | stillHeld (started : Nat)
  | stillValid (started : Nat)
  | losing
  | ended
deriving DecidableEq

/-- A call of `proof`. -/
inductive Call where
  | begun
  | sawHeld
  | losing
  | succeeded
  | failed
deriving DecidableEq

/-- Calls that still borrow the lease. -/
def Call.inFlight : Call → Bool
  | .begun | .sawHeld | .losing => true
  | .succeeded | .failed => false

structure Config where
  /-- The lifetime sent with every request. -/
  ttl : Nat
  renewable : Bool
  /-- The last instant that can be represented. -/
  lastInstant : Nat

/-- `checked_add`. -/
def Config.deadline (cfg : Config) (started : Nat) : Option Nat :=
  if started + cfg.ttl ≤ cfg.lastInstant then some (started + cfg.ttl) else none

structure State where
  clock : Nat
  /-- Until when the backend holds the token. -/
  backend : Option Nat
  owner : Owner
  published : LeaseState
  validUntil : Option Nat
  task : RenewalTask
  aborted : Bool
  calls : AList fun _ : Nat => Call
  /-- A renewal whose reply nobody awaits may still reach the backend. -/
  stray : Bool
  releaseSent : Bool

namespace State

def init (clock : Nat) : State where
  clock
  backend := none
  owner := .idle
  published := .held
  validUntil := none
  task := .ended
  aborted := false
  calls := ∅
  stray := false
  releaseSent := false

/-- The backend still holds the token. -/
def Holds (s : State) : Prop := ∃ deadline, s.backend = some deadline ∧ s.clock < deadline

/-- A lease was made. -/
def Made (s : State) : Prop := s.owner = .live ∨ s.owner = .gone

/-- `ownership_is_locally_valid`: the clock is read while the deadline is locked. -/
def locallyValid (s : State) : Bool := s.validUntil.any (s.clock < ·)

end State

/-! ## Steps -/

inductive Action where
  | wait (now : Nat)
  -- the backend
  | expire
  | grant (lifetime : Nat)
  | extend (lifetime : Nat)
  | refuse
  | extendStray (lifetime : Nat)
  | forgetStray
  | processRelease
  -- the acquisition
  | ask
  | retry
  | create
  | giveUp
  -- the renewal task
  | wake
  | taskState
  | taskValidity
  | request
  | reply
  | fail
  | replyState
  | replyValidity
  | storeDeadline
  | taskLose
  | abort
  -- calls of `proof`
  | begin (call : Nat)
  | callState (call : Nat)
  | callValidity (call : Nat)
  | callLose (call : Nat)
  -- release and drop
  | stopRenewal
  | sendRelease
deriving DecidableEq

/-- The backend keeps the token for a lifetime that is long enough. -/
def keep (cfg : Config) (s : State) (lifetime : Nat) (t : State) : Option State :=
  if cfg.ttl ≤ lifetime then some { t with backend := some (s.clock + lifetime) } else none

def nextBackend (cfg : Config) (s : State) : Action → Option State
  | .expire => if s.backend.any (· ≤ s.clock) then some { s with backend := none } else none
  | .grant lifetime =>
    match s.owner with
    | .asking started false => keep cfg s lifetime { s with owner := .asking started true }
    | _ => none
  | .extend lifetime =>
    match s.task with
    | .awaiting started none => keep cfg s lifetime { s with task := .awaiting started (some true) }
    | _ => none
  | .refuse =>
    match s.task with
    | .awaiting started none => some { s with task := .awaiting started (some false) }
    | _ => none
  | .extendStray lifetime => if s.stray then keep cfg s lifetime { s with stray := false } else none
  | .forgetStray => some { s with stray := false }
  | .processRelease => if s.releaseSent then some { s with backend := none } else none
  | _ => none

def nextAcquisition (cfg : Config) (s : State) : Action → Option State
  | .ask => if s.owner = .idle then some { s with owner := .asking s.clock false } else none
  | .retry =>
    match s.owner with
    | .asking _ false => some { s with owner := .idle }
    | _ => none
  | .create =>
    match s.owner with
    | .asking started true =>
      some { s with
        owner := .live
        published := .held
        validUntil := cfg.deadline started
        task := if cfg.renewable then .sleeping else .ended }
    | _ => none
  -- A cancelled, failed or late acquisition releases whatever it may have obtained.
  | .giveUp =>
    match s.owner with
    | .asking _ _ => some { s with owner := .abandoned, releaseSent := true }
    | _ => none
  | _ => none

def nextTask (cfg : Config) (s : State) : Action → Option State
  | .wake => if s.task = .sleeping then some { s with task := .woken } else none
  | .taskState =>
    if s.task = .woken then
      some { s with task := if s.published = .held then .sawHeld else .ended }
    else none
  | .taskValidity =>
    if s.task = .sawHeld then some { s with task := if s.locallyValid then .valid else .losing }
    else none
  | .request => if s.task = .valid then some { s with task := .awaiting s.clock none } else none
  | .reply =>
    match s.task with
    | .awaiting started (some extended) =>
      some { s with task := if extended then .renewed started else .losing }
    | _ => none
  -- An error, an unsupported renewal, or no reply in time; the request may be on its way still.
  | .fail =>
    match s.task with
    | .awaiting _ extended => some { s with task := .losing, stray := s.stray || extended.isNone }
    | _ => none
  | .replyState =>
    match s.task with
    | .renewed started =>
      some { s with task := if s.published = .held then .stillHeld started else .losing }
    | _ => none
  | .replyValidity =>
    match s.task with
    | .stillHeld started =>
      some { s with task := if s.locallyValid then .stillValid started else .losing }
    | _ => none
  | .storeDeadline =>
    match s.task with
    | .stillValid started =>
      some { s with validUntil := cfg.deadline started, task := .sleeping }
    | _ => none
  | .taskLose =>
    if s.task = .losing then some { s with published := .lost, task := .ended } else none
  -- An aborted task ends where it waits.
  | .abort =>
    if s.aborted then
      match s.task with
      | .sleeping => some { s with task := .ended }
      | .awaiting _ extended => some { s with task := .ended, stray := s.stray || extended.isNone }
      | _ => none
    else none
  | _ => none

def nextCall (s : State) : Action → Option State
  | .begin call =>
    if s.owner = .live ∧ (s.calls.lookup call).isNone then
      some { s with calls := s.calls.insert call .begun }
    else none
  | .callState call =>
    if s.calls.lookup call = some .begun then
      some { s with
        calls := s.calls.insert call (if s.published = .held then .sawHeld else .failed) }
    else none
  | .callValidity call =>
    if s.calls.lookup call = some .sawHeld then
      some { s with calls := s.calls.insert call (if s.locallyValid then .succeeded else .losing) }
    else none
  | .callLose call =>
    if s.calls.lookup call = some .losing then
      some { s with published := .lost, calls := s.calls.insert call .failed }
    else none
  | _ => none

def nextRelease (s : State) : Action → Option State
  -- The handle is given away or dropped: nobody borrows it.
  | .stopRenewal =>
    if s.owner = .live ∧ s.calls.values.all (fun call => !call.inFlight) then
      some { s with owner := .gone, published := .released, aborted := true }
    else none
  | .sendRelease =>
    if s.owner = .gone ∧ s.task = .ended then some { s with releaseSent := true } else none
  | _ => none

def next (cfg : Config) (s : State) (action : Action) : Option State :=
  match action with
  | .wait now => if s.clock ≤ now then some { s with clock := now } else none
  | .expire | .grant _ | .extend _ | .refuse | .extendStray _ | .forgetStray | .processRelease =>
    nextBackend cfg s action
  | .ask | .retry | .create | .giveUp => nextAcquisition cfg s action
  | .wake | .taskState | .taskValidity | .request | .reply | .fail | .replyState | .replyValidity
  | .storeDeadline | .taskLose | .abort => nextTask cfg s action
  | .begin _ | .callState _ | .callValidity _ | .callLose _ => nextCall s action
  | .stopRenewal | .sendRelease => nextRelease s action

/-! ## Coverage -/

/-- While the instant `until` has not come, the backend holds the token up to it. -/
def Covers (s : State) (until_ : Nat) : Prop :=
  s.clock < until_ → ∃ deadline, s.backend = some deadline ∧ until_ ≤ deadline

/-- The start of the request that the task's next deadline is anchored at. -/
def RenewalTask.started : RenewalTask → Option Nat
  | .awaiting started _ | .renewed started | .stillHeld started | .stillValid started => some started
  | _ => none

/-- The same, once the backend has extended. -/
def RenewalTask.extended : RenewalTask → Option Nat
  | .awaiting started (some true) | .renewed started | .stillHeld started | .stillValid started =>
    some started
  | _ => none

/-- The deadlines in use are behind the backend's. -/
structure Invariant (cfg : Config) (s : State) : Prop where
  bound : ∀ deadline, s.validUntil = some deadline → deadline ≤ s.clock + cfg.ttl
  valid : s.owner = .live → ∀ deadline, s.validUntil = some deadline → Covers s deadline
  asked : ∀ started granted, s.owner = .asking started granted → started ≤ s.clock ∧
    (granted = true → Covers s (started + cfg.ttl))
  started : ∀ started, s.task.started = some started → started ≤ s.clock
  extended : s.owner = .live → ∀ started, s.task.extended = some started →
    Covers s (started + cfg.ttl)
  borrowed : ∀ call at_, s.calls.lookup call = some at_ → at_.inFlight = true → s.owner = .live
  released : s.releaseSent = true → s.owner = .gone ∨ s.owner = .abandoned
  quiet : (s.owner = .idle ∨ ∃ started granted, s.owner = .asking started granted) →
    s.task = .ended

section Coverage

variable {cfg : Config} {s t : State} {until_ lifetime : Nat}

theorem Covers.congr (h : Covers s until_) (hclock : t.clock = s.clock)
    (hbackend : t.backend = s.backend) : Covers t until_ := by
  intro hearly
  rw [hclock] at hearly
  rw [hbackend]
  exact h hearly

theorem Covers.wait (h : Covers s until_) {now : Nat} (hnow : s.clock ≤ now) :
    Covers { s with clock := now } until_ :=
  fun hearly => h (lt_of_le_of_lt hnow hearly)

/-- The backend drops only what has run out. -/
theorem Covers.expire (h : Covers s until_) (hover : s.backend.any (· ≤ s.clock) = true) :
    Covers { s with backend := none } until_ := by
  intro hearly
  obtain ⟨deadline, hdeadline, hle⟩ := h hearly
  rw [hdeadline, Option.any_some, decide_eq_true_eq] at hover
  have hclock : s.clock < until_ := hearly
  omega

theorem keep_eq_some {u : State} (h : keep cfg s lifetime t = some u) :
    cfg.ttl ≤ lifetime ∧ u = { t with backend := some (s.clock + lifetime) } := by
  unfold keep at h
  split at h
  · rename_i hlong
    exact ⟨hlong, (Option.some.inj h).symm⟩
  · cases h

/-- A grant or extension reaches as far as any deadline in use. -/
theorem covers_keep (hlong : cfg.ttl ≤ lifetime) (hbound : until_ ≤ s.clock + cfg.ttl) :
    Covers { t with clock := s.clock, backend := some (s.clock + lifetime) } until_ := by
  intro _
  refine ⟨s.clock + lifetime, rfl, ?_⟩
  omega

theorem deadline_eq_some {started deadline : Nat} (h : cfg.deadline started = some deadline) :
    deadline = started + cfg.ttl := by
  unfold Config.deadline at h
  split at h
  · exact (Option.some.inj h).symm
  · cases h

end Coverage

/-- Whose step it is. -/
theorem next_cases {cfg : Config} {s t : State} {action : Action}
    (h : next cfg s action = some t) :
    (∃ now, s.clock ≤ now ∧ action = .wait now ∧ t = { s with clock := now }) ∨
      nextBackend cfg s action = some t ∨ nextAcquisition cfg s action = some t ∨
      nextTask cfg s action = some t ∨ nextCall s action = some t ∨
      nextRelease s action = some t := by
  cases action with
  | wait now =>
    dsimp only [next] at h
    split at h
    · rename_i hnow
      exact .inl ⟨now, hnow, rfl, (Option.some.inj h).symm⟩
    · cases h
  | expire | grant _ | extend _ | refuse | extendStray _ | forgetStray | processRelease =>
    exact .inr (.inl h)
  | ask | retry | create | giveUp => exact .inr (.inr (.inl h))
  | begin _ | callState _ | callValidity _ | callLose _ => exact .inr (.inr (.inr (.inr (.inl h))))
  | stopRenewal | sendRelease => exact .inr (.inr (.inr (.inr (.inr h))))
  | _ => exact .inr (.inr (.inr (.inl h)))

/-! ## The invariant -/

section Steps

variable {cfg : Config} {s t : State} {action : Action}

theorem invariant_init (cfg : Config) (clock : Nat) : Invariant cfg (.init clock) where
  bound _ h := nomatch h
  valid h := nomatch h
  asked _ _ h := nomatch h
  started _ h := nomatch h
  extended h := nomatch h
  borrowed _ _ h := nomatch h
  released h := nomatch h
  quiet _ := rfl

/-- Time passes, and every deadline in use comes nearer. -/
theorem invariant_wait (h : Invariant cfg s) {now : Nat} (hnow : s.clock ≤ now) :
    Invariant cfg { s with clock := now } where
  bound deadline hdeadline := le_trans (h.bound deadline hdeadline) (Nat.add_le_add_right hnow _)
  valid hlive deadline hdeadline := (h.valid hlive deadline hdeadline).wait hnow
  asked started granted howner := by
    obtain ⟨hstarted, hcovers⟩ := h.asked started granted howner
    exact ⟨le_trans hstarted hnow, fun hgranted => (hcovers hgranted).wait hnow⟩
  started started hstarted := le_trans (h.started started hstarted) hnow
  extended hlive started hextended := (h.extended hlive started hextended).wait hnow
  borrowed := h.borrowed
  released := h.released
  quiet := h.quiet

theorem invariant_expire (h : Invariant cfg s) (hover : s.backend.any (· ≤ s.clock) = true) :
    Invariant cfg { s with backend := none } where
  bound := h.bound
  valid hlive deadline hdeadline := (h.valid hlive deadline hdeadline).expire hover
  asked started granted howner := by
    obtain ⟨hstarted, hcovers⟩ := h.asked started granted howner
    exact ⟨hstarted, fun hgranted => (hcovers hgranted).expire hover⟩
  started := h.started
  extended hlive started hextended := (h.extended hlive started hextended).expire hover
  borrowed := h.borrowed
  released := h.released
  quiet := h.quiet

/-- Whatever the backend keeps the token for, it keeps it long enough. -/
theorem invariant_keep (h : Invariant cfg s) {lifetime : Nat} (hlong : cfg.ttl ≤ lifetime) :
    Invariant cfg { s with backend := some (s.clock + lifetime) } where
  bound := h.bound
  valid _ deadline hdeadline := covers_keep hlong (h.bound deadline hdeadline)
  asked started granted howner := by
    obtain ⟨hstarted, -⟩ := h.asked started granted howner
    exact ⟨hstarted, fun _ => covers_keep hlong (Nat.add_le_add_right hstarted _)⟩
  started := h.started
  extended _ started hextended := by
    have hstarted : s.task.started = some started := by
      have htask : s.task.extended = some started := hextended
      cases hs : s.task with
      | awaiting _ answer =>
        rw [hs] at htask
        cases answer with
        | none => cases htask
        | some extended =>
          cases extended with
          | true => exact htask
          | false => cases htask
      | renewed _ => rw [hs] at htask; exact htask
      | stillHeld _ => rw [hs] at htask; exact htask
      | stillValid _ => rw [hs] at htask; exact htask
      | sleeping => rw [hs] at htask; cases htask
      | woken => rw [hs] at htask; cases htask
      | sawHeld => rw [hs] at htask; cases htask
      | valid => rw [hs] at htask; cases htask
      | losing => rw [hs] at htask; cases htask
      | ended => rw [hs] at htask; cases htask
    exact covers_keep hlong (Nat.add_le_add_right (h.started started hstarted) _)
  borrowed := h.borrowed
  released := h.released
  quiet := h.quiet

/-- The task goes on. -/
theorem Invariant.task (h : Invariant cfg s) {task : RenewalTask} (hrunning : s.task ≠ .ended)
    (hstarted : ∀ started, task.started = some started → started ≤ s.clock)
    (hextended : s.owner = .live → ∀ started, task.extended = some started →
      Covers s (started + cfg.ttl)) : Invariant cfg { s with task } where
  bound := h.bound
  valid := h.valid
  asked := h.asked
  started := hstarted
  extended := hextended
  borrowed := h.borrowed
  released := h.released
  quiet hasking := absurd (h.quiet hasking) hrunning

/-- Steps of the task between requests. -/
theorem Invariant.task_idle (h : Invariant cfg s) {task : RenewalTask} (hrunning : s.task ≠ .ended)
    (hidle : task.started = none) : Invariant cfg { s with task } := by
  apply h.task hrunning
  · intro started hstarted
    rw [hidle] at hstarted
    cases hstarted
  · intro _ started hextended
    cases task with
    | awaiting _ _ => cases hidle
    | renewed _ => cases hidle
    | stillHeld _ => cases hidle
    | stillValid _ => cases hidle
    | sleeping => cases hextended
    | woken => cases hextended
    | sawHeld => cases hextended
    | valid => cases hextended
    | losing => cases hextended
    | ended => cases hextended

/-- A flag that the invariant does not read. -/
theorem Invariant.stray (h : Invariant cfg s) (stray : Bool) : Invariant cfg { s with stray } where
  bound := h.bound
  valid := h.valid
  asked := h.asked
  started := h.started
  extended := h.extended
  borrowed := h.borrowed
  released := h.released
  quiet := h.quiet

theorem Invariant.publish (h : Invariant cfg s) (published : LeaseState) :
    Invariant cfg { s with published } where
  bound := h.bound
  valid := h.valid
  asked := h.asked
  started := h.started
  extended := h.extended
  borrowed := h.borrowed
  released := h.released
  quiet := h.quiet

/-- A call goes on, if it borrows the lease while that is live. -/
theorem Invariant.call (h : Invariant cfg s) {call : Nat} {at_ : Call}
    (hlive : at_.inFlight = true → s.owner = .live) :
    Invariant cfg { s with calls := s.calls.insert call at_ } where
  bound := h.bound
  valid := h.valid
  asked := h.asked
  started := h.started
  extended := h.extended
  borrowed other found hfound hflight := by
    by_cases hother : other = call
    · subst hother
      dsimp only at hfound
      rw [AList.lookup_insert] at hfound
      obtain rfl := Option.some.inj hfound
      exact hlive hflight
    · dsimp only at hfound
      rw [AList.lookup_insert_ne hother] at hfound
      exact h.borrowed other found hfound hflight
  released := h.released
  quiet := h.quiet

theorem invariant_nextBackend (h : Invariant cfg s) (hstep : nextBackend cfg s action = some t) :
    Invariant cfg t := by
  cases action with
  | expire =>
    dsimp only [nextBackend] at hstep
    split at hstep
    · rename_i hover
      obtain rfl := Option.some.inj hstep
      exact invariant_expire h hover
    · cases hstep
  | grant lifetime =>
    dsimp only [nextBackend] at hstep
    split at hstep
    · rename_i started howner
      obtain ⟨hlong, rfl⟩ := keep_eq_some hstep
      obtain ⟨hstarted, -⟩ := h.asked started false howner
      -- The owner hears of it later: only its own request is concerned.
      exact
        { bound := h.bound
          valid := fun hlive => nomatch hlive
          asked := fun other granted hother => by
            obtain ⟨rfl, rfl⟩ := Owner.asking.inj hother
            exact ⟨hstarted, fun _ => covers_keep hlong (Nat.add_le_add_right hstarted _)⟩
          started := h.started
          extended := fun hlive => nomatch hlive
          borrowed := fun call at_ hcall hflight =>
            absurd (howner.symm.trans (h.borrowed call at_ hcall hflight)) nofun
          released := fun hsent => by
            rcases h.released hsent with hgone | habandoned
            · exact absurd (howner.symm.trans hgone) nofun
            · exact absurd (howner.symm.trans habandoned) nofun
          quiet := fun _ => h.quiet (.inr ⟨started, false, howner⟩) }
    · cases hstep
  | extend lifetime =>
    dsimp only [nextBackend] at hstep
    split at hstep
    · rename_i started htask
      obtain ⟨hlong, rfl⟩ := keep_eq_some hstep
      have hstarted : started ≤ s.clock := h.started started (by rw [htask]; rfl)
      apply (invariant_keep h hlong).task
      · intro hended
        exact absurd (htask.symm.trans hended) nofun
      · intro other hother
        obtain rfl := Option.some.inj hother
        exact hstarted
      · intro _ other hother
        obtain rfl := Option.some.inj hother
        exact covers_keep hlong (Nat.add_le_add_right hstarted _)
    · cases hstep
  | refuse =>
    dsimp only [nextBackend] at hstep
    split at hstep
    · rename_i started htask
      obtain rfl := Option.some.inj hstep
      apply h.task
      · intro hended
        exact absurd (htask.symm.trans hended) nofun
      · intro other hother
        exact h.started other (by rw [htask]; exact hother)
      · intro _ other hother
        cases hother
    · cases hstep
  | extendStray lifetime =>
    dsimp only [nextBackend] at hstep
    split at hstep
    · obtain ⟨hlong, rfl⟩ := keep_eq_some hstep
      exact (invariant_keep h hlong).stray false
    · cases hstep
  | forgetStray =>
    obtain rfl := Option.some.inj hstep
    exact h.stray false
  | processRelease =>
    dsimp only [nextBackend] at hstep
    split at hstep
    · rename_i hsent
      obtain rfl := Option.some.inj hstep
      -- The lease is not live any more, and no request is open.
      exact
        { bound := h.bound
          valid := fun hlive => by
            rcases h.released hsent with hgone | habandoned
            · exact absurd (hgone.symm.trans hlive) (by decide)
            · exact absurd (habandoned.symm.trans hlive) (by decide)
          asked := fun started granted howner => by
            rcases h.released hsent with hgone | habandoned
            · exact absurd (hgone.symm.trans howner) nofun
            · exact absurd (habandoned.symm.trans howner) nofun
          started := h.started
          extended := fun hlive => by
            rcases h.released hsent with hgone | habandoned
            · exact absurd (hgone.symm.trans hlive) (by decide)
            · exact absurd (habandoned.symm.trans hlive) (by decide)
          borrowed := h.borrowed
          released := h.released
          quiet := h.quiet }
    · cases hstep
  | _ => cases hstep

theorem invariant_nextAcquisition (h : Invariant cfg s)
    (hstep : nextAcquisition cfg s action = some t) : Invariant cfg t := by
  have hnone : ∀ {owner : Owner}, s.owner = owner → owner ≠ .live → owner ≠ .gone →
      owner ≠ .abandoned → s.releaseSent ≠ true ∧
        ∀ call at_, s.calls.lookup call = some at_ → at_.inFlight ≠ true := by
    intro owner howner hlive hgone habandoned
    refine ⟨fun hsent => ?_, fun call at_ hcall hflight => ?_⟩
    · rcases h.released hsent with hheld | hheld
      · exact hgone (howner.symm.trans hheld)
      · exact habandoned (howner.symm.trans hheld)
    · exact hlive (howner.symm.trans (h.borrowed call at_ hcall hflight))
  cases action with
  | ask =>
    dsimp only [nextAcquisition] at hstep
    split at hstep
    · rename_i howner
      obtain rfl := Option.some.inj hstep
      obtain ⟨hsent, hcalls⟩ := hnone howner nofun nofun nofun
      exact
        { bound := h.bound
          valid := fun hlive => nomatch hlive
          asked := fun started granted hasking => by
            obtain ⟨rfl, rfl⟩ := Owner.asking.inj hasking
            exact ⟨le_refl _, fun hgranted => nomatch hgranted⟩
          started := h.started
          extended := fun hlive => nomatch hlive
          borrowed := fun call at_ hcall hflight => absurd hflight (hcalls call at_ hcall)
          released := fun hrelease => absurd hrelease hsent
          quiet := fun _ => h.quiet (.inl howner) }
    · cases hstep
  | retry =>
    dsimp only [nextAcquisition] at hstep
    split at hstep
    · rename_i started howner
      obtain rfl := Option.some.inj hstep
      obtain ⟨hsent, hcalls⟩ := hnone howner nofun nofun nofun
      exact
        { bound := h.bound
          valid := fun hlive => nomatch hlive
          asked := fun _ _ hasking => nomatch hasking
          started := h.started
          extended := fun hlive => nomatch hlive
          borrowed := fun call at_ hcall hflight => absurd hflight (hcalls call at_ hcall)
          released := fun hrelease => absurd hrelease hsent
          quiet := fun _ => h.quiet (.inr ⟨_, _, howner⟩) }
    · cases hstep
  | create =>
    dsimp only [nextAcquisition] at hstep
    split at hstep
    · rename_i started howner
      obtain rfl := Option.some.inj hstep
      obtain ⟨hsent, -⟩ := hnone howner nofun nofun nofun
      obtain ⟨hstarted, hcovers⟩ := h.asked started true howner
      have hquiet : (if cfg.renewable then RenewalTask.sleeping else .ended).started = none := by
        split
        · rfl
        · rfl
      -- The deadline is the grant's, seen from the start of its request.
      exact
        { bound := fun deadline hdeadline => by
            have hlast := deadline_eq_some hdeadline
            dsimp only
            omega
          valid := fun _ deadline hdeadline => by
            rw [deadline_eq_some hdeadline]
            exact (hcovers rfl).congr rfl rfl
          asked := fun _ _ hasking => nomatch hasking
          started := fun other hother => by
            rw [hquiet] at hother
            cases hother
          extended := fun _ other hother => by
            dsimp only at hother
            split at hother
            · cases hother
            · cases hother
          borrowed := fun _ _ _ _ => rfl
          released := fun hrelease => absurd hrelease hsent
          quiet := fun hasking => by
            rcases hasking with hidle | ⟨_, _, hasking⟩
            · cases hidle
            · cases hasking }
    · cases hstep
  | giveUp =>
    dsimp only [nextAcquisition] at hstep
    split at hstep
    · rename_i started granted howner
      obtain rfl := Option.some.inj hstep
      obtain ⟨-, hcalls⟩ := hnone howner nofun nofun nofun
      exact
        { bound := h.bound
          valid := fun hlive => nomatch hlive
          asked := fun _ _ hasking => nomatch hasking
          started := h.started
          extended := fun hlive => nomatch hlive
          borrowed := fun call at_ hcall hflight => absurd hflight (hcalls call at_ hcall)
          released := fun _ => .inr rfl
          quiet := fun hasking => by
            rcases hasking with hidle | ⟨_, _, hasking⟩
            · cases hidle
            · cases hasking }
    · cases hstep
  | _ => cases hstep

theorem invariant_nextTask (h : Invariant cfg s) (hstep : nextTask cfg s action = some t) :
    Invariant cfg t := by
  have hrunning : ∀ {task : RenewalTask}, s.task = task → task ≠ .ended → s.task ≠ .ended :=
    fun htask hne hended => hne (htask.symm.trans hended)
  -- A later stage of one renewal is anchored where the stage before was.
  have hlater : ∀ {before after : RenewalTask} {started : Nat}, s.task = before →
      before.extended = some started → before.started = some started →
      after.started = some started → after.extended = some started →
      Invariant cfg { s with task := after } := by
    intro before after started htask hextended hstarted hstarted' hextended'
    apply h.task
    · intro hended
      rw [← htask, hended] at hstarted
      cases hstarted
    · intro other hother
      obtain rfl := Option.some.inj (hstarted'.symm.trans hother)
      exact h.started started (by rw [htask]; exact hstarted)
    · intro hlive other hother
      obtain rfl := Option.some.inj (hextended'.symm.trans hother)
      exact h.extended hlive started (by rw [htask]; exact hextended)
  cases action with
  | wake =>
    dsimp only [nextTask] at hstep
    split at hstep
    · rename_i htask
      obtain rfl := Option.some.inj hstep
      exact h.task_idle (hrunning htask nofun) rfl
    · cases hstep
  | taskState =>
    dsimp only [nextTask] at hstep
    split at hstep
    · rename_i htask
      obtain rfl := Option.some.inj hstep
      apply h.task_idle (hrunning htask nofun)
      split
      · rfl
      · rfl
    · cases hstep
  | taskValidity =>
    dsimp only [nextTask] at hstep
    split at hstep
    · rename_i htask
      obtain rfl := Option.some.inj hstep
      apply h.task_idle (hrunning htask nofun)
      split
      · rfl
      · rfl
    · cases hstep
  | request =>
    dsimp only [nextTask] at hstep
    split at hstep
    · rename_i htask
      obtain rfl := Option.some.inj hstep
      apply h.task (hrunning htask nofun)
      · intro started hstarted
        obtain rfl := Option.some.inj hstarted
        exact le_refl _
      · intro _ started hextended
        cases hextended
    · cases hstep
  | reply =>
    dsimp only [nextTask] at hstep
    split at hstep
    · rename_i started extended htask
      obtain rfl := Option.some.inj hstep
      cases extended with
      | true => exact hlater htask rfl rfl rfl rfl
      | false => exact h.task_idle (hrunning htask nofun) rfl
    · cases hstep
  | fail =>
    dsimp only [nextTask] at hstep
    split at hstep
    · rename_i started extended htask
      obtain rfl := Option.some.inj hstep
      have hidle : Invariant cfg { s with task := .losing } := h.task_idle (hrunning htask nofun) rfl
      exact hidle.stray _
    · cases hstep
  | replyState =>
    dsimp only [nextTask] at hstep
    split at hstep
    · rename_i started htask
      obtain rfl := Option.some.inj hstep
      split
      · exact hlater htask rfl rfl rfl rfl
      · exact h.task_idle (hrunning htask nofun) rfl
    · cases hstep
  | replyValidity =>
    dsimp only [nextTask] at hstep
    split at hstep
    · rename_i started htask
      obtain rfl := Option.some.inj hstep
      split
      · exact hlater htask rfl rfl rfl rfl
      · exact h.task_idle (hrunning htask nofun) rfl
    · cases hstep
  | storeDeadline =>
    dsimp only [nextTask] at hstep
    split at hstep
    · rename_i started htask
      obtain rfl := Option.some.inj hstep
      have hstarted : started ≤ s.clock := h.started started (by rw [htask]; rfl)
      have hidle : Invariant cfg { s with task := .sleeping } :=
        h.task_idle (hrunning htask nofun) rfl
      exact
        { hidle with
          bound := fun deadline hdeadline => by
            have hlast := deadline_eq_some hdeadline
            dsimp only
            omega
          valid := fun hlive deadline hdeadline => by
            rw [deadline_eq_some hdeadline]
            exact (h.extended hlive started (by rw [htask]; rfl)).congr rfl rfl }
    · cases hstep
  | taskLose =>
    dsimp only [nextTask] at hstep
    split at hstep
    · rename_i htask
      obtain rfl := Option.some.inj hstep
      have hidle : Invariant cfg { s with task := .ended } := h.task_idle (hrunning htask nofun) rfl
      exact hidle.publish .lost
    · cases hstep
  | abort =>
    dsimp only [nextTask] at hstep
    split at hstep
    · split at hstep
      · rename_i htask
        obtain rfl := Option.some.inj hstep
        exact h.task_idle (hrunning htask nofun) rfl
      · rename_i started extended htask
        obtain rfl := Option.some.inj hstep
        have hidle : Invariant cfg { s with task := .ended } := h.task_idle (hrunning htask nofun) rfl
        exact hidle.stray _
      · cases hstep
    · cases hstep
  | _ => cases hstep

theorem invariant_nextCall (h : Invariant cfg s) (hstep : nextCall s action = some t) :
    Invariant cfg t := by
  cases action with
  | begin call =>
    dsimp only [nextCall] at hstep
    split at hstep
    · rename_i hlive
      obtain rfl := Option.some.inj hstep
      exact h.call fun _ => hlive.1
    · cases hstep
  | callState call =>
    dsimp only [nextCall] at hstep
    split at hstep
    · rename_i hcall
      obtain rfl := Option.some.inj hstep
      exact h.call fun _ => h.borrowed call .begun hcall rfl
    · cases hstep
  | callValidity call =>
    dsimp only [nextCall] at hstep
    split at hstep
    · rename_i hcall
      obtain rfl := Option.some.inj hstep
      exact h.call fun _ => h.borrowed call .sawHeld hcall rfl
    · cases hstep
  | callLose call =>
    dsimp only [nextCall] at hstep
    split at hstep
    · rename_i hcall
      obtain rfl := Option.some.inj hstep
      exact (h.call fun _ => h.borrowed call .losing hcall rfl).publish .lost
    · cases hstep
  | _ => cases hstep

theorem invariant_nextRelease (h : Invariant cfg s) (hstep : nextRelease s action = some t) :
    Invariant cfg t := by
  cases action with
  | stopRenewal =>
    dsimp only [nextRelease] at hstep
    split at hstep
    · rename_i hgiven
      obtain rfl := Option.some.inj hstep
      exact
        { bound := h.bound
          valid := fun hlive => nomatch hlive
          asked := fun _ _ hasking => nomatch hasking
          started := h.started
          extended := fun hlive => nomatch hlive
          borrowed := fun call at_ hcall hflight => by
            have hdone := List.all_eq_true.mp hgiven.2 at_ (AList.mem_values.mpr ⟨call, hcall⟩)
            rw [hflight] at hdone
            cases hdone
          released := fun _ => .inl rfl
          quiet := fun hasking => by
            rcases hasking with hidle | ⟨_, _, hasking⟩
            · cases hidle
            · cases hasking }
    · cases hstep
  | sendRelease =>
    dsimp only [nextRelease] at hstep
    split at hstep
    · rename_i hgone
      obtain rfl := Option.some.inj hstep
      exact
        { bound := h.bound
          valid := h.valid
          asked := h.asked
          started := h.started
          extended := h.extended
          borrowed := h.borrowed
          released := fun _ => .inl hgone.1
          quiet := h.quiet }
    · cases hstep
  | _ => cases hstep

theorem invariant_next (h : Invariant cfg s) (hstep : next cfg s action = some t) :
    Invariant cfg t := by
  rcases next_cases hstep with
    ⟨now, hnow, -, rfl⟩ | hbackend | hacquisition | htask | hcall | hrelease
  · exact invariant_wait h hnow
  · exact invariant_nextBackend h hbackend
  · exact invariant_nextAcquisition h hacquisition
  · exact invariant_nextTask h htask
  · exact invariant_nextCall h hcall
  · exact invariant_nextRelease h hrelease

theorem invariant_of_reachable {clock : Nat}
    (h : Run.Reachable (next cfg) (.init clock) s) : Invariant cfg s :=
  h.invariant (invariant_init cfg clock) fun _ _ _ hs hstep => invariant_next hs hstep

end Steps

/-! ## Lost or released, for good -/

/-- The lease was made, and its owner has been told that it is over. -/
structure Over (s : State) : Prop where
  made : s.Made
  published : s.published ≠ .held

section Over

variable {cfg : Config} {s t : State} {action : Action}

theorem not_asking_of_made (h : s.Made) (started : Nat) (granted : Bool) :
    s.owner ≠ .asking started granted := by
  intro hasking
  rcases h with hlive | hgone
  · rw [hlive] at hasking
    cases hasking
  · rw [hgone] at hasking
    cases hasking

theorem nextBackend_frame (hstep : nextBackend cfg s action = some t) :
    (s.Made → t.owner = s.owner) ∧ t.published = s.published ∧ t.calls = s.calls ∧
      (s.task = .ended → t.task = .ended) := by
  cases action with
  | grant lifetime =>
    dsimp only [nextBackend] at hstep
    split at hstep
    · rename_i started howner
      obtain ⟨-, rfl⟩ := keep_eq_some hstep
      exact ⟨fun hmade => absurd howner (not_asking_of_made hmade started false), rfl, rfl, id⟩
    · cases hstep
  | extend lifetime =>
    dsimp only [nextBackend] at hstep
    split at hstep
    · rename_i htask
      obtain ⟨-, rfl⟩ := keep_eq_some hstep
      exact ⟨fun _ => rfl, rfl, rfl, fun hended => nomatch htask.symm.trans hended⟩
    · cases hstep
  | refuse =>
    dsimp only [nextBackend] at hstep
    split at hstep
    · rename_i htask
      obtain rfl := Option.some.inj hstep
      exact ⟨fun _ => rfl, rfl, rfl, fun hended => nomatch htask.symm.trans hended⟩
    · cases hstep
  | extendStray lifetime =>
    dsimp only [nextBackend] at hstep
    split at hstep
    · obtain ⟨-, rfl⟩ := keep_eq_some hstep
      exact ⟨fun _ => rfl, rfl, rfl, id⟩
    · cases hstep
  | forgetStray =>
    obtain rfl := Option.some.inj hstep
    exact ⟨fun _ => rfl, rfl, rfl, id⟩
  | expire =>
    dsimp only [nextBackend] at hstep
    split at hstep
    · obtain rfl := Option.some.inj hstep
      exact ⟨fun _ => rfl, rfl, rfl, id⟩
    · cases hstep
  | processRelease =>
    dsimp only [nextBackend] at hstep
    split at hstep
    · obtain rfl := Option.some.inj hstep
      exact ⟨fun _ => rfl, rfl, rfl, id⟩
    · cases hstep
  | _ => cases hstep

/-- Whoever asks for a lease has none yet. -/
theorem nextAcquisition_of_made (hmade : s.Made) : nextAcquisition cfg s action = none := by
  rcases hmade with howner | howner
  · cases action <;> simp [nextAcquisition, howner]
  · cases action <;> simp [nextAcquisition, howner]

theorem nextAcquisition_frame (hstep : nextAcquisition cfg s action = some t) :
    t.calls = s.calls ∧ (t.published = s.published ∨ t.published = .held) ∧
      (s.task = .ended → t.Made ∨ t.task = .ended) := by
  cases action with
  | ask | retry | giveUp =>
    dsimp only [nextAcquisition] at hstep
    split at hstep
    · obtain rfl := Option.some.inj hstep
      exact ⟨rfl, .inl rfl, .inr⟩
    · cases hstep
  | create =>
    dsimp only [nextAcquisition] at hstep
    split at hstep
    · obtain rfl := Option.some.inj hstep
      exact ⟨rfl, .inr rfl, fun _ => .inl (.inl rfl)⟩
    · cases hstep
  | _ => cases hstep

/-- The renewal task publishes nothing but a loss. -/
theorem nextTask_frame (hstep : nextTask cfg s action = some t) :
    t.owner = s.owner ∧ (t.published = s.published ∨ t.published = .lost) ∧ t.calls = s.calls := by
  cases action with
  | wake | taskState | taskValidity | request =>
    dsimp only [nextTask] at hstep
    split at hstep
    · obtain rfl := Option.some.inj hstep
      exact ⟨rfl, .inl rfl, rfl⟩
    · cases hstep
  | reply | fail | replyState | replyValidity | storeDeadline =>
    dsimp only [nextTask] at hstep
    split at hstep
    · obtain rfl := Option.some.inj hstep
      exact ⟨rfl, .inl rfl, rfl⟩
    · cases hstep
  | taskLose =>
    dsimp only [nextTask] at hstep
    split at hstep
    · obtain rfl := Option.some.inj hstep
      exact ⟨rfl, .inr rfl, rfl⟩
    · cases hstep
  | abort =>
    dsimp only [nextTask] at hstep
    split at hstep
    · split at hstep
      · obtain rfl := Option.some.inj hstep
        exact ⟨rfl, .inl rfl, rfl⟩
      · obtain rfl := Option.some.inj hstep
        exact ⟨rfl, .inl rfl, rfl⟩
      · cases hstep
    · cases hstep
  | _ => cases hstep

/-- Nor does a call of `proof`. -/
theorem nextCall_frame (hstep : nextCall s action = some t) :
    t.owner = s.owner ∧ (t.published = s.published ∨ t.published = .lost) := by
  cases action with
  | begin call | callState call | callValidity call =>
    dsimp only [nextCall] at hstep
    split at hstep
    · obtain rfl := Option.some.inj hstep
      exact ⟨rfl, .inl rfl⟩
    · cases hstep
  | callLose call =>
    dsimp only [nextCall] at hstep
    split at hstep
    · obtain rfl := Option.some.inj hstep
      exact ⟨rfl, .inr rfl⟩
    · cases hstep
  | _ => cases hstep

theorem live_of_nextCall (h : Invariant cfg s) (hstep : nextCall s action = some t) :
    s.owner = .live := by
  cases action with
  | begin call =>
    dsimp only [nextCall] at hstep
    split at hstep
    · rename_i hlive
      exact hlive.1
    · cases hstep
  | callState call | callValidity call | callLose call =>
    dsimp only [nextCall] at hstep
    split at hstep
    · rename_i hcall
      exact h.borrowed call _ hcall rfl
    · cases hstep
  | _ => cases hstep

theorem nextRelease_frame (hstep : nextRelease s action = some t) :
    t.Made ∧ (t.published = s.published ∨ t.published = .released) ∧ t.calls = s.calls := by
  cases action with
  | stopRenewal =>
    dsimp only [nextRelease] at hstep
    split at hstep
    · obtain rfl := Option.some.inj hstep
      exact ⟨.inr rfl, .inr rfl, rfl⟩
    · cases hstep
  | sendRelease =>
    dsimp only [nextRelease] at hstep
    split at hstep
    · rename_i hgone
      obtain rfl := Option.some.inj hstep
      exact ⟨.inr hgone.1, .inl rfl, rfl⟩
    · cases hstep
  | _ => cases hstep

theorem State.Made.of_owner (h : s.Made) (howner : t.owner = s.owner) : t.Made := by
  unfold State.Made
  rw [howner]
  exact h

/-- One step keeps what was made, and what it publishes anew is an end. -/
theorem published_next (hmade : s.Made) (hstep : next cfg s action = some t) :
    t.Made ∧ (t.published = s.published ∨ t.published ≠ .held) := by
  rcases next_cases hstep with
    ⟨now, hnow, -, rfl⟩ | hbackend | hacquisition | htask | hcall | hrelease
  · exact ⟨hmade, .inl rfl⟩
  · obtain ⟨howner, hpublished, -⟩ := nextBackend_frame hbackend
    exact ⟨hmade.of_owner (howner hmade), .inl hpublished⟩
  · rw [nextAcquisition_of_made hmade] at hacquisition
    cases hacquisition
  · obtain ⟨howner, hpublished, -⟩ := nextTask_frame htask
    refine ⟨hmade.of_owner howner, hpublished.imp_right fun hlost => ?_⟩
    rw [hlost]
    decide
  · obtain ⟨howner, hpublished⟩ := nextCall_frame hcall
    refine ⟨hmade.of_owner howner, hpublished.imp_right fun hlost => ?_⟩
    rw [hlost]
    decide
  · obtain ⟨hmade', hpublished, -⟩ := nextRelease_frame hrelease
    refine ⟨hmade', hpublished.imp_right fun hreleased => ?_⟩
    rw [hreleased]
    decide

/-- Until the lease is made nothing is published and no task runs. -/
def MadeIfPublished (s : State) : Prop :=
  s.Made ∨ (s.published = .held ∧ s.task = .ended)

theorem nextTask_of_ended (h : s.task = .ended) : nextTask cfg s action = none := by
  cases action <;> simp [nextTask, h]

theorem madeIfPublished_next (hinv : Invariant cfg s) (h : MadeIfPublished s)
    (hstep : next cfg s action = some t) : MadeIfPublished t := by
  rcases h with hmade | ⟨hheld, hended⟩
  · exact .inl (published_next hmade hstep).1
  rcases next_cases hstep with
    ⟨now, hnow, -, rfl⟩ | hbackend | hacquisition | htask | hcall | hrelease
  · exact .inr ⟨hheld, hended⟩
  · obtain ⟨-, hpublished, -, hquiet⟩ := nextBackend_frame hbackend
    exact .inr ⟨hpublished.trans hheld, hquiet hended⟩
  · obtain ⟨-, hpublished, hquiet⟩ := nextAcquisition_frame hacquisition
    have hheld' : t.published = .held := hpublished.elim (fun hsame => hsame.trans hheld) id
    exact (hquiet hended).imp_right fun hended' => ⟨hheld', hended'⟩
  · rw [nextTask_of_ended hended] at htask
    cases htask
  · obtain ⟨howner, -⟩ := nextCall_frame hcall
    -- A call of `proof` borrows a live lease.
    exact .inl (State.Made.of_owner (.inl (live_of_nextCall hinv hcall)) howner)
  · exact .inl (nextRelease_frame hrelease).1

theorem made_of_reachable {clock : Nat} (h : Run.Reachable (next cfg) (.init clock) s)
    (hpublished : s.published ≠ .held) : s.Made := by
  have hboth : Invariant cfg s ∧ MadeIfPublished s :=
    h.invariant (I := fun s => Invariant cfg s ∧ MadeIfPublished s)
      ⟨invariant_init cfg clock, .inr ⟨rfl, rfl⟩⟩ fun _ _ _ hs hstep =>
        ⟨invariant_next hs.1 hstep, madeIfPublished_next hs.1 hs.2 hstep⟩
  exact hboth.2.resolve_right fun hquiet => hpublished hquiet.1

theorem Over.next (h : Over s) (hstep : next cfg s action = some t) : Over t := by
  obtain ⟨hmade, hsame | hover⟩ := published_next h.made hstep
  · exact ⟨hmade, hsame ▸ h.published⟩
  · exact ⟨hmade, hover⟩

/-- **An end is final.** -/
theorem Over.exec {actions : List Action} (h : Over s)
    (hrun : Run.exec (OwnedLease.next cfg) s actions = some t) : Over t :=
  Run.exec_invariant (fun _ _ _ hs hstep => hs.next hstep) h hrun

end Over

/-! ## Proofs that begin too late -/

/-- The call has not begun, or has not seen the state `Held`. -/
def Unproved (s : State) (call : Nat) : Prop :=
  ∀ at_, s.calls.lookup call = some at_ → at_ = .begun ∨ at_ = .failed

section Late

variable {cfg : Config} {s t : State} {action : Action} {call : Nat}

theorem Unproved.insert (h : Unproved s call) (other : Nat) {at_ : Call}
    (hat : other = call → at_ = .begun ∨ at_ = .failed) :
    Unproved { s with calls := s.calls.insert other at_ } call := by
  intro found hfound
  dsimp only at hfound
  by_cases hsame : other = call
  · rw [hsame, AList.lookup_insert] at hfound
    obtain rfl := Option.some.inj hfound
    exact hat hsame
  · rw [AList.lookup_insert_ne (Ne.symm hsame)] at hfound
    exact h found hfound

theorem Unproved.nextCall (h : Unproved s call) (hover : Over s)
    (hstep : nextCall s action = some t) : Unproved t call := by
  -- A call beyond its first look at the state is another one.
  have hother : ∀ {other : Nat} {at_ : Call}, s.calls.lookup other = some at_ → at_ ≠ .begun →
      at_ ≠ .failed → other ≠ call := by
    intro other at_ hlookup hbegun hfailed hsame
    rw [hsame] at hlookup
    rcases h at_ hlookup with h | h
    · exact hbegun h
    · exact hfailed h
  cases action with
  | begin other =>
    dsimp only [OwnedLease.nextCall] at hstep
    split at hstep
    · obtain rfl := Option.some.inj hstep
      exact h.insert other fun _ => .inl rfl
    · cases hstep
  | callState other =>
    dsimp only [OwnedLease.nextCall] at hstep
    split at hstep
    · obtain rfl := Option.some.inj hstep
      apply h.insert other
      intro _
      rw [if_neg hover.published]
      exact .inr rfl
    · cases hstep
  | callValidity other =>
    dsimp only [OwnedLease.nextCall] at hstep
    split at hstep
    · rename_i hcall
      obtain rfl := Option.some.inj hstep
      exact h.insert other fun hsame => absurd hsame (hother hcall nofun nofun)
    · cases hstep
  | callLose other =>
    dsimp only [OwnedLease.nextCall] at hstep
    split at hstep
    · rename_i hcall
      obtain rfl := Option.some.inj hstep
      exact h.insert other fun hsame => absurd hsame (hother hcall nofun nofun)
    · cases hstep
  | _ => cases hstep

theorem Unproved.of_calls (h : Unproved s call) (hcalls : t.calls = s.calls) :
    Unproved t call := by
  unfold Unproved
  rw [hcalls]
  exact h

theorem Unproved.next (h : Unproved s call) (hover : Over s)
    (hstep : next cfg s action = some t) : Unproved t call := by
  rcases next_cases hstep with
    ⟨now, hnow, -, rfl⟩ | hbackend | hacquisition | htask | hcall | hrelease
  · exact h
  · exact h.of_calls (nextBackend_frame hbackend).2.2.1
  · rw [nextAcquisition_of_made hover.made] at hacquisition
    cases hacquisition
  · exact h.of_calls (nextTask_frame htask).2.2
  · exact h.nextCall hover hcall
  · exact h.of_calls (nextRelease_frame hrelease).2.2

/-- **A call that begins after the end does not succeed.** -/
theorem Unproved.exec {actions : List Action} (h : Unproved s call) (hover : Over s)
    (hrun : Run.exec (OwnedLease.next cfg) s actions = some t) : Unproved t call :=
  (Run.exec_invariant (I := fun s => Over s ∧ Unproved s call)
    (fun _ _ _ hs hstep => ⟨hs.1.next hstep, hs.2.next hs.1 hstep⟩) ⟨hover, h⟩ hrun).2

end Late

/-! ## Proofs that succeed -/

section Proofs

variable {cfg : Config} {s t : State} {action : Action} {call : Nat}

theorem holds_of_locallyValid (h : Invariant cfg s) (hlive : s.owner = .live)
    (hvalid : s.locallyValid = true) : s.Holds := by
  cases huntil : s.validUntil with
  | none =>
    rw [State.locallyValid, huntil] at hvalid
    cases hvalid
  | some until_ =>
    rw [State.locallyValid, huntil, Option.any_some, decide_eq_true_eq] at hvalid
    obtain ⟨deadline, hdeadline, hle⟩ := h.valid hlive until_ huntil hvalid
    exact ⟨deadline, hdeadline, lt_of_lt_of_le hvalid hle⟩

theorem lookup_insert_ne_succeeded {other : Nat} {at_ : Call}
    (hbefore : s.calls.lookup call ≠ some .succeeded) (hat : at_ ≠ .succeeded) :
    (s.calls.insert other at_).lookup call ≠ some .succeeded := by
  by_cases hsame : call = other
  · rw [hsame, AList.lookup_insert]
    exact fun heq => hat (Option.some.inj heq)
  · rw [AList.lookup_insert_ne hsame]
    exact hbefore

theorem succeeded_nextCall (hstep : nextCall s action = some t)
    (hbefore : s.calls.lookup call ≠ some .succeeded)
    (hafter : t.calls.lookup call = some .succeeded) :
    s.calls.lookup call = some .sawHeld ∧ s.locallyValid = true ∧ t.clock = s.clock ∧
      t.backend = s.backend := by
  cases action with
  | begin other =>
    dsimp only [nextCall] at hstep
    split at hstep
    · obtain rfl := Option.some.inj hstep
      exact absurd hafter (lookup_insert_ne_succeeded hbefore nofun)
    · cases hstep
  | callState other =>
    dsimp only [nextCall] at hstep
    split at hstep
    · obtain rfl := Option.some.inj hstep
      refine absurd hafter (lookup_insert_ne_succeeded hbefore ?_)
      split
      · nofun
      · nofun
    · cases hstep
  | callValidity other =>
    dsimp only [nextCall] at hstep
    split at hstep
    · rename_i hcall
      obtain rfl := Option.some.inj hstep
      cases hvalid : s.locallyValid with
      | false =>
        rw [hvalid] at hafter
        exact absurd hafter (lookup_insert_ne_succeeded hbefore nofun)
      | true =>
        by_cases hsame : call = other
        · rw [hsame]
          exact ⟨hcall, rfl, rfl, rfl⟩
        · rw [hvalid] at hafter
          dsimp only at hafter
          rw [AList.lookup_insert_ne hsame] at hafter
          exact absurd hafter hbefore
    · cases hstep
  | callLose other =>
    dsimp only [nextCall] at hstep
    split at hstep
    · obtain rfl := Option.some.inj hstep
      exact absurd hafter (lookup_insert_ne_succeeded hbefore nofun)
    · cases hstep
  | _ => cases hstep

/-- The step at which a call of `proof` comes to succeed. -/
theorem succeeded_cases (hstep : next cfg s action = some t)
    (hbefore : s.calls.lookup call ≠ some .succeeded)
    (hafter : t.calls.lookup call = some .succeeded) :
    s.calls.lookup call = some .sawHeld ∧ s.locallyValid = true ∧ t.clock = s.clock ∧
      t.backend = s.backend := by
  have hsame : t.calls ≠ s.calls := fun hcalls => hbefore (hcalls ▸ hafter)
  rcases next_cases hstep with
    ⟨now, hnow, -, rfl⟩ | hbackend | hacquisition | htask | hcall | hrelease
  · exact absurd hafter hbefore
  · exact absurd (nextBackend_frame hbackend).2.2.1 hsame
  · exact absurd (nextAcquisition_frame hacquisition).1 hsame
  · exact absurd (nextTask_frame htask).2.2 hsame
  · exact succeeded_nextCall hcall hbefore hafter
  · exact absurd (nextRelease_frame hrelease).2.2 hsame

/-- **A locally valid lease is held.** Of every state that a run reaches: what is published as lost
or released is never published as held again, no call of `proof` that begins from there on
succeeds, and a step at which a call succeeds finds the token with the backend. -/
theorem owned_lease_is_held (cfg : Config) (clock : Nat) (s : State)
    (hs : Run.Reachable (next cfg) (.init clock) s) :
    (s.published ≠ .held → ∀ actions t, Run.exec (next cfg) s actions = some t →
      t.published ≠ .held) ∧
    (s.published ≠ .held → ∀ call, s.calls.lookup call = none →
      ∀ actions t, Run.exec (next cfg) s actions = some t →
        t.calls.lookup call ≠ some .succeeded) ∧
    ∀ action t call, next cfg s action = some t → s.calls.lookup call ≠ some .succeeded →
      t.calls.lookup call = some .succeeded → t.Holds := by
  refine ⟨fun hpublished actions t hrun => ?_, fun hpublished call hnone actions t hrun => ?_,
    fun action t call hstep hbefore hafter => ?_⟩
  · have hover : Over s := ⟨made_of_reachable hs hpublished, hpublished⟩
    exact (hover.exec hrun).published
  · have hover : Over s := ⟨made_of_reachable hs hpublished, hpublished⟩
    have hunproved : Unproved s call := by
      intro at_ hat
      rw [hnone] at hat
      cases hat
    intro hsucceeded
    rcases hunproved.exec hover hrun _ hsucceeded with hbegun | hfailed
    · cases hbegun
    · cases hfailed
  · have hinv : Invariant cfg s := invariant_of_reachable hs
    obtain ⟨hseen, hvalid, hclock, hbackend⟩ := succeeded_cases hstep hbefore hafter
    have hlive : s.owner = .live := hinv.borrowed call .sawHeld hseen rfl
    obtain ⟨deadline, hdeadline, hearly⟩ := holds_of_locallyValid hinv hlive hvalid
    exact ⟨deadline, hbackend.trans hdeadline, hclock ▸ hearly⟩

/-- A lease of three instants, proved at its second one. -/
theorem owned_lease_is_held_first_proof :
    ∃ s t : State,
      Run.exec (next ⟨3, true, 100⟩) (.init 0)
        [.ask, .grant 3, .create, .wait 2, .begin 0, .callState 0] = some s ∧
      next ⟨3, true, 100⟩ s (.callValidity 0) = some t ∧
      t.calls.lookup 0 = some .succeeded ∧ t.Holds := by
  refine ⟨_, _, rfl, rfl, rfl, ?_⟩
  exact (owned_lease_is_held ⟨3, true, 100⟩ 0 _
    ⟨[.ask, .grant 3, .create, .wait 2, .begin 0, .callState 0], rfl⟩).2.2
    (.callValidity 0) _ 0 rfl (by decide) rfl

end Proofs

end Amalgam.OwnedLease
