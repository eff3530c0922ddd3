import Amalgam.Execution.Reason

/-!
# Amalgam — an owned execution

`Scope`, `PollLease` and `Execution` of `src/execution.rs`. The user's future moves between the
state of the scope, the poll that runs it and whoever cancels; the terminal state is stored under
the state lock, the reason of the token by a compare-exchange of its own, and the result of a poll
is returned after both. Anybody may cancel at any time and the cache may close, the future may
panic when it is polled and when it is destroyed, and the `Execution` is polled again or dropped
only when its last poll is over, as `&mut` demands. The scope alone drives the source.

* **`owned_execution_agrees`** — the future is in one place until it is destroyed, it is polled
  only while the scope is polling, and results, terminal state and reason agree.
* **`completed_before_its_reason`** — the scope is completed before its token says so.

Wakers, notifications and the tracking of the cache are left out.
-/

namespace Amalgam

namespace Owned

open Flights (Reason)
open Tokens (Shared Reading Cancelling)

inductive ScopeState where
  | pending
  | polling (cancellation : Option Reason)
  | cancelled (reason : Reason)
  | completed
deriving DecidableEq

/-- Where a `Scope::cancel` stands. `work` tells whether it took the future out of the scope. -/
inductive CancelPc where
  | read (reason : Reason) (at_ : Reading)
  | acquire (reason : Reason)
  -- The state lock is held.
  | held (reason : Reason)
  | release (work : Bool) (recorded : Reason)
  | publish (work : Bool) (at_ : Cancelling)
  | retire (work : Bool)
deriving DecidableEq

inductive PollResult where
  | pending
  | ready
  | cancelled (reason : Reason)
  /-- The future panicked when it was polled. -/
  | panicked
  /-- Another panic: the execution was polled again, or the future panicked in its destructor. -/
  | unwound
deriving DecidableEq

/-- Where the owner of the `Execution` stands. -/
inductive ExecPc where
  | idle
  -- `poll_work`
  | acquire
  | entry
  | told (reason : Reason)
  | tell (reason : Reason) (at_ : Cancelling)
  | again
  | taken
  | user
  | acquireExit (ready : Bool)
  | exit_ (ready : Bool)
  | parked
  /-- The terminal state is stored: cancelled by this reason, or else completed. -/
  | settled (cancellation : Option Reason)
  | publish (cancellation : Option Reason) (at_ : Cancelling)
  | retire (cancellation : Option Reason)
  /-- The future is dropped by the unwinding of its poll. -/
  | unwinding
  -- `PollLease::drop`
  | lease (result : PollResult)
  | leased (result : PollResult)
  | release (result : PollResult) (reason : Option Reason)
  | abandon (result : PollResult) (at_ : Cancelling)
  -- `Execution::drop`
  | dropState
  | dropClosing
  | dropping (at_ : CancelPc)
  | dropped
  | unreachable
deriving DecidableEq

inductive Party where
  | exec
  | call (id : Nat)
deriving DecidableEq

/-- A poll that returned: the scope when the poll had its last look at it, the result, and the
reason of the token at the return. -/
structure Returned where
  last : ScopeState
  result : PollResult
  record : Option Reason

structure State where
  /-- The promoted request, and the closing flag of the cache. -/
  token : Shared
  scope : ScopeState
  /-- Whoever has the state lock. -/
  holder : Option Party
  exec : ExecPc
  calls : Nat → Option CancelPc
  /-- What the poll saw when it had the lock last. -/
  last : ScopeState
  /-- Every destruction of the future: who did it, and who had the state lock. -/
  destroyed : List (Party × Option Party)
  returned : List Returned

/-- How the user's future comes back from a poll, or from its destructor. -/
inductive Came where
  | ready
  | pending
  | panicked
deriving DecidableEq

namespace State

def setCall (s : State) (id : Nat) (pc : Option CancelPc) : State :=
  { s with calls := Function.update s.calls id pc }

def goto (s : State) (pc : ExecPc) : State := { s with exec := pc }

def destroy (s : State) (who : Party) : State :=
  { s with destroyed := (who, s.holder) :: s.destroyed }

/-- The poll returns. -/
def return_ (s : State) (result : PollResult) : State :=
  { s with
    exec := .idle
    returned := match result with
      | .pending | .ready | .cancelled _ => ⟨s.last, result, s.token.record⟩ :: s.returned
      | .panicked | .unwound => s.returned }

end State

/-- One access of `Scope::cancel`; it has returned when there is no next one. -/
def stepCancel (s : State) (who : Party) : CancelPc → Option (Option CancelPc × State)
  | .read reason at_ =>
    match at_.step s.token with
    | .inl at_ => some (some (.read reason at_), s)
    | .inr found => some (some (.acquire (found.getD reason)), s)
  | .acquire reason =>
    if s.holder = none then some (some (.held reason), { s with holder := some who }) else none
  | .held reason =>
    match s.scope with
    | .pending => some (some (.release true reason), { s with scope := .cancelled reason })
    | .polling cancellation =>
      let recorded := cancellation.getD reason
      some (some (.release false recorded), { s with scope := .polling (some recorded) })
    | .cancelled recorded => some (some (.release false recorded), s)
    | .completed => some (some (.release false .scopeFinished), s)
  | .release work recorded =>
    some (some (.publish work (.reading recorded .state)), { s with holder := none })
  | .publish work at_ =>
    match at_.step s.token with
    | (some at_, token) => some (some (.publish work at_), { s with token })
    | (none, token) => some (some (.retire work), { s with token })
  | .retire work => some (none, if work then s.destroy who else s)

/-- `drop_reason`, for a poll that was not cancelled. -/
def dropReason (token : Shared) : Reason :=
  match token.record with
  | some reason => reason
  | none => if token.closing then .cacheShutdown else .callerDropped

/-- The reason that is published for a terminal state. -/
def ending (cancellation : Option Reason) : Reason := cancellation.getD .scopeFinished

def outcome : Option Reason → PollResult
  | some reason => .cancelled reason
  | none => .ready

/-- One access of the owner of the execution. -/
def stepExec (s : State) (came : Came) : Option State :=
  match s.exec with
  | .idle | .dropped | .unreachable => none
  | .acquire => if s.holder = none then some { s with holder := some .exec, exec := .entry } else none
  | .entry =>
    match s.scope with
    | .cancelled reason => some { s with last := s.scope, exec := .told reason }
    | .completed | .polling _ => some { s with last := s.scope, exec := .again }
    | .pending => some { s with last := .polling none, scope := .polling none, exec := .taken }
  | .told reason =>
    some { s with holder := none, exec := .tell reason (.reading reason .state) }
  | .tell reason at_ =>
    match at_.step s.token with
    | (some at_, token) => some { s with token, exec := .tell reason at_ }
    | (none, token) => some { s with token, exec := .lease (.cancelled reason) }
  -- The panic unwinds the guard first.
  | .again => some { s with holder := none, exec := .lease .unwound }
  | .taken => some { s with holder := none, exec := .user }
  | .user =>
    match came with
    | .ready => some (s.goto (.acquireExit true))
    | .pending => some (s.goto (.acquireExit false))
    | .panicked => some (s.goto .unwinding)
  | .acquireExit ready =>
    if s.holder = none then some { s with holder := some .exec, exec := .exit_ ready } else none
  | .exit_ ready =>
    match s.scope with
    | .polling cancellation =>
      let cancellation :=
        cancellation.or (if s.token.closing then some .cacheShutdown else none)
      match cancellation, ready with
      | some reason, _ =>
        some { s with
          last := .cancelled reason
          scope := .cancelled reason
          exec := .settled (some reason) }
      | none, true =>
        some { s with last := .completed, scope := .completed, exec := .settled none }
      | none, false => some { s with last := .pending, scope := .pending, exec := .parked }
    | .pending | .cancelled _ | .completed => some (s.goto .unreachable)
  | .parked => some { s with holder := none, exec := .lease .pending }
  | .settled cancellation =>
    some { s with
      holder := none
      exec := .publish cancellation (.reading (ending cancellation) .state) }
  | .publish cancellation at_ =>
    match at_.step s.token with
    | (some at_, token) => some { s with token, exec := .publish cancellation at_ }
    | (none, token) => some { s with token, exec := .retire cancellation }
  | .retire cancellation =>
    match came with
    | .panicked => some ((s.destroy .exec).goto (.lease .unwound))
    | .ready | .pending => some ((s.destroy .exec).goto (.lease (outcome cancellation)))
  | .unwinding => some ((s.destroy .exec).goto (.lease .panicked))
  | .lease result =>
    if s.holder = none then some { s with holder := some .exec, exec := .leased result } else none
  | .leased result =>
    match s.scope with
    | .polling cancellation =>
      let reason := cancellation.getD (dropReason s.token)
      some { s with scope := .cancelled reason, exec := .release result (some reason) }
    | .pending | .cancelled _ | .completed => some (s.goto (.release result none))
  | .release result reason =>
    match reason with
    | some reason => some { s with holder := none, exec := .abandon result (.reading reason .state) }
    | none => some ({ s with holder := none }.return_ result)
  | .abandon result at_ =>
    match at_.step s.token with
    | (some at_, token) => some { s with token, exec := .abandon result at_ }
    | (none, token) => some ({ s with token }.return_ result)
  | .dropState =>
    match s.token.record with
    | some reason => some (s.goto (.dropping (.read reason .state)))
    | none => some (s.goto .dropClosing)
  | .dropClosing =>
    let reason := if s.token.closing then Reason.cacheShutdown else .callerDropped
    some (s.goto (.dropping (.read reason .state)))
  | .dropping at_ =>
    (stepCancel s .exec at_).map fun (at_, s) =>
      match at_ with
      | some at_ => s.goto (.dropping at_)
      | none => s.goto .dropped

inductive Action where
  | close
  | cancel (id : Nat) (reason : Reason)
  | step (id : Nat)
  | poll
  | drop
  | exec (came : Came)

def next (s : State) : Action → Option State
  | .close => some { s with token := { s.token with closing := true } }
  | .cancel id reason =>
    match s.calls id with
    | none => some (s.setCall id (some (.read reason .state)))
    | some _ => none
  | .step id =>
    match s.calls id with
    | none => none
    | some pc => (stepCancel s (.call id) pc).map fun (pc, s) => s.setCall id pc
  | .poll => if s.exec = .idle then some (s.goto .acquire) else none
  | .drop => if s.exec = .idle then some (s.goto .dropState) else none
  | .exec came => stepExec s came

/-- A scope that was just made, of a cache that may be closed. -/
def init (closing : Bool) : State where
  token := ⟨none, .owned, closing⟩
  scope := .pending
  holder := none
  exec := .idle
  calls := fun _ => none
  last := .pending
  destroyed := []
  returned := []

/-! ## What a party knows and holds -/

/-- The reason that a state of the scope stands for, once it stands for one. -/
def ScopeState.verdict : ScopeState → Option Reason
  | .pending => none
  | .polling cancellation => cancellation
  | .cancelled reason => some reason
  | .completed => some .scopeFinished

def ScopeState.isPolling : ScopeState → Bool
  | .polling _ => true
  | _ => false

def ScopeState.isTerminal : ScopeState → Bool
  | .cancelled _ | .completed => true
  | .pending | .polling _ => false

/-- What matters of where a party stands. -/
structure View where
  /-- It has the state lock. -/
  locked : Bool := false
  /-- It has the future. -/
  work : Bool := false
  /-- The reasons it is about to publish. -/
  telling : List Reason := []
  /-- It is about to look at the closing flag for that. -/
  flag : Bool := false
  /-- The reason it has published. -/
  knows : Option Reason := none
  polls : Bool := false
  /-- It has completed the scope and published nothing. -/
  completes : Bool := false
  /-- The state of the scope that its poll answers for. -/
  ends : Option ScopeState := none

def atFlag : Cancelling → Bool
  | .reading _ .closing => true
  | .reading _ .state | .reading _ .delivery | .exchange _ => false

def CancelPc.view : CancelPc → View
  | .read _ _ | .acquire _ => {}
  | .held _ => { locked := true }
  | .release work recorded => { locked := true, work, telling := [recorded] }
  | .publish work at_ => { work, telling := [at_.reason], flag := atFlag at_ }
  | .retire work => { work }

/-- What a poll that is over except for its lease answers for. -/
def PollResult.view : PollResult → View
  | .pending => { ends := some .pending }
  | .ready => { knows := some .scopeFinished, ends := some .completed }
  | .cancelled reason => { knows := some reason, ends := some (.cancelled reason) }
  | .panicked => {}
  | .unwound => {}

def terminal : Option Reason → ScopeState
  | some reason => .cancelled reason
  | none => .completed

def ExecPc.view : ExecPc → View
  | .idle | .acquire | .dropState | .dropClosing | .dropped | .unreachable => {}
  | .entry => { locked := true }
  | .told reason => { locked := true, telling := [reason], ends := some (.cancelled reason) }
  | .tell reason at_ =>
    { telling := [reason, at_.reason], flag := atFlag at_, ends := some (.cancelled reason) }
  | .again => { locked := true }
  | .taken => { locked := true, work := true, polls := true }
  | .user | .acquireExit _ => { work := true, polls := true }
  | .exit_ _ => { locked := true, work := true, polls := true }
  | .parked => { locked := true, ends := some .pending }
  | .settled cancellation =>
    { locked := true, work := true, telling := [ending cancellation]
      completes := cancellation.isNone, ends := some (terminal cancellation) }
  | .publish cancellation at_ =>
    { work := true, telling := [ending cancellation, at_.reason], flag := atFlag at_
      completes := cancellation.isNone, ends := some (terminal cancellation) }
  | .retire cancellation =>
    { work := true, knows := some (ending cancellation), ends := some (terminal cancellation) }
  | .unwinding => { work := true, polls := true }
  | .lease result => { result.view with polls := result = .panicked }
  | .leased result => { result.view with locked := true, polls := result = .panicked }
  | .release result reason => { result.view with locked := true, telling := reason.toList }
  | .abandon result at_ => { result.view with telling := [at_.reason], flag := atFlag at_ }
  | .dropping at_ => at_.view

def State.view (s : State) : Party → View
  | .exec => s.exec.view
  | .call id => (s.calls id).elim {} CancelPc.view

/-- Where the future can be. -/
inductive Place where
  | scope
  | party (party : Party)
  | gone
deriving DecidableEq

def State.holds (s : State) : Place → Prop
  | .scope => s.scope = .pending
  | .party party => (s.view party).work = true
  | .gone => s.destroyed ≠ []

/-- What a poll returned is what it saw, and the token says the same. -/
def Returned.Agrees (r : Returned) : Prop :=
  (∀ reason, r.result = .cancelled reason ↔ r.last = .cancelled reason) ∧
    ∀ reason, r.last.isTerminal = true → r.last.verdict = some reason → r.record = some reason

structure Agreed (s : State) : Prop where
  owned : s.token.delivery = .owned
  locked : ∀ party, (s.view party).locked = true ↔ s.holder = some party
  polling : s.scope.isPolling = s.exec.view.polls
  record : ∀ reason, s.token.record = some reason → s.scope.verdict = some reason
  telling : ∀ party, ∀ reason ∈ (s.view party).telling, s.scope.verdict = some reason
  /-- The request is promoted, so nobody looks at the flag. -/
  flag : ∀ party, (s.view party).flag = false
  knows : ∀ party reason, (s.view party).knows = some reason → s.token.record = some reason
  ends : ∀ state, s.exec.view.ends = some state → s.last = state
  /-- The future is in one place. -/
  place : ∃ place, ∀ other, s.holds other ↔ other = place
  once : s.destroyed.length ≤ 1
  unlocked : ∀ d ∈ s.destroyed, d.2 ≠ some d.1
  reachable : s.exec ≠ .unreachable
  completed : s.scope = .completed → s.token.record = some .scopeFinished ∨
    s.token.record = none ∧ s.exec.view.completes = true
  returned : ∀ r ∈ s.returned, r.Agrees

/-- A terminal state stays. -/
def Keeps (s t : State) : Prop := s.scope.isTerminal = true → t.scope = s.scope

/-- The state lock is left alone, taken or given back. -/
def Locks (s t : State) (who : Party) : Prop :=
  t.holder = s.holder ∧ (t.view who).locked = (s.view who).locked ∨
    s.holder = none ∧ t.holder = some who ∧ (t.view who).locked = true ∨
      (s.view who).locked = true ∧ t.holder = none ∧ (t.view who).locked = false

/-- The future stays where it is, or this party moves it. -/
inductive Carries (s t : State) (who : Party) : Prop where
  | stays (scope : t.scope = .pending ↔ s.scope = .pending)
      (work : (t.view who).work = (s.view who).work) (gone : t.destroyed = s.destroyed)
  | takes (scope : s.scope = .pending) (taken : t.scope ≠ .pending)
      (work : (t.view who).work = true) (gone : t.destroyed = s.destroyed)
  | gives (work : (s.view who).work = true) (given : (t.view who).work = false)
      (scope : t.scope = .pending) (gone : t.destroyed = s.destroyed)
  | destroys (work : (s.view who).work = true) (given : (t.view who).work = false)
      (scope : t.scope = s.scope) (unlocked : (s.view who).locked = false)
      (gone : t.destroyed = (who, s.holder) :: s.destroyed)

/-- One access of one party. -/
structure Move (s t : State) (who : Party) : Prop where
  others : ∀ party, party ≠ who → t.view party = s.view party
  owned : t.token.delivery = s.token.delivery
  locks : Locks s t who
  carries : Carries s t who
  verdict : ∀ reason, s.scope.verdict = some reason → t.scope.verdict = some reason
  record : t.token.record = s.token.record ∨
    s.token.record = none ∧ ∃ reason, t.token.record = some reason ∧ t.scope.verdict = some reason
  telling : ∀ reason ∈ (t.view who).telling, t.scope.verdict = some reason
  flag : (t.view who).flag = false
  knows : ∀ reason, (t.view who).knows = some reason → t.token.record = some reason
  polling : t.scope.isPolling = t.exec.view.polls
  ends : ∀ state, t.exec.view.ends = some state → t.last = state
  reachable : t.exec ≠ .unreachable
  completed : t.scope = .completed → t.token.record = some .scopeFinished ∨
    t.token.record = none ∧ t.exec.view.completes = true
  returned : ∀ r ∈ t.returned, r ∈ s.returned ∨ r.Agrees

variable {s t : State} {who : Party}

theorem Agreed.alone (h : Agreed s) (place : Place) (hplace : s.holds place) (other : Place) :
    s.holds other ↔ other = place := by
  obtain ⟨only, honly⟩ := h.place
  rw [(honly place).mp hplace]
  exact honly other

/-- Afterwards the future is in one place again. -/
theorem Agreed.carried (h : Agreed s) (hcarries : Carries s t who)
    (hothers : ∀ party, party ≠ who → t.view party = s.view party) :
    (∃ place, ∀ other, t.holds other ↔ other = place) ∧ t.destroyed.length ≤ 1 ∧
      ∀ d ∈ t.destroyed, d.2 ≠ some d.1 := by
  -- Nobody else had the future, and nobody else gets it.
  have hparty : ∀ place, s.holds place → ∀ party, party ≠ who →
      (t.holds (.party party) ↔ Place.party party = place) := fun place hplace party hne => by
    show (t.view party).work = true ↔ _
    rw [hothers party hne]
    exact h.alone place hplace (.party party)
  cases hcarries with
  | stays hscope hwho hgone =>
    obtain ⟨place, hplace⟩ := h.place
    refine ⟨⟨place, fun other => ?_⟩, by rw [hgone]; exact h.once, by rw [hgone]; exact h.unlocked⟩
    rw [← hplace other]
    cases other with
    | scope => exact hscope
    | gone => show t.destroyed ≠ [] ↔ _; rw [hgone]; rfl
    | party party =>
      show (t.view party).work = true ↔ (s.view party).work = true
      by_cases hparty : party = who
      · rw [hparty, hwho]
      · rw [hothers party hparty]
  | takes hscope htaken hwho hgone =>
    refine ⟨⟨.party who, fun other => ?_⟩, by rw [hgone]; exact h.once, by rw [hgone]; exact h.unlocked⟩
    cases other with
    | scope => exact ⟨fun hpending => absurd hpending htaken, nofun⟩
    | gone =>
      have hnone := h.alone .scope hscope .gone
      show t.destroyed ≠ [] ↔ _
      rw [hgone]
      exact ⟨fun hne => absurd (hnone.mp hne) nofun, nofun⟩
    | party party =>
      by_cases hne : party = who
      · rw [hne]
        exact ⟨fun _ => rfl, fun _ => hwho⟩
      · rw [hparty .scope hscope party hne]
        exact ⟨nofun, fun heq => absurd (Place.party.inj heq) hne⟩
  | gives hwho hgiven hscope hgone =>
    refine ⟨⟨.scope, fun other => ?_⟩, by rw [hgone]; exact h.once, by rw [hgone]; exact h.unlocked⟩
    cases other with
    | scope => exact ⟨fun _ => rfl, fun _ => hscope⟩
    | gone =>
      have hnone := h.alone (.party who) hwho .gone
      show t.destroyed ≠ [] ↔ _
      rw [hgone]
      exact ⟨fun hne => absurd (hnone.mp hne) nofun, nofun⟩
    | party party =>
      by_cases hne : party = who
      · rw [hne]
        exact ⟨fun hwork => absurd (hgiven.symm.trans hwork) nofun, nofun⟩
      · rw [hparty (.party who) hwho party hne]
        exact ⟨fun heq => absurd (Place.party.inj heq) hne, nofun⟩
  | destroys hwho hgiven hscope hunlocked hgone =>
    have hnone : s.destroyed = [] := by
      by_contra hne
      have hboth := (h.alone (.party who) hwho .gone).mp hne
      cases hboth
    rw [hgone, hnone]
    refine ⟨⟨.gone, fun other => ?_⟩, Nat.le_refl _, fun d hd => ?_⟩
    · cases other with
      | scope =>
        have hscope' := h.alone (.party who) hwho .scope
        show t.scope = .pending ↔ _
        rw [hscope]
        exact ⟨fun hpending => absurd (hscope'.mp hpending) nofun, nofun⟩
      | gone =>
        show t.destroyed ≠ [] ↔ _
        rw [hgone]
        exact ⟨fun _ => rfl, fun _ => nofun⟩
      | party party =>
        by_cases hne : party = who
        · rw [hne]
          exact ⟨fun hwork => absurd (hgiven.symm.trans hwork) nofun, nofun⟩
        · rw [hparty (.party who) hwho party hne]
          exact ⟨fun heq => absurd (Place.party.inj heq) hne, nofun⟩
    · obtain rfl := List.mem_singleton.mp hd
      intro hheld
      have hlocked := (h.locked who).mpr hheld
      rw [hunlocked] at hlocked
      cases hlocked

theorem Agreed.move (h : Agreed s) (hmove : Move s t who) : Agreed t := by
  obtain ⟨hplace, honce, hunlocked⟩ := h.carried hmove.carries hmove.others
  refine ⟨hmove.owned.trans h.owned, fun party => ?_, hmove.polling, fun reason hrecord => ?_,
    fun party reason htelling => ?_, fun party => ?_, fun party reason hknows => ?_, hmove.ends, hplace, honce,
    hunlocked, hmove.reachable, hmove.completed, fun r hr => ?_⟩
  · by_cases hparty : party = who
    · subst hparty
      rcases hmove.locks with ⟨hholder, hsame⟩ | ⟨-, hholder, hlocked⟩ | ⟨-, hholder, hlocked⟩
      · rw [hholder, hsame]
        exact h.locked party
      · rw [hholder, hlocked]
        exact ⟨fun _ => rfl, fun _ => rfl⟩
      · rw [hholder, hlocked]
        constructor <;> intro heq <;> cases heq
    · rw [hmove.others party hparty, h.locked party]
      rcases hmove.locks with ⟨hholder, -⟩ | ⟨hfree, hholder, -⟩ | ⟨hlocked, hholder, -⟩
      · rw [hholder]
      · rw [hholder, hfree]
        exact ⟨nofun, fun heq => absurd (Option.some.inj heq).symm hparty⟩
      · have hwho := (h.locked who).mp hlocked
        rw [hholder, hwho]
        exact ⟨fun heq => absurd (Option.some.inj heq).symm hparty, nofun⟩
  · rcases hmove.record with hsame | ⟨-, found, hfound, hverdict⟩
    · exact hmove.verdict reason (h.record reason (hsame.symm.trans hrecord))
    · rw [← hrecord, hfound]
      exact hverdict
  · by_cases hparty : party = who
    · subst hparty
      exact hmove.telling reason htelling
    · rw [hmove.others party hparty] at htelling
      exact hmove.verdict reason (h.telling party reason htelling)
  · by_cases hparty : party = who
    · rw [hparty]
      exact hmove.flag
    · rw [hmove.others party hparty]
      exact h.flag party
  · by_cases hparty : party = who
    · subst hparty
      exact hmove.knows reason hknows
    · rw [hmove.others party hparty] at hknows
      have hold := h.knows party reason hknows
      rcases hmove.record with hsame | ⟨hnone, -⟩
      · exact hsame.trans hold
      · exact absurd (hnone.symm.trans hold) nofun
  · exact (hmove.returned r hr).elim (h.returned r) id

/-! ## Publications -/

/-- What a step of a publication does to the token. -/
structure Published (s : State) (next : Option Cancelling) (token : Shared) : Prop where
  owned : token.delivery = s.token.delivery
  record : token.record = s.token.record ∨
    s.token.record = none ∧ ∃ reason, token.record = some reason ∧ s.scope.verdict = some reason
  goesOn : ∀ at_, next = some at_ → s.scope.verdict = some at_.reason ∧ atFlag at_ = false
  done : next = none → token.record = s.scope.verdict

/-- Who publishes the verdict publishes it, whoever published it before. -/
theorem Agreed.publish (h : Agreed s) {at_ : Cancelling} {next : Option Cancelling} {token : Shared}
    (hreason : s.scope.verdict = some at_.reason) (hflag : atFlag at_ = false)
    (hstep : at_.step s.token = (next, token)) : Published s next token := by
  cases at_ with
  | reading reason at_ =>
    have hquiet : ∀ {at' : Cancelling}, next = some at' → token = s.token →
        s.scope.verdict = some at'.reason → atFlag at' = false → Published s next token := by
      rintro at' rfl rfl hverdict hflag'
      exact ⟨rfl, .inl rfl, fun _ hat => Option.some.inj hat ▸ ⟨hverdict, hflag'⟩, nofun⟩
    cases at_ with
    | state =>
      unfold Cancelling.step Reading.step at hstep
      dsimp only at hstep
      cases hrecord : s.token.record with
      | none =>
        rw [hrecord] at hstep
        obtain ⟨rfl, rfl⟩ := Prod.mk.inj hstep
        exact hquiet rfl rfl hreason rfl
      | some found =>
        -- What it found is the verdict already.
        rw [hrecord] at hstep
        obtain ⟨rfl, rfl⟩ := Prod.mk.inj hstep
        exact hquiet rfl rfl (h.record found hrecord) rfl
    | delivery =>
      unfold Cancelling.step Reading.step at hstep
      rw [h.owned] at hstep
      obtain ⟨rfl, rfl⟩ := Prod.mk.inj hstep
      exact hquiet rfl rfl hreason rfl
    | closing => cases hflag
  | exchange reason =>
    obtain ⟨rfl, rfl⟩ := Prod.mk.inj hstep
    refine ⟨Tokens.exchange_delivery _ _, ?_, nofun, fun _ => ?_⟩ <;> unfold Shared.exchange <;> split
    · rename_i hnone
      exact .inr ⟨hnone, reason, rfl, hreason⟩
    · exact .inl rfl
    · exact hreason.symm
    · rename_i found hfound
      rw [hfound]
      exact (h.record found hfound).symm

/-- Once published, a reason stays. -/
theorem Published.keep {next : Option Cancelling} {token : Shared} (h : Published s next token)
    {reason : Reason} (hrecord : s.token.record = some reason) : token.record = some reason := by
  rcases h.record with hsame | ⟨hnone, -⟩
  · exact hsame.trans hrecord
  · exact absurd (hnone.symm.trans hrecord) nofun

/-! ## Cancelling -/

/-- A party that cancels goes on, or has cancelled. -/
def State.put (s : State) (who : Party) (pc : Option CancelPc) : State :=
  match who with
  | .exec => s.goto (pc.elim .dropped .dropping)
  | .call id => s.setCall id pc

theorem put_view_self (s : State) (who : Party) (pc : Option CancelPc) :
    (s.put who pc).view who = pc.elim {} CancelPc.view := by
  cases who with
  | exec => cases pc <;> rfl
  | call id =>
    show (Function.update s.calls id pc id).elim {} CancelPc.view = _
    rw [Function.update_self]

theorem put_view_other (s : State) {who party : Party} (pc : Option CancelPc) (h : party ≠ who) :
    (s.put who pc).view party = s.view party := by
  cases who with
  | exec =>
    cases party with
    | exec => exact absurd rfl h
    | call id => rfl
  | call id =>
    cases party with
    | exec => rfl
    | call other =>
      show (Function.update s.calls id pc other).elim {} CancelPc.view = _
      rw [Function.update_of_ne fun heq => h (congrArg Party.call heq)]
      rfl

/-- Whoever cancels polls nothing, and answers for no poll. -/
theorem cancel_view (pc : CancelPc) :
    pc.view.polls = false ∧ pc.view.completes = false ∧ pc.view.ends = none ∧
      pc.view.knows = none := by
  cases pc <;> exact ⟨rfl, rfl, rfl, rfl⟩

theorem put_cancels (s : State) (who : Party) (pc : Option CancelPc)
    (hview : who = .exec → s.exec.view.polls = false ∧ s.exec.view.completes = false) :
    (s.put who pc).exec.view.polls = s.exec.view.polls ∧
      (s.put who pc).exec.view.completes = s.exec.view.completes ∧
      (∀ state, (s.put who pc).exec.view.ends = some state → s.exec.view.ends = some state) ∧
      ((s.put who pc).exec = .unreachable → s.exec = .unreachable) := by
  cases who with
  | call id => exact ⟨rfl, rfl, fun _ h => h, fun h => h⟩
  | exec =>
    obtain ⟨hpolls, hcompletes⟩ := hview rfl
    rw [hpolls, hcompletes]
    cases pc with
    | none => exact ⟨rfl, rfl, fun _ => nofun, fun h => by cases h⟩
    | some pc =>
      obtain ⟨hp, hc, he, -⟩ := cancel_view pc
      refine ⟨hp, hc, fun state hends => ?_, fun h => by cases h⟩
      exact absurd (he.symm.trans hends) nofun

@[simp] theorem put_scope (s : State) (who : Party) (pc : Option CancelPc) :
    (s.put who pc).scope = s.scope := by cases who <;> rfl

@[simp] theorem put_token (s : State) (who : Party) (pc : Option CancelPc) :
    (s.put who pc).token = s.token := by cases who <;> rfl

@[simp] theorem put_holder (s : State) (who : Party) (pc : Option CancelPc) :
    (s.put who pc).holder = s.holder := by cases who <;> rfl

@[simp] theorem put_destroyed (s : State) (who : Party) (pc : Option CancelPc) :
    (s.put who pc).destroyed = s.destroyed := by cases who <;> rfl

@[simp] theorem put_last (s : State) (who : Party) (pc : Option CancelPc) :
    (s.put who pc).last = s.last := by cases who <;> rfl

@[simp] theorem put_returned (s : State) (who : Party) (pc : Option CancelPc) :
    (s.put who pc).returned = s.returned := by cases who <;> rfl

/-- A step of a cancellation that changes at most the scope, the lock and the token. -/
structure CancelMove (s t : State) (who : Party) (pc : CancelPc) (next : Option CancelPc) :
    Prop where
  exec : t.exec = s.exec := by rfl
  calls : t.calls = s.calls := by rfl
  last : t.last = s.last := by rfl
  returned : t.returned = s.returned := by rfl
  owned : t.token.delivery = s.token.delivery := by rfl
  locks : t.holder = s.holder ∧ (next.elim {} CancelPc.view).locked = pc.view.locked ∨
    s.holder = none ∧ t.holder = some who ∧ (next.elim {} CancelPc.view).locked = true ∨
      pc.view.locked = true ∧ t.holder = none ∧ (next.elim {} CancelPc.view).locked = false
  carries : Carries s (t.put who next) who
  verdict : ∀ reason, s.scope.verdict = some reason → t.scope.verdict = some reason := by
    exact fun _ h => h
  polling : t.scope.isPolling = s.scope.isPolling := by rfl
  completed : t.scope = .completed → s.scope = .completed := by exact id
  record : t.token.record = s.token.record ∨
    s.token.record = none ∧ ∃ reason, t.token.record = some reason ∧ t.scope.verdict = some reason :=
      by exact .inl rfl
  telling : ∀ reason ∈ (next.elim {} CancelPc.view).telling, t.scope.verdict = some reason
  flag : (next.elim {} CancelPc.view).flag = false := by rfl

theorem CancelMove.move {pc : CancelPc} {next : Option CancelPc} (hmove : CancelMove s t who pc next)
    (h : Agreed s) (hview : s.view who = pc.view) : Move s (t.put who next) who := by
  have hself := put_view_self t who next
  obtain ⟨hp, hc, -, hk⟩ := cancel_view pc
  obtain ⟨hpolls, hcompletes, hends, hreachable⟩ := put_cancels t who next fun hwho => by
    subst hwho
    have hview : s.exec.view = pc.view := hview
    rw [hmove.exec, hview]
    exact ⟨hp, hc⟩
  refine ⟨fun party hparty => ?_, ?_, ?_, hmove.carries, ?_, ?_, ?_, ?_, fun reason hknows => ?_, ?_,
    fun state hstate => ?_, fun hun => ?_, fun hcompleted => ?_, fun r hr => ?_⟩
  · rw [put_view_other t next hparty]
    unfold State.view
    rw [hmove.exec, hmove.calls]
  · rw [put_token]
    exact hmove.owned
  · unfold Locks
    rw [hself, hview, put_holder]
    exact hmove.locks
  · rw [put_scope]
    exact hmove.verdict
  · rw [put_token, put_scope]
    exact hmove.record
  · rw [hself, put_scope]
    exact hmove.telling
  · rw [hself]
    exact hmove.flag
  · rw [hself] at hknows
    cases next with
    | none => cases hknows
    | some next => exact absurd ((cancel_view next).2.2.2.symm.trans hknows) nofun
  · rw [put_scope, hpolls, hmove.polling, hmove.exec]
    exact h.polling
  · rw [put_last, hmove.last]
    exact h.ends state (hmove.exec ▸ hends state hstate)
  · exact h.reachable (hmove.exec ▸ hreachable hun)
  · rw [put_scope] at hcompleted
    rw [put_token, hcompletes, hmove.exec]
    rcases hmove.record with hsame | ⟨-, reason, hreason, hverdict⟩
    · rw [hsame]
      exact h.completed (hmove.completed hcompleted)
    · rw [hcompleted] at hverdict
      exact .inl (hreason.trans hverdict.symm)
  · rw [put_returned, hmove.returned] at hr
    exact .inl hr

theorem Agreed.stepCancel (h : Agreed s) {pc : CancelPc} {next : Option CancelPc}
    (hview : s.view who = pc.view) (hstep : stepCancel s who pc = some (next, t)) :
    CancelMove s t who pc next ∧ Keeps s t := by
  have hself := put_view_self t who next
  cases pc with
  | read reason at_ =>
    unfold Owned.stepCancel at hstep
    dsimp only at hstep
    split at hstep <;> obtain ⟨rfl, rfl⟩ := Prod.mk.inj (Option.some.inj hstep)
    all_goals
      refine ⟨{ locks := .inl ⟨rfl, rfl⟩, telling := nofun, carries := ?_ }, fun _ => rfl⟩
      exact .stays (by rw [put_scope]) (by rw [hself, hview]; rfl) (put_destroyed ..)
  | acquire reason =>
    unfold Owned.stepCancel at hstep
    dsimp only at hstep
    split at hstep
    · rename_i hfree
      obtain ⟨rfl, rfl⟩ := Prod.mk.inj (Option.some.inj hstep)
      refine ⟨{ locks := .inr (.inl ⟨hfree, rfl, rfl⟩), telling := nofun, carries := ?_ }, fun _ => rfl⟩
      exact .stays (by rw [put_scope]) (by rw [hself, hview]; rfl) (put_destroyed ..)
    · cases hstep
  | held reason =>
    unfold Owned.stepCancel at hstep
    dsimp only at hstep
    split at hstep <;> rename_i hscope <;>
    obtain ⟨rfl, rfl⟩ := Prod.mk.inj (Option.some.inj hstep)
    · -- The future is taken out of the scope.
      refine ⟨{
        locks := .inl ⟨rfl, rfl⟩
        verdict := fun _ hverdict => by rw [hscope] at hverdict; cases hverdict
        polling := by rw [hscope]; rfl
        completed := nofun
        telling := fun found hfound => by rw [List.mem_singleton.mp hfound]; rfl
        carries := .takes hscope (by rw [put_scope]; exact nofun) (by rw [hself]; rfl)
          (put_destroyed ..) }, fun hterminal => ?_⟩
      rw [hscope] at hterminal
      cases hterminal
    · rename_i cancellation
      refine ⟨{
        locks := .inl ⟨rfl, rfl⟩
        verdict := fun found hverdict => by
          rw [hscope] at hverdict
          have hverdict : cancellation = some found := hverdict
          rw [hverdict]
          rfl
        polling := by rw [hscope]; rfl
        completed := nofun
        telling := fun found hfound => by rw [List.mem_singleton.mp hfound]; rfl
        carries := ?_ }, fun hterminal => ?_⟩
      · refine .stays ?_ (by rw [hself, hview]; rfl) (put_destroyed ..)
        rw [put_scope, hscope]
        exact ⟨nofun, nofun⟩
      · rw [hscope] at hterminal
        cases hterminal
    · refine ⟨{
        locks := .inl ⟨rfl, rfl⟩
        telling := fun found hfound => by rw [List.mem_singleton.mp hfound, hscope]; rfl
        carries := ?_ }, fun _ => rfl⟩
      exact .stays (by rw [put_scope]) (by rw [hself, hview]; rfl) (put_destroyed ..)
    · refine ⟨{
        locks := .inl ⟨rfl, rfl⟩
        telling := fun found hfound => by rw [List.mem_singleton.mp hfound, hscope]; rfl
        carries := ?_ }, fun _ => rfl⟩
      exact .stays (by rw [put_scope]) (by rw [hself, hview]; rfl) (put_destroyed ..)
  | release work recorded =>
    obtain ⟨rfl, rfl⟩ := Prod.mk.inj (Option.some.inj hstep)
    have htelling := h.telling who recorded (by rw [hview]; exact List.mem_singleton_self _)
    refine ⟨{
      locks := .inr (.inr ⟨rfl, rfl, rfl⟩)
      telling := fun found hfound => by rw [List.mem_singleton.mp hfound]; exact htelling
      carries := ?_ }, fun _ => rfl⟩
    exact .stays (by rw [put_scope]) (by rw [hself, hview]; rfl) (put_destroyed ..)
  | publish work at_ =>
    have htelling := h.telling who at_.reason (by rw [hview]; exact List.mem_singleton_self _)
    have hflag : atFlag at_ = false := by
      have hflag := h.flag who
      rw [hview] at hflag
      exact hflag
    unfold Owned.stepCancel at hstep
    dsimp only at hstep
    split at hstep <;> rename_i hpublish <;>
    obtain ⟨rfl, rfl⟩ := Prod.mk.inj (Option.some.inj hstep) <;>
    have hpublished := h.publish htelling hflag hpublish
    · rename_i at' token
      obtain ⟨hreason, hflag'⟩ := hpublished.goesOn at' rfl
      refine ⟨{
        owned := hpublished.owned
        locks := .inl ⟨rfl, rfl⟩
        record := hpublished.record
        telling := fun found hfound => by rw [List.mem_singleton.mp hfound]; exact hreason
        flag := hflag'
        carries := ?_ }, fun _ => rfl⟩
      exact .stays (by rw [put_scope]) (by rw [hself, hview]; rfl) (put_destroyed ..)
    · refine ⟨{
        owned := hpublished.owned
        locks := .inl ⟨rfl, rfl⟩
        record := hpublished.record
        telling := nofun
        carries := ?_ }, fun _ => rfl⟩
      exact .stays (by rw [put_scope]) (by rw [hself, hview]; rfl) (put_destroyed ..)
  | retire work =>
    obtain ⟨rfl, rfl⟩ := Prod.mk.inj (Option.some.inj hstep)
    have hwork : (s.view who).work = work := by rw [hview]; rfl
    have hlocked : (s.view who).locked = false := by rw [hview]; rfl
    cases work with
    | false =>
      refine ⟨{ locks := .inl ⟨rfl, rfl⟩, telling := nofun, carries := ?_ }, fun _ => rfl⟩
      exact .stays (by rw [put_scope]; rfl) (by rw [hself, hwork]; rfl) (put_destroyed ..)
    | true =>
      refine ⟨{ locks := .inl ⟨rfl, rfl⟩, telling := nofun, carries := ?_ }, fun _ => rfl⟩
      exact .destroys hwork (by rw [hself]; rfl) (put_scope ..) hlocked (put_destroyed ..)

/-! ## Polling -/

/-- A step of the owner of the execution; what is not given stays as it is. -/
structure ExecMove (s t : State) (old : ExecPc) : Prop where
  calls : t.calls = s.calls := by rfl
  owned : t.token.delivery = s.token.delivery := by rfl
  locks : t.holder = s.holder ∧ t.exec.view.locked = old.view.locked ∨
    s.holder = none ∧ t.holder = some .exec ∧ t.exec.view.locked = true ∨
      old.view.locked = true ∧ t.holder = none ∧ t.exec.view.locked = false
  carries : Carries s t .exec
  verdict : ∀ reason, s.scope.verdict = some reason → t.scope.verdict = some reason := by
    exact fun _ h => h
  record : t.token.record = s.token.record ∨
    s.token.record = none ∧ ∃ reason, t.token.record = some reason ∧ t.scope.verdict = some reason :=
      by exact .inl rfl
  telling : ∀ reason ∈ t.exec.view.telling, t.scope.verdict = some reason := by exact nofun
  flag : t.exec.view.flag = false := by rfl
  knows : ∀ reason, t.exec.view.knows = some reason → t.token.record = some reason := by
    exact fun _ => nofun
  polling : t.scope.isPolling = t.exec.view.polls
  ends : ∀ state, t.exec.view.ends = some state → t.last = state := by exact fun _ => nofun
  reachable : t.exec ≠ .unreachable := by exact nofun
  completed : t.scope = .completed → t.token.record = some .scopeFinished ∨
    t.token.record = none ∧ t.exec.view.completes = true
  returned : ∀ r ∈ t.returned, r ∈ s.returned ∨ r.Agrees := by exact fun _ h => .inl h

theorem ExecMove.move {old : ExecPc} (hmove : ExecMove s t old) (hpc : s.exec = old) :
    Move s t .exec where
  others := fun party hparty => by
    cases party with
    | exec => exact absurd rfl hparty
    | call id => exact congrArg (fun calls => (calls id).elim {} CancelPc.view) hmove.calls
  owned := hmove.owned
  locks := by
    subst hpc
    exact hmove.locks
  carries := hmove.carries
  verdict := hmove.verdict
  record := hmove.record
  telling := hmove.telling
  flag := hmove.flag
  knows := hmove.knows
  polling := hmove.polling
  ends := hmove.ends
  reachable := hmove.reachable
  completed := hmove.completed
  returned := hmove.returned

/-- The future stays with the owner of the execution, or away from it. -/
theorem stays_exec {old : ExecPc} (hpc : s.exec = old) (hscope : t.scope = s.scope)
    (hwork : t.exec.view.work = old.view.work) (hgone : t.destroyed = s.destroyed) :
    Carries s t .exec :=
  .stays (by rw [hscope]) (by subst hpc; exact hwork) hgone

theorem Agreed.not_completes (h : Agreed s) (hview : s.exec.view.completes = false)
    (hscope : s.scope = .completed) : s.token.record = some .scopeFinished := by
  refine (h.completed hscope).resolve_right fun hnone => ?_
  rw [hview] at hnone
  cases hnone.2

/-- The reasons that matter are published or the verdict. -/
theorem Agreed.exec_telling (h : Agreed s) {old : ExecPc} (hpc : s.exec = old) {reason : Reason}
    (hmem : reason ∈ old.view.telling) : s.scope.verdict = some reason :=
  h.telling .exec reason (by subst hpc; exact hmem)

theorem Agreed.exec_knows (h : Agreed s) {old : ExecPc} (hpc : s.exec = old) {reason : Reason}
    (hknows : old.view.knows = some reason) : s.token.record = some reason :=
  h.knows .exec reason (by subst hpc; exact hknows)

theorem Agreed.exec_ends (h : Agreed s) {old : ExecPc} (hpc : s.exec = old) {state : ScopeState}
    (hends : old.view.ends = some state) : s.last = state :=
  h.ends state (by subst hpc; exact hends)

theorem Agreed.exec_polling (h : Agreed s) {old : ExecPc} (hpc : s.exec = old) :
    s.scope.isPolling = old.view.polls := by
  rw [h.polling, hpc]

theorem Agreed.exec_flag (h : Agreed s) {old : ExecPc} (hpc : s.exec = old) :
    old.view.flag = false := by
  subst hpc
  exact h.flag .exec

/-- The owner goes on without touching anything but the lock. -/
theorem Agreed.go (h : Agreed s) {old : ExecPc} (hpc : s.exec = old) (pc : ExecPc)
    (holder : Option Party)
    (hlocks : holder = s.holder ∧ pc.view.locked = old.view.locked ∨
      s.holder = none ∧ holder = some .exec ∧ pc.view.locked = true ∨
        old.view.locked = true ∧ holder = none ∧ pc.view.locked = false)
    (hwork : pc.view.work = old.view.work)
    (htelling : ∀ reason ∈ pc.view.telling, reason ∈ old.view.telling)
    (hflag : pc.view.flag = false) (hknows : pc.view.knows = old.view.knows)
    (hpolls : pc.view.polls = old.view.polls) (hcompletes : pc.view.completes = old.view.completes)
    (hends : ∀ state, pc.view.ends = some state → old.view.ends = some state)
    (hreachable : pc ≠ .unreachable) :
    Move s { s with holder, exec := pc } .exec := by
  have hmove : ExecMove s { s with holder, exec := pc } old :=
    { calls := rfl
      owned := rfl
      locks := hlocks
      carries := stays_exec hpc rfl hwork rfl
      verdict := fun _ h => h
      record := .inl rfl
      telling := fun reason hmem => h.exec_telling hpc (htelling reason hmem)
      flag := hflag
      knows := fun reason hk => h.exec_knows hpc (hknows ▸ hk)
      polling := (h.exec_polling hpc).trans hpolls.symm
      ends := fun state he => h.exec_ends hpc (hends state he)
      reachable := hreachable
      completed := fun hscope => (h.completed hscope).imp id fun hnone => ⟨hnone.1, by
        show pc.view.completes = true
        rw [hcompletes, ← hpc]
        exact hnone.2⟩
      returned := fun _ hr => .inl hr }
  exact hmove.move hpc

/-- The owner of the execution publishes. -/
theorem Agreed.goTelling (h : Agreed s) {old : ExecPc} (hpc : s.exec = old) (pc : ExecPc)
    {at_ : Cancelling}
    (hat : at_.reason ∈ old.view.telling) (hflag : atFlag at_ = old.view.flag)
    {next : Option Cancelling} {token : Shared} (hstep : at_.step s.token = (next, token))
    (hlocked : pc.view.locked = old.view.locked) (hwork : pc.view.work = old.view.work)
    (htelling : ∀ reason ∈ pc.view.telling,
      reason ∈ old.view.telling ∨ ∃ at', next = some at' ∧ at'.reason = reason)
    (hgoesOn : ∀ at', next = some at' → pc.view.flag = atFlag at')
    (hdone : next = none → pc.view.flag = false)
    (hknows : ∀ reason, pc.view.knows = some reason →
      old.view.knows = some reason ∨ next = none ∧ reason ∈ old.view.telling)
    (hpolls : pc.view.polls = old.view.polls)
    (hcompletes : next ≠ none → pc.view.completes = old.view.completes)
    (hends : ∀ state, pc.view.ends = some state → old.view.ends = some state)
    (hreachable : pc ≠ .unreachable) :
    Move s { s with token, exec := pc } .exec := by
  have hreason := h.exec_telling hpc hat
  have hpublished := h.publish hreason (hflag.trans (h.exec_flag hpc)) hstep
  have hmove : ExecMove s { s with token, exec := pc } old :=
    { calls := rfl
      owned := hpublished.owned
      locks := .inl ⟨rfl, hlocked⟩
      carries := stays_exec hpc rfl hwork rfl
      verdict := fun _ h => h
      record := hpublished.record
      telling := fun reason hmem => by
        rcases htelling reason hmem with hold | ⟨at', hnext, rfl⟩
        · exact h.exec_telling hpc hold
        · exact (hpublished.goesOn at' hnext).1
      flag := by
        cases next with
        | none => exact hdone rfl
        | some at' => exact (hgoesOn at' rfl).trans (hpublished.goesOn at' rfl).2
      knows := fun reason hk => by
        rcases hknows reason hk with hold | ⟨hnone, hmem⟩
        · exact hpublished.keep (h.exec_knows hpc hold)
        · exact (hpublished.done hnone).trans (h.exec_telling hpc hmem)
      polling := (h.exec_polling hpc).trans hpolls.symm
      ends := fun state he => h.exec_ends hpc (hends state he)
      reachable := hreachable
      completed := fun hscope => by
        cases hnext : next with
        | none =>
          -- The completion is published now.
          refine .inl ((hpublished.done hnext).trans ?_)
          have hscope : s.scope = .completed := hscope
          rw [hscope]
          rfl
        | some at' =>
          rcases h.completed hscope with hrecord | ⟨hnone, hcompleting⟩
          · exact .inl (hpublished.keep hrecord)
          · rcases hpublished.record with hsame | ⟨-, found, hfound, hverdict⟩
            · refine .inr ⟨hsame.trans hnone, ?_⟩
              show pc.view.completes = true
              rw [hcompletes (by rw [hnext]; exact nofun), ← hpc]
              exact hcompleting
            · have hscope : s.scope = .completed := hscope
              rw [hscope] at hverdict
              exact .inl (hfound.trans hverdict.symm)
      returned := fun _ hr => .inl hr }
  exact hmove.move hpc

/-- The future is destroyed, and the poll goes to its lease. -/
theorem Agreed.goDestroy (h : Agreed s) {old : ExecPc} (hpc : s.exec = old) (result : PollResult)
    (hwork : old.view.work = true) (hlocked : old.view.locked = false)
    (hcompletes : old.view.completes = false)
    (hknows : ∀ reason, result.view.knows = some reason → old.view.knows = some reason)
    (hpolls : decide (result = .panicked) = old.view.polls)
    (hends : ∀ state, result.view.ends = some state → old.view.ends = some state) :
    Move s ((s.destroy .exec).goto (.lease result)) .exec := by
  have hview : (s.view .exec).work = true ∧ (s.view .exec).locked = false := by
    subst hpc
    exact ⟨hwork, hlocked⟩
  have hresult : result.view.work = false ∧ result.view.locked = false ∧ result.view.flag = false ∧
      result.view.telling = [] := by cases result <;> exact ⟨rfl, rfl, rfl, rfl⟩
  have hmove : ExecMove s ((s.destroy .exec).goto (.lease result)) old :=
    { calls := rfl
      owned := rfl
      locks := .inl ⟨rfl, hresult.2.1.trans hlocked.symm⟩
      carries := .destroys hview.1 hresult.1 rfl hview.2 rfl
      verdict := fun _ h => h
      record := .inl rfl
      telling := fun reason hmem => by
        have hmem : reason ∈ result.view.telling := hmem
        rw [hresult.2.2.2] at hmem
        cases hmem
      flag := hresult.2.2.1
      knows := fun reason hk => h.exec_knows hpc (hknows reason hk)
      polling := (h.exec_polling hpc).trans hpolls.symm
      ends := fun state he => h.exec_ends hpc (hends state he)
      reachable := nofun
      completed := fun hscope => .inl (h.not_completes (by rw [hpc]; exact hcompletes) hscope)
      returned := fun _ hr => .inl hr }
  exact hmove.move hpc

/-- The first look of a poll at the scope. -/
theorem Agreed.entry (h : Agreed s) (hpc : s.exec = .entry) {came : Came}
    (hstep : stepExec s came = some t) : Move s t .exec ∧ Keeps s t := by
  have hcompleted : s.scope = .completed → s.token.record = some .scopeFinished :=
    h.not_completes (by rw [hpc]; rfl)
  have hpolling : s.scope.isPolling = false := h.exec_polling hpc
  unfold stepExec at hstep
  rw [hpc] at hstep
  dsimp only at hstep
  split at hstep <;> rename_i hscope <;> obtain rfl := Option.some.inj hstep
  · rename_i reason
    have hmove : ExecMove s { s with last := s.scope, exec := .told reason } .entry :=
      { locks := .inl ⟨rfl, rfl⟩
        carries := stays_exec hpc rfl rfl rfl
        polling := hpolling
        telling := fun found hfound => by rw [List.mem_singleton.mp hfound, hscope]; rfl
        ends := fun state hstate => hscope.trans (Option.some.inj hstate)
        completed := fun hc => .inl (hcompleted hc) }
    exact ⟨hmove.move hpc, fun _ => rfl⟩
  · have hmove : ExecMove s { s with last := s.scope, exec := .again } .entry :=
      { locks := .inl ⟨rfl, rfl⟩
        carries := stays_exec hpc rfl rfl rfl
        polling := hpolling
        completed := fun hc => .inl (hcompleted hc) }
    exact ⟨hmove.move hpc, fun _ => rfl⟩
  · have hmove : ExecMove s { s with last := s.scope, exec := .again } .entry :=
      { locks := .inl ⟨rfl, rfl⟩
        carries := stays_exec hpc rfl rfl rfl
        polling := hpolling
        completed := fun hc => .inl (hcompleted hc) }
    exact ⟨hmove.move hpc, fun _ => rfl⟩
  · -- The future is taken out to be polled.
    have hmove : ExecMove s
        { s with last := .polling none, scope := .polling none, exec := .taken } .entry :=
      { locks := .inl ⟨rfl, rfl⟩
        carries := .takes hscope nofun rfl rfl
        verdict := fun _ hverdict => by rw [hscope] at hverdict; cases hverdict
        polling := rfl
        completed := nofun }
    refine ⟨hmove.move hpc, fun hterminal => ?_⟩
    rw [hscope] at hterminal
    cases hterminal

/-- The last look of a poll at the scope: it is parked again, or it is terminal. -/
theorem Agreed.exit_ (h : Agreed s) {ready : Bool} (hpc : s.exec = .exit_ ready) {came : Came}
    (hstep : stepExec s came = some t) : Move s t .exec ∧ Keeps s t := by
  have hpolling : s.scope.isPolling = true := h.exec_polling hpc
  have hwork : (s.view .exec).work = true := by
    show s.exec.view.work = true
    rw [hpc]
    rfl
  cases hscope : s.scope with
  | pending | cancelled _ | completed =>
    rw [hscope] at hpolling
    cases hpolling
  | polling cancellation =>
    unfold stepExec at hstep
    rw [hpc, hscope] at hstep
    dsimp only at hstep
    have hkeeps : ∀ t, Keeps s t := fun t hterminal => by
      rw [hscope] at hterminal
      cases hterminal
    have hspent : ∀ {found : Reason},
        s.scope.verdict = some found → cancellation = some found := fun hverdict => by
      rw [hscope] at hverdict
      exact hverdict
    split at hstep <;> rename_i hreason <;> obtain rfl := Option.some.inj hstep
    · rename_i ready _ _ reason
      have hmove : ExecMove s
          { s with
            last := .cancelled reason
            scope := .cancelled reason
            exec := .settled (some reason) } (.exit_ ready) :=
        { locks := .inl ⟨rfl, rfl⟩
          carries := .stays (by rw [hscope]; exact ⟨nofun, nofun⟩) (by rw [hwork]; rfl) rfl
          verdict := fun found hverdict => by
            rw [hspent hverdict, Option.some_or] at hreason
            exact hreason.symm
          telling := fun found hfound => by rw [List.mem_singleton.mp hfound]; rfl
          polling := rfl
          ends := fun state hstate => Option.some.inj hstate
          completed := nofun }
      exact ⟨hmove.move hpc, hkeeps _⟩
    · have hnone : cancellation = none := by
        cases cancellation with
        | none => rfl
        | some found => cases hreason
      have hrecord : s.token.record = none := by
        cases hrecord : s.token.record with
        | none => rfl
        | some found =>
          have hfound := hspent (h.record found hrecord)
          rw [hnone] at hfound
          cases hfound
      have hmove : ExecMove s
          { s with last := .completed, scope := .completed, exec := .settled none } (.exit_ true) :=
        { locks := .inl ⟨rfl, rfl⟩
          carries := .stays (by rw [hscope]; exact ⟨nofun, nofun⟩) (by rw [hwork]; rfl) rfl
          verdict := fun found hverdict => by
            have hfound := hspent hverdict
            rw [hnone] at hfound
            cases hfound
          telling := fun found hfound => by rw [List.mem_singleton.mp hfound]; rfl
          polling := rfl
          ends := fun state hstate => Option.some.inj hstate
          completed := fun _ => .inr ⟨hrecord, rfl⟩ }
      exact ⟨hmove.move hpc, hkeeps _⟩
    · have hnone : cancellation = none := by
        cases cancellation with
        | none => rfl
        | some found => cases hreason
      have hmove : ExecMove s
          { s with last := .pending, scope := .pending, exec := .parked } (.exit_ false) :=
        { locks := .inl ⟨rfl, rfl⟩
          carries := .gives hwork rfl rfl rfl
          verdict := fun found hverdict => by
            have hfound := hspent hverdict
            rw [hnone] at hfound
            cases hfound
          polling := rfl
          ends := fun state hstate => Option.some.inj hstate
          completed := nofun }
      exact ⟨hmove.move hpc, hkeeps _⟩

/-- The lease of a poll that panicked cancels the scope. -/
theorem Agreed.leased (h : Agreed s) {result : PollResult} (hpc : s.exec = .leased result)
    {came : Came} (hstep : stepExec s came = some t) : Move s t .exec ∧ Keeps s t := by
  have hcompleted : s.scope = .completed → s.token.record = some .scopeFinished :=
    h.not_completes (by rw [hpc]; cases result <;> rfl)
  have hresult : result.view.work = false ∧ result.view.flag = false ∧ result.view.polls = false := by
    cases result <;> exact ⟨rfl, rfl, rfl⟩
  have hwork : (s.view .exec).work = false := by
    show s.exec.view.work = false
    rw [hpc]
    exact hresult.1
  unfold stepExec at hstep
  rw [hpc] at hstep
  dsimp only at hstep
  cases hscope : s.scope with
  | polling cancellation =>
    rw [hscope] at hstep
    obtain rfl := Option.some.inj hstep
    have hmove : ExecMove s
        { s with
          scope := .cancelled (cancellation.getD (dropReason s.token))
          exec := .release result (some (cancellation.getD (dropReason s.token))) }
        (.leased result) :=
      { calls := rfl
        owned := rfl
        locks := .inl ⟨rfl, rfl⟩
        carries := .stays (by rw [hscope]; exact ⟨nofun, nofun⟩) (by rw [hwork]; exact hresult.1) rfl
        record := .inl rfl
        verdict := fun found hverdict => by
          rw [hscope] at hverdict
          have hfound : cancellation = some found := hverdict
          rw [hfound]
          rfl
        telling := fun found hfound => by
          rw [List.mem_singleton.mp hfound]
          rfl
        flag := hresult.2.1
        knows := fun reason hk => h.exec_knows hpc hk
        polling := hresult.2.2.symm
        ends := fun state he => h.exec_ends hpc he
        reachable := nofun
        completed := nofun
        returned := fun _ hr => .inl hr }
    refine ⟨hmove.move hpc, fun hterminal => ?_⟩
    rw [hscope] at hterminal
    cases hterminal
  | pending | cancelled _ | completed =>
    rw [hscope] at hstep
    obtain rfl := Option.some.inj hstep
    have hmove : ExecMove s (s.goto (.release result none)) (.leased result) :=
      { calls := rfl
        owned := rfl
        locks := .inl ⟨rfl, rfl⟩
        carries := stays_exec hpc rfl rfl rfl
        verdict := fun _ h => h
        record := .inl rfl
        telling := nofun
        flag := hresult.2.1
        knows := fun reason hk => h.exec_knows hpc hk
        polling := by
          show s.scope.isPolling = result.view.polls
          rw [hscope]
          exact hresult.2.2.symm
        ends := fun state he => h.exec_ends hpc he
        reachable := nofun
        completed := fun hc => .inl (hcompleted hc)
        returned := fun _ hr => .inl hr }
    exact ⟨hmove.move hpc, fun _ => rfl⟩

/-- The poll returns, with what it answers for. -/
theorem Agreed.goReturn (h : Agreed s) {old : ExecPc} (hpc : s.exec = old) (result : PollResult)
    (holder : Option Party) {token : Shared}
    (hlocks : holder = s.holder ∧ old.view.locked = false ∨ old.view.locked = true ∧ holder = none)
    (hwork : old.view.work = false) (hpolls : old.view.polls = false)
    (hcompletes : old.view.completes = false) (hends : old.view.ends = result.view.ends)
    (hknows : old.view.knows = result.view.knows)
    (howned : token.delivery = s.token.delivery)
    (hpublished : token.record = s.token.record ∨
      s.token.record = none ∧ ∃ reason, token.record = some reason ∧ s.scope.verdict = some reason) :
    Move s ({ s with holder, token }.return_ result) .exec := by
  have hkeep : ∀ {reason}, s.token.record = some reason → token.record = some reason :=
    fun hold => by
      rcases hpublished with hsame | ⟨hnone, -⟩
      · exact hsame.trans hold
      · exact absurd (hnone.symm.trans hold) nofun
  have hrecord : ∀ {reason}, result.view.knows = some reason → token.record = some reason :=
    fun hk => hkeep (h.exec_knows hpc (hknows.trans hk))
  have hlast : ∀ {state}, result.view.ends = some state → s.last = state :=
    fun he => h.exec_ends hpc (hends.trans he)
  have hmove : ExecMove s ({ s with holder, token }.return_ result) old :=
    { calls := rfl
      owned := howned
      locks := by
        rcases hlocks with ⟨rfl, hlocked⟩ | ⟨hlocked, rfl⟩
        · exact .inl ⟨rfl, hlocked.symm⟩
        · exact .inr (.inr ⟨hlocked, rfl, rfl⟩)
      carries := stays_exec hpc rfl hwork.symm rfl
      verdict := fun _ h => h
      record := hpublished
      telling := nofun
      flag := rfl
      knows := fun _ => nofun
      polling := (h.exec_polling hpc).trans hpolls
      ends := fun _ => nofun
      reachable := nofun
      completed := fun hc =>
        .inl (hkeep (h.not_completes (by rw [hpc]; exact hcompletes) hc))
      returned := fun r hr => by
        cases result with
        | panicked | unwound => exact .inl hr
        | pending =>
          have hlast := hlast rfl
          rcases List.mem_cons.mp hr with rfl | hold
          · refine .inr ⟨fun reason => ?_, fun reason hterminal => ?_⟩
            · rw [hlast]
              exact ⟨nofun, nofun⟩
            · rw [hlast] at hterminal
              cases hterminal
          · exact .inl hold
        | ready =>
          have hlast := hlast rfl
          rcases List.mem_cons.mp hr with rfl | hold
          · refine .inr ⟨fun reason => ?_, fun reason _ hverdict => ?_⟩
            · rw [hlast]
              exact ⟨nofun, nofun⟩
            · rw [hlast] at hverdict
              exact (hrecord rfl).trans hverdict
          · exact .inl hold
        | cancelled told =>
          have hlast := hlast rfl
          rcases List.mem_cons.mp hr with rfl | hold
          · refine .inr ⟨fun reason => ?_, fun reason _ hverdict => ?_⟩
            · rw [hlast]
              exact ⟨fun heq => by cases heq; rfl, fun heq => by cases heq; rfl⟩
            · rw [hlast] at hverdict
              exact (hrecord rfl).trans hverdict
          · exact .inl hold }
  exact hmove.move hpc

/-- The accesses of a poll up to the first turn of the future. -/
theorem Agreed.stepEntry (h : Agreed s) {came : Came} (hstep : stepExec s came = some t)
    (hpc : s.exec = .acquire ∨ (∃ reason, s.exec = .told reason) ∨
      (∃ reason at_, s.exec = .tell reason at_) ∨ s.exec = .again ∨ s.exec = .taken) :
    Move s t .exec ∧ t.scope = s.scope := by
  unfold stepExec at hstep
  rcases hpc with hpc | ⟨reason, hpc⟩ | ⟨reason, at_, hpc⟩ | hpc | hpc <;> rw [hpc] at hstep
  · dsimp only at hstep
    split at hstep
    · rename_i hfree
      obtain rfl := Option.some.inj hstep
      exact ⟨h.go hpc .entry (some .exec) (.inr (.inl ⟨hfree, rfl, rfl⟩)) rfl nofun rfl rfl rfl rfl
        (fun _ => nofun) nofun, rfl⟩
    · cases hstep
  · obtain rfl := Option.some.inj hstep
    refine ⟨h.go hpc (.tell reason (.reading reason .state)) none (.inr (.inr ⟨rfl, rfl, rfl⟩)) rfl
      (fun found hmem => ?_) rfl rfl rfl rfl (fun _ he => he) nofun, rfl⟩
    rcases List.mem_cons.mp hmem with rfl | hmem
    · exact List.mem_singleton_self _
    · exact hmem
  · have hat : at_.reason ∈ (ExecPc.tell reason at_).view.telling :=
      List.mem_cons_of_mem _ (List.mem_singleton_self _)
    dsimp only at hstep
    split at hstep <;> rename_i hpublish <;> obtain rfl := Option.some.inj hstep
    · rename_i at' token
      refine ⟨h.goTelling hpc (.tell reason at') hat rfl hpublish rfl rfl ?_ ?_ nofun
        (fun _ => nofun) rfl (fun _ => rfl) (fun _ he => he) nofun, rfl⟩
      · intro found hmem
        rcases List.mem_cons.mp hmem with rfl | hmem
        · exact .inl List.mem_cons_self
        · exact .inr ⟨at', rfl, (List.mem_singleton.mp hmem).symm⟩
      · intro at'' heq
        obtain rfl := Option.some.inj heq
        rfl
    · refine ⟨h.goTelling hpc (.lease (.cancelled reason)) hat rfl hpublish rfl rfl
        nofun nofun (fun _ => rfl) (fun found hk => .inr ⟨rfl, ?_⟩) rfl (fun hne => absurd rfl hne)
        (fun _ he => he) nofun, rfl⟩
      rw [← Option.some.inj hk]
      exact List.mem_cons_self
  · obtain rfl := Option.some.inj hstep
    exact ⟨h.go hpc (.lease .unwound) none (.inr (.inr ⟨rfl, rfl, rfl⟩)) rfl nofun rfl rfl
      rfl rfl (fun _ => nofun) nofun, rfl⟩
  · obtain rfl := Option.some.inj hstep
    exact ⟨h.go hpc .user none (.inr (.inr ⟨rfl, rfl, rfl⟩)) rfl nofun rfl rfl
      rfl rfl (fun _ => nofun) nofun, rfl⟩

/-- The turn of the future, and the way of its result to the terminal state. -/
theorem Agreed.stepWork (h : Agreed s) {came : Came} (hstep : stepExec s came = some t)
    (hpc : s.exec = .user ∨ (∃ ready, s.exec = .acquireExit ready) ∨ s.exec = .parked ∨
      s.exec = .unwinding) :
    Move s t .exec ∧ t.scope = s.scope := by
  unfold stepExec at hstep
  rcases hpc with hpc | ⟨ready, hpc⟩ | hpc | hpc <;> rw [hpc] at hstep
  · cases came with
    | ready =>
      obtain rfl := Option.some.inj hstep
      exact ⟨h.go hpc (.acquireExit true) s.holder (.inl ⟨rfl, rfl⟩) rfl nofun rfl rfl rfl rfl
        (fun _ => nofun) nofun, rfl⟩
    | pending =>
      obtain rfl := Option.some.inj hstep
      exact ⟨h.go hpc (.acquireExit false) s.holder (.inl ⟨rfl, rfl⟩) rfl nofun rfl rfl rfl rfl
        (fun _ => nofun) nofun, rfl⟩
    | panicked =>
      obtain rfl := Option.some.inj hstep
      exact ⟨h.go hpc .unwinding s.holder (.inl ⟨rfl, rfl⟩) rfl nofun rfl rfl rfl rfl
        (fun _ => nofun) nofun, rfl⟩
  · dsimp only at hstep
    split at hstep
    · rename_i hfree
      obtain rfl := Option.some.inj hstep
      exact ⟨h.go hpc (.exit_ ready) (some .exec) (.inr (.inl ⟨hfree, rfl, rfl⟩)) rfl nofun rfl rfl
        rfl rfl (fun _ => nofun) nofun, rfl⟩
    · cases hstep
  · obtain rfl := Option.some.inj hstep
    exact ⟨h.go hpc (.lease .pending) none (.inr (.inr ⟨rfl, rfl, rfl⟩)) rfl nofun rfl rfl
      rfl rfl (fun _ he => he) nofun, rfl⟩
  · obtain rfl := Option.some.inj hstep
    exact ⟨h.goDestroy hpc .panicked rfl rfl rfl (fun _ => nofun) rfl (fun _ => nofun), rfl⟩

/-- The publication of a terminal state, and the end of the future. -/
theorem Agreed.stepSettled (h : Agreed s) {came : Came} (hstep : stepExec s came = some t)
    (hpc : (∃ cancellation, s.exec = .settled cancellation) ∨
      (∃ cancellation at_, s.exec = .publish cancellation at_) ∨
      ∃ cancellation, s.exec = .retire cancellation) :
    Move s t .exec ∧ t.scope = s.scope := by
  unfold stepExec at hstep
  rcases hpc with ⟨cancellation, hpc⟩ | ⟨cancellation, at_, hpc⟩ | ⟨cancellation, hpc⟩ <;>
  rw [hpc] at hstep
  · obtain rfl := Option.some.inj hstep
    refine ⟨h.go hpc (.publish cancellation (.reading (ending cancellation) .state)) none
      (.inr (.inr ⟨rfl, rfl, rfl⟩)) rfl (fun found hmem => ?_) rfl rfl rfl rfl (fun _ he => he)
      nofun, rfl⟩
    rcases List.mem_cons.mp hmem with rfl | hmem
    · exact List.mem_singleton_self _
    · exact hmem
  · have hat : at_.reason ∈ (ExecPc.publish cancellation at_).view.telling :=
      List.mem_cons_of_mem _ (List.mem_singleton_self _)
    dsimp only at hstep
    split at hstep <;> rename_i hpublish <;> obtain rfl := Option.some.inj hstep
    · rename_i at' token
      refine ⟨h.goTelling hpc (.publish cancellation at') hat rfl hpublish rfl rfl ?_ ?_ nofun
        (fun _ => nofun) rfl (fun _ => rfl) (fun _ he => he) nofun, rfl⟩
      · intro found hmem
        rcases List.mem_cons.mp hmem with rfl | hmem
        · exact .inl List.mem_cons_self
        · exact .inr ⟨at', rfl, (List.mem_singleton.mp hmem).symm⟩
      · intro at'' heq
        obtain rfl := Option.some.inj heq
        rfl
    · refine ⟨h.goTelling hpc (.retire cancellation) hat rfl hpublish rfl rfl
        nofun nofun (fun _ => rfl) (fun found hk => .inr ⟨rfl, ?_⟩) rfl (fun hne => absurd rfl hne)
        (fun _ he => he) nofun, rfl⟩
      rw [← Option.some.inj hk]
      exact List.mem_cons_self
  · have houtcome : Move s ((s.destroy .exec).goto (.lease (outcome cancellation))) .exec := by
      cases cancellation <;>
      exact h.goDestroy hpc _ rfl rfl rfl (fun _ hk => hk) rfl (fun _ he => he)
    cases came with
    | ready | pending =>
      obtain rfl := Option.some.inj hstep
      exact ⟨houtcome, rfl⟩
    | panicked =>
      obtain rfl := Option.some.inj hstep
      exact ⟨h.goDestroy hpc .unwound rfl rfl rfl (fun _ => nofun) rfl (fun _ => nofun), rfl⟩

/-- The lease of a poll gives the lock back and publishes what it cancelled. -/
theorem Agreed.stepLease (h : Agreed s) {came : Came} (hstep : stepExec s came = some t)
    (hpc : (∃ result, s.exec = .lease result) ∨ (∃ result reason, s.exec = .release result reason) ∨
      ∃ result at_, s.exec = .abandon result at_) :
    Move s t .exec ∧ t.scope = s.scope := by
  unfold stepExec at hstep
  rcases hpc with ⟨result, hpc⟩ | ⟨result, reason, hpc⟩ | ⟨result, at_, hpc⟩ <;> rw [hpc] at hstep
  · dsimp only at hstep
    have hresult : result.view.work = false ∧ result.view.flag = false ∧
        result.view.completes = false ∧ result.view.telling = [] := by
      cases result <;> exact ⟨rfl, rfl, rfl, rfl⟩
    split at hstep
    · rename_i hfree
      obtain rfl := Option.some.inj hstep
      exact ⟨h.go hpc (.leased result) (some .exec) (.inr (.inl ⟨hfree, rfl, rfl⟩)) rfl
        (fun _ hmem => hmem) hresult.2.1 rfl rfl rfl (fun _ he => he) nofun, rfl⟩
    · cases hstep
  · have hresult : result.view.work = false ∧ result.view.polls = false ∧
        result.view.locked = false ∧ result.view.completes = false := by
      cases result <;> exact ⟨rfl, rfl, rfl, rfl⟩
    cases reason with
    | some reason =>
      obtain rfl := Option.some.inj hstep
      exact ⟨h.go hpc (.abandon result (.reading reason .state)) none
        (.inr (.inr ⟨rfl, rfl, hresult.2.2.1⟩)) rfl (fun _ hmem => hmem) rfl rfl rfl rfl
        (fun _ he => he) nofun, rfl⟩
    | none =>
      obtain rfl := Option.some.inj hstep
      exact ⟨h.goReturn hpc result none (.inr ⟨rfl, rfl⟩) hresult.1 hresult.2.1 hresult.2.2.2 rfl rfl
        rfl (.inl rfl), rfl⟩
  · have hresult : result.view.work = false ∧ result.view.polls = false ∧
        result.view.locked = false ∧ result.view.completes = false := by
      cases result <;> exact ⟨rfl, rfl, rfl, rfl⟩
    have hat : at_.reason ∈ (ExecPc.abandon result at_).view.telling := List.mem_singleton_self _
    dsimp only at hstep
    split at hstep <;> rename_i hpublish <;> obtain rfl := Option.some.inj hstep
    · rename_i at' token
      refine ⟨h.goTelling hpc (.abandon result at') hat rfl hpublish rfl rfl ?_ ?_ nofun
        (fun _ hk => .inl hk) rfl (fun _ => rfl) (fun _ he => he) nofun, rfl⟩
      · intro found hmem
        exact .inr ⟨at', rfl, (List.mem_singleton.mp hmem).symm⟩
      · intro at'' heq
        obtain rfl := Option.some.inj heq
        rfl
    · have hpublished := h.publish (h.exec_telling hpc hat)
        (h.exec_flag hpc : atFlag at_ = false) hpublish
      exact ⟨h.goReturn hpc result s.holder (.inl ⟨rfl, hresult.2.2.1⟩) hresult.1 hresult.2.1
        hresult.2.2.2 rfl rfl hpublished.owned hpublished.record, rfl⟩

/-- The drop of the execution chooses a reason and cancels. -/
theorem Agreed.stepDrop (h : Agreed s) {came : Came} (hstep : stepExec s came = some t)
    (hpc : s.exec = .dropState ∨ s.exec = .dropClosing ∨ ∃ at_, s.exec = .dropping at_) :
    Move s t .exec ∧ Keeps s t := by
  unfold stepExec at hstep
  rcases hpc with hpc | hpc | ⟨at_, hpc⟩ <;> rw [hpc] at hstep <;> dsimp only at hstep
  · split at hstep <;> obtain rfl := Option.some.inj hstep
    · rename_i reason _
      exact ⟨h.go hpc (.dropping (.read reason .state)) s.holder (.inl ⟨rfl, rfl⟩) rfl nofun rfl rfl
        rfl rfl (fun _ => nofun) nofun, fun _ => rfl⟩
    · exact ⟨h.go hpc .dropClosing s.holder (.inl ⟨rfl, rfl⟩) rfl nofun rfl rfl rfl rfl
        (fun _ => nofun) nofun, fun _ => rfl⟩
  · obtain rfl := Option.some.inj hstep
    exact ⟨h.go hpc (.dropping (.read _ .state)) s.holder (.inl ⟨rfl, rfl⟩) rfl nofun rfl rfl
      rfl rfl (fun _ => nofun) nofun, fun _ => rfl⟩
  · have hview : s.view .exec = at_.view := by
      show s.exec.view = _
      rw [hpc]
      rfl
    obtain ⟨⟨next, u⟩, hcancel, rfl⟩ := Option.map_eq_some_iff.mp hstep
    obtain ⟨hmove, hkeeps⟩ := h.stepCancel hview hcancel
    have hmoved := hmove.move h hview
    cases next with
    | some next => exact ⟨hmoved, hkeeps⟩
    | none => exact ⟨hmoved, hkeeps⟩

theorem keeps_of_eq (hscope : t.scope = s.scope) : Keeps s t := fun _ => hscope

theorem Agreed.stepExec (h : Agreed s) {came : Came} (hstep : stepExec s came = some t) :
    Agreed t ∧ Keeps s t := by
  have hcalm : Move s t .exec ∧ t.scope = s.scope → Agreed t ∧ Keeps s t :=
    fun hmove => ⟨h.move hmove.1, keeps_of_eq hmove.2⟩
  have hturn : Move s t .exec ∧ Keeps s t → Agreed t ∧ Keeps s t :=
    fun hmove => ⟨h.move hmove.1, hmove.2⟩
  cases hpc : s.exec with
  | idle | dropped | unreachable =>
    unfold Owned.stepExec at hstep
    rw [hpc] at hstep
    cases hstep
  | acquire => exact hcalm (h.stepEntry hstep (.inl hpc))
  | entry => exact hturn (h.entry hpc hstep)
  | told reason => exact hcalm (h.stepEntry hstep (.inr (.inl ⟨reason, hpc⟩)))
  | tell reason at_ => exact hcalm (h.stepEntry hstep (.inr (.inr (.inl ⟨reason, at_, hpc⟩))))
  | again => exact hcalm (h.stepEntry hstep (.inr (.inr (.inr (.inl hpc)))))
  | taken => exact hcalm (h.stepEntry hstep (.inr (.inr (.inr (.inr hpc)))))
  | user => exact hcalm (h.stepWork hstep (.inl hpc))
  | acquireExit ready => exact hcalm (h.stepWork hstep (.inr (.inl ⟨ready, hpc⟩)))
  | exit_ ready => exact hturn (h.exit_ hpc hstep)
  | parked => exact hcalm (h.stepWork hstep (.inr (.inr (.inl hpc))))
  | settled cancellation => exact hcalm (h.stepSettled hstep (.inl ⟨cancellation, hpc⟩))
  | publish cancellation at_ =>
    exact hcalm (h.stepSettled hstep (.inr (.inl ⟨cancellation, at_, hpc⟩)))
  | retire cancellation => exact hcalm (h.stepSettled hstep (.inr (.inr ⟨cancellation, hpc⟩)))
  | unwinding => exact hcalm (h.stepWork hstep (.inr (.inr (.inr hpc))))
  | lease result => exact hcalm (h.stepLease hstep (.inl ⟨result, hpc⟩))
  | leased result => exact hturn (h.leased hpc hstep)
  | release result reason => exact hcalm (h.stepLease hstep (.inr (.inl ⟨result, reason, hpc⟩)))
  | abandon result at_ => exact hcalm (h.stepLease hstep (.inr (.inr ⟨result, at_, hpc⟩)))
  | dropState => exact hturn (h.stepDrop hstep (.inl hpc))
  | dropClosing => exact hturn (h.stepDrop hstep (.inr (.inl hpc)))
  | dropping at_ => exact hturn (h.stepDrop hstep (.inr (.inr ⟨at_, hpc⟩)))

/-! ## Runs -/

theorem Agreed.next (h : Agreed s) {a : Action} (hnext : next s a = some t) :
    Agreed t ∧ Keeps s t := by
  cases a with
  | close =>
    obtain rfl := Option.some.inj hnext
    exact ⟨{ h with }, fun _ => rfl⟩
  | cancel id reason =>
    unfold Owned.next at hnext
    dsimp only at hnext
    split at hnext
    · rename_i hnone
      obtain rfl := Option.some.inj hnext
      have hview : s.view (.call id) = {} := by
        show (s.calls id).elim {} CancelPc.view = {}
        rw [hnone]
        rfl
      have hself := put_view_self s (.call id) (some (.read reason .state))
      have hmove : Move s (s.put (.call id) (some (.read reason .state))) (.call id) :=
        { others := fun party hparty => put_view_other s _ hparty
          owned := rfl
          locks := .inl ⟨rfl, by rw [hself, hview]; rfl⟩
          carries := .stays Iff.rfl (by rw [hself, hview]; rfl) rfl
          verdict := fun _ hverdict => hverdict
          record := .inl rfl
          telling := by rw [hself]; exact nofun
          flag := by rw [hself]; rfl
          knows := by rw [hself]; exact fun _ => nofun
          polling := h.polling
          ends := h.ends
          reachable := h.reachable
          completed := h.completed
          returned := fun _ hr => .inl hr }
      exact ⟨h.move hmove, fun _ => rfl⟩
    · cases hnext
  | step id =>
    unfold Owned.next at hnext
    dsimp only at hnext
    split at hnext
    · cases hnext
    · rename_i pc hpc
      have hview : s.view (.call id) = pc.view := by
        show (s.calls id).elim {} CancelPc.view = _
        rw [hpc]
        rfl
      obtain ⟨⟨pc', u⟩, hcancel, rfl⟩ := Option.map_eq_some_iff.mp hnext
      obtain ⟨hmove, hkeeps⟩ := h.stepCancel hview hcancel
      exact ⟨h.move (hmove.move h hview), hkeeps⟩
  | poll =>
    unfold Owned.next at hnext
    dsimp only at hnext
    split at hnext
    · rename_i hpc
      obtain rfl := Option.some.inj hnext
      exact ⟨h.move (h.go hpc .acquire s.holder (.inl ⟨rfl, rfl⟩) rfl nofun rfl rfl rfl rfl
        (fun _ => nofun) nofun), fun _ => rfl⟩
    · cases hnext
  | drop =>
    unfold Owned.next at hnext
    dsimp only at hnext
    split at hnext
    · rename_i hpc
      obtain rfl := Option.some.inj hnext
      exact ⟨h.move (h.go hpc .dropState s.holder (.inl ⟨rfl, rfl⟩) rfl nofun rfl rfl rfl rfl
        (fun _ => nofun) nofun), fun _ => rfl⟩
    · cases hnext
  | exec came => exact h.stepExec hnext

theorem Agreed.init (closing : Bool) : Agreed (init closing) where
  owned := rfl
  locked := fun party => by cases party <;> exact ⟨nofun, nofun⟩
  polling := rfl
  record := fun _ => nofun
  telling := fun party _ hmem => by cases party <;> cases hmem
  flag := fun party => by cases party <;> rfl
  knows := fun party _ hknows => by cases party <;> cases hknows
  ends := fun _ => nofun
  place := by
    refine ⟨.scope, fun other => ?_⟩
    cases other with
    | scope => exact ⟨fun _ => rfl, fun _ => rfl⟩
    | party party => cases party <;> exact ⟨nofun, nofun⟩
    | gone => exact ⟨fun hne => absurd rfl hne, nofun⟩
  once := Nat.zero_le _
  unlocked := nofun
  reachable := nofun
  completed := nofun
  returned := nofun

/-- The drop of the execution has had its look at the scope. -/
def ExecPc.shuts : ExecPc → Bool
  | .dropping (.release _ _) | .dropping (.publish _ _) | .dropping (.retire _) | .dropped => true
  | _ => false

/-- What a step leaves of what the polls saw. -/
structure Trails (s t : State) : Prop where
  last : t.last = s.last ∨ t.last = t.scope := by exact .inl rfl
  returned : ∀ r ∈ t.returned, r ∈ s.returned ∨ r.last = t.last := by exact fun _ h => .inl h
  shuts : t.exec.shuts = true → s.exec.shuts = true ∨ t.scope.isTerminal = true := by exact nofun

theorem return_trails (s u : State) (result : PollResult) (hlast : u.last = s.last)
    (hreturned : u.returned = s.returned) : Trails s (u.return_ result) where
  last := .inl hlast
  returned := fun r hr => by
    cases result with
    | panicked | unwound => exact .inl (hreturned ▸ hr)
    | pending | ready | cancelled _ =>
      rcases List.mem_cons.mp hr with rfl | hold
      · exact .inr rfl
      · exact .inl (hreturned ▸ hold)

theorem Agreed.cancel_trails (h : Agreed s) {pc : CancelPc} (hpc : s.exec = .dropping pc)
    {next : Option CancelPc} (hstep : Owned.stepCancel s .exec pc = some (next, t)) :
    Trails s (t.put .exec next) := by
  have hpolling : s.scope.isPolling = false :=
    (h.exec_polling hpc).trans (cancel_view pc).1
  have hshuts : (t.put .exec next).exec.shuts = true →
      (ExecPc.dropping pc).shuts = true ∨ t.scope.isTerminal = true := by
    cases pc with
    | release _ _ | publish _ _ | retire _ => exact fun _ => .inl rfl
    | read reason at_ =>
      unfold Owned.stepCancel at hstep
      dsimp only at hstep
      split at hstep <;> obtain ⟨rfl, rfl⟩ := Prod.mk.inj (Option.some.inj hstep) <;> exact nofun
    | acquire reason =>
      unfold Owned.stepCancel at hstep
      dsimp only at hstep
      split at hstep
      · obtain ⟨rfl, rfl⟩ := Prod.mk.inj (Option.some.inj hstep)
        exact nofun
      · cases hstep
    | held reason =>
      unfold Owned.stepCancel at hstep
      dsimp only at hstep
      split at hstep <;> rename_i hscope <;>
      obtain ⟨rfl, rfl⟩ := Prod.mk.inj (Option.some.inj hstep)
      · exact fun _ => .inr rfl
      · rw [hscope] at hpolling
        cases hpolling
      · exact fun _ => .inr (by rw [hscope]; rfl)
      · exact fun _ => .inr (by rw [hscope]; rfl)
  obtain ⟨hmove, -⟩ := h.stepCancel (show s.view .exec = _ from congrArg ExecPc.view hpc) hstep
  exact {
    last := .inl hmove.last
    returned := fun r hr => .inl (hmove.returned ▸ hr)
    shuts := fun hput => (hshuts hput).imp (fun hold => by rw [hpc]; exact hold) id }

theorem Agreed.exec_trails (h : Agreed s) {came : Came} (hstep : Owned.stepExec s came = some t) :
    Trails s t := by
  cases hpc : s.exec with
  | idle | dropped | unreachable =>
    unfold Owned.stepExec at hstep
    rw [hpc] at hstep
    cases hstep
  | acquire | acquireExit _ | lease _ =>
    unfold Owned.stepExec at hstep
    rw [hpc] at hstep
    dsimp only at hstep
    split at hstep
    · obtain rfl := Option.some.inj hstep
      exact {}
    · cases hstep
  | told _ | again | taken | parked | settled _ | unwinding | dropClosing =>
    unfold Owned.stepExec at hstep
    rw [hpc] at hstep
    obtain rfl := Option.some.inj hstep
    exact {}
  | tell _ _ | publish _ _ | dropState | leased _ =>
    unfold Owned.stepExec at hstep
    rw [hpc] at hstep
    dsimp only at hstep
    split at hstep <;> obtain rfl := Option.some.inj hstep <;> exact {}
  | user | retire _ =>
    unfold Owned.stepExec at hstep
    rw [hpc] at hstep
    cases came <;> obtain rfl := Option.some.inj hstep <;> exact {}
  | entry =>
    unfold Owned.stepExec at hstep
    rw [hpc] at hstep
    dsimp only at hstep
    split at hstep <;> obtain rfl := Option.some.inj hstep <;> exact { last := .inr rfl }
  | exit_ ready =>
    unfold Owned.stepExec at hstep
    rw [hpc] at hstep
    dsimp only at hstep
    split at hstep
    · split at hstep <;> obtain rfl := Option.some.inj hstep <;> exact { last := .inr rfl }
    all_goals
      obtain rfl := Option.some.inj hstep
      exact {}
  | release result reason =>
    unfold Owned.stepExec at hstep
    rw [hpc] at hstep
    cases reason with
    | some reason =>
      obtain rfl := Option.some.inj hstep
      exact {}
    | none =>
      obtain rfl := Option.some.inj hstep
      exact return_trails s _ result rfl rfl
  | abandon result at_ =>
    unfold Owned.stepExec at hstep
    rw [hpc] at hstep
    dsimp only at hstep
    split at hstep <;> obtain rfl := Option.some.inj hstep
    · exact {}
    · exact return_trails s _ result rfl rfl
  | dropping at_ =>
    unfold Owned.stepExec at hstep
    rw [hpc] at hstep
    obtain ⟨⟨next, u⟩, hcancel, rfl⟩ := Option.map_eq_some_iff.mp hstep
    have htrails := h.cancel_trails hpc hcancel
    cases next with
    | some next => exact htrails
    | none => exact htrails

theorem Agreed.trails (h : Agreed s) {a : Action} (hnext : Owned.next s a = some t) : Trails s t := by
  cases a with
  | close =>
    obtain rfl := Option.some.inj hnext
    exact { shuts := .inl }
  | cancel id reason =>
    unfold Owned.next at hnext
    dsimp only at hnext
    split at hnext
    · obtain rfl := Option.some.inj hnext
      exact { shuts := .inl }
    · cases hnext
  | step id =>
    unfold Owned.next at hnext
    dsimp only at hnext
    split at hnext
    · cases hnext
    · rename_i pc hpc
      have hview : s.view (.call id) = pc.view := by
        show (s.calls id).elim {} CancelPc.view = _
        rw [hpc]
        rfl
      obtain ⟨⟨pc', u⟩, hcancel, rfl⟩ := Option.map_eq_some_iff.mp hnext
      obtain ⟨hmove, -⟩ := h.stepCancel hview hcancel
      exact {
        last := .inl hmove.last
        returned := fun r hr => .inl (hmove.returned ▸ hr)
        shuts := fun hshuts => .inl (hmove.exec ▸ hshuts) }
  | poll | drop =>
    unfold Owned.next at hnext
    dsimp only at hnext
    split at hnext
    · obtain rfl := Option.some.inj hnext
      exact {}
    · cases hnext
  | exec came => exact h.exec_trails hnext

/-- What the polls saw stays true once it is terminal, and a dropped execution is terminal. -/
structure Settled (s : State) : Prop where
  last : s.last.isTerminal = true → s.scope = s.last
  returned : ∀ r ∈ s.returned, r.last.isTerminal = true → s.scope = r.last
  shut : s.exec.shuts = true → s.scope.isTerminal = true

theorem Settled.step (h : Settled s) (hkeeps : Keeps s t) (htrails : Trails s t) : Settled t := by
  have hlast : t.last.isTerminal = true → t.scope = t.last := fun hterminal => by
    rcases htrails.last with hsame | hsame
    · rw [hsame] at hterminal ⊢
      have hscope := h.last hterminal
      rw [← hscope] at hterminal
      exact (hkeeps hterminal).trans hscope
    · exact hsame.symm
  refine ⟨hlast, fun r hr hterminal => ?_, fun hshuts => ?_⟩
  · rcases htrails.returned r hr with hold | hnew
    · have hscope := h.returned r hold hterminal
      rw [← hscope] at hterminal
      exact (hkeeps hterminal).trans hscope
    · rw [hnew] at hterminal ⊢
      exact hlast hterminal
  · rcases htrails.shuts hshuts with hold | hnew
    · have hterminal := h.shut hold
      rw [hkeeps hterminal]
      exact hterminal
    · exact hnew

theorem Settled.init (closing : Bool) : Settled (init closing) :=
  ⟨nofun, fun _ hr => (List.not_mem_nil hr).elim, nofun⟩

theorem exec_agreed {closing : Bool} {as : List Action}
    (hexec : Run.exec Owned.next (init closing) as = some s) : Agreed s ∧ Settled s :=
  Run.exec_invariant (I := fun s => Agreed s ∧ Settled s)
    (fun _ _ _ hs hnext =>
      ⟨(hs.1.next hnext).1, hs.2.step (hs.1.next hnext).2 (hs.1.trails hnext)⟩)
    ⟨Agreed.init closing, Settled.init closing⟩ hexec

theorem Agreed.exec_keeps (h : Agreed s) {as : List Action}
    (hexec : Run.exec Owned.next s as = some t) : Keeps s t := by
  refine (Run.exec_invariant (I := fun t => Agreed t ∧ Keeps s t) (fun m _ t hm hnext => ?_)
    ⟨h, fun _ => rfl⟩ hexec).2
  obtain ⟨hagreed, hkeeps⟩ := hm.1.next hnext
  refine ⟨hagreed, fun hterminal => ?_⟩
  have hscope := hm.2 hterminal
  rw [← hscope] at hterminal
  exact (hkeeps hterminal).trans hscope

/-- Whoever does not have the future leaves it in the scope or has seen its end. -/
theorem Agreed.destroyed_once (h : Agreed s) (hterminal : s.scope.isTerminal = true)
    (hnobody : ∀ party, (s.view party).work = false) : s.destroyed.length = 1 := by
  obtain ⟨place, hplace⟩ := h.place
  have hat : s.holds place := (hplace place).mpr rfl
  cases place with
  | scope =>
    have hpending : s.scope = .pending := hat
    rw [hpending] at hterminal
    cases hterminal
  | party party => exact absurd ((hnobody party).symm.trans hat) nofun
  | gone => exact Nat.le_antisymm h.once (List.length_pos_of_ne_nil hat)

/-- What holds of an owned execution in every state. -/
structure Sound (s : State) : Prop where
  /-- The poll has the future alone, and the scope is not terminal. -/
  polled : s.exec = .user →
    s.scope.isPolling = true ∧ ∀ party, (s.view party).work = true ↔ party = .exec
  once : s.destroyed.length ≤ 1
  unlocked : ∀ d ∈ s.destroyed, d.2 ≠ some d.1
  destroyed : s.scope.isTerminal = true → (∀ party, (s.view party).work = false) →
    s.destroyed.length = 1
  /-- Nobody else needs to do anything after the drop and the cancellations. -/
  dropped : s.exec = .dropped → (∀ id, s.calls id = none) → s.destroyed.length = 1
  returned : ∀ r ∈ s.returned, r.Agrees ∧ (r.last.isTerminal = true → s.scope = r.last)
  /-- The completion is published, or is the next thing that its poll does. -/
  completed : s.scope = .completed → s.token.record = some .scopeFinished ∨
    s.token.record = none ∧ (s.exec = .settled none ∨ ∃ at_, s.exec = .publish none at_)
  record : ∀ reason, s.token.record = some reason → s.scope.verdict = some reason
  reachable : s.exec ≠ .unreachable

theorem completes_eq {pc : ExecPc} (h : pc.view.completes = true) :
    pc = .settled none ∨ ∃ at_, pc = .publish none at_ := by
  cases pc with
  | settled cancellation =>
    cases cancellation with
    | none => exact .inl rfl
    | some reason => cases h
  | publish cancellation at_ =>
    cases cancellation with
    | none => exact .inr ⟨at_, rfl⟩
    | some reason => cases h
  | lease result | leased result | release result _ | abandon result _ =>
    cases result <;> cases h
  | dropping at_ => cases at_ <;> cases h
  | _ => cases h

theorem Agreed.sound (h : Agreed s) (hsettled : Settled s) : Sound s where
  polled := fun hpc => by
    have hwork : s.holds (.party .exec) := by
      show s.exec.view.work = true
      rw [hpc]
      rfl
    refine ⟨(h.exec_polling hpc).trans rfl, fun party => (h.alone _ hwork (.party party)).trans ?_⟩
    exact ⟨Place.party.inj, congrArg Place.party⟩
  once := h.once
  unlocked := h.unlocked
  destroyed := h.destroyed_once
  dropped := fun hpc hcalls => by
    refine h.destroyed_once (hsettled.shut (by rw [hpc]; rfl)) fun party => ?_
    cases party with
    | exec =>
      show s.exec.view.work = false
      rw [hpc]
      rfl
    | call id =>
      show ((s.calls id).elim {} CancelPc.view).work = false
      rw [hcalls]
      rfl
  returned := fun r hr => ⟨h.returned r hr, hsettled.returned r hr⟩
  completed := fun hscope => (h.completed hscope).imp id fun hnone => ⟨hnone.1, completes_eq hnone.2⟩
  record := h.record
  reachable := h.reachable

theorem owned_execution_agrees {closing : Bool} {as bs : List Action} {s t : State}
    (hexec : Run.exec next (init closing) as = some s) (hlater : Run.exec next s bs = some t) :
    Sound s ∧ (s.scope.isTerminal = true → t.scope = s.scope) := by
  obtain ⟨hagreed, hsettled⟩ := exec_agreed hexec
  exact ⟨hagreed.sound hsettled, hagreed.exec_keeps hlater⟩

/-- The future suspends once, is cancelled while it runs, and is destroyed by its poll. -/
def cancelledPoll : List Action :=
  [.poll, .exec .ready, .exec .ready, .exec .ready, .exec .pending, .exec .ready, .exec .ready,
    .exec .ready, .exec .ready, .exec .ready, .exec .ready, .poll, .exec .ready, .exec .ready,
    .exec .ready, .cancel 0 .callerCancelled, .step 0, .step 0, .step 0, .step 0, .step 0, .step 0,
    .step 0, .step 0, .exec .ready, .exec .ready, .exec .ready, .exec .ready, .exec .ready,
    .exec .ready, .exec .ready, .exec .ready, .exec .ready, .exec .ready]

theorem owned_execution_agrees_cancelled :
    (Run.exec next (init false) cancelledPoll).map (fun s => (s.returned.map Returned.result,
        s.destroyed)) = some ([.cancelled .callerCancelled, .pending], [(.exec, none)]) ∧
      ∀ s t, Run.exec next (init false) cancelledPoll = some s → Run.exec next s [.drop] = some t →
        Sound s ∧ (s.scope.isTerminal = true → t.scope = s.scope) :=
  ⟨by decide, fun _ _ hexec hlater => owned_execution_agrees hexec hlater⟩

/-- The terminal state is stored before the reason is published. -/
theorem completed_before_its_reason : ¬ ∀ (closing : Bool) (as : List Action) (s : State),
    Run.exec next (init closing) as = some s → s.scope = .completed →
      s.token.record = some .scopeFinished := by
  intro h
  have hrecord := h false
    [.poll, .exec .ready, .exec .ready, .exec .ready, .exec .ready, .exec .ready, .exec .ready] _
    rfl rfl
  cases hrecord

end Owned

end Amalgam
