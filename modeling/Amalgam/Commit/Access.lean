import Amalgam.Commit.Ordered

/-!
# Amalgam — what one access to a commit lane can do

`step` and `next` read by cases, once: every later argument about the lane is a case analysis
over `Access`, whose constructors carry the guard of the access and the state it leaves.
-/

namespace Amalgam

namespace Ordered

@[simp] theorem toU8_inj {a b : GateState} : a.toU8 = b.toU8 ↔ a = b := by
  cases a <;> cases b <;> decide

@[simp] theorem Lane.set_shared (s : Lane) (p : PartyId) (me : Party) (sh : Shared) :
    (s.set p me sh).shared = sh := rfl

theorem Lane.set_party (s : Lane) (p : PartyId) (me : Party) (sh : Shared) (q : PartyId) :
    (s.set p me sh).party q = if q = p then me else s.party q := by
  simp [Lane.set, Function.update_apply]

@[simp] theorem Lane.set_party_self (s : Lane) (p : PartyId) (me : Party) (sh : Shared) :
    (s.set p me sh).party p = me := by
  simp [Lane.set]

theorem Lane.set_party_of_ne (s : Lane) {p q : PartyId} (me : Party) (sh : Shared) (h : q ≠ p) :
    (s.set p me sh).party q = s.party q := by
  simp [Lane.set, h]

/-! ## What one access can do -/

/-- Every access of a party, with its guard. The five cases at the end are the `unreachable!`
branches. -/
inductive Access (p : PartyId) : Party → Shared → Party → Shared → Prop
  | lock {a sh} : Access p ⟨.absent, a⟩ sh ⟨.idle, .new⟩ sh
  | tryLock {a sh} (h : sh.word = GateState.free.toU8) :
    Access p ⟨.absent, a⟩ sh ⟨.guard, .finished⟩ { sh with word := GateState.held.toU8 }
  | tryLockBusy {a sh} : Access p ⟨.absent, a⟩ sh ⟨.done, .finished⟩ sh
  | pollNew {sh} : Access p ⟨.idle, .new⟩ sh ⟨.start, .new⟩ sh
  | pollQueued {sh} : Access p ⟨.idle, .queued⟩ sh ⟨.register, .queued⟩
      { sh with woken := Function.update sh.woken p false }
  | dropNew {sh} : Access p ⟨.idle, .new⟩ sh ⟨.done, .finished⟩ sh
  | dropQueued {sh} : Access p ⟨.idle, .queued⟩ sh ⟨.lockWithdraw, .queued⟩ sh
  | dropGuard {a sh} : Access p ⟨.guard, a⟩ sh ⟨.release, a⟩ sh
  | startClaim {sh} (h : sh.word = GateState.free.toU8) :
    Access p ⟨.start, .new⟩ sh ⟨.guard, .finished⟩ { sh with word := GateState.held.toU8 }
  | startBusy {sh} : Access p ⟨.start, .new⟩ sh ⟨.lockEnqueue, .finished⟩ sh
  | lockEnqueue {a sh} (h : sh.shard = none) :
    Access p ⟨.lockEnqueue, a⟩ sh ⟨.loadState, a⟩ { sh with shard := some (.party p) }
  | loadState {a sh state} (h : sh.word = GateState.toU8 state) :
    Access p ⟨.loadState, a⟩ sh ⟨.sawState state, a⟩ sh
  | queueClaim {a sh} (h : sh.word = GateState.free.toU8) :
    Access p ⟨.sawState .free, a⟩ sh ⟨.unlockClaimed, a⟩
      { sh with word := GateState.held.toU8 }
  | retry {a sh state} : Access p ⟨.sawState state, a⟩ sh ⟨.loadState, a⟩ sh
  | markQueued {a sh} (h : sh.word = GateState.held.toU8) :
    Access p ⟨.sawState .held, a⟩ sh ⟨.push, a⟩ { sh with word := GateState.queued.toU8 }
  | sawQueued {a sh} : Access p ⟨.sawState .queued, a⟩ sh ⟨.push, a⟩ sh
  | push {a sh} : Access p ⟨.push, a⟩ sh ⟨.unlockWaiting, a⟩
      { sh with queue := some (sh.waiters ++ [p]), arrivals := sh.arrivals ++ [p] }
  | unlockClaimed {a sh} : Access p ⟨.unlockClaimed, a⟩ sh ⟨.guard, a⟩ (unlockShard sh)
  | unlockWaiting {a sh} :
    Access p ⟨.unlockWaiting, a⟩ sh ⟨.register, .queued⟩ (unlockShard sh)
  | register {a sh} : Access p ⟨.register, a⟩ sh ⟨.checkGranted, a⟩
      { sh with waker := Function.update sh.waker p true }
  | granted {a sh} (h : sh.granted p = true) :
    Access p ⟨.checkGranted, a⟩ sh ⟨.complete, a⟩ sh
  | pending {a sh} (h : sh.granted p = false) : Access p ⟨.checkGranted, a⟩ sh ⟨.idle, a⟩ sh
  | complete {sh} : Access p ⟨.complete, .queued⟩ sh ⟨.guard, .finished⟩ sh
  | releaseReady {a sh} (h : sh.word = GateState.held.toU8) :
    Access p ⟨.release, a⟩ sh ⟨.done, a⟩ { sh with word := GateState.free.toU8 }
  | releaseQueued {a sh} : Access p ⟨.release, a⟩ sh ⟨.lockHandoff, a⟩ sh
  | lockHandoff {a sh} (h : sh.shard = none) :
    Access p ⟨.lockHandoff, a⟩ sh ⟨.pop, a⟩ { sh with shard := some (.party p) }
  | pop {a sh} : Access p ⟨.pop, a⟩ sh
      ⟨.storeHandoff (popFront sh.queue).1
        (handoffState (popFront sh.queue).1 (popFront sh.queue).2), a⟩
      { sh with queue := (popFront sh.queue).2 }
  | storeGrant {a sh waiter state} :
    Access p ⟨.storeHandoff (some waiter) state, a⟩ sh ⟨.grant waiter, a⟩
      { sh with word := state.toU8 }
  | storeFree {a sh state} : Access p ⟨.storeHandoff none state, a⟩ sh ⟨.unlockHandoff none, a⟩
      { sh with word := state.toU8 }
  | grant {a sh waiter} : Access p ⟨.grant waiter, a⟩ sh ⟨.unlockHandoff (some waiter), a⟩
      { sh with
        granted := Function.update sh.granted waiter true
        grants := sh.grants ++ [waiter] }
  | unlockGrant {a sh waiter} :
    Access p ⟨.unlockHandoff (some waiter), a⟩ sh ⟨.wake waiter, a⟩ (unlockShard sh)
  | unlockFree {a sh} : Access p ⟨.unlockHandoff none, a⟩ sh ⟨.done, a⟩ (unlockShard sh)
  | wake {a sh waiter} (h : sh.waker waiter = true) : Access p ⟨.wake waiter, a⟩ sh ⟨.done, a⟩
      { sh with
        waker := Function.update sh.waker waiter false
        woken := Function.update sh.woken waiter true }
  | wakeUnregistered {a sh waiter} (h : sh.waker waiter = false) :
    Access p ⟨.wake waiter, a⟩ sh ⟨.done, a⟩ sh
  | lockWithdraw {a sh} (h : sh.shard = none) :
    Access p ⟨.lockWithdraw, a⟩ sh ⟨.checkWithdraw, a⟩ { sh with shard := some (.party p) }
  | withdrawGranted {a sh} (h : sh.granted p = true) :
    Access p ⟨.checkWithdraw, a⟩ sh ⟨.unlockWithdraw true, a⟩ sh
  | withdrawWaiting {a sh} (h : sh.granted p = false) :
    Access p ⟨.checkWithdraw, a⟩ sh ⟨.remove, a⟩ sh
  | removeLast {a sh queue} (hqueue : sh.queue = some queue) (hmem : p ∈ queue)
      (hrest : queue.erase p = []) :
    Access p ⟨.remove, a⟩ sh ⟨.storeWithdraw, a⟩
      { sh with withdrawn := sh.withdrawn ++ [p], queue := none }
  | remove {a sh queue} (hqueue : sh.queue = some queue) (hmem : p ∈ queue)
      (hrest : queue.erase p ≠ []) :
    Access p ⟨.remove, a⟩ sh ⟨.unlockWithdraw false, a⟩
      { sh with withdrawn := sh.withdrawn ++ [p], queue := some (queue.erase p) }
  | storeWithdraw {a sh} : Access p ⟨.storeWithdraw, a⟩ sh ⟨.unlockWithdraw false, a⟩
      { sh with word := GateState.held.toU8 }
  | unlockGranted {a sh} :
    Access p ⟨.unlockWithdraw true, a⟩ sh ⟨.release, a⟩ (unlockShard sh)
  | unlockWithdrawn {a sh} : Access p ⟨.unlockWithdraw false, a⟩ sh ⟨.done, a⟩ (unlockShard sh)
  | startUnreachable {a sh} (h : a ≠ .new) :
    Access p ⟨.start, a⟩ sh ⟨.unreachable, .finished⟩ sh
  | stateUnreachable {a sh} (h : ∀ state, sh.word ≠ GateState.toU8 state) :
    Access p ⟨.loadState, a⟩ sh ⟨.unreachable, a⟩ sh
  | completeUnreachable {a sh} (h : a ≠ .queued) :
    Access p ⟨.complete, a⟩ sh ⟨.unreachable, .finished⟩ sh
  | removeUnreachable {a sh} (h : p ∉ sh.waiters) :
    Access p ⟨.remove, a⟩ sh ⟨.unreachable, a⟩ sh

theorem compareExchange_eq_some {sh sh' : Shared} {current new : GateState} :
    compareExchange sh current new = some sh' ↔
      sh.word = current.toU8 ∧ sh' = { sh with word := new.toU8 } := by
  unfold compareExchange
  split
  · simp_all [eq_comm]
  · simp_all

theorem state_eq_some {sh : Shared} {state : GateState} (h : sh.state = some state) :
    sh.word = state.toU8 := by
  unfold Shared.state at h
  split at h
  · cases h; assumption
  · split at h
    · cases h; assumption
    · split at h
      · cases h; assumption
      · cases h

theorem state_eq_none {sh : Shared} (h : sh.state = none) (state : GateState) :
    sh.word ≠ state.toU8 := by
  intro hword
  unfold Shared.state at h
  rw [hword] at h
  cases state <;> simp [GateState.toU8] at h

theorem lockShard_eq_some {p : PartyId} {sh sh' : Shared} :
    lockShard p sh = some sh' ↔
      sh.shard = none ∧ sh' = { sh with shard := some (.party p) } := by
  unfold lockShard
  split
  · simp_all [eq_comm]
  · simp_all

theorem access_of_step {p : PartyId} {me me' : Party} {sh sh' : Shared}
    (h : step p me sh = some (me', sh')) : Access p me sh me' sh' := by
  obtain ⟨pc, a⟩ := me
  cases pc with
  | start =>
    simp only [step] at h
    split at h
    · rename_i hnew
      subst hnew
      split at h
      · rename_i hclaim
        obtain ⟨hfree, rfl⟩ := compareExchange_eq_some.mp hclaim
        cases h
        exact .startClaim hfree
      · cases h
        exact .startBusy
    · cases h
      exact .startUnreachable (by assumption)
  | lockEnqueue =>
    obtain ⟨_, hlock, h⟩ := Option.map_eq_some_iff.mp h
    obtain ⟨hnone, rfl⟩ := lockShard_eq_some.mp hlock
    cases h
    exact .lockEnqueue hnone
  | loadState =>
    simp only [step] at h
    split at h
    · cases h
      exact .loadState (state_eq_some (by assumption))
    · cases h
      exact .stateUnreachable (state_eq_none (by assumption))
  | sawState state =>
    cases state with
    | free =>
      simp only [step] at h
      split at h
      · rename_i hclaim
        obtain ⟨hfree, rfl⟩ := compareExchange_eq_some.mp hclaim
        cases h
        exact .queueClaim hfree
      · cases h
        exact .retry
    | held =>
      simp only [step] at h
      split at h
      · rename_i hmark
        obtain ⟨hheld, rfl⟩ := compareExchange_eq_some.mp hmark
        cases h
        exact .markQueued hheld
      · cases h
        exact .retry
    | queued =>
      cases h
      exact .sawQueued
  | push => cases h; exact .push
  | unlockClaimed => cases h; exact .unlockClaimed
  | unlockWaiting => cases h; exact .unlockWaiting
  | register => cases h; exact .register
  | checkGranted =>
    cases hg : sh.granted p with
    | true => simp only [step, hg, if_true] at h; cases h; exact .granted hg
    | false => simp only [step, hg] at h; cases h; exact .pending hg
  | complete =>
    simp only [step] at h
    split at h
    · rename_i hqueued
      subst hqueued
      cases h
      exact .complete
    · cases h
      exact .completeUnreachable (by assumption)
  | release =>
    simp only [step] at h
    split at h
    · rename_i hready
      obtain ⟨hheld, rfl⟩ := compareExchange_eq_some.mp hready
      cases h
      exact .releaseReady hheld
    · cases h
      exact .releaseQueued
  | lockHandoff =>
    obtain ⟨_, hlock, h⟩ := Option.map_eq_some_iff.mp h
    obtain ⟨hnone, rfl⟩ := lockShard_eq_some.mp hlock
    cases h
    exact .lockHandoff hnone
  | pop => cases h; exact .pop
  | storeHandoff next state =>
    cases next with
    | some waiter => cases h; exact .storeGrant
    | none => cases h; exact .storeFree
  | grant waiter => cases h; exact .grant
  | unlockHandoff next =>
    cases next with
    | some waiter => cases h; exact .unlockGrant
    | none => cases h; exact .unlockFree
  | wake waiter =>
    cases hw : sh.waker waiter with
    | true => simp only [step, hw, if_true] at h; cases h; exact .wake hw
    | false => simp only [step, hw] at h; cases h; exact .wakeUnregistered hw
  | lockWithdraw =>
    obtain ⟨_, hlock, h⟩ := Option.map_eq_some_iff.mp h
    obtain ⟨hnone, rfl⟩ := lockShard_eq_some.mp hlock
    cases h
    exact .lockWithdraw hnone
  | checkWithdraw =>
    cases hg : sh.granted p with
    | true => simp only [step, hg, if_true] at h; cases h; exact .withdrawGranted hg
    | false => simp only [step, hg] at h; cases h; exact .withdrawWaiting hg
  | remove =>
    simp only [step] at h
    split at h
    · rename_i hqueue
      cases h
      exact .removeUnreachable (by simp [Shared.waiters, hqueue])
    · rename_i queue hqueue
      split at h
      · rename_i hmem
        split at h
        · rename_i hrest
          cases h
          exact .removeLast hqueue hmem hrest
        · rename_i hrest
          cases h
          exact .remove hqueue hmem hrest
      · rename_i hmem
        cases h
        exact .removeUnreachable (by simpa [Shared.waiters, hqueue] using hmem)
  | storeWithdraw => cases h; exact .storeWithdraw
  | unlockWithdraw granted =>
    cases granted with
    | true => cases h; exact .unlockGranted
    | false => cases h; exact .unlockWithdrawn
  | absent | idle | guard | done | unreachable => cases h

/-- One step of the lane is an access of one party, or another lane takes or gives back the
lock of the shard. -/
theorem next_cases {s t : Lane} {a : Action} (h : next s a = some t) :
    (∃ p me sh, Access p (s.party p) s.shared me sh ∧ t = s.set p me sh)
    ∨ (s.shared.shard = none
      ∧ t = { s with shared := { s.shared with shard := some .otherLane } })
    ∨ (s.shared.shard = some .otherLane ∧ t = { s with shared := unlockShard s.shared }) := by
  cases a with
  | lock p =>
    refine Or.inl ⟨p, ⟨.idle, .new⟩, s.shared, ?_⟩
    cases hp : s.party p with
    | mk pc a => cases pc <;> simp [next, hp] at h; exact ⟨.lock, h.symm⟩
  | tryLock p =>
    left
    cases hp : s.party p with
    | mk pc a =>
      cases pc <;> simp only [next, hp, reduceCtorEq] at h
      split at h
      · rename_i hclaim
        obtain ⟨hfree, rfl⟩ := compareExchange_eq_some.mp hclaim
        cases h
        exact ⟨p, _, _, hp ▸ .tryLock hfree, rfl⟩
      · cases h
        exact ⟨p, _, _, hp ▸ .tryLockBusy, rfl⟩
  | poll p =>
    left
    simp only [next] at h
    split at h
    · rename_i hp
      cases h
      exact ⟨p, _, _, hp ▸ .pollNew, rfl⟩
    · rename_i hp
      cases h
      exact ⟨p, _, _, hp ▸ .pollQueued, rfl⟩
    · cases h
  | drop p =>
    left
    simp only [next] at h
    split at h
    · rename_i hp
      cases h
      exact ⟨p, _, _, hp ▸ .dropNew, rfl⟩
    · rename_i hp
      cases h
      exact ⟨p, _, _, hp ▸ .dropQueued, rfl⟩
    · rename_i a hp
      cases h
      exact ⟨p, _, _, hp ▸ .dropGuard, rfl⟩
    · cases h
  | step p =>
    obtain ⟨⟨me, sh⟩, hstep, rfl⟩ := Option.map_eq_some_iff.mp h
    exact Or.inl ⟨p, me, sh, access_of_step hstep, rfl⟩
  | lockOtherLane =>
    simp only [next] at h
    split at h
    · cases h
      exact Or.inr (Or.inl ⟨by assumption, rfl⟩)
    · cases h
  | unlockOtherLane =>
    simp only [next] at h
    split at h
    · cases h
      exact Or.inr (Or.inr ⟨by assumption, rfl⟩)
    · cases h

end Ordered

end Amalgam
