import Amalgam.Recovery.Service

/-!
# Amalgam — the retry budget of a ticket

`record_failure`, `claim` and `drain_once` of `src/recovery.rs`. A ticket is admitted with a number
of retries, and with every failure that is recorded for it one attempt less is left.

* **`retry_budget`** — nothing else counts, the ticket goes with the failure of its last attempt, and
  nobody else may claim it before its claim is released.
-/

namespace Amalgam

namespace Recovery

open Run (Reachable)

namespace Service

variable {K V M R : Type} [DecidableEq K] [DecidableEq R] {cfg : Config} {ops : MarkerWork M R}
  {s t : Service K V M R}

/-- The action ends a replay of the ticket `id` with an error. -/
def Fails (s : Service K V M R) (a : Action K V M R) (id : RecoveryId) : Prop :=
  ∃ i ticket rest, a = .settle i .error ∧ s.pass i = .replaying ticket rest ∧ ticket.id = id

/-- What a step does to the retries and the failures. -/
inductive Counted (cfg : Config) (ops : MarkerWork M R) (s t : Service K V M R) :
    Action K V M R → Prop
  | admission {now : Timestamp} {order : List (RecoveryKey K R)} {work : RecoveryWork K V M}
      {fence : Option Commit.Fence} {current : Bool}
      (hfailures : t.failures = s.failures)
      (hretries : t.retries =
        (s.queue.enqueueWork cfg ops now order work fence current).1.id.elim s.retries fun id =>
          Function.update s.retries id (work.retries.or cfg.maxRetries)) :
      Counted cfg ops s t (.enqueue now order work fence current)
  | silent {a : Action K V M R} (hfailures : t.failures = s.failures)
      (hretries : t.retries = s.retries) : Counted cfg ops s t a
  | failure {i : Nat} {ticket : ReplayTicket K V M} {rest : List (RecoveryKey K R)}
      (hpass : s.pass i = .replaying ticket rest)
      (ht : t = (s.settle ops ticket .error).goto i (.scanning rest)) :
      Counted cfg ops s t (.settle i .error)

theorem counted_of_next {a : Action K V M R} (hnext : next cfg ops s a = some t) :
    Counted cfg ops s t a := by
  cases a with
  | enqueue =>
    obtain rfl := Option.some.inj hnext
    exact .admission rfl rfl
  | supersedeThrough | cancelThrough | notificationStage | complete | stop =>
    obtain rfl := Option.some.inj hnext
    exact .silent rfl rfl
  | markerPopulationStage =>
    simp only [next] at hnext
    split at hnext
    · obtain rfl := Option.some.inj hnext
      exact .silent rfl rfl
    · cases hnext
  | drain i keys =>
    simp only [next] at hnext
    split at hnext
    · obtain rfl := Option.some.inj hnext
      exact .silent rfl rfl
    · cases hnext
  | visit i =>
    simp only [next] at hnext
    split at hnext
    · obtain rfl := Option.some.inj hnext
      exact .silent rfl rfl
    · split at hnext
      · obtain rfl := Option.some.inj hnext
        exact .silent rfl rfl
      · obtain rfl := Option.some.inj hnext
        exact .silent rfl rfl
    · cases hnext
  | check i now current =>
    simp only [next] at hnext
    split at hnext
    · split at hnext
      · obtain rfl := Option.some.inj hnext
        exact .silent rfl rfl
      · obtain rfl := Option.some.inj hnext
        exact .silent rfl rfl
    · cases hnext
  | cancel i =>
    simp only [next] at hnext
    split at hnext
    · obtain rfl := Option.some.inj hnext
      exact .silent rfl rfl
    · cases hnext
  | settle i result =>
    simp only [next] at hnext
    split at hnext
    · rename_i ticket rest hpass
      obtain rfl := Option.some.inj hnext
      cases result with
      | ok outcome => cases outcome <;> exact .silent rfl rfl
      | error => exact .failure hpass rfl
    · cases hnext

/-- Only a failure is counted. -/
theorem next_failures {a : Action K V M R} {id : RecoveryId} (hnext : next cfg ops s a = some t)
    (hfails : ¬ s.Fails a id) : t.failures id = s.failures id := by
  cases counted_of_next hnext with
  | admission hfailures | silent hfailures => exact congrFun hfailures id
  | failure hpass ht =>
    subst ht
    rename_i i ticket rest
    have hne : id ≠ ticket.id := fun heq => hfails ⟨i, ticket, rest, rfl, hpass, heq.symm⟩
    show (if _ then _ else _ : RecoveryId → Nat) id = _
    split
    · exact Function.update_of_ne hne _ _
    · rfl

/-- An admission takes the next identity. -/
theorem nextId_of_id {now : Timestamp} {order : List (RecoveryKey K R)} {work : RecoveryWork K V M}
    {fence : Option Commit.Fence} {current : Bool} {id : RecoveryId}
    (h : (s.queue.enqueueWork cfg ops now order work fence current).1.id = some id) :
    s.queue.nextId = some id := by
  have henqueuing := Queue.enqueuing_of_enqueueWork ops s.queue cfg now order work fence current
  generalize s.queue.enqueueWork cfg ops now order work fence current = result at h henqueuing
  obtain ⟨outcome, q'⟩ := result
  cases henqueuing with
  | refused houtcome =>
    rw [id_of_isQueued houtcome] at h
    cases h
  | lost => cases h
  | admitted houtcome hid =>
    rcases houtcome with rfl | rfl
    · exact hid.trans h
    · exact hid.trans h

/-- Only an admission sets the retries, those of its own ticket. -/
theorem next_retries {a : Action K V M R} {id : RecoveryId} (hnext : next cfg ops s a = some t)
    (hold : ∀ n, s.queue.nextId = some n → id < n) : t.retries id = s.retries id := by
  cases counted_of_next hnext with
  | silent _ hretries => exact congrFun hretries id
  | failure hpass ht =>
    subst ht
    rfl
  | @admission now order work fence current _ hretries =>
    rw [hretries]
    cases hid : (s.queue.enqueueWork cfg ops now order work fence current).1.id with
    | none => rfl
    | some new => exact Function.update_of_ne (hold new (nextId_of_id hid)).ne _ _

/-- What is left of a ticket that stays. -/
theorem Sound.remaining {a : Action K V M R} (h : Sound cfg ops s) (hkeys : ops.KeepsKeys)
    (hnext : Service.next cfg ops s a = some t) {key key' : RecoveryKey K R} {queued queued' : Queued K V M}
    (hbefore : s.queue.entries.lookup key = some queued)
    (hafter : t.queue.entries.lookup key' = some queued')
    (hid : queued'.ticket.id = queued.ticket.id) (hfails : ¬ s.Fails a queued.ticket.id) :
    queued'.remaining = queued.remaining := by
  have hretries := next_retries hnext fun n hn => (h.issued n hn).1 key queued hbefore
  have hleft := ((h.next hkeys hnext).budget key' queued' hafter).1
  rw [hid, hretries, next_failures hnext hfails] at hleft
  exact hleft.trans (h.budget key queued hbefore).1.symm

/-- The failure of a ticket that is still queued. -/
theorem Sound.failed {i : Nat} {ticket : ReplayTicket K V M} {rest : List (RecoveryKey K R)}
    {key : RecoveryKey K R} {queued : Queued K V M} (h : Sound cfg ops s)
    (hpass : s.pass i = .replaying ticket rest)
    (hnext : Service.next cfg ops s (.settle i .error) = some t)
    (hlookup : s.queue.entries.lookup key = some queued) (hid : queued.ticket.id = ticket.id) :
    t.failures ticket.id = s.failures ticket.id + 1 ∧
    t.queue.entries.lookup key =
      if s.retries ticket.id = some (s.failures ticket.id) then none
      else some { queued with
        remaining := queued.remaining.map (· - 1), state := .pending } := by
  have hi : (s.pass i).ticket = some ticket := by rw [hpass]; rfl
  obtain ⟨rfl, -⟩ := h.inFlight i ticket key queued hi hlookup hid
  have hfind : s.queue.find ops ticket = some queued := Queue.find_eq_some.mpr ⟨hlookup, hid⟩
  simp only [Service.next, hpass] at hnext
  obtain rfl := Option.some.inj hnext
  obtain ⟨hbudget, hfits⟩ := h.budget _ queued hlookup
  rw [hid] at hbudget hfits
  have hlast : (queued.remaining = some 0 ∨ queued.remaining = some 1) ↔
      s.retries ticket.id = some (s.failures ticket.id) := by
    rw [hbudget]
    cases hretries : s.retries ticket.id with
    | none => simp
    | some retries =>
      have hle := hfits retries hretries
      simp only [Option.map_some, Option.some.injEq]
      omega
  constructor
  · simp only [goto, settle, hfind, Option.isSome_some, if_true]
    exact Function.update_self _ _ _
  · rw [← if_congr hlast rfl rfl]
    exact (recordFailure_lookup hfind).1

/-- A claim that is dropped before its replay has ended, as where the replay is paused, leaves its
ticket pending. -/
theorem Sound.released_pending {a : Action K V M R} {i : Nat} {ticket : ReplayTicket K V M}
    {rest : List (RecoveryKey K R)} {key : RecoveryKey K R} {queued : Queued K V M}
    (h : Sound cfg ops s) (hpass : s.pass i = .replaying ticket rest)
    (ha : a = .settle i (.ok .paused) ∨ a = .cancel i)
    (hnext : Service.next cfg ops s a = some t)
    (hlookup : s.queue.entries.lookup key = some queued) (hid : queued.ticket.id = ticket.id) :
    t.queue.entries.lookup key = some { queued with state := .pending } := by
  have hi : (s.pass i).ticket = some ticket := by rw [hpass]; rfl
  obtain ⟨rfl, -⟩ := h.inFlight i ticket key queued hi hlookup hid
  have hfind : s.queue.find ops ticket = some queued := Queue.find_eq_some.mpr ⟨hlookup, hid⟩
  have hqueue : t.queue = s.queue.unclaim ops ticket := by
    rcases ha with rfl | rfl
    · simp only [Service.next, hpass] at hnext
      obtain rfl := Option.some.inj hnext
      rfl
    · simp only [Service.next, hpass] at hnext
      obtain rfl := Option.some.inj hnext
      rfl
  rw [hqueue, Queue.unclaim, hfind]
  exact AList.lookup_insert _

end Service

variable {K V S : Type} [DecidableEq K] [DecidableEq S] {cfg : Config}
  {s t : Service K V (MarkerRecovery S) (MarkerKey S)}

open Service (Fails)

/-- A ticket begins with the retries of its item, or else with those that are configured. As long as
it is queued no more failures than these are recorded for it; the next failure leaves it pending with
one attempt less, or drops it if there are as many already. No other step changes what is left of a
ticket: no pause, no dropped claim, no failure of a ticket that it replaced and no change of its
stage. And no two passes hold a claim of one ticket. -/
theorem retry_budget (h : Reachable (Service.next cfg (markerWork S)) Service.init s) :
    (∀ now order (work : RecoveryWork K V (MarkerRecovery S)) fence current id t,
      Service.next cfg (markerWork S) s (.enqueue now order work fence current) = some t →
      (s.queue.enqueueWork cfg (markerWork S) now order work fence current).1.id = some id →
      t.retries id = work.retries.or cfg.maxRetries ∧ t.failures id = 0) ∧
    (∀ key queued, s.queue.entries.lookup key = some queued →
      queued.remaining
          = (s.retries queued.ticket.id).map (· + 1 - s.failures queued.ticket.id) ∧
        ∀ retries, s.retries queued.ticket.id = some retries →
          s.failures queued.ticket.id ≤ retries) ∧
    (∀ i ticket rest key queued t, s.pass i = .replaying ticket rest →
      s.queue.entries.lookup key = some queued → queued.ticket.id = ticket.id →
      Service.next cfg (markerWork S) s (.settle i .error) = some t →
      t.failures ticket.id = s.failures ticket.id + 1 ∧
      t.queue.entries.lookup key =
        if s.retries ticket.id = some (s.failures ticket.id) then none
        else some { queued with
          remaining := queued.remaining.map (· - 1), state := .pending }) ∧
    (∀ a t key key' queued queued', Service.next cfg (markerWork S) s a = some t →
      s.queue.entries.lookup key = some queued → t.queue.entries.lookup key' = some queued' →
      queued'.ticket.id = queued.ticket.id → ¬ s.Fails a queued.ticket.id →
      t.failures queued.ticket.id = s.failures queued.ticket.id ∧
        queued'.remaining = queued.remaining) ∧
    (∀ a i ticket rest key queued t, s.pass i = .replaying ticket rest →
      a = .settle i (.ok .paused) ∨ a = .cancel i → Service.next cfg (markerWork S) s a = some t →
      s.queue.entries.lookup key = some queued → queued.ticket.id = ticket.id →
      t.queue.entries.lookup key = some { queued with state := .pending }) ∧
    ∀ i j ticket ticket', (s.pass i).ticket = some ticket → (s.pass j).ticket = some ticket' →
      ticket.id = ticket'.id → i = j := by
  have hsound := Service.sound_of_reachable markerWork_keepsKeys h
  refine ⟨fun now order work fence current id t hnext hid => ?_, hsound.budget,
    fun i ticket rest key queued t hpass hlookup hid hnext => hsound.failed hpass hnext hlookup hid,
    fun a t key key' queued queued' hnext hbefore hafter hid hfails =>
      ⟨Service.next_failures hnext hfails,
        hsound.remaining markerWork_keepsKeys hnext hbefore hafter hid hfails⟩,
    fun a i ticket rest key queued t hpass ha hnext hlookup hid =>
      hsound.released_pending hpass ha hnext hlookup hid,
    hsound.alone⟩
  obtain rfl := Option.some.inj hnext
  dsimp only
  rw [hid, Option.elim_some, Function.update_self]
  exact ⟨rfl, (hsound.issued id (Service.nextId_of_id hid)).2.2 id (Nat.le_refl id)⟩

/-- No retries. -/
def oneAttempt : Config := ⟨true, none, some 0⟩

/-- A ticket is admitted, claimed and replayed. -/
def attempt : List (Action Unit Unit (MarkerRecovery Unit) (MarkerKey Unit)) :=
  [.enqueue (.fromTicks 0) []
      (.data ⟨(), .remove, .fromTicks 0, .MAX, none⟩ .legacy) none true,
    .drain 0 [.data ()], .visit 0, .check 0 (.fromTicks 0) true]

theorem retry_budget_oneAttempt :
    ∃ s t, Run.exec (Service.next oneAttempt (markerWork Unit)) Service.init attempt = some s ∧
      Service.next oneAttempt (markerWork Unit) s (.settle 0 .error) = some t ∧
      (s.queue.entries.lookup (.data ())).isSome ∧ t.queue.entries.lookup (.data ()) = none := by
  refine ⟨_, _, rfl, rfl, rfl, ?_⟩
  have hreach : Reachable (Service.next oneAttempt (markerWork Unit)) Service.init _ := ⟨attempt, rfl⟩
  have hfailure := (retry_budget hreach).2.2.1 0 _ _ (.data ()) _ _ rfl rfl rfl rfl
  exact hfailure.2

end Recovery

end Amalgam
