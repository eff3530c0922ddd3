import Amalgam.Commit.Lane
import Amalgam.Entry

/-!
# Amalgam — the recovery queue

`src/recovery.rs`: a mutation whose storage or notification stage failed is kept as a ticket,
one for each key, under an identity that is never used again. A replay works on a copy of the
ticket it claimed and asks by that identity whether the ticket is still the queued one.

The queue serves marker invalidations as well. Their work is a parameter here, because no
data ticket depends on what it is: only on its key, its deadline and its order.
-/

namespace Amalgam

namespace Recovery

open Commit

inductive BackplaneAction where
  | set
  | remove
  | expire
deriving DecidableEq

/-- `BackplaneMessage` of this cache to its peers, or of a peer to this cache. -/
structure Message (K : Type) where
  timestamp : Timestamp
  action : BackplaneAction
  key : K
deriving DecidableEq

inductive RecoveryAction where
  | set
  | remove
  | expire
deriving DecidableEq

/-- `recovery_action`. -/
def recoveryAction : BackplaneAction → RecoveryAction
  | .set => .set
  | .remove => .remove
  | .expire => .expire

structure RecoveryItem (K : Type) where
  key : K
  action : RecoveryAction
  timestamp : Timestamp
  expiresAt : Timestamp
  remainingRetries : Option Nat

/-- `DataMutation`; the bytes of a frame are the entry they decode to. -/
inductive DataMutation (V : Type) where
  | set (frame : Entry V)
  | remove
  | expire (frame : Entry V)

/-- `remaining_ttl`. -/
def DataMutation.remainingTtl {V : Type} (m : DataMutation V) (now : Timestamp) :
    Option Duration :=
  match m with
  | .set frame | .expire frame =>
    some (frame.metadata.physicalExpiration.saturatingDurationSince now)
  | .remove => none

/-- `PendingMutation`: the failed stage of a data mutation. -/
inductive PendingMutation (K V : Type) where
  | legacy
  | commit (mutation : DataMutation V) (notification : Option (Message K))
  | fencedCommit (mutation : DataMutation V) (notification : Option (Message K))
  | coldExpire (logicalExpiration : Timestamp) (notification : Option (Message K))
  | notify (command : Message K)

/-- Only the notification is left. -/
def PendingMutation.isNotify {K V : Type} : PendingMutation K V → Bool
  | .notify _ => true
  | _ => false

inductive RecoveryWork (K V M : Type) where
  | data (item : RecoveryItem K) (mutation : PendingMutation K V)
  | marker (work : M)

inductive RecoveryKey (K R : Type) where
  | data (key : K)
  | marker (key : R)
deriving DecidableEq

/-- What the queue asks of marker work: `inherit` is `inherit_compaction` from the work that
is replaced, and `notification` its remaining stage. -/
structure MarkerWork (M R : Type) where
  key : M → R
  timestamp : M → Timestamp
  expiresAt : M → Option Timestamp
  supersedes : M → M → Bool
  inherit : M → M → Option M
  notification : M → Option M

/-- Neither what new work inherits nor its notification is work of another key. -/
structure MarkerWork.KeepsKeys {M R : Type} (ops : MarkerWork M R) : Prop where
  inherit : ∀ work previous work', ops.inherit work previous = some work' →
    ops.key work' = ops.key work
  notification : ∀ work work', ops.notification work = some work' → ops.key work' = ops.key work

namespace RecoveryWork

variable {K V M R : Type}

def key (ops : MarkerWork M R) : RecoveryWork K V M → RecoveryKey K R
  | .data item _ => .data item.key
  | .marker work => .marker (ops.key work)

def timestamp (ops : MarkerWork M R) : RecoveryWork K V M → Timestamp
  | .data item _ => item.timestamp
  | .marker work => ops.timestamp work

def expiresAt (ops : MarkerWork M R) : RecoveryWork K V M → Option Timestamp
  | .data item _ => some item.expiresAt
  | .marker work => ops.expiresAt work

/-- `supersedes`, asked of works of one key. -/
def supersedes (ops : MarkerWork M R) : RecoveryWork K V M → RecoveryWork K V M → Bool
  | .marker work, .marker previous => ops.supersedes work previous
  | work, previous => previous.timestamp ops < work.timestamp ops

/-- `inherit_compaction`, where both are marker work. -/
def inherit (ops : MarkerWork M R) :
    RecoveryWork K V M → RecoveryWork K V M → Option (RecoveryWork K V M)
  | .marker work, .marker previous => (ops.inherit work previous).map .marker
  | work, _ => some work

/-- The work that is left when the storage stage of this one is done, if it has both. -/
def notification (ops : MarkerWork M R) : RecoveryWork K V M → Option (RecoveryWork K V M)
  | .data item (.commit _ (some command))
  | .data item (.fencedCommit _ (some command))
  | .data item (.coldExpire _ (some command)) => some (.data item (.notify command))
  | .data _ _ => none
  | .marker work => (ops.notification work).map .marker

/-- `remaining_retries` of a data item. -/
def retries : RecoveryWork K V M → Option Nat
  | .data item _ => item.remainingRetries
  | .marker _ => none

/-- A data ticket that has only its notification left. -/
def isNotify : RecoveryWork K V M → Bool
  | .data _ mutation => mutation.isNotify
  | .marker _ => false

end RecoveryWork

abbrev RecoveryId := Nat

structure ReplayTicket (K V M : Type) where
  id : RecoveryId
  work : RecoveryWork K V M
  generation : Nat
  fence : Option Fence

inductive AttemptState where
  | pending
  | inFlight
deriving DecidableEq

structure Queued (K V M : Type) where
  ticket : ReplayTicket K V M
  remaining : Option Nat
  state : AttemptState

/-- `QueueState`, with the `stop` flag of the service. -/
structure Queue (K V M R : Type) where
  entries : AList fun _ : RecoveryKey K R => Queued K V M
  nextId : Option RecoveryId
  stopped : Bool

/-- `RecoveryConfig`, as far as admission reads it. -/
structure Config where
  enabled : Bool
  maxItems : Option Nat
  maxRetries : Option Nat

inductive EnqueueOutcome where
  | disabled
  | expired
  | superseded
  | capacityRejected
  | queued (id : RecoveryId)
  | replaced (id : RecoveryId)
  | stopped
  | identityExhausted
  | inheritFailed
deriving DecidableEq

/-- The ticket was admitted. -/
def EnqueueOutcome.isQueued : EnqueueOutcome → Bool
  | .queued _ | .replaced _ => true
  | _ => false

/-- `?` on the result leaves the caller. -/
def EnqueueOutcome.isError : EnqueueOutcome → Bool
  | .stopped | .identityExhausted | .inheritFailed => true
  | _ => false

namespace Queue

variable {K V M R : Type} [DecidableEq K] [DecidableEq R]

def empty : Queue K V M R where
  entries := ∅
  nextId := some 1
  stopped := false

def put (q : Queue K V M R) (key : RecoveryKey K R) (queued : Queued K V M) : Queue K V M R :=
  { q with entries := q.entries.insert key queued }

def remove (q : Queue K V M R) (key : RecoveryKey K R) : Queue K V M R :=
  { q with entries := q.entries.erase key }

/-- The first of the earliest deadlines in the iteration order of the map. -/
def victim (ops : MarkerWork M R) (q : Queue K V M R) (order : List (RecoveryKey K R)) :
    Option (RecoveryKey K R × Timestamp) :=
  (order.filterMap fun key =>
    (q.entries.lookup key).bind fun queued =>
      (queued.ticket.work.expiresAt ops).map (key, ·)).foldl
    (fun best candidate =>
      match best with
      | none => some candidate
      | some first => if candidate.2 < first.2 then some candidate else some first) none

/-- The victim goes if its deadline is earlier than that of the new work. -/
def evict (ops : MarkerWork M R) (q : Queue K V M R) (order : List (RecoveryKey K R))
    (bound : Timestamp) : AList fun _ : RecoveryKey K R => Queued K V M :=
  match q.victim ops order with
  | some (victim, expiry) => if expiry < bound then q.entries.erase victim else q.entries
  | none => q.entries

/-- The part of `enqueue_work` that makes room for a new key. -/
def makeRoom (ops : MarkerWork M R) (limit : Option Nat) (order : List (RecoveryKey K R))
    (q : Queue K V M R) (key : RecoveryKey K R) (work : RecoveryWork K V M) :
    Option (AList fun _ : RecoveryKey K R => Queued K V M) :=
  match limit with
  | none => some q.entries
  | some limit =>
    if key ∈ q.entries ∨ q.entries.size < limit then some q.entries
    else
      let entries := q.evict ops order ((work.expiresAt ops).getD Timestamp.MAX)
      if limit ≤ entries.size then none else some entries

/-- `existing` stays: the new work is not newer. -/
def isOlder (ops : MarkerWork M R) (work : RecoveryWork K V M) (fence : Option Fence)
    (existing : ReplayTicket K V M) : Bool :=
  match fence, existing.fence with
  | some fence, some _ => fence.generation ≤ existing.generation
  | _, _ => !work.supersedes ops existing.work

/-- What is put into the queue under `key` and `id`. -/
def admitTicket (cfg : Config) (entries : AList fun _ : RecoveryKey K R => Queued K V M)
    (stopped : Bool) (key : RecoveryKey K R) (id : RecoveryId) (work : RecoveryWork K V M)
    (fence : Option Fence) : Queue K V M R :=
  let retries := match work with
    | .data item _ => item.remainingRetries
    | .marker _ => none
  let remaining := (retries.or cfg.maxRetries).map (· + 1)
  let generation := (fence.map (·.generation)).getD id
  { entries := entries.insert key ⟨⟨id, work, generation, fence⟩, remaining, .pending⟩
    nextId := if id < u64Max then some (id + 1) else none
    stopped }

/-- `enqueue_work`. `current` is `fence.is_current()`, asked before the queue is locked. -/
def enqueueWork (cfg : Config) (ops : MarkerWork M R) (q : Queue K V M R) (now : Timestamp)
    (order : List (RecoveryKey K R)) (work : RecoveryWork K V M) (fence : Option Fence)
    (current : Bool) : EnqueueOutcome × Queue K V M R :=
  if !cfg.enabled then (.disabled, q)
  else if q.stopped then (.stopped, q)
  else if (work.expiresAt ops).any fun expiry => expiry ≤ now then (.expired, q)
  else if fence.isSome && !current then (.superseded, q)
  else
    let key := work.key ops
    let existing := q.entries.lookup key
    if existing.any fun queued => isOlder ops work fence queued.ticket then (.superseded, q)
    else
      match existing.elim (some work) fun queued => work.inherit ops queued.ticket.work with
      | none => (.inheritFailed, q)
      | some work =>
        match q.makeRoom ops cfg.maxItems order key work with
        | none => (.capacityRejected, q)
        | some entries =>
          match q.nextId with
          -- The victim is gone by then.
          | none => (.identityExhausted, { q with entries })
          | some id =>
            (if existing.isSome then .replaced id else .queued id,
              admitTicket cfg entries q.stopped key id work fence)

/-- `supersede_through`. -/
def supersedeThrough (q : Queue K V M R) (key : K) (generation : Nat) : Queue K V M R :=
  if (q.entries.lookup (.data key)).any fun queued => queued.ticket.generation ≤ generation then
    q.remove (.data key)
  else q

/-- `cancel_through`. -/
def cancelThrough (ops : MarkerWork M R) (q : Queue K V M R) (key : K) (revision : Timestamp) :
    Queue K V M R :=
  if (q.entries.lookup (.data key)).any fun queued =>
      queued.ticket.work.timestamp ops ≤ revision then
    q.remove (.data key)
  else q

/-- The queued ticket, if it is this one. -/
def find (ops : MarkerWork M R) (q : Queue K V M R) (ticket : ReplayTicket K V M) :
    Option (Queued K V M) :=
  (q.entries.lookup (ticket.work.key ops)).filter fun queued => queued.ticket.id = ticket.id

/-- `notification_stage`. -/
def notificationStage (ops : MarkerWork M R) (q : Queue K V M R) (ticket : ReplayTicket K V M) :
    Queue K V M R :=
  match q.find ops ticket with
  | none => q
  | some queued =>
    match queued.ticket.work.notification ops with
    | none => q
    | some work =>
      q.put (ticket.work.key ops) { queued with ticket := { queued.ticket with work } }

/-- `marker_population_stage`. -/
def markerPopulationStage (ops : MarkerWork M R) (q : Queue K V M R) (ticket : ReplayTicket K V M)
    (work : M) : Queue K V M R :=
  match q.find ops ticket with
  | none => q
  | some queued =>
    q.put (ticket.work.key ops)
      { queued with ticket := { queued.ticket with work := .marker work } }

/-- `complete`. -/
def complete (ops : MarkerWork M R) (q : Queue K V M R) (ticket : ReplayTicket K V M) :
    Queue K V M R :=
  match q.find ops ticket with
  | none => q
  | some _ => q.remove (ticket.work.key ops)

/-- `record_failure`. -/
def recordFailure (ops : MarkerWork M R) (q : Queue K V M R) (ticket : ReplayTicket K V M) :
    Queue K V M R :=
  match q.find ops ticket with
  | none => q
  | some queued =>
    match queued.remaining with
    | some 0 | some 1 => q.remove (ticket.work.key ops)
    | some (n + 2) =>
      q.put (ticket.work.key ops) { queued with remaining := some (n + 1), state := .pending }
    | none => q.put (ticket.work.key ops) { queued with state := .pending }

/-- `claim`. -/
def claim (q : Queue K V M R) (key : RecoveryKey K R) :
    Option (ReplayTicket K V M × Queue K V M R) :=
  match q.entries.lookup key with
  | none => none
  | some queued =>
    if queued.state = .inFlight then none
    else
      some (queued.ticket, q.put key { queued with state := .inFlight })

/-- `stop`. -/
def stop (q : Queue K V M R) : Queue K V M R := { q with entries := ∅, stopped := true }

/-- The drop of an unfinished `ReplayClaim`. -/
def unclaim (ops : MarkerWork M R) (q : Queue K V M R) (ticket : ReplayTicket K V M) :
    Queue K V M R :=
  match q.find ops ticket with
  | none => q
  | some queued => q.put (ticket.work.key ops) { queued with state := .pending }

/-! ## What the operations do to the tickets -/

section

variable {ops : MarkerWork M R} {q : Queue K V M R}

/-- Every ticket of `q'` is one of `q`, unchanged. -/
structure Keeps (q q' : Queue K V M R) : Prop where
  entries : ∀ key queued, q'.entries.lookup key = some queued → q.entries.lookup key = some queued
  nextId : q'.nextId = q.nextId

theorem Keeps.refl (q : Queue K V M R) : q.Keeps q := ⟨fun _ _ h => h, rfl⟩

theorem lookup_put (q : Queue K V M R) (key : RecoveryKey K R) (queued : Queued K V M)
    (other : RecoveryKey K R) :
    (q.put key queued).entries.lookup other =
      if other = key then some queued else q.entries.lookup other := by
  unfold put
  split
  · rename_i h
    rw [h, AList.lookup_insert]
  · rename_i h
    exact AList.lookup_insert_ne h

theorem lookup_erase_of_some {α : Type} [DecidableEq α] {β : Type}
    {entries : AList fun _ : α => β} {gone key : α} {b : β}
    (h : (entries.erase gone).lookup key = some b) : key ≠ gone ∧ entries.lookup key = some b := by
  by_cases heq : key = gone
  · rw [heq, AList.lookup_erase] at h
    cases h
  · exact ⟨heq, by rwa [AList.lookup_erase_ne heq] at h⟩

theorem remove_keeps (q : Queue K V M R) (key : RecoveryKey K R) : q.Keeps (q.remove key) :=
  ⟨fun _ _ h => (lookup_erase_of_some h).2, rfl⟩

theorem supersedeThrough_keeps (q : Queue K V M R) (key : K) (generation : Nat) :
    q.Keeps (q.supersedeThrough key generation) := by
  unfold supersedeThrough
  split
  · exact q.remove_keeps _
  · exact .refl q

theorem cancelThrough_keeps (q : Queue K V M R) (key : K) (revision : Timestamp) :
    q.Keeps (q.cancelThrough ops key revision) := by
  unfold cancelThrough
  split
  · exact q.remove_keeps _
  · exact .refl q

theorem find_eq_some {ticket : ReplayTicket K V M} {queued : Queued K V M} :
    q.find ops ticket = some queued ↔
      q.entries.lookup (ticket.work.key ops) = some queued ∧ queued.ticket.id = ticket.id := by
  simp [find, Option.filter_eq_some_iff]

theorem complete_keeps (q : Queue K V M R) (ticket : ReplayTicket K V M) :
    q.Keeps (q.complete ops ticket) := by
  unfold complete
  split
  · exact .refl q
  · exact q.remove_keeps _

theorem evict_sub {order : List (RecoveryKey K R)} {bound : Timestamp} {key : RecoveryKey K R}
    {queued : Queued K V M} (h : (q.evict ops order bound).lookup key = some queued) :
    q.entries.lookup key = some queued := by
  unfold evict at h
  split at h
  · split at h
    · exact (lookup_erase_of_some h).2
    · exact h
  · exact h

/-- The same ticket: identity, fence, and the key if it is one of data. -/
structure SameTicket (ops : MarkerWork M R) (ticket ticket' : ReplayTicket K V M) : Prop where
  id : ticket'.id = ticket.id
  fence : ticket'.fence = ticket.fence
  key : ∀ key, ticket.work.key ops = .data key → ticket'.work.key ops = .data key

omit [DecidableEq K] [DecidableEq R] in
theorem SameTicket.refl (ticket : ReplayTicket K V M) : SameTicket ops ticket ticket :=
  ⟨rfl, rfl, fun _ h => h⟩

/-- Every ticket of `q'` is one of `q`. -/
structure Traces (ops : MarkerWork M R) (q q' : Queue K V M R) : Prop where
  entries : ∀ key queued', q'.entries.lookup key = some queued' →
    ∃ queued, q.entries.lookup key = some queued ∧ SameTicket ops queued.ticket queued'.ticket
  nextId : q'.nextId = q.nextId

theorem Keeps.traces {q q' : Queue K V M R} (h : q.Keeps q') : q.Traces ops q' where
  entries := fun key queued hlookup => ⟨queued, h.entries key queued hlookup, .refl _⟩
  nextId := h.nextId

theorem put_traces {key : RecoveryKey K R} {queued queued' : Queued K V M}
    (h : q.entries.lookup key = some queued) (hsame : SameTicket ops queued.ticket queued'.ticket) :
    q.Traces ops (q.put key queued') where
  entries := fun other found hfound => by
    rw [lookup_put] at hfound
    split at hfound
    · rename_i hkey
      obtain rfl := Option.some.inj hfound
      exact ⟨queued, hkey ▸ h, hsame⟩
    · exact ⟨found, hfound, .refl _⟩
  nextId := rfl

omit [DecidableEq K] [DecidableEq R] in
/-- What is left of data work is work of the same key. -/
theorem notification_key {work work' : RecoveryWork K V M} {key : K}
    (h : work.notification ops = some work') (hkey : work.key ops = .data key) :
    work'.key ops = .data key := by
  unfold RecoveryWork.notification at h
  split at h
  · obtain rfl := Option.some.inj h
    exact hkey
  · obtain rfl := Option.some.inj h
    exact hkey
  · obtain rfl := Option.some.inj h
    exact hkey
  · cases h
  · cases hkey

variable (ops) in
theorem notificationStage_traces (q : Queue K V M R) (ticket : ReplayTicket K V M) :
    q.Traces ops (q.notificationStage ops ticket) := by
  unfold notificationStage
  split
  · exact (Keeps.refl q).traces
  · rename_i hfind
    split
    · exact (Keeps.refl q).traces
    · rename_i hwork
      exact put_traces (find_eq_some.mp hfind).1 ⟨rfl, rfl, fun _ => notification_key hwork⟩

theorem recordFailure_traces (q : Queue K V M R) (ticket : ReplayTicket K V M) :
    q.Traces ops (q.recordFailure ops ticket) := by
  unfold recordFailure
  split
  · exact (Keeps.refl q).traces
  · rename_i hfind
    split
    · exact (q.remove_keeps _).traces
    · exact (q.remove_keeps _).traces
    · exact put_traces (find_eq_some.mp hfind).1 (.refl _)
    · exact put_traces (find_eq_some.mp hfind).1 (.refl _)

theorem unclaim_traces (q : Queue K V M R) (ticket : ReplayTicket K V M) :
    q.Traces ops (q.unclaim ops ticket) := by
  unfold unclaim
  split
  · exact (Keeps.refl q).traces
  · rename_i hfind
    exact put_traces (find_eq_some.mp hfind).1 (.refl _)

/-- A claim hands out the pending ticket of the key and marks it. -/
theorem claim_eq_some {key : RecoveryKey K R} {ticket : ReplayTicket K V M}
    {q' : Queue K V M R} (h : q.claim key = some (ticket, q')) :
    ∃ queued, q.entries.lookup key = some queued ∧ queued.ticket = ticket
      ∧ queued.state = .pending ∧ q' = q.put key { queued with state := .inFlight } := by
  unfold claim at h
  split at h
  · cases h
  · rename_i queued hlookup
    split at h
    · cases h
    · rename_i hstate
      cases h
      refine ⟨queued, hlookup, rfl, ?_, rfl⟩
      cases hs : queued.state with
      | pending => rfl
      | inFlight => exact absurd hs hstate

theorem makeRoom_sub {limit : Option Nat} {order : List (RecoveryKey K R)}
    {key : RecoveryKey K R} {work : RecoveryWork K V M}
    {entries : AList fun _ : RecoveryKey K R => Queued K V M}
    (h : q.makeRoom ops limit order key work = some entries) (other : RecoveryKey K R)
    (queued : Queued K V M) (hother : entries.lookup other = some queued) :
    q.entries.lookup other = some queued := by
  unfold makeRoom at h
  split at h
  · obtain rfl := Option.some.inj h
    exact hother
  · split at h
    · obtain rfl := Option.some.inj h
      exact hother
    · dsimp only at h
      split at h
      · cases h
      · obtain rfl := Option.some.inj h
        exact evict_sub hother

/-- The three things `enqueue_work` does to the queue: nothing, losing a victim without admitting
the work, and admitting it under the next identity. -/
inductive Enqueuing (cfg : Config) (ops : MarkerWork M R) (q : Queue K V M R) (now : Timestamp)
    (order : List (RecoveryKey K R)) (work : RecoveryWork K V M) (fence : Option Fence)
    (current : Bool) : EnqueueOutcome → Queue K V M R → Prop
  | refused {outcome : EnqueueOutcome} (houtcome : outcome.isQueued = false) :
      Enqueuing cfg ops q now order work fence current outcome q
  | lost {work' : RecoveryWork K V M} {entries : AList fun _ : RecoveryKey K R => Queued K V M}
      (hnone : q.nextId = none) (henabled : cfg.enabled = true) (hrunning : q.stopped = false)
      (hunexpired : ∀ expiry, work.expiresAt ops = some expiry → now < expiry)
      (hcurrent : fence.isSome = true → current = true)
      (hwork : work' = work ∨ ∃ previous, q.entries.lookup (work.key ops) = some previous ∧
        work.inherit ops previous.ticket.work = some work')
      (hroom : q.makeRoom ops cfg.maxItems order (work.key ops) work' = some entries) :
      Enqueuing cfg ops q now order work fence current .identityExhausted { q with entries }
  | admitted {outcome : EnqueueOutcome} {id : RecoveryId} {work' : RecoveryWork K V M}
      {entries : AList fun _ : RecoveryKey K R => Queued K V M}
      (houtcome : outcome = .queued id ∨ outcome = .replaced id) (hid : q.nextId = some id)
      (hwork : work' = work ∨ ∃ previous, q.entries.lookup (work.key ops) = some previous ∧
        work.inherit ops previous.ticket.work = some work')
      (hnewer : ∀ previous, q.entries.lookup (work.key ops) = some previous →
        isOlder ops work fence previous.ticket = false)
      (hroom : q.makeRoom ops cfg.maxItems order (work.key ops) work' = some entries) :
      Enqueuing cfg ops q now order work fence current outcome
        (admitTicket cfg entries q.stopped (work.key ops) id work' fence)

variable (q ops) in
theorem enqueuing_of_enqueueWork (cfg : Config) (now : Timestamp) (order : List (RecoveryKey K R))
    (work : RecoveryWork K V M) (fence : Option Fence) (current : Bool) :
    Enqueuing cfg ops q now order work fence current
      (q.enqueueWork cfg ops now order work fence current).1
      (q.enqueueWork cfg ops now order work fence current).2 := by
  unfold enqueueWork
  split
  · exact .refused rfl
  rename_i henabled
  split
  · exact .refused rfl
  rename_i hrunning
  split
  · exact .refused rfl
  rename_i hunexpired
  split
  · exact .refused rfl
  rename_i hcurrent
  dsimp only
  split
  · exact .refused rfl
  rename_i hnewer
  split
  · exact .refused rfl
  rename_i work' hwork
  have hwork : work' = work ∨ ∃ previous, q.entries.lookup (work.key ops) = some previous ∧
      work.inherit ops previous.ticket.work = some work' := by
    cases hexisting : q.entries.lookup (work.key ops) with
    | none =>
      rw [hexisting] at hwork
      exact .inl (Option.some.inj hwork).symm
    | some previous =>
      rw [hexisting] at hwork
      exact .inr ⟨previous, rfl, hwork⟩
  split
  · exact .refused rfl
  rename_i entries hentries
  split
  · rename_i hnone
    refine .lost hnone (by simpa using henabled) (by simpa using hrunning)
      (fun expiry hexpiry => ?_) (fun hfence => ?_) hwork hentries
    · rw [hexpiry] at hunexpired
      exact not_le.mp fun hle => hunexpired (decide_eq_true hle)
    · rw [hfence] at hcurrent
      simpa using hcurrent
  rename_i id hid
  refine .admitted ?_ hid hwork (fun previous hprevious => ?_) hentries
  · split
    · exact .inr rfl
    · exact .inl rfl
  · rw [hprevious] at hnewer
    exact eq_false_of_ne_true hnewer

/-- The identity after an admission. -/
theorem nextId_admitTicket {cfg : Config} {entries : AList fun _ : RecoveryKey K R => Queued K V M}
    {stopped : Bool} {key : RecoveryKey K R} {id n : RecoveryId} {work : RecoveryWork K V M}
    {fence : Option Fence}
    (h : (admitTicket cfg entries stopped key id work fence).nextId = some n) : n = id + 1 := by
  simp only [admitTicket] at h
  split at h
  · exact (Option.some.inj h).symm
  · cases h

/-- What `enqueue_work` of a data mutation does to the queue. -/
inductive Enqueued (q : Queue K V M R) (item : RecoveryItem K) (pending : PendingMutation K V)
    (fence : Option Fence) : EnqueueOutcome → Queue K V M R → Prop
  | refused {outcome : EnqueueOutcome} {q' : Queue K V M R} (houtcome : outcome.isQueued = false)
      (hkeeps : q.Keeps q') : Enqueued q item pending fence outcome q'
  | admitted {outcome : EnqueueOutcome} {q' : Queue K V M R} {id : RecoveryId}
      {queued : Queued K V M}
      (houtcome : outcome = .queued id ∨ outcome = .replaced id) (hid : q.nextId = some id)
      (hnext : ∀ n, q'.nextId = some n → n = id + 1)
      (hticket : queued.ticket.id = id ∧ queued.ticket.work = .data item pending
        ∧ queued.ticket.fence = fence)
      (hstate : queued.state = .pending)
      (hlookup : q'.entries.lookup (.data item.key) = some queued)
      (hothers : ∀ key other, key ≠ .data item.key → q'.entries.lookup key = some other →
        q.entries.lookup key = some other) : Enqueued q item pending fence outcome q'

variable (q ops) in
theorem enqueued_of_enqueueWork (cfg : Config) (now : Timestamp)
    (order : List (RecoveryKey K R)) (item : RecoveryItem K) (pending : PendingMutation K V)
    (fence : Option Fence) (current : Bool) :
    Enqueued q item pending fence
      (q.enqueueWork cfg ops now order (.data item pending) fence current).1
      (q.enqueueWork cfg ops now order (.data item pending) fence current).2 := by
  generalize hresult : q.enqueueWork cfg ops now order (.data item pending) fence current = result
  have henqueuing := enqueuing_of_enqueueWork ops q cfg now order (.data item pending) fence current
  rw [hresult] at henqueuing
  obtain ⟨outcome, q'⟩ := result
  cases henqueuing with
  | refused houtcome => exact .refused houtcome (.refl _)
  | lost _ _ _ _ _ _ hroom => exact .refused rfl ⟨makeRoom_sub hroom, rfl⟩
  | @admitted _ id work' entries houtcome hid hwork _ hroom =>
    -- Data work is not changed by what it replaces.
    have hsame : work' = .data item pending := by
      rcases hwork with hwork | ⟨previous, -, hwork⟩
      · exact hwork
      · exact (Option.some.inj hwork).symm
    refine .admitted houtcome hid (fun _ => nextId_admitTicket) ⟨rfl, hsame, rfl⟩ rfl
      (AList.lookup_insert entries) ?_
    intro key other hkey hother
    have hlookup : (entries.insert (.data item.key) _).lookup key = some other := hother
    rw [AList.lookup_insert_ne hkey] at hlookup
    exact makeRoom_sub hroom key other hlookup

/-- Marker work never adds a data ticket, and may take an identity. -/
theorem enqueueWork_marker {cfg : Config} {now : Timestamp} {order : List (RecoveryKey K R)}
    {work : M} {fence : Option Fence} {current : Bool} {q' : Queue K V M R}
    (h : (q.enqueueWork cfg ops now order (.marker work) fence current).2 = q') :
    (∀ key queued, q'.entries.lookup (.data key) = some queued →
      q.entries.lookup (.data key) = some queued) ∧
    ∀ n, q'.nextId = some n → ∃ m, q.nextId = some m ∧ m ≤ n := by
  subst h
  generalize hresult : q.enqueueWork cfg ops now order (.marker work) fence current = result
  have henqueuing := enqueuing_of_enqueueWork ops q cfg now order (.marker work) fence current
  rw [hresult] at henqueuing
  obtain ⟨outcome, q'⟩ := result
  cases henqueuing with
  | refused => exact ⟨fun _ _ h => h, fun n hn => ⟨n, hn, Nat.le_refl n⟩⟩
  | lost _ _ _ _ _ _ hroom =>
    exact ⟨fun _ _ h => makeRoom_sub hroom _ _ h, fun n hn => ⟨n, hn, Nat.le_refl n⟩⟩
  | @admitted _ id work' entries _ hid _ _ hroom =>
    refine ⟨fun key queued hlookup => ?_, fun n hn => ⟨id, hid, ?_⟩⟩
    · have hinsert : (entries.insert (.marker (ops.key work)) _).lookup (.data key) = some queued :=
        hlookup
      have hne : RecoveryKey.data key ≠ .marker (ops.key work) := nofun
      rw [AList.lookup_insert_ne hne] at hinsert
      exact makeRoom_sub hroom _ _ hinsert
    · rw [nextId_admitTicket hn]
      exact Nat.le_succ id

end

end Queue

end Recovery

end Amalgam
