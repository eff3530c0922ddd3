import Amalgam.Lib.Run
import Amalgam.Recovery.MarkerTickets

/-!
# Amalgam — drain passes over the recovery queue

`drain_once` and `ReplayClaim` of `src/recovery.rs`: any number of passes claim tickets and replay
them, one ticket at a time each, while work is enqueued, superseded, moved to its next stage and
completed in between. Every access of the locked queue is one step.

* **`Sound`** — what holds of the queue and of the claimed tickets in every reachable state.
-/

namespace Amalgam

namespace Recovery

open Commit
open Run (Reachable)

inductive ReplayOutcome where
  | paused
  | applied
  | superseded
  | expired
deriving DecidableEq

/-- `Result<ReplayOutcome>` -/
inductive ReplayResult where
  | ok (outcome : ReplayOutcome)
  | error
deriving DecidableEq

/-- Where a pass stands, with the keys that it has not visited yet. -/
inductive Pass (K V M R : Type) where
  | idle
  | scanning (rest : List (RecoveryKey K R))
  /-- Claimed, and not yet looked at. -/
  | claimed (ticket : ReplayTicket K V M) (rest : List (RecoveryKey K R))
  /-- Under a `ReplayClaim`. -/
  | replaying (ticket : ReplayTicket K V M) (rest : List (RecoveryKey K R))

/-- The ticket that the pass has claimed and not released. -/
def Pass.ticket {K V M R : Type} : Pass K V M R → Option (ReplayTicket K V M)
  | .idle | .scanning _ => none
  | .claimed ticket _ | .replaying ticket _ => some ticket

/-- The retries that a ticket was admitted with and its recorded failures are only remembered. -/
structure Service (K V M R : Type) where
  queue : Queue K V M R
  pass : Nat → Pass K V M R
  retries : RecoveryId → Option Nat
  failures : RecoveryId → Nat

inductive Action (K V M R : Type) where
  | enqueue (now : Timestamp) (order : List (RecoveryKey K R)) (work : RecoveryWork K V M)
      (fence : Option Fence) (current : Bool)
  | supersedeThrough (key : K) (generation : Nat)
  | cancelThrough (key : K) (revision : Timestamp)
  | notificationStage (ticket : ReplayTicket K V M)
  | markerPopulationStage (ticket : ReplayTicket K V M) (work : M)
  | complete (ticket : ReplayTicket K V M)
  | stop
  /-- `drain_once`; `keys` are those of the queue, in the iteration order of the map. -/
  | drain (i : Nat) (keys : List (RecoveryKey K R))
  | visit (i : Nat)
  /-- `current` is `fence_is_current`. -/
  | check (i : Nat) (now : Timestamp) (current : Bool)
  | settle (i : Nat) (result : ReplayResult)
  /-- The pass is dropped. -/
  | cancel (i : Nat)

def EnqueueOutcome.id : EnqueueOutcome → Option RecoveryId
  | .queued id | .replaced id => some id
  | _ => none

namespace Service

variable {K V M R : Type} [DecidableEq K] [DecidableEq R]

def init : Service K V M R := ⟨.empty, fun _ => .idle, fun _ => none, fun _ => 0⟩

def goto (s : Service K V M R) (i : Nat) (pass : Pass K V M R) : Service K V M R :=
  { s with pass := Function.update s.pass i pass }

/-- The end of a replay. -/
def settle (ops : MarkerWork M R) (s : Service K V M R) (ticket : ReplayTicket K V M) :
    ReplayResult → Service K V M R
  | .ok .paused => { s with queue := s.queue.unclaim ops ticket }
  | .ok .applied | .ok .superseded | .ok .expired =>
    { s with queue := s.queue.complete ops ticket }
  | .error =>
    { s with
      queue := s.queue.recordFailure ops ticket
      failures :=
        if (s.queue.find ops ticket).isSome then
          Function.update s.failures ticket.id (s.failures ticket.id + 1)
        else s.failures }

def next (cfg : Config) (ops : MarkerWork M R) (s : Service K V M R) :
    Action K V M R → Option (Service K V M R)
  | .enqueue now order work fence current =>
    let result := s.queue.enqueueWork cfg ops now order work fence current
    some { s with
      queue := result.2
      retries := result.1.id.elim s.retries fun id =>
        Function.update s.retries id (work.retries.or cfg.maxRetries) }
  | .supersedeThrough key generation =>
    some { s with queue := s.queue.supersedeThrough key generation }
  | .cancelThrough key revision => some { s with queue := s.queue.cancelThrough ops key revision }
  | .notificationStage ticket => some { s with queue := s.queue.notificationStage ops ticket }
  | .markerPopulationStage ticket work =>
    -- a later stage of the work of the ticket
    if ticket.work.key ops = .marker (ops.key work) then
      some { s with queue := s.queue.markerPopulationStage ops ticket work }
    else none
  | .complete ticket => some { s with queue := s.queue.complete ops ticket }
  | .stop => some { s with queue := s.queue.stop }
  | .drain i keys =>
    match s.pass i with
    | .idle => some (s.goto i (.scanning keys))
    | _ => none
  | .visit i =>
    match s.pass i with
    | .scanning [] => some (s.goto i .idle)
    | .scanning (key :: rest) =>
      match s.queue.claim key with
      | none => some (s.goto i (.scanning rest))
      | some (ticket, queue) => some ({ s with queue }.goto i (.claimed ticket rest))
    | _ => none
  | .check i now current =>
    match s.pass i with
    | .claimed ticket rest =>
      if ((ticket.work.expiresAt ops).any fun expiry => expiry ≤ now) ∨
          (ticket.fence.isSome && !current) then
        some ({ s with queue := s.queue.complete ops ticket }.goto i (.scanning rest))
      else some (s.goto i (.replaying ticket rest))
    | _ => none
  | .settle i result =>
    match s.pass i with
    | .replaying ticket rest => some ((s.settle ops ticket result).goto i (.scanning rest))
    | _ => none
  | .cancel i =>
    match s.pass i with
    | .replaying ticket _ =>
      some ({ s with queue := s.queue.unclaim ops ticket }.goto i .idle)
    | _ => none

/-! ## The invariant -/

structure Sound (cfg : Config) (ops : MarkerWork M R) (s : Service K V M R) : Prop where
  keyed : ∀ key queued, s.queue.entries.lookup key = some queued →
    queued.ticket.work.key ops = key
  issued : ∀ n, s.queue.nextId = some n →
    (∀ key queued, s.queue.entries.lookup key = some queued → queued.ticket.id < n) ∧
    (∀ i ticket, (s.pass i).ticket = some ticket → ticket.id < n) ∧
    ∀ id, n ≤ id → s.failures id = 0
  distinct : ∀ key key' queued queued', s.queue.entries.lookup key = some queued →
    s.queue.entries.lookup key' = some queued' → queued.ticket.id = queued'.ticket.id → key = key'
  inFlight : ∀ i ticket key queued, (s.pass i).ticket = some ticket →
    s.queue.entries.lookup key = some queued → queued.ticket.id = ticket.id →
    ticket.work.key ops = key ∧ queued.state = .inFlight
  alone : ∀ i j ticket ticket', (s.pass i).ticket = some ticket →
    (s.pass j).ticket = some ticket' → ticket.id = ticket'.id → i = j
  budget : ∀ key queued, s.queue.entries.lookup key = some queued →
    queued.remaining
        = (s.retries queued.ticket.id).map (· + 1 - s.failures queued.ticket.id) ∧
      ∀ retries, s.retries queued.ticket.id = some retries →
        s.failures queued.ticket.id ≤ retries
  bounded : ∀ limit, cfg.maxItems = some limit → s.queue.entries.size ≤ limit

/-- Every pass that has a ticket in `pass'` has it in `pass`. -/
def Releases (pass pass' : Nat → Pass K V M R) : Prop :=
  ∀ i ticket, (pass' i).ticket = some ticket → (pass i).ticket = some ticket

omit [DecidableEq K] [DecidableEq R] in
theorem Releases.refl (pass : Nat → Pass K V M R) : Releases pass pass := fun _ _ h => h

omit [DecidableEq K] [DecidableEq R] in
theorem releases_update {pass : Nat → Pass K V M R} {i : Nat} {p : Pass K V M R}
    (h : ∀ ticket, p.ticket = some ticket → (pass i).ticket = some ticket) :
    Releases pass (Function.update pass i p) := fun j ticket hj => by
  by_cases heq : j = i
  · subst heq
    rw [Function.update_self] at hj
    exact h ticket hj
  · rwa [Function.update_of_ne heq] at hj

omit [DecidableEq K] [DecidableEq R] in
theorem releases_none {pass : Nat → Pass K V M R} {i : Nat} {p : Pass K V M R}
    (h : p.ticket = none) : Releases pass (Function.update pass i p) :=
  releases_update fun _ hticket => by
    rw [h] at hticket
    cases hticket

variable {cfg : Config} {ops : MarkerWork M R} {s : Service K V M R}

theorem sound_init : Sound cfg ops (init : Service K V M R) where
  keyed := fun _ _ h => nomatch h
  issued := fun _ _ => ⟨fun _ _ h => (nomatch h), fun _ _ h => (nomatch h), fun _ _ => rfl⟩
  distinct := fun _ _ _ _ h => nomatch h
  inFlight := fun _ _ _ _ h => nomatch h
  alone := fun _ _ _ _ h => nomatch h
  budget := fun _ _ h => nomatch h
  bounded := fun _ _ => Nat.zero_le _

theorem size_le_of_keeps {q q' : Queue K V M R} (h : q.Keeps q') :
    q'.entries.size ≤ q.entries.size := AList.size_le_of_mem fun key hkey => by
  obtain ⟨queued, hqueued⟩ := Option.isSome_iff_exists.mp (AList.lookup_isSome.mpr hkey)
  exact AList.lookup_isSome.mp (by rw [h.entries key queued hqueued]; rfl)

/-- Losing tickets and releasing claims. -/
theorem Sound.keeps {q' : Queue K V M R} {pass' : Nat → Pass K V M R} (h : Sound cfg ops s)
    (hkeeps : s.queue.Keeps q') (hpass : Releases s.pass pass') :
    Sound cfg ops { s with queue := q', pass := pass' } where
  keyed := fun key queued hlookup => h.keyed key queued (hkeeps.entries key queued hlookup)
  issued := fun n hn => by
    obtain ⟨hentries, hheld, hfailures⟩ := h.issued n (hkeeps.nextId ▸ hn)
    exact ⟨fun key queued hlookup => hentries key queued (hkeeps.entries key queued hlookup),
      fun i ticket hi => hheld i ticket (hpass i ticket hi), hfailures⟩
  distinct := fun key key' queued queued' hlookup hlookup' =>
    h.distinct key key' queued queued' (hkeeps.entries key queued hlookup)
      (hkeeps.entries key' queued' hlookup')
  inFlight := fun i ticket key queued hi hlookup =>
    h.inFlight i ticket key queued (hpass i ticket hi) (hkeeps.entries key queued hlookup)
  alone := fun i j ticket ticket' hi hj =>
    h.alone i j ticket ticket' (hpass i ticket hi) (hpass j ticket' hj)
  budget := fun key queued hlookup => h.budget key queued (hkeeps.entries key queued hlookup)
  bounded := fun limit hlimit => (size_le_of_keeps hkeeps).trans (h.bounded limit hlimit)

/-- Another form of a queued ticket, unless its claim is released with a failure. -/
theorem Sound.put {key : RecoveryKey K R} {queued : Queued K V M} (queued' : Queued K V M)
    {pass' : Nat → Pass K V M R} (h : Sound cfg ops s)
    (hlookup : s.queue.entries.lookup key = some queued) (hid : queued'.ticket.id = queued.ticket.id)
    (hkey : queued'.ticket.work.key ops = key) (hremaining : queued'.remaining = queued.remaining)
    (hpass : Releases s.pass pass')
    (hstate : ∀ i ticket, (pass' i).ticket = some ticket → ticket.id = queued.ticket.id →
      queued'.state = queued.state) :
    Sound cfg ops { s with queue := s.queue.put key queued', pass := pass' } := by
  have hcases : ∀ other found, (s.queue.put key queued').entries.lookup other = some found →
      (other = key ∧ found = queued') ∨ s.queue.entries.lookup other = some found := by
    intro other found hfound
    rw [Queue.lookup_put] at hfound
    split at hfound
    · rename_i hother
      exact .inl ⟨hother, (Option.some.inj hfound).symm⟩
    · exact .inr hfound
  have hwas : ∀ other found, (s.queue.put key queued').entries.lookup other = some found →
      ∃ was, s.queue.entries.lookup other = some was ∧ was.ticket.id = found.ticket.id ∧
        was.remaining = found.remaining := by
    intro other found hfound
    rcases hcases other found hfound with ⟨rfl, rfl⟩ | hold
    · exact ⟨queued, hlookup, hid.symm, hremaining.symm⟩
    · exact ⟨found, hold, rfl, rfl⟩
  refine ⟨fun other found hfound => ?_, fun n hn => ?_, ?_, ?_, ?_, fun other found hfound => ?_,
    fun limit hlimit => ?_⟩
  · rcases hcases other found hfound with ⟨rfl, rfl⟩ | hold
    · exact hkey
    · exact h.keyed other found hold
  · obtain ⟨hentries, hheld, hfailures⟩ := h.issued n hn
    refine ⟨fun other found hfound => ?_, fun i ticket hi => hheld i ticket (hpass i ticket hi),
      hfailures⟩
    obtain ⟨was, hwas, heq, -⟩ := hwas other found hfound
    exact heq ▸ hentries other was hwas
  · intro one other found found' hfound hfound' heq
    obtain ⟨was, hone, hsame, -⟩ := hwas one found hfound
    obtain ⟨was', hother, hsame', -⟩ := hwas other found' hfound'
    exact h.distinct one other was was' hone hother (by rw [hsame, hsame', heq])
  · intro i ticket other found hi hfound heq
    rcases hcases other found hfound with ⟨rfl, rfl⟩ | hold
    · rw [hid] at heq
      obtain ⟨hticket, hflight⟩ :=
        h.inFlight i ticket other queued (hpass i ticket hi) hlookup heq
      exact ⟨hticket, (hstate i ticket hi heq.symm).trans hflight⟩
    · exact h.inFlight i ticket other found (hpass i ticket hi) hold heq
  · exact fun i j ticket ticket' hi hj =>
      h.alone i j ticket ticket' (hpass i ticket hi) (hpass j ticket' hj)
  · obtain ⟨was, hother, hsame, hleft⟩ := hwas other found hfound
    have hbudget := h.budget other was hother
    rwa [hsame, hleft] at hbudget
  · refine le_trans (AList.size_le_of_mem fun other hother => ?_) (h.bounded limit hlimit)
    obtain ⟨found, hfound⟩ := Option.isSome_iff_exists.mp (AList.lookup_isSome.mpr hother)
    obtain ⟨was, hwas, -⟩ := hwas other found hfound
    exact AList.lookup_isSome.mp (by rw [hwas]; rfl)

/-- A pending ticket is marked and held. -/
theorem Sound.hold {key : RecoveryKey K R} {queued : Queued K V M} {i : Nat}
    {rest : List (RecoveryKey K R)} (h : Sound cfg ops s)
    (hlookup : s.queue.entries.lookup key = some queued) (hpending : queued.state = .pending) :
    Sound cfg ops ({ s with queue := s.queue.put key { queued with state := .inFlight } }.goto i
      (.claimed queued.ticket rest)) := by
  have hfree : ∀ j ticket, (s.pass j).ticket = some ticket → ticket.id ≠ queued.ticket.id := by
    intro j ticket hj heq
    have hflight := (h.inFlight j ticket key queued hj hlookup heq.symm).2
    rw [hpending] at hflight
    cases hflight
  have hput := Sound.put { queued with state := .inFlight } h hlookup rfl
    (h.keyed key queued hlookup) rfl (.refl s.pass) fun j ticket hj heq => absurd heq (hfree j ticket hj)
  have hhere : (s.queue.put key { queued with state := .inFlight }).entries.lookup key
      = some { queued with state := .inFlight } := by rw [Queue.lookup_put, if_pos rfl]
  have hheld : ∀ j ticket, (Function.update s.pass i (.claimed queued.ticket rest) j).ticket
      = some ticket → (j = i ∧ ticket = queued.ticket) ∨ (s.pass j).ticket = some ticket := by
    intro j ticket hj
    by_cases heq : j = i
    · subst heq
      rw [Function.update_self] at hj
      exact .inl ⟨rfl, (Option.some.inj hj).symm⟩
    · rw [Function.update_of_ne heq] at hj
      exact .inr hj
  refine ⟨hput.keyed, fun n hn => ?_, hput.distinct, ?_, ?_, hput.budget, hput.bounded⟩
  · obtain ⟨hentries, hbelow, hfailures⟩ := hput.issued n hn
    refine ⟨hentries, fun j ticket hj => ?_, hfailures⟩
    rcases hheld j ticket hj with ⟨-, rfl⟩ | hold
    · exact hentries key { queued with state := .inFlight } hhere
    · exact hbelow j ticket hold
  · intro j ticket other found hj hfound heq
    rcases hheld j ticket hj with ⟨-, rfl⟩ | hold
    · obtain rfl := hput.distinct other key found _ hfound hhere heq
      obtain rfl := Option.some.inj (hfound.symm.trans hhere)
      exact ⟨h.keyed other queued hlookup, rfl⟩
    · exact hput.inFlight j ticket other found hold hfound heq
  · intro j k ticket ticket' hj hk heq
    rcases hheld j ticket hj with ⟨rfl, rfl⟩ | hold <;>
      rcases hheld k ticket' hk with ⟨rfl, rfl⟩ | hold'
    · rfl
    · exact absurd heq.symm (hfree k ticket' hold')
    · exact absurd heq (hfree j ticket hold)
    · exact h.alone j k ticket ticket' hold hold' heq

/-- What is under one key changes, under an identity that nobody holds. -/
theorem Sound.replace {q' : Queue K V M R} {pass' : Nat → Pass K V M R}
    {retries' : RecoveryId → Option Nat} {failures' : RecoveryId → Nat} (key : RecoveryKey K R)
    (id : RecoveryId) (h : Sound cfg ops s)
    (hothers : ∀ other found, q'.entries.lookup other = some found → other ≠ key →
      s.queue.entries.lookup other = some found ∧ found.ticket.id ≠ id)
    (hhere : ∀ found, q'.entries.lookup key = some found →
      found.ticket.id = id ∧ found.ticket.work.key ops = key ∧
        found.remaining = (retries' id).map (· + 1 - failures' id) ∧
        ∀ retries, retries' id = some retries → failures' id ≤ retries)
    (hpass : Releases s.pass pass')
    (hfree : ∀ i ticket, (pass' i).ticket = some ticket → ticket.id ≠ id)
    (hretries : ∀ other, other ≠ id → retries' other = s.retries other)
    (hfailures : ∀ other, other ≠ id → failures' other = s.failures other)
    (hnext : ∀ n, q'.nextId = some n → id < n ∧ ∃ m, s.queue.nextId = some m ∧ m ≤ n)
    (hsize : ∀ limit, cfg.maxItems = some limit → q'.entries.size ≤ limit) :
    Sound cfg ops ⟨q', pass', retries', failures'⟩ where
  keyed := fun other found hfound => by
    by_cases heq : other = key
    · exact heq ▸ (hhere found (heq ▸ hfound)).2.1
    · exact h.keyed other found (hothers other found hfound heq).1
  issued := fun n hn => by
    obtain ⟨hid, m, hm, hmn⟩ := hnext n hn
    obtain ⟨hentries, hheld, hnone⟩ := h.issued m hm
    refine ⟨fun other found hfound => ?_,
      fun i ticket hi => (hheld i ticket (hpass i ticket hi)).trans_le hmn, fun other hother => ?_⟩
    · by_cases heq : other = key
      · exact (hhere found (heq ▸ hfound)).1 ▸ hid
      · exact (hentries other found (hothers other found hfound heq).1).trans_le hmn
    · exact (hfailures other (hid.trans_le hother).ne').trans (hnone other (hmn.trans hother))
  distinct := fun one other found found' hfound hfound' heq => by
    by_cases hone : one = key <;> by_cases hother : other = key
    · exact hone.trans hother.symm
    · have hid := (hhere found (hone ▸ hfound)).1
      exact absurd (heq.symm.trans hid) (hothers other found' hfound' hother).2
    · have hid := (hhere found' (hother ▸ hfound')).1
      exact absurd (heq.trans hid) (hothers one found hfound hone).2
    · exact h.distinct one other found found' (hothers one found hfound hone).1
        (hothers other found' hfound' hother).1 heq
  inFlight := fun i ticket other found hi hfound heq => by
    by_cases hother : other = key
    · have hid := (hhere found (hother ▸ hfound)).1
      exact absurd (heq.symm.trans hid) (hfree i ticket hi)
    · exact h.inFlight i ticket other found (hpass i ticket hi) (hothers other found hfound hother).1
        heq
  alone := fun i j ticket ticket' hi hj =>
    h.alone i j ticket ticket' (hpass i ticket hi) (hpass j ticket' hj)
  budget := fun other found hfound => by
    by_cases hother : other = key
    · obtain ⟨hid, -, hbudget⟩ := hhere found (hother ▸ hfound)
      rwa [hid]
    · obtain ⟨hold, hid⟩ := hothers other found hfound hother
      dsimp only
      rw [hretries _ hid, hfailures _ hid]
      exact h.budget other found hold
  bounded := hsize

/-! ## Steps -/

theorem makeRoom_bounded {limit : Nat} {order : List (RecoveryKey K R)} {key : RecoveryKey K R}
    {work : RecoveryWork K V M} {q : Queue K V M R} {queued : Queued K V M}
    {entries : AList fun _ : RecoveryKey K R => Queued K V M}
    (h : q.makeRoom ops (some limit) order key work = some entries)
    (hsize : q.entries.size ≤ limit) : (entries.insert key queued).size ≤ limit := by
  have herase : ∀ found, entries.lookup key = some found →
      (entries.erase key).size + 1 = entries.size := fun found hfound =>
    (AList.size_erase hfound).symm
  have hroom : entries.size < limit → (entries.insert key queued).size ≤ limit := fun hlt => by
    rw [AList.size_insert]
    have hle : (entries.erase key).size ≤ entries.size := AList.size_le_of_mem fun other hother =>
      (AList.mem_erase.mp hother).2
    omega
  unfold Queue.makeRoom at h
  dsimp only at h
  split at h
  · rename_i hfits
    obtain rfl := Option.some.inj h
    rcases hfits with hmem | hlt
    · obtain ⟨found, hfound⟩ := Option.isSome_iff_exists.mp (AList.lookup_isSome.mpr hmem)
      rw [AList.size_insert, herase found hfound]
      exact hsize
    · exact hroom hlt
  · split at h
    · cases h
    · rename_i hlt
      obtain rfl := Option.some.inj h
      exact hroom (not_le.mp hlt)

omit [DecidableEq K] [DecidableEq R] in
theorem inherit_key (hkeys : ops.KeepsKeys) {work previous work' : RecoveryWork K V M}
    (h : work.inherit ops previous = some work') :
    work'.key ops = work.key ops ∧ work'.retries = work.retries := by
  unfold RecoveryWork.inherit at h
  split at h
  · rename_i w w'
    obtain ⟨next, hnext, rfl⟩ := Option.map_eq_some_iff.mp h
    exact ⟨congrArg RecoveryKey.marker (hkeys.inherit w w' next hnext), rfl⟩
  · obtain rfl := Option.some.inj h
    exact ⟨rfl, rfl⟩

omit [DecidableEq K] [DecidableEq R] in
theorem stage_key (hkeys : ops.KeepsKeys) {work work' : RecoveryWork K V M}
    (h : work.notification ops = some work') : work'.key ops = work.key ops := by
  cases work with
  | data item pending => exact Queue.notification_key h rfl
  | marker work =>
    obtain ⟨next, hnext, rfl⟩ := Option.map_eq_some_iff.mp h
    exact congrArg RecoveryKey.marker (hkeys.notification work next hnext)

omit [DecidableEq K] [DecidableEq R] in
theorem id_of_isQueued {outcome : EnqueueOutcome} (h : outcome.isQueued = false) :
    outcome.id = none := by
  cases outcome with
  | queued _ | replaced _ => cases h
  | _ => rfl

theorem Sound.enqueue (hkeys : ops.KeepsKeys) (h : Sound cfg ops s) {now : Timestamp}
    {order : List (RecoveryKey K R)} {work : RecoveryWork K V M} {fence : Option Fence}
    {current : Bool} {s' : Service K V M R}
    (hnext : next cfg ops s (.enqueue now order work fence current) = some s') :
    Sound cfg ops s' := by
  obtain rfl := Option.some.inj hnext
  generalize hresult : s.queue.enqueueWork cfg ops now order work fence current = result
  have henqueuing := Queue.enqueuing_of_enqueueWork ops s.queue cfg now order work fence current
  rw [hresult] at henqueuing
  obtain ⟨outcome, q'⟩ := result
  cases henqueuing with
  | refused houtcome =>
    rw [id_of_isQueued houtcome]
    exact h
  | lost _ _ _ _ _ _ hroom => exact h.keeps ⟨Queue.makeRoom_sub hroom, rfl⟩ (.refl s.pass)
  | @admitted _ id work' entries houtcome hid hwork _ hroom =>
    have houtcome : outcome.id = some id := by
      rcases houtcome with rfl | rfl <;> rfl
    have hsame : work'.key ops = work.key ops ∧ work'.retries = work.retries := by
      rcases hwork with rfl | ⟨previous, -, hinherit⟩
      · exact ⟨rfl, rfl⟩
      · exact inherit_key hkeys hinherit
    obtain ⟨hentries, hheld, hnone⟩ := h.issued id hid
    rw [houtcome]
    refine Sound.replace (work.key ops) id h (fun other found hfound hother => ?_)
      (fun found hfound => ?_) (.refl s.pass) (fun i ticket hi => (hheld i ticket hi).ne)
      (fun other hother => Function.update_of_ne hother _ _) (fun _ _ => rfl)
      (fun n hn => ?_) (fun limit hlimit => ?_)
    · have hinsert : (entries.insert (work.key ops) _).lookup other = some found := hfound
      rw [AList.lookup_insert_ne hother] at hinsert
      have hold := Queue.makeRoom_sub hroom other found hinsert
      exact ⟨hold, (hentries other found hold).ne⟩
    · have hinsert : (entries.insert (work.key ops) _).lookup (work.key ops) = some found := hfound
      rw [AList.lookup_insert] at hinsert
      obtain rfl := Option.some.inj hinsert
      refine ⟨rfl, hsame.1, ?_, fun retries _ => ?_⟩
      · rw [Option.elim_some, Function.update_self, hnone id (Nat.le_refl id), ← hsame.2]
        rfl
      · rw [hnone id (Nat.le_refl id)]
        exact Nat.zero_le _
    · have hn := Queue.nextId_admitTicket hn
      exact ⟨hn ▸ Nat.lt_succ_self id, id, hid, hn ▸ Nat.le_succ id⟩
    · rw [hlimit] at hroom
      exact makeRoom_bounded hroom (h.bounded limit hlimit)

/-- Another stage of a queued ticket. -/
theorem Sound.stage {ticket : ReplayTicket K V M} {queued : Queued K V M}
    {work : RecoveryWork K V M} (h : Sound cfg ops s)
    (hfind : s.queue.find ops ticket = some queued) (hkey : work.key ops = ticket.work.key ops) :
    Sound cfg ops { s with
      queue := s.queue.put (ticket.work.key ops)
        { queued with ticket := { queued.ticket with work } } } :=
  h.put _ (Queue.find_eq_some.mp hfind).1 rfl hkey rfl (.refl s.pass) fun _ _ _ _ => rfl

theorem Sound.notificationStage (hkeys : ops.KeepsKeys) (h : Sound cfg ops s)
    (ticket : ReplayTicket K V M) :
    Sound cfg ops { s with queue := s.queue.notificationStage ops ticket } := by
  unfold Queue.notificationStage
  split
  · exact h
  · rename_i queued hfind
    split
    · exact h
    · rename_i work hwork
      refine h.stage hfind ((stage_key hkeys hwork).trans ?_)
      exact h.keyed _ queued (Queue.find_eq_some.mp hfind).1

theorem Sound.markerPopulationStage (h : Sound cfg ops s) {ticket : ReplayTicket K V M} {work : M}
    (hkey : ticket.work.key ops = .marker (ops.key work)) :
    Sound cfg ops { s with queue := s.queue.markerPopulationStage ops ticket work } := by
  unfold Queue.markerPopulationStage
  split
  · exact h
  · rename_i hfind
    exact h.stage hfind hkey.symm

/-- A pass that lets go of its ticket was the only one that held it. -/
theorem Sound.released {i : Nat} {ticket : ReplayTicket K V M} {p : Pass K V M R}
    (h : Sound cfg ops s) (hi : (s.pass i).ticket = some ticket) (hp : p.ticket = none) :
    Releases s.pass (Function.update s.pass i p) ∧
      ∀ j other, (Function.update s.pass i p j).ticket = some other → other.id ≠ ticket.id := by
  have hsub : Releases s.pass (Function.update s.pass i p) := releases_none hp
  refine ⟨hsub, fun j other hj heq => ?_⟩
  obtain rfl := h.alone j i other ticket (hsub j other hj) hi heq
  rw [Function.update_self, hp] at hj
  cases hj

theorem Sound.unclaim {i : Nat} {ticket : ReplayTicket K V M} {p : Pass K V M R}
    (h : Sound cfg ops s) (hi : (s.pass i).ticket = some ticket) (hp : p.ticket = none) :
    Sound cfg ops ({ s with queue := s.queue.unclaim ops ticket }.goto i p) := by
  obtain ⟨hsub, hfree⟩ := h.released hi hp
  unfold Queue.unclaim
  split
  · exact h.keeps (.refl s.queue) hsub
  · rename_i queued hfind
    obtain ⟨hlookup, hid⟩ := Queue.find_eq_some.mp hfind
    exact h.put _ hlookup rfl (h.keyed _ queued hlookup) rfl hsub fun j other hj heq =>
      absurd (heq.trans hid) (hfree j other hj)

theorem Sound.complete {i : Nat} {ticket : ReplayTicket K V M} {p : Pass K V M R}
    (h : Sound cfg ops s) (hi : (s.pass i).ticket = some ticket) (hp : p.ticket = none) :
    Sound cfg ops ({ s with queue := s.queue.complete ops ticket }.goto i p) :=
  h.keeps (Queue.complete_keeps s.queue ticket) (h.released hi hp).1

/-- What a recorded failure leaves under the key of its ticket. -/
theorem recordFailure_lookup {q : Queue K V M R} {ticket : ReplayTicket K V M}
    {queued : Queued K V M} (hfind : q.find ops ticket = some queued) :
    ((q.recordFailure ops ticket).entries.lookup (ticket.work.key ops)
      = if queued.remaining = some 0 ∨ queued.remaining = some 1 then none
        else some { queued with
          remaining := queued.remaining.map (· - 1), state := .pending }) ∧
    ∀ other, other ≠ ticket.work.key ops →
      (q.recordFailure ops ticket).entries.lookup other = q.entries.lookup other := by
  unfold Queue.recordFailure
  rw [hfind]
  dsimp only
  have herase : (q.remove (ticket.work.key ops)).entries.lookup (ticket.work.key ops) = none ∧
      ∀ other, other ≠ ticket.work.key ops →
        (q.remove (ticket.work.key ops)).entries.lookup other = q.entries.lookup other :=
    ⟨AList.lookup_erase _ _, fun _ hne => AList.lookup_erase_ne hne⟩
  have hput : ∀ queued' : Queued K V M,
      (q.put (ticket.work.key ops) queued').entries.lookup (ticket.work.key ops) = some queued' ∧
      ∀ other, other ≠ ticket.work.key ops →
        (q.put (ticket.work.key ops) queued').entries.lookup other = q.entries.lookup other :=
    fun queued' => ⟨AList.lookup_insert _, fun _ hne => AList.lookup_insert_ne hne⟩
  split
  · rename_i hzero
    rw [if_pos (.inl hzero)]
    exact herase
  · rename_i hone
    rw [if_pos (.inr hone)]
    exact herase
  · rename_i n hmore
    rw [if_neg (by rw [hmore]; simp), hmore]
    exact hput _
  · rename_i hnone
    rw [if_neg (by rw [hnone]; simp), hnone]
    exact hput _

theorem recordFailure_nextId {q : Queue K V M R} (ticket : ReplayTicket K V M) :
    (q.recordFailure ops ticket).nextId = q.nextId := (Queue.recordFailure_traces q ticket).nextId

theorem Sound.fail {i : Nat} {ticket : ReplayTicket K V M} {p : Pass K V M R}
    (h : Sound cfg ops s) (hi : (s.pass i).ticket = some ticket) (hp : p.ticket = none) :
    Sound cfg ops ((s.settle ops ticket .error).goto i p) := by
  obtain ⟨hsub, hfree⟩ := h.released hi hp
  cases hfind : s.queue.find ops ticket with
  | none =>
    have hsame : s.queue.recordFailure ops ticket = s.queue := by
      unfold Queue.recordFailure
      rw [hfind]
    simp only [settle, hfind, hsame, Option.isSome_none, Bool.false_eq_true, if_false]
    exact h.keeps (.refl s.queue) hsub
  | some queued =>
    obtain ⟨hlookup, hid⟩ := Queue.find_eq_some.mp hfind
    obtain ⟨hhere, hothers⟩ := recordFailure_lookup hfind
    obtain ⟨hbudget, hfits⟩ := h.budget _ queued hlookup
    simp only [settle, hfind, Option.isSome_some, if_true]
    refine Sound.replace (ticket.work.key ops) ticket.id h
      (fun other found hfound hother => ?_) (fun found hfound => ?_) hsub hfree
      (fun _ _ => rfl) (fun other hother => Function.update_of_ne hother _ _) (fun n hn => ?_)
      (fun limit hlimit => ?_)
    · have hold : s.queue.entries.lookup other = some found := (hothers other hother).symm.trans hfound
      exact ⟨hold, fun heq => hother (h.distinct other _ found queued hold hlookup
        (heq.trans hid.symm))⟩
    · have hfound := hhere.symm.trans hfound
      split at hfound
      · cases hfound
      · rename_i hmore
        obtain rfl := Option.some.inj hfound
        refine ⟨hid, h.keyed _ queued hlookup, ?_, fun retries hretries => ?_⟩
        · dsimp only
          rw [Function.update_self, hbudget, hid, Option.map_map]
          congr 1
        · dsimp only
          rw [Function.update_self]
          rw [hid] at hfits hbudget
          have hle := hfits retries hretries
          rw [hbudget, hretries, Option.map_some, Option.some.injEq, Option.some.injEq] at hmore
          omega
    · rw [recordFailure_nextId] at hn
      exact ⟨(h.issued n hn).2.1 i ticket hi, n, hn, Nat.le_refl n⟩
    · refine le_trans (AList.size_le_of_mem fun other hother => ?_) (h.bounded limit hlimit)
      by_cases hkey : other = ticket.work.key ops
      · exact AList.lookup_isSome.mp (by rw [hkey, hlookup]; rfl)
      · rw [← AList.lookup_isSome, hothers other hkey] at hother
        exact AList.lookup_isSome.mp hother

theorem Sound.next (hkeys : ops.KeepsKeys) {s' : Service K V M R} {a : Action K V M R}
    (h : Sound cfg ops s) (hnext : Service.next cfg ops s a = some s') : Sound cfg ops s' := by
  cases a with
  | enqueue => exact h.enqueue hkeys hnext
  | supersedeThrough key generation =>
    obtain rfl := Option.some.inj hnext
    exact h.keeps (Queue.supersedeThrough_keeps s.queue key generation) (.refl s.pass)
  | cancelThrough key revision =>
    obtain rfl := Option.some.inj hnext
    exact h.keeps (Queue.cancelThrough_keeps s.queue key revision) (.refl s.pass)
  | notificationStage ticket =>
    obtain rfl := Option.some.inj hnext
    exact h.notificationStage hkeys ticket
  | markerPopulationStage ticket work =>
    simp only [Service.next] at hnext
    split at hnext
    · rename_i hkey
      obtain rfl := Option.some.inj hnext
      exact h.markerPopulationStage hkey
    · cases hnext
  | complete ticket =>
    obtain rfl := Option.some.inj hnext
    exact h.keeps (Queue.complete_keeps s.queue ticket) (.refl s.pass)
  | stop =>
    obtain rfl := Option.some.inj hnext
    exact h.keeps ⟨fun _ _ hlookup => (nomatch hlookup), rfl⟩ (.refl s.pass)
  | drain i keys =>
    simp only [Service.next] at hnext
    split at hnext
    · obtain rfl := Option.some.inj hnext
      exact h.keeps (.refl s.queue) (releases_none rfl)
    · cases hnext
  | visit i =>
    simp only [Service.next] at hnext
    split at hnext
    · obtain rfl := Option.some.inj hnext
      exact h.keeps (.refl s.queue) (releases_none rfl)
    · split at hnext
      · obtain rfl := Option.some.inj hnext
        exact h.keeps (.refl s.queue) (releases_none rfl)
      · rename_i hclaim
        obtain rfl := Option.some.inj hnext
        obtain ⟨queued, hlookup, rfl, hpending, rfl⟩ := Queue.claim_eq_some hclaim
        exact h.hold hlookup hpending
    · cases hnext
  | check i now current =>
    simp only [Service.next] at hnext
    split at hnext
    · rename_i ticket rest hpass
      have hi : (s.pass i).ticket = some ticket := by rw [hpass]; rfl
      split at hnext
      · obtain rfl := Option.some.inj hnext
        exact h.complete hi rfl
      · obtain rfl := Option.some.inj hnext
        refine h.keeps (.refl s.queue) (releases_update fun other hother => ?_)
        rw [hi]
        exact hother
    · cases hnext
  | settle i result =>
    simp only [Service.next] at hnext
    split at hnext
    · rename_i ticket rest hpass
      have hi : (s.pass i).ticket = some ticket := by rw [hpass]; rfl
      obtain rfl := Option.some.inj hnext
      cases result with
      | error => exact h.fail hi rfl
      | ok outcome =>
        cases outcome with
        | paused => exact h.unclaim hi rfl
        | applied | superseded | expired => exact h.complete hi rfl
    · cases hnext
  | cancel i =>
    simp only [Service.next] at hnext
    split at hnext
    · rename_i ticket rest hpass
      have hi : (s.pass i).ticket = some ticket := by rw [hpass]; rfl
      obtain rfl := Option.some.inj hnext
      exact h.unclaim hi rfl
    · cases hnext

theorem sound_of_reachable (hkeys : ops.KeepsKeys)
    (h : Reachable (Service.next cfg ops) init s) : Sound cfg ops s :=
  h.invariant sound_init fun _ _ _ hs hnext => hs.next hkeys hnext

end Service

end Recovery

end Amalgam
