import Amalgam.Lib.Run
import Mathlib.Logic.Function.Basic

/-!
# Amalgam — an owned acquisition

`acquire_owned_supervised`, `LeaseCleanup` and the drop of a `DistributedLease` of
`src/distributed_lock.rs`, with `acquire_receipt_supervised` and `AcquireCleanup` of
`src/redis_backend.rs` or the acquisition of the locker in memory. Any number of acquisitions of one
key, each with a token of its own, share a connection whose requests are applied in order. Replies
may come late or never, requests may fail at any time, leases expire, other processes acquire, and
the caller may stop waiting, or drop or release its lease, between any two steps.

* **`no_leaked_lease`** — when nothing of an acquisition is left to do, a token that was granted has
  a live lease, or a compare-release of it stands behind the request that got it.
-/

namespace Amalgam.Acquisition

inductive Locker where
  | memory
  | redis
deriving DecidableEq

inductive Timeout where
  | immediate
  | after
  | infinite
deriving DecidableEq

/-- `WaitBudget::exhausted`. -/
def Timeout.exhausted (timeout : Timeout) (elapsed : Bool) : Bool :=
  match timeout with
  | .immediate => true
  | .after => elapsed
  | .infinite => false

/-- Where `acquire_receipt_supervised` stands. -/
inductive Receipt where
  | entry
  | loop (first : Bool)
  -- Redis: the request is not on the connection yet, or there is no reply yet.
  | sending
  | sent
  | granted
  | lateRelease
  | lateSent
  | refused
  | paused
deriving DecidableEq

/-- What the worker tells the caller. -/
inductive Reply where
  | lease
  | none
  | error
deriving DecidableEq

inductive Worker where
  | acquiring (at_ : Receipt)
  | sending (reply : Reply)
  /-- The caller has gone: `bounded_release` is next. -/
  | closing
  /-- The lease could not be handed over: its own release is next. -/
  | cleaning
  | done
deriving DecidableEq

inductive Caller where
  | waiting
  | holding
  | releasing
  | gone
deriving DecidableEq

structure Acquire where
  timeout : Timeout
  worker : Worker := .acquiring .entry
  caller : Caller := .waiting
  channel : Option Reply := none
  /-- The reply to the request that is under way. -/
  reply : Option Bool := none

inductive Request where
  | set (id : Nat)
  | release (id : Nat)
deriving DecidableEq

/-- Who holds the key. -/
inductive Holder where
  | free
  | token (id : Nat)
  | other
deriving DecidableEq

/-- What happened to a token. -/
inductive Event where
  /-- The request for the key is on its way. -/
  | set (id : Nat)
  | granted (id : Nat)
  /-- A compare-release is on its way. -/
  | issued (id : Nat)
  /-- The task owner has the release. -/
  | handed (id : Nat)
deriving DecidableEq

structure State where
  acquires : Nat → Option Acquire
  /-- Requests that are sent and not applied. -/
  connection : List Request
  holder : Holder
  /-- The releases that the task owner has not run. -/
  tasks : List Nat
  /-- Newest first. -/
  log : List Event

def put (s : State) (id : Nat) (a : Acquire) : State :=
  { s with acquires := Function.update s.acquires id (some a) }

/-- `owner.supervise` of a compare-release. -/
def hand (s : State) (id : Nat) : State :=
  { s with tasks := id :: s.tasks, log := .handed id :: s.log }

/-- The backend meets a compare-release. -/
def released (s : State) (id : Nat) : State :=
  if s.holder = .token id then { s with holder := .free } else s

/-- A compare-release is sent. -/
def issue (locker : Locker) (s : State) (id : Nat) : State :=
  let s := { s with log := .issued id :: s.log }
  match locker with
  | .memory => released s id
  | .redis => { s with connection := s.connection ++ [.release id] }

/-- `AcquireCleanup::drop`, once there is one. -/
def dropCleanup (locker : Locker) (s : State) (id : Nat) (at_ : Receipt) : State :=
  match locker, at_ with
  | .memory, _ | .redis, .entry => s
  | .redis, _ => hand s id

/-- The acquisition ends without a lease; after an error the worker cleans up once more. -/
def finish (locker : Locker) (s : State) (id : Nat) (a : Acquire) (at_ : Receipt) (reply : Reply) :
    State :=
  let s := dropCleanup locker s id at_
  let s := if reply = .error then hand s id else s
  put s id { a with worker := .sending reply }

/-- What the worker meets at its next step. -/
inductive Choice where
  /-- It goes on, the wait budget being spent or not. -/
  | go (elapsed : Bool)
  | timeout
  | error
  /-- It finds the channel closed. -/
  | closed
deriving DecidableEq

/-- One step of `acquire_receipt_supervised` in the worker. -/
def stepReceipt (locker : Locker) (s : State) (id : Nat) (a : Acquire) (choice : Choice) :
    Receipt → Option State
  | .entry =>
    match choice with
    | .go _ => some (put s id { a with worker := .acquiring (.loop true) })
    | .error => some (finish locker s id a .entry .error)
    | .timeout | .closed => none
  | .loop first =>
    match choice with
    | .go elapsed =>
      if a.timeout.exhausted elapsed ∧ ¬ (first ∧ a.timeout = .immediate) then
        some (finish locker s id a (.loop first) .none)
      else
        match locker with
        | .redis => some (put s id { a with worker := .acquiring .sending })
        | .memory =>
          if s.holder = .free then
            some (put { s with
              holder := .token id
              log := .granted id :: .set id :: s.log } id { a with worker := .sending .lease })
          else some (put s id { a with worker := .acquiring .refused })
    | .timeout | .error | .closed => none
  | .sending =>
    match choice with
    | .go _ =>
      some (put { s with
        connection := s.connection ++ [.set id]
        log := .set id :: s.log } id { a with worker := .acquiring .sent, reply := none })
    | .timeout => some (finish locker s id a .sending .none)
    | .error => some (finish locker s id a .sending .error)
    | .closed => none
  | .sent =>
    match choice with
    | .go _ =>
      match a.reply with
      | none => none
      | some true => some (put s id { a with worker := .acquiring .granted })
      | some false => some (put s id { a with worker := .acquiring .refused })
    | .timeout => some (finish locker s id a .sent .none)
    | .error => some (finish locker s id a .sent .error)
    | .closed => none
  | .granted =>
    match choice with
    | .go elapsed =>
      if a.timeout.exhausted elapsed ∧ a.timeout ≠ .immediate then
        some (put s id { a with worker := .acquiring .lateRelease })
      -- `cleanup.transfer()`.
      else some (put s id { a with worker := .sending .lease })
    | .timeout | .error | .closed => none
  | .lateRelease =>
    match choice with
    | .go _ => some (put (issue locker s id) id { a with worker := .acquiring .lateSent })
    | .timeout | .error => some (finish locker s id a .lateRelease .error)
    | .closed => none
  | .lateSent =>
    match choice with
    | .go _ => some (finish locker s id a .lateSent .none)
    | .timeout | .error => some (finish locker s id a .lateSent .error)
    | .closed => none
  | .refused =>
    match choice with
    | .go elapsed =>
      if a.timeout.exhausted elapsed then some (finish locker s id a .refused .none)
      else some (put s id { a with worker := .acquiring .paused })
    | .timeout | .error | .closed => none
  | .paused =>
    match choice with
    | .go _ => some (put s id { a with worker := .acquiring (.loop false) })
    | .timeout | .error | .closed => none

/-- One step of the worker. -/
def stepWorker (locker : Locker) (s : State) (id : Nat) (a : Acquire) (choice : Choice) :
    Option State :=
  match a.worker with
  | .acquiring at_ =>
    if choice = .closed then
      -- The acquisition is dropped before the release is sent.
      if a.caller = .waiting then none
      else some (put (dropCleanup locker s id at_) id { a with worker := .closing })
    else stepReceipt locker s id a choice at_
  | .sending reply =>
    if a.caller = .waiting then
      some (put s id { a with worker := .done, channel := some reply })
    else if reply = .lease then some (put s id { a with worker := .cleaning })
    else some (put s id { a with worker := .done })
  | .closing | .cleaning => some (put (issue locker s id) id { a with worker := .done })
  | .done => none

/-- The caller takes what the worker sent. -/
def receive (s : State) (id : Nat) (a : Acquire) : Option State :=
  if a.caller = .waiting then
    match a.channel with
    | some .lease => some (put s id { a with caller := .holding, channel := none })
    | some _ => some (put s id { a with caller := .gone, channel := none })
    | none => none
  else none

/-- The caller is dropped or times out; a lease in the channel is dropped with it. -/
def abandon (s : State) (id : Nat) (a : Acquire) : Option State :=
  if a.caller = .waiting then
    let s := if a.channel = some .lease then hand s id else s
    some (put s id { a with caller := .gone, channel := none })
  else none

inductive Action where
  | begin_ (id : Nat) (timeout : Timeout)
  | worker (id : Nat) (choice : Choice)
  | receive (id : Nat)
  | abandon (id : Nat)
  | dropLease (id : Nat)
  | release (id : Nat)
  /-- The release of the caller's lease is polled to its request, or dropped before. -/
  | stepRelease (id : Nat)
  | dropRelease (id : Nat)
  /-- The task owner runs a release. -/
  | task (id : Nat)
  /-- The backend applies the next request. -/
  | apply_
  /-- The connection breaks, and the requests on it are lost. -/
  | disconnect
  | expire
  /-- Another process acquires or releases the key. -/
  | other (holds : Bool)

/-- What the backend does with the first request of the connection. -/
def applied (s : State) : Request → State
  | .set id =>
    let free := decide (s.holder = .free)
    let s := match s.acquires id with
      | some a => put s id { a with reply := some free }
      | none => s
    if free then { s with holder := .token id, log := .granted id :: s.log } else s
  | .release id => released s id

def withAcquire (s : State) (id : Nat) (f : Acquire → Option State) : Option State :=
  (s.acquires id).bind f

def next (locker : Locker) (s : State) : Action → Option State
  | .begin_ id timeout =>
    if s.acquires id = none then some (put s id { timeout }) else none
  | .worker id choice => withAcquire s id fun a => stepWorker locker s id a choice
  | .receive id => withAcquire s id fun a => receive s id a
  | .abandon id => withAcquire s id fun a => abandon s id a
  | .dropLease id => withAcquire s id fun a =>
    if a.caller = .holding then some (put (hand s id) id { a with caller := .gone }) else none
  | .release id => withAcquire s id fun a =>
    if a.caller = .holding then some (put s id { a with caller := .releasing }) else none
  | .stepRelease id => withAcquire s id fun a =>
    if a.caller = .releasing then some (put (issue locker s id) id { a with caller := .gone })
    else none
  | .dropRelease id => withAcquire s id fun a =>
    if a.caller = .releasing then some (put (hand s id) id { a with caller := .gone }) else none
  | .task id =>
    if id ∈ s.tasks then some (issue locker { s with tasks := s.tasks.erase id } id) else none
  | .apply_ =>
    match s.connection with
    | [] => none
    | request :: rest => some (applied { s with connection := rest } request)
  | .disconnect => some { s with connection := [] }
  | .expire => some { s with holder := .free }
  | .other holds =>
    if holds then if s.holder = .free then some { s with holder := .other } else none
    else if s.holder = .other then some { s with holder := .free } else none

def init : State where
  acquires := fun _ => none
  connection := []
  holder := .free
  tasks := []
  log := []

/-! ## Who answers for a token -/

/-- A compare-release was sent or handed over after the last request for the key. -/
def settled (id : Nat) : List Event → Bool
  | [] => false
  | .granted _ :: log => settled id log
  | .set x :: log => if x = id then false else settled id log
  | .issued x :: log | .handed x :: log => if x = id then true else settled id log

/-- A compare-release was sent or handed over after the last grant. -/
def releasedSince (id : Nat) : List Event → Bool
  | [] => false
  | .set _ :: log => releasedSince id log
  | .granted x :: log => if x = id then false else releasedSince id log
  | .issued x :: log | .handed x :: log => if x = id then true else releasedSince id log

/-- Some `DistributedLease` owns the token: on its way to the caller, or with it. -/
def Acquire.live (a : Acquire) : Prop :=
  a.worker = .sending .lease ∨ a.channel = some .lease ∨ a.caller = .holding

/-- The token has a lease, or a guard that will release it. -/
def Acquire.answers (a : Acquire) : Prop :=
  a.live ∨ (∃ at_, a.worker = .acquiring at_) ∨ a.worker = .closing ∨ a.worker = .cleaning ∨
    a.caller = .releasing

/-- The actions of the acquisition itself and of a release that has begun. -/
def Action.acquires : Action → Option Nat
  | .worker id _ | .receive id | .abandon id | .stepRelease id | .dropRelease id => some id
  | .begin_ _ _ | .dropLease _ | .release _ | .task _ | .apply_ | .disconnect | .expire
  | .other _ => none

/-- No step of the acquisition is possible. -/
def Rested (locker : Locker) (s : State) (id : Nat) : Prop :=
  ∀ action : Action, action.acquires = some id → next locker s action = none

/-- The channel and the caller have a value only from a worker that is done. -/
structure Acquire.Good (a : Acquire) : Prop where
  channel : a.channel ≠ none → a.caller = .waiting ∧ a.worker = .done
  caller : a.caller = .holding ∨ a.caller = .releasing → a.worker = .done

def Event.id : Event → Nat
  | .set id | .granted id | .issued id | .handed id => id

/-- The locker in memory stands nowhere else. -/
def Receipt.offline : Receipt → Bool
  | .entry | .loop _ | .refused | .paused => true
  | .sending | .sent | .granted | .lateRelease | .lateSent => false

structure Covered (locker : Locker) (s : State) : Prop where
  begun : ∀ id, .set id ∈ s.log → s.acquires id ≠ none
  /-- Whoever may have been granted is answered for. -/
  answered : ∀ id a, s.acquires id = some a → .set id ∈ s.log →
    settled id s.log = true ∨ a.answers
  /-- Nothing was asked for before the first request, and in memory the request is the grant. -/
  fresh : ∀ id a at_, s.acquires id = some a → a.worker = .acquiring at_ →
    (locker = .memory → at_.offline = true) ∧ (locker = .memory ∨ at_ = .entry → .set id ∉ s.log)
  sent : ∀ id, .set id ∈ s.connection → .set id ∈ s.log
  granted : ∀ id, .granted id ∈ s.log → .set id ∈ s.log
  good : ∀ id a, s.acquires id = some a → a.Good

/-- A step of one acquisition. -/
structure Move (locker : Locker) (s t : State) (id : Nat) (a : Acquire) : Prop where
  acquires : t.acquires = Function.update s.acquires id (some a) := by rfl
  log : ∃ new, t.log = new ++ s.log ∧ ∀ e ∈ new, e.id = id
  sent : ∀ x, .set x ∈ t.connection → .set x ∈ s.connection ∨ .set x ∈ t.log
  granted : ∀ x, .granted x ∈ t.log → .granted x ∈ s.log ∨ .set x ∈ t.log
  answered : .set id ∈ t.log → settled id t.log = true ∨ a.answers
  fresh : ∀ at_, a.worker = .acquiring at_ →
    (locker = .memory → at_.offline = true) ∧ (locker = .memory ∨ at_ = .entry → .set id ∉ t.log)
  good : a.Good

variable {locker : Locker} {s t : State} {id : Nat} {a b : Acquire}

theorem settled_append {id : Nat} {new log : List Event} (h : ∀ e ∈ new, e.id ≠ id) :
    settled id (new ++ log) = settled id log := by
  induction new with
  | nil => rfl
  | cons e new ih =>
    have hrest := ih fun e he => h e (List.mem_cons_of_mem _ he)
    have hne := h e List.mem_cons_self
    cases e with
    | granted x => exact hrest
    | set x | issued x | handed x => exact (if_neg hne).trans hrest

theorem Covered.move (h : Covered locker s) (hmove : Move locker s t id a) : Covered locker t := by
  obtain ⟨new, hlog, hnew⟩ := hmove.log
  have hsets : ∀ x, Event.set x ∈ s.log → Event.set x ∈ t.log := fun x hx => by
    rw [hlog]
    exact List.mem_append_right _ hx
  have hother : ∀ x, x ≠ id → Event.set x ∈ t.log → Event.set x ∈ s.log := fun x hx hset => by
    rw [hlog] at hset
    exact (List.mem_append.mp hset).resolve_left fun hin => hx (hnew _ hin)
  have hsettled : ∀ x, x ≠ id → settled x t.log = settled x s.log := fun x hx => by
    rw [hlog]
    exact settled_append fun e he heq => hx (heq.symm.trans (hnew e he))
  have hsame : ∀ x b, t.acquires x = some b → x = id ∧ b = a ∨ x ≠ id ∧ s.acquires x = some b := by
    intro x b hb
    rw [hmove.acquires] at hb
    by_cases hx : x = id
    · subst hx
      rw [Function.update_self] at hb
      exact .inl ⟨rfl, (Option.some.inj hb).symm⟩
    · rw [Function.update_of_ne hx] at hb
      exact .inr ⟨hx, hb⟩
  refine ⟨fun x hset => ?_, fun x b hb hset => ?_, fun x b at_ hb hworker => ?_, fun x hin => ?_,
    fun x hin => ?_, fun x b hb => ?_⟩
  · rw [hmove.acquires]
    by_cases hx : x = id
    · rw [hx, Function.update_self]
      exact nofun
    · rw [Function.update_of_ne hx]
      exact h.begun x (hother x hx hset)
  · rcases hsame x b hb with ⟨rfl, rfl⟩ | ⟨hx, hbefore⟩
    · exact hmove.answered hset
    · rw [hsettled x hx]
      exact h.answered x b hbefore (hother x hx hset)
  · rcases hsame x b hb with ⟨rfl, rfl⟩ | ⟨hx, hbefore⟩
    · exact hmove.fresh at_ hworker
    · obtain ⟨hoffline, hnothing⟩ := h.fresh x b at_ hbefore hworker
      exact ⟨hoffline, fun hwhen hset => hnothing hwhen (hother x hx hset)⟩
  · exact (hmove.sent x hin).elim (fun hold => hsets x (h.sent x hold)) fun hset => hset
  · exact (hmove.granted x hin).elim (fun hold => hsets x (h.granted x hold)) fun hset => hset
  · rcases hsame x b hb with ⟨-, rfl⟩ | ⟨-, hbefore⟩
    · exact hmove.good
    · exact h.good x b hbefore

/-! ## The steps of an acquisition -/

/-- Nothing is sent, handed over or granted. -/
theorem Covered.put (h : Covered locker s) (ha : s.acquires id = some a) (hgood : b.Good)
    (hanswers : a.answers → b.answers)
    (hfresh : ∀ at_, b.worker = .acquiring at_ → (locker = .memory → at_.offline = true) ∧
      ∃ before, a.worker = .acquiring before ∧ (at_ = .entry → before = .entry)) :
    Covered locker (put s id b) :=
  h.move (a := b)
    { acquires := rfl
      log := ⟨[], rfl, nofun⟩
      sent := fun _ hin => .inl hin
      granted := fun _ hin => .inl hin
      answered := fun hset => (h.answered id a ha hset).imp (fun hs => hs) hanswers
      fresh := fun at_ hworker => by
        obtain ⟨hoffline, before, hbefore, hentry⟩ := hfresh at_ hworker
        exact ⟨hoffline, fun hwhen => (h.fresh id a before ha hbefore).2 (hwhen.imp_right hentry)⟩
      good := hgood }

/-- A compare-release is handed to the owner. -/
theorem Covered.hand (h : Covered locker s) (hgood : b.Good)
    (hworker : ∀ at_, b.worker ≠ .acquiring at_) : Covered locker (Acquisition.put (hand s id) id b) :=
  h.move (a := b)
    { acquires := rfl
      log := ⟨[.handed id], rfl, fun e he => by rw [List.mem_singleton.mp he]; rfl⟩
      sent := fun _ hin => .inl hin
      granted := fun _ hin => .inl ((List.mem_cons.mp hin).resolve_left nofun)
      answered := fun _ => .inl (if_pos rfl)
      fresh := fun at_ hat => absurd hat (hworker at_)
      good := hgood }

theorem issue_log (locker : Locker) (s : State) (id : Nat) :
    (issue locker s id).log = .issued id :: s.log := by
  unfold issue released
  cases locker with
  | memory => dsimp only; split <;> rfl
  | redis => rfl

theorem issue_acquires (locker : Locker) (s : State) (id : Nat) :
    (issue locker s id).acquires = s.acquires := by
  unfold issue released
  cases locker with
  | memory => dsimp only; split <;> rfl
  | redis => rfl

theorem issue_connection (locker : Locker) (s : State) (id x : Nat)
    (h : .set x ∈ (issue locker s id).connection) : .set x ∈ s.connection := by
  unfold issue released at h
  cases locker with
  | memory => dsimp only at h; split at h <;> exact h
  | redis =>
    rcases List.mem_append.mp h with hold | hnew
    · exact hold
    · cases List.mem_singleton.mp hnew

/-- A compare-release is sent. -/
theorem Covered.issue (h : Covered locker s) (hgood : b.Good)
    (hworker : ∀ at_, b.worker = .acquiring at_ → locker = .redis ∧ at_ ≠ .entry) :
    Covered locker (Acquisition.put (issue locker s id) id b) := by
  refine h.move (a := b) {
    acquires := by
      show Function.update (Acquisition.issue locker s id).acquires id (some b) = _
      rw [issue_acquires]
    log := ⟨[.issued id], issue_log locker s id, fun e he => by rw [List.mem_singleton.mp he]; rfl⟩
    sent := fun x hin => .inl (issue_connection locker s id x hin)
    granted := fun x hin => .inl <| by
      have hlog : Event.granted x ∈ (Acquisition.issue locker s id).log := hin
      rw [issue_log] at hlog
      exact (List.mem_cons.mp hlog).resolve_left nofun
    answered := fun _ => .inl ?_
    fresh := fun at_ hat => by
      obtain ⟨rfl, hentry⟩ := hworker at_ hat
      exact ⟨nofun, fun hwhen => hwhen.elim nofun fun heq => absurd heq hentry⟩
    good := hgood }
  show settled id (Acquisition.issue locker s id).log = true
  rw [issue_log]
  exact if_pos rfl

/-- A worker that is about to send a reply. -/
theorem Acquire.Good.sending (h : a.Good) {at_ : Receipt} (hworker : a.worker = .acquiring at_)
    (worker : Worker) : ({ a with worker } : Acquire).Good where
  channel := fun hsome => by
    have hdone := (h.channel hsome).2
    rw [hworker] at hdone
    cases hdone
  caller := fun hcaller => by
    have hdone := h.caller hcaller
    rw [hworker] at hdone
    cases hdone

/-- An acquisition that ends without a lease has cleaned up, or never asked for one. -/
theorem Covered.finish (h : Covered locker s) (ha : s.acquires id = some a) {at_ : Receipt}
    (hworker : a.worker = .acquiring at_) (reply : Reply) (herror : at_ = .entry → reply = .error) :
    Covered locker (finish locker s id a at_ reply) := by
  have hgood := ((h.good id a ha).sending hworker (.sending reply))
  have hnothing : ∀ x, ({ a with worker := .sending reply } : Acquire).worker ≠ .acquiring x :=
    fun _ => nofun
  unfold Acquisition.finish
  cases reply with
  | error =>
    -- The worker hands a release over whatever the acquisition did.
    have hcleaned : ∀ s', (s' = s ∨ s' = Acquisition.hand s id) →
        Covered locker (Acquisition.put (Acquisition.hand s' id) id
          { a with worker := .sending .error }) := by
      rintro s' (rfl | rfl)
      · exact h.hand hgood hnothing
      · refine h.move (a := { a with worker := .sending .error }) {
          acquires := rfl
          log := ⟨[.handed id, .handed id], rfl, fun e he => ?_⟩
          sent := fun _ hin => .inl hin
          granted := fun x hin => by
            have hold := (List.mem_cons.mp hin).resolve_left nofun
            exact .inl ((List.mem_cons.mp hold).resolve_left nofun)
          answered := fun _ => .inl (if_pos rfl)
          fresh := fun at_ hat => absurd hat (hnothing at_)
          good := hgood }
        rcases List.mem_cons.mp he with rfl | he
        · rfl
        · rw [List.mem_singleton.mp he]
          rfl
    refine hcleaned _ ?_
    cases locker with
    | memory => exact .inl rfl
    | redis => cases at_ <;> first | exact .inl rfl | exact .inr rfl
  | none | lease =>
    have hentry : at_ ≠ .entry := fun heq => by cases herror heq
    cases locker with
    | memory =>
      refine h.move (a := { a with worker := .sending _ }) {
        acquires := rfl
        log := ⟨[], rfl, nofun⟩
        sent := fun _ hin => .inl hin
        granted := fun _ hin => .inl hin
        answered := fun hset => absurd hset ((h.fresh id a at_ ha hworker).2 (.inl rfl))
        fresh := fun at_ hat => absurd hat (hnothing at_)
        good := hgood }
    | redis => cases at_ <;> first | exact absurd rfl hentry | exact h.hand hgood hnothing

theorem Covered.stepReceipt (h : Covered locker s) (ha : s.acquires id = some a) {at_ : Receipt}
    (hworker : a.worker = .acquiring at_) {choice : Choice}
    (hstep : stepReceipt locker s id a choice at_ = some t) : Covered locker t := by
  have hgood := h.good id a ha
  have hfinish := h.finish ha hworker
  have hputs : ∀ at', at' ≠ Receipt.entry → (locker = .memory → at'.offline = true) →
      Covered locker (Acquisition.put s id { a with worker := .acquiring at' }) :=
    fun at' hentry hoffline =>
      h.put ha (hgood.sending hworker _) (fun _ => .inr (.inl ⟨at', rfl⟩)) fun at'' heq => by
        obtain rfl := Worker.acquiring.inj heq
        exact ⟨hoffline, at_, hworker, fun heq => absurd heq hentry⟩
  -- Only Redis sends requests.
  have hredis : at_.offline = false → locker = .redis := fun honline => by
    cases locker with
    | redis => rfl
    | memory =>
      have hoffline := (h.fresh id a at_ ha hworker).1 rfl
      rw [honline] at hoffline
      cases hoffline
  unfold Acquisition.stepReceipt at hstep
  cases at_ with
  | entry =>
    cases choice with
    | go elapsed =>
      obtain rfl := Option.some.inj hstep
      exact hputs _ nofun fun _ => rfl
    | error =>
      obtain rfl := Option.some.inj hstep
      exact hfinish .error fun _ => rfl
    | timeout | closed => cases hstep
  | loop first =>
    cases choice with
    | go elapsed =>
      dsimp only at hstep
      split at hstep
      · obtain rfl := Option.some.inj hstep
        exact hfinish .none nofun
      · cases locker with
        | redis =>
          obtain rfl := Option.some.inj hstep
          exact hputs _ nofun nofun
        | memory =>
          dsimp only at hstep
          split at hstep <;> obtain rfl := Option.some.inj hstep
          · -- The grant comes with a lease.
            exact h.move (a := { a with worker := .sending .lease })
              { acquires := rfl
                log := ⟨[.granted id, .set id], rfl, fun e he => by
                  rcases List.mem_cons.mp he with rfl | he
                  · rfl
                  · rw [List.mem_singleton.mp he]
                    rfl⟩
                sent := fun _ hin => .inl hin
                granted := fun x hin => by
                  rcases List.mem_cons.mp hin with heq | hold
                  · obtain rfl := Event.granted.inj heq
                    exact .inr (List.mem_cons_of_mem _ List.mem_cons_self)
                  · exact .inl ((List.mem_cons.mp hold).resolve_left nofun)
                answered := fun _ => .inr (.inl (.inl rfl))
                fresh := fun _ hat => by cases hat
                good := hgood.sending hworker _ }
          · exact hputs _ nofun fun _ => rfl
    | timeout | error | closed => cases hstep
  | sending =>
    cases choice with
    | go elapsed =>
      obtain rfl := Option.some.inj hstep
      obtain rfl := hredis rfl
      exact h.move (a := { a with worker := .acquiring .sent, reply := none })
        { acquires := rfl
          log := ⟨[.set id], rfl, fun e he => by rw [List.mem_singleton.mp he]; rfl⟩
          sent := fun x hin => by
            rcases List.mem_append.mp hin with hold | hnew
            · exact .inl hold
            · obtain rfl := Request.set.inj (List.mem_singleton.mp hnew)
              exact .inr List.mem_cons_self
          granted := fun _ hin => .inl ((List.mem_cons.mp hin).resolve_left nofun)
          answered := fun _ => .inr (.inr (.inl ⟨.sent, rfl⟩))
          fresh := fun at_ hat => by
            obtain rfl := Worker.acquiring.inj hat
            exact ⟨nofun, fun hwhen => hwhen.elim nofun nofun⟩
          good := { hgood.sending hworker (.acquiring .sent) with } }
    | timeout =>
      obtain rfl := Option.some.inj hstep
      exact hfinish .none nofun
    | error =>
      obtain rfl := Option.some.inj hstep
      exact hfinish .error nofun
    | closed => cases hstep
  | sent =>
    cases choice with
    | go elapsed =>
      obtain rfl := hredis rfl
      dsimp only at hstep
      split at hstep
      · cases hstep
      · obtain rfl := Option.some.inj hstep
        exact hputs _ nofun nofun
      · obtain rfl := Option.some.inj hstep
        exact hputs _ nofun nofun
    | timeout =>
      obtain rfl := Option.some.inj hstep
      exact hfinish .none nofun
    | error =>
      obtain rfl := Option.some.inj hstep
      exact hfinish .error nofun
    | closed => cases hstep
  | granted =>
    cases choice with
    | go elapsed =>
      obtain rfl := hredis rfl
      dsimp only at hstep
      split at hstep <;> obtain rfl := Option.some.inj hstep
      · exact hputs _ nofun nofun
      · exact h.put ha (hgood.sending hworker _) (fun _ => .inl (.inl rfl)) fun _ hat => by cases hat
    | timeout | error | closed => cases hstep
  | lateRelease =>
    cases choice with
    | go elapsed =>
      obtain rfl := hredis rfl
      obtain rfl := Option.some.inj hstep
      refine h.issue (hgood.sending hworker _) fun at_ hat => ?_
      obtain rfl := Worker.acquiring.inj hat
      exact ⟨rfl, nofun⟩
    | timeout | error =>
      obtain rfl := Option.some.inj hstep
      exact hfinish .error nofun
    | closed => cases hstep
  | lateSent =>
    cases choice with
    | go elapsed =>
      obtain rfl := Option.some.inj hstep
      exact hfinish .none nofun
    | timeout | error =>
      obtain rfl := Option.some.inj hstep
      exact hfinish .error nofun
    | closed => cases hstep
  | refused =>
    cases choice with
    | go elapsed =>
      dsimp only at hstep
      split at hstep <;> obtain rfl := Option.some.inj hstep
      · exact hfinish .none nofun
      · exact hputs _ nofun fun _ => rfl
    | timeout | error | closed => cases hstep
  | paused =>
    cases choice with
    | go elapsed =>
      obtain rfl := Option.some.inj hstep
      exact hputs _ nofun fun _ => rfl
    | timeout | error | closed => cases hstep

/-- The worker goes on without the acquisition. -/
theorem Covered.stepWorker (h : Covered locker s) (ha : s.acquires id = some a) {choice : Choice}
    (hstep : stepWorker locker s id a choice = some t) : Covered locker t := by
  have hgood := h.good id a ha
  unfold Acquisition.stepWorker at hstep
  cases hworker : a.worker with
  | acquiring at_ =>
    rw [hworker] at hstep
    dsimp only at hstep
    split at hstep
    · split at hstep
      · cases hstep
      · obtain rfl := Option.some.inj hstep
        have hclosing := hgood.sending hworker .closing
        have hkept : Covered locker (Acquisition.put s id { a with worker := .closing }) :=
          h.put ha hclosing (fun _ => .inr (.inr (.inl rfl))) fun _ hat => by cases hat
        have hhanded : Covered locker
            (Acquisition.put (Acquisition.hand s id) id { a with worker := .closing }) :=
          h.hand hclosing fun _ => nofun
        cases locker with
        | memory => exact hkept
        | redis => cases at_ <;> first | exact hkept | exact hhanded
    · exact h.stepReceipt ha hworker hstep
  | sending reply =>
    rw [hworker] at hstep
    dsimp only at hstep
    -- The channel and the caller's hands are empty until the reply is sent.
    have hnone : a.channel = none := by
      by_contra hsome
      have hdone := (hgood.channel hsome).2
      rw [hworker] at hdone
      cases hdone
    have hidle : ¬ (a.caller = .holding ∨ a.caller = .releasing) := fun hcaller => by
      have hdone := hgood.caller hcaller
      rw [hworker] at hdone
      cases hdone
    have hanswers : a.answers → reply = .lease := by
      rintro ((hlease | hchannel | hcaller) | ⟨at_, hat⟩ | hclosing | hcleaning | hcaller)
      · rw [hworker] at hlease
        exact Worker.sending.inj hlease
      · rw [hnone] at hchannel
        cases hchannel
      · exact absurd (.inl hcaller) hidle
      · rw [hworker] at hat
        cases hat
      · rw [hworker] at hclosing
        cases hclosing
      · rw [hworker] at hcleaning
        cases hcleaning
      · exact absurd (.inr hcaller) hidle
    split at hstep
    case isTrue hwaiting =>
      obtain rfl := Option.some.inj hstep
      refine h.put ha ⟨fun _ => ⟨hwaiting, rfl⟩, fun _ => rfl⟩ (fun hbefore => ?_) fun _ hat => by
        cases hat
      rw [hanswers hbefore]
      exact .inl (.inr (.inl rfl))
    case isFalse hgone =>
      split at hstep <;> obtain rfl := Option.some.inj hstep
      · exact h.put ha ⟨fun hsome => absurd hnone hsome, fun hcaller => absurd hcaller hidle⟩
          (fun _ => .inr (.inr (.inr (.inl rfl)))) fun _ hat => by cases hat
      case isFalse hreply =>
        exact h.put ha ⟨fun hsome => absurd hnone hsome, fun hcaller => absurd hcaller hidle⟩
          (fun hbefore => absurd (hanswers hbefore) hreply) fun _ hat => by cases hat
  | closing | cleaning =>
    rw [hworker] at hstep
    obtain rfl := Option.some.inj hstep
    refine h.issue ⟨fun hsome => ?_, fun _ => rfl⟩ fun _ hat => by cases hat
    have hdone := (hgood.channel hsome).2
    rw [hworker] at hdone
    cases hdone
  | done =>
    rw [hworker] at hstep
    cases hstep

/-! ## The steps of the caller -/

/-- A worker that is done cannot be seen acquiring. -/
theorem not_acquiring {a : Acquire} (h : a.worker = .done) (at_ : Receipt) :
    a.worker ≠ .acquiring at_ := by
  rw [h]
  exact nofun

/-- Of a worker that is done only the channel and the caller may answer. -/
theorem Acquire.answers_done (h : a.worker = .done) (hanswers : a.answers) :
    a.channel = some .lease ∨ a.caller = .holding ∨ a.caller = .releasing := by
  unfold Acquire.answers Acquire.live at hanswers
  rw [h] at hanswers
  rcases hanswers with (hlease | hchannel | hcaller) | ⟨at_, hat⟩ | hclosing | hcleaning | hcaller
  · cases hlease
  · exact .inl hchannel
  · exact .inr (.inl hcaller)
  · cases hat
  · cases hclosing
  · cases hcleaning
  · exact .inr (.inr hcaller)

theorem Covered.receive (h : Covered locker s) (ha : s.acquires id = some a)
    (hstep : receive s id a = some t) : Covered locker t := by
  have hgood := h.good id a ha
  unfold Acquisition.receive at hstep
  split at hstep
  case isFalse => cases hstep
  case isTrue hwaiting =>
    split at hstep
    case h_3 => cases hstep
    case h_1 hchannel =>
      obtain rfl := Option.some.inj hstep
      have hdone := (hgood.channel (by rw [hchannel]; exact nofun)).2
      exact h.put ha ⟨fun hsome => absurd rfl hsome, fun _ => hdone⟩ (fun _ => .inl (.inr (.inr rfl)))
        fun at_ hat => absurd hat (not_acquiring hdone at_)
    case h_2 reply hother hchannel =>
      obtain rfl := Option.some.inj hstep
      have hdone := (hgood.channel (by rw [hchannel]; exact nofun)).2
      refine h.put ha ⟨fun hsome => absurd rfl hsome, fun _ => hdone⟩ (fun hanswers => ?_)
        fun at_ hat => absurd hat (not_acquiring hdone at_)
      rcases Acquire.answers_done hdone hanswers with hlease | hcaller | hcaller
      · rw [hchannel] at hlease
        obtain rfl := Option.some.inj hlease
        exact absurd rfl hother
      · rw [hwaiting] at hcaller
        cases hcaller
      · rw [hwaiting] at hcaller
        cases hcaller

theorem Covered.abandon (h : Covered locker s) (ha : s.acquires id = some a)
    (hstep : abandon s id a = some t) : Covered locker t := by
  have hgood := h.good id a ha
  unfold Acquisition.abandon at hstep
  split at hstep
  case isFalse => cases hstep
  case isTrue hwaiting =>
    obtain rfl := Option.some.inj hstep
    split
    case isTrue hchannel =>
      have hdone := (hgood.channel (by rw [hchannel]; exact nofun)).2
      exact h.hand ⟨fun hsome => absurd rfl hsome, fun _ => hdone⟩ (not_acquiring hdone)
    case isFalse hchannel =>
      refine h.put ha ⟨fun hsome => absurd rfl hsome, fun hcaller => hcaller.elim nofun nofun⟩ ?_
        fun at_ hat => ⟨(h.fresh id a at_ ha hat).1, at_, hat, fun heq => heq⟩
      -- Whatever answers, the worker still has it.
      rintro ((hlease | hin | hcaller) | hrest)
      · exact .inl (.inl hlease)
      · exact absurd hin hchannel
      · rw [hwaiting] at hcaller
        cases hcaller
      · rcases hrest with hat | hclosing | hcleaning | hcaller
        · exact .inr (.inl hat)
        · exact .inr (.inr (.inl hclosing))
        · exact .inr (.inr (.inr (.inl hcleaning)))
        · rw [hwaiting] at hcaller
          cases hcaller

/-! ## The steps of the owner and of the backend -/

/-- Nothing happens to an acquisition. -/
theorem Covered.elsewhere (h : Covered locker s) (hacquires : t.acquires = s.acquires)
    (hlog : t.log = s.log) (hsent : ∀ x, .set x ∈ t.connection → .set x ∈ s.connection) :
    Covered locker t where
  begun x := by
    rw [hacquires, hlog]
    exact h.begun x
  answered x b := by
    rw [hacquires, hlog]
    exact h.answered x b
  fresh x b at_ := by
    rw [hacquires, hlog]
    exact h.fresh x b at_
  sent x hin := by
    rw [hlog]
    exact h.sent x (hsent x hin)
  granted x := by
    rw [hlog]
    exact h.granted x
  good x b := by
    rw [hacquires]
    exact h.good x b

/-- The owner sends a release that it was given. -/
theorem Covered.task (h : Covered locker s) (id : Nat) :
    Covered locker (Acquisition.issue locker { s with tasks := s.tasks.erase id } id) := by
  generalize hbefore : { s with tasks := s.tasks.erase id } = s'
  have hs : Covered locker s' := by
    subst hbefore
    exact h.elsewhere rfl rfl fun _ hin => hin
  clear hbefore
  have hsets : ∀ x, Event.set x ∈ .issued id :: s'.log → Event.set x ∈ s'.log := fun x hin =>
    (List.mem_cons.mp hin).resolve_left nofun
  refine ⟨fun x => ?_, fun x b => ?_, fun x b at_ => ?_, fun x hin => ?_, fun x => ?_, fun x b => ?_⟩
  · rw [issue_log, issue_acquires]
    exact fun hset => hs.begun x (hsets x hset)
  · rw [issue_log, issue_acquires]
    intro hb hset
    show (if id = x then true else settled x s'.log) = true ∨ b.answers
    split
    · exact .inl rfl
    · exact hs.answered x b hb (hsets x hset)
  · rw [issue_log, issue_acquires]
    intro hb hat
    have hfresh := hs.fresh x b at_ hb hat
    exact ⟨hfresh.1, fun hwhen hset => hfresh.2 hwhen (hsets x hset)⟩
  · rw [issue_log]
    exact List.mem_cons_of_mem _ (hs.sent x (issue_connection locker s' id x hin))
  · rw [issue_log]
    intro hin
    exact List.mem_cons_of_mem _ (hs.granted x ((List.mem_cons.mp hin).resolve_left nofun))
  · rw [issue_acquires]
    exact hs.good x b

/-- The backend sees a request that was sent. -/
theorem Covered.applied (h : Covered locker s) {request : Request} {rest : List Request}
    (hconnection : s.connection = request :: rest) :
    Covered locker (applied { s with connection := rest } request) := by
  have hrest : ∀ x, Request.set x ∈ rest → Request.set x ∈ s.connection := fun x hin => by
    rw [hconnection]
    exact List.mem_cons_of_mem _ hin
  cases request with
  | release id =>
    unfold Acquisition.applied released
    dsimp only
    split <;> exact h.elsewhere rfl rfl hrest
  | set id =>
    have hset : Event.set id ∈ s.log := h.sent id (by rw [hconnection]; exact List.mem_cons_self)
    obtain ⟨a, ha⟩ := Option.ne_none_iff_exists'.mp (h.begun id hset)
    have hgood := h.good id a ha
    unfold Acquisition.applied
    dsimp only
    rw [ha]
    dsimp only
    -- A late reply finds whatever the worker is about by then.
    split
    · exact h.move (a := { a with reply := some (decide (s.holder = .free)) })
        { acquires := rfl
          log := ⟨[.granted id], rfl, fun e he => by rw [List.mem_singleton.mp he]; rfl⟩
          sent := fun x hin => .inl (hrest x hin)
          granted := fun x hin => by
            rcases List.mem_cons.mp hin with heq | hold
            · obtain rfl := Event.granted.inj heq
              exact .inr (List.mem_cons_of_mem _ hset)
            · exact .inl hold
          answered := fun _ => h.answered id a ha hset
          fresh := fun at_ hat => by
            have hfresh := h.fresh id a at_ ha hat
            exact ⟨hfresh.1, fun hwhen => absurd hset (hfresh.2 hwhen)⟩
          good := { hgood with } }
    · exact h.move (a := { a with reply := some (decide (s.holder = .free)) })
        { acquires := rfl
          log := ⟨[], rfl, nofun⟩
          sent := fun x hin => .inl (hrest x hin)
          granted := fun _ hin => .inl hin
          answered := fun _ => h.answered id a ha hset
          fresh := fun at_ hat => h.fresh id a at_ ha hat
          good := { hgood with } }

theorem Covered.begin_ (h : Covered locker s) (timeout : Timeout) (hnone : s.acquires id = none) :
    Covered locker (Acquisition.put s id { timeout }) :=
  h.move (a := { timeout })
    { acquires := rfl
      log := ⟨[], rfl, nofun⟩
      sent := fun _ hin => .inl hin
      granted := fun _ hin => .inl hin
      answered := fun hset => absurd hnone (h.begun id hset)
      fresh := fun at_ hat => by
        obtain rfl := Worker.acquiring.inj hat
        exact ⟨fun _ => rfl, fun _ hset => h.begun id hset hnone⟩
      good := ⟨fun hsome => absurd rfl hsome, fun hcaller => hcaller.elim nofun nofun⟩ }

/-- A caller that has the lease moves on. -/
theorem Acquire.Good.held (h : a.Good) (hheld : a.caller = .holding ∨ a.caller = .releasing)
    (caller : Caller) : ({ a with caller } : Acquire).Good where
  channel := fun hsome => by
    have hwaiting := (h.channel hsome).1
    rw [hwaiting] at hheld
    exact hheld.elim nofun nofun
  caller := fun _ => h.caller hheld

/-- **The step lemma.** Every step leaves whoever may have been granted answered for. -/
theorem Covered.next (h : Covered locker s) {action : Action} (hstep : next locker s action = some t) :
    Covered locker t := by
  have hwith : ∀ {id f}, withAcquire s id f = some t → ∃ a, s.acquires id = some a ∧ f a = some t :=
    fun hsome => Option.bind_eq_some_iff.mp hsome
  cases action with
  | begin_ id timeout =>
    dsimp only [Acquisition.next] at hstep
    split at hstep
    case isTrue hnone =>
      obtain rfl := Option.some.inj hstep
      exact h.begin_ timeout hnone
    case isFalse => cases hstep
  | worker id choice =>
    obtain ⟨a, ha, hrest⟩ := hwith hstep
    exact h.stepWorker ha hrest
  | receive id =>
    obtain ⟨a, ha, hrest⟩ := hwith hstep
    exact h.receive ha hrest
  | abandon id =>
    obtain ⟨a, ha, hrest⟩ := hwith hstep
    exact h.abandon ha hrest
  | dropLease id =>
    obtain ⟨a, ha, hrest⟩ := hwith hstep
    split at hrest
    case isTrue hholding =>
      obtain rfl := Option.some.inj hrest
      have hgood := h.good id a ha
      exact h.hand (hgood.held (.inl hholding) .gone) (not_acquiring (hgood.caller (.inl hholding)))
    case isFalse => cases hrest
  | release id =>
    obtain ⟨a, ha, hrest⟩ := hwith hstep
    split at hrest
    case isTrue hholding =>
      obtain rfl := Option.some.inj hrest
      have hgood := h.good id a ha
      exact h.put ha (hgood.held (.inl hholding) .releasing) (fun _ => .inr (.inr (.inr (.inr rfl))))
        fun at_ hat => absurd hat (not_acquiring (hgood.caller (.inl hholding)) at_)
    case isFalse => cases hrest
  | stepRelease id =>
    obtain ⟨a, ha, hrest⟩ := hwith hstep
    split at hrest
    case isTrue hreleasing =>
      obtain rfl := Option.some.inj hrest
      have hgood := h.good id a ha
      exact h.issue (hgood.held (.inr hreleasing) .gone)
        fun at_ hat => absurd hat (not_acquiring (hgood.caller (.inr hreleasing)) at_)
    case isFalse => cases hrest
  | dropRelease id =>
    obtain ⟨a, ha, hrest⟩ := hwith hstep
    split at hrest
    case isTrue hreleasing =>
      obtain rfl := Option.some.inj hrest
      have hgood := h.good id a ha
      exact h.hand (hgood.held (.inr hreleasing) .gone)
        (not_acquiring (hgood.caller (.inr hreleasing)))
    case isFalse => cases hrest
  | task id =>
    dsimp only [Acquisition.next] at hstep
    split at hstep
    · obtain rfl := Option.some.inj hstep
      exact h.task id
    · cases hstep
  | apply_ =>
    dsimp only [Acquisition.next] at hstep
    split at hstep
    · cases hstep
    case h_2 request rest hconnection =>
      obtain rfl := Option.some.inj hstep
      exact h.applied hconnection
  | disconnect =>
    obtain rfl := Option.some.inj hstep
    exact h.elsewhere rfl rfl nofun
  | expire =>
    obtain rfl := Option.some.inj hstep
    exact h.elsewhere rfl rfl fun _ hin => hin
  | other holds =>
    dsimp only [Acquisition.next] at hstep
    split at hstep <;> split at hstep
    case isTrue.isTrue | isFalse.isTrue =>
      obtain rfl := Option.some.inj hstep
      exact h.elsewhere rfl rfl fun _ hin => hin
    case isTrue.isFalse | isFalse.isFalse => cases hstep

theorem Covered.init (locker : Locker) : Covered locker init where
  begun _ hset := nomatch hset
  answered _ _ hb := nomatch hb
  fresh _ _ _ hb := nomatch hb
  sent _ hin := nomatch hin
  granted _ hin := nomatch hin
  good _ _ hb := nomatch hb

/-- **The run lemma.** -/
theorem Covered.run {actions : List Action}
    (hrun : Run.exec (Acquisition.next locker) Acquisition.init actions = some s) :
    Covered locker s :=
  Run.exec_invariant (fun _ _ _ h hstep => h.next hstep) (Covered.init locker) hrun

/-! ## At rest -/

/-- Whatever is not over has a step of its own. -/
theorem Rested.done (h : Rested locker s id) (ha : s.acquires id = some a) :
    a.worker = .done ∧ (a.caller = .holding ∨ a.caller = .gone) := by
  have hworker : ∀ choice, stepWorker locker s id a choice = none := fun choice => by
    simpa [Acquisition.next, withAcquire, ha] using h (.worker id choice) rfl
  have hwaiting : a.caller ≠ .waiting := fun hcaller => by
    simpa [Acquisition.next, withAcquire, ha, Acquisition.abandon, hcaller] using h (.abandon id) rfl
  have hreleasing : a.caller ≠ .releasing := fun hcaller => by
    simpa [Acquisition.next, withAcquire, ha, hcaller] using h (.dropRelease id) rfl
  refine ⟨?_, ?_⟩
  · cases hat : a.worker with
    | done => rfl
    | acquiring at_ =>
      -- The caller has gone, so the worker may find the channel closed.
      simpa [Acquisition.stepWorker, hat, hwaiting] using hworker .closed
    | sending reply =>
      have hgo := hworker (.go false)
      simp only [Acquisition.stepWorker, hat, if_neg hwaiting] at hgo
      split at hgo <;> cases hgo
    | closing | cleaning => simpa [Acquisition.stepWorker, hat] using hworker (.go false)
  · cases hat : a.caller with
    | waiting => exact absurd hat hwaiting
    | releasing => exact absurd hat hreleasing
    | holding => exact .inl rfl
    | gone => exact .inr rfl

/-- Nothing is left of an acquisition that is over. -/
theorem rested_of_done (ha : s.acquires id = some a) (hdone : a.worker = .done)
    (hcaller : a.caller = .holding ∨ a.caller = .gone) : Rested locker s id := by
  have hwaiting : a.caller ≠ .waiting := fun heq => by
    rw [heq] at hcaller
    exact hcaller.elim nofun nofun
  have hreleasing : a.caller ≠ .releasing := fun heq => by
    rw [heq] at hcaller
    exact hcaller.elim nofun nofun
  intro action hof
  cases action with
  | worker x choice =>
    obtain rfl := Option.some.inj hof
    simp [Acquisition.next, withAcquire, ha, stepWorker, hdone]
  | receive x =>
    obtain rfl := Option.some.inj hof
    simp [Acquisition.next, withAcquire, ha, receive, hwaiting]
  | abandon x =>
    obtain rfl := Option.some.inj hof
    simp [Acquisition.next, withAcquire, ha, abandon, hwaiting]
  | stepRelease x | dropRelease x =>
    obtain rfl := Option.some.inj hof
    simp [Acquisition.next, withAcquire, ha, hreleasing]
  | begin_ | dropLease | release | task | apply_ | disconnect | expire | other => cases hof

/-- **No leaked lease.** In any run, when the acquisition has no step left, a token that the backend
granted has a live lease, or a compare-release of it was sent or handed to the owner behind the
request that got it. -/
theorem no_leaked_lease {actions : List Action}
    (hrun : Run.exec (next locker) init actions = some s) (ha : s.acquires id = some a)
    (hrested : Rested locker s id) (hgranted : .granted id ∈ s.log) :
    a.live ∨ settled id s.log = true := by
  have h := Covered.run hrun
  obtain ⟨hdone, hcaller⟩ := hrested.done ha
  rcases h.answered id a ha (h.granted id hgranted) with hsettled | hanswers
  · exact .inr hsettled
  · rcases Acquire.answers_done hdone hanswers with hchannel | hholding | hreleasing
    · exact .inl (.inr (.inl hchannel))
    · exact .inl (.inr (.inr hholding))
    · rw [hreleasing] at hcaller
      exact absurd hcaller nofun

/-- The request times out on its way, its release goes to the owner, and then it is granted. -/
def lateGrant : List Action :=
  [.begin_ 0 .infinite, .worker 0 (.go false), .worker 0 (.go false), .worker 0 (.go false),
    .worker 0 .timeout, .worker 0 (.go false), .receive 0, .apply_]

theorem no_leaked_lease_late : ∃ s a, Run.exec (next .redis) init lateGrant = some s ∧
    s.acquires 0 = some a ∧ Rested .redis s 0 ∧ .granted 0 ∈ s.log ∧
    (a.live ∨ settled 0 s.log = true) := by
  refine ⟨_, _, rfl, rfl, ?_, List.mem_cons_self, ?_⟩
  · exact rested_of_done rfl rfl (.inr rfl)
  · exact @no_leaked_lease .redis _ 0 _ lateGrant rfl rfl (rested_of_done rfl rfl (.inr rfl))
      List.mem_cons_self

/-- The release may come before the grant: it is behind the request, which the backend has not seen
when the owner gets the release. -/
theorem released_before_the_grant :
    ¬ ∀ (locker : Locker) (actions : List Action) (s : State) (id : Nat) (a : Acquire),
      Run.exec (next locker) init actions = some s → s.acquires id = some a → Rested locker s id →
      .granted id ∈ s.log → a.live ∨ releasedSince id s.log = true := by
  intro hclaim
  have hrested := hclaim .redis lateGrant _ 0 _ rfl rfl (rested_of_done rfl rfl (.inr rfl))
    List.mem_cons_self
  rcases hrested with (hlease | hchannel | hholding) | hreleased
  · cases hlease
  · cases hchannel
  · cases hholding
  · cases hreleased

end Amalgam.Acquisition
