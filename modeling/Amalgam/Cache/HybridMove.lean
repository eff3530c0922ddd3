import Amalgam.Cache.Hybrid
import Amalgam.Lib.History

/-!
# Amalgam — what one step of a task can do to lanes and tickets

The steps of `Hybrid`, read once. Whatever a task does with L1, L2 and the backplane, its
effect on the lane of its key is one of six moves (`LaneMove`), and its effect on the recovery
queue is to lose tickets or to admission its own (`QueueMove`).
-/

set_option linter.unusedSectionVars false

namespace Amalgam

namespace Hybrid

open Commit Recovery

section

variable {K : Type}

/-- Recorded without any effect on lanes or the epoch. -/
def Event.isNote : Event K → Bool
  | .admitted _ _ | .epoch => false
  | .passed _ | .replayed _ _ _ | .notified _ _ => true

/-- It tells something about a recovery ticket. -/
def Event.isTicket : Event K → Bool
  | .replayed _ _ _ | .notified _ _ => true
  | .admitted _ _ | .epoch | .passed _ => false

/-- `v'` owns nothing but what `v` owned, the given snapshots and the given references. -/
structure View.From (v' v : View K) (snapshots : List Snapshot) (lanes : List LaneId) : Prop where
  key : v'.key = v.key
  snapshots : ∀ x ∈ v'.snapshots, x ∈ v.snapshots ∨ x ∈ snapshots
  lanes : ∀ id ∈ v'.lanes, id ∈ v.refs ∨ id ∈ lanes

theorem View.From.same {v v' : View K} {snapshots : List Snapshot} {lanes : List LaneId}
    (hkey : v'.key = v.key) (hsnapshots : v'.snapshots = v.snapshots) (hlanes : v'.lanes = []) :
    v'.From v snapshots lanes where
  key := hkey
  snapshots := fun _ h => .inl (hsnapshots ▸ h)
  lanes := fun _ h => by rw [hlanes] at h; cases h

theorem View.From.fewer {v v' : View K} {snapshots : List Snapshot} {lanes : List LaneId}
    (hkey : v'.key = v.key) (hsnapshots : v'.snapshots = []) (hlanes : v'.lanes = []) :
    v'.From v snapshots lanes where
  key := hkey
  snapshots := fun _ h => by rw [hsnapshots] at h; cases h
  lanes := fun _ h => by rw [hlanes] at h; cases h

/-- The one snapshot of `v'` is new. -/
theorem View.From.loaded {v v' : View K} {snapshot : Snapshot} {lanes : List LaneId}
    (hkey : v'.key = v.key) (hsnapshots : v'.snapshots = [snapshot]) (hlanes : v'.lanes = []) :
    v'.From v [snapshot] lanes where
  key := hkey
  snapshots := fun _ h => .inr (hsnapshots ▸ h)
  lanes := fun _ h => by rw [hlanes] at h; cases h

/-- The one reference of `v'` besides its snapshots is new. -/
theorem View.From.found {v v' : View K} {snapshots : List Snapshot} {id : LaneId}
    (hkey : v'.key = v.key) (hsnapshots : v'.snapshots = v.snapshots) (hlanes : v'.lanes = [id]) :
    v'.From v snapshots [id] where
  key := hkey
  snapshots := fun _ h => .inl (hsnapshots ▸ h)
  lanes := fun _ h => .inr (hlanes ▸ h)

end

section

variable {K : Type} [DecidableEq K]

/-- What a step of task `t`, which owns `v`, does to the lanes. -/
inductive LaneMove (reuse : Bool) (refs : List LaneId) (t : TaskId) (lanes : Lanes K)
    (history : List (Event K)) (v : View K) : Lanes K → List (Event K) → View K → Prop
  | quiet {l : List (Event K)} {v' : View K} (hevents : ∀ e ∈ l, e.isNote = true)
      (hfrom : v'.From v [] []) (hguard : v'.guard = v.guard) :
    LaneMove reuse refs t lanes history v lanes (l ++ history) v'
  | lookup {id : LaneId} {lanes' : Lanes K} {v' : View K}
      (hget : lanes.get reuse refs v.key = (id, lanes'))
      (hfrom : v'.From v [⟨id, (lanes'.lane id).generation, history.length⟩] [id])
      (hguard : v'.guard = v.guard) : LaneMove reuse refs t lanes history v lanes' history v'
  | load {i : LaneId} {v' : View K} (hid : i ∈ v.refs)
      (hfrom : v'.From v [⟨i, (lanes.lane i).generation, history.length⟩] [])
      (hguard : v'.guard = v.guard) : LaneMove reuse refs t lanes history v lanes history v'
  | acquire {id : LaneId} {v' : View K} (hid : id ∈ v.refs)
      (hfree : (lanes.lane id).holder = none) (hfrom : v'.From v [] [])
      (hguard : v'.guard = some id) :
    LaneMove reuse refs t lanes history v
      (lanes.modify id { lanes.lane id with holder := some t }) history v'
  | admission {id : LaneId} {advanced : KeyLane} {revision : Timestamp} {v' : View K}
      (hid : v.guard = some id) (hadvance : (lanes.lane id).advance revision = some advanced)
      (hfrom : v'.From v [⟨id, advanced.generation, history.length + 1⟩] [])
      (hguard : v'.guard = some id) :
    LaneMove reuse refs t lanes history v (lanes.modify id advanced)
      (.admitted v.key t :: history) v'
  | release {id : LaneId} {v' : View K} (hid : v.guard = some id) (hfrom : v'.From v [] [])
      (hguard : v'.guard = none) : LaneMove reuse refs t lanes history v (lanes.unlock id) history v'

end

variable {K V M R : Type} [LinearOrder K] [DecidableEq R] {cfg : Config M R}
  {sh sh' : Shared K V M R} {refs : List LaneId} {task : TaskId} {input : Input K V R}

/-- What a step that is not one of a replay does to the recovery queue: tickets are lost, or
a ticket of `key` is admitted under a fence among `snapshots`. -/
inductive QueueMove (sh : Shared K V M R) (key : K) (snapshots : List Snapshot)
    (sh' : Shared K V M R) : Prop
  | keeps {l : List (Event K)} (hqueue : sh.queue.Keeps sh'.queue)
      (hhistory : sh'.history = l ++ sh.history) (hevents : ∀ e ∈ l, e.isTicket = false)
  | admitted {id : RecoveryId} {queued : Queued K V M} {item : RecoveryItem K}
      {mutation : PendingMutation K V} {fence : Fence} (hid : sh.queue.nextId = some id)
      (hnext : ∀ n, sh'.queue.nextId = some n → n = id + 1)
      (hticket : queued.ticket.id = id ∧ queued.ticket.work = .data item mutation
        ∧ queued.ticket.fence = some fence)
      (hkey : item.key = key) (hfence : fence.toSnapshot ∈ snapshots)
      (hstate : queued.state = .pending)
      (hlookup : sh'.queue.entries.lookup (.data key) = some queued)
      (hothers : ∀ other old, other ≠ .data key → sh'.queue.entries.lookup other = some old →
        sh.queue.entries.lookup other = some old)
      (hhistory : sh'.history =
        (if mutation.isNotify then [.notified key id] else []) ++ sh.history)

/-- A change of nothing but L1, L2 and what is published. -/
structure Outside (sh sh' : Shared K V M R) : Prop where
  lanes : sh'.lanes = sh.lanes
  queue : sh'.queue = sh.queue
  history : sh'.history = sh.history
  epoch : sh'.epoch = sh.epoch

theorem Outside.refl (sh : Shared K V M R) : Outside sh sh := ⟨rfl, rfl, rfl, rfl⟩

theorem outside_readMemory (sh : Shared K V M R) (key : K) (now : Timestamp) :
    Outside sh (sh.readMemory key now).2 := ⟨rfl, rfl, rfl, rfl⟩

theorem outside_writeMemory (sh : Shared K V M R) (write : Memory.PreparedWrite K V)
    (expected : Memory.Expected V) : Outside sh (sh.writeMemory write expected).2 :=
  ⟨rfl, rfl, rfl, rfl⟩

theorem outside_removeMemory (sh : Shared K V M R) (key : K) (expected : Option (Entry V)) :
    Outside sh (sh.removeMemory key expected) := ⟨rfl, rfl, rfl, rfl⟩

theorem outside_applyData (sh : Shared K V M R) (key : K) (data : DataMutation V) :
    Outside sh (sh.applyData key data) := by
  cases data <;> exact ⟨rfl, rfl, rfl, rfl⟩

theorem outside_published (sh : Shared K V M R) (published : List (Message K)) :
    Outside sh { sh with published } := ⟨rfl, rfl, rfl, rfl⟩

theorem Outside.ite {a b : Shared K V M R} {c : Bool} (ha : Outside sh a) (hb : Outside sh b) :
    Outside sh (if c then a else b) := by
  cases c
  · exact hb
  · exact ha

/-! ## `commit_data` -/

/-- What a stage after the admission does: where the task goes next, and what it leaves. -/
structure CommitMove (sh : Shared K V M R) (m : Mutation K V) (fence : Fence)
    (sh' : Shared K V M R) (pc' : MutationPc K V) : Prop where
  lanes : sh'.lanes = sh.lanes
  epoch : sh'.epoch = sh.epoch
  history : ∃ events, sh'.history = events ++ sh.history ∧ ∀ e ∈ events, e.isNote = true
  queue : QueueMove sh m.key [fence.toSnapshot] sh'
  pc : (∃ command p, pc' = .admitted fence command p) ∨ ∃ result, pc' = .release fence.lane result

theorem QueueMove.of_keeps {key : K} {snapshots : List Snapshot}
    (hqueue : sh.queue.Keeps sh'.queue) (hhistory : sh'.history = sh.history) :
    QueueMove sh key snapshots sh' :=
  .keeps (l := []) hqueue hhistory fun _ h => by cases h

theorem QueueMove.of_outside {key : K} {snapshots : List Snapshot} (h : Outside sh sh') :
    QueueMove sh key snapshots sh' :=
  .of_keeps (h.queue ▸ .refl _) h.history

theorem CommitMove.of_outside {m : Mutation K V} {fence : Fence} {pc' : MutationPc K V}
    (h : Outside sh sh')
    (hpc : (∃ command p, pc' = .admitted fence command p) ∨
      ∃ result, pc' = .release fence.lane result) : CommitMove sh m fence sh' pc' where
  lanes := h.lanes
  epoch := h.epoch
  history := ⟨[], h.history, fun _ h => by cases h⟩
  queue := .of_outside h
  pc := hpc

theorem outside_commitLocal {m : Mutation K V} {commit : LocalCommit V} {effect : LocalEffect}
    (h : commitLocal sh m input commit = some (effect, sh')) : Outside sh sh' := by
  cases commit with
  | applied effect' =>
    cases h
    exact .refl sh
  | store entry =>
    simp only [commitLocal] at h
    split at h
    · cases h
    · cases h
      exact outside_writeMemory ..

theorem enqueue_move {m : Mutation K V} {fence : Fence} {pending : PendingMutation K V}
    {command : Option (Message K)} {revision : Timestamp} {pc' : MutationPc K V}
    (hpc : (∃ command p, pc' = .admitted fence command p) ∨
      ∃ result, pc' = .release fence.lane result) :
    CommitMove sh m fence
      (sh.enqueue cfg input (recoveryItem m.key pending command revision) pending fence).2 pc' := by
  have hspec := Queue.enqueued_of_enqueueWork cfg.markerWork sh.queue cfg.recovery input.now
    input.order (recoveryItem m.key pending command revision) pending (some fence)
    (sh.lanes.isCurrent fence.toSnapshot)
  unfold Shared.enqueue
  revert hspec
  generalize sh.queue.enqueueWork cfg.recovery cfg.markerWork input.now input.order
    (.data (recoveryItem m.key pending command revision) pending) (some fence)
    (sh.lanes.isCurrent fence.toSnapshot) = result
  obtain ⟨outcome, queue⟩ := result
  intro hspec
  cases hspec with
  | refused houtcome hkeeps =>
    cases outcome with
    | queued id => cases houtcome
    | replaced id => cases houtcome
    | _ => exact ⟨rfl, rfl, ⟨[], rfl, fun _ h => by cases h⟩, .of_keeps hkeeps rfl, hpc⟩
  | admitted houtcome hid hnext hticket hstate hlookup hothers =>
    have hmove (history : List (Event K))
        (hhistory : history = (if pending.isNotify then [.notified m.key _] else []) ++ sh.history) :
        QueueMove sh m.key [fence.toSnapshot] { sh with queue, history } :=
      .admitted hid hnext hticket rfl (List.mem_singleton_self _) hstate hlookup hothers hhistory
    rcases houtcome with rfl | rfl
    all_goals
      dsimp only
      split
      · rename_i hnotify
        exact ⟨rfl, rfl, ⟨[.notified m.key _], rfl, fun e he => by rw [List.mem_singleton.mp he]; rfl⟩,
          hmove _ (by rw [if_pos hnotify]; rfl), hpc⟩
      · rename_i hnotify
        exact ⟨rfl, rfl, ⟨[], rfl, fun _ h => by cases h⟩,
          hmove _ (by rw [if_neg hnotify]; rfl), hpc⟩

theorem commitMove_of_stepCommit {m : Mutation K V} {fence : Fence}
    {command : Option (Message K)} {pc : CommitPc K V} {pc' : MutationPc K V}
    (h : stepCommit cfg sh m fence command input pc = some (pc', sh')) :
    CommitMove sh m fence sh' pc' := by
  have hstay (p : CommitPc K V) {sh' : Shared K V M R} (hout : Outside sh sh') :
      CommitMove sh m fence sh' (.admitted fence command p) :=
    .of_outside hout (.inl ⟨command, p, rfl⟩)
  have hrelease (result : Option CommitReport) {sh' : Shared K V M R} (hout : Outside sh sh') :
      CommitMove sh m fence sh' (.release fence.lane result) :=
    .of_outside hout (.inr ⟨result, rfl⟩)
  cases pc with
  | localEffect write now =>
    cases write with
    | store entry data =>
      simp only [stepCommit] at h
      split at h
      · cases h
        exact hstay _ (.refl sh)
      split at h
      · split at h
        · cases h
          exact hrelease _ (.refl sh)
        · cases h
      · cases h
        exact hstay _ (.refl sh)
      · cases h
        exact hstay _ (outside_writeMemory ..)
    | remove =>
      simp only [stepCommit] at h
      split at h
      · cases h
        exact hstay _ (.refl sh)
      · cases h
        exact hstay _ (outside_removeMemory ..)
    | expire retainStale =>
      simp only [stepCommit] at h
      split at h
      · cases h
        exact hstay _ (.refl sh)
      split at h
      · cases h
        exact hstay _ (outside_readMemory ..)
      · cases h
        exact hstay _ (outside_readMemory ..)
  | expireLocal retainStale now observed =>
    cases h
    exact hstay _ (outside_writeMemory ..)
  | prepare retainStale now effect =>
    simp only [stepCommit] at h
    split at h
    · cases h
      exact hstay _ (.refl sh)
    split at h
    · cases h
      exact hstay _ (.refl sh)
    split at h
    · cases h
      exact hstay _ (.refl sh)
    · cases h
      exact hstay _ (.refl sh)
    · cases h
      exact hstay _ (.refl sh)
    · cases h
      exact hrelease _ (.refl sh)
    · cases h
  | write data commit =>
    cases data with
    | skipped => cases h; exact hstay _ (.refl sh)
    | failed => cases h; exact hstay _ (.refl sh)
    | coldExpire boundary => cases h; exact hstay _ (.refl sh)
    | ready data =>
      simp only [stepCommit] at h
      split at h
      · split at h
        · cases h
          exact hstay _ (.refl sh)
        · cases h
          exact hstay _ (outside_applyData ..)
      · cases h
        exact hstay _ (.ite (outside_applyData ..) (.refl sh))
      · cases h
        exact hrelease _ (.refl sh)
      · cases h
  | enqueue pending commit =>
    simp only [stepCommit] at h
    split at h
    · cases h
      exact enqueue_move (.inr ⟨_, rfl⟩)
    · cases h
      exact enqueue_move (.inl ⟨_, _, rfl⟩)
  | storeFailed commit distributed =>
    simp only [stepCommit] at h
    split at h
    · cases h
      exact hrelease _ (.refl sh)
    · rename_i hlocal
      cases h
      exact hrelease _ (outside_commitLocal hlocal)
  | store commit distributed =>
    simp only [stepCommit] at h
    split at h
    · cases h
      exact hrelease _ (.refl sh)
    · rename_i hlocal
      cases h
      exact hstay _ (outside_commitLocal hlocal)
  | supersede effect distributed =>
    cases h
    exact ⟨rfl, rfl, ⟨[], rfl, fun _ h => by cases h⟩,
      .of_keeps (sh.queue.supersedeThrough_keeps ..) rfl, .inl ⟨_, _, rfl⟩⟩
  | publish effect distributed =>
    simp only [stepCommit] at h
    split at h
    · cases h
      exact hrelease _ (.refl sh)
    · cases h
      exact hrelease _ (outside_published ..)
    · cases h
      exact hstay _ (.ite (outside_published ..) (.refl sh))
    · cases h
  | enqueueNotify message effect distributed =>
    simp only [stepCommit] at h
    split at h
    · cases h
      exact enqueue_move (.inr ⟨_, rfl⟩)
    · cases h
      exact enqueue_move (.inr ⟨_, rfl⟩)

/-! ## Steps of tasks -/

/-- What a step of a task does: it moves the lane of its key, and the epoch stays. -/
structure TaskMove (cfg : Config M R) (refs : List LaneId) (task : TaskId) (sh : Shared K V M R)
    (v : View K) (sh' : Shared K V M R) (v' : View K) : Prop where
  lane : LaneMove cfg.reuse refs task sh.lanes sh.history v sh'.lanes sh'.history v'
  epoch : sh'.epoch = sh.epoch

/-- A step that keeps what its task owns, or gives some of it up, and moves no lane. -/
theorem TaskMove.quiet {v v' : View K} {l : List (Event K)} (hlanes : sh'.lanes = sh.lanes)
    (hhistory : sh'.history = l ++ sh.history) (hevents : ∀ e ∈ l, e.isNote = true)
    (hepoch : sh'.epoch = sh.epoch) (hfrom : v'.From v [] []) (hguard : v'.guard = v.guard) :
    TaskMove cfg refs task sh v sh' v' where
  lane := by
    rw [hlanes, hhistory]
    exact .quiet hevents hfrom hguard
  epoch := hepoch

theorem TaskMove.of_outside {v v' : View K} (h : Outside sh sh') (hfrom : v'.From v [] [])
    (hguard : v'.guard = v.guard) : TaskMove cfg refs task sh v sh' v' :=
  .quiet (l := []) h.lanes h.history (fun _ h => by cases h) h.epoch hfrom hguard

theorem TaskMove.of_lookup {v v' : View K}
    (hfrom : v'.From v [⟨(lookupLane cfg refs sh v.key).1,
      ((lookupLane cfg refs sh v.key).2.lanes.lane (lookupLane cfg refs sh v.key).1).generation,
      sh.history.length⟩] [(lookupLane cfg refs sh v.key).1])
    (hguard : v'.guard = v.guard) :
    TaskMove cfg refs task sh v (lookupLane cfg refs sh v.key).2 v' where
  lane := .lookup rfl hfrom hguard
  epoch := rfl

theorem TaskMove.of_lock {lanes : Lanes K} {id : LaneId} {v v' : View K}
    (h : sh.lanes.lock id task = some lanes) (hid : id ∈ v.refs) (hfrom : v'.From v [] [])
    (hguard : v'.guard = some id) : TaskMove cfg refs task sh v { sh with lanes } v' where
  lane := by
    obtain ⟨hfree, rfl⟩ := Lanes.lock_eq_some.mp h
    exact .acquire hid hfree hfrom hguard
  epoch := rfl

theorem TaskMove.of_unlock {id : LaneId} {v v' : View K} (hid : v.guard = some id)
    (hfrom : v'.From v [] []) (hguard : v'.guard = none) :
    TaskMove cfg refs task sh v { sh with lanes := sh.lanes.unlock id } v' where
  lane := .release hid hfrom hguard
  epoch := rfl

theorem TaskMove.of_admitTo {id : LaneId} {revision : Timestamp} {snapshot : Snapshot}
    {v v' : View K} (h : admitTo sh task v.key id revision = some (snapshot, sh'))
    (hid : v.guard = some id) (hfrom : v'.From v [snapshot] []) (hguard : v'.guard = some id) :
    TaskMove cfg refs task sh v sh' v' := by
  unfold admitTo at h
  split at h
  · cases h
  · rename_i advanced hadvance
    cases h
    exact ⟨.admission hid hadvance hfrom hguard, rfl⟩

theorem admitTo_lane {key : K} {id : LaneId} {revision : Timestamp} {snapshot : Snapshot}
    (h : admitTo sh task key id revision = some (snapshot, sh')) : snapshot.lane = id := by
  unfold admitTo at h
  split at h
  · cases h
  · cases h
    rfl

theorem queueMove_of_admitTo {key : K} {id : LaneId} {revision : Timestamp} {snapshot : Snapshot}
    {snapshots : List Snapshot} (h : admitTo sh task key id revision = some (snapshot, sh')) :
    QueueMove sh key snapshots sh' := by
  unfold admitTo at h
  split at h
  · cases h
  · cases h
    refine .keeps (l := [.admitted key task]) (.refl _) rfl fun e he => ?_
    rw [List.mem_singleton.mp he]
    rfl

/-! ### Mutations -/

theorem mutation_move {m m' : Mutation K V}
    (h : stepMutation cfg task refs sh m input = some (m', sh')) :
    TaskMove cfg refs task sh m.view sh' m'.view ∧ m'.key = m.key := by
  obtain ⟨key, opts, fenced, origin, pc⟩ := m
  cases pc with
  | capture =>
    cases h
    exact ⟨.of_lookup (.loaded rfl rfl rfl) rfl, rfl⟩
  | captureEpoch snapshot =>
    cases h
    exact ⟨.of_outside (.refl sh) (.same rfl rfl rfl) rfl, rfl⟩
  | running =>
    simp only [stepMutation] at h
    split at h
    · cases h
      exact ⟨.of_outside (.refl sh) (.same rfl rfl rfl) rfl, rfl⟩
    · cases h
      exact ⟨.of_outside (.refl sh) (.fewer rfl rfl rfl) rfl, rfl⟩
    · cases h
  | getLane write =>
    cases h
    exact ⟨.of_lookup (.found rfl rfl rfl) rfl, rfl⟩
  | lock write lane =>
    simp only [stepMutation] at h
    split at h
    · cases h
    · rename_i lanes hlock
      cases h
      have hid : lane ∈ (Mutation.view ⟨key, opts, fenced, origin, .lock write lane⟩).refs := by
        simp [View.refs, Mutation.view]
      cases origin with
      | none => exact ⟨.of_lock hlock hid (.fewer rfl rfl rfl) rfl, rfl⟩
      | some origin => exact ⟨.of_lock hlock hid (.same rfl rfl rfl) rfl, rfl⟩
  | check write lane =>
    simp only [stepMutation] at h
    split at h
    · cases h
      exact ⟨.of_outside (.refl sh) (.fewer rfl rfl rfl) rfl, rfl⟩
    · split at h
      · cases h
        exact ⟨.quiet (l := [.passed task]) rfl rfl
          (fun e he => by rw [List.mem_singleton.mp he]; rfl) rfl (.fewer rfl rfl rfl) rfl, rfl⟩
      · cases h
        exact ⟨.of_outside (.refl sh) (.fewer rfl rfl rfl) rfl, rfl⟩
    · cases h
  | admission write lane =>
    simp only [stepMutation] at h
    split at h
    · cases h
      exact ⟨.of_outside (.refl sh) (.fewer rfl rfl rfl) rfl, rfl⟩
    · rename_i snapshot shared hadmit
      cases h
      exact ⟨.of_admitTo hadmit rfl (.loaded rfl rfl rfl) (congrArg some (admitTo_lane hadmit)), rfl⟩
  | admitted fence command pc =>
    obtain ⟨⟨pc', shared⟩, hstep, heq⟩ := Option.map_eq_some_iff.mp h
    cases heq
    have hmove := commitMove_of_stepCommit hstep
    obtain ⟨events, hhistory, hnote⟩ := hmove.history
    rcases hmove.pc with ⟨command', p, rfl⟩ | ⟨result, rfl⟩
    · exact ⟨.quiet hmove.lanes hhistory hnote hmove.epoch (.same rfl rfl rfl) rfl, rfl⟩
    · exact ⟨.quiet hmove.lanes hhistory hnote hmove.epoch (.fewer rfl rfl rfl) rfl, rfl⟩
  | release lane result =>
    cases h
    exact ⟨.of_unlock rfl (.fewer rfl rfl rfl) rfl, rfl⟩
  | done result => cases h

theorem mutation_queue {m m' : Mutation K V}
    (h : stepMutation cfg task refs sh m input = some (m', sh')) :
    QueueMove sh m.key m.view.snapshots sh' := by
  obtain ⟨key, opts, fenced, origin, pc⟩ := m
  cases pc with
  | capture | captureEpoch snapshot | getLane write =>
    cases h
    exact .of_keeps (.refl _) rfl
  | running =>
    simp only [stepMutation] at h
    split at h
    · cases h
      exact .of_keeps (.refl _) rfl
    · cases h
      exact .of_keeps (.refl _) rfl
    · cases h
  | lock write lane =>
    simp only [stepMutation] at h
    split at h
    · cases h
    · cases h
      exact .of_keeps (.refl _) rfl
  | check write lane =>
    simp only [stepMutation] at h
    split at h
    · cases h
      exact .of_keeps (.refl _) rfl
    · split at h
      · cases h
        exact .keeps (l := [.passed task]) (.refl _) rfl fun e he => by
          rw [List.mem_singleton.mp he]
          rfl
      · cases h
        exact .of_keeps (.refl _) rfl
    · cases h
  | admission write lane =>
    simp only [stepMutation] at h
    split at h
    · cases h
      exact .of_keeps (.refl _) rfl
    · rename_i hadmit
      cases h
      exact queueMove_of_admitTo hadmit
  | admitted fence command pc =>
    obtain ⟨⟨pc', shared⟩, hstep, heq⟩ := Option.map_eq_some_iff.mp h
    cases heq
    exact (commitMove_of_stepCommit hstep).queue
  | release lane result =>
    cases h
    exact .of_keeps (.refl _) rfl
  | done result => cases h

/-! ### Received messages -/

theorem incoming_move {message : Message K} {pc pc' : IncomingPc V}
    (h : stepIncoming cfg task refs sh message input pc = some (pc', sh')) :
    TaskMove cfg refs task sh (Incoming.view ⟨message, pc⟩) sh' (Incoming.view ⟨message, pc'⟩) := by
  cases pc with
  | getLane =>
    cases h
    exact .of_lookup (.found rfl rfl rfl) rfl
  | lock lane =>
    obtain ⟨lanes, hlock, heq⟩ := Option.map_eq_some_iff.mp h
    cases heq
    exact .of_lock hlock (by simp [View.refs, Incoming.view]) (.same rfl rfl rfl) rfl
  | checkLane lane =>
    simp only [stepIncoming] at h
    split at h
    · cases h
      exact .of_outside (.refl sh) (.same rfl rfl rfl) rfl
    · cases h
      exact .of_outside (.refl sh) (.same rfl rfl rfl) rfl
  | read lane =>
    simp only [stepIncoming] at h
    split at h
    · cases h
      exact .of_outside (outside_readMemory ..) (.same rfl rfl rfl) rfl
    · cases h
      exact .of_outside (outside_readMemory ..) (.same rfl rfl rfl) rfl
  | admission lane existing =>
    simp only [stepIncoming] at h
    split at h
    · cases h
      exact .of_outside (.refl sh) (.same rfl rfl rfl) rfl
    · rename_i snapshot shared hadmit
      cases h
      exact .of_admitTo hadmit rfl (.loaded rfl rfl rfl) (congrArg some (admitTo_lane hadmit))
  | loadEpoch snapshot existing =>
    cases h
    exact .of_outside (.refl sh) (.same rfl rfl rfl) rfl
  | cancel fence existing =>
    cases h
    exact .quiet (l := []) rfl rfl (fun _ h => by cases h) rfl (.same rfl rfl rfl) rfl
  | apply fence existing =>
    simp only [stepIncoming] at h
    split at h
    · cases h
      exact .of_outside (outside_removeMemory ..) (.fewer rfl rfl rfl) rfl
    · cases h
      exact .of_outside (outside_writeMemory ..) (.fewer rfl rfl rfl) rfl
    · cases h
      exact .of_unlock rfl (.same rfl rfl rfl) rfl
    · cases h
      exact .of_outside (.refl sh) (.fewer rfl rfl rfl) rfl
  | release lane =>
    cases h
    exact .of_unlock rfl (.same rfl rfl rfl) rfl
  | passiveRead fence expected =>
    simp only [stepIncoming] at h
    split at h
    · cases h
      exact .of_outside (.refl sh) (.same rfl rfl rfl) rfl
    · cases h
      exact .of_outside (.refl sh) (.same rfl rfl rfl) rfl
  | passiveLock fence expected found =>
    obtain ⟨lanes, hlock, heq⟩ := Option.map_eq_some_iff.mp h
    cases heq
    exact .of_lock hlock (by simp [View.refs, Incoming.view]) (.same rfl rfl rfl) rfl
  | passiveCheck fence expected found =>
    simp only [stepIncoming] at h
    split at h
    · cases h
      exact .of_outside (.refl sh) (.fewer rfl rfl rfl) rfl
    split at h
    · cases h
      exact .of_outside (.refl sh) (.same rfl rfl rfl) rfl
    · cases h
      exact .of_outside (.refl sh) (.same rfl rfl rfl) rfl
    · cases h
      exact .of_outside (.refl sh) (.same rfl rfl rfl) rfl
    · cases h
      exact .of_outside (.refl sh) (.fewer rfl rfl rfl) rfl
    · cases h
  | passiveRecheck fence expected copy =>
    simp only [stepIncoming] at h
    split at h
    · cases h
      exact .of_outside (.refl sh) (.same rfl rfl rfl) rfl
    · cases h
      exact .of_outside (.refl sh) (.fewer rfl rfl rfl) rfl
  | passiveInsert fence expected copy =>
    cases h
    exact .of_outside (outside_writeMemory ..) (.fewer rfl rfl rfl) rfl
  | passiveRemove fence expected =>
    cases h
    exact .of_outside (outside_removeMemory ..) (.fewer rfl rfl rfl) rfl
  | done => cases h

theorem incoming_queue {message : Message K} {pc pc' : IncomingPc V} {snapshots : List Snapshot}
    (h : stepIncoming cfg task refs sh message input pc = some (pc', sh')) :
    QueueMove sh message.key snapshots sh' := by
  cases pc with
  | getLane | loadEpoch snapshot existing | release lane | passiveInsert fence expected copy
  | passiveRemove fence expected =>
    cases h
    exact .of_keeps (.refl _) rfl
  | lock lane | passiveLock fence expected found =>
    obtain ⟨lanes, hlock, heq⟩ := Option.map_eq_some_iff.mp h
    cases heq
    exact .of_keeps (.refl _) rfl
  | admission lane existing =>
    simp only [stepIncoming] at h
    split at h
    · cases h
      exact .of_keeps (.refl _) rfl
    · rename_i hadmit
      cases h
      exact queueMove_of_admitTo hadmit
  | cancel fence existing =>
    cases h
    exact .of_keeps (sh.queue.cancelThrough_keeps ..) rfl
  | checkLane lane | read lane | apply fence existing | passiveRead fence expected
  | passiveCheck fence expected found | passiveRecheck fence expected copy =>
    simp only [stepIncoming] at h
    repeat' split at h
    all_goals
      cases h
      try exact .of_keeps (.refl _) rfl
  | done => cases h

/-! ### Hydrations -/

theorem hydration_move {key : K} {pc pc' : HydrationPc V}
    (h : stepHydration cfg task refs sh key input pc = some (pc', sh')) :
    TaskMove cfg refs task sh (Hydration.view ⟨key, pc⟩) sh' (Hydration.view ⟨key, pc'⟩) ∧
      QueueMove sh key [] sh' := by
  cases pc with
  | getLane =>
    cases h
    exact ⟨.of_lookup (.found rfl rfl rfl) rfl, .of_keeps (.refl _) rfl⟩
  | fence lane =>
    simp only [stepHydration] at h
    split at h
    · split at h
      · cases h
        refine ⟨⟨.load (i := lane) ?_ (.loaded rfl rfl rfl) rfl, rfl⟩, .of_keeps (.refl _) rfl⟩
        simp [View.refs, Hydration.view]
      · cases h
        exact ⟨.of_outside (.refl sh) (.fewer rfl rfl rfl) rfl, .of_keeps (.refl _) rfl⟩
    · cases h
      exact ⟨.of_outside (.refl sh) (.fewer rfl rfl rfl) rfl, .of_keeps (.refl _) rfl⟩
  | observe fence =>
    cases h
    exact ⟨.of_outside (outside_readMemory ..) (.same rfl rfl rfl) rfl, .of_keeps (.refl _) rfl⟩
  | fetch fence observed =>
    simp only [stepHydration] at h
    split at h
    · cases h
      exact ⟨.of_outside (.refl sh) (.same rfl rfl rfl) rfl, .of_keeps (.refl _) rfl⟩
    · cases h
      exact ⟨.of_outside (.refl sh) (.fewer rfl rfl rfl) rfl, .of_keeps (.refl _) rfl⟩
  | tryLock fence observed source =>
    simp only [stepHydration] at h
    split at h
    · rename_i lanes hreply hlock
      cases h
      refine ⟨.of_lock hlock ?_ (.same rfl rfl rfl) rfl, .of_keeps (.refl _) rfl⟩
      simp [View.refs, Hydration.view]
    · cases h
      exact ⟨.of_outside (.refl sh) (.fewer rfl rfl rfl) rfl, .of_keeps (.refl _) rfl⟩
  | check fence observed source =>
    simp only [stepHydration] at h
    split at h
    · split at h
      · cases h
        exact ⟨.of_outside (.refl sh) (.fewer rfl rfl rfl) rfl, .of_keeps (.refl _) rfl⟩
      split at h
      · cases h
        exact ⟨.of_outside (.refl sh) (.fewer rfl rfl rfl) rfl, .of_keeps (.refl _) rfl⟩
      · cases h
        exact ⟨.of_outside (.refl sh) (.same rfl rfl rfl) rfl, .of_keeps (.refl _) rfl⟩
    · cases h
  | recheck fence observed copy =>
    simp only [stepHydration] at h
    split at h
    · cases h
      have hpassed : ∀ e ∈ [Event.passed (K := K) task], e = .passed task := fun e he =>
        List.mem_singleton.mp he
      exact ⟨.quiet (l := [.passed task]) rfl rfl (fun e he => by rw [hpassed e he]; rfl) rfl
          (.same rfl rfl rfl) rfl,
        .keeps (l := [.passed task]) (.refl _) rfl fun e he => by rw [hpassed e he]; rfl⟩
    · cases h
      exact ⟨.of_outside (.refl sh) (.fewer rfl rfl rfl) rfl, .of_keeps (.refl _) rfl⟩
  | insert fence observed copy =>
    cases h
    exact ⟨.of_outside (outside_writeMemory ..) (.fewer rfl rfl rfl) rfl, .of_keeps (.refl _) rfl⟩
  | release lane =>
    cases h
    exact ⟨.of_unlock rfl (.same rfl rfl rfl) rfl, .of_keeps (.refl _) rfl⟩
  | done => cases h

/-! ### Replays -/

theorem stillCurrent_eq_some {ticket : ReplayTicket K V M} {lane : LaneId}
    {pc pc' : ReplayPc K V} (h : stillCurrent cfg sh ticket lane input pc = some (pc', sh')) :
    sh' = sh ∧ ((pc' = pc ∧ sh.ticketIsCurrent cfg ticket = true) ∨
      ∃ outcome, pc' = .release lane outcome) := by
  unfold stillCurrent at h
  split at h
  · cases h
    exact ⟨rfl, .inr ⟨_, rfl⟩⟩
  · rename_i hcurrent
    split at h
    · cases h
      exact ⟨rfl, .inl ⟨rfl, by simpa using hcurrent⟩⟩
    · cases h
      exact ⟨rfl, .inr ⟨_, rfl⟩⟩
    · cases h
      exact ⟨rfl, .inr ⟨_, rfl⟩⟩
    · cases h

theorem replay_move {r : Replay K V M} {pc' : ReplayPc K V}
    (h : stepReplay cfg task refs sh r.ticket r.item r.mutation input r.pc = some (pc', sh')) :
    TaskMove cfg refs task sh r.view sh' (Replay.view { r with pc := pc' }) ∧
      sh.queue.Traces cfg.markerWork sh'.queue := by
  have hsame : sh.queue.Traces cfg.markerWork sh.queue := (Queue.Keeps.refl _).traces
  have hquiet {v v' : View K} (hfrom : v'.From v [] []) (hguard : v'.guard = v.guard) :
      TaskMove cfg refs task sh v sh v' := .of_outside (.refl sh) hfrom hguard
  obtain ⟨ticket, item, mutation, isData, pc⟩ := r
  -- A check between two stages changes nothing and keeps the guard.
  have hcheck {lane : LaneId} {next : ReplayPc K V}
      (hstep : stillCurrent cfg sh ticket lane input next = some (pc', sh'))
      (hnext : (Replay.view ⟨ticket, item, mutation, isData, next⟩) =
        Replay.view ⟨ticket, item, mutation, isData, .check lane⟩) :
      TaskMove cfg refs task sh (Replay.view ⟨ticket, item, mutation, isData, .check lane⟩) sh'
        (Replay.view ⟨ticket, item, mutation, isData, pc'⟩) ∧ sh.queue.Traces cfg.markerWork sh'.queue := by
    obtain ⟨rfl, ⟨rfl, -⟩ | ⟨outcome, rfl⟩⟩ := stillCurrent_eq_some hstep
    · rw [hnext]
      exact ⟨hquiet (.same rfl rfl rfl) rfl, hsame⟩
    · exact ⟨hquiet (.same rfl rfl rfl) rfl, hsame⟩
  cases pc with
  | claimed =>
    simp only [stepReplay] at h
    split at h
    · cases h
      exact ⟨hquiet (.same rfl rfl rfl) rfl, hsame⟩
    split at h
    · cases h
      exact ⟨hquiet (.same rfl rfl rfl) rfl, hsame⟩
    · cases h
      exact ⟨hquiet (.same rfl rfl rfl) rfl, hsame⟩
    · cases h
      exact ⟨hquiet (.same rfl rfl rfl) rfl, hsame⟩
    · cases h
  | getLane =>
    cases h
    exact ⟨.of_lookup (.found rfl rfl rfl) rfl, hsame⟩
  | lock lane =>
    obtain ⟨lanes, hlock, heq⟩ := Option.map_eq_some_iff.mp h
    cases heq
    refine ⟨.of_lock hlock ?_ (.same rfl rfl rfl) rfl, hsame⟩
    simp [View.refs, Replay.view]
  | check lane => exact hcheck h rfl
  | recheck lane => exact hcheck h rfl
  | confirm lane notification =>
    refine hcheck h ?_
    cases notification with
    | none => rfl
    | some command => cases hb : cfg.backplane <;> rfl
  | reconcile lane =>
    simp only [stepReplay] at h
    split at h
    · split at h
      · cases h
        exact ⟨hquiet (.same rfl rfl rfl) rfl, hsame⟩
      · cases h
        exact ⟨hquiet (.same rfl rfl rfl) rfl, hsame⟩
    · cases h
      exact ⟨hquiet (.same rfl rfl rfl) rfl, hsame⟩
    · cases h
      exact ⟨hquiet (.same rfl rfl rfl) rfl, hsame⟩
  | write lane =>
    cases mutation with
    | legacy => cases h
    | notify command =>
      cases h
      exact ⟨hquiet (.same rfl rfl rfl) rfl, hsame⟩
    | coldExpire boundary notification =>
      simp only [stepReplay] at h
      split at h
      · cases h
        exact ⟨hquiet (.same rfl rfl rfl) rfl, hsame⟩
      · split at h
        · cases h
          exact ⟨hquiet (.same rfl rfl rfl) rfl, hsame⟩
        · cases h
          exact ⟨hquiet (.same rfl rfl rfl) rfl, hsame⟩
      · cases h
        exact ⟨hquiet (.same rfl rfl rfl) rfl, hsame⟩
    | commit data notification | fencedCommit data notification =>
      simp only [stepReplay] at h
      split at h
      · cases h
        exact ⟨hquiet (.same rfl rfl rfl) rfl, hsame⟩
      · cases h
        exact ⟨hquiet (.same rfl rfl rfl) rfl, hsame⟩
  | store lane data notification =>
    have hwritten {v v' : View K} (hfrom : v'.From v [] []) (hguard : v'.guard = v.guard) :
        TaskMove cfg refs task sh v
          ((sh.applyData item.key data).record (.replayed item.key ticket.id ticket.fence)) v' ∧
        sh.queue.Traces cfg.markerWork (sh.applyData item.key data).queue := by
      have hout := outside_applyData sh item.key data
      refine ⟨.quiet (l := [.replayed item.key ticket.id ticket.fence]) hout.lanes
        (congrArg _ hout.history) (fun e he => by rw [List.mem_singleton.mp he]; rfl) hout.epoch
        hfrom hguard, ?_⟩
      rw [hout.queue]
      exact hsame
    simp only [stepReplay] at h
    split at h
    · cases h
      exact ⟨hquiet (.same rfl rfl rfl) rfl, hsame⟩
    split at h
    · cases h
      exact hwritten (.same rfl rfl rfl) rfl
    · rename_i landed hreply
      cases h
      cases landed with
      | true => exact hwritten (.same rfl rfl rfl) rfl
      | false => exact ⟨hquiet (.same rfl rfl rfl) rfl, hsame⟩
    · cases h
      exact ⟨hquiet (.same rfl rfl rfl) rfl, hsame⟩
  | stage lane notification =>
    simp only [stepReplay] at h
    split at h
    · have htraces := sh.queue.notificationStage_traces cfg.markerWork ticket
      split at h
      · cases h
        exact ⟨.quiet (l := [.notified item.key ticket.id]) rfl rfl
          (fun e he => by rw [List.mem_singleton.mp he]; rfl) rfl (.same rfl rfl rfl) rfl, htraces⟩
      · cases h
        exact ⟨.quiet (l := []) rfl rfl (fun _ h => by cases h) rfl (.same rfl rfl rfl) rfl,
          htraces⟩
    · cases h
      exact ⟨hquiet (.same rfl rfl rfl) rfl, hsame⟩
  | publish lane command =>
    simp only [stepReplay] at h
    split at h
    · cases h
      exact ⟨.of_outside (outside_published ..) (.same rfl rfl rfl) rfl, hsame⟩
    · rename_i landed hreply
      cases h
      refine ⟨.of_outside (.ite (outside_published ..) (.refl sh)) (.same rfl rfl rfl) rfl, ?_⟩
      rw [(Outside.ite (c := landed) (outside_published sh _) (.refl sh)).queue]
      exact hsame
    · cases h
  | release lane outcome =>
    cases h
    exact ⟨.of_unlock rfl (.same rfl rfl rfl) rfl, hsame⟩
  | settle outcome =>
    cases h
    refine ⟨.quiet (l := []) rfl rfl (fun _ h => by cases h) rfl (.fewer rfl rfl rfl) rfl, ?_⟩
    cases outcome with
    | paused => exact sh.queue.unclaim_traces ticket
    | failed => exact sh.queue.recordFailure_traces ticket
    | applied | superseded | expired => exact (sh.queue.complete_keeps ticket).traces
  | done => cases h

end Hybrid

end Amalgam
