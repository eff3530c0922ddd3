import Amalgam.Markers.Mutation
import Amalgam.Recovery.Queue

/-!
# Amalgam — the marker work of the recovery queue

`src/recovery/marker_snapshots.rs` and the marker arms of `RecoveryWork` in `src/recovery.rs`: what
the queue asks of a failed invalidation and of a failed repair of an observation.

* **`markerWork`** — the answers. A ticket keeps its key in all of its stages.
-/

namespace Amalgam

namespace Recovery

open MarkerMutation (MutationOptions)

/-- The scope and the marker of a command. -/
structure MarkerCommand (S : Type) where
  scope : S
  marker : StoredMarker
deriving DecidableEq

inductive MarkerReplay where
  | advanceOnly
  | advanceAndNotify
  | notifyOnly
deriving DecidableEq

/-- `MarkerMutationPhase` -/
inductive MarkerMutationPhase (S : Type) where
  | advance (options : MutationOptions) (snapshot : MarkerSnapshot)
  | populate (options : MutationOptions) (snapshot : MarkerSnapshot)
      (additional : List (MarkerCommand S))
  | notify (additional : List (MarkerCommand S))

def MarkerMutationPhase.isAdvance {S : Type} : MarkerMutationPhase S → Bool
  | .advance .. => true
  | _ => false

def MarkerMutationPhase.isNotify {S : Type} : MarkerMutationPhase S → Bool
  | .notify _ => true
  | _ => false

inductive MarkerMutationRecovery (S : Type) where
  | mk (command : MarkerCommand S) (phase : MarkerMutationPhase S)
    (compaction : Option (MarkerMutationRecovery S))

inductive RecoveryError where
  | markerIdentityChanged
  | invalidMarkerStage
deriving DecidableEq

namespace MarkerMutationRecovery

variable {S : Type}

def command : MarkerMutationRecovery S → MarkerCommand S
  | mk command _ _ => command

def phase : MarkerMutationRecovery S → MarkerMutationPhase S
  | mk _ phase _ => phase

/-- `pending_compaction` -/
def compaction : MarkerMutationRecovery S → Option (MarkerMutationRecovery S)
  | mk _ _ compaction => compaction

/-- `with_compaction` -/
def withCompaction [DecidableEq S] (work : MarkerMutationRecovery S)
    (child : Option (MarkerMutationRecovery S)) :
    Except RecoveryError (MarkerMutationRecovery S) :=
  if child.any fun child =>
      child.command.scope ≠ work.command.scope ∨ child.command.marker.kind ≠ .clearRemove ∨
        child.compaction.isSome ∨ child.phase.isAdvance then
    .error .markerIdentityChanged
  else .ok (mk work.command work.phase child)

/-- `completed_compaction` -/
def completedCompaction (work : MarkerMutationRecovery S) : Option (MarkerMutationRecovery S) :=
  match work.phase with
  | .advance .. => none
  | .populate options snapshot additional =>
    additional.head?.map fun command =>
      mk command (.populate options
        (.fresh command.marker.version options.toEntryOptions snapshot.created) []) none
  | .notify additional => additional.head?.map fun command => mk command (.notify []) none

/-- The later of two candidates of `max_by_key`, unless the first is greater: its version first, and
then whether only its notification is left. -/
def later (first second : MarkerMutationRecovery S) : MarkerMutationRecovery S :=
  if second.command.marker.version < first.command.marker.version ∨
      (second.command.marker.version = first.command.marker.version ∧
        first.phase.isNotify ∧ !second.phase.isNotify) then first
  else second

/-- `Iterator::max_by_key`, which takes the last of several maxima. -/
def maxCandidate : List (MarkerMutationRecovery S) → Option (MarkerMutationRecovery S)
  | [] => none
  | first :: rest => some (rest.foldl later first)

/-- `inherit_compaction` -/
def inheritCompaction [DecidableEq S] (work previous : MarkerMutationRecovery S) :
    Except RecoveryError (MarkerMutationRecovery S) :=
  work.withCompaction (maxCandidate (previous.completedCompaction.toList ++
    previous.compaction.toList ++ work.compaction.toList))

/-- `committed_notification` -/
def committedNotification (command : MarkerCommand S) : MarkerMutationRecovery S :=
  mk command (.notify []) none

def population [DecidableEq S] (work : MarkerMutationRecovery S) (command : MarkerCommand S)
    (additional : List (MarkerCommand S)) : Except RecoveryError (MarkerMutationRecovery S) :=
  if work.command.scope ≠ command.scope ∨ work.command.marker.kind ≠ command.marker.kind ∨
      command.marker.version < work.command.marker.version then .error .markerIdentityChanged
  else if 1 < additional.length ∨
      (additional ≠ [] ∧ command.marker.kind = .clearRemove) then .error .markerIdentityChanged
  else if additional.any fun other =>
      other.scope ≠ command.scope ∨ other.marker.kind ≠ .clearRemove then
    .error .markerIdentityChanged
  else
    match work.phase with
    | .advance options snapshot =>
      .ok (mk command (.populate options
        (snapshot.withMaximum (some command.marker.version)) additional) work.compaction)
    | .populate .. | .notify _ => .error .invalidMarkerStage

def notification (work : MarkerMutationRecovery S) :
    Except RecoveryError (MarkerMutationRecovery S) :=
  match work.phase with
  | .populate options _ additional =>
    if options.skipBackplaneNotifications then .error .invalidMarkerStage
    else .ok (mk work.command (.notify additional) work.compaction)
  | .advance .. | .notify _ => .error .invalidMarkerStage

end MarkerMutationRecovery

inductive MarkerSnapshotParticipation where
  | unleased
  | fenced
  | cooperative
deriving DecidableEq

structure MarkerSnapshotReplay (S : Type) where
  scope : S
  kind : MarkerKind
  snapshot : MarkerSnapshot
  options : MutationOptions
  participation : MarkerSnapshotParticipation

/-- The marker arms of `RecoveryWork`. -/
inductive MarkerRecovery (S : Type) where
  | marker (command : MarkerCommand S) (stage : MarkerReplay)
  | mutation (work : MarkerMutationRecovery S)
  | snapshot (work : MarkerSnapshotReplay S)

/-- The marker arms of `RecoveryKey`. -/
inductive MarkerKey (S : Type) where
  | marker (scope : S) (kind : MarkerKind)
  | snapshot (scope : S) (kind : MarkerKind)
deriving DecidableEq

namespace MarkerRecovery

variable {S : Type}

def key : MarkerRecovery S → MarkerKey S
  | .marker command _ => .marker command.scope command.marker.kind
  | .mutation work => .marker work.command.scope work.command.marker.kind
  | .snapshot work => .snapshot work.scope work.kind

def timestamp : MarkerRecovery S → Timestamp
  | .marker command _ => command.marker.version
  | .mutation work => work.command.marker.version
  | .snapshot work => work.snapshot.version

def expiresAt : MarkerRecovery S → Option Timestamp
  | .marker .. | .mutation _ => none
  | .snapshot work => some work.snapshot.physical

/-- `supersedes`, of previous marker work. -/
def supersedes (work previous : MarkerRecovery S) : Bool :=
  match work, previous with
  | .snapshot work, .snapshot previous => work.snapshot.supersedes previous.snapshot
  | .snapshot _, .marker .. | .snapshot _, .mutation _ => false
  | work, previous => previous.timestamp < work.timestamp

/-- What `enqueue_work` makes of new work that replaces `previous`. -/
def inherit [DecidableEq S] (work previous : MarkerRecovery S) : Option (MarkerRecovery S) :=
  match previous with
  | .mutation previous =>
    match work with
    | .mutation next => (next.inheritCompaction previous).toOption.map .mutation
    | .marker command .notifyOnly =>
      ((MarkerMutationRecovery.committedNotification command).inheritCompaction previous).toOption.map
        fun next => if next.compaction.isSome then .mutation next else work
    | .marker _ .advanceOnly | .marker _ .advanceAndNotify | .snapshot _ => some work
  | .marker .. | .snapshot _ => some work

/-- The marker arms of `notification_stage`. -/
def notification : MarkerRecovery S → Option (MarkerRecovery S)
  | .marker command .advanceAndNotify => some (.marker command .notifyOnly)
  | .marker _ .advanceOnly | .marker _ .notifyOnly => none
  | .mutation work =>
    match work.phase with
    | .populate options _ _ =>
      if options.skipBackplaneNotifications then none
      else work.notification.toOption.map .mutation
    | .advance .. | .notify _ => none
  | .snapshot _ => none

end MarkerRecovery

/-- The marker work of this cache. -/
def markerWork (S : Type) [DecidableEq S] : MarkerWork (MarkerRecovery S) (MarkerKey S) where
  key := MarkerRecovery.key
  timestamp := MarkerRecovery.timestamp
  expiresAt := MarkerRecovery.expiresAt
  supersedes := MarkerRecovery.supersedes
  inherit := MarkerRecovery.inherit
  notification := MarkerRecovery.notification

/-! ## Keys -/

namespace MarkerMutationRecovery

variable {S : Type} [DecidableEq S] {work work' : MarkerMutationRecovery S}

theorem withCompaction_command {child : Option (MarkerMutationRecovery S)}
    (h : work.withCompaction child = .ok work') : work'.command = work.command := by
  unfold withCompaction at h
  split at h
  · cases h
  · obtain rfl := Except.ok.inj h
    rfl

omit [DecidableEq S] in
theorem notification_command (h : work.notification = .ok work') :
    work'.command = work.command := by
  unfold notification at h
  split at h
  · split at h
    · cases h
    · obtain rfl := Except.ok.inj h
      rfl
  · cases h
  · cases h

/-- The command may have a later version than the work, but not another scope or kind. -/
theorem population_command {command : MarkerCommand S} {additional : List (MarkerCommand S)}
    (h : work.population command additional = .ok work') :
    work'.command.scope = work.command.scope ∧
      work'.command.marker.kind = work.command.marker.kind := by
  unfold population at h
  split at h
  · cases h
  rename_i hsame
  rw [not_or, not_or, not_not, not_not] at hsame
  split at h
  · cases h
  split at h
  · cases h
  split at h
  · obtain rfl := Except.ok.inj h
    exact ⟨hsame.1.symm, hsame.2.1.symm⟩
  · cases h
  · cases h

end MarkerMutationRecovery

variable {S : Type} [DecidableEq S]

theorem toOption_eq_some {E α : Type} {result : Except E α} {a : α}
    (h : result.toOption = some a) : result = .ok a := by
  cases result with
  | ok b =>
    obtain rfl := Option.some.inj h
    rfl
  | error e => cases h

theorem MarkerRecovery.inherit_key {work previous work' : MarkerRecovery S}
    (h : work.inherit previous = some work') : work'.key = work.key := by
  unfold MarkerRecovery.inherit at h
  split at h
  · split at h
    · obtain ⟨next, hnext, rfl⟩ := Option.map_eq_some_iff.mp h
      have hcommand := MarkerMutationRecovery.withCompaction_command (toOption_eq_some hnext)
      rw [key, key, hcommand]
    · obtain ⟨next, hnext, rfl⟩ := Option.map_eq_some_iff.mp h
      have hcommand := MarkerMutationRecovery.withCompaction_command (toOption_eq_some hnext)
      split
      · rw [key, key, hcommand]
        rfl
      · rfl
    · obtain rfl := Option.some.inj h
      rfl
    · obtain rfl := Option.some.inj h
      rfl
    · obtain rfl := Option.some.inj h
      rfl
  · obtain rfl := Option.some.inj h
    rfl
  · obtain rfl := Option.some.inj h
    rfl

omit [DecidableEq S] in
theorem MarkerRecovery.notification_key {work work' : MarkerRecovery S}
    (h : work.notification = some work') : work'.key = work.key := by
  unfold MarkerRecovery.notification at h
  split at h
  · obtain rfl := Option.some.inj h
    rfl
  · cases h
  · cases h
  · split at h
    · split at h
      · cases h
      · obtain ⟨next, hnext, rfl⟩ := Option.map_eq_some_iff.mp h
        have hcommand := MarkerMutationRecovery.notification_command (toOption_eq_some hnext)
        rw [key, key, hcommand]
    · cases h
    · cases h
  · cases h

theorem markerWork_keepsKeys : (markerWork S).KeepsKeys :=
  ⟨fun _ _ _ => MarkerRecovery.inherit_key, fun _ _ => MarkerRecovery.notification_key⟩

end Recovery

end Amalgam
