import Amalgam.Time
import Amalgam.Lib.FiniteMap

/-!
# Amalgam — key lanes, fences and weak slots

`src/commit.rs` over `src/locking.rs`. A lane orders the mutations of one key: whoever holds
its guard may advance the generation, and a fence remembers a generation and a continuity
epoch to compare with later. The slot of a key refers to its lane weakly, so a lane that
nobody owns any more is replaced by a new one, whose generation starts over.

The admission of a lane is taken as a lock here: `Ordered` is its protocol, and only one
party at a time owns it there.
-/

namespace Amalgam

namespace Commit

abbrev LaneId := Nat
abbrev TaskId := Nat

structure KeyLane where
  /-- The task that has the `LaneGuard`. -/
  holder : Option TaskId := none
  generation : Nat := 0
  timestamp : Option Timestamp := none

/-- `advance`; `none` is `RecoveryError::GenerationExhausted`. -/
def KeyLane.advance (lane : KeyLane) (revision : Timestamp) : Option KeyLane :=
  if lane.generation < u64Max then
    some { lane with
      generation := lane.generation + 1
      timestamp := some (lane.timestamp.elim revision fun old => max old revision) }
  else none

/-- A generation loaded from a lane. `mark` is the length of the history at that moment; no
code reads it. -/
structure Snapshot where
  lane : LaneId
  generation : Nat
  mark : Nat
deriving DecidableEq

/-- `Fence`; `epochMark` is the length of the history when the epoch was loaded. -/
structure Fence extends Snapshot where
  capturedEpoch : Nat
  epochMark : Nat
deriving DecidableEq

structure Lanes (K : Type) where
  /-- The lanes allocated so far are those below `next`. -/
  lane : LaneId → KeyLane
  next : LaneId
  /-- `Weak<KeyLane>` by key. -/
  slots : AList fun _ : K => LaneId
  /-- Strong references of the retention pools, and of tickets handed out to callers. -/
  held : List LaneId

namespace Lanes

variable {K : Type}

def empty : Lanes K where
  lane := fun _ => {}
  next := 0
  slots := ∅
  held := []

def modify (l : Lanes K) (id : LaneId) (lane : KeyLane) : Lanes K :=
  { l with lane := Function.update l.lane id lane }

/-- `lock().await` has returned, or `try_lock` succeeded. -/
def lock (l : Lanes K) (id : LaneId) (task : TaskId) : Option (Lanes K) :=
  if (l.lane id).holder = none then some (l.modify id { l.lane id with holder := some task })
  else none

/-- The guard is dropped. -/
def unlock (l : Lanes K) (id : LaneId) : Lanes K :=
  l.modify id { l.lane id with holder := none }

/-- `Fence::is_current`. -/
def isCurrent (l : Lanes K) (snapshot : Snapshot) : Bool :=
  (l.lane snapshot.lane).generation = snapshot.generation

/-- `Fence::passive_is_current`. -/
def passiveIsCurrent (l : Lanes K) (epoch : Nat) (fence : Fence) : Bool :=
  l.isCurrent fence.toSnapshot && epoch = fence.capturedEpoch

@[simp] theorem modify_slots (l : Lanes K) (id : LaneId) (lane : KeyLane) :
    (l.modify id lane).slots = l.slots := rfl

@[simp] theorem modify_next (l : Lanes K) (id : LaneId) (lane : KeyLane) :
    (l.modify id lane).next = l.next := rfl

theorem modify_lane (l : Lanes K) (id : LaneId) (lane : KeyLane) (other : LaneId) :
    (l.modify id lane).lane other = if other = id then lane else l.lane other := by
  simp [modify, Function.update_apply]

@[simp] theorem modify_lane_self (l : Lanes K) (id : LaneId) (lane : KeyLane) :
    (l.modify id lane).lane id = lane := by
  simp [modify]

theorem modify_lane_of_ne (l : Lanes K) {id other : LaneId} (lane : KeyLane) (h : other ≠ id) :
    (l.modify id lane).lane other = l.lane other := by
  rw [modify_lane, if_neg h]

theorem lock_eq_some {l l' : Lanes K} {id : LaneId} {task : TaskId} :
    l.lock id task = some l' ↔
      (l.lane id).holder = none ∧ l' = l.modify id { l.lane id with holder := some task } := by
  unfold lock
  split
  · simp_all [eq_comm]
  · simp_all

theorem isCurrent_iff {l : Lanes K} {snapshot : Snapshot} :
    l.isCurrent snapshot = true ↔ (l.lane snapshot.lane).generation = snapshot.generation := by
  simp [isCurrent]

theorem passiveIsCurrent_iff {l : Lanes K} {epoch : Nat} {fence : Fence} :
    l.passiveIsCurrent epoch fence = true ↔
      (l.lane fence.lane).generation = fence.generation ∧ epoch = fence.capturedEpoch := by
  simp [passiveIsCurrent, isCurrent]

/-! ## The slots -/

variable [DecidableEq K]

/-- `create`: a new lane for the key, retained by the pool of its shard if there is one. -/
def create (l : Lanes K) (reuse : Bool) (key : K) : LaneId × Lanes K :=
  (l.next,
    { lane := Function.update l.lane l.next {}
      next := l.next + 1
      slots := l.slots.insert key l.next
      held := if reuse then l.next :: l.held else l.held })

/-- `lookup`: the lane of the slot if its reference can be upgraded, else a new one. `refs`
are the strong references that tasks and queued tickets have. -/
def get (l : Lanes K) (reuse : Bool) (refs : List LaneId) (key : K) : LaneId × Lanes K :=
  match l.slots.lookup key with
  | some id => if id ∈ refs ∨ id ∈ l.held then (id, l) else l.create reuse key
  | none => l.create reuse key

/-- `clean`: only the slot of a dead lane is removed. -/
def sweep (l : Lanes K) (refs : List LaneId) (key : K) : Lanes K :=
  match l.slots.lookup key with
  | some id => if id ∈ refs ∨ id ∈ l.held then l else { l with slots := l.slots.erase key }
  | none => l

theorem create_lane_of_ne (l : Lanes K) (reuse : Bool) (key : K) {id : LaneId}
    (h : id ≠ l.next) : (l.create reuse key).2.lane id = l.lane id :=
  Function.update_of_ne h ..

theorem create_lookup (l : Lanes K) (reuse : Bool) (key other : K) :
    (l.create reuse key).2.slots.lookup other =
      if other = key then some l.next else l.slots.lookup other := by
  show (l.slots.insert key l.next).lookup other = _
  split
  · rename_i h
    rw [h, AList.lookup_insert]
  · rename_i h
    exact AList.lookup_insert_ne h

/-- A lookup upgrades the reference of the slot, or the lane of the slot has no strong
reference among `refs` and a new one takes its place. -/
theorem get_cases (l : Lanes K) (reuse : Bool) (refs : List LaneId) (key : K) :
    (∃ id, l.slots.lookup key = some id ∧ l.get reuse refs key = (id, l)) ∨
      (∀ id, l.slots.lookup key = some id → id ∉ refs) ∧
        l.get reuse refs key = l.create reuse key := by
  unfold get
  split
  · rename_i id hslot
    split
    · exact .inl ⟨id, hslot, rfl⟩
    · rename_i hdead
      refine .inr ⟨fun other hother hmem => hdead (.inl ?_), rfl⟩
      obtain rfl := Option.some.inj (hslot.symm.trans hother)
      exact hmem
  · rename_i hslot
    refine .inr ⟨fun id hid => ?_, rfl⟩
    rw [hslot] at hid
    cases hid

/-- A sweep removes the slot of a key only if its lane has no strong reference. -/
theorem sweep_cases (l : Lanes K) (refs : List LaneId) (key : K) :
    l.sweep refs key = l ∨
      (∀ id, l.slots.lookup key = some id → id ∉ refs) ∧
        l.sweep refs key = { l with slots := l.slots.erase key } := by
  unfold sweep
  split
  · rename_i id hslot
    split
    · exact .inl rfl
    · rename_i hdead
      refine .inr ⟨fun other hother hmem => hdead (.inl ?_), rfl⟩
      obtain rfl := Option.some.inj (hslot.symm.trans hother)
      exact hmem
  · exact .inl rfl

end Lanes

theorem KeyLane.advance_eq_some {lane advanced : KeyLane} {revision : Timestamp}
    (h : lane.advance revision = some advanced) :
    advanced.generation = lane.generation + 1 ∧ advanced.holder = lane.holder := by
  unfold advance at h
  split at h
  · obtain rfl := Option.some.inj h
    exact ⟨rfl, rfl⟩
  · cases h

end Commit

end Amalgam
