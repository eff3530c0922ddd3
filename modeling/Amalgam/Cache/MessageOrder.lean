import Amalgam.Cache.FenceSafety

/-!
# Amalgam — the order of backplane messages

The lane of a key remembers the greatest revision admitted to it. A received message is admitted
only if it is not older than that revision, nor than what L1 holds, and its timestamp is the
lane's from then on; until it is admitted, and if it never is, it has no effect
(`backplane_messages_ordered`).
-/

set_option linter.unusedSectionVars false

namespace Amalgam

namespace Hybrid

open Commit Recovery

section

variable {K : Type} [DecidableEq K]

theorem timestamp_of_advance {lane advanced : KeyLane} {revision : Timestamp}
    (h : lane.advance revision = some advanced) :
    advanced.timestamp = some (lane.timestamp.elim revision fun old => max old revision) := by
  unfold KeyLane.advance at h
  split at h
  · obtain rfl := Option.some.inj h
    rfl
  · cases h

/-- The timestamp of an allocated lane moves only under its guard, by an admission. -/
theorem LaneMove.timestamp {reuse : Bool} {refs : List LaneId} {t : TaskId} {lanes lanes' : Lanes K}
    {history history' : List (Event K)} {v v' : View K}
    (h : LaneMove reuse refs t lanes history v lanes' history' v') {id : LaneId}
    (hid : id < lanes.next) :
    lanes.next ≤ lanes'.next ∧
      ((lanes'.lane id).timestamp = (lanes.lane id).timestamp ∨
        v.guard = some id ∧ ∃ revision, (lanes'.lane id).timestamp =
          some ((lanes.lane id).timestamp.elim revision fun old => max old revision)) := by
  -- A change of the holder alone.
  have hholder (other : LaneId) (holder : Option TaskId) :
      ((lanes.modify other { lanes.lane other with holder }).lane id).timestamp =
        (lanes.lane id).timestamp := by
    rw [Lanes.modify_lane]
    split
    · rename_i heq
      rw [heq]
    · rfl
  cases h with
  | quiet _ _ _ => exact ⟨Nat.le_refl _, .inl rfl⟩
  | load _ _ _ => exact ⟨Nat.le_refl _, .inl rfl⟩
  | lookup hget _ _ =>
    rcases lanes.get_cases reuse refs v.key with ⟨_, -, heq⟩ | ⟨-, heq⟩
    · obtain ⟨-, rfl⟩ := Prod.mk.inj (heq.symm.trans hget)
      exact ⟨Nat.le_refl _, .inl rfl⟩
    · obtain ⟨-, rfl⟩ := Prod.mk.inj (heq.symm.trans hget)
      exact ⟨Nat.le_succ _, .inl (congrArg KeyLane.timestamp
        (lanes.create_lane_of_ne reuse v.key (Nat.ne_of_lt hid)))⟩
  | acquire _ _ _ _ => exact ⟨Nat.le_refl _, .inl (hholder _ _)⟩
  | release _ _ _ => exact ⟨Nat.le_refl _, .inl (hholder _ _)⟩
  | @admission other advanced revision _ hguard hadvance _ _ =>
    refine ⟨Nat.le_refl _, ?_⟩
    by_cases heq : id = other
    · subst heq
      refine .inr ⟨hguard, revision, ?_⟩
      rw [Lanes.modify_lane_self, timestamp_of_advance hadvance]
    · exact .inl (by rw [Lanes.modify_lane_of_ne _ _ heq])

end

variable {K V M R : Type} [LinearOrder K] [DecidableEq R] {cfg : Config M R}
  {sh sh' : Shared K V M R} {s s' : State K V M R} {refs : List LaneId} {t : TaskId}
  {input : Input K V R}

/-- The timestamp of an allocated lane moves only by a step of the task that has its guard. -/
theorem timestamp_of_next {a : Action K V M R} (hnext : next cfg s a = some s') {id : LaneId}
    (hid : id < s.shared.lanes.next) :
    s.shared.lanes.next ≤ s'.shared.lanes.next ∧
      ((s'.shared.lanes.lane id).timestamp = (s.shared.lanes.lane id).timestamp ∨
        ∃ u input task, a = .step u input ∧ s.tasks.lookup u = some task ∧
          task.view.guard = some id ∧ ∃ revision, (s'.shared.lanes.lane id).timestamp =
            some ((s.shared.lanes.lane id).timestamp.elim revision
              fun old => max old revision)) := by
  cases a with
  | start u begun | advanceEpoch | handOut key =>
    simp only [Hybrid.next] at hnext
    split at hnext <;> cases hnext
    exact ⟨Nat.le_refl _, .inl rfl⟩
  | claim u key =>
    simp only [Hybrid.next] at hnext
    repeat' split at hnext
    all_goals
      cases hnext
      try exact ⟨Nat.le_refl _, .inl rfl⟩
  | step u input =>
    simp only [Hybrid.next] at hnext
    split at hnext
    · cases hnext
    · rename_i current hcurrent
      obtain ⟨⟨stepped, shared⟩, hstep, heq⟩ := Option.map_eq_some_iff.mp hnext
      cases heq
      obtain ⟨hle, hsame | ⟨hguard, hmoved⟩⟩ := (stepTask_move hstep).1.lane.timestamp hid
      · exact ⟨hle, .inl hsame⟩
      · exact ⟨hle, .inr ⟨u, input, current, rfl, hcurrent, hguard, hmoved⟩⟩
  | drop u =>
    simp only [Hybrid.next] at hnext
    split at hnext
    · cases hnext
    · rename_i current hcurrent
      cases hnext
      split
      · exact ⟨Nat.le_refl _, .inl rfl⟩
      · refine ⟨Nat.le_refl _, .inl ?_⟩
        unfold Lanes.unlock
        rw [Lanes.modify_lane]
        split
        · rename_i heq
          rw [heq]
        · rfl
  | memoryOp op =>
    simp only [Hybrid.next] at hnext
    split at hnext
    · obtain ⟨memory, -, heq⟩ := Option.map_eq_some_iff.mp hnext
      cases heq
      exact ⟨Nat.le_refl _, .inl rfl⟩
    · cases hnext
  | sweep key =>
    cases hnext
    rcases s.shared.lanes.sweep_cases s.refs key with heq | ⟨-, heq⟩
    · simp only [heq]
      exact ⟨Nat.le_refl _, .inl trivial⟩
    · simp only [heq]
      exact ⟨Nat.le_refl _, .inl trivial⟩
  | remote key entry | unhold lane | enqueueMarker work now order | dropMarker key
  | stopRecovery =>
    cases hnext
    exact ⟨Nat.le_refl _, .inl rfl⟩

/-- An allocated lane never forgets a revision. -/
theorem timestamp_le_of_exec {as : List (Action K V M R)} {id : LaneId} {r : Timestamp}
    (hrun : Run.exec (next cfg) s as = some s') (hid : id < s.shared.lanes.next)
    (hr : (s.shared.lanes.lane id).timestamp = some r) :
    ∃ r', (s'.shared.lanes.lane id).timestamp = some r' ∧ r ≤ r' := by
  have hstep : ∀ (s : State K V M R) (a : Action K V M R) (s' : State K V M R),
      (id < s.shared.lanes.next ∧ ∃ r', (s.shared.lanes.lane id).timestamp = some r' ∧ r ≤ r') →
      next cfg s a = some s' →
      id < s'.shared.lanes.next ∧ ∃ r', (s'.shared.lanes.lane id).timestamp = some r' ∧ r ≤ r' := by
    rintro s a s' ⟨hid, r', hr', hle⟩ hnext
    obtain ⟨hallocated, hsame | ⟨_, _, _, -, -, -, revision, hmoved⟩⟩ := timestamp_of_next hnext hid
    · exact ⟨hid.trans_le hallocated, r', hsame.trans hr', hle⟩
    · rw [hr'] at hmoved
      exact ⟨hid.trans_le hallocated, _, hmoved, hle.trans (le_max_left r' revision)⟩
  exact (Run.exec_invariant hstep ⟨hid, r, hr, le_refl r⟩ hrun).2

/-! ## Messages before and after their admission -/

/-- The message has not come to its admission. -/
def IncomingPc.early : IncomingPc V → Bool
  | .getLane | .lock _ | .checkLane _ | .read _ | .admission _ _ => true
  | _ => false

/-- The message has been turned away, or has had all its effects. -/
def IncomingPc.over : IncomingPc V → Bool
  | .release _ | .done => true
  | _ => false

/-- What a task has learnt about the lane and the entry it compares its message with. -/
def IncomingPc.Checked (lanes : Lanes K) (timestamp : Timestamp) : IncomingPc V → Prop
  | .read lane => ∀ r, (lanes.lane lane).timestamp = some r → r ≤ timestamp
  | .admission lane existing => (∀ r, (lanes.lane lane).timestamp = some r → r ≤ timestamp) ∧
      ∀ entry, existing = some entry → entry.metadata.created ≤ timestamp
  | _ => True

structure MessageInv (lanes : Lanes K) (tasks : AList fun _ : TaskId => Task K V M)
    (history : List (Event K)) : Prop where
  known : ∀ key t, .admitted key t ∈ history → t ∈ tasks
  early : ∀ t i, tasks.lookup t = some (.incoming i) → i.pc.early = true →
    ∀ key, .admitted key t ∉ history
  late : ∀ t i, tasks.lookup t = some (.incoming i) → i.pc.early = false → i.pc.over = false →
    .admitted i.message.key t ∈ history
  checked : ∀ t i, tasks.lookup t = some (.incoming i) →
    i.pc.Checked lanes i.message.timestamp

/-- What one step of a message does. -/
inductive MessageMove (sh : Shared K V M R) (t : TaskId) (i : Incoming K V) (sh' : Shared K V M R)
    (pc' : IncomingPc V) : Prop
  /-- Before the admission, or without one: L1 is at most read. -/
  | quiet (hmemory : sh'.memory = sh.memory ∨
        ∃ now, sh'.memory = (sh.readMemory i.message.key now).2.memory)
      (hdistributed : sh'.distributed = sh.distributed) (hqueue : sh'.queue = sh.queue)
      (hpublished : sh'.published = sh.published) (hhistory : sh'.history = sh.history)
      (hearly : pc'.early = true → i.pc.early = true)
      (hover : pc'.early = false → pc'.over = false → i.pc.early = false ∧ i.pc.over = false)
      (hchecked : i.pc.Checked sh.lanes i.message.timestamp →
        pc'.Checked sh'.lanes i.message.timestamp)
  | admitted {lane : LaneId} {existing : Option (Entry V)} {advanced : KeyLane}
      (hpc : i.pc = .admission lane existing)
      (hadvance : (sh.lanes.lane lane).advance i.message.timestamp = some advanced)
      (hsh : sh' = { sh with
        lanes := sh.lanes.modify lane advanced
        history := .admitted i.message.key t :: sh.history })
      (hearly : pc'.early = false) (hover : pc'.over = false)
  | effect (hearly : i.pc.early = false) (hover : i.pc.over = false)
      (hhistory : sh'.history = sh.history) (hearly' : pc'.early = false)

theorem checked_of_late {pc : IncomingPc V} (h : pc.early = false) (lanes : Lanes K)
    (timestamp : Timestamp) : pc.Checked lanes timestamp := by
  cases pc with
  | read | admission => cases h
  | _ => trivial

theorem messageMove_of_stepIncoming {i : Incoming K V} {pc' : IncomingPc V}
    (h : stepIncoming cfg t refs sh i.message input i.pc = some (pc', sh')) :
    MessageMove sh t i sh' pc' := by
  obtain ⟨message, pc⟩ := i
  cases pc with
  | getLane =>
    cases h
    exact .quiet (.inl rfl) rfl rfl rfl rfl (fun _ => rfl) (fun h => by cases h) fun _ => trivial
  | lock lane =>
    obtain ⟨lanes, -, heq⟩ := Option.map_eq_some_iff.mp h
    cases heq
    exact .quiet (.inl rfl) rfl rfl rfl rfl (fun _ => rfl) (fun h => by cases h) fun _ => trivial
  | checkLane lane =>
    simp only [stepIncoming] at h
    split at h
    · cases h
      exact .quiet (.inl rfl) rfl rfl rfl rfl (fun _ => rfl) (fun _ h => by cases h)
        fun _ => trivial
    · rename_i hnewer
      cases h
      refine .quiet (.inl rfl) rfl rfl rfl rfl (fun _ => rfl) (fun h => by cases h)
        fun _ r hr => ?_
      rw [hr] at hnewer
      simpa using hnewer
  | read lane =>
    simp only [stepIncoming] at h
    split at h
    · cases h
      exact .quiet (.inr ⟨input.now, rfl⟩) rfl rfl rfl rfl (fun h => by cases h)
        (fun _ h => by cases h) fun _ => trivial
    · rename_i hnewer
      cases h
      refine .quiet (.inr ⟨input.now, rfl⟩) rfl rfl rfl rfl (fun _ => rfl) (fun h => by cases h)
        fun hchecked => ⟨hchecked, fun entry hentry => ?_⟩
      rw [hentry] at hnewer
      simpa using hnewer
  | admission lane existing =>
    simp only [stepIncoming, admitTo] at h
    split at h
    · cases h
      exact .quiet (.inl rfl) rfl rfl rfl rfl (fun h => by cases h) (fun _ h => by cases h)
        fun _ => trivial
    · rename_i hadmit
      split at hadmit
      · cases hadmit
      · rename_i advanced hadvance
        cases hadmit
        cases h
        exact .admitted rfl hadvance rfl rfl rfl
  | release lane =>
    cases h
    exact .quiet (.inl rfl) rfl rfl rfl rfl (fun h => by cases h) (fun _ h => by cases h)
      fun _ => trivial
  | loadEpoch snapshot existing | cancel fence existing | passiveInsert fence expected copy
  | passiveRemove fence expected =>
    cases h
    exact .effect rfl rfl rfl rfl
  | passiveLock fence expected found =>
    obtain ⟨lanes, -, heq⟩ := Option.map_eq_some_iff.mp h
    cases heq
    exact .effect rfl rfl rfl rfl
  | apply fence existing | passiveRead fence expected | passiveCheck fence expected found
  | passiveRecheck fence expected copy =>
    simp only [stepIncoming] at h
    repeat' split at h
    all_goals
      cases h
      try exact .effect rfl rfl rfl rfl
  | done => cases h

namespace MessageInv

theorem init (memory : Memory.State K V) (distributed : AList fun _ : K => Entry V) :
    MessageInv (Hybrid.init memory distributed : State K V M R).shared.lanes
      (Hybrid.init memory distributed : State K V M R).tasks [] where
  known := fun _ _ h => by cases h
  early := fun _ _ h => by cases h
  late := fun _ _ h => by cases h
  checked := fun _ _ h => by cases h

/-- A check stays true while its task has the guard of the lane. -/
theorem checked_of_next (hlanes : LaneInv cfg s) {i : Incoming K V} {a : Action K V M R}
    (ht : s.tasks.lookup t = some (.incoming i)) (hnext : Hybrid.next cfg s a = some s')
    (ha : ∀ input, a ≠ .step t input) (h : i.pc.Checked s.shared.lanes i.message.timestamp) :
    i.pc.Checked s'.shared.lanes i.message.timestamp := by
  have hsame {lane : LaneId} (hguard : i.view.guard = some lane) :
      (s'.shared.lanes.lane lane).timestamp = (s.shared.lanes.lane lane).timestamp := by
    have hown := hlanes.tasks t _ ht
    have hallocated := hlanes.slots.allocated _ _ (hown.slot lane (View.guard_refs hguard))
    obtain ⟨-, hsame | ⟨u, input, task, rfl, hu, hguard', -⟩⟩ := timestamp_of_next hnext hallocated
    · exact hsame
    · -- Two holders of one lane are one task.
      have hholder := (hlanes.tasks u task hu).holder lane hguard'
      obtain rfl := Option.some.inj ((hown.holder lane hguard).symm.trans hholder)
      exact absurd rfl (ha input)
  obtain ⟨message, pc⟩ := i
  cases pc with
  | read lane =>
    intro r hr
    exact h r ((hsame rfl).symm.trans hr)
  | admission lane existing =>
    refine ⟨fun r hr => h.1 r ((hsame rfl).symm.trans hr), h.2⟩
  | _ => trivial

theorem next (hlanes : LaneInv cfg s)
    (h : MessageInv s.shared.lanes s.tasks s.shared.history) {a : Action K V M R}
    (hnext : Hybrid.next cfg s a = some s') :
    MessageInv s'.shared.lanes s'.tasks s'.shared.history := by
  obtain ⟨events, hhistory, hadmitted⟩ := history_of_next hnext
  have hmem {t : TaskId} (ht : t ∈ s.tasks) : t ∈ s'.tasks := by
    obtain ⟨task, ht⟩ := Option.isSome_iff_exists.mp (AList.lookup_isSome.mpr ht)
    refine AList.lookup_isSome.mp ?_
    rcases task_of_next hnext ht with ⟨_, _, -, -, hafter⟩ | ⟨-, hafter⟩ | ⟨-, hafter⟩ <;>
      rw [hafter] <;> rfl
  have hold {key : K} {t : TaskId} (hne : ∀ input, a ≠ .step t input)
      (hin : .admitted key t ∈ s'.shared.history) : .admitted key t ∈ s.shared.history := by
    rw [hhistory] at hin
    rcases List.mem_append.mp hin with hnew | hin
    · obtain ⟨input, _, ha, -⟩ := hadmitted key t hnew
      exact absurd ha (hne input)
    · exact hin
  have hstays {key : K} {t : TaskId} (hin : .admitted key t ∈ s.shared.history) :
      .admitted key t ∈ s'.shared.history := by
    rw [hhistory]
    exact List.mem_append_right _ hin
  -- Where a message of the new state comes from.
  have hfrom {t : TaskId} {i' : Incoming K V} (ht' : s'.tasks.lookup t = some (.incoming i')) :
      (∃ i, s.tasks.lookup t = some (.incoming i) ∧ i.message = i'.message ∧
        MessageMove s.shared t i s'.shared i'.pc) ∨
      i'.pc = .done ∨
      ((∀ input, a ≠ .step t input) ∧
        (s.tasks.lookup t = some (.incoming i') ∨ t ∉ s.tasks ∧ i'.pc = .getLane)) := by
    cases ht : s.tasks.lookup t with
    | none =>
      refine .inr (.inr ?_)
      rcases begun_of_next hnext ht ht' with ⟨rfl, hinitial⟩ | ⟨_, _, _, _, _, _, -, -, -, h⟩
      · refine ⟨fun _ h => (by cases h), .inr ⟨AList.lookup_eq_none.mp ht, ?_⟩⟩
        obtain ⟨message, pc⟩ := i'
        cases pc with
        | getLane => rfl
        | _ => cases hinitial
      · cases h
    | some task =>
      rcases task_of_next hnext ht with
        ⟨input, task', -, hstep, hafter⟩ | ⟨-, hafter⟩ | ⟨ha, hafter⟩
      · obtain rfl := Option.some.inj (hafter.symm.trans ht')
        cases task with
        | incoming i =>
          obtain ⟨⟨pc', shared⟩, hincoming, heq⟩ := Option.map_eq_some_iff.mp hstep
          obtain ⟨hi, hshared⟩ := Prod.mk.inj heq
          obtain rfl := Task.incoming.inj hi
          exact .inl ⟨i, rfl, rfl, hshared ▸ messageMove_of_stepIncoming hincoming⟩
        | mutation m | hydration m | replay m =>
          obtain ⟨_, _, heq⟩ := Option.map_eq_some_iff.mp hstep
          cases (Prod.mk.inj heq).1
      · rw [hafter] at ht'
        refine .inr (.inl ?_)
        cases task with
        | mutation m =>
          obtain ⟨key, opts, fenced, origin, pc'⟩ := m
          cases pc' <;> cases ht'
        | replay r =>
          obtain ⟨ticket, item, mutation, isData, pc'⟩ := r
          cases pc' <;> cases ht'
        | incoming i => cases ht'; rfl
        | hydration i => cases ht'
      · obtain rfl := Option.some.inj (hafter.symm.trans ht')
        exact .inr (.inr ⟨ha, .inl rfl⟩)
  refine ⟨fun key t hin => ?_, fun t i' ht' hearly key hin => ?_, fun t i' ht' hearly hover => ?_,
    fun t i' ht' => ?_⟩
  · rw [hhistory] at hin
    rcases List.mem_append.mp hin with hnew | hin
    · obtain ⟨input, task, -, ht⟩ := hadmitted key t hnew
      exact hmem (AList.lookup_isSome.mp (by rw [ht]; rfl))
    · exact hmem (h.known key t hin)
  · rcases hfrom ht' with ⟨i, ht, -, hmove⟩ | hdone | ⟨ha, ht | ⟨hnew, -⟩⟩
    · cases hmove with
      | quiet _ _ _ _ hsame hwas _ _ => exact h.early t i ht (hwas hearly) key (hsame ▸ hin)
      | admitted _ _ _ hlate _ => rw [hlate] at hearly; cases hearly
      | effect _ _ _ hlate => rw [hlate] at hearly; cases hearly
    · rw [hdone] at hearly
      cases hearly
    · exact h.early t i' ht hearly key (hold ha hin)
    · exact hnew (h.known key t (hold ha hin))
  · rcases hfrom ht' with ⟨i, ht, hmessage, hmove⟩ | hdone | ⟨ha, ht | ⟨-, hstart⟩⟩
    · cases hmove with
      | quiet _ _ _ _ _ _ hwas _ =>
        obtain ⟨hlate, hgoing⟩ := hwas hearly hover
        exact hmessage ▸ hstays (h.late t i ht hlate hgoing)
      | admitted _ _ hsh _ _ =>
        rw [hsh, ← hmessage]
        exact List.mem_cons_self ..
      | effect hlate hgoing _ _ => exact hmessage ▸ hstays (h.late t i ht hlate hgoing)
    · rw [hdone] at hover
      cases hover
    · exact hstays (h.late t i' ht hearly hover)
    · rw [hstart] at hearly
      cases hearly
  · rcases hfrom ht' with ⟨i, ht, hmessage, hmove⟩ | hdone | ⟨ha, ht | ⟨-, hstart⟩⟩
    · cases hmove with
      | quiet _ _ _ _ _ _ _ hchecked => exact hmessage ▸ hchecked (h.checked t i ht)
      | admitted _ _ _ hlate _ => exact checked_of_late hlate _ _
      | effect _ _ _ hlate => exact checked_of_late hlate _ _
    · rw [hdone]
      trivial
    · exact checked_of_next hlanes ht hnext ha (h.checked t i' ht)
    · rw [hstart]
      trivial

end MessageInv

/-- **Backplane messages.** A lane never forgets a revision while it is allocated. A message has no
effect before its admission to the lane of its key, nor without one: nothing is queued, published
or written to L2, and L1 is at most read. It is admitted only if it is older neither than the
revision of the lane nor than the entry that L1 held, and from then on the lane has its
timestamp. -/
theorem backplane_messages_ordered {memory : Memory.State K V}
    {distributed : AList fun _ : K => Entry V}
    (hreach : Run.Reachable (Hybrid.next cfg) (Hybrid.init memory distributed) s) :
    (∀ as s' id r, Run.exec (next cfg) s as = some s' → id < s.shared.lanes.next →
      (s.shared.lanes.lane id).timestamp = some r →
      ∃ r', (s'.shared.lanes.lane id).timestamp = some r' ∧ r ≤ r') ∧
    ∀ t i input s', s.tasks.lookup t = some (.incoming i) →
      next cfg s (.step t input) = some s' →
      (.admitted i.message.key t ∉ s'.shared.history →
        (s'.shared.memory = s.shared.memory ∨
          ∃ now, s'.shared.memory = (s.shared.readMemory i.message.key now).2.memory) ∧
        s'.shared.distributed = s.shared.distributed ∧ s'.shared.queue = s.shared.queue ∧
        s'.shared.published = s.shared.published ∧ s'.shared.history = s.shared.history) ∧
      (.admitted i.message.key t ∈ s'.shared.history →
        .admitted i.message.key t ∉ s.shared.history →
        ∃ lane existing, i.pc = .admission lane existing ∧
          s.shared.lanes.slots.lookup i.message.key = some lane ∧
          (∀ r, (s.shared.lanes.lane lane).timestamp = some r → r ≤ i.message.timestamp) ∧
          (∀ entry, existing = some entry → entry.metadata.created ≤ i.message.timestamp) ∧
          (s'.shared.lanes.lane lane).timestamp = some i.message.timestamp ∧
          s'.shared.memory = s.shared.memory ∧ s'.shared.queue = s.shared.queue) := by
  obtain ⟨hlanes, hinv⟩ : LaneInv cfg s ∧ MessageInv s.shared.lanes s.tasks s.shared.history :=
    hreach.invariant (I := fun s => LaneInv cfg s ∧
        MessageInv s.shared.lanes s.tasks s.shared.history)
      ⟨.init memory distributed, .init memory distributed⟩
      fun _ _ _ h hnext => ⟨h.1.next hnext, h.2.next h.1 hnext⟩
  refine ⟨fun as s' id r hrun hid hr => timestamp_le_of_exec hrun hid hr,
    fun t i input s' ht hnext => ?_⟩
  obtain ⟨input', task', ha, hstep, -⟩ | ⟨ha, -⟩ | ⟨ha, -⟩ := task_of_next hnext ht
  · obtain ⟨⟨pc', shared⟩, hincoming, heq⟩ := Option.map_eq_some_iff.mp hstep
    obtain ⟨-, rfl⟩ := Prod.mk.inj heq
    cases messageMove_of_stepIncoming hincoming with
    | quiet hmemory hdistributed hqueue hpublished hhistory _ _ _ =>
      exact ⟨fun _ => ⟨hmemory, hdistributed, hqueue, hpublished, hhistory⟩,
        fun hin hout => absurd (hhistory ▸ hin) hout⟩
    | effect hearly hover hhistory _ =>
      have hin := hinv.late t i ht hearly hover
      exact ⟨fun hout => absurd (hhistory ▸ hin) hout, fun _ hout => absurd hin hout⟩
    | @admitted lane existing advanced hpc hadvance hsh _ _ =>
      rw [hsh]
      refine ⟨fun hout => absurd (List.mem_cons_self ..) hout, fun _ _ => ?_⟩
      have hchecked := hinv.checked t i ht
      rw [hpc] at hchecked
      have hguard : i.view.guard = some lane := by
        obtain ⟨message, pc⟩ := i
        obtain rfl : pc = .admission lane existing := hpc
        rfl
      have hkey : (Task.incoming i : Task K V M).view.key = i.message.key := by
        obtain ⟨message, pc⟩ := i
        cases pc <;> rfl
      refine ⟨lane, existing, hpc, hkey ▸ (hlanes.tasks t _ ht).slot lane (View.guard_refs hguard),
        hchecked.1, hchecked.2, ?_, rfl, rfl⟩
      show ((s.shared.lanes.modify lane advanced).lane lane).timestamp = _
      rw [Lanes.modify_lane_self, timestamp_of_advance hadvance]
      cases hr : (s.shared.lanes.lane lane).timestamp with
      | none => rfl
      | some r => exact congrArg some (max_eq_right (hchecked.1 r hr))
  · cases ha
  · exact absurd rfl (ha input)

/-- A peer says that it removed a key. -/
def removal : Message Nat := ⟨.fromTicks 4, .remove, 7⟩

/-- The message of a removal up to its admission. -/
def compared : List (Action Nat Unit Unit Unit) :=
  [.start 0 (.incoming ⟨removal, .getLane⟩), .step 0 (atTen .ok), .step 0 (atTen .ok),
    .step 0 (atTen .ok), .step 0 (atTen .ok)]

theorem backplane_messages_ordered_removal :
    ∃ s s', Run.exec (next soloConfig) idle compared = some s ∧
      next soloConfig s (.step 0 (atTen .ok)) = some s' ∧
      (s'.shared.lanes.lane 0).timestamp = some (.fromTicks 4) ∧
      s'.shared.memory = s.shared.memory := by
  have hreach : Run.Reachable (next soloConfig) idle _ := ⟨compared, rfl⟩
  have hstep := (backplane_messages_ordered hreach).2 0 _ (atTen .ok) _ rfl rfl
  obtain ⟨lane, existing, hpc, -, -, -, htimestamp, hmemory, -⟩ :=
    hstep.2 (List.mem_cons_self ..) (fun h => by cases h)
  cases hpc
  exact ⟨_, _, rfl, rfl, htimestamp, hmemory⟩

end Hybrid

end Amalgam
