import Amalgam.Cache.HybridLanes

/-!
# Amalgam — one task in a run of the hybrid cache

What a step of the whole system does to one task (`task_of_next`, `begun_of_next`), to the
history (`history_of_next`, `recorded_of_stepTask`) and to the continuity epoch. While a task
has the guard of a key no other task has it (`LaneInv.guard_unique`), so nobody else is admitted
to the lane of that key.
-/

set_option linter.unusedSectionVars false

namespace Amalgam

namespace Hybrid

open Commit Recovery

section

variable {K : Type} [DecidableEq K]

/-- A task keeps its key. -/
theorem LaneMove.key {reuse : Bool} {refs : List LaneId} {t : TaskId} {lanes lanes' : Lanes K}
    {history history' : List (Event K)} {v v' : View K}
    (h : LaneMove reuse refs t lanes history v lanes' history' v') : v'.key = v.key := by
  cases h with
  | quiet _ hfrom _ => exact hfrom.key
  | lookup _ hfrom _ => exact hfrom.key
  | load _ hfrom _ => exact hfrom.key
  | acquire _ _ hfrom _ => exact hfrom.key
  | admission _ _ hfrom _ => exact hfrom.key
  | release _ hfrom _ => exact hfrom.key

end

variable {K V M R : Type} [LinearOrder K] [DecidableEq R] {cfg : Config M R}
  {sh sh' : Shared K V M R} {s s' : State K V M R} {refs : List LaneId} {t : TaskId}
  {input : Input K V R}

/-- What a task records: no advance of the epoch, and an admission only of its own, under its
own guard. -/
theorem recorded_of_stepTask {task task' : Task K V M}
    (h : stepTask cfg t refs sh input task = some (task', sh')) :
    sh'.epoch = sh.epoch ∧ ∃ events, sh'.history = events ++ sh.history ∧ .epoch ∉ events ∧
      ∀ key u, .admitted key u ∈ events →
        u = t ∧ key = task.view.key ∧ task.view.guard ≠ none := by
  obtain ⟨⟨hlane, hepoch⟩, -⟩ := stepTask_move h
  refine ⟨hepoch, ?_⟩
  generalize sh'.history = history at hlane
  have hsame : ∃ events, sh.history = events ++ sh.history ∧ .epoch ∉ events ∧
      ∀ key u, .admitted key u ∈ events → u = t ∧ key = task.view.key ∧ task.view.guard ≠ none :=
    ⟨[], rfl, fun h => (by cases h), fun _ _ h => by cases h⟩
  generalize sh'.lanes = lanes at hlane
  cases hlane with
  | quiet hevents _ _ =>
    exact ⟨_, rfl, fun hmem => (by cases hevents _ hmem), fun _ _ hmem => by cases hevents _ hmem⟩
  | lookup _ _ _ => exact hsame
  | load _ _ _ => exact hsame
  | acquire _ _ _ _ => exact hsame
  | release _ _ _ => exact hsame
  | admission hid _ _ _ =>
    refine ⟨[.admitted task.view.key t], rfl, fun h => (by cases List.mem_singleton.mp h),
      fun key u hmem => ?_⟩
    cases List.mem_singleton.mp hmem
    exact ⟨rfl, rfl, by rw [hid]; exact Option.some_ne_none _⟩

/-- Two tasks with a guard of one key are one task. -/
theorem LaneInv.guard_unique (h : LaneInv cfg s) {t u : TaskId} {task other : Task K V M}
    (ht : s.tasks.lookup t = some task) (hu : s.tasks.lookup u = some other)
    (hkey : task.view.key = other.view.key) (hguard : task.view.guard ≠ none)
    (hguard' : other.view.guard ≠ none) : t = u := by
  obtain ⟨id, hid⟩ := Option.ne_none_iff_exists'.mp hguard
  obtain ⟨id', hid'⟩ := Option.ne_none_iff_exists'.mp hguard'
  have hown := h.tasks t task ht
  have hown' := h.tasks u other hu
  -- Both guards are of the lane in the slot of the key.
  obtain rfl : id = id' := Option.some.inj
    ((hown.slot id (View.guard_refs hid)).symm.trans
      (hkey ▸ hown'.slot id' (View.guard_refs hid')))
  exact Option.some.inj ((hown.holder id hid).symm.trans (hown'.holder id hid'))

/-- L1 moves the epoch only when it observes another one. -/
theorem epoch_of_memoryOp {op : Memory.Op K V} {memory : Memory.State K V}
    (hkeeps : keepsEpoch sh op = true) (h : Memory.next sh.memory op = some memory) :
    memory.world.epoch = sh.epoch := by
  obtain ⟨⟨output, memory'⟩, hperform, rfl⟩ := Option.map_eq_some_iff.mp h
  cases op with
  | observe world =>
    cases hperform
    simpa [keepsEpoch] using hkeeps
  | captureOrigin key provided =>
    simp only [Memory.perform] at hperform
    split at hperform
    · unfold Memory.captureRevision at hperform
      split at hperform
      · cases hperform; rfl
      · split at hperform
        · cases hperform; rfl
        · cases hperform; rfl
    · cases hperform
  | dropOrigin id | applyOrigin write id =>
    obtain ⟨origin, -, heq⟩ := Option.map_eq_some_iff.mp hperform
    cases heq
    rfl
  | skipOrigin key id =>
    obtain ⟨origin, -, heq⟩ := Option.map_eq_some_iff.mp hperform
    unfold Memory.skipRevision at heq
    split at heq <;> cases heq <;> rfl
  | dropFlight r =>
    simp only [Memory.perform] at hperform
    split at hperform <;> cases hperform
    rfl
  | applyInsert | insertValueBorrowed | insertPlainBorrowed | applyExpire | detachRemove
  | invalidateOrigin | invalidateAll | insertAt | insertIfUnchanged | remove | get | maintain
  | newFlight =>
    cases hperform
    rfl

/-! ## Steps of the whole system -/

/-- What happens to one task in a step of the whole system. -/
theorem task_of_next {a : Action K V M R} {task : Task K V M} (hnext : next cfg s a = some s')
    (ht : s.tasks.lookup t = some task) :
    (∃ input task', a = .step t input ∧
      stepTask cfg t s.refs s.shared input task = some (task', s'.shared) ∧
      s'.tasks.lookup t = some task') ∨
    (a = .drop t ∧ s'.tasks.lookup t = some task.dropped) ∨
    ((∀ input, a ≠ .step t input) ∧ s'.tasks.lookup t = some task) := by
  have hnew {u : TaskId} (hu : u ∉ s.tasks) : t ≠ u := by
    rintro rfl
    exact hu (AList.lookup_isSome.mp (by rw [ht]; rfl))
  cases a with
  | start u begun =>
    refine .inr (.inr ⟨fun _ h => (by cases h), ?_⟩)
    simp only [Hybrid.next] at hnext
    split at hnext
    · cases hnext
    · rename_i hok
      cases hnext
      exact (AList.lookup_insert_ne (hnew fun hu => hok (.inl hu))).trans ht
  | claim u key =>
    refine .inr (.inr ⟨fun _ h => (by cases h), ?_⟩)
    simp only [Hybrid.next] at hnext
    split at hnext
    · cases hnext
    · rename_i hu
      split at hnext
      · cases hnext
      · split at hnext
        · cases hnext
        · cases hnext
          exact (AList.lookup_insert_ne (hnew hu)).trans ht
  | step u input =>
    simp only [Hybrid.next] at hnext
    split at hnext
    · cases hnext
    · rename_i current hcurrent
      obtain ⟨⟨stepped, shared⟩, hstep, heq⟩ := Option.map_eq_some_iff.mp hnext
      cases heq
      by_cases hu : t = u
      · subst hu
        obtain rfl := Option.some.inj (ht.symm.trans hcurrent)
        exact .inl ⟨input, stepped, rfl, hstep, AList.lookup_insert _⟩
      · refine .inr (.inr ⟨fun _ h => hu (by cases h; rfl), ?_⟩)
        exact (AList.lookup_insert_ne hu).trans ht
  | drop u =>
    simp only [Hybrid.next] at hnext
    split at hnext
    · cases hnext
    · rename_i current hcurrent
      cases hnext
      by_cases hu : t = u
      · subst hu
        obtain rfl := Option.some.inj (ht.symm.trans hcurrent)
        exact .inr (.inl ⟨rfl, AList.lookup_insert _⟩)
      · refine .inr (.inr ⟨fun _ h => (by cases h), ?_⟩)
        exact (AList.lookup_insert_ne hu).trans ht
  | memoryOp op =>
    refine .inr (.inr ⟨fun _ h => (by cases h), ?_⟩)
    simp only [Hybrid.next] at hnext
    split at hnext
    · obtain ⟨memory, -, heq⟩ := Option.map_eq_some_iff.mp hnext
      cases heq
      exact ht
    · cases hnext
  | advanceEpoch | handOut key =>
    refine .inr (.inr ⟨fun _ h => (by cases h), ?_⟩)
    simp only [Hybrid.next] at hnext
    split at hnext <;> cases hnext
    exact ht
  | remote key entry | unhold lane | sweep key | enqueueMarker work now order | dropMarker key
  | stopRecovery =>
    cases hnext
    exact .inr (.inr ⟨fun _ h => (by cases h), ht⟩)

/-- A task that was not there before was started, or is the replay of a claim. -/
theorem begun_of_next {a : Action K V M R} {task : Task K V M} (hnext : next cfg s a = some s')
    (hbefore : s.tasks.lookup t = none) (hafter : s'.tasks.lookup t = some task) :
    (a = .start t task ∧ task.isInitial = true) ∨
      ∃ key ticket queue item mutation, ∃ hwork : ticket.work = .data item mutation,
        a = .claim t key ∧ s.shared.queue.claim (.data key) = some (ticket, queue) ∧
        s'.shared = { s.shared with queue } ∧
        task = .replay ⟨ticket, item, mutation, hwork, .claimed⟩ := by
  have habsurd (h : s'.tasks.lookup t = s.tasks.lookup t) : False := by
    rw [h, hbefore] at hafter
    cases hafter
  have hinserted {u : TaskId} {other : Task K V M} {tasks : AList fun _ : TaskId => Task K V M}
      (htasks : tasks = s.tasks.insert u other) (h : tasks.lookup t = some task) :
      t = u ∧ task = other := by
    subst htasks
    by_cases hu : t = u
    · subst hu
      rw [AList.lookup_insert] at h
      exact ⟨rfl, (Option.some.inj h).symm⟩
    · rw [AList.lookup_insert_ne hu, hbefore] at h
      cases h
  cases a with
  | start u begun =>
    simp only [Hybrid.next] at hnext
    split at hnext
    · cases hnext
    · rename_i hok
      cases hnext
      obtain ⟨rfl, rfl⟩ := hinserted rfl hafter
      simp only [Bool.not_eq_true', not_or, Bool.not_eq_false] at hok
      exact .inl ⟨rfl, hok.2⟩
  | claim u key =>
    simp only [Hybrid.next] at hnext
    split at hnext
    · cases hnext
    · split at hnext
      · cases hnext
      · rename_i ticket queue hclaim
        split at hnext
        · cases hnext
        · rename_i item mutation hwork
          cases hnext
          obtain ⟨rfl, rfl⟩ := hinserted rfl hafter
          exact .inr ⟨key, ticket, queue, item, mutation, hwork, rfl, hclaim, rfl, rfl⟩
  | step u input =>
    simp only [Hybrid.next] at hnext
    split at hnext
    · cases hnext
    · rename_i current hcurrent
      obtain ⟨⟨stepped, shared⟩, -, heq⟩ := Option.map_eq_some_iff.mp hnext
      cases heq
      obtain ⟨rfl, -⟩ := hinserted rfl hafter
      rw [hbefore] at hcurrent
      cases hcurrent
  | drop u =>
    simp only [Hybrid.next] at hnext
    split at hnext
    · cases hnext
    · rename_i current hcurrent
      cases hnext
      obtain ⟨rfl, -⟩ := hinserted rfl hafter
      rw [hbefore] at hcurrent
      cases hcurrent
  | memoryOp op =>
    simp only [Hybrid.next] at hnext
    split at hnext
    · obtain ⟨memory, -, heq⟩ := Option.map_eq_some_iff.mp hnext
      cases heq
      exact absurd rfl habsurd
    · cases hnext
  | advanceEpoch | handOut key =>
    simp only [Hybrid.next] at hnext
    split at hnext <;> cases hnext
    exact absurd rfl habsurd
  | remote key entry | unhold lane | sweep key | enqueueMarker work now order | dropMarker key
  | stopRecovery =>
    cases hnext
    exact absurd rfl habsurd

/-- The history grows, by an admission only in a step of the task that is admitted. -/
theorem history_of_next {a : Action K V M R} (hnext : next cfg s a = some s') :
    ∃ events, s'.shared.history = events ++ s.shared.history ∧
      ∀ key u, .admitted key u ∈ events → ∃ input task, a = .step u input ∧
        s.tasks.lookup u = some task := by
  have hnone : ∃ events, s.shared.history = events ++ s.shared.history ∧
      ∀ key u, .admitted key u ∈ events → ∃ input task, a = .step u input ∧
        s.tasks.lookup u = some task := ⟨[], rfl, fun _ _ h => by cases h⟩
  cases a with
  | start u begun | handOut key =>
    simp only [Hybrid.next] at hnext
    split at hnext <;> cases hnext
    exact hnone
  | advanceEpoch =>
    simp only [Hybrid.next] at hnext
    split at hnext <;> cases hnext
    exact ⟨[.epoch], rfl, fun _ _ h => by cases List.mem_singleton.mp h⟩
  | claim u key =>
    simp only [Hybrid.next] at hnext
    repeat' split at hnext
    all_goals
      cases hnext
      try exact hnone
  | step u input =>
    simp only [Hybrid.next] at hnext
    split at hnext
    · cases hnext
    · rename_i current hcurrent
      obtain ⟨⟨stepped, shared⟩, hstep, heq⟩ := Option.map_eq_some_iff.mp hnext
      cases heq
      obtain ⟨-, events, hhistory, -, hadmitted⟩ := recorded_of_stepTask hstep
      refine ⟨events, hhistory, fun key v hmem => ?_⟩
      obtain ⟨rfl, -, -⟩ := hadmitted key v hmem
      exact ⟨input, current, rfl, hcurrent⟩
  | drop u =>
    simp only [Hybrid.next] at hnext
    split at hnext <;> cases hnext
    exact hnone
  | memoryOp op =>
    simp only [Hybrid.next] at hnext
    split at hnext
    · obtain ⟨memory, -, heq⟩ := Option.map_eq_some_iff.mp hnext
      cases heq
      exact hnone
    · cases hnext
  | remote key entry | unhold lane | sweep key | enqueueMarker work now order | dropMarker key
  | stopRecovery =>
    cases hnext
    exact hnone

end Hybrid

end Amalgam
