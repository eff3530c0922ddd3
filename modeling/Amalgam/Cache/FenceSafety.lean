import Amalgam.Cache.HybridRun

/-!
# Amalgam — what was fenced off never lands

A fence is outdated once its key was admitted again, or the continuity epoch moved. The
product of a factory whose origin is outdated before its check is turned away in every run
(`stale_product_never_lands`), and what was read from L2 is put into L1 only while nothing was
admitted since its fence (`hydration_installs_only_current`). Both rest on `FenceInv`: a fence
has seen as many advances of the epoch as the history shows, and behind the last check of a
task its guard keeps every other admission out.
-/

set_option linter.unusedSectionVars false

namespace Amalgam

namespace Hybrid

open Commit Recovery

section

variable {K : Type} [DecidableEq K]

/-- The key was admitted to its lane, or the epoch advanced, after the fence was captured. -/
def Outdated (key : K) (fence : Fence) (history : List (Event K)) : Prop :=
  (∃ task, .admitted key task ∈ History.since fence.mark history) ∨
    .epoch ∈ History.since fence.epochMark history

theorem admissions_pos {key : K} {task : TaskId} {events : List (Event K)}
    (h : .admitted key task ∈ events) : 0 < admissions key events :=
  List.countP_pos_iff.mpr ⟨_, h, by simp⟩

theorem admissions_eq_zero {key : K} {events : List (Event K)}
    (h : ∀ task, .admitted key task ∉ events) : admissions key events = 0 := by
  refine List.countP_eq_zero.mpr fun e he => ?_
  cases e with
  | admitted k task =>
    have hne : k ≠ key := fun heq => h task (heq ▸ he)
    simp [hne]
  | epoch | passed task | replayed k id fence | notified k id => simp

theorem epochs_eq_zero {events : List (Event K)} (h : .epoch ∉ events) : epochs events = 0 :=
  List.countP_eq_zero.mpr fun e he => by simpa using fun heq : e = .epoch => h (heq ▸ he)

theorem epochs_pos {events : List (Event K)} (h : .epoch ∈ events) : 0 < epochs events :=
  List.countP_pos_iff.mpr ⟨_, h, by simp⟩

theorem admissions_append (key : K) (l l' : List (Event K)) :
    admissions key (l ++ l') = admissions key l + admissions key l' := List.countP_append

theorem epochs_append (l l' : List (Event K)) : epochs (l ++ l') = epochs l + epochs l' :=
  List.countP_append

/-- The epoch has advanced as often since the fence as the history shows. -/
structure EpochCounted (epoch : Nat) (history : List (Event K)) (fence : Fence) : Prop where
  mark : fence.epochMark ≤ history.length
  epoch : epoch = fence.capturedEpoch + epochs (History.since fence.epochMark history)

theorem EpochCounted.grow {epoch epoch' : Nat} {history : List (Event K)} {fence : Fence}
    (h : EpochCounted epoch history fence) (events : List (Event K))
    (hepoch : epoch' = epoch + epochs events) : EpochCounted epoch' (events ++ history) fence where
  mark := by
    have hmark := h.mark
    rw [List.length_append]
    omega
  epoch := by
    have hcount := h.epoch
    rw [since_append h.mark, epochs_append, hepoch, hcount]
    omega

theorem EpochCounted.fresh {epoch : Nat} {history : List (Event K)} {fence : Fence}
    (hepoch : fence.capturedEpoch = epoch) (hmark : fence.epochMark = history.length) :
    EpochCounted epoch history fence where
  mark := Nat.le_of_eq hmark
  epoch := by
    rw [hmark, History.since_length, hepoch]
    rfl

/-- Nothing was admitted to the lane of the key since the fence. -/
structure Unadmitted (history : List (Event K)) (key : K) (fence : Fence) : Prop where
  mark : fence.mark ≤ history.length
  none : admissions key (History.since fence.mark history) = 0

theorem Unadmitted.grow {history : List (Event K)} {key : K} {fence : Fence}
    (h : Unadmitted history key fence) {events : List (Event K)}
    (hevents : admissions key events = 0) : Unadmitted (events ++ history) key fence where
  mark := by
    have hmark := h.mark
    rw [List.length_append]
    omega
  none := by rw [since_append h.mark, admissions_append, hevents, h.none]

theorem Unadmitted.not_mem {key : K} {fence : Fence} {history : List (Event K)}
    (h : Unadmitted history key fence) (u : TaskId) :
    .admitted key u ∉ History.since fence.mark history := fun hmem => by
  have hpos := admissions_pos hmem
  have hnone := h.none
  omega

end

variable {K V M R : Type} [LinearOrder K] [DecidableEq R] {cfg : Config M R}
  {sh sh' : Shared K V M R} {s s' : State K V M R} {refs : List LaneId} {t : TaskId}
  {input : Input K V R}

/-! ## The fences that tasks compare with -/

/-- The product is not compared with its origin yet. -/
def MutationPc.unchecked : MutationPc K V → Bool
  | .running | .getLane _ | .lock _ _ | .check _ _ => true
  | _ => false

/-- The fence a task has still to be compared with, or was compared with last. -/
def Task.fence : Task K V M → Option Fence
  | .mutation m =>
    match m.pc with
    | .running | .getLane _ | .lock _ _ | .check _ _ | .admission _ _ => m.origin
    | _ => none
  | .incoming i =>
    match i.pc with
    | .cancel fence _ | .apply fence _ | .passiveRead fence _ | .passiveLock fence _ _
    | .passiveCheck fence _ _ | .passiveRecheck fence _ _ | .passiveInsert fence _ _
    | .passiveRemove fence _ => some fence
    | _ => none
  | .hydration h =>
    match h.pc with
    | .observe fence | .fetch fence _ | .tryLock fence _ _ | .check fence _ _
    | .recheck fence _ _ | .insert fence _ _ => some fence
    | _ => none
  | .replay _ => none

/-- The fence of a task whose last check has passed, and which has still to do what that
allowed. -/
def Task.clearance : Task K V M → Option Fence
  | .mutation m =>
    match m.pc with
    | .admission _ _ => m.origin
    | _ => none
  | .incoming i =>
    match i.pc with
    | .passiveInsert fence _ _ | .passiveRemove fence _ => some fence
    | _ => none
  | .hydration h =>
    match h.pc with
    | .insert fence _ _ => some fence
    | _ => none
  | .replay r =>
    match r.pc with
    | .write _ | .store _ _ _ => r.ticket.fence
    | _ => none

theorem clearance_guard {task : Task K V M} {f : Fence} (h : task.clearance = some f) :
    task.view.guard ≠ none := by
  cases task with
  | mutation m =>
    obtain ⟨key, opts, fenced, origin, pc⟩ := m
    cases pc with
    | admission => exact fun h => by cases h
    | _ => cases h
  | incoming i =>
    obtain ⟨message, pc⟩ := i
    cases pc with
    | passiveInsert | passiveRemove => exact fun h => by cases h
    | _ => cases h
  | hydration hy =>
    obtain ⟨key, pc⟩ := hy
    cases pc with
    | insert => exact fun h => by cases h
    | _ => cases h
  | replay r =>
    obtain ⟨ticket, item, mutation, isData, pc⟩ := r
    cases pc with
    | write | store => exact fun h => by cases h
    | _ => cases h

/-! ### One step of a task -/

/-- A fence a task comes to have was captured by this very step. -/
theorem fence_of_stepTask {task task' : Task K V M} {f : Fence}
    (h : stepTask cfg t refs sh input task = some (task', sh')) (hf : task'.fence = some f) :
    task.fence = some f ∨ f.capturedEpoch = sh'.epoch ∧ f.epochMark = sh'.history.length := by
  cases task with
  | mutation m =>
    obtain ⟨⟨m', shared⟩, hstep, heq⟩ := Option.map_eq_some_iff.mp h
    cases heq
    obtain ⟨key, opts, fenced, origin, pc⟩ := m
    cases pc with
    | capture => cases hstep; cases hf
    | captureEpoch snapshot =>
      cases hstep
      cases hf
      exact .inr ⟨rfl, rfl⟩
    | running =>
      simp only [stepMutation] at hstep
      split at hstep
      · cases hstep; exact .inl hf
      · cases hstep; cases hf
      · cases hstep
    | getLane write => cases hstep; exact .inl hf
    | lock write lane =>
      simp only [stepMutation] at hstep
      split at hstep
      · cases hstep
      · cases hstep
        cases origin with
        | none => cases hf
        | some origin => exact .inl hf
    | check write lane =>
      simp only [stepMutation] at hstep
      split at hstep
      · cases hstep; cases hf
      · split at hstep
        · cases hstep; exact .inl hf
        · cases hstep; cases hf
      · cases hstep
    | admission write lane =>
      simp only [stepMutation] at hstep
      split at hstep <;> cases hstep <;> cases hf
    | admitted fence command pc =>
      obtain ⟨⟨pc', shared⟩, hcommit, heq⟩ := Option.map_eq_some_iff.mp hstep
      cases heq
      rcases (commitMove_of_stepCommit hcommit).pc with ⟨_, _, rfl⟩ | ⟨_, rfl⟩ <;> cases hf
    | release lane result => cases hstep; cases hf
    | done result => cases hstep
  | incoming i =>
    obtain ⟨⟨pc', shared⟩, hstep, heq⟩ := Option.map_eq_some_iff.mp h
    cases heq
    obtain ⟨message, pc⟩ := i
    cases pc with
    | loadEpoch snapshot existing =>
      cases hstep
      cases hf
      exact .inr ⟨rfl, rfl⟩
    | getLane | release lane => cases hstep; cases hf
    | lock lane =>
      obtain ⟨lanes, -, heq⟩ := Option.map_eq_some_iff.mp hstep
      cases heq
      cases hf
    | passiveLock fence expected found =>
      obtain ⟨lanes, -, heq⟩ := Option.map_eq_some_iff.mp hstep
      cases heq
      exact .inl hf
    | cancel fence existing => cases hstep; exact .inl hf
    | passiveInsert fence expected copy | passiveRemove fence expected => cases hstep; cases hf
    | checkLane lane | read lane | admission lane existing =>
      simp only [stepIncoming] at hstep
      split at hstep <;> cases hstep <;> cases hf
    | apply fence existing | passiveRead fence expected | passiveCheck fence expected found
    | passiveRecheck fence expected copy =>
      simp only [stepIncoming] at hstep
      repeat' split at hstep
      all_goals
        cases hstep
        try first | exact .inl hf | cases hf
    | done => cases hstep
  | hydration hy =>
    obtain ⟨⟨pc', shared⟩, hstep, heq⟩ := Option.map_eq_some_iff.mp h
    cases heq
    obtain ⟨key, pc⟩ := hy
    cases pc with
    | getLane | release lane => cases hstep; cases hf
    | fence lane =>
      simp only [stepHydration] at hstep
      split at hstep
      · split at hstep
        · cases hstep
          cases hf
          exact .inr ⟨rfl, rfl⟩
        · cases hstep; cases hf
      · cases hstep; cases hf
    | observe fence => cases hstep; exact .inl hf
    | insert fence observed copy => cases hstep; cases hf
    | fetch fence observed | tryLock fence observed source | check fence observed source
    | recheck fence observed copy =>
      simp only [stepHydration] at hstep
      repeat' split at hstep
      all_goals
        cases hstep
        try first | exact .inl hf | cases hf
    | done => cases hstep
  | replay r =>
    obtain ⟨⟨pc', shared⟩, -, heq⟩ := Option.map_eq_some_iff.mp h
    cases heq
    cases hf

/-- A task is cleared by finding its fence current. -/
theorem cleared_of_stepTask {task task' : Task K V M} {f : Fence}
    (h : stepTask cfg t refs sh input task = some (task', sh'))
    (hcleared : task'.clearance = some f) :
    (task.clearance = some f ∨
      f.toSnapshot ∈ task.view.snapshots ∧ sh.lanes.isCurrent f.toSnapshot = true) ∧
      ∃ events, sh'.history = events ++ sh.history ∧ ∀ e ∈ events, e.isNote = true := by
  have hnone : ∃ events, sh.history = events ++ sh.history ∧ ∀ e ∈ events, e.isNote = true :=
    ⟨[], rfl, fun _ h => by cases h⟩
  have hpassed : ∃ events, (sh.record (.passed t)).history = events ++ sh.history ∧
      ∀ e ∈ events, e.isNote = true :=
    ⟨[.passed t], rfl, fun e he => by rw [List.mem_singleton.mp he]; rfl⟩
  have hcurrent {f : Fence} (h : sh.lanes.passiveIsCurrent sh.epoch f = true) :
      sh.lanes.isCurrent f.toSnapshot = true :=
    Lanes.isCurrent_iff.mpr (Lanes.passiveIsCurrent_iff.mp h).1
  cases task with
  | mutation m =>
    obtain ⟨⟨m', shared⟩, hstep, heq⟩ := Option.map_eq_some_iff.mp h
    cases heq
    obtain ⟨key, opts, fenced, origin, pc⟩ := m
    cases pc with
    | lock write lane =>
      simp only [stepMutation] at hstep
      split at hstep
      · cases hstep
      · cases hstep
        cases origin with
        | none => cases hcleared
        | some origin => cases hcleared
    | check write lane =>
      simp only [stepMutation] at hstep
      split at hstep
      · cases hstep; cases hcleared
      · split at hstep
        · rename_i origin' _ hpasses
          cases hstep
          obtain rfl : origin' = f := Option.some.inj hcleared
          exact ⟨.inr ⟨by simp [Task.view, Mutation.view], hcurrent hpasses⟩, hpassed⟩
        · cases hstep; cases hcleared
      · cases hstep
    | running =>
      simp only [stepMutation] at hstep
      split at hstep
      · cases hstep; cases hcleared
      · cases hstep; cases hcleared
      · cases hstep
    | admission write lane =>
      simp only [stepMutation] at hstep
      split at hstep <;> cases hstep <;> cases hcleared
    | admitted fence command pc =>
      obtain ⟨⟨pc', shared⟩, hcommit, heq⟩ := Option.map_eq_some_iff.mp hstep
      cases heq
      rcases (commitMove_of_stepCommit hcommit).pc with ⟨_, _, rfl⟩ | ⟨_, rfl⟩ <;> cases hcleared
    | capture | captureEpoch snapshot | getLane write | release lane result =>
      cases hstep
      cases hcleared
    | done result => cases hstep
  | incoming i =>
    obtain ⟨⟨pc', shared⟩, hstep, heq⟩ := Option.map_eq_some_iff.mp h
    cases heq
    obtain ⟨message, pc⟩ := i
    cases pc with
    | passiveCheck fence expected found =>
      simp only [stepIncoming] at hstep
      split at hstep
      · cases hstep; cases hcleared
      · rename_i hpasses
        have hpasses : sh.lanes.passiveIsCurrent sh.epoch fence = true := by simpa using hpasses
        split at hstep
        · cases hstep
          cases hcleared
          exact ⟨.inr ⟨by simp [Task.view, Incoming.view], hcurrent hpasses⟩, hnone⟩
        · cases hstep
          cases hcleared
          exact ⟨.inr ⟨by simp [Task.view, Incoming.view], hcurrent hpasses⟩, hnone⟩
        · cases hstep; cases hcleared
        · cases hstep; cases hcleared
        · cases hstep
    | passiveRecheck fence expected copy =>
      simp only [stepIncoming] at hstep
      split at hstep
      · rename_i hpasses
        cases hstep
        cases hcleared
        exact ⟨.inr ⟨by simp [Task.view, Incoming.view], hcurrent hpasses⟩, hnone⟩
      · cases hstep; cases hcleared
    | lock lane | passiveLock fence expected found =>
      obtain ⟨lanes, -, heq⟩ := Option.map_eq_some_iff.mp hstep
      cases heq
      cases hcleared
    | getLane | loadEpoch snapshot existing | cancel fence existing | release lane
    | passiveInsert fence expected copy | passiveRemove fence expected =>
      cases hstep
      cases hcleared
    | checkLane lane | read lane | admission lane existing | apply fence existing
    | passiveRead fence expected =>
      simp only [stepIncoming] at hstep
      split at hstep <;> cases hstep <;> cases hcleared
    | done => cases hstep
  | hydration hy =>
    obtain ⟨⟨pc', shared⟩, hstep, heq⟩ := Option.map_eq_some_iff.mp h
    cases heq
    obtain ⟨key, pc⟩ := hy
    cases pc with
    | recheck fence observed copy =>
      simp only [stepHydration] at hstep
      split at hstep
      · rename_i hpasses
        cases hstep
        cases hcleared
        exact ⟨.inr ⟨by simp [Task.view, Hydration.view], hcurrent hpasses⟩, hpassed⟩
      · cases hstep; cases hcleared
    | getLane | observe fence | insert fence observed copy | release lane =>
      cases hstep
      cases hcleared
    | fence lane | fetch fence observed | tryLock fence observed source
    | check fence observed source =>
      simp only [stepHydration] at hstep
      repeat' split at hstep
      all_goals
        cases hstep
        try cases hcleared
    | done => cases hstep
  | replay r =>
    obtain ⟨⟨pc', shared⟩, hstep, heq⟩ := Option.map_eq_some_iff.mp h
    cases heq
    obtain ⟨ticket, item, mutation, isData, pc⟩ := r
    cases pc with
    | recheck lane =>
      obtain ⟨rfl, ⟨rfl, hpasses⟩ | ⟨outcome, rfl⟩⟩ := stillCurrent_eq_some hstep
      · have hfence : ticket.fence = some f := hcleared
        refine ⟨.inr ⟨by simp [Task.view, Replay.view, hfence], ?_⟩, hnone⟩
        simp only [Shared.ticketIsCurrent, hfence, Option.all_some, Bool.and_eq_true] at hpasses
        exact hpasses.1
      · cases hcleared
    | check lane =>
      obtain ⟨rfl, ⟨rfl, -⟩ | ⟨outcome, rfl⟩⟩ := stillCurrent_eq_some hstep <;> cases hcleared
    | confirm lane notification =>
      obtain ⟨rfl, ⟨rfl, -⟩ | ⟨outcome, rfl⟩⟩ := stillCurrent_eq_some hstep
      · cases notification with
        | none => cases hcleared
        | some command => cases hb : cfg.backplane <;> simp [Task.clearance, hb] at hcleared
      · cases hcleared
    | write lane =>
      cases mutation with
      | legacy => cases hstep
      | notify command => cases hstep; cases hcleared
      | coldExpire boundary notification =>
        simp only [stepReplay] at hstep
        repeat' split at hstep
        all_goals
          cases hstep
          first | exact ⟨.inl hcleared, hnone⟩ | cases hcleared
      | commit data notification | fencedCommit data notification =>
        simp only [stepReplay] at hstep
        split at hstep
        · cases hstep; cases hcleared
        · cases hstep
          exact ⟨.inl hcleared, hnone⟩
    | lock lane =>
      obtain ⟨lanes, -, heq⟩ := Option.map_eq_some_iff.mp hstep
      cases heq
      cases hcleared
    | getLane | release lane outcome | settle outcome => cases hstep; cases hcleared
    | claimed | reconcile lane | store lane data notification | stage lane notification
    | publish lane command =>
      simp only [stepReplay] at hstep
      repeat' split at hstep
      all_goals
        cases hstep
        try cases hcleared
    | done => cases hstep

/-! ## The invariant -/

structure FenceInv (cfg : Config M R) (s : State K V M R) : Prop where
  lanes : LaneInv cfg s
  counted : ∀ t task f, s.tasks.lookup t = some task → task.fence = some f →
    EpochCounted s.shared.epoch s.shared.history f
  unadmitted : ∀ t task f, s.tasks.lookup t = some task → task.clearance = some f →
    Unadmitted s.shared.history task.view.key f

/-- A fence that is current has seen no admission. -/
theorem unadmitted_of_current {lanes : Lanes K} {history : List (Event K)} {key : K} {f : Fence}
    (h : Counted lanes history key f.toSnapshot)
    (hcurrent : lanes.isCurrent f.toSnapshot = true) : Unadmitted history key f where
  mark := h.mark
  none := by
    have hgeneration := Lanes.isCurrent_iff.mp hcurrent
    have hcount := h.generation
    omega

theorem not_current_of_outdated {lanes : Lanes K} {history : List (Event K)} {key : K}
    {f : Fence} {epoch : Nat} (hcounted : Counted lanes history key f.toSnapshot)
    (hepoch : EpochCounted epoch history f) (h : Outdated key f history) :
    lanes.passiveIsCurrent epoch f = false := by
  refine Bool.eq_false_iff.mpr fun hcurrent => ?_
  rcases h with ⟨task, hadmitted⟩ | hadvanced
  · have hpos := admissions_pos hadmitted
    have hnone := (unadmitted_of_current hcounted
      (Lanes.isCurrent_iff.mpr (Lanes.passiveIsCurrent_iff.mp hcurrent).1)).none
    omega
  · have hpos := epochs_pos hadvanced
    have hsame := (Lanes.passiveIsCurrent_iff.mp hcurrent).2
    have hcount := hepoch.epoch
    omega

namespace FenceInv

/-- A step around the tasks that records nothing but, maybe, an advance of the epoch. -/
theorem ambient (h : FenceInv cfg s) (hlanes : LaneInv cfg ⟨sh', s.tasks⟩)
    (events : List (Event K)) (hhistory : sh'.history = events ++ s.shared.history)
    (hepoch : sh'.epoch = s.shared.epoch + epochs events)
    (hevents : ∀ key, admissions key events = 0) : FenceInv cfg ⟨sh', s.tasks⟩ where
  lanes := hlanes
  counted := fun t task f ht hf => hhistory ▸ (h.counted t task f ht hf).grow events hepoch
  unadmitted := fun t task f ht hcleared =>
    hhistory ▸ (h.unadmitted t task f ht hcleared).grow (hevents _)

/-- A task that is new, or was dropped, compares with no fence. -/
theorem forget (h : FenceInv cfg s) {t : TaskId} {task' : Task K V M}
    (hlanes : LaneInv cfg ⟨sh', s.tasks.insert t task'⟩)
    (hhistory : sh'.history = s.shared.history) (hepoch : sh'.epoch = s.shared.epoch)
    (hf : task'.fence = none) (hcleared : task'.clearance = none) :
    FenceInv cfg ⟨sh', s.tasks.insert t task'⟩ where
  lanes := hlanes
  counted := fun u other f hu hfu => by
    rw [hhistory, hepoch]
    rcases AList.lookup_insert_cases hu with ⟨rfl, rfl⟩ | ⟨-, hu⟩
    · rw [hf] at hfu
      cases hfu
    · exact h.counted u other f hu hfu
  unadmitted := fun u other f hu hcleared' => by
    rw [hhistory]
    rcases AList.lookup_insert_cases hu with ⟨rfl, rfl⟩ | ⟨-, hu⟩
    · rw [hcleared] at hcleared'
      cases hcleared'
    · exact h.unadmitted u other f hu hcleared'

theorem step (h : FenceInv cfg s) {t : TaskId} {task task' : Task K V M}
    (ht : s.tasks.lookup t = some task)
    (hstep : stepTask cfg t s.refs s.shared input task = some (task', sh')) :
    FenceInv cfg ⟨sh', s.tasks.insert t task'⟩ := by
  obtain ⟨hmove, htickets⟩ := stepTask_move hstep
  obtain ⟨hepoch, events, hhistory, hepochs, hadmitted⟩ := recorded_of_stepTask hstep
  have hkeeps (f : Fence) (hf : EpochCounted s.shared.epoch s.shared.history f) :
      EpochCounted sh'.epoch sh'.history f :=
    hhistory ▸ hf.grow events (by rw [hepoch, epochs_eq_zero hepochs, Nat.add_zero])
  refine ⟨h.lanes.move ht hmove.lane htickets, fun u other f hu hf => ?_,
    fun u other f hu hcleared => ?_⟩
  · rcases AList.lookup_insert_cases hu with ⟨rfl, rfl⟩ | ⟨-, hu⟩
    · rcases fence_of_stepTask hstep hf with hold | ⟨hfepoch, hfmark⟩
      · exact hkeeps f (h.counted u task f ht hold)
      · exact .fresh hfepoch hfmark
    · exact hkeeps f (h.counted u other f hu hf)
  · rcases AList.lookup_insert_cases hu with ⟨rfl, rfl⟩ | ⟨hne, hu⟩
    · obtain ⟨hclears, notes, hnotes, hquiet⟩ := cleared_of_stepTask hstep hcleared
      have hbefore : Unadmitted s.shared.history task.view.key f := by
        rcases hclears with hold | ⟨hmem, hcurrent⟩
        · exact h.unadmitted u task f ht hold
        · exact unadmitted_of_current ((h.lanes.tasks u task ht).counted f.toSnapshot hmem) hcurrent
      show Unadmitted sh'.history other.view.key f
      rw [hmove.lane.key, hnotes]
      exact hbefore.grow (admissions_note hquiet _)
    · show Unadmitted sh'.history other.view.key f
      rw [hhistory]
      refine (h.unadmitted u other f hu hcleared).grow ?_
      -- Only the task that has the guard could have been admitted.
      refine admissions_eq_zero fun task' hmem => ?_
      obtain ⟨-, hkey, hguard⟩ := hadmitted _ _ hmem
      exact hne (h.lanes.guard_unique hu ht hkey (clearance_guard hcleared) hguard)

theorem next (h : FenceInv cfg s) {a : Action K V M R} (hnext : next cfg s a = some s') :
    FenceInv cfg s' := by
  have hlanes := h.lanes.next hnext
  have hquiet {sh' : Shared K V M R} (hlanes : LaneInv cfg ⟨sh', s.tasks⟩)
      (hhistory : sh'.history = s.shared.history) (hepoch : sh'.epoch = s.shared.epoch) :
      FenceInv cfg ⟨sh', s.tasks⟩ :=
    h.ambient hlanes [] hhistory hepoch fun _ => rfl
  cases a with
  | start task begun =>
    simp only [Hybrid.next] at hnext
    split at hnext
    · cases hnext
    · rename_i hok
      cases hnext
      simp only [Bool.not_eq_true', not_or, Bool.not_eq_false] at hok
      have hinitial := hok.2
      unfold Task.isInitial at hinitial
      split at hinitial
      · exact h.forget hlanes rfl rfl rfl rfl
      · exact h.forget hlanes rfl rfl rfl rfl
      · exact h.forget hlanes rfl rfl rfl rfl
      · exact h.forget hlanes rfl rfl rfl rfl
      · cases hinitial
  | claim task key =>
    simp only [Hybrid.next] at hnext
    split at hnext
    · cases hnext
    · split at hnext
      · cases hnext
      · split at hnext
        · cases hnext
        · cases hnext
          exact h.forget hlanes rfl rfl rfl rfl
  | step task input =>
    simp only [Hybrid.next] at hnext
    split at hnext
    · cases hnext
    · rename_i current hcurrent
      obtain ⟨⟨stepped, shared⟩, hstep, heq⟩ := Option.map_eq_some_iff.mp hnext
      cases heq
      exact h.step hcurrent hstep
  | drop task =>
    simp only [Hybrid.next] at hnext
    split at hnext
    · cases hnext
    · rename_i current hcurrent
      cases hnext
      have hnone : current.dropped.fence = none ∧ current.dropped.clearance = none := by
        cases current with
        | mutation m =>
          obtain ⟨key, opts, fenced, origin, pc⟩ := m
          cases pc <;> exact ⟨rfl, rfl⟩
        | incoming i => exact ⟨rfl, rfl⟩
        | hydration hy => exact ⟨rfl, rfl⟩
        | replay r =>
          obtain ⟨ticket, item, mutation, isData, pc⟩ := r
          cases pc <;> exact ⟨rfl, rfl⟩
      exact h.forget hlanes rfl rfl hnone.1 hnone.2
  | memoryOp op =>
    simp only [Hybrid.next] at hnext
    split at hnext
    · rename_i hkeeps
      obtain ⟨memory, hmemory, heq⟩ := Option.map_eq_some_iff.mp hnext
      cases heq
      exact hquiet hlanes rfl (epoch_of_memoryOp hkeeps hmemory)
    · cases hnext
  | advanceEpoch =>
    simp only [Hybrid.next] at hnext
    split at hnext
    · cases hnext
      exact h.ambient hlanes [.epoch] rfl rfl fun _ => rfl
    · cases hnext
  | handOut key =>
    simp only [Hybrid.next] at hnext
    split at hnext
    · cases hnext
    · cases hnext
      exact hquiet hlanes rfl rfl
  | remote key entry | unhold lane | sweep key | enqueueMarker work now order | dropMarker key
  | stopRecovery =>
    cases hnext
    exact hquiet hlanes rfl rfl

theorem init (memory : Memory.State K V) (distributed : AList fun _ : K => Entry V) :
    FenceInv cfg (Hybrid.init memory distributed : State K V M R) where
  lanes := .init memory distributed
  counted := fun _ _ _ ht => by cases ht
  unadmitted := fun _ _ _ ht => by cases ht

theorem of_reachable {memory : Memory.State K V} {distributed : AList fun _ : K => Entry V}
    (h : Run.Reachable (Hybrid.next cfg) (Hybrid.init memory distributed) s) : FenceInv cfg s :=
  h.invariant (.init memory distributed) fun _ _ _ hs hnext => hs.next hnext

end FenceInv

/-! ## Products of factories -/

/-- The step touched neither L1 nor L2 nor the recovery queue, told no peer, and admitted
nothing. -/
structure Untouched (sh sh' : Shared K V M R) : Prop where
  memory : sh'.memory = sh.memory
  distributed : sh'.distributed = sh.distributed
  queue : sh'.queue = sh.queue
  published : sh'.published = sh.published
  history : sh'.history = sh.history

theorem Untouched.refl (sh : Shared K V M R) : Untouched sh sh := ⟨rfl, rfl, rfl, rfl, rfl⟩

/-- Not checked yet, or turned away: a report it ends with is that of a changed version. -/
def MutationPc.rejected (cfg : Config M R) : MutationPc K V → Prop
  | .running | .getLane _ | .lock _ _ | .check _ _ => True
  | .release _ result | .done result => ∀ report, result = some report → report = versionChanged cfg
  | _ => False

theorem Outdated.grow {key : K} {fence : Fence} {history : List (Event K)}
    (h : Outdated key fence history) (events : List (Event K)) :
    Outdated key fence (events ++ history) := by
  have hmem {mark : Nat} {e : Event K} (he : e ∈ History.since mark history) :
      e ∈ History.since mark (events ++ history) := by
    obtain ⟨later, earlier, rfl, hmark⟩ := History.mem_since_iff.mp he
    exact History.mem_since_iff.mpr ⟨events ++ later, earlier, (List.append_assoc ..).symm, hmark⟩
  rcases h with ⟨task, hadmitted⟩ | hadvanced
  · exact .inl ⟨task, hmem hadmitted⟩
  · exact .inr (hmem hadvanced)

/-- One step of a product whose origin is no longer current. -/
theorem rejected_of_stepMutation {m m' : Mutation K V} {origin : Fence}
    (h : stepMutation cfg t refs sh m input = some (m', sh')) (hrejected : m.pc.rejected cfg)
    (horigin : m.pc.unchecked = true →
      m.origin = some origin ∧ sh.lanes.passiveIsCurrent sh.epoch origin = false) :
    Untouched sh sh' ∧ m'.pc.rejected cfg ∧
      (m'.pc.unchecked = true → m.pc.unchecked = true ∧ m'.key = m.key ∧ m'.origin = m.origin) := by
  obtain ⟨key, opts, fenced, origin', pc⟩ := m
  cases pc with
  | capture | captureEpoch snapshot | admission write lane | admitted fence command pc =>
    cases hrejected
  | running =>
    simp only [stepMutation] at h
    split at h
    · cases h
      exact ⟨.refl sh, trivial, fun _ => ⟨rfl, rfl, rfl⟩⟩
    · cases h
      exact ⟨.refl sh, fun _ h => (by cases h), fun h => by cases h⟩
    · cases h
  | getLane write =>
    cases h
    exact ⟨⟨rfl, rfl, rfl, rfl, rfl⟩, trivial, fun _ => ⟨rfl, rfl, rfl⟩⟩
  | lock write lane =>
    simp only [stepMutation] at h
    split at h
    · cases h
    · cases h
      obtain ⟨rfl, -⟩ : origin' = some origin ∧ _ := horigin rfl
      exact ⟨⟨rfl, rfl, rfl, rfl, rfl⟩, trivial, fun _ => ⟨rfl, rfl, rfl⟩⟩
  | check write lane =>
    obtain ⟨rfl, hstale⟩ : origin' = some origin ∧ _ := horigin rfl
    simp only [stepMutation] at h
    split at h
    · cases h
      exact ⟨.refl sh, fun _ h => (by cases h), fun h => by cases h⟩
    · rename_i origin'' heq _
      obtain rfl := Option.some.inj heq
      rw [if_neg (by rw [hstale]; exact Bool.false_ne_true)] at h
      cases h
      exact ⟨.refl sh, fun report hreport => (Option.some.inj hreport).symm, fun h => by cases h⟩
    · cases h
  | release lane result =>
    cases h
    exact ⟨⟨rfl, rfl, rfl, rfl, rfl⟩, hrejected, fun h => by cases h⟩
  | done result => cases h

/-- The product of the task has an outdated origin and is not checked yet, or it was turned
away. -/
def TurnedAway (cfg : Config M R) (key : K) (origin : Fence) (t : TaskId) (s : State K V M R) :
    Prop :=
  ∃ m, s.tasks.lookup t = some (.mutation m) ∧ m.pc.rejected cfg ∧
    (m.pc.unchecked = true →
      m.key = key ∧ m.origin = some origin ∧ Outdated key origin s.shared.history)

namespace TurnedAway

variable {key : K} {origin : Fence}

/-- A step of a product that is turned away. -/
theorem step (hinv : FenceInv cfg s) {m : Mutation K V} {task' : Task K V M}
    (ht : s.tasks.lookup t = some (.mutation m)) (hrejected : m.pc.rejected cfg)
    (hstale : m.pc.unchecked = true →
      m.key = key ∧ m.origin = some origin ∧ Outdated key origin s.shared.history)
    (hstep : stepTask cfg t s.refs s.shared input (.mutation m) = some (task', sh')) :
    ∃ m', task' = .mutation m' ∧ Untouched s.shared sh' ∧ m'.pc.rejected cfg ∧
      (m'.pc.unchecked = true → m'.key = key ∧ m'.origin = some origin ∧
        Outdated key origin s.shared.history) := by
  obtain ⟨⟨m', shared⟩, hmutation, heq⟩ := Option.map_eq_some_iff.mp hstep
  cases heq
  have horigin (hpc : m.pc.unchecked = true) : m.origin = some origin ∧
      s.shared.lanes.passiveIsCurrent s.shared.epoch origin = false := by
    obtain ⟨rfl, horigin, houtdated⟩ := hstale hpc
    -- The fence is in the view of the task, so what it saw is counted.
    have hview : m.view.key = m.key ∧ origin.toSnapshot ∈ m.view.snapshots ∧
        (Task.mutation m : Task K V M).fence = some origin := by
      obtain ⟨key, opts, fenced, origin', pc⟩ := m
      obtain rfl : origin' = some origin := horigin
      cases pc with
      | running | getLane write | lock write lane | check write lane =>
        exact ⟨rfl, List.mem_singleton_self _, rfl⟩
      | _ => cases hpc
    have hcounted := (hinv.lanes.tasks t _ ht).counted origin.toSnapshot hview.2.1
    rw [show (Task.mutation m : Task K V M).view.key = m.key from hview.1] at hcounted
    exact ⟨horigin, not_current_of_outdated hcounted (hinv.counted t _ _ ht hview.2.2) houtdated⟩
  obtain ⟨huntouched, hrejected', hsame⟩ := rejected_of_stepMutation hmutation hrejected horigin
  refine ⟨m', rfl, huntouched, hrejected', fun hpc => ?_⟩
  obtain ⟨hold, hkey, horigin'⟩ := hsame hpc
  obtain ⟨hkeyed, horiginal, houtdated⟩ := hstale hold
  exact ⟨hkey.trans hkeyed, horigin'.trans horiginal, houtdated⟩

theorem next (hinv : FenceInv cfg s) (h : TurnedAway cfg key origin t s) {a : Action K V M R}
    (hnext : next cfg s a = some s') : TurnedAway cfg key origin t s' := by
  obtain ⟨m, ht, hrejected, hstale⟩ := h
  obtain ⟨events, hhistory, -⟩ := history_of_next hnext
  rcases task_of_next hnext ht with ⟨input, task', rfl, hstep, ht'⟩ | ⟨rfl, ht'⟩ | ⟨-, ht'⟩
  · obtain ⟨m', rfl, -, hrejected', hstale'⟩ := step hinv ht hrejected hstale hstep
    refine ⟨m', ht', hrejected', fun hpc => ?_⟩
    obtain ⟨hkey, horigin, houtdated⟩ := hstale' hpc
    exact ⟨hkey, horigin, hhistory ▸ houtdated.grow events⟩
  · obtain ⟨key, opts, fenced, origin', pc⟩ := m
    cases pc with
    | done result => exact ⟨_, ht', hrejected, fun h => by cases h⟩
    | _ => exact ⟨_, ht', fun _ h => (by cases h), fun h => by cases h⟩
  · refine ⟨m, ht', hrejected, fun hpc => ?_⟩
    obtain ⟨hkey, horigin, houtdated⟩ := hstale hpc
    exact ⟨hkey, horigin, hhistory ▸ houtdated.grow events⟩

end TurnedAway

/-- A product whose key was admitted, or whose epoch moved, after its origin was captured and
before its check, is turned away in every run: it changes neither cache layer nor the recovery
queue, tells no peer, and reports nothing but a changed version. -/
theorem stale_product_never_lands {memory : Memory.State K V}
    {distributed : AList fun _ : K => Entry V} {m : Mutation K V} {origin : Fence}
    (as : List (Action K V M R))
    (hreach : Run.Reachable (Hybrid.next cfg) (Hybrid.init memory distributed) s)
    (ht : s.tasks.lookup t = some (.mutation m)) (hpc : m.pc.unchecked = true)
    (horigin : m.origin = some origin) (hstale : Outdated m.key origin s.shared.history)
    (hrun : Run.exec (Hybrid.next cfg) s as = some s') :
    (∃ m', s'.tasks.lookup t = some (.mutation m') ∧ m'.pc.rejected cfg) ∧
      ∀ input s'', next cfg s' (.step t input) = some s'' → Untouched s'.shared s''.shared := by
  have hstart : TurnedAway cfg m.key origin t s := by
    refine ⟨m, ht, ?_, fun _ => ⟨rfl, horigin, hstale⟩⟩
    obtain ⟨key, opts, fenced, origin', pc⟩ := m
    cases pc with
    | running | getLane write | lock write lane | check write lane => trivial
    | _ => cases hpc
  obtain ⟨hinv, m', ht', hrejected, hstale'⟩ :
      FenceInv cfg s' ∧ TurnedAway cfg m.key origin t s' :=
    Run.exec_invariant (I := fun s => FenceInv cfg s ∧ TurnedAway cfg m.key origin t s)
      (fun _ _ _ h hnext => ⟨h.1.next hnext, h.2.next h.1 hnext⟩)
      ⟨FenceInv.of_reachable hreach, hstart⟩ hrun
  refine ⟨⟨m', ht', hrejected⟩, fun input s'' hnext => ?_⟩
  rcases task_of_next hnext ht' with ⟨input', task', ha, hstep, -⟩ | ⟨ha, -⟩ | ⟨ha, -⟩
  · obtain ⟨-, -, huntouched, -⟩ := TurnedAway.step hinv ht' hrejected hstale' hstep
    exact huntouched
  · cases ha
  · exact absurd rfl (ha input)

/-! ### A run -/

/-- No backplane, no retry. -/
def soloConfig : Config Unit Unit where
  recovery := ⟨false, none, none⟩
  markerWork := ⟨fun _ => (), fun _ => .fromTicks 0, fun _ => none, fun _ _ => false,
    fun _ _ => none, fun _ => none⟩
  reuse := false
  backplane := false

def plainOptions : WriteOptions := ⟨false, false, false, false, false⟩

def atTen (reply : Reply Unit) : Input Nat Unit Unit := ⟨.fromTicks 10, 0, [], reply⟩

/-- A factory starts, and while it runs its key is removed. -/
def overtaken : List (Action Nat Unit Unit Unit) :=
  [.start 0 (.mutation ⟨7, plainOptions, false, none, .capture⟩), .step 0 (atTen .ok),
    .step 0 (atTen .ok), .start 1 (.mutation ⟨7, plainOptions, false, none, .getLane .remove⟩),
    .step 1 (atTen .ok), .step 1 (atTen .ok), .step 1 (atTen .ok)]

/-- The removal ends, and the factory comes with its product. -/
def lateProduct : List (Action Nat Unit Unit Unit) :=
  [.drop 1, .step 0 (atTen (.produced (.intoFresh () (.fromTicks 10) (.fromTicks 20) 0) .skipped)),
    .step 0 (atTen .ok), .step 0 (atTen .ok), .step 0 (atTen .ok)]

def idle : State Nat Unit Unit Unit :=
  init (Memory.init (.create ⟨none, none⟩ .clockDriven .interoperable fun _ => Memory.firstShard)
    ⟨0, 0⟩) ∅

theorem stale_product_never_lands_removed :
    ∃ s s' m, Run.exec (next soloConfig) idle overtaken = some s ∧
      Run.exec (next soloConfig) s lateProduct = some s' ∧
      s'.tasks.lookup 0 = some (.mutation m) ∧
      m.pc.rejected soloConfig := by
  have hreach : Run.Reachable (next soloConfig) idle _ := ⟨overtaken, rfl⟩
  obtain ⟨m, hm, hpc⟩ := (stale_product_never_lands (t := 0) lateProduct hreach rfl rfl rfl
    (.inl ⟨1, by decide⟩) rfl).1
  exact ⟨_, _, m, rfl, rfl, hm, hpc⟩

/-! ## Refreshes from L2 -/

/-- What a task has read from L2 for L1 is marked with the epoch of its fence. -/
def Task.Marked : Task K V M → Prop
  | .mutation _ | .replay _ => True
  | .incoming i =>
    match i.pc with
    | .passiveRecheck fence _ copy | .passiveInsert fence _ copy =>
      copy.eligibility = .hydrated fence.capturedEpoch
    | _ => True
  | .hydration h =>
    match h.pc with
    | .recheck fence _ copy | .insert fence _ copy =>
      copy.eligibility = .hydrated fence.capturedEpoch
    | _ => True

theorem marked_of_stepTask {task task' : Task K V M}
    (h : stepTask cfg t refs sh input task = some (task', sh')) (hmarked : task.Marked) :
    task'.Marked := by
  cases task with
  | mutation m =>
    obtain ⟨⟨m', shared⟩, -, heq⟩ := Option.map_eq_some_iff.mp h
    cases heq
    trivial
  | replay r =>
    obtain ⟨⟨pc', shared⟩, -, heq⟩ := Option.map_eq_some_iff.mp h
    cases heq
    trivial
  | incoming i =>
    obtain ⟨⟨pc', shared⟩, hstep, heq⟩ := Option.map_eq_some_iff.mp h
    cases heq
    obtain ⟨message, pc⟩ := i
    cases pc with
    | lock lane | passiveLock fence expected found =>
      obtain ⟨lanes, -, heq⟩ := Option.map_eq_some_iff.mp hstep
      cases heq
      trivial
    | passiveCheck fence expected found | passiveRecheck fence expected copy | checkLane lane
    | read lane | admission lane existing | apply fence existing | passiveRead fence expected =>
      simp only [stepIncoming] at hstep
      repeat' split at hstep
      all_goals
        cases hstep
        try first | trivial | exact rfl | exact hmarked
    | getLane | loadEpoch snapshot existing | cancel fence existing | release lane
    | passiveInsert fence expected copy | passiveRemove fence expected =>
      cases hstep
      trivial
    | done => cases hstep
  | hydration hy =>
    obtain ⟨⟨pc', shared⟩, hstep, heq⟩ := Option.map_eq_some_iff.mp h
    cases heq
    obtain ⟨key, pc⟩ := hy
    cases pc with
    | fence lane | fetch fence observed | tryLock fence observed source
    | check fence observed source | recheck fence observed copy =>
      simp only [stepHydration] at hstep
      repeat' split at hstep
      all_goals
        cases hstep
        try first | trivial | exact rfl | exact hmarked
    | getLane | observe fence | insert fence observed copy | release lane =>
      cases hstep
      trivial
    | done => cases hstep

theorem marked_of_reachable {memory : Memory.State K V}
    {distributed : AList fun _ : K => Entry V}
    (hreach : Run.Reachable (Hybrid.next cfg) (Hybrid.init memory distributed) s) :
    ∀ t task, s.tasks.lookup t = some task → task.Marked := by
  refine hreach.invariant (I := fun s => ∀ t task, s.tasks.lookup t = some task → task.Marked)
    (fun _ _ h => by cases h) fun s a s' hs hnext t task' ht' => ?_
  cases ht : s.tasks.lookup t with
  | some task =>
    rcases task_of_next hnext ht with ⟨input, task'', -, hstep, hafter⟩ | ⟨-, hafter⟩ | ⟨-, hafter⟩
    · obtain rfl := Option.some.inj (hafter.symm.trans ht')
      exact marked_of_stepTask hstep (hs t task ht)
    · obtain rfl := Option.some.inj (hafter.symm.trans ht')
      cases task with
      | mutation m =>
        obtain ⟨key, opts, fenced, origin, pc⟩ := m
        cases pc <;> trivial
      | replay r =>
        obtain ⟨ticket, item, mutation, isData, pc⟩ := r
        cases pc <;> trivial
      | incoming i | hydration i => trivial
    · obtain rfl := Option.some.inj (hafter.symm.trans ht')
      exact hs t task ht
  | none =>
    rcases begun_of_next hnext ht ht' with ⟨-, hinitial⟩ | ⟨_, _, _, _, _, _, -, -, -, rfl⟩
    · unfold Task.isInitial at hinitial
      split at hinitial
      · trivial
      · trivial
      · trivial
      · trivial
      · cases hinitial
    · trivial

/-- The task is putting what it read from L2 into L1. -/
def Task.refreshes : Task K V M → Bool
  | .hydration _ => true
  | .incoming i =>
    match i.pc with
    | .passiveRead _ _ | .passiveLock _ _ _ | .passiveCheck _ _ _ | .passiveRecheck _ _ _
    | .passiveInsert _ _ _ | .passiveRemove _ _ => true
    | _ => false
  | .mutation _ | .replay _ => false

theorem fence_of_clearance {task : Task K V M} {f : Fence} (hrefreshes : task.refreshes = true)
    (h : task.clearance = some f) : task.fence = some f := by
  cases task with
  | mutation m => cases hrefreshes
  | replay r => cases hrefreshes
  | incoming i =>
    obtain ⟨message, pc⟩ := i
    cases pc with
    | passiveInsert | passiveRemove => exact h
    | _ => cases h
  | hydration hy =>
    obtain ⟨key, pc⟩ := hy
    cases pc with
    | insert => exact h
    | _ => cases h

/-- What a step of a refresh does to L1: nothing, a read, or a change under the fence. -/
inductive Refreshed (sh : Shared K V M R) (task : Task K V M) : Memory.State K V → Prop
  | same : Refreshed sh task sh.memory
  | read (now : Timestamp) : Refreshed sh task (sh.readMemory task.view.key now).2.memory
  | removed {fence : Fence} (expected : Entry V) (hcleared : task.clearance = some fence) :
    Refreshed sh task (sh.removeMemory task.view.key (some expected)).memory
  | inserted {fence : Fence} {copy : Entry V} {input : Input K V R} (expected : Memory.Expected V)
      (hcleared : task.clearance = some fence)
      (hmarked : copy.eligibility = .hydrated fence.capturedEpoch) :
    Refreshed sh task
      (sh.writeMemory (sh.prepareWrite task.view.key copy input .set) expected).2.memory

/-- One step of a refresh leaves L2, the recovery queue and the peers alone. -/
theorem refreshed_of_stepTask {task task' : Task K V M}
    (h : stepTask cfg t refs sh input task = some (task', sh')) (hrefreshes : task.refreshes = true)
    (hmarked : task.Marked) :
    Refreshed sh task sh'.memory ∧ sh'.distributed = sh.distributed ∧ sh'.queue = sh.queue ∧
      sh'.published = sh.published := by
  cases task with
  | mutation m => cases hrefreshes
  | replay r => cases hrefreshes
  | incoming i =>
    obtain ⟨⟨pc', shared⟩, hstep, heq⟩ := Option.map_eq_some_iff.mp h
    cases heq
    obtain ⟨message, pc⟩ := i
    cases pc with
    | passiveLock fence expected found =>
      obtain ⟨lanes, -, heq⟩ := Option.map_eq_some_iff.mp hstep
      cases heq
      exact ⟨.same, rfl, rfl, rfl⟩
    | passiveRead fence expected | passiveCheck fence expected found
    | passiveRecheck fence expected copy =>
      simp only [stepIncoming] at hstep
      repeat' split at hstep
      all_goals
        cases hstep
        try exact ⟨.same, rfl, rfl, rfl⟩
    | passiveInsert fence expected copy =>
      cases hstep
      exact ⟨.inserted _ rfl hmarked, rfl, rfl, rfl⟩
    | passiveRemove fence expected =>
      cases hstep
      exact ⟨.removed expected rfl, rfl, rfl, rfl⟩
    | _ => cases hrefreshes
  | hydration hy =>
    obtain ⟨⟨pc', shared⟩, hstep, heq⟩ := Option.map_eq_some_iff.mp h
    cases heq
    obtain ⟨key, pc⟩ := hy
    cases pc with
    | getLane | release lane =>
      cases hstep
      exact ⟨.same, rfl, rfl, rfl⟩
    | observe fence =>
      cases hstep
      exact ⟨.read input.now, rfl, rfl, rfl⟩
    | fence lane | fetch fence observed | tryLock fence observed source
    | check fence observed source | recheck fence observed copy =>
      simp only [stepHydration] at hstep
      repeat' split at hstep
      all_goals
        cases hstep
        try exact ⟨.same, rfl, rfl, rfl⟩
    | insert fence observed copy =>
      cases hstep
      exact ⟨.inserted _ rfl hmarked, rfl, rfl, rfl⟩
    | done => cases hstep

/-- A hydration, and the refresh after a peer's set, change nothing but L1. They change L1 only
while nothing was admitted to the lane of the key since their fence, and what they install is
not eligible to be read once the continuity epoch has moved since. -/
theorem refresh_installs_only_current (input : Input K V R) {memory : Memory.State K V}
    {distributed : AList fun _ : K => Entry V} {task : Task K V M}
    (hreach : Run.Reachable (Hybrid.next cfg) (Hybrid.init memory distributed) s)
    (ht : s.tasks.lookup t = some task) (hrefreshes : task.refreshes = true)
    (hnext : next cfg s (.step t input) = some s') :
    Refreshed s.shared task s'.shared.memory ∧
      s'.shared.distributed = s.shared.distributed ∧ s'.shared.queue = s.shared.queue ∧
      s'.shared.published = s.shared.published ∧
      ∀ fence, task.clearance = some fence →
        (∀ u, .admitted task.view.key u ∉ History.since fence.mark s.shared.history) ∧
        ∀ copy : Entry V, copy.eligibility = .hydrated fence.capturedEpoch →
          .epoch ∈ History.since fence.epochMark s.shared.history →
          copy.isReadEligible s.shared.epoch = false := by
  have hinv := FenceInv.of_reachable hreach
  obtain ⟨input', task', ha, hstep, -⟩ | ⟨ha, -⟩ | ⟨ha, -⟩ := task_of_next hnext ht
  · obtain ⟨hrefreshed, hdistributed, hqueue, hpublished⟩ :=
      refreshed_of_stepTask hstep hrefreshes (marked_of_reachable hreach t task ht)
    refine ⟨hrefreshed, hdistributed, hqueue, hpublished, fun fence hcleared => ⟨fun u =>
      (hinv.unadmitted t task fence ht hcleared).not_mem u, fun copy hcopy hmoved => ?_⟩⟩
    have hpos := epochs_pos hmoved
    have hcount := (hinv.counted t task fence ht (fence_of_clearance hrefreshes hcleared)).epoch
    simp only [Entry.isReadEligible, hcopy, decide_eq_false_iff_not]
    omega
  · cases ha
  · exact absurd rfl (ha input)

def remoteEntry : Entry Unit := .intoFresh () (.fromTicks 5) (.fromTicks 20) 0

/-- A hydration up to its second check. -/
def hydrating : List (Action Nat Unit Unit Unit) :=
  [.remote 7 (some remoteEntry), .start 0 (.hydration ⟨7, .getLane⟩), .step 0 (atTen .ok),
    .step 0 (atTen .ok), .step 0 (atTen .ok), .step 0 (atTen .ok), .step 0 (atTen .ok),
    .step 0 (atTen (.judged .valid (some remoteEntry.metadata))), .step 0 (atTen .ok)]

theorem refresh_installs_only_current_hydrated :
    ∃ s s', Run.exec (next soloConfig) idle hydrating = some s ∧
      next soloConfig s (.step 0 (atTen .ok)) = some s' ∧
      (s'.shared.memory.backend.read s'.shared.memory.world 7 (some (.fromTicks 10))).1.isSome
        = true ∧
      ∀ u, .admitted 7 u ∉ History.since 0 s.shared.history := by
  have hreach : Run.Reachable (next soloConfig) idle _ := ⟨hydrating, rfl⟩
  have hcurrent := (refresh_installs_only_current (t := 0) (atTen .ok) hreach rfl rfl
    rfl).2.2.2.2 _ rfl
  exact ⟨_, _, rfl, rfl, rfl, hcurrent.1⟩

end Hybrid

end Amalgam
