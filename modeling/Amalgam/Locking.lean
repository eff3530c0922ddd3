import Amalgam.Lib.FiniteMap
import Amalgam.Lib.Run

/-!
# Amalgam — weak control slots

`src/locking.rs`, `WeakSlots`: the map from a key to the one control (a lock or a commit lane) that
is alive for it. Slots hold weak references, so a control lives as long as somebody owns it: a
caller, the bounded pool of recent controls, or a lookup under way.

* **`weak_slots_safe`** — two controls obtained for one key that are alive at once are the same,
  no step takes away the slot of a live control, the sweep queue lists the keys of the map, and
  the pool stays within its bound.

The work under a shard's lock is cut into steps, so that owners come and go in between. An
iteration of a cleaning loop is one step: a control that it finds dead stays dead, and one that it
finds alive may as well die afterwards.
-/

namespace Amalgam.Locking

/-- The allocation of a control: its place in the order of creation. -/
abbrev ControlId := Nat

def SLOT_SHARDS : Nat := 64
def RETAINED_CONTROLS_PER_SHARD : Nat := 16

inductive ControlRetention where
  | weak
  | reuse (recent : List ControlId)

namespace ControlRetention

/-- What the pool owns. -/
def recent : ControlRetention → List ControlId
  | .weak => []
  | .reuse recent => recent

def retain (r : ControlRetention) (control : ControlId) : ControlRetention :=
  match r with
  | .weak => .weak
  | .reuse recent =>
    .reuse ((if recent.length = RETAINED_CONTROLS_PER_SHARD then recent.tail else recent)
      ++ [control])

/-- One iteration of `clean_idle`: a control that only the pool owns is let go. -/
def cleanIdleOnce (strongCount : ControlId → Nat) : ControlRetention → ControlRetention
  | .weak => .weak
  | .reuse [] => .reuse []
  | .reuse (control :: rest) =>
    if strongCount control > 1 then .reuse (rest ++ [control]) else .reuse rest

theorem mem_retain {r : ControlRetention} {control c : ControlId}
    (h : c ∈ (r.retain control).recent) : c ∈ r.recent ∨ c = control := by
  cases r with
  | weak => cases h
  | reuse recent =>
    rcases List.mem_append.mp h with hold | hnew
    · split at hold
      · exact .inl (List.mem_of_mem_tail hold)
      · exact .inl hold
    · exact .inr (List.mem_singleton.mp hnew)

theorem length_retain {r : ControlRetention} (control : ControlId)
    (h : r.recent.length ≤ RETAINED_CONTROLS_PER_SHARD) :
    (r.retain control).recent.length ≤ RETAINED_CONTROLS_PER_SHARD := by
  cases r with
  | weak => exact h
  | reuse recent =>
    have hbound : recent.length ≤ RETAINED_CONTROLS_PER_SHARD := h
    show ((if recent.length = RETAINED_CONTROLS_PER_SHARD then recent.tail else recent)
      ++ [control]).length ≤ RETAINED_CONTROLS_PER_SHARD
    rw [List.length_append, List.length_singleton]
    split
    · rw [List.length_tail]
      unfold RETAINED_CONTROLS_PER_SHARD at *
      omega
    · omega

theorem mem_cleanIdleOnce {strongCount : ControlId → Nat} {r : ControlRetention} {c : ControlId}
    (h : c ∈ (r.cleanIdleOnce strongCount).recent) : c ∈ r.recent := by
  unfold cleanIdleOnce at h
  split at h
  · exact h
  · exact h
  · split at h
    · exact (List.perm_append_singleton _ _).mem_iff.mp h
    · exact List.mem_cons_of_mem _ h

theorem length_cleanIdleOnce (strongCount : ControlId → Nat) (r : ControlRetention) :
    (r.cleanIdleOnce strongCount).recent.length ≤ r.recent.length := by
  unfold cleanIdleOnce
  split
  · exact le_refl _
  · exact le_refl _
  · split
    · exact (List.perm_append_singleton _ _).length_eq.le
    · exact Nat.le_succ _

end ControlRetention

variable {K : Type} [DecidableEq K]

/-- `SlotShard`; the entries are weak. -/
structure SlotShard (K : Type) where
  entries : AList fun _ : K => ControlId
  sweep : List K
  controls : ControlRetention

namespace SlotShard

/-- `create`: an occupied slot is a dead one, and stays in the queue. -/
def create (shard : SlotShard K) (key : K) (control : ControlId) : SlotShard K where
  entries := shard.entries.insert key control
  sweep := if key ∈ shard.entries then shard.sweep else shard.sweep ++ [key]
  controls := shard.controls.retain control

/-- One iteration of `clean`. -/
def cleanOnce (strongCount : ControlId → Nat) (shard : SlotShard K) : SlotShard K :=
  match shard.sweep with
  | [] => shard
  | key :: rest =>
    if (shard.entries.lookup key).any fun slot => strongCount slot = 0 then
      { shard with entries := shard.entries.erase key, sweep := rest }
    else if key ∈ shard.entries then { shard with sweep := rest ++ [key] }
    else { shard with sweep := rest }

/-- The queue lists the keys of the map, each once. -/
structure Queued (shard : SlotShard K) : Prop where
  nodup : shard.sweep.Nodup
  mem_iff : ∀ key, key ∈ shard.sweep ↔ key ∈ shard.entries

theorem Queued.create {shard : SlotShard K} (h : shard.Queued) (key : K) (control : ControlId) :
    (shard.create key control).Queued := by
  unfold SlotShard.create
  by_cases hkey : key ∈ shard.entries
  · rw [if_pos hkey]
    refine ⟨h.nodup, fun k => ?_⟩
    rw [h.mem_iff, AList.mem_insert]
    exact ⟨.inr, fun hk => hk.elim (fun heq => heq ▸ hkey) id⟩
  · rw [if_neg hkey]
    have hnotin : key ∉ shard.sweep := fun hin => hkey ((h.mem_iff key).mp hin)
    refine ⟨List.nodup_append.mpr ⟨h.nodup, List.nodup_singleton key, ?_⟩, fun k => ?_⟩
    · intro k hk k' hk' heq
      exact hnotin (List.mem_singleton.mp hk' ▸ heq ▸ hk)
    · rw [List.mem_append, List.mem_singleton, h.mem_iff, AList.mem_insert]
      exact or_comm

theorem Queued.cleanOnce {shard : SlotShard K} (h : shard.Queued)
    (strongCount : ControlId → Nat) : (shard.cleanOnce strongCount).Queued := by
  unfold SlotShard.cleanOnce
  split
  · exact h
  · rename_i key rest hsweep
    obtain ⟨hnotin, hrest⟩ : key ∉ rest ∧ rest.Nodup := List.nodup_cons.mp (hsweep ▸ h.nodup)
    have hmem : ∀ k, k = key ∨ k ∈ rest ↔ k ∈ shard.entries := fun k => by
      rw [← h.mem_iff, hsweep, List.mem_cons]
    have hkey : key ∈ shard.entries := (hmem key).mp (.inl rfl)
    split
    · refine ⟨hrest, fun k => ?_⟩
      rw [AList.mem_erase, ← hmem]
      exact ⟨fun hk => ⟨fun heq => hnotin (heq ▸ hk), .inr hk⟩, fun hk => hk.2.resolve_left hk.1⟩
    · have hperm : (rest ++ [key]).Perm (key :: rest) := List.perm_append_singleton _ _
      refine ⟨hperm.nodup_iff.mpr (List.nodup_cons.mpr ⟨hnotin, hrest⟩), fun k => ?_⟩
      rw [hperm.mem_iff, List.mem_cons]
      exact hmem k

/-- A cleaning iteration keeps the slots of live controls. -/
theorem cleanOnce_lookup {shard : SlotShard K} {strongCount : ControlId → Nat} {key : K}
    {control : ControlId} (h : shard.entries.lookup key = some control)
    (halive : 0 < strongCount control) :
    (shard.cleanOnce strongCount).entries.lookup key = some control := by
  unfold cleanOnce
  split
  · exact h
  · rename_i front rest hsweep
    split
    · rename_i hdead
      have hne : key ≠ front := by
        rintro rfl
        rw [h, Option.any_some, decide_eq_true_eq] at hdead
        omega
      exact (AList.lookup_erase_ne hne).trans h
    · split
      · exact h
      · exact h

/-- It brings in no slot. -/
theorem lookup_of_cleanOnce {shard : SlotShard K} {strongCount : ControlId → Nat} {key : K}
    {control : ControlId}
    (h : (shard.cleanOnce strongCount).entries.lookup key = some control) :
    shard.entries.lookup key = some control := by
  unfold cleanOnce at h
  split at h
  · exact h
  · rename_i front rest hsweep
    split at h
    · by_cases hkey : key = front
      · rw [hkey, AList.lookup_erase] at h
        cases h
      · exact (AList.lookup_erase_ne hkey).symm.trans h
    · split at h
      · exact h
      · exact h

@[simp] theorem cleanOnce_controls (strongCount : ControlId → Nat) (shard : SlotShard K) :
    (shard.cleanOnce strongCount).controls = shard.controls := by
  unfold cleanOnce
  split
  · rfl
  · split
    · rfl
    · split
      · rfl
      · rfl

end SlotShard

/-! ## The system -/

abbrev TaskId := Nat
abbrev HandleId := Nat

/-- Where a lookup or a cleaning stands. -/
inductive Task (K : Type) where
  /-- `lookup`, waiting for its shard. -/
  | get (key : K)
  /-- It has the shard. -/
  | upgrading (key : K)
  /-- `shard.clean(4)`, with this many iterations left. -/
  | sweeping (key : K) (left : Nat)
  | creating (key : K)
  /-- It owns the control that `inspect` gets. -/
  | inspecting (key : K) (control : ControlId)
  /-- `clean`, between two shards. -/
  | maintaining (start offset remaining : Nat)
  /-- `clean_idle` on one shard, with this many iterations left. -/
  | rotating (start offset remaining left : Nat)
  /-- `shard.clean(remaining)`, with this many iterations left; `remaining` is the budget after. -/
  | cleaning (start offset remaining left : Nat)

def shardAt (start offset : Nat) : Fin 64 := ⟨(start + offset) % 64, Nat.mod_lt _ (by decide)⟩

namespace Task

/-- The shard that the task has locked. -/
def holds (route : K → Fin 64) : Task K → Option (Fin 64)
  | .get _ | .maintaining .. => none
  | .upgrading key | .sweeping key _ | .creating key | .inspecting key _ => some (route key)
  | .rotating start offset _ _ | .cleaning start offset _ _ => some (shardAt start offset)

/-- The control that the task owns. -/
def control : Task K → Option ControlId
  | .inspecting _ control => some control
  | _ => none

end Task

structure State (K : Type) where
  shards : Fin 64 → SlotShard K
  locked : Fin 64 → Option TaskId
  maintenance : Nat
  tasks : AList fun _ : TaskId => Task K
  /-- The owners outside: callers, guards and waiters. -/
  handles : AList fun _ : HandleId => ControlId
  /-- The key that each control was made for. -/
  made : List K
  /-- The controls that lookups handed out. -/
  obtained : List (K × ControlId)

namespace State

/-- Every owner of a control. -/
def owners (s : State K) : List ControlId :=
  s.handles.values ++ ((List.finRange 64).flatMap fun i => (s.shards i).controls.recent)
    ++ s.tasks.values.filterMap Task.control

def strongCount (s : State K) (c : ControlId) : Nat := s.owners.count c

/-- `upgrade` succeeds. -/
def alive (s : State K) (c : ControlId) : Bool := 0 < s.strongCount c

/-- Moves a task on. -/
def goes (s : State K) (id : TaskId) (task : Task K) : State K :=
  { s with tasks := s.tasks.insert id task }

def lock (s : State K) (i : Fin 64) (id : TaskId) : State K :=
  { s with locked := Function.update s.locked i (some id) }

def unlock (s : State K) (i : Fin 64) : State K :=
  { s with locked := Function.update s.locked i none }

def withShard (s : State K) (i : Fin 64) (shard : SlotShard K) : State K :=
  { s with shards := Function.update s.shards i shard }

end State

inductive Action (K : Type) where
  | get (id : TaskId) (key : K)
  | clean (id : TaskId) (budget : Nat)
  /-- One step of a task; a lookup that ends hands its control to `handle`. -/
  | run (id : TaskId) (handle : HandleId)
  | clone (handle copy : HandleId)
  | drop (handle : HandleId)

def runTask (route : K → Fin 64) (s : State K) (id : TaskId) (handle : HandleId) :
    Task K → Option (State K)
  | .get key =>
    if s.locked (route key) = none then some ((s.lock (route key) id).goes id (.upgrading key))
    else none
  | .upgrading key =>
    match (s.shards (route key)).entries.lookup key with
    | some control =>
      if s.alive control then some (s.goes id (.inspecting key control))
      else some (s.goes id (.sweeping key (min 4 (s.shards (route key)).sweep.length)))
    | none => some (s.goes id (.sweeping key (min 4 (s.shards (route key)).sweep.length)))
  | .sweeping key 0 => some (s.goes id (.creating key))
  | .sweeping key (left + 1) =>
    some ((s.withShard (route key) ((s.shards (route key)).cleanOnce s.strongCount)).goes id
      (.sweeping key left))
  | .creating key =>
    let control := s.made.length
    let s := { s with made := s.made ++ [key] }
    some ((s.withShard (route key) ((s.shards (route key)).create key control)).goes id
      (.inspecting key control))
  | .inspecting key control =>
    if handle ∈ s.handles then none
    else some { s.unlock (route key) with
      handles := s.handles.insert handle control
      tasks := s.tasks.erase id
      obtained := (key, control) :: s.obtained }
  | .maintaining start offset remaining =>
    if offset ≥ SLOT_SHARDS ∨ remaining = 0 then some { s with tasks := s.tasks.erase id }
    -- `try_lock`: a shard in use is left out.
    else if s.locked (shardAt start offset) = none then
      some ((s.lock (shardAt start offset) id).goes id (.rotating start offset remaining
        (min remaining (s.shards (shardAt start offset)).controls.recent.length)))
    else some (s.goes id (.maintaining start (offset + 1) remaining))
  | .rotating start offset remaining 0 =>
    let count := min remaining (s.shards (shardAt start offset)).sweep.length
    some (s.goes id (.cleaning start offset (remaining - count) count))
  | .rotating start offset remaining (left + 1) =>
    let shard := s.shards (shardAt start offset)
    some ((s.withShard (shardAt start offset)
      { shard with controls := shard.controls.cleanIdleOnce s.strongCount }).goes id
      (.rotating start offset remaining left))
  | .cleaning start offset remaining 0 =>
    some ((s.unlock (shardAt start offset)).goes id (.maintaining start (offset + 1) remaining))
  | .cleaning start offset remaining (left + 1) =>
    some ((s.withShard (shardAt start offset)
      ((s.shards (shardAt start offset)).cleanOnce s.strongCount)).goes id
      (.cleaning start offset remaining left))

def next (route : K → Fin 64) (s : State K) : Action K → Option (State K)
  | .get id key => if id ∈ s.tasks then none else some (s.goes id (.get key))
  | .clean id budget =>
    if id ∈ s.tasks then none
    else some { s.goes id (.maintaining (s.maintenance % SLOT_SHARDS) 0 budget) with
      maintenance := s.maintenance + 1 }
  | .run id handle => (s.tasks.lookup id).bind (runTask route s id handle)
  | .clone handle copy =>
    if copy ∈ s.handles then none
    else (s.handles.lookup handle).map fun control =>
      { s with handles := s.handles.insert copy control }
  | .drop handle => some { s with handles := s.handles.erase handle }

/-- `CoordinationPlan`. -/
inductive CoordinationPlan where
  | transient
  | reuse

def CoordinationPlan.retention : CoordinationPlan → ControlRetention
  | .transient => .weak
  | .reuse => .reuse []

/-- `WeakSlots::new` and `WeakSlots::reusable`. -/
def CoordinationPlan.slots (plan : CoordinationPlan) : State K where
  shards _ := ⟨∅, [], plan.retention⟩
  locked _ := none
  maintenance := 0
  tasks := ∅
  handles := ∅
  made := []
  obtained := []

/-! ## Who owns a control -/

namespace State

omit [DecidableEq K]

variable {s t : State K} {c : ControlId}

/-- Some owner holds the control. -/
def Owned (s : State K) (c : ControlId) : Prop :=
  (∃ handle, s.handles.lookup handle = some c) ∨
    (∃ i, c ∈ (s.shards i).controls.recent) ∨
      ∃ id task, s.tasks.lookup id = some task ∧ task.control = some c

theorem mem_owners : c ∈ s.owners ↔ s.Owned c := by
  unfold owners Owned
  rw [List.mem_append, List.mem_append, AList.mem_values, List.mem_flatMap, List.mem_filterMap,
    or_assoc]
  refine or_congr_right (or_congr ?_ ?_)
  · exact ⟨fun ⟨i, _, hc⟩ => ⟨i, hc⟩, fun ⟨i, hc⟩ => ⟨i, List.mem_finRange i, hc⟩⟩
  · constructor
    · rintro ⟨task, htask, hc⟩
      obtain ⟨id, hid⟩ := AList.mem_values.mp htask
      exact ⟨id, task, hid, hc⟩
    · rintro ⟨id, task, hid, hc⟩
      exact ⟨task, AList.mem_values.mpr ⟨id, hid⟩, hc⟩

theorem alive_iff : s.alive c = true ↔ s.Owned c := by
  unfold alive strongCount
  rw [decide_eq_true_eq, List.count_pos_iff, mem_owners]

end State

/-! ## The invariant -/

variable {route : K → Fin 64}

/-- What holds of a task: it has the lock it works under, no control of the key it is going to
create one for is alive, and the control it inspects was made for its key. -/
structure TaskOk (route : K → Fin 64) (s : State K) (id : TaskId) (task : Task K) : Prop where
  locked : ∀ i, task.holds route = some i → s.locked i = some id
  missing : ∀ key, (∃ left, task = .sweeping key left) ∨ task = .creating key →
    ∀ c, s.made[c]? = some key → ¬ s.Owned c
  inspected : ∀ key c, task = .inspecting key c → s.made[c]? = some key

structure Inv (route : K → Fin 64) (s : State K) : Prop where
  queued : ∀ i, (s.shards i).Queued
  /-- A slot names a control made for its key. -/
  named : ∀ i key c, (s.shards i).entries.lookup key = some c → s.made[c]? = some key
  bounded : ∀ i, (s.shards i).controls.recent.length ≤ RETAINED_CONTROLS_PER_SHARD
  /-- A live control is in the slot of the key it was made for. -/
  slot : ∀ c, s.Owned c → ∃ key, s.made[c]? = some key ∧
    (s.shards (route key)).entries.lookup key = some c
  tasks : ∀ id task, s.tasks.lookup id = some task → TaskOk route s id task
  obtained : ∀ key c, (key, c) ∈ s.obtained → s.made[c]? = some key

/-- What a step does to a shard when it creates nothing there. -/
structure Keeps (s : State K) (shard shard' : SlotShard K) : Prop where
  queued : shard.Queued → shard'.Queued
  named : ∀ key c, shard'.entries.lookup key = some c → shard.entries.lookup key = some c
  bounded : shard'.controls.recent.length ≤ shard.controls.recent.length
  recent : ∀ c ∈ shard'.controls.recent, c ∈ shard.controls.recent
  slot : ∀ key c, shard.entries.lookup key = some c → s.Owned c →
    shard'.entries.lookup key = some c

theorem Keeps.refl (s : State K) (shard : SlotShard K) : Keeps s shard shard :=
  ⟨id, fun _ _ h => h, le_refl _, fun _ h => h, fun _ _ h _ => h⟩

theorem keeps_cleanOnce (s : State K) (shard : SlotShard K) :
    Keeps s shard (shard.cleanOnce s.strongCount) where
  queued h := h.cleanOnce _
  named _ _ h := SlotShard.lookup_of_cleanOnce h
  bounded := by rw [SlotShard.cleanOnce_controls]
  recent c hc := by rwa [SlotShard.cleanOnce_controls] at hc
  slot key c h howned := by
    refine SlotShard.cleanOnce_lookup h ?_
    exact of_decide_eq_true (State.alive_iff.mpr howned)

theorem keeps_cleanIdleOnce (s : State K) (shard : SlotShard K) :
    Keeps s shard { shard with controls := shard.controls.cleanIdleOnce s.strongCount } where
  queued h := ⟨h.nodup, h.mem_iff⟩
  named _ _ h := h
  bounded := ControlRetention.length_cleanIdleOnce _ _
  recent _ hc := ControlRetention.mem_cleanIdleOnce hc
  slot _ _ h _ := h

/-- One shard changes, and only as `Keeps` says. -/
theorem keeps_withShard {s : State K} {i : Fin 64} {shard : SlotShard K}
    (h : Keeps s (s.shards i) shard) (j : Fin 64) :
    Keeps s (s.shards j) ((s.withShard i shard).shards j) := by
  show Keeps s (s.shards j) (Function.update s.shards i shard j)
  by_cases hj : j = i
  · subst hj
    rw [Function.update_self]
    exact h
  · rw [Function.update_of_ne hj]
    exact .refl s _

/-! ## Steps that create no control -/

omit [DecidableEq K] in
/-- A task stays in order while its locks stay, owners only go and no control is made. -/
theorem TaskOk.mono {s t : State K} {id : TaskId} {task : Task K} (h : TaskOk route s id task)
    (hlocked : ∀ i, s.locked i = some id → t.locked i = some id)
    (howned : ∀ c, t.Owned c → s.Owned c) (hmade : t.made = s.made) : TaskOk route t id task where
  locked i hi := hlocked i (h.locked i hi)
  missing key htask c hc hc' := h.missing key htask c (hmade ▸ hc) (howned c hc')
  inspected key c htask := hmade ▸ h.inspected key c htask

/-- The invariant passes to a state in which every shard `Keeps` what it had. -/
theorem Inv.advance {s t : State K} (h : Inv route s)
    (hkeeps : ∀ i, Keeps s (s.shards i) (t.shards i)) (howned : ∀ c, t.Owned c → s.Owned c)
    (hmade : t.made = s.made)
    (htasks : ∀ id task, t.tasks.lookup id = some task → TaskOk route t id task)
    (hobtained : ∀ key c, (key, c) ∈ t.obtained → s.made[c]? = some key) : Inv route t where
  queued i := (hkeeps i).queued (h.queued i)
  named i key c hc := hmade ▸ h.named i key c ((hkeeps i).named key c hc)
  bounded i := le_trans (hkeeps i).bounded (h.bounded i)
  slot c hc := by
    obtain ⟨key, hkey, hlookup⟩ := h.slot c (howned c hc)
    exact ⟨key, hmade ▸ hkey, (hkeeps (route key)).slot key c hlookup (howned c hc)⟩
  tasks := htasks
  obtained key c hc := hmade ▸ hobtained key c hc

omit [DecidableEq K] in
/-- The owners after a step that changes shards and one task. -/
theorem owned_goes {s u : State K} {id : TaskId} {task : Task K} {c : ControlId}
    (htasks : u.tasks = s.tasks) (hhandles : u.handles = s.handles)
    (hrecent : ∀ i, ∀ c ∈ (u.shards i).controls.recent, c ∈ (s.shards i).controls.recent)
    (h : (u.goes id task).Owned c) : s.Owned c ∨ task.control = some c := by
  rcases h with ⟨handle, hhandle⟩ | ⟨i, hi⟩ | ⟨other, held, hheld, hc⟩
  · exact .inl (.inl ⟨handle, hhandles ▸ hhandle⟩)
  · exact .inl (.inr (.inl ⟨i, hrecent i c hi⟩))
  · have hlookup : (u.tasks.insert id task).lookup other = some held := hheld
    by_cases hother : other = id
    · subst hother
      rw [AList.lookup_insert] at hlookup
      exact .inr (Option.some.inj hlookup ▸ hc)
    · rw [AList.lookup_insert_ne hother, htasks] at hlookup
      exact .inl (.inr (.inr ⟨other, held, hlookup, hc⟩))

/-- **A task moves on.** Locks of other tasks stay, shards keep what they had, and the control
the task gets to own is owned already. -/
theorem Inv.goes {s u : State K} (h : Inv route s) {id : TaskId} {task : Task K}
    (htasks : u.tasks = s.tasks) (hhandles : u.handles = s.handles) (hmade : u.made = s.made)
    (hobtained : u.obtained = s.obtained)
    (hlocked : ∀ i other, other ≠ id → s.locked i = some other → u.locked i = some other)
    (hkeeps : ∀ i, Keeps s (s.shards i) (u.shards i))
    (hcontrol : ∀ c, task.control = some c → s.Owned c)
    (hnew : (∀ c, (u.goes id task).Owned c → s.Owned c) → TaskOk route (u.goes id task) id task) :
    Inv route (u.goes id task) := by
  have howned : ∀ c, (u.goes id task).Owned c → s.Owned c := fun c hc =>
    (owned_goes htasks hhandles (fun i => (hkeeps i).recent) hc).elim (fun hc => hc) (hcontrol c)
  refine h.advance hkeeps howned hmade (fun other held hheld => ?_) fun key c hc => ?_
  · have hlookup : (u.tasks.insert id task).lookup other = some held := hheld
    by_cases hother : other = id
    · subst hother
      rw [AList.lookup_insert] at hlookup
      exact Option.some.inj hlookup ▸ hnew howned
    · rw [AList.lookup_insert_ne hother, htasks] at hlookup
      exact (h.tasks other held hlookup).mono (fun i => hlocked i other hother) howned hmade
  · exact h.obtained key c (hobtained ▸ hc)

/-- A step that changes neither a shard nor a lock. -/
theorem Inv.stays {s : State K} (h : Inv route s) {id : TaskId} {task : Task K}
    (hcontrol : ∀ c, task.control = some c → s.Owned c)
    (hnew : (∀ c, (s.goes id task).Owned c → s.Owned c) →
      TaskOk route (s.goes id task) id task) : Inv route (s.goes id task) :=
  h.goes rfl rfl rfl rfl (fun _ _ _ hi => hi) (fun _ => .refl s _) hcontrol hnew

/-- A step under a lock that changes only the shard that is locked. -/
theorem Inv.works {s : State K} (h : Inv route s) {id : TaskId} {task : Task K} {i : Fin 64}
    {shard : SlotShard K} (hkeeps : Keeps s (s.shards i) shard) (hcontrol : task.control = none)
    (hnew : (∀ c, ((s.withShard i shard).goes id task).Owned c → s.Owned c) →
      TaskOk route ((s.withShard i shard).goes id task) id task) :
    Inv route ((s.withShard i shard).goes id task) := by
  refine h.goes rfl rfl rfl rfl (fun _ _ _ hi => hi) (keeps_withShard hkeeps) ?_ hnew
  intro c hc
  rw [hcontrol] at hc
  cases hc

omit [DecidableEq K] in
/-- A task that neither creates nor inspects needs only its lock. -/
theorem TaskOk.of_locked {s : State K} {id : TaskId} {task : Task K}
    (hlocked : ∀ i, task.holds route = some i → s.locked i = some id)
    (hcreates : ∀ key, ¬ ((∃ left, task = .sweeping key left) ∨ task = .creating key))
    (hinspects : ∀ key c, task ≠ .inspecting key c) : TaskOk route s id task :=
  ⟨hlocked, fun key htask => absurd htask (hcreates key),
    fun key c htask => absurd htask (hinspects key c)⟩

omit [DecidableEq K] in
/-- A free lock is taken by one task, and a lock that a task has is given up by it. -/
theorem locked_lock {s : State K} {i j : Fin 64} {id other : TaskId} (hfree : s.locked i = none)
    (h : s.locked j = some other) : (s.lock i id).locked j = some other := by
  show Function.update s.locked i (some id) j = some other
  have hne : j ≠ i := by
    rintro rfl
    rw [hfree] at h
    cases h
  rwa [Function.update_of_ne hne]

omit [DecidableEq K] in
theorem locked_unlock {s : State K} {i j : Fin 64} {id other : TaskId}
    (hheld : s.locked i = some id) (hother : other ≠ id) (h : s.locked j = some other) :
    (s.unlock i).locked j = some other := by
  show Function.update s.locked i none j = some other
  have hne : j ≠ i := by
    rintro rfl
    exact hother (Option.some.inj (h.symm.trans hheld))
  rwa [Function.update_of_ne hne]

/-- When no slot of a key is alive, no control made for it is. -/
theorem Inv.missing_of_dead {s : State K} (h : Inv route s) {key : K}
    (hdead : ∀ c, (s.shards (route key)).entries.lookup key = some c → ¬ s.Owned c) (c : ControlId)
    (hc : s.made[c]? = some key) : ¬ s.Owned c := by
  intro howned
  obtain ⟨key', hkey', hlookup⟩ := h.slot c howned
  obtain rfl : key = key' := Option.some.inj (hc.symm.trans hkey')
  exact hdead c hlookup howned

/-- A task that ends leaves nothing but what the others hold. -/
theorem Inv.erases {s u : State K} (h : Inv route s) {id : TaskId}
    (hshards : u.shards = s.shards) (hmade : u.made = s.made)
    (htasks : u.tasks = s.tasks.erase id)
    (hlocked : ∀ i other, other ≠ id → s.locked i = some other → u.locked i = some other)
    (hhandles : ∀ handle c, u.handles.lookup handle = some c → s.Owned c)
    (hobtained : ∀ key c, (key, c) ∈ u.obtained → s.made[c]? = some key) : Inv route u := by
  have hkept : ∀ other held, u.tasks.lookup other = some held →
      other ≠ id ∧ s.tasks.lookup other = some held := by
    intro other held hheld
    rw [htasks] at hheld
    have hne : other ≠ id := by
      rintro rfl
      rw [AList.lookup_erase] at hheld
      cases hheld
    exact ⟨hne, (AList.lookup_erase_ne hne).symm.trans hheld⟩
  have howned : ∀ c, u.Owned c → s.Owned c := by
    rintro c (⟨handle, hhandle⟩ | ⟨i, hi⟩ | ⟨other, held, hheld, hc⟩)
    · exact hhandles handle c hhandle
    · exact .inr (.inl ⟨i, hshards ▸ hi⟩)
    · exact .inr (.inr ⟨other, held, (hkept other held hheld).2, hc⟩)
  refine h.advance (fun i => hshards ▸ .refl s _) howned hmade (fun other held hheld => ?_) hobtained
  obtain ⟨hne, hlookup⟩ := hkept other held hheld
  exact (h.tasks other held hlookup).mono (fun i => hlocked i other hne) howned hmade

/-! ## The step that creates a control -/

/-- The state after `create`. -/
def State.created (route : K → Fin 64) (s : State K) (id : TaskId) (key : K) : State K :=
  let s' := { s with made := s.made ++ [key] }
  (s'.withShard (route key) ((s.shards (route key)).create key s.made.length)).goes id
    (.inspecting key s.made.length)

section Created

variable {s : State K} {id : TaskId} {key : K}

theorem created_shard (i : Fin 64) :
    (s.created route id key).shards i =
      if i = route key then (s.shards i).create key s.made.length else s.shards i := by
  show Function.update s.shards (route key) _ i = _
  rw [Function.update_apply]
  split
  · rename_i hi
    rw [hi]
  · rfl

theorem created_made {c : ControlId} {k : K} (h : s.made[c]? = some k) :
    (s.created route id key).made[c]? = some k := by
  obtain ⟨hlt, -⟩ := List.getElem?_eq_some_iff.mp h
  exact (List.getElem?_append_left hlt).trans h

theorem created_made_new : (s.created route id key).made[s.made.length]? = some key :=
  List.getElem?_concat_length

/-- The new control is the only one that gains an owner. -/
theorem owned_created {c : ControlId} (h : (s.created route id key).Owned c) :
    s.Owned c ∨ c = s.made.length := by
  rcases h with hhandle | ⟨i, hi⟩ | ⟨other, held, hheld, hc⟩
  · exact .inl (.inl hhandle)
  · rw [created_shard] at hi
    split at hi
    · rcases ControlRetention.mem_retain hi with hold | hnew
      · exact .inl (.inr (.inl ⟨i, hold⟩))
      · exact .inr hnew
    · exact .inl (.inr (.inl ⟨i, hi⟩))
  · have hlookup : (s.tasks.insert id (.inspecting key s.made.length)).lookup other = some held :=
      hheld
    by_cases hother : other = id
    · subst hother
      rw [AList.lookup_insert] at hlookup
      obtain rfl := Option.some.inj hlookup
      exact .inr (Option.some.inj hc).symm
    · rw [AList.lookup_insert_ne hother] at hlookup
      exact .inl (.inr (.inr ⟨other, held, hlookup, hc⟩))

theorem created_lookup_self :
    ((s.created route id key).shards (route key)).entries.lookup key = some s.made.length := by
  rw [created_shard, if_pos rfl]
  exact AList.lookup_insert _

theorem created_lookup_of_ne {k : K} (i : Fin 64) (h : k ≠ key) :
    ((s.created route id key).shards i).entries.lookup k = (s.shards i).entries.lookup k := by
  rw [created_shard]
  split
  · exact AList.lookup_insert_ne h
  · rfl

/-- **A control is created only when none is alive for its key.** -/
theorem Inv.created (h : Inv route s) (htask : s.tasks.lookup id = some (.creating key)) :
    Inv route (s.created route id key) := by
  have hcreating := h.tasks id _ htask
  have hmissing : ∀ c, s.made[c]? = some key → ¬ s.Owned c := hcreating.missing key (.inr rfl)
  refine ⟨fun i => ?_, fun i k c hc => ?_, fun i => ?_, fun c hc => ?_, fun other held hheld => ?_,
    fun k c hc => created_made (h.obtained k c hc)⟩
  · rw [created_shard]
    split
    · exact (h.queued i).create key _
    · exact h.queued i
  · by_cases hk : k = key
    · subst hk
      rw [created_shard] at hc
      split at hc
      · have hnew : some s.made.length = some c := (AList.lookup_insert _).symm.trans hc
        exact Option.some.inj hnew ▸ created_made_new
      · exact created_made (h.named i k c hc)
    · rw [created_lookup_of_ne i hk] at hc
      exact created_made (h.named i k c hc)
  · rw [created_shard]
    split
    · exact ControlRetention.length_retain _ (h.bounded i)
    · exact h.bounded i
  · rcases owned_created hc with hold | rfl
    · obtain ⟨k, hk, hlookup⟩ := h.slot c hold
      have hne : k ≠ key := by
        rintro rfl
        exact hmissing c hk hold
      exact ⟨k, created_made hk, (created_lookup_of_ne (route k) hne).trans hlookup⟩
    · exact ⟨key, created_made_new, created_lookup_self⟩
  · have hlookup : (s.tasks.insert id (.inspecting key s.made.length)).lookup other = some held :=
      hheld
    by_cases hother : other = id
    · subst hother
      rw [AList.lookup_insert] at hlookup
      obtain rfl := Option.some.inj hlookup
      refine ⟨hcreating.locked, fun k hk => ?_, fun k c hk => ?_⟩
      · rcases hk with ⟨left, hleft⟩ | hnone
        · cases hleft
        · cases hnone
      · cases hk
        exact created_made_new
    · rw [AList.lookup_insert_ne hother] at hlookup
      have hkept := h.tasks other held hlookup
      refine ⟨hkept.locked, fun k hk c hc howned => ?_, fun k c hk =>
        created_made (hkept.inspected k c hk)⟩
      rcases owned_created howned with hold | rfl
      · obtain ⟨k', hk', -⟩ := h.slot c hold
        obtain rfl : k = k' := Option.some.inj (hc.symm.trans (created_made hk'))
        exact hkept.missing k hk c hk' hold
      · -- Another task about to create for the same key would have the same lock.
        obtain rfl : k = key := Option.some.inj (hc.symm.trans created_made_new)
        have hlock : s.locked (route k) = some other := by
          refine hkept.locked (route k) ?_
          rcases hk with ⟨left, rfl⟩ | rfl
          · rfl
          · rfl
        exact hother (Option.some.inj (hlock.symm.trans (hcreating.locked (route k) rfl)))

end Created

/-! ## Steps and runs -/

theorem runTask_inv {s t : State K} {id : TaskId} {handle : HandleId} {task : Task K}
    (h : Inv route s) (htask : s.tasks.lookup id = some task)
    (hrun : runTask route s id handle task = some t) : Inv route t := by
  have hok := h.tasks id task htask
  cases task with
  | get key =>
    dsimp only [runTask] at hrun
    split at hrun
    · rename_i hfree
      obtain rfl := Option.some.inj hrun
      refine h.goes rfl rfl rfl rfl (fun i other _ hi => locked_lock hfree hi)
        (fun _ => .refl s _) (fun c hc => (nomatch hc)) fun _ => ?_
      refine .of_locked (fun i hi => ?_) nofun nofun
      obtain rfl := Option.some.inj hi
      exact Function.update_self ..
    · cases hrun
  | upgrading key =>
    -- Without a live slot, no control made for the key is alive while the lock is held.
    have hsweep : (∀ c, (s.shards (route key)).entries.lookup key = some c → ¬ s.Owned c) →
        Inv route (s.goes id (.sweeping key (min 4 (s.shards (route key)).sweep.length))) := by
      intro hdead
      refine h.stays (fun c hc => (nomatch hc)) fun howned => ⟨hok.locked, ?_, ?_⟩
      · intro k hk c hc hc'
        obtain rfl : key = k := by
          rcases hk with ⟨left, hleft⟩ | hnone
          · cases hleft
            rfl
          · cases hnone
        exact h.missing_of_dead hdead c hc (howned c hc')
      · intro k c hk
        cases hk
    dsimp only [runTask] at hrun
    split at hrun
    · rename_i control hslot
      split at hrun
      · rename_i halive
        obtain rfl := Option.some.inj hrun
        refine h.stays (fun c hc => ?_) fun _ => ⟨hok.locked, fun k hk => ?_, fun k c hk => ?_⟩
        · exact Option.some.inj hc ▸ State.alive_iff.mp halive
        · rcases hk with ⟨left, hleft⟩ | hnone
          · cases hleft
          · cases hnone
        · cases hk
          exact h.named (route key) key control hslot
      · rename_i hdead
        obtain rfl := Option.some.inj hrun
        refine hsweep fun c hc howned => hdead ?_
        rw [Option.some.inj (hslot.symm.trans hc)]
        exact State.alive_iff.mpr howned
    · rename_i hnone
      obtain rfl := Option.some.inj hrun
      refine hsweep fun c hc => ?_
      rw [hnone] at hc
      cases hc
  | sweeping key left =>
    have hmissing : ∀ c, s.made[c]? = some key → ¬ s.Owned c := hok.missing key (.inl ⟨left, rfl⟩)
    cases left with
    | zero =>
      obtain rfl := Option.some.inj hrun
      refine h.stays (fun c hc => (nomatch hc)) fun howned => ⟨hok.locked, ?_, ?_⟩
      · rintro k (⟨left, hleft⟩ | hcreating) c hc hc'
        · cases hleft
        · cases hcreating
          exact hmissing c hc (howned c hc')
      · intro k c hk
        cases hk
    | succ left =>
      obtain rfl := Option.some.inj hrun
      refine h.works (keeps_cleanOnce s _) rfl fun howned => ⟨hok.locked, ?_, ?_⟩
      · rintro k (⟨left, hleft⟩ | hcreating) c hc hc'
        · cases hleft
          exact hmissing c hc (howned c hc')
        · cases hcreating
      · intro k c hk
        cases hk
  | creating key =>
    obtain rfl := Option.some.inj hrun
    exact h.created htask
  | inspecting key control =>
    dsimp only [runTask] at hrun
    split at hrun
    · cases hrun
    · obtain rfl := Option.some.inj hrun
      refine h.erases rfl rfl rfl (fun i other hother hi => ?_) (fun other c hc => ?_)
        fun k c hc => ?_
      · exact locked_unlock (hok.locked (route key) rfl) hother hi
      · by_cases hother : other = handle
        · subst hother
          rw [AList.lookup_insert] at hc
          exact .inr (.inr ⟨id, _, htask, hc⟩)
        · rw [AList.lookup_insert_ne hother] at hc
          exact .inl ⟨other, hc⟩
      · rcases List.mem_cons.mp hc with hnew | hold
        · cases hnew
          exact hok.inspected key control rfl
        · exact h.obtained k c hold
  | maintaining start offset remaining =>
    dsimp only [runTask] at hrun
    split at hrun
    · obtain rfl := Option.some.inj hrun
      exact h.erases rfl rfl rfl (fun _ _ _ hi => hi) (fun handle c hc => .inl ⟨handle, hc⟩)
        h.obtained
    split at hrun
    · rename_i hfree
      obtain rfl := Option.some.inj hrun
      refine h.goes rfl rfl rfl rfl (fun i other _ hi => locked_lock hfree hi)
        (fun _ => .refl s _) (fun c hc => (nomatch hc)) fun _ => ?_
      refine .of_locked (fun i hi => ?_) nofun nofun
      obtain rfl := Option.some.inj hi
      exact Function.update_self ..
    · obtain rfl := Option.some.inj hrun
      exact h.stays (fun c hc => (nomatch hc)) fun _ => .of_locked nofun nofun nofun
  | rotating start offset remaining left =>
    cases left with
    | zero =>
      obtain rfl := Option.some.inj hrun
      exact h.stays (fun c hc => (nomatch hc)) fun _ => .of_locked hok.locked nofun nofun
    | succ left =>
      obtain rfl := Option.some.inj hrun
      exact h.works (keeps_cleanIdleOnce s _) rfl fun _ => .of_locked hok.locked nofun nofun
  | cleaning start offset remaining left =>
    cases left with
    | zero =>
      obtain rfl := Option.some.inj hrun
      refine h.goes rfl rfl rfl rfl (fun i other hother hi => ?_) (fun _ => .refl s _)
        (fun c hc => (nomatch hc)) fun _ => .of_locked nofun nofun nofun
      exact locked_unlock (hok.locked _ rfl) hother hi
    | succ left =>
      obtain rfl := Option.some.inj hrun
      exact h.works (keeps_cleanOnce s _) rfl fun _ => .of_locked hok.locked nofun nofun

/-- Owners outside come from owners. -/
theorem Inv.rehandled {s : State K} (h : Inv route s)
    {handles : AList fun _ : HandleId => ControlId}
    (hsub : ∀ handle c, handles.lookup handle = some c → s.Owned c) :
    Inv route { s with handles } := by
  have howned : ∀ c, ({ s with handles } : State K).Owned c → s.Owned c := by
    rintro c (⟨handle, hhandle⟩ | hrest)
    · exact hsub handle c hhandle
    · exact .inr hrest
  exact h.advance (fun _ => .refl s _) howned rfl
    (fun id task htask => (h.tasks id task htask).mono (fun _ hi => hi) howned rfl) h.obtained

theorem next_inv {s t : State K} {a : Action K} (h : Inv route s) (ha : next route s a = some t) :
    Inv route t := by
  cases a with
  | get id key =>
    dsimp only [next] at ha
    split at ha
    · cases ha
    · obtain rfl := Option.some.inj ha
      exact h.stays (fun c hc => (nomatch hc)) fun _ => .of_locked nofun nofun nofun
  | clean id budget =>
    dsimp only [next] at ha
    split at ha
    · cases ha
    · obtain rfl := Option.some.inj ha
      refine Inv.goes (u := { s with maintenance := s.maintenance + 1 }) h rfl rfl rfl rfl
        (fun _ _ _ hi => hi) (fun _ => .refl s _) (fun c hc => (nomatch hc)) fun _ => ?_
      exact .of_locked nofun nofun nofun
  | run id handle =>
    obtain ⟨task, htask, hrun⟩ := Option.bind_eq_some_iff.mp ha
    exact runTask_inv h htask hrun
  | clone handle copy =>
    dsimp only [next] at ha
    split at ha
    · cases ha
    · obtain ⟨control, hcontrol, rfl⟩ := Option.map_eq_some_iff.mp ha
      refine h.rehandled fun other c hother => ?_
      by_cases hcopy : other = copy
      · subst hcopy
        rw [AList.lookup_insert] at hother
        exact .inl ⟨handle, Option.some.inj hother ▸ hcontrol⟩
      · rw [AList.lookup_insert_ne hcopy] at hother
        exact .inl ⟨other, hother⟩
  | drop handle =>
    obtain rfl := Option.some.inj ha
    refine h.rehandled fun other c hother => ?_
    have hne : other ≠ handle := by
      rintro rfl
      rw [AList.lookup_erase] at hother
      cases hother
    exact .inl ⟨other, (AList.lookup_erase_ne hne).symm.trans hother⟩

theorem inv_slots (route : K → Fin 64) (plan : CoordinationPlan) : Inv route (plan.slots) where
  queued _ := ⟨List.nodup_nil, fun _ => ⟨nofun, nofun⟩⟩
  named _ _ _ hc := nomatch hc
  bounded _ := by cases plan <;> exact Nat.zero_le _
  slot c hc := by
    rcases hc with ⟨handle, hhandle⟩ | ⟨i, hi⟩ | ⟨id, task, htask, -⟩
    · cases hhandle
    · cases plan <;> cases hi
    · cases htask
  tasks _ _ htask := nomatch htask
  obtained _ _ hc := nomatch hc

/-- A step keeps the slots of every shard, or creates a control for a key whose controls are all
dead. -/
theorem next_keeps {s t : State K} {a : Action K} (ha : next route s a = some t) :
    (∀ i, Keeps s (s.shards i) (t.shards i)) ∨
      ∃ id key, s.tasks.lookup id = some (.creating key) ∧ t = s.created route id key := by
  cases a with
  | get id key =>
    dsimp only [next] at ha
    split at ha
    · cases ha
    · obtain rfl := Option.some.inj ha
      exact .inl fun _ => .refl s _
  | clean id budget =>
    dsimp only [next] at ha
    split at ha
    · cases ha
    · obtain rfl := Option.some.inj ha
      exact .inl fun _ => .refl s _
  | clone handle copy =>
    dsimp only [next] at ha
    split at ha
    · cases ha
    · obtain ⟨control, -, rfl⟩ := Option.map_eq_some_iff.mp ha
      exact .inl fun _ => .refl s _
  | drop handle =>
    obtain rfl := Option.some.inj ha
    exact .inl fun _ => .refl s _
  | run id handle =>
    obtain ⟨task, htask, hrun⟩ := Option.bind_eq_some_iff.mp ha
    cases task with
    | creating key =>
      obtain rfl := Option.some.inj hrun
      exact .inr ⟨id, key, htask, rfl⟩
    | sweeping key left =>
      cases left with
      | zero =>
        obtain rfl := Option.some.inj hrun
        exact .inl fun _ => .refl s _
      | succ left =>
        obtain rfl := Option.some.inj hrun
        exact .inl (keeps_withShard (keeps_cleanOnce s _))
    | rotating start offset remaining left =>
      cases left with
      | zero =>
        obtain rfl := Option.some.inj hrun
        exact .inl fun _ => .refl s _
      | succ left =>
        obtain rfl := Option.some.inj hrun
        exact .inl (keeps_withShard (keeps_cleanIdleOnce s _))
    | cleaning start offset remaining left =>
      cases left with
      | zero =>
        obtain rfl := Option.some.inj hrun
        exact .inl fun _ => .refl s _
      | succ left =>
        obtain rfl := Option.some.inj hrun
        exact .inl (keeps_withShard (keeps_cleanOnce s _))
    | get key =>
      dsimp only [runTask] at hrun
      split at hrun
      · obtain rfl := Option.some.inj hrun
        exact .inl fun _ => .refl s _
      · cases hrun
    | upgrading key =>
      dsimp only [runTask] at hrun
      split at hrun
      · split at hrun
        · obtain rfl := Option.some.inj hrun
          exact .inl fun _ => .refl s _
        · obtain rfl := Option.some.inj hrun
          exact .inl fun _ => .refl s _
      · obtain rfl := Option.some.inj hrun
        exact .inl fun _ => .refl s _
    | inspecting key control =>
      dsimp only [runTask] at hrun
      split at hrun
      · cases hrun
      · obtain rfl := Option.some.inj hrun
        exact .inl fun _ => .refl s _
    | maintaining start offset remaining =>
      dsimp only [runTask] at hrun
      split at hrun
      · obtain rfl := Option.some.inj hrun
        exact .inl fun _ => .refl s _
      split at hrun
      · obtain rfl := Option.some.inj hrun
        exact .inl fun _ => .refl s _
      · obtain rfl := Option.some.inj hrun
        exact .inl fun _ => .refl s _

/-- No step takes away the slot of a live control. -/
theorem slot_kept {s t : State K} {a : Action K} (h : Inv route s) (ha : next route s a = some t)
    {i : Fin 64} {key : K} {c : ControlId} (hslot : (s.shards i).entries.lookup key = some c)
    (halive : s.Owned c) : (t.shards i).entries.lookup key = some c := by
  rcases next_keeps ha with hkeeps | ⟨id, key', htask, rfl⟩
  · exact (hkeeps i).slot key c hslot halive
  · have hne : key ≠ key' := by
      rintro rfl
      exact (h.tasks id _ htask).missing key (.inr rfl) c (h.named i key c hslot) halive
    rw [created_lookup_of_ne i hne]
    exact hslot

/-- **Identity of controls.** In every reachable state: controls obtained for one key that are
alive are one control; no step takes away the slot of a live control; the sweep queue lists the
keys of the map, each once; the pool keeps its bound. -/
theorem weak_slots_safe (route : K → Fin 64) (plan : CoordinationPlan) (s : State K)
    (hs : Run.Reachable (next route) plan.slots s) :
    (∀ key c c', (key, c) ∈ s.obtained → (key, c') ∈ s.obtained → s.alive c → s.alive c' →
      c = c') ∧
    (∀ a t i key c, next route s a = some t → (s.shards i).entries.lookup key = some c →
      s.alive c → (t.shards i).entries.lookup key = some c) ∧
    (∀ i, (s.shards i).sweep.Nodup ∧
      ∀ key, key ∈ (s.shards i).sweep ↔ key ∈ (s.shards i).entries) ∧
    (∀ i, (s.shards i).controls.recent.length ≤ RETAINED_CONTROLS_PER_SHARD) := by
  have h : Inv route s :=
    hs.invariant (inv_slots route plan) fun m a n hm ha => next_inv hm ha
  refine ⟨fun key c c' hc hc' halive halive' => ?_, fun a t i key c ha hslot halive => ?_,
    fun i => ⟨(h.queued i).nodup, (h.queued i).mem_iff⟩, h.bounded⟩
  · -- Both are in the one slot of the key.
    obtain ⟨k, hk, hlookup⟩ := h.slot c (State.alive_iff.mp halive)
    obtain ⟨k', hk', hlookup'⟩ := h.slot c' (State.alive_iff.mp halive')
    obtain rfl : key = k := Option.some.inj ((h.obtained key c hc).symm.trans hk)
    obtain rfl : key = k' := Option.some.inj ((h.obtained key c' hc').symm.trans hk')
    exact Option.some.inj (hlookup.symm.trans hlookup')
  · exact slot_kept h ha hslot (State.alive_iff.mp halive)

/-- A control is dropped by its only caller and found again in the pool. -/
def reusing : List (Action Nat) :=
  [.get 0 7, .run 0 0, .run 0 0, .run 0 0, .run 0 0, .run 0 0, .drop 0,
    .get 1 7, .run 1 1, .run 1 1, .run 1 1]

theorem weak_slots_safe_reusing_run :
    ∃ s, Run.exec (next fun key => shardAt key 0) CoordinationPlan.reuse.slots reusing = some s ∧
      s.obtained = [(7, 0), (7, 0)] ∧
      ∀ c c', (7, c) ∈ s.obtained → (7, c') ∈ s.obtained → s.alive c → s.alive c' → c = c' :=
  ⟨_, rfl, rfl, (weak_slots_safe (fun key => shardAt key 0) .reuse _ ⟨reusing, rfl⟩).1 7⟩

end Amalgam.Locking
