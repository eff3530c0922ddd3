import Amalgam.Cache.HybridMove

/-!
# Amalgam — fences count the admissions to their lane

Whatever owns a reference to the lane of a key owns the lane of the slot of that key
(`Owns.slot`), so all live fences of one key sit on one lane, whose generation is the fence's
own plus the number of admissions since it was loaded (`Counted`). A guard is held by one
task (`Owns.holder`). One step of a task keeps this for the others (`Owns.other`) and gives
it to what the task owns afterwards (`Owns.self`).
-/

set_option linter.unusedSectionVars false

namespace Amalgam

namespace Hybrid

open Commit Recovery

section

variable {K : Type} [DecidableEq K]

/-- The number of admissions to the lane of the key. -/
def admissions (key : K) (history : List (Event K)) : Nat :=
  history.countP fun e => match e with
    | .admitted k _ => k = key
    | _ => false

/-- The number of advances of the continuity epoch. -/
def epochs (history : List (Event K)) : Nat := history.countP (· = .epoch)

theorem admissions_note {events : List (Event K)} (h : ∀ e ∈ events, e.isNote = true) (key : K) :
    admissions key events = 0 := by
  refine List.countP_eq_zero.mpr fun e he => ?_
  have hnote := h e he
  cases e with
  | admitted k t => cases hnote
  | epoch | passed t | replayed k id fence | notified k id => simp

theorem epochs_note {events : List (Event K)} (h : ∀ e ∈ events, e.isNote = true) :
    epochs events = 0 := by
  refine List.countP_eq_zero.mpr fun e he => ?_
  have hnote := h e he
  cases e with
  | epoch => cases hnote
  | admitted k t | passed t | replayed k id fence | notified k id => simp

/-- The events after a mark, when others are added in front. -/
theorem since_append {mark : Nat} {history : List (Event K)} (h : mark ≤ history.length)
    (events : List (Event K)) :
    History.since mark (events ++ history) = events ++ History.since mark history := by
  induction events with
  | nil => rfl
  | cons e events ih =>
    rw [List.cons_append, History.since_cons (by rw [List.length_append]; omega), ih,
      List.cons_append]

/-- The lane has been advanced as often since the snapshot as there were admissions. -/
structure Counted (lanes : Lanes K) (history : List (Event K)) (key : K) (snapshot : Snapshot) :
    Prop where
  mark : snapshot.mark ≤ history.length
  generation : (lanes.lane snapshot.lane).generation =
    snapshot.generation + admissions key (History.since snapshot.mark history)

/-- What task `t` owns of the lane of its key. -/
structure Owns (lanes : Lanes K) (history : List (Event K)) (t : TaskId) (v : View K) : Prop where
  slot : ∀ id ∈ v.refs, lanes.slots.lookup v.key = some id
  counted : ∀ snapshot ∈ v.snapshots, Counted lanes history v.key snapshot
  holder : ∀ id, v.guard = some id → (lanes.lane id).holder = some t

/-- Every slot points to an allocated lane of its own. -/
structure Slots (lanes : Lanes K) : Prop where
  allocated : ∀ key id, lanes.slots.lookup key = some id → id < lanes.next
  separate : ∀ key key' id, lanes.slots.lookup key = some id →
    lanes.slots.lookup key' = some id → key = key'

variable {reuse : Bool} {refs : List LaneId} {lanes lanes' : Lanes K}
  {history history' : List (Event K)} {t u : TaskId} {v v' w : View K}

theorem View.snapshot_refs {snapshot : Snapshot} (h : snapshot ∈ v.snapshots) :
    snapshot.lane ∈ v.refs := by
  simp only [View.refs, List.mem_append, List.mem_map]
  exact .inl (.inl ⟨snapshot, h, rfl⟩)

theorem View.guard_refs {id : LaneId} (h : v.guard = some id) : id ∈ v.refs := by
  simp [View.refs, h]

/-- All lanes a task refers to are one lane. -/
theorem Owns.lane_eq (h : Owns lanes history t v) {id id' : LaneId} (hid : id ∈ v.refs)
    (hid' : id' ∈ v.refs) : id = id' :=
  Option.some.inj ((h.slot id hid).symm.trans (h.slot id' hid'))

theorem Counted.grow {key : K} {snapshot : Snapshot} (h : Counted lanes history key snapshot)
    (events : List (Event K))
    (hgeneration : (lanes'.lane snapshot.lane).generation =
      (lanes.lane snapshot.lane).generation + admissions key events) :
    Counted lanes' (events ++ history) key snapshot where
  mark := by
    have hmark := h.mark
    rw [List.length_append]
    omega
  generation := by
    have hcount := h.generation
    rw [since_append h.mark, hgeneration, hcount]
    unfold admissions
    rw [List.countP_append]
    omega

theorem Counted.same {key : K} {snapshot : Snapshot} (h : Counted lanes history key snapshot)
    (hgeneration : (lanes'.lane snapshot.lane).generation =
      (lanes.lane snapshot.lane).generation) : Counted lanes' history key snapshot :=
  h.grow [] (by rw [hgeneration]; rfl)

/-- A change of lanes that leaves the slots and every generation alone, and every holder but
that of `id`. -/
theorem Owns.modify (h : Owns lanes history u w) {id : LaneId} {lane : KeyLane}
    (hgeneration : lane.generation = (lanes.lane id).generation) (hguard : w.guard ≠ some id) :
    Owns (lanes.modify id lane) history u w where
  slot := h.slot
  counted := fun snapshot hs => (h.counted snapshot hs).same (by
    rw [Lanes.modify_lane]
    split
    · rename_i heq
      rw [hgeneration, heq]
    · rfl)
  holder := fun id' hid' => by
    have hne : id' ≠ id := fun heq => hguard (heq ▸ hid')
    rw [Lanes.modify_lane_of_ne _ _ hne]
    exact h.holder id' hid'

/-- One step of task `t` keeps what another task, or a queued ticket, owns. -/
theorem Owns.other (hslots : Slots lanes) (ht : Owns lanes history t v)
    (hmove : LaneMove reuse refs t lanes history v lanes' history' v')
    (h : Owns lanes history u w) (hrefs : ∀ id ∈ w.refs, id ∈ refs)
    (hguard : w.guard = none ∨ u ≠ t) : Owns lanes' history' u w := by
  cases hmove with
  | @quiet events _ hevents _ _ =>
    exact ⟨h.slot,
      fun snapshot hs => (h.counted snapshot hs).grow events (by rw [admissions_note hevents]; rfl),
      h.holder⟩
  | lookup hget _ _ =>
    rcases lanes.get_cases reuse refs v.key with ⟨id, hslot, heq⟩ | ⟨hdead, heq⟩
    · obtain rfl : lanes = lanes' := (Prod.mk.inj (heq.symm.trans hget)).2
      exact h
    · have hlanes : lanes' = (lanes.create reuse v.key).2 :=
        (Prod.mk.inj (hget.symm.trans heq)).2
      subst hlanes
      -- A lane that is referred to is the lane of its slot: not that of the dead slot.
      have hkey {id : LaneId} (hid : id ∈ w.refs) : w.key ≠ v.key := fun heq =>
        hdead id (heq ▸ h.slot id hid) (hrefs id hid)
      have hold {id : LaneId} (hid : id ∈ w.refs) :
          (lanes.create reuse v.key).2.lane id = lanes.lane id :=
        lanes.create_lane_of_ne reuse v.key (Nat.ne_of_lt (hslots.allocated _ _ (h.slot id hid)))
      refine ⟨fun id hid => ?_, fun snapshot hs => ?_, fun id hid => ?_⟩
      · rw [Lanes.create_lookup, if_neg (hkey hid)]
        exact h.slot id hid
      · exact (h.counted snapshot hs).same (by rw [hold (View.snapshot_refs hs)])
      · rw [hold (View.guard_refs hid)]
        exact h.holder id hid
  | load _ _ _ => exact h
  | acquire _ hfree _ _ =>
    refine h.modify rfl fun hw => ?_
    rw [h.holder _ hw] at hfree
    cases hfree
  | @admission id advanced revision _ hid hadvance _ _ =>
    obtain ⟨hgeneration, hholder⟩ := KeyLane.advance_eq_some hadvance
    have hslot := ht.slot id (View.guard_refs hid)
    refine ⟨h.slot, fun snapshot hs => ?_, fun id' hid' => ?_⟩
    · have hsnapshot := h.slot snapshot.lane (View.snapshot_refs hs)
      refine (h.counted snapshot hs).grow [.admitted v.key t] ?_
      by_cases hkey : w.key = v.key
      · -- The same key: the same lane.
        obtain rfl : snapshot.lane = id :=
          Option.some.inj (hsnapshot.symm.trans (hkey ▸ hslot))
        rw [Lanes.modify_lane_self, hgeneration]
        simp [admissions, hkey]
      · have hne : snapshot.lane ≠ id := fun heq =>
          hkey (hslots.separate _ _ _ hsnapshot (heq ▸ hslot))
        rw [Lanes.modify_lane_of_ne _ _ hne]
        simp [admissions, Ne.symm hkey]
    · rw [Lanes.modify_lane]
      split
      · rename_i heq
        rw [hholder, ← heq]
        exact h.holder id' hid'
      · exact h.holder id' hid'
  | @release id _ hid _ _ =>
    refine h.modify rfl fun hw => ?_
    -- The guard is that of `t`.
    have hheld := (h.holder id hw).symm.trans (ht.holder id hid)
    rcases hguard with hnone | hne
    · rw [hnone] at hw
      cases hw
    · exact hne (Option.some.inj hheld)

/-- The references of a task, without its guard. -/
def View.unguarded (v : View K) : View K := { v with lanes := v.refs, guard := none }

theorem View.unguarded_refs {id : LaneId} (h : id ∈ v.unguarded.refs) : id ∈ v.refs := by
  simp only [View.unguarded, View.refs, List.mem_append, Option.toList_none,
    List.not_mem_nil, or_false] at h ⊢
  rcases h with h | h
  · exact .inl (.inl h)
  · exact h

theorem Owns.unguarded (h : Owns lanes history t v) : Owns lanes history t v.unguarded where
  slot := fun id hid => h.slot id (View.unguarded_refs hid)
  counted := h.counted
  holder := fun _ hid => by cases hid

/-- What a task owns after its step, from what it owned before. -/
theorem Owns.extend {snapshots : List Snapshot} {ids : List LaneId}
    (h : Owns lanes history t v.unguarded) (hfrom : v'.From v snapshots ids)
    (hsnapshots : ∀ x ∈ snapshots, lanes.slots.lookup v.key = some x.lane
      ∧ Counted lanes history v.key x)
    (hids : ∀ id ∈ ids, lanes.slots.lookup v.key = some id)
    (hguard : ∀ id, v'.guard = some id → lanes.slots.lookup v.key = some id
      ∧ (lanes.lane id).holder = some t) : Owns lanes history t v' where
  slot := fun id hid => by
    rw [hfrom.key]
    simp only [View.refs, List.mem_append, List.mem_map, Option.mem_toList] at hid
    rcases hid with (⟨x, hx, rfl⟩ | hid) | hid
    · rcases hfrom.snapshots x hx with hx | hx
      · exact h.slot _ (View.snapshot_refs (v := v.unguarded) hx)
      · exact (hsnapshots x hx).1
    · rcases hfrom.lanes id hid with hid | hid
      · refine h.slot id ?_
        simp only [View.refs, View.unguarded, List.mem_append]
        exact .inl (.inr (by simpa [View.refs, or_assoc] using hid))
      · exact hids id hid
    · exact (hguard id hid).1
  counted := fun x hx => by
    rw [hfrom.key]
    rcases hfrom.snapshots x hx with hx | hx
    · exact h.counted x hx
    · exact (hsnapshots x hx).2
  holder := fun id hid => (hguard id hid).2

/-- A snapshot that was just loaded. -/
theorem Counted.fresh (lanes : Lanes K) (history : List (Event K)) (key : K) (id : LaneId) :
    Counted lanes history key ⟨id, (lanes.lane id).generation, history.length⟩ where
  mark := Nat.le_refl _
  generation := by
    rw [History.since_length]
    rfl

/-- After its step, task `t` owns what its new view says. -/
theorem Owns.self (hslots : Slots lanes) (ht : Owns lanes history t v)
    (hmove : LaneMove reuse refs t lanes history v lanes' history' v')
    (hrefs : ∀ id ∈ v.refs, id ∈ refs) : Owns lanes' history' t v' := by
  have hold : Owns lanes' history' t v.unguarded :=
    Owns.other hslots ht hmove ht.unguarded (fun id hid => hrefs id (View.unguarded_refs hid))
      (.inl rfl)
  have hnone : ∀ x ∈ ([] : List Snapshot), lanes'.slots.lookup v.key = some x.lane
      ∧ Counted lanes' history' v.key x := fun _ h => by cases h
  cases hmove with
  | quiet hevents hfrom hguard =>
    refine hold.extend hfrom hnone (fun _ h => by cases h) fun id hid => ?_
    rw [hguard] at hid
    exact ⟨ht.slot id (View.guard_refs hid), ht.holder id hid⟩
  | @lookup id _ _ hget hfrom hguard =>
    have hfound : lanes'.slots.lookup v.key = some id := by
      rcases lanes.get_cases reuse refs v.key with ⟨id', hslot, heq⟩ | ⟨-, heq⟩
      · obtain ⟨rfl, rfl⟩ := Prod.mk.inj (heq.symm.trans hget)
        exact hslot
      · have hpair := hget.symm.trans heq
        have hid : id = lanes.next := (Prod.mk.inj hpair).1
        have hlanes : lanes' = (lanes.create reuse v.key).2 := (Prod.mk.inj hpair).2
        rw [hlanes, hid, Lanes.create_lookup, if_pos rfl]
    refine hold.extend hfrom (fun x hx => ?_) (fun id' hid' => ?_) fun id' hid' => ?_
    · rw [List.mem_singleton.mp hx]
      exact ⟨hfound, .fresh ..⟩
    · rw [List.mem_singleton.mp hid']
      exact hfound
    · -- A guard that is kept: the slot was alive.
      rw [hguard] at hid'
      have hrefers := View.guard_refs hid'
      rcases lanes.get_cases reuse refs v.key with ⟨id'', hslot, heq⟩ | ⟨hdead, -⟩
      · obtain ⟨rfl, rfl⟩ := Prod.mk.inj (heq.symm.trans hget)
        exact ⟨ht.slot id' hrefers, ht.holder id' hid'⟩
      · exact absurd (hrefs id' hrefers) (hdead id' (ht.slot id' hrefers))
  | load hid hfrom hguard =>
    refine hold.extend hfrom (fun x hx => ?_) (fun _ h => by cases h) fun id' hid' => ?_
    · rw [List.mem_singleton.mp hx]
      exact ⟨ht.slot _ hid, .fresh ..⟩
    · rw [hguard] at hid'
      exact ⟨ht.slot id' (View.guard_refs hid'), ht.holder id' hid'⟩
  | acquire hid hfree hfrom hguard =>
    refine hold.extend hfrom hnone (fun _ h => by cases h) fun id' hid' => ?_
    obtain rfl := Option.some.inj (hguard.symm.trans hid')
    exact ⟨ht.slot _ hid, by rw [Lanes.modify_lane_self]⟩
  | admission hid hadvance hfrom hguard =>
    have hslot := ht.slot _ (View.guard_refs hid)
    obtain ⟨hgeneration, hholder⟩ := KeyLane.advance_eq_some hadvance
    refine hold.extend hfrom (fun x hx => ?_) (fun _ h => by cases h) fun id' hid' => ?_
    · rw [List.mem_singleton.mp hx]
      refine ⟨hslot, by simp, ?_⟩
      rw [Lanes.modify_lane_self, ← List.length_cons (a := Event.admitted v.key t),
        History.since_length]
      rfl
    · obtain rfl := Option.some.inj (hguard.symm.trans hid')
      refine ⟨hslot, ?_⟩
      rw [Lanes.modify_lane_self, hholder]
      exact ht.holder _ hid
  | release hid hfrom hguard =>
    refine hold.extend hfrom hnone (fun _ h => by cases h) fun id' hid' => ?_
    rw [hguard] at hid'
    cases hid'

theorem Slots.move (h : Slots lanes)
    (hmove : LaneMove reuse refs t lanes history v lanes' history' v') : Slots lanes' := by
  cases hmove with
  | quiet _ _ _ => exact h
  | load _ _ _ => exact h
  | acquire _ _ _ _ => exact ⟨h.allocated, h.separate⟩
  | admission _ _ _ _ => exact ⟨h.allocated, h.separate⟩
  | release _ _ _ => exact ⟨h.allocated, h.separate⟩
  | lookup hget _ _ =>
    rcases lanes.get_cases reuse refs v.key with ⟨id', hslot, heq⟩ | ⟨-, heq⟩
    · obtain ⟨-, rfl⟩ := Prod.mk.inj (heq.symm.trans hget)
      exact h
    · have hlanes : lanes' = (lanes.create reuse v.key).2 := (Prod.mk.inj (hget.symm.trans heq)).2
      subst hlanes
      refine ⟨fun key id hid => ?_, fun key key' id hid hid' => ?_⟩
      · rw [Lanes.create_lookup] at hid
        show id < lanes.next + 1
        split at hid
        · obtain rfl := Option.some.inj hid
          exact Nat.lt_succ_self _
        · exact Nat.lt_succ_of_lt (h.allocated key id hid)
      · rw [Lanes.create_lookup] at hid hid'
        split at hid
        · rename_i hkey
          split at hid'
          · rename_i hkey'
            rw [hkey, hkey']
          · obtain rfl := Option.some.inj hid
            exact absurd (h.allocated key' _ hid') (Nat.lt_irrefl _)
        · split at hid'
          · obtain rfl := Option.some.inj hid'
            exact absurd (h.allocated key _ hid) (Nat.lt_irrefl _)
          · exact h.separate key key' id hid hid'

end

/-! ## The whole system -/

variable {K V M R : Type} [LinearOrder K] [DecidableEq R] {cfg : Config M R}
  {sh sh' : Shared K V M R} {s s' : State K V M R}

/-- The view of a queued ticket, which refers to its lane through its fence. -/
def ticketView (key : K) (fence : Fence) : View K := ⟨key, [fence.toSnapshot], [], none⟩

/-- A data ticket after a step was there before, or has a fence of the task. -/
def TicketsFrom (ops : MarkerWork M R) (sh : Shared K V M R) (v : View K)
    (sh' : Shared K V M R) : Prop :=
  ∀ key queued, sh'.queue.entries.lookup (.data key) = some queued →
    (∃ old, sh.queue.entries.lookup (.data key) = some old
      ∧ Queue.SameTicket ops old.ticket queued.ticket) ∨
    (key = v.key ∧ queued.ticket.work.key ops = .data key ∧
      ∀ fence, queued.ticket.fence = some fence → fence.toSnapshot ∈ v.snapshots)

theorem QueueMove.ticketsFrom {v : View K} (h : QueueMove sh v.key v.snapshots sh') :
    TicketsFrom cfg.markerWork sh v sh' := by
  intro key queued hlookup
  cases h with
  | keeps hqueue _ _ => exact .inl ⟨queued, hqueue.entries _ _ hlookup, .refl _⟩
  | admitted hid hnext hticket hkey hmem hstate hadmitted hothers hhistory =>
    by_cases heq : key = v.key
    · subst heq
      obtain rfl := Option.some.inj (hlookup.symm.trans hadmitted)
      refine .inr ⟨rfl, ?_, fun fence hfence => ?_⟩
      · rw [hticket.2.1]
        exact congrArg RecoveryKey.data hkey
      · obtain rfl := Option.some.inj (hticket.2.2.symm.trans hfence)
        exact hmem
    · have hne : RecoveryKey.data key ≠ (.data v.key : RecoveryKey K R) := fun h =>
        heq (RecoveryKey.data.inj h)
      exact .inl ⟨queued, hothers _ _ hne hlookup, .refl _⟩

theorem ticketsFrom_of_traces {v : View K}
    (h : sh.queue.Traces cfg.markerWork sh'.queue) : TicketsFrom cfg.markerWork sh v sh' :=
  fun _ _ hlookup => .inl (h.entries _ _ hlookup)

theorem stepTask_move {t : TaskId} {refs : List LaneId} {input : Input K V R}
    {task task' : Task K V M} (h : stepTask cfg t refs sh input task = some (task', sh')) :
    TaskMove cfg refs t sh task.view sh' task'.view ∧
      TicketsFrom cfg.markerWork sh task.view sh' := by
  cases task with
  | mutation m =>
    obtain ⟨⟨m', shared⟩, hstep, heq⟩ := Option.map_eq_some_iff.mp h
    cases heq
    have hkey : (Task.view (M := M) (.mutation m)).key = m.key := by
      simp only [Task.view, Mutation.view]
      split <;> rfl
    exact ⟨(mutation_move hstep).1, QueueMove.ticketsFrom (hkey ▸ mutation_queue hstep)⟩
  | incoming i =>
    obtain ⟨⟨pc', shared⟩, hstep, heq⟩ := Option.map_eq_some_iff.mp h
    cases heq
    have hkey : (Task.view (M := M) (.incoming i)).key = i.message.key := by
      simp only [Task.view, Incoming.view]
      split <;> rfl
    exact ⟨incoming_move hstep, QueueMove.ticketsFrom (hkey ▸ incoming_queue hstep)⟩
  | hydration hy =>
    obtain ⟨⟨pc', shared⟩, hstep, heq⟩ := Option.map_eq_some_iff.mp h
    cases heq
    obtain ⟨hmove, hqueue⟩ := hydration_move hstep
    refine ⟨hmove, fun key queued hlookup => ?_⟩
    cases hqueue with
    | keeps hkeeps _ _ => exact .inl ⟨queued, hkeeps.entries _ _ hlookup, .refl _⟩
    | admitted _ _ _ _ hmem => cases hmem
  | replay r =>
    obtain ⟨⟨pc', shared⟩, hstep, heq⟩ := Option.map_eq_some_iff.mp h
    cases heq
    obtain ⟨hmove, htraces⟩ := replay_move hstep
    exact ⟨hmove, ticketsFrom_of_traces htraces⟩

/-- A dropped task gives up its guard, if it had one, and whatever else it owned but what the
settlement of a replay still needs. -/
theorem dropped_move {t : TaskId} {refs : List LaneId} (task : Task K V M) (lanes : Lanes K)
    (history : List (Event K)) :
    LaneMove cfg.reuse refs t lanes history task.view
      (match task.view.guard with
        | none => lanes
        | some lane => lanes.unlock lane) history task.dropped.view := by
  have hfrom : task.dropped.view.From task.view [] [] ∧ task.dropped.view.guard = none := by
    cases task with
    | mutation m =>
      obtain ⟨key, opts, fenced, origin, pc⟩ := m
      cases pc <;> exact ⟨.fewer rfl rfl rfl, rfl⟩
    | incoming i =>
      obtain ⟨message, pc⟩ := i
      cases pc <;> exact ⟨.fewer rfl rfl rfl, rfl⟩
    | hydration hy =>
      obtain ⟨key, pc⟩ := hy
      cases pc <;> exact ⟨.fewer rfl rfl rfl, rfl⟩
    | replay r =>
      obtain ⟨ticket, item, mutation, isData, pc⟩ := r
      cases pc <;> exact ⟨.same rfl rfl rfl, rfl⟩
  split
  · rename_i hguard
    exact .quiet (l := []) (fun _ h => by cases h) hfrom.1 (hfrom.2.trans hguard.symm)
  · rename_i lane hguard
    exact .release hguard hfrom.1 hfrom.2

/-- The lanes part of the invariant. -/
structure LaneInv (cfg : Config M R) (s : State K V M R) : Prop where
  slots : Slots s.shared.lanes
  tasks : ∀ t task, s.tasks.lookup t = some task →
    Owns s.shared.lanes s.shared.history t task.view
  tickets : ∀ key queued fence, s.shared.queue.entries.lookup (.data key) = some queued →
    queued.ticket.fence = some fence →
    ∀ t, Owns s.shared.lanes s.shared.history t (ticketView key fence)
  keyed : ∀ key queued, s.shared.queue.entries.lookup (.data key) = some queued →
    queued.ticket.work.key cfg.markerWork = .data key

namespace LaneInv

theorem refs_task {t : TaskId} {task : Task K V M} (h : s.tasks.lookup t = some task) :
    ∀ id ∈ task.view.refs, id ∈ s.refs := fun _ hid =>
  List.mem_append_left _ (List.mem_flatMap.mpr ⟨task, AList.mem_values.mpr ⟨t, h⟩, hid⟩)

theorem refs_ticket {key : K} {queued : Queued K V M} {fence : Fence}
    (h : s.shared.queue.entries.lookup (.data key) = some queued)
    (hfence : queued.ticket.fence = some fence) :
    ∀ id ∈ (ticketView key fence).refs, id ∈ s.refs := by
  intro id hid
  obtain rfl : id = fence.lane := by simpa [View.refs, ticketView] using hid
  refine List.mem_append_right _ (List.mem_filterMap.mpr
    ⟨queued, AList.mem_values.mpr ⟨_, h⟩, ?_⟩)
  rw [hfence]
  rfl

/-- A move of one task keeps the invariant. -/
theorem move (h : LaneInv cfg s) {t : TaskId} {task task' : Task K V M}
    (htask : s.tasks.lookup t = some task)
    (hmove : LaneMove cfg.reuse s.refs t s.shared.lanes s.shared.history task.view sh'.lanes
      sh'.history task'.view)
    (htickets : TicketsFrom cfg.markerWork s.shared task.view sh') :
    LaneInv cfg ⟨sh', s.tasks.insert t task'⟩ := by
  have hself := h.tasks t task htask
  refine ⟨h.slots.move hmove, fun u other hother => ?_, fun key queued fence hlookup hfence u => ?_,
    fun key queued hlookup => ?_⟩
  · by_cases hu : u = t
    · subst hu
      rw [AList.lookup_insert] at hother
      obtain rfl := Option.some.inj hother
      exact Owns.self h.slots hself hmove (refs_task htask)
    · rw [AList.lookup_insert_ne hu] at hother
      exact Owns.other h.slots hself hmove (h.tasks u other hother) (refs_task hother) (.inr hu)
  · rcases htickets key queued hlookup with ⟨old, hold, hsame⟩ | ⟨rfl, -, hmem⟩
    · have holdFence : old.ticket.fence = some fence := hsame.fence ▸ hfence
      exact Owns.other h.slots hself hmove (h.tickets key old fence hold holdFence u)
        (refs_ticket hold holdFence) (.inl rfl)
    · -- A ticket the task has just admitted, under its own fence.
      have howns := Owns.other h.slots hself hmove (w := task.view.unguarded) (u := u)
        ⟨hself.unguarded.slot, hself.unguarded.counted, fun _ hid => by cases hid⟩
        (fun id hid => refs_task htask id (View.unguarded_refs hid)) (.inl rfl)
      refine ⟨fun id hid => ?_, fun x hx => ?_, fun _ hid => by cases hid⟩
      · obtain rfl : id = fence.lane := by simpa [View.refs, ticketView] using hid
        exact howns.slot _ (View.snapshot_refs (v := task.view.unguarded) (hmem fence hfence))
      · obtain rfl := List.mem_singleton.mp hx
        exact howns.counted _ (hmem fence hfence)
  · rcases htickets key queued hlookup with ⟨old, hold, hsame⟩ | ⟨rfl, hkey, -⟩
    · exact hsame.key key (h.keyed key old hold)
    · exact hkey

/-- A change around the tasks keeps the invariant if no reference in use loses its slot. -/
theorem ambient (h : LaneInv cfg s) (hslots : Slots sh'.lanes)
    (howns : ∀ t v, Owns s.shared.lanes s.shared.history t v → (∀ id ∈ v.refs, id ∈ s.refs) →
      Owns sh'.lanes sh'.history t v)
    (htickets : ∀ key queued, sh'.queue.entries.lookup (.data key) = some queued →
      s.shared.queue.entries.lookup (.data key) = some queued) :
    LaneInv cfg ⟨sh', s.tasks⟩ where
  slots := hslots
  tasks := fun t task htask => howns t _ (h.tasks t task htask) (refs_task htask)
  tickets := fun key queued fence hlookup hfence t =>
    have hold := htickets key queued hlookup
    howns t _ (h.tickets key queued fence hold hfence t) (refs_ticket hold hfence)
  keyed := fun key queued hlookup => h.keyed key queued (htickets key queued hlookup)

/-- The same lanes and history, and no new data ticket. -/
theorem outside (h : LaneInv cfg s) (hlanes : sh'.lanes = s.shared.lanes)
    (hhistory : sh'.history = s.shared.history)
    (htickets : ∀ key queued, sh'.queue.entries.lookup (.data key) = some queued →
      s.shared.queue.entries.lookup (.data key) = some queued) :
    LaneInv cfg ⟨sh', s.tasks⟩ :=
  h.ambient (hlanes ▸ h.slots) (fun _ _ howns _ => hlanes ▸ hhistory ▸ howns) htickets

/-- A task that comes into being owns nothing yet, or what a queued ticket owns. -/
theorem begin (h : LaneInv cfg s) {t : TaskId} {task : Task K V M} (ht : t ∉ s.tasks)
    (howns : Owns s.shared.lanes s.shared.history t task.view)
    (hlanes : sh'.lanes = s.shared.lanes) (hhistory : sh'.history = s.shared.history)
    (htraces : s.shared.queue.Traces cfg.markerWork sh'.queue) :
    LaneInv cfg ⟨sh', s.tasks.insert t task⟩ where
  slots := hlanes ▸ h.slots
  tasks := fun u other hother => by
    rw [hlanes, hhistory]
    by_cases hu : u = t
    · subst hu
      rw [AList.lookup_insert] at hother
      obtain rfl := Option.some.inj hother
      exact howns
    · rw [AList.lookup_insert_ne hu] at hother
      exact h.tasks u other hother
  tickets := fun key queued fence hlookup hfence u => by
    rw [hlanes, hhistory]
    obtain ⟨old, hold, hsame⟩ := htraces.entries _ _ hlookup
    exact h.tickets key old fence hold (hsame.fence ▸ hfence) u
  keyed := fun key queued hlookup => by
    obtain ⟨old, hold, hsame⟩ := htraces.entries _ _ hlookup
    exact hsame.key key (h.keyed key old hold)

/-- An idle task owns nothing. -/
theorem owns_nothing {lanes : Lanes K} {history : List (Event K)} {t : TaskId} (key : K) :
    Owns lanes history t ⟨key, [], [], none⟩ where
  slot := fun _ h => by cases h
  counted := fun _ h => by cases h
  holder := fun _ h => by cases h

theorem initial_view {task : Task K V M} (h : task.isInitial = true) :
    ∃ key, task.view = ⟨key, [], [], none⟩ := by
  unfold Task.isInitial at h
  split at h
  · exact ⟨_, rfl⟩
  · exact ⟨_, rfl⟩
  · exact ⟨_, rfl⟩
  · exact ⟨_, rfl⟩
  · cases h

theorem next (h : LaneInv cfg s) {a : Action K V M R} (hnext : next cfg s a = some s') :
    LaneInv cfg s' := by
  cases a with
  | start task begun =>
    simp only [Hybrid.next] at hnext
    split at hnext
    · cases hnext
    · rename_i hok
      cases hnext
      simp only [Bool.not_eq_true', not_or, Bool.not_eq_false] at hok
      obtain ⟨key, hview⟩ := initial_view hok.2
      exact h.begin hok.1 (hview ▸ owns_nothing key) rfl rfl (Queue.Keeps.refl _).traces
  | claim task key =>
    simp only [Hybrid.next] at hnext
    split at hnext
    · cases hnext
    · rename_i hnew
      split at hnext
      · cases hnext
      · rename_i ticket queue hclaim
        obtain ⟨queued, hlookup, rfl, -, rfl⟩ := Queue.claim_eq_some hclaim
        split at hnext
        · cases hnext
        · rename_i item mutation hwork
          cases hnext
          have hkey : item.key = key := by
            have hkeyed := h.keyed key queued hlookup
            rw [hwork] at hkeyed
            exact RecoveryKey.data.inj hkeyed
          refine h.begin hnew ?_ rfl rfl (Queue.put_traces hlookup (.refl _))
          cases hfence : queued.ticket.fence with
          | none =>
            simp only [Task.view, Replay.view, hfence]
            exact owns_nothing _
          | some fence =>
            simp only [Task.view, Replay.view, hfence, hkey]
            exact h.tickets key queued fence hlookup hfence task
  | step task input =>
    simp only [Hybrid.next] at hnext
    split at hnext
    · cases hnext
    · rename_i current hcurrent
      obtain ⟨⟨stepped, shared⟩, hstep, heq⟩ := Option.map_eq_some_iff.mp hnext
      cases heq
      obtain ⟨hmove, htickets⟩ := stepTask_move hstep
      exact h.move hcurrent hmove.lane htickets
  | drop task =>
    simp only [Hybrid.next] at hnext
    split at hnext
    · cases hnext
    · rename_i current hcurrent
      cases hnext
      exact h.move hcurrent (dropped_move current _ _)
        (ticketsFrom_of_traces (Queue.Keeps.refl _).traces)
  | memoryOp op =>
    simp only [Hybrid.next] at hnext
    split at hnext
    · obtain ⟨memory, hmemory, heq⟩ := Option.map_eq_some_iff.mp hnext
      cases heq
      exact h.outside rfl rfl fun _ _ h => h
    · cases hnext
  | remote key entry =>
    cases hnext
    exact h.outside rfl rfl fun _ _ h => h
  | advanceEpoch =>
    simp only [Hybrid.next] at hnext
    split at hnext
    · cases hnext
      refine h.ambient h.slots (fun t v howns _ => ⟨howns.slot, fun x hx => ?_, howns.holder⟩)
        fun _ _ h => h
      exact (howns.counted x hx).grow [.epoch] rfl
    · cases hnext
  | unhold lane =>
    cases hnext
    exact h.ambient ⟨h.slots.allocated, h.slots.separate⟩
      (fun t v howns _ => ⟨howns.slot, fun x hx => (howns.counted x hx).same rfl, howns.holder⟩)
      fun _ _ h => h
  | handOut key =>
    simp only [Hybrid.next] at hnext
    split at hnext
    · cases hnext
    · cases hnext
      exact h.ambient ⟨h.slots.allocated, h.slots.separate⟩
        (fun t v howns _ => ⟨howns.slot, fun x hx => (howns.counted x hx).same rfl, howns.holder⟩)
        fun _ _ h => h
  | sweep key =>
    cases hnext
    rcases s.shared.lanes.sweep_cases s.refs key with heq | ⟨hdead, heq⟩
    · exact h.outside heq rfl fun _ _ h => h
    · refine h.ambient ?_ (fun t v howns hrefs => ?_) fun _ _ h => h
      · simp only [heq]
        exact ⟨fun k id hid => h.slots.allocated k id (Queue.lookup_erase_of_some hid).2,
          fun k k' id hid hid' => h.slots.separate k k' id (Queue.lookup_erase_of_some hid).2
            (Queue.lookup_erase_of_some hid').2⟩
      · simp only [heq]
        refine ⟨fun id hid => ?_, fun x hx => (howns.counted x hx).same rfl, howns.holder⟩
        -- The swept slot is that of a dead lane.
        have hslot := howns.slot id hid
        have hne : v.key ≠ key := fun heq => hdead id (heq ▸ hslot) (hrefs id hid)
        exact (AList.lookup_erase_ne hne).trans hslot
  | enqueueMarker work now order =>
    cases hnext
    exact h.outside rfl rfl (Queue.enqueueWork_marker rfl).1
  | dropMarker key =>
    cases hnext
    exact h.outside rfl rfl fun k queued hlookup =>
      (s.shared.queue.remove_keeps (.marker key)).entries _ queued hlookup
  | stopRecovery =>
    cases hnext
    exact h.outside rfl rfl fun _ _ h => h

theorem init (memory : Memory.State K V) (distributed : AList fun _ : K => Entry V) :
    LaneInv cfg (Hybrid.init memory distributed : State K V M R) where
  slots := ⟨fun _ _ h => (by cases h), fun _ _ _ h => (by cases h)⟩
  tasks := fun _ _ h => by cases h
  tickets := fun _ _ _ h => by cases h
  keyed := fun _ _ h => by cases h

end LaneInv

end Hybrid

end Amalgam
