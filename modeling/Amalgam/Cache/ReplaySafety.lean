import Amalgam.Cache.FenceSafety

/-!
# Amalgam — a replay never overwrites what is newer

Every write of a replay to L2 comes before the next admission to the lane of its key, and never
after the ticket was reduced to its notification (`replay_never_overwrites`). The invariant
(`TicketInv`) follows a ticket by its identity: at most one unfinished replay has it, it stays in
flight in the queue while that replay runs, and only work that is not reduced is ever stored.
-/

set_option linter.unusedSectionVars false

namespace Amalgam

namespace Hybrid

open Commit Recovery

section

variable {K : Type} [DecidableEq K]

/-- The fence was captured by the admission of a mutation of the key, right after it. -/
def Own (key : K) (fence : Fence) (history : List (Event K)) : Prop :=
  ∃ later task earlier, history = later ++ .admitted key task :: earlier ∧
    fence.mark = earlier.length + 1

theorem Own.grow {key : K} {fence : Fence} {history : List (Event K)} (h : Own key fence history)
    (events : List (Event K)) : Own key fence (events ++ history) := by
  obtain ⟨later, task, earlier, rfl, hmark⟩ := h
  exact ⟨events ++ later, task, earlier, (List.append_assoc ..).symm, hmark⟩

/-- A write of a replay to L2 follows the admission of its own mutation with no other admission
to the lane of the key between them, and the ticket had more than its notification left. -/
def SafeHistory (history : List (Event K)) : Prop :=
  ∀ later key id fence earlier, history = later ++ .replayed key id fence :: earlier →
    (∃ f between task before, fence = some f ∧ earlier = between ++ .admitted key task :: before ∧
      f.mark = before.length + 1 ∧ ∀ u, .admitted key u ∉ between) ∧
    ∀ k, .notified k id ∉ earlier

theorem SafeHistory.nil : SafeHistory ([] : List (Event K)) :=
  fun later key id fence earlier h => by
    have hlength := congrArg List.length h
    simp at hlength

theorem SafeHistory.cons {e : Event K} {history : List (Event K)} (h : SafeHistory history)
    (he : ∀ key id fence, e = .replayed key id fence →
      (∃ f between task before, fence = some f ∧
        history = between ++ .admitted key task :: before ∧ f.mark = before.length + 1 ∧
        ∀ u, .admitted key u ∉ between) ∧
      ∀ k, .notified k id ∉ history) : SafeHistory (e :: history) := by
  intro later key id fence earlier heq
  rcases History.split_cons heq with ⟨-, hevent, rfl⟩ | ⟨rest, -, hrest⟩
  · exact he key id fence hevent
  · exact h rest key id fence earlier hrest

theorem SafeHistory.grow {history events : List (Event K)} (h : SafeHistory history)
    (hevents : ∀ key id fence, .replayed key id fence ∉ events) :
    SafeHistory (events ++ history) := by
  induction events with
  | nil => exact h
  | cons e events ih =>
    refine (ih fun key id fence hmem => hevents key id fence (List.mem_cons_of_mem e hmem)).cons ?_
    rintro key id fence rfl
    exact absurd (List.mem_cons_self ..) (hevents key id fence)

/-- Between the capture of an own fence and now nothing was admitted. -/
theorem Own.last {key : K} {fence : Fence} {history : List (Event K)} (h : Own key fence history)
    (hnone : Unadmitted history key fence) :
    ∃ between task before, history = between ++ .admitted key task :: before ∧
      fence.mark = before.length + 1 ∧ ∀ u, .admitted key u ∉ between := by
  obtain ⟨later, task, earlier, rfl, hmark⟩ := h
  refine ⟨later, task, earlier, rfl, hmark, fun u hmem => hnone.not_mem u ?_⟩
  have hlength : fence.mark = (Event.admitted key task :: earlier).length := hmark
  rw [hlength, since_append (Nat.le_refl _), History.since_length, List.append_nil]
  exact hmem

end

variable {K V M R : Type} [LinearOrder K] [DecidableEq R] {cfg : Config M R}
  {sh sh' : Shared K V M R} {s s' : State K V M R} {refs : List LaneId} {t : TaskId}
  {input : Input K V R}

/-! ## Admitted mutations -/

theorem own_of_stepMutation {m m' : Mutation K V} {fence : Fence} {command : Option (Message K)}
    {pc : CommitPc K V} (h : stepMutation cfg t refs sh m input = some (m', sh'))
    (hpc : m'.pc = .admitted fence command pc) :
    (∃ command' pc', m.pc = .admitted fence command' pc') ∨ Own m'.key fence sh'.history := by
  obtain ⟨key, opts, fenced, origin, pc'⟩ := m
  cases pc' with
  | admission write lane =>
    simp only [stepMutation] at h
    split at h
    · cases h; cases hpc
    · rename_i snapshot shared hadmit
      cases h
      cases hpc
      unfold admitTo at hadmit
      split at hadmit
      · cases hadmit
      · cases hadmit
        exact .inr ⟨[], t, sh.history, rfl, rfl⟩
  | admitted fence' command' pc' =>
    obtain ⟨⟨pc'', shared⟩, hcommit, heq⟩ := Option.map_eq_some_iff.mp h
    cases heq
    rcases (commitMove_of_stepCommit hcommit).pc with ⟨_, _, rfl⟩ | ⟨_, rfl⟩
    · cases hpc
      exact .inl ⟨_, _, rfl⟩
    · cases hpc
  | capture | captureEpoch snapshot | getLane write | release lane result =>
    cases h
    cases hpc
  | running | lock write lane | check write lane =>
    simp only [stepMutation] at h
    repeat' split at h
    all_goals
      cases h
      try cases hpc
  | done result => cases h

/-- The fence of an admitted mutation is its own. -/
theorem own_of_reachable {memory : Memory.State K V} {distributed : AList fun _ : K => Entry V}
    (hreach : Run.Reachable (Hybrid.next cfg) (Hybrid.init memory distributed) s) :
    ∀ t m fence command pc, s.tasks.lookup t = some (.mutation m) →
      m.pc = .admitted fence command pc → Own m.key fence s.shared.history := by
  refine hreach.invariant (I := fun s => ∀ t m fence command pc,
      s.tasks.lookup t = some (.mutation m) → m.pc = .admitted fence command pc →
      Own m.key fence s.shared.history)
    (fun _ _ _ _ _ h => by cases h) fun s a s' hs hnext t m' fence command pc ht' hpc => ?_
  obtain ⟨events, hhistory, -⟩ := history_of_next hnext
  cases ht : s.tasks.lookup t with
  | none =>
    rcases begun_of_next hnext ht ht' with ⟨-, hinitial⟩ | ⟨_, _, _, _, _, _, -, -, -, h⟩
    · obtain ⟨key, opts, fenced, origin, pc'⟩ := m'
      obtain rfl : pc' = .admitted fence command pc := hpc
      cases origin <;> cases hinitial
    · cases h
  | some task =>
    rcases task_of_next hnext ht with ⟨input, task', -, hstep, hafter⟩ | ⟨-, hafter⟩ | ⟨-, hafter⟩
    · obtain rfl := Option.some.inj (hafter.symm.trans ht')
      cases task with
      | mutation m =>
        obtain ⟨⟨m'', shared⟩, hmutation, heq⟩ := Option.map_eq_some_iff.mp hstep
        obtain ⟨hm, hshared⟩ := Prod.mk.inj heq
        obtain rfl := Task.mutation.inj hm
        rcases own_of_stepMutation hmutation hpc with ⟨_, _, hpc'⟩ | hown
        · rw [hhistory, (mutation_move hmutation).2]
          exact (hs t m _ _ _ ht hpc').grow events
        · exact hshared ▸ hown
      | incoming i | hydration i | replay i =>
        obtain ⟨_, _, heq⟩ := Option.map_eq_some_iff.mp hstep
        cases (Prod.mk.inj heq).1
    · rw [hafter] at ht'
      cases task with
      | mutation m =>
        obtain ⟨key, opts, fenced, origin, pc'⟩ := m
        cases pc' <;> cases ht' <;> cases hpc
      | replay r =>
        obtain ⟨ticket, item, mutation, isData, pc'⟩ := r
        cases pc' <;> cases ht'
      | incoming i | hydration i => cases ht'
    · obtain rfl := Option.some.inj (hafter.symm.trans ht')
      rw [hhistory]
      exact (hs t m' fence command pc ht hpc).grow events

/-- Only an admitted mutation enqueues, with its own fence. -/
theorem queueMove_of_stepMutation {m m' : Mutation K V}
    (h : stepMutation cfg t refs sh m input = some (m', sh')) :
    QueueMove sh m.key [] sh' ∨
      ∃ fence command pc, m.pc = .admitted fence command pc ∧
        QueueMove sh m.key [fence.toSnapshot] sh' := by
  obtain ⟨key, opts, fenced, origin, pc⟩ := m
  cases pc with
  | admitted fence command pc =>
    obtain ⟨⟨pc', shared⟩, hstep, heq⟩ := Option.map_eq_some_iff.mp h
    cases heq
    exact .inr ⟨fence, command, pc, rfl, (commitMove_of_stepCommit hstep).queue⟩
  | capture | captureEpoch snapshot | getLane write | release lane result =>
    cases h
    exact .inl (.of_keeps (.refl _) rfl)
  | admission write lane =>
    simp only [stepMutation] at h
    split at h
    · cases h
      exact .inl (.of_keeps (.refl _) rfl)
    · rename_i hadmit
      cases h
      exact .inl (queueMove_of_admitTo hadmit)
  | check write lane =>
    simp only [stepMutation] at h
    split at h
    · cases h
      exact .inl (.of_keeps (.refl _) rfl)
    · split at h
      · cases h
        exact .inl (.keeps (l := [.passed t]) (.refl _) rfl fun e he => by
          rw [List.mem_singleton.mp he]
          rfl)
      · cases h
        exact .inl (.of_keeps (.refl _) rfl)
    · cases h
  | running | lock write lane =>
    simp only [stepMutation] at h
    split at h
    all_goals
      cases h
      try exact .inl (.of_keeps (.refl _) rfl)
  | done result => cases h

/-! ## Steps of replays -/

/-- The replay may still come to write its mutation to L2. -/
def ReplayPc.mayStore : ReplayPc K V → Bool
  | .claimed | .getLane | .lock _ | .check _ | .reconcile _ | .recheck _ | .write _
  | .store _ _ _ => true
  | _ => false

def ReplayPc.stores : ReplayPc K V → Bool
  | .store _ _ _ => true
  | _ => false

/-- The claim of the replay is not settled. -/
def ReplayPc.live : ReplayPc K V → Bool
  | .done => false
  | _ => true

/-- `settle` of an outcome. -/
def settled (ops : MarkerWork M R) (q : Queue K V M R) (ticket : ReplayTicket K V M) :
    ReplayOutcome → Queue K V M R
  | .paused => q.unclaim ops ticket
  | .failed => q.recordFailure ops ticket
  | _ => q.complete ops ticket

/-- What one step of a replay does to the recovery queue and records. -/
inductive ReplayMove (ops : MarkerWork M R) (sh : Shared K V M R) (r : Replay K V M)
    (sh' : Shared K V M R) (pc' : ReplayPc K V) : Prop
  | quiet (hqueue : sh'.queue = sh.queue) (hhistory : sh'.history = sh.history)
      (hlive : r.pc.live = true) (hmay : pc'.mayStore = true → r.pc.mayStore = true)
      (hstores : pc'.stores = true → r.mutation.isNotify = false)
  | stored (hqueue : sh'.queue = sh.queue)
      (hhistory : sh'.history = .replayed r.item.key r.ticket.id r.ticket.fence :: sh.history)
      (hstores : r.pc.stores = true) (hmay : pc'.mayStore = false)
  | staged (hqueue : sh'.queue = sh.queue.notificationStage ops r.ticket)
      (hhistory : sh'.history = sh.history ∨
        (∃ queued, sh'.queue.find ops r.ticket = some queued ∧
          queued.ticket.work.isNotify = true) ∧
        sh'.history = .notified r.item.key r.ticket.id :: sh.history)
      (hlive : r.pc.live = true) (hmay : pc'.mayStore = false)
  | settled (outcome : ReplayOutcome) (hlive : r.pc.live = true)
      (hqueue : sh'.queue = settled ops sh.queue r.ticket outcome)
      (hhistory : sh'.history = sh.history) (hpc : pc' = .done)

theorem replayMove_of_stepReplay {r : Replay K V M} {pc' : ReplayPc K V}
    (h : stepReplay cfg t refs sh r.ticket r.item r.mutation input r.pc = some (pc', sh')) :
    ReplayMove cfg.markerWork sh r sh' pc' := by
  obtain ⟨ticket, item, mutation, isData, pc⟩ := r
  have hstill (lane : LaneId) (next : ReplayPc K V) (hlive : pc.live = true)
      (hmay : next.mayStore = true → pc.mayStore = true) (hstores : next.stores = false)
      (hstep : stillCurrent cfg sh ticket lane input next = some (pc', sh')) :
      ReplayMove cfg.markerWork sh ⟨ticket, item, mutation, isData, pc⟩ sh' pc' := by
    obtain ⟨rfl, ⟨rfl, -⟩ | ⟨outcome, rfl⟩⟩ := stillCurrent_eq_some hstep
    · exact .quiet rfl rfl hlive hmay fun h => by rw [hstores] at h; cases h
    · exact .quiet rfl rfl hlive (fun h => by cases h) fun h => by cases h
  cases pc with
  | check lane => exact hstill _ _ rfl (fun _ => rfl) rfl h
  | recheck lane => exact hstill _ _ rfl (fun _ => rfl) rfl h
  | confirm lane notification =>
    cases notification with
    | none => exact hstill _ _ rfl (fun h => by cases h) rfl h
    | some command =>
      cases hb : cfg.backplane with
      | false =>
        refine hstill lane (.release lane .applied) rfl (fun h => by cases h) rfl ?_
        simpa [stepReplay, hb] using h
      | true =>
        refine hstill lane (.publish lane command) rfl (fun h => by cases h) rfl ?_
        simpa [stepReplay, hb] using h
  | write lane =>
    cases mutation with
    | legacy => cases h
    | notify command =>
      cases h
      exact .quiet rfl rfl rfl (fun h => by cases h) fun h => by cases h
    | coldExpire boundary notification =>
      simp only [stepReplay] at h
      repeat' split at h
      all_goals
        cases h
        exact .quiet rfl rfl rfl (fun _ => rfl) fun _ => rfl
    | commit data notification | fencedCommit data notification =>
      simp only [stepReplay] at h
      split at h
      all_goals
        cases h
        exact .quiet rfl rfl rfl (fun _ => rfl) fun _ => rfl
  | store lane data notification =>
    have hout := outside_applyData sh item.key data
    have hwritten {pc' : ReplayPc K V} (hmay : pc'.mayStore = false) :
        ReplayMove cfg.markerWork sh ⟨ticket, item, mutation, isData, .store lane data notification⟩
          ((sh.applyData item.key data).record (.replayed item.key ticket.id ticket.fence)) pc' :=
      .stored hout.queue (congrArg _ hout.history) rfl hmay
    have hquiet {pc' : ReplayPc K V} (hmay : pc'.mayStore = false) (hstores : pc'.stores = false) :
        ReplayMove cfg.markerWork sh ⟨ticket, item, mutation, isData, .store lane data notification⟩
          sh pc' :=
      .quiet rfl rfl rfl (fun h => by rw [hmay] at h; cases h)
        fun h => by rw [hstores] at h; cases h
    simp only [stepReplay] at h
    split at h
    · cases h
      exact hquiet rfl rfl
    split at h
    · cases h
      exact hwritten rfl
    · rename_i landed hreply
      cases h
      cases landed with
      | true => exact hwritten rfl
      | false => exact hquiet rfl rfl
    · cases h
      exact hquiet rfl rfl
  | stage lane notification =>
    simp only [stepReplay] at h
    split at h
    · cases h
      split
      · rename_i hnotified
        exact .staged rfl (.inr ⟨(Option.any_eq_true ..).mp hnotified, rfl⟩) rfl rfl
      · exact .staged rfl (.inl rfl) rfl rfl
    · cases h
      exact .quiet rfl rfl rfl (fun h => by cases h) fun h => by cases h
  | publish lane command =>
    simp only [stepReplay] at h
    split at h
    · cases h
      exact .quiet rfl rfl rfl (fun h => by cases h) fun h => by cases h
    · rename_i landed hreply
      cases h
      cases landed <;> exact .quiet rfl rfl rfl (fun h => by cases h) fun h => by cases h
    · cases h
  | lock lane =>
    obtain ⟨lanes, -, heq⟩ := Option.map_eq_some_iff.mp h
    cases heq
    exact .quiet rfl rfl rfl (fun _ => rfl) fun h => by cases h
  | settle outcome =>
    cases h
    refine .settled outcome rfl ?_ rfl rfl
    cases outcome <;> rfl
  | getLane =>
    cases h
    exact .quiet rfl rfl rfl (fun _ => rfl) fun h => by cases h
  | release lane outcome =>
    cases h
    exact .quiet rfl rfl rfl (fun h => by cases h) fun h => by cases h
  | claimed | reconcile lane =>
    simp only [stepReplay] at h
    repeat' split at h
    all_goals
      cases h
      try exact .quiet rfl rfl rfl (fun _ => rfl) fun h => by cases h
  | done => cases h

/-! ## Tickets and the replays of their claims -/

/-- What the queue, the replays and the history say about the identity of a ticket. -/
structure TicketInv (q : Queue K V M R) (tasks : AList fun _ : TaskId => Task K V M)
    (history : List (Event K)) : Prop where
  queuedBelow : ∀ n key queued, q.nextId = some n → q.entries.lookup (.data key) = some queued →
    queued.ticket.id < n
  replayBelow : ∀ n t r, q.nextId = some n → tasks.lookup t = some (.replay r) → r.ticket.id < n
  notifiedBelow : ∀ n key id, q.nextId = some n → .notified key id ∈ history → id < n
  distinct : ∀ key key' queued queued', q.entries.lookup (.data key) = some queued →
    q.entries.lookup (.data key') = some queued' → queued.ticket.id = queued'.ticket.id → key = key'
  sameKey : ∀ t r key queued, tasks.lookup t = some (.replay r) →
    q.entries.lookup (.data key) = some queued → queued.ticket.id = r.ticket.id → key = r.item.key
  own : ∀ key queued, q.entries.lookup (.data key) = some queued →
    ∃ f, queued.ticket.fence = some f ∧ Own key f history
  ownReplay : ∀ t r, tasks.lookup t = some (.replay r) →
    ∃ f, r.ticket.fence = some f ∧ Own r.item.key f history
  inFlight : ∀ t r queued, tasks.lookup t = some (.replay r) → r.pc.live = true →
    q.entries.lookup (.data r.item.key) = some queued → queued.ticket.id = r.ticket.id →
    queued.state = .inFlight
  alone : ∀ t u r r', tasks.lookup t = some (.replay r) → tasks.lookup u = some (.replay r') →
    r.pc.live = true → r'.pc.live = true → r.ticket.id = r'.ticket.id → t = u
  unnotified : ∀ key queued, q.entries.lookup (.data key) = some queued →
    queued.ticket.work.isNotify = false → ∀ k, .notified k queued.ticket.id ∉ history
  unnotifiedReplay : ∀ t r, tasks.lookup t = some (.replay r) → r.pc.mayStore = true →
    r.mutation.isNotify = false → ∀ k, .notified k r.ticket.id ∉ history
  storing : ∀ t r, tasks.lookup t = some (.replay r) → r.pc.stores = true →
    r.mutation.isNotify = false
  safe : SafeHistory history

/-- The replays of `tasks'` are replays of `tasks` that may do no more than before. -/
def Weaker (tasks tasks' : AList fun _ : TaskId => Task K V M) : Prop :=
  ∀ t r', tasks'.lookup t = some (.replay r') → ∃ r, tasks.lookup t = some (.replay r) ∧
    r'.ticket = r.ticket ∧ r'.item = r.item ∧ r'.mutation = r.mutation ∧
    (r'.pc.live = true → r.pc.live = true) ∧ (r'.pc.mayStore = true → r.pc.mayStore = true) ∧
    (r'.pc.stores = true → r.pc.stores = true ∨ r.mutation.isNotify = false)

theorem Weaker.refl (tasks : AList fun _ : TaskId => Task K V M) : Weaker tasks tasks :=
  fun _ r h => ⟨r, h, rfl, rfl, rfl, id, id, .inl⟩

theorem Weaker.insert {tasks : AList fun _ : TaskId => Task K V M} {t : TaskId} {task' : Task K V M}
    (h : ∀ r', task' = .replay r' → ∃ r, tasks.lookup t = some (.replay r) ∧
      r'.ticket = r.ticket ∧ r'.item = r.item ∧ r'.mutation = r.mutation ∧
      (r'.pc.live = true → r.pc.live = true) ∧ (r'.pc.mayStore = true → r.pc.mayStore = true) ∧
      (r'.pc.stores = true → r.pc.stores = true ∨ r.mutation.isNotify = false)) :
    Weaker tasks (tasks.insert t task') := fun u r' hu => by
  rcases AList.lookup_insert_cases hu with ⟨rfl, heq⟩ | ⟨-, hu⟩
  · exact h r' heq.symm
  · exact Weaker.refl tasks u r' hu

/-- The data tickets of `q'` are tickets of `q`, not less reduced, and pending only where they
were or where no replay runs. -/
structure Evolves (tasks' : AList fun _ : TaskId => Task K V M) (q q' : Queue K V M R) : Prop where
  entries : ∀ key queued', q'.entries.lookup (.data key) = some queued' →
    ∃ queued, q.entries.lookup (.data key) = some queued ∧
      queued'.ticket.id = queued.ticket.id ∧ queued'.ticket.fence = queued.ticket.fence ∧
      (queued'.ticket.work.isNotify = false → queued.ticket.work.isNotify = false) ∧
      (queued'.state = queued.state ∨ ∀ t r, tasks'.lookup t = some (.replay r) →
        r.pc.live = true → r.ticket.id ≠ queued.ticket.id)
  nextId : ∀ n, q'.nextId = some n → ∃ m, q.nextId = some m ∧ m ≤ n

theorem Evolves.of_sub {tasks' : AList fun _ : TaskId => Task K V M} {q q' : Queue K V M R}
    (hentries : ∀ key queued, q'.entries.lookup (.data key) = some queued →
      q.entries.lookup (.data key) = some queued)
    (hnextId : ∀ n, q'.nextId = some n → ∃ m, q.nextId = some m ∧ m ≤ n) :
    Evolves tasks' q q' where
  entries := fun key queued h => ⟨queued, hentries key queued h, rfl, rfl, id, .inl rfl⟩
  nextId := hnextId

theorem Evolves.of_keeps {tasks' : AList fun _ : TaskId => Task K V M} {q q' : Queue K V M R}
    (h : q.Keeps q') : Evolves tasks' q q' :=
  .of_sub (fun _ queued => h.entries _ queued) fun n hn => ⟨n, h.nextId ▸ hn, Nat.le_refl n⟩

namespace TicketInv

variable {q q' : Queue K V M R} {tasks tasks' : AList fun _ : TaskId => Task K V M}
  {history : List (Event K)}

/-- What a step keeps that admits and claims no ticket. -/
theorem evolve (h : TicketInv q tasks history) (events : List (Event K))
    (hqueue : Evolves tasks' q q') (htasks : Weaker tasks tasks')
    (hnotified : ∀ k id, .notified k id ∈ events →
      (∀ n, q.nextId = some n → id < n) ∧
      (∀ key queued, q'.entries.lookup (.data key) = some queued → queued.ticket.id = id →
        queued.ticket.work.isNotify = true) ∧
      ∀ t r, tasks'.lookup t = some (.replay r) → r.pc.mayStore = true → r.ticket.id ≠ id)
    (hsafe : SafeHistory (events ++ history)) : TicketInv q' tasks' (events ++ history) where
  queuedBelow := fun n _ queued' hn hlookup => by
    obtain ⟨queued, hold, hid, -⟩ := hqueue.entries _ queued' hlookup
    obtain ⟨m, hm, hle⟩ := hqueue.nextId n hn
    exact hid ▸ (h.queuedBelow m _ queued hm hold).trans_le hle
  replayBelow := fun n t r' hn ht => by
    obtain ⟨r, hr, hticket, -⟩ := htasks t r' ht
    obtain ⟨m, hm, hle⟩ := hqueue.nextId n hn
    exact hticket ▸ (h.replayBelow m t r hm hr).trans_le hle
  notifiedBelow := fun n key id hn hmem => by
    obtain ⟨m, hm, hle⟩ := hqueue.nextId n hn
    rcases List.mem_append.mp hmem with hnew | hold
    · exact ((hnotified key id hnew).1 m hm).trans_le hle
    · exact (h.notifiedBelow m key id hm hold).trans_le hle
  distinct := fun key key' queued queued' hlookup hlookup' hid => by
    obtain ⟨old, hold, hsame, -⟩ := hqueue.entries key queued hlookup
    obtain ⟨old', hold', hsame', -⟩ := hqueue.entries key' queued' hlookup'
    exact h.distinct key key' old old' hold hold' (hsame.symm.trans (hid.trans hsame'))
  sameKey := fun t r' key queued' ht hlookup hid => by
    obtain ⟨r, hr, hticket, hitem, -⟩ := htasks t r' ht
    obtain ⟨queued, hold, hsame, -⟩ := hqueue.entries key queued' hlookup
    exact hitem ▸ h.sameKey t r key queued hr hold (hticket ▸ hsame.symm.trans hid)
  own := fun _ queued' hlookup => by
    obtain ⟨queued, hold, -, hfence, -⟩ := hqueue.entries _ queued' hlookup
    obtain ⟨f, hf, hown⟩ := h.own _ queued hold
    exact ⟨f, hfence.trans hf, hown.grow events⟩
  ownReplay := fun t r' ht => by
    obtain ⟨r, hr, hticket, hitem, -⟩ := htasks t r' ht
    obtain ⟨f, hf, hown⟩ := h.ownReplay t r hr
    exact ⟨f, hticket ▸ hf, hitem ▸ hown.grow events⟩
  inFlight := fun t r' queued' ht hlive hlookup hid => by
    obtain ⟨r, hr, hticket, hitem, -, hlives, -⟩ := htasks t r' ht
    obtain ⟨queued, hold, hsame, -, -, hstate⟩ := hqueue.entries _ queued' hlookup
    have hid' : queued.ticket.id = r.ticket.id := hticket ▸ hsame.symm.trans hid
    rcases hstate with hstate | hnobody
    · exact hstate.trans (h.inFlight t r queued hr (hlives hlive) (hitem ▸ hold) hid')
    · exact absurd (hid.symm.trans hsame) (hnobody t r' ht hlive)
  alone := fun t u r r' ht hu hlive hlive' hid => by
    obtain ⟨old, hold, hticket, -, -, hlives, -⟩ := htasks t r ht
    obtain ⟨old', hold', hticket', -, -, hlives', -⟩ := htasks u r' hu
    exact h.alone t u old old' hold hold' (hlives hlive) (hlives' hlive') (hticket ▸ hticket' ▸ hid)
  unnotified := fun _ queued' hlookup hwork k hmem => by
    obtain ⟨queued, hold, hid, -, hnotify, -⟩ := hqueue.entries _ queued' hlookup
    rcases List.mem_append.mp hmem with hnew | hmem
    · have hreduced := (hnotified k _ hnew).2.1 _ queued' hlookup rfl
      rw [hwork] at hreduced
      cases hreduced
    · exact h.unnotified _ queued hold (hnotify hwork) k (hid ▸ hmem)
  unnotifiedReplay := fun t r' ht hmay hmutation k hmem => by
    obtain ⟨r, hr, hticket, -, hsame, -, hmays, -⟩ := htasks t r' ht
    rcases List.mem_append.mp hmem with hnew | hmem
    · exact (hnotified k _ hnew).2.2 t r' ht hmay rfl
    · exact h.unnotifiedReplay t r hr (hmays hmay) (hsame ▸ hmutation) k (hticket ▸ hmem)
  storing := fun t r' ht hstores => by
    obtain ⟨r, hr, -, -, hsame, -, -, hstored⟩ := htasks t r' ht
    rw [hsame]
    rcases hstored hstores with hold | hnotify
    · exact h.storing t r hr hold
    · exact hnotify
  safe := hsafe

/-- Events without a word about tickets. -/
theorem evolve_note (h : TicketInv q tasks history) (events : List (Event K))
    (hqueue : Evolves tasks' q q') (htasks : Weaker tasks tasks')
    (hevents : ∀ e ∈ events, e.isTicket = false) :
    TicketInv q' tasks' (events ++ history) :=
  h.evolve events hqueue htasks (fun _ _ hmem => by cases hevents _ hmem)
    (h.safe.grow fun _ _ _ hmem => by cases hevents _ hmem)

/-- A mutation enqueues under its own fence: a new identity, pending, known to no replay. -/
theorem enqueued (h : TicketInv q tasks history) (htasks : Weaker tasks tasks') {id : RecoveryId}
    {queued : Queued K V M} {item : RecoveryItem K} {mutation : PendingMutation K V} {fence : Fence}
    (hid : q.nextId = some id) (hnext : ∀ n, q'.nextId = some n → n = id + 1)
    (hticket : queued.ticket.id = id ∧ queued.ticket.work = .data item mutation ∧
      queued.ticket.fence = some fence)
    (hlookup : q'.entries.lookup (.data item.key) = some queued)
    (hothers : ∀ other old, other ≠ .data item.key → q'.entries.lookup other = some old →
      q.entries.lookup other = some old)
    (hown : Own item.key fence history) :
    TicketInv q' tasks'
      ((if mutation.isNotify then [.notified item.key id] else []) ++ history) := by
  obtain ⟨hqid, hwork, hfence⟩ := hticket
  -- A ticket of the new queue is the new one, or an old one with a smaller identity.
  have hcases {key : K} {found : Queued K V M}
      (hfound : q'.entries.lookup (.data key) = some found) :
      (key = item.key ∧ found = queued) ∨
        (key ≠ item.key ∧ q.entries.lookup (.data key) = some found ∧ found.ticket.id < id) := by
    by_cases hkey : key = item.key
    · subst hkey
      exact .inl ⟨rfl, Option.some.inj (hfound.symm.trans hlookup)⟩
    · have hold := hothers _ found (fun heq => hkey (RecoveryKey.data.inj heq)) hfound
      exact .inr ⟨hkey, hold, h.queuedBelow id key found hid hold⟩
  have hreplay {t : TaskId} {r' : Replay K V M} (ht : tasks'.lookup t = some (.replay r')) :
      r'.ticket.id < id := by
    obtain ⟨r, hr, hticket, -⟩ := htasks t r' ht
    exact hticket ▸ h.replayBelow id t r hid hr
  have hmem {k : K} {n : RecoveryId}
      (hn : .notified k n ∈
        (if mutation.isNotify then [.notified item.key id] else []) ++ history) :
      (n = id ∧ mutation.isNotify = true) ∨ .notified k n ∈ history := by
    rcases List.mem_append.mp hn with hn | hn
    · split at hn
      · rename_i hnotify
        cases List.mem_singleton.mp hn
        exact .inl ⟨rfl, hnotify⟩
      · cases hn
    · exact .inr hn
  refine ⟨fun n key found hn hfound => ?_, fun n t r' hn ht => ?_, fun n key id' hn hnotified => ?_,
    fun key key' found found' hfound hfound' hsame => ?_,
    fun t r' key found ht hfound hsame => ?_, fun key found hfound => ?_, fun t r' ht => ?_,
    fun t r' found ht hlive hfound hsame => ?_, fun t u r r' ht hu hlive hlive' hsame => ?_,
    fun key found hfound hreduced k hnotified => ?_,
    fun t r' ht hmay hmutation k hnotified => ?_, fun t r' ht hstores => ?_, ?_⟩
  · obtain rfl := hnext n hn
    rcases hcases hfound with ⟨-, rfl⟩ | ⟨-, -, hlt⟩
    · exact hqid ▸ Nat.lt_succ_self _
    · exact hlt.trans (Nat.lt_succ_self id)
  · obtain rfl := hnext n hn
    exact (hreplay ht).trans (Nat.lt_succ_self id)
  · obtain rfl := hnext n hn
    rcases hmem hnotified with ⟨rfl, -⟩ | hold
    · exact Nat.lt_succ_self _
    · exact (h.notifiedBelow id key id' hid hold).trans (Nat.lt_succ_self id)
  · rcases hcases hfound with ⟨rfl, rfl⟩ | ⟨-, hold, hlt⟩
    · rcases hcases hfound' with ⟨rfl, -⟩ | ⟨-, -, hlt'⟩
      · rfl
      · exact absurd (hsame.symm.trans hqid) hlt'.ne
    · rcases hcases hfound' with ⟨-, rfl⟩ | ⟨-, hold', -⟩
      · exact absurd (hsame.trans hqid) hlt.ne
      · exact h.distinct key key' found found' hold hold' hsame
  · rcases hcases hfound with ⟨-, rfl⟩ | ⟨-, hold, -⟩
    · exact absurd (hsame.symm.trans hqid) (hreplay ht).ne
    · obtain ⟨r, hr, hrticket, hitem, -⟩ := htasks t r' ht
      exact hitem ▸ h.sameKey t r key found hr hold (hrticket ▸ hsame)
  · rcases hcases hfound with ⟨rfl, rfl⟩ | ⟨-, hold, -⟩
    · exact ⟨fence, hfence, hown.grow _⟩
    · obtain ⟨f, hf, hfown⟩ := h.own key found hold
      exact ⟨f, hf, hfown.grow _⟩
  · obtain ⟨r, hr, hrticket, hitem, -⟩ := htasks t r' ht
    obtain ⟨f, hf, hfown⟩ := h.ownReplay t r hr
    exact ⟨f, hrticket ▸ hf, hitem ▸ hfown.grow _⟩
  · rcases hcases hfound with ⟨-, rfl⟩ | ⟨-, hold, -⟩
    · exact absurd (hsame.symm.trans hqid) (hreplay ht).ne
    · obtain ⟨r, hr, hrticket, hitem, -, hlives, -⟩ := htasks t r' ht
      exact h.inFlight t r found hr (hlives hlive) (hitem ▸ hold) (hrticket ▸ hsame)
  · obtain ⟨old, hold, hrticket, -, -, hlives, -⟩ := htasks t r ht
    obtain ⟨old', hold', hrticket', -, -, hlives', -⟩ := htasks u r' hu
    exact h.alone t u old old' hold hold' (hlives hlive) (hlives' hlive')
      (hrticket ▸ hrticket' ▸ hsame)
  · rcases hcases hfound with ⟨-, rfl⟩ | ⟨-, hold, hlt⟩
    · rcases hmem hnotified with ⟨-, hnotify⟩ | hmem
      · rw [hwork] at hreduced
        exact absurd (hnotify.symm.trans hreduced) (by decide)
      · exact absurd hqid (h.notifiedBelow id k _ hid hmem).ne
    · rcases hmem hnotified with ⟨heq, -⟩ | hmem
      · exact absurd heq hlt.ne
      · exact h.unnotified key found hold hreduced k hmem
  · obtain ⟨r, hr, hrticket, -, hmut, -, hmays, -⟩ := htasks t r' ht
    rcases hmem hnotified with ⟨heq, -⟩ | hmem
    · exact absurd heq (hreplay ht).ne
    · exact h.unnotifiedReplay t r hr (hmays hmay) (hmut ▸ hmutation) k (hrticket ▸ hmem)
  · obtain ⟨r, hr, -, -, hmut, -, -, hstored⟩ := htasks t r' ht
    rw [hmut]
    rcases hstored hstores with hold | hnotify
    · exact h.storing t r hr hold
    · exact hnotify
  · refine h.safe.grow fun key id' fence' hmem => ?_
    split at hmem
    · cases List.mem_singleton.mp hmem
    · cases hmem

/-- A claim marks the ticket, and its replay begins. -/
theorem claim (h : TicketInv q tasks history) {t : TaskId} (ht : tasks.lookup t = none) {key : K}
    {queued : Queued K V M} {item : RecoveryItem K} {mutation : PendingMutation K V}
    (hlookup : q.entries.lookup (.data key) = some queued) (hstate : queued.state = .pending)
    (hwork : queued.ticket.work = .data item mutation) (hkey : item.key = key) :
    TicketInv (q.put (.data key) { queued with state := .inFlight })
      (tasks.insert t (.replay ⟨queued.ticket, item, mutation, hwork, .claimed⟩)) history := by
  subst hkey
  have hcases {k : K} {found : Queued K V M}
      (hfound : (q.put (.data item.key) { queued with state := .inFlight }).entries.lookup (.data k)
        = some found) :
      (k = item.key ∧ found = { queued with state := .inFlight }) ∨
        (k ≠ item.key ∧ q.entries.lookup (.data k) = some found) := by
    rw [Queue.lookup_put] at hfound
    split at hfound
    · rename_i heq
      exact .inl ⟨RecoveryKey.data.inj heq, (Option.some.inj hfound).symm⟩
    · rename_i hne
      exact .inr ⟨fun heq => hne (congrArg _ heq), hfound⟩
  have holder {k : K} {found : Queued K V M}
      (hfound : (q.put (.data item.key) { queued with state := .inFlight }).entries.lookup (.data k)
        = some found) :
      ∃ old, q.entries.lookup (.data k) = some old ∧ found.ticket = old.ticket := by
    rcases hcases hfound with ⟨rfl, rfl⟩ | ⟨-, hold⟩
    · exact ⟨queued, hlookup, rfl⟩
    · exact ⟨found, hold, rfl⟩
  have htask {u : TaskId} {r : Replay K V M}
      (hu : (tasks.insert t (.replay ⟨queued.ticket, item, mutation, hwork, .claimed⟩)).lookup u
        = some (.replay r)) :
      (u = t ∧ r = ⟨queued.ticket, item, mutation, hwork, .claimed⟩) ∨
        (u ≠ t ∧ tasks.lookup u = some (.replay r)) := by
    exact (AList.lookup_insert_cases hu).imp_left fun ⟨hut, heq⟩ => ⟨hut, Task.replay.inj heq⟩
  -- Nobody else is replaying the ticket: it was pending.
  have hnobody {u : TaskId} {r : Replay K V M} (hu : tasks.lookup u = some (.replay r))
      (hlive : r.pc.live = true) : queued.ticket.id ≠ r.ticket.id := fun hsame => by
    have hrkey := h.sameKey u r item.key queued hu hlookup hsame
    have hflight := h.inFlight u r queued hu hlive (hrkey ▸ hlookup) hsame
    rw [hstate] at hflight
    cases hflight
  refine ⟨fun n k found hn hfound => ?_, fun n u r hn hu => ?_,
    fun n k id hn hmem => h.notifiedBelow n k id hn hmem,
    fun k k' found found' hfound hfound' hsame => ?_,
    fun u r k found hu hfound hsame => ?_, fun k found hfound => ?_, fun u r hu => ?_,
    fun u r found hu hlive hfound hsame => ?_, fun u v r r' hu hv hlive hlive' hsame => ?_,
    fun k found hfound hreduced k' hmem => ?_, fun u r hu hmay hmutation k hmem => ?_,
    fun u r hu hstores => ?_, h.safe⟩
  · obtain ⟨old, hold, hsame⟩ := holder hfound
    exact hsame ▸ h.queuedBelow n k old hn hold
  · rcases htask hu with ⟨-, rfl⟩ | ⟨-, hold⟩
    · exact h.queuedBelow n item.key queued hn hlookup
    · exact h.replayBelow n u r hn hold
  · obtain ⟨old, hold, htick⟩ := holder hfound
    obtain ⟨old', hold', htick'⟩ := holder hfound'
    exact h.distinct k k' old old' hold hold' (htick ▸ htick' ▸ hsame)
  · obtain ⟨old, hold, htick⟩ := holder hfound
    rcases htask hu with ⟨-, rfl⟩ | ⟨-, hr⟩
    · exact h.distinct k item.key old queued hold hlookup (htick ▸ hsame)
    · exact h.sameKey u r k old hr hold (htick ▸ hsame)
  · obtain ⟨old, hold, htick⟩ := holder hfound
    exact htick ▸ h.own k old hold
  · rcases htask hu with ⟨-, rfl⟩ | ⟨-, hold⟩
    · exact h.own item.key queued hlookup
    · exact h.ownReplay u r hold
  · rcases hcases hfound with ⟨-, rfl⟩ | ⟨hne, hold⟩
    · rfl
    · rcases htask hu with ⟨-, rfl⟩ | ⟨-, hr⟩
      · exact absurd rfl hne
      · exact h.inFlight u r found hr hlive hold hsame
  · rcases htask hu with ⟨rfl, rfl⟩ | ⟨-, hr⟩
    · rcases htask hv with ⟨rfl, -⟩ | ⟨-, hr'⟩
      · rfl
      · exact absurd hsame (hnobody hr' hlive')
    · rcases htask hv with ⟨-, rfl⟩ | ⟨-, hr'⟩
      · exact absurd hsame.symm (hnobody hr hlive)
      · exact h.alone u v r r' hr hr' hlive hlive' hsame
  · obtain ⟨old, hold, htick⟩ := holder hfound
    exact h.unnotified k old hold (htick ▸ hreduced) k' (htick ▸ hmem)
  · rcases htask hu with ⟨-, rfl⟩ | ⟨-, hr⟩
    · refine h.unnotified item.key queued hlookup ?_ k hmem
      rw [hwork]
      exact hmutation
    · exact h.unnotifiedReplay u r hr hmay hmutation k hmem
  · rcases htask hu with ⟨-, rfl⟩ | ⟨-, hr⟩
    · cases hstores
    · exact h.storing u r hr hstores

/-- A ticket that is put back as it was, but for its state, its budget or its remaining stage. -/
theorem evolves_put {ops : MarkerWork M R} {ticket : ReplayTicket K V M}
    {queued queued' : Queued K V M}
    (hfind : q.find ops ticket = some queued) (hid : queued'.ticket.id = queued.ticket.id)
    (hfence : queued'.ticket.fence = queued.ticket.fence)
    (hwork : queued'.ticket.work.isNotify = false → queued.ticket.work.isNotify = false)
    (hstate : queued'.state = queued.state ∨ ∀ t r, tasks'.lookup t = some (.replay r) →
      r.pc.live = true → r.ticket.id ≠ queued.ticket.id) :
    Evolves tasks' q (q.put (ticket.work.key ops) queued') where
  entries := fun key found hfound => by
    rw [Queue.lookup_put] at hfound
    split at hfound
    · rename_i hkey
      obtain rfl := Option.some.inj hfound
      exact ⟨queued, hkey ▸ (Queue.find_eq_some.mp hfind).1, hid, hfence, hwork, hstate⟩
    · exact ⟨found, hfound, rfl, rfl, id, .inl rfl⟩
  nextId := fun n hn => ⟨n, hn, Nat.le_refl n⟩

theorem evolves_settled {ops : MarkerWork M R} {ticket : ReplayTicket K V M}
    {outcome : ReplayOutcome}
    (hnobody : ∀ t r, tasks'.lookup t = some (.replay r) → r.pc.live = true →
      r.ticket.id ≠ ticket.id) : Evolves tasks' q (settled ops q ticket outcome) := by
  have hput {queued queued' : Queued K V M} (hfind : q.find ops ticket = some queued)
      (hticket : queued'.ticket = queued.ticket) :
      Evolves tasks' q (q.put (ticket.work.key ops) queued') := by
    refine evolves_put hfind (by rw [hticket]) (by rw [hticket]) (by rw [hticket]; exact id)
      (.inr fun t r ht hlive => ?_)
    rw [(Queue.find_eq_some.mp hfind).2]
    exact hnobody t r ht hlive
  cases outcome with
  | paused =>
    simp only [settled, Queue.unclaim]
    split
    · exact .of_keeps (.refl q)
    · rename_i hfind
      exact hput hfind rfl
  | failed =>
    simp only [settled, Queue.recordFailure]
    split
    · exact .of_keeps (.refl q)
    · rename_i hfind
      split
      · exact .of_keeps (q.remove_keeps _)
      · exact .of_keeps (q.remove_keeps _)
      · exact hput hfind rfl
      · exact hput hfind rfl
  | applied | superseded | expired => exact .of_keeps (q.complete_keeps ticket)

theorem isNotify_of_notification {ops : MarkerWork M R} {work work' : RecoveryWork K V M}
    (h : work.notification ops = some work') : work'.isNotify = true ∨ ∃ m, work' = .marker m := by
  unfold RecoveryWork.notification at h
  split at h
  · obtain rfl := Option.some.inj h
    exact .inl rfl
  · obtain rfl := Option.some.inj h
    exact .inl rfl
  · obtain rfl := Option.some.inj h
    exact .inl rfl
  · cases h
  · obtain ⟨m, -, rfl⟩ := Option.map_eq_some_iff.mp h
    exact .inr ⟨m, rfl⟩

theorem evolves_notificationStage {ops : MarkerWork M R} {ticket : ReplayTicket K V M} (key : K)
    (hkeyed : ∀ queued, q.find ops ticket = some queued → queued.ticket.work.key ops = .data key) :
    Evolves tasks' q (q.notificationStage ops ticket) := by
  unfold Queue.notificationStage
  split
  · exact .of_keeps (.refl q)
  · rename_i queued hfind
    split
    · exact .of_keeps (.refl q)
    · rename_i work hwork
      refine evolves_put hfind rfl rfl (fun hreduced => ?_) (.inl rfl)
      rcases isNotify_of_notification hwork with hnotify | ⟨m, rfl⟩
      · exact absurd (hnotify.symm.trans hreduced) (by decide)
      · -- What is left of data work is data work.
        have hkey := Queue.notification_key hwork (hkeyed queued hfind)
        cases hkey

/-- One step of the replay of a ticket. -/
theorem replay (h : TicketInv sh.queue tasks sh.history) {t : TaskId} {r : Replay K V M}
    {pc' : ReplayPc K V} (ht : tasks.lookup t = some (.replay r))
    (hkeyed : ∀ key queued, sh.queue.entries.lookup (.data key) = some queued →
      queued.ticket.work.key cfg.markerWork = .data key)
    (hcleared : r.pc.stores = true → ∀ f, r.ticket.fence = some f →
      Unadmitted sh.history r.item.key f)
    (hmove : ReplayMove cfg.markerWork sh r sh' pc') :
    TicketInv sh'.queue (tasks.insert t (.replay { r with pc := pc' })) sh'.history := by
  have hweaker (hlive : pc'.live = true → r.pc.live = true)
      (hmay : pc'.mayStore = true → r.pc.mayStore = true)
      (hstores : pc'.stores = true → r.pc.stores = true ∨ r.mutation.isNotify = false) :
      Weaker tasks (tasks.insert t (.replay { r with pc := pc' })) :=
    .insert fun r' heq => by
      obtain rfl := Task.replay.inj heq
      exact ⟨r, ht, rfl, rfl, rfl, hlive, hmay, hstores⟩
  have hstores_may {pc : ReplayPc K V} (h : pc.mayStore = false) : ¬ pc.stores = true := by
    cases pc with
    | store => cases h
    | _ => exact fun h => by cases h
  -- Once `t` may store no more, nobody stores for its identity.
  have hnobody (hlive : r.pc.live = true) {P : ReplayPc K V → Bool}
      (hP : ∀ pc, P pc = true → pc.live = true) (hpc' : P pc' = false) :
      ∀ u r', (tasks.insert t (.replay { r with pc := pc' })).lookup u = some (.replay r') →
        P r'.pc = true → r'.ticket.id ≠ r.ticket.id := fun u r' hu hr' hsame => by
    rcases AList.lookup_insert_cases hu with ⟨rfl, heq⟩ | ⟨hne, hu⟩
    · obtain rfl := Task.replay.inj heq
      rw [hpc'] at hr'
      cases hr'
    · exact hne (h.alone u t r' r hu ht (hP _ hr') hlive hsame)
  have hmay_live (pc : ReplayPc K V) (h : pc.mayStore = true) : pc.live = true := by
    cases pc with
    | done => cases h
    | _ => rfl
  cases hmove with
  | quiet hqueue hhistory hlive hmay hstores =>
    rw [hqueue, hhistory]
    exact h.evolve_note [] (.of_keeps (.refl _))
      (hweaker (fun _ => hlive) hmay fun h => .inr (hstores h)) fun _ h => by cases h
  | stored hqueue hhistory hstores hmay =>
    rw [hqueue, hhistory]
    have hlive : r.pc.live = true := by
      revert hstores
      cases r.pc with
      | store => exact fun _ => rfl
      | _ => exact fun h => by cases h
    refine h.evolve [.replayed r.item.key r.ticket.id r.ticket.fence]
      (.of_keeps (.refl _)) (hweaker (fun _ => hlive) (fun h => by rw [hmay] at h; cases h)
        fun _ => .inl hstores) (fun k id hmem => by cases List.mem_singleton.mp hmem)
      (h.safe.cons fun key id fence heq => ?_)
    cases heq
    obtain ⟨f, hf, hown⟩ := h.ownReplay t r ht
    obtain ⟨between, task, before, hsplit, hmark, hnone⟩ := hown.last (hcleared hstores f hf)
    have hmayStore : r.pc.mayStore = true := by
      revert hstores
      cases r.pc with
      | store => exact fun _ => rfl
      | _ => exact fun h => by cases h
    exact ⟨⟨f, between, task, before, hf, hsplit, hmark, hnone⟩,
      h.unnotifiedReplay t r ht hmayStore (h.storing t r ht hstores)⟩
  | staged hqueue hhistory hlive hmay =>
    have hevolves : Evolves (tasks.insert t (.replay { r with pc := pc' })) sh.queue sh'.queue := by
      rw [hqueue]
      refine evolves_notificationStage r.item.key fun queued hfind => ?_
      have hlookup := (Queue.find_eq_some.mp hfind).1
      rw [r.isData] at hlookup
      exact hkeyed r.item.key queued hlookup
    have hweak := hweaker (fun _ => hlive) (fun h => by rw [hmay] at h; cases h)
      fun h => absurd h (hstores_may hmay)
    rcases hhistory with hhistory | ⟨⟨queued, hfind, hnotify⟩, hhistory⟩
    · rw [hhistory]
      exact h.evolve_note [] hevolves hweak fun _ h => by cases h
    · rw [hhistory]
      obtain ⟨hlookup, hid⟩ := Queue.find_eq_some.mp hfind
      rw [r.isData] at hlookup
      refine h.evolve [.notified r.item.key r.ticket.id] hevolves hweak
        (fun k id hmem => ?_) (h.safe.cons fun key id fence heq => by cases heq)
      cases List.mem_singleton.mp hmem
      refine ⟨fun n hn => h.replayBelow n t r hn ht, fun key found hfound hsame => ?_,
        hnobody hlive hmay_live hmay⟩
      -- The one ticket with this identity is the one that was reduced.
      obtain ⟨old, hold, hidold, -⟩ := hevolves.entries key found hfound
      obtain ⟨old', hold', hidold', -⟩ := hevolves.entries r.item.key queued hlookup
      have hkey : key = r.item.key := h.distinct key r.item.key old old' hold hold'
        (hidold.symm.trans (hsame.trans (hid.symm.trans hidold')))
      subst hkey
      obtain rfl := Option.some.inj (hfound.symm.trans hlookup)
      exact hnotify
  | settled outcome hlive hqueue hhistory hpc =>
    rw [hqueue, hhistory]
    subst hpc
    exact h.evolve_note [] (evolves_settled (hnobody hlive (fun _ h => h) rfl))
      (hweaker (fun h => by cases h) (fun h => by cases h) fun h => by cases h)
      fun _ h => by cases h

/-- A task that is no replay, or comes to be none. -/
theorem weaker_of_not_replay {t : TaskId} {task' : Task K V M} (h : ∀ r, task' ≠ .replay r) :
    Weaker tasks (tasks.insert t task') :=
  .insert fun r' heq => absurd heq (h r')

theorem next (hinv : FenceInv cfg s)
    (hown : ∀ t m fence command pc, s.tasks.lookup t = some (.mutation m) →
      m.pc = .admitted fence command pc → Own m.key fence s.shared.history)
    (h : TicketInv s.shared.queue s.tasks s.shared.history) {a : Action K V M R}
    (hnext : next cfg s a = some s') : TicketInv s'.shared.queue s'.tasks s'.shared.history := by
  have hsame {q' : Queue K V M R} (hqueue : Evolves s.tasks s.shared.queue q') :
      TicketInv q' s.tasks s.shared.history :=
    h.evolve_note [] hqueue (.refl s.tasks) fun _ h => by cases h
  have hid : Evolves s.tasks s.shared.queue s.shared.queue := .of_keeps (.refl _)
  cases a with
  | start t begun =>
    simp only [Hybrid.next] at hnext
    split at hnext
    · cases hnext
    · rename_i hok
      cases hnext
      simp only [Bool.not_eq_true', not_or, Bool.not_eq_false] at hok
      refine h.evolve_note [] (.of_keeps (.refl _))
        (weaker_of_not_replay fun r heq => ?_) fun _ h => by cases h
      subst heq
      cases hok.2
  | claim t key =>
    simp only [Hybrid.next] at hnext
    split at hnext
    · cases hnext
    · rename_i hnew
      split at hnext
      · cases hnext
      · rename_i ticket queue hclaim
        obtain ⟨queued, hlookup, rfl, hstate, rfl⟩ := Queue.claim_eq_some hclaim
        split at hnext
        · cases hnext
        · rename_i item mutation hwork
          cases hnext
          have hkey : item.key = key := by
            have hkeyed := hinv.lanes.keyed key queued hlookup
            rw [hwork] at hkeyed
            exact RecoveryKey.data.inj hkeyed
          exact h.claim (AList.lookup_eq_none.mpr hnew) hlookup hstate hwork hkey
  | step t input =>
    simp only [Hybrid.next] at hnext
    split at hnext
    · cases hnext
    · rename_i current ht
      obtain ⟨⟨stepped, shared⟩, hstep, heq⟩ := Option.map_eq_some_iff.mp hnext
      cases heq
      have hother {snapshots : List Snapshot} {key : K} (hreplay : ∀ r, stepped ≠ .replay r)
          (hqueue : QueueMove s.shared key snapshots shared)
          (hfence : ∀ fence : Fence, fence.toSnapshot ∈ snapshots →
            Own key fence s.shared.history) :
          TicketInv shared.queue (s.tasks.insert t stepped) shared.history := by
        cases hqueue with
        | keeps hkeeps hhistory hevents =>
          rw [hhistory]
          exact h.evolve_note _ (.of_keeps hkeeps) (weaker_of_not_replay hreplay) hevents
        | admitted hid hnextId hticket hkey hmem _ hlookup hothers hhistory =>
          subst hkey
          rw [hhistory]
          exact h.enqueued (weaker_of_not_replay hreplay) hid hnextId hticket hlookup hothers
            (hfence _ hmem)
      cases current with
      | mutation m =>
        obtain ⟨⟨m', sh'⟩, hmutation, heq⟩ := Option.map_eq_some_iff.mp hstep
        cases heq
        rcases queueMove_of_stepMutation hmutation with hqueue | ⟨fence, command, pc, hpc, hqueue⟩
        · exact hother (fun _ heq => by cases heq) hqueue fun _ hmem => by cases hmem
        · refine hother (fun _ heq => by cases heq) hqueue fun fence' hmem => ?_
          -- The snapshots of the two fences are one, so their marks are.
          obtain ⟨later, task, earlier, hsplit, hmark⟩ := hown t m fence command pc ht hpc
          have hsnapshot := congrArg Snapshot.mark (List.mem_singleton.mp hmem)
          exact ⟨later, task, earlier, hsplit, hsnapshot.trans hmark⟩
      | incoming i =>
        obtain ⟨⟨pc', sh'⟩, hincoming, heq⟩ := Option.map_eq_some_iff.mp hstep
        cases heq
        have hqueue : QueueMove s.shared i.message.key [] _ := incoming_queue hincoming
        exact hother (fun _ heq => by cases heq) hqueue fun _ hmem => by cases hmem
      | hydration hy =>
        obtain ⟨⟨pc', sh'⟩, hhydration, heq⟩ := Option.map_eq_some_iff.mp hstep
        cases heq
        exact hother (fun _ heq => by cases heq) (hydration_move hhydration).2
          fun _ hmem => by cases hmem
      | replay r =>
        obtain ⟨⟨pc', sh'⟩, hreplay, heq⟩ := Option.map_eq_some_iff.mp hstep
        cases heq
        refine h.replay ht hinv.lanes.keyed (fun hstores f hf => ?_)
          (replayMove_of_stepReplay hreplay)
        have hclearance : (Task.replay r : Task K V M).clearance = some f := by
          obtain ⟨ticket, item, mutation, isData, pc⟩ := r
          cases pc with
          | store => exact hf
          | _ => cases hstores
        have hview : (Task.replay r : Task K V M).view.key = r.item.key := by
          obtain ⟨ticket, item, mutation, isData, pc⟩ := r
          cases pc <;> rfl
        exact hview ▸ hinv.unadmitted t _ f ht hclearance
  | drop t =>
    simp only [Hybrid.next] at hnext
    split at hnext
    · cases hnext
    · rename_i current ht
      cases hnext
      refine h.evolve_note [] (.of_keeps (.refl _)) ?_ fun _ h => by cases h
      cases current with
      | mutation m =>
        obtain ⟨key, opts, fenced, origin, pc⟩ := m
        cases pc <;> exact weaker_of_not_replay fun _ heq => by cases heq
      | incoming i | hydration i => exact weaker_of_not_replay fun _ heq => by cases heq
      | replay r =>
        refine .insert fun r' heq => ⟨r, ht, ?_⟩
        obtain ⟨ticket, item, mutation, isData, pc⟩ := r
        cases pc with
        | settle outcome => cases heq; exact ⟨rfl, rfl, rfl, id, id, .inl⟩
        | done => cases heq; exact ⟨rfl, rfl, rfl, id, id, .inl⟩
        | _ =>
          cases heq
          exact ⟨rfl, rfl, rfl, fun _ => rfl, fun h => (by cases h), fun h => (by cases h)⟩
  | memoryOp op =>
    simp only [Hybrid.next] at hnext
    split at hnext
    · obtain ⟨memory, -, heq⟩ := Option.map_eq_some_iff.mp hnext
      cases heq
      exact hsame hid
    · cases hnext
  | advanceEpoch =>
    simp only [Hybrid.next] at hnext
    split at hnext
    · cases hnext
      exact h.evolve_note [.epoch] hid (.refl s.tasks) fun e he => by
        rw [List.mem_singleton.mp he]
        rfl
    · cases hnext
  | handOut key =>
    simp only [Hybrid.next] at hnext
    split at hnext
    · cases hnext
    · cases hnext
      exact hsame hid
  | remote key entry | unhold lane | sweep key =>
    cases hnext
    exact hsame hid
  | enqueueMarker work now order =>
    cases hnext
    obtain ⟨hentries, hnextId⟩ := Queue.enqueueWork_marker
      (rfl : (s.shared.queue.enqueueWork cfg.recovery cfg.markerWork now order (.marker work) none
        true).2 = _)
    exact hsame (.of_sub hentries hnextId)
  | dropMarker key =>
    cases hnext
    exact hsame (.of_keeps (s.shared.queue.remove_keeps _))
  | stopRecovery =>
    cases hnext
    exact hsame (.of_sub (fun _ _ h => h) fun n hn => ⟨n, hn, Nat.le_refl n⟩)

theorem init (memory : Memory.State K V) (distributed : AList fun _ : K => Entry V) :
    TicketInv (Hybrid.init memory distributed : State K V M R).shared.queue
      (Hybrid.init memory distributed : State K V M R).tasks [] where
  queuedBelow := fun _ _ _ _ h => by cases h
  replayBelow := fun _ _ _ _ h => by cases h
  notifiedBelow := fun _ _ _ _ h => by cases h
  distinct := fun _ _ _ _ h => by cases h
  sameKey := fun _ _ _ _ h => by cases h
  own := fun _ _ h => by cases h
  ownReplay := fun _ _ h => by cases h
  inFlight := fun _ _ _ h => by cases h
  alone := fun _ _ _ _ h => by cases h
  unnotified := fun _ _ h => by cases h
  unnotifiedReplay := fun _ _ h => by cases h
  storing := fun _ _ h => by cases h
  safe := .nil

end TicketInv

theorem ticketInv_of_reachable {memory : Memory.State K V}
    {distributed : AList fun _ : K => Entry V}
    (hreach : Run.Reachable (Hybrid.next cfg) (Hybrid.init memory distributed) s) :
    TicketInv s.shared.queue s.tasks s.shared.history := by
  refine (hreach.invariant (I := fun s =>
    Run.Reachable (Hybrid.next cfg) (Hybrid.init memory distributed) s ∧
      TicketInv s.shared.queue s.tasks s.shared.history)
    ⟨⟨[], rfl⟩, .init memory distributed⟩ fun s a s' hs hnext => ⟨hs.1.step hnext, ?_⟩).2
  exact hs.2.next (.of_reachable hs.1) (own_of_reachable hs.1) hnext

/-- **Recovery replay.** In every run, a replay that writes to L2 does so under the fence of its
ticket's own mutation, and between the admission of that mutation and the write nothing else was
admitted to the lane of the key; and a ticket that was reduced to its notification is not written
again. At every moment at most one unfinished replay has a ticket. -/
theorem replay_never_overwrites {memory : Memory.State K V}
    {distributed : AList fun _ : K => Entry V}
    (hreach : Run.Reachable (Hybrid.next cfg) (Hybrid.init memory distributed) s) :
    (∀ later key id fence earlier, s.shared.history = later ++ .replayed key id fence :: earlier →
      (∃ f between task before, fence = some f ∧
        earlier = between ++ .admitted key task :: before ∧ f.mark = before.length + 1 ∧
        ∀ u, .admitted key u ∉ between) ∧
      ∀ k, .notified k id ∉ earlier) ∧
    ∀ t u r r', s.tasks.lookup t = some (.replay r) → s.tasks.lookup u = some (.replay r') →
      r.pc.live = true → r'.pc.live = true → r.ticket.id = r'.ticket.id → t = u :=
  have hinv := ticketInv_of_reachable hreach
  ⟨hinv.safe, hinv.alone⟩

/-- The removal of a key fails in L2 and is enqueued, claimed and replayed. -/
def replaying : List (Action Nat Unit Unit Unit) :=
  [.start 0 (.mutation ⟨7, plainOptions, false, none, .getLane .remove⟩), .step 0 (atTen .ok),
    .step 0 (atTen .ok), .step 0 (atTen .ok), .step 0 (atTen .ok), .step 0 (atTen (.failed false)),
    .step 0 (atTen .ok), .step 0 (atTen .ok), .step 0 (atTen .ok), .claim 1 7, .step 1 (atTen .ok),
    .step 1 (atTen .ok), .step 1 (atTen .ok), .step 1 (atTen .ok), .step 1 (atTen .ok),
    .step 1 (atTen .ok), .step 1 (atTen .ok), .step 1 (atTen .ok)]

def retryingConfig : Config Unit Unit := { soloConfig with recovery := ⟨true, none, none⟩ }

theorem replay_never_overwrites_removed :
    ∃ s fence, Run.exec (next retryingConfig) idle replaying = some s ∧
      s.shared.history = [.replayed 7 1 fence, .admitted 7 0] ∧
      ∀ k, .notified k 1 ∉ [Event.admitted 7 0] := by
  have hreach : Run.Reachable (next retryingConfig) idle _ := ⟨replaying, rfl⟩
  have hsafe := (replay_never_overwrites hreach).1 [] 7 (1 : Nat) _ [.admitted 7 0] rfl
  exact ⟨_, _, rfl, rfl, hsafe.2⟩

end Hybrid

end Amalgam
