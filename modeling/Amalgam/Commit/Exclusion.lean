import Amalgam.Commit.Access

/-!
# Amalgam — a commit lane has one owner and serves its waiters in order

The invariant ties the three homes of ownership together. `OwnedBy` relates the word to the
parties, `Sectioned` relates the word to the queue at each point of a critical section, and
`Ledger` relates the queue and the grants to the order of arrival.

* **`lane_safe`** — every reachable lane has at most one owner; its word agrees with its
  queue; grants follow arrivals; nobody is lost, granted twice or left asleep; ownership that
  ends is passed on; no `unreachable!` is reached.
-/

namespace Amalgam

namespace Ordered

/-! ## The invariant -/

/-- The party is inside a critical section of the shard. -/
def Pc.critical : Pc → Bool
  | .loadState | .sawState _ | .push | .unlockClaimed | .unlockWaiting | .pop
  | .storeHandoff _ _ | .grant _ | .unlockHandoff _ | .checkWithdraw | .remove
  | .storeWithdraw | .unlockWithdraw _ => true
  | _ => false

/-- The party is a guard, is handing its ownership on, or is a waiter with a grant. -/
def Pc.owns (granted : Bool) : Pc → Bool
  | .unlockClaimed | .complete | .guard | .release | .lockHandoff | .pop | .storeHandoff _ _
  | .grant _ | .unlockWithdraw true => true
  | .idle | .register | .checkGranted | .lockWithdraw | .checkWithdraw => granted
  | _ => false

def Owns (s : Lane) (p : PartyId) : Prop := (s.party p).pc.owns (s.shared.granted p) = true

/-- `o` is the one owner, and the word is `Free` exactly when there is none. -/
structure OwnedBy (s : Lane) (o : Option PartyId) : Prop where
  owns_iff : ∀ p, Owns s p ↔ o = some p
  free_iff : s.shared.word = GateState.free.toU8 ↔ o = none

def Mutex (s : Lane) : Prop :=
  ∀ p, (s.party p).pc.critical = true ↔ s.shared.shard = some (.party p)

/-- Everybody who queued and did not withdraw was granted, is in the hand of the handoff or
still waits, in the order of arrival. -/
def Ledger (sh : Shared) (inHand : List PartyId) : Prop :=
  sh.arrivals.filter (fun p => p ∉ sh.withdrawn) = sh.grants ++ inHand ++ sh.waiters

def Agrees (sh : Shared) : Prop := sh.word = GateState.queued.toU8 ↔ sh.waiters ≠ []

/-- What holds of the shared state while the holder of the shard is at this point. -/
def Pc.Section (sh : Shared) : Pc → Prop
  | .sawState .queued => sh.word = GateState.queued.toU8 ∧ Agrees sh ∧ Ledger sh []
  | .push => sh.word = GateState.queued.toU8 ∧ Ledger sh []
  | .storeHandoff next state =>
    state = handoffState next sh.queue ∧ (next = none → sh.queue = none)
      ∧ Ledger sh next.toList
  | .grant waiter => Agrees sh ∧ Ledger sh [waiter]
  | .storeWithdraw => sh.word = GateState.queued.toU8 ∧ sh.queue = none ∧ Ledger sh []
  | _ => Agrees sh ∧ Ledger sh []

def Sectioned (s : Lane) : Prop :=
  match s.shared.shard with
  | some (.party p) => (s.party p).pc.Section s.shared
  | _ => Agrees s.shared ∧ Ledger s.shared []

/-- Where a party stands in the history, by its program point. -/
def Standing (sh : Shared) (p : PartyId) (me : Party) : Prop :=
  match me.pc with
  | .absent | .lockEnqueue | .loadState | .sawState _ | .push => p ∉ sh.arrivals
  | .start => me.acquisition = .new ∧ p ∉ sh.arrivals
  | .idle =>
    (me.acquisition = .new ∧ p ∉ sh.arrivals)
      ∨ (me.acquisition = .queued ∧ p ∈ sh.arrivals ∧ p ∉ sh.withdrawn
        ∧ (sh.waker p = true ∨ sh.woken p = true))
  | .unlockWaiting => p ∈ sh.arrivals ∧ p ∉ sh.withdrawn ∧ sh.granted p = false
  | .register | .lockWithdraw | .checkWithdraw =>
    me.acquisition = .queued ∧ p ∈ sh.arrivals ∧ p ∉ sh.withdrawn
  | .checkGranted =>
    me.acquisition = .queued ∧ p ∈ sh.arrivals ∧ p ∉ sh.withdrawn
      ∧ (sh.waker p = true ∨ sh.woken p = true)
  | .complete => me.acquisition = .queued ∧ sh.granted p = true
  | .remove =>
    me.acquisition = .queued ∧ p ∈ sh.arrivals ∧ p ∉ sh.withdrawn ∧ sh.granted p = false
  | .unreachable => False
  | _ => p ∈ sh.arrivals → p ∈ sh.withdrawn ∨ sh.granted p = true

/-- A granted waiter that is not being polled was woken, or is about to be. -/
def Awake (s : Lane) : Prop :=
  ∀ p, s.party p = ⟨.idle, .queued⟩ → s.shared.granted p = true →
    s.shared.woken p = true
      ∨ ∃ q, (s.party q).pc = .unlockHandoff (some p) ∨ (s.party q).pc = .wake p

structure Inv (s : Lane) : Prop where
  closed : ∃ state : GateState, s.shared.word = state.toU8
  owned : ∃ o, OwnedBy s o
  mutex : Mutex s
  entry : s.shared.queue ≠ some []
  nodup : s.shared.arrivals.Nodup
  withdrawn : ∀ p ∈ s.shared.withdrawn, p ∈ s.shared.arrivals
  granted_iff : ∀ p, s.shared.granted p = true ↔ p ∈ s.shared.grants
  sectioned : Sectioned s
  standing : ∀ p, Standing s.shared p (s.party p)
  awake : Awake s

section Steps

variable {s : Lane} {p : PartyId} {me : Party} {sh : Shared}

theorem Inv.section_of_critical (h : Inv s) (hcritical : (s.party p).pc.critical = true) :
    (s.party p).pc.Section s.shared := by
  have hsectioned := h.sectioned
  have hshard := (h.mutex p).mp hcritical
  unfold Sectioned at hsectioned
  rw [hshard] at hsectioned
  exact hsectioned

theorem Inv.exists_ledger (h : Inv s) : ∃ inHand, Ledger s.shared inHand := by
  have hsectioned := h.sectioned
  unfold Sectioned at hsectioned
  split at hsectioned
  · unfold Pc.Section at hsectioned
    split at hsectioned
    · exact ⟨_, hsectioned.2.2⟩
    · exact ⟨_, hsectioned.2⟩
    · exact ⟨_, hsectioned.2.2⟩
    · exact ⟨_, hsectioned.2⟩
    · exact ⟨_, hsectioned.2.2⟩
    · exact ⟨_, hsectioned.2⟩
  · exact ⟨_, hsectioned.2⟩

theorem Inv.granted_of_not_arrived (h : Inv s) (hp : p ∉ s.shared.arrivals) :
    s.shared.granted p = false := by
  obtain ⟨inHand, hledger⟩ := h.exists_ledger
  rw [← Bool.not_eq_true, h.granted_iff]
  intro hmem
  have hfiltered : p ∈ s.shared.arrivals.filter (fun q => q ∉ s.shared.withdrawn) := by
    rw [hledger]
    simp [hmem]
  exact hp (List.mem_of_mem_filter hfiltered)

/-- A party that queued, did not withdraw and was not granted waits, outside the critical
sections if the shard is held by another. -/
theorem Inv.pc_of_waiting (h : Inv s) {q : PartyId} (hq : s.shared.shard ≠ some (.party q))
    (harrived : q ∈ s.shared.arrivals) (hwithdrawn : q ∉ s.shared.withdrawn)
    (hgranted : s.shared.granted q = false) :
    (s.party q).pc = .idle ∨ (s.party q).pc = .register ∨ (s.party q).pc = .checkGranted
      ∨ (s.party q).pc = .lockWithdraw := by
  have hstanding := h.standing q
  have hcritical : (s.party q).pc.critical = false := by
    rw [← Bool.not_eq_true, h.mutex q]
    exact hq
  cases hpc : (s.party q).pc <;>
    simp_all [Standing, Pc.critical]

/-- No party comes to an `unreachable!`. -/
theorem Inv.pc_ne_unreachable (h : Inv s) (hacc : Access p (s.party p) s.shared me sh) :
    me.pc ≠ .unreachable := by
  have hstanding := h.standing p
  have hmutex := h.mutex p
  have hsectioned := h.sectioned
  generalize hme : s.party p = old at hacc
  generalize hsh : s.shared = osh at hacc
  rw [hme, hsh] at hstanding
  rw [hme, hsh] at hmutex
  cases hacc with
  | startUnreachable hnew => exact absurd hstanding.1 hnew
  | completeUnreachable hqueued => exact absurd hstanding.1 hqueued
  | stateUnreachable hstate =>
    obtain ⟨state, hword⟩ := h.closed
    exact absurd (hsh ▸ hword) (hstate state)
  | removeUnreachable hmem =>
    -- a waiter that was not granted and did not withdraw is in the queue
    obtain ⟨-, harrived, hnot, hgranted⟩ := hstanding
    have hshard : sh.shard = some (.party p) := hmutex.mp rfl
    have hledger : Ledger sh [] := by
      simp only [Sectioned, hsh, hshard, hme] at hsectioned
      exact hsectioned.2
    have hin : p ∈ sh.grants ++ [] ++ sh.waiters := by
      rw [← hledger]
      simp [harrived, hnot]
    have hgrants : p ∉ sh.grants := by
      rw [← hsh, ← h.granted_iff p, hsh, hgranted]
      simp
    simp [hgrants, hmem] at hin
  | _ => simp

theorem Mutex.access (h : Mutex s) (hacc : Access p (s.party p) s.shared me sh)
    (hne : me.pc ≠ .unreachable) : Mutex (s.set p me sh) := by
  intro q
  have hp := h p
  have hq := h q
  rw [Lane.set_party]
  generalize hme : s.party p = old at hacc hp
  generalize hsh : s.shared = osh at hacc hp hq
  cases hacc <;> split <;> simp_all [Pc.critical, unlockShard] <;> grind

theorem Owns_set (q : PartyId) : Owns (s.set p me sh) q ↔
    if q = p then me.pc.owns (sh.granted p) = true
    else (s.party q).pc.owns (sh.granted q) = true := by
  unfold Owns
  rw [Lane.set_party]
  split
  · subst q; rfl
  · rfl

/-- An access that neither gains nor gives up the lane. -/
theorem OwnedBy.keep {o : Option PartyId} (h : OwnedBy s o)
    (hgranted : sh.granted = s.shared.granted)
    (howns : me.pc.owns (sh.granted p) = (s.party p).pc.owns (s.shared.granted p))
    (hword : sh.word = GateState.free.toU8 ↔ s.shared.word = GateState.free.toU8) :
    OwnedBy (s.set p me sh) o where
  owns_iff q := by
    rw [Owns_set, ← h.owns_iff q, hgranted]
    split
    · subst q
      rw [← hgranted, howns]
      rfl
    · rfl
  free_iff := hword.trans h.free_iff

theorem OwnedBy.gain (h : OwnedBy s none) (hgranted : sh.granted = s.shared.granted)
    (howns : me.pc.owns (sh.granted p) = true) (hword : sh.word ≠ GateState.free.toU8) :
    OwnedBy (s.set p me sh) (some p) where
  owns_iff q := by
    rw [Owns_set, hgranted]
    split
    · subst q
      rw [← hgranted, howns]
      simp
    · have hq : ¬ Owns s q := by simp [h.owns_iff q]
      exact ⟨fun hown => absurd hown hq, fun heq => absurd (Option.some.inj heq).symm ‹_›⟩
  free_iff := by simpa using hword

theorem OwnedBy.leave (h : OwnedBy s (some p)) (hgranted : sh.granted = s.shared.granted)
    (howns : me.pc.owns (sh.granted p) = false) (hword : sh.word = GateState.free.toU8) :
    OwnedBy (s.set p me sh) none where
  owns_iff q := by
    rw [Owns_set, hgranted]
    split
    · subst q
      rw [← hgranted, howns]
      simp
    · have hq : ¬ Owns s q := by
        rw [h.owns_iff q]
        exact fun heq => absurd (Option.some.inj heq).symm ‹_›
      exact ⟨fun hown => absurd hown hq, fun heq => nomatch heq⟩
  free_iff := by simpa using hword

theorem Inv.owned_grant {waiter : PartyId} (h : Inv s) (hpc : (s.party p).pc = .grant waiter)
    (hme : me.pc = .unlockHandoff (some waiter))
    (hword : sh.word = s.shared.word)
    (hgranted : sh.granted = Function.update s.shared.granted waiter true) :
    OwnedBy (s.set p me sh) (some waiter) := by
  obtain ⟨o, ho⟩ := h.owned
  obtain rfl : o = some p := (ho.owns_iff p).mp (by simp [Owns, hpc, Pc.owns])
  have hsection := h.section_of_critical (p := p) (by simp [hpc, Pc.critical])
  rw [hpc] at hsection
  obtain ⟨-, hledger⟩ := hsection
  -- the waiter in hand queued, is still there, and has no grant yet
  have hmem : waiter ∈ s.shared.arrivals.filter (fun q => q ∉ s.shared.withdrawn) := by
    rw [hledger]
    simp
  have hfresh : s.shared.granted waiter = false := by
    have hnodup : (s.shared.grants ++ [waiter] ++ s.shared.waiters).Nodup :=
      hledger ▸ h.nodup.filter _
    rw [← Bool.not_eq_true, h.granted_iff]
    intro hgrant
    rw [List.append_assoc] at hnodup
    exact (List.nodup_append.mp hnodup).2.2 waiter hgrant waiter (by simp) rfl
  have hshard := (h.mutex p).mp (by simp [hpc, Pc.critical])
  have hne : waiter ≠ p := by
    rintro rfl
    have hstanding := h.standing waiter
    simp only [Standing, hpc] at hstanding
    simp_all
  have hwaiting := h.pc_of_waiting (q := waiter) (by simp [hshard, hne.symm])
    (List.mem_of_mem_filter hmem) (by simpa using (List.mem_filter.mp hmem).2) hfresh
  refine ⟨fun q => ?_, ?_⟩
  · rw [Owns_set, hgranted]
    by_cases hqp : q = p
    · subst hqp
      simp [hme, Pc.owns, hne]
    · by_cases hqw : q = waiter
      · subst hqw
        simp only [hqp, if_false, Function.update_self, iff_true]
        rcases hwaiting with hpc | hpc | hpc | hpc <;> simp [hpc, Pc.owns]
      · have hq := ho.owns_iff q
        simp only [Owns] at hq
        simp [hqp, hqw, hq, Ne.symm hqp, Ne.symm hqw]
  · have hfree := ho.free_iff
    simpa [hword] using hfree

theorem Inv.owned_access (h : Inv s) (hacc : Access p (s.party p) s.shared me sh) :
    ∃ o, OwnedBy (s.set p me sh) o := by
  obtain ⟨o, ho⟩ := h.owned
  have hp : Owns s p ↔ o = some p := ho.owns_iff p
  have hstanding := h.standing p
  unfold Owns at hp
  have hfree := ho.free_iff
  have hne := h.pc_ne_unreachable hacc
  have hsection := h.section_of_critical (p := p)
  have hkeep := @OwnedBy.keep s p me sh o ho
  have hfresh : p ∉ s.shared.arrivals → s.shared.granted p = false := h.granted_of_not_arrived
  generalize hme : s.party p = old at hacc
  generalize hsh : s.shared = osh at hacc
  rw [hme, hsh] at hp hkeep hsection hstanding
  rw [hsh] at hfree hfresh
  cases hacc
  case tryLock hword | startClaim hword | queueClaim hword =>
    obtain rfl : o = none := hfree.mp hword
    exact ⟨some p, ho.gain (by rw [hsh]) rfl (by simp)⟩
  case releaseReady hword =>
    obtain rfl : o = some p := hp.mp rfl
    exact ⟨none, ho.leave (by rw [hsh]) rfl rfl⟩
  case storeFree a state =>
    obtain rfl : o = some p := hp.mp rfl
    obtain rfl : state = .free := (hsection rfl).1
    exact ⟨none, ho.leave (by rw [hsh]) rfl rfl⟩
  case grant a waiter =>
    exact ⟨some waiter, h.owned_grant (by rw [hme]) rfl (by rw [hsh]) (by rw [hsh])⟩
  case storeGrant a waiter state =>
    obtain rfl : o = some p := hp.mp rfl
    have hstate : state = handoffState (some waiter) osh.queue := (hsection rfl).1
    refine ⟨some p, hkeep rfl rfl ?_⟩
    have hnot : state ≠ .free := by
      rw [hstate, handoffState]
      split <;> simp
    simp [hnot, hfree]
  all_goals
    refine ⟨o, hkeep rfl ?_ ?_⟩
    · simp_all [Pc.owns, Standing, unlockShard]
    · simp_all [unlockShard, Pc.Section, Pc.critical]

/-- The access of another party: it may grant a waiter, and it wakes whom it deregisters. -/
theorem Standing.other {osh : Shared} {q : PartyId} {you : Party} (h : Standing osh q you)
    (harrivals : q ∈ sh.arrivals ↔ q ∈ osh.arrivals)
    (hwithdrawn : q ∈ sh.withdrawn ↔ q ∈ osh.withdrawn)
    (hgranted : sh.granted q = osh.granted q
      ∨ you.pc.critical = false ∧ sh.granted q = true)
    (hawake : osh.waker q = true ∨ osh.woken q = true →
      sh.waker q = true ∨ sh.woken q = true) : Standing sh q you := by
  obtain ⟨pc, a⟩ := you
  cases pc <;> simp only [Standing, harrivals, hwithdrawn, Pc.critical] at h hgranted ⊢ <;> grind

theorem Inv.standing_self (h : Inv s) (hacc : Access p (s.party p) s.shared me sh) :
    Standing sh p me := by
  have hne := h.pc_ne_unreachable hacc
  have hp := h.standing p
  have hfresh : p ∉ s.shared.arrivals → s.shared.granted p = false := h.granted_of_not_arrived
  have hwithdrawn := h.withdrawn p
  generalize s.party p = old at hacc hp
  generalize s.shared = osh at hacc hp hfresh hwithdrawn
  cases hacc
  case grant a waiter =>
    intro harrived
    refine (hp harrived).imp_right fun hgranted => ?_
    by_cases hw : p = waiter <;> simp [hw, hgranted]
  all_goals simp_all [Standing, unlockShard]

theorem Inv.standing_access (h : Inv s) (hacc : Access p (s.party p) s.shared me sh)
    (q : PartyId) : Standing sh q ((s.set p me sh).party q) := by
  by_cases hqp : q = p
  · subst q
    simpa using h.standing_self hacc
  · rw [Lane.set_party_of_ne s me sh hqp]
    have hq := h.standing q
    have hmp := h.mutex p
    have hmq := h.mutex q
    generalize s.party q = you at hq hmq
    generalize s.party p = old at hacc hmp
    generalize s.shared = osh at hacc hq hmp hmq
    refine hq.other ?_ ?_ ?_ ?_
    · cases hacc <;> simp [unlockShard, hqp]
    · cases hacc <;> simp [unlockShard, hqp]
    · cases hacc
      case grant a waiter =>
        by_cases hw : q = waiter
        · -- the holder of the shard is `p`
          right
          have hshard : osh.shard = some (.party p) := hmp.mp rfl
          refine ⟨?_, by simp [hw]⟩
          rw [← Bool.not_eq_true, hmq, hshard]
          simp [Ne.symm hqp]
        · left
          simp [hw]
      all_goals exact Or.inl rfl
    · cases hacc
      case wake a waiter _ =>
        by_cases hw : q = waiter <;> simp [hw]
      case pollQueued => simp [hqp]
      case register => simp [hqp]
      all_goals exact id

/-- The critical section of another party does not see accesses made outside the shard. -/
theorem Pc.Section.outside {osh : Shared} {pc : Pc} (h : pc.Section osh)
    (hword : sh.word = GateState.queued.toU8 ↔ osh.word = GateState.queued.toU8)
    (hqueue : sh.queue = osh.queue) (harrivals : sh.arrivals = osh.arrivals)
    (hwithdrawn : sh.withdrawn = osh.withdrawn) (hgrants : sh.grants = osh.grants) :
    pc.Section sh := by
  have hagrees : Agrees sh ↔ Agrees osh := by
    simp only [Agrees, Shared.waiters, hword, hqueue]
  have hledger : ∀ inHand, Ledger sh inHand ↔ Ledger osh inHand := by
    intro inHand
    simp only [Ledger, Shared.waiters, hqueue, harrivals, hwithdrawn, hgrants]
  unfold Pc.Section at h ⊢
  split <;> simp_all

theorem popFront_waiters (queue : Option (List PartyId)) :
    (popFront queue).1.toList ++ (popFront queue).2.getD [] = queue.getD [] := by
  unfold popFront
  split <;> rfl

theorem popFront_entry (queue : Option (List PartyId)) : (popFront queue).2 ≠ some [] := by
  unfold popFront
  split <;> simp

theorem popFront_none {queue : Option (List PartyId)} (h : (popFront queue).1 = none) :
    (popFront queue).2 = none := by
  unfold popFront at h ⊢
  split at h <;> simp_all

theorem waiters_eq_nil_iff (hentry : sh.queue ≠ some []) : sh.waiters = [] ↔ sh.queue = none := by
  unfold Shared.waiters
  cases hqueue : sh.queue with
  | none => simp
  | some queue => simpa [hqueue] using hentry

/-- The word `handoff` publishes agrees with what it left in the queue. -/
theorem agrees_handoff (hentry : sh.queue ≠ some []) (next : Option PartyId)
    (hnext : next = none → sh.queue = none) :
    Agrees { sh with word := (handoffState next sh.queue).toU8 } := by
  have hnil := waiters_eq_nil_iff hentry
  show (handoffState next sh.queue).toU8 = GateState.queued.toU8 ↔ sh.waiters ≠ []
  rw [toU8_inj, ne_eq, hnil]
  cases next with
  | none => simp [handoffState, hnext rfl]
  | some waiter =>
    cases hqueue : sh.queue <;> simp [handoffState]

theorem ledger_push (h : Ledger sh []) (hp : p ∉ sh.withdrawn) :
    Ledger { sh with queue := some (sh.waiters ++ [p]), arrivals := sh.arrivals ++ [p] } [] := by
  show (sh.arrivals ++ [p]).filter (fun q => q ∉ sh.withdrawn)
    = sh.grants ++ [] ++ (sh.waiters ++ [p])
  rw [List.filter_append, h]
  simp [hp]

theorem ledger_grant {waiter : PartyId} (h : Ledger sh [waiter]) :
    Ledger { sh with
      granted := Function.update sh.granted waiter true
      grants := sh.grants ++ [waiter] } [] := by
  show sh.arrivals.filter (fun q => q ∉ sh.withdrawn)
    = sh.grants ++ [waiter] ++ [] ++ sh.waiters
  rw [h]
  simp

theorem ledger_pop (h : Ledger sh []) :
    Ledger { sh with queue := (popFront sh.queue).2 } (popFront sh.queue).1.toList := by
  show sh.arrivals.filter (fun q => q ∉ sh.withdrawn)
    = sh.grants ++ (popFront sh.queue).1.toList ++ (popFront sh.queue).2.getD []
  rw [h, List.append_nil, List.append_assoc, popFront_waiters]
  rfl

/-- A waiter that leaves is struck from the queue and from the list of those to be served. -/
theorem ledger_remove (h : Ledger sh []) (hnodup : sh.arrivals.Nodup) (hgrants : p ∉ sh.grants)
    {queue : Option (List PartyId)} (hqueue : queue.getD [] = sh.waiters.erase p) :
    Ledger { sh with withdrawn := sh.withdrawn ++ [p], queue } [] := by
  have hsplit : (sh.grants ++ [] ++ sh.waiters).Nodup := h ▸ hnodup.filter _
  have hwaiters : sh.waiters.Nodup := (List.nodup_append.mp hsplit).2.1
  show sh.arrivals.filter (fun q => q ∉ sh.withdrawn ++ [p]) = sh.grants ++ [] ++ queue.getD []
  have hfilter : sh.arrivals.filter (fun q => q ∉ sh.withdrawn ++ [p])
      = (sh.arrivals.filter (fun q => q ∉ sh.withdrawn)).filter (fun q => q ≠ p) := by
    rw [List.filter_filter]
    congr 1
    funext q
    simp [and_comm]
  have hkept : sh.grants.filter (fun q => q ≠ p) = sh.grants := by
    rw [List.filter_eq_self]
    intro q hq
    have hne : q ≠ p := fun heq => hgrants (heq ▸ hq)
    simpa using hne
  have herase : sh.waiters.filter (fun q => q ≠ p) = sh.waiters.erase p := by
    rw [hwaiters.erase_eq_filter]
    congr 1
    funext q
    by_cases hq : q = p <;> simp [hq]
  rw [hfilter, h, hqueue, List.append_nil, List.filter_append, hkept, herase]

theorem Inv.section_inside (h : Inv s) (hacc : Access p (s.party p) s.shared me sh)
    (hbefore : (s.party p).pc.critical = true) (hafter : me.pc.critical = true) :
    me.pc.Section sh := by
  have hsection := h.section_of_critical hbefore
  have hstanding := h.standing p
  have hwithdrawn := h.withdrawn p
  have hentry := h.entry
  have hnodup := h.nodup
  have hgrants := h.granted_iff p
  generalize s.party p = old at hacc hsection hbefore hstanding
  generalize s.shared = osh at hacc hsection hstanding hwithdrawn hentry hnodup hgrants
  cases hacc
  case loadState a state hword =>
    cases state with
    | queued => exact ⟨hword, hsection⟩
    | free | held => exact hsection
  case queueClaim hword =>
    refine ⟨?_, hsection.2⟩
    have hnil : osh.waiters = [] := by
      simpa [Agrees, hword] using hsection.1
    simpa [Agrees, Shared.waiters] using hnil
  case retry a state =>
    cases state with
    | queued => exact hsection.2
    | free | held => exact hsection
  case markQueued hword => exact ⟨rfl, hsection.2⟩
  case sawQueued => exact ⟨hsection.1, hsection.2.2⟩
  case push =>
    refine ⟨?_, ledger_push hsection.2 fun hmem => hstanding (hwithdrawn hmem)⟩
    simp [Agrees, hsection.1, Shared.waiters]
  case pop => exact ⟨rfl, popFront_none, ledger_pop hsection.2⟩
  case storeGrant a waiter state =>
    obtain ⟨rfl, hnext, hledger⟩ := hsection
    exact ⟨agrees_handoff hentry _ hnext, hledger⟩
  case storeFree a state =>
    obtain ⟨rfl, hnext, hledger⟩ := hsection
    exact ⟨agrees_handoff hentry _ hnext, hledger⟩
  case grant a waiter => exact ⟨hsection.1, ledger_grant hsection.2⟩
  case withdrawGranted => exact hsection
  case withdrawWaiting => exact hsection
  case removeLast a queue hmem hrest hqueue =>
    have hwaiters : osh.waiters = queue := by simp [Shared.waiters, hqueue]
    have hnot : p ∉ osh.grants := by simp [← hgrants, hstanding.2.2.2]
    refine ⟨?_, rfl, ledger_remove hsection.2 hnodup hnot (by simp [hwaiters, hrest])⟩
    exact hsection.1.mpr (hwaiters ▸ List.ne_nil_of_mem hmem)
  case remove a queue hmem hrest hqueue =>
    have hwaiters : osh.waiters = queue := by simp [Shared.waiters, hqueue]
    have hnot : p ∉ osh.grants := by simp [← hgrants, hstanding.2.2.2]
    refine ⟨?_, ledger_remove hsection.2 hnodup hnot (by simp [hwaiters])⟩
    have hword := hsection.1.mpr (hwaiters ▸ List.ne_nil_of_mem hmem)
    simpa [Agrees, Shared.waiters, hword] using hrest
  case storeWithdraw =>
    obtain ⟨hword, hnone, hledger⟩ := hsection
    exact ⟨by simp [Agrees, Shared.waiters, hnone], hledger⟩
  all_goals simp [Pc.critical] at hbefore hafter

/-- Outside the shard a party changes the word between `Free` and `Held` at most. -/
theorem Access.outside {old : Party} {osh : Shared} (hacc : Access p old osh me sh)
    (hbefore : ¬ old.pc.critical = true) (hafter : ¬ me.pc.critical = true) :
    sh.shard = osh.shard
    ∧ (sh.word = GateState.queued.toU8 ↔ osh.word = GateState.queued.toU8)
    ∧ sh.queue = osh.queue ∧ sh.arrivals = osh.arrivals ∧ sh.withdrawn = osh.withdrawn
    ∧ sh.grants = osh.grants := by
  cases hacc <;> simp_all [Pc.critical]

theorem Inv.sectioned_access (h : Inv s) (hacc : Access p (s.party p) s.shared me sh) :
    Sectioned (s.set p me sh) := by
  have hmutex := h.mutex.access hacc (h.pc_ne_unreachable hacc)
  by_cases hafter : me.pc.critical = true
  · have hshard : sh.shard = some (.party p) := by
      simpa using (hmutex p).mp (by simpa using hafter)
    have hsection : me.pc.Section sh := by
      by_cases hbefore : (s.party p).pc.critical = true
      · exact h.section_inside hacc hbefore hafter
      · -- `p` has just taken the lock
        have hsectioned := h.sectioned
        unfold Sectioned at hsectioned
        generalize s.party p = old at hacc hbefore
        generalize s.shared = osh at hacc hsectioned
        cases hacc
        case lockEnqueue hnone | lockHandoff hnone | lockWithdraw hnone =>
          rw [hnone] at hsectioned
          exact hsectioned
        all_goals simp [Pc.critical] at hbefore hafter
    simpa [Sectioned, hshard] using hsection
  · by_cases hbefore : (s.party p).pc.critical = true
    · -- `p` gives the lock back
      have hsection := h.section_of_critical hbefore
      have hne := h.pc_ne_unreachable hacc
      generalize s.party p = old at hacc hbefore hsection
      generalize s.shared = osh at hacc hsection
      cases hacc
      case unlockClaimed | unlockWaiting | unlockFree | unlockGrant | unlockGranted
          | unlockWithdrawn =>
        exact hsection
      all_goals simp [Pc.critical] at hbefore hafter hne
    · -- `p` is outside: whoever holds the lock keeps its section
      obtain ⟨hshard, hword, hqueue, harrivals, hwithdrawn, hgrants⟩ := hacc.outside hbefore hafter
      have hsectioned := h.sectioned
      unfold Sectioned at hsectioned ⊢
      simp only [Lane.set_shared, hshard]
      split at hsectioned
      · rename_i q hq
        have hqp : q ≠ p := fun heq => hbefore ((h.mutex p).mpr (heq ▸ hq))
        rw [Lane.set_party_of_ne s me sh hqp]
        exact hsectioned.outside hword hqueue harrivals hwithdrawn hgrants
      · exact @Pc.Section.outside _ _ .done hsectioned hword hqueue harrivals hwithdrawn
          hgrants

theorem Inv.awake_access (h : Inv s) (hacc : Access p (s.party p) s.shared me sh) :
    Awake (s.set p me sh) := by
  intro q hidle hgranted
  have hq := h.awake q
  have hstanding := h.standing q
  simp only [Lane.set_shared] at hgranted ⊢
  by_cases hqp : q = p
  · subst hqp
    rw [Lane.set_party_self] at hidle
    subst hidle
    -- the poll that found no grant
    generalize s.party q = old at hacc
    generalize s.shared = osh at hacc
    cases hacc
    case pending hpending => simp [hpending] at hgranted
  · rw [Lane.set_party_of_ne s me sh hqp] at hidle
    have hregistered : s.shared.waker q = true ∨ s.shared.woken q = true := by
      simp only [Standing, hidle, reduceCtorEq, false_and, false_or] at hstanding
      exact hstanding.2.2.2
    -- whoever else was about to wake `q` still is
    have hkeep : s.shared.granted q = true → sh.woken q = s.shared.woken q →
        ((s.party p).pc ≠ .unlockHandoff (some q) ∧ (s.party p).pc ≠ .wake q) →
        sh.woken q = true ∨ ∃ r, ((s.set p me sh).party r).pc = .unlockHandoff (some q)
          ∨ ((s.set p me sh).party r).pc = .wake q := by
      intro hbefore hwoken hpc
      rcases hq hidle hbefore with hdone | ⟨r, hr⟩
      · exact Or.inl (hwoken.trans hdone)
      · have hrp : r ≠ p := by
          rintro rfl
          rcases hr with hr | hr
          · exact hpc.1 hr
          · exact hpc.2 hr
        exact Or.inr ⟨r, by rwa [Lane.set_party_of_ne s me sh hrp]⟩
    generalize hme : s.party p = old at hacc hkeep
    generalize s.shared = osh at hacc hkeep hregistered
    cases hacc
    case grant a waiter =>
      by_cases hw : q = waiter
      · subst hw
        exact Or.inr ⟨p, by simp⟩
      · exact hkeep (by simpa [hw] using hgranted) rfl (by simp)
    case unlockGrant a waiter =>
      by_cases hw : waiter = q
      · subst hw
        exact Or.inr ⟨p, by simp⟩
      · exact hkeep hgranted rfl (by simpa using hw)
    case wake a waiter _ =>
      by_cases hw : waiter = q
      · subst hw
        exact Or.inl (by simp)
      · exact hkeep hgranted (by simp [Ne.symm hw]) (by simpa using hw)
    case wakeUnregistered a waiter hunregistered =>
      by_cases hw : waiter = q
      · subst hw
        exact Or.inl (by simpa [hunregistered] using hregistered)
      · exact hkeep hgranted rfl (by simpa using hw)
    case pollQueued => exact hkeep hgranted (by simp [hqp]) (by simp)
    all_goals exact hkeep hgranted rfl (by simp)

theorem Inv.access (h : Inv s) (hacc : Access p (s.party p) s.shared me sh) :
    Inv (s.set p me sh) where
  closed := by
    obtain ⟨state, hstate⟩ := h.closed
    generalize s.party p = old at hacc
    generalize s.shared = osh at hacc hstate
    cases hacc
    case tryLock | startClaim | queueClaim | storeWithdraw => exact ⟨.held, rfl⟩
    case markQueued => exact ⟨.queued, rfl⟩
    case releaseReady => exact ⟨.free, rfl⟩
    case storeGrant state | storeFree state => exact ⟨state, rfl⟩
    all_goals exact ⟨state, hstate⟩
  owned := h.owned_access hacc
  mutex := h.mutex.access hacc (h.pc_ne_unreachable hacc)
  entry := by
    have hentry := h.entry
    generalize s.party p = old at hacc
    generalize s.shared = osh at hacc hentry
    cases hacc
    case push => simp
    case pop => exact popFront_entry _
    case removeLast => simp
    case remove hrest _ => simpa using hrest
    all_goals exact hentry
  nodup := by
    have hnodup := h.nodup
    have hstanding := h.standing p
    generalize s.party p = old at hacc hstanding
    generalize s.shared = osh at hacc hnodup hstanding
    cases hacc
    case push =>
      show (osh.arrivals ++ [p]).Nodup
      rw [List.nodup_append]
      refine ⟨hnodup, by simp, ?_⟩
      intro q hq r hr heq
      exact hstanding (by simp_all)
    all_goals exact hnodup
  withdrawn := by
    have hwithdrawn := h.withdrawn
    have hstanding := h.standing p
    generalize s.party p = old at hacc hstanding
    generalize s.shared = osh at hacc hwithdrawn hstanding
    cases hacc
    case push =>
      intro q hq
      exact List.mem_append_left _ (hwithdrawn q hq)
    case removeLast | remove =>
      intro q hq
      rcases List.mem_append.mp hq with hq | hq
      · exact hwithdrawn q hq
      · rw [List.mem_singleton.mp hq]
        exact hstanding.2.1
    all_goals exact hwithdrawn
  granted_iff := by
    have hgranted := h.granted_iff
    generalize s.party p = old at hacc
    generalize s.shared = osh at hacc hgranted
    cases hacc
    case grant a waiter =>
      intro q
      by_cases hq : q = waiter <;> simp [hq, hgranted]
    all_goals exact hgranted
  sectioned := h.sectioned_access hacc
  standing := h.standing_access hacc
  awake := h.awake_access hacc

end Steps

theorem inv_init : Inv init where
  closed := ⟨.free, rfl⟩
  owned := ⟨none, fun p => by simp [Owns, init, Pc.owns], by simp [init]⟩
  mutex p := by simp [init, Pc.critical]
  entry := by simp [init]
  nodup := List.nodup_nil
  withdrawn p hp := absurd hp (by simp [init])
  granted_iff p := by simp [init]
  sectioned := ⟨by simp [Agrees, init, Shared.waiters], rfl⟩
  standing p := by simp [Standing, init]
  awake p hidle := by simp [init] at hidle

/-- Another lane takes or gives back the lock while no party of this lane has it. -/
theorem Inv.otherLane {s : Lane} (h : Inv s) {holder : Option Holder}
    (hbefore : ∀ p, s.shared.shard ≠ some (.party p)) (hafter : ∀ p, holder ≠ some (.party p)) :
    Inv { s with shared := { s.shared with shard := holder } } where
  closed := h.closed
  owned := by
    obtain ⟨o, ho⟩ := h.owned
    exact ⟨o, ho.owns_iff, ho.free_iff⟩
  mutex p := by
    have hp := h.mutex p
    simp only [hbefore p, iff_false] at hp
    simp [hp, hafter p]
  entry := h.entry
  nodup := h.nodup
  withdrawn := h.withdrawn
  granted_iff := h.granted_iff
  sectioned := by
    have hsectioned := h.sectioned
    unfold Sectioned at hsectioned ⊢
    split at hsectioned
    · rename_i p hp
      exact absurd hp (hbefore p)
    · exact hsectioned
  standing := h.standing
  awake := h.awake

/-- **The step lemma.** -/
theorem Inv.of_next {s t : Lane} {a : Action} (h : Inv s) (hnext : next s a = some t) :
    Inv t := by
  rcases next_cases hnext with ⟨p, me, sh, hacc, rfl⟩ | ⟨hnone, rfl⟩ | ⟨hother, rfl⟩
  · exact h.access hacc
  · exact h.otherLane (by simp [hnone]) (by simp)
  · exact h.otherLane (by simp [hother]) (by simp)

theorem Inv.of_reachable {s : Lane} (h : Run.Reachable next init s) : Inv s :=
  h.invariant inv_init fun _ _ _ hs hnext => hs.of_next hnext

/-! ## The guarantees -/

/-- The future of the party is suspended in `AcquisitionState::Queued` and its `drop` has not
begun. -/
def Suspended (s : Lane) (p : PartyId) : Prop := s.party p = ⟨.idle, .queued⟩

structure LaneSafe (s : Lane) : Prop where
  /-- At most one guard or granted waiter owns the lane. -/
  exclusive : ∀ p q, Owns s p → Owns s q → p = q
  /-- With the shard's lock free the word is `Queued` exactly when somebody waits. -/
  queued_iff : s.shared.shard = none →
    (s.shared.word = GateState.queued.toU8 ↔ s.shared.waiters ≠ [])
  /-- The word is `Free` exactly when there is no owner, and then nobody waits. -/
  free_iff : s.shared.word = GateState.free.toU8 ↔ ∀ p, ¬ Owns s p
  free_waiters : s.shared.word = GateState.free.toU8 → s.shared.waiters = []
  /-- The grants are a first part of the arrivals that did not withdraw; what is left waits
  in the same order. -/
  fifo : s.shared.grants <+: s.shared.arrivals.filter (fun p => p ∉ s.shared.withdrawn)
  fifo_waiters : s.shared.shard = none →
    s.shared.arrivals.filter (fun p => p ∉ s.shared.withdrawn)
      = s.shared.grants ++ s.shared.waiters
  /-- No waiter is granted twice or queued twice. -/
  grants_nodup : s.shared.grants.Nodup
  waiters_nodup : s.shared.waiters.Nodup
  /-- No waiter is lost: it is in the queue until it is granted, and then it is woken. -/
  kept : ∀ p, Suspended s p → s.shared.shard = none →
    (p ∈ s.shared.waiters ↔ s.shared.granted p = false)
  woken : ∀ p, Suspended s p → s.shared.granted p = true →
    Owns s p ∧ (s.shared.woken p = true
      ∨ ∃ q, (s.party q).pc = .unlockHandoff (some p) ∨ (s.party q).pc = .wake p)
  /-- Ownership that ends goes to another party, or the lane is free and nobody waits. -/
  passed : ∀ p a t, next s a = some t → Owns s p → ¬ Owns t p →
    (∃ q, q ≠ p ∧ Owns t q)
      ∨ t.shared.word = GateState.free.toU8 ∧ t.shared.waiters = []
  /-- A granted waiter that is dropped before it observed the grant gets the lane to the next
  in line by its own steps, or frees it. -/
  cancelled : ∀ p, Suspended s p → s.shared.granted p = true → s.shared.shard = none →
    ∃ n t, Run.exec next s (.drop p :: List.replicate n (.step p)) = some t
      ∧ (t.party p).pc = .done
      ∧ match s.shared.waiters with
        | [] => t.shared.word = GateState.free.toU8
        | waiter :: rest => Owns t waiter ∧ t.shared.waiters = rest
  unreachable : ∀ p, (s.party p).pc ≠ .unreachable

section Guarantees

variable {s : Lane} {p : PartyId}

theorem Inv.free_iff (h : Inv s) :
    s.shared.word = GateState.free.toU8 ↔ ∀ p, ¬ Owns s p := by
  obtain ⟨o, ho⟩ := h.owned
  rw [ho.free_iff]
  cases o with
  | none => simp [ho.owns_iff]
  | some q => simpa using ⟨q, (ho.owns_iff q).mpr rfl⟩

theorem Inv.exclusive (h : Inv s) {q : PartyId} (hp : Owns s p) (hq : Owns s q) : p = q := by
  obtain ⟨o, ho⟩ := h.owned
  have hop := (ho.owns_iff p).mp hp
  have hoq := (ho.owns_iff q).mp hq
  exact Option.some.inj (hop.symm.trans hoq)

theorem Inv.settled (h : Inv s) (hshard : s.shared.shard = none) :
    Agrees s.shared ∧ Ledger s.shared [] := by
  have hsectioned := h.sectioned
  unfold Sectioned at hsectioned
  rwa [hshard] at hsectioned

/-- A free lane has no waiters, also while somebody is inside the shard. -/
theorem Inv.free_waiters (h : Inv s) (hfree : s.shared.word = GateState.free.toU8) :
    s.shared.waiters = [] := by
  have hagrees : Agrees s.shared → s.shared.waiters = [] := by
    intro hagrees
    simpa [Agrees, hfree] using hagrees
  have hsectioned := h.sectioned
  unfold Sectioned at hsectioned
  split at hsectioned
  · rename_i q hq
    have howner := h.free_iff.mp hfree q
    unfold Owns at howner
    unfold Pc.Section at hsectioned
    split at hsectioned
    · exact hagrees hsectioned.2.1
    · simp [hfree] at hsectioned
    · simp_all [Pc.owns]
    · exact hagrees hsectioned.1
    · simp [hfree] at hsectioned
    · exact hagrees hsectioned.1
  · exact hagrees hsectioned.1

theorem Inv.served_nodup (h : Inv s) {inHand : List PartyId} (hledger : Ledger s.shared inHand) :
    (s.shared.grants ++ inHand ++ s.shared.waiters).Nodup :=
  hledger ▸ h.nodup.filter _

/-- Whoever is in the queue queued, did not withdraw and has no grant. -/
theorem Inv.of_mem_waiters (h : Inv s) (hp : p ∈ s.shared.waiters) :
    p ∈ s.shared.arrivals ∧ p ∉ s.shared.withdrawn ∧ s.shared.granted p = false := by
  obtain ⟨inHand, hledger⟩ := h.exists_ledger
  have hmem : p ∈ s.shared.arrivals.filter (fun q => q ∉ s.shared.withdrawn) := by
    rw [hledger]
    exact List.mem_append_right _ hp
  refine ⟨List.mem_of_mem_filter hmem, by simpa using (List.mem_filter.mp hmem).2, ?_⟩
  rw [← Bool.not_eq_true, h.granted_iff]
  intro hgrant
  exact (List.nodup_append.mp (h.served_nodup hledger)).2.2 p
    (List.mem_append_left _ hgrant) p hp rfl

theorem Inv.owns_of_granted (hp : Suspended s p) (hgranted : s.shared.granted p = true) :
    Owns s p := by
  unfold Suspended at hp
  simp [Owns, hp, Pc.owns, hgranted]

/-- A granted party that withdraws comes to release. -/
theorem exec_withdraw (hp : Suspended s p) (hgranted : s.shared.granted p = true)
    (hshard : s.shared.shard = none) :
    Run.exec next s [.drop p, .step p, .step p, .step p]
      = some (s.set p ⟨.release, .queued⟩ s.shared) := by
  have hunlocked : ({ s.shared with shard := none } : Shared) = s.shared := by
    rw [← hshard]
  unfold Suspended at hp
  simp [next, hp, step, lockShard, hshard, hgranted, Party.at, unlockShard, hunlocked, Lane.set]

/-- With a waiter in front, releasing takes it off the queue. -/
theorem exec_pop {me : Party} (hp : s.party p = me) (hpc : me.pc = .release) {waiter : PartyId}
    {rest : List PartyId} (hword : s.shared.word = GateState.queued.toU8)
    (hqueue : s.shared.queue = some (waiter :: rest)) (hshard : s.shared.shard = none)
    (hne : waiter ≠ p) :
    ∃ t, Run.exec next s [.step p, .step p, .step p] = some t ∧
      (∃ state, (t.party p).pc = .storeHandoff (some waiter) state) ∧
      t.party waiter = s.party waiter ∧ t.shared.waiters = rest := by
  cases rest with
  | nil =>
    simp [next, hp, hpc, step, lockShard, hshard, Party.at, releaseReady, compareExchange, hword,
      hqueue, popFront, Shared.waiters, Lane.set_party_of_ne, hne]
  | cons second rest =>
    simp [next, hp, hpc, step, lockShard, hshard, Party.at, releaseReady, compareExchange, hword,
      hqueue, popFront, Shared.waiters, Lane.set_party_of_ne, hne]

/-- It is granted before it is woken. -/
theorem exec_grant {me : Party} (hp : s.party p = me) {waiter : PartyId} {state : GateState}
    (hpc : me.pc = .storeHandoff (some waiter) state) (hne : waiter ≠ p) :
    ∃ t, Run.exec next s [.step p, .step p, .step p, .step p] = some t ∧
      (t.party p).pc = .done ∧ t.party waiter = s.party waiter ∧
      t.shared.granted waiter = true ∧ t.shared.waiters = s.shared.waiters := by
  cases hwaker : s.shared.waker waiter with
  | false =>
    simp [next, hp, hpc, step, Party.at, unlockShard, hwaker, Shared.waiters, Lane.set_party_of_ne,
      hne]
  | true =>
    simp [next, hp, hpc, step, Party.at, unlockShard, hwaker, Shared.waiters, Lane.set_party_of_ne,
      hne]

theorem Inv.cancelled_nil (h : Inv s) (hp : Suspended s p) (hgranted : s.shared.granted p = true)
    (hshard : s.shared.shard = none) (hnil : s.shared.waiters = []) :
    ∃ t, Run.exec next s (.drop p :: List.replicate 4 (.step p)) = some t
      ∧ (t.party p).pc = .done ∧ t.shared.word = GateState.free.toU8 := by
  have howns : Owns s p := owns_of_granted hp hgranted
  have hheld : s.shared.word = GateState.held.toU8 := by
    obtain ⟨state, hstate⟩ := h.closed
    have hagrees := (h.settled hshard).1
    cases state with
    | free => exact absurd howns (h.free_iff.mp hstate p)
    | held => exact hstate
    | queued => exact absurd hnil (hagrees.mp hstate)
  have hlast : ∃ t, Run.exec next (s.set p ⟨.release, .queued⟩ s.shared) [.step p] = some t
      ∧ (t.party p).pc = .done ∧ t.shared.word = GateState.free.toU8 := by
    simp [next, step, releaseReady, compareExchange, hheld, Party.at]
  obtain ⟨t, hrelease, hdone, hfree⟩ := hlast
  exact ⟨t, Run.exec_append_eq_some.mpr ⟨_, exec_withdraw hp hgranted hshard, hrelease⟩, hdone,
    hfree⟩

theorem Inv.cancelled_cons (h : Inv s) (hp : Suspended s p)
    (hgranted : s.shared.granted p = true) (hshard : s.shared.shard = none) {waiter : PartyId}
    {rest : List PartyId} (hwaiters : s.shared.waiters = waiter :: rest) :
    ∃ t, Run.exec next s (.drop p :: List.replicate 10 (.step p)) = some t
      ∧ (t.party p).pc = .done ∧ Owns t waiter ∧ t.shared.waiters = rest := by
  have hword : s.shared.word = GateState.queued.toU8 :=
    (h.settled hshard).1.mpr (by simp [hwaiters])
  have hqueue : s.shared.queue = some (waiter :: rest) := by
    unfold Shared.waiters at hwaiters
    cases hq : s.shared.queue <;> simp_all
  obtain ⟨harrived, hnot, hungranted⟩ := h.of_mem_waiters (p := waiter) (by simp [hwaiters])
  have hne : waiter ≠ p := by
    rintro rfl
    simp [hgranted] at hungranted
  have hpc := h.pc_of_waiting (q := waiter) (by simp [hshard]) harrived hnot hungranted
  -- It withdraws, takes the first waiter off the queue, and grants it the lane.
  have hwithdraw := exec_withdraw hp hgranted hshard
  obtain ⟨m, hpop, ⟨state, hstore⟩, hkept, hrest⟩ :=
    exec_pop (s.set_party_self p ⟨.release, .queued⟩ s.shared) rfl hword hqueue hshard hne
  obtain ⟨t, hgrant, hdone, hsame, hgranted', hwaiters'⟩ := exec_grant rfl hstore hne
  have hparty : t.party waiter = s.party waiter :=
    hsame.trans (hkept.trans (Lane.set_party_of_ne _ _ _ hne))
  refine ⟨t, ?_, hdone, ?_, hwaiters'.trans hrest⟩
  · exact Run.exec_append_eq_some.mpr ⟨_, hwithdraw, Run.exec_append_eq_some.mpr ⟨m, hpop, hgrant⟩⟩
  · unfold Owns
    rw [hparty, hgranted']
    rcases hpc with hpc | hpc | hpc | hpc
    · simp [hpc, Pc.owns]
    · simp [hpc, Pc.owns]
    · simp [hpc, Pc.owns]
    · simp [hpc, Pc.owns]

/-- **Every reachable lane is safe.** -/
theorem lane_safe (h : Run.Reachable next init s) : LaneSafe s := by
  have hinv := Inv.of_reachable h
  obtain ⟨inHand, hledger⟩ := hinv.exists_ledger
  have hserved := hinv.served_nodup hledger
  exact {
    exclusive := fun p q => hinv.exclusive
    queued_iff := fun hshard => (hinv.settled hshard).1
    free_iff := hinv.free_iff
    free_waiters := hinv.free_waiters
    fifo := by
      rw [hledger, List.append_assoc]
      exact List.prefix_append _ _
    fifo_waiters := fun hshard => by
      have hsettled := (hinv.settled hshard).2
      rwa [Ledger, List.append_nil] at hsettled
    grants_nodup := by
      rw [List.append_assoc] at hserved
      exact (List.nodup_append.mp hserved).1
    waiters_nodup := (List.nodup_append.mp hserved).2.1
    kept := fun p hp hshard => by
      refine ⟨fun hmem => (hinv.of_mem_waiters hmem).2.2, fun hgranted => ?_⟩
      have hsettled := (hinv.settled hshard).2
      have hstanding := hinv.standing p
      unfold Suspended at hp
      simp only [Standing, hp, reduceCtorEq, false_and, false_or] at hstanding
      have hmem : p ∈ s.shared.grants ++ [] ++ s.shared.waiters := by
        rw [← hsettled]
        simp [hstanding]
      have hgrants : p ∉ s.shared.grants := by simp [← hinv.granted_iff, hgranted]
      simpa [hgrants] using hmem
    woken := fun p hp hgranted => ⟨Inv.owns_of_granted hp hgranted, hinv.awake p hp hgranted⟩
    passed := fun p a t hnext hbefore hafter => by
      have hinvt := hinv.of_next hnext
      by_cases hfree : t.shared.word = GateState.free.toU8
      · exact Or.inr ⟨hfree, hinvt.free_waiters hfree⟩
      · left
        rw [hinvt.free_iff] at hfree
        obtain ⟨q, hq⟩ := not_forall_not.mp hfree
        exact ⟨q, fun heq => hafter (heq ▸ hq), hq⟩
    cancelled := fun p hp hgranted hshard => by
      cases hwaiters : s.shared.waiters with
      | nil => exact ⟨4, hinv.cancelled_nil hp hgranted hshard hwaiters⟩
      | cons waiter rest => exact ⟨10, hinv.cancelled_cons hp hgranted hshard hwaiters⟩
    unreachable := fun p hpc => by
      have hstanding := hinv.standing p
      simp [Standing, hpc] at hstanding }

/-- Party 0 holds the lane, 1 and 2 queue, 0 lets go and 1 is granted before it is polled. -/
theorem lane_safe_granted_run : ∃ s, Run.Reachable next init s ∧ LaneSafe s
    ∧ Suspended s 1 ∧ Owns s 1 ∧ s.shared.waiters = [2] := by
  let enqueue (p : PartyId) : List Action :=
    [.lock p, .poll p] ++ List.replicate 8 (.step p)
  let schedule : List Action :=
    [.tryLock 0] ++ enqueue 1 ++ enqueue 2 ++ [.drop 0] ++ List.replicate 7 (.step 0)
  have hreach : Run.Reachable next init ((Run.exec next init schedule).getD init) :=
    ⟨schedule, rfl⟩
  exact ⟨_, hreach, lane_safe hreach, rfl, rfl, rfl⟩

end Guarantees

end Ordered

end Amalgam
