import Amalgam.Lib.Run
import Amalgam.Lib.StoreBuffer

/-!
# Amalgam — the wake-up of a shutdown on store buffers

`reserve_activity`, `inline_owned`, the two drops of `src/execution.rs` and one thread that runs
`close` and then `drained`, on a memory with store buffers. The only store of the protocol that
waits in a buffer is the `Release` store of `ThreadActivity::drop`; the other store of a local
count is `SeqCst`, and everything else is a read-modify-write, as is the lock that `enable` and
`notify_waiters` take. Nobody registers work, so that the task tracker is empty throughout.

* **`no_lost_wakeup`** — the drain does not wait for nothing, if no scan misses a release that is
  still buffered and was not announced.
* **`lost_wakeup`** — otherwise it does.
-/

namespace Amalgam

namespace Buffered

open StoreBuffer (Mem)

def activeStripes : Nat := 64

/-- Thread `t` has the identifier `t + 1`. -/
def ownerOf (t : Nat) : Nat := t + 1

def position (t : Nat) : Nat := ownerOf t % activeStripes

/-- Where a thread stands. -/
inductive Pc where
  | idle
  -- `reserve_activity`
  | owner
  | exchange
  | load
  | store (count : Nat)
  /-- Also `inline_owned`. -/
  | add (owned : Bool)
  -- `ThreadActivity::drop`
  | unload
  | unstore (count : Nat)
  /-- Also `OwnedInlinePermit::drop`, of any stripe. -/
  | sub (stripe : Nat)
  | check
  | notify
deriving DecidableEq

/-- The thread that closes and drains. -/
inductive Closer where
  | start
  | opening
  | closed
  | dropping
  /-- Of the two scans, the next access: the local or the shared count of a stripe. -/
  | scan (second : Bool) (stripe : Nat) (shared : Bool)
  | waiting
  | drained
deriving DecidableEq

structure State where
  owner : Nat → Nat
  local_ : Mem Nat Nat Nat
  shared : Nat → Nat
  closing : Bool
  pc : Nat → Pc
  /-- The guards that a thread holds on its own stripe. -/
  locals : Nat → Nat
  shareds : Nat → Nat
  /-- The owned permits of a stripe; any thread may drop them. -/
  permits : Nat → Nat
  closer : Closer
  /-- The notification that the drain enabled last has been given. -/
  notified : Bool

def goto (s : State) (t : Nat) (pc : Pc) : State :=
  { s with pc := Function.update s.pc t pc }

/-- One access of a thread. -/
def stepThread (s : State) (t : Nat) : Option State :=
  let stripe := position t
  match s.pc t with
  | .idle => none
  | .owner =>
    if s.owner stripe = ownerOf t then some (goto s t .load)
    else if s.owner stripe = 0 then some (goto s t .exchange)
    else some (goto s t (.add false))
  | .exchange =>
    let s := { s with local_ := s.local_.flush t }
    if s.owner stripe = 0 then
      some (goto { s with owner := Function.update s.owner stripe (ownerOf t) } t .load)
    else some (goto s t (.add false))
  | .load => some (goto s t (.store (s.local_.view t stripe)))
  | .store count =>
    some (goto { s with
      local_ := s.local_.publish t stripe (count + 1)
      locals := Function.update s.locals t (s.locals t + 1) } t .idle)
  | .add owned =>
    let s := { s with
      local_ := s.local_.flush t
      shared := Function.update s.shared stripe (s.shared stripe + 1) }
    if owned then
      some (goto { s with
        permits := Function.update s.permits stripe (s.permits stripe + 1) } t .idle)
    else
      some (goto { s with shareds := Function.update s.shareds t (s.shareds t + 1) } t .idle)
  | .unload => some (goto s t (.unstore (s.local_.view t stripe)))
  | .unstore count =>
    some (goto { s with local_ := s.local_.write t stripe (count - 1) } t
      (if count = 1 then .check else .idle))
  | .sub stripe =>
    some (goto { s with
      local_ := s.local_.flush t
      shared := Function.update s.shared stripe (s.shared stripe - 1) } t
      (if s.shared stripe = 1 then .check else .idle))
  | .check => some (goto s t (if s.closing then .notify else .idle))
  | .notify => some (goto { s with local_ := s.local_.flush t, notified := true } t .idle)

/-- The start of the next loop of `drained`. -/
def enable (s : State) (closer : Nat) : State :=
  { s with
    local_ := s.local_.flush closer
    notified := false
    closer := .scan false 0 false }

/-- One access of the thread that closes and drains, once it is back from its own activity. -/
def stepCloser (s : State) (closer : Nat) : Option State :=
  if s.pc closer ≠ .idle then none else
  match s.closer with
  | .start => some { goto s closer .owner with closer := .opening }
  | .opening =>
    some { s with local_ := s.local_.flush closer, closing := true, closer := .closed }
  | .closed =>
    if 0 < s.locals closer then
      some { goto { s with
        locals := Function.update s.locals closer (s.locals closer - 1) } closer .unload with
        closer := .dropping }
    else
      some { goto { s with
        shareds := Function.update s.shareds closer (s.shareds closer - 1) } closer
          (.sub (position closer)) with
        closer := .dropping }
  | .dropping => some (enable s closer)
  | .scan second stripe false =>
    if s.local_.view closer stripe = 0 then some { s with closer := .scan second stripe true }
    else some { s with closer := .waiting }
  | .scan second stripe true =>
    if s.shared stripe = 0 then
      if stripe + 1 < activeStripes then
        some { s with closer := .scan second (stripe + 1) false }
      else if second then some { s with closer := .drained }
      else some { s with closer := .scan true 0 false }
    else some { s with closer := .waiting }
  | .waiting => if s.notified then some (enable s closer) else none
  | .drained => none

inductive Action where
  | reserve (t : Nat)
  | reserveOwned (t : Nat)
  | dropLocal (t : Nat)
  | dropShared (t : Nat)
  | dropOwned (t : Nat) (stripe : Nat)
  | step (t : Nat)
  /-- The oldest store in the buffer of a thread becomes visible. -/
  | commit (t : Nat)
  | closer

/-- A thread begins something new. -/
def begin_ (s : State) (closer t : Nat) (pc : Pc) : Option State :=
  if t ≠ closer ∧ s.pc t = .idle then some (goto s t pc) else none

variable (closer : Nat) in
def next (s : State) : Action → Option State
  | .reserve t => begin_ s closer t .owner
  | .reserveOwned t => begin_ s closer t (.add true)
  | .dropLocal t =>
    if 0 < s.locals t then
      begin_ { s with locals := Function.update s.locals t (s.locals t - 1) } closer t .unload
    else none
  | .dropShared t =>
    if 0 < s.shareds t then
      begin_ { s with shareds := Function.update s.shareds t (s.shareds t - 1) } closer t
        (.sub (position t))
    else none
  | .dropOwned t stripe =>
    if 0 < s.permits stripe then
      begin_ { s with permits := Function.update s.permits stripe (s.permits stripe - 1) } closer t
        (.sub stripe)
    else none
  | .step t => stepThread s t
  | .commit t => (s.local_.commit t).map fun local_ => { s with local_ }
  | .closer => stepCloser s closer

def init : State where
  owner := fun _ => 0
  local_ := ⟨fun _ => 0, fun _ => []⟩
  shared := fun _ => 0
  closing := false
  pc := fun _ => .idle
  locals := fun _ => 0
  shareds := fun _ => 0
  permits := fun _ => 0
  closer := .start
  notified := false

/-- The drain waits, nothing is left to wait for, and nobody will tell it. -/
structure Lost (s : State) : Prop where
  waiting : s.closer = .waiting
  unnotified : s.notified = false
  committed : ∀ t, s.local_.buffer t = []
  locals : ∀ stripe, s.local_.memory stripe = 0
  shareds : ∀ stripe, s.shared stripe = 0
  quiet : ∀ t, s.pc t = .idle

/-- Another thread has released its stripe for good: the store is still buffered, and its drop
found the cache open or was not the last. -/
def Stale (closer : Nat) (s : State) (stripe : Nat) : Prop :=
  ∃ t, t ≠ closer ∧ s.owner stripe = ownerOf t ∧ s.local_.view t stripe = 0 ∧
    s.local_.memory stripe ≠ 0 ∧ s.pc t ≠ .check ∧ s.pc t ≠ .notify

/-- A scan does not load the count of a stripe that is stale. -/
def Fresh (closer : Nat) (s : State) : Action → Prop
  | .closer => ∀ second stripe, s.closer = .scan second stripe false → ¬ Stale closer s stripe
  | _ => True

/-! ## The stripe of a thread is its own -/

/-- What a thread does to the local counts while it alone can write those of its stripe. -/
structure Private (s : State) (t : Nat) (local_ : Mem Nat Nat Nat) : Prop where
  buffer : ∀ other, other ≠ t → local_.buffer other = s.local_.buffer other
  memory : ∀ stripe, s.owner stripe ≠ ownerOf t → local_.memory stripe = s.local_.memory stripe
  own : ∀ store ∈ local_.buffer t, s.owner store.1 = ownerOf t

/-- What a thread that stands here knows of its stripe. -/
def Pc.Sound (s : State) (t : Nat) : Pc → Prop
  | .load | .unload => s.owner (position t) = ownerOf t
  | .store count | .unstore count =>
    s.owner (position t) = ownerOf t ∧ s.local_.view t (position t) = count
  | .idle | .owner | .exchange | .add _ | .sub _ | .check | .notify => True

/-- Something still keeps the drain from being over, and will tell it when it ends. -/
inductive Promised (s : State) : Prop where
  | shared (stripe : Nat) (h : s.shared stripe ≠ 0)
  | view (t stripe : Nat) (owned : s.owner stripe = ownerOf t) (h : s.local_.view t stripe ≠ 0)
  | drop (t : Nat) (h : s.pc t = .check ∨ s.pc t = .notify)

def Closer.closes : Closer → Bool
  | .start | .opening => false
  | .closed | .dropping | .scan _ _ _ | .waiting | .drained => true

/-- Only the owner of a stripe writes its local count. -/
structure Tidy (s : State) : Prop where
  own : ∀ t, ∀ store ∈ s.local_.buffer t, s.owner store.1 = ownerOf t
  unowned : ∀ stripe, s.owner stripe = 0 → s.local_.memory stripe = 0
  owners : ∀ stripe, s.owner stripe ≠ 0 → ∃ t, s.owner stripe = ownerOf t
  locals : ∀ t, 0 < s.locals t → s.owner (position t) = ownerOf t
  pcs : ∀ t, (s.pc t).Sound s t

/-- One access of a thread; what is not given stays as it is. -/
structure Moved (s u : State) (t : Nat) : Prop where
  isolated : Private s t u.local_
  owner : ∀ stripe, u.owner stripe = s.owner stripe ∨
    s.owner stripe = 0 ∧ u.owner stripe = ownerOf t := by exact fun _ => .inl rfl
  pcs : ∀ other, other ≠ t → u.pc other = s.pc other
  locals : ∀ other, 0 < u.locals other →
    0 < s.locals other ∨ u.owner (position other) = ownerOf other := by exact fun _ h => .inl h
  pc : (u.pc t).Sound u t
  shared : ∀ stripe, s.shared stripe ≠ 0 → u.shared stripe ≠ 0 ∨ u.pc t = .check := by
    exact fun _ h => .inl h
  view : ∀ stripe, s.owner stripe = ownerOf t → s.local_.view t stripe ≠ 0 →
    u.local_.view t stripe ≠ 0 ∨ u.pc t = .check := by exact fun _ _ h => .inl h
  drop : s.closing = true → s.pc t = .check ∨ s.pc t = .notify →
    u.notified = true ∨ u.pc t = .check ∨ u.pc t = .notify

variable {s u : State} {t : Nat}

theorem ownerOf_inj {t other : Nat} (h : ownerOf t = ownerOf other) : t = other :=
  Nat.succ.inj h

theorem Private.view {local_ : Mem Nat Nat Nat} (h : Private s t local_) {other stripe : Nat}
    (hother : other ≠ t) (howner : s.owner stripe = ownerOf other) :
    local_.view other stripe = s.local_.view other stripe := by
  refine Mem.view_other (h.buffer other hother) (h.memory stripe fun heq => ?_)
  exact hother (ownerOf_inj (howner.symm.trans heq))

theorem Moved.owned (h : Moved s u t) {stripe x : Nat} (howner : s.owner stripe = ownerOf x) :
    u.owner stripe = ownerOf x := by
  rcases h.owner stripe with hsame | ⟨hnone, -⟩
  · exact hsame.trans howner
  · exact absurd (hnone.symm.trans howner) (Nat.succ_ne_zero x).symm

theorem Tidy.moved (h : Tidy s) (hmoved : Moved s u t) : Tidy u where
  own := fun x store hstore => by
    by_cases hx : x = t
    · subst hx
      exact hmoved.owned (hmoved.isolated.own store hstore)
    · rw [hmoved.isolated.buffer x hx] at hstore
      exact hmoved.owned (h.own x store hstore)
  unowned := fun stripe hnone => by
    have hbefore : s.owner stripe = 0 := by
      rcases hmoved.owner stripe with hsame | ⟨hbefore, -⟩
      · exact hsame.symm.trans hnone
      · exact hbefore
    rw [hmoved.isolated.memory stripe (by rw [hbefore]; exact (Nat.succ_ne_zero t).symm)]
    exact h.unowned stripe hbefore
  owners := fun stripe hsome => by
    rcases hmoved.owner stripe with hsame | ⟨-, howner⟩
    · rw [hsame] at hsome ⊢
      exact h.owners stripe hsome
    · exact ⟨t, howner⟩
  locals := fun x hheld => (hmoved.locals x hheld).elim (fun hold => hmoved.owned (h.locals x hold)) id
  pcs := fun x => by
    by_cases hx : x = t
    · subst hx
      exact hmoved.pc
    · rw [hmoved.pcs x hx]
      have hsound := h.pcs x
      cases hpc : s.pc x <;> rw [hpc] at hsound
      case load | unload => exact hmoved.owned hsound
      case store | unstore =>
        exact ⟨hmoved.owned hsound.1, (hmoved.isolated.view hx hsound.1).trans hsound.2⟩
      all_goals trivial

theorem Promised.moved (h : Promised s) (hmoved : Moved s u t) (hclosing : s.closing = true) :
    u.notified = true ∨ Promised u := by
  cases h with
  | shared stripe hcount =>
    exact .inr ((hmoved.shared stripe hcount).elim (.shared stripe) fun hpc => .drop t (.inl hpc))
  | view x stripe howner hcount =>
    right
    by_cases hx : x = t
    · subst hx
      exact (hmoved.view stripe howner hcount).elim (.view x stripe (hmoved.owned howner))
        fun hpc => .drop x (.inl hpc)
    · refine .view x stripe (hmoved.owned howner) ?_
      rw [hmoved.isolated.view hx howner]
      exact hcount
  | drop x hpc =>
    by_cases hx : x = t
    · subst hx
      exact (hmoved.drop hclosing hpc).imp id (.drop x)
    · exact .inr (.drop x (by rw [hmoved.pcs x hx]; exact hpc))

/-! ## The accesses of a thread -/

theorem Tidy.same (h : Tidy s) (t : Nat) : Private s t s.local_ where
  buffer := fun _ _ => rfl
  memory := fun _ _ => rfl
  own := h.own t

/-- No store of a thread waits for the stripe of another. -/
theorem Tidy.elsewhere (h : Tidy s) {stripe : Nat} (howner : s.owner stripe ≠ ownerOf t) :
    ∀ store ∈ s.local_.buffer t, store.1 ≠ stripe := by
  rintro store hstore rfl
  exact howner (h.own t store hstore)

theorem Tidy.flush (h : Tidy s) (t : Nat) : Private s t (s.local_.flush t) where
  buffer := fun _ hother => Function.update_of_ne hother _ _
  memory := fun _ howner => Mem.apply_of_not_written (h.elsewhere howner) _
  own := by
    rw [Mem.buffer_flush_self]
    exact nofun

theorem Tidy.publish (h : Tidy s) (howner : s.owner (position t) = ownerOf t) (count : Nat) :
    Private s t (s.local_.publish t (position t) count) where
  buffer := fun _ hother => Function.update_of_ne hother _ _
  memory := fun stripe hstripe => by
    have hne : stripe ≠ position t := by
      rintro rfl
      exact hstripe howner
    exact (Function.update_of_ne hne _ _).trans ((h.flush t).memory stripe hstripe)
  own := by
    rw [Mem.buffer_publish_self]
    exact nofun

theorem Tidy.write (h : Tidy s) (howner : s.owner (position t) = ownerOf t) (count : Nat) :
    Private s t (s.local_.write t (position t) count) where
  buffer := fun _ hother => Function.update_of_ne hother _ _
  memory := fun _ _ => rfl
  own := fun store hstore => by
    have hmem : store ∈ s.local_.buffer t ++ [(position t, count)] := by
      simpa only [Mem.write, Function.update_self] using hstore
    rcases List.mem_append.mp hmem with hold | hnew
    · exact h.own t store hold
    · rw [List.mem_singleton.mp hnew]
      exact howner

theorem Tidy.commit (h : Tidy s) {local_ : Mem Nat Nat Nat}
    (hcommit : s.local_.commit t = some local_) : Private s t local_ where
  buffer := fun _ hother => Mem.buffer_commit_other hcommit hother
  memory := fun _ howner => Mem.memory_commit hcommit (h.elsewhere howner)
  own := fun store hstore => h.own t store (Mem.buffer_commit_self hcommit store hstore)

theorem goto_other (s : State) {t other : Nat} (pc : Pc) (h : other ≠ t) :
    (goto s t pc).pc other = s.pc other := Function.update_of_ne h _ _

theorem goto_self (s : State) (t : Nat) (pc : Pc) : (goto s t pc).pc t = pc :=
  Function.update_self ..

/-- A thread that only goes on. -/
theorem Tidy.goes (h : Tidy s) {pc : Pc} (hpc : pc.Sound (goto s t pc) t)
    (hdrop : s.closing = true → s.pc t = .check ∨ s.pc t = .notify → pc = .notify) :
    Moved s (goto s t pc) t where
  isolated := h.same t
  pcs := fun _ hother => goto_other s pc hother
  pc := by rw [goto_self]; exact hpc
  drop := fun hclosing hold => .inr (.inr ((goto_self s t pc).trans (hdrop hclosing hold)))

theorem view_flush_ne {stripe : Nat} (h : s.local_.view t stripe ≠ 0) :
    (s.local_.flush t).view t stripe ≠ 0 := by
  rw [Mem.view_flush_self]
  exact h

theorem Tidy.stepThread (h : Tidy s) (hstep : stepThread s t = some u) : Moved s u t := by
  have hsound := h.pcs t
  unfold Buffered.stepThread at hstep
  cases hpc : s.pc t with
  | idle =>
    rw [hpc] at hstep
    cases hstep
  | owner =>
    rw [hpc] at hstep
    have hdrop : ∀ pc, s.closing = true → s.pc t = .check ∨ s.pc t = .notify → pc = Pc.notify :=
      fun _ _ hold => by rw [hpc] at hold; exact hold.elim nofun nofun
    dsimp only at hstep
    split at hstep
    · rename_i howner
      obtain rfl := Option.some.inj hstep
      exact h.goes howner (hdrop _)
    · split at hstep <;> obtain rfl := Option.some.inj hstep <;> exact h.goes trivial (hdrop _)
  | exchange =>
    rw [hpc] at hstep
    dsimp only at hstep
    split at hstep <;> rename_i hnone <;> obtain rfl := Option.some.inj hstep
    · exact
        { isolated := h.flush t
          owner := fun stripe => by
            by_cases hstripe : stripe = position t
            · rw [hstripe]
              exact .inr ⟨hnone, Function.update_self ..⟩
            · exact .inl (Function.update_of_ne hstripe _ _)
          pcs := fun _ hother => Function.update_of_ne hother _ _
          pc := by rw [goto_self]; exact Function.update_self ..
          view := fun _ _ hcount => .inl (view_flush_ne hcount)
          drop := fun _ hold => by rw [hpc] at hold; exact hold.elim nofun nofun }
    · exact
        { isolated := h.flush t
          pcs := fun _ hother => Function.update_of_ne hother _ _
          pc := by rw [goto_self]; trivial
          view := fun _ _ hcount => .inl (view_flush_ne hcount)
          drop := fun _ hold => by rw [hpc] at hold; exact hold.elim nofun nofun }
  | load =>
    rw [hpc] at hstep hsound
    obtain rfl := Option.some.inj hstep
    exact h.goes ⟨hsound, rfl⟩ fun _ hold => by rw [hpc] at hold; exact hold.elim nofun nofun
  | unload =>
    rw [hpc] at hstep hsound
    obtain rfl := Option.some.inj hstep
    exact h.goes ⟨hsound, rfl⟩ fun _ hold => by rw [hpc] at hold; exact hold.elim nofun nofun
  | store count =>
    rw [hpc] at hstep hsound
    obtain rfl := Option.some.inj hstep
    exact
      { isolated := h.publish hsound.1 (count + 1)
        pcs := fun _ hother => Function.update_of_ne hother _ _
        locals := fun other hheld => by
          by_cases hother : other = t
          · subst hother
            exact .inr hsound.1
          · exact .inl (by simpa only [goto, Function.update_of_ne hother] using hheld)
        pc := by rw [goto_self]; trivial
        view := fun stripe _ hcount => .inl (by
          show (s.local_.publish t (position t) (count + 1)).view t stripe ≠ 0
          rw [Mem.view_publish_self]
          by_cases hstripe : stripe = position t
          · rw [hstripe, Function.update_self]
            omega
          · rw [Function.update_of_ne hstripe]
            exact hcount)
        drop := fun _ hold => by rw [hpc] at hold; exact hold.elim nofun nofun }
  | add owned =>
    rw [hpc] at hstep
    have hshared : ∀ stripe, s.shared stripe ≠ 0 →
        Function.update s.shared (position t) (s.shared (position t) + 1) stripe ≠ 0 := by
      intro stripe hcount
      by_cases hstripe : stripe = position t
      · rw [hstripe, Function.update_self]
        omega
      · rw [Function.update_of_ne hstripe]
        exact hcount
    dsimp only at hstep
    split at hstep <;> obtain rfl := Option.some.inj hstep
    all_goals
      exact
        { isolated := h.flush t
          pcs := fun _ hother => Function.update_of_ne hother _ _
          pc := by rw [goto_self]; trivial
          shared := fun stripe hcount => .inl (hshared stripe hcount)
          view := fun _ _ hcount => .inl (view_flush_ne hcount)
          drop := fun _ hold => by rw [hpc] at hold; exact hold.elim nofun nofun }
  | unstore count =>
    rw [hpc] at hstep hsound
    obtain rfl := Option.some.inj hstep
    exact
      { isolated := h.write hsound.1 (count - 1)
        pcs := fun _ hother => Function.update_of_ne hother _ _
        pc := by rw [goto_self]; split <;> trivial
        view := fun stripe _ hcount => by
          rw [goto_self]
          show (s.local_.write t (position t) (count - 1)).view t stripe ≠ 0 ∨ _
          rw [Mem.view_write_self]
          by_cases hstripe : stripe = position t
          · -- The last local guard goes on to look at the flag.
            rw [hstripe, hsound.2] at hcount
            rw [hstripe, Function.update_self]
            by_cases hlast : count = 1
            · exact .inr (if_pos hlast)
            · exact .inl (by omega)
          · rw [Function.update_of_ne hstripe]
            exact .inl hcount
        drop := fun _ hold => by rw [hpc] at hold; exact hold.elim nofun nofun }
  | sub stripe =>
    rw [hpc] at hstep
    obtain rfl := Option.some.inj hstep
    exact
      { isolated := h.flush t
        pcs := fun _ hother => Function.update_of_ne hother _ _
        pc := by rw [goto_self]; split <;> trivial
        shared := fun other hcount => by
          rw [goto_self]
          show Function.update s.shared stripe (s.shared stripe - 1) other ≠ 0 ∨ _
          by_cases hother : other = stripe
          · rw [hother] at hcount
            rw [hother, Function.update_self]
            by_cases hlast : s.shared stripe = 1
            · exact .inr (if_pos hlast)
            · exact .inl (by omega)
          · rw [Function.update_of_ne hother]
            exact .inl hcount
        view := fun _ _ hcount => .inl (view_flush_ne hcount)
        drop := fun _ hold => by rw [hpc] at hold; exact hold.elim nofun nofun }
  | check =>
    rw [hpc] at hstep
    obtain rfl := Option.some.inj hstep
    refine h.goes (by split <;> trivial) fun hclosing _ => ?_
    rw [hclosing]
    rfl
  | notify =>
    rw [hpc] at hstep
    obtain rfl := Option.some.inj hstep
    exact
      { isolated := h.flush t
        pcs := fun _ hother => Function.update_of_ne hother _ _
        pc := by rw [goto_self]; trivial
        view := fun _ _ hcount => .inl (view_flush_ne hcount)
        drop := fun _ _ => .inl rfl }

/-- A thread that begins something holds no more guards than before. -/
theorem Tidy.begins (h : Tidy s) (hidle : s.pc t = .idle) {pc : Pc} (hpc : pc.Sound s t)
    {locals shareds permits : Nat → Nat} (hlocals : ∀ other, locals other ≤ s.locals other) :
    Moved s (Buffered.goto { s with locals, shareds, permits } t pc) t where
  isolated := h.same t
  pcs := fun _ hother => goto_other _ pc hother
  locals := fun other hheld => .inl (Nat.lt_of_lt_of_le hheld (hlocals other))
  pc := by rw [goto_self]; exact hpc
  drop := fun _ hold => by rw [hidle] at hold; exact hold.elim nofun nofun

theorem update_pred_le (f : Nat → Nat) (x other : Nat) :
    Function.update f x (f x - 1) other ≤ f other := by
  by_cases hother : other = x
  · rw [hother, Function.update_self]
    omega
  · exact Nat.le_of_eq (Function.update_of_ne hother _ _)

/-! ## Runs -/

structure Held (s : State) : Prop where
  tidy : Tidy s
  closing : s.closer.closes = true → s.closing = true
  waits : s.closer = .waiting → s.notified = false → Promised s

/-- A thread that leaves the closer alone. -/
theorem Held.moved (h : Held s) (hmoved : Moved s u t) (hclosing : u.closing = s.closing)
    (hcloser : u.closer = s.closer) (hnotified : s.notified = true → u.notified = true) : Held u where
  tidy := h.tidy.moved hmoved
  closing := by rw [hcloser, hclosing]; exact h.closing
  waits := by
    rw [hcloser]
    intro hwaiting hunnotified
    have hbefore : s.notified = false := by
      cases hn : s.notified with
      | false => rfl
      | true => exact absurd (hunnotified.symm.trans (hnotified hn)) nofun
    have hshut : s.closing = true := h.closing (by rw [hwaiting]; rfl)
    refine ((h.waits hwaiting hbefore).moved hmoved hshut).resolve_left ?_
    rw [hunnotified]
    exact nofun

theorem stepThread_keeps (hstep : stepThread s t = some u) :
    u.closing = s.closing ∧ u.closer = s.closer ∧ (s.notified = true → u.notified = true) := by
  unfold stepThread at hstep
  cases hpc : s.pc t <;> rw [hpc] at hstep <;> dsimp only at hstep
  case idle => cases hstep
  case owner =>
    split at hstep
    · obtain rfl := Option.some.inj hstep
      exact ⟨rfl, rfl, id⟩
    · split at hstep <;> obtain rfl := Option.some.inj hstep <;> exact ⟨rfl, rfl, id⟩
  case exchange => split at hstep <;> obtain rfl := Option.some.inj hstep <;> exact ⟨rfl, rfl, id⟩
  case add => split at hstep <;> obtain rfl := Option.some.inj hstep <;> exact ⟨rfl, rfl, id⟩
  case notify =>
    obtain rfl := Option.some.inj hstep
    exact ⟨rfl, rfl, fun _ => rfl⟩
  all_goals
    obtain rfl := Option.some.inj hstep
    exact ⟨rfl, rfl, id⟩

/-- The thread that drains loads nothing stale, so what it finds will be announced. -/
theorem Tidy.found (h : Tidy s) {closer stripe : Nat} (hfresh : ¬ Stale closer s stripe)
    (hcount : s.local_.view closer stripe ≠ 0) : Promised s := by
  by_cases hown : s.owner stripe = ownerOf closer
  · exact .view closer stripe hown hcount
  · have hmemory : s.local_.memory stripe ≠ 0 := by
      rwa [Mem.view, Mem.apply_of_not_written (h.elsewhere hown)] at hcount
    obtain ⟨x, howner⟩ := h.owners stripe fun hnone => hmemory (h.unowned stripe hnone)
    by_cases hview : s.local_.view x stripe = 0
    · refine .drop x (not_not.mp fun hquiet => hfresh ⟨x, ?_, howner, hview, hmemory, ?_, ?_⟩)
      · rintro rfl
        exact hown howner
      · exact fun hcheck => hquiet (.inl hcheck)
      · exact fun hnotify => hquiet (.inr hnotify)
    · exact .view x stripe howner hview

theorem Held.enable (h : Held s) {closer : Nat} (hidle : s.pc closer = .idle)
    (hcloses : s.closer.closes = true) : Held (enable s closer) where
  tidy := h.tidy.moved (t := closer)
    { isolated := h.tidy.flush closer
      pcs := fun _ _ => rfl
      pc := by
        show (s.pc closer).Sound _ closer
        rw [hidle]
        trivial
      view := fun _ _ hcount => .inl (view_flush_ne hcount)
      drop := fun _ hold => by rw [hidle] at hold; exact hold.elim nofun nofun }
  closing := fun _ => h.closing hcloses
  waits := nofun

theorem Held.stepCloser (h : Held s) {closer : Nat} (hfresh : Fresh closer s .closer)
    (hstep : stepCloser s closer = some u) : Held u := by
  unfold Buffered.stepCloser at hstep
  split at hstep
  · cases hstep
  · rename_i hbusy
    have hidle : s.pc closer = .idle := not_not.mp hbusy
    cases hcloser : s.closer with
    | start =>
      rw [hcloser] at hstep
      obtain rfl := Option.some.inj hstep
      have hsound : Pc.Sound (goto s closer .owner) closer .owner := trivial
      have htidy := h.tidy.moved (h.tidy.goes hsound fun _ hold => by
        rw [hidle] at hold
        rcases hold with hold | hold <;> cases hold)
      exact ⟨{ htidy with }, (fun h => by cases h), fun h => by cases h⟩
    | opening =>
      rw [hcloser] at hstep
      obtain rfl := Option.some.inj hstep
      refine ⟨h.tidy.moved (t := closer) ?_, fun _ => rfl, fun h => by cases h⟩
      exact
        { isolated := h.tidy.flush closer
          pcs := fun _ _ => rfl
          pc := by
            show (s.pc closer).Sound _ closer
            rw [hidle]
            trivial
          view := fun _ _ hcount => .inl (view_flush_ne hcount)
          drop := fun _ hold => by rw [hidle] at hold; rcases hold with hold | hold <;> cases hold }
    | closed =>
      rw [hcloser] at hstep
      have hclosing := h.closing (by rw [hcloser]; rfl)
      dsimp only at hstep
      split at hstep <;> rename_i hheld <;> obtain rfl := Option.some.inj hstep
      · have htidy : Tidy (Buffered.goto { s with
            locals := Function.update s.locals closer (s.locals closer - 1) } closer .unload) :=
          h.tidy.moved (h.tidy.begins hidle
            (show Pc.Sound s closer .unload from h.tidy.locals closer hheld)
            (update_pred_le s.locals closer))
        exact ⟨{ htidy with }, fun _ => hclosing, fun h => by cases h⟩
      · have htidy : Tidy (Buffered.goto { s with
            shareds := Function.update s.shareds closer (s.shareds closer - 1) } closer
            (.sub (position closer))) :=
          h.tidy.moved (h.tidy.begins hidle
            (show Pc.Sound s closer (.sub (position closer)) from trivial) fun _ => Nat.le_refl _)
        exact ⟨{ htidy with }, fun _ => hclosing, fun h => by cases h⟩
    | dropping =>
      rw [hcloser] at hstep
      obtain rfl := Option.some.inj hstep
      exact h.enable hidle (by rw [hcloser]; rfl)
    | scan second stripe half =>
      rw [hcloser] at hstep
      have hclosing := h.closing (by rw [hcloser]; rfl)
      have hgoes : ∀ next, next ≠ Closer.waiting → Held { s with closer := next } := fun next hne =>
        ⟨{ h.tidy with }, fun _ => hclosing, fun hwaiting => absurd hwaiting hne⟩
      cases half with
      | false =>
        dsimp only at hstep
        split at hstep <;> rename_i hcount <;> obtain rfl := Option.some.inj hstep
        · exact hgoes _ fun h => by cases h
        · have hpromised := h.tidy.found (hfresh second stripe hcloser) hcount
          refine ⟨{ h.tidy with }, fun _ => hclosing, fun _ _ => ?_⟩
          cases hpromised with
          | shared stripe hcount => exact .shared stripe hcount
          | view x stripe howner hcount => exact .view x stripe howner hcount
          | drop x hpc => exact .drop x hpc
      | true =>
        dsimp only at hstep
        split at hstep
        · split at hstep
          · obtain rfl := Option.some.inj hstep
            exact hgoes _ fun h => by cases h
          · split at hstep <;> obtain rfl := Option.some.inj hstep <;> exact hgoes _ fun h => by cases h
        · rename_i hcount
          obtain rfl := Option.some.inj hstep
          exact ⟨{ h.tidy with }, fun _ => hclosing, fun _ _ => .shared stripe hcount⟩
    | waiting =>
      rw [hcloser] at hstep
      dsimp only at hstep
      split at hstep
      · obtain rfl := Option.some.inj hstep
        exact h.enable hidle (by rw [hcloser]; rfl)
      · cases hstep
    | drained =>
      rw [hcloser] at hstep
      cases hstep

theorem Held.begin_ (h : Held s) {closer : Nat} {pc : Pc} (hpc : pc.Sound s t)
    {locals shareds permits : Nat → Nat} (hlocals : ∀ other, locals other ≤ s.locals other)
    (hnext : begin_ { s with locals, shareds, permits } closer t pc = some u) : Held u := by
  unfold Buffered.begin_ at hnext
  split at hnext
  · rename_i hfree
    obtain rfl := Option.some.inj hnext
    exact h.moved (h.tidy.begins hfree.2 hpc hlocals) rfl rfl id
  · cases hnext

theorem Held.next (h : Held s) {closer : Nat} {a : Action} (hfresh : Fresh closer s a)
    (hnext : next closer s a = some u) : Held u := by
  cases a with
  | reserve t => exact h.begin_ (show Pc.Sound s t .owner from trivial) (fun _ => Nat.le_refl _) hnext
  | reserveOwned t => exact h.begin_ (show Pc.Sound s t (.add true) from trivial) (fun _ => Nat.le_refl _) hnext
  | dropLocal t =>
    unfold Buffered.next at hnext
    dsimp only at hnext
    split at hnext
    · rename_i hheld
      exact h.begin_ (show Pc.Sound s t .unload from h.tidy.locals t hheld) (update_pred_le s.locals t) hnext
    · cases hnext
  | dropShared t =>
    unfold Buffered.next at hnext
    dsimp only at hnext
    split at hnext
    · exact h.begin_ (show Pc.Sound s t (.sub _) from trivial) (fun _ => Nat.le_refl _) hnext
    · cases hnext
  | dropOwned t stripe =>
    unfold Buffered.next at hnext
    dsimp only at hnext
    split at hnext
    · exact h.begin_ (show Pc.Sound s t (.sub _) from trivial) (fun _ => Nat.le_refl _) hnext
    · cases hnext
  | step t =>
    obtain ⟨hclosing, hcloser, hnotified⟩ := stepThread_keeps hnext
    exact h.moved (h.tidy.stepThread hnext) hclosing hcloser hnotified
  | commit t =>
    obtain ⟨local_, hcommit, rfl⟩ := Option.map_eq_some_iff.mp hnext
    have hview := Mem.view_commit_self hcommit
    have hmoved : Moved s { s with local_ } t :=
      { isolated := h.tidy.commit hcommit
        pcs := fun _ _ => rfl
        pc := by
          have hsound := h.tidy.pcs t
          show (s.pc t).Sound _ t
          cases hpc : s.pc t <;> rw [hpc] at hsound
          case store | unstore =>
            refine ⟨hsound.1, ?_⟩
            show local_.view t (position t) = _
            rw [hview]
            exact hsound.2
          all_goals exact hsound
        view := fun _ _ hcount => .inl (by rw [hview]; exact hcount)
        drop := fun _ hold => .inr hold }
    exact h.moved hmoved rfl rfl id
  | closer => exact h.stepCloser hfresh hnext

theorem Held.init : Held init where
  tidy :=
    { own := fun _ => nofun
      unowned := fun _ _ => rfl
      owners := fun _ hsome => absurd rfl hsome
      locals := fun _ hheld => absurd hheld (Nat.lt_irrefl 0)
      pcs := fun _ => trivial }
  closing := nofun
  waits := nofun

/-- What is promised is not lost. -/
theorem Promised.not_lost (h : Promised s) : ¬ Lost s := by
  intro hlost
  cases h with
  | shared stripe hcount => exact hcount (hlost.shareds stripe)
  | view t stripe howner hcount =>
    rw [Mem.view_of_empty _ _ (hlost.committed t)] at hcount
    exact hcount (hlost.locals stripe)
  | drop t hpc =>
    rw [hlost.quiet t] at hpc
    exact hpc.elim nofun nofun

theorem no_lost_wakeup {closer : Nat} {as : List Action} {s : State}
    (hexec : Run.exec (next closer) init as = some s)
    (hfresh : Run.Along (next closer) (Fresh closer) init as) : ¬ Lost s := by
  have hheld : Held s := Run.exec_invariant_along (I := Held)
    (fun _ _ _ hs hf hn => hs.next hf hn) Held.init hfresh hexec
  intro hlost
  exact (hheld.waits hlost.waiting hlost.unnotified).not_lost hlost

/-- Thread 0 closes, and drains up to the stripe of thread 1. -/
def closing : List Action :=
  [.closer, .step 0, .step 0, .step 0, .step 0, .closer, .closer, .step 0, .step 0, .step 0, .step 0,
    .closer, .closer, .closer, .closer, .closer]

theorem unwritten {closer stripe : Nat} {second : Bool} (hscan : s.closer = .scan second stripe false)
    (hzero : s.local_.memory stripe = 0) : Fresh closer s .closer := by
  intro _ found hfound
  obtain ⟨-, rfl, -⟩ := Closer.scan.inj (hscan.symm.trans hfound)
  rintro ⟨-, -, -, -, hmemory, -⟩
  exact hmemory hzero

/-- The drain waits for thread 1, which has opened an activity. -/
def held : List Action := [.reserve 1, .step 1, .step 1, .step 1, .step 1] ++ closing ++ [.closer]

theorem no_lost_wakeup_held :
    (Run.exec (next 0) init held).map State.closer = some .waiting ∧
      ∀ s, Run.exec (next 0) init held = some s → ¬ Lost s := by
  refine ⟨by decide, fun s hexec => no_lost_wakeup hexec ?_⟩
  refine Run.along_cons trivial rfl (Run.along_cons trivial rfl (Run.along_cons trivial rfl
    (Run.along_cons trivial rfl (Run.along_cons trivial rfl ?_))))
  refine Run.along_cons (fun _ _ => nofun) rfl (Run.along_cons trivial rfl (Run.along_cons trivial
    rfl (Run.along_cons trivial rfl (Run.along_cons trivial rfl ?_))))
  refine Run.along_cons (fun _ _ => nofun) rfl (Run.along_cons (fun _ _ => nofun) rfl
    (Run.along_cons trivial rfl (Run.along_cons trivial rfl (Run.along_cons trivial rfl
    (Run.along_cons trivial rfl (Run.along_cons (fun _ _ => nofun) rfl ?_))))))
  -- Nothing was stored to the first two stripes that is not visible.
  refine Run.along_cons (unwritten rfl rfl) rfl (Run.along_cons (fun _ _ => nofun) rfl ?_)
  refine Run.along_cons (unwritten rfl rfl) rfl (Run.along_cons (fun _ _ => nofun) rfl ?_)
  refine Run.along_cons (fun second stripe hscan => ?_) rfl (Run.along_nil _ _)
  cases hscan
  rintro ⟨t, -, howner, hview, -⟩
  obtain rfl : t = 1 := (ownerOf_inj howner).symm
  cases hview

/-- Thread 1 drops its activity while the cache is open; then it is closed and scanned before the
release is visible. -/
def missed : List Action :=
  [.reserve 1, .step 1, .step 1, .step 1, .step 1, .dropLocal 1, .step 1, .step 1, .step 1] ++
    closing ++ [.closer, .commit 1]

theorem lost_wakeup : ¬ ∀ (closer : Nat) (as : List Action) (s : State),
    Run.exec (next closer) init as = some s → ¬ Lost s := by
  intro h
  refine h 0 missed _ rfl ⟨rfl, rfl, fun t => ?_, fun stripe => ?_, fun stripe => ?_, fun t => ?_⟩
  · match t with
    | 0 => rfl
    | 1 => rfl
    | t + 2 => rfl
  · match stripe with
    | 0 => rfl
    | 1 => rfl
    | 2 => rfl
    | stripe + 3 => rfl
  · rfl
  · match t with
    | 0 => rfl
    | 1 => rfl
    | t + 2 => rfl

end Buffered

end Amalgam
