import Amalgam.Lib.Bits
import Amalgam.Lib.Run
import Mathlib.Data.Multiset.Filter
import Mathlib.Data.Multiset.Replicate

/-!
# Amalgam — reader slots

`src/reader_slots.rs`: readers publish a count in the slot of their thread and then look at the
gate; a writer closes the gate and then scans the counts of the slots that the bitmaps name. Every
access of an atomic or of a mutex is one step, in one order of them all. Threads are numbered by
their reader index, so that two threads whose indices agree below the number of slots share a slot.

This module has the lock, and what it knows of its slots: whose local count is, what the counts
count and which bits are set.
-/

namespace Amalgam

namespace ReaderSlots

/-- The largest `usize`. -/
def usizeMax : Nat := 2 ^ 64 - 1

/-- Where a thread stands. `retry` tells the drop of a reservation that found the gate closed from
the drop of a guard, `tried` tells `try_write` from `write`. -/
inductive Pc where
  | idle
  -- `reserve`
  | owner
  | initialized
  | exchange
  | load
  | store (count : Nat)
  | add
  -- `read`
  | gate (shared : Bool)
  -- `ReservationGuard::drop`
  | unload (retry : Bool)
  | unstore (count : Nat) (retry : Bool)
  | sub (retry : Bool)
  -- `wait_for_writer`
  | interest
  | lockWaiters
  | gateWaiting
  /-- The gate was closed, and the mutex of the waiters is still held. -/
  | wait
  | parked
  | unlockWaiters
  | uninterest
  -- `write` and `try_write`
  | lockSerial
  | tryLockSerial
  | close (tried : Bool)
  -- `idle`
  | group (tried : Bool) (group : Nat)
  | slot (tried : Bool) (group : Nat) (used : BitVec 64) (shared : Bool)
  /-- The bitmap named a slot that the group does not have. -/
  | outOfBounds
  -- `WriterHold::drop`
  | open_
  | interested
  | lockNotify
  | notify
  | unlockNotify
  | unlockSerial
deriving DecidableEq

structure State where
  owner : Nat → Nat
  local_ : Nat → Nat
  shared : Nat → Nat
  /-- The bitmap of each group of 64 slots. -/
  initialized : Nat → BitVec 64
  /-- The gate is closed. -/
  gate : Bool
  serial : Option Nat
  waiters : Option Nat
  waiting : Nat
  pc : Nat → Pc
  /-- The guards that a thread holds. -/
  locals : Nat → Nat
  shareds : Nat → Nat
  writes : Nat → Nat

/-- `slots.len()` is `2 ^ size`. -/
def slots (size : Nat) : Nat := 2 ^ size

def index (size : Nat) (t : Nat) : Nat := t &&& (slots size - 1)

def identity (t : Nat) : Nat := t + 1

/-- The number of chunks of 64 slots. -/
def groups (size : Nat) : Nat := (slots size + 63) / 64

def goto (s : State) (t : Nat) (pc : Pc) : State :=
  { s with pc := Function.update s.pc t pc }

/-- The scan has no slot left in a group. -/
def nextGroup (size : Nat) (s : State) (t : Nat) (tried : Bool) (group : Nat) : State :=
  if group + 1 < groups size then goto s t (.group tried (group + 1))
  else goto { s with writes := Function.update s.writes t (s.writes t + 1) } t .idle

/-- A count is not zero: `try_write` gives up, `write` scans again. -/
def busy (s : State) (t : Nat) (tried : Bool) : State :=
  goto s t (if tried then .open_ else .group false 0)

/-- Whoever is parked wakes up and takes the mutex of the waiters again. -/
def notifyAll (s : State) (t : Nat) : State :=
  let woken := fun x => if s.pc x = .parked then .lockWaiters else s.pc x
  { s with pc := Function.update woken t .unlockNotify }

/-- One access of a thread. -/
def step (size : Nat) (s : State) (t : Nat) : Option State :=
  let i := index size t
  match s.pc t with
  | .idle | .parked | .outOfBounds => none
  | .owner =>
    if s.owner i = 0 then some (goto s t .initialized)
    else if s.owner i = identity t then some (goto s t .load)
    else some (goto s t .add)
  | .initialized =>
    some (goto { s with
      initialized := Function.update s.initialized (i / 64)
        (s.initialized (i / 64) ||| 1#64 <<< (i % 64)) } t .exchange)
  | .exchange =>
    if s.owner i = 0 then
      some (goto { s with owner := Function.update s.owner i (identity t) } t .load)
    else some (goto s t .add)
  | .load =>
    -- An exhausted count is a panic, with nothing reserved.
    if s.local_ i < usizeMax then some (goto s t (.store (s.local_ i)))
    else some (goto s t .idle)
  | .store count =>
    some (goto { s with local_ := Function.update s.local_ i (count + 1) } t (.gate false))
  | .add =>
    if s.shared i < usizeMax then
      some (goto { s with shared := Function.update s.shared i (s.shared i + 1) } t (.gate true))
    else some (goto s t .idle)
  | .gate false =>
    if s.gate then some (goto s t (.unload true))
    else some (goto { s with locals := Function.update s.locals t (s.locals t + 1) } t .idle)
  | .gate true =>
    if s.gate then some (goto s t (.sub true))
    else some (goto { s with shareds := Function.update s.shareds t (s.shareds t + 1) } t .idle)
  | .unload retry => some (goto s t (.unstore (s.local_ i) retry))
  | .unstore count retry =>
    some (goto { s with local_ := Function.update s.local_ i (count - 1) } t
      (if retry then .interest else .idle))
  | .sub retry =>
    some (goto { s with shared := Function.update s.shared i (s.shared i - 1) } t
      (if retry then .interest else .idle))
  | .interest => some (goto { s with waiting := s.waiting + 1 } t .lockWaiters)
  | .lockWaiters =>
    if s.waiters = none then some (goto { s with waiters := some t } t .gateWaiting) else none
  | .gateWaiting => some (goto s t (if s.gate then .wait else .unlockWaiters))
  | .wait => some (goto { s with waiters := none } t .parked)
  | .unlockWaiters => some (goto { s with waiters := none } t .uninterest)
  | .uninterest => some (goto { s with waiting := s.waiting - 1 } t .owner)
  | .lockSerial =>
    if s.serial = none then some (goto { s with serial := some t } t (.close false)) else none
  | .tryLockSerial =>
    if s.serial = none then some (goto { s with serial := some t } t (.close true))
    else some (goto s t .idle)
  | .close tried => some (goto { s with gate := true } t (.group tried 0))
  | .group tried group =>
    if s.initialized group = 0#64 then some (nextGroup size s t tried group)
    else some (goto s t (.slot tried group (s.initialized group) false))
  | .slot tried group used false =>
    let slot := 64 * group + used.ctz.toNat
    if slots size ≤ slot then some (goto s t .outOfBounds)
    else if s.local_ slot = 0 then some (goto s t (.slot tried group used true))
    else some (busy s t tried)
  | .slot tried group used true =>
    let slot := 64 * group + used.ctz.toNat
    let rest := used &&& (used - 1#64)
    if s.shared slot = 0 then
      if rest = 0#64 then some (nextGroup size s t tried group)
      else some (goto s t (.slot tried group rest false))
    else some (busy s t tried)
  | .open_ => some (goto { s with gate := false } t .interested)
  | .interested =>
    some (goto s t (if s.waiting = 0 then .unlockSerial else .lockNotify))
  | .lockNotify =>
    if s.waiters = none then some (goto { s with waiters := some t } t .notify) else none
  | .notify => some (notifyAll s t)
  | .unlockNotify => some (goto { s with waiters := none } t .unlockSerial)
  | .unlockSerial => some (goto { s with serial := none } t .idle)

inductive Action where
  | read (t : Nat)
  | write (t : Nat)
  | tryWrite (t : Nat)
  | dropRead (t : Nat) (shared : Bool)
  | dropWrite (t : Nat)
  | step (t : Nat)

variable (size : Nat) in
def next (s : State) : Action → Option State
  | .read t => if s.pc t = .idle then some (goto s t .owner) else none
  | .write t => if s.pc t = .idle then some (goto s t .lockSerial) else none
  | .tryWrite t => if s.pc t = .idle then some (goto s t .tryLockSerial) else none
  | .dropRead t false =>
    if s.pc t = .idle ∧ 0 < s.locals t then
      some (goto { s with locals := Function.update s.locals t (s.locals t - 1) } t (.unload false))
    else none
  | .dropRead t true =>
    if s.pc t = .idle ∧ 0 < s.shareds t then
      some (goto { s with shareds := Function.update s.shareds t (s.shareds t - 1) } t (.sub false))
    else none
  | .dropWrite t =>
    if s.pc t = .idle ∧ 0 < s.writes t then
      some (goto { s with writes := Function.update s.writes t (s.writes t - 1) } t .open_)
    else none
  | .step t => step size s t

def init : State where
  owner := fun _ => 0
  local_ := fun _ => 0
  shared := fun _ => 0
  initialized := fun _ => 0#64
  gate := false
  serial := none
  waiters := none
  waiting := 0
  pc := fun _ => .idle
  locals := fun _ => 0
  shareds := fun _ => 0
  writes := fun _ => 0

/-! ## The slots -/

/-- The bit of a slot in the bitmap of its group. -/
def State.bit (s : State) (slot : Nat) : Bool := (s.initialized (slot / 64)).getLsbD (slot % 64)

/-- A reservation that is not, or not any more, one of a guard. -/
def Pc.localHeld : Pc → Nat
  | .gate false | .unload _ | .unstore _ _ => 1
  | _ => 0

def Pc.sharedHeld : Pc → Nat
  | .gate true | .sub _ => 1
  | _ => 0

/-- What a thread that stands here knows of the slots. -/
def Pc.Knows (size : Nat) (s : State) (t : Nat) : Pc → Prop
  | .exchange => s.bit (index size t) = true
  | .add => s.owner (index size t) ≠ 0
  | .load => s.owner (index size t) = identity t
  | .store count => s.owner (index size t) = identity t ∧ s.local_ (index size t) = count
  | .unstore count _ => s.local_ (index size t) = count
  | .slot _ g used _ => used ≠ 0#64 ∧ ∀ b, used.getLsbD b = true → 64 * g + b < slots size
  | .outOfBounds => False
  | _ => True

structure Slots (size : Nat) (s : State) : Prop where
  owners : ∀ i, s.owner i ≠ 0 → ∃ t, s.owner i = identity t ∧ index size t = i
  bits : ∀ i, s.owner i ≠ 0 → s.bit i = true
  range : ∀ group b, (s.initialized group).getLsbD b = true → 64 * group + b < slots size
  unowned : ∀ i, s.owner i = 0 → s.local_ i = 0 ∧ s.shared i = 0
  locals : ∀ t, s.owner (index size t) = identity t →
    s.local_ (index size t) = s.locals t + (s.pc t).localHeld
  /-- Only the owner of a slot has local reservations. -/
  foreign : ∀ t, s.owner (index size t) ≠ identity t → s.locals t = 0 ∧ (s.pc t).localHeld = 0
  /-- The shared count of a slot counts the shared reservations of its threads. -/
  shares : ∀ i, ∃ sharers : Multiset Nat, sharers.card = s.shared i ∧
    ∀ t, sharers.count t = if index size t = i then s.shareds t + (s.pc t).sharedHeld else 0
  knows : ∀ t, (s.pc t).Knows size s t

variable {size : Nat} {s u : State} {t : Nat}

theorem identity_inj {t x : Nat} (h : identity t = identity x) : t = x := Nat.succ.inj h

theorem identity_ne_zero (t : Nat) : identity t ≠ 0 := Nat.succ_ne_zero t

theorem index_lt (size t : Nat) : index size t < slots size := by
  have hle : index size t ≤ slots size - 1 := Nat.and_le_right
  have hpos : 0 < slots size := Nat.two_pow_pos size
  omega

/-- Who else moves wakes up. -/
def Woken (s u : State) (x : Nat) : Prop :=
  u.pc x = s.pc x ∨ s.pc x = .parked ∧ u.pc x = .lockWaiters

theorem Woken.view {α : Type} (view : Pc → α) (h : Woken s u t)
    (hview : view .lockWaiters = view .parked) : view (u.pc t) = view (s.pc t) := by
  rcases h with hsame | ⟨hbefore, hafter⟩
  · rw [hsame]
  · rw [hbefore, hafter]
    exact hview

theorem goto_self (s : State) (t : Nat) (pc : Pc) : (goto s t pc).pc t = pc :=
  Function.update_self ..

theorem goto_other (s : State) (pc : Pc) {t x : Nat} (h : x ≠ t) : Woken s (goto s t pc) x :=
  .inl (Function.update_of_ne h _ _)

theorem notifyAll_self (s : State) (t : Nat) : (notifyAll s t).pc t = .unlockNotify := by
  simp only [notifyAll, Function.update_self]

theorem notifyAll_other (s : State) {t x : Nat} (h : x ≠ t) : Woken s (notifyAll s t) x := by
  unfold Woken notifyAll
  dsimp only
  rw [Function.update_of_ne h]
  by_cases hparked : s.pc x = .parked
  · exact .inr ⟨hparked, if_pos hparked⟩
  · exact .inl (if_neg hparked)

/-- What a thread does to the slots; what is not given stays as it is. -/
structure SlotMove (size : Nat) (s u : State) (t : Nat) : Prop where
  others : ∀ x, x ≠ t → Woken s u x
  guards : ∀ x, x ≠ t → u.locals x = s.locals x ∧ u.shareds x = s.shareds x := by
    exact fun _ _ => ⟨rfl, rfl⟩
  owner : ∀ i, u.owner i = s.owner i ∨
    i = index size t ∧ s.owner i = 0 ∧ u.owner i = identity t ∧ s.bit i = true := by
    exact fun _ => .inl rfl
  grows : ∀ group b, (s.initialized group).getLsbD b = true →
    (u.initialized group).getLsbD b = true := by exact fun _ _ h => h
  range : ∀ group b, (u.initialized group).getLsbD b = true →
    (s.initialized group).getLsbD b = true ∨ 64 * group + b < slots size := by
    exact fun _ _ h => .inl h
  local_ : ∀ i, u.local_ i = s.local_ i ∨ i = index size t ∧ s.owner i = identity t := by
    exact fun _ => .inl rfl
  shared : ∀ i, u.shared i = s.shared i ∨ i = index size t ∧ s.owner i ≠ 0 := by
    exact fun _ => .inl rfl
  mine : s.owner (index size t) = identity t →
    u.local_ (index size t) + (s.locals t + (s.pc t).localHeld) =
      s.local_ (index size t) + (u.locals t + (u.pc t).localHeld)
  foreign : s.owner (index size t) ≠ identity t →
    u.locals t = s.locals t ∧ (u.pc t).localHeld = (s.pc t).localHeld
  share : u.shared (index size t) + (s.shareds t + (s.pc t).sharedHeld) =
    s.shared (index size t) + (u.shareds t + (u.pc t).sharedHeld)
  knows : (u.pc t).Knows size u t

theorem SlotMove.owned (h : SlotMove size s u t) {i x : Nat} (howner : s.owner i = identity x) :
    u.owner i = identity x := by
  rcases h.owner i with hsame | ⟨-, hnone, -⟩
  · exact hsame.trans howner
  · exact absurd (hnone.symm.trans howner) (identity_ne_zero x).symm

/-- Another thread has the slots that it had. -/
theorem SlotMove.owner_other (h : SlotMove size s u t) {i x : Nat} (hx : x ≠ t)
    (howner : u.owner i = identity x) : s.owner i = identity x := by
  rcases h.owner i with hsame | ⟨-, -, hmine, -⟩
  · exact hsame.symm.trans howner
  · exact absurd (identity_inj (howner.symm.trans hmine)) hx

theorem SlotMove.local_other (h : SlotMove size s u t) {i x : Nat} (hx : x ≠ t)
    (howner : s.owner i = identity x) : u.local_ i = s.local_ i := by
  rcases h.local_ i with hsame | ⟨-, hmine⟩
  · exact hsame
  · exact absurd (identity_inj (howner.symm.trans hmine)) hx

/-- The reservations of one thread are counted anew. -/
theorem recount (sharers : Multiset Nat) (t held : Nat) :
    ∃ after : Multiset Nat, after.card + sharers.count t = sharers.card + held ∧
      after.count t = held ∧ ∀ x, x ≠ t → after.count x = sharers.count x := by
  refine ⟨sharers.filter (· ≠ t) + Multiset.replicate held t, ?_, ?_, fun x hx => ?_⟩
  · have hsplit := congrArg Multiset.card (Multiset.filter_add_not (· ≠ t) sharers)
    have hcount : (sharers.filter fun x => ¬ x ≠ t).card = sharers.count t := by
      rw [Multiset.count, Multiset.countP_eq_card_filter]
      exact congrArg Multiset.card (Multiset.filter_congr fun x _ => by
        rw [not_not]
        exact eq_comm)
    rw [Multiset.card_add, hcount] at hsplit
    rw [Multiset.card_add, Multiset.card_replicate]
    omega
  · rw [Multiset.count_add, Multiset.count_replicate_self, Multiset.count_filter,
      if_neg (not_not.mpr rfl), Nat.zero_add]
  · rw [Multiset.count_add, Multiset.count_filter, if_pos hx, Multiset.count_replicate,
      if_neg (Ne.symm hx), Nat.add_zero]

theorem Slots.knows_other (h : Slots size s) (hmove : SlotMove size s u t) {x : Nat} (hx : x ≠ t) :
    (u.pc x).Knows size u x := by
  rcases hmove.others x hx with hsame | ⟨-, hafter⟩
  · rw [hsame]
    have hknows := h.knows x
    have howner : (s.pc x).localHeld ≠ 0 → s.owner (index size x) = identity x := fun hheld => by
      by_contra hnot
      exact hheld (h.foreign x hnot).2
    cases hpc : s.pc x <;> rw [hpc] at hknows howner
    case exchange => exact hmove.grows _ _ hknows
    case add =>
      rcases hmove.owner (index size x) with hsame | ⟨-, hnone, -⟩
      · rw [Pc.Knows, hsame]
        exact hknows
      · exact absurd hnone hknows
    case load => exact hmove.owned hknows
    case store count =>
      exact ⟨hmove.owned hknows.1, (hmove.local_other hx hknows.1).trans hknows.2⟩
    case unstore count retry =>
      exact (hmove.local_other hx (howner (Nat.succ_ne_zero 0))).trans hknows
    case slot => exact hknows
    all_goals trivial
  · rw [hafter]
    trivial

theorem Slots.moved (h : Slots size s) (hmove : SlotMove size s u t) : Slots size u where
  owners := fun i howner => by
    rcases hmove.owner i with hsame | ⟨hi, -, hmine, -⟩
    · rw [hsame] at howner ⊢
      exact h.owners i howner
    · exact ⟨t, hmine, hi.symm⟩
  bits := fun i howner => by
    rcases hmove.owner i with hsame | ⟨-, -, -, hbit⟩
    · rw [hsame] at howner
      exact hmove.grows _ _ (h.bits i howner)
    · exact hmove.grows _ _ hbit
  range := fun group b hbit => (hmove.range group b hbit).elim (h.range group b) id
  unowned := fun i hnone => by
    have hbefore : s.owner i = 0 := by
      rcases hmove.owner i with hsame | ⟨-, hbefore, -⟩
      · exact hsame.symm.trans hnone
      · exact hbefore
    obtain ⟨hlocal, hshared⟩ := h.unowned i hbefore
    refine ⟨?_, ?_⟩
    · rcases hmove.local_ i with hsame | ⟨-, hmine⟩
      · exact hsame.trans hlocal
      · exact absurd (hbefore.symm.trans hmine) (identity_ne_zero t).symm
    · exact (hmove.shared i).elim (fun hsame => hsame.trans hshared) fun hsome => absurd hbefore hsome.2
  locals := fun x howner => by
    by_cases hx : x = t
    · subst hx
      rcases hmove.owner (index size x) with hsame | ⟨-, hnone, -, -⟩
      · have hmine := hsame.symm.trans howner
        have hbefore := h.locals x hmine
        have hchange := hmove.mine hmine
        omega
      · -- Nothing was reserved before the slot had an owner.
        have hnot : s.owner (index size x) ≠ identity x := fun hmine =>
          identity_ne_zero x (hmine.symm.trans hnone)
        have hlocal : u.local_ (index size x) = 0 := by
          rcases hmove.local_ (index size x) with hsame | ⟨-, hmine⟩
          · exact hsame.trans (h.unowned _ hnone).1
          · exact absurd hmine hnot
        obtain ⟨hlocals, hheld⟩ := hmove.foreign hnot
        obtain ⟨hzero, hnothing⟩ := h.foreign x hnot
        omega
    · have hmine := hmove.owner_other hx howner
      rw [hmove.local_other hx hmine, (hmove.guards x hx).1, (hmove.others x hx).view Pc.localHeld rfl]
      exact h.locals x hmine
  foreign := fun x howner => by
    have hnot : s.owner (index size x) ≠ identity x := fun hmine => howner (hmove.owned hmine)
    by_cases hx : x = t
    · subst hx
      rw [(hmove.foreign hnot).1, (hmove.foreign hnot).2]
      exact h.foreign x hnot
    · rw [(hmove.guards x hx).1, (hmove.others x hx).view Pc.localHeld rfl]
      exact h.foreign x hnot
  shares := fun i => by
    obtain ⟨sharers, hcard, hcount⟩ := h.shares i
    by_cases hi : index size t = i
    · subst hi
      obtain ⟨after, hafter, hself, hother⟩ :=
        recount sharers t (u.shareds t + (u.pc t).sharedHeld)
      refine ⟨after, ?_, fun x => ?_⟩
      · have hchange := hmove.share
        rw [hcount t, if_pos rfl] at hafter
        omega
      · by_cases hx : x = t
        · rw [hx, hself, if_pos rfl]
        · rw [hother x hx, hcount x, (hmove.guards x hx).2, (hmove.others x hx).view Pc.sharedHeld rfl]
    · refine ⟨sharers, ?_, fun x => ?_⟩
      · rw [hcard]
        exact ((hmove.shared i).resolve_right fun hmine => hi hmine.1.symm).symm
      · rw [hcount x]
        by_cases hx : x = t
        · rw [hx, if_neg hi, if_neg hi]
        · rw [(hmove.guards x hx).2, (hmove.others x hx).view Pc.sharedHeld rfl]
  knows := fun x => by
    by_cases hx : x = t
    · rw [hx]
      exact hmove.knows
    · exact h.knows_other hmove hx

/-- A thread that goes on without touching the slots. -/
theorem Slots.calm (h : Slots size s) {old : Pc} (hpc : s.pc t = old) (u : State)
    (hothers : ∀ x, x ≠ t → Woken s u x) (hlocals : u.locals = s.locals)
    (hshareds : u.shareds = s.shareds) (howner : u.owner = s.owner)
    (hinitialized : u.initialized = s.initialized) (hlocal : u.local_ = s.local_)
    (hshared : u.shared = s.shared) (hlocalHeld : (u.pc t).localHeld = old.localHeld)
    (hsharedHeld : (u.pc t).sharedHeld = old.sharedHeld) (hknows : (u.pc t).Knows size u t) :
    Slots size u :=
  h.moved (t := t)
    { others := hothers
      guards := fun x _ => ⟨by rw [hlocals], by rw [hshareds]⟩
      owner := fun i => .inl (by rw [howner])
      grows := by rw [hinitialized]; exact fun _ _ h => h
      range := by rw [hinitialized]; exact fun _ _ h => .inl h
      local_ := fun i => .inl (by rw [hlocal])
      shared := fun i => .inl (by rw [hshared])
      mine := fun _ => by rw [hlocal, hlocals, hlocalHeld, hpc]
      foreign := fun _ => ⟨by rw [hlocals], by rw [hlocalHeld, hpc]⟩
      share := by rw [hshared, hshareds, hsharedHeld, hpc]
      knows := hknows }

/-- The mutexes, the gate and the writers are none of the slots' business. -/
theorem Slots.aside (h : Slots size s) {old : Pc} (hpc : s.pc t = old) {pc : Pc} {gate : Bool}
    {serial waiters : Option Nat} {waiting : Nat} {writes : Nat → Nat}
    (hlocalHeld : pc.localHeld = old.localHeld) (hsharedHeld : pc.sharedHeld = old.sharedHeld)
    (hknows : pc.Knows size s t) :
    Slots size (goto { s with gate, serial, waiters, waiting, writes } t pc) :=
  h.calm hpc _ (fun _ hx => goto_other s pc hx) rfl rfl rfl rfl rfl rfl
    (by rw [goto_self]; exact hlocalHeld) (by rw [goto_self]; exact hsharedHeld)
    (by rw [goto_self]; exact hknows)

/-- The bit of its slot is set before a thread can become its owner. -/
theorem Slots.setBit (h : Slots size s) (hpc : s.pc t = .initialized)
    (hstep : step size s t = some u) : Slots size u := by
  unfold ReaderSlots.step at hstep
  rw [hpc] at hstep
  obtain rfl := Option.some.inj hstep
  have hmod : index size t % 64 < 64 := Nat.mod_lt _ (by decide)
  have hset : ∀ b, (1#64 <<< (index size t % 64)).getLsbD b = true ↔ b = index size t % 64 := by
    intro b
    rw [BitVec.getLsbD_shiftLeft, BitVec.getLsbD_one]
    simp only [Bool.and_eq_true, decide_eq_true_eq, Bool.not_eq_true', decide_eq_false_iff_not]
    omega
  refine h.moved (t := t) {
    others := fun _ hx => goto_other _ _ hx
    grows := fun group b hbit => ?_
    range := fun group b hbit => ?_
    mine := fun _ => by rw [goto_self, hpc]; rfl
    foreign := fun _ => ⟨rfl, by rw [goto_self, hpc]; rfl⟩
    share := by rw [goto_self, hpc]; rfl
    knows := ?_ }
  · show (Function.update s.initialized (index size t / 64) _ group).getLsbD b = true
    by_cases hgroup : group = index size t / 64
    · subst hgroup
      rw [Function.update_self, BitVec.getLsbD_or, hbit, Bool.true_or]
    · rw [Function.update_of_ne hgroup]
      exact hbit
  · have hbit : (Function.update s.initialized (index size t / 64) _ group).getLsbD b = true := hbit
    by_cases hgroup : group = index size t / 64
    · subst hgroup
      rw [Function.update_self, BitVec.getLsbD_or, Bool.or_eq_true] at hbit
      refine hbit.imp id fun hnew => ?_
      rw [(hset b).mp hnew, Nat.div_add_mod]
      exact index_lt size t
    · rw [Function.update_of_ne hgroup] at hbit
      exact .inl hbit
  · rw [goto_self]
    show (Function.update s.initialized (index size t / 64) _ (index size t / 64)).getLsbD _ = true
    rw [Function.update_self, BitVec.getLsbD_or, (hset _).mpr rfl, Bool.or_true]

/-- The accesses of `reserve`, and of the look at the gate after it. -/
theorem Slots.reserve (h : Slots size s) (hstep : step size s t = some u)
    (hpc : s.pc t = .owner ∨ s.pc t = .exchange ∨ s.pc t = .load ∨
      (∃ count, s.pc t = .store count) ∨ s.pc t = .add ∨ ∃ shared, s.pc t = .gate shared) :
    Slots size u := by
  have hknows := h.knows t
  unfold ReaderSlots.step at hstep
  rcases hpc with hpc | hpc | hpc | ⟨count, hpc⟩ | hpc | ⟨shared, hpc⟩ <;> rw [hpc] at hstep hknows
  · dsimp only at hstep
    split at hstep
    · obtain rfl := Option.some.inj hstep
      exact h.aside hpc rfl rfl trivial
    · rename_i hsome
      split at hstep <;> rename_i howner <;> obtain rfl := Option.some.inj hstep
      · exact h.aside hpc rfl rfl howner
      · exact h.aside hpc rfl rfl hsome
  · dsimp only at hstep
    split at hstep <;> rename_i hnone <;> obtain rfl := Option.some.inj hstep
    · refine h.moved (t := t) {
        others := fun _ hx => goto_other _ _ hx
        owner := fun i => ?_
        mine := fun hmine => absurd (hmine.symm.trans hnone) (identity_ne_zero t)
        foreign := fun _ => ⟨rfl, by rw [goto_self, hpc]; rfl⟩
        share := by rw [goto_self, hpc]; rfl
        knows := by rw [goto_self]; exact Function.update_self .. }
      by_cases hi : i = index size t
      · subst hi
        exact .inr ⟨rfl, hnone, Function.update_self .., hknows⟩
      · exact .inl (Function.update_of_ne hi _ _)
    · exact h.aside hpc rfl rfl hnone
  · dsimp only at hstep
    split at hstep <;> obtain rfl := Option.some.inj hstep
    · exact h.aside hpc rfl rfl ⟨hknows, rfl⟩
    · exact h.aside hpc rfl rfl trivial
  · obtain rfl := Option.some.inj hstep
    obtain ⟨howner, hcount⟩ := hknows
    refine h.moved (t := t) {
      others := fun _ hx => goto_other _ _ hx
      local_ := fun i => ?_
      mine := fun _ => ?_
      foreign := fun hnot => absurd howner hnot
      share := by rw [goto_self, hpc]; rfl
      knows := by rw [goto_self]; trivial }
    · by_cases hi : i = index size t
      · exact .inr ⟨hi, hi ▸ howner⟩
      · exact .inl (Function.update_of_ne hi _ _)
    · rw [goto_self, hpc]
      show Function.update s.local_ _ (count + 1) _ + (s.locals t + 0) = _ + (s.locals t + 1)
      rw [Function.update_self]
      omega
  · dsimp only at hstep
    split at hstep <;> obtain rfl := Option.some.inj hstep
    · refine h.moved (t := t) {
        others := fun _ hx => goto_other _ _ hx
        shared := fun i => ?_
        mine := fun _ => by rw [goto_self, hpc]; rfl
        foreign := fun _ => ⟨rfl, by rw [goto_self, hpc]; rfl⟩
        share := ?_
        knows := by rw [goto_self]; trivial }
      · by_cases hi : i = index size t
        · exact .inr ⟨hi, hi ▸ hknows⟩
        · exact .inl (Function.update_of_ne hi _ _)
      · rw [goto_self, hpc]
        show Function.update s.shared _ (s.shared _ + 1) _ + (s.shareds t + 0) = _ + (s.shareds t + 1)
        rw [Function.update_self]
        omega
    · exact h.aside hpc rfl rfl trivial
  · cases shared with
    | false =>
      dsimp only at hstep
      split at hstep <;> obtain rfl := Option.some.inj hstep
      · exact h.aside hpc rfl rfl trivial
      · refine h.moved (t := t) {
          others := fun _ hx => goto_other _ _ hx
          guards := fun x hx => ⟨Function.update_of_ne hx _ _, rfl⟩
          mine := fun _ => ?_
          foreign := fun hnot => ?_
          share := by rw [goto_self, hpc]; rfl
          knows := by rw [goto_self]; trivial }
        · rw [goto_self, hpc]
          show _ + (s.locals t + 1) = _ + (Function.update s.locals t (s.locals t + 1) t + 0)
          rw [Function.update_self]
          rfl
        · have hheld := (h.foreign t hnot).2
          rw [hpc] at hheld
          cases hheld
    | true =>
      dsimp only at hstep
      split at hstep <;> obtain rfl := Option.some.inj hstep
      · exact h.aside hpc rfl rfl trivial
      · refine h.moved (t := t) {
          others := fun _ hx => goto_other _ _ hx
          guards := fun x hx => ⟨rfl, Function.update_of_ne hx _ _⟩
          mine := fun _ => by rw [goto_self, hpc]; rfl
          foreign := fun _ => ⟨rfl, by rw [goto_self, hpc]; rfl⟩
          share := ?_
          knows := by rw [goto_self]; trivial }
        rw [goto_self, hpc]
        show _ + (s.shareds t + 1) = _ + (Function.update s.shareds t (s.shareds t + 1) t + 0)
        rw [Function.update_self]
        rfl

/-- The accesses of the drop of a reservation. -/
theorem Slots.release (h : Slots size s) (hstep : step size s t = some u)
    (hpc : (∃ retry, s.pc t = .unload retry) ∨ (∃ count retry, s.pc t = .unstore count retry) ∨
      ∃ retry, s.pc t = .sub retry) : Slots size u := by
  have hknows := h.knows t
  unfold ReaderSlots.step at hstep
  rcases hpc with ⟨retry, hpc⟩ | ⟨count, retry, hpc⟩ | ⟨retry, hpc⟩ <;> rw [hpc] at hstep hknows
  · obtain rfl := Option.some.inj hstep
    exact h.aside hpc rfl rfl rfl
  · obtain rfl := Option.some.inj hstep
    have hcount : s.local_ (index size t) = count := hknows
    have howner : s.owner (index size t) = identity t := by
      by_contra hnot
      have hheld := (h.foreign t hnot).2
      rw [hpc] at hheld
      cases hheld
    have hlocals := h.locals t howner
    refine h.moved (t := t) {
      others := fun _ hx => goto_other _ _ hx
      local_ := fun i => ?_
      mine := fun _ => ?_
      foreign := fun hnot => absurd howner hnot
      share := by rw [goto_self, hpc]; cases retry <;> rfl
      knows := by rw [goto_self]; cases retry <;> trivial }
    · by_cases hi : i = index size t
      · exact .inr ⟨hi, hi ▸ howner⟩
      · exact .inl (Function.update_of_ne hi _ _)
    · have hfree : (if retry = true then Pc.interest else Pc.idle).localHeld = 0 := by
        cases retry <;> rfl
      rw [hpc] at hlocals
      rw [goto_self, hfree, hpc]
      show Function.update s.local_ _ (count - 1) _ + (s.locals t + 1) = _ + (s.locals t + 0)
      have hheld : s.local_ (index size t) = s.locals t + 1 := hlocals
      rw [Function.update_self]
      omega
  · obtain rfl := Option.some.inj hstep
    obtain ⟨sharers, hcard, hcounts⟩ := h.shares (index size t)
    have hheld : 0 < sharers.count t := by
      rw [hcounts t, if_pos rfl, hpc]
      exact Nat.succ_pos _
    have hpos : 0 < s.shared (index size t) :=
      hcard ▸ Nat.lt_of_lt_of_le hheld (Multiset.count_le_card t sharers)
    have howner : s.owner (index size t) ≠ 0 := fun hnone => by
      have hzero := (h.unowned _ hnone).2
      omega
    have hlocalHeld : (if retry = true then Pc.interest else Pc.idle).localHeld = 0 := by
      cases retry <;> rfl
    have hsharedHeld : (if retry = true then Pc.interest else Pc.idle).sharedHeld = 0 := by
      cases retry <;> rfl
    refine h.moved (t := t) {
      others := fun _ hx => goto_other _ _ hx
      shared := fun i => ?_
      mine := fun _ => by rw [goto_self, hlocalHeld, hpc]; rfl
      foreign := fun _ => ⟨rfl, by rw [goto_self, hlocalHeld, hpc]; rfl⟩
      share := ?_
      knows := by rw [goto_self]; cases retry <;> trivial }
    · by_cases hi : i = index size t
      · exact .inr ⟨hi, hi ▸ howner⟩
      · exact .inl (Function.update_of_ne hi _ _)
    · rw [goto_self, hsharedHeld, hpc]
      show Function.update s.shared _ (s.shared _ - 1) _ + (s.shareds t + 1) = _ + (s.shareds t + 0)
      rw [Function.update_self]
      omega

/-- The accesses of a writer's scan find the slots that they name. -/
theorem Slots.scan (h : Slots size s) (hstep : step size s t = some u)
    (hpc : (∃ tried group, s.pc t = .group tried group) ∨
      ∃ tried group used shared, s.pc t = .slot tried group used shared) : Slots size u := by
  have hknows := h.knows t
  have hnext : ∀ {old : Pc} (tried : Bool) (group : Nat), s.pc t = old → old.localHeld = 0 →
      old.sharedHeld = 0 → Slots size (nextGroup size s t tried group) := by
    intro old tried group hpc hlocalHeld hsharedHeld
    unfold nextGroup
    split
    · exact h.aside hpc hlocalHeld.symm hsharedHeld.symm trivial
    · exact h.aside hpc hlocalHeld.symm hsharedHeld.symm trivial
  have hbusy : ∀ {old : Pc} (tried : Bool), s.pc t = old → old.localHeld = 0 →
      old.sharedHeld = 0 → Slots size (busy s t tried) := by
    intro old tried hpc hlocalHeld hsharedHeld
    cases tried <;> exact h.aside hpc hlocalHeld.symm hsharedHeld.symm trivial
  unfold ReaderSlots.step at hstep
  rcases hpc with ⟨tried, group, hpc⟩ | ⟨tried, group, used, shared, hpc⟩ <;>
  rw [hpc] at hstep hknows
  · dsimp only at hstep
    split at hstep <;> rename_i hused <;> obtain rfl := Option.some.inj hstep
    · exact hnext tried group hpc rfl rfl
    · exact h.aside hpc rfl rfl ⟨hused, h.range group⟩
  · cases shared with
    | false =>
      dsimp only at hstep
      have hfound := hknows.2 _ (BitVec.getLsbD_true_ctz_of_ne_zero hknows.1)
      rw [if_neg (Nat.not_le.mpr hfound)] at hstep
      split at hstep <;> obtain rfl := Option.some.inj hstep
      · exact h.aside hpc rfl rfl hknows
      · exact hbusy tried hpc rfl rfl
    | true =>
      dsimp only at hstep
      split at hstep
      · split at hstep <;> rename_i hrest <;> obtain rfl := Option.some.inj hstep
        · exact hnext tried group hpc rfl rfl
        · refine h.aside hpc rfl rfl ⟨hrest, fun b hb => hknows.2 b ?_⟩
          rw [BitVec.getLsbD_and, Bool.and_eq_true] at hb
          exact hb.1
      · obtain rfl := Option.some.inj hstep
        exact hbusy tried hpc rfl rfl

theorem Slots.step (h : Slots size s) (hstep : step size s t = some u) : Slots size u := by
  cases hpc : s.pc t with
  | owner => exact h.reserve hstep (.inl hpc)
  | initialized => exact h.setBit hpc hstep
  | exchange => exact h.reserve hstep (.inr (.inl hpc))
  | load => exact h.reserve hstep (.inr (.inr (.inl hpc)))
  | store count => exact h.reserve hstep (.inr (.inr (.inr (.inl ⟨count, hpc⟩))))
  | add => exact h.reserve hstep (.inr (.inr (.inr (.inr (.inl hpc)))))
  | gate shared => exact h.reserve hstep (.inr (.inr (.inr (.inr (.inr ⟨shared, hpc⟩)))))
  | unload retry => exact h.release hstep (.inl ⟨retry, hpc⟩)
  | unstore count retry => exact h.release hstep (.inr (.inl ⟨count, retry, hpc⟩))
  | sub retry => exact h.release hstep (.inr (.inr ⟨retry, hpc⟩))
  | group tried group => exact h.scan hstep (.inl ⟨tried, group, hpc⟩)
  | slot tried group used shared => exact h.scan hstep (.inr ⟨tried, group, used, shared, hpc⟩)
  | idle | parked | outOfBounds =>
    unfold ReaderSlots.step at hstep
    rw [hpc] at hstep
    cases hstep
  | interest | wait | unlockWaiters | uninterest | close _ | open_ | unlockNotify | unlockSerial =>
    unfold ReaderSlots.step at hstep
    rw [hpc] at hstep
    obtain rfl := Option.some.inj hstep
    exact h.aside hpc rfl rfl trivial
  | gateWaiting | interested =>
    unfold ReaderSlots.step at hstep
    rw [hpc] at hstep
    obtain rfl := Option.some.inj hstep
    split <;> exact h.aside hpc rfl rfl trivial
  | lockWaiters | lockSerial | lockNotify =>
    unfold ReaderSlots.step at hstep
    rw [hpc] at hstep
    dsimp only at hstep
    split at hstep
    · obtain rfl := Option.some.inj hstep
      exact h.aside hpc rfl rfl trivial
    · cases hstep
  | tryLockSerial =>
    unfold ReaderSlots.step at hstep
    rw [hpc] at hstep
    dsimp only at hstep
    split at hstep <;> obtain rfl := Option.some.inj hstep <;> exact h.aside hpc rfl rfl trivial
  | notify =>
    unfold ReaderSlots.step at hstep
    rw [hpc] at hstep
    obtain rfl := Option.some.inj hstep
    exact h.calm hpc _ (fun _ hx => notifyAll_other s hx) rfl rfl rfl rfl rfl rfl
      (by rw [notifyAll_self]; rfl) (by rw [notifyAll_self]; rfl) (by rw [notifyAll_self]; trivial)

theorem Slots.next (h : Slots size s) {a : Action} (hnext : next size s a = some u) :
    Slots size u := by
  cases a with
  | read t | write t | tryWrite t =>
    unfold ReaderSlots.next at hnext
    dsimp only at hnext
    split at hnext
    · rename_i hidle
      obtain rfl := Option.some.inj hnext
      exact h.aside hidle rfl rfl trivial
    · cases hnext
  | dropRead t shared =>
    cases shared with
    | false =>
      unfold ReaderSlots.next at hnext
      dsimp only at hnext
      split at hnext
      · rename_i hheld
        obtain ⟨hidle, hpos⟩ := hheld
        obtain rfl := Option.some.inj hnext
        refine h.moved (t := t) {
          others := fun _ hx => goto_other _ _ hx
          guards := fun x hx => ⟨Function.update_of_ne hx _ _, rfl⟩
          mine := fun _ => ?_
          foreign := fun hnot => ?_
          share := by rw [goto_self, hidle]; rfl
          knows := by rw [goto_self]; trivial }
        · rw [goto_self, hidle]
          show s.local_ (index size t) + (s.locals t + 0) =
            s.local_ (index size t) + (Function.update s.locals t (s.locals t - 1) t + 1)
          rw [Function.update_self]
          omega
        · have hzero := (h.foreign t hnot).1
          omega
      · cases hnext
    | true =>
      unfold ReaderSlots.next at hnext
      dsimp only at hnext
      split at hnext
      · rename_i hheld
        obtain ⟨hidle, hpos⟩ := hheld
        obtain rfl := Option.some.inj hnext
        refine h.moved (t := t) {
          others := fun _ hx => goto_other _ _ hx
          guards := fun x hx => ⟨rfl, Function.update_of_ne hx _ _⟩
          mine := fun _ => by rw [goto_self, hidle]; rfl
          foreign := fun _ => ⟨rfl, by rw [goto_self, hidle]; rfl⟩
          share := ?_
          knows := by rw [goto_self]; trivial }
        rw [goto_self, hidle]
        show s.shared (index size t) + (s.shareds t + 0) =
          s.shared (index size t) + (Function.update s.shareds t (s.shareds t - 1) t + 1)
        rw [Function.update_self]
        omega
      · cases hnext
  | dropWrite t =>
    unfold ReaderSlots.next at hnext
    dsimp only at hnext
    split at hnext
    · rename_i hheld
      obtain rfl := Option.some.inj hnext
      exact h.aside hheld.1 rfl rfl trivial
    · cases hnext
  | step t => exact h.step hnext

theorem Slots.init (size : Nat) : Slots size init where
  owners := fun _ howner => absurd rfl howner
  bits := fun _ howner => absurd rfl howner
  range := fun _ _ hbit => by
    rw [show (ReaderSlots.init.initialized _).getLsbD _ = false from BitVec.getLsbD_zero] at hbit
    cases hbit
  unowned := fun _ _ => ⟨rfl, rfl⟩
  locals := fun t howner => absurd howner.symm (identity_ne_zero t)
  foreign := fun _ _ => ⟨rfl, rfl⟩
  shares := fun _ => ⟨0, rfl, fun _ => (Multiset.count_zero _).trans (ite_self _).symm⟩
  knows := fun _ => trivial

/-- A guard is counted, in a slot whose bit is set. -/
theorem Slots.local_guard (h : Slots size s) (hheld : 0 < s.locals t) :
    s.local_ (index size t) ≠ 0 ∧ s.bit (index size t) = true := by
  have howner : s.owner (index size t) = identity t := by
    by_contra hnot
    have hzero := (h.foreign t hnot).1
    omega
  have hlocals := h.locals t howner
  refine ⟨by omega, h.bits _ ?_⟩
  rw [howner]
  exact identity_ne_zero t

/-- A shared reservation is counted, in a slot whose bit is set. -/
theorem Slots.shared_held (h : Slots size s) (hheld : 0 < s.shareds t + (s.pc t).sharedHeld) :
    s.shared (index size t) ≠ 0 ∧ s.bit (index size t) = true := by
  obtain ⟨sharers, hcard, hcounts⟩ := h.shares (index size t)
  have hle := Multiset.count_le_card t sharers
  rw [hcounts t, if_pos rfl, hcard] at hle
  have hpos : s.shared (index size t) ≠ 0 := by omega
  exact ⟨hpos, h.bits _ fun hnone => hpos (h.unowned _ hnone).2⟩

end ReaderSlots

end Amalgam
