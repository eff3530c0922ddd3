import Amalgam.Execution.Shutdown
import Amalgam.Lib.Run

/-!
# Amalgam — the stripes count the activities

The invariant of the counters of `Scopes`: a counter is the number of the calls that it holds, and
only the thread that owns a stripe writes its local count.

* **`no_underflow`** — whoever takes an activity off a counter finds it there.
-/

namespace Amalgam

namespace Shutdown

open Buffered (ownerOf position)

variable {s t : State} {id : Nat} {c d : Call} {w : Nat} {a : Work} {slot : Slot}

namespace State

@[simp] theorem put_self : (s.put id c).calls id = some c := Function.update_self ..

@[simp] theorem put_of_ne {other : Nat} (h : other ≠ id) : (s.put id c).calls other = s.calls other :=
  Function.update_of_ne h ..

@[simp] theorem setWork_self : (s.setWork w a).works w = some a := Function.update_self ..

@[simp] theorem setWork_of_ne {other : Nat} (h : other ≠ w) :
    (s.setWork w a).works other = s.works other :=
  Function.update_of_ne h ..

theorem setCount_count (n : Nat) (other : Slot) :
    (s.setCount slot n).count other = if other = slot then n else s.count other := by
  obtain ⟨shared, p⟩ := slot
  obtain ⟨shared', p'⟩ := other
  unfold setCount count
  cases shared <;> cases shared' <;> simp [Function.update_apply]

end State

/-- The count that a call is about to write to the local counter. -/
def Pc.counts : Pc → Option Nat
  | .store n | .unstore n => some n
  | _ => none

/-- The call is on the local side of its stripe. -/
def Call.isLocal (c : Call) : Bool :=
  match c.at_, c.pc with
  | some slot, _ => !slot.shared
  | none, .load | none, .store _ => true
  | none, _ => false

structure Counted (s : State) : Prop where
  stripe : ∀ id c slot, s.calls id = some c → c.at_ = some slot → slot.stripe = position c.thread
  mine : ∀ id c, s.calls id = some c → c.isLocal = true →
    s.owner (position c.thread) = ownerOf c.thread
  held : ∀ id slot, id ∈ s.held slot ↔ (s.calls id).bind (·.at_) = some slot
  card : ∀ slot, s.count slot = (s.held slot).card
  writes : ∀ id c n, s.calls id = some c → c.pc.counts = some n →
    c.isLocal = true ∧ s.busy c.thread = some id ∧ s.local_ (position c.thread) = n

/-- The local sides of one stripe are of one thread. -/
theorem Counted.same_thread (h : Counted s) {other : Nat} (hc : s.calls id = some c)
    (hd : s.calls other = some d) (hlocal : c.isLocal = true) (hlocal' : d.isLocal = true)
    (hposition : position d.thread = position c.thread) : d.thread = c.thread := by
  have hmine := h.mine id c hc hlocal
  have hmine' := h.mine other d hd hlocal'
  rw [hposition, hmine] at hmine'
  unfold ownerOf at hmine'
  omega

/-- A step that moves no activity. -/
structure Still (s t : State) (id : Nat) (c d : Call) : Prop where
  calls : t.calls = Function.update s.calls id (some d) := by rfl
  owner : t.owner = s.owner := by rfl
  count : t.count = s.count := by rfl
  busy : t.busy = s.busy := by rfl
  held : t.held = s.held := by rfl
  drain : t.drain = s.drain := by rfl
  late : t.late = s.late := by rfl
  old : t.old = s.old := by rfl
  closing : s.closing = true → t.closing = true := by exact fun h => h
  job : d.job = c.job := by rfl
  thread : d.thread = c.thread := by rfl
  at_ : d.at_ = c.at_ := by rfl
  counts : d.pc.counts = none := by rfl
  admitted : d.admitted = true → c.admitted = true ∨ s.closing = false := by exact fun h => .inl h

/-- A call that goes on, and leaves the activities, the drain and the closing flag alone. -/
theorem Still.goto {pc : Pc} (hframe : t = { s.goto id c pc with
      shutdown := t.shutdown
      waiters := t.waiters
      tasks := t.tasks
      cancelled := t.cancelled
      works := t.works }) (hcounts : pc.counts = none) : Still s t id c { c with pc } where
  calls := (congrArg State.calls hframe).trans rfl
  owner := (congrArg State.owner hframe).trans rfl
  count := (congrArg State.count hframe).trans rfl
  busy := (congrArg State.busy hframe).trans rfl
  held := (congrArg State.held hframe).trans rfl
  drain := (congrArg State.drain hframe).trans rfl
  late := (congrArg State.late hframe).trans rfl
  old := (congrArg State.old hframe).trans rfl
  closing := fun h => (congrArg State.closing hframe).trans h
  job := rfl
  thread := rfl
  at_ := rfl
  counts := hcounts
  admitted := .inl

theorem local_of_count (h : t.count = s.count) : t.local_ = s.local_ :=
  funext fun p => congrFun h ⟨false, p⟩

theorem Counted.still (h : Counted s) (hc : s.calls id = some c) (hstill : Still s t id c d)
    (hmine : d.isLocal = true → s.owner (position c.thread) = ownerOf c.thread) : Counted t := by
  have hother : ∀ x, x ≠ id → t.calls x = s.calls x := fun x hx => by
    rw [hstill.calls, Function.update_of_ne hx]
  have hself : t.calls id = some d := by
    rw [hstill.calls, Function.update_self]
  refine ⟨fun x e slot he hat => ?_, fun x e he hlocal => ?_, fun x slot => ?_, fun slot => ?_,
    fun x e n he hcounts => ?_⟩
  · by_cases hx : x = id
    · subst hx
      obtain rfl := Option.some.inj (hself.symm.trans he)
      rw [hstill.thread]
      exact h.stripe x c slot hc (hstill.at_.symm.trans hat)
    · exact h.stripe x e slot ((hother x hx).symm.trans he) hat
  · rw [hstill.owner]
    by_cases hx : x = id
    · subst hx
      obtain rfl := Option.some.inj (hself.symm.trans he)
      rw [hstill.thread]
      exact hmine hlocal
    · exact h.mine x e ((hother x hx).symm.trans he) hlocal
  · rw [hstill.held, h.held x slot]
    by_cases hx : x = id
    · subst hx
      rw [hself, hc]
      show c.at_ = some slot ↔ d.at_ = some slot
      rw [hstill.at_]
    · rw [hother x hx]
  · rw [hstill.count, hstill.held]
    exact h.card slot
  · rw [hstill.busy, local_of_count hstill.count]
    by_cases hx : x = id
    · subst hx
      obtain rfl := Option.some.inj (hself.symm.trans he)
      rw [hstill.counts] at hcounts
      cases hcounts
    · exact h.writes x e n ((hother x hx).symm.trans he) hcounts

/-- A stripe that nobody owns gets an owner. -/
theorem Counted.claim (h : Counted s) {p : Nat} (hfree : s.owner p = 0) (owner : Nat) :
    Counted { s with owner := Function.update s.owner p owner } :=
  { h with
    mine := fun x e he hlocal => by
      have hmine := h.mine x e he hlocal
      show Function.update s.owner p owner (position e.thread) = ownerOf e.thread
      rw [Function.update_of_ne, hmine]
      intro heq
      rw [heq, hfree] at hmine
      cases hmine }

/-- A call reads the local count of its thread to write it back. -/
theorem Counted.read (h : Counted s) (hc : s.calls id = some c) (hfree : s.busy c.thread = none)
    (hlocal : c.isLocal = true) {pc : Pc} (hstays : ({ c with pc } : Call).isLocal = true)
    (hcounts : pc.counts = some (s.local_ (position c.thread))) :
    Counted ({ s with busy := Function.update s.busy c.thread (some id) }.goto id c pc) := by
  have hmine := h.mine id c hc hlocal
  refine ⟨fun x e slot he hat => ?_, fun x e he hside => ?_, fun x slot => ?_, h.card,
    fun x e n he hn => ?_⟩
  · by_cases hx : x = id
    · subst hx
      obtain rfl := Option.some.inj (State.put_self.symm.trans he)
      exact h.stripe x c slot hc hat
    · exact h.stripe x e slot ((State.put_of_ne hx).symm.trans he) hat
  · by_cases hx : x = id
    · subst hx
      obtain rfl := Option.some.inj (State.put_self.symm.trans he)
      exact hmine
    · exact h.mine x e ((State.put_of_ne hx).symm.trans he) hside
  · show x ∈ s.held slot ↔ _
    rw [h.held x slot]
    by_cases hx : x = id
    · subst hx
      rw [hc]
      unfold State.goto
      rw [State.put_self]
      rfl
    · unfold State.goto
      rw [State.put_of_ne hx]
  · by_cases hx : x = id
    · subst hx
      obtain rfl := Option.some.inj (State.put_self.symm.trans he)
      exact ⟨hstays, Function.update_self .., Option.some.inj (hcounts.symm.trans hn)⟩
    · obtain ⟨hside, hbusy, hcount⟩ := h.writes x e n ((State.put_of_ne hx).symm.trans he) hn
      refine ⟨hside, ?_, hcount⟩
      show Function.update s.busy c.thread (some id) e.thread = some x
      rw [Function.update_of_ne, hbusy]
      intro heq
      rw [heq, hfree] at hbusy
      cases hbusy

/-- A step that counts an activity or takes it off. -/
structure Recount (s t : State) (id : Nat) (c d : Call) (slot : Slot) : Prop where
  calls : t.calls = Function.update s.calls id (some d)
  owner : t.owner = s.owner
  held : ∃ now, t.held = Function.update s.held slot now ∧ t.count slot = now.card ∧
    ∀ x, x ∈ now ↔ if x = id then d.at_ = some slot else x ∈ s.held slot
  count : ∀ other, other ≠ slot → t.count other = s.count other
  thread : d.thread = c.thread
  before : ∀ other, c.at_ = some other → other = slot
  after : ∀ other, d.at_ = some other → other = slot
  stripe : slot.stripe = position c.thread
  counts : d.pc.counts = none
  busy : slot.shared = true ∧ t.busy = s.busy ∨
    slot.shared = false ∧ t.busy = Function.update s.busy c.thread none

theorem Counted.recount (h : Counted s) (hc : s.calls id = some c) (hstep : Recount s t id c d slot)
    (hcounts : slot.shared = false → ∃ n, c.pc.counts = some n)
    (hmine : d.isLocal = true → s.owner (position c.thread) = ownerOf c.thread) : Counted t := by
  have hother : ∀ x, x ≠ id → t.calls x = s.calls x := fun x hx => by
    rw [hstep.calls, Function.update_of_ne hx]
  have hself : t.calls id = some d := by
    rw [hstep.calls, Function.update_self]
  obtain ⟨now, hheld, hcard, hnow⟩ := hstep.held
  refine ⟨fun x e slot' he hat => ?_, fun x e he hlocal => ?_, fun x slot' => ?_, fun slot' => ?_,
    fun x e n he hwrites => ?_⟩
  · by_cases hx : x = id
    · subst hx
      obtain rfl := Option.some.inj (hself.symm.trans he)
      rw [hstep.after slot' hat, hstep.thread]
      exact hstep.stripe
    · exact h.stripe x e slot' ((hother x hx).symm.trans he) hat
  · rw [hstep.owner]
    by_cases hx : x = id
    · subst hx
      obtain rfl := Option.some.inj (hself.symm.trans he)
      rw [hstep.thread]
      exact hmine hlocal
    · exact h.mine x e ((hother x hx).symm.trans he) hlocal
  · rw [hheld]
    by_cases hslot : slot' = slot
    · subst hslot
      rw [Function.update_self, hnow x]
      by_cases hx : x = id
      · subst hx
        rw [if_pos rfl, hself]
        rfl
      · rw [if_neg hx, hother x hx]
        exact h.held x slot'
    · rw [Function.update_of_ne hslot, h.held x slot']
      by_cases hx : x = id
      · subst hx
        rw [hself, hc]
        exact ⟨fun hat => absurd (hstep.before slot' hat) hslot,
          fun hat => absurd (hstep.after slot' hat) hslot⟩
      · rw [hother x hx]
  · rw [hheld]
    by_cases hslot : slot' = slot
    · rw [hslot, Function.update_self, hcard]
    · rw [Function.update_of_ne hslot, hstep.count slot' hslot]
      exact h.card slot'
  · by_cases hx : x = id
    · subst hx
      obtain rfl := Option.some.inj (hself.symm.trans he)
      rw [hstep.counts] at hwrites
      cases hwrites
    · have hbefore := (hother x hx).symm.trans he
      obtain ⟨hlocal, hbusy, hcount⟩ := h.writes x e n hbefore hwrites
      -- The stripe of `x` is not the one that is recounted, unless it is a shared count.
      have happly : ∀ other : Slot, other.shared = false → other.stripe = position e.thread →
          other ≠ slot → t.local_ (position e.thread) = n := fun other hshared hstripe hne => by
        have hsame := hstep.count other hne
        unfold State.count at hsame
        rw [hshared, hstripe] at hsame
        exact hsame.trans hcount
      rcases hstep.busy with ⟨hshared, hkept⟩ | ⟨hshared, hreset⟩
      · refine ⟨hlocal, hkept ▸ hbusy, happly ⟨false, position e.thread⟩ rfl rfl fun heq => ?_⟩
        rw [← heq] at hshared
        cases hshared
      · obtain ⟨m, hm⟩ := hcounts hshared
        obtain ⟨hclocal, hcbusy, -⟩ := h.writes id c m hc hm
        have hthread : e.thread ≠ c.thread := fun heq => by
          rw [heq, hcbusy] at hbusy
          exact hx (Option.some.inj hbusy).symm
        refine ⟨hlocal, ?_, happly ⟨false, position e.thread⟩ rfl rfl fun heq => ?_⟩
        · rw [hreset, Function.update_of_ne hthread, hbusy]
        · have hposition : position e.thread = position c.thread :=
            (congrArg Slot.stripe heq).trans hstep.stripe
          exact hthread (h.same_thread hc hbefore hclocal hlocal hposition)

/-- A call begins. -/
theorem Counted.begin_ (h : Counted s) (hfree : s.calls id = none) (hat : c.at_ = none)
    (hlocal : c.isLocal = false) (hcounts : c.pc.counts = none) : Counted (s.put id c) := by
  have hcalls : ∀ x e, (s.put id c).calls x = some e → x = id ∧ e = c ∨ s.calls x = some e := by
    intro x e he
    by_cases hx : x = id
    · subst hx
      rw [State.put_self] at he
      exact .inl ⟨rfl, (Option.some.inj he).symm⟩
    · rw [State.put_of_ne hx] at he
      exact .inr he
  refine ⟨fun x e slot he hslot => ?_, fun x e he hside => ?_, fun x slot => ?_, h.card,
    fun x e n he hn => ?_⟩
  · rcases hcalls x e he with ⟨-, rfl⟩ | hold
    · rw [hat] at hslot
      cases hslot
    · exact h.stripe x e slot hold hslot
  · rcases hcalls x e he with ⟨-, rfl⟩ | hold
    · rw [hlocal] at hside
      cases hside
    · exact h.mine x e hold hside
  · show x ∈ s.held slot ↔ _
    rw [h.held x slot]
    by_cases hx : x = id
    · subst hx
      rw [hfree, State.put_self]
      show none = some slot ↔ c.at_ = some slot
      rw [hat]
    · rw [State.put_of_ne hx]
  · rcases hcalls x e he with ⟨-, rfl⟩ | hold
    · rw [hcounts] at hn
      cases hn
    · exact h.writes x e n hold hn

/-! ## The steps -/

/-- The nested cancel that a call starts. -/
def nested (c : Call) (w : Nat) : Call :=
  { thread := c.thread, job := .cancel w .cacheShutdown, pc := .owner }

/-- Between its ends a call moves no activity; it may start a nested call. -/
inductive Between (s t : State) (id : Nat) (c d : Call) : Prop where
  | alone (h : Still s t id c d)
  | nested (k w : Nat) (hfree : s.calls k = none) (h : Still (s.put k (nested c w)) t id c d)

theorem stepRegister_between {choice : Choice} (h : stepRegister s id c w a choice = some t) :
    ∃ d, Between s t id c d := by
  unfold stepRegister at h
  split at h
  · split at h <;> obtain rfl := Option.some.inj h
    · exact ⟨_, .alone (.goto rfl rfl)⟩
    · exact ⟨_, .alone (.goto rfl rfl)⟩
  · split at h
    · split at h
      · split at h
        case isTrue hfree =>
          obtain rfl := Option.some.inj h
          exact ⟨_, .nested _ w hfree (.goto rfl rfl)⟩
        case isFalse => cases h
      · cases h
    · obtain rfl := Option.some.inj h
      exact ⟨_, .alone (.goto rfl rfl)⟩
  · split at h
    · split at h
      · obtain rfl := Option.some.inj h
        exact ⟨_, .alone (.goto rfl rfl)⟩
      · cases h
    · cases h
  · cases h

theorem stepCancel_between {reason : Flights.Reason}
    (h : stepCancel s id c w a reason = some t) : ∃ d, Between s t id c d := by
  unfold stepCancel at h
  split at h
  · obtain rfl := Option.some.inj h
    exact ⟨_, .alone (.goto rfl rfl)⟩
  · split at h <;> obtain rfl := Option.some.inj h <;> exact ⟨_, .alone (.goto rfl rfl)⟩
  · cases h

theorem stepPoll_between {choice : Choice} (h : stepPoll s id c w a choice = some t) :
    ∃ d, Between s t id c d := by
  unfold stepPoll at h
  split at h
  · split at h
    · obtain rfl := Option.some.inj h
      exact ⟨_, .alone (.goto rfl rfl)⟩
    · obtain rfl := Option.some.inj h
      exact ⟨_, .alone (.goto rfl rfl)⟩
    · obtain rfl := Option.some.inj h
      exact ⟨_, .alone (.goto rfl rfl)⟩
    · cases h
  · split at h
    · dsimp only at h
      split at h
      case h_6 => cases h
      all_goals
        obtain rfl := Option.some.inj h
        exact ⟨_, .alone (.goto rfl rfl)⟩
    · cases h
  · split at h
    · obtain rfl := Option.some.inj h
      exact ⟨_, .alone (.goto rfl rfl)⟩
    · cases h
  · cases h

theorem stepRetire_between (h : stepRetire s id c w a = some t) : ∃ d, Between s t id c d := by
  unfold stepRetire at h
  split at h
  · split at h <;> obtain rfl := Option.some.inj h <;> exact ⟨_, .alone (.goto rfl rfl)⟩
  · obtain rfl := Option.some.inj h
    exact ⟨_, .alone (.goto rfl rfl)⟩
  · obtain rfl := Option.some.inj h
    exact ⟨_, .alone (.goto rfl rfl)⟩
  · obtain rfl := Option.some.inj h
    exact ⟨_, .alone (.goto rfl rfl)⟩
  · obtain rfl := Option.some.inj h
    exact ⟨_, .alone (.goto rfl rfl)⟩
  · obtain rfl := Option.some.inj h
    exact ⟨_, .alone (.goto rfl rfl)⟩
  · obtain rfl := Option.some.inj h
    exact ⟨_, .alone (.goto rfl (by split <;> rfl))⟩
  · cases h

theorem stepClose_between {choice : Choice} (h : stepClose s id c choice = some t) :
    ∃ d, Between s t id c d := by
  unfold stepClose at h
  split at h
  · obtain rfl := Option.some.inj h
    exact ⟨_, .alone { closing := fun _ => rfl }⟩
  · obtain rfl := Option.some.inj h
    exact ⟨_, .alone (.goto rfl rfl)⟩
  · obtain rfl := Option.some.inj h
    exact ⟨_, .alone (.goto rfl rfl)⟩
  · obtain rfl := Option.some.inj h
    exact ⟨_, .alone (.goto rfl rfl)⟩
  · split at h
    · obtain rfl := Option.some.inj h
      exact ⟨_, .alone (.goto rfl rfl)⟩
    · split at h
      · split at h
        case isTrue hfree =>
          obtain rfl := Option.some.inj h
          exact ⟨_, .nested _ _ hfree (.goto rfl rfl)⟩
        case isFalse => cases h
      · cases h
  · split at h
    · split at h
      · obtain rfl := Option.some.inj h
        exact ⟨_, .alone (.goto rfl rfl)⟩
      · cases h
    · cases h
  · cases h

theorem stepBody_between {choice : Choice} (h : stepBody s id c choice = some t) :
    ∃ d, Between s t id c d := by
  unfold stepBody at h
  split at h
  case h_1 | h_2 =>
    split at h
    case isTrue hrunning =>
      split at h <;> obtain rfl := Option.some.inj h
      · refine ⟨_, .alone { counts := by rw [hrunning]; rfl, admitted := fun hadmitted => ?_ }⟩
        rcases Bool.or_eq_true_iff.mp hadmitted with hold | hopen
        · exact .inl hold
        · exact .inr (Bool.not_eq_true' _ ▸ hopen)
      · exact ⟨_, .alone (.goto rfl rfl)⟩
    case isFalse => cases h
  case h_3 w =>
    obtain ⟨a, -, h⟩ := Option.bind_eq_some_iff.mp h
    split at h
    · exact stepRetire_between h
    · exact stepRegister_between h
  case h_4 w reason =>
    obtain ⟨a, -, h⟩ := Option.bind_eq_some_iff.mp h
    split at h
    · exact stepRetire_between h
    · exact stepCancel_between h
  case h_5 w =>
    obtain ⟨a, -, h⟩ := Option.bind_eq_some_iff.mp h
    split at h
    · exact stepRetire_between h
    · exact stepPoll_between h
  case h_6 => exact stepClose_between h

theorem Counted.between (h : Counted s) (hc : s.calls id = some c) {slot : Slot}
    (hat : c.at_ = some slot) (hbetween : Between s t id c d) : Counted t := by
  have hlocal : ∀ e : Call, e.at_ = c.at_ → e.isLocal = true → c.isLocal = true := fun e he hside => by
    unfold Call.isLocal at hside ⊢
    rw [he, hat] at hside
    rw [hat]
    exact hside
  cases hbetween with
  | alone hstill =>
    exact h.still hc hstill fun hside => h.mine id c hc (hlocal d hstill.at_ hside)
  | nested k w hfree hstill =>
    have hne : id ≠ k := fun heq => by
      rw [heq, hfree] at hc
      cases hc
    refine (h.begin_ hfree rfl rfl rfl).still ((State.put_of_ne hne).trans hc) hstill fun hside => ?_
    exact h.mine id c hc (hlocal d hstill.at_ hside)

theorem Counted.published {u : State} (h : Counted s) (hc : s.calls id = some c) (hat : c.at_ = none)
    (hcalls : u.calls = s.calls) (howner : u.owner = s.owner) (hheld : u.held = s.held)
    (hstripe : slot.stripe = position c.thread)
    (hcount : ∀ other, u.count other = if other = slot then s.count slot + 1 else s.count other)
    (hbusy : slot.shared = true ∧ u.busy = s.busy ∨
      slot.shared = false ∧ u.busy = Function.update s.busy c.thread none) :
    Recount s (publish u id c slot) id c { c with pc := c.job.entry, at_ := some slot } slot := by
  have hnot : id ∉ s.held slot := fun hin => by
    have hwhere := (h.held id slot).mp hin
    rw [hc] at hwhere
    exact absurd (hat.symm.trans hwhere) nofun
  refine {
    calls := by rw [← hcalls]; rfl
    owner := howner
    held := ⟨insert id (s.held slot), by rw [← hheld]; rfl, ?_, fun x => ?_⟩
    count := fun other hne => (hcount other).trans (if_neg hne)
    thread := rfl
    before := fun other hother => by rw [hat] at hother; cases hother
    after := fun other hother => (Option.some.inj hother).symm
    stripe := hstripe
    counts := by cases c.job <;> rfl
    busy := hbusy }
  · rw [Finset.card_insert_of_notMem hnot, ← h.card]
    exact (hcount slot).trans (if_pos rfl)
  · rw [Finset.mem_insert]
    split
    case isTrue hx => exact ⟨fun _ => rfl, fun _ => .inl hx⟩
    case isFalse hx => exact ⟨fun hin => hin.resolve_left hx, .inr⟩

theorem Counted.unpublished {u : State} (h : Counted s) (hc : s.calls id = some c)
    (hat : c.at_ = some slot) (hcalls : u.calls = s.calls) (howner : u.owner = s.owner)
    (hheld : u.held = s.held)
    (hcount : ∀ other, u.count other = if other = slot then s.count slot - 1 else s.count other)
    (hbusy : slot.shared = true ∧ u.busy = s.busy ∨
      slot.shared = false ∧ u.busy = Function.update s.busy c.thread none) :
    Recount s (unpublish u id c slot) id c { c with pc := .done, at_ := none } slot := by
  have hin : id ∈ s.held slot := (h.held id slot).mpr (by rw [hc]; exact hat)
  refine {
    calls := by rw [← hcalls]; rfl
    owner := howner
    held := ⟨(s.held slot).erase id, by rw [← hheld]; rfl, ?_, fun x => ?_⟩
    count := fun other hne => (hcount other).trans (if_neg hne)
    thread := rfl
    before := fun other hother => Option.some.inj (hother.symm.trans hat)
    after := nofun
    stripe := h.stripe id c slot hc hat
    counts := rfl
    busy := hbusy }
  · rw [Finset.card_erase_of_mem hin, ← h.card]
    exact (hcount slot).trans (if_pos rfl)
  · rw [Finset.mem_erase]
    split
    case isTrue hx => exact ⟨fun ⟨hne, _⟩ => absurd hx hne, nofun⟩
    case isFalse hx => exact ⟨And.right, fun hheld => ⟨hx, hheld⟩⟩

theorem Counted.stepReserve (h : Counted s) (hc : s.calls id = some c) (hat : c.at_ = none)
    (hstep : stepReserve s id c = some t) : Counted t := by
  unfold Shutdown.stepReserve at hstep
  cases hpc : c.pc with
  | owner =>
    rw [hpc] at hstep
    dsimp only at hstep
    have hnot : ({ c with pc := .exchange } : Call).isLocal = false ∧
        ({ c with pc := .add } : Call).isLocal = false := by
      simp [Call.isLocal, hat]
    split at hstep
    case isTrue howner =>
      obtain rfl := Option.some.inj hstep
      exact h.still hc {} fun _ => howner
    case isFalse =>
      split at hstep <;> obtain rfl := Option.some.inj hstep
      · exact h.still hc {} fun hside => absurd hside (by rw [hnot.1]; decide)
      · exact h.still hc {} fun hside => absurd hside (by rw [hnot.2]; decide)
  | exchange =>
    rw [hpc] at hstep
    dsimp only at hstep
    split at hstep
    case isTrue hfree =>
      obtain rfl := Option.some.inj hstep
      exact (h.claim hfree (ownerOf c.thread)).still hc {} fun _ => Function.update_self ..
    case isFalse =>
      obtain rfl := Option.some.inj hstep
      exact h.still hc {} fun hside => by simp [Call.isLocal, hat] at hside
  | load =>
    rw [hpc] at hstep
    dsimp only at hstep
    split at hstep
    case isTrue hfree =>
      obtain rfl := Option.some.inj hstep
      exact h.read hc hfree (by simp [Call.isLocal, hat, hpc]) (by simp [Call.isLocal, hat]) rfl
    case isFalse => cases hstep
  | store n =>
    rw [hpc] at hstep
    obtain rfl := Option.some.inj hstep
    have hside : c.isLocal = true := by simp [Call.isLocal, hat, hpc]
    obtain ⟨-, -, hn⟩ := h.writes id c n hc (by rw [hpc]; rfl)
    refine h.recount hc (h.published hc hat rfl rfl rfl rfl (fun other => ?_) (.inr ⟨rfl, rfl⟩))
      (fun _ => ⟨n, by rw [hpc]; rfl⟩) fun _ => h.mine id c hc hside
    rw [State.setCount_count, ← hn]
    rfl
  | add =>
    rw [hpc] at hstep
    obtain rfl := Option.some.inj hstep
    refine h.recount hc (h.published hc hat rfl rfl rfl rfl (fun other => ?_) (.inl ⟨rfl, ?_⟩)) nofun
      fun hside => by cases hside
    · exact State.setCount_count ..
    · rfl
  | _ => rw [hpc] at hstep; cases hstep

/-- Whoever drops an activity finds it counted. -/
theorem Counted.positive (h : Counted s) (hc : s.calls id = some c) (hat : c.at_ = some slot) :
    0 < s.count slot := by
  rw [h.card slot]
  refine Finset.card_pos.mpr ⟨id, (h.held id slot).mpr ?_⟩
  rw [hc]
  exact hat

theorem Counted.stepLeave (h : Counted s) (hc : s.calls id = some c) (hat : c.at_ = some slot)
    (hstep : stepLeave s id c slot = some t) : Counted t := by
  have hstripe := h.stripe id c slot hc hat
  have hpositive := h.positive hc hat
  unfold Shutdown.stepLeave at hstep
  cases hpc : c.pc with
  | leave =>
    rw [hpc] at hstep
    dsimp only at hstep
    split at hstep
    case isTrue hshared =>
      obtain rfl := Option.some.inj hstep
      refine h.recount hc (h.unpublished hc hat rfl rfl rfl (fun other => ?_) (.inl ⟨hshared, ?_⟩))
        (fun hlocal => ?_) fun hside => by simp [Call.isLocal] at hside
      · rw [State.setCount_count]
        unfold State.count
        rw [hshared]
        rfl
      · rfl
      · rw [hshared] at hlocal
        cases hlocal
    case isFalse hlocal =>
      split at hstep
      case isTrue hfree =>
        obtain rfl := Option.some.inj hstep
        have hside : c.isLocal = true := by simp [Call.isLocal, hat, hlocal]
        rw [hstripe]
        exact h.read hc hfree hside (by simp [Call.isLocal, hat, hlocal]) rfl
      case isFalse => cases hstep
  | unstore n =>
    rw [hpc] at hstep
    obtain rfl := Option.some.inj hstep
    obtain ⟨hside, -, hn⟩ := h.writes id c n hc (by rw [hpc]; rfl)
    have hlocal : slot.shared = false := by
      unfold Call.isLocal at hside
      rw [hat] at hside
      simpa using hside
    refine h.recount hc (h.unpublished hc hat rfl rfl rfl (fun other => ?_) (.inr ⟨hlocal, ?_⟩))
      (fun _ => ⟨n, by rw [hpc]; rfl⟩) fun hside => by simp [Call.isLocal] at hside
    · rw [State.setCount_count, ← hn, ← hstripe]
      unfold State.count
      rw [hlocal]
      rfl
    · rfl
  | _ => rw [hpc] at hstep; cases hstep

theorem stepCall_cases {choice : Choice} (h : stepCall s id c choice = some t) :
    c.at_ = none ∧ Shutdown.stepReserve s id c = some t ∨
      ∃ slot, c.at_ = some slot ∧
        (Shutdown.stepLeave s id c slot = some t ∨ stepBody s id c choice = some t) := by
  unfold stepCall at h
  split at h
  case h_1 hat => exact .inl ⟨hat, h⟩
  case h_2 | h_3 => exact .inr ⟨_, ‹_›, .inl h⟩
  case h_4 => exact .inr ⟨_, ‹_›, .inr h⟩

/-- The activities are not touched. -/
theorem Counted.apart (h : Counted s) (hcalls : t.calls = s.calls) (howner : t.owner = s.owner)
    (hcount : t.count = s.count) (hbusy : t.busy = s.busy) (hheld : t.held = s.held) :
    Counted t where
  stripe := by rw [hcalls]; exact h.stripe
  mine := by rw [hcalls, howner]; exact h.mine
  held := by rw [hcalls, hheld]; exact h.held
  card := by rw [hcount, hheld]; exact h.card
  writes := by rw [hcalls, hbusy, local_of_count hcount]; exact h.writes

theorem Counted.start (h : Counted s) (hfree : s.calls id = none) {thread : Nat} {job : Job}
    (hstep : start s id thread job = some t) : Counted t := by
  have hbegin : ∀ {u : State}, Counted u → u.calls id = none →
      Counted (u.put id { thread, job, pc := if job = .owned then .add else .owner }) := by
    intro u hu hnone
    exact hu.begin_ hnone rfl (by cases job <;> rfl) (by cases job <;> rfl)
  unfold Shutdown.start at hstep
  cases job with
  | inline | owned | close =>
    obtain rfl := Option.some.inj hstep
    exact hbegin h hfree
  | register w | poll w =>
    obtain ⟨a, -, rfl⟩ := Option.map_eq_some_iff.mp hstep
    exact hbegin h hfree
  | cancel w reason =>
    obtain ⟨a, -, rfl⟩ := Option.map_eq_some_iff.mp hstep
    exact hbegin (h.apart rfl rfl rfl rfl rfl) hfree

theorem Counted.drain (h : Counted s) (hstep : stepDrain s = some t) : Counted t := by
  unfold stepDrain at hstep
  repeat' split at hstep
  all_goals
    cases hstep
    try exact h.apart rfl rfl rfl rfl rfl

theorem Counted.next (h : Counted s) {action : Action} (hstep : next s action = some t) :
    Counted t := by
  cases action with
  | start id thread job =>
    unfold Shutdown.next at hstep
    dsimp only at hstep
    split at hstep
    case isTrue hfree => exact h.start hfree hstep
    case isFalse => cases hstep
  | step id choice =>
    obtain ⟨c, hc, hcall⟩ := Option.bind_eq_some_iff.mp hstep
    rcases stepCall_cases hcall with ⟨hat, hreserve⟩ | ⟨slot, hat, hleave | hbody⟩
    · exact h.stepReserve hc hat hreserve
    · exact h.stepLeave hc hat hleave
    · obtain ⟨d, hbetween⟩ := stepBody_between hbody
      exact h.between hc hat hbetween
  | drain => exact h.drain hstep
  | create w =>
    unfold Shutdown.next at hstep
    dsimp only at hstep
    split at hstep
    · obtain rfl := Option.some.inj hstep
      exact h.apart rfl rfl rfl rfl rfl
    · cases hstep
  | request w reason =>
    obtain ⟨a, -, rfl⟩ := Option.map_eq_some_iff.mp hstep
    exact h.apart rfl rfl rfl rfl rfl

theorem Counted.init : Counted init where
  stripe _ _ _ hc := nomatch hc
  mine _ _ hc := nomatch hc
  held _ _ := ⟨fun hin => absurd hin (Finset.notMem_empty _), nofun⟩
  card slot := by
    show (if slot.shared then 0 else 0) = _
    rw [ite_self]
    rfl
  writes _ _ _ hc := nomatch hc

theorem Counted.run {actions : List Action}
    (hrun : Run.exec Shutdown.next Shutdown.init actions = some s) : Counted s :=
  Run.exec_invariant (fun _ _ _ h hstep => h.next hstep) Counted.init hrun

/-- No counter goes below zero: an activity is counted until its call takes it off, and nobody
changes a local count between the load and the store of its thread. -/
theorem no_underflow {actions : List Action} (hrun : Run.exec next init actions = some s)
    (hc : s.calls id = some c) (hat : c.at_ = some slot) :
    0 < s.count slot ∧ ∀ n, c.pc = .unstore n → n = s.count slot := by
  have h := Counted.run hrun
  refine ⟨h.positive hc hat, fun n hpc => ?_⟩
  obtain ⟨hside, -, hn⟩ := h.writes id c n hc (by rw [hpc]; rfl)
  unfold Call.isLocal at hside
  rw [hat] at hside
  unfold State.count
  rw [h.stripe id c slot hc hat, hn]
  exact (if_neg (by simpa using hside)).symm

end Shutdown

end Amalgam
