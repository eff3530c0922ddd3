import Amalgam.Lib.Run
import Mathlib.Data.List.Basic
import Mathlib.Logic.Function.Basic

/-!
# Amalgam — the registry of named caches

`src/registry.rs`, the slot of one name. Threads call `try_register`, `get` and
`try_get_or_create`; a builder, and the destructor of a cache that was replaced or turned down,
runs outside of the lock and may call the registry again, so a thread has a stack of calls.
Everything done under the lock of the slot is one step. A poisoned lock is entered like any other.

* **`named_cache_registry`** — one builder at a time, registrations win, one cache between two
  registrations, no forgotten waiter, no `unreachable!`.
* **`registration_outlives_build`** — after a registration a builder's failure is still reported,
  and its own request of the name is answered.
-/

namespace Amalgam

namespace CacheRegistry

open Run

abbrev ThreadId := Nat

inductive Initialization (C : Type) where
  | vacant
  | initializing (owner : ThreadId)
  | ready (cache : C)
deriving DecidableEq

/-- What a call returns. -/
inductive Answer (C : Type) where
  /-- `Ok(())` of a registration. -/
  | registered
  /-- `None` of `get`. -/
  | absent
  | cache (cache : C)
  | recursiveInitialization
  /-- `RegistryError::Build`. -/
  | build
  | panicked
  /-- The panic of the last arm of `try_get_or_create`. -/
  | unreachable
deriving DecidableEq

/-- Where a call is. -/
inductive Frame (C : Type) where
  -- `try_register`
  | registering (cache : C)
  | replacing (cache : C)
  | retiring
  -- `get`
  | looking
  | reading
  -- `try_get_or_create`
  | requesting
  | claiming
  | waiting (notified : Bool)
  | building
  | built (candidate : C)
  /-- The answer is known; the guard is dropped last. -/
  | releasing (answer : Answer C)
deriving DecidableEq

namespace Frame

variable {C : Type}

/-- The first statement of each operation. -/
def isEntry : Frame C → Bool
  | .registering _ | .looking | .requesting => true
  | _ => false

/-- Code of the user runs: a builder, or the destructor of a cache. -/
def isReentrant : Frame C → Bool
  | .retiring | .building | .releasing _ => true
  | _ => false

/-- The call has an `InitializationGuard`, or is about to make it. -/
def isGuarded : Frame C → Bool
  | .building | .built _ | .releasing _ => true
  | _ => false

/-- `notify_all` reaches the call. -/
def wake : Frame C → Frame C
  | .waiting _ => .waiting true
  | frame => frame

@[simp] theorem isGuarded_wake (f : Frame C) : f.wake.isGuarded = f.isGuarded := by
  cases f <;> rfl

end Frame

/-- What happens to the slot. -/
inductive Event (C : Type) where
  | registered (cache : C)
  /-- A call takes its answer from the slot; unless it ran a builder, it returns with it. -/
  | took (thread : ThreadId) (cache : C)
  | returned (thread : ThreadId) (answer : Answer C)
deriving DecidableEq

structure State (C : Type) where
  /-- The slot in the map, once a call has asked for it. -/
  slot : Option (Initialization C)
  stack : ThreadId → List (Frame C)
  /-- Newest first. -/
  history : List (Event C)

/-- How a builder ends. -/
inductive Outcome (C : Type) where
  | built (cache : C)
  | failed
  | panicked

inductive Choice (C : Type) where
  | go
  /-- `wait` returns without a notification. -/
  | spurious
  | finish (outcome : Outcome C)

inductive Action (C : Type) where
  | call (thread : ThreadId) (frame : Frame C)
  | step (thread : ThreadId) (choice : Choice C)

/-- One step of a call: the frame it goes on with (`none` when it returns), the slot, whether
everybody waiting is notified, and what happened. -/
structure Effect (C : Type) where
  frame : Option (Frame C)
  slot : Option (Initialization C)
  notify : Bool
  event : Option (Event C)

section

variable {C : Type}

/-- The call goes on and leaves the slot. -/
def Effect.goOn (slot : Option (Initialization C)) (frame : Frame C) : Effect C :=
  ⟨some frame, slot, false, none⟩

/-- The call returns and leaves the slot. -/
def Effect.answer (slot : Option (Initialization C)) (t : ThreadId) (answer : Answer C) :
    Effect C :=
  ⟨none, slot, false, some (.returned t answer)⟩

/-- The call returns the cache of the slot. -/
def Effect.take (slot : Option (Initialization C)) (t : ThreadId) (cache : C) : Effect C :=
  ⟨none, slot, false, some (.took t cache)⟩

/-- One step of the call on top of the stack of thread `t`. -/
def stepFrame (t : ThreadId) (slot : Option (Initialization C)) :
    Frame C → Choice C → Option (Effect C)
  -- `slot()` reads the map, then inserts under the write lock.
  | .registering cache, .go => some (.goOn (some (slot.getD .vacant)) (.replacing cache))
  | .replacing cache, .go =>
    some ⟨some .retiring, some (.ready cache), true, some (.registered cache)⟩
  | .retiring, .go => some (.answer slot t .registered)
  | .looking, .go =>
    match slot with
    | none => some (.answer slot t .absent)
    | some _ => some (.goOn slot .reading)
  | .reading, .go =>
    match slot with
    | some (.ready cache) => some (.take slot t cache)
    | _ => some (.answer slot t .absent)
  | .requesting, .go => some (.goOn (some (slot.getD .vacant)) .claiming)
  | .claiming, .go =>
    match slot with
    | some (.ready cache) => some (.take slot t cache)
    | some (.initializing owner) =>
      if owner = t then some (.answer slot t .recursiveInitialization)
      else some (.goOn slot (.waiting false))
    | some .vacant => some (.goOn (some (.initializing t)) .building)
    | none => none
  | .waiting notified, .go => if notified then some (.goOn slot .claiming) else none
  | .waiting _, .spurious => some (.goOn slot .claiming)
  | .building, .finish (.built cache) => some (.goOn slot (.built cache))
  | .building, .finish .failed => some (.goOn slot (.releasing .build))
  | .building, .finish .panicked => some (.goOn slot (.releasing .panicked))
  | .built candidate, .go =>
    match slot with
    | some (.ready cache) =>
      some ⟨some (.releasing (.cache cache)), slot, false, some (.took t cache)⟩
    | some (.initializing owner) =>
      if owner = t then
        some ⟨some (.releasing (.cache candidate)), some (.ready candidate), true,
          some (.took t candidate)⟩
      else some (.goOn slot (.releasing .unreachable))
    | _ => some (.goOn slot (.releasing .unreachable))
  -- `InitializationGuard::drop`
  | .releasing answer, .go =>
    match slot with
    | some (.initializing owner) =>
      if owner = t then some ⟨none, some .vacant, true, some (.returned t answer)⟩
      else some (.answer slot t answer)
    | _ => some (.answer slot t answer)
  | _, _ => none

/-- The state after a step of thread `t`, below whose call the stack is `rest`. -/
def State.apply (s : State C) (t : ThreadId) (rest : List (Frame C)) (effect : Effect C) :
    State C :=
  let stack := Function.update s.stack t (effect.frame.toList ++ rest)
  { slot := effect.slot
    stack := fun u => if effect.notify then (stack u).map Frame.wake else stack u
    history := effect.event.toList ++ s.history }

def next (s : State C) : Action C → Option (State C)
  | .call t frame =>
    if frame.isEntry && (s.stack t).head?.all Frame.isReentrant then
      some { s with stack := Function.update s.stack t (frame :: s.stack t) }
    else none
  | .step t choice =>
    match s.stack t with
    | [] => none
    | frame :: rest => (stepFrame t s.slot frame choice).map (s.apply t rest)

def init : State C where
  slot := none
  stack := fun _ => []
  history := []

/-! ## What a step can do -/

/-- The call is in its builder, or has what the builder returned. -/
def Frame.isBuilding : Frame C → Bool
  | .building | .built _ => true
  | _ => false

theorem Frame.isGuarded_of_isEntry {f : Frame C} (h : f.isEntry = true) : f.isGuarded = false := by
  cases f <;> first | rfl | cases h

theorem Frame.isGuarded_of_isBuilding {f : Frame C} (h : f.isBuilding = true) :
    f.isGuarded = true := by
  cases f <;> first | rfl | cases h

@[simp] theorem Frame.isBuilding_wake (f : Frame C) : f.wake.isBuilding = f.isBuilding := by
  cases f <;> rfl

/-- The steps of a call, by what they do to the slot. -/
inductive Step (t : ThreadId) (slot : Option (Initialization C)) : Frame C → Effect C → Prop
  | create {f g : Frame C} (hf : f.isGuarded = false) (hg : g.isGuarded = false)
      (hwaits : g ≠ .waiting false) : Step t slot f (.goOn (some (slot.getD .vacant)) g)
  | move {f g : Frame C} (hf : f.isGuarded = false) (hg : g.isGuarded = false)
      (hwaits : g ≠ .waiting false) : Step t slot f (.goOn slot g)
  | wait {owner : ThreadId} (hslot : slot = some (.initializing owner)) (hother : owner ≠ t) :
      Step t slot .claiming (.goOn slot (.waiting false))
  | start (hslot : slot = some .vacant) :
      Step t slot .claiming (.goOn (some (.initializing t)) .building)
  | register (cache : C) : Step t slot (.replacing cache)
      ⟨some .retiring, some (.ready cache), true, some (.registered cache)⟩
  | leave {f : Frame C} {answer : Answer C} (hf : f.isGuarded = false)
      (hanswer : answer ≠ .unreachable) : Step t slot f (.answer slot t answer)
  | take {f : Frame C} {cache : C} (hf : f.isGuarded = false)
      (hslot : slot = some (.ready cache)) : Step t slot f (.take slot t cache)
  | build {g : Frame C} (hg : g.isGuarded = true) (hreached : g ≠ .releasing .unreachable) :
      Step t slot .building (.goOn slot g)
  | yieldTo {candidate cache : C} (hslot : slot = some (.ready cache)) :
      Step t slot (.built candidate)
        ⟨some (.releasing (.cache cache)), slot, false, some (.took t cache)⟩
  | publish {candidate : C} (hslot : slot = some (.initializing t)) :
      Step t slot (.built candidate)
        ⟨some (.releasing (.cache candidate)), some (.ready candidate), true,
          some (.took t candidate)⟩
  | lost {candidate : C} (hready : ∀ cache, slot ≠ some (.ready cache))
      (hown : slot ≠ some (.initializing t)) :
      Step t slot (.built candidate) (.goOn slot (.releasing .unreachable))
  | release {answer : Answer C} (hslot : slot = some (.initializing t)) :
      Step t slot (.releasing answer) ⟨none, some .vacant, true, some (.returned t answer)⟩
  | drop {answer : Answer C} (hslot : slot ≠ some (.initializing t)) :
      Step t slot (.releasing answer) (.answer slot t answer)

theorem step_of_stepFrame {t : ThreadId} {slot : Option (Initialization C)} {f : Frame C}
    {choice : Choice C} {effect : Effect C} (h : stepFrame t slot f choice = some effect) :
    Step t slot f effect := by
  unfold stepFrame at h
  split at h
  case h_1 cache =>
    obtain rfl := Option.some.inj h
    exact .create rfl rfl nofun
  case h_2 cache =>
    obtain rfl := Option.some.inj h
    exact .register cache
  case h_3 =>
    obtain rfl := Option.some.inj h
    exact .leave rfl nofun
  case h_4 =>
    split at h
    · obtain rfl := Option.some.inj h
      exact .leave rfl nofun
    · obtain rfl := Option.some.inj h
      exact .move rfl rfl nofun
  case h_5 =>
    split at h
    · obtain rfl := Option.some.inj h
      exact .take rfl rfl
    · obtain rfl := Option.some.inj h
      exact .leave rfl nofun
  case h_6 =>
    obtain rfl := Option.some.inj h
    exact .create rfl rfl nofun
  case h_7 =>
    split at h
    · obtain rfl := Option.some.inj h
      exact .take rfl rfl
    · split at h
      · obtain rfl := Option.some.inj h
        exact .leave rfl nofun
      · rename_i hother
        obtain rfl := Option.some.inj h
        exact .wait rfl hother
    · obtain rfl := Option.some.inj h
      exact .start rfl
    · cases h
  case h_8 notified =>
    split at h
    · obtain rfl := Option.some.inj h
      exact .move rfl rfl nofun
    · cases h
  case h_9 =>
    obtain rfl := Option.some.inj h
    exact .move rfl rfl nofun
  case h_10 cache =>
    obtain rfl := Option.some.inj h
    exact .build rfl nofun
  case h_11 =>
    obtain rfl := Option.some.inj h
    exact .build rfl nofun
  case h_12 =>
    obtain rfl := Option.some.inj h
    exact .build rfl nofun
  case h_13 candidate =>
    split at h
    · obtain rfl := Option.some.inj h
      exact .yieldTo rfl
    · split at h
      · rename_i hself
        obtain rfl := Option.some.inj h
        exact .publish (hself ▸ rfl)
      · rename_i hother
        obtain rfl := Option.some.inj h
        exact .lost nofun fun hown => hother (Initialization.initializing.inj (Option.some.inj hown))
    · rename_i hready hinitializing
      obtain rfl := Option.some.inj h
      exact .lost hready fun hown => hinitializing t hown
  case h_14 answer =>
    split at h
    · split at h
      · rename_i hself
        obtain rfl := Option.some.inj h
        exact .release (hself ▸ rfl)
      · rename_i hother
        obtain rfl := Option.some.inj h
        exact .drop fun hown => hother (Initialization.initializing.inj (Option.some.inj hown))
    · rename_i hinitializing
      obtain rfl := Option.some.inj h
      exact .drop fun hown => hinitializing t hown
  case h_15 => cases h

/-! ## What holds in every state -/

/-- The cache of the latest registration. -/
def lastRegistered : List (Event C) → Option C
  | [] => none
  | .registered cache :: _ => some cache
  | .took _ _ :: history | .returned _ _ :: history => lastRegistered history

/-- The caches that calls took since the latest registration. -/
def recent : List (Event C) → List C
  | [] | .registered _ :: _ => []
  | .took _ cache :: history => cache :: recent history
  | .returned _ _ :: history => recent history

/-- Since the latest registration everybody took the same cache: the registered one, if any. -/
def Uniform (history : List (Event C)) : Prop :=
  ∀ cache ∈ recent history, ∀ other,
    other ∈ recent history ∨ lastRegistered history = some other → other = cache

/-- At most the thread `holder` has a call with a guard, and has one. -/
structure Held (s : State C) (holder : Option ThreadId) : Prop where
  count : ∀ t, (s.stack t).countP Frame.isGuarded = if holder = some t then 1 else 0
  vacant : s.slot = none ∨ s.slot = some .vacant → holder = none
  owner : ∀ t, s.slot = some (.initializing t) → holder = some t

structure Inv (s : State C) : Prop where
  held : ∃ holder, Held s holder
  waiting : ∀ t, .waiting false ∈ s.stack t → ∃ owner, owner ≠ t ∧
    s.slot = some (.initializing owner)
  last : ∀ cache, lastRegistered s.history = some cache → s.slot = some (.ready cache)
  recent : ∀ cache ∈ recent s.history, s.slot = some (.ready cache)
  building : ∀ t, ∀ f ∈ s.stack t, f.isBuilding = true → ∀ cache, s.slot = some (.ready cache) →
    lastRegistered s.history = some cache
  uniform : ∀ history, history <:+ s.history → Uniform history
  frames : ∀ t, .releasing .unreachable ∉ s.stack t
  answers : ∀ t, .returned t .unreachable ∉ s.history

section Apply

variable {s : State C} {t : ThreadId} {f : Frame C} {rest : List (Frame C)} {effect : Effect C}

/-- A frame of the next state is that of the step or one that was not stepped, woken if everybody
is. -/
theorem mem_apply {u : ThreadId} {g : Frame C} (h : g ∈ (s.apply t rest effect).stack u) :
    ∃ g', (u ≠ t ∧ g' ∈ s.stack u ∨ u = t ∧ g' ∈ rest ∨ u = t ∧ effect.frame = some g') ∧
      g = if effect.notify then g'.wake else g' := by
  have hold : ∀ g' ∈ Function.update s.stack t (effect.frame.toList ++ rest) u,
      u ≠ t ∧ g' ∈ s.stack u ∨ u = t ∧ g' ∈ rest ∨ u = t ∧ effect.frame = some g' := by
    intro g' hmem
    rcases eq_or_ne u t with rfl | hother
    · rw [Function.update_self, List.mem_append, Option.mem_toList] at hmem
      exact .inr (hmem.symm.imp (⟨rfl, ·⟩) (⟨rfl, ·⟩))
    · rw [Function.update_of_ne hother] at hmem
      exact .inl ⟨hother, hmem⟩
  unfold State.apply at h
  dsimp only at h
  cases hnotify : effect.notify with
  | false =>
    rw [hnotify] at h
    exact ⟨g, hold g h, rfl⟩
  | true =>
    rw [hnotify, if_pos rfl] at h
    obtain ⟨g', hmem, rfl⟩ := List.mem_map.mp h
    exact ⟨g', hold g' hmem, rfl⟩

theorem count_apply (u : ThreadId) :
    ((s.apply t rest effect).stack u).countP Frame.isGuarded =
      if u = t then effect.frame.toList.countP Frame.isGuarded + rest.countP Frame.isGuarded
      else (s.stack u).countP Frame.isGuarded := by
  have hwake : ∀ frames : List (Frame C),
      (if effect.notify then frames.map Frame.wake else frames).countP Frame.isGuarded =
        frames.countP Frame.isGuarded := by
    intro frames
    split
    · rw [List.countP_map]
      exact List.countP_congr fun g _ => by simp
    · rfl
  unfold State.apply
  dsimp only
  rw [hwake]
  split
  · rename_i hself
    rw [hself, Function.update_self, List.countP_append]
  · rename_i hother
    rw [Function.update_of_ne hother]

/-- A step that keeps the guard, or the lack of one, and does not touch the owner. -/
theorem Held.same {holder : Option ThreadId} (hs : Held s holder) (hstack : s.stack t = f :: rest)
    (hguard : effect.frame.toList.countP Frame.isGuarded = if f.isGuarded then 1 else 0)
    (hvacant : effect.slot = none ∨ effect.slot = some .vacant →
      s.slot = none ∨ s.slot = some .vacant)
    (howner : ∀ u, effect.slot = some (.initializing u) → s.slot = some (.initializing u)) :
    Held (s.apply t rest effect) holder := by
  refine ⟨fun u => ?_, fun h => hs.vacant (hvacant h), fun u h => hs.owner u (howner u h)⟩
  rw [count_apply, ← hs.count u]
  split
  · rename_i hself
    rw [hself, hstack, List.countP_cons, hguard, Nat.add_comm]
  · rfl

/-- The thread of a guarded call is the holder, and has no other. -/
theorem Held.guarded {holder : Option ThreadId} (hs : Held s holder)
    (hstack : s.stack t = f :: rest) (hf : f.isGuarded = true) :
    holder = some t ∧ rest.countP Frame.isGuarded = 0 := by
  have hcount := hs.count t
  rw [hstack, List.countP_cons, if_pos hf] at hcount
  split at hcount
  · rename_i hholder
    exact ⟨hholder, by omega⟩
  · omega

theorem Held.holder_of_mem {holder : Option ThreadId} (hs : Held s holder) (hf : f ∈ s.stack t)
    (hguarded : f.isGuarded = true) : holder = some t := by
  have hpos : 0 < (s.stack t).countP Frame.isGuarded := List.countP_pos_iff.mpr ⟨f, hf, hguarded⟩
  rw [hs.count t] at hpos
  split at hpos
  · assumption
  · cases hpos

theorem Held.apply {holder : Option ThreadId} (hs : Held s holder)
    (hstack : s.stack t = f :: rest) (h : Step t s.slot f effect) :
    ∃ holder', Held (s.apply t rest effect) holder' := by
  cases h with
  | create hf hg _ =>
    refine ⟨holder, hs.same hstack ?_ (fun hvacant => ?_) fun u hu => ?_⟩
    · rw [hf]
      simp [Effect.goOn, hg]
    · cases hslot : s.slot with
      | none => exact .inl rfl
      | some i =>
        rw [hslot] at hvacant
        exact hvacant
    · cases hslot : s.slot with
      | none =>
        rw [hslot] at hu
        cases hu
      | some i =>
        rw [hslot] at hu
        exact hu
  | move hf hg _ =>
    refine ⟨holder, hs.same hstack ?_ id fun _ => id⟩
    rw [hf]
    simp [Effect.goOn, hg]
  | wait _ _ => exact ⟨holder, hs.same hstack rfl id fun _ => id⟩
  | start hslot =>
    -- Nobody had a guard.
    obtain rfl := hs.vacant (.inr hslot)
    refine ⟨some t, fun u => ?_, fun hvacant => ?_, fun u hu => ?_⟩
    · have hcount := hs.count u
      rw [count_apply]
      split
      · rename_i hself
        rw [hself, hstack, List.countP_cons_of_neg Bool.false_ne_true, if_neg nofun] at hcount
        have hrest : rest.countP Frame.isGuarded = 0 := hcount
        rw [hrest, hself, if_pos rfl]
        rfl
      · rename_i hother
        rw [hcount, if_neg (by simp), if_neg fun hself => hother (Option.some.inj hself).symm]
    · rcases hvacant with hnone | hnone <;> cases hnone
    · exact congrArg some (Initialization.initializing.inj (Option.some.inj hu))
  | register cache =>
    refine ⟨holder, hs.same hstack rfl (fun hvacant => ?_) nofun⟩
    rcases hvacant with hnone | hnone <;> cases hnone
  | leave hf _ => exact ⟨holder, hs.same hstack (by rw [hf]; rfl) id fun _ => id⟩
  | take hf _ => exact ⟨holder, hs.same hstack (by rw [hf]; rfl) id fun _ => id⟩
  | build hg _ =>
    refine ⟨holder, hs.same hstack ?_ id fun _ => id⟩
    show [_].countP Frame.isGuarded = 1
    rw [List.countP_singleton, if_pos hg]
  | yieldTo _ => exact ⟨holder, hs.same hstack rfl id fun _ => id⟩
  | publish _ =>
    refine ⟨holder, hs.same hstack rfl (fun hvacant => ?_) nofun⟩
    rcases hvacant with hnone | hnone <;> cases hnone
  | lost _ _ => exact ⟨holder, hs.same hstack rfl id fun _ => id⟩
  | release hslot =>
    obtain ⟨hholder, hrest⟩ := hs.guarded hstack rfl
    refine ⟨none, fun u => ?_, fun _ => rfl, nofun⟩
    have hcount := hs.count u
    rw [count_apply, if_neg (show ¬ none = some u from nofun)]
    split
    · exact (Nat.zero_add _).trans hrest
    · rename_i hother
      rw [hcount, hholder, if_neg fun hself => hother (Option.some.inj hself).symm]
  | drop hslot =>
    obtain ⟨hholder, hrest⟩ := hs.guarded hstack rfl
    refine ⟨none, fun u => ?_, fun _ => rfl, fun u hu => ?_⟩
    · have hcount := hs.count u
      rw [count_apply, if_neg (show ¬ none = some u from nofun)]
      split
      · exact (Nat.zero_add _).trans hrest
      · rename_i hother
        rw [hcount, hholder, if_neg fun hself => hother (Option.some.inj hself).symm]
    · -- The slot is somebody else's only if that thread holds the guard.
      have hu' : s.slot = some (.initializing u) := hu
      have hself := (hs.owner u hu').symm.trans hholder
      exact absurd (Option.some.inj hself ▸ hu') hslot

/-- A registration, or the slot keeps its cache and what is taken is its cache. -/
theorem Step.history {slot : Option (Initialization C)} (h : Step t slot f effect)
    (history : List (Event C)) :
    (∃ cache, effect.event = some (.registered cache) ∧ effect.slot = some (.ready cache)) ∨
      (∀ cache, effect.event ≠ some (.registered cache)) ∧
      lastRegistered (effect.event.toList ++ history) = lastRegistered history ∧
      (∀ cache ∈ CacheRegistry.recent (effect.event.toList ++ history),
        cache ∈ CacheRegistry.recent history ∨ effect.slot = some (.ready cache)) ∧
      ∀ cache, slot = some (.ready cache) → effect.slot = some (.ready cache) := by
  have htook : ∀ cache, effect.slot = some (.ready cache) →
      ∀ other ∈ CacheRegistry.recent (.took t cache :: history),
        other ∈ CacheRegistry.recent history ∨ effect.slot = some (.ready other) := by
    intro cache hslot other hmem
    rcases List.mem_cons.mp hmem with rfl | hold
    · exact .inr hslot
    · exact .inl hold
  cases h with
  | create _ _ _ => exact .inr ⟨nofun, rfl, fun _ => .inl, fun cache hslot => by rw [hslot]; rfl⟩
  | move _ _ _ => exact .inr ⟨nofun, rfl, fun _ => .inl, fun _ => id⟩
  | wait _ _ => exact .inr ⟨nofun, rfl, fun _ => .inl, fun _ => id⟩
  | start hvacant =>
    exact .inr ⟨nofun, rfl, fun _ => .inl, fun cache hslot => by rw [hvacant] at hslot; cases hslot⟩
  | register cache => exact .inl ⟨cache, rfl, rfl⟩
  | leave _ _ => exact .inr ⟨nofun, rfl, fun _ => .inl, fun _ => id⟩
  | take _ hslot => exact .inr ⟨nofun, rfl, htook _ hslot, fun _ => id⟩
  | build _ _ => exact .inr ⟨nofun, rfl, fun _ => .inl, fun _ => id⟩
  | yieldTo hslot => exact .inr ⟨nofun, rfl, htook _ hslot, fun _ => id⟩
  | publish hown =>
    exact .inr ⟨nofun, rfl, htook _ rfl, fun cache hslot => by rw [hown] at hslot; cases hslot⟩
  | lost _ _ => exact .inr ⟨nofun, rfl, fun _ => .inl, fun _ => id⟩
  | release hown =>
    exact .inr ⟨nofun, rfl, fun _ => .inl, fun cache hslot => by rw [hown] at hslot; cases hslot⟩
  | drop _ => exact .inr ⟨nofun, rfl, fun _ => .inl, fun _ => id⟩

/-- A slot that becomes ready without a registration was initialized by this thread, which then
has left its builder. -/
theorem Step.ready_before {slot : Option (Initialization C)} (h : Step t slot f effect) {cache : C}
    (hevent : effect.event ≠ some (.registered cache))
    (hslot : effect.slot = some (.ready cache)) :
    slot = some (.ready cache) ∨
      slot = some (.initializing t) ∧ f.isGuarded = true ∧
        ∀ g, effect.frame = some g → g.isBuilding = false := by
  cases h with
  | create _ _ _ =>
    cases slot with
    | none => cases hslot
    | some i => exact .inl hslot
  | move _ _ _ => exact .inl hslot
  | wait _ _ => exact .inl hslot
  | start _ => cases hslot
  | register other =>
    obtain rfl := Initialization.ready.inj (Option.some.inj hslot)
    exact absurd rfl hevent
  | leave _ _ => exact .inl hslot
  | take _ _ => exact .inl hslot
  | build _ _ => exact .inl hslot
  | yieldTo _ => exact .inl hslot
  | publish hown =>
    exact .inr ⟨hown, rfl, fun g hg => by obtain rfl := Option.some.inj hg; rfl⟩
  | lost _ _ => exact .inl hslot
  | release _ => cases hslot
  | drop _ => exact .inl hslot

/-- Under a ready slot nobody enters a builder. -/
theorem Step.building_before {slot : Option (Initialization C)} (h : Step t slot f effect)
    {cache : C} (hslot : slot = some (.ready cache)) {g : Frame C} (hg : effect.frame = some g)
    (hbuilding : g.isBuilding = true) : f.isBuilding = true := by
  have hguarded := Frame.isGuarded_of_isBuilding hbuilding
  cases h with
  | create _ hunguarded _ =>
    obtain rfl := Option.some.inj hg
    exact absurd hguarded (by rw [hunguarded]; decide)
  | move _ hunguarded _ =>
    obtain rfl := Option.some.inj hg
    exact absurd hguarded (by rw [hunguarded]; decide)
  | wait _ _ =>
    obtain rfl := Option.some.inj hg
    cases hbuilding
  | start hvacant =>
    rw [hslot] at hvacant
    cases hvacant
  | register _ =>
    obtain rfl := Option.some.inj hg
    cases hbuilding
  | leave _ _ => cases hg
  | take _ _ => cases hg
  | build _ _ => rfl
  | yieldTo _ => rfl
  | publish _ => rfl
  | lost _ _ => rfl
  | release _ => cases hg
  | drop _ => cases hg

/-- A quiet step leaves a slot that is being initialized. -/
theorem Step.initializing_stays {slot : Option (Initialization C)} (h : Step t slot f effect)
    (hquiet : effect.notify = false) {owner : ThreadId}
    (hslot : slot = some (.initializing owner)) : effect.slot = some (.initializing owner) := by
  cases h with
  | create _ _ _ =>
    rw [hslot]
    rfl
  | start hvacant =>
    rw [hslot] at hvacant
    cases hvacant
  | register _ => cases hquiet
  | publish _ => cases hquiet
  | release _ => cases hquiet
  | move _ _ _ => exact hslot
  | wait _ _ => exact hslot
  | leave _ _ => exact hslot
  | take _ _ => exact hslot
  | build _ _ => exact hslot
  | yieldTo _ => exact hslot
  | lost _ _ => exact hslot
  | drop _ => exact hslot

theorem Step.waiting {slot : Option (Initialization C)} (h : Step t slot f effect)
    (hframe : effect.frame = some (.waiting false)) :
    ∃ owner, owner ≠ t ∧ effect.slot = some (.initializing owner) := by
  cases h with
  | create _ _ hwaits => exact absurd (Option.some.inj hframe) hwaits
  | move _ _ hwaits => exact absurd (Option.some.inj hframe) hwaits
  | wait hslot hother => exact ⟨_, hother, hslot⟩
  | build hg _ =>
    obtain rfl := Option.some.inj hframe
    cases hg
  | start _ => cases hframe
  | register _ => cases hframe
  | leave _ _ => cases hframe
  | take _ _ => cases hframe
  | yieldTo _ => cases hframe
  | publish _ => cases hframe
  | lost _ _ => cases hframe
  | release _ => cases hframe
  | drop _ => cases hframe

/-- The last arm of `try_get_or_create` is only taken when a build has lost its slot. -/
theorem Step.unreachable {slot : Option (Initialization C)} (h : Step t slot f effect)
    (hframe : effect.frame = some (.releasing .unreachable)) :
    f.isGuarded = true ∧ (∀ cache, slot ≠ some (.ready cache)) ∧
      slot ≠ some (.initializing t) := by
  cases h with
  | create _ hg _ =>
    obtain rfl := Option.some.inj hframe
    cases hg
  | move _ hg _ =>
    obtain rfl := Option.some.inj hframe
    cases hg
  | build _ hreached => exact absurd (Option.some.inj hframe) hreached
  | lost hready hown => exact ⟨rfl, hready, hown⟩
  | wait _ _ => cases hframe
  | start _ => cases hframe
  | register _ => cases hframe
  | leave _ _ => cases hframe
  | take _ _ => cases hframe
  | yieldTo _ => cases hframe
  | publish _ => cases hframe
  | release _ => cases hframe
  | drop _ => cases hframe

theorem Step.answers {slot : Option (Initialization C)} (h : Step t slot f effect)
    {u : ThreadId} (hevent : effect.event = some (.returned u .unreachable)) :
    f = .releasing .unreachable := by
  cases h with
  | leave _ hanswer =>
    exact absurd (Event.returned.inj (Option.some.inj hevent)).2 hanswer
  | release _ => exact congrArg _ (Event.returned.inj (Option.some.inj hevent)).2
  | drop _ => exact congrArg _ (Event.returned.inj (Option.some.inj hevent)).2
  | create _ _ _ => cases hevent
  | move _ _ _ => cases hevent
  | wait _ _ => cases hevent
  | start _ => cases hevent
  | register _ => cases hevent
  | take _ _ => cases hevent
  | build _ _ => cases hevent
  | yieldTo _ => cases hevent
  | publish _ => cases hevent
  | lost _ _ => cases hevent

end Apply

namespace Inv

variable {s : State C} {t : ThreadId} {f : Frame C} {rest : List (Frame C)} {effect : Effect C}

/-- While the slot is being initialized all guarded calls are on the stack of its owner. -/
theorem owner_of_guarded (hs : Inv s) {owner u : ThreadId}
    (hslot : s.slot = some (.initializing owner)) {g : Frame C} (hg : g ∈ s.stack u)
    (hguarded : g.isGuarded = true) : u = owner := by
  obtain ⟨holder, hheld⟩ := hs.held
  have hself := hheld.holder_of_mem hg hguarded
  exact Option.some.inj (hself.symm.trans (hheld.owner owner hslot))

/-- Under a guard the slot is the thread's, or ready. -/
theorem slot_of_guarded (hs : Inv s) (hf : f ∈ s.stack t) (hguarded : f.isGuarded = true) :
    s.slot = some (.initializing t) ∨ ∃ cache, s.slot = some (.ready cache) := by
  obtain ⟨holder, hheld⟩ := hs.held
  obtain rfl := hheld.holder_of_mem hf hguarded
  cases hslot : s.slot with
  | none => exact absurd (hheld.vacant (.inl hslot)) nofun
  | some i =>
    cases i with
    | vacant => exact absurd (hheld.vacant (.inr hslot)) nofun
    | initializing owner => exact .inl (by rw [Option.some.inj (hheld.owner owner hslot)])
    | ready cache => exact .inr ⟨cache, rfl⟩

theorem waiting_apply (hs : Inv s) (hstack : s.stack t = f :: rest)
    (h : Step t s.slot f effect) (u : ThreadId)
    (hwaiting : .waiting false ∈ (s.apply t rest effect).stack u) :
    ∃ owner, owner ≠ u ∧ effect.slot = some (.initializing owner) := by
  obtain ⟨g, hmem, hg⟩ := mem_apply hwaiting
  cases hnotify : effect.notify with
  | true =>
    rw [hnotify, if_pos rfl] at hg
    cases g <;> cases hg
  | false =>
    rw [hnotify, if_neg Bool.false_ne_true] at hg
    subst hg
    have hold : ∀ u, .waiting false ∈ s.stack u → ∃ owner, owner ≠ u ∧
        effect.slot = some (.initializing owner) := fun u hmem => by
      obtain ⟨owner, hother, hslot⟩ := hs.waiting u hmem
      exact ⟨owner, hother, h.initializing_stays hnotify hslot⟩
    rcases hmem with ⟨-, hmem⟩ | ⟨rfl, hmem⟩ | ⟨rfl, hframe⟩
    · exact hold u hmem
    · exact hold u (hstack ▸ List.mem_cons_of_mem f hmem)
    · exact h.waiting hframe

theorem building_apply (hs : Inv s) (hstack : s.stack t = f :: rest)
    (h : Step t s.slot f effect) (u : ThreadId) (g : Frame C)
    (hstill : g ∈ (s.apply t rest effect).stack u) (hbuilding : g.isBuilding = true) (cache : C)
    (hslot : effect.slot = some (.ready cache)) :
    lastRegistered (effect.event.toList ++ s.history) = some cache := by
  obtain ⟨g', hmem, hg⟩ := mem_apply hstill
  have hbuilding' : g'.isBuilding = true := by
    rw [hg] at hbuilding
    split at hbuilding
    · rwa [Frame.isBuilding_wake] at hbuilding
    · exact hbuilding
  rcases h.history s.history with ⟨registered, hevent, hready⟩ | ⟨hevent, hlast, -, -⟩
  · have hsame := Initialization.ready.inj (Option.some.inj (hready.symm.trans hslot))
    rw [hevent, hsame]
    rfl
  rw [hlast]
  have hguarded := Frame.isGuarded_of_isBuilding hbuilding'
  rcases h.ready_before (hevent cache) hslot with hready | ⟨hown, hf, hleft⟩
  · rcases hmem with ⟨-, hmem⟩ | ⟨rfl, hmem⟩ | ⟨rfl, hframe⟩
    · exact hs.building u g' hmem hbuilding' cache hready
    · exact hs.building u g' (hstack ▸ List.mem_cons_of_mem f hmem) hbuilding' cache hready
    · exact hs.building u f (hstack ▸ List.mem_cons_self)
        (h.building_before hready hframe hbuilding') cache hready
  · -- The builder of this thread was the only one.
    rcases hmem with ⟨hother, hmem⟩ | ⟨rfl, hmem⟩ | ⟨rfl, hframe⟩
    · exact absurd (hs.owner_of_guarded hown hmem hguarded) hother
    · obtain ⟨holder, hheld⟩ := hs.held
      have hnone := (hheld.guarded hstack hf).2
      have hpos := List.countP_pos_iff.mpr ⟨g', hmem, hguarded⟩
      omega
    · exact absurd hbuilding' (by rw [hleft g' hframe]; decide)

/-- What is known of the history at the next state. -/
theorem history_apply (hs : Inv s) (h : Step t s.slot f effect) :
    (∀ cache, lastRegistered (effect.event.toList ++ s.history) = some cache →
      effect.slot = some (.ready cache)) ∧
    ∀ cache ∈ CacheRegistry.recent (effect.event.toList ++ s.history),
      effect.slot = some (.ready cache) := by
  rcases h.history s.history with ⟨registered, hevent, hready⟩ | ⟨-, hlast, hrecent, hstays⟩
  · rw [hevent]
    refine ⟨fun cache hcache => ?_, nofun⟩
    rw [hready, Option.some.inj (show some registered = some cache from hcache)]
  · constructor
    · intro cache hcache
      rw [hlast] at hcache
      exact hstays cache (hs.last cache hcache)
    · intro cache hmem
      rcases hrecent cache hmem with hold | hslot
      · exact hstays cache (hs.recent cache hold)
      · exact hslot

theorem uniform_apply (hs : Inv s) (h : Step t s.slot f effect) (history : List (Event C))
    (hsuffix : history <:+ effect.event.toList ++ s.history) : Uniform history := by
  obtain ⟨hlast, hrecent⟩ := hs.history_apply h
  have hwhole : Uniform (effect.event.toList ++ s.history) := by
    intro cache hcache other hother
    have hready := hrecent cache hcache
    have hready' : effect.slot = some (.ready other) :=
      hother.elim (hrecent other) (hlast other)
    exact Initialization.ready.inj (Option.some.inj (hready'.symm.trans hready))
  cases hevent : effect.event with
  | none =>
    rw [hevent] at hsuffix
    exact hs.uniform history hsuffix
  | some event =>
    rw [hevent] at hsuffix hwhole
    rcases List.suffix_cons_iff.mp hsuffix with rfl | hold
    · exact hwhole
    · exact hs.uniform history hold

theorem frames_apply (hs : Inv s) (hstack : s.stack t = f :: rest)
    (h : Step t s.slot f effect) (u : ThreadId) :
    .releasing .unreachable ∉ (s.apply t rest effect).stack u := by
  intro hframe
  obtain ⟨g, hmem, hg⟩ := mem_apply hframe
  have hsame : g = .releasing .unreachable := by
    split at hg
    · cases g <;> first | exact hg.symm | cases hg
    · exact hg.symm
  subst hsame
  rcases hmem with ⟨-, hmem⟩ | ⟨rfl, hmem⟩ | ⟨rfl, hlost⟩
  · exact hs.frames u hmem
  · exact hs.frames u (hstack ▸ List.mem_cons_of_mem f hmem)
  · obtain ⟨hf, hready, hown⟩ := h.unreachable hlost
    rcases hs.slot_of_guarded (hstack ▸ List.mem_cons_self) hf with hslot | ⟨cache, hslot⟩
    · exact hown hslot
    · exact hready cache hslot

theorem step (hs : Inv s) (hstack : s.stack t = f :: rest) (h : Step t s.slot f effect) :
    Inv (s.apply t rest effect) where
  held := by
    obtain ⟨holder, hheld⟩ := hs.held
    exact hheld.apply hstack h
  waiting := hs.waiting_apply hstack h
  last := (hs.history_apply h).1
  recent := (hs.history_apply h).2
  building := hs.building_apply hstack h
  uniform := hs.uniform_apply h
  frames := hs.frames_apply hstack h
  answers u hmem := by
    have hmem' : .returned u .unreachable ∈ effect.event.toList ++ s.history := hmem
    rcases List.mem_append.mp hmem' with hevent | hold
    · have hf := h.answers (Option.mem_toList.mp hevent)
      exact hs.frames t (hstack ▸ hf ▸ List.mem_cons_self)
    · exact hs.answers u hold

/-- A call starts with nothing in its hands. -/
theorem call (hs : Inv s) (hentry : f.isEntry = true) :
    Inv { s with stack := Function.update s.stack t (f :: s.stack t) } := by
  have hunguarded := Frame.isGuarded_of_isEntry hentry
  have hmem : ∀ u, ∀ g ∈ Function.update s.stack t (f :: s.stack t) u,
      g ∈ s.stack u ∨ g = f := by
    intro u g hg
    rcases eq_or_ne u t with rfl | hother
    · rw [Function.update_self] at hg
      exact (List.mem_cons.mp hg).symm
    · rw [Function.update_of_ne hother] at hg
      exact .inl hg
  refine ⟨?_, fun u hu => ?_, hs.last, hs.recent, fun u g hg hbuilding => ?_, hs.uniform,
    fun u hu => ?_, hs.answers⟩
  · obtain ⟨holder, hheld⟩ := hs.held
    refine ⟨holder, fun u => ?_, hheld.vacant, hheld.owner⟩
    rw [← hheld.count u]
    rcases eq_or_ne u t with rfl | hother
    · show (Function.update s.stack u (f :: s.stack u) u).countP _ = _
      rw [Function.update_self, List.countP_cons_of_neg (by rw [hunguarded]; decide)]
    · show (Function.update s.stack t (f :: s.stack t) u).countP _ = _
      rw [Function.update_of_ne hother]
  · rcases hmem u _ hu with hold | rfl
    · exact hs.waiting u hold
    · cases hentry
  · rcases hmem u g hg with hold | rfl
    · exact hs.building u g hold hbuilding
    · exact absurd (Frame.isGuarded_of_isBuilding hbuilding) (by rw [hunguarded]; decide)
  · rcases hmem u _ hu with hold | rfl
    · exact hs.frames u hold
    · cases hentry

theorem next {s' : State C} {a : Action C} (hs : Inv s) (h : CacheRegistry.next s a = some s') :
    Inv s' := by
  cases a with
  | call t f =>
    unfold CacheRegistry.next at h
    dsimp only at h
    split at h
    · rename_i henabled
      obtain rfl := Option.some.inj h
      exact hs.call (Bool.and_eq_true_iff.mp henabled).1
    · cases h
  | step t choice =>
    unfold CacheRegistry.next at h
    dsimp only at h
    split at h
    · cases h
    · rename_i f rest hstack
      obtain ⟨effect, hstep, rfl⟩ := Option.map_eq_some_iff.mp h
      exact hs.step hstack (step_of_stepFrame hstep)

theorem init : Inv (CacheRegistry.init : State C) where
  held := ⟨none, fun _ => rfl, fun _ => rfl, nofun⟩
  waiting := nofun
  last := nofun
  recent := nofun
  building := nofun
  uniform history hsuffix := by
    obtain rfl := List.suffix_nil.mp hsuffix
    exact nofun
  frames := nofun
  answers := nofun

theorem run {schedule : List (Action C)}
    (h : exec CacheRegistry.next CacheRegistry.init schedule = some s) : Inv s :=
  exec_invariant (fun _ _ _ hm hstep => Inv.next hm hstep) init h

end Inv


/-! ## The registry -/

/-- What the registry promises in a state. -/
structure Coalesced (s : State C) : Prop where
  /-- At most one builder runs. -/
  alone : ∀ t u, .building ∈ s.stack t → .building ∈ s.stack u →
    t = u ∧ (s.stack t).countP Frame.isBuilding = 1
  /-- The caller of a builder that returned gets the registered cache, or its own if none is. -/
  wins : ∀ t candidate rest, s.stack t = .built candidate :: rest → ∃ s',
    next s (.step t .go) = some s' ∧
      (s'.stack t).head? = some (.releasing (.cache ((lastRegistered s.history).getD candidate)))
  /-- Between two registrations one cache is returned. -/
  uniform : ∀ history, history <:+ s.history → Uniform history
  /-- A call ends with its answer, does not own the slot any more, and leaves a ready one. -/
  released : ∀ t answer rest, s.stack t = .releasing answer :: rest → ∃ s',
    next s (.step t .go) = some s' ∧ s'.history = .returned t answer :: s.history ∧
      s'.slot ≠ some (.initializing t) ∧
      ∀ cache, s.slot = some (.ready cache) → s'.slot = s.slot
  /-- A thread that is not in a build does not own the slot. -/
  owned : ∀ t, s.slot = some (.initializing t) → ∃ f ∈ s.stack t, f.isGuarded = true
  waiting : ∀ t, .waiting false ∈ s.stack t → ∃ owner, owner ≠ t ∧
    s.slot = some (.initializing owner)
  /-- A builder's own request of the name leaves the slot; it is refused until a registration. -/
  recursive : ∀ t rest, s.stack t = .claiming :: rest → .building ∈ rest → ∃ s',
    next s (.step t .go) = some s' ∧ s'.slot = s.slot ∧ s'.stack t = rest ∧
      s'.history = (match lastRegistered s.history with
        | none => .returned t .recursiveInitialization
        | some cache => .took t cache) :: s.history
  reached : ∀ t, .releasing .unreachable ∉ s.stack t ∧ .returned t .unreachable ∉ s.history

theorem next_step {s : State C} {t : ThreadId} {choice : Choice C} {f : Frame C}
    {rest : List (Frame C)} {effect : Effect C} (hstack : s.stack t = f :: rest)
    (h : stepFrame t s.slot f choice = some effect) :
    next s (.step t choice) = some (s.apply t rest effect) := by
  unfold next
  dsimp only
  rw [hstack]
  exact congrArg (Option.map (s.apply t rest)) h

theorem head_apply (s : State C) (t : ThreadId) (rest : List (Frame C)) (effect : Effect C)
    {g : Frame C} (hframe : effect.frame = some g) (hwake : g.wake = g) :
    ((s.apply t rest effect).stack t).head? = some g := by
  unfold State.apply
  dsimp only
  rw [Function.update_self, hframe]
  split
  · exact congrArg some hwake
  · rfl

namespace Inv

variable {s : State C} {t : ThreadId} {rest : List (Frame C)}

theorem alone (hs : Inv s) {u : ThreadId} (ht : .building ∈ s.stack t)
    (hu : .building ∈ s.stack u) : t = u ∧ (s.stack t).countP Frame.isBuilding = 1 := by
  obtain ⟨holder, hheld⟩ := hs.held
  obtain rfl := hheld.holder_of_mem ht rfl
  refine ⟨Option.some.inj (hheld.holder_of_mem hu rfl), Nat.le_antisymm ?_ ?_⟩
  · have hcount := hheld.count t
    rw [if_pos rfl] at hcount
    rw [← hcount]
    exact List.countP_mono_left fun f _ => Frame.isGuarded_of_isBuilding
  · exact List.countP_pos_iff.mpr ⟨.building, ht, rfl⟩

theorem wins (hs : Inv s) {candidate : C} (hstack : s.stack t = .built candidate :: rest) :
    ∃ s', CacheRegistry.next s (.step t .go) = some s' ∧
      (s'.stack t).head? =
        some (.releasing (.cache ((lastRegistered s.history).getD candidate))) := by
  have hmem : .built candidate ∈ s.stack t := hstack ▸ List.mem_cons_self
  rcases hs.slot_of_guarded hmem rfl with hslot | ⟨cache, hslot⟩
  · have hnone : lastRegistered s.history = none := by
      cases hlast : lastRegistered s.history with
      | none => rfl
      | some cache =>
        have hready := hs.last cache hlast
        rw [hslot] at hready
        cases hready
    have hstep : stepFrame t s.slot (.built candidate) .go =
        some ⟨some (.releasing (.cache candidate)), some (.ready candidate), true,
          some (.took t candidate)⟩ := by
      rw [hslot]
      exact if_pos rfl
    rw [hnone]
    exact ⟨_, next_step hstack hstep, head_apply s t rest _ rfl rfl⟩
  · have hstep : stepFrame t s.slot (.built candidate) .go =
        some ⟨some (.releasing (.cache cache)), s.slot, false, some (.took t cache)⟩ := by
      rw [hslot]
      rfl
    rw [hs.building t _ hmem rfl cache hslot]
    exact ⟨_, next_step hstack hstep, head_apply s t rest _ rfl rfl⟩

theorem released {answer : Answer C}
    (hstack : s.stack t = .releasing answer :: rest) : ∃ s',
    CacheRegistry.next s (.step t .go) = some s' ∧ s'.history = .returned t answer :: s.history ∧
      s'.slot ≠ some (.initializing t) ∧
      ∀ cache, s.slot = some (.ready cache) → s'.slot = s.slot := by
  by_cases hslot : s.slot = some (.initializing t)
  · have hstep : stepFrame t s.slot (.releasing answer) .go =
        some ⟨none, some .vacant, true, some (.returned t answer)⟩ := by
      rw [hslot]
      exact if_pos rfl
    refine ⟨_, next_step hstack hstep, rfl, nofun, fun cache hready => ?_⟩
    rw [hslot] at hready
    cases hready
  · have hstep : stepFrame t s.slot (.releasing answer) .go =
        some (.answer s.slot t answer) := by
      unfold stepFrame
      dsimp only
      split
      · rename_i owner howner
        exact if_neg fun hself : owner = t => hslot (by rw [← hself]; exact howner)
      · rfl
    exact ⟨_, next_step hstack hstep, rfl, hslot, fun _ _ => rfl⟩

theorem owned (hs : Inv s) (hslot : s.slot = some (.initializing t)) :
    ∃ f ∈ s.stack t, f.isGuarded = true := by
  obtain ⟨holder, hheld⟩ := hs.held
  have hcount := hheld.count t
  rw [hheld.owner t hslot, if_pos rfl] at hcount
  exact List.countP_pos_iff.mp (by rw [hcount]; exact Nat.one_pos)

theorem recursive (hs : Inv s) (hstack : s.stack t = .claiming :: rest)
    (hbuilding : .building ∈ rest) : ∃ s',
    CacheRegistry.next s (.step t .go) = some s' ∧ s'.slot = s.slot ∧ s'.stack t = rest ∧
      s'.history = (match lastRegistered s.history with
        | none => .returned t .recursiveInitialization
        | some cache => .took t cache) :: s.history := by
  have hmem : .building ∈ s.stack t := hstack ▸ List.mem_cons_of_mem _ hbuilding
  rcases hs.slot_of_guarded hmem rfl with hslot | ⟨cache, hslot⟩
  · have hnone : lastRegistered s.history = none := by
      cases hlast : lastRegistered s.history with
      | none => rfl
      | some cache =>
        have hready := hs.last cache hlast
        rw [hslot] at hready
        cases hready
    have hstep : stepFrame t s.slot .claiming .go =
        some (.answer s.slot t .recursiveInitialization) := by
      rw [hslot]
      exact if_pos rfl
    rw [hnone]
    exact ⟨_, next_step hstack hstep, rfl, Function.update_self .., rfl⟩
  · have hstep : stepFrame t s.slot .claiming .go = some (.take s.slot t cache) := by
      rw [hslot]
      rfl
    rw [hs.building t _ hmem rfl cache hslot]
    exact ⟨_, next_step hstack hstep, rfl, Function.update_self .., rfl⟩

end Inv

/-- **The registry of one name.** In every state of every schedule one builder runs at most, a
registration wins over it, the calls between two registrations agree, and nobody is left behind. -/
theorem named_cache_registry (schedule : List (Action C)) (s : State C)
    (h : exec next init schedule = some s) : Coalesced s := by
  have hs := Inv.run h
  exact {
    alone := fun _ _ => hs.alone
    wins := fun _ _ _ => hs.wins
    uniform := hs.uniform
    released := fun _ _ _ => Inv.released
    owned := fun _ => hs.owned
    waiting := hs.waiting
    recursive := fun _ _ => hs.recursive
    reached := fun t => ⟨hs.frames t, hs.answers t⟩ }

end

/-! ## A registration during a build -/

/-- Thread 0 builds; thread 1 registers a cache meanwhile. -/
def registeredDuringBuild : List (Action Nat) :=
  [.call 0 .requesting, .step 0 .go, .step 0 .go,
   .call 1 (.registering 7), .step 1 .go, .step 1 .go, .step 1 .go]

/-- The builder fails; or it asks for its own name and is answered. -/
theorem registration_outlives_build :
    (∃ s, exec next init (registeredDuringBuild ++ [.step 0 (.finish .failed), .step 0 .go]) =
        some s ∧ s.history.head? = some (.returned 0 .build) ∧ s.slot = some (.ready 7)) ∧
    ∃ s, exec next init (registeredDuringBuild ++ [.call 0 .requesting, .step 0 .go, .step 0 .go]) =
        some s ∧ s.stack 0 = [.building] ∧ s.history.head? = some (.took 0 7) ∧
      .returned 0 .recursiveInitialization ∉ s.history :=
  ⟨⟨_, rfl, rfl, rfl⟩, _, rfl, rfl, rfl, by decide⟩

theorem named_cache_registry_registered : ∃ s,
    exec next init (registeredDuringBuild ++ [.step 0 (.finish (.built 3)), .step 0 .go]) = some s ∧
      s.stack 0 = [.releasing (.cache 7)] ∧ Coalesced s :=
  ⟨_, rfl, rfl, named_cache_registry
    (registeredDuringBuild ++ [.step 0 (.finish (.built 3)), .step 0 .go]) _ rfl⟩

end CacheRegistry

end Amalgam
