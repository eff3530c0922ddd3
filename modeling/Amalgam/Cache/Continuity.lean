import Amalgam.Cache.Health
import Amalgam.Memory.Contents

/-!
# Amalgam — a continuity gap and what L1 got from L2

`src/cache/runtime.rs`, `read.rs` and `entry.rs`: calls of `ensure_health` and `continuity_gap`,
hydrations of L1 from L2, and reads of L1, over the memory store. A gap raises the epoch first and
clears L1 afterwards, and a hydration can be under way all the time: it captures a fence, reads L2,
checks the fence twice and inserts, each at a moment of its own. What it inserts after the clear
carries the epoch of its fence, and so does whatever is made of it.

* **`gap_hides_earlier`** — a read that begins after a gap was observed and the observing call has
  returned serves nothing that was stored, or whose fence was captured, before that call.

Moments are counted by the actions of the run; no code reads them. What L2 answers, whether the
lane of a fence is still current, and the clocks are inputs.
-/

namespace Amalgam

namespace Continuity

open Health (BackplaneState CallId)

/-- A value in L1, with the moment it was stored and that of the fence it was hydrated under. -/
structure Marked (V : Type) where
  value : V
  storedAt : Nat
  fencedAt : Option Nat

/-- A representation as L1 holds it. -/
abbrev Copy (V : Type) := Entry (Marked V)

/-- The part of a fence that continuity is about. -/
structure Fence where
  capturedEpoch : Nat
  mark : Nat
deriving DecidableEq

inductive HydrationPc (V : Type) where
  | observe (fence : Fence)
  | fetch (fence : Fence) (observed : Option (Copy V))
  -- `hydrate` and `passive`
  | check (fence : Fence) (observed : Option (Copy V)) (source : Entry V)
  | recheck (fence : Fence) (observed : Option (Copy V)) (copy : Copy V)
  | insert (fence : Fence) (observed : Option (Copy V)) (copy : Copy V)
  | done

structure Hydration (K V : Type) where
  key : K
  pc : HydrationPc V

inductive ReadPc (V : Type) where
  | start
  | fetch (captured : Nat)
  | check (captured : Nat) (entry : Copy V)
  /-- Found expired; a fallback may still serve it. -/
  | stale (entry : Copy V)
  | done

/-- A read, with the gaps that had been observed by calls that returned before it began. -/
structure Reading (K V : Type) where
  key : K
  after : List Nat
  pc : ReadPc V

structure Served (V : Type) where
  after : List Nat
  entry : Copy V

structure State (K V : Type) where
  health : Health.State (Memory.State K (Marked V))
  hydrations : AList fun _ : Nat => Hydration K V
  reads : AList fun _ : Nat => Reading K V
  served : List (Served V)
  /-- The number of actions so far. -/
  moment : Nat
  /-- When the call began, and whether it has observed a gap. -/
  begun : CallId → Nat
  gap : CallId → Bool
  /-- The calls that observed a gap, by the moment they began: those that have raised the epoch,
  cleared L1, returned. -/
  raised : List Nat
  cleared : List Nat
  returned : List Nat

/-- How a representation is made of another one that was read. -/
inductive Transformation where
  | throttled (throttle : Duration)
  | expired (at_ : Timestamp)
  | withoutEagerRefresh

def Transformation.apply {V : Type} (t : Transformation) (epoch : Nat) (now : Timestamp)
    (inst : Instance) (e : Entry V) : Option (Entry V) :=
  match t with
  | .throttled throttle => e.tryThrottled epoch throttle now inst
  | .expired at_ => some (e.withLogicalExpirationAt at_ now inst)
  | .withoutEagerRefresh =>
    some { e with
      inst
      metadata := { e.metadata with
        origin := match e.metadata.origin with
          | .fresh _ => .fresh none
          | .failSafe => .failSafe } }

/-- How what was made of an entry is written back. -/
inductive Rewrite (V : Type) where
  | insertAt
  | insertIfUnchanged (expected : Option (Copy V))
  | applyExpire (expected : Copy V)

def Rewrite.op {K V : Type} (rewrite : Rewrite V) (write : Memory.PreparedWrite K (Marked V)) :
    Memory.Op K (Marked V) :=
  match rewrite with
  | .insertAt => .insertAt write
  | .insertIfUnchanged expected => .insertIfUnchanged write expected
  | .applyExpire expected => .applyExpire write expected

structure Config where
  invalidatesOnGap : Bool
  recovery : Option Duration
  instantMax : Nat

/-- `invalidate_memory_layers` clears the values; the marker layer is another store. -/
def Config.health {K V : Type} (cfg : Config) : Health.Config (Memory.State K (Marked V)) where
  invalidatesOnGap := cfg.invalidatesOnGap
  recovery := cfg.recovery
  instantMax := cfg.instantMax
  invalidateLayers := fun memory => { memory with backend := memory.backend.invalidateAll }

structure Input (V : Type) where
  now : Timestamp
  inst : Instance
  /-- `fence.lane` is where it was captured. -/
  laneCurrent : Bool
  /-- What L2 answers. -/
  fetched : Option (Entry V)
  /-- `prepare_memory_hydration`, unless the tags or an entry of L1 forbid the insertion. -/
  prepared : Option Metadata
  /-- Found fresh by a lookup that asks nothing else. -/
  ready : Bool

inductive Action (K V : Type) where
  | publish (state : BackplaneState)
  | ensureHealth (call : CallId)
  | continuityGap (call : CallId)
  | stepCall (call : CallId) (now : Health.Instant)
  /-- `hydration_fence`, with a lane that is free. -/
  | hydrate (id : Nat) (key : K)
  /-- The fence of an admitted data message, for the refresh of what L1 held. -/
  | refresh (id : Nat) (key : K) (expected : Copy V)
  | stepHydration (id : Nat) (input : Input V)
  | beginRead (id : Nat) (key : K)
  | stepRead (id : Nat) (input : Input V)
  | rewrite (id : Nat) (transformation : Transformation) (mode : Rewrite V) (input : Input V)
  /-- Any other operation of the memory store. What it writes did not come from L2. -/
  | write (op : Memory.Op K (Marked V))

section

variable {K V : Type} [LinearOrder K]

namespace State

def memory (s : State K V) : Memory.State K (Marked V) := s.health.shared.layers

def epoch (s : State K V) : Nat := s.health.shared.epoch

def withMemory (s : State K V) (memory : Memory.State K (Marked V)) : State K V :=
  { s with health.shared.layers := memory }

/-- The store as its next operation finds it: hydrated entries are judged by the epoch. -/
def world (s : State K V) : Memory.State K (Marked V) :=
  { s.memory with world := { s.memory.world with epoch := s.epoch } }

def onMemory (s : State K V) (op : Memory.Op K (Marked V)) : Option (State K V) :=
  (Memory.next s.world op).map s.withMemory

/-- `get_at`. -/
def readMemory (s : State K V) (key : K) (now : Timestamp) : Option (Copy V) × State K V :=
  let read := s.memory.backend.read s.world.world key (some now)
  (read.1, s.withMemory { s.memory with backend := read.2 })

def writeOf (s : State K V) (key : K) (entry : Copy V) (input : Input V) :
    Memory.PreparedWrite K (Marked V) :=
  Memory.prepareWrite key { entry with value := { entry.value with storedAt := s.moment } }
    ⟨input.now, s.memory.world.instant⟩ .set input.inst

/-- `fence.passive_is_current()`. -/
def passiveIsCurrent (s : State K V) (fence : Fence) (input : Input V) : Bool :=
  input.laneCurrent && s.epoch = fence.capturedEpoch

end State

/-- `with_hydrated_value`. -/
def hydratedCopy (source : Entry V) (metadata : Metadata) (fence : Fence) (input : Input V)
    (moment : Nat) : Copy V where
  inst := input.inst
  value := ⟨source.value, moment, some fence.mark⟩
  metadata
  eligibility := .hydrated fence.capturedEpoch

def stepHydration (s : State K V) (key : K) (input : Input V) :
    HydrationPc V → Option (HydrationPc V × State K V)
  | .observe fence =>
    let read := s.readMemory key input.now
    some (.fetch fence read.1, read.2)
  | .fetch fence observed =>
    match input.fetched with
    | some source => some (.check fence observed source, s)
    | none => some (.done, s)
  | .check fence observed source =>
    match input.prepared with
    | some metadata =>
      if s.passiveIsCurrent fence input then
        some (.recheck fence observed (hydratedCopy source metadata fence input s.moment), s)
      else some (.done, s)
    | none => some (.done, s)
  | .recheck fence observed copy =>
    if s.passiveIsCurrent fence input then some (.insert fence observed copy, s)
    else some (.done, s)
  | .insert _ observed copy =>
    (s.onMemory (.insertIfUnchanged (s.writeOf key copy input) observed)).map fun s => (.done, s)
  | .done => none

/-- The read serves the entry. -/
def State.serve (s : State K V) (after : List Nat) (entry : Copy V) : State K V :=
  { s with served := ⟨after, entry⟩ :: s.served }

/-- `read_l1`, where its own call of `ensure_health` is any call of the run; and the lookups that
serve what they find. -/
def stepRead (s : State K V) (key : K) (after : List Nat) (input : Input V) :
    ReadPc V → Option (ReadPc V × State K V)
  | .start => some (.fetch s.epoch, s)
  | .fetch captured =>
    let read := s.readMemory key input.now
    match read.1 with
    | none => some (.done, read.2)
    | some entry =>
      if input.ready then some (.done, read.2.serve after entry)
      else some (.check captured entry, read.2)
  | .check captured entry =>
    if s.epoch ≠ captured || !entry.isReadEligible s.epoch || entry.isPhysicallyExpired input.now
    then some (.done, s)
    else
      match entry.freshness input.now with
      | .fresh => some (.done, s.serve after entry)
      -- Stale values are served too where the options allow it.
      | .stale => some (.stale entry, if input.ready then s.serve after entry else s)
  | .stale _ | .done => none

/-- What a read holds of L1. -/
def ReadPc.held : ReadPc V → Option (Copy V)
  | .check _ entry | .stale entry => some entry
  | .start | .fetch _ | .done => none

/-- `fallback` serves what it has throttled. -/
def Transformation.serves : Transformation → Bool
  | .throttled _ => true
  | .expired _ | .withoutEagerRefresh => false

/-- A call at the lock finds that the transport lost continuity. -/
def observesGap (sh : Health.Shared (Memory.State K (Marked V))) : Health.Pc → Bool
  | .lock current _ => sh.seen ≠ some current && Health.isGap current sh.seen
  | _ => false

/-- The records that a step of a call adds. -/
def State.note (s : State K V) (call : CallId)
    (moved : Health.Pc × Health.Shared (Memory.State K (Marked V))) : State K V :=
  let pc := s.health.calls call
  let gap := s.gap call || observesGap s.health.shared pc
  let begun := s.begun call
  { s with
    health := s.health.at_ call moved
    gap := Function.update s.gap call (gap && moved.1 ≠ .idle)
    raised := if gap ∧ s.epoch < moved.2.epoch then begun :: s.raised else s.raised
    cleared := match pc with
      | .invalidate _ => if gap then begun :: s.cleared else s.cleared
      | _ => s.cleared
    returned := if gap ∧ moved.1 = .idle then begun :: s.returned else s.returned }

/-- What is written did not come from L2, and is stored now. -/
def isLocalWrite (s : State K V) (op : Memory.Op K (Marked V)) : Bool :=
  op.written.all fun entry =>
    entry.eligibility = .ofLocal && entry.value.storedAt = s.moment && entry.value.fencedAt.isNone

def act (cfg : Config) (s : State K V) : Action K V → Option (State K V)
  | .publish state =>
    (Health.publish s.health.shared state).map fun shared => { s with health.shared := shared }
  | .ensureHealth call =>
    if s.health.calls call = .idle then
      (Health.beginHealth s.health.shared).map fun moved =>
        { s with
          health := s.health.at_ call moved
          begun := Function.update s.begun call s.moment
          gap := Function.update s.gap call false }
    else none
  | .continuityGap call =>
    if s.health.calls call = .idle then
      some { s with
        health := s.health.at_ call (Health.beginGap cfg.health s.health.shared)
        gap := Function.update s.gap call false }
    else none
  | .stepCall call now =>
    (Health.step cfg.health call now s.health.shared (s.health.calls call)).map (s.note call)
  | .hydrate id key =>
    if id ∈ s.hydrations then none
    else some { s with hydrations := s.hydrations.insert id ⟨key, .observe ⟨s.epoch, s.moment⟩⟩ }
  | .refresh id key expected =>
    if id ∈ s.hydrations then none
    else some { s with
      hydrations := s.hydrations.insert id ⟨key, .fetch ⟨s.epoch, s.moment⟩ (some expected)⟩ }
  | .stepHydration id input =>
    match s.hydrations.lookup id with
    | none => none
    | some ⟨key, pc⟩ =>
      (stepHydration s key input pc).map fun (pc, s) =>
        { s with hydrations := s.hydrations.insert id ⟨key, pc⟩ }
  | .beginRead id key =>
    -- A closed cache admits no read.
    if id ∈ s.reads ∨ s.health.shared.closed then none
    else some { s with reads := s.reads.insert id ⟨key, s.returned, .start⟩ }
  | .stepRead id input =>
    match s.reads.lookup id with
    | none => none
    | some ⟨key, after, pc⟩ =>
      (stepRead s key after input pc).map fun (pc, s) =>
        { s with reads := s.reads.insert id ⟨key, after, pc⟩ }
  | .rewrite id transformation mode input =>
    match s.reads.lookup id with
    | none => none
    | some ⟨key, after, pc⟩ =>
      match pc.held.bind (transformation.apply s.epoch input.now input.inst) with
      | none => none
      | some copy =>
        let write := s.writeOf key copy input
        (s.onMemory (mode.op write)).map fun s =>
          if transformation.serves then s.serve after write.entry else s
  | .write op => if isLocalWrite s op then s.onMemory op else none

def next (cfg : Config) (s : State K V) (a : Action K V) : Option (State K V) :=
  (act cfg s a).map fun t => { t with moment := t.moment + 1 }

/-- A cache that was just built. -/
def init (first : BackplaneState) (memory : Memory.State K (Marked V)) : State K V where
  health := Health.init first memory
  hydrations := ∅
  reads := ∅
  served := []
  moment := 0
  begun := fun _ => 0
  gap := fun _ => false
  raised := []
  cleared := []
  returned := []

/-! ## What an epoch says of a fence -/

/-- A fence that was captured before a gap has an epoch that is over. -/
def Fenced (epoch : Nat) (raised : List Nat) (captured mark : Nat) : Prop :=
  captured ≤ epoch ∧ ∀ b ∈ raised, mark < b → captured < epoch

/-- What came from L2 carries the epoch of its fence. -/
def Stamped (epoch : Nat) (raised : List Nat) (e : Copy V) : Prop :=
  ∀ mark, e.value.fencedAt = some mark →
    ∃ captured, e.eligibility = .hydrated captured ∧ Fenced epoch raised captured mark

/-- Neither stored nor fenced before one of these moments. -/
def Admissible (after : List Nat) (e : Copy V) : Prop :=
  ∀ b ∈ after, b ≤ e.value.storedAt ∧ ∀ mark, e.value.fencedAt = some mark → b ≤ mark

/-- From one state to the other the epoch grew, and a gap that raised it grew it. -/
structure Grows (epoch epoch' : Nat) (raised raised' : List Nat) : Prop where
  le : epoch ≤ epoch'
  new : ∀ b ∈ raised', b ∈ raised ∨ epoch < epoch'

omit [LinearOrder K]

theorem Grows.refl (epoch : Nat) (raised : List Nat) : Grows epoch epoch raised raised :=
  ⟨Nat.le_refl _, fun _ h => .inl h⟩

theorem Fenced.grow {epoch epoch' captured mark : Nat} {raised raised' : List Nat}
    (h : Fenced epoch raised captured mark) (hgrow : Grows epoch epoch' raised raised') :
    Fenced epoch' raised' captured mark := by
  refine ⟨Nat.le_trans h.1 hgrow.le, fun b hb hlt => ?_⟩
  rcases hgrow.new b hb with hold | hnew
  · exact Nat.lt_of_lt_of_le (h.2 b hold hlt) hgrow.le
  · exact Nat.lt_of_le_of_lt h.1 hnew

theorem Stamped.grow {epoch epoch' : Nat} {raised raised' : List Nat} {e : Copy V}
    (h : Stamped epoch raised e) (hgrow : Grows epoch epoch' raised raised') :
    Stamped epoch' raised' e := by
  intro mark hmark
  obtain ⟨captured, heligibility, hfenced⟩ := h mark hmark
  exact ⟨captured, heligibility, hfenced.grow hgrow⟩

/-- What is made of an entry is stamped as the entry is. -/
theorem Stamped.copy {epoch : Nat} {raised : List Nat} {e e' : Copy V}
    (h : Stamped epoch raised e) (hfenced : e'.value.fencedAt = e.value.fencedAt)
    (heligibility : e'.eligibility = e.eligibility) : Stamped epoch raised e' := by
  intro mark hmark
  rw [hfenced] at hmark
  rw [heligibility]
  exact h mark hmark

/-- What is fenced under the present epoch is fenced after every gap. -/
theorem Stamped.mark_le {epoch : Nat} {raised : List Nat} {e : Copy V}
    (h : Stamped epoch raised e) (heligible : e.isReadEligible epoch = true) {b : Nat}
    (hb : b ∈ raised) {mark : Nat} (hmark : e.value.fencedAt = some mark) : b ≤ mark := by
  obtain ⟨captured, heligibility, hfenced⟩ := h mark hmark
  have hcurrent : epoch = captured := by
    unfold Entry.isReadEligible at heligible
    rw [heligibility] at heligible
    exact of_decide_eq_true heligible
  by_contra hlt
  have hover := hfenced.2 b hb (by omega)
  omega

theorem atInsertion_value (e : Copy V) (now : Timestamp) (inst : Instance) :
    (e.atInsertion now inst).value = e.value := by
  unfold Entry.atInsertion
  split <;> rfl

theorem atInsertion_eligibility (e : Copy V) (now : Timestamp) (inst : Instance) :
    (e.atInsertion now inst).eligibility = e.eligibility := by
  unfold Entry.atInsertion
  split <;> rfl

/-- Every transformation carries the value and its eligibility along. -/
theorem apply_keeps {t : Transformation} {epoch : Nat} {now : Timestamp} {inst : Instance}
    {e copy : Copy V} (h : t.apply epoch now inst e = some copy) :
    copy.value = e.value ∧ copy.eligibility = e.eligibility := by
  cases t with
  | throttled throttle =>
    obtain ⟨-, -, -, hvalue, -, -, -, -, heligibility⟩ := Entry.tryThrottled_eq_some h
    exact ⟨hvalue, heligibility⟩
  | expired _ | withoutEagerRefresh =>
    obtain rfl := Option.some.inj h
    exact ⟨rfl, rfl⟩

end

section

variable {K V : Type} [LinearOrder K]

omit [LinearOrder K] in
theorem writeOf_storedAt (s : State K V) (key : K) (e : Copy V) (input : Input V) :
    (s.writeOf key e input).entry.value.storedAt = s.moment := by
  unfold State.writeOf Memory.prepareWrite
  rw [atInsertion_value]

omit [LinearOrder K] in
theorem writeOf_fencedAt (s : State K V) (key : K) (e : Copy V) (input : Input V) :
    (s.writeOf key e input).entry.value.fencedAt = e.value.fencedAt := by
  unfold State.writeOf Memory.prepareWrite
  rw [atInsertion_value]

omit [LinearOrder K] in
theorem writeOf_eligibility (s : State K V) (key : K) (e : Copy V) (input : Input V) :
    (s.writeOf key e input).entry.eligibility = e.eligibility := by
  unfold State.writeOf Memory.prepareWrite
  rw [atInsertion_eligibility]

/-! ## The invariant -/

/-- How far a call that observed a gap has come: its beginning has raised the epoch unless that is
exhausted, and has cleared L1. -/
def CallPhase (raised cleared : List Nat) (b : Nat) : Health.Pc → Prop
  | .advanceEpoch _ invalidate => invalidate = true
  | .barrier _ invalidate exhausted | .unlock invalidate exhausted =>
    invalidate = true ∧ (exhausted = true ∨ b ∈ raised)
  | .invalidate exhausted => exhausted = true ∨ b ∈ raised
  | .close => b ∈ cleared
  | .idle | .lock _ _ | .gapClose | .gapInvalidate | .gapSuspend => False

def HydrationPc.Sound (epoch : Nat) (raised : List Nat) : HydrationPc V → Prop
  | .observe fence | .fetch fence _ | .check fence _ _ =>
    Fenced epoch raised fence.capturedEpoch fence.mark
  | .recheck _ _ copy | .insert _ _ copy => Stamped epoch raised copy
  | .done => True

omit [LinearOrder K] in
theorem HydrationPc.Sound.grow {epoch epoch' : Nat} {raised raised' : List Nat}
    {pc : HydrationPc V} (h : pc.Sound epoch raised) (hgrow : Grows epoch epoch' raised raised') :
    pc.Sound epoch' raised' := by
  cases pc with
  | observe _ | fetch _ _ | check _ _ _ => exact Fenced.grow h hgrow
  | recheck _ _ _ | insert _ _ _ => exact Stamped.grow h hgrow
  | done => exact trivial

/-- Everything a run of gaps, hydrations and reads keeps. -/
structure Sound (s : State K V) : Prop where
  generations : Memory.Generations s.memory.backend
  raised : ∀ b ∈ s.raised, b ≤ s.moment
  cleared : ∀ b ∈ s.cleared, b ≤ s.moment
  begun : ∀ call, s.begun call ≤ s.moment
  calls : ∀ call, s.gap call = true →
    CallPhase s.raised s.cleared (s.begun call) (s.health.calls call)
  returned : ∀ b ∈ s.returned,
    b ∈ s.cleared ∧ (b ∈ s.raised ∨ s.health.shared.closed = true)
  /-- What L1 holds was stored after every clear. -/
  held : ∀ key e, s.memory.backend.lookup key = some e →
    Stamped s.epoch s.raised e ∧ ∀ b ∈ s.cleared, b ≤ e.value.storedAt
  hydrations : ∀ id h, s.hydrations.lookup id = some h → h.pc.Sound s.epoch s.raised
  reads : ∀ id r, s.reads.lookup id = some r →
    (∀ b ∈ r.after, b ∈ s.raised ∧ b ∈ s.cleared) ∧
      ∀ e, r.pc.held = some e → Stamped s.epoch s.raised e ∧ Admissible r.after e
  served : ∀ x ∈ s.served, Admissible x.after x.entry

variable {cfg : Config} {s t : State K V}

theorem Sound.tick (h : Sound s) : Sound { s with moment := s.moment + 1 } :=
  { h with
    raised := fun b hb => Nat.le_succ_of_le (h.raised b hb)
    cleared := fun b hb => Nat.le_succ_of_le (h.cleared b hb)
    begun := fun call => Nat.le_succ_of_le (h.begun call) }

/-- A fence is captured after everything that has happened. -/
theorem Sound.fence (h : Sound s) : Fenced s.epoch s.raised s.epoch s.moment :=
  ⟨Nat.le_refl _, fun b hb hlt => absurd (h.raised b hb) (by omega)⟩

/-- An operation of the memory store that writes something stored now and stamped. -/
theorem Sound.onMemory (h : Sound s) {op : Memory.Op K (Marked V)}
    (hwritten : ∀ e, op.written = some e →
      Stamped s.epoch s.raised e ∧ s.moment ≤ e.value.storedAt)
    (hop : s.onMemory op = some t) : Sound t := by
  obtain ⟨memory, hnext, rfl⟩ := Option.map_eq_some_iff.mp hop
  have hgenerations : Memory.Generations s.world.backend := h.generations
  refine { h with generations := hgenerations.next hnext, held := fun key e hlookup => ?_ }
  rcases Memory.lookup_of_next hgenerations hnext hlookup with hold | hnew
  · exact h.held key e hold
  · obtain ⟨hstamped, hmoment⟩ := hwritten e hnew
    exact ⟨hstamped, fun b hb => Nat.le_trans (h.cleared b hb) hmoment⟩

theorem Sound.readMemory (h : Sound s) (key : K) (now : Timestamp) :
    Sound (s.readMemory key now).2 := by
  have hgenerations : Memory.Generations s.world.backend := h.generations
  have hnext : Memory.next s.world (.get key (some now)) = some { s.world with
      backend := (s.memory.backend.read s.world.world key (some now)).2 } := rfl
  have hread := hgenerations.next hnext
  refine { h with generations := hread, held := fun k e hlookup => ?_ }
  rcases Memory.lookup_of_next hgenerations hnext hlookup with hold | hnew
  · exact h.held k e hold
  · cases hnew

/-- **What a lookup finds** was stored and fenced after every gap that has cleared L1. -/
theorem Sound.found (h : Sound s) {key : K} {now : Timestamp} {e : Copy V} {after : List Nat}
    (hread : (s.readMemory key now).1 = some e)
    (hafter : ∀ b ∈ after, b ∈ s.raised ∧ b ∈ s.cleared) :
    Stamped s.epoch s.raised e ∧ Admissible after e := by
  have hheld := h.held key e (Memory.Backend.read_lookup hread)
  have heligible : e.isReadEligible s.epoch = true := Memory.Backend.read_eligible hread
  refine ⟨hheld.1, fun b hb => ⟨hheld.2 b (hafter b hb).2, fun mark hmark => ?_⟩⟩
  exact hheld.1.mark_le heligible (hafter b hb).1 hmark

theorem Sound.serve (h : Sound s) {after : List Nat} {e : Copy V} (he : Admissible after e) :
    Sound (s.serve after e) := by
  refine { h with served := fun x hx => ?_ }
  rcases List.mem_cons.mp hx with rfl | hold
  · exact he
  · exact h.served x hold

theorem Sound.setHydration (h : Sound s) (id : Nat) {hydration : Hydration K V}
    (hpc : hydration.pc.Sound s.epoch s.raised) :
    Sound { s with hydrations := s.hydrations.insert id hydration } := by
  refine { h with hydrations := fun other found hlookup => ?_ }
  by_cases hid : other = id
  · subst hid
    rw [AList.lookup_insert] at hlookup
    obtain rfl := Option.some.inj hlookup
    exact hpc
  · rw [AList.lookup_insert_ne hid] at hlookup
    exact h.hydrations other found hlookup

theorem Sound.setRead (h : Sound s) (id : Nat) {reading : Reading K V}
    (hafter : ∀ b ∈ reading.after, b ∈ s.raised ∧ b ∈ s.cleared)
    (hheld : ∀ e, reading.pc.held = some e →
      Stamped s.epoch s.raised e ∧ Admissible reading.after e) :
    Sound { s with reads := s.reads.insert id reading } := by
  refine { h with reads := fun other found hlookup => ?_ }
  by_cases hid : other = id
  · subst hid
    rw [AList.lookup_insert] at hlookup
    obtain rfl := Option.some.inj hlookup
    exact ⟨hafter, hheld⟩
  · rw [AList.lookup_insert_ne hid] at hlookup
    exact h.reads other found hlookup

/-! ## Calls -/

omit [LinearOrder K] in
theorem CallPhase.mono {raised raised' cleared cleared' : List Nat} {b : Nat} {pc : Health.Pc}
    (h : CallPhase raised cleared b pc) (hraised : ∀ b ∈ raised, b ∈ raised')
    (hcleared : ∀ b ∈ cleared, b ∈ cleared') : CallPhase raised' cleared' b pc := by
  cases pc with
  | advanceEpoch _ _ => exact h
  | barrier _ _ _ | unlock _ _ => exact ⟨h.1, h.2.imp id (hraised b)⟩
  | invalidate _ => exact Or.imp id (hraised b) h
  | close => exact hcleared b h
  | idle | lock _ _ | gapClose | gapInvalidate | gapSuspend => exact h

/-- Whether the call has observed a gap, this step counted. -/
def State.gapNow (s : State K V) (call : CallId) : Bool :=
  s.gap call || observesGap s.health.shared (s.health.calls call)

omit [LinearOrder K] in
theorem note_raised (s : State K V) (call : CallId)
    (moved : Health.Pc × Health.Shared (Memory.State K (Marked V))) :
    (∀ b ∈ s.raised, b ∈ (s.note call moved).raised) ∧
      ∀ b ∈ (s.note call moved).raised,
        b ∈ s.raised ∨ b = s.begun call ∧ s.epoch < moved.2.epoch := by
  unfold State.note
  dsimp only
  split
  · rename_i hraise
    exact ⟨fun b hb => List.mem_cons_of_mem _ hb, fun b hb =>
      (List.mem_cons.mp hb).elim (fun heq => .inr ⟨heq, hraise.2⟩) .inl⟩
  · exact ⟨fun _ hb => hb, fun _ hb => .inl hb⟩

omit [LinearOrder K] in
theorem note_cleared (s : State K V) (call : CallId)
    (moved : Health.Pc × Health.Shared (Memory.State K (Marked V))) :
    (∀ b ∈ s.cleared, b ∈ (s.note call moved).cleared) ∧
      ∀ b ∈ (s.note call moved).cleared, b ∈ s.cleared ∨ b = s.begun call := by
  unfold State.note
  dsimp only
  split
  · split
    · exact ⟨fun b hb => List.mem_cons_of_mem _ hb, fun b hb => (List.mem_cons.mp hb).symm⟩
    · exact ⟨fun _ hb => hb, fun _ hb => .inl hb⟩
  · exact ⟨fun _ hb => hb, fun _ hb => .inl hb⟩

/-- A step of a call keeps the invariant if it leaves L1 alone or clears it, and the call goes on
as one that observed a gap must. -/
theorem Sound.note (h : Sound s) {call : CallId}
    {moved : Health.Pc × Health.Shared (Memory.State K (Marked V))}
    (hepoch : s.epoch ≤ moved.2.epoch)
    (hclosed : s.health.shared.closed = true → moved.2.closed = true)
    (hlayers : moved.2.layers = s.memory ∧ (s.note call moved).cleared = s.cleared ∨
      moved.2.layers = { s.memory with backend := s.memory.backend.invalidateAll })
    (hphase : s.gapNow call = true → moved.1 ≠ .idle →
      CallPhase (s.note call moved).raised (s.note call moved).cleared (s.begun call) moved.1)
    (hreturn : s.gapNow call = true → moved.1 = .idle →
      s.begun call ∈ (s.note call moved).cleared ∧
        (s.begun call ∈ (s.note call moved).raised ∨ moved.2.closed = true)) :
    Sound (s.note call moved) := by
  obtain ⟨hraised, hnew⟩ := note_raised s call moved
  obtain ⟨hcleared, honly⟩ := note_cleared s call moved
  have hgrow : Grows s.epoch moved.2.epoch s.raised (s.note call moved).raised :=
    ⟨hepoch, fun b hb => (hnew b hb).imp id And.right⟩
  refine ⟨?_, fun b hb => ?_, fun b hb => ?_, h.begun, fun c hc => ?_, fun b hb => ?_, fun key e hlookup => ?_,
    fun id hydration hlookup => ?_, fun id r hlookup => ?_, h.served⟩
  · show Memory.Generations moved.2.layers.backend
    rcases hlayers with ⟨hsame, -⟩ | hclear
    · rw [hsame]
      exact h.generations
    · rw [hclear]
      exact Memory.Generations.next (s := s.memory) h.generations
        (show Memory.next s.memory .invalidateAll = some _ from rfl)
  · rcases hnew b hb with hold | ⟨rfl, -⟩
    · exact h.raised b hold
    · exact h.begun call
  · rcases honly b hb with hold | rfl
    · exact h.cleared b hold
    · exact h.begun call
  · show CallPhase _ _ (s.begun c) (Function.update s.health.calls call moved.1 c)
    have hgap : Function.update s.gap call (s.gapNow call && moved.1 ≠ .idle) c = true := hc
    by_cases hcall : c = call
    · subst hcall
      rw [Function.update_self, Bool.and_eq_true] at hgap
      rw [Function.update_self]
      exact hphase hgap.1 (of_decide_eq_true hgap.2)
    · rw [Function.update_of_ne hcall] at hgap ⊢
      exact (h.calls c hgap).mono hraised hcleared
  · have hold : b ∈ s.returned →
        b ∈ (s.note call moved).cleared ∧
          (b ∈ (s.note call moved).raised ∨ moved.2.closed = true) := fun hb =>
      ⟨hcleared b (h.returned b hb).1, (h.returned b hb).2.imp (hraised b) hclosed⟩
    have hb : b ∈ if s.gapNow call = true ∧ moved.1 = .idle then s.begun call :: s.returned
        else s.returned := hb
    split at hb
    · rename_i hdone
      rcases List.mem_cons.mp hb with rfl | hb
      · exact hreturn hdone.1 hdone.2
      · exact hold hb
    · exact hold hb
  · have hlookup : moved.2.layers.backend.lookup key = some e := hlookup
    rcases hlayers with ⟨hsame, hcleared⟩ | hclear
    · rw [hsame] at hlookup
      rw [hcleared]
      obtain ⟨hstamped, hstored⟩ := h.held key e hlookup
      exact ⟨hstamped.grow hgrow, hstored⟩
    · rw [hclear, Memory.Backend.invalidateAll_lookup_none h.generations.dated] at hlookup
      cases hlookup
  · exact (h.hydrations id hydration hlookup).grow hgrow
  · obtain ⟨hafter, hheld⟩ := h.reads id r hlookup
    refine ⟨fun b hb => ⟨hraised b (hafter b hb).1, hcleared b (hafter b hb).2⟩, fun e he => ?_⟩
    exact ⟨(hheld e he).1.grow hgrow, (hheld e he).2⟩

/-- A call of `continuity_gap` begins: it raises the epoch and has observed nothing. -/
theorem Sound.beginGap (h : Sound s) {call : CallId}
    {moved : Health.Pc × Health.Shared (Memory.State K (Marked V))}
    (hepoch : s.epoch ≤ moved.2.epoch) (hclosed : moved.2.closed = s.health.shared.closed)
    (hlayers : moved.2.layers = s.memory) :
    Sound { s with
      health := s.health.at_ call moved
      gap := Function.update s.gap call false } := by
  have hgrow : Grows s.epoch moved.2.epoch s.raised s.raised := ⟨hepoch, fun _ hb => .inl hb⟩
  refine ⟨?_, h.raised, h.cleared, h.begun, fun c hc => ?_, fun b hb => ?_,
    fun key e hlookup => ?_, fun id hydration hlookup => ?_, fun id r hlookup => ?_, h.served⟩
  · show Memory.Generations moved.2.layers.backend
    rw [hlayers]
    exact h.generations
  · have hgap : Function.update s.gap call false c = true := hc
    rw [Function.update_apply] at hgap
    split at hgap
    · cases hgap
    · rename_i hne
      show CallPhase _ _ _ (Function.update s.health.calls call moved.1 c)
      rw [Function.update_of_ne hne]
      exact h.calls c hgap
  · show b ∈ s.cleared ∧ (b ∈ s.raised ∨ moved.2.closed = true)
    rw [hclosed]
    exact h.returned b hb
  · have hlookup : moved.2.layers.backend.lookup key = some e := hlookup
    rw [hlayers] at hlookup
    exact ⟨(h.held key e hlookup).1.grow hgrow, (h.held key e hlookup).2⟩
  · exact (h.hydrations id hydration hlookup).grow hgrow
  · obtain ⟨hafter, hheld⟩ := h.reads id r hlookup
    exact ⟨hafter, fun e he => ⟨(hheld e he).1.grow hgrow, (hheld e he).2⟩⟩

/-- The epoch, the layers and the gate of the cache are left alone. -/
structure SameLayers (sh sh' : Health.Shared (Memory.State K (Marked V))) : Prop where
  epoch : sh'.epoch = sh.epoch
  layers : sh'.layers = sh.layers
  closed : sh'.closed = sh.closed

omit [LinearOrder K] in
theorem suspend_layers (hcfg : Health.Config (Memory.State K (Marked V)))
    (sh : Health.Shared (Memory.State K (Marked V))) : SameLayers sh (sh.suspend hcfg) := by
  unfold Health.Shared.suspend
  split <;> exact ⟨rfl, rfl, rfl⟩

omit [LinearOrder K] in
theorem pause_layers (hcfg : Health.Config (Memory.State K (Marked V)))
    (sh : Health.Shared (Memory.State K (Marked V))) (now : Health.Instant) :
    SameLayers sh (sh.pauseAfterReconnect hcfg now) := by
  unfold Health.Shared.pauseAfterReconnect
  split <;> exact ⟨rfl, rfl, rfl⟩

omit [LinearOrder K] in
theorem note_cleared_of_ne {call : CallId}
    {moved : Health.Pc × Health.Shared (Memory.State K (Marked V))}
    (h : ∀ exhausted, s.health.calls call ≠ .invalidate exhausted) :
    (s.note call moved).cleared = s.cleared := by
  unfold State.note
  dsimp only
  split
  · rename_i exhausted hpc
    exact absurd hpc (h exhausted)
  · rfl

/-- A step that leaves the layers alone, of a call that does not return. -/
theorem Sound.noteQuiet (h : Sound s) {call : CallId}
    {moved : Health.Pc × Health.Shared (Memory.State K (Marked V))}
    (hpc : ∀ exhausted, s.health.calls call ≠ .invalidate exhausted)
    (hsame : SameLayers s.health.shared moved.2)
    (hphase : s.gapNow call = true → CallPhase s.raised s.cleared (s.begun call) moved.1) :
    Sound (s.note call moved) := by
  obtain ⟨hraised, -⟩ := note_raised s call moved
  obtain ⟨hcleared, -⟩ := note_cleared s call moved
  refine h.note (Nat.le_of_eq hsame.epoch.symm) (fun hc => hsame.closed.trans hc)
    (.inl ⟨hsame.layers, note_cleared_of_ne hpc⟩)
    (fun hgap _ => (hphase hgap).mono hraised hcleared) (fun hgap hidle => ?_)
  have hidle := hphase hgap
  rw [‹moved.1 = .idle›] at hidle
  exact hidle.elim

omit [LinearOrder K] in
theorem gapNow_of_ne {call : CallId}
    (h : ∀ current number, s.health.calls call ≠ .lock current number) :
    s.gapNow call = s.gap call := by
  unfold State.gapNow observesGap
  split
  · rename_i current number hpc
    exact absurd hpc (h current number)
  · exact Bool.or_false _

theorem Sound.stepCall (hpolicy : cfg.invalidatesOnGap = true) (h : Sound s) {call : CallId}
    {now : Health.Instant} {moved : Health.Pc × Health.Shared (Memory.State K (Marked V))}
    (hstep : Health.step cfg.health call now s.health.shared (s.health.calls call) = some moved) :
    Sound (s.note call moved) := by
  have hcalls := h.calls call
  cases hpc : s.health.calls call with
  | idle =>
    rw [hpc] at hstep
    cases hstep
  | lock current number =>
    -- Nothing was observed before the lock.
    have hnone : s.gap call = false := by
      rw [hpc] at hcalls
      exact Bool.eq_false_iff.mpr fun hgap => hcalls hgap
    have hgap : s.gapNow call = observesGap s.health.shared (.lock current number) := by
      unfold State.gapNow
      rw [hnone, hpc, Bool.false_or]
    rw [hpc] at hstep
    unfold Health.step Health.lockSeen at hstep
    dsimp only at hstep
    split at hstep
    · split at hstep
      · rename_i hseen
        obtain rfl := Option.some.inj hstep
        refine h.noteQuiet (by rw [hpc]; exact fun _ => nofun) ⟨rfl, rfl, rfl⟩ fun hnow => ?_
        rw [hgap] at hnow
        simp [observesGap, hseen] at hnow
      · rename_i hseen
        obtain rfl := Option.some.inj hstep
        refine h.noteQuiet (by rw [hpc]; exact fun _ => nofun) ⟨rfl, rfl, rfl⟩ fun hnow => ?_
        rw [hgap] at hnow
        have hboth : decide (s.health.shared.seen ≠ some current) = true ∧
            Health.isGap current s.health.shared.seen = true := by
          simpa only [observesGap, Bool.and_eq_true] using hnow
        show (Health.isGap current s.health.shared.seen && cfg.invalidatesOnGap) = true
        rw [hboth.2, hpolicy, Bool.and_self]
    · cases hstep
  | advanceEpoch current invalidate =>
    have hgap : s.gapNow call = s.gap call := gapNow_of_ne (by rw [hpc]; exact fun _ _ => nofun)
    rw [hpc] at hcalls
    rw [hpc] at hstep
    unfold Health.step Health.Shared.advance at hstep
    dsimp only at hstep
    split at hstep
    · split at hstep
      · -- The epoch is raised.
        rename_i sh hadvance
        split at hadvance
        · obtain rfl := Option.some.inj hadvance
          obtain rfl := Option.some.inj hstep
          have hbegun : s.gapNow call = true → s.begun call ∈ (s.note call
              (.barrier current invalidate false,
                { s.health.shared with epoch := s.health.shared.epoch + 1 })).raised := fun hnow => by
            have hlt : s.epoch < s.health.shared.epoch + 1 := Nat.lt_succ_self _
            unfold State.note
            dsimp only
            rw [if_pos ⟨hnow, hlt⟩]
            exact List.mem_cons_self
          refine h.note (Nat.le_succ _) id (.inl ⟨rfl, ?_⟩) (fun hnow _ => ?_) (fun _ => nofun)
          · exact note_cleared_of_ne (by rw [hpc]; exact fun _ => nofun)
          · exact ⟨‹invalidate = true›, .inr (hbegun hnow)⟩
        · cases hadvance
      · obtain rfl := Option.some.inj hstep
        refine h.noteQuiet (by rw [hpc]; exact fun _ => nofun) ⟨rfl, rfl, rfl⟩ fun hnow => ?_
        exact ⟨‹invalidate = true›, .inl rfl⟩
    · obtain rfl := Option.some.inj hstep
      refine h.noteQuiet (by rw [hpc]; exact fun _ => nofun) ⟨rfl, rfl, rfl⟩ fun hnow => ?_
      rw [hgap] at hnow
      exact absurd (hcalls hnow) ‹¬ invalidate = true›
  | barrier current invalidate exhausted =>
    have hgap : s.gapNow call = s.gap call := gapNow_of_ne (by rw [hpc]; exact fun _ _ => nofun)
    rw [hpc] at hcalls
    rw [hpc] at hstep
    unfold Health.step at hstep
    have hmoved : ∃ sh, moved = (.unlock invalidate exhausted, sh) ∧
        SameLayers s.health.shared sh := by
      cases current with
      | connected epoch =>
        have hsame := pause_layers cfg.health
          { s.health.shared with subscriptionAdmitted := true } now
        exact ⟨_, (Option.some.inj hstep).symm, hsame.1, hsame.2, hsame.3⟩
      | disconnected _ | stopped =>
        exact ⟨_, (Option.some.inj hstep).symm, suspend_layers cfg.health s.health.shared⟩
    obtain ⟨sh, rfl, hsame⟩ := hmoved
    refine h.noteQuiet (by rw [hpc]; exact fun _ => nofun) hsame fun hnow => ?_
    rw [hgap] at hnow
    exact hcalls hnow
  | unlock invalidate exhausted =>
    have hgap : s.gapNow call = s.gap call := gapNow_of_ne (by rw [hpc]; exact fun _ _ => nofun)
    rw [hpc] at hcalls
    rw [hpc] at hstep
    obtain rfl := Option.some.inj hstep
    refine h.noteQuiet (by rw [hpc]; exact fun _ => nofun) ⟨rfl, rfl, rfl⟩ fun hnow => ?_
    rw [hgap] at hnow
    obtain ⟨hinvalidate, hraised⟩ := hcalls hnow
    rw [if_pos hinvalidate]
    exact hraised
  | invalidate exhausted =>
    have hgap : s.gapNow call = s.gap call := gapNow_of_ne (by rw [hpc]; exact fun _ _ => nofun)
    rw [hpc] at hcalls
    rw [hpc] at hstep
    obtain rfl := Option.some.inj hstep
    have hcleared : ∀ moved, s.gapNow call = true → s.begun call ∈ (s.note call moved).cleared :=
      fun moved hnow => by
        show s.begun call ∈ match s.health.calls call with
          | .invalidate _ => if s.gapNow call = true then s.begun call :: s.cleared else s.cleared
          | _ => s.cleared
        rw [hpc]
        show s.begun call ∈ if s.gapNow call = true then s.begun call :: s.cleared else s.cleared
        rw [if_pos hnow]
        exact List.mem_cons_self
    refine h.note (Nat.le_refl _) id (.inr rfl) (fun hnow hidle => ?_) (fun hnow hidle => ?_)
    · cases exhausted with
      | true => exact hcleared _ hnow
      | false => exact absurd rfl hidle
    · refine ⟨hcleared _ hnow, .inl ?_⟩
      cases exhausted with
      | true => cases hidle
      | false =>
        rw [hgap] at hnow
        exact (note_raised s call _).1 _ ((hcalls hnow).resolve_left nofun)
  | close =>
    have hgap : s.gapNow call = s.gap call := gapNow_of_ne (by rw [hpc]; exact fun _ _ => nofun)
    rw [hpc] at hcalls
    rw [hpc] at hstep
    obtain rfl := Option.some.inj hstep
    refine h.note (Nat.le_refl _) (fun _ => rfl) (.inl ⟨rfl, ?_⟩) (fun _ hidle => absurd rfl hidle)
      (fun hnow _ => ⟨?_, .inr rfl⟩)
    · exact note_cleared_of_ne (by rw [hpc]; exact fun _ => nofun)
    · rw [hgap] at hnow
      exact (note_cleared s call _).1 _ (hcalls hnow)
  | gapClose | gapInvalidate | gapSuspend =>
    -- A call of `continuity_gap` observes nothing.
    have hnone : s.gapNow call = false := by
      rw [gapNow_of_ne (by rw [hpc]; exact fun _ _ => nofun)]
      rw [hpc] at hcalls
      exact Bool.eq_false_iff.mpr fun hgap => hcalls hgap
    have hidle : ∀ {P : Prop}, s.gapNow call = true → P := fun hnow => by
      rw [hnone] at hnow
      cases hnow
    rw [hpc] at hstep
    obtain rfl := Option.some.inj hstep
    first
    | exact h.note (Nat.le_refl _) (fun _ => rfl)
        (.inl ⟨rfl, note_cleared_of_ne (by rw [hpc]; exact fun _ => nofun)⟩)
        (fun hnow => hidle hnow) (fun hnow => hidle hnow)
    | exact h.note (Nat.le_refl _) id (.inr rfl) (fun hnow => hidle hnow) (fun hnow => hidle hnow)
    | exact h.noteQuiet (by rw [hpc]; exact fun _ => nofun) (suspend_layers cfg.health _)
        (fun hnow => hidle hnow)

/-! ## Hydrations, reads and writes -/

theorem Sound.stepHydration (h : Sound s) {id : Nat} {hydration : Hydration K V} {input : Input V}
    (hlookup : s.hydrations.lookup id = some hydration) {pc : HydrationPc V}
    (hstep : stepHydration s hydration.key input hydration.pc = some (pc, t)) :
    Sound t ∧ pc.Sound t.epoch t.raised := by
  have hpc := h.hydrations id hydration hlookup
  cases hcase : hydration.pc with
  | observe fence =>
    rw [hcase] at hpc hstep
    obtain ⟨rfl, rfl⟩ := Prod.mk.inj (Option.some.inj hstep)
    exact ⟨h.readMemory hydration.key input.now, hpc⟩
  | fetch fence observed =>
    rw [hcase] at hpc hstep
    unfold Continuity.stepHydration at hstep
    dsimp only at hstep
    split at hstep <;> obtain ⟨rfl, rfl⟩ := Prod.mk.inj (Option.some.inj hstep)
    · exact ⟨h, hpc⟩
    · exact ⟨h, trivial⟩
  | check fence observed source =>
    rw [hcase] at hpc hstep
    unfold Continuity.stepHydration at hstep
    dsimp only at hstep
    split at hstep
    · split at hstep <;> obtain ⟨rfl, rfl⟩ := Prod.mk.inj (Option.some.inj hstep)
      · -- The copy is stamped with the epoch of its fence.
        refine ⟨h, fun mark hmark => ⟨fence.capturedEpoch, rfl, ?_⟩⟩
        obtain rfl := Option.some.inj hmark
        exact hpc
      · exact ⟨h, trivial⟩
    · obtain ⟨rfl, rfl⟩ := Prod.mk.inj (Option.some.inj hstep)
      exact ⟨h, trivial⟩
  | recheck fence observed copy =>
    rw [hcase] at hpc hstep
    unfold Continuity.stepHydration at hstep
    dsimp only at hstep
    split at hstep <;> obtain ⟨rfl, rfl⟩ := Prod.mk.inj (Option.some.inj hstep)
    · exact ⟨h, hpc⟩
    · exact ⟨h, trivial⟩
  | insert fence observed copy =>
    rw [hcase] at hpc hstep
    unfold Continuity.stepHydration at hstep
    dsimp only at hstep
    obtain ⟨u, hmemory, hmoved⟩ := Option.map_eq_some_iff.mp hstep
    obtain ⟨rfl, rfl⟩ := Prod.mk.inj hmoved
    refine ⟨h.onMemory (fun e he => ?_) hmemory, trivial⟩
    obtain rfl := Option.some.inj he
    exact ⟨Stamped.copy hpc (writeOf_fencedAt s _ copy input) (writeOf_eligibility s _ copy input),
      Nat.le_of_eq (writeOf_storedAt s _ copy input).symm⟩
  | done =>
    rw [hcase] at hstep
    cases hstep

theorem Sound.stepRead (h : Sound s) {id : Nat} {r : Reading K V} {input : Input V}
    (hlookup : s.reads.lookup id = some r) {pc : ReadPc V}
    (hstep : stepRead s r.key r.after input r.pc = some (pc, t)) :
    Sound { t with reads := t.reads.insert id ⟨r.key, r.after, pc⟩ } := by
  obtain ⟨hafter, hheld⟩ := h.reads id r hlookup
  cases hcase : r.pc with
  | start =>
    rw [hcase] at hstep
    obtain ⟨rfl, rfl⟩ := Prod.mk.inj (Option.some.inj hstep)
    exact h.setRead id hafter fun e he => by cases he
  | fetch captured =>
    rw [hcase] at hstep
    have hread := h.readMemory r.key input.now
    unfold Continuity.stepRead at hstep
    dsimp only at hstep
    split at hstep
    · obtain ⟨rfl, rfl⟩ := Prod.mk.inj (Option.some.inj hstep)
      exact hread.setRead id hafter fun e he => by cases he
    · rename_i entry hentry
      have hfound := h.found hentry hafter
      split at hstep <;> obtain ⟨rfl, rfl⟩ := Prod.mk.inj (Option.some.inj hstep)
      · exact (hread.serve hfound.2).setRead id hafter fun e he => by cases he
      · refine hread.setRead id hafter fun e he => ?_
        obtain rfl := Option.some.inj he
        exact hfound
  | check captured entry =>
    have hentry := hheld entry (by rw [hcase]; rfl)
    rw [hcase] at hstep
    unfold Continuity.stepRead at hstep
    dsimp only at hstep
    split at hstep
    · obtain ⟨rfl, rfl⟩ := Prod.mk.inj (Option.some.inj hstep)
      exact h.setRead id hafter fun e he => by cases he
    · split at hstep <;> obtain ⟨rfl, rfl⟩ := Prod.mk.inj (Option.some.inj hstep)
      · exact (h.serve hentry.2).setRead id hafter fun e he => by cases he
      · split
        · refine (h.serve hentry.2).setRead id hafter fun e he => ?_
          obtain rfl := Option.some.inj he
          exact hentry
        · refine h.setRead id hafter fun e he => ?_
          obtain rfl := Option.some.inj he
          exact hentry
  | stale entry | done =>
    rw [hcase] at hstep
    cases hstep

theorem Sound.act (hpolicy : cfg.invalidatesOnGap = true) (h : Sound s) {a : Action K V}
    (hact : act cfg s a = some t) : Sound t := by
  cases a with
  | publish state =>
    obtain ⟨shared, hpublish, rfl⟩ := Option.map_eq_some_iff.mp hact
    unfold Health.publish at hpublish
    split at hpublish
    · obtain rfl := Option.some.inj hpublish
      exact { h with }
    · cases hpublish
  | ensureHealth call =>
    unfold Continuity.act at hact
    dsimp only at hact
    split at hact
    · obtain ⟨moved, hbegin, rfl⟩ := Option.map_eq_some_iff.mp hact
      obtain ⟨current, -, rfl⟩ := Option.map_eq_some_iff.mp hbegin
      refine { h with begun := fun c => ?_, calls := fun c hc => ?_ }
      · show Function.update s.begun call s.moment c ≤ s.moment
        rw [Function.update_apply]
        split
        · exact Nat.le_refl _
        · exact h.begun c
      · have hgap : Function.update s.gap call false c = true := hc
        rw [Function.update_apply] at hgap
        split at hgap
        · cases hgap
        · rename_i hne
          have hphase := h.calls c hgap
          show CallPhase s.raised s.cleared (Function.update s.begun call s.moment c)
            (Function.update s.health.calls call _ c)
          rw [Function.update_of_ne hne, Function.update_of_ne hne]
          exact hphase
    · cases hact
  | continuityGap call =>
    unfold Continuity.act at hact
    dsimp only at hact
    split at hact
    · obtain rfl := Option.some.inj hact
      have hlt : s.epoch ≤ s.health.shared.epoch + 1 := Nat.le_succ _
      unfold Health.beginGap Health.Shared.advance
      split
      · split
        · rename_i sh hadvance
          split at hadvance
          · obtain rfl := Option.some.inj hadvance
            exact h.beginGap hlt rfl rfl
          · cases hadvance
        · exact h.beginGap (Nat.le_refl _) rfl rfl
      · exact h.beginGap (Nat.le_refl _) rfl rfl
    · cases hact
  | stepCall call now =>
    obtain ⟨moved, hstep, rfl⟩ := Option.map_eq_some_iff.mp hact
    exact h.stepCall hpolicy hstep
  | hydrate id key =>
    unfold Continuity.act at hact
    dsimp only at hact
    split at hact
    · cases hact
    · obtain rfl := Option.some.inj hact
      exact h.setHydration id h.fence
  | refresh id key expected =>
    unfold Continuity.act at hact
    dsimp only at hact
    split at hact
    · cases hact
    · obtain rfl := Option.some.inj hact
      exact h.setHydration id h.fence
  | stepHydration id input =>
    unfold Continuity.act at hact
    dsimp only at hact
    split at hact
    · cases hact
    · rename_i key pc hlookup
      obtain ⟨⟨pc', u⟩, hstep, rfl⟩ := Option.map_eq_some_iff.mp hact
      obtain ⟨hsound, hpc⟩ := h.stepHydration hlookup hstep
      exact hsound.setHydration id hpc
  | beginRead id key =>
    unfold Continuity.act at hact
    dsimp only at hact
    split at hact
    · cases hact
    · rename_i hopen
      obtain rfl := Option.some.inj hact
      refine h.setRead id (fun b hb => ?_) fun e he => by cases he
      obtain ⟨hcleared, hraised⟩ := h.returned b hb
      exact ⟨hraised.resolve_right fun hclosed => hopen (.inr hclosed), hcleared⟩
  | stepRead id input =>
    unfold Continuity.act at hact
    dsimp only at hact
    split at hact
    · cases hact
    · rename_i key after pc hlookup
      obtain ⟨⟨pc', u⟩, hstep, rfl⟩ := Option.map_eq_some_iff.mp hact
      exact h.stepRead hlookup hstep
  | rewrite id transformation mode input =>
    unfold Continuity.act at hact
    dsimp only at hact
    split at hact
    · cases hact
    · rename_i key after pc hlookup
      split at hact
      · cases hact
      · rename_i copy hcopy
        obtain ⟨entry, hheld, happly⟩ := Option.bind_eq_some_iff.mp hcopy
        obtain ⟨hstamped, hadmissible⟩ := (h.reads id ⟨key, after, pc⟩ hlookup).2 entry hheld
        obtain ⟨hvalue, heligibility⟩ := apply_keeps happly
        have hfenced := (writeOf_fencedAt s key copy input).trans (congrArg (·.fencedAt) hvalue)
        have hentry : Stamped s.epoch s.raised (s.writeOf key copy input).entry :=
          hstamped.copy hfenced ((writeOf_eligibility s key copy input).trans heligibility)
        have hmoment := writeOf_storedAt s key copy input
        obtain ⟨u, hmemory, rfl⟩ := Option.map_eq_some_iff.mp hact
        have hu : Sound u := by
          refine h.onMemory (fun e he => ?_) hmemory
          have he : (s.writeOf key copy input).entry = e := by
            cases mode <;> exact Option.some.inj he
          rw [← he]
          exact ⟨hentry, Nat.le_of_eq hmoment.symm⟩
        split
        · refine hu.serve fun b hb => ⟨?_, fun mark hmark => ?_⟩
          · rw [hmoment]
            exact h.raised b ((h.reads id _ hlookup).1 b hb).1
          · rw [hfenced] at hmark
            exact (hadmissible b hb).2 mark hmark
        · exact hu
  | write op =>
    unfold Continuity.act at hact
    dsimp only at hact
    split at hact
    · rename_i hlocal
      refine h.onMemory (fun e he => ?_) hact
      unfold isLocalWrite at hlocal
      rw [he] at hlocal
      obtain ⟨⟨-, hmoment⟩, hlocal⟩ : (e.eligibility = .ofLocal ∧ e.value.storedAt = s.moment) ∧
          e.value.fencedAt = none := by simpa using hlocal
      refine ⟨fun mark hmark => ?_, Nat.le_of_eq hmoment.symm⟩
      rw [hlocal] at hmark
      cases hmark
    · cases hact

theorem Sound.next (hpolicy : cfg.invalidatesOnGap = true) (h : Sound s) {a : Action K V}
    (hnext : next cfg s a = some t) : Sound t := by
  obtain ⟨u, hact, rfl⟩ := Option.map_eq_some_iff.mp hnext
  exact (h.act hpolicy hact).tick

/-- The memory store of a cache that was just built. -/
def built (limits : Memory.MemoryLimits) (expiry : Memory.MemoryExpiry) (timing : Memory.Timing)
    (route : K → Fin 64) (world : Memory.World) : Memory.State K (Marked V) :=
  Memory.init (.create limits expiry timing route) world

theorem Sound.init (first : BackplaneState) (limits : Memory.MemoryLimits)
    (expiry : Memory.MemoryExpiry) (timing : Memory.Timing) (route : K → Fin 64)
    (world : Memory.World) :
    Sound (init first (built limits expiry timing route world) : State K V) := by
  have hempty : ∀ key, (Memory.Backend.create limits expiry timing route :
      Memory.Backend K (Marked V)).slot key = none := fun key => by
    unfold Memory.Backend.create
    split <;> rfl
  have hgeneration : (Memory.Backend.create limits expiry timing route :
      Memory.Backend K (Marked V)).generation ≤ u64Max := by
    unfold Memory.Backend.create
    split <;> exact show (1 : Nat) ≤ u64Max by decide
  refine ⟨⟨hgeneration, fun key e generation hslot => ?_⟩, fun b hb => ?_, fun b hb => ?_,
    fun call => ?_, fun call hgap => ?_, fun b hb => ?_, fun key e hlookup => ?_,
    fun id h hlookup => ?_, fun id r hlookup => ?_, fun x hx => ?_⟩
  · exact absurd ((hempty key).symm.trans hslot) nofun
  · cases hb
  · cases hb
  · exact Nat.zero_le 0
  · cases hgap
  · cases hb
  · obtain ⟨generation, hslot, -⟩ := Memory.Backend.lookup_eq_some_iff.mp hlookup
    exact absurd ((hempty key).symm.trans hslot) nofun
  · cases hlookup
  · cases hlookup
  · cases hx

/-- **A gap hides what L1 got before it**: whatever a read serves was stored after every call
that observed a gap and returned before the read began, and so was its fence captured. -/
theorem gap_hides_earlier (cfg : Config) (hpolicy : cfg.invalidatesOnGap = true)
    {first : BackplaneState} {limits : Memory.MemoryLimits} {expiry : Memory.MemoryExpiry}
    {timing : Memory.Timing} {route : K → Fin 64} {world : Memory.World} {as : List (Action K V)}
    {s : State K V}
    (hexec : Run.exec (Continuity.next cfg)
      (Continuity.init first (built limits expiry timing route world)) as = some s) :
    ∀ x ∈ s.served, Admissible x.after x.entry :=
  (Run.exec_invariant (I := Sound) (fun _ _ _ hs hn => hs.next hpolicy hn)
    (Sound.init first limits expiry timing route world) hexec).served

end

/-- A call sees that there is no connection, between the fence of hydration 0 and its insertion;
hydration 1 begins when the call has returned, and what it inserts is served. -/
def brokenHydration : List (Action Nat Unit) :=
  let metadata : Metadata :=
    { created := .fromTicks 0
      insertedAt := .fromTicks 0
      logicalExpiration := .fromTicks 50
      physicalExpiration := .fromTicks 90
      backendTtl := .fromNanos 90
      origin := .fresh none
      etag := none
      lastModified := none
      tags := []
      retention := .unspecified }
  let input : Input Unit :=
    { now := .fromTicks 0
      inst := 0
      laneCurrent := true
      fetched := some ⟨0, (), metadata, .ofLocal⟩
      prepared := some metadata
      ready := true }
  [.hydrate 0 7, .stepHydration 0 input, .stepHydration 0 input, .stepHydration 0 input,
    .stepHydration 0 input, .ensureHealth 0, .stepCall 0 0, .stepCall 0 0, .stepCall 0 0,
    .stepCall 0 0, .stepCall 0 0, .stepHydration 0 input, .beginRead 0 7, .stepRead 0 input,
    .stepRead 0 input, .hydrate 1 7, .stepHydration 1 input, .stepHydration 1 input,
    .stepHydration 1 input, .stepHydration 1 input, .stepHydration 1 input, .beginRead 1 7,
    .stepRead 1 input, .stepRead 1 input]

def disconnectedCache : State Nat Unit :=
  init (.disconnected 1)
    (built ⟨none, none⟩ .clockDriven .interoperable (fun _ => Memory.firstShard) ⟨0, 0⟩)

theorem gap_hides_earlier_hydration :
    (Run.exec (next ⟨true, none, 0⟩) disconnectedCache brokenHydration).map
        (fun s => s.served.map fun x => (x.after, x.entry.value.fencedAt)) =
      some [([5], some 15)] ∧
    ∀ s, Run.exec (next ⟨true, none, 0⟩) disconnectedCache brokenHydration = some s →
      ∀ x ∈ s.served, Admissible x.after x.entry :=
  ⟨by decide, fun _ hexec => gap_hides_earlier ⟨true, none, 0⟩ rfl hexec⟩

end Continuity

end Amalgam
