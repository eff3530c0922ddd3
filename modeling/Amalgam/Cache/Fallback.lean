import Mathlib.Data.String.Basic
import Amalgam.Memory.Contents

/-!
# Amalgam — fail-safe activation

`src/cache/read.rs`: a `get_or_set` that finds only a stale entry keeps it while its origin
runs, and when the origin fails or times out `fallback` writes a throttled copy of it into
L1 with `insert_at`, which compares nothing. Whether the copy ends up in L1 therefore
depends on the options, on the captured entry and on the capacity of the store, and not on
what happened to the key since the capture.

* **`holdsThrottled_iff`** — what L1 holds after an activation, from the state before it.
* **`fallback_spares_newer_iff`** — when an activation leaves newer mutations alone.
-/

namespace Amalgam

namespace Fallback

/-- What a lookup and a fallback read of `EntryOptions`; options are validated before. -/
structure EntryOptions where
  isFailSafeEnabled : Bool
  failSafeThrottleDuration : Duration
  physicalTtl : Duration
  size : Option Nat
  priority : Priority
  skipMemoryRead : Bool
  skipMemoryWrite : Bool

/-- A `get_or_set` whose origin is running. -/
structure Call (K V : Type) where
  key : K
  opts : EntryOptions
  default : Option V
  stale : Option (Entry V)

structure State (K V : Type) where
  memory : Memory.State K V
  call : Option (Call K V)

/-- `newer_of`. -/
def newerOf {V : Type} (existing : Option (Entry V)) (candidate : Entry V) : Entry V :=
  match existing with
  | some existing =>
    if candidate.metadata.created ≤ existing.metadata.created then existing else candidate
  | none => candidate

/-- `try_from_fail_safe_default`. -/
def tryFromFailSafeDefault {V : Type} (value : V) (opts : EntryOptions) (now : Timestamp)
    (inst : Instance) : Entry V where
  inst
  value
  metadata :=
    let physicalExpiration := now.saturatingAdd opts.physicalTtl
    { created := now
      insertedAt := now
      logicalExpiration :=
        min (now.saturatingAdd opts.failSafeThrottleDuration) physicalExpiration
      physicalExpiration
      backendTtl := opts.physicalTtl
      origin := .failSafe
      etag := none
      lastModified := none
      tags := []
      retention := .specified opts.size opts.priority }
  eligibility := .ofLocal

section

variable {K V : Type} [LinearOrder K]

/-- `insert_at`. -/
def insertAt (memory : Memory.State K V) (key : K) (entry : Entry V) (now : Timestamp)
    (inst : Instance) : Memory.State K V :=
  let time : Memory.WriteTime := ⟨now, memory.world.instant⟩
  (Memory.applyWrite memory (Memory.prepareWrite key entry time .set inst) .any).2

/-- What `fallback` would serve: the throttled copy, else the default. The outer `none` is a
failed copy of the default. -/
def fallbackEntry (copy : V → Option V) (epoch : Nat) (call : Call K V) (now : Timestamp)
    (inst : Instance) : Option (Option (Entry V)) :=
  let throttled := call.stale.bind fun stale =>
    stale.tryThrottled epoch call.opts.failSafeThrottleDuration now inst
  match throttled, call.default with
  | some entry, _ => some (some entry)
  | none, none => some none
  | none, some value =>
    (copy value).map fun value => some (tryFromFailSafeDefault value call.opts now inst)

/-- `fallback`. The value served, if any, and the store afterwards; an outer `none` is the
error of the value cloner. -/
def fallback (copy : V → Option V) (memory : Memory.State K V) (call : Call K V)
    (now : Timestamp) (inst : Instance) : Option (Option V) × Memory.State K V :=
  if !call.opts.isFailSafeEnabled then (some none, memory)
  else
    match fallbackEntry copy memory.world.epoch call now inst with
    | none => (none, memory)
    | some none => (some none, memory)
    | some (some entry) =>
      match copy entry.value with
      | none => (none, memory)
      | some value =>
        if !call.opts.skipMemoryWrite then
          (some (some value), insertAt memory call.key entry now inst)
        else (some (some value), memory)

/-! ## The interleaving -/

/-- The L1 effect of a `set`, `remove` or `expire`, or of a factory that completes in the
background: first those of a memory-only cache, then those under a lane. -/
inductive Mutation (K V : Type) where
  | set (write : Memory.PreparedWrite K V)
  | setValue (write : Memory.PreparedWrite K V)
  | setPlain (key : K) (value : V) (metadata : Memory.Sharded.PlainMetadata)
      (time : Memory.WriteTime) (inst : Instance)
  | remove (key : K)
  | expire (write : Memory.PreparedWrite K V) (expected : Entry V)
  | expireAbsent (key : K)
  | complete (write : Memory.PreparedWrite K V) (origin : Memory.OriginId)
  | orderedStore (write : Memory.PreparedWrite K V)
  | orderedRemove (key : K)
  | orderedExpire (write : Memory.PreparedWrite K V) (expected : Entry V)

namespace Mutation

def op : Mutation K V → Memory.Op K V
  | .set write => .applyInsert write
  | .setValue write => .insertValueBorrowed write
  | .setPlain key value metadata time inst => .insertPlainBorrowed key value metadata time inst
  | .remove key => .detachRemove key
  | .expire write expected => .applyExpire write expected
  | .expireAbsent key => .invalidateOrigin key
  | .complete write origin => .applyOrigin write origin
  | .orderedStore write => .insertAt write
  | .orderedRemove key => .remove key none
  | .orderedExpire write expected => .insertIfUnchanged write (some expected)

def key : Mutation K V → K
  | .set write | .setValue write | .expire write _ | .complete write _ | .orderedStore write
  | .orderedExpire write _ => write.key
  | .setPlain key _ _ _ _ | .remove key | .expireAbsent key | .orderedRemove key => key

/-- The store did not reject it. -/
def applied (memory : Memory.State K V) (m : Mutation K V) : Bool :=
  match Memory.output memory m.op with
  | some (.admission a) => a.stored
  | some _ => true
  | none => false

end Mutation

/-- What other callers do while the origin of the call runs. -/
inductive Concurrent (K V : Type) where
  | mutate (m : Mutation K V)
  | other (op : Memory.Op K V)

def Concurrent.op : Concurrent K V → Memory.Op K V
  | .mutate m => m.op
  | .other op => op

inductive Action (K V : Type) where
  /-- The lookup of the call: what L1 holds, or a newer L2 snapshot. -/
  | lookup (key : K) (opts : EntryOptions) (default : Option V) (now : Timestamp)
      (l2 : Option (Entry V))
  | run (c : Concurrent K V)
  /-- The origin failed or timed out. A new allocation differs from every one in use. -/
  | activate (now : Timestamp) (inst : Instance)

def init (backend : Memory.Backend K V) (world : Memory.World) : State K V :=
  ⟨Memory.init backend world, none⟩

def next (copy : V → Option V) (s : State K V) : Action K V → Option (State K V)
  | .lookup key opts default now l2 =>
    match s.call with
    | some _ => none
    | none =>
      let (found, backend) :=
        if opts.skipMemoryRead then (none, s.memory.backend)
        else s.memory.backend.read s.memory.world key (some now)
      let stale := match l2 with
        | none => found
        | some candidate => some (newerOf found candidate)
      some ⟨{ s.memory with backend }, some ⟨key, opts, default, stale⟩⟩
  | .run c => (Memory.next s.memory c.op).map fun memory => { s with memory }
  | .activate now inst =>
    match s.call with
    | none => none
    | some call =>
      if inst ∈ s.memory.backend.instances then none
      else some ⟨(fallback copy s.memory call now inst).2, none⟩

/-! ## After an activation -/

/-- L1 holds the throttled copy of `e` that the activation at `now` builds in `s`. -/
def HoldsThrottled (s t : State K V) (call : Call K V) (e : Entry V) (now : Timestamp)
    (inst : Instance) : Prop :=
  ∃ throttled, e.tryThrottled s.memory.world.epoch call.opts.failSafeThrottleDuration now inst
      = some throttled ∧
    t.memory.backend.lookup call.key = some throttled

/-- The activation writes no copy of `e`: it is switched off, there is nothing to copy any
more, the copy fails, or the store has no room. -/
def Declined (copy : V → Option V) (s : State K V) (call : Call K V) (e : Entry V)
    (now : Timestamp) : Prop :=
  call.opts.isFailSafeEnabled = false ∨ call.opts.skipMemoryWrite = true ∨
    e.isReadEligible s.memory.world.epoch = false ∨ e.isPhysicallyExpired now = true ∨
    copy e.value = none ∨
    s.memory.backend.refuses s.memory.world
      ⟨call.key, e, ⟨now, s.memory.world.instant⟩, .set⟩ = true

/-- Storage decides by the weight and the priority of a candidate. -/
theorem refuses_congr (b : Memory.Backend K V) (world : Memory.World) (key : K)
    {e e' : Entry V} (time : Memory.WriteTime) (event event' : Memory.MemoryWriteEvent)
    (h : e'.metadata.retention = e.metadata.retention) :
    b.refuses world ⟨key, e', time, event'⟩ = b.refuses world ⟨key, e, time, event⟩ := by
  have hweight : e'.metadata.weight = e.metadata.weight := by
    unfold Metadata.weight Metadata.size
    rw [h]
  have hpriority : e'.metadata.priority = e.metadata.priority := by
    unfold Metadata.priority
    rw [h]
  unfold Memory.Backend.refuses
  simp only [hweight, hpriority]

/-- `insert_at` of a live entry built for this instant. -/
theorem insertAt_backend (memory : Memory.State K V) (key : K) (entry : Entry V)
    (now : Timestamp) (inst : Instance) (hnow : entry.metadata.insertedAt = now)
    (halive : entry.isPhysicallyExpired now = false) :
    (insertAt memory key entry now inst).backend
      = (memory.backend.insertPrepared memory.owners memory.cells memory.world
          ⟨key, entry, ⟨now, memory.world.instant⟩, .set⟩ .any).2.1 := by
  have hsame : entry.atInsertion now inst = entry := if_pos hnow.symm
  unfold insertAt Memory.applyWrite Memory.prepareWrite Memory.Backend.applyWrite
  dsimp only [Memory.committed]
  rw [hsame]
  unfold Entry.isPhysicallyExpired at halive
  rw [halive]
  rfl

theorem fallback_of_throttled {copy : V → Option V} {memory : Memory.State K V}
    {call : Call K V} {e throttled : Entry V} {now : Timestamp} {inst : Instance}
    (hstale : call.stale = some e)
    (hthrottled : e.tryThrottled memory.world.epoch call.opts.failSafeThrottleDuration now inst
      = some throttled) :
    (fallback copy memory call now inst).2 =
      if call.opts.isFailSafeEnabled = true ∧ call.opts.skipMemoryWrite = false ∧
          copy e.value ≠ none then
        insertAt memory call.key throttled now inst
      else memory := by
  obtain ⟨-, -, -, hvalue, -⟩ := Entry.tryThrottled_eq_some hthrottled
  have hentry : fallbackEntry copy memory.world.epoch call now inst = some (some throttled) := by
    unfold fallbackEntry
    rw [hstale, Option.bind_some, hthrottled]
  unfold fallback
  rw [hentry]
  cases hsafe : call.opts.isFailSafeEnabled with
  | false => rfl
  | true =>
    dsimp only [Bool.not_true]
    rw [if_neg (by decide), hvalue]
    cases hcopy : copy e.value with
    | none => simp
    | some value =>
      cases hskip : call.opts.skipMemoryWrite with
      | true => simp
      | false => simp

/-- **What L1 holds after an activation.** The copy is there unless it was declined; nothing
that happened to the key since the capture is asked. -/
theorem holdsThrottled_iff {copy : V → Option V} {s t : State K V} {call : Call K V}
    {e : Entry V} {now : Timestamp} {inst : Instance} (hcall : s.call = some call)
    (hstale : call.stale = some e) (hnext : next copy s (.activate now inst) = some t) :
    HoldsThrottled s t call e now inst ↔ ¬ Declined copy s call e now := by
  simp only [next, hcall] at hnext
  split at hnext
  · cases hnext
  rename_i hfresh
  obtain rfl := Option.some.inj hnext
  unfold HoldsThrottled Declined
  cases hthrottled : e.tryThrottled s.memory.world.epoch call.opts.failSafeThrottleDuration now
      inst with
  | none =>
    -- There is no copy: the source lost its eligibility or its physical lifetime.
    have hdead : e.isReadEligible s.memory.world.epoch = false ∨
        e.isPhysicallyExpired now = true := by
      unfold Entry.tryThrottled at hthrottled
      split at hthrottled
      · rename_i h
        simpa using h
      · cases hthrottled
    constructor
    · rintro ⟨throttled, h, -⟩
      cases h
    · intro h
      rcases hdead with hdead | hdead
      · exact absurd (.inr (.inr (.inl hdead))) h
      · exact absurd (.inr (.inr (.inr (.inl hdead)))) h
  | some throttled =>
    obtain ⟨heligible, halive, hinst, -, -, hinserted, hphysical, hretention, -⟩ :=
      Entry.tryThrottled_eq_some hthrottled
    have halive' : throttled.isPhysicallyExpired now = false := by
      unfold Entry.isPhysicallyExpired at halive ⊢
      rw [hphysical]
      exact halive
    have hrefuses := refuses_congr s.memory.backend s.memory.world call.key
      ⟨now, s.memory.world.instant⟩ .set .set hretention
    -- The new allocation is in no entry of the store before.
    have hnew : s.memory.backend.lookup call.key ≠ some throttled := by
      intro h
      exact hfresh (hinst ▸ Memory.Backend.inst_mem_instances h)
    rw [fallback_of_throttled hstale hthrottled]
    by_cases hwrites : call.opts.isFailSafeEnabled = true ∧ call.opts.skipMemoryWrite = false ∧
        copy e.value ≠ none
    · rw [if_pos hwrites, insertAt_backend _ _ _ _ _ hinserted halive']
      obtain ⟨hsafe, hskip, hcopy⟩ := hwrites
      cases hfull : s.memory.backend.refuses s.memory.world
          ⟨call.key, e, ⟨now, s.memory.world.instant⟩, .set⟩ with
      | true =>
        have hshrinks := s.memory.backend.insertPrepared_shrinks s.memory.owners
          s.memory.cells _ (hrefuses.trans hfull)
        constructor
        · rintro ⟨other, ⟨⟩, hlookup⟩
          exact absurd (hshrinks _ _ hlookup) hnew
        · intro h
          exact absurd (.inr (.inr (.inr (.inr (.inr rfl))))) h
      | false =>
        have hlookup := s.memory.backend.insertPrepared_lookup s.memory.owners
          s.memory.cells _ (hrefuses.trans hfull)
        constructor
        · intro _
          simp [hsafe, hskip, heligible, halive, hcopy]
        · intro _
          exact ⟨throttled, rfl, hlookup⟩
    · rw [if_neg hwrites]
      constructor
      · rintro ⟨other, ⟨⟩, hlookup⟩
        exact absurd hlookup hnew
      · intro h
        exfalso
        apply hwrites
        refine ⟨?_, ?_, ?_⟩
        · by_contra hsafe
          exact h (.inl (by simpa using hsafe))
        · by_contra hskip
          exact h (.inr (.inl (by simpa using hskip)))
        · intro hcopy
          exact h (.inr (.inr (.inr (.inr (.inl hcopy)))))

/-! ## Whole interleavings -/

/-- A mutation of `key` took effect in the run of `since` from `c`. -/
def MutatedSince (copy : V → Option V) (c : State K V) (since : List (Concurrent K V))
    (key : K) : Prop :=
  ∃ left m right n, since = left ++ .mutate m :: right ∧
    Run.exec (next copy) c (left.map .run) = some n ∧ m.key = key ∧ m.applied n.memory = true

/-- Concurrent operations do not touch the call. -/
theorem exec_run_call {copy : V → Option V} {c s : State K V} {since : List (Concurrent K V)}
    (h : Run.exec (next copy) c (since.map .run) = some s) : s.call = c.call := by
  induction since generalizing c with
  | nil =>
    obtain rfl := Option.some.inj h
    rfl
  | cons first rest ih =>
    obtain ⟨m, hfirst, hrest⟩ := Run.exec_cons_eq_some.mp h
    obtain ⟨memory, -, rfl⟩ := Option.map_eq_some_iff.mp hfirst
    have hrest := ih hrest
    exact hrest

/-- **When an activation leaves newer mutations alone.** From every state `c` in which a call
has captured the stale entry `e`, for every sequence of concurrent store operations and
every activation after it: the activation does not put the throttled copy of `e` over a
mutation of the key that completed since the capture exactly when there was none or the
copy was declined. -/
theorem fallback_spares_newer_iff (copy : V → Option V) (since : List (Concurrent K V))
    (call : Call K V) (e : Entry V) (now : Timestamp) (inst : Instance) (c s t : State K V)
    (hcaptured : c.call = some call) (hstale : call.stale = some e)
    (hsince : Run.exec (next copy) c (since.map .run) = some s)
    (hactivate : next copy s (.activate now inst) = some t) :
    (MutatedSince copy c since call.key → ¬ HoldsThrottled s t call e now inst) ↔
      (¬ MutatedSince copy c since call.key ∨ Declined copy s call e now) := by
  have hcall : s.call = some call := (exec_run_call hsince).trans hcaptured
  rw [holdsThrottled_iff hcall hstale hactivate, not_not]
  exact imp_iff_not_or

end

/-! ## Runs -/

/-- Fresh until tick 12 and kept for fail-safe until tick 40. -/
def staleEntry : Entry Nat where
  inst := 0
  value := 1
  metadata := { (Entry.intoFresh 1 (.fromTicks 10) (.fromTicks 12) 0).metadata with
    physicalExpiration := .fromTicks 40 }
  eligibility := .ofLocal

def newerWrite : Memory.PreparedWrite String Nat :=
  ⟨"k", Entry.intoFresh 2 (.fromTicks 16) (.fromTicks 40) 1, ⟨.fromTicks 16, 0⟩, .set⟩

def failSafe : EntryOptions where
  isFailSafeEnabled := true
  failSafeThrottleDuration := .fromSecs 1
  physicalTtl := .fromSecs 60
  size := none
  priority := .normal
  skipMemoryRead := false
  skipMemoryWrite := false

def captured : Call String Nat := ⟨"k", failSafe, none, some staleEntry⟩

/-- A call that writes nothing to memory leaves the newer value in place. -/
theorem fallback_spares_newer_skipped_write :
    ∃ c s t : State String Nat,
      c.call = some { captured with opts := { failSafe with skipMemoryWrite := true } } ∧
      Run.exec (next some) c ([.mutate (.set newerWrite)].map .run) = some s ∧
      next some s (.activate (.fromTicks 17) 2) = some t ∧
      ¬ HoldsThrottled s t { captured with opts := { failSafe with skipMemoryWrite := true } }
        staleEntry (.fromTicks 17) 2 := by
  let c : State String Nat :=
    ⟨Memory.init (.create ⟨none, none⟩ .clockDriven .interoperable fun _ => 0) ⟨0, 0⟩,
      some { captured with opts := { failSafe with skipMemoryWrite := true } }⟩
  refine ⟨c, _, _, rfl, rfl, rfl, ?_⟩
  refine (fallback_spares_newer_iff some [.mutate (.set newerWrite)] _ staleEntry
    (.fromTicks 17) 2 c _ _ rfl rfl rfl rfl).mpr (.inr (.inr (.inl rfl))) ?_
  exact ⟨[], .set newerWrite, [], c, rfl, rfl, rfl, rfl⟩

/-- A stale value is stored, the lookup captures it, a `set` stores value 2, the origin fails
and the activation puts the old value back over it. -/
theorem fallback_replaces_newer_value :
    ∃ c s t : State String Nat,
      Run.exec (next some)
        (init (.create ⟨none, none⟩ .clockDriven .interoperable fun _ => 0) ⟨0, 0⟩)
        [.run (.mutate (.orderedStore ⟨"k", staleEntry, ⟨.fromTicks 10, 0⟩, .set⟩)),
          .lookup "k" failSafe none (.fromTicks 15) none] = some c ∧
      c.call = some captured ∧
      Run.exec (next some) c [.run (.mutate (.set newerWrite))] = some s ∧
      (s.memory.backend.lookup "k").map (·.value) = some 2 ∧
      next some s (.activate (.fromTicks 17) 2) = some t ∧
      (t.memory.backend.lookup "k").map (·.value) = some 1 ∧
      MutatedSince some c [.mutate (.set newerWrite)] "k" ∧
      HoldsThrottled s t captured staleEntry (.fromTicks 17) 2 := by
  refine ⟨_, _, _, rfl, rfl, rfl, rfl, rfl, rfl, ⟨[], .set newerWrite, [], _, rfl, rfl, rfl, rfl⟩,
    _, rfl, rfl⟩

end Fallback

end Amalgam
