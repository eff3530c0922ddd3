import Amalgam.Entry

/-!
# Amalgam — the lifetimes of entries

`src/options.rs`, `src/entry.rs` and `src/entry/plain.rs`: every way an entry is built from
options, timestamps and durations, or from another entry.

* **`entry_deadlines_iff`** — no construction lets the logical boundary pass the physical one, and
  the backend's time to live is what remains to the physical boundary unless it was last set by a
  fail-safe default whose physical time to live is not a whole number of ticks or runs past the end
  of time.
-/

namespace Amalgam

/-! ## Durations -/

namespace Duration

theorem asNanos_injective : Function.Injective Duration.asNanos := by
  intro d d' h
  have hd := d.nanos_lt
  have hd' := d'.nanos_lt
  unfold asNanos at h
  exact Duration.ext (by omega) (by omega)

instance : LinearOrder Duration := LinearOrder.lift' Duration.asNanos asNanos_injective

/-- A whole number of ticks, so that `Timestamp`s can tell it apart from the durations beside it. -/
def wholeTicks (d : Duration) : Bool := d.subsecNanos % NANOS_PER_TICK = 0

end Duration

/-- A duration is what its ticks are worth exactly when it has no part of a tick. -/
theorem unsignedTicksToDuration_iff {ticks : Nat} (h : ticks ≤ u64Max) (d : Duration) :
    unsignedTicksToDuration ticks h = d ↔ durationTicksWide d = ticks ∧ d.wholeTicks = true := by
  have hnanos := d.nanos_lt
  unfold unsignedTicksToDuration durationTicksWide Duration.wholeTicks TICKS_PER_SECOND
    NANOS_PER_TICK
  rw [Duration.ext_iff, decide_eq_true_eq]
  dsimp only
  omega

/-- What remains to a boundary that was set `d` ahead is `d`, up to a part of a tick and unless the
boundary is at the end of time. -/
theorem saturatingDurationSince_saturatingAdd_iff (now : Timestamp) (d : Duration) :
    (now.saturatingAdd d).saturatingDurationSince now = d ↔
      now.ticks + durationTicksWide d ≤ i64Max ∧ d.wholeTicks = true := by
  have hnonneg := durationTicksWide_nonneg d
  have hupper := now.upper
  rw [Timestamp.saturatingDurationSince, unsignedTicksToDuration_iff]
  refine and_congr_left' ?_
  rw [Timestamp.saturatingAdd]
  split
  · rename_i hfit
    dsimp only
    omega
  · rename_i hover
    have hmax : Timestamp.MAX.ticks = i64Max := rfl
    rw [hmax]
    omega

/-! ## Options -/

inductive ConfigError where
  | negativeEntryWeight (size : Int)
  | invalidJitterSample (sample maximum : Duration)
  | deadlineOutOfRange
  | invalidEntryDeadlines
deriving DecidableEq

inductive EntrySize where
  | unspecified
  | weight (units : Nat)
  | rejected (size : Int)
deriving DecidableEq

/-- `EagerThreshold`: the scaling of a duration by its fraction, `mul_f32`. -/
structure EagerThreshold where
  scale : Duration → Duration

inductive BudgetState where
  | valid
  | outOfRange
deriving DecidableEq

/-- The options that lifetimes are computed from. -/
structure EntryOptions where
  budgets : BudgetState
  duration : Duration
  memoryDuration : Option Duration
  distributedDuration : Option Duration
  eagerRefreshThreshold : Option EagerThreshold
  jitterMax : Duration
  isFailSafeEnabled : Bool
  failSafeMaxDuration : Duration
  failSafeThrottleDuration : Duration
  distributedFailSafeMaxDuration : Option Duration
  priority : Priority
  size : EntrySize

structure JitterSample where
  duration : Duration

def JitterSample.new (sample maximum : Duration) : Except ConfigError JitterSample :=
  if sample > maximum then .error (.invalidJitterSample sample maximum) else .ok ⟨sample⟩

namespace EntryOptions

/-- `size()`: the validated weight. -/
def weight (options : EntryOptions) : Except ConfigError (Option Nat) :=
  match options.size with
  | .unspecified => .ok none
  | .weight units => .ok (some units)
  | .rejected size => .error (.negativeEntryWeight size)

def validate (options : EntryOptions) : Except ConfigError Unit := do
  let _ ← options.weight
  match options.budgets with
  | .valid => .ok ()
  | .outOfRange => .error .deadlineOutOfRange

def resolvedMemoryDuration (options : EntryOptions) : Duration :=
  options.memoryDuration.getD options.duration

/-- Under fail-safe the longer of the two durations, not their sum. -/
def physicalTtl (options : EntryOptions) : Duration :=
  if options.isFailSafeEnabled then max options.resolvedMemoryDuration options.failSafeMaxDuration
  else options.resolvedMemoryDuration

def resolvedDistributedDuration (options : EntryOptions) : Duration :=
  options.distributedDuration.getD options.duration

def resolvedDistributedFailSafeMaxDuration (options : EntryOptions) : Duration :=
  options.distributedFailSafeMaxDuration.getD options.failSafeMaxDuration

def distributedPhysicalTtl (options : EntryOptions) : Duration :=
  if options.isFailSafeEnabled then
    max options.resolvedDistributedDuration options.resolvedDistributedFailSafeMaxDuration
  else options.resolvedDistributedDuration

def logicalExpirationWithJitter (options : EntryOptions) (insertedAt : Timestamp)
    (jitter : JitterSample) : Except ConfigError Timestamp := do
  let sample ← JitterSample.new jitter.duration options.jitterMax
  return (insertedAt.saturatingAdd options.resolvedMemoryDuration).saturatingAdd sample.duration

def eagerRefreshAtExpiration (options : EntryOptions) (insertedAt expiration : Timestamp) :
    Option Timestamp :=
  options.eagerRefreshThreshold.bind fun threshold =>
    if expiration ≤ insertedAt then none
    else some (insertedAt.saturatingAdd
      (threshold.scale (expiration.saturatingDurationSince insertedAt)))

end EntryOptions

/-! ## Plans for default writes -/

/-- A lifetime in ticks, prepared once. -/
def LifetimeSpan := Int
deriving DecidableEq

def LifetimeSpan.new (d : Duration) : LifetimeSpan := durationTicksWide d

/-- `i64::try_from` of the sum, or the end of time. -/
def LifetimeSpan.after (span : LifetimeSpan) (t : Timestamp) : Timestamp :=
  if h : i64Min ≤ t.ticks + (show Int from span) ∧ t.ticks + (show Int from span) ≤ i64Max then
    ⟨t.ticks + (show Int from span), h.1, h.2⟩
  else Timestamp.MAX

structure FreshPlan where
  logical : LifetimeSpan
  physical : LifetimeSpan
  retention : RetentionMetadata

namespace FreshPlan

/-- Only options without jitter and eager refresh have a plan. -/
def forOptions (options : EntryOptions) : Except ConfigError (Option FreshPlan) :=
  if options.jitterMax.asNanos ≠ 0 ∨ options.eagerRefreshThreshold.isSome then .ok none
  else do
    let size ← options.weight
    let retention := if size.isSome ∨ options.priority ≠ .normal ∨ options.isFailSafeEnabled then
      RetentionMetadata.specified size options.priority else .unspecified
    return some
      { logical := .new options.resolvedMemoryDuration, physical := .new options.physicalTtl
        retention }

def prepare {V : Type} (plan : FreshPlan) (value : V) (now : Timestamp) (tags : List Tag)
    (inst : Instance) : Entry V :=
  let logicalExpiration := plan.logical.after now
  let physicalExpiration := max (plan.physical.after now) logicalExpiration
  { inst
    value
    metadata :=
      { created := now
        insertedAt := now
        logicalExpiration
        physicalExpiration
        backendTtl := physicalExpiration.saturatingDurationSince now
        origin := .fresh none
        etag := none
        lastModified := none
        tags
        retention := plan.retention }
    eligibility := .ofLocal }

end FreshPlan

/-- Selected only for equal logical and physical lifetimes. -/
structure PlainPlan where
  lifetime : LifetimeSpan

structure PlainMetadata where
  created : Timestamp
  expires : Timestamp

inductive DefaultFreshPlan where
  | plain (plan : PlainPlan)
  | prepared (plan : FreshPlan)
  | general

def DefaultFreshPlan.forOptions (options : EntryOptions) : Except ConfigError DefaultFreshPlan := do
  match ← FreshPlan.forOptions options with
  | some plan =>
    if plan.retention = .unspecified ∧ plan.logical = plan.physical then
      return .plain ⟨plan.logical⟩
    else return .prepared plan
  | none => return .general

def PlainPlan.metadata (plan : PlainPlan) (now : Timestamp) : PlainMetadata :=
  ⟨now, plan.lifetime.after now⟩

namespace PlainMetadata

def intoFresh {V : Type} (plain : PlainMetadata) (value : V) (tags : List Tag) (inst : Instance) :
    Entry V :=
  let entry := Entry.intoFresh value plain.created plain.expires inst
  { entry with metadata := { entry.metadata with tags } }

/-- Every fact of the previous representation is replaced. -/
def install (plain : PlainMetadata) (_ : Metadata) : Metadata where
  created := plain.created
  insertedAt := plain.created
  logicalExpiration := plain.expires
  physicalExpiration := plain.expires
  backendTtl := plain.expires.saturatingDurationSince plain.created
  origin := .fresh none
  etag := none
  lastModified := none
  tags := []
  retention := .unspecified

end PlainMetadata

/-! ## Entries from options and from entries -/

namespace Entry

variable {V : Type}

/-- `replace_plain` of a representation that nobody else holds. -/
def replacePlain (e : Entry V) (incoming : V) (plain : PlainMetadata) : Entry V :=
  { e with value := incoming, metadata := plain.install e.metadata, eligibility := .ofLocal }

def prepareFreshWithJitter (value : V) (options : EntryOptions)
    (snapshotCreated insertedAt : Timestamp) (jitter : JitterSample) (tags : List Tag)
    (etag : Option String) (lastModified : Option Timestamp) (inst : Instance) :
    Except ConfigError (Entry V) := do
  let size ← options.weight
  let logicalExpiration ← options.logicalExpirationWithJitter insertedAt jitter
  let physicalExpiration := max (insertedAt.saturatingAdd options.physicalTtl) logicalExpiration
  let retention := if size.isSome ∨ options.priority ≠ .normal ∨ options.isFailSafeEnabled
      ∨ options.eagerRefreshThreshold.isSome ∨ etag.isSome ∨ lastModified.isSome then
    RetentionMetadata.specified size options.priority else .unspecified
  return {
    inst
    value
    metadata :=
      { created := snapshotCreated
        insertedAt
        logicalExpiration
        physicalExpiration
        backendTtl := physicalExpiration.saturatingDurationSince insertedAt
        origin := .fresh (options.eagerRefreshAtExpiration insertedAt logicalExpiration)
        etag
        lastModified
        tags
        retention }
    eligibility := .ofLocal }

/-- `try_throttled`: the options are validated before the source is looked at. -/
def tryThrottledUnder (epoch : Nat) (source : Entry V) (options : EntryOptions) (now : Timestamp)
    (inst : Instance) : Except ConfigError (Option (Entry V)) := do
  options.validate
  return source.tryThrottled epoch options.failSafeThrottleDuration now inst

def tryRehydrateWithRetention (value : V)
    (created logicalExpiration physicalExpiration : Timestamp) (isFromFailSafe : Bool)
    (etag : Option String) (lastModified : Option Timestamp) (tags : List Tag)
    (retention : RetentionMetadata) (now : Timestamp) (inst : Instance) :
    Except ConfigError (Entry V) :=
  if logicalExpiration > physicalExpiration then .error .invalidEntryDeadlines
  else .ok
    { inst
      value
      metadata :=
        { created
          insertedAt := now
          logicalExpiration
          physicalExpiration
          backendTtl := physicalExpiration.saturatingDurationSince now
          origin := if isFromFailSafe then .failSafe else .fresh none
          etag
          lastModified
          tags
          retention }
      eligibility := .ofLocal }

/-- The metadata of the local representation of an L2 entry. -/
def prepareMemoryHydration (epoch : Nat) (e : Entry V) (options : EntryOptions) (now : Timestamp) :
    Except ConfigError (Option Metadata) := do
  let requestedSize ← options.weight
  if !e.isReadEligible epoch || e.isPhysicallyExpired now then return none
  else
    let logicalExpiration :=
      min e.metadata.logicalExpiration (now.saturatingAdd options.resolvedMemoryDuration)
    let physicalExpiration :=
      max (min e.metadata.physicalExpiration (now.saturatingAdd options.physicalTtl))
        logicalExpiration
    return some { e.metadata with
      insertedAt := now
      logicalExpiration
      physicalExpiration
      backendTtl := physicalExpiration.saturatingDurationSince now
      retention := match e.metadata.retention with
        | .specified size priority => .specified (size.or requestedSize) priority
        | .unspecified => .specified requestedSize options.priority
      origin := match e.metadata.origin with
        | .failSafe => .failSafe
        | .fresh _ => .fresh (options.eagerRefreshThreshold.bind fun threshold =>
          if now < logicalExpiration then
            some (now.saturatingAdd
              (threshold.scale (logicalExpiration.saturatingDurationSince now)))
          else none) }

/-- The backend's time to live is the configured one, whatever boundary it led to. -/
def tryFromFailSafeDefault (value : V) (options : EntryOptions) (now : Timestamp)
    (inst : Instance) : Except ConfigError (Entry V) := do
  let size ← options.weight
  let physicalExpiration := now.saturatingAdd options.physicalTtl
  return {
    inst
    value
    metadata :=
      { created := now
        insertedAt := now
        logicalExpiration :=
          min (now.saturatingAdd options.failSafeThrottleDuration) physicalExpiration
        physicalExpiration
        backendTtl := options.physicalTtl
        origin := .failSafe
        etag := none
        lastModified := none
        tags := []
        retention := .specified size options.priority }
    eligibility := .ofLocal }

/-- Consumes one eager attempt. -/
def withoutEagerRefresh (e : Entry V) (inst : Instance) : Entry V :=
  { e with
    inst
    metadata := { e.metadata with
      origin := match e.metadata.origin with
        | .fresh _ => .fresh none
        | .failSafe => .failSafe } }

def withValue (e : Entry V) (value : V) (inst : Instance) : Entry V := { e with inst, value }

def withHydratedValue (e : Entry V) (value : V) (captured : Nat) (inst : Instance) : Entry V :=
  { e with inst, value, eligibility := .hydrated captured }

def withRetention (e : Entry V) (size : Option Nat) (priority : Priority) (inst : Instance) :
    Entry V :=
  { e with inst, metadata := { e.metadata with retention := .specified size priority } }

end Entry

/-! ## Constructions -/

/-- The law of an entry's deadlines. -/
structure Metadata.Deadlines (m : Metadata) : Prop where
  logical_le : m.logicalExpiration ≤ m.physicalExpiration
  ttl : m.backendTtl = m.physicalExpiration.saturatingDurationSince m.insertedAt

/-- How an entry came to be: constructors at the leaves, transformations above them. -/
inductive Construction (V : Type) where
  | plan (plan : FreshPlan) (value : V) (now : Timestamp) (tags : List Tag)
  | plain (plain : PlainMetadata) (value : V) (tags : List Tag)
  | fresh (value : V) (options : EntryOptions) (snapshotCreated insertedAt : Timestamp)
      (jitter : JitterSample) (tags : List Tag) (etag : Option String)
      (lastModified : Option Timestamp)
  | rehydrated (value : V) (created logicalExpiration physicalExpiration : Timestamp)
      (isFromFailSafe : Bool) (etag : Option String) (lastModified : Option Timestamp)
      (tags : List Tag) (retention : RetentionMetadata) (now : Timestamp)
  | failSafeDefault (value : V) (options : EntryOptions) (now : Timestamp)
  | replacedPlain (source : Construction V) (value : V) (plain : PlainMetadata)
  | atInsertion (source : Construction V) (insertedAt : Timestamp)
  | throttled (source : Construction V) (epoch : Nat) (options : EntryOptions) (now : Timestamp)
  | logicallyExpired (source : Construction V) (at_ insertedAt : Timestamp)
  | hydrated (source : Construction V) (epoch : Nat) (options : EntryOptions) (now : Timestamp)
      (value : V) (eligibility : Eligibility)
  | withoutEagerRefresh (source : Construction V)
  | withValue (source : Construction V) (value : V)
  | withHydratedValue (source : Construction V) (value : V) (captured : Nat)
  | withRetention (source : Construction V) (size : Option Nat) (priority : Priority)

namespace Construction

variable {V : Type}

/-- The entry that is built, if every step on the way builds one. -/
def build (inst : Instance) : Construction V → Option (Entry V)
  | .plan p value now tags => some (p.prepare value now tags inst)
  | .plain p value tags => some (p.intoFresh value tags inst)
  | .fresh value options snapshotCreated insertedAt jitter tags etag lastModified =>
    (Entry.prepareFreshWithJitter value options snapshotCreated insertedAt jitter tags etag
      lastModified inst).toOption
  | .rehydrated value created logical physical isFromFailSafe etag lastModified tags retention
      now =>
    (Entry.tryRehydrateWithRetention value created logical physical isFromFailSafe etag
      lastModified tags retention now inst).toOption
  | .failSafeDefault value options now =>
    (Entry.tryFromFailSafeDefault value options now inst).toOption
  | .replacedPlain source value p => (source.build inst).map fun e => e.replacePlain value p
  | .atInsertion source insertedAt => (source.build inst).map fun e => e.atInsertion insertedAt inst
  | .throttled source epoch options now =>
    (source.build inst).bind fun e => (e.tryThrottledUnder epoch options now inst).toOption.join
  | .logicallyExpired source at_ insertedAt =>
    (source.build inst).map fun e => e.withLogicalExpirationAt at_ insertedAt inst
  | .hydrated source epoch options now value eligibility =>
    (source.build inst).bind fun e =>
      (e.prepareMemoryHydration epoch options now).toOption.join.map fun metadata =>
        { inst, value, metadata, eligibility }
  | .withoutEagerRefresh source => (source.build inst).map fun e => e.withoutEagerRefresh inst
  | .withValue source value => (source.build inst).map fun e => e.withValue value inst
  | .withHydratedValue source value captured =>
    (source.build inst).map fun e => e.withHydratedValue value captured inst
  | .withRetention source size priority =>
    (source.build inst).map fun e => e.withRetention size priority inst

/-- The insertion instant that a construction was given last. -/
def insertedAt : Construction V → Timestamp
  | .plan _ _ now _ => now
  | .plain p _ _ => p.created
  | .fresh _ _ _ insertedAt _ _ _ _ => insertedAt
  | .rehydrated _ _ _ _ _ _ _ _ _ now => now
  | .failSafeDefault _ _ now => now
  | .replacedPlain _ _ p => p.created
  | .atInsertion _ insertedAt => insertedAt
  | .throttled _ _ _ now => now
  | .logicallyExpired _ _ insertedAt => insertedAt
  | .hydrated _ _ _ now _ _ => now
  | .withoutEagerRefresh source => source.insertedAt
  | .withValue source _ => source.insertedAt
  | .withHydratedValue source _ _ => source.insertedAt
  | .withRetention source _ _ => source.insertedAt

/-- The time to live was last set from the boundary, or by a fail-safe default whose own time to
live is exact. -/
def Exact : Construction V → Prop
  | .failSafeDefault _ options now =>
    now.ticks + durationTicksWide options.physicalTtl ≤ i64Max ∧
      options.physicalTtl.wholeTicks = true
  | .atInsertion source insertedAt => insertedAt = source.insertedAt → source.Exact
  | .withoutEagerRefresh source => source.Exact
  | .withValue source _ => source.Exact
  | .withHydratedValue source _ _ => source.Exact
  | .withRetention source _ _ => source.Exact
  | _ => True

end Construction

/-! ## The deadlines of what is built -/

theorem bind_toOption_eq_some {ε α β : Type} {x : Except ε α} {f : α → Except ε β} {b : β}
    (h : (x.bind f).toOption = some b) : ∃ a, x = .ok a ∧ (f a).toOption = some b := by
  cases x with
  | error e => cases h
  | ok a => exact ⟨a, rfl, h⟩

namespace Entry

variable {V : Type}

theorem tryThrottled_deadlines {epoch : Nat} {source copy : Entry V} {throttle : Duration}
    {now : Timestamp} {inst : Instance}
    (h : source.tryThrottled epoch throttle now inst = some copy) :
    copy.metadata.insertedAt = now ∧ copy.metadata.Deadlines := by
  unfold tryThrottled at h
  split at h
  · cases h
  · obtain rfl := Option.some.inj h
    exact ⟨rfl, min_le_right _ _, rfl⟩

theorem withLogicalExpirationAt_deadlines (e : Entry V) (at_ insertedAt : Timestamp)
    (inst : Instance) : (e.withLogicalExpirationAt at_ insertedAt inst).metadata.Deadlines :=
  ⟨min_le_right _ _, rfl⟩

theorem atInsertion_of_ne {e : Entry V} {insertedAt : Timestamp} (inst : Instance)
    (h : insertedAt ≠ e.metadata.insertedAt) (hle : e.metadata.logicalExpiration
      ≤ e.metadata.physicalExpiration) :
    (e.atInsertion insertedAt inst).metadata.insertedAt = insertedAt ∧
      (e.atInsertion insertedAt inst).metadata.Deadlines := by
  rw [atInsertion, if_neg h]
  exact ⟨rfl, hle, rfl⟩

theorem prepareFreshWithJitter_deadlines {value : V} {options : EntryOptions}
    {snapshotCreated insertedAt : Timestamp} {jitter : JitterSample} {tags : List Tag}
    {etag : Option String} {lastModified : Option Timestamp} {inst : Instance} {e : Entry V}
    (h : (prepareFreshWithJitter value options snapshotCreated insertedAt jitter tags etag
      lastModified inst).toOption = some e) :
    e.metadata.insertedAt = insertedAt ∧ e.metadata.Deadlines := by
  obtain ⟨size, -, h⟩ := bind_toOption_eq_some h
  obtain ⟨logical, -, h⟩ := bind_toOption_eq_some h
  obtain rfl := Option.some.inj h
  exact ⟨rfl, le_max_right _ _, rfl⟩

theorem tryRehydrateWithRetention_deadlines {value : V}
    {created logical physical : Timestamp} {isFromFailSafe : Bool} {etag : Option String}
    {lastModified : Option Timestamp} {tags : List Tag} {retention : RetentionMetadata}
    {now : Timestamp} {inst : Instance} {e : Entry V}
    (h : (tryRehydrateWithRetention value created logical physical isFromFailSafe etag
      lastModified tags retention now inst).toOption = some e) :
    e.metadata.insertedAt = now ∧ e.metadata.Deadlines := by
  unfold tryRehydrateWithRetention at h
  split at h
  · cases h
  · rename_i hle
    obtain rfl := Option.some.inj h
    exact ⟨rfl, not_lt.mp hle, rfl⟩

theorem prepareMemoryHydration_deadlines {epoch : Nat} {e : Entry V} {options : EntryOptions}
    {now : Timestamp} {m : Metadata}
    (h : (e.prepareMemoryHydration epoch options now).toOption.join = some m) :
    m.insertedAt = now ∧ m.Deadlines := by
  have hsome := Option.join_eq_some_iff.mp h
  obtain ⟨size, -, hrest⟩ := bind_toOption_eq_some hsome
  split at hrest
  · cases hrest
  · obtain rfl := Option.some.inj (Option.some.inj hrest)
    exact ⟨rfl, le_max_right _ _, rfl⟩

/-- The one constructor that does not compute the time to live from the boundary. -/
theorem tryFromFailSafeDefault_deadlines {value : V} {options : EntryOptions} {now : Timestamp}
    {inst : Instance} {e : Entry V}
    (h : (tryFromFailSafeDefault value options now inst).toOption = some e) :
    e.metadata.insertedAt = now ∧
      e.metadata.logicalExpiration ≤ e.metadata.physicalExpiration ∧
      (e.metadata.Deadlines ↔ now.ticks + durationTicksWide options.physicalTtl ≤ i64Max ∧
        options.physicalTtl.wholeTicks = true) := by
  obtain ⟨size, -, h⟩ := bind_toOption_eq_some h
  obtain rfl := Option.some.inj h
  refine ⟨rfl, min_le_right _ _, ?_⟩
  rw [← saturatingDurationSince_saturatingAdd_iff]
  constructor
  · intro hdeadlines
    exact hdeadlines.ttl.symm
  · intro hexact
    exact ⟨min_le_right _ _, hexact.symm⟩

end Entry

/-- What a construction owes its entry: the insertion instant, the order of the two boundaries,
and an exact time to live on the stated condition. -/
structure Construction.Spec {V : Type} (c : Construction V) (m : Metadata) : Prop where
  inserted : m.insertedAt = c.insertedAt
  logical_le : m.logicalExpiration ≤ m.physicalExpiration
  exact_iff : m.Deadlines ↔ c.Exact

/-- A step that computes the time to live from the boundary owes nothing to what came before. -/
theorem Construction.Spec.of_deadlines {V : Type} {c : Construction V} {m : Metadata}
    (hinserted : m.insertedAt = c.insertedAt) (hdeadlines : m.Deadlines) (hexact : c.Exact) :
    c.Spec m :=
  ⟨hinserted, hdeadlines.logical_le, iff_of_true hdeadlines hexact⟩

/-- A step that changes none of the instants hands on what it was given. -/
theorem Construction.Spec.keep {V : Type} {c source : Construction V} {m m' : Metadata}
    (hs : source.Spec m) (hc : c.insertedAt = source.insertedAt) (he : c.Exact ↔ source.Exact)
    (hm : m' = { m with origin := m'.origin, retention := m'.retention }) : c.Spec m' := by
  have hdeadlines : m'.Deadlines ↔ m.Deadlines := by
    rw [hm]
    exact ⟨fun h => ⟨h.logical_le, h.ttl⟩, fun h => ⟨h.logical_le, h.ttl⟩⟩
  refine ⟨?_, ?_, hdeadlines.trans (hs.exact_iff.trans he.symm)⟩
  · rw [hm, hc]
    exact hs.inserted
  · rw [hm]
    exact hs.logical_le

theorem Construction.spec {V : Type} (c : Construction V) {inst : Instance} {e : Entry V}
    (h : c.build inst = some e) : c.Spec e.metadata := by
  induction c generalizing e with
  | plan p value now tags =>
    obtain rfl := Option.some.inj h
    exact .of_deadlines rfl ⟨le_max_right _ _, rfl⟩ trivial
  | plain p value tags =>
    obtain rfl := Option.some.inj h
    exact .of_deadlines rfl ⟨le_refl _, rfl⟩ trivial
  | fresh value options snapshotCreated insertedAt jitter tags etag lastModified =>
    have hfresh := Entry.prepareFreshWithJitter_deadlines h
    exact .of_deadlines hfresh.1 hfresh.2 trivial
  | rehydrated value created logical physical isFromFailSafe etag lastModified tags retention now =>
    have hrehydrated := Entry.tryRehydrateWithRetention_deadlines h
    exact .of_deadlines hrehydrated.1 hrehydrated.2 trivial
  | failSafeDefault value options now =>
    obtain ⟨hinserted, hle, hiff⟩ := Entry.tryFromFailSafeDefault_deadlines h
    exact ⟨hinserted, hle, hiff⟩
  | replacedPlain source value p ih =>
    obtain ⟨previous, -, rfl⟩ := Option.map_eq_some_iff.mp h
    exact .of_deadlines rfl ⟨le_refl _, rfl⟩ trivial
  | atInsertion source insertedAt ih =>
    obtain ⟨previous, hprevious, rfl⟩ := Option.map_eq_some_iff.mp h
    have hs := ih hprevious
    by_cases hsame : insertedAt = previous.metadata.insertedAt
    · -- the representation itself is returned
      have hkeep : previous.atInsertion insertedAt inst = previous := by
        rw [Entry.atInsertion, if_pos hsame]
      rw [hkeep]
      have hinstant : insertedAt = source.insertedAt := hsame.trans hs.inserted
      refine ⟨hsame.symm, hs.logical_le, hs.exact_iff.trans ?_⟩
      exact ⟨fun hexact _ => hexact, fun hexact => hexact hinstant⟩
    · have hmoved := Entry.atInsertion_of_ne inst hsame hs.logical_le
      refine .of_deadlines hmoved.1 hmoved.2 ?_
      intro hinstant
      exact absurd (hinstant.trans hs.inserted.symm) hsame
  | throttled source epoch options now ih =>
    obtain ⟨previous, -, h⟩ := Option.bind_eq_some_iff.mp h
    obtain ⟨_, -, h⟩ := bind_toOption_eq_some (Option.join_eq_some_iff.mp h)
    have hthrottled := Entry.tryThrottled_deadlines (Option.some.inj h)
    exact .of_deadlines hthrottled.1 hthrottled.2 trivial
  | logicallyExpired source at_ insertedAt ih =>
    obtain ⟨previous, -, rfl⟩ := Option.map_eq_some_iff.mp h
    exact .of_deadlines rfl (previous.withLogicalExpirationAt_deadlines at_ insertedAt inst) trivial
  | hydrated source epoch options now value eligibility ih =>
    obtain ⟨previous, -, h⟩ := Option.bind_eq_some_iff.mp h
    obtain ⟨m, hm, rfl⟩ := Option.map_eq_some_iff.mp h
    have hprepared := Entry.prepareMemoryHydration_deadlines hm
    exact .of_deadlines hprepared.1 hprepared.2 trivial
  | withoutEagerRefresh source ih =>
    obtain ⟨previous, hprevious, rfl⟩ := Option.map_eq_some_iff.mp h
    exact (ih hprevious).keep rfl Iff.rfl rfl
  | withValue source value ih =>
    obtain ⟨previous, hprevious, rfl⟩ := Option.map_eq_some_iff.mp h
    exact (ih hprevious).keep rfl Iff.rfl rfl
  | withHydratedValue source value captured ih =>
    obtain ⟨previous, hprevious, rfl⟩ := Option.map_eq_some_iff.mp h
    exact (ih hprevious).keep rfl Iff.rfl rfl
  | withRetention source size priority ih =>
    obtain ⟨previous, hprevious, rfl⟩ := Option.map_eq_some_iff.mp h
    exact (ih hprevious).keep rfl Iff.rfl rfl

/-- The boundaries are always in order, and the law as a whole holds exactly of the constructions
that are `Exact`. -/
theorem entry_deadlines_iff {V : Type} (c : Construction V) (inst : Instance) (e : Entry V)
    (h : c.build inst = some e) :
    e.metadata.logicalExpiration ≤ e.metadata.physicalExpiration ∧
      (e.metadata.Deadlines ↔ c.Exact) :=
  ⟨(c.spec h).logical_le, (c.spec h).exact_iff⟩

/-- A lifetime of one tick and a half. -/
def subTickOptions : EntryOptions where
  budgets := .valid
  duration := .fromNanos 150
  memoryDuration := none
  distributedDuration := none
  eagerRefreshThreshold := none
  jitterMax := .fromSecs 0
  isFailSafeEnabled := false
  failSafeMaxDuration := .fromSecs 86400
  failSafeThrottleDuration := .fromSecs 30
  distributedFailSafeMaxDuration := none
  priority := .normal
  size := .unspecified

def epochStart : Timestamp := .fromTicks 0

theorem fail_safe_default_ttl_not_remaining :
    ∃ e, (Construction.failSafeDefault () subTickOptions epochStart).build 0 = some e ∧
      ¬ e.metadata.Deadlines := by
  refine ⟨_, rfl, fun h => ?_⟩
  exact absurd h.ttl (by decide)

theorem entry_deadlines_iff_fail_safe_default :
    ∃ e, (Construction.failSafeDefault () subTickOptions epochStart).build 0 = some e ∧
      e.metadata.logicalExpiration ≤ e.metadata.physicalExpiration :=
  ⟨_, rfl, (entry_deadlines_iff (.failSafeDefault () subTickOptions epochStart) 0 _ rfl).1⟩

end Amalgam
