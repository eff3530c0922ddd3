import Amalgam.EntryLifetimes
import Amalgam.Wire.Snapshot

/-!
# Amalgam — the boundaries of derived entries

`src/entry.rs` and `src/entry/plain.rs`, with the paths of `src/cache` that use them: what expiring,
planning, hydrating and throttling do to the logical and the physical boundary.

* **`expire_bounded_iff`** — an expired representation is not fresh for longer than before, and L1 and
  L2 agree on it, unless the timestamp is ahead of a boundary that had passed already.
* **`fresh_plans_agree`** — a write with a prepared plan builds what the general construction builds.
* **`derived_life_bounded`** — hydration and throttling extend no life.
-/

namespace Amalgam

open Wire

variable {V : Type}

/-! ## Expiring -/

/-- `with_logical_expiration`: what `expire`, inline or not, and a peer's `Expire` do to L1. -/
def Entry.withLogicalExpiration (e : Entry V) (at_ : Timestamp) (inst : Instance) : Entry V :=
  e.withLogicalExpirationAt at_ at_ inst

namespace Wire

/-- `from_entry`. -/
def DistributedEntry.fromEntry (entry : Entry V) : DistributedEntry V where
  value := entry.value
  createdTicks := .ofTimestamp entry.metadata.created
  logicalExpirationTicks := .ofTimestamp entry.metadata.logicalExpiration
  physicalExpirationTicks := .ofTimestamp entry.metadata.physicalExpiration
  isFromFailSafe := entry.metadata.isFromFailSafe
  etag := entry.metadata.etag
  lastModifiedTicks := entry.metadata.lastModified.map I64.ofTimestamp
  tags := entry.metadata.tags.map (·.asStr)

/-- The rewrite of the stored snapshot by `expire` under `RetainStale`. -/
def DistributedSnapshot.retainStale (snapshot : DistributedSnapshot V) (now : Timestamp) :
    Except SnapshotError (DistributedSnapshot V) :=
  let payload := { snapshot.entry with
    logicalExpirationTicks := min snapshot.entry.logicalExpirationTicks (.ofTimestamp now) }
  DistributedSnapshot.new payload snapshot.insertedAt snapshot.retention

/-- The rewrite of `expire_current`; `none` is `Superseded`. -/
def DistributedSnapshot.expireCurrent (snapshot : DistributedSnapshot V)
    (logicalExpiration : Timestamp) : Except SnapshotError (Option (DistributedSnapshot V)) :=
  if snapshot.entry.createdTicks.val > logicalExpiration.ticks then .ok none
  else do
    let entry := { snapshot.entry with
      logicalExpirationTicks :=
        min snapshot.entry.logicalExpirationTicks (.ofTimestamp logicalExpiration) }
    let expired ← DistributedSnapshot.new entry snapshot.insertedAt snapshot.retention
    return some expired

theorem DistributedEntry.validate_ok_iff {entry : DistributedEntry V} :
    entry.validate = .ok () ↔ entry.logicalExpirationTicks ≤ entry.physicalExpirationTicks ∧
      entry.tags.any (fun tag => isBlank tag) = false := by
  unfold DistributedEntry.validate
  rw [← Subtype.coe_le_coe]
  split
  · rename_i hlt
    exact iff_of_false nofun fun h => absurd h.1 (not_le.mpr hlt)
  · rename_i hle
    split
    · rename_i hblank
      exact iff_of_false nofun fun h => by
        rw [hblank] at h
        cases h.2
    · rename_i hblank
      exact iff_of_true rfl ⟨not_lt.mp hle, Bool.eq_false_iff.mpr hblank⟩

theorem DistributedSnapshot.new_of_validate {entry : DistributedEntry V} (insertedAt : Timestamp)
    (retention : SnapshotRetention) (h : entry.validate = .ok ()) :
    new entry insertedAt retention = .ok ⟨entry, insertedAt, retention, h⟩ :=
  new_self ⟨entry, insertedAt, retention, h⟩

/-- The tags of an entry are not blank, so only its deadlines can be refused. -/
theorem DistributedEntry.fromEntry_validate {entry : Entry V}
    (h : entry.metadata.logicalExpiration ≤ entry.metadata.physicalExpiration) :
    (fromEntry entry).validate = .ok () := by
  refine validate_ok_iff.mpr ⟨h, ?_⟩
  rw [List.any_eq_false]
  intro raw hraw
  obtain ⟨tag, -, rfl⟩ := List.mem_map.mp hraw
  rw [tag.nonblank]
  exact Bool.false_ne_true

/-- An earlier boundary is as valid as the one it replaces, so the rewrite cannot fail. -/
theorem DistributedSnapshot.retainStale_ok (snapshot : DistributedSnapshot V) (now : Timestamp) :
    ∃ expired, snapshot.retainStale now = .ok expired ∧ expired.entry.logicalExpirationTicks =
      min snapshot.entry.logicalExpirationTicks (.ofTimestamp now) := by
  obtain ⟨hle, htags⟩ := DistributedEntry.validate_ok_iff.mp snapshot.valid
  have hvalid : DistributedEntry.validate { snapshot.entry with
      logicalExpirationTicks := min snapshot.entry.logicalExpirationTicks (.ofTimestamp now) }
        = .ok () :=
    DistributedEntry.validate_ok_iff.mpr ⟨(min_le_left _ _).trans hle, htags⟩
  exact ⟨_, new_of_validate _ _ hvalid, rfl⟩

/-- The replay of an expiration rewrites a snapshot the way the expiration itself does. -/
theorem DistributedSnapshot.expireCurrent_eq (snapshot : DistributedSnapshot V)
    (logicalExpiration : Timestamp) :
    snapshot.expireCurrent logicalExpiration =
      if snapshot.entry.createdTicks.val > logicalExpiration.ticks then .ok none
      else (snapshot.retainStale logicalExpiration).map some := by
  unfold expireCurrent retainStale
  split
  · rfl
  · dsimp only
    generalize DistributedSnapshot.new _ _ _ = result
    cases result with
    | error error => rfl
    | ok expired => rfl

end Wire

/-- What is promised of an entry and its snapshot when both are expired at `at_`. -/
structure ExpiresAlike (e : Entry V) (s : DistributedSnapshot V) (at_ insertedAt : Timestamp)
    (inst : Instance) : Prop where
  bounded : (e.withLogicalExpirationAt at_ insertedAt inst).metadata.logicalExpiration
    ≤ min e.metadata.logicalExpiration at_
  alike : ∃ expired, s.retainStale at_ = .ok expired ∧ expired.entry.logicalExpirationTicks =
    .ofTimestamp (e.withLogicalExpiration at_ inst).metadata.logicalExpiration
  replayed : ∀ expired, s.expireCurrent at_ = .ok (some expired) →
    expired.entry.logicalExpirationTicks =
      .ofTimestamp (e.withLogicalExpiration at_ inst).metadata.logicalExpiration

theorem ofTimestamp_min (s t : Timestamp) :
    I64.ofTimestamp (min s t) = min (.ofTimestamp s) (.ofTimestamp t) := by
  have hmono : Monotone I64.ofTimestamp := fun _ _ h => h
  exact hmono.map_min

/-- An entry and its snapshot are expired alike, and no fresher than before, exactly when the
timestamp does not move a boundary that it is past. -/
theorem expire_bounded_iff (c : Construction V) (inst copy : Instance) (e : Entry V)
    (s : DistributedSnapshot V) (at_ insertedAt : Timestamp) (h : c.build inst = some e)
    (hs : s.entry = .fromEntry e) :
    ExpiresAlike e s at_ insertedAt copy ↔
      at_ ≤ e.metadata.logicalExpiration ∨
        e.metadata.logicalExpiration = e.metadata.physicalExpiration := by
  have hle := (c.spec h).logical_le
  constructor
  · intro hexpires
    have hbounded : min at_ e.metadata.physicalExpiration ≤ e.metadata.logicalExpiration :=
      hexpires.bounded.trans (min_le_left _ _)
    exact (min_le_iff.mp hbounded).imp_right fun hphysical => le_antisymm hle hphysical
  · intro hcondition
    have hsame : min at_ e.metadata.physicalExpiration = min e.metadata.logicalExpiration at_ := by
      rcases hcondition with hearly | heq
      · rw [min_eq_left (hearly.trans hle), min_eq_right hearly]
      · rw [← heq, min_comm]
    have hticks : min s.entry.logicalExpirationTicks (.ofTimestamp at_) =
        .ofTimestamp (e.withLogicalExpiration at_ copy).metadata.logicalExpiration := by
      have hnew : (e.withLogicalExpiration at_ copy).metadata.logicalExpiration =
          min e.metadata.logicalExpiration at_ := hsame
      rw [hnew, ofTimestamp_min, hs]
      rfl
    obtain ⟨expired, hexpired, hlogical⟩ := s.retainStale_ok at_
    refine ⟨hsame.le, ⟨expired, hexpired, hlogical.trans hticks⟩, fun replayed hreplayed => ?_⟩
    rw [s.expireCurrent_eq, hexpired] at hreplayed
    split at hreplayed
    · cases hreplayed
    · cases hreplayed
      exact hlogical.trans hticks

/-- A peer whose clock is ahead, and an entry that went stale at 5. -/
def staleFor95 : Construction Unit :=
  .rehydrated () epochStart (.fromTicks 5) (.fromTicks 100) false none none []
    .unspecified epochStart

/-- Expired at 50, the entry is fresh again until then, while its snapshot is not. -/
theorem expire_extends :
    ∃ e, staleFor95.build 0 = some e ∧
      ¬ (e.withLogicalExpirationAt ⟨50, by decide, by decide⟩ ⟨50, by decide, by decide⟩ 1
          ).metadata.logicalExpiration
        ≤ min e.metadata.logicalExpiration ⟨50, by decide, by decide⟩ ∧
      e.isLogicallyExpired ⟨10, by decide, by decide⟩ = true ∧
      (e.withLogicalExpiration ⟨50, by decide, by decide⟩ 1).isLogicallyExpired
        ⟨10, by decide, by decide⟩ = false ∧
      ∃ s expired : DistributedSnapshot Unit, s.entry = .fromEntry e ∧
        s.retainStale ⟨50, by decide, by decide⟩ = .ok expired ∧
        expired.entry.logicalExpirationTicks.val = 5 := by
  refine ⟨_, rfl, by decide, by decide, by decide, ?_⟩
  exact ⟨⟨_, epochStart, .unspecified, rfl⟩, _, rfl, rfl, rfl⟩

theorem expire_bounded_iff_stale : ∃ e s, staleFor95.build 0 = some e ∧
    s.entry = .fromEntry e ∧ ExpiresAlike e s epochStart epochStart 1 :=
  ⟨_, ⟨_, epochStart, .unspecified, rfl⟩, rfl, rfl,
    (expire_bounded_iff staleFor95 0 1 _ _ epochStart epochStart rfl rfl).mpr (.inl (by decide))⟩

/-! ## Plans -/

/-- `JitterSample::ZERO`. -/
def JitterSample.ZERO : JitterSample := ⟨.fromSecs 0⟩

def PlainPlan.prepare (plan : PlainPlan) (value : V) (now : Timestamp) (tags : List Tag)
    (inst : Instance) : Entry V :=
  (plan.metadata now).intoFresh value tags inst

/-- The selection of `inline_set_value`: only the default options were planned for. -/
def inlineEntry (resolved : Option EntryOptions) (defaultOptions : EntryOptions)
    (defaultFreshPlan : DefaultFreshPlan) (stored : V) (now : Timestamp) (jitter : JitterSample)
    (tags : List Tag) (inst : Instance) : Except ConfigError (Entry V) :=
  match resolved, defaultFreshPlan with
  | none, .plain plan => .ok (plan.prepare stored now tags inst)
  | none, .prepared plan => .ok (plan.prepare stored now tags inst)
  | resolved, _ =>
    Entry.prepareFreshWithJitter stored (resolved.getD defaultOptions) now now jitter tags none none
      inst

/-- A span is added the way its duration is: it is not negative, so no sum falls below the range. -/
theorem LifetimeSpan.after_new (d : Duration) (t : Timestamp) :
    (LifetimeSpan.new d).after t = t.saturatingAdd d := by
  have hnonneg := durationTicksWide_nonneg d
  have hlower := t.lower
  have hspan : (show Int from LifetimeSpan.new d) = durationTicksWide d := rfl
  unfold Timestamp.saturatingAdd
  by_cases hfit : t.ticks + durationTicksWide d ≤ i64Max
  · rw [dif_pos hfit]
    exact dif_pos ⟨by rw [hspan]; omega, hfit⟩
  · rw [dif_neg hfit]
    exact dif_neg fun h => hfit h.2

theorem saturatingAdd_of_ticks_zero {d : Duration} (h : durationTicksWide d = 0) (t : Timestamp) :
    t.saturatingAdd d = t := by
  have hupper := t.upper
  unfold Timestamp.saturatingAdd
  rw [dif_pos (by omega)]
  apply Timestamp.ext
  dsimp only
  omega

theorem durationTicksWide_of_asNanos_zero {d : Duration} (h : d.asNanos = 0) :
    durationTicksWide d = 0 := by
  unfold Duration.asNanos at h
  unfold durationTicksWide TICKS_PER_SECOND NANOS_PER_TICK
  omega

/-- What having a plan says about the options. -/
theorem FreshPlan.forOptions_eq_some {options : EntryOptions} {plan : FreshPlan}
    (h : FreshPlan.forOptions options = .ok (some plan)) :
    options.jitterMax.asNanos = 0 ∧ options.eagerRefreshThreshold = none ∧
      ∃ size, options.weight = .ok size ∧
        plan.logical = .new options.resolvedMemoryDuration ∧
        plan.physical = .new options.physicalTtl ∧
        plan.retention = if size.isSome ∨ options.priority ≠ .normal ∨ options.isFailSafeEnabled then
          RetentionMetadata.specified size options.priority else .unspecified := by
  unfold FreshPlan.forOptions at h
  split at h
  · cases h
  · rename_i hplain
    have hzero : options.jitterMax.asNanos = 0 := by
      by_contra hne
      exact hplain (.inl hne)
    have hnone : options.eagerRefreshThreshold = none := by
      cases heager : options.eagerRefreshThreshold with
      | none => rfl
      | some threshold => exact absurd (.inr (by rw [heager]; rfl)) hplain
    cases hsize : options.weight with
    | error error =>
      rw [hsize] at h
      cases h
    | ok size =>
      rw [hsize] at h
      obtain rfl := Option.some.inj (Except.ok.inj h)
      exact ⟨hzero, hnone, size, rfl, rfl, rfl, rfl⟩

/-- The plan for options computes the metadata of the general construction. -/
theorem FreshPlan.prepare_eq {options : EntryOptions} {plan : FreshPlan} {jitter : JitterSample}
    (h : FreshPlan.forOptions options = .ok (some plan)) (hjitter : jitter.duration ≤ options.jitterMax)
    (value : V) (now : Timestamp) (tags : List Tag) (inst : Instance) :
    Entry.prepareFreshWithJitter value options now now jitter tags none none inst =
      .ok (plan.prepare value now tags inst) := by
  obtain ⟨hzero, heager, size, hsize, hlogical, hphysical, hretention⟩ := forOptions_eq_some h
  have hticks : durationTicksWide jitter.duration = 0 := by
    have hnanos : jitter.duration.asNanos ≤ options.jitterMax.asNanos := hjitter
    exact durationTicksWide_of_asNanos_zero (by omega)
  have hexpires : options.logicalExpirationWithJitter now jitter = .ok (plan.logical.after now) := by
    unfold EntryOptions.logicalExpirationWithJitter JitterSample.new
    rw [if_neg (not_lt.mpr hjitter), hlogical, LifetimeSpan.after_new]
    exact congrArg Except.ok (saturatingAdd_of_ticks_zero hticks _)
  have hborn : options.eagerRefreshAtExpiration now (plan.logical.after now) = none := by
    unfold EntryOptions.eagerRefreshAtExpiration
    rw [heager]
    rfl
  unfold Entry.prepareFreshWithJitter FreshPlan.prepare
  rw [hsize, hexpires, hretention, hphysical, LifetimeSpan.after_new]
  simp only [heager, Option.isSome_none, Bool.false_eq_true, or_false]
  exact congrArg Except.ok (by rw [hborn])

/-- A plain plan is a plan with equal spans and nothing to retain. -/
theorem DefaultFreshPlan.forOptions_cases {options : EntryOptions} {selected : DefaultFreshPlan}
    (h : DefaultFreshPlan.forOptions options = .ok selected) :
    match selected with
    | .plain plan => ∃ full, FreshPlan.forOptions options = .ok (some full) ∧
        full.retention = .unspecified ∧ full.logical = plan.lifetime ∧ full.physical = plan.lifetime
    | .prepared plan => FreshPlan.forOptions options = .ok (some plan)
    | .general => FreshPlan.forOptions options = .ok none := by
  unfold DefaultFreshPlan.forOptions at h
  cases hplan : FreshPlan.forOptions options with
  | error error =>
    rw [hplan] at h
    cases h
  | ok found =>
    rw [hplan] at h
    cases found with
    | none =>
      obtain rfl := Except.ok.inj h
      rfl
    | some full =>
      rcases em (full.retention = .unspecified ∧ full.logical = full.physical) with hplain | hfull
      · have hselected : DefaultFreshPlan.plain ⟨full.logical⟩ = selected :=
          Except.ok.inj ((if_pos hplain).symm.trans h)
        subst hselected
        exact ⟨full, rfl, hplain.1, rfl, hplain.2.symm⟩
      · have hselected : DefaultFreshPlan.prepared full = selected :=
          Except.ok.inj ((if_neg hfull).symm.trans h)
        subst hselected
        rfl

/-- With equal spans the two boundaries of a plan are one. -/
theorem PlainPlan.prepare_eq {plan : PlainPlan} {full : FreshPlan}
    (hretention : full.retention = .unspecified) (hlogical : full.logical = plan.lifetime)
    (hphysical : full.physical = plan.lifetime) (value : V) (now : Timestamp) (tags : List Tag)
    (inst : Instance) : full.prepare value now tags inst = plan.prepare value now tags inst := by
  unfold FreshPlan.prepare
  rw [hretention, hlogical, hphysical]
  dsimp only
  rw [max_self]
  rfl

/-- Whichever plan the options select, at any time and for any value, the entry is the one of the
general construction without jitter; and a plain plan that is written over the metadata of an old
representation leaves the same metadata. -/
theorem fresh_plans_agree (options : EntryOptions) (selected : DefaultFreshPlan)
    (jitter : JitterSample) (value : V) (now : Timestamp) (tags : List Tag) (inst : Instance)
    (h : DefaultFreshPlan.forOptions options = .ok selected)
    (hjitter : jitter.duration ≤ options.jitterMax) :
    (∀ plan, FreshPlan.forOptions options = .ok (some plan) →
      Entry.prepareFreshWithJitter value options now now .ZERO tags none none inst =
        .ok (plan.prepare value now tags inst)) ∧
    (∀ plan, selected = .prepared plan →
      Entry.prepareFreshWithJitter value options now now .ZERO tags none none inst =
        .ok (plan.prepare value now tags inst)) ∧
    (∀ plan, selected = .plain plan →
      Entry.prepareFreshWithJitter value options now now .ZERO tags none none inst =
          .ok (plan.prepare value now tags inst) ∧
        ∀ old, (plan.metadata now).install old = (plan.prepare value now [] inst).metadata) ∧
    inlineEntry none options selected value now jitter tags inst =
      Entry.prepareFreshWithJitter value options now now jitter tags none none inst := by
  have hzero : JitterSample.ZERO.duration ≤ options.jitterMax := Nat.zero_le _
  have hcases := DefaultFreshPlan.forOptions_cases h
  refine ⟨fun plan hplan => FreshPlan.prepare_eq hplan hzero .., ?_, ?_, ?_⟩
  · rintro plan rfl
    exact FreshPlan.prepare_eq hcases hzero ..
  · rintro plan rfl
    obtain ⟨full, hfull, hretention, hlogical, hphysical⟩ := hcases
    refine ⟨?_, fun old => rfl⟩
    rw [FreshPlan.prepare_eq hfull hzero, PlainPlan.prepare_eq hretention hlogical hphysical]
  · cases selected with
    | plain plan =>
      obtain ⟨full, hfull, hretention, hlogical, hphysical⟩ := hcases
      rw [FreshPlan.prepare_eq hfull hjitter, PlainPlan.prepare_eq hretention hlogical hphysical]
      rfl
    | prepared plan =>
      rw [FreshPlan.prepare_eq hcases hjitter]
      rfl
    | general => rfl

theorem DefaultFreshPlan.forOptions_plain {options : EntryOptions} {full : FreshPlan}
    (h : FreshPlan.forOptions options = .ok (some full)) (hretention : full.retention = .unspecified)
    (hspans : full.logical = full.physical) :
    DefaultFreshPlan.forOptions options = .ok (.plain ⟨full.logical⟩) := by
  unfold DefaultFreshPlan.forOptions
  rw [h]
  exact if_pos ⟨hretention, hspans⟩

theorem subTickOptions_plan :
    FreshPlan.forOptions subTickOptions =
      .ok (some ⟨.new subTickOptions.duration, .new subTickOptions.duration, .unspecified⟩) :=
  if_neg (by decide)

theorem fresh_plans_agree_sub_tick :
    inlineEntry none subTickOptions (.plain ⟨.new subTickOptions.duration⟩) () epochStart .ZERO [] 0
      = Entry.prepareFreshWithJitter () subTickOptions epochStart epochStart .ZERO [] none none 0 :=
  (fresh_plans_agree subTickOptions _ .ZERO () epochStart [] 0
    (DefaultFreshPlan.forOptions_plain subTickOptions_plan rfl rfl) (by decide)).2.2.2

/-! ## Hydrating and throttling -/

namespace Entry

variable {epoch : Nat} {e : Entry V} {options : EntryOptions} {now : Timestamp}

variable (epoch e now) in
/-- What hydration does once the requested size is known. -/
theorem prepareMemoryHydration_cases {size : Option Nat} (hsize : options.weight = .ok size) :
    (e.prepareMemoryHydration epoch options now = .ok none ∧
        (e.isReadEligible epoch = false ∨ e.isPhysicallyExpired now = true)) ∨
      ∃ m, e.prepareMemoryHydration epoch options now = .ok (some m) ∧
        ¬ (e.isReadEligible epoch = false ∨ e.isPhysicallyExpired now = true) ∧
        m.logicalExpiration =
          min e.metadata.logicalExpiration (now.saturatingAdd options.resolvedMemoryDuration) ∧
        m.physicalExpiration =
          max (min e.metadata.physicalExpiration (now.saturatingAdd options.physicalTtl))
            m.logicalExpiration := by
  unfold prepareMemoryHydration
  rw [hsize]
  rcases em (e.isReadEligible epoch = false ∨ e.isPhysicallyExpired now = true) with hgone | hlive
  · exact .inl ⟨if_pos (by simpa using hgone), hgone⟩
  · exact .inr ⟨_, if_neg (by simpa using hlive), hlive, rfl, rfl⟩

theorem prepareMemoryHydration_weight {m : Option Metadata}
    (h : e.prepareMemoryHydration epoch options now = .ok m) : ∃ size, options.weight = .ok size := by
  unfold prepareMemoryHydration at h
  cases hsize : options.weight with
  | error error =>
    rw [hsize] at h
    cases h
  | ok size => exact ⟨size, rfl⟩

theorem prepareMemoryHydration_bounded {m : Metadata}
    (hle : e.metadata.logicalExpiration ≤ e.metadata.physicalExpiration)
    (h : e.prepareMemoryHydration epoch options now = .ok (some m)) :
    m.logicalExpiration ≤ e.metadata.logicalExpiration ∧
      m.physicalExpiration ≤ e.metadata.physicalExpiration ∧
      m.logicalExpiration ≤ m.physicalExpiration := by
  obtain ⟨size, hsize⟩ := prepareMemoryHydration_weight h
  rcases prepareMemoryHydration_cases epoch e now hsize with
    ⟨hnone, -⟩ | ⟨m', hsome, -, hlogical, hphysical⟩
  · rw [hnone] at h
    cases h
  · obtain rfl := Option.some.inj (Except.ok.inj (hsome.symm.trans h))
    have hshort : m'.logicalExpiration ≤ e.metadata.logicalExpiration := by
      rw [hlogical]
      exact min_le_left _ _
    refine ⟨hshort, ?_, ?_⟩
    · rw [hphysical]
      exact max_le (min_le_left _ _) (hshort.trans hle)
    · rw [hphysical]
      exact le_max_right _ _

theorem prepareMemoryHydration_none_iff {size : Option Nat} (hsize : options.weight = .ok size) :
    e.prepareMemoryHydration epoch options now = .ok none ↔
      e.isReadEligible epoch = false ∨ e.isPhysicallyExpired now = true := by
  rcases prepareMemoryHydration_cases epoch e now hsize with
    ⟨hnone, hgone⟩ | ⟨m, hsome, hlive, -, -⟩
  · exact iff_of_true hnone hgone
  · refine iff_of_false ?_ hlive
    rw [hsome]
    exact nofun

end Entry

/-- Whatever an entry went through, hydrating it shortens both boundaries and keeps them in order,
refuses exactly what is dead, and throttling it keeps its version and its physical boundary. -/
theorem derived_life_bounded (c : Construction V) (inst copy : Instance) (e : Entry V) (epoch : Nat)
    (options : EntryOptions) (now : Timestamp) (h : c.build inst = some e) :
    (∀ m, e.prepareMemoryHydration epoch options now = .ok (some m) →
      m.logicalExpiration ≤ e.metadata.logicalExpiration ∧
        m.physicalExpiration ≤ e.metadata.physicalExpiration ∧
        m.logicalExpiration ≤ m.physicalExpiration) ∧
    (∀ size, options.weight = .ok size →
      (e.prepareMemoryHydration epoch options now = .ok none ↔
        e.isReadEligible epoch = false ∨ e.isPhysicallyExpired now = true)) ∧
    ∀ throttled, e.tryThrottledUnder epoch options now copy = .ok (some throttled) →
      throttled.metadata.created = e.metadata.created ∧
        throttled.metadata.physicalExpiration = e.metadata.physicalExpiration ∧
        throttled.metadata.logicalExpiration ≤ throttled.metadata.physicalExpiration := by
  refine ⟨fun m hm => Entry.prepareMemoryHydration_bounded (c.spec h).logical_le hm,
    fun size hsize => Entry.prepareMemoryHydration_none_iff hsize, fun throttled hthrottled => ?_⟩
  have hsome : e.tryThrottled epoch options.failSafeThrottleDuration now copy = some throttled := by
    obtain ⟨_, -, hrest⟩ := bind_eq_ok hthrottled
    exact Except.ok.inj hrest
  obtain ⟨-, -, -, -, hcreated, -, hphysical, -, -⟩ := Entry.tryThrottled_eq_some hsome
  exact ⟨hcreated, hphysical, (Entry.tryThrottled_deadlines hsome).2.logical_le⟩

theorem derived_life_bounded_stale :
    ∃ e m, staleFor95.build 0 = some e ∧
      e.prepareMemoryHydration 0 subTickOptions ⟨10, by decide, by decide⟩ = .ok (some m) ∧
      m.physicalExpiration ≤ e.metadata.physicalExpiration :=
  ⟨_, _, rfl, rfl, ((derived_life_bounded staleFor95 0 1 _ 0 subTickOptions
    ⟨10, by decide, by decide⟩ rfl).1 _ rfl).2.1⟩

end Amalgam
