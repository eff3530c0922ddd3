import Amalgam.EntryBoundaries
import Amalgam.TimeArithmetic

/-!
# Amalgam — the snapshots of inserted entries

`from_entry_with_options` of `src/distributed.rs`: an insertion gives its snapshot boundaries of its
own, from the durations for L2 in its options.

* **`inserted_snapshots_valid`** — valid options always give a snapshot with its boundaries in order,
  and a value that came from fail-safe lives no longer in L2 than in L1.
-/

namespace Amalgam

namespace Wire

variable {V : Type}

/-- What refuses a snapshot: the options, or the boundaries and the tags. -/
inductive InsertionError where
  | config (error : ConfigError)
  | snapshot (error : SnapshotError)
deriving DecidableEq

/-- `DistributedEntry::from_entry_with_options` -/
def DistributedEntry.fromEntryWithOptions (entry : Entry V) (options : EntryOptions)
    (insertedAt : Timestamp) : Except InsertionError (DistributedEntry V) := do
  options.validate.mapError .config
  let logical := insertedAt.saturatingAdd options.resolvedDistributedDuration
  let physical := insertedAt.saturatingAdd options.distributedPhysicalTtl
  let snapshot := if entry.metadata.isFromFailSafe then
      { fromEntry entry with
        logicalExpirationTicks := .ofTimestamp (min logical entry.metadata.logicalExpiration)
        physicalExpirationTicks := .ofTimestamp (min physical entry.metadata.physicalExpiration) }
    else
      { fromEntry entry with
        logicalExpirationTicks := .ofTimestamp logical
        physicalExpirationTicks := .ofTimestamp physical }
  snapshot.validate.mapError .snapshot
  return snapshot

/-- `stored_priority`, with the size; the units of a weight fit 64 bits. -/
def SnapshotRetention.ofEntry : RetentionMetadata → SnapshotRetention
  | .unspecified => .unspecified
  | .specified size priority =>
    .specified (size.map fun units => ⟨min units u64Max, min_le_right _ _⟩) priority

/-- `DistributedSnapshot::from_entry_with_options` -/
def DistributedSnapshot.fromEntryWithOptions (entry : Entry V) (options : EntryOptions)
    (insertedAt : Timestamp) : Except InsertionError (DistributedSnapshot V) := do
  let payload ← DistributedEntry.fromEntryWithOptions entry options insertedAt
  (DistributedSnapshot.new payload insertedAt (.ofEntry entry.metadata.retention)).mapError .snapshot

/-- `backend_ttl_at` -/
def DistributedSnapshot.backendTtlAt (snapshot : DistributedSnapshot V) (now : Timestamp) :
    Duration :=
  snapshot.entry.physicalExpirationTicks.toTimestamp.saturatingDurationSince now

end Wire

open Wire

variable {V : Type}

theorem EntryOptions.resolvedDistributedDuration_le (options : EntryOptions) :
    options.resolvedDistributedDuration ≤ options.distributedPhysicalTtl := by
  unfold distributedPhysicalTtl
  split
  · exact le_max_left _ _
  · exact le_refl _

/-- The options are refused for themselves, never for the boundaries they give. -/
theorem EntryOptions.validate_ne_invalidEntryDeadlines (options : EntryOptions) :
    options.validate ≠ .error .invalidEntryDeadlines := by
  unfold validate weight
  cases options.size with
  | rejected size => exact nofun
  | unspecified | weight units => cases options.budgets <;> exact nofun

/-- The boundaries that an insertion gives its snapshot. -/
def insertedBoundaries (m : Metadata) (options : EntryOptions) (insertedAt : Timestamp) :
    Timestamp × Timestamp :=
  let logical := insertedAt.saturatingAdd options.resolvedDistributedDuration
  let physical := insertedAt.saturatingAdd options.distributedPhysicalTtl
  if m.isFromFailSafe then (min logical m.logicalExpiration, min physical m.physicalExpiration)
  else (logical, physical)

theorem insertedBoundaries_le {m : Metadata} (options : EntryOptions) (insertedAt : Timestamp)
    (h : m.logicalExpiration ≤ m.physicalExpiration) :
    (insertedBoundaries m options insertedAt).1 ≤ (insertedBoundaries m options insertedAt).2 := by
  have hadded := Timestamp.saturatingAdd_mono (le_refl insertedAt)
    options.resolvedDistributedDuration_le
  unfold insertedBoundaries
  dsimp only
  split
  · exact min_le_min hadded h
  · exact hadded

theorem insertedBoundaries_capped {m : Metadata} (options : EntryOptions) (insertedAt : Timestamp)
    (h : m.isFromFailSafe = true) :
    (insertedBoundaries m options insertedAt).1 ≤ m.logicalExpiration ∧
      (insertedBoundaries m options insertedAt).2 ≤ m.physicalExpiration := by
  unfold insertedBoundaries
  rw [if_pos h]
  exact ⟨min_le_right _ _, min_le_right _ _⟩

/-- The entry of the snapshot is the one of L1 but for its boundaries. -/
theorem DistributedEntry.fromEntryWithOptions_eq {entry : Entry V} {options : EntryOptions}
    (insertedAt : Timestamp) (hvalid : options.validate = .ok ())
    (h : entry.metadata.logicalExpiration ≤ entry.metadata.physicalExpiration) :
    ∃ payload, DistributedEntry.fromEntryWithOptions entry options insertedAt = .ok payload ∧
      payload.validate = .ok () ∧
      payload = { DistributedEntry.fromEntry entry with
        logicalExpirationTicks :=
          .ofTimestamp (insertedBoundaries entry.metadata options insertedAt).1
        physicalExpirationTicks :=
          .ofTimestamp (insertedBoundaries entry.metadata options insertedAt).2 } := by
  have htags := (DistributedEntry.validate_ok_iff.mp (DistributedEntry.fromEntry_validate h)).2
  have hpayload : DistributedEntry.validate { DistributedEntry.fromEntry entry with
      logicalExpirationTicks := .ofTimestamp (insertedBoundaries entry.metadata options insertedAt).1
      physicalExpirationTicks :=
        .ofTimestamp (insertedBoundaries entry.metadata options insertedAt).2 } = .ok () :=
    DistributedEntry.validate_ok_iff.mpr ⟨insertedBoundaries_le options insertedAt h, htags⟩
  refine ⟨_, ?_, hpayload, rfl⟩
  unfold insertedBoundaries at hpayload ⊢
  unfold DistributedEntry.fromEntryWithOptions
  rw [hvalid]
  dsimp only at hpayload ⊢
  split at hpayload
  · rename_i hfailSafe
    rw [if_pos hfailSafe, if_pos hfailSafe]
    show Except.bind (Except.mapError _ (DistributedEntry.validate _)) _ = _
    rw [hpayload]
    rfl
  · rename_i hfresh
    rw [if_neg hfresh, if_neg hfresh]
    show Except.bind (Except.mapError _ (DistributedEntry.validate _)) _ = _
    rw [hpayload]
    rfl

theorem backendTtlAt_zero_iff (snapshot : DistributedSnapshot V) (now : Timestamp) :
    (snapshot.backendTtlAt now).asNanos = 0 ↔
      snapshot.entry.physicalExpirationTicks.toTimestamp ≤ now := by
  unfold DistributedSnapshot.backendTtlAt
  rw [Timestamp.saturatingDurationSince_asNanos, Timestamp.le_iff_ticks]
  omega

/-- Options that are valid always give a snapshot, and only those that are not are refused: its
boundaries are in order, not later than those of a value from fail-safe, and its time to live is
zero exactly when it is expired at the insertion. -/
theorem inserted_snapshots_valid (entry : Entry V) (options : EntryOptions) (insertedAt : Timestamp)
    (h : entry.metadata.logicalExpiration ≤ entry.metadata.physicalExpiration) :
    (∀ error, options.validate = .error error → error ≠ .invalidEntryDeadlines ∧
      DistributedSnapshot.fromEntryWithOptions entry options insertedAt = .error (.config error)) ∧
    (options.validate = .ok () → ∃ snapshot,
      DistributedSnapshot.fromEntryWithOptions entry options insertedAt = .ok snapshot ∧
      snapshot.entry.logicalExpirationTicks ≤ snapshot.entry.physicalExpirationTicks ∧
      (entry.metadata.isFromFailSafe = true →
        snapshot.entry.logicalExpirationTicks ≤ .ofTimestamp entry.metadata.logicalExpiration ∧
        snapshot.entry.physicalExpirationTicks ≤ .ofTimestamp entry.metadata.physicalExpiration) ∧
      ((snapshot.backendTtlAt insertedAt).asNanos = 0 ↔
        snapshot.entry.physicalExpirationTicks.toTimestamp ≤ insertedAt)) := by
  constructor
  · intro error herror
    refine ⟨fun heq => options.validate_ne_invalidEntryDeadlines (heq ▸ herror), ?_⟩
    unfold DistributedSnapshot.fromEntryWithOptions DistributedEntry.fromEntryWithOptions
    rw [herror]
    rfl
  · intro hvalid
    obtain ⟨payload, hpayload, hordered, rfl⟩ :=
      DistributedEntry.fromEntryWithOptions_eq insertedAt hvalid h
    refine ⟨⟨_, insertedAt, .ofEntry entry.metadata.retention, hordered⟩, ?_, ?_, ?_, ?_⟩
    · unfold DistributedSnapshot.fromEntryWithOptions
      rw [hpayload]
      show Except.mapError _ (DistributedSnapshot.new _ insertedAt _) = _
      rw [DistributedSnapshot.new_of_validate _ _ hordered]
      rfl
    · exact insertedBoundaries_le options insertedAt h
    · exact fun hfailSafe => insertedBoundaries_capped options insertedAt hfailSafe
    · exact backendTtlAt_zero_iff _ insertedAt

/-- An entry that came from fail-safe and is stale from 5 on. -/
def failSafeUntil5 : Entry Unit where
  inst := 0
  value := ()
  metadata :=
    { created := epochStart
      insertedAt := epochStart
      logicalExpiration := .fromTicks 5
      physicalExpiration := .fromTicks 100
      backendTtl := .fromNanos 10000
      origin := .failSafe
      etag := none
      lastModified := none
      tags := []
      retention := .unspecified }
  eligibility := .ofLocal

/-- A timeout outside the range of the clock refuses the snapshot with the options. -/
theorem invalid_options_refused :
    DistributedSnapshot.fromEntryWithOptions failSafeUntil5
        { subTickOptions with budgets := .outOfRange } epochStart
      = .error (.config .deadlineOutOfRange) := rfl

theorem inserted_snapshots_valid_fail_safe :
    ∃ snapshot, DistributedSnapshot.fromEntryWithOptions failSafeUntil5 subTickOptions epochStart
        = .ok snapshot ∧
      snapshot.entry.logicalExpirationTicks ≤ .ofTimestamp ⟨5, by decide, by decide⟩ := by
  obtain ⟨snapshot, hsnapshot, -, hfailSafe, -⟩ :=
    (inserted_snapshots_valid failSafeUntil5 subTickOptions epochStart (by decide)).2 rfl
  exact ⟨snapshot, hsnapshot, (hfailSafe rfl).1⟩

end Amalgam
