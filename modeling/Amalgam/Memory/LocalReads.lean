import Amalgam.Memory.Sharded
import Amalgam.TimeArithmetic

/-!
# Amalgam — reads under a local clock

`src/time/local.rs`, `src/time/coarse.rs` and `local_read` of `src/memory/sharded.rs`. A cache with
its own clock turns the boundaries of an entry into instants when it is stored, and a hit compares
these with one reading of the monotonic clock, first with a cheap bound of it.

* **`local_reads_agree`** — the instants decide as the timestamps do, to the tick, and the bound
  decides as the reading does.
-/

namespace Amalgam

namespace Memory

/-! ## Deadlines -/

inductive MonotonicDeadline where
  | ofInstant (deadline : Instant)
  | beyondRange
deriving DecidableEq

def MonotonicDeadline.expired (now : Instant) : MonotonicDeadline → Bool
  | .ofInstant deadline => deadline ≤ now
  | .beyondRange => false

/-- `Instant::checked_add`, where `last` is the last instant that the platform can represent. -/
def checkedAdd (last instant : Instant) (d : Duration) : Option Instant :=
  if instant + d.asNanos ≤ last then some (instant + d.asNanos) else none

/-- `LocalClock::deadline` -/
def LocalClock.monotonicDeadline (last : Instant) (clock : LocalClock) (at_ : Timestamp) :
    MonotonicDeadline :=
  (checkedAdd last clock.origin (at_.saturatingDurationSince clock.epoch)).elim .beyondRange
    .ofInstant

/-- The timestamp of `LocalClock::sample`, `elapsed` after the origin. -/
def LocalClock.sample (clock : LocalClock) (elapsed : Duration) : Timestamp :=
  clock.epoch.saturatingAdd elapsed

/-- `Deadlines::Local` -/
structure LocalDeadlines where
  logical : MonotonicDeadline
  physical : MonotonicDeadline

/-- `Timing::prepare_boundaries` under a local clock. -/
def LocalClock.prepareBoundaries (last : Instant) (clock : LocalClock)
    (logical physical : Timestamp) : LocalDeadlines :=
  let logicalDeadline := clock.monotonicDeadline last logical
  { logical := logicalDeadline
    physical :=
      if physical = logical then logicalDeadline else clock.monotonicDeadline last physical }

/-- `Deadlines::freshness` -/
def LocalDeadlines.freshness (deadlines : LocalDeadlines) (now : Instant) : Freshness :=
  if deadlines.logical.expired now then .stale else .fresh

/-! ## The coarse clock -/

/-- `Duration::MAX`, in nanoseconds. -/
def durationMax : Nat := u64Max * 1000000000 + 999999999

/-- `Duration::checked_sub` -/
def durationCheckedSub (d e : Nat) : Option Nat := if d < e then none else some (d - e)

/-- `Duration::checked_add` -/
def durationCheckedAdd (d e : Nat) : Option Nat := if d + e ≤ durationMax then some (d + e) else none

/-- A reading of the coarse clock and one of the precise clock after it. -/
structure Anchor where
  coarse : Nat
  precise : Instant
  slack : Nat

/-- `Anchor::bound`, of a reading of the coarse clock that may fail. -/
def Anchor.bound (last : Instant) (anchor : Anchor) (reading : Option Nat) : Option Instant := do
  let reading ← reading
  let since ← durationCheckedSub reading anchor.coarse
  let ahead ← durationCheckedAdd since anchor.slack
  if anchor.precise + ahead ≤ last then some (anchor.precise + ahead) else none

/-! ## Reads -/

/-- `Stored`, under a local clock. -/
structure LocalStored (V : Type) where
  entry : Entry V
  generation : Nat
  deadlines : LocalDeadlines

variable {V : Type}

/-- `retirement_at` -/
def LocalStored.retirementAt (epoch generation : Nat) (elapsed : Instant) (stored : LocalStored V) :
    Option RetirementReason :=
  if stored.generation ≠ generation then some .continuity
  else if !stored.entry.isReadEligible epoch then some .eligibility
  else if stored.deadlines.physical.expired elapsed then some .expired
  else none

/-- What `local_read` decides at one instant. -/
def LocalStored.readAt (epoch generation : Nat) (elapsed : Instant) (stored : LocalStored V) :
    Option Freshness :=
  if (stored.retirementAt epoch generation elapsed).isNone then
    some (stored.deadlines.freshness elapsed)
  else none

/-- `local_read`: `upper` is the bound and `precise` the reading of `Instant::now()`. -/
def LocalStored.localRead (epoch generation : Nat) (upper : Option Instant) (precise : Instant)
    (stored : LocalStored V) : Option Freshness :=
  match upper.map fun bound => stored.readAt epoch generation bound with
  | some (some .fresh) => some .fresh
  | some _ | none => stored.readAt epoch generation precise

/-! ## Instants and timestamps -/

theorem checkedAdd_eq_some {last instant sum : Instant} {d : Duration}
    (h : checkedAdd last instant d = some sum) : sum = instant + d.asNanos := by
  unfold checkedAdd at h
  split at h
  · exact (Option.some.inj h).symm
  · cases h

theorem checkedAdd_eq_none {last instant : Instant} {d : Duration}
    (h : checkedAdd last instant d = none) : last < instant + d.asNanos := by
  unfold checkedAdd at h
  split at h
  · cases h
  · rename_i hover
    exact not_le.mp hover

/-- An instant that can be represented is never past a deadline that cannot. -/
theorem monotonicDeadline_expired {last now : Instant} (clock : LocalClock) (at_ : Timestamp)
    (h : now ≤ last) :
    (clock.monotonicDeadline last at_).expired now = true ↔ clock.deadline at_ ≤ now := by
  unfold LocalClock.monotonicDeadline LocalClock.deadline
  cases hadd : checkedAdd last clock.origin (at_.saturatingDurationSince clock.epoch) with
  | some deadline =>
    rw [← checkedAdd_eq_some hadd]
    exact decide_eq_true_iff
  | none => exact iff_of_false nofun (h.trans_lt (checkedAdd_eq_none hadd)).not_ge

theorem deadline_le_iff (clock : LocalClock) (at_ : Timestamp) (elapsed : Duration) :
    clock.deadline at_ ≤ clock.origin + elapsed.asNanos ↔ at_ ≤ clock.sample elapsed := by
  have hupper := at_.upper
  have hlower := clock.epoch.lower
  have hsum : i64Min ≤ clock.epoch.ticks + (elapsed.asNanos / 100 : Nat) := by omega
  refine Nat.add_le_add_iff_left.trans ?_
  unfold LocalClock.sample
  rw [Timestamp.saturatingDurationSince_asNanos, Timestamp.le_iff_ticks,
    Timestamp.saturatingAdd_ticks, durationTicksWide_eq, clampI64_of_lower hsum, le_min_iff]
  constructor
  · intro hle
    exact ⟨by omega, hupper⟩
  · rintro ⟨hle, -⟩
    omega

/-- A boundary that is shared is the one that would have been prepared. -/
theorem prepareBoundaries_physical (last : Instant) (clock : LocalClock)
    (logical physical : Timestamp) : (clock.prepareBoundaries last logical physical).physical =
      clock.monotonicDeadline last physical := by
  unfold LocalClock.prepareBoundaries
  by_cases heq : physical = logical
  · rw [heq]
    exact if_pos rfl
  · exact if_neg heq

/-- A hit on prepared boundaries is what the timestamps say. -/
theorem readAt_prepared {last : Instant} {clock : LocalClock} {stored : LocalStored V}
    {logical physical : Timestamp} {epoch generation : Nat} (elapsed : Duration)
    (hprepared : stored.deadlines = clock.prepareBoundaries last logical physical)
    (h : clock.origin + elapsed.asNanos ≤ last) :
    stored.readAt epoch generation (clock.origin + elapsed.asNanos) =
      if stored.generation ≠ generation ∨ stored.entry.isReadEligible epoch = false ∨
          physical ≤ clock.sample elapsed then none
      else some (if logical ≤ clock.sample elapsed then .stale else .fresh) := by
  have hboundary : ∀ at_, (clock.monotonicDeadline last at_).expired
      (clock.origin + elapsed.asNanos) = decide (at_ ≤ clock.sample elapsed) := fun at_ => by
    rw [Bool.eq_iff_iff, decide_eq_true_iff]
    exact (monotonicDeadline_expired clock at_ h).trans (deadline_le_iff clock at_ elapsed)
  have hlogical : stored.deadlines.logical = clock.monotonicDeadline last logical := by
    rw [hprepared]
    rfl
  have hphysical : stored.deadlines.physical = clock.monotonicDeadline last physical := by
    rw [hprepared]
    exact prepareBoundaries_physical last clock logical physical
  unfold LocalStored.readAt LocalStored.retirementAt LocalDeadlines.freshness
  rw [hlogical, hphysical, hboundary, hboundary]
  by_cases hgeneration : stored.generation = generation
  · cases heligible : stored.entry.isReadEligible epoch with
    | false => simp [hgeneration]
    | true => by_cases hexpired : physical ≤ clock.sample elapsed <;> simp [hgeneration, hexpired]
  · simp [hgeneration]

/-! ## Bounds of the clock -/

theorem MonotonicDeadline.expired_mono {deadline : MonotonicDeadline} {now later : Instant}
    (h : now ≤ later) (hexpired : deadline.expired now = true) : deadline.expired later = true := by
  cases deadline with
  | ofInstant deadline => exact decide_eq_true ((of_decide_eq_true hexpired).trans h)
  | beyondRange => cases hexpired

/-- Whatever is retired stays retired. -/
theorem LocalStored.retirementAt_mono {epoch generation : Nat} {stored : LocalStored V}
    {now later : Instant} (h : now ≤ later)
    (hnone : stored.retirementAt epoch generation later = none) :
    stored.retirementAt epoch generation now = none := by
  unfold retirementAt at hnone ⊢
  split at hnone
  · cases hnone
  · rename_i hgeneration
    split at hnone
    · cases hnone
    · rename_i heligible
      split at hnone
      · cases hnone
      · rename_i hphysical
        rw [if_neg hgeneration, if_neg heligible, if_neg]
        exact fun hexpired => hphysical (MonotonicDeadline.expired_mono h hexpired)

theorem LocalStored.readAt_eq_some {epoch generation : Nat} {stored : LocalStored V} {now : Instant}
    {freshness : Freshness} (h : stored.readAt epoch generation now = some freshness) :
    stored.retirementAt epoch generation now = none ∧ stored.deadlines.freshness now = freshness := by
  unfold readAt at h
  split at h
  · rename_i hnone
    exact ⟨Option.isNone_iff_eq_none.mp hnone, Option.some.inj h⟩
  · cases h

theorem LocalDeadlines.freshness_eq_fresh {deadlines : LocalDeadlines} {now : Instant} :
    deadlines.freshness now = .fresh ↔ deadlines.logical.expired now = false := by
  unfold freshness
  cases deadlines.logical.expired now <;> simp

/-- A hit that is fresh at a later instant is fresh. -/
theorem LocalStored.readAt_fresh {epoch generation : Nat} {stored : LocalStored V}
    {now later : Instant} (h : now ≤ later)
    (hfresh : stored.readAt epoch generation later = some .fresh) :
    stored.readAt epoch generation now = some .fresh := by
  obtain ⟨hnone, hlogical⟩ := readAt_eq_some hfresh
  have hlogical' : stored.deadlines.logical.expired now = false := by
    have hlater := LocalDeadlines.freshness_eq_fresh.mp hlogical
    cases hexpired : stored.deadlines.logical.expired now with
    | false => rfl
    | true => exact absurd (hlater.symm.trans (MonotonicDeadline.expired_mono h hexpired)) nofun
  unfold readAt
  rw [retirementAt_mono h hnone, LocalDeadlines.freshness_eq_fresh.mpr hlogical']
  rfl

/-- A miss at an earlier instant is a miss. -/
theorem LocalStored.readAt_none {epoch generation : Nat} {stored : LocalStored V}
    {earlier now : Instant} (h : earlier ≤ now)
    (hnone : stored.readAt epoch generation earlier = none) :
    stored.readAt epoch generation now = none := by
  cases hread : stored.readAt epoch generation now with
  | none => rfl
  | some freshness =>
    have hlater := retirementAt_mono h (readAt_eq_some hread).1
    unfold readAt at hnone
    rw [hlater] at hnone
    cases hnone

/-- The bound is no earlier than the precise clock, as long as the coarse clock lags by no more
than the slack. -/
theorem Anchor.le_bound {last bound precise : Instant} {anchor : Anchor} {reading : Option Nat}
    (hanchor : anchor.coarse ≤ anchor.precise)
    (hlag : ∀ coarse, reading = some coarse → precise ≤ coarse + anchor.slack)
    (h : anchor.bound last reading = some bound) : precise ≤ bound := by
  obtain ⟨coarse, hreading, h⟩ := Option.bind_eq_some_iff.mp h
  obtain ⟨since, hsince, h⟩ := Option.bind_eq_some_iff.mp h
  obtain ⟨ahead, hahead, h⟩ := Option.bind_eq_some_iff.mp h
  have hprecise := hlag coarse hreading
  unfold durationCheckedSub at hsince
  unfold durationCheckedAdd at hahead
  split at hsince
  · cases hsince
  · obtain rfl := Option.some.inj hsince
    split at hahead
    · obtain rfl := Option.some.inj hahead
      split at h
      · obtain rfl := Option.some.inj h
        calc precise ≤ coarse + anchor.slack := hprecise
          _ = anchor.coarse + (coarse - anchor.coarse + anchor.slack) := by omega
          _ ≤ anchor.precise + (coarse - anchor.coarse + anchor.slack) :=
            Nat.add_le_add_right hanchor _
      · cases h
    · cases hahead

/-- The first two parts say that a deadline turns, and a hit is decided, with the timestamps they
were made from. The third says that a hit decided by the bound is decided as by the precise clock,
and the last what an instant that is too early could decide. -/
theorem local_reads_agree (last : Instant) (clock : LocalClock) (anchor : Anchor)
    (stored : LocalStored V) (epoch generation : Nat) :
    (∀ at_ elapsed, clock.origin + elapsed.asNanos ≤ last →
      ((clock.monotonicDeadline last at_).expired (clock.origin + elapsed.asNanos) = true ↔
        at_ ≤ clock.sample elapsed)) ∧
    (∀ logical physical elapsed,
      stored.deadlines = clock.prepareBoundaries last logical physical →
      clock.origin + elapsed.asNanos ≤ last →
      stored.readAt epoch generation (clock.origin + elapsed.asNanos) =
        if stored.generation ≠ generation ∨ stored.entry.isReadEligible epoch = false ∨
            physical ≤ clock.sample elapsed then none
        else some (if logical ≤ clock.sample elapsed then .stale else .fresh)) ∧
    (∀ reading precise, anchor.coarse ≤ anchor.precise →
      (∀ coarse, reading = some coarse → precise ≤ coarse + anchor.slack) →
      stored.localRead epoch generation (anchor.bound last reading) precise =
        stored.readAt epoch generation precise) ∧
    (∀ lower precise, lower ≤ precise → stored.readAt epoch generation lower = none →
      stored.readAt epoch generation precise = none) := by
  refine ⟨fun at_ elapsed h => ?_, fun logical physical elapsed hprepared h => ?_,
    fun reading precise hanchor hlag => ?_, fun lower precise h => LocalStored.readAt_none h⟩
  · exact (monotonicDeadline_expired clock at_ h).trans (deadline_le_iff clock at_ elapsed)
  · exact readAt_prepared elapsed hprepared h
  · unfold LocalStored.localRead
    cases hbound : anchor.bound last reading with
    | none => rfl
    | some bound =>
      have hle := Anchor.le_bound hanchor hlag hbound
      rw [Option.map_some]
      split
      · rename_i hfresh
        exact (LocalStored.readAt_fresh hle (Option.some.inj hfresh)).symm
      · rfl
      · rfl

/-- An entry of a clock that began at the epoch, stale from the first tick on. -/
def staleAfterTick : LocalStored Unit where
  entry :=
    { inst := 0
      value := ()
      metadata :=
        { created := .fromTicks 0
          insertedAt := .fromTicks 0
          logicalExpiration := .fromTicks 1
          physicalExpiration := .fromTicks 9
          backendTtl := .fromNanos 900
          origin := .fresh none
          etag := none
          lastModified := none
          tags := []
          retention := .unspecified }
      eligibility := .ofLocal }
  generation := 1
  deadlines := ⟨.ofInstant 100, .ofInstant 900⟩

theorem local_reads_agree_tick :
    (LocalClock.monotonicDeadline 1000 ⟨⟨0, by decide, by decide⟩, 0⟩ ⟨1, by decide, by decide⟩
      ).expired (0 + (⟨0, 100, by decide, by decide⟩ : Duration).asNanos) = true ∧
    staleAfterTick.localRead 0 1 (Anchor.bound 1000 ⟨3, 4, 8⟩ (some 50)) 51 = some .fresh := by
  have hagree := local_reads_agree 1000 ⟨⟨0, by decide, by decide⟩, 0⟩ ⟨3, 4, 8⟩ staleAfterTick 0 1
  refine ⟨(hagree.1 _ _ (by decide)).mpr (by decide), ?_⟩
  rw [hagree.2.2.1 (some 50) 51 (by decide) fun coarse hcoarse => ?_]
  · rfl
  · obtain rfl := Option.some.inj hcoarse
    decide

end Memory

end Amalgam
