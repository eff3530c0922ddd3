import Amalgam.Time

/-!
# Amalgam — the arithmetic of timestamps

`src/time.rs`: ticks in 64 bits, seconds in 64 unsigned bits and nanoseconds in 128 meet in the
conversions below. Whatever does not fit is cut at the nearest end of the range.

* **`timestamp_arithmetic`** — sums and differences are the exact ones, cut at the ends of the range,
  and the conversion of the system time rounds down on both sides of the epoch.
-/

namespace Amalgam

/-- The nearest number that fits `i64`. -/
def clampI64 (n : Int) : Int := max i64Min (min n i64Max)

theorem clampI64_mono {m n : Int} (h : m ≤ n) : clampI64 m ≤ clampI64 n :=
  max_le_max_left _ (min_le_min_right _ h)

theorem clampI64_of_le {n : Int} (hlower : i64Min ≤ n) (hupper : n ≤ i64Max) : clampI64 n = n := by
  unfold clampI64
  rw [min_eq_left hupper, max_eq_right hlower]

theorem clampI64_of_lower {n : Int} (hlower : i64Min ≤ n) : clampI64 n = min n i64Max :=
  max_eq_right (le_min hlower (by decide))

theorem clampI64_of_upper {n : Int} (hupper : n ≤ i64Max) : clampI64 n = max i64Min n := by
  unfold clampI64
  rw [min_eq_left hupper]

theorem clampI64_idem (n : Int) : clampI64 (clampI64 n) = clampI64 n :=
  clampI64_of_le (le_max_left _ _) (max_le (by decide) (min_le_right _ _))

theorem Timestamp.ticks_fromTicks (n : Int) : (fromTicks n).ticks = clampI64 n := rfl

/-- `i64::try_from` -/
def tryI64 (n : Int) : Option Int := if i64Min ≤ n ∧ n ≤ i64Max then some n else none

theorem tryI64_getD_max {n : Int} (h : i64Min ≤ n) : (tryI64 n).getD i64Max = min n i64Max := by
  unfold tryI64
  by_cases hupper : n ≤ i64Max
  · rw [if_pos ⟨h, hupper⟩, min_eq_left hupper]
    rfl
  · rw [if_neg fun hfits => hupper hfits.2, min_eq_right (by omega)]
    rfl

theorem tryI64_getD_min {n : Int} (h : n ≤ i64Max) : (tryI64 n).getD i64Min = max i64Min n := by
  unfold tryI64
  by_cases hlower : i64Min ≤ n
  · rw [if_pos ⟨hlower, h⟩, max_eq_right hlower]
    rfl
  · rw [if_neg fun hfits => hlower hfits.1, max_eq_left (by omega)]
    rfl

/-- `duration_to_ticks` -/
def durationToTicks (d : Duration) : Int := (tryI64 (durationTicksWide d)).getD i64Max

/-- A duration of so many nanoseconds, as long as its seconds fit. -/
def Duration.ofNanos (nanos : Nat) (h : nanos / 1000000000 ≤ u64Max) : Duration where
  secs := nanos / 1000000000
  subsecNanos := nanos % 1000000000
  secs_le := h
  nanos_lt := Nat.mod_lt _ (by decide)

theorem Duration.asNanos_ofNanos (nanos : Nat) (h : nanos / 1000000000 ≤ u64Max) :
    (ofNanos nanos h).asNanos = nanos := by
  unfold asNanos ofNanos
  dsimp only
  omega

/-- `SystemTime`: signed 64-bit seconds and nanoseconds, as nanoseconds since the epoch. -/
structure SystemTime where
  nanos : Int
  lower : -2 ^ 63 * 1000000000 ≤ nanos
  upper : nanos < 2 ^ 63 * 1000000000

/-- `duration_since(UNIX_EPOCH)`; the error is how long before the epoch it is. -/
def SystemTime.sinceEpoch (at_ : SystemTime) : Except Duration Duration :=
  if 0 ≤ at_.nanos then
    .ok (.ofNanos at_.nanos.toNat (by have := at_.upper; unfold u64Max; omega))
  else .error (.ofNanos (-at_.nanos).toNat (by have := at_.lower; unfold u64Max; omega))

/-- `timestamp_from_system_time` -/
def timestampFromSystemTime (at_ : SystemTime) : Timestamp :=
  match at_.sinceEpoch with
  | .ok elapsed => .fromTicks (durationToTicks elapsed)
  | .error before =>
    let ticks : Nat := (before.asNanos + (NANOS_PER_TICK - 1)) / NANOS_PER_TICK
    .fromTicks ((tryI64 (-ticks)).getD i64Min)

/-! ## The conversions -/

theorem durationTicksWide_eq (d : Duration) : durationTicksWide d = (d.asNanos / 100 : Nat) := by
  have hlt := d.nanos_lt
  unfold durationTicksWide Duration.asNanos TICKS_PER_SECOND NANOS_PER_TICK
  omega

/-- The sum of a timestamp and a duration fits 128 bits. -/
theorem durationTicksWide_lt (d : Duration) : durationTicksWide d < 2 ^ 88 := by
  have hlt := d.nanos_lt
  have hle := d.secs_le
  unfold u64Max at hle
  unfold durationTicksWide TICKS_PER_SECOND NANOS_PER_TICK
  omega

theorem unsignedTicksToDuration_asNanos {ticks : Nat} (h : ticks ≤ u64Max) :
    (unsignedTicksToDuration ticks h).asNanos = 100 * ticks := by
  unfold unsignedTicksToDuration Duration.asNanos TICKS_PER_SECOND NANOS_PER_TICK
  dsimp only
  omega

namespace Timestamp

theorem saturatingAdd_ticks (t : Timestamp) (d : Duration) :
    (t.saturatingAdd d).ticks = clampI64 (t.ticks + durationTicksWide d) := by
  have hlower : i64Min ≤ t.ticks + durationTicksWide d :=
    t.lower.trans (Int.le_add_of_nonneg_right (durationTicksWide_nonneg d))
  rw [clampI64_of_lower hlower]
  unfold saturatingAdd
  split
  · rename_i hfits
    exact (min_eq_left hfits).symm
  · rename_i hover
    exact (min_eq_right (not_le.mp hover).le).symm

theorem saturatingDurationSince_asNanos (s t : Timestamp) :
    (s.saturatingDurationSince t).asNanos = 100 * (s.ticks - t.ticks).toNat :=
  unsignedTicksToDuration_asNanos _

theorem saturatingAdd_mono {s t : Timestamp} {d e : Duration} (hst : s ≤ t)
    (hde : d.asNanos ≤ e.asNanos) : s.saturatingAdd d ≤ t.saturatingAdd e := by
  rw [le_iff_ticks] at hst
  rw [le_iff_ticks, saturatingAdd_ticks, saturatingAdd_ticks, durationTicksWide_eq,
    durationTicksWide_eq]
  apply clampI64_mono
  omega

theorem saturatingDurationSince_mono {s t s' t' : Timestamp} (hs : s ≤ s') (ht : t' ≤ t) :
    (s.saturatingDurationSince t).asNanos ≤ (s'.saturatingDurationSince t').asNanos := by
  rw [le_iff_ticks] at hs ht
  rw [saturatingDurationSince_asNanos, saturatingDurationSince_asNanos]
  omega

/-- What was added and did not saturate is there again, in whole ticks. -/
theorem saturatingDurationSince_saturatingAdd {t : Timestamp} {d : Duration}
    (h : t.ticks + durationTicksWide d ≤ i64Max) :
    ((t.saturatingAdd d).saturatingDurationSince t).asNanos = d.asNanos / 100 * 100 := by
  have hnonneg := durationTicksWide_nonneg d
  have hlower := t.lower
  rw [saturatingDurationSince_asNanos, saturatingAdd_ticks, clampI64_of_le (by omega) h]
  rw [durationTicksWide_eq]
  omega

end Timestamp

/-- Rounding up how long it is before the epoch rounds the timestamp down. -/
theorem timestampFromSystemTime_ticks (at_ : SystemTime) :
    (timestampFromSystemTime at_).ticks = clampI64 (at_.nanos / 100) := by
  have hmax : (0 : Int) ≤ i64Max := by decide
  have hmin : i64Min ≤ (0 : Int) := by decide
  have htick : NANOS_PER_TICK = 100 := rfl
  unfold timestampFromSystemTime SystemTime.sinceEpoch
  by_cases hafter : 0 ≤ at_.nanos
  · have hfloor : ((at_.nanos.toNat / 100 : Nat) : Int) = at_.nanos / 100 := by omega
    rw [if_pos hafter]
    dsimp only
    rw [Timestamp.ticks_fromTicks, durationToTicks, durationTicksWide_eq, Duration.asNanos_ofNanos,
      hfloor, tryI64_getD_max (by omega), ← clampI64_of_lower (by omega), clampI64_idem]
  · have hceil : -(((-at_.nanos).toNat + (100 - 1)) / 100 : Nat) = at_.nanos / 100 := by omega
    rw [if_neg hafter]
    dsimp only
    rw [Timestamp.ticks_fromTicks, Duration.asNanos_ofNanos, htick, hceil,
      tryI64_getD_min (by omega), ← clampI64_of_upper (by omega), clampI64_idem]

/-- The exact results, cut at the ends of the range; the sums are taken in 128 bits. -/
theorem timestamp_arithmetic (s t s' t' : Timestamp) (d d' : Duration) (at_ : SystemTime) :
    (t.saturatingAdd d).ticks = clampI64 (t.ticks + (d.asNanos / 100 : Nat)) ∧
    ((s.saturatingDurationSince t).asNanos : Int) = 100 * max 0 (s.ticks - t.ticks) ∧
    (t ≤ t' → d.asNanos ≤ d'.asNanos → t.saturatingAdd d ≤ t'.saturatingAdd d') ∧
    (s ≤ s' → t' ≤ t →
      (s.saturatingDurationSince t).asNanos ≤ (s'.saturatingDurationSince t').asNanos) ∧
    (t.ticks + (d.asNanos / 100 : Nat) ≤ i64Max →
      ((t.saturatingAdd d).saturatingDurationSince t).asNanos = d.asNanos / 100 * 100) ∧
    durationTicksWide d = (d.asNanos / 100 : Nat) ∧ t.ticks + durationTicksWide d < 2 ^ 127 ∧
    (timestampFromSystemTime at_).ticks = clampI64 (at_.nanos / 100) := by
  have hwide := durationTicksWide_eq d
  refine ⟨?_, ?_, Timestamp.saturatingAdd_mono, Timestamp.saturatingDurationSince_mono,
    fun hfits => ?_, hwide, ?_, timestampFromSystemTime_ticks at_⟩
  · rw [← hwide]
    exact t.saturatingAdd_ticks d
  · rw [Timestamp.saturatingDurationSince_asNanos]
    omega
  · rw [← hwide] at hfits
    exact Timestamp.saturatingDurationSince_saturatingAdd hfits
  · have hupper := t.upper
    have hlt := durationTicksWide_lt d
    unfold i64Max at hupper
    omega

end Amalgam
