import Mathlib.Order.MinMax
import Mathlib.Order.Lattice
import Mathlib.Algebra.Group.Int.Defs
import Mathlib.Algebra.Group.Nat.Defs

/-!
# Amalgam — timestamps and durations

`src/time.rs`: a `Timestamp` is a signed 64-bit count of 100 ns ticks since the Unix epoch
and a `Duration` is Rust's pair of whole seconds and nanoseconds. Both carry the bounds of
their machine representation as fields, so no operation below can leave them.
-/

namespace Amalgam

def i64Min : Int := -2 ^ 63
def i64Max : Int := 2 ^ 63 - 1
def u64Max : Nat := 2 ^ 64 - 1

/-- `Timestamp(i64)`, in 100 ns ticks. -/
@[ext] structure Timestamp where
  ticks : Int
  lower : i64Min ≤ ticks
  upper : ticks ≤ i64Max
deriving DecidableEq

namespace Timestamp

theorem ticks_injective : Function.Injective Timestamp.ticks :=
  fun _ _ h => Timestamp.ext h

instance : LinearOrder Timestamp := LinearOrder.lift' Timestamp.ticks ticks_injective

theorem le_iff_ticks {s t : Timestamp} : s ≤ t ↔ s.ticks ≤ t.ticks := Iff.rfl

/-- `from_ticks` on a literal that fits, clamped to the `i64` range. -/
def fromTicks (n : Int) : Timestamp where
  ticks := max i64Min (min n i64Max)
  lower := le_max_left _ _
  upper := max_le (by decide) (min_le_right _ _)

/-- `Timestamp::MAX`. -/
def MAX : Timestamp := ⟨i64Max, by decide, le_refl _⟩

end Timestamp

/-- `std::time::Duration`. -/
@[ext] structure Duration where
  secs : Nat
  subsecNanos : Nat
  secs_le : secs ≤ u64Max
  nanos_lt : subsecNanos < 1000000000
deriving DecidableEq

/-- `Duration::from_secs`. -/
def Duration.fromSecs (secs : UInt64) : Duration where
  secs := secs.toNat
  subsecNanos := 0
  secs_le := Nat.le_of_lt_succ secs.toNat_lt
  nanos_lt := by decide

/-- `Duration::from_nanos`. -/
def Duration.fromNanos (nanos : UInt64) : Duration where
  secs := nanos.toNat / 1000000000
  subsecNanos := nanos.toNat % 1000000000
  secs_le := Nat.le_of_lt_succ ((Nat.div_le_self _ _).trans_lt nanos.toNat_lt)
  nanos_lt := Nat.mod_lt _ (by decide)

def TICKS_PER_SECOND : Nat := 10000000
def NANOS_PER_TICK : Nat := 100

/-- `duration_ticks_wide`: whole ticks of a duration. -/
def durationTicksWide (d : Duration) : Int :=
  d.secs * TICKS_PER_SECOND + d.subsecNanos / NANOS_PER_TICK

theorem durationTicksWide_nonneg (d : Duration) : 0 ≤ durationTicksWide d := by
  unfold durationTicksWide TICKS_PER_SECOND NANOS_PER_TICK
  omega

namespace Timestamp

/-- `saturating_add`: the sum, or `MAX` when it does not fit. -/
def saturatingAdd (t : Timestamp) (d : Duration) : Timestamp :=
  if h : t.ticks + durationTicksWide d ≤ i64Max then
    ⟨t.ticks + durationTicksWide d,
      le_trans t.lower (Int.le_add_of_nonneg_right (durationTicksWide_nonneg d)), h⟩
  else MAX

/-- `is_before`: strictly before. -/
def isBefore (s t : Timestamp) : Bool := decide (s < t)

end Timestamp

/-- `unsigned_ticks_to_duration`, for a count of ticks that fits `u64`. -/
def unsignedTicksToDuration (ticks : Nat) (h : ticks ≤ u64Max) : Duration where
  secs := ticks / TICKS_PER_SECOND
  subsecNanos := ticks % TICKS_PER_SECOND * NANOS_PER_TICK
  secs_le := le_trans (Nat.div_le_self _ _) h
  nanos_lt := by
    have hlt : ticks % TICKS_PER_SECOND < TICKS_PER_SECOND := Nat.mod_lt _ (by decide)
    unfold TICKS_PER_SECOND NANOS_PER_TICK at *
    omega

/-- The whole of a duration in nanoseconds. -/
def Duration.asNanos (d : Duration) : Nat := d.secs * 1000000000 + d.subsecNanos

namespace Timestamp

theorem ticks_sub_le (s t : Timestamp) : (s.ticks - t.ticks).toNat ≤ u64Max := by
  have hs := s.upper
  have ht := t.lower
  unfold i64Max i64Min u64Max at *
  omega

/-- `saturating_duration_since`: zero when `s` is not after `earlier`. -/
def saturatingDurationSince (s earlier : Timestamp) : Duration :=
  unsignedTicksToDuration (s.ticks - earlier.ticks).toNat (ticks_sub_le s earlier)

end Timestamp

end Amalgam
