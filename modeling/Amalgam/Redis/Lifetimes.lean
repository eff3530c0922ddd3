import Amalgam.Redis.Leases

/-!
# Amalgam — lifetimes sent to Redis

`duration_to_millis` of `src/redis_backend.rs` and `LeaseTtl::millis` of `src/distributed_lock.rs`:
a lifetime is sent in whole milliseconds, and Redis adds it to its own time, in signed 64 bits.

* **`redis_lifetimes_iff`** — what is sent is positive, not too short unless it was cut, and longer
  for longer lifetimes; it leaves room for the time of the server except for leases of about 146
  million years and more.
-/

namespace Amalgam

open RedisServer

theorem divCeil_cover (n : Nat) {d : Nat} (hd : 0 < d) :
    n ≤ divCeil n d * d ∧ divCeil n d * d < n + d := by
  have hmod := Nat.mod_lt n hd
  have hdiv := Nat.div_add_mod n d
  have hcomm := Nat.mul_comm d (n / d)
  unfold divCeil
  split
  · omega
  · rw [Nat.add_mul, Nat.one_mul]
    omega

theorem divCeil_millis_mono {m n : Nat} (h : m ≤ n) : divCeil m 1000000 ≤ divCeil n 1000000 := by
  have hm := divCeil_cover m (d := 1000000) (by decide)
  have hn := divCeil_cover n (d := 1000000) (by decide)
  omega

/-- What is promised of the milliseconds that a lifetime is sent as, cut at `cap`. -/
structure WellSent (requested : Duration) (millis cap : Nat) : Prop where
  positive : 1 ≤ millis
  covers : requested.asNanos ≤ millis * 1000000 ∨ millis = cap
  fits : ∀ clock ≤ 2 ^ 62, (clock + millis : Nat) ≤ i64Max

theorem durationToMillis_wellSent (duration : Duration) :
    WellSent duration (durationToMillis duration) (2 ^ 62 - 1) := by
  have hcap : i64Max.toNat / 2 = 2 ^ 62 - 1 := by decide
  have hmax : i64Max = 2 ^ 63 - 1 := rfl
  have hceil := divCeil_cover duration.asNanos (d := 1000000) (by decide)
  refine ⟨durationToMillis_pos duration, ?_, fun clock hclock => ?_⟩
  · rw [durationToMillis, hcap]
    omega
  · rw [durationToMillis, hcap, hmax]
    omega

theorem durationToMillis_mono {d d' : Duration} (h : d.asNanos ≤ d'.asNanos) :
    durationToMillis d ≤ durationToMillis d' :=
  min_le_min_right _ (max_le_max_right _ (divCeil_millis_mono h))

namespace LeaseTtl

theorem millis_mono {ttl ttl' : LeaseTtl} (h : ttl.duration.asNanos ≤ ttl'.duration.asNanos) :
    ttl.millis ≤ ttl'.millis :=
  min_le_min_right _ (divCeil_millis_mono h)

/-- The bound of a lease leaves no room for the time of the server. -/
theorem millis_wellSent_iff (ttl : LeaseTtl) :
    WellSent ttl.duration ttl.millis i64Max.toNat ↔
      ttl.duration.asNanos ≤ (2 ^ 62 - 1) * 1000000 := by
  have hcap : i64Max.toNat = 2 ^ 63 - 1 := by decide
  have hmax : i64Max = 2 ^ 63 - 1 := rfl
  have hpositive := ttl.positive
  have hceil := divCeil_cover ttl.duration.asNanos (d := 1000000) (by decide)
  constructor
  · intro h
    have hfits := h.fits (2 ^ 62) (Nat.le_refl _)
    rw [millis, hcap, hmax] at hfits
    omega
  · intro h
    refine ⟨?_, ?_, fun clock hclock => ?_⟩
    · rw [millis, hcap]
      omega
    · rw [millis, hcap]
      omega
    · rw [millis, hcap, hmax]
      omega

end LeaseTtl

/-- Every lifetime of a value is sent as promised, and a lease is exactly when it is no longer than
`2 ^ 62 - 1` milliseconds. -/
theorem redis_lifetimes_iff (d d' : Duration) (ttl ttl' : LeaseTtl) :
    WellSent d (durationToMillis d) (2 ^ 62 - 1) ∧
    (d.asNanos ≤ d'.asNanos → durationToMillis d ≤ durationToMillis d') ∧
    (ttl.duration.asNanos ≤ ttl'.duration.asNanos → ttl.millis ≤ ttl'.millis) ∧
    (WellSent ttl.duration ttl.millis i64Max.toNat ↔
      ttl.duration.asNanos ≤ (2 ^ 62 - 1) * 1000000) :=
  ⟨durationToMillis_wellSent d, durationToMillis_mono, LeaseTtl.millis_mono,
    ttl.millis_wellSent_iff⟩

/-- The longest lease that is accepted, at the first millisecond of the server's time. -/
theorem longest_lease_refused :
    ∃ ttl, LeaseTtl.new ⟨9223372036854775, 807000000, by decide, by decide⟩ = .ok ttl ∧
      ¬ ((1 + ttl.millis : Nat) : Int) ≤ i64Max ∧ Redis.Keyspace.expireTime 1 ttl.millis = none :=
  ⟨_, rfl, by decide, by decide⟩

end Amalgam
