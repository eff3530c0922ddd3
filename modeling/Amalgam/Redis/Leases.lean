import Amalgam.Leases.Authority
import Amalgam.Redis.Journal

/-!
# Amalgam — leases in Redis, and what every authority guarantees

`src/redis_backend.rs`: a lease is a string under a private key that Redis itself expires. Acquiring
is one `SET NX PX`; renewing, releasing and the fenced write are scripts that first compare the
string with the caller's token. Time stands still while a script runs.

* **`redis_implements`** — the server is a register of leases, as the authority in memory is.
* **`leases_exclusive_and_fenced`** — on both, one token at a time holds a key, a write goes through
  exactly while its token holds, strangers change nothing, and a lease that is over stays over.
-/

namespace Amalgam

open Keys Text Redis

/-! ## Names -/

namespace RedisDistributedLocker

/-- `lease_key`. -/
def leaseKey (key : String) : String :=
  RedisInvalidationStore.PRIVATE_AREA ++ ("lease/" ++ Wire.encodeHex (utf8 key))

end RedisDistributedLocker

namespace RedisDistributedCache

/-- `value_key`: no caller names a private key. -/
def valueKey (key : String) : String :=
  if (stripLead RedisInvalidationStore.PRIVATE_AREA key).isSome then
    RedisInvalidationStore.PRIVATE_AREA ++ ("data/" ++ Wire.encodeHex (utf8 key))
  else key

end RedisDistributedCache

open RedisInvalidationStore RedisDistributedLocker RedisDistributedCache

theorem leaseKey_injective : Function.Injective leaseKey := by
  intro key key' h
  have hhex := (String.append_right_inj _).mp ((String.append_right_inj _).mp h)
  exact utf8_injective (encodeHex_injective hhex)

theorem isSome_stripLead_private (name : String) :
    (stripLead PRIVATE_AREA (PRIVATE_AREA ++ name)).isSome = true := by
  rw [(stripLead_eq_some_iff (t := name)).mpr rfl]
  rfl

theorem valueKey_injective : Function.Injective valueKey := by
  intro key key' h
  unfold valueKey at h
  split at h
  · split at h
    · have hhex := (String.append_right_inj _).mp ((String.append_right_inj _).mp h)
      exact utf8_injective (encodeHex_injective hhex)
    · rename_i hplain
      rw [← h] at hplain
      exact absurd (isSome_stripLead_private _) hplain
  · rename_i hplain
    split at h
    · rw [h] at hplain
      exact absurd (isSome_stripLead_private _) hplain
    · exact h

/-- No write to a value touches a lease. -/
theorem leaseKey_ne_valueKey (key target : String) : leaseKey key ≠ valueKey target := by
  intro h
  unfold valueKey at h
  split at h
  · have hnames := congrArg (fun name : String => name.toList.take 1)
      ((String.append_right_inj _).mp h)
    rw [String.toList_append, String.toList_append, List.take_append_of_le_length (by decide),
      List.take_append_of_le_length (by decide)] at hnames
    exact absurd hnames (by decide)
  · rename_i hplain
    rw [← h] at hplain
    exact hplain (isSome_stripLead_private _)

/-! ## The scripts -/

/-- `RELEASE_LOCK_SCRIPT`. -/
def releaseLockScript (clock : Nat) (db : Keyspace) (lease : String) (token : Bytes) :
    Option (Nat × Keyspace) :=
  (db.get clock lease).map fun held => if held = some token then (1, db.del lease) else (0, db)

/-- `RENEW_LOCK_SCRIPT`. -/
def renewLockScript (clock : Nat) (db : Keyspace) (lease : String) (token : Bytes) (ttl : Nat) :
    Option (Nat × Keyspace) :=
  (db.get clock lease).bind fun held =>
    if held = some token then (db.pexpire clock lease ttl).map fun (set, db) => (set.toNat, db)
    else some (0, db)

/-- `FENCED_WRITE_SCRIPT`. -/
def fencedWriteScript (clock : Nat) (db : Keyspace) (lease value : String)
    (token action bytes ttl : Bytes) : Option (Nat × Keyspace) :=
  (db.get clock lease).bind fun held =>
    if held ≠ some token then some (0, db)
    else if action = utf8 "remove" then some (1, db.del value)
    else if ttl = utf8 "0" then some (1, db.del value)
    else if ttl = [] then some (1, db.set clock value bytes none)
    else (tonumber ttl).map fun px => (1, db.set clock value bytes (some px))

/-- A script that does not answer 1 has done nothing. -/
theorem fencedWriteScript_reply {clock : Nat} {db db' : Keyspace} {lease value : String}
    {token action bytes ttl : Bytes} {reply : Nat}
    (h : fencedWriteScript clock db lease value token action bytes ttl = some (reply, db')) :
    reply = 1 ∨ db' = db := by
  obtain ⟨held, -, h⟩ := Option.bind_eq_some_iff.mp h
  split at h
  · cases h
    exact .inr rfl
  split at h
  · cases h
    exact .inl rfl
  split at h
  · cases h
    exact .inl rfl
  split at h
  · cases h
    exact .inl rfl
  · obtain ⟨px, -, hset⟩ := Option.map_eq_some_iff.mp h
    cases hset
    exact .inl rfl

structure RedisServer where
  clock : Nat
  db : Keyspace

namespace RedisServer

open Lease

/-- `try_acquire`; `none` is a failed command, here and below. -/
def tryAcquire (s : RedisServer) (key : String) (token : LeaseToken) (ttl : LeaseTtl) :
    Option (Bool × Keyspace) :=
  s.db.setNx s.clock (leaseKey key) (utf8 token.asStr) ttl.millis

def renew (s : RedisServer) (key : String) (token : LeaseToken) (ttl : LeaseTtl) :
    Option (Nat × Keyspace) :=
  renewLockScript s.clock s.db (leaseKey key) (utf8 token.asStr) ttl.millis

def release (s : RedisServer) (key token : String) : Option (Nat × Keyspace) :=
  releaseLockScript s.clock s.db (leaseKey key) (utf8 token)

/-- A positive lifetime, far from overflow. -/
def durationToMillis (duration : Duration) : Nat :=
  min (max (divCeil duration.asNanos 1000000) 1) (i64Max.toNat / 2)

/-- The lifetime that the script is given: none, zero, or milliseconds. -/
def ttlArgument : Option Duration → Bytes
  | none => []
  | some duration =>
    if duration.asNanos = 0 then utf8 "0" else decimal (durationToMillis duration)

def writeWithLease (s : RedisServer) (key : String) (mutation : LeasedMutation)
    (proof : LeaseProof) : Option (Nat × Keyspace) :=
  let (action, bytes, ttl) := match mutation with
    | .set bytes ttl => (utf8 "set", bytes, ttlArgument ttl)
    | .remove => (utf8 "remove", [], [])
  fencedWriteScript s.clock s.db (leaseKey proof.key) (valueKey key) (utf8 proof.token.asStr) action
    bytes ttl

/-- The outcome of a command, and what it leaves. -/
def finish {α : Type} (s : RedisServer) (answer : α → Outcome) :
    Option (α × Keyspace) → Outcome × RedisServer
  | none => (.failed, s)
  | some (reply, db) => (answer reply, { s with db })

def next (s : RedisServer) : LeaseCommand Nat → Option (Outcome × RedisServer)
  | .wait now => if s.clock ≤ now then some (.done, { s with clock := now }) else none
  | .forget => some (.done, { s with db := fun key => s.db.visible s.clock key })
  | .acquire key token ttl =>
    some (s.finish (fun set => if set then .acquired else .refused) (s.tryAcquire key token ttl))
  | .renew key token ttl =>
    some (s.finish (fun reply => if reply = 1 then .renewed else .lost) (s.renew key token ttl))
  | .release key token => some (s.finish (fun _ => .done) (s.release key token))
  | .write proof key mutation stored =>
    if stored = s.clock then
      some (s.finish (fun reply => if reply = 1 then .committed else .leaseLost)
        (s.writeWithLease key mutation proof))
    else none

/-! ## As a register -/

def live (now deadline : Nat) : Bool := now ≤ deadline

/-- The lease that a visible string is. -/
def leaseOf : Slot → Option (String × Nat)
  | ⟨.string bytes, some deadline⟩ => (fromUtf8 bytes).map (·, deadline)
  | _ => none

def view (s : RedisServer) : Register String String Nat Value where
  clock := s.clock
  holder key := (s.db.visible s.clock (leaseKey key)).bind leaseOf
  value key := (s.db.visible s.clock (valueKey key)).map fun slot => (slot.value, slot.expires)

/-- Every lease is a token with a deadline. -/
def LeasesAreTokens (s : RedisServer) : Prop :=
  ∀ key slot, s.db (leaseKey key) = some slot →
    ∃ token deadline, slot = ⟨.string (utf8 token), some deadline⟩

example : LeasesAreTokens ⟨0, fun _ => none⟩ := fun _ _ h => nomatch h

/-- What a mutation leaves under its key. -/
def written (mutation : LeasedMutation) (clock : Nat) : Option (Value × Option Nat) :=
  match mutation with
  | .set bytes none => some (.string bytes, none)
  | .set bytes (some ttl) =>
    if ttl.asNanos = 0 then none else some (.string bytes, some (clock + durationToMillis ttl))
  | .remove => none

/-- A lifetime that overflows fails the command, before it reads the key or, in the script, after. -/
def op (s : RedisServer) : LeaseCommand Nat → Op String String Nat Value
  | .wait now => .wait now
  | .forget => .wait s.clock
  | .acquire key token ttl =>
    (Keyspace.expireTime s.clock ttl.millis).elim .fail fun deadline =>
      .acquire key token.asStr deadline
  | .renew key token ttl =>
    (Keyspace.expireTime s.clock ttl.millis).elim
      (if s.view.Holds key token.asStr then .fail else .renew key token.asStr s.clock)
      fun deadline => .renew key token.asStr deadline
  | .release key token => .release key token
  | .write proof key mutation _ =>
    .write proof.key proof.token.asStr key (written mutation s.clock)

section Views

variable {s : RedisServer} {key : String} {token : String} {deadline : Nat}

theorem holder_view (s : RedisServer) (key : String) :
    s.view.holder key = (s.db.visible s.clock (leaseKey key)).bind leaseOf := rfl

theorem visible_lease (hs : s.LeasesAreTokens) (key : String) :
    (s.view.holder key = none ∧ s.db.visible s.clock (leaseKey key) = none) ∨
      ∃ token deadline, s.view.holder key = some (token, deadline) ∧
        s.db.visible s.clock (leaseKey key) = some ⟨.string (utf8 token), some deadline⟩ := by
  cases hslot : s.db.visible s.clock (leaseKey key) with
  | none => exact .inl ⟨by rw [holder_view, hslot]; rfl, rfl⟩
  | some slot =>
    obtain ⟨hfound, -⟩ := Option.filter_eq_some_iff.mp hslot
    obtain ⟨token, deadline, rfl⟩ := hs key slot hfound
    refine .inr ⟨token, deadline, ?_, rfl⟩
    rw [holder_view, hslot, Option.bind_some, leaseOf, fromUtf8_utf8, Option.map_some]

theorem get_lease (hs : s.LeasesAreTokens) (key : String) :
    s.db.get s.clock (leaseKey key)
      = some ((s.view.holder key).map fun lease => utf8 lease.1) := by
  rw [Keyspace.get]
  rcases visible_lease hs key with ⟨hholder, hslot⟩ | ⟨token, deadline, hholder, hslot⟩
  · rw [hholder, hslot]
    rfl
  · rw [hholder, hslot]
    rfl

/-- What the scripts compare. -/
theorem holds_iff (s : RedisServer) (key token : String) :
    (s.view.holder key).map (fun lease => utf8 lease.1) = some (utf8 token)
      ↔ s.view.Holds key token := by
  have hcompare : (s.view.holder key).map (fun lease => utf8 lease.1)
      = ((s.view.holder key).map Prod.fst).map utf8 := by
    rw [Option.map_map]
    rfl
  rw [hcompare, Register.Holds]
  constructor
  · intro h
    obtain ⟨owner, howner, hbytes⟩ := Option.map_eq_some_iff.mp h
    rw [howner, utf8_injective hbytes]
  · intro h
    rw [h]
    rfl

/-- A string that is set under a lease's key is the lease that the register grants. -/
theorem view_update_lease (s : RedisServer) (key token : String) (deadline : Nat) :
    view { s with
        db := Function.update s.db (leaseKey key) (some ⟨.string (utf8 token), some deadline⟩) }
      = s.view.grant live key token deadline := by
  refine Register.ext rfl (funext fun other => ?_) (funext fun other => ?_)
  · show Option.bind (Keyspace.visible (Function.update s.db (leaseKey key) _) s.clock
        (leaseKey other)) leaseOf = Function.update s.view.holder key _ other
    by_cases hother : other = key
    · subst hother
      rw [Function.update_self, Keyspace.visible, Function.update_self, Option.filter_some,
        Option.filter_some]
      show Option.bind (if live s.clock deadline then _ else _) leaseOf
        = if live s.clock deadline then some (token, deadline) else none
      split
      · rw [Option.bind_some, leaseOf, fromUtf8_utf8, Option.map_some]
      · rfl
    · rw [Function.update_of_ne hother,
        Keyspace.visible_of_ne fun h => hother (leaseKey_injective h)]
      rfl
  · show Option.map _ (Keyspace.visible (Function.update s.db (leaseKey key) _) s.clock
        (valueKey other)) = s.view.value other
    rw [Keyspace.visible_of_ne (leaseKey_ne_valueKey key other).symm]
    rfl

theorem view_del_lease (s : RedisServer) (key : String) :
    view { s with db := s.db.del (leaseKey key) }
      = { s.view with holder := Function.update s.view.holder key none } := by
  refine Register.ext rfl (funext fun other => ?_) (funext fun other => ?_)
  · show Option.bind (Keyspace.visible (Function.update s.db (leaseKey key) none) s.clock
        (leaseKey other)) leaseOf = Function.update s.view.holder key none other
    by_cases hother : other = key
    · subst hother
      rw [Function.update_self, Keyspace.visible, Function.update_self]
      rfl
    · rw [Function.update_of_ne hother,
        Keyspace.visible_of_ne fun h => hother (leaseKey_injective h)]
      rfl
  · show Option.map _ (Keyspace.visible (Function.update s.db (leaseKey key) none) s.clock
        (valueKey other)) = s.view.value other
    rw [Keyspace.visible_of_ne (leaseKey_ne_valueKey key other).symm]
    rfl

/-- What a write leaves under the key of a value. -/
theorem view_update_value (s : RedisServer) (target : String) (slot : Option Slot) :
    view { s with db := Function.update s.db (valueKey target) slot }
      = { s.view with
          value := Function.update s.view.value target
            (Register.fresh live s.clock (slot.map fun slot => (slot.value, slot.expires))) } := by
  refine Register.ext rfl (funext fun other => ?_) (funext fun other => ?_)
  · show Option.bind (Keyspace.visible (Function.update s.db (valueKey target) slot) s.clock
        (leaseKey other)) leaseOf = s.view.holder other
    rw [Keyspace.visible_of_ne (leaseKey_ne_valueKey other target)]
    rfl
  · show Option.map _ (Keyspace.visible (Function.update s.db (valueKey target) slot) s.clock
        (valueKey other)) = Function.update s.view.value target _ other
    by_cases hother : other = target
    · subst hother
      rw [Function.update_self, Keyspace.visible, Function.update_self]
      cases slot with
      | none => rfl
      | some slot =>
        rw [Option.map_some, Register.fresh, Option.filter_some, Option.filter_some]
        show Option.map _ (if slot.expires.all (live s.clock) then _ else _)
          = if slot.expires.all (live s.clock) then _ else _
        split
        · rfl
        · rfl
    · rw [Function.update_of_ne hother,
        Keyspace.visible_of_ne fun h => hother (valueKey_injective h)]
      rfl

theorem LeasesAreTokens.update (hs : s.LeasesAreTokens) (key token : String) (deadline : Nat) :
    LeasesAreTokens { s with
      db := Function.update s.db (leaseKey key) (some ⟨.string (utf8 token), some deadline⟩) } := by
  intro other slot hslot
  by_cases hother : leaseKey other = leaseKey key
  · dsimp only at hslot
    rw [hother, Function.update_self] at hslot
    exact ⟨token, deadline, (Option.some.inj hslot).symm⟩
  · dsimp only at hslot
    rw [Function.update_of_ne hother] at hslot
    exact hs other slot hslot

theorem LeasesAreTokens.del (hs : s.LeasesAreTokens) (key : String) :
    LeasesAreTokens { s with db := s.db.del (leaseKey key) } := by
  intro other slot hslot
  by_cases hother : leaseKey other = leaseKey key
  · dsimp only [Keyspace.del] at hslot
    rw [hother, Function.update_self] at hslot
    cases hslot
  · dsimp only [Keyspace.del] at hslot
    rw [Function.update_of_ne hother] at hslot
    exact hs other slot hslot

theorem LeasesAreTokens.update_value (hs : s.LeasesAreTokens) (target : String)
    (stored : Option Slot) :
    LeasesAreTokens { s with db := Function.update s.db (valueKey target) stored } := by
  intro other slot hslot
  dsimp only at hslot
  rw [Function.update_of_ne (leaseKey_ne_valueKey other target)] at hslot
  exact hs other slot hslot

/-! ## Commands on the register -/

/-- Visibility is what the register calls live. -/
theorem visible_wait {clock now : Nat} (h : clock ≤ now) (db : Keyspace) (name : String) :
    (db.visible clock name).filter (fun slot => slot.expires.all (live now))
      = db.visible now name := by
  unfold Keyspace.visible
  cases db name with
  | none => rfl
  | some slot =>
    rw [Option.filter_some]
    split
    · rfl
    · rename_i hover
      rw [Option.filter_some, if_neg]
      · rfl
      · intro hlive
        apply hover
        cases hexpires : slot.expires with
        | none => rfl
        | some deadline =>
          rw [hexpires] at hlive
          have hle : now ≤ deadline := of_decide_eq_true hlive
          exact decide_eq_true (le_trans h hle)

theorem leaseOf_filter (now : Nat) (found : Option Slot) :
    (found.bind leaseOf).filter (fun lease => live now lease.2)
      = (found.filter fun slot => slot.expires.all (live now)).bind leaseOf := by
  cases found with
  | none => rfl
  | some slot =>
    obtain ⟨value, expires⟩ := slot
    rw [Option.filter_some, Option.bind_some]
    cases value with
    | string bytes =>
      cases expires with
      | none => rfl
      | some deadline =>
        show Option.filter _ ((fromUtf8 bytes).map (·, deadline))
          = Option.bind (if live now deadline then _ else _) _
        cases hlive : live now deadline with
        | true =>
          rw [if_pos rfl, Option.bind_some, leaseOf]
          cases fromUtf8 bytes with
          | none => rfl
          | some token => rw [Option.map_some, Option.filter_some, hlive, if_pos rfl]
        | false =>
          rw [if_neg Bool.false_ne_true, Option.bind_none]
          cases fromUtf8 bytes with
          | none => rfl
          | some token => rw [Option.map_some, Option.filter_some, hlive, if_neg Bool.false_ne_true]
    | hash fields => split <;> rfl
    | set members => split <;> rfl

theorem view_wait (s : RedisServer) {now : Nat} (h : s.clock ≤ now) :
    s.view.perform live (.wait now) = (.done, view { s with clock := now }) := by
  refine congrArg (Prod.mk Outcome.done) (Register.ext rfl (funext fun key => ?_)
    (funext fun key => ?_))
  · show Option.filter _ (s.view.holder key) = Option.bind (s.db.visible now (leaseKey key)) leaseOf
    rw [holder_view, leaseOf_filter, visible_wait h]
  · show Option.filter _ (Option.map _ (s.db.visible s.clock (valueKey key)))
      = Option.map _ (s.db.visible now (valueKey key))
    rw [← visible_wait h, Option.filter_map]
    rfl

theorem visible_forget (s : RedisServer) (name : String) :
    Keyspace.visible (fun key => s.db.visible s.clock key) s.clock name
      = s.db.visible s.clock name := by
  rw [← visible_wait (le_refl s.clock) s.db name]
  rfl

theorem view_forget (s : RedisServer) :
    s.view.perform live (.wait s.clock)
      = (.done, view { s with db := fun key => s.db.visible s.clock key }) := by
  rw [view_wait s (le_refl s.clock)]
  refine congrArg (Prod.mk Outcome.done) (Register.ext rfl (funext fun key => ?_)
    (funext fun key => ?_))
  · show Option.bind (s.db.visible s.clock (leaseKey key)) leaseOf = Option.bind _ leaseOf
    rw [visible_forget]
  · show Option.map _ (s.db.visible s.clock (valueKey key)) = Option.map _ _
    rw [visible_forget]

theorem view_acquire (hs : s.LeasesAreTokens) (key : String) (token : LeaseToken) (ttl : LeaseTtl) :
    s.view.perform live (op s (.acquire key token ttl))
        = ((s.finish (fun set => if set then .acquired else .refused)
            (s.tryAcquire key token ttl)).1,
          (s.finish (fun set => if set then Outcome.acquired else .refused)
            (s.tryAcquire key token ttl)).2.view) ∧
      LeasesAreTokens (s.finish (fun set => if set then Outcome.acquired else .refused)
        (s.tryAcquire key token ttl)).2 := by
  rw [op, tryAcquire, Keyspace.setNx]
  cases Keyspace.expireTime s.clock ttl.millis with
  | none => exact ⟨rfl, hs⟩
  | some deadline =>
    rw [Option.elim_some, Option.map_some]
    dsimp only [Register.perform]
    rcases visible_lease hs key with ⟨hholder, hslot⟩ | ⟨owner, until_, hholder, hslot⟩
    · rw [hholder, hslot, ← view_update_lease]
      exact ⟨rfl, hs.update key token.asStr deadline⟩
    · rw [hholder, hslot]
      exact ⟨rfl, hs⟩

theorem view_renew (hs : s.LeasesAreTokens) (key : String) (token : LeaseToken) (ttl : LeaseTtl) :
    s.view.perform live (op s (.renew key token ttl))
        = ((s.finish (fun reply => if reply = 1 then .renewed else .lost)
            (s.renew key token ttl)).1,
          (s.finish (fun reply => if reply = 1 then Outcome.renewed else .lost)
            (s.renew key token ttl)).2.view) ∧
      LeasesAreTokens (s.finish (fun reply => if reply = 1 then Outcome.renewed else .lost)
        (s.renew key token ttl)).2 := by
  rw [op, renew, renewLockScript, get_lease hs, Option.bind_some]
  by_cases hheld : s.view.Holds key token.asStr
  · rw [if_pos ((holds_iff s key token.asStr).mpr hheld), Keyspace.pexpire]
    cases Keyspace.expireTime s.clock ttl.millis with
    | none =>
      rw [Option.elim_none, if_pos hheld]
      exact ⟨rfl, hs⟩
    | some deadline =>
      rw [Option.elim_some, Option.map_some]
      dsimp only [Register.perform]
      rw [if_pos hheld]
      rcases visible_lease hs key with ⟨hholder, -⟩ | ⟨owner, until_, hholder, hslot⟩
      · rw [Register.Holds, hholder] at hheld
        cases hheld
      · rw [Register.Holds, hholder] at hheld
        obtain rfl := Option.some.inj hheld
        rw [hslot, ← view_update_lease]
        exact ⟨rfl, hs.update key token.asStr deadline⟩
  · rw [if_neg fun hbytes => hheld ((holds_iff s key token.asStr).mp hbytes)]
    cases Keyspace.expireTime s.clock ttl.millis with
    | none =>
      rw [Option.elim_none, if_neg hheld, (Register.perform_stranger hheld s.clock).1]
      exact ⟨rfl, hs⟩
    | some deadline =>
      rw [Option.elim_some, (Register.perform_stranger hheld deadline).1]
      exact ⟨rfl, hs⟩

theorem view_release (hs : s.LeasesAreTokens) (key token : String) :
    s.view.perform live (.release key token)
        = ((s.finish (fun _ => .done) (s.release key token)).1,
          (s.finish (fun _ => Outcome.done) (s.release key token)).2.view) ∧
      LeasesAreTokens (s.finish (fun _ => Outcome.done) (s.release key token)).2 := by
  dsimp only [release, releaseLockScript, Register.perform]
  rw [get_lease hs, Option.map_some]
  by_cases hheld : s.view.Holds key token
  · rw [if_pos hheld, if_pos ((holds_iff s key token).mpr hheld), ← view_del_lease]
    exact ⟨rfl, hs.del key⟩
  · rw [if_neg hheld, if_neg fun hbytes => hheld ((holds_iff s key token).mp hbytes)]
    exact ⟨rfl, hs⟩

theorem durationToMillis_pos (duration : Duration) : 0 < durationToMillis duration := by
  have hcap : i64Max.toNat / 2 = 4611686018427387903 := by decide
  rw [durationToMillis, hcap]
  omega

/-- The fenced write's command, on a lease that holds, leaves what the mutation says. -/
theorem writeWithLease_of_holds (hs : s.LeasesAreTokens) {proof : LeaseProof}
    (hheld : s.view.Holds proof.key proof.token.asStr) (target : String)
    (mutation : LeasedMutation) :
    s.writeWithLease target mutation proof = some (1, Function.update s.db (valueKey target)
      ((written mutation s.clock).map fun value => ⟨value.1, value.2⟩)) := by
  have hbytes := (holds_iff s proof.key proof.token.asStr).mpr hheld
  unfold writeWithLease
  cases mutation with
  | remove =>
    dsimp only
    rw [fencedWriteScript, get_lease hs, Option.bind_some, if_neg (not_not.mpr hbytes), if_pos rfl]
    rfl
  | set bytes ttl =>
    dsimp only
    rw [fencedWriteScript, get_lease hs, Option.bind_some, if_neg (not_not.mpr hbytes),
      if_neg (by decide)]
    cases ttl with
    | none =>
      rw [ttlArgument, if_neg (by decide), if_pos rfl]
      rfl
    | some duration =>
      rw [ttlArgument, written]
      by_cases hzero : duration.asNanos = 0
      · rw [if_pos hzero, if_pos hzero, if_pos rfl]
        rfl
      · have hpositive : decimal (durationToMillis duration) ≠ utf8 "0" := by
          intro h
          have hnone : durationToMillis duration = 0 := decimal_injective h
          have hpos := durationToMillis_pos duration
          omega
        rw [if_neg hzero, if_neg hzero, if_neg hpositive, if_neg (decimal_ne_nil _),
          tonumber_decimal]
        rfl

theorem writeWithLease_of_not_holds (hs : s.LeasesAreTokens) {proof : LeaseProof}
    (hlost : ¬ s.view.Holds proof.key proof.token.asStr) (target : String)
    (mutation : LeasedMutation) : s.writeWithLease target mutation proof = some (0, s.db) := by
  have hbytes := mt (holds_iff s proof.key proof.token.asStr).mp hlost
  unfold writeWithLease
  dsimp only
  rw [fencedWriteScript, get_lease hs, Option.bind_some, if_pos hbytes]

theorem view_write (hs : s.LeasesAreTokens) (proof : LeaseProof) (target : String)
    (mutation : LeasedMutation) (stored : Nat) :
    s.view.perform live (op s (.write proof target mutation stored))
        = ((s.finish (fun reply => if reply = 1 then .committed else .leaseLost)
            (s.writeWithLease target mutation proof)).1,
          (s.finish (fun reply => if reply = 1 then Outcome.committed else .leaseLost)
            (s.writeWithLease target mutation proof)).2.view) ∧
      LeasesAreTokens (s.finish (fun reply => if reply = 1 then Outcome.committed else .leaseLost)
        (s.writeWithLease target mutation proof)).2 := by
  rw [op]
  dsimp only [Register.perform]
  by_cases hheld : s.view.Holds proof.key proof.token.asStr
  · rw [if_pos hheld, writeWithLease_of_holds hs hheld]
    refine ⟨?_, hs.update_value target _⟩
    refine congrArg (Prod.mk Outcome.committed) ((view_update_value s target _).trans ?_).symm
    rw [Option.map_map]
    have hsame : (written mutation s.clock).map ((fun slot => (slot.value, slot.expires)) ∘
        fun value : Value × Option Nat => (⟨value.1, value.2⟩ : Slot)) = written mutation s.clock :=
      congrFun Option.map_id _
    rw [hsame]
    rfl
  · rw [if_neg hheld, writeWithLease_of_not_holds hs hheld]
    exact ⟨rfl, hs⟩

end Views

/-- **The server is a register of leases.** -/
theorem redis_implements : Implements live view op next LeasesAreTokens := by
  have hstep : ∀ s command outcome s', LeasesAreTokens s → next s command = some (outcome, s') →
      s.view.perform live (op s command) = (outcome, s'.view) ∧ s'.LeasesAreTokens := by
    intro s command outcome s' hs h
    cases command with
    | wait now =>
      dsimp only [next] at h
      split at h
      · rename_i hlater
        cases h
        exact ⟨view_wait s hlater, hs⟩
      · cases h
    | forget =>
      cases h
      refine ⟨view_forget s, fun key slot hslot => ?_⟩
      exact hs key slot (Option.filter_eq_some_iff.mp hslot).1
    | acquire key token ttl =>
      have hviews := view_acquire hs key token ttl
      rw [next] at h
      rw [Option.some.inj h] at hviews
      exact hviews
    | renew key token ttl =>
      have hviews := view_renew hs key token ttl
      rw [next] at h
      rw [Option.some.inj h] at hviews
      exact hviews
    | release key token =>
      have hviews := view_release hs key token
      rw [next] at h
      rw [Option.some.inj h] at hviews
      exact hviews
    | write proof target mutation stored =>
      have hviews := view_write hs proof target mutation stored
      dsimp only [next] at h
      split at h
      · rw [Option.some.inj h] at hviews
        exact hviews
      · cases h
  exact ⟨fun s a outcome t hs h => (hstep s a outcome t hs h).1,
    fun s a outcome t hs h => (hstep s a outcome t hs h).2⟩

theorem redis_speaks : Speaks view op next fun s mutation _ => written mutation s.clock where
  acquire s command key token deadline h := by
    cases command with
    | acquire asked party ttl =>
      rw [op] at h
      cases hdeadline : Keyspace.expireTime s.clock ttl.millis with
      | none =>
        rw [hdeadline] at h
        cases h
      | some granted =>
        rw [hdeadline] at h
        obtain ⟨rfl, rfl, -⟩ := Op.acquire.inj h
        exact ⟨party, ttl, rfl, rfl⟩
    | renew asked party ttl =>
      rw [op] at h
      cases hdeadline : Keyspace.expireTime s.clock ttl.millis with
      | none =>
        rw [hdeadline, Option.elim_none] at h
        split at h
        · cases h
        · cases h
      | some granted =>
        rw [hdeadline] at h
        cases h
    | wait now => cases h
    | forget => cases h
    | release asked party => cases h
    | write proof asked mutation stored => cases h
  renew s key token ttl hlost := by
    rw [op, if_neg hlost]
    cases Keyspace.expireTime s.clock ttl.millis with
    | none => exact ⟨s.clock, rfl⟩
    | some granted => exact ⟨granted, rfl⟩
  release _ _ _ := rfl
  write _ _ _ _ _ := rfl
  lost s proof key mutation stored t h := by
    dsimp only [next] at h
    split at h
    · cases hreply : s.writeWithLease key mutation proof with
      | none =>
        rw [hreply] at h
        cases h
      | some reply =>
        obtain ⟨reply, db⟩ := reply
        rw [hreply] at h
        obtain ⟨houtcome, rfl⟩ := Prod.mk.inj (Option.some.inj h)
        rcases fencedWriteScript_reply hreply with rfl | rfl
        · cases houtcome
        · rfl
    · cases h

end RedisServer

/-- Both authorities give the guarantees in every state of every run. -/
theorem leases_exclusive_and_fenced :
    (∀ c₀ c : InMemoryDistributedCache,
      Run.Reachable (Lease.step InMemoryDistributedCache.next) c₀ c →
      Guarantees InMemoryDistributedCache.live InMemoryDistributedCache.view
        InMemoryDistributedCache.next
        (fun _ mutation stored => (InMemoryDistributedCache.written mutation stored).map fun stored =>
          (stored.bytes, stored.expiresAt)) c) ∧
    (∀ s₀ s : RedisServer, s₀.LeasesAreTokens →
      Run.Reachable (Lease.step RedisServer.next) s₀ s →
      Guarantees RedisServer.live RedisServer.view RedisServer.next
        (fun s mutation _ => RedisServer.written mutation s.clock) s) := by
  constructor
  · intro c₀ c _
    exact guarantees_of_implements InMemoryDistributedCache.memory_implements
      InMemoryDistributedCache.memory_speaks trivial
  · rintro s₀ s hs ⟨commands, hexec⟩
    exact guarantees_of_implements RedisServer.redis_implements RedisServer.redis_speaks
      (RedisServer.redis_implements.good_of_exec hs hexec)

end Amalgam
