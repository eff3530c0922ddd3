import Amalgam.Lib.FiniteMap
import Amalgam.Lib.Lease
import Amalgam.Lib.Text
import Amalgam.Markers.State

/-!
# Amalgam — leases in memory

`src/distributed_lock.rs` and the fenced write of `src/distributed.rs`: the reference authority keeps
a token and a deadline under each key, forgets run-out leases only when it meets them, and every
method holds its lock from the check to the end of what the check allows.

* **`guarantees_of_implements`** — what follows for every backend that is a register of leases.
* **`memory_implements`** — this one is: `view` shows the leases that have not run out.
-/

namespace Amalgam

open Text

/-! ## Lifetimes and tokens -/

inductive LeaseError where
  | invalidTtl
  | invalidToken
deriving DecidableEq

/-- `u128::div_ceil`. -/
def divCeil (n d : Nat) : Nat := if n % d = 0 then n / d else n / d + 1

/-- A positive lifetime whose milliseconds fit. -/
structure LeaseTtl where
  duration : Duration
  positive : duration.asNanos ≠ 0
  fits : (duration.asNanos / 1000000 : Nat) ≤ i64Max

namespace LeaseTtl

def new (duration : Duration) : Except LeaseError LeaseTtl :=
  if h : duration.asNanos ≠ 0 ∧ (duration.asNanos / 1000000 : Nat) ≤ i64Max then
    .ok ⟨duration, h.1, h.2⟩
  else .error .invalidTtl

/-- Whole milliseconds, rounded upwards. -/
def millis (ttl : LeaseTtl) : Nat := min (divCeil ttl.duration.asNanos 1000000) i64Max.toNat

end LeaseTtl

/-- A nonblank ownership token. -/
structure LeaseToken where
  asStr : String
  nonblank : isBlank asStr = false

def LeaseToken.new (token : String) : Except LeaseError LeaseToken :=
  if h : isBlank token = false then .ok ⟨token, h⟩ else .error .invalidToken

theorem LeaseToken.asStr_injective : Function.Injective LeaseToken.asStr := by
  intro token token' h
  cases token
  cases token'
  cases h
  rfl

instance : DecidableEq LeaseToken := fun _ _ =>
  decidable_of_iff _ LeaseToken.asStr_injective.eq_iff

/-- What a lease allows: acting for its token on its key. -/
structure LeaseProof where
  key : String
  token : LeaseToken

inductive LeasedMutation where
  | set (bytes : Bytes) (ttl : Option Duration)
  | remove

/-! ## Commands -/

/-- What a party asks of a backend, and what happens to it by itself: time passes, and leases that
have run out are forgotten. A write reads the clock again, at `stored`, for the value's deadline. -/
inductive LeaseCommand (Time : Type) where
  | wait (now : Time)
  | forget
  | acquire (key : String) (token : LeaseToken) (ttl : LeaseTtl)
  | renew (key : String) (token : LeaseToken) (ttl : LeaseTtl)
  | release (key token : String)
  | write (proof : LeaseProof) (key : String) (mutation : LeasedMutation) (stored : Time)

/-! ## What every authority guarantees -/

section Guarantees

open Lease

variable {S Time Value : Type} {live : Time → Time → Bool}
  {view : S → Register String String Time Value}
  {op : S → LeaseCommand Time → Op String String Time Value}
  {next : S → LeaseCommand Time → Option (Outcome × S)} {good : S → Prop}
  {written : S → LeasedMutation → Time → Option (Value × Option Time)}

/-- What holds in a state of a backend, of every command that comes next and of every later run. -/
structure Guarantees (live : Time → Time → Bool) (view : S → Register String String Time Value)
    (next : S → LeaseCommand Time → Option (Outcome × S))
    (written : S → LeasedMutation → Time → Option (Value × Option Time)) (s : S) : Prop where
  exclusive : ∀ key token token', (view s).Holds key token → (view s).Holds key token' →
    token = token'
  gained : ∀ command outcome t key token, next s command = some (outcome, t) →
    (view t).Holds key token → (view s).Holds key token ∨
      ((∃ asked ttl, command = .acquire key asked ttl ∧ asked.asStr = token) ∧
        outcome = .acquired ∧ ∀ other, ¬ (view s).Holds key other)
  committed : ∀ proof key mutation stored outcome t,
    next s (.write proof key mutation stored) = some (outcome, t) →
      (view s).Holds proof.key proof.token.asStr →
      outcome = .committed ∧ view t = { view s with
        value := Function.update (view s).value key
          (Register.fresh live (view s).clock (written s mutation stored)) }
  turnedAway : ∀ proof key mutation stored outcome t,
    next s (.write proof key mutation stored) = some (outcome, t) →
      ¬ (view s).Holds proof.key proof.token.asStr → outcome = .leaseLost ∧ t = s
  strangerRenews : ∀ key token ttl outcome t, next s (.renew key token ttl) = some (outcome, t) →
    ¬ (view s).Holds key token.asStr → outcome = .lost ∧ view t = view s
  strangerReleases : ∀ key token outcome t, next s (.release key token) = some (outcome, t) →
    ¬ (view s).Holds key token → view t = view s
  notRevived : ∀ key token commands t, ¬ (view s).Holds key token →
    (∀ asked ttl, asked.asStr = token → .acquire key asked ttl ∉ commands) →
    Run.exec (step next) s commands = some t → ¬ (view t).Holds key token

/-- The operations of a register that the commands are. -/
structure Speaks (view : S → Register String String Time Value)
    (op : S → LeaseCommand Time → Op String String Time Value)
    (next : S → LeaseCommand Time → Option (Outcome × S))
    (written : S → LeasedMutation → Time → Option (Value × Option Time)) : Prop where
  acquire : ∀ s command key token deadline, op s command = .acquire key token deadline →
    ∃ asked ttl, command = .acquire key asked ttl ∧ asked.asStr = token
  renew : ∀ s key token ttl, ¬ (view s).Holds key token.asStr →
    ∃ deadline, op s (.renew key token ttl) = .renew key token.asStr deadline
  release : ∀ s key token, op s (.release key token) = .release key token
  write : ∀ s proof key mutation stored, op s (.write proof key mutation stored)
    = .write proof.key proof.token.asStr key (written s mutation stored)
  lost : ∀ s proof key mutation stored t,
    next s (.write proof key mutation stored) = some (.leaseLost, t) → t = s

/-- **A backend that is a register of leases gives the guarantees.** -/
theorem guarantees_of_implements (h : Implements live view op next good)
    (hop : Speaks view op next written) {s : S} (hs : good s) :
    Guarantees live view next written s where
  exclusive _ _ _ hheld hheld' := Register.holds_unique hheld hheld'
  gained command outcome t key token hnext hheld := by
    have hperform := h.refines s command outcome t hs hnext
    have hgained : ((view s).perform live (op s command)).2.Holds key token := by
      rw [hperform]
      exact hheld
    rcases Register.holds_of_perform hgained with hold | ⟨⟨deadline, hacquire⟩, houtcome, hfree⟩
    · exact .inl hold
    · rw [hperform] at houtcome
      refine .inr ⟨hop.acquire s command key token deadline hacquire, houtcome, fun other hother => ?_⟩
      rw [Register.Holds, hfree] at hother
      cases hother
  committed proof key mutation stored outcome t hnext hheld := by
    have hperform := h.refines s _ outcome t hs hnext
    have hwrite := Register.perform_write live (view s) proof.key proof.token.asStr key
      (written s mutation stored)
    rw [hop.write] at hperform
    rw [hperform] at hwrite
    exact ⟨hwrite.1.mpr hheld, hwrite.2.1 hheld⟩
  turnedAway proof key mutation stored outcome t hnext hlost := by
    have hperform := h.refines s _ outcome t hs hnext
    have hwrite := Register.perform_write live (view s) proof.key proof.token.asStr key
      (written s mutation stored)
    rw [hop.write] at hperform
    rw [hperform] at hwrite
    obtain ⟨rfl, -⟩ := Prod.mk.inj (hwrite.2.2 hlost)
    exact ⟨rfl, hop.lost s proof key mutation stored t hnext⟩
  strangerRenews key token ttl outcome t hnext hlost := by
    have hperform := h.refines s _ outcome t hs hnext
    obtain ⟨deadline, hrenew⟩ := hop.renew s key token ttl hlost
    rw [hrenew, (Register.perform_stranger hlost deadline).1] at hperform
    obtain ⟨houtcome, hview⟩ := Prod.mk.inj hperform
    exact ⟨houtcome.symm, hview.symm⟩
  strangerReleases key token outcome t hnext hlost := by
    have hperform := h.refines s _ outcome t hs hnext
    rw [hop.release, (Register.perform_stranger hlost (view s).clock).2] at hperform
    exact (Prod.mk.inj hperform).2.symm
  notRevived key token commands t hlost hcommands hexec := by
    refine h.not_holds_of_exec hs hlost ?_ hexec
    clear hexec hs hlost
    induction commands generalizing s with
    | nil => exact Run.along_nil _ _
    | cons command rest ih =>
      refine ⟨fun deadline hacquire => ?_, fun m _ => ih fun asked ttl hasked hmem => ?_⟩
      · obtain ⟨asked, ttl, rfl, hasked⟩ := hop.acquire s command key token deadline hacquire
        exact hcommands asked ttl hasked List.mem_cons_self
      · exact hcommands asked ttl hasked (List.mem_cons_of_mem command hmem)

end Guarantees

/-! ## The authority -/

structure Held where
  token : LeaseToken
  expiresAt : Timestamp

structure MemoryLeaseAuthority where
  locks : AList fun _ : String => Held
  clock : Timestamp

namespace MemoryLeaseAuthority

def tryOnce (a : MemoryLeaseAuthority) (key : String) (token : LeaseToken) (ttl : LeaseTtl) :
    Bool × MemoryLeaseAuthority :=
  if (a.locks.lookup key).any fun held => a.clock < held.expiresAt then (false, a)
  else
    (true, { a with locks := a.locks.insert key ⟨token, a.clock.saturatingAdd ttl.duration⟩ })

/-- Whether `while_held` runs its operation. -/
def whileHeld (a : MemoryLeaseAuthority) (key : String) (token : LeaseToken) : Bool :=
  (a.locks.lookup key).any fun held => held.token = token && a.clock < held.expiresAt

def renew (a : MemoryLeaseAuthority) (key : String) (token : LeaseToken) (ttl : LeaseTtl) :
    Bool × MemoryLeaseAuthority :=
  if a.whileHeld key token then
    (true, { a with locks := a.locks.insert key ⟨token, a.clock.saturatingAdd ttl.duration⟩ })
  else (false, a)

/-- Whoever holds the token releases, also after its lease has run out. -/
def release (a : MemoryLeaseAuthority) (key token : String) : MemoryLeaseAuthority :=
  if (a.locks.lookup key).any fun held => held.token.asStr = token then
    { a with locks := a.locks.erase key }
  else a

/-- `held_count` keeps the leases that have not run out. -/
def heldCount (a : MemoryLeaseAuthority) : Nat × MemoryLeaseAuthority :=
  let locks := a.locks.retain fun binding => a.clock < binding.2.expiresAt
  (locks.size, { a with locks })

end MemoryLeaseAuthority

structure StoredBytes where
  bytes : Bytes
  expiresAt : Option Timestamp

/-- The authority and the values that its leases guard. -/
structure InMemoryDistributedCache where
  authority : MemoryLeaseAuthority
  map : AList fun _ : String => StoredBytes

namespace InMemoryDistributedCache

open Lease

/-- What a mutation leaves under its key. -/
def written (mutation : LeasedMutation) (stored : Timestamp) : Option StoredBytes :=
  match mutation with
  | .set bytes ttl => some ⟨bytes, ttl.map stored.saturatingAdd⟩
  | .remove => none

def writeWithLease (c : InMemoryDistributedCache) (key : String) (mutation : LeasedMutation)
    (proof : LeaseProof) (stored : Timestamp) : Outcome × InMemoryDistributedCache :=
  if c.authority.whileHeld proof.key proof.token then
    (.committed, { c with
      map := match written mutation stored with
        | some bytes => c.map.insert key bytes
        | none => c.map.erase key })
  else (.leaseLost, c)

def next (c : InMemoryDistributedCache) :
    LeaseCommand Timestamp → Option (Outcome × InMemoryDistributedCache)
  | .wait now =>
    if c.authority.clock ≤ now then
      some (.done, { c with authority := { c.authority with clock := now } })
    else none
  | .forget =>
    some (.done,
      { authority := c.authority.heldCount.2
        map := c.map.retain fun binding => binding.2.expiresAt.all (c.authority.clock < ·) })
  | .acquire key token ttl =>
    let (acquired, authority) := c.authority.tryOnce key token ttl
    some (if acquired then .acquired else .refused, { c with authority })
  | .renew key token ttl =>
    let (renewed, authority) := c.authority.renew key token ttl
    some (if renewed then .renewed else .lost, { c with authority })
  | .release key token => some (.done, { c with authority := c.authority.release key token })
  | .write proof key mutation stored =>
    if c.authority.clock ≤ stored then some (c.writeWithLease key mutation proof stored) else none

/-! ## As a register -/

def live (now deadline : Timestamp) : Bool := now < deadline

/-- The lease that stands at a key, run out or not. -/
def lease (a : MemoryLeaseAuthority) (key : String) : Option (String × Timestamp) :=
  (a.locks.lookup key).map fun held => (held.token.asStr, held.expiresAt)

/-- The bytes under a key and their deadline, run out or not. -/
def stored (c : InMemoryDistributedCache) (key : String) : Option (Bytes × Option Timestamp) :=
  (c.map.lookup key).map fun stored => (stored.bytes, stored.expiresAt)

/-- The leases that have not run out, and what a reader finds under a key. -/
def view (c : InMemoryDistributedCache) : Register String String Timestamp Bytes where
  clock := c.authority.clock
  holder key := (lease c.authority key).filter fun lease => live c.authority.clock lease.2
  value key := Register.fresh live c.authority.clock (c.stored key)

def op (c : InMemoryDistributedCache) : LeaseCommand Timestamp → Op String String Timestamp Bytes
  | .wait now => .wait now
  | .forget => .wait c.authority.clock
  | .acquire key token ttl => .acquire key token.asStr (c.authority.clock.saturatingAdd ttl.duration)
  | .renew key token ttl => .renew key token.asStr (c.authority.clock.saturatingAdd ttl.duration)
  | .release key token => .release key token
  | .write proof key mutation stored =>
    .write proof.key proof.token.asStr key
      ((written mutation stored).map fun stored => (stored.bytes, stored.expiresAt))

theorem live_antitone {now later deadline : Timestamp} (h : now ≤ later)
    (hlive : live later deadline = true) : live now deadline = true :=
  decide_eq_true (lt_of_le_of_lt h (of_decide_eq_true hlive))

theorem holder_view (c : InMemoryDistributedCache) (key : String) :
    c.view.holder key = ((c.authority.locks.lookup key).map fun held =>
      (held.token.asStr, held.expiresAt)).filter fun lease => c.authority.clock < lease.2 := rfl

theorem whileHeld_iff (c : InMemoryDistributedCache) (key : String) (token : LeaseToken) :
    c.authority.whileHeld key token = true ↔ c.view.Holds key token.asStr := by
  rw [Register.Holds, holder_view, MemoryLeaseAuthority.whileHeld]
  cases c.authority.locks.lookup key with
  | none => exact iff_of_false Bool.false_ne_true nofun
  | some held =>
    rw [Option.any_some, Bool.and_eq_true, decide_eq_true_eq, Option.map_some, Option.filter_some]
    by_cases hlive : c.authority.clock < held.expiresAt
    · simp [hlive, LeaseToken.asStr_injective.eq_iff]
    · simp [hlive]

theorem isSome_holder (c : InMemoryDistributedCache) (key : String) :
    (c.view.holder key).isSome
      = (c.authority.locks.lookup key).any fun held => c.authority.clock < held.expiresAt := by
  rw [holder_view]
  cases c.authority.locks.lookup key with
  | none => rfl
  | some held =>
    rw [Option.any_some, Option.map_some, Option.filter_some]
    split
    · rename_i hlive
      exact hlive.symm
    · rename_i hover
      exact (Bool.eq_false_iff.mpr hover).symm

/-- A binding that the authority writes is the lease that the register grants. -/
theorem view_insert (c : InMemoryDistributedCache) (key : String) (token : LeaseToken)
    (deadline : Timestamp) :
    view { c with authority := { c.authority with
        locks := c.authority.locks.insert key ⟨token, deadline⟩ } }
      = c.view.grant live key token.asStr deadline := by
  refine Register.ext rfl (funext fun other => ?_) rfl
  show Option.filter _ (Option.map _ ((c.authority.locks.insert key ⟨token, deadline⟩).lookup other))
    = Function.update c.view.holder key _ other
  by_cases hother : other = key
  · subst hother
    rw [AList.lookup_insert, Function.update_self]
    rfl
  · rw [AList.lookup_insert_ne hother, Function.update_of_ne hother]
    rfl

theorem view_erase (c : InMemoryDistributedCache) (key : String) :
    view { c with authority := { c.authority with locks := c.authority.locks.erase key } }
      = { c.view with holder := Function.update c.view.holder key none } := by
  refine Register.ext rfl (funext fun other => ?_) rfl
  show Option.filter _ (Option.map _ ((c.authority.locks.erase key).lookup other))
    = Function.update c.view.holder key none other
  by_cases hother : other = key
  · subst hother
    rw [AList.lookup_erase, Function.update_self]
    rfl
  · rw [AList.lookup_erase_ne hother, Function.update_of_ne hother]
    rfl

/-- What time has ended before, it ends later. -/
theorem filter_live {α : Type} {now later : Timestamp} (h : now ≤ later) (p : α → Option Timestamp)
    (found : Option α) :
    (found.filter fun a => (p a).all (live now)).filter (fun a => (p a).all (live later))
      = found.filter fun a => (p a).all (live later) := by
  cases found with
  | none => rfl
  | some a =>
    rw [Option.filter_some]
    cases hlater : (p a).all (live later) with
    | true =>
      have hnow : (p a).all (live now) = true := by
        cases hp : p a with
        | none => rfl
        | some deadline =>
          rw [hp] at hlater
          exact live_antitone h hlater
      rw [if_pos hnow]
    | false =>
      rw [Option.filter_some, hlater]
      split
      · rw [Option.filter_some, hlater]
      · rfl

theorem view_wait (c : InMemoryDistributedCache) {now : Timestamp} (h : c.authority.clock ≤ now) :
    c.view.perform live (.wait now)
      = (.done, view { c with authority := { c.authority with clock := now } }) := by
  refine congrArg (Prod.mk Outcome.done) (Register.ext rfl (funext fun key => ?_)
    (funext fun key => ?_))
  · exact filter_live h (fun lease : String × Timestamp => some lease.2) (lease c.authority key)
  · exact filter_live h Prod.snd (c.stored key)

theorem view_forget (c : InMemoryDistributedCache) :
    c.view.perform live (.wait c.authority.clock)
      = (.done, view
        { authority := c.authority.heldCount.2
          map := c.map.retain fun binding =>
            binding.2.expiresAt.all (c.authority.clock < ·) }) := by
  refine congrArg (Prod.mk Outcome.done) (Register.ext rfl (funext fun key => ?_)
    (funext fun key => ?_))
  · show Option.filter _ (c.view.holder key)
      = Option.filter _ (Option.map _ ((c.authority.locks.retain _).lookup key))
    rw [holder_view, AList.lookup_retain]
    cases c.authority.locks.lookup key with
    | none => rfl
    | some held =>
      rw [Option.map_some, Option.filter_some, Option.filter_some]
      split
      · rfl
      · rfl
  · show Option.filter _ (Option.filter _ (Option.map _ (c.map.lookup key)))
      = Option.filter _ (Option.map _ ((c.map.retain _).lookup key))
    rw [AList.lookup_retain]
    cases c.map.lookup key with
    | none => rfl
    | some stored =>
      rw [Option.map_some, Option.filter_some, Option.filter_some]
      show Option.filter _ (if stored.expiresAt.all (live c.authority.clock) then _ else _)
        = Option.filter _ (Option.map _
          (if stored.expiresAt.all (live c.authority.clock) then some stored else none))
      cases stored.expiresAt.all (live c.authority.clock) with
      | true => rfl
      | false => rfl

theorem view_acquire (c : InMemoryDistributedCache) (key : String) (token : LeaseToken)
    (ttl : LeaseTtl) : c.view.perform live (op c (.acquire key token ttl))
      = (if (c.authority.tryOnce key token ttl).1 then .acquired else .refused,
        view { c with authority := (c.authority.tryOnce key token ttl).2 }) := by
  dsimp only [op, Register.perform]
  rw [isSome_holder, MemoryLeaseAuthority.tryOnce]
  split
  · rfl
  · rw [← view_insert]
    rfl

theorem view_renew (c : InMemoryDistributedCache) (key : String) (token : LeaseToken)
    (ttl : LeaseTtl) : c.view.perform live (op c (.renew key token ttl))
      = (if (c.authority.renew key token ttl).1 then .renewed else .lost,
        view { c with authority := (c.authority.renew key token ttl).2 }) := by
  dsimp only [op, Register.perform]
  rw [MemoryLeaseAuthority.renew]
  by_cases hheld : c.authority.whileHeld key token = true
  · rw [if_pos hheld, if_pos ((whileHeld_iff c key token).mp hheld), ← view_insert]
    rfl
  · rw [if_neg hheld, if_neg (fun hholds => hheld ((whileHeld_iff c key token).mpr hholds))]
    rfl

/-- Releasing a lease that has run out shows nothing. -/
theorem view_release (c : InMemoryDistributedCache) (key token : String) :
    c.view.perform live (.release key token)
      = (.done, view { c with authority := c.authority.release key token }) := by
  dsimp only [Register.perform]
  rw [MemoryLeaseAuthority.release]
  by_cases howner : (c.authority.locks.lookup key).any fun held => held.token.asStr = token
  · rw [if_pos howner, view_erase]
    split
    · rfl
    · rename_i hnot
      refine congrArg (Prod.mk Outcome.done) (Register.ext rfl (funext fun other => ?_) rfl)
      -- The owner does not hold: its lease has run out.
      have hnone : c.view.holder key = none := by
        rw [Register.Holds, holder_view] at hnot
        rw [holder_view]
        cases hheld : c.authority.locks.lookup key with
        | none => rfl
        | some held =>
          rw [hheld, Option.any_some, decide_eq_true_eq] at howner
          rw [hheld, Option.map_some, Option.filter_some] at hnot
          rw [Option.map_some, Option.filter_some]
          split
          · rename_i hlive
            rw [if_pos hlive, howner] at hnot
            exact absurd rfl hnot
          · rfl
      by_cases hother : other = key
      · subst hother
        rw [hnone]
        exact (Function.update_self other none c.view.holder).symm
      · exact (Function.update_of_ne hother none c.view.holder).symm
  · rw [if_neg howner, if_neg]
    intro hholds
    rw [Register.Holds, holder_view] at hholds
    cases hheld : c.authority.locks.lookup key with
    | none =>
      rw [hheld] at hholds
      cases hholds
    | some held =>
      rw [hheld, Option.map_some] at hholds
      obtain ⟨found, hfound, hname⟩ := Option.map_eq_some_iff.mp hholds
      obtain ⟨hsame, -⟩ := Option.filter_eq_some_iff.mp hfound
      obtain rfl := Option.some.inj hsame
      rw [hheld] at howner
      exact howner (decide_eq_true hname)

theorem view_write (c : InMemoryDistributedCache) (proof : LeaseProof) (key : String)
    (mutation : LeasedMutation) (stored : Timestamp) :
    c.view.perform live (op c (.write proof key mutation stored))
      = ((c.writeWithLease key mutation proof stored).1,
        (c.writeWithLease key mutation proof stored).2.view) := by
  dsimp only [op, Register.perform]
  rw [writeWithLease]
  by_cases hheld : c.authority.whileHeld proof.key proof.token = true
  · rw [if_pos hheld, if_pos ((whileHeld_iff c proof.key proof.token).mp hheld)]
    refine congrArg (Prod.mk Outcome.committed) (Register.ext rfl rfl (funext fun other => ?_))
    show Function.update c.view.value key _ other
      = Register.fresh live c.authority.clock
        (Option.map _ (AList.lookup other (match written mutation stored with
          | some bytes => c.map.insert key bytes
          | none => c.map.erase key)))
    by_cases hother : other = key
    · subst hother
      rw [Function.update_self]
      cases written mutation stored with
      | none =>
        dsimp only
        rw [AList.lookup_erase]
        rfl
      | some bytes =>
        dsimp only
        rw [AList.lookup_insert]
        rfl
    · rw [Function.update_of_ne hother]
      split
      · rw [AList.lookup_insert_ne hother]
        rfl
      · rw [AList.lookup_erase_ne hother]
        rfl
  · rw [if_neg hheld,
      if_neg (fun hholds => hheld ((whileHeld_iff c proof.key proof.token).mpr hholds))]

/-- **The reference authority is a register of leases.** -/
theorem memory_implements : Implements live view op next fun _ => True where
  keeps _ _ _ _ _ _ := trivial
  refines c command outcome c' _ h := by
    cases command with
    | wait now =>
      dsimp only [next] at h
      split at h
      · rename_i hlater
        obtain ⟨rfl, rfl⟩ := Prod.mk.inj (Option.some.inj h)
        exact view_wait c hlater
      · cases h
    | forget =>
      cases h
      exact view_forget c
    | acquire key token ttl =>
      cases h
      exact view_acquire c key token ttl
    | renew key token ttl =>
      cases h
      exact view_renew c key token ttl
    | release key token =>
      cases h
      exact view_release c key token
    | write proof key mutation stored =>
      dsimp only [next] at h
      split at h
      · rw [view_write, Option.some.inj h]
      · cases h

theorem memory_speaks : Speaks view op next fun _ mutation stored =>
    (written mutation stored).map fun stored => (stored.bytes, stored.expiresAt) where
  acquire c command key token deadline h := by
    cases command with
    | acquire asked party ttl =>
      obtain ⟨rfl, rfl, -⟩ := Op.acquire.inj h
      exact ⟨party, ttl, rfl, rfl⟩
    | wait now => cases h
    | forget => cases h
    | renew asked party ttl => cases h
    | release asked party => cases h
    | write proof asked mutation stored => cases h
  renew c key token ttl _ := ⟨_, rfl⟩
  release _ _ _ := rfl
  write _ _ _ _ _ := rfl
  lost c proof key mutation stored t h := by
    dsimp only [next, writeWithLease] at h
    split at h
    · split at h
      · cases h
      · cases h
        rfl
    · cases h

end InMemoryDistributedCache

end Amalgam
