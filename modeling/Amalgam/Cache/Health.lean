import Amalgam.Lib.Run
import Amalgam.Time

/-!
# Amalgam — observing the health of the backplane

`ensure_health` and `continuity_gap` of `src/cache/runtime.rs`. A call reads the state that the
transport published last and then takes the lock of `health_seen`; under it, a state that is not
the one seen before replaces it, and the epoch and the recovery barrier follow. The L1 layers are
cleared after the lock was given back.

The transport is a watch: it has a newest state, and whoever reads gets that one. Publications
are numbered here from one, and a call carries the number of the one it read; no code has them.

* **`health_moves_forward`** — as long as calls take the lock in the order in which they read,
  `health_seen` only moves to later publications, and the barrier agrees with the transport.
-/

namespace Amalgam

namespace Health

inductive BackplaneState where
  | connected (epoch : Nat)
  | disconnected (epoch : Nat)
  | stopped
deriving DecidableEq

def BackplaneState.isConnected : BackplaneState → Bool
  | .connected _ => true
  | .disconnected _ | .stopped => false

/-- `Instant`, in nanoseconds. -/
abbrev Instant := Nat

inductive RecoveryBarrier where
  | ready
  | disconnected
  | after (until_ : Instant)
deriving DecidableEq

structure Config (L : Type) where
  /-- `ReconciliationPolicy::invalidates_on_gap`. -/
  invalidatesOnGap : Bool
  /-- `RecoveryConfig::delay`, of a cache with recovery. -/
  recovery : Option Duration
  /-- The last instant of the platform. -/
  instantMax : Instant
  /-- `invalidate_memory_layers`. -/
  invalidateLayers : L → L

abbrev CallId := Nat

/-- Where a call stands. From `advanceEpoch` to `unlock` it holds the guard of `health_seen`. -/
inductive Pc where
  | idle
  -- `ensure_health`
  | lock (current : BackplaneState) (number : Nat)
  | advanceEpoch (current : BackplaneState) (invalidate : Bool)
  | barrier (current : BackplaneState) (invalidate exhausted : Bool)
  | unlock (invalidate exhausted : Bool)
  | invalidate (exhausted : Bool)
  | close
  -- `continuity_gap`
  | gapClose
  | gapInvalidate
  | gapSuspend
deriving DecidableEq

structure Shared (L : Type) where
  /-- What the transport has published, newest first. -/
  published : List BackplaneState
  seen : Option BackplaneState
  /-- Whoever has the guard of `health_seen`. -/
  holder : Option CallId
  epoch : Nat
  barrier : RecoveryBarrier
  subscriptionAdmitted : Bool
  closed : Bool
  layers : L
  /-- The publication that was read last, and its number. -/
  lastRead : Option (BackplaneState × Nat)
  /-- The newest publication read by a call that has had the lock since. -/
  newest : Nat
  /-- Every change of `seen`: the newest publication it stood for, and the one it went to. -/
  changes : List (Nat × Nat)

section

variable {L : Type}

namespace Shared

def current (sh : Shared L) : Option BackplaneState := sh.published.head?

/-- `fetch_update(|epoch| epoch.checked_add(1))`; `none` when it is exhausted. -/
def advance (sh : Shared L) : Option (Shared L) :=
  if sh.epoch < u64Max then some { sh with epoch := sh.epoch + 1 } else none

/-- `recovery.suspend()`. -/
def suspend (cfg : Config L) (sh : Shared L) : Shared L :=
  if cfg.recovery.isSome then { sh with barrier := .disconnected } else sh

end Shared

/-- `Instant::now().checked_add(delay)`. -/
def reconnectUntil (cfg : Config L) (now : Instant) : Option Instant :=
  cfg.recovery.bind fun delay =>
    if now + delay.asNanos ≤ cfg.instantMax then some (now + delay.asNanos) else none

/-- `recovery.pause_after_reconnect()`; a delay that is rejected is only reported. -/
def Shared.pauseAfterReconnect (cfg : Config L) (sh : Shared L) (now : Instant) : Shared L :=
  match reconnectUntil cfg now with
  | some until_ => { sh with barrier := .after until_ }
  | none => sh

/-- `let gap = !matches!(current, Connected) || previous.is_some()`. -/
def isGap (current : BackplaneState) (previous : Option BackplaneState) : Bool :=
  !current.isConnected || previous.isSome

/-- What the lock finds: a call that read the state already seen returns at once. -/
def lockSeen (cfg : Config L) (sh : Shared L) (call : CallId) (current : BackplaneState)
    (number : Nat) : Pc × Shared L :=
  let newest := max sh.newest number
  if sh.seen = some current then (.idle, { sh with newest })
  else
    (.advanceEpoch current (isGap current sh.seen && cfg.invalidatesOnGap),
      { sh with
        seen := some current
        holder := some call
        newest
        changes := if sh.seen.isSome then (sh.newest, number) :: sh.changes else sh.changes })

/-- One access of a call that has begun. -/
def step (cfg : Config L) (call : CallId) (now : Instant) (sh : Shared L) :
    Pc → Option (Pc × Shared L)
  | .idle => none
  | .lock current number =>
    if sh.holder = none then some (lockSeen cfg sh call current number) else none
  | .advanceEpoch current invalidate =>
    if invalidate then
      match sh.advance with
      | some sh => some (.barrier current invalidate false, sh)
      | none => some (.barrier current invalidate true, sh)
    else some (.barrier current invalidate false, sh)
  | .barrier current invalidate exhausted =>
    match current with
    | .disconnected _ | .stopped => some (.unlock invalidate exhausted, sh.suspend cfg)
    | .connected _ =>
      some (.unlock invalidate exhausted,
        { sh with subscriptionAdmitted := true }.pauseAfterReconnect cfg now)
  | .unlock invalidate exhausted =>
    some (if invalidate then .invalidate exhausted else if exhausted then .close else .idle,
      { sh with holder := none })
  | .invalidate exhausted =>
    some (if exhausted then .close else .idle, { sh with layers := cfg.invalidateLayers sh.layers })
  | .close => some (.idle, { sh with closed := true })
  | .gapClose => some (.gapInvalidate, { sh with closed := true })
  | .gapInvalidate => some (.gapSuspend, { sh with layers := cfg.invalidateLayers sh.layers })
  | .gapSuspend => some (.idle, sh.suspend cfg)

/-- `*health.borrow()`. -/
def beginHealth (sh : Shared L) : Option (Pc × Shared L) :=
  sh.current.map fun current =>
    (.lock current sh.published.length,
      { sh with lastRead := some (current, sh.published.length) })

/-- `continuity_gap` begins with its `fetch_update`. -/
def beginGap (cfg : Config L) (sh : Shared L) : Pc × Shared L :=
  if cfg.invalidatesOnGap then
    match sh.advance with
    | some sh => (.gapInvalidate, sh)
    | none => (.gapClose, sh)
  else (.gapSuspend, sh)

/-! ## The transport -/

/-- The epochs of acknowledged connections grow, and nothing follows `Stopped`. -/
def mayPublish (published : List BackplaneState) (state : BackplaneState) : Bool :=
  published.all fun earlier => match earlier, state with
    | .stopped, _ => false
    | .connected epoch, .connected epoch' => epoch < epoch'
    | _, _ => true

def publish (sh : Shared L) (state : BackplaneState) : Option (Shared L) :=
  if mayPublish sh.published state then some { sh with published := state :: sh.published }
  else none

/-! ## Any number of calls -/

structure State (L : Type) where
  shared : Shared L
  calls : CallId → Pc

inductive Action where
  | publish (state : BackplaneState)
  | ensureHealth (call : CallId)
  | step (call : CallId) (now : Instant)

namespace State

def at_ (s : State L) (call : CallId) (moved : Pc × Shared L) : State L where
  shared := moved.2
  calls := Function.update s.calls call moved.1

@[simp] theorem at_shared (s : State L) (call : CallId) (moved : Pc × Shared L) :
    (s.at_ call moved).shared = moved.2 := rfl

theorem at_calls (s : State L) (call other : CallId) (moved : Pc × Shared L) :
    (s.at_ call moved).calls other = if other = call then moved.1 else s.calls other := by
  simp [at_, Function.update_apply]

/-- What holds of the phase moved to and of the old phase of a call holds of its new one. -/
theorem at_calls_cases {P : Pc → Prop} {s : State L} {call other : CallId}
    {moved : Pc × Shared L} (hmoved : P moved.1) (hother : P (s.calls other)) :
    P ((s.at_ call moved).calls other) := by
  rw [at_calls]
  split
  · exact hmoved
  · exact hother

end State

def next (cfg : Config L) (s : State L) : Action → Option (State L)
  | .publish state => (publish s.shared state).map fun shared => { s with shared }
  | .ensureHealth call =>
    if s.calls call = .idle then (beginHealth s.shared).map (s.at_ call) else none
  | .step call now => (step cfg call now s.shared (s.calls call)).map (s.at_ call)

/-- A cache that was just built, on a transport with its first state. -/
def init (first : BackplaneState) (layers : L) : State L where
  shared :=
    { published := [first]
      seen := none
      holder := none
      epoch := 0
      barrier := .ready
      subscriptionAdmitted := false
      closed := false
      layers
      lastRead := none
      newest := 0
      changes := [] }
  calls := fun _ => .idle

/-! ## Publications by number -/

/-- The publication with this number. -/
def publication (published : List BackplaneState) : Nat → Option BackplaneState
  | 0 => none
  | number + 1 => published.reverse[number]?

theorem publication_cons {published : List BackplaneState} {number : Nat}
    (h : number ≤ published.length) (state : BackplaneState) :
    publication (state :: published) number = publication published number := by
  cases number with
  | zero => rfl
  | succ number =>
    show (state :: published).reverse[number]? = published.reverse[number]?
    rw [List.reverse_cons, List.getElem?_append_left (by rw [List.length_reverse]; omega)]

theorem publication_length {published : List BackplaneState} {state : BackplaneState}
    (h : published.head? = some state) :
    publication published published.length = some state := by
  cases published with
  | nil => cases h
  | cons newest earlier =>
    obtain rfl := Option.some.inj h
    show (newest :: earlier).reverse[earlier.length]? = some newest
    rw [List.reverse_cons, List.getElem?_append_right (by simp)]
    simp

theorem le_of_publication {published : List BackplaneState} {number : Nat}
    {state : BackplaneState} (h : publication published number = some state) :
    number ≤ published.length := by
  cases number with
  | zero => omega
  | succ number =>
    have hlt := (List.getElem?_eq_some_iff.mp h).1
    rw [List.length_reverse] at hlt
    omega

/-! ## What the calls know of each other -/

/-- The phases under the guard. -/
def Pc.guarded : Pc → Bool
  | .advanceEpoch _ _ | .barrier _ _ _ | .unlock _ _ => true
  | _ => false

/-- What the call put into `seen`, while the barrier does not follow it yet. -/
def Pc.unsettled : Pc → Option BackplaneState
  | .advanceEpoch current _ | .barrier current _ _ => some current
  | _ => none

/-- What the call has read, while it waits for the lock. -/
def Pc.waiting : Pc → Option (BackplaneState × Nat)
  | .lock current number => some (current, number)
  | _ => none

/-- The phases of `continuity_gap`. -/
def Pc.inGap : Pc → Bool
  | .gapClose | .gapInvalidate | .gapSuspend => true
  | _ => false

/-- The calls are of `ensure_health`, and their lock keeps them apart. -/
structure Observing (s : State L) : Prop where
  calls : ∀ call, (s.calls call).inGap = false
  waiting : ∀ call current number, (s.calls call).waiting = some (current, number) →
    publication s.shared.published number = some current ∧
      ∃ last, s.shared.lastRead = some last ∧ number ≤ last.2
  /-- The publication read last was seen, or its reader still waits. -/
  read : ∀ last, s.shared.lastRead = some last →
    publication s.shared.published last.2 = some last.1 ∧ s.shared.newest ≤ last.2 ∧
      (s.shared.newest = last.2 ∨ ∃ call current, (s.calls call).waiting = some (current, last.2))
  unread : s.shared.lastRead = none → s.shared.newest = 0
  seen : s.shared.seen = publication s.shared.published s.shared.newest
  newest : s.shared.newest ≤ s.shared.published.length
  guarded : ∀ call, (s.calls call).guarded = true → s.shared.holder = some call
  unsettled : ∀ call current, (s.calls call).unsettled = some current →
    s.shared.seen = some current
  barrier : s.shared.barrier = .disconnected →
    (∃ call, (s.calls call).unsettled.isSome = true) ∨
      ∃ state, s.shared.seen = some state ∧ state.isConnected = false
  changes : ∀ change ∈ s.shared.changes, change.1 < change.2

variable {cfg : Config L} {s t : State L} {call : CallId} {now : Instant}

theorem Observing.init (first : BackplaneState) (layers : L) : Observing (init first layers) where
  calls := fun _ => rfl
  waiting := fun _ _ _ h => by cases h
  read := fun _ h => by cases h
  unread := fun _ => rfl
  seen := rfl
  newest := Nat.zero_le _
  guarded := fun _ h => by cases h
  unsettled := fun _ _ h => by cases h
  barrier := fun h => by cases h
  changes := fun _ h => by cases h

theorem Observing.publish (h : Observing s) {state : BackplaneState} {shared : Shared L}
    (hpublish : publish s.shared state = some shared) : Observing { s with shared } := by
  unfold Health.publish at hpublish
  split at hpublish
  · obtain rfl := Option.some.inj hpublish
    have hkeep : ∀ {number current}, publication s.shared.published number = some current →
        publication (state :: s.shared.published) number = some current := fun hpub => by
      rw [publication_cons (le_of_publication hpub), hpub]
    refine ⟨h.calls, fun c current number hc => ?_, fun last hlast => ?_, h.unread, ?_, ?_,
      h.guarded, h.unsettled, h.barrier, h.changes⟩
    · exact ⟨hkeep (h.waiting c current number hc).1, (h.waiting c current number hc).2⟩
    · exact ⟨hkeep (h.read last hlast).1, (h.read last hlast).2⟩
    · show s.shared.seen = publication (state :: s.shared.published) s.shared.newest
      rw [publication_cons h.newest]
      exact h.seen
    · have hnewest := h.newest
      show s.shared.newest ≤ s.shared.published.length + 1
      omega
  · cases hpublish

theorem Observing.beginHealth (h : Observing s) (hidle : s.calls call = .idle)
    {moved : Pc × Shared L} (hbegin : beginHealth s.shared = some moved) :
    Observing (s.at_ call moved) := by
  obtain ⟨current, hcurrent, rfl⟩ := Option.map_eq_some_iff.mp hbegin
  have hpub : publication s.shared.published s.shared.published.length = some current :=
    publication_length hcurrent
  refine ⟨fun c => ?_, fun c current' number hc => ?_, fun last hlast => ?_, nofun, h.seen,
    h.newest, fun c hc => ?_, fun c current' hc => ?_, fun hbarrier => ?_, h.changes⟩
  · exact State.at_calls_cases (P := fun pc => pc.inGap = false) rfl (h.calls c)
  · rw [State.at_calls] at hc
    split at hc
    · obtain ⟨rfl, rfl⟩ := Prod.mk.inj (Option.some.inj hc)
      exact ⟨hpub, _, rfl, Nat.le_refl _⟩
    · have hold := (h.waiting c current' number hc).1
      exact ⟨hold, _, rfl, le_of_publication hold⟩
  · obtain rfl := Option.some.inj hlast
    refine ⟨hpub, h.newest, .inr ⟨call, current, ?_⟩⟩
    rw [State.at_calls, if_pos rfl]
    rfl
  · rw [State.at_calls] at hc
    split at hc
    · cases hc
    · exact h.guarded c hc
  · rw [State.at_calls] at hc
    split at hc
    · cases hc
    · exact h.unsettled c current' hc
  · rcases h.barrier hbarrier with ⟨c, hc⟩ | hseen
    · refine .inl ⟨c, ?_⟩
      rw [State.at_calls, if_neg]
      · exact hc
      · rintro rfl
        rw [hidle] at hc
        cases hc
    · exact .inr hseen

/-- What the observation consists of is left alone. -/
structure SameObservation (sh sh' : Shared L) : Prop where
  published : sh'.published = sh.published
  seen : sh'.seen = sh.seen
  lastRead : sh'.lastRead = sh.lastRead
  newest : sh'.newest = sh.newest
  changes : sh'.changes = sh.changes

/-- A step of a call that does not wait for the lock. -/
theorem Observing.quiet (h : Observing s) {moved : Pc × Shared L}
    (hgap : moved.1.inGap = false)
    (hbefore : (s.calls call).waiting = none) (hafter : moved.1.waiting = none)
    (hsame : SameObservation s.shared moved.2)
    (hguarded : moved.1.guarded = true → moved.2.holder = some call)
    (hothers : ∀ c, c ≠ call → (s.calls c).guarded = true → moved.2.holder = some c)
    (hunsettled : ∀ current, moved.1.unsettled = some current → s.shared.seen = some current)
    (hbarrier : moved.2.barrier = .disconnected → moved.1.unsettled.isSome = true ∨
      (∃ c, c ≠ call ∧ (s.calls c).unsettled.isSome = true) ∨
        ∃ state, s.shared.seen = some state ∧ state.isConnected = false) :
    Observing (s.at_ call moved) := by
  have hwaiting : ∀ c, ((s.at_ call moved).calls c).waiting = (s.calls c).waiting := fun c => by
    rw [State.at_calls]
    split
    · rename_i heq
      rw [heq, hbefore, hafter]
    · rfl
  refine ⟨fun c => ?_, fun c current number hc => ?_, fun last hlast => ?_, fun hlast => ?_, ?_, ?_,
    fun c hc => ?_, fun c current hc => ?_, fun hdisconnected => ?_, ?_⟩
  · exact State.at_calls_cases (P := fun pc => pc.inGap = false) hgap (h.calls c)
  · rw [hwaiting] at hc
    rw [State.at_shared, hsame.published, hsame.lastRead]
    exact h.waiting c current number hc
  · rw [State.at_shared, hsame.lastRead] at hlast
    rw [State.at_shared, hsame.published, hsame.newest]
    simp only [hwaiting]
    exact h.read last hlast
  · rw [State.at_shared, hsame.lastRead] at hlast
    rw [State.at_shared, hsame.newest]
    exact h.unread hlast
  · rw [State.at_shared, hsame.seen, hsame.published, hsame.newest]
    exact h.seen
  · rw [State.at_shared, hsame.published, hsame.newest]
    exact h.newest
  · rw [State.at_calls] at hc
    split at hc
    · rename_i heq
      rw [heq]
      exact hguarded hc
    · rename_i hne
      exact hothers c hne hc
  · rw [State.at_shared, hsame.seen]
    rw [State.at_calls] at hc
    split at hc
    · exact hunsettled current hc
    · exact h.unsettled c current hc
  · rw [State.at_shared, hsame.seen]
    rcases hbarrier hdisconnected with hmoved | ⟨c, hne, hc⟩ | hseen
    · refine .inl ⟨call, ?_⟩
      rw [State.at_calls, if_pos rfl]
      exact hmoved
    · refine .inl ⟨c, ?_⟩
      rw [State.at_calls, if_neg hne]
      exact hc
    · exact .inr hseen
  · rw [State.at_shared, hsame.changes]
    exact h.changes

/-- A call that waited for the lock finds what it read already seen. -/
theorem Observing.look (h : Observing s) {current : BackplaneState} {number : Nat}
    (hpc : s.calls call = .lock current number) (hseen : s.shared.seen = some current) :
    Observing (s.at_ call
      (.idle, { s.shared with newest := max s.shared.newest number })) := by
  obtain ⟨hpub, last, hlast, hle⟩ := h.waiting call current number (by rw [hpc]; rfl)
  have hread := h.read last hlast
  have hmax : publication s.shared.published (max s.shared.newest number) = some current := by
    rcases Nat.le_total s.shared.newest number with hn | hn
    · rw [Nat.max_eq_right hn, hpub]
    · rw [Nat.max_eq_left hn, ← h.seen, hseen]
  have hcalls : ∀ c, c ≠ call → ((s.at_ call
      (.idle, { s.shared with newest := max s.shared.newest number })).calls c) = s.calls c :=
    fun c hc => by rw [State.at_calls, if_neg hc]
  refine ⟨fun c => ?_, fun c current' number' hc => ?_, fun other hother => ?_, fun hnone => ?_,
    ?_, ?_, fun c hc => ?_, fun c current' hc => ?_, fun hbarrier => ?_, h.changes⟩
  · exact State.at_calls_cases (P := fun pc => pc.inGap = false) rfl (h.calls c)
  · rw [State.at_calls] at hc
    split at hc
    · cases hc
    · exact h.waiting c current' number' hc
  · obtain rfl : last = other := Option.some.inj (hlast.symm.trans hother)
    refine ⟨hread.1, Nat.max_le.mpr ⟨hread.2.1, hle⟩, ?_⟩
    rcases hread.2.2 with heq | ⟨c, current', hc⟩
    · exact .inl (by show max s.shared.newest number = last.2; omega)
    · -- The reader of the last publication waits on, or it is this call.
      by_cases hcall : c = call
      · subst hcall
        rw [hpc] at hc
        have hnumber : number = last.2 := (Prod.mk.inj (Option.some.inj hc)).2
        refine .inl ?_
        show max s.shared.newest number = last.2
        have := hread.2.1
        omega
      · exact .inr ⟨c, current', by rw [hcalls c hcall]; exact hc⟩
  · rw [State.at_shared] at hnone
    exact absurd (hlast.symm.trans hnone) (by simp)
  · exact hseen.trans hmax.symm
  · exact Nat.max_le.mpr ⟨h.newest, le_of_publication hpub⟩
  · rw [State.at_calls] at hc
    split at hc
    · cases hc
    · exact h.guarded c hc
  · rw [State.at_calls] at hc
    split at hc
    · cases hc
    · exact h.unsettled c current' hc
  · rcases h.barrier hbarrier with ⟨c, hc⟩ | hstate
    · refine .inl ⟨c, ?_⟩
      rw [hcalls]
      · exact hc
      · rintro rfl
        rw [hpc] at hc
        cases hc
    · exact .inr hstate

/-- A call that waited for the lock replaces an earlier publication by the one it read. -/
theorem Observing.change (h : Observing s) {current : BackplaneState} {number : Nat}
    {invalidate : Bool} (hpc : s.calls call = .lock current number)
    (hfree : s.shared.holder = none) (hseen : s.shared.seen ≠ some current)
    (horder : s.shared.newest ≤ number) :
    Observing (s.at_ call (.advanceEpoch current invalidate,
      { s.shared with
        seen := some current
        holder := some call
        newest := max s.shared.newest number
        changes := if s.shared.seen.isSome then (s.shared.newest, number) :: s.shared.changes
          else s.shared.changes })) := by
  obtain ⟨hpub, last, hlast, hle⟩ := h.waiting call current number (by rw [hpc]; rfl)
  have hread := h.read last hlast
  have hlt : s.shared.newest < number := by
    refine Nat.lt_of_le_of_ne horder fun heq => hseen ?_
    rw [h.seen, heq, hpub]
  -- Nobody else is under the guard.
  have hunguarded : ∀ c, (s.calls c).guarded = false := fun c => by
    cases hc : (s.calls c).guarded with
    | true => exact absurd (hfree.symm.trans (h.guarded c hc)) (by simp)
    | false => rfl
  refine ⟨fun c => ?_, fun c current' number' hc => ?_, fun other hother => ?_, fun hnone => ?_,
    ?_, ?_, fun c hc => ?_, fun c current' hc => ?_, fun hbarrier => ?_, ?_⟩
  · exact State.at_calls_cases (P := fun pc => pc.inGap = false) rfl (h.calls c)
  · rw [State.at_calls] at hc
    split at hc
    · cases hc
    · exact h.waiting c current' number' hc
  · obtain rfl : last = other := Option.some.inj (hlast.symm.trans hother)
    refine ⟨hread.1, Nat.max_le.mpr ⟨hread.2.1, hle⟩, ?_⟩
    rcases hread.2.2 with heq | ⟨c, current', hc⟩
    · exact .inl (by show max s.shared.newest number = last.2; omega)
    · by_cases hcall : c = call
      · subst hcall
        rw [hpc] at hc
        have hnumber : number = last.2 := (Prod.mk.inj (Option.some.inj hc)).2
        refine .inl ?_
        show max s.shared.newest number = last.2
        omega
      · refine .inr ⟨c, current', ?_⟩
        rw [State.at_calls, if_neg hcall]
        exact hc
  · rw [State.at_shared] at hnone
    exact absurd (hlast.symm.trans hnone) (by simp)
  · show some current = publication s.shared.published (max s.shared.newest number)
    rw [Nat.max_eq_right horder, hpub]
  · exact Nat.max_le.mpr ⟨h.newest, le_of_publication hpub⟩
  · rw [State.at_calls] at hc
    split at hc
    · rename_i heq
      rw [heq]
      rfl
    · rw [hunguarded c] at hc
      cases hc
  · rw [State.at_calls] at hc
    split at hc
    · obtain rfl := Option.some.inj hc
      rfl
    · -- A barrier that does not follow yet belongs to a call under the guard.
      have hnone := hunguarded c
      cases hcalls : s.calls c with
      | advanceEpoch state invalidate' => rw [hcalls] at hnone; cases hnone
      | barrier state invalidate' exhausted => rw [hcalls] at hnone; cases hnone
      | _ => rw [hcalls] at hc; cases hc
  · refine .inl ⟨call, ?_⟩
    rw [State.at_calls, if_pos rfl]
    rfl
  · intro change hchange
    rw [State.at_shared] at hchange
    dsimp only at hchange
    split at hchange
    · rcases List.mem_cons.mp hchange with rfl | hold
      · exact hlt
      · exact h.changes change hold
    · exact h.changes change hchange

/-! ## Runs -/

/-- Calls take the lock in the order in which they read the transport, a call that read what is
already seen apart; and the delay after a reconnection reaches no instant beyond the last one. -/
def Orderly (cfg : Config L) (s : State L) : Action → Prop
  | .step call now =>
    match s.calls call with
    | .lock current number => s.shared.newest ≤ number ∨ s.shared.seen = some current
    | .barrier (.connected _) _ _ =>
      s.shared.barrier = .disconnected → (reconnectUntil cfg now).isSome = true
    | _ => True
  | .publish _ | .ensureHealth _ => True

theorem suspend_same (sh : Shared L) : SameObservation sh (sh.suspend cfg) := by
  unfold Shared.suspend
  split <;> exact ⟨rfl, rfl, rfl, rfl, rfl⟩

theorem suspend_holder (sh : Shared L) : (sh.suspend cfg).holder = sh.holder := by
  unfold Shared.suspend
  split <;> rfl

theorem pause_same (sh : Shared L) : SameObservation sh (sh.pauseAfterReconnect cfg now) := by
  unfold Shared.pauseAfterReconnect
  split <;> exact ⟨rfl, rfl, rfl, rfl, rfl⟩

theorem pause_holder (sh : Shared L) : (sh.pauseAfterReconnect cfg now).holder = sh.holder := by
  unfold Shared.pauseAfterReconnect
  split <;> rfl

theorem pause_barrier {sh : Shared L}
    (h : sh.barrier = .disconnected → (reconnectUntil cfg now).isSome = true) :
    (sh.pauseAfterReconnect cfg now).barrier ≠ .disconnected := by
  unfold Shared.pauseAfterReconnect
  split
  · exact fun hbarrier => by cases hbarrier
  · rename_i hnone
    intro hbarrier
    rw [hnone] at h
    exact absurd (h hbarrier) (by decide)

/-- The barrier was put where it is by another call, or follows `seen`. -/
theorem Observing.barrier_others (h : Observing s) (hpc : (s.calls call).unsettled = none)
    (hbarrier : s.shared.barrier = .disconnected) :
    (∃ c, c ≠ call ∧ (s.calls c).unsettled.isSome = true) ∨
      ∃ state, s.shared.seen = some state ∧ state.isConnected = false := by
  rcases h.barrier hbarrier with ⟨c, hc⟩ | hseen
  · refine .inl ⟨c, ?_, hc⟩
    rintro rfl
    rw [hpc] at hc
    cases hc
  · exact .inr hseen

/-- Under the guard a call is alone. -/
theorem Observing.alone (h : Observing s) (hcall : (s.calls call).guarded = true) {c : CallId}
    (hne : c ≠ call) : (s.calls c).guarded = false := by
  cases hc : (s.calls c).guarded with
  | true => exact absurd (Option.some.inj ((h.guarded c hc).symm.trans (h.guarded call hcall))) hne
  | false => rfl

theorem Observing.step (h : Observing s) (horder : Orderly cfg s (.step call now))
    {moved : Pc × Shared L} (hstep : step cfg call now s.shared (s.calls call) = some moved) :
    Observing (s.at_ call moved) := by
  have hgap := h.calls call
  cases hpc : s.calls call with
  | idle =>
    rw [hpc] at hstep
    cases hstep
  | lock current number =>
    have horder : s.shared.newest ≤ number ∨ s.shared.seen = some current := by
      simpa only [Orderly, hpc] using horder
    rw [hpc] at hstep
    unfold Health.step lockSeen at hstep
    dsimp only at hstep
    split at hstep
    · rename_i hfree
      split at hstep
      · rename_i hseen
        obtain rfl := Option.some.inj hstep
        exact h.look hpc hseen
      · rename_i hseen
        obtain rfl := Option.some.inj hstep
        exact h.change hpc hfree hseen (horder.resolve_right hseen)
    · cases hstep
  | advanceEpoch current invalidate =>
    have hguard := h.guarded call (by rw [hpc]; rfl)
    have hseen := h.unsettled call current (by rw [hpc]; rfl)
    -- The epoch may have been advanced; nothing else has changed.
    have hmoved : ∃ exhausted sh, moved = (.barrier current invalidate exhausted, sh) ∧
        SameObservation s.shared sh ∧ sh.holder = s.shared.holder := by
      rw [hpc] at hstep
      unfold Health.step Shared.advance at hstep
      dsimp only at hstep
      split at hstep
      · split at hstep
        · rename_i hadvance
          split at hadvance
          · obtain rfl := Option.some.inj hadvance
            exact ⟨_, _, (Option.some.inj hstep).symm, ⟨rfl, rfl, rfl, rfl, rfl⟩, rfl⟩
          · cases hadvance
        · exact ⟨_, _, (Option.some.inj hstep).symm, ⟨rfl, rfl, rfl, rfl, rfl⟩, rfl⟩
      · exact ⟨_, _, (Option.some.inj hstep).symm, ⟨rfl, rfl, rfl, rfl, rfl⟩, rfl⟩
    obtain ⟨exhausted, sh, rfl, hsame, hholder⟩ := hmoved
    refine h.quiet rfl (by rw [hpc]; rfl) rfl hsame (fun _ => hholder.trans hguard)
      (fun c _ hc => hholder.trans (h.guarded c hc)) (fun current' heq => ?_) (fun _ => .inl rfl)
    obtain rfl := Option.some.inj heq
    exact hseen
  | barrier current invalidate exhausted =>
    have hguard := h.guarded call (by rw [hpc]; rfl)
    have hseen := h.unsettled call current (by rw [hpc]; rfl)
    rw [hpc] at hstep
    unfold Health.step at hstep
    cases current with
    | connected epoch =>
      have horder : s.shared.barrier = .disconnected → (reconnectUntil cfg now).isSome = true := by
        simpa only [Orderly, hpc] using horder
      obtain rfl := Option.some.inj hstep
      have hsame := @pause_same _ cfg now
        { s.shared with subscriptionAdmitted := true }
      have hholder := @pause_holder _ cfg now
        { s.shared with subscriptionAdmitted := true }
      refine h.quiet rfl (by rw [hpc]; rfl) rfl ⟨hsame.1, hsame.2, hsame.3, hsame.4, hsame.5⟩
        (fun _ => hholder.trans hguard) (fun c _ hc => hholder.trans (h.guarded c hc))
        (fun _ heq => by cases heq) (fun hbarrier => ?_)
      exact absurd hbarrier (pause_barrier horder)
    | disconnected _ | stopped =>
      obtain rfl := Option.some.inj hstep
      exact h.quiet rfl (by rw [hpc]; rfl) rfl (suspend_same s.shared)
        (fun _ => (suspend_holder s.shared).trans hguard)
        (fun c _ hc => (suspend_holder s.shared).trans (h.guarded c hc))
        (fun _ heq => by cases heq) (fun _ => .inr (.inr ⟨_, hseen, rfl⟩))
  | unlock invalidate exhausted =>
    have halone : ∀ c, c ≠ call → (s.calls c).guarded = true → (none : Option CallId) = some c :=
      fun c hne hc => by
        rw [h.alone (by rw [hpc]; rfl) hne] at hc
        cases hc
    rw [hpc] at hstep
    obtain rfl := Option.some.inj hstep
    have hphase : ∀ {P : Pc → Prop}, P (.invalidate exhausted) → P .close → P .idle →
        P (if invalidate then .invalidate exhausted else if exhausted then .close else .idle) :=
      fun hi hc hd => by
        split
        · exact hi
        · split
          · exact hc
          · exact hd
    refine h.quiet (hphase (P := fun pc => pc.inGap = false) rfl rfl rfl) (by rw [hpc]; rfl)
      (hphase (P := fun pc => pc.waiting = none) rfl rfl rfl) ⟨rfl, rfl, rfl, rfl, rfl⟩
      (fun hc => ?_) halone (fun current hc => ?_)
      (fun hbarrier => .inr (h.barrier_others (by rw [hpc]; rfl) hbarrier))
    · rw [hphase (P := fun pc => pc.guarded = false) rfl rfl rfl] at hc
      cases hc
    · rw [hphase (P := fun pc => pc.unsettled = none) rfl rfl rfl] at hc
      cases hc
  | invalidate exhausted =>
    rw [hpc] at hstep
    obtain rfl := Option.some.inj hstep
    cases exhausted <;>
    exact h.quiet rfl (by rw [hpc]; rfl) rfl ⟨rfl, rfl, rfl, rfl, rfl⟩ (fun hc => by cases hc)
      (fun c _ hc => h.guarded c hc) (fun _ hc => by cases hc)
      (fun hbarrier => .inr (h.barrier_others (by rw [hpc]; rfl) hbarrier))
  | close =>
    rw [hpc] at hstep
    obtain rfl := Option.some.inj hstep
    exact h.quiet rfl (by rw [hpc]; rfl) rfl ⟨rfl, rfl, rfl, rfl, rfl⟩ (fun hc => by cases hc)
      (fun c _ hc => h.guarded c hc) (fun _ hc => by cases hc)
      (fun hbarrier => .inr (h.barrier_others (by rw [hpc]; rfl) hbarrier))
  | gapClose | gapInvalidate | gapSuspend =>
    rw [hpc] at hgap
    cases hgap

theorem Observing.next (h : Observing s) {a : Action} (horder : Orderly cfg s a)
    (hnext : next cfg s a = some t) : Observing t := by
  cases a with
  | publish state =>
    obtain ⟨shared, hpublish, rfl⟩ := Option.map_eq_some_iff.mp hnext
    exact h.publish hpublish
  | ensureHealth call =>
    unfold Health.next at hnext
    dsimp only at hnext
    split at hnext
    · rename_i hidle
      obtain ⟨moved, hbegin, rfl⟩ := Option.map_eq_some_iff.mp hnext
      exact h.beginHealth hidle hbegin
    · cases hnext
  | step call now =>
    obtain ⟨moved, hstep, rfl⟩ := Option.map_eq_some_iff.mp hnext
    exact h.step horder hstep

/-- With no call under way, what was read last is what was seen. -/
theorem Observing.settled (h : Observing s) (hidle : ∀ call, s.calls call = .idle)
    {current : BackplaneState} {number : Nat} (hlast : s.shared.lastRead = some (current, number)) :
    s.shared.seen = some current := by
  have hread := h.read _ hlast
  rcases hread.2.2 with heq | ⟨c, current', hc⟩
  · rw [h.seen, heq]
    exact hread.1
  · rw [hidle c] at hc
    cases hc

end

/-- Replay is held back for five seconds after a reconnection. -/
def reconnecting : Config Unit where
  invalidatesOnGap := true
  recovery := some (.fromSecs 5)
  instantMax := 2 ^ 63
  invalidateLayers := id

end Health

end Amalgam
