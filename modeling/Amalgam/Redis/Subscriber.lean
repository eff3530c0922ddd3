import Amalgam.Cache.Health
import Amalgam.Wire.RedisMessage

/-!
# Amalgam — supervising the Redis subscriber

`src/redis_backend.rs`: `RedisBackplane::connect_named` from its first `open_subscriber` on,
`disconnect`, `stop_backplane`, `admit_connected`, `open_subscriber`, `restore_subscriber` and
`supervise_subscriber`. The callbacks of old and new sockets, the supervisor and whoever stops the
backplane run at once, on an incarnation counter, the liveness gate and the watched state. What is
done under the lock of the gate is one step: nobody else sees what the lock guards meanwhile.

* **`subscriber_supervised`** — whoever sees `Connected` finds the gate open for the current
  incarnation, admissions have ever greater epochs, `Stopped` stays, and after the supervisor has
  consumed the loss of a push, a malformed push or a disconnection of an admitted connection, the
  state is `Connected` only with a greater epoch than that connection had.

What Redis answers and which pushes the sockets deliver are inputs. The supervisor has a sender of
the relay itself, so its receiver never finds the relay closed.
-/

namespace Amalgam

namespace Subscriber

open Health (BackplaneState)
open Wire

inductive PushKind where
  | disconnection
  | message
  | subscribe
  | psubscribe
  | ssubscribe
  | unsubscribe
  | punsubscribe
  | sunsubscribe
  | invalidate
  | pmessage
  | smessage
  | other
  /-- The push family is open. -/
  | unknown
deriving DecidableEq

structure PushInfo where
  kind : PushKind
  /-- What `Msg::from_push_info` finds, if it finds a message. -/
  payload : Option Bytes

structure SubscriberPush where
  incarnation : Nat
  info : PushInfo

def decodePush (format : FrameFormat) (info : PushInfo) : Option BackplaneMessage :=
  info.payload.bind fun payload => (decodeMessage format payload).toOption

/-- A broadcast channel, as its one receiver finds it. -/
structure Relay where
  capacity : Nat
  queue : List SubscriberPush
  /-- What was overwritten since the receiver was told last, oldest first. -/
  missed : List SubscriberPush

def Relay.send (relay : Relay) (push : SubscriberPush) : Relay :=
  if relay.queue.length < relay.capacity then { relay with queue := relay.queue ++ [push] }
  else
    { relay with
      queue := relay.queue.tail ++ [push]
      missed := relay.missed ++ relay.queue.head?.toList }

/-- Where the supervisor stands; `connect_named` comes before its first `recv`. -/
inductive Pc where
  | open_ (first : Bool)
  | connect (first : Bool)
  | acknowledged (id : Nat)
  | drain (epoch : Nat)
  | admit_ (first : Bool) (epoch : Nat)
  | recv
  | disconnect
  -- `restore_subscriber`
  | advance
  | sleep
  | returned
deriving DecidableEq

/-- An admission of `Connected`. -/
structure Admission where
  incarnation : Nat
  epoch : Nat

structure State where
  incarnation : Nat
  liveness : Option Nat
  state : BackplaneState
  stop : Bool
  relay : Relay
  /-- What went out to the listeners, newest first. -/
  sent : List BackplaneMessage
  subscriberId : Nat
  dropped : Nat
  malformed : Nat
  acknowledged : Nat
  /-- The newest socket whose callback is set. -/
  opened : Nat
  /-- The callbacks that are past the gate, with the push they are about to relay. -/
  inFlight : List SubscriberPush
  pc : Pc
  /-- Newest first. -/
  admissions : List Admission
  /-- The epochs of connections of which the supervisor has consumed a loss, a malformed push
  or a disconnection. -/
  spent : List Nat

/-- `saturating_add`. -/
def saturatingAdd (n m : Nat) : Nat := min (n + m) u64Max

/-- `ContinuityEpoch::INITIAL`. -/
def initialEpoch : Nat := 1

def disconnect : BackplaneState → BackplaneState
  | .connected epoch | .disconnected epoch => .disconnected epoch
  | .stopped => .stopped

def stopBackplane (s : State) : State :=
  { s with liveness := none, stop := true, state := .stopped }

def admitConnected (s : State) (epoch : Nat) : Bool × State :=
  if s.liveness ≠ some s.incarnation || s.stop then (false, s)
  else
    match s.state with
    | .stopped => (false, s)
    | .connected _ | .disconnected _ =>
      (true,
        { s with
          state := .connected epoch
          admissions := ⟨s.incarnation, epoch⟩ :: s.admissions })

/-- The push callback of a socket, up to its `sender.send`. -/
def callback (s : State) (push : SubscriberPush) : State :=
  let s := { s with inFlight := push :: s.inFlight }
  if push.info.kind = .disconnection ∧ s.incarnation = push.incarnation then
    { s with liveness := none, state := disconnect s.state }
  else s

inductive Verdict where
  | quiet
  | deliver (message : BackplaneMessage)
  | malformed
  | broken
deriving DecidableEq

/-- What a push of the current incarnation says to the supervisor. -/
def judge (format : FrameFormat) (info : PushInfo) : Verdict :=
  match info.kind with
  | .disconnection => .broken
  | .message =>
    match decodePush format info with
    | some message => .deliver message
    | none => .malformed
  | .subscribe | .psubscribe | .ssubscribe | .unsubscribe | .punsubscribe | .sunsubscribe
  | .invalidate | .pmessage | .smessage | .other => .quiet
  | .unknown => .broken

/-- The connections among these that were admitted. -/
def State.spend (s : State) (incarnations : List Nat) : State :=
  { s with
    spent := (s.admissions.filter fun a => a.incarnation ∈ incarnations).map (·.epoch) ++ s.spent }

/-- The incarnation of which a push tells that messages may be missing. -/
def lossOf (format : FrameFormat) (push : SubscriberPush) : List Nat :=
  match judge format push.info with
  | .malformed | .broken => [push.incarnation]
  | .quiet | .deliver _ => []

def State.deliver (s : State) (message : BackplaneMessage) : State :=
  { s with sent := message :: s.sent }

def incarnationsOf (pushes : List SubscriberPush) : List Nat := pushes.map (·.incarnation)

/-- `RecvError::Lagged`. -/
def State.lag (s : State) : State :=
  State.spend
    { s with
      relay.missed := []
      dropped := saturatingAdd s.dropped s.relay.missed.length }
    (incarnationsOf s.relay.missed)

/-- The next push is taken out of the relay. -/
def State.take (s : State) (format : FrameFormat) (push : SubscriberPush)
    (rest : List SubscriberPush) : State :=
  State.spend { s with relay.queue := rest } (lossOf format push)

/-- One round of `receiver.recv()`. -/
def received (format : FrameFormat) (s : State) : Option State :=
  if s.relay.missed ≠ [] then some { s.lag with pc := .disconnect }
  else
    match s.relay.queue with
    | [] => none
    | push :: rest =>
      let t := s.take format push rest
      if push.incarnation ≠ s.incarnation then some t
      else
        match judge format push.info with
        | .quiet => some t
        | .deliver message => some (t.deliver message)
        | .malformed => some { t with malformed := saturatingAdd t.malformed 1, pc := .disconnect }
        | .broken => some { t with pc := .disconnect }

/-- One round of `receiver.try_recv()`, after an acknowledged `SUBSCRIBE`. -/
def drained (format : FrameFormat) (s : State) (epoch : Nat) : State :=
  if s.relay.missed ≠ [] then s.lag
  else
    match s.relay.queue with
    | [] => { s with pc := .admit_ false epoch }
    | push :: rest =>
      let t := s.take format push rest
      if push.incarnation = s.incarnation ∧ push.info.kind = .message then
        match decodePush format push.info with
        | some message => t.deliver message
        | none => t
      else t

/-- A step of the supervisor; `connected` is the client id that Redis gave, if it answered. -/
def supervise (format : FrameFormat) (connected : Option Nat) (s : State) : Option State :=
  match s.pc with
  | .open_ first =>
    some { s with liveness := some s.incarnation, opened := s.incarnation, pc := .connect first }
  | .connect first =>
    match connected.filter (· ≠ 0), first with
    | some id, true =>
      some { s with subscriberId := id, acknowledged := 1, pc := .admit_ true initialEpoch }
    | some id, false => some { s with pc := .acknowledged id }
    | none, true => some { s with pc := .returned }
    | none, false => some { s with pc := .sleep }
  | .acknowledged id =>
    match s.state with
    | .connected epoch | .disconnected epoch =>
      if epoch < u64Max then
        some { s with
          subscriberId := id
          acknowledged := saturatingAdd s.acknowledged 1
          pc := .drain (epoch + 1) }
      else some { s with pc := .sleep }
    | .stopped => some { s with pc := .sleep }
  | .drain epoch => some (drained format s epoch)
  | .admit_ first epoch =>
    match admitConnected s epoch with
    | (true, s) => some { s with pc := .recv }
    | (false, s) => some { s with pc := if first then .returned else .advance }
  | .recv => received format s
  | .disconnect => some { s with state := disconnect s.state, pc := .advance }
  | .advance =>
    if s.incarnation < u64Max then
      some { s with incarnation := s.incarnation + 1, pc := .open_ false }
    else some { s with pc := .sleep }
  | .sleep => some { s with pc := .advance }
  | .returned => none

inductive Action where
  | supervise (connected : Option Nat)
  /-- A socket calls back. -/
  | callback (push : SubscriberPush)
  /-- A callback sends its push. -/
  | relay (index : Nat)
  | stop
  /-- The supervisor finds that it was told to stop, or is aborted after that. -/
  | halt

def next (format : FrameFormat) (s : State) : Action → Option State
  | .supervise connected => supervise format connected s
  | .callback push =>
    if 0 < push.incarnation ∧ push.incarnation ≤ s.opened then some (callback s push) else none
  | .relay index =>
    s.inFlight[index]?.map fun push =>
      { s with inFlight := s.inFlight.eraseIdx index, relay := s.relay.send push }
  | .stop => some (stopBackplane s)
  | .halt => if s.stop then some { s with pc := .returned } else none

/-- A backplane before its first connection; the channel rounds the capacity it is asked for up. -/
def init (capacity : Nat) : State where
  incarnation := 1
  liveness := none
  state := .disconnected initialEpoch
  stop := false
  relay := ⟨capacity, [], []⟩
  sent := []
  subscriberId := 0
  dropped := 0
  malformed := 0
  acknowledged := 0
  opened := 0
  inFlight := []
  pc := .open_ true
  admissions := []
  spent := []

/-! ## The invariant -/

/-- The phases in which the state may be `Connected`. -/
def Pc.settled : Pc → Bool
  | .recv | .disconnect => true
  | _ => false

/-- The phases in which the incarnation has not been admitted. -/
def Pc.fresh : Pc → Bool
  | .open_ _ | .connect _ | .acknowledged _ | .drain _ | .admit_ _ _ => true
  | _ => false

/-- The phases of `connect_named`. -/
def Pc.first : Pc → Bool
  | .open_ first | .connect first | .admit_ first _ => first
  | _ => false

/-- The epoch that is to be admitted. -/
def Pc.candidate : Pc → Option Nat
  | .drain epoch | .admit_ _ epoch => some epoch
  | _ => none

/-- The epoch of the newest admission, as the state remembers it. -/
def lastEpoch : BackplaneState → Option Nat
  | .connected epoch | .disconnected epoch => some epoch
  | .stopped => none

structure Supervised (s : State) : Prop where
  stopped : s.stop = true → s.state = .stopped
  connected : ∀ epoch, s.state = .connected epoch →
    s.liveness = some s.incarnation ∧ s.admissions.head? = some ⟨s.incarnation, epoch⟩ ∧
      s.pc.settled = true
  ordered : s.admissions.Pairwise fun later earlier =>
    earlier.incarnation < later.incarnation ∧ earlier.epoch < later.epoch
  incarnations : ∀ a ∈ s.admissions,
    a.incarnation ≤ s.incarnation ∧ (s.pc.fresh = true → a.incarnation < s.incarnation)
  epochs : ∀ a ∈ s.admissions, ∀ epoch, lastEpoch s.state = some epoch → a.epoch ≤ epoch
  candidate : ∀ a ∈ s.admissions, ∀ epoch, s.pc.candidate = some epoch → a.epoch < epoch
  first : s.pc.first = true → s.admissions = []
  /-- What was consumed of a connection ends its epoch. -/
  spent : ∀ epoch ∈ s.spent, (∃ a ∈ s.admissions, a.epoch = epoch) ∧
    (s.state = .connected epoch → s.pc = .disconnect)

/-- What one step leaves for all time. -/
structure Keeps (s t : State) : Prop where
  stopped : s.state = .stopped → t.state = .stopped
  spent : ∀ epoch ∈ s.spent, epoch ∈ t.spent
  again : ∀ epoch ∈ s.spent, s.state ≠ .connected epoch → t.state ≠ .connected epoch

variable {s t u : State} {format : FrameFormat}

theorem Keeps.refl (s : State) : Keeps s s := ⟨id, fun _ h => h, fun _ _ h => h⟩

theorem Keeps.trans (hst : Keeps s t) (htu : Keeps t u) : Keeps s u where
  stopped := fun h => htu.stopped (hst.stopped h)
  spent := fun epoch h => htu.spent epoch (hst.spent epoch h)
  again := fun epoch hspent h =>
    htu.again epoch (hst.spent epoch hspent) (hst.again epoch hspent h)

/-- The state does not change. -/
theorem Keeps.same (hstate : t.state = s.state) (hspent : ∀ epoch ∈ s.spent, epoch ∈ t.spent) :
    Keeps s t := by
  refine ⟨fun h => hstate.trans h, hspent, fun epoch _ h => ?_⟩
  rw [hstate]
  exact h

theorem disconnect_ne_connected (state : BackplaneState) (epoch : Nat) :
    disconnect state ≠ .connected epoch := by
  cases state <;> exact nofun

theorem lastEpoch_disconnect (state : BackplaneState) :
    lastEpoch (disconnect state) = lastEpoch state := by
  cases state <;> rfl

/-- Whoever has left `recv` and `disconnect` finds no connection. -/
theorem Supervised.unsettled (h : Supervised s) (hpc : s.pc.settled = false) (epoch : Nat) :
    s.state ≠ .connected epoch := fun hstate => by
  have hsettled := (h.connected epoch hstate).2.2
  rw [hpc] at hsettled
  cases hsettled

/-- The state is no longer `Connected`, whatever the gate is. -/
theorem Supervised.lose (h : Supervised s) (liveness : Option Nat) :
    Supervised { s with liveness, state := disconnect s.state } :=
  { h with
    stopped := fun hstop => by
      show disconnect s.state = .stopped
      rw [h.stopped hstop]
      rfl
    connected := fun epoch hstate => absurd hstate (disconnect_ne_connected s.state epoch)
    epochs := fun a ha epoch hlast => by
      have hlast : lastEpoch (disconnect s.state) = some epoch := hlast
      rw [lastEpoch_disconnect] at hlast
      exact h.epochs a ha epoch hlast
    spent := fun epoch hspent => ⟨(h.spent epoch hspent).1, fun hstate =>
      absurd hstate (disconnect_ne_connected s.state epoch)⟩ }

theorem Keeps.lose (s : State) (liveness : Option Nat) :
    Keeps s { s with liveness, state := disconnect s.state } := by
  refine ⟨fun h => ?_, fun _ h => h, fun epoch _ _ => disconnect_ne_connected s.state epoch⟩
  show disconnect s.state = .stopped
  rw [h]
  rfl

/-- Where there is no connection, the supervisor moves on. -/
theorem Supervised.goto (h : Supervised s) {pc : Pc} (hlost : ∀ epoch, s.state ≠ .connected epoch)
    (hfresh : pc.fresh = true → s.pc.fresh = true)
    (hcandidate : ∀ a ∈ s.admissions, ∀ epoch, pc.candidate = some epoch → a.epoch < epoch)
    (hfirst : pc.first = true → s.admissions = []) : Supervised { s with pc } :=
  { h with
    connected := fun epoch hstate => absurd hstate (hlost epoch)
    incarnations := fun a ha => ⟨(h.incarnations a ha).1, fun hpc =>
      (h.incarnations a ha).2 (hfresh hpc)⟩
    candidate := hcandidate
    first := hfirst
    spent := fun epoch hspent => ⟨(h.spent epoch hspent).1, fun hstate =>
      absurd hstate (hlost epoch)⟩ }

theorem mem_spend {incarnations : List Nat} {epoch : Nat} :
    epoch ∈ (s.spend incarnations).spent ↔
      (∃ a ∈ s.admissions, a.incarnation ∈ incarnations ∧ a.epoch = epoch) ∨ epoch ∈ s.spent := by
  unfold State.spend
  rw [List.mem_append, List.mem_map]
  simp only [List.mem_filter, decide_eq_true_eq, and_assoc]

/-- What was consumed of other connections leaves the present one alone. -/
theorem Supervised.spend (h : Supervised s) {incarnations : List Nat}
    (hother : ∀ epoch, s.state = .connected epoch →
      s.pc = .disconnect ∨ s.incarnation ∉ incarnations) :
    Supervised (s.spend incarnations) := by
  refine { h with spent := fun epoch hspent => ?_ }
  rcases mem_spend.mp hspent with ⟨a, ha, hmem, rfl⟩ | hold
  · refine ⟨⟨a, ha, rfl⟩, fun hstate => ?_⟩
    refine (hother a.epoch hstate).resolve_right fun hnot => hnot ?_
    -- The newest admission is the only one with this epoch.
    obtain ⟨rest, hadmissions⟩ := List.head?_eq_some_iff.mp (h.connected a.epoch hstate).2.1
    have hordered := h.ordered
    rw [hadmissions] at ha hordered
    rcases List.mem_cons.mp ha with heq | hrest
    · rw [heq] at hmem
      exact hmem
    · have hlt := ((List.pairwise_cons.mp hordered).1 a hrest).2
      exact absurd hlt (Nat.lt_irrefl _)
  · exact h.spent epoch hold

theorem Keeps.spend (s : State) (incarnations : List Nat) : Keeps s (s.spend incarnations) :=
  .same rfl fun _ h => mem_spend.mpr (.inr h)

/-- The supervisor has consumed something and goes on to `disconnect`. -/
theorem Supervised.consumed (h : Supervised s) (incarnations : List Nat) :
    Supervised { s.spend incarnations with pc := .disconnect } :=
  { h with
    connected := fun epoch hstate =>
      ⟨(h.connected epoch hstate).1, (h.connected epoch hstate).2.1, rfl⟩
    incarnations := fun a ha => ⟨(h.incarnations a ha).1, nofun⟩
    candidate := fun _ _ _ => nofun
    first := nofun
    spent := fun epoch hspent => by
      refine ⟨?_, fun _ => rfl⟩
      rcases mem_spend.mp hspent with ⟨a, ha, -, heq⟩ | hold
      · exact ⟨a, ha, heq⟩
      · exact (h.spent epoch hold).1 }

theorem Supervised.stop (h : Supervised s) : Supervised (stopBackplane s) :=
  { h with
    stopped := fun _ => rfl
    connected := nofun
    epochs := fun _ _ _ => nofun
    spent := fun epoch hspent => ⟨(h.spent epoch hspent).1, nofun⟩ }

theorem Supervised.callback (h : Supervised s) (push : SubscriberPush) :
    Supervised (callback s push) ∧ Keeps s (callback s push) := by
  unfold Subscriber.callback
  dsimp only
  split
  · exact ⟨{ h.lose none with }, ⟨(Keeps.lose s none).1, (Keeps.lose s none).2, (Keeps.lose s none).3⟩⟩
  · exact ⟨{ h with }, .same rfl fun _ hb => hb⟩

/-- **An admission** has a greater epoch than all earlier ones, and than all that is spent. -/
theorem Supervised.admitted (h : Supervised s) {first : Bool} {epoch : Nat}
    (hpc : s.pc = .admit_ first epoch) (hlive : s.liveness = some s.incarnation)
    (hstop : s.stop = false) (hstate : s.state ≠ .stopped) :
    Supervised { s with
      state := .connected epoch
      admissions := ⟨s.incarnation, epoch⟩ :: s.admissions
      pc := .recv } ∧
    Keeps s { s with
      state := .connected epoch
      admissions := ⟨s.incarnation, epoch⟩ :: s.admissions
      pc := .recv } := by
  have hless : ∀ a ∈ s.admissions, a.incarnation < s.incarnation ∧ a.epoch < epoch := fun a ha =>
    ⟨(h.incarnations a ha).2 (by rw [hpc]; rfl), h.candidate a ha epoch (by rw [hpc]; rfl)⟩
  have hspent : ∀ e ∈ s.spent, e < epoch := fun e he => by
    obtain ⟨a, ha, rfl⟩ := (h.spent e he).1
    exact (hless a ha).2
  refine ⟨⟨fun hc => ?_, fun e he => ?_, ?_, fun a ha => ?_, fun a ha e he => ?_,
    fun _ _ _ => nofun, nofun, fun e he => ⟨?_, fun hconnected => ?_⟩⟩,
    ⟨fun hc => absurd hc hstate, fun _ he => he, fun e he _ hconnected => ?_⟩⟩
  · exact absurd (hstop.symm.trans hc) nofun
  · cases he
    exact ⟨hlive, rfl, rfl⟩
  · exact List.pairwise_cons.mpr ⟨hless, h.ordered⟩
  · rcases List.mem_cons.mp ha with rfl | hold
    · exact ⟨Nat.le_refl _, nofun⟩
    · exact ⟨(h.incarnations a hold).1, nofun⟩
  · obtain rfl := Option.some.inj he
    rcases List.mem_cons.mp ha with rfl | hold
    · exact Nat.le_refl _
    · exact Nat.le_of_lt (hless a hold).2
  · obtain ⟨a, ha, heq⟩ := (h.spent e he).1
    exact ⟨a, List.mem_cons_of_mem _ ha, heq⟩
  · have heq : epoch = e := BackplaneState.connected.inj hconnected
    have hlt := hspent e he
    omega
  · have heq : epoch = e := BackplaneState.connected.inj hconnected
    have hlt := hspent e he
    omega

/-- The gate refuses, or the state is `Connected`. -/
theorem admitConnected_cases (s : State) (epoch : Nat) :
    admitConnected s epoch = (false, s) ∨
      s.liveness = some s.incarnation ∧ s.stop = false ∧ s.state ≠ .stopped ∧
        admitConnected s epoch = (true, { s with
          state := .connected epoch
          admissions := ⟨s.incarnation, epoch⟩ :: s.admissions }) := by
  unfold admitConnected
  split
  · exact .inl rfl
  · rename_i hgate
    obtain ⟨hlive, hstop⟩ : s.liveness = some s.incarnation ∧ s.stop = false := by
      simpa using hgate
    cases hstate : s.state with
    | stopped => exact .inl rfl
    | connected _ | disconnected _ => exact .inr ⟨hlive, hstop, nofun, rfl⟩

/-! ## Steps and runs -/

theorem Supervised.received (h : Supervised s)
    (hnext : received format s = some t) : Supervised t ∧ Keeps s t := by
  unfold Subscriber.received at hnext
  split at hnext
  · obtain rfl := Option.some.inj hnext
    exact ⟨{ h.consumed (incarnationsOf s.relay.missed) with },
      .same rfl fun _ hb => mem_spend.mpr (.inr hb)⟩
  · split at hnext
    · cases hnext
    · rename_i push rest _
      have hkept : ∀ epoch ∈ s.spent, epoch ∈ (s.take format push rest).spent := fun _ hb =>
        mem_spend.mpr (.inr hb)
      dsimp only at hnext
      split at hnext
      · -- A push of an older socket says nothing of the present connection.
        rename_i hstale
        obtain rfl := Option.some.inj hnext
        have hspend : Supervised (s.spend (lossOf format push)) := by
          refine h.spend fun _ _ => .inr fun hmem => ?_
          unfold lossOf at hmem
          split at hmem
          · exact hstale (List.mem_singleton.mp hmem).symm
          · exact hstale (List.mem_singleton.mp hmem).symm
          · cases hmem
          · cases hmem
        exact ⟨{ hspend with }, .same rfl hkept⟩
      · have hquiet : lossOf format push = [] → Supervised (s.take format push rest) :=
          fun hnone => by
            have hspend : Supervised (s.spend (lossOf format push)) :=
              h.spend fun _ _ => .inr (by rw [hnone]; exact List.not_mem_nil)
            exact { hspend with }
        split at hnext <;> rename_i hjudge <;> obtain rfl := Option.some.inj hnext
        · exact ⟨hquiet (by rw [lossOf, hjudge]), .same rfl hkept⟩
        · exact ⟨{ hquiet (by rw [lossOf, hjudge]) with }, .same rfl hkept⟩
        · exact ⟨{ h.consumed (lossOf format push) with }, .same rfl hkept⟩
        · exact ⟨{ h.consumed (lossOf format push) with }, .same rfl hkept⟩

theorem Supervised.drained (h : Supervised s) {epoch : Nat} (hpc : s.pc = .drain epoch) :
    Supervised (drained format s epoch) ∧ Keeps s (drained format s epoch) := by
  have hlost := h.unsettled (by rw [hpc]; rfl)
  have hspend : ∀ incarnations, Supervised (s.spend incarnations) := fun incarnations =>
    h.spend fun e he => absurd he (hlost e)
  unfold Subscriber.drained
  split
  · exact ⟨{ hspend (incarnationsOf s.relay.missed) with },
      .same rfl fun _ hb => mem_spend.mpr (.inr hb)⟩
  · split
    · refine ⟨h.goto hlost (fun _ => by rw [hpc]; rfl) (fun a ha e he => ?_) nofun,
        .same rfl fun _ hb => hb⟩
      obtain rfl := Option.some.inj he
      exact h.candidate a ha epoch (by rw [hpc]; rfl)
    · rename_i push rest _
      have htake : Supervised (s.take format push rest) := { hspend (lossOf format push) with }
      have hkept : ∀ e ∈ s.spent, e ∈ (s.take format push rest).spent := fun _ hb =>
        mem_spend.mpr (.inr hb)
      dsimp only
      split
      · split
        · exact ⟨{ htake with }, .same rfl hkept⟩
        · exact ⟨htake, .same rfl hkept⟩
      · exact ⟨htake, .same rfl hkept⟩

theorem Supervised.supervise (h : Supervised s) {connected : Option Nat}
    (hnext : supervise format connected s = some t) : Supervised t ∧ Keeps s t := by
  have hkept : ∀ epoch ∈ s.spent, epoch ∈ s.spent := fun _ hb => hb
  unfold Subscriber.supervise at hnext
  cases hpc : s.pc with
  | open_ first =>
    rw [hpc] at hnext
    obtain rfl := Option.some.inj hnext
    have hlost := h.unsettled (by rw [hpc]; rfl)
    have hmoved : Supervised { s with pc := .connect first } :=
      h.goto hlost (fun _ => by rw [hpc]; rfl) (fun _ _ _ => nofun)
        (fun hfirst => h.first (by rw [hpc]; exact hfirst))
    exact ⟨{ hmoved with connected := fun epoch hstate => absurd hstate (hlost epoch) },
      .same rfl hkept⟩
  | connect first =>
    rw [hpc] at hnext
    have hlost := h.unsettled (by rw [hpc]; rfl)
    dsimp only at hnext
    split at hnext <;> obtain rfl := Option.some.inj hnext
    · have hnone := h.first (by rw [hpc]; rfl)
      have hmoved : Supervised { s with pc := .admit_ true initialEpoch } :=
        h.goto hlost (fun _ => by rw [hpc]; rfl) (fun a ha => by rw [hnone] at ha; cases ha)
          (fun _ => hnone)
      exact ⟨{ hmoved with }, .same rfl hkept⟩
    · exact ⟨h.goto hlost (fun _ => by rw [hpc]; rfl) (fun _ _ _ => nofun) nofun, .same rfl hkept⟩
    · exact ⟨h.goto hlost nofun (fun _ _ _ => nofun) nofun, .same rfl hkept⟩
    · exact ⟨h.goto hlost nofun (fun _ _ _ => nofun) nofun, .same rfl hkept⟩
  | acknowledged id =>
    rw [hpc] at hnext
    have hlost := h.unsettled (by rw [hpc]; rfl)
    have hsleep : Supervised { s with pc := .sleep } :=
      h.goto hlost nofun (fun _ _ _ => nofun) nofun
    dsimp only at hnext
    split at hnext
    · rename_i epoch hstate
      exact absurd hstate (hlost epoch)
    · rename_i epoch hstate
      split at hnext <;> obtain rfl := Option.some.inj hnext
      · have hmoved : Supervised { s with pc := .drain (epoch + 1) } := by
          refine h.goto hlost (fun _ => by rw [hpc]; rfl) (fun a ha e he => ?_) nofun
          obtain rfl := Option.some.inj he
          exact Nat.lt_succ_of_le (h.epochs a ha epoch (by rw [hstate]; rfl))
        exact ⟨{ hmoved with }, .same rfl hkept⟩
      · exact ⟨hsleep, .same rfl hkept⟩
    · obtain rfl := Option.some.inj hnext
      exact ⟨hsleep, .same rfl hkept⟩
  | drain epoch =>
    rw [hpc] at hnext
    obtain rfl := Option.some.inj hnext
    exact h.drained hpc
  | admit_ first epoch =>
    rw [hpc] at hnext
    dsimp only at hnext
    rcases admitConnected_cases s epoch with hrefused | ⟨hlive, hstop, hstate, hadmitted⟩
    · rw [hrefused] at hnext
      obtain rfl := Option.some.inj hnext
      refine ⟨h.goto (h.unsettled (by rw [hpc]; rfl)) ?_ ?_ ?_, .same rfl hkept⟩ <;>
      cases first <;> exact nofun
    · rw [hadmitted] at hnext
      obtain rfl := Option.some.inj hnext
      exact h.admitted hpc hlive hstop hstate
  | recv =>
    rw [hpc] at hnext
    exact h.received hnext
  | disconnect =>
    rw [hpc] at hnext
    obtain rfl := Option.some.inj hnext
    have hlose := h.lose s.liveness
    refine ⟨hlose.goto (disconnect_ne_connected s.state) nofun (fun _ _ _ => nofun) nofun, ?_⟩
    exact ⟨(Keeps.lose s s.liveness).1, hkept, (Keeps.lose s s.liveness).3⟩
  | advance =>
    rw [hpc] at hnext
    have hlost := h.unsettled (by rw [hpc]; rfl)
    dsimp only at hnext
    split at hnext <;> obtain rfl := Option.some.inj hnext
    · refine ⟨{ h with
        connected := fun epoch hstate => absurd hstate (hlost epoch)
        incarnations := fun a ha => ?_
        candidate := fun _ _ _ => nofun
        first := nofun
        spent := fun epoch hspent => ⟨(h.spent epoch hspent).1, fun hstate =>
          absurd hstate (hlost epoch)⟩ }, .same rfl hkept⟩
      have hle := (h.incarnations a ha).1
      exact ⟨Nat.le_succ_of_le hle, fun _ => Nat.lt_succ_of_le hle⟩
    · exact ⟨h.goto hlost nofun (fun _ _ _ => nofun) nofun, .same rfl hkept⟩
  | sleep =>
    rw [hpc] at hnext
    obtain rfl := Option.some.inj hnext
    exact ⟨h.goto (h.unsettled (by rw [hpc]; rfl)) nofun (fun _ _ _ => nofun) nofun, .same rfl hkept⟩
  | returned =>
    rw [hpc] at hnext
    cases hnext

theorem Supervised.next (h : Supervised s) {a : Action} (hnext : next format s a = some t) :
    Supervised t ∧ Keeps s t := by
  cases a with
  | supervise connected => exact h.supervise hnext
  | callback push =>
    unfold Subscriber.next at hnext
    dsimp only at hnext
    split at hnext
    · obtain rfl := Option.some.inj hnext
      exact h.callback push
    · cases hnext
  | relay index =>
    obtain ⟨push, -, rfl⟩ := Option.map_eq_some_iff.mp hnext
    exact ⟨{ h with }, .same rfl fun _ hb => hb⟩
  | stop =>
    obtain rfl := Option.some.inj hnext
    exact ⟨h.stop, ⟨fun _ => rfl, fun _ hb => hb, fun _ _ _ => nofun⟩⟩
  | halt =>
    unfold Subscriber.next at hnext
    dsimp only at hnext
    split at hnext
    · rename_i hstop
      obtain rfl := Option.some.inj hnext
      have hlost : ∀ epoch, s.state ≠ .connected epoch := fun epoch hstate =>
        absurd ((h.stopped hstop).symm.trans hstate) nofun
      exact ⟨h.goto hlost nofun (fun _ _ _ => nofun) nofun, .same rfl fun _ hb => hb⟩
    · cases hnext

theorem Supervised.init (capacity : Nat) : Supervised (init capacity) where
  stopped := nofun
  connected := nofun
  ordered := .nil
  incarnations := nofun
  epochs := nofun
  candidate := nofun
  first := fun _ => rfl
  spent := nofun

theorem Supervised.exec (h : Supervised s) {as : List Action}
    (hexec : Run.exec (Subscriber.next format) s as = some t) : Supervised t ∧ Keeps s t :=
  Run.exec_invariant (I := fun t => Supervised t ∧ Keeps s t)
    (fun _ _ _ hs hn => ⟨(hs.1.next hn).1, hs.2.trans (hs.1.next hn).2⟩) ⟨h, .refl s⟩ hexec

/-- What holds wherever a run has come, and whatever happens later. -/
theorem subscriber_supervised (format : FrameFormat) (capacity : Nat) {as : List Action}
    {s : State} (hexec : Run.exec (next format) (init capacity) as = some s) :
    (∀ epoch, s.state = .connected epoch → s.liveness = some s.incarnation) ∧
      (s.admissions.Pairwise fun later earlier => earlier.epoch < later.epoch) ∧
      ∀ bs t, Run.exec (next format) s bs = some t →
        (s.state = .stopped → t.state = .stopped) ∧
          ∀ lost ∈ s.spent, s.pc ≠ .disconnect →
            ∀ epoch, t.state = .connected epoch → lost < epoch := by
  obtain ⟨hs, -⟩ := (Supervised.init capacity).exec hexec
  refine ⟨fun epoch hstate => (hs.connected epoch hstate).1, hs.ordered.imp And.right,
    fun bs t hrest => ?_⟩
  obtain ⟨ht, hkeeps⟩ := hs.exec hrest
  refine ⟨hkeeps.stopped, fun lost hlost hpc epoch hstate => ?_⟩
  obtain ⟨a, ha, heq⟩ := (ht.spent lost (hkeeps.spent lost hlost)).1
  have hle : a.epoch ≤ epoch := ht.epochs a ha epoch (by rw [hstate]; rfl)
  have hne : epoch ≠ lost := fun heq => by
    rw [heq] at hstate
    exact hkeeps.again lost hlost (fun hs' => hpc ((hs.spent lost hlost).2 hs')) hstate
  omega

/-- Two pushes in a relay that holds one. -/
def lagging : List Action :=
  let push : SubscriberPush := ⟨1, .message, none⟩
  [.supervise none, .supervise (some 7), .supervise none, .callback push, .callback push, .relay 0,
    .relay 0, .supervise none, .supervise none]

/-- The supervisor reconnects. -/
def reconnecting : List Action :=
  [.supervise none, .supervise none, .supervise (some 8), .supervise none, .supervise none,
    .supervise none, .supervise none]

theorem subscriber_supervised_lag :
    (Run.exec (next jsonFrames) (init 1) lagging).map (·.spent) = some [1] ∧
    (Run.exec (next jsonFrames) (init 1) (lagging ++ reconnecting)).map (·.state) =
      some (.connected 2) ∧
    ∀ s, Run.exec (next jsonFrames) (init 1) lagging = some s →
      ∀ t, Run.exec (next jsonFrames) s reconnecting = some t →
        s.pc ≠ .disconnect → ∀ lost ∈ s.spent, ∀ epoch, t.state = .connected epoch → lost < epoch :=
  ⟨by decide, by decide, fun s hexec t hrest hpc lost hlost =>
    ((subscriber_supervised jsonFrames 1 hexec).2.2 reconnecting t hrest).2 lost hlost hpc⟩

end Subscriber

end Amalgam
