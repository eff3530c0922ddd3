import Amalgam.Entry
import Amalgam.Lib.Cursor
import Amalgam.Lib.Run

/-!
# Amalgam — the stream of evicted values

`src/events/eviction.rs`: a hub that comes into being with its first subscription keeps the latest
events, as many as its capacity allows, and every subscription reads them with a cursor of its own.
Each operation holds the lock of the hub and is one step.

* **`eviction_stream_delivery`** — every event that was accepted since a subscription began is
  received by it in its order, counted as lost, or still ahead of its cursor.
-/

namespace Amalgam

namespace EvictionStream

open Cursor (Accounts)
open Run (Reachable)

/-! ## The hub -/

inductive MemoryEvictionReason where
  | removed
  | replaced
  | expired
  | capacity
deriving DecidableEq

structure MemoryEviction (K V : Type) where
  key : K
  reason : MemoryEvictionReason
  entry : Entry V

inductive Phase where
  | open_
  | closed
deriving DecidableEq

structure Frame (K V : Type) where
  sequence : Nat
  event : MemoryEviction K V

structure Hub (K V : Type) where
  phase : Phase
  next : Nat
  frames : List (Frame K V)
  receivers : Nat

/-- `MemoryEvictionSubscription`, without its handle of the hub. -/
structure Subscription where
  next : Nat
  lost : Nat

inductive Receive (K V : Type) where
  | event (frame : Frame K V)
  | empty
  | closed
  /-- The index panics. -/
  | outOfRange

def u128Max : Nat := 2 ^ 128 - 1

variable {K V : Type}

def Hub.new : Hub K V := ⟨.open_, 0, [], 0⟩

/-- The sequence number of the first frame, or else the next one. -/
def Hub.oldest (hub : Hub K V) : Nat := hub.frames.head?.elim hub.next Frame.sequence

/-- `push_back`, and `pop_front` where there are too many. -/
def push (capacity : Nat) (frames : List (Frame K V)) (frame : Frame K V) : List (Frame K V) :=
  if capacity < (frames ++ [frame]).length then (frames ++ [frame]).tail else frames ++ [frame]

/-- What the push drops. -/
def retired (capacity : Nat) (frames : List (Frame K V)) (frame : Frame K V) :
    Option (Frame K V) :=
  if capacity < (frames ++ [frame]).length then (frames ++ [frame]).head? else none

/-- `emit`, with the frame that was accepted and the entry that is returned. -/
def Hub.emit (capacity : Nat) (hub : Hub K V) (event : MemoryEviction K V) :
    Option (Frame K V) × Option (Entry V) × Hub K V :=
  if hub.phase = .closed ∨ hub.receivers = 0 then (none, none, hub)
  else if hub.next < u128Max then
    let frame := ⟨hub.next, event⟩
    (some frame, (retired capacity hub.frames frame).map (·.event.entry),
      { hub with next := hub.next + 1, frames := push capacity hub.frames frame })
  else (none, none, { hub with phase := .closed })

/-- What a subscription does about frames that it can no longer read. -/
def Subscription.catchUp (sub : Subscription) (oldest : Nat) : Subscription :=
  if sub.next < oldest then
    { next := oldest, lost := min (sub.lost + min (oldest - sub.next) u64Max) u64Max }
  else sub

/-- `try_recv`; the index is cut to a `usize`. -/
def Hub.tryRecv (hub : Hub K V) (sub : Subscription) : Receive K V × Subscription :=
  let sub := sub.catchUp hub.oldest
  if sub.next < hub.next then
    match hub.frames[(sub.next - hub.oldest) % 2 ^ 64]? with
    | some frame => (.event frame, { sub with next := sub.next + 1 })
    | none => (.outOfRange, sub)
  else
    match hub.phase with
    | .open_ => (.empty, sub)
    | .closed => (.closed, sub)

/-! ## Runs -/

/-- A subscription, the sequence number at which it began and what it has received. -/
structure Listener (K V : Type) where
  sub : Subscription
  since : Nat
  received : List (Frame K V)

structure State (K V : Type) where
  /-- The handles of the producer are not all dropped. -/
  producer : Bool
  stream : Option (Hub K V)
  listeners : AList fun _ : Nat => Listener K V
  /-- Every frame that was accepted. -/
  accepted : List (Frame K V)

def init : State K V := ⟨true, none, ∅, []⟩

inductive Action (K V : Type) where
  | emit (event : MemoryEviction K V)
  | subscribe (i : Nat)
  | tryRecv (i : Nat)
  | drop (i : Nat)
  | dropProducer

/-- What the `Ok` of a `try_recv` adds. -/
def Receive.frame : Receive K V → List (Frame K V)
  | .event frame => [frame]
  | .empty | .closed | .outOfRange => []

/-- `limit` is the argument of `with_capacity`. -/
def next (limit : Nat) (s : State K V) : Action K V → Option (State K V)
  | .emit event =>
    if s.producer then
      match s.stream with
      | none => some s
      | some hub =>
        let (frame, _, hub) := hub.emit (max limit 1) event
        some { s with stream := some hub, accepted := s.accepted ++ frame.toList }
    else none
  | .subscribe i =>
    if s.producer ∧ s.listeners.lookup i = none then
      let hub := s.stream.getD .new
      some { s with
        stream := some { hub with receivers := hub.receivers + 1 }
        listeners := s.listeners.insert i ⟨⟨hub.next, 0⟩, hub.next, []⟩ }
    else none
  | .tryRecv i =>
    match s.stream, s.listeners.lookup i with
    | some hub, some listener =>
      let (result, sub) := hub.tryRecv listener.sub
      some { s with
        listeners := s.listeners.insert i
          { listener with sub, received := listener.received ++ result.frame } }
    | _, _ => none
  | .drop i =>
    match s.stream, s.listeners.lookup i with
    | some hub, some _ =>
      some { s with
        stream := some { hub with
          frames := if hub.receivers = 1 then [] else hub.frames
          receivers := hub.receivers - 1 }
        listeners := s.listeners.erase i }
    | _, _ => none
  | .dropProducer =>
    some { s with
      producer := false
      stream := s.stream.map fun hub => { hub with phase := .closed } }

/-! ## The invariant -/

/-- The lost counter stops at its largest value. -/
def saturated (missed : Nat) : Nat := min missed u64Max

/-- Each frame bears the number of the frames before it. -/
def Numbered (accepted : List (Frame K V)) : Prop :=
  ∀ (i : Nat) (frame : Frame K V), accepted[i]? = some frame → frame.sequence = i

structure HubSound (limit : Nat) (hub : Hub K V) (accepted : List (Frame K V)) (listeners : Nat) :
    Prop where
  next : hub.next = accepted.length
  latest : hub.frames <:+ accepted
  short : hub.frames.length ≤ max limit 1
  receivers : hub.receivers = listeners
  idle : listeners = 0 → hub.frames = []

structure ListenerSound (accepted : List (Frame K V)) (listener : Listener K V) : Prop where
  accounts : ∃ missed, listener.sub.lost = saturated missed ∧
    Accounts accepted listener.since listener.sub.next listener.received missed

structure Sound (limit : Nat) (s : State K V) : Prop where
  numbered : Numbered s.accepted
  hub : ∀ hub, s.stream = some hub → HubSound limit hub s.accepted s.listeners.size
  absent : s.stream = none → s.accepted = [] ∧ s.listeners = ∅
  listeners : ∀ i listener, s.listeners.lookup i = some listener →
    ListenerSound s.accepted listener

variable {limit : Nat} {s t : State K V} {hub : Hub K V} {accepted : List (Frame K V)}
  {listeners : Nat}

theorem sound_init : Sound limit (init : State K V) where
  numbered := fun _ _ h => nomatch h
  hub := fun _ h => nomatch h
  absent := fun _ => ⟨rfl, rfl⟩
  listeners := fun _ _ h => nomatch h

/-- The first frame of the hub is where its window of the accepted frames begins. -/
theorem HubSound.oldest_eq (h : HubSound limit hub accepted listeners)
    (hnumbered : Numbered accepted) : hub.oldest = accepted.length - hub.frames.length := by
  unfold Hub.oldest
  cases hframes : hub.frames with
  | nil => exact h.next
  | cons frame rest =>
    have hat := Cursor.getElem?_of_suffix h.latest (Nat.le_refl _)
    rw [Nat.sub_self, hframes] at hat
    exact hnumbered (accepted.length - (frame :: rest).length) frame hat.symm

theorem push_suffix {capacity : Nat} {frames : List (Frame K V)} (h : frames <:+ accepted)
    (frame : Frame K V) : push capacity frames frame <:+ accepted ++ [frame] := by
  obtain ⟨lost, rfl⟩ := h
  have hall : frames ++ [frame] <:+ lost ++ frames ++ [frame] := ⟨lost, by rw [List.append_assoc]⟩
  unfold push
  split
  · exact (List.tail_suffix _).trans hall
  · exact hall

theorem push_length_le {capacity : Nat} {frames : List (Frame K V)}
    (h : frames.length ≤ capacity) (frame : Frame K V) :
    (push capacity frames frame).length ≤ capacity := by
  unfold push
  rw [List.length_append, List.length_singleton]
  split
  · rw [List.length_tail, List.length_append, List.length_singleton]
    exact h
  · rename_i hfits
    rw [List.length_append, List.length_singleton]
    exact not_lt.mp hfits

/-- An accepted frame has the next number. -/
theorem Numbered.append {frame : Frame K V} (hnumbered : Numbered accepted)
    (hframe : frame.sequence = accepted.length) : Numbered (accepted ++ [frame]) := by
  intro i found hi
  rw [List.getElem?_append] at hi
  split at hi
  · exact hnumbered i found hi
  · rename_i hge
    obtain ⟨hlt, hat⟩ := List.getElem?_eq_some_iff.mp hi
    have hlast : i = accepted.length := by
      rw [List.length_singleton] at hlt
      omega
    obtain rfl := List.mem_singleton.mp (List.mem_of_getElem? hi)
    rw [hframe, hlast]

theorem ListenerSound.append {listener : Listener K V} (h : ListenerSound accepted listener)
    (frame : Frame K V) : ListenerSound (accepted ++ [frame]) listener := by
  obtain ⟨missed, hlost, haccounts⟩ := h.accounts
  exact ⟨missed, hlost, haccounts.append frame⟩

theorem Sound.emit (h : Sound limit s) (hstream : s.stream = some hub) (event : MemoryEviction K V) :
    Sound limit { s with
      stream := some (hub.emit (max limit 1) event).2.2
      accepted := s.accepted ++ (hub.emit (max limit 1) event).1.toList } := by
  have hhub := h.hub hub hstream
  unfold Hub.emit
  split
  · dsimp only
    rw [Option.toList_none, List.append_nil, ← hstream]
    exact h
  rename_i hopen
  split
  · dsimp only
    refine ⟨h.numbered.append hhub.next, fun hub' hsome => ?_,
      nofun, fun i listener hi => (h.listeners i listener hi).append _⟩
    obtain rfl := Option.some.inj hsome
    refine ⟨?_, push_suffix hhub.latest _, push_length_le hhub.short _, hhub.receivers, fun hnone => ?_⟩
    · rw [Option.toList_some, List.length_append, List.length_singleton, ← hhub.next]
    · exact absurd (.inr (hhub.receivers.trans hnone)) hopen
  · dsimp only
    rw [Option.toList_none, List.append_nil]
    refine ⟨h.numbered, fun hub' hsome => ?_, nofun, h.listeners⟩
    obtain rfl := Option.some.inj hsome
    exact ⟨hhub.next, hhub.latest, hhub.short, hhub.receivers, hhub.idle⟩

theorem Sound.subscribe {i : Nat} (h : Sound limit s) (hfree : s.listeners.lookup i = none) :
    Sound limit { s with
      stream := some { s.stream.getD .new with receivers := (s.stream.getD .new).receivers + 1 }
      listeners := s.listeners.insert i
        ⟨⟨(s.stream.getD .new).next, 0⟩, (s.stream.getD .new).next, []⟩ } := by
  have hhub : HubSound limit (s.stream.getD .new) s.accepted s.listeners.size := by
    cases hstream : s.stream with
    | some hub => exact h.hub hub hstream
    | none =>
      obtain ⟨haccepted, hlisteners⟩ := h.absent hstream
      rw [haccepted, hlisteners]
      exact ⟨rfl, List.suffix_refl [], Nat.zero_le _, rfl, fun _ => rfl⟩
  refine ⟨h.numbered, fun hub' hsome => ?_, nofun, fun j listener hj => ?_⟩
  · obtain rfl := Option.some.inj hsome
    have hsize : (s.listeners.insert i ⟨⟨(s.stream.getD .new).next, 0⟩,
        (s.stream.getD .new).next, []⟩).size = s.listeners.size + 1 := by
      rw [AList.size_insert, AList.erase_of_lookup_none hfree]
    refine ⟨hhub.next, hhub.latest, hhub.short, ?_, fun hnone => ?_⟩
    · rw [hsize, hhub.receivers]
    · rw [hsize] at hnone
      cases hnone
  · by_cases heq : j = i
    · subst heq
      rw [AList.lookup_insert] at hj
      obtain rfl := Option.some.inj hj
      refine ⟨0, rfl, ?_⟩
      dsimp only
      rw [hhub.next]
      exact .nil s.accepted
    · rw [AList.lookup_insert_ne heq] at hj
      exact h.listeners j listener hj

/-- A subscription that has caught up is at the window, and what it skipped is lost. -/
theorem ListenerSound.catchUp {listener : Listener K V} {oldest : Nat}
    (h : ListenerSound accepted listener) (hinside : oldest ≤ accepted.length) :
    ListenerSound accepted { listener with sub := listener.sub.catchUp oldest } ∧
      oldest ≤ (listener.sub.catchUp oldest).next := by
  obtain ⟨missed, hlost, haccounts⟩ := h.accounts
  unfold Subscription.catchUp
  split
  · rename_i hlt
    refine ⟨⟨missed + (oldest - listener.sub.next), ?_, haccounts.skip hlt.le hinside⟩, le_rfl⟩
    dsimp only
    rw [hlost]
    unfold saturated
    omega
  · rename_i hge
    exact ⟨h, not_lt.mp hge⟩

/-- The frame at the index that `try_recv` computes. -/
theorem HubSound.frame_at (h : HubSound limit hub accepted listeners) (hnumbered : Numbered accepted)
    (hlimit : limit ≤ u64Max) {reached : Nat} (hge : hub.oldest ≤ reached)
    (hlt : reached < hub.next) :
    reached - hub.oldest < hub.frames.length ∧
    ∃ frame, hub.frames[(reached - hub.oldest) % 2 ^ 64]? = some frame ∧
      accepted[reached]? = some frame := by
  have hnext := h.next
  have hoverall := h.latest.length_le
  have hshort := h.short
  have holdest := h.oldest_eq hnumbered
  rw [holdest] at hge
  have hindex : reached - hub.oldest < hub.frames.length := by
    rw [holdest]
    omega
  have hsmall : reached - hub.oldest < 2 ^ 64 := by
    unfold u64Max at hlimit
    omega
  have hwithin : reached < accepted.length := hnext ▸ hlt
  have hfound : accepted[reached]? = some accepted[reached] := List.getElem?_eq_getElem hwithin
  refine ⟨hindex, _, ?_, hfound⟩
  rw [Nat.mod_eq_of_lt hsmall, holdest, Cursor.getElem?_of_suffix h.latest hge, hfound]

theorem HubSound.oldest_le (h : HubSound limit hub accepted listeners)
    (hnumbered : Numbered accepted) : hub.oldest ≤ accepted.length := by
  rw [h.oldest_eq hnumbered]
  exact Nat.sub_le _ _

/-- A `try_recv` hands out the next frame, or there is none; its index is never out of range. -/
theorem HubSound.tryRecv {listener : Listener K V} (h : HubSound limit hub accepted listeners)
    (hnumbered : Numbered accepted) (hlimit : limit ≤ u64Max)
    (hlistener : ListenerSound accepted listener) :
    ListenerSound accepted { listener with
      sub := (hub.tryRecv listener.sub).2
      received := listener.received ++ (hub.tryRecv listener.sub).1.frame } ∧
    (hub.tryRecv listener.sub).1 ≠ .outOfRange := by
  obtain ⟨hcaught, hge⟩ := hlistener.catchUp (h.oldest_le hnumbered)
  unfold Hub.tryRecv
  dsimp only
  split
  · rename_i hlt
    obtain ⟨-, frame, hframe, hitem⟩ := h.frame_at hnumbered hlimit hge hlt
    rw [hframe]
    obtain ⟨missed, hlost, haccounts⟩ := hcaught.accounts
    exact ⟨⟨missed, hlost, haccounts.receive hitem⟩, nofun⟩
  · cases hub.phase with
    | open_ | closed =>
      rw [Receive.frame, List.append_nil]
      exact ⟨hcaught, nofun⟩

theorem Sound.tryRecv {i : Nat} {listener : Listener K V} (h : Sound limit s)
    (hlimit : limit ≤ u64Max) (hstream : s.stream = some hub)
    (hlookup : s.listeners.lookup i = some listener) :
    Sound limit { s with
      listeners := s.listeners.insert i { listener with
        sub := (hub.tryRecv listener.sub).2
        received := listener.received ++ (hub.tryRecv listener.sub).1.frame } } := by
  have hhub := h.hub hub hstream
  refine ⟨h.numbered, fun hub' hsome => ?_, fun hnone => ?_, fun j found hj => ?_⟩
  · obtain rfl := Option.some.inj (hstream.symm.trans hsome)
    have hsize : ∀ listener', (s.listeners.insert i listener').size = s.listeners.size :=
      fun listener' => by rw [AList.size_insert, ← AList.size_erase hlookup]
    rw [hsize]
    exact hhub
  · rw [hstream] at hnone
    cases hnone
  · by_cases heq : j = i
    · subst heq
      rw [AList.lookup_insert] at hj
      obtain rfl := Option.some.inj hj
      exact (hhub.tryRecv h.numbered hlimit (h.listeners j listener hlookup)).1
    · rw [AList.lookup_insert_ne heq] at hj
      exact h.listeners j found hj

theorem Sound.drop {i : Nat} {listener : Listener K V} (h : Sound limit s)
    (hstream : s.stream = some hub) (hlookup : s.listeners.lookup i = some listener) :
    Sound limit { s with
      stream := some { hub with
        frames := if hub.receivers = 1 then [] else hub.frames
        receivers := hub.receivers - 1 }
      listeners := s.listeners.erase i } := by
  have hhub := h.hub hub hstream
  have hsize := AList.size_erase hlookup
  have hreceivers := hhub.receivers
  refine ⟨h.numbered, fun hub' hsome => ?_, nofun, fun j found hj => ?_⟩
  · obtain rfl := Option.some.inj hsome
    refine ⟨hhub.next, ?_, ?_, ?_, fun hnone => ?_⟩
    · dsimp only
      split
      · exact List.nil_suffix
      · exact hhub.latest
    · dsimp only
      split
      · exact Nat.zero_le _
      · exact hhub.short
    · dsimp only
      omega
    · have hempty : (s.listeners.erase i).size = 0 := hnone
      exact if_pos (by omega)
  · by_cases heq : j = i
    · rw [heq, AList.lookup_erase] at hj
      cases hj
    · rw [AList.lookup_erase_ne heq] at hj
      exact h.listeners j found hj

theorem Sound.dropProducer (h : Sound limit s) :
    Sound limit { s with
      producer := false
      stream := s.stream.map fun hub => { hub with phase := .closed } } := by
  refine ⟨h.numbered, fun hub' hsome => ?_, fun hnone => ?_, h.listeners⟩
  · obtain ⟨hub, hstream, rfl⟩ := Option.map_eq_some_iff.mp hsome
    have hhub := h.hub hub hstream
    exact ⟨hhub.next, hhub.latest, hhub.short, hhub.receivers, hhub.idle⟩
  · exact h.absent (Option.map_eq_none_iff.mp hnone)

theorem Sound.next {a : Action K V} (h : Sound limit s) (hlimit : limit ≤ u64Max)
    (hnext : EvictionStream.next limit s a = some t) : Sound limit t := by
  cases a with
  | emit event =>
    simp only [EvictionStream.next] at hnext
    split at hnext
    · split at hnext
      · obtain rfl := Option.some.inj hnext
        exact h
      · rename_i hstream
        obtain rfl := Option.some.inj hnext
        exact h.emit hstream event
    · cases hnext
  | subscribe i =>
    simp only [EvictionStream.next] at hnext
    split at hnext
    · rename_i hfree
      obtain rfl := Option.some.inj hnext
      exact h.subscribe hfree.2
    · cases hnext
  | tryRecv i =>
    simp only [EvictionStream.next] at hnext
    split at hnext
    · rename_i hstream hlookup
      obtain rfl := Option.some.inj hnext
      exact h.tryRecv hlimit hstream hlookup
    · cases hnext
  | drop i =>
    simp only [EvictionStream.next] at hnext
    split at hnext
    · rename_i hstream hlookup
      obtain rfl := Option.some.inj hnext
      exact h.drop hstream hlookup
    · cases hnext
  | dropProducer =>
    obtain rfl := Option.some.inj hnext
    exact h.dropProducer

theorem HubSound.sequences (h : HubSound limit hub accepted listeners)
    (hnumbered : Numbered accepted) :
    hub.frames.map Frame.sequence
      = List.range' (hub.next - hub.frames.length) hub.frames.length := by
  have hlength := h.latest.length_le
  rw [h.next]
  apply List.ext_getElem?
  intro i
  rw [List.getElem?_map]
  by_cases hi : i < hub.frames.length
  · have hat := Cursor.getElem?_of_suffix h.latest
      (Nat.le_add_right (accepted.length - hub.frames.length) i)
    rw [Nat.add_sub_cancel_left, List.getElem?_eq_getElem hi] at hat
    rw [List.getElem?_eq_getElem hi, Option.map_some, hnumbered _ _ hat.symm,
      List.getElem?_range' hi, Nat.one_mul]
  · rw [List.getElem?_eq_none (not_lt.mp hi), Option.map_none, List.getElem?_eq_none]
    rw [List.length_range']
    exact not_lt.mp hi

/-- The frames that the hub keeps are the latest of those accepted, numbered one after the other up
to the next number, no more than the capacity, and none without a subscription. A subscription has
received what was accepted since it began up to its cursor, in order, without what it counts as lost;
ahead of its cursor is what the hub no longer keeps and then what it keeps; and its next `try_recv`
finds its frame. -/
theorem eviction_stream_delivery (hlimit : limit ≤ u64Max)
    (h : Reachable (next limit) (init : State K V) s) (hstream : s.stream = some hub) :
    (hub.next = s.accepted.length ∧ hub.frames <:+ s.accepted ∧
      hub.frames.map Frame.sequence
        = List.range' (hub.next - hub.frames.length) hub.frames.length ∧
      hub.frames.length ≤ max limit 1) ∧
    (s.listeners = ∅ → hub.frames = []) ∧
    ∀ i listener, s.listeners.lookup i = some listener →
      (∃ missed, listener.sub.lost = saturated missed ∧
        Accounts s.accepted listener.since listener.sub.next listener.received missed) ∧
      s.accepted.drop listener.sub.next
        = (s.accepted.drop listener.sub.next).take
            (hub.next - hub.frames.length - listener.sub.next)
          ++ hub.frames.drop (listener.sub.next - (hub.next - hub.frames.length)) ∧
      (hub.tryRecv listener.sub).1 ≠ .outOfRange := by
  have hsound : Sound limit s :=
    h.invariant sound_init fun _ _ _ hs hnext => hs.next hlimit hnext
  have hhub := hsound.hub hub hstream
  refine ⟨⟨hhub.next, hhub.latest, hhub.sequences hsound.numbered, hhub.short⟩, fun hempty => ?_,
    fun i listener hlookup => ?_⟩
  · exact hhub.idle (by rw [hempty]; rfl)
  · have hlistener := hsound.listeners i listener hlookup
    refine ⟨hlistener.accounts, ?_, (hhub.tryRecv hsound.numbered hlimit hlistener).2⟩
    rw [hhub.next]
    exact Cursor.drop_eq_of_suffix hhub.latest listener.sub.next

def victim : MemoryEviction Unit Unit where
  key := ()
  reason := .capacity
  entry :=
    { inst := 0
      value := ()
      metadata :=
        { created := .MAX
          insertedAt := .MAX
          logicalExpiration := .MAX
          physicalExpiration := .MAX
          backendTtl := .fromSecs 0
          origin := .fresh none
          etag := none
          lastModified := none
          tags := []
          retention := .unspecified }
      eligibility := .ofLocal }

/-- Two events for a subscription, with room for one of them. -/
theorem eviction_stream_delivery_victim :
    ∃ s hub listener, Run.exec (next 1) init
        [.subscribe 0, .emit victim, .emit victim, .tryRecv 0] = some s ∧
      s.stream = some hub ∧ s.listeners.lookup 0 = some listener ∧ listener.sub.lost = 1 ∧
      listener.received = [⟨1, victim⟩] ∧ hub.frames.length ≤ 1 := by
  refine ⟨_, _, _, rfl, rfl, rfl, rfl, rfl, ?_⟩
  have hreach : Reachable (next 1) (init : State Unit Unit) _ :=
    ⟨[.subscribe 0, .emit victim, .emit victim, .tryRecv 0], rfl⟩
  exact (eviction_stream_delivery (by decide) hreach rfl).1.2.2.2

end EvictionStream

end Amalgam
