import Amalgam.Recovery.Budget

/-!
# Amalgam — tickets of the recovery queue

`enqueue_work`, `claim` and the operations on one ticket, of `src/recovery.rs`. A ticket may be
replaced while a pass holds it, and what the pass still does with the old one arrives later.

* **`recovery_queue`** — a key has one ticket and a ticket one holder; identities only grow; what is
  done with an old ticket leaves the new one alone, and only newer work replaces a ticket.
-/

namespace Amalgam

namespace Recovery

open Commit (Fence)
open Run (Reachable)

/-! ## What is newer -/

/-- The revision of marker work: of a repair the version and the time it was created. -/
def MarkerRecovery.revision {S : Type} : MarkerRecovery S → Timestamp ×ₗ Timestamp
  | .marker command _ => toLex (command.marker.version, .MAX)
  | .mutation work => toLex (work.command.marker.version, .MAX)
  | .snapshot work => work.snapshot.rank

def RecoveryWork.revision {K V S : Type} :
    RecoveryWork K V (MarkerRecovery S) → Timestamp ×ₗ Timestamp
  | .data item _ => toLex (item.timestamp, .MAX)
  | .marker work => work.revision

/-- The work is newer than the ticket: by the generations of their fences if both have one, and by
the revisions otherwise. -/
def Newer {K V S : Type} (work : RecoveryWork K V (MarkerRecovery S)) (fence : Option Fence)
    (existing : ReplayTicket K V (MarkerRecovery S)) : Prop :=
  match fence, existing.fence with
  | some fence, some _ => existing.generation < fence.generation
  | _, _ => existing.work.revision < work.revision

section

variable {K V S : Type} [DecidableEq K] [DecidableEq S]

theorem toLex_lt_of_fst {a b c : Timestamp} (h : a < b) : toLex (a, c) < toLex (b, c) :=
  Prod.Lex.toLex_lt_toLex.mpr (.inl h)

omit [DecidableEq K] in
theorem supersedes_revision {work previous : RecoveryWork K V (MarkerRecovery S)}
    (hkey : work.key (markerWork S) = previous.key (markerWork S))
    (h : work.supersedes (markerWork S) previous = true) : previous.revision < work.revision := by
  cases work with
  | data item pending =>
    cases previous with
    | data other pending' => exact toLex_lt_of_fst (of_decide_eq_true h)
    | marker previous => cases hkey
  | marker work =>
    cases previous with
    | data other pending => cases hkey
    | marker previous =>
      -- A repair and an invalidation have different keys.
      have hkey : work.key = previous.key := RecoveryKey.marker.inj hkey
      cases work <;> cases previous <;> first | cases hkey | skip
      · exact toLex_lt_of_fst (of_decide_eq_true h)
      · exact toLex_lt_of_fst (of_decide_eq_true h)
      · exact toLex_lt_of_fst (of_decide_eq_true h)
      · exact toLex_lt_of_fst (of_decide_eq_true h)
      · exact of_decide_eq_true h

omit [DecidableEq K] in
theorem newer_of_isOlder {work : RecoveryWork K V (MarkerRecovery S)} {fence : Option Fence}
    {existing : ReplayTicket K V (MarkerRecovery S)}
    (hkey : work.key (markerWork S) = existing.work.key (markerWork S))
    (h : Queue.isOlder (markerWork S) work fence existing = false) : Newer work fence existing := by
  unfold Queue.isOlder at h
  unfold Newer
  cases fence with
  | none => exact supersedes_revision hkey (by simpa using h)
  | some fence =>
    cases hexisting : existing.fence with
    | none =>
      rw [hexisting] at h
      exact supersedes_revision hkey (by simpa using h)
    | some other =>
      rw [hexisting] at h
      exact not_le.mp (of_decide_eq_false h)

end

def Action.enqueues {K V M R : Type} : Action K V M R → Bool
  | .enqueue .. => true
  | _ => false

open Queue (isOlder)

namespace Service

variable {K V M R : Type} [DecidableEq K] [DecidableEq R] {cfg : Config} {ops : MarkerWork M R}
  {s t : Service K V M R}

/-! ## Identities -/

/-- The action admits work under this identity. -/
def Admits (cfg : Config) (ops : MarkerWork M R) (s : Service K V M R) (a : Action K V M R)
    (id : RecoveryId) : Prop :=
  ∃ now order work fence current, a = .enqueue now order work fence current ∧
    (s.queue.enqueueWork cfg ops now order work fence current).1.id = some id

/-- Every ticket of `q'` has the identity of one of `q` under the same key. -/
structure Tracks (q q' : Queue K V M R) : Prop where
  entries : ∀ key queued', q'.entries.lookup key = some queued' →
    ∃ queued, q.entries.lookup key = some queued ∧ queued'.ticket.id = queued.ticket.id
  nextId : q'.nextId = q.nextId

theorem Tracks.refl (q : Queue K V M R) : Tracks q q := ⟨fun _ queued h => ⟨queued, h, rfl⟩, rfl⟩

theorem tracks_of_keeps {q q' : Queue K V M R} (h : q.Keeps q') : Tracks q q' :=
  ⟨fun key queued hlookup => ⟨queued, h.entries key queued hlookup, rfl⟩, h.nextId⟩

variable (ops) in
theorem tracks_of_traces {q q' : Queue K V M R} (h : q.Traces ops q') : Tracks q q' where
  entries := fun key queued' hlookup => by
    obtain ⟨queued, hbefore, hsame⟩ := h.entries key queued' hlookup
    exact ⟨queued, hbefore, hsame.id⟩
  nextId := h.nextId

theorem tracks_put {q : Queue K V M R} {key : RecoveryKey K R} {queued queued' : Queued K V M}
    (hlookup : q.entries.lookup key = some queued) (hid : queued'.ticket.id = queued.ticket.id) :
    Tracks q (q.put key queued') where
  entries := fun other found hfound => by
    rw [Queue.lookup_put] at hfound
    split at hfound
    · rename_i hkey
      obtain rfl := Option.some.inj hfound
      exact ⟨queued, hkey ▸ hlookup, hid⟩
    · exact ⟨found, hfound, rfl⟩
  nextId := rfl

theorem tracks_markerPopulationStage (q : Queue K V M R) (ticket : ReplayTicket K V M) (work : M) :
    Tracks q (q.markerPopulationStage ops ticket work) := by
  unfold Queue.markerPopulationStage
  split
  · exact .refl q
  · rename_i hfind
    exact tracks_put (Queue.find_eq_some.mp hfind).1 rfl

theorem tracks_settle (ticket : ReplayTicket K V M) (result : ReplayResult) :
    Tracks s.queue (s.settle ops ticket result).queue := by
  cases result with
  | error => exact tracks_of_traces ops (Queue.recordFailure_traces s.queue ticket)
  | ok outcome =>
    cases outcome with
    | paused => exact tracks_of_traces ops (Queue.unclaim_traces s.queue ticket)
    | applied | superseded | expired =>
      exact tracks_of_keeps (Queue.complete_keeps s.queue ticket)

/-- Only `enqueue_work` gives an identity. -/
theorem tracks_of_next {a : Action K V M R} (hnext : next cfg ops s a = some t)
    (ha : a.enqueues = false) : Tracks s.queue t.queue := by
  cases a with
  | enqueue => cases ha
  | supersedeThrough key generation =>
    obtain rfl := Option.some.inj hnext
    exact tracks_of_keeps (Queue.supersedeThrough_keeps s.queue key generation)
  | cancelThrough key revision =>
    obtain rfl := Option.some.inj hnext
    exact tracks_of_keeps (Queue.cancelThrough_keeps s.queue key revision)
  | notificationStage ticket =>
    obtain rfl := Option.some.inj hnext
    exact tracks_of_traces ops (Queue.notificationStage_traces ops s.queue ticket)
  | markerPopulationStage ticket work =>
    simp only [next] at hnext
    split at hnext
    · obtain rfl := Option.some.inj hnext
      exact tracks_markerPopulationStage s.queue ticket work
    · cases hnext
  | complete ticket =>
    obtain rfl := Option.some.inj hnext
    exact tracks_of_keeps (Queue.complete_keeps s.queue ticket)
  | stop =>
    obtain rfl := Option.some.inj hnext
    refine ⟨fun _ _ hlookup => ?_, rfl⟩
    cases hlookup
  | drain i keys =>
    simp only [next] at hnext
    split at hnext
    · obtain rfl := Option.some.inj hnext
      exact .refl s.queue
    · cases hnext
  | visit i =>
    simp only [next] at hnext
    split at hnext
    · obtain rfl := Option.some.inj hnext
      exact .refl s.queue
    · split at hnext
      · obtain rfl := Option.some.inj hnext
        exact .refl s.queue
      · rename_i hclaim
        obtain rfl := Option.some.inj hnext
        obtain ⟨queued, hlookup, -, -, rfl⟩ := Queue.claim_eq_some hclaim
        exact tracks_put hlookup rfl
    · cases hnext
  | check i now current =>
    simp only [next] at hnext
    split at hnext
    · split at hnext <;> obtain rfl := Option.some.inj hnext
      · exact tracks_of_keeps (Queue.complete_keeps s.queue _)
      · exact .refl s.queue
    · cases hnext
  | settle i result =>
    simp only [next] at hnext
    split at hnext
    · obtain rfl := Option.some.inj hnext
      exact tracks_settle _ result
    · cases hnext
  | cancel i =>
    simp only [next] at hnext
    split at hnext
    · rename_i ticket rest _
      obtain rfl := Option.some.inj hnext
      exact tracks_of_traces ops (Queue.unclaim_traces s.queue ticket)
    · cases hnext

/-- The identities that `t` may still give are some of those that `s` may give. -/
def Issues (s t : Service K V M R) : Prop :=
  ∀ n, t.queue.nextId = some n → ∃ m, s.queue.nextId = some m ∧ m ≤ n

omit [DecidableEq K] [DecidableEq R] in
theorem issues_of_eq (h : t.queue.nextId = s.queue.nextId) : Issues s t :=
  fun n hn => ⟨n, h ▸ hn, Nat.le_refl n⟩

omit [DecidableEq K] [DecidableEq R] in
theorem Issues.trans {u : Service K V M R} (h : Issues s t) (h' : Issues t u) : Issues s u :=
  fun n hn => by
    obtain ⟨m, hm, hmn⟩ := h' n hn
    obtain ⟨l, hl, hlm⟩ := h m hm
    exact ⟨l, hl, hlm.trans hmn⟩

/-- An admission takes the next identity, and leaves the one after it. -/
theorem nextId_of_enqueue {now : Timestamp} {order : List (RecoveryKey K R)}
    {work : RecoveryWork K V M} {fence : Option Fence} {current : Bool}
    (hnext : next cfg ops s (.enqueue now order work fence current) = some t) :
    Issues s t ∧ ∀ id, (s.queue.enqueueWork cfg ops now order work fence current).1.id = some id →
      ∀ n, t.queue.nextId = some n → n = id + 1 := by
  obtain rfl := Option.some.inj hnext
  generalize hresult : s.queue.enqueueWork cfg ops now order work fence current = result
  have henqueuing := Queue.enqueuing_of_enqueueWork ops s.queue cfg now order work fence current
  rw [hresult] at henqueuing
  obtain ⟨outcome, q'⟩ := result
  cases henqueuing with
  | refused houtcome =>
    refine ⟨issues_of_eq rfl, fun id hid => ?_⟩
    rw [id_of_isQueued houtcome] at hid
    cases hid
  | lost => exact ⟨issues_of_eq rfl, fun _ hid => nomatch hid⟩
  | @admitted _ id work' entries houtcome hid =>
    refine ⟨fun n hn => ⟨id, hid, ?_⟩, fun other hother => ?_⟩
    · rw [Queue.nextId_admitTicket hn]
      exact Nat.le_succ id
    · have hsame : id = other := by rcases houtcome with rfl | rfl <;> exact Option.some.inj hother
      exact hsame ▸ fun n => Queue.nextId_admitTicket

theorem issues_of_next {a : Action K V M R} (hnext : next cfg ops s a = some t) : Issues s t := by
  cases ha : a.enqueues with
  | false => exact issues_of_eq (tracks_of_next hnext ha).nextId
  | true =>
    cases a with
    | enqueue => exact (nextId_of_enqueue hnext).1
    | _ => cases ha

theorem issues_of_exec {actions : List (Action K V M R)}
    (h : Run.exec (next cfg ops) s actions = some t) : Issues s t :=
  Run.exec_rel (fun _ => issues_of_eq rfl) (fun _ _ _ => Issues.trans)
    (fun _ _ _ => issues_of_next) h

/-- Of two admissions of one run the later has the greater identity. -/
theorem lt_of_admits {u : Service K V M R} {a b : Action K V M R} {id id' : RecoveryId}
    {actions : List (Action K V M R)} (hfirst : Admits cfg ops s a id)
    (hnext : next cfg ops s a = some t) (hrun : Run.exec (next cfg ops) t actions = some u)
    (hsecond : Admits cfg ops u b id') : id < id' := by
  obtain ⟨now, order, work, fence, current, rfl, hid⟩ := hfirst
  obtain ⟨_, _, _, _, _, -, hid'⟩ := hsecond
  obtain ⟨n, hn, hle⟩ := issues_of_exec hrun id' (nextId_of_id hid')
  rw [(nextId_of_enqueue hnext).2 id hid n hn] at hle
  exact hle

/-! ## Replacing a ticket -/

/-- What is not newer than the ticket leaves it where it is. -/
theorem lookup_of_isOlder {now : Timestamp} {order : List (RecoveryKey K R)}
    {work : RecoveryWork K V M} {fence : Option Fence} {current : Bool} {queued : Queued K V M}
    (hnext : next cfg ops s (.enqueue now order work fence current) = some t)
    (hlookup : s.queue.entries.lookup (work.key ops) = some queued) :
    t.queue.entries.lookup (work.key ops) = some queued ∨
      isOlder ops work fence queued.ticket = false := by
  obtain rfl := Option.some.inj hnext
  have henqueuing := Queue.enqueuing_of_enqueueWork ops s.queue cfg now order work fence current
  generalize s.queue.enqueueWork cfg ops now order work fence current = result at henqueuing
  obtain ⟨outcome, q'⟩ := result
  cases henqueuing with
  | refused => exact .inl hlookup
  | lost _ _ _ _ _ _ hroom =>
    have hmem : work.key ops ∈ s.queue.entries := AList.lookup_isSome.mp (by rw [hlookup]; rfl)
    left
    unfold Queue.makeRoom at hroom
    split at hroom
    · obtain rfl := Option.some.inj hroom
      exact hlookup
    · rw [if_pos (.inl hmem)] at hroom
      obtain rfl := Option.some.inj hroom
      exact hlookup
  | admitted _ _ _ hnewer => exact .inr (hnewer queued hlookup)

/-- Another ticket under a key is the one that `enqueue_work` admits. -/
theorem enqueued_of_ne {a : Action K V M R} {key : RecoveryKey K R} {queued queued' : Queued K V M}
    (hnext : next cfg ops s a = some t) (hbefore : s.queue.entries.lookup key = some queued)
    (hafter : t.queue.entries.lookup key = some queued')
    (hne : queued'.ticket.id ≠ queued.ticket.id) :
    ∃ now order work fence current, a = .enqueue now order work fence current ∧
      work.key ops = key ∧ isOlder ops work fence queued.ticket = false := by
  cases ha : a.enqueues with
  | false =>
    obtain ⟨was, hwas, hid⟩ := (tracks_of_next hnext ha).entries key queued' hafter
    obtain rfl := Option.some.inj (hbefore.symm.trans hwas)
    exact absurd hid hne
  | true =>
    cases a with
    | enqueue now order work fence current =>
      obtain rfl := Option.some.inj hnext
      have henqueuing :=
        Queue.enqueuing_of_enqueueWork ops s.queue cfg now order work fence current
      have hold : s.queue.entries.lookup key = some queued' → False := fun h => by
        obtain rfl := Option.some.inj (hbefore.symm.trans h)
        exact hne rfl
      refine ⟨now, order, work, fence, current, rfl, ?_⟩
      generalize s.queue.enqueueWork cfg ops now order work fence current = result
        at henqueuing hafter
      obtain ⟨outcome, q'⟩ := result
      cases henqueuing with
      | refused => exact (hold hafter).elim
      | lost _ _ _ _ _ _ hroom => exact (hold (Queue.makeRoom_sub hroom key queued' hafter)).elim
      | @admitted _ id work' entries _ _ _ hnewer hroom =>
        by_cases hkey : key = work.key ops
        · subst hkey
          exact ⟨rfl, hnewer queued hbefore⟩
        · have hinsert : (entries.insert (work.key ops) _).lookup key = some queued' := hafter
          rw [AList.lookup_insert_ne hkey] at hinsert
          exact (hold (Queue.makeRoom_sub hroom key queued' hinsert)).elim
    | _ => cases ha

/-! ## Old tickets -/

/-- The ticket that the action is performed with. -/
def actsWith (s : Service K V M R) : Action K V M R → Option (ReplayTicket K V M)
  | .notificationStage ticket | .markerPopulationStage ticket _ | .complete ticket => some ticket
  | .check i _ _ | .settle i _ | .cancel i => (s.pass i).ticket
  | .enqueue .. | .supersedeThrough .. | .cancelThrough .. | .stop | .drain .. | .visit _ => none

/-- Every ticket of `q` with another identity is left in `q'` as it is. -/
def Spares (q q' : Queue K V M R) (id : RecoveryId) : Prop :=
  ∀ key queued, q.entries.lookup key = some queued → queued.ticket.id ≠ id →
    q'.entries.lookup key = some queued

variable {q : Queue K V M R} {ticket : ReplayTicket K V M} {queued : Queued K V M}

theorem spares_refl (q : Queue K V M R) (id : RecoveryId) : Spares q q id := fun _ _ h _ => h

theorem spares_put (hfind : q.find ops ticket = some queued) (queued' : Queued K V M) :
    Spares q (q.put (ticket.work.key ops) queued') ticket.id := by
  intro key other hlookup hid
  obtain ⟨hhere, hsame⟩ := Queue.find_eq_some.mp hfind
  rw [Queue.lookup_put, if_neg, hlookup]
  rintro rfl
  obtain rfl := Option.some.inj (hhere.symm.trans hlookup)
  exact hid hsame

theorem spares_remove (hfind : q.find ops ticket = some queued) :
    Spares q (q.remove (ticket.work.key ops)) ticket.id := by
  intro key other hlookup hid
  obtain ⟨hhere, hsame⟩ := Queue.find_eq_some.mp hfind
  have hne : key ≠ ticket.work.key ops := by
    rintro rfl
    obtain rfl := Option.some.inj (hhere.symm.trans hlookup)
    exact hid hsame
  exact (AList.lookup_erase_ne hne).trans hlookup

theorem spares_complete (q : Queue K V M R) (ticket : ReplayTicket K V M) :
    Spares q (q.complete ops ticket) ticket.id := by
  unfold Queue.complete
  split
  · exact spares_refl q _
  · rename_i hfind
    exact spares_remove hfind

theorem spares_unclaim (q : Queue K V M R) (ticket : ReplayTicket K V M) :
    Spares q (q.unclaim ops ticket) ticket.id := by
  unfold Queue.unclaim
  split
  · exact spares_refl q _
  · rename_i hfind
    exact spares_put hfind _

theorem spares_recordFailure (q : Queue K V M R) (ticket : ReplayTicket K V M) :
    Spares q (q.recordFailure ops ticket) ticket.id := by
  unfold Queue.recordFailure
  split
  · exact spares_refl q _
  rename_i hfind
  split
  · exact spares_remove hfind
  · exact spares_remove hfind
  · exact spares_put hfind _
  · exact spares_put hfind _

theorem spares_notificationStage (q : Queue K V M R) (ticket : ReplayTicket K V M) :
    Spares q (q.notificationStage ops ticket) ticket.id := by
  unfold Queue.notificationStage
  split
  · exact spares_refl q _
  rename_i hfind
  split
  · exact spares_refl q _
  · exact spares_put hfind _

theorem spares_markerPopulationStage (q : Queue K V M R) (ticket : ReplayTicket K V M) (work : M) :
    Spares q (q.markerPopulationStage ops ticket work) ticket.id := by
  unfold Queue.markerPopulationStage
  split
  · exact spares_refl q _
  · rename_i hfind
    exact spares_put hfind _

/-- Another ticket under the same key is not touched. -/
theorem spares_of_next {a : Action K V M R} (hnext : next cfg ops s a = some t)
    (hacts : s.actsWith a = some ticket) : Spares s.queue t.queue ticket.id := by
  cases a with
  | enqueue | supersedeThrough | cancelThrough | stop | drain | visit => cases hacts
  | notificationStage other =>
    obtain rfl := Option.some.inj hacts
    obtain rfl := Option.some.inj hnext
    exact spares_notificationStage s.queue _
  | markerPopulationStage other work =>
    obtain rfl := Option.some.inj hacts
    simp only [next] at hnext
    split at hnext
    · obtain rfl := Option.some.inj hnext
      exact spares_markerPopulationStage s.queue _ work
    · cases hnext
  | complete other =>
    obtain rfl := Option.some.inj hacts
    obtain rfl := Option.some.inj hnext
    exact spares_complete s.queue _
  | check i now current =>
    simp only [next, actsWith] at hnext hacts
    split at hnext
    · rename_i hpass
      rw [hpass] at hacts
      obtain rfl := Option.some.inj hacts
      split at hnext <;> obtain rfl := Option.some.inj hnext
      · exact spares_complete s.queue _
      · exact spares_refl s.queue _
    · cases hnext
  | settle i result =>
    simp only [next, actsWith] at hnext hacts
    split at hnext
    · rename_i hpass
      rw [hpass] at hacts
      obtain rfl := Option.some.inj hacts
      obtain rfl := Option.some.inj hnext
      cases result with
      | error => exact spares_recordFailure s.queue _
      | ok outcome =>
        cases outcome with
        | paused => exact spares_unclaim s.queue _
        | applied | superseded | expired => exact spares_complete s.queue _
    · cases hnext
  | cancel i =>
    simp only [next, actsWith] at hnext hacts
    split at hnext
    · rename_i hpass
      rw [hpass] at hacts
      obtain rfl := Option.some.inj hacts
      obtain rfl := Option.some.inj hnext
      exact spares_unclaim s.queue _
    · cases hnext

end Service

/-! ## The queue -/

section

variable {K V S : Type} [DecidableEq K] [DecidableEq S] {cfg : Config}
  {s : Service K V (MarkerRecovery S) (MarkerKey S)}

/-- **Recovery queue.** Under a key there is one ticket, of work of that key, there are no more
tickets than `max_items`, and no two passes hold claims of one ticket. An admitted ticket has a
greater identity than every ticket that is queued or claimed, and a smaller one than every ticket
admitted later. A step that is taken with a ticket leaves every other ticket as it is, also the one
that replaced it. A ticket is replaced by an enqueue of newer work only, and one of work that is not
newer leaves it as it is. -/
theorem recovery_queue (h : Reachable (Service.next cfg (markerWork S)) Service.init s) :
    (∀ key key' queued queued', s.queue.entries.lookup key = some queued →
      s.queue.entries.lookup key' = some queued' →
      queued.ticket.work.key (markerWork S) = queued'.ticket.work.key (markerWork S) ∨
        queued.ticket.id = queued'.ticket.id → key = key' ∧ queued = queued') ∧
    (∀ limit, cfg.maxItems = some limit → s.queue.entries.size ≤ limit) ∧
    (∀ i j ticket ticket', (s.pass i).ticket = some ticket → (s.pass j).ticket = some ticket' →
      ticket.id = ticket'.id → i = j) ∧
    ∀ a t, Service.next cfg (markerWork S) s a = some t →
      (∀ id, Service.Admits cfg (markerWork S) s a id →
        (∀ key queued, s.queue.entries.lookup key = some queued → queued.ticket.id < id) ∧
        (∀ i ticket, (s.pass i).ticket = some ticket → ticket.id < id) ∧
        ∀ actions u b id', Run.exec (Service.next cfg (markerWork S)) t actions = some u →
          Service.Admits cfg (markerWork S) u b id' → id < id') ∧
      (∀ ticket, s.actsWith a = some ticket → Service.Spares s.queue t.queue ticket.id) ∧
      (∀ key queued queued', s.queue.entries.lookup key = some queued →
        t.queue.entries.lookup key = some queued' → queued'.ticket.id ≠ queued.ticket.id →
        ∃ now order work fence current, a = .enqueue now order work fence current ∧
          work.key (markerWork S) = key ∧ Newer work fence queued.ticket) ∧
      ∀ now order work fence current queued, a = .enqueue now order work fence current →
        s.queue.entries.lookup (work.key (markerWork S)) = some queued →
        ¬ Newer work fence queued.ticket →
        t.queue.entries.lookup (work.key (markerWork S)) = some queued := by
  have hsound := Service.sound_of_reachable markerWork_keepsKeys h
  have hnewer : ∀ {key work fence queued}, s.queue.entries.lookup key = some queued →
      work.key (markerWork S) = key →
      Queue.isOlder (markerWork S) work fence queued.ticket = false →
      Newer work fence queued.ticket := fun hlookup hkey =>
    newer_of_isOlder (hkey.trans (hsound.keyed _ _ hlookup).symm)
  refine ⟨fun key key' queued queued' hlookup hlookup' hsame => ?_, hsound.bounded, hsound.alone,
    fun a t hnext => ⟨fun id hadmits => ?_, fun ticket => Service.spares_of_next hnext,
      fun key queued queued' hbefore hafter hne => ?_,
      fun now order work fence current queued ha hlookup hold => ?_⟩⟩
  · have hkey : key = key' := by
      rcases hsame with hkey | hid
      · rw [← hsound.keyed key queued hlookup, ← hsound.keyed key' queued' hlookup', hkey]
      · exact hsound.distinct key key' queued queued' hlookup hlookup' hid
    subst hkey
    exact ⟨rfl, Option.some.inj (hlookup.symm.trans hlookup')⟩
  · have hadmission := hadmits
    obtain ⟨_, _, _, _, _, -, hid⟩ := hadmission
    obtain ⟨hentries, hheld, -⟩ := hsound.issued id (Service.nextId_of_id hid)
    exact ⟨hentries, hheld, fun actions u b id' hrun => Service.lt_of_admits hadmits hnext hrun⟩
  · obtain ⟨now, order, work, fence, current, ha, hkey, holder⟩ :=
      Service.enqueued_of_ne hnext hbefore hafter hne
    exact ⟨now, order, work, fence, current, ha, hkey, hnewer hbefore hkey holder⟩
  · subst ha
    rcases Service.lookup_of_isOlder hnext hlookup with hkept | holder
    · exact hkept
    · exact absurd (hnewer hlookup rfl holder) hold

end

/-- Newer work replaces a ticket while its replay is running. -/
def replacing : List (Action Unit Unit (MarkerRecovery Unit) (MarkerKey Unit)) :=
  attempt ++ [.enqueue (.fromTicks 0) []
    (.data ⟨(), .remove, .fromTicks 1, .MAX, none⟩ .legacy) none true]

theorem recovery_queue_replaced :
    ∃ s t queued, Run.exec (Service.next oneAttempt (markerWork Unit)) Service.init replacing
        = some s ∧
      Service.next oneAttempt (markerWork Unit) s (.settle 0 .error) = some t ∧
      t.queue.entries.lookup (.data ()) = some queued ∧ queued.ticket.id = (2 : Nat) := by
  refine ⟨_, _, ⟨⟨(2 : Nat), .data ⟨(), .remove, .fromTicks 1, .MAX, none⟩ .legacy, 2, none⟩, some 1,
    .pending⟩, rfl, rfl, ?_, rfl⟩
  have hreach : Reachable (Service.next oneAttempt (markerWork Unit)) Service.init _ :=
    ⟨replacing, rfl⟩
  exact ((recovery_queue hreach).2.2.2 (.settle 0 .error) _ rfl).2.1 _ rfl (.data ()) _ rfl nofun

end Recovery

end Amalgam
