import Amalgam.Lib.Run
import Amalgam.TimeArithmetic

/-!
# Amalgam — the circuit breaker

`src/circuit.rs`: one atomic integer, and calls of `trip`, `check` and `close` that interleave at
its accesses. The last access of a call decides what the call returns, and a call that found an edge
between closed and open reports it.

* **`circuit_transitions`** — the reports alternate, beginning with an opening, and the integer is
  the sentinel exactly when the breaker is closed.
-/

namespace Amalgam

namespace Circuit

open Run (Reachable)

/-! ## The breaker -/

/-- `i64::MIN` -/
def CLOSED : Timestamp := .fromTicks i64Min

/-- The register is an `i64`: a count of ticks. -/
structure CircuitBreaker where
  openDuration : Duration
  reopenAt : Timestamp

inductive CircuitCheck where
  | closed
  | open_ (reopen : Timestamp)
  | closedAfterCooldown
deriving DecidableEq

/-- `Duration::is_zero` -/
def isZero (d : Duration) : Bool := d.asNanos == 0

namespace CircuitBreaker

def new (openDuration : Duration) : CircuitBreaker := ⟨openDuration, CLOSED⟩

def isDisabled (breaker : CircuitBreaker) : Bool := isZero breaker.openDuration

end CircuitBreaker

/-- What `trip` writes: the end of the window, and no less than the tick after `now`. -/
def reopenAfter (openDuration : Duration) (now : Timestamp) : Timestamp :=
  max (now.saturatingAdd openDuration) (.fromTicks (now.ticks + 1))

/-! ## Calls -/

inductive Call where
  | trip (now : Timestamp)
  | check (now : Timestamp)
  | close

inductive Outcome where
  | tripped (transition : Bool)
  | checked (result : CircuitCheck)
  | closed (transition : Bool)
deriving DecidableEq

/-- The next access of a call. -/
inductive Pc where
  | start (call : Call)
  /-- `check`, after its load. -/
  | exchange (now reopen : Timestamp)
  /-- `close`, after its load. -/
  | swap
  | returned (outcome : Outcome)

/-- One access, and where the call stands after it. -/
def access (breaker : CircuitBreaker) : Pc → Option (CircuitBreaker × Pc)
  | .start (.trip now) =>
    if breaker.isDisabled then some (breaker, .returned (.tripped false))
    else
      -- `fetch_max`
      some ({ breaker with
          reopenAt := max breaker.reopenAt (reopenAfter breaker.openDuration now) },
        .returned (.tripped (breaker.reopenAt == CLOSED)))
  | .start (.check now) =>
    if breaker.isDisabled then some (breaker, .returned (.checked .closed))
    else if breaker.reopenAt = CLOSED then some (breaker, .returned (.checked .closed))
    else if now < breaker.reopenAt then
      some (breaker, .returned (.checked (.open_ breaker.reopenAt)))
    else some (breaker, .exchange now breaker.reopenAt)
  | .exchange now reopen =>
    if breaker.reopenAt = reopen then
      some ({ breaker with reopenAt := CLOSED }, .returned (.checked .closedAfterCooldown))
    else some (breaker, .start (.check now))
  | .start .close =>
    if breaker.reopenAt = CLOSED then some (breaker, .returned (.closed false))
    else some (breaker, .swap)
  | .swap =>
    some ({ breaker with reopenAt := CLOSED }, .returned (.closed (breaker.reopenAt != CLOSED)))
  | .returned _ => none

/-! ## Runs -/

inductive Edge where
  | opening
  | closing
deriving DecidableEq

/-- The edge that a result reports. -/
def Outcome.edge : Outcome → Option Edge
  | .tripped transition => if transition then some .opening else none
  | .checked result => if result = .closedAfterCooldown then some .closing else none
  | .closed transition => if transition then some .closing else none

def Pc.edge : Pc → Option Edge
  | .returned outcome => outcome.edge
  | .start _ | .exchange .. | .swap => none

/-- The breaker, the calls made so far and what they reported, each with the number of its call. -/
structure State where
  breaker : CircuitBreaker
  calls : List Pc
  reports : List (Nat × Edge)

def init (openDuration : Duration) : State := ⟨.new openDuration, [], []⟩

inductive Action where
  | call (call : Call)
  | access (i : Nat)

def next (s : State) : Action → Option State
  | .call call => some { s with calls := s.calls ++ [.start call] }
  | .access i => do
    let pc ← s.calls[i]?
    let (breaker, pc) ← Circuit.access s.breaker pc
    return {
      breaker
      calls := s.calls.set i pc
      reports := s.reports ++ (pc.edge.map (Prod.mk i)).toList }

/-- The last edge was an opening. -/
def State.isOpen (s : State) : Prop := (s.reports.map Prod.snd).getLast? = some .opening

/-- The edge number `n` of a sequence that alternates, beginning with an opening. -/
def edgeAt (n : Nat) : Edge := if n % 2 = 0 then .opening else .closing

/-! ## One access -/

theorem CLOSED_le (t : Timestamp) : CLOSED ≤ t := t.lower

theorem lt_fromTicks_succ {t : Timestamp} : CLOSED < Timestamp.fromTicks (t.ticks + 1) := by
  have hlower := t.lower
  show i64Min < clampI64 (t.ticks + 1)
  exact lt_max_of_lt_right (lt_min (by omega) (by decide))

/-- What `trip` writes is not the sentinel, at any time and for any duration. -/
theorem CLOSED_lt_reopenAfter (d : Duration) (now : Timestamp) : CLOSED < reopenAfter d now :=
  lt_max_of_lt_right lt_fromTicks_succ

/-- What an access does to the register, by the edge that it reports. -/
inductive Moved (breaker : CircuitBreaker) (reopenAt : Timestamp) : Option Edge → Prop
  | kept (h : reopenAt = breaker.reopenAt) : Moved breaker reopenAt none
  | extended (hopen : breaker.reopenAt ≠ CLOSED) (h : breaker.reopenAt ≤ reopenAt) :
      Moved breaker reopenAt none
  | opened (henabled : breaker.isDisabled = false) (hclosed : breaker.reopenAt = CLOSED)
      (h : CLOSED < reopenAt) : Moved breaker reopenAt (some .opening)
  | closed (hopen : breaker.reopenAt ≠ CLOSED) (h : reopenAt = CLOSED) :
      Moved breaker reopenAt (some .closing)

/-- A `check` only tries to exchange what is not the sentinel. -/
def Pc.Loaded : Pc → Prop
  | .exchange _ reopen => reopen ≠ CLOSED
  | .start _ | .swap | .returned _ => True

theorem access_trip_cases {breaker after : CircuitBreaker} {now : Timestamp} {pc : Pc}
    (h : access breaker (.start (.trip now)) = some (after, pc)) :
    after.openDuration = breaker.openDuration ∧ Moved breaker after.reopenAt pc.edge ∧ pc.Loaded ∧
      breaker.reopenAt ≤ after.reopenAt ∧
      (breaker.isDisabled = false → after.reopenAt ≠ CLOSED) := by
  simp only [access] at h
  split at h
  · rename_i hdisabled
    obtain ⟨rfl, rfl⟩ := Prod.mk.inj (Option.some.inj h)
    exact ⟨rfl, .kept rfl, trivial, le_rfl, fun henabled => by simp [henabled] at hdisabled⟩
  · rename_i henabled
    obtain ⟨rfl, rfl⟩ := Prod.mk.inj (Option.some.inj h)
    have hlt : CLOSED < max breaker.reopenAt (reopenAfter breaker.openDuration now) :=
      lt_max_of_lt_right (CLOSED_lt_reopenAfter _ _)
    refine ⟨rfl, ?_, trivial, le_max_left _ _, fun _ => hlt.ne'⟩
    by_cases hclosed : breaker.reopenAt = CLOSED
    · simpa [Pc.edge, Outcome.edge, hclosed] using
        Moved.opened (eq_false_of_ne_true henabled) hclosed (hclosed ▸ hlt)
    · simpa [Pc.edge, Outcome.edge, hclosed] using
        Moved.extended hclosed (le_max_left breaker.reopenAt (reopenAfter breaker.openDuration now))

theorem access_cases {breaker after : CircuitBreaker} {pc pc' : Pc} (hpc : pc.Loaded)
    (h : access breaker pc = some (after, pc')) :
    after.openDuration = breaker.openDuration ∧ Moved breaker after.reopenAt pc'.edge ∧
      pc'.Loaded := by
  match pc with
  | .start (.trip now) =>
    obtain ⟨hduration, hmoved, hloaded, -⟩ := access_trip_cases h
    exact ⟨hduration, hmoved, hloaded⟩
  | .start (.check now) =>
    simp only [access] at h
    split at h
    · obtain ⟨rfl, rfl⟩ := Prod.mk.inj (Option.some.inj h)
      exact ⟨rfl, .kept rfl, trivial⟩
    split at h
    · obtain ⟨rfl, rfl⟩ := Prod.mk.inj (Option.some.inj h)
      exact ⟨rfl, .kept rfl, trivial⟩
    rename_i hopen
    split at h
    · obtain ⟨rfl, rfl⟩ := Prod.mk.inj (Option.some.inj h)
      exact ⟨rfl, .kept rfl, trivial⟩
    · obtain ⟨rfl, rfl⟩ := Prod.mk.inj (Option.some.inj h)
      exact ⟨rfl, .kept rfl, hopen⟩
  | .exchange now reopen =>
    simp only [access] at h
    split at h
    · rename_i hsame
      obtain ⟨rfl, rfl⟩ := Prod.mk.inj (Option.some.inj h)
      exact ⟨rfl, .closed (hsame ▸ hpc) rfl, trivial⟩
    · obtain ⟨rfl, rfl⟩ := Prod.mk.inj (Option.some.inj h)
      exact ⟨rfl, .kept rfl, trivial⟩
  | .start .close =>
    simp only [access] at h
    split at h
    · obtain ⟨rfl, rfl⟩ := Prod.mk.inj (Option.some.inj h)
      exact ⟨rfl, .kept rfl, trivial⟩
    · obtain ⟨rfl, rfl⟩ := Prod.mk.inj (Option.some.inj h)
      exact ⟨rfl, .kept rfl, trivial⟩
  | .swap =>
    simp only [access] at h
    obtain ⟨rfl, rfl⟩ := Prod.mk.inj (Option.some.inj h)
    refine ⟨rfl, ?_, trivial⟩
    by_cases hclosed : breaker.reopenAt = CLOSED
    · simpa [Pc.edge, Outcome.edge, hclosed] using Moved.kept hclosed.symm
    · simpa [Pc.edge, Outcome.edge, hclosed] using Moved.closed hclosed rfl
  | .returned _ => cases h

/-- A call that is not back has not reported. -/
theorem edge_of_access {breaker : CircuitBreaker} {pc : Pc} {result : CircuitBreaker × Pc}
    (h : access breaker pc = some result) : pc.edge = none := by
  match pc with
  | .start _ | .exchange .. | .swap => rfl
  | .returned _ => cases h

/-! ## Reachable states -/

theorem alternate_succ {edges : List Edge} {e : Edge}
    (h : edges = (List.range edges.length).map edgeAt) (he : e = edgeAt edges.length) :
    edges ++ [e] = (List.range (edges ++ [e]).length).map edgeAt := by
  rw [List.length_append, List.length_singleton, List.range_succ, List.map_append, ← h, he]
  rfl

theorem getLast?_alternate {edges : List Edge} (h : edges = (List.range edges.length).map edgeAt) :
    edges.getLast? = some .opening ↔ edges.length % 2 = 1 := by
  cases hn : edges.length with
  | zero =>
    rw [List.length_eq_zero_iff.mp hn]
    simp
  | succ n =>
    rw [hn, List.range_succ, List.map_append] at h
    rw [h, List.map_singleton, List.getLast?_append, List.getLast?_singleton, edgeAt]
    simp only [Option.some_or, Option.some.injEq, ite_eq_left_iff, reduceCtorEq, imp_false,
      not_not]
    omega

structure Sound (openDuration : Duration) (s : State) : Prop where
  duration : s.breaker.openDuration = openDuration
  loaded : ∀ pc ∈ s.calls, pc.Loaded
  alternate : s.reports.map Prod.snd = (List.range (s.reports.map Prod.snd).length).map edgeAt
  parity : s.breaker.reopenAt = CLOSED ↔ s.reports.length % 2 = 0
  disabled : isZero openDuration = true → s.reports = []
  answers : ∀ i e, (i, e) ∈ s.reports ↔ ∃ pc, s.calls[i]? = some pc ∧ pc.edge = some e
  once : (s.reports.map Prod.fst).Nodup

variable {openDuration : Duration} {s t : State}

theorem Sound.isOpen_iff (h : Sound openDuration s) :
    s.isOpen ↔ s.breaker.reopenAt ≠ CLOSED := by
  have hlast := getLast?_alternate h.alternate
  rw [List.length_map] at hlast
  rw [State.isOpen, hlast, ne_eq, h.parity]
  omega

theorem sound_init (openDuration : Duration) : Sound openDuration (init openDuration) where
  duration := rfl
  loaded := fun _ hpc => absurd hpc List.not_mem_nil
  alternate := rfl
  parity := iff_of_true rfl rfl
  disabled := fun _ => rfl
  answers := fun _ _ => iff_of_false List.not_mem_nil fun ⟨_, hpc, _⟩ => nomatch hpc
  once := .nil

theorem Sound.call (h : Sound openDuration s) (call : Call) :
    Sound openDuration { s with calls := s.calls ++ [.start call] } := by
  refine ⟨h.duration, ?_, h.alternate, h.parity, h.disabled, fun i e => ?_, h.once⟩
  · intro pc hpc
    rcases List.mem_append.mp hpc with hold | hnew
    · exact h.loaded pc hold
    · obtain rfl := List.mem_singleton.mp hnew
      trivial
  · rw [h.answers i e]
    constructor
    · rintro ⟨pc, hpc, he⟩
      exact ⟨pc, (List.getElem?_append_left (List.getElem?_eq_some_iff.mp hpc).1).trans hpc, he⟩
    · rintro ⟨pc, hpc, he⟩
      rw [List.getElem?_append] at hpc
      split at hpc
      · exact ⟨pc, hpc, he⟩
      · -- a call that has just begun has reported nothing
        obtain rfl := List.mem_singleton.mp (List.mem_of_getElem? hpc)
        cases he

/-- The reports and the register after an access, by what it did. -/
theorem Sound.edges (h : Sound openDuration s) {reopenAt : Timestamp} {edge : Option Edge} (i : Nat)
    (hmoved : Moved s.breaker reopenAt edge) :
    let reports := s.reports ++ (edge.map (Prod.mk i)).toList
    reports.map Prod.snd = (List.range (reports.map Prod.snd).length).map edgeAt ∧
      (reopenAt = CLOSED ↔ reports.length % 2 = 0) ∧
      (isZero openDuration = true → reports = []) := by
  have hparity := h.parity
  have hlength : (s.reports.map Prod.snd).length = s.reports.length := List.length_map _
  cases hmoved with
  | kept heq =>
    simp only [Option.map_none, Option.toList_none, List.append_nil]
    exact ⟨h.alternate, heq ▸ hparity, h.disabled⟩
  | extended hopen hle =>
    simp only [Option.map_none, Option.toList_none, List.append_nil]
    have hne : reopenAt ≠ CLOSED := fun heq => hopen (le_antisymm (heq ▸ hle) (CLOSED_le _))
    exact ⟨h.alternate, iff_of_false hne fun hp => hopen (hparity.mpr hp), h.disabled⟩
  | opened henabled hclosed hlt =>
    have heven := hparity.mp hclosed
    simp only [Option.map_some, Option.toList_some, List.map_append, List.map_singleton]
    refine ⟨alternate_succ h.alternate ?_, iff_of_false hlt.ne' ?_, fun hzero => ?_⟩
    · rw [edgeAt, hlength, if_pos heven]
    · rw [List.length_append, List.length_singleton]
      omega
    · rw [CircuitBreaker.isDisabled, h.duration, hzero] at henabled
      cases henabled
  | closed hopen heq =>
    have hodd : ¬ s.reports.length % 2 = 0 := fun hp => hopen (hparity.mpr hp)
    simp only [Option.map_some, Option.toList_some, List.map_append, List.map_singleton]
    refine ⟨alternate_succ h.alternate ?_, iff_of_true heq ?_, fun hzero => ?_⟩
    · rw [edgeAt, hlength, if_neg hodd]
    · rw [List.length_append, List.length_singleton]
      omega
    · rw [h.disabled hzero] at hodd
      exact absurd rfl hodd

/-- An access is one step of a call that is not back yet. -/
theorem next_access_cases {i : Nat} (h : next s (.access i) = some t) :
    ∃ pc after pc', s.calls[i]? = some pc ∧ access s.breaker pc = some (after, pc') ∧
      t = ⟨after, s.calls.set i pc', s.reports ++ (pc'.edge.map (Prod.mk i)).toList⟩ := by
  obtain ⟨pc, hpc, h⟩ := Option.bind_eq_some_iff.mp h
  obtain ⟨⟨after, pc'⟩, haccess, h⟩ := Option.bind_eq_some_iff.mp h
  exact ⟨pc, after, pc', hpc, haccess, (Option.some.inj h).symm⟩

theorem Sound.access {i : Nat} (h : Sound openDuration s) (hnext : next s (.access i) = some t) :
    Sound openDuration t := by
  obtain ⟨pc, after, pc', hpc, haccess, rfl⟩ := next_access_cases hnext
  have hlt := (List.getElem?_eq_some_iff.mp hpc).1
  obtain ⟨hduration, hmoved, hloaded⟩ :=
    access_cases (h.loaded pc (List.mem_of_getElem? hpc)) haccess
  obtain ⟨halternate, hparity, hdisabled⟩ := h.edges i hmoved
  have hbefore := edge_of_access haccess
  have hsilent : ∀ e, (i, e) ∉ s.reports := fun e he => by
    obtain ⟨_, hcall, hedge⟩ := (h.answers i e).mp he
    rw [hpc] at hcall
    rw [← Option.some.inj hcall, hbefore] at hedge
    cases hedge
  refine ⟨hduration.trans h.duration, fun p hp => ?_, halternate, hparity, hdisabled,
    fun j e => ?_, ?_⟩
  · rcases List.mem_or_eq_of_mem_set hp with hold | rfl
    · exact h.loaded p hold
    · exact hloaded
  · rw [List.mem_append, List.getElem?_set]
    by_cases hj : i = j
    · subst hj
      rw [if_pos rfl, if_pos hlt]
      constructor
      · rintro (hold | hnew)
        · exact absurd hold (hsilent e)
        · obtain ⟨e', he', heq⟩ := Option.map_eq_some_iff.mp (Option.mem_toList.mp hnew)
          cases heq
          exact ⟨pc', rfl, he'⟩
      · rintro ⟨p, hp, he⟩
        obtain rfl := Option.some.inj hp
        refine .inr (Option.mem_toList.mpr ?_)
        rw [he]
        rfl
    · rw [if_neg hj, ← h.answers j e, or_iff_left]
      intro hnew
      obtain ⟨e', -, heq⟩ := Option.map_eq_some_iff.mp (Option.mem_toList.mp hnew)
      exact hj (Prod.mk.inj heq).1
  · rw [List.map_append]
    refine List.nodup_append.mpr ⟨h.once, ?_, ?_⟩
    · cases pc'.edge with
      | none => exact .nil
      | some e => exact List.nodup_cons.mpr ⟨List.not_mem_nil, .nil⟩
    · rintro j hold k hnew rfl
      obtain ⟨⟨_, e⟩, he, rfl⟩ := List.mem_map.mp hold
      obtain ⟨⟨_, e'⟩, he', heq⟩ := List.mem_map.mp hnew
      obtain ⟨_, -, hpair⟩ := Option.map_eq_some_iff.mp (Option.mem_toList.mp he')
      cases hpair
      obtain rfl : i = _ := heq
      exact hsilent e he

theorem Sound.next {a : Action} (h : Sound openDuration s) (hnext : Circuit.next s a = some t) :
    Sound openDuration t := by
  cases a with
  | call call =>
    obtain rfl := Option.some.inj hnext
    exact h.call call
  | access i => exact h.access hnext

theorem sound_of_reachable (h : Reachable next (init openDuration) s) : Sound openDuration s :=
  h.invariant (sound_init openDuration) fun _ _ _ hs hnext => hs.next hnext

/-- The edges that calls report alternate, the first of them an opening; each is reported once and
by a call that is back; the register is the sentinel exactly between a closing and an opening; while
the breaker is open no `trip` moves the end of its window back; and a breaker without a duration
never opens. -/
theorem circuit_transitions (h : Reachable next (init openDuration) s) :
    (s.reports.map Prod.snd = (List.range s.reports.length).map edgeAt ∧
      (s.reports.map Prod.fst).Nodup ∧
      ∀ i e, (i, e) ∈ s.reports ↔ ∃ pc, s.calls[i]? = some pc ∧ pc.edge = some e) ∧
    (s.isOpen ↔ s.breaker.reopenAt ≠ CLOSED) ∧
    (∀ i now t, s.calls[i]? = some (.start (.trip now)) → next s (.access i) = some t →
      (isZero openDuration = false → t.isOpen) ∧
      (s.isOpen → t.isOpen ∧ s.breaker.reopenAt ≤ t.breaker.reopenAt)) ∧
    (isZero openDuration = true → s.reports = [] ∧ s.breaker.reopenAt = CLOSED) := by
  have hsound := sound_of_reachable h
  refine ⟨⟨?_, hsound.once, hsound.answers⟩, hsound.isOpen_iff, fun i now t hcall hnext => ?_,
    fun hzero => ?_⟩
  · have halternate := hsound.alternate
    rwa [List.length_map] at halternate
  · have hopen := (hsound.access hnext).isOpen_iff
    obtain ⟨pc, after, pc', hpc, haccess, rfl⟩ := next_access_cases hnext
    obtain rfl := Option.some.inj (hcall.symm.trans hpc)
    obtain ⟨-, -, -, hle, hne⟩ := access_trip_cases haccess
    refine ⟨fun henabled => hopen.mpr (hne ?_), fun hbefore => ⟨hopen.mpr fun hclosed => ?_, hle⟩⟩
    · rw [CircuitBreaker.isDisabled, hsound.duration, henabled]
    · exact hsound.isOpen_iff.mp hbefore (le_antisymm (hle.trans hclosed.le) (CLOSED_le _))
  · have hnone := hsound.disabled hzero
    exact ⟨hnone, hsound.parity.mpr (by rw [hnone]; rfl)⟩

/-- A breaker that opens for one tick, after one call of `trip` at tick 0. -/
def tripped : State where
  breaker := ⟨.fromNanos 100, .fromTicks 1⟩
  calls := [.returned (.tripped true)]
  reports := [(0, .opening)]

theorem circuit_transitions_tripped :
    tripped.isOpen ∧ tripped.breaker.reopenAt ≠ CLOSED := by
  have hreach : Reachable next (init (.fromNanos 100)) tripped :=
    ⟨[.call (.trip (.fromTicks 0)), .access 0], rfl⟩
  have hlast : tripped.isOpen := rfl
  exact ⟨hlast, (circuit_transitions hreach).2.1.mp hlast⟩

end Circuit

end Amalgam
