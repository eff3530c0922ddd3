import Amalgam.Flight.Delivery

/-!
# Amalgam — the guarantees of the single-flight table

* **`flights_safe`** — in every reachable table: one registered flight for each identity, one
  poller for each work and none after it ended, one delivery for each subscription, a value
  only to the one subscriber there was, the panic only to the leader, a count that is the
  number of live subscriptions, and no entry removed on behalf of another flight.
* **`flights_admit_only_running`** — in a run in which nobody acquires between the two halves
  of a `cancel`, nobody is ever admitted to a flight that has ended.
-/

namespace Amalgam

namespace Flights

section Runs

variable {K T : Type} [DecidableEq K] {s t : Table K T} {a : Action K T}

structure Inv (s : Table K T) : Prop where
  core : Core s
  subscribed : Subscribed s
  delivered : Delivered s

omit [DecidableEq K] in
theorem inv_init : Inv (init : Table K T) where
  core :=
    ⟨⟨by simp [init], by simp [init], by simp [init]⟩,
      ⟨by simp [init, Pc.Holds], by simp [init, Pc.Holds]⟩,
      ⟨by simp [init], by simp [init], by simp [init]⟩,
      ⟨by simp [init, Pc.work], by simp [init], by simp [init], by simp [init], by simp [init],
        by simp [init]⟩⟩
  subscribed := ⟨by simp [init], by simp [init], by simp [init], by simp [init]⟩
  delivered :=
    ⟨by simp [init], by simp [init], by simp [init], by simp [init], by simp [init],
      by simp [init], by simp [init], by simp [init]⟩

/-- **The step lemma.** -/
theorem Inv.of_next (h : Inv s) (hnext : next s a = some t) : Inv t := by
  have hm := move_of_next hnext
  exact ⟨h.core.move hm, h.subscribed.move h.core.registered hm,
    h.delivered.move h.subscribed h.core hm⟩

theorem Inv.of_reachable (h : Run.Reachable next init s) : Inv s :=
  h.invariant inv_init fun _ _ _ hs hnext => hs.of_next hnext

/-! ## The guarantees -/

/-- The flight a call of `complete`, `abandon_start` or `cancel` is about to remove. -/
def Pc.removes : Pc T → Option FlightId
  | .removeEntry f _ | .cancelRemove f _ | .abandonStart f => some f
  | _ => none

structure FlightsSafe (s : Table K T) : Prop where
  /-- At most one flight for each identity is registered. -/
  unique : ∀ f g flight other, s.flight f = some flight → s.flight g = some other →
    s.entries flight.key = some f → s.entries other.key = some g → flight.key = other.key → f = g
  /-- Work is polled by one call at a time, and not after it ended. -/
  single_poller : ∀ c d f g work, s.call c = .polling f work → s.call d = .polling g work → c = d
  no_poll_after_end : ∀ c f work, s.call c = .polling f work → work ∉ s.ended
  no_work_after_end : ∀ f flight work, s.flight f = some flight →
    flight.state = .pending work → work ∉ s.ended
  /-- A subscription receives at most one completion, the one its flight published. -/
  delivered_once : (s.deliveries.map Prod.fst).Nodup
  delivered_outcome : ∀ u completion, (u, completion) ∈ s.deliveries →
    ∃ sub flight, s.sub u = some sub ∧ s.flight sub.flight = some flight
      ∧ Explains flight sub completion
  /-- Who joined before the end and polls after it receives that completion. -/
  delivers : ∀ u sub flight, s.sub u = some sub → u ∈ s.live → sub.early = true →
    sub.consumed = false → s.flight sub.flight = some flight → flight.state.isFinished = true →
    ∃ t completion, next s (.tryComplete u) = some t
      ∧ t.deliveries = s.deliveries ++ [(u, completion)] ∧ t.aborted = s.aborted
      ∧ Explains flight sub completion
  /-- The panic payload goes to the leader, once. -/
  panic_once : ∀ u v sub sub' p q, (u, Completion.panicked p) ∈ s.deliveries →
    (v, Completion.panicked q) ∈ s.deliveries → s.sub u = some sub → s.sub v = some sub' →
    sub.flight = sub'.flight → sub.leader = true ∧ u = v
  count : ∀ f flight, s.flight f = some flight → flight.subscribers = (s.subscribersOf f).card
  /-- An entry is removed only on behalf of its own flight. -/
  removes_own : ∀ a t key f, next s a = some t → a ≠ .close → s.entries key = some f →
    t.entries key ≠ some f → ∃ c, a = .step c ∧ (s.call c).removes = some f

theorem Delivered.delivers {u : SubId} {sub : Subscription} {flight : Flight K T}
    (h : Delivered s) (hu : s.sub u = some sub) (hlive : u ∈ s.live) (hearly : sub.early = true)
    (hfresh : sub.consumed = false) (hflight : s.flight sub.flight = some flight)
    (hended : flight.state.isFinished = true) :
    ∃ t completion, next s (.tryComplete u) = some t
      ∧ t.deliveries = s.deliveries ++ [(u, completion)] ∧ t.aborted = s.aborted
      ∧ Explains flight sub completion := by
  have hnot := h.waiting u sub flight hu hlive hearly hfresh hflight
  cases hstate : flight.state with
  | starting | pending | polling => simp [hstate, FlightState.isFinished] at hended
  | finished => exact absurd hstate hnot
  | completed terminal =>
    have houtcome := h.completed _ flight terminal hflight hstate
    cases terminal with
    | owned result =>
      refine ⟨s.deliver u sub flight (.owned result) .finished, .owned result, ?_, rfl, rfl, ?_⟩
      · simp [next, tryComplete, hu, hflight, hlive, hfresh, hstate, Table.deliver]
      · exact .inl ⟨by simpa using houtcome, (h.sole _ flight result hflight hstate).2.1⟩
    | shared result =>
      refine ⟨s.deliver u sub flight (.shared result) flight.state, .shared result, ?_, rfl, rfl, ?_⟩
      · simp [next, tryComplete, hu, hflight, hlive, hfresh, hstate, Table.deliver]
      · show flight.outcome = some (.shared result)
        simpa using houtcome
    | cancelled reason =>
      refine ⟨s.deliver u sub flight (.owned (.error (.operationCancelled reason))) flight.state,
        .owned (.error (.operationCancelled reason)), ?_, rfl, rfl, ?_⟩
      · simp [next, tryComplete, hu, hflight, hlive, hfresh, hstate, Table.deliver]
      · exact .inr ⟨reason, by simpa using houtcome, rfl⟩
    | panicked payload =>
      have hfollower : ∃ payload, flight.outcome = some (.panicked payload) := by
        rcases houtcome with heq | ⟨-, hpayload⟩
        · exact ⟨payload, heq⟩
        · exact hpayload
      by_cases htakes : sub.leader = true ∧ payload.isSome = true
      · obtain ⟨hleader, hsome⟩ := htakes
        obtain ⟨payload, rfl⟩ := Option.isSome_iff_exists.mp hsome
        refine ⟨s.deliver u sub flight (.panicked payload) (.completed (.panicked none)),
          .panicked payload, ?_, rfl, rfl, by simpa using houtcome, hleader⟩
        simp [next, tryComplete, hu, hflight, hlive, hfresh, hstate, hleader, Table.deliver]
      · refine ⟨s.deliver u sub flight .followerPanicked flight.state, .followerPanicked, ?_, rfl,
          rfl, hfollower⟩
        cases hleader : sub.leader <;> cases payload <;>
          simp_all [next, tryComplete, Table.deliver]

/-- A step that removes an entry is the removal made for that flight. -/
theorem Registered.removes_own {key : K} {f : FlightId} (h : Registered s) (hm : Move s a t)
    (hclose : a ≠ .close) (hbefore : s.entries key = some f) (hafter : t.entries key ≠ some f) :
    ∃ c, a = .step c ∧ (s.call c).removes = some f := by
  have hremove : ∀ g k, (Flights.removeEntry s g k).entries key ≠ some f → g = f := by
    intro g k hne
    by_contra hgf
    exact hne (removeEntry_eq_some.mpr ⟨hbefore, fun hkg => hgf hkg.2.symm⟩)
  cases hm with
  | @create key' _ hentry =>
    have hkk : key ≠ key' := by
      rintro rfl
      rw [hentry] at hbefore
      cases hbefore
    exact absurd (by simpa [hkk] using hbefore) hafter
  | @removeEntry c g terminal flight hcall _ =>
    obtain rfl := hremove g flight.key hafter
    exact ⟨c, rfl, by rw [hcall]; rfl⟩
  | @cancelRemove c g took flight hcall _ =>
    obtain rfl := hremove g flight.key hafter
    exact ⟨c, rfl, by rw [hcall]; rfl⟩
  | @abandon c g flight reason hcall hflight halive _ hstate =>
    refine ⟨c, rfl, ?_⟩
    -- `abandon_start` removes by key: the flight has not started, so the key is its own
    have hentry := h.starting halive g flight hflight hstate
    have hkk : key = flight.key := by
      by_contra hne
      exact hafter (by simpa [hne] using hbefore)
    obtain rfl : f = g := by
      rw [hkk, hentry] at hbefore
      exact (Option.some.inj hbefore).symm
    rw [hcall]
    rfl
  | close => exact absurd rfl hclose
  | _ => exact absurd hbefore hafter

/-- **Every reachable table is safe.** -/
theorem flights_safe (h : Run.Reachable next init s) : FlightsSafe s := by
  obtain ⟨hcore, hsubs, hdelivered⟩ := Inv.of_reachable h
  exact {
    unique := fun f g flight other _ _ hf hg hkey => by
      rw [hkey, hg] at hf
      exact (Option.some.inj hf).symm
    single_poller := fun c d f g work hc hd => by
      obtain ⟨flight, hf, hw, -⟩ := hcore.worked.held c f work (by rw [hc]; rfl)
      obtain ⟨other, hg, hw', -⟩ := hcore.worked.held d g work (by rw [hd]; rfl)
      obtain rfl := hcore.worked.injective f g flight other work hf hg hw hw'
      exact hcore.polled.single c d f (by rw [hc]; rfl) (by rw [hd]; rfl)
    no_poll_after_end := fun c f work hc => by
      obtain ⟨-, -, -, hended⟩ := hcore.worked.held c f work (by rw [hc]; rfl)
      exact hended
    no_work_after_end := fun f flight work hf hs => (hcore.worked.pending f flight work hf hs).2
    delivered_once := hdelivered.once
    delivered_outcome := fun u completion hmem => by
      obtain ⟨sub, flight, hu, -, hf, hex⟩ := hdelivered.deliveries u completion hmem
      exact ⟨sub, flight, hu, hf, hex⟩
    delivers := fun u sub flight hu hl he hc hf hs => hdelivered.delivers hu hl he hc hf hs
    panic_once := fun u v sub sub' p q hu hv hsub hsub' hflight => by
      obtain ⟨o, fl, ho, -, -, hex⟩ := hdelivered.deliveries u _ hu
      obtain ⟨o', fl', ho', -, -, hex'⟩ := hdelivered.deliveries v _ hv
      obtain rfl : sub = o := Option.some.inj (hsub.symm.trans ho)
      obtain rfl : sub' = o' := Option.some.inj (hsub'.symm.trans ho')
      exact ⟨hex.2, hsubs.leader u v sub sub' hsub hsub' hex.2 hex'.2 hflight⟩
    count := hsubs.count
    removes_own := fun a t key f hnext hclose hbefore hafter =>
      hcore.registered.removes_own (move_of_next hnext) hclose hbefore hafter }

/-- Two callers share a flight; each receives the result once, shared. -/
theorem flights_safe_shared_run : ∃ s : Table Nat Nat, Run.Reachable next init s ∧ FlightsSafe s
    ∧ s.deliveries = [(1, .shared (.ok 7)), (0, .shared (.ok 7))] := by
  let schedule : List (Action Nat Nat) :=
    [.acquire 5, .install 0, .acquire 5, .pollWork 0 0, .ready 0 (.ok 7), .step 0, .step 0, .step 0,
      .step 0, .tryComplete 1, .tryComplete 0]
  have hreach : Run.Reachable next init ((Run.exec next init schedule).getD init) :=
    ⟨schedule, rfl⟩
  exact ⟨_, hreach, flights_safe hreach, rfl⟩

/-- A cancelled flight hands its error by value to each of two subscribers. -/
theorem cancelled_flight_owned_by_two :
    ¬ ∀ (s : Table Nat Nat), Run.Reachable next init s →
      ∀ u result, (u, Completion.owned result) ∈ s.deliveries →
      ∀ sub flight, s.sub u = some sub → s.flight sub.flight = some flight →
        flight.audience = 1 := by
  intro hclaim
  let schedule : List (Action Nat Nat) :=
    [.acquire 5, .acquire 5, .cancel 0 0 .cacheShutdown, .step 0, .step 0, .tryComplete 0,
      .tryComplete 1]
  obtain ⟨s, hexec, hdeliveries, hsub, hflight⟩ : ∃ s : Table Nat Nat,
      Run.exec next init schedule = some s
      ∧ s.deliveries = [(0, .owned (.error (.operationCancelled .cacheShutdown))),
        (1, .owned (.error (.operationCancelled .cacheShutdown)))]
      ∧ (s.sub 0).map Subscription.flight = some 0
      ∧ (s.flight 0).map Flight.audience = some 2 := ⟨_, rfl, rfl, rfl, rfl⟩
  obtain ⟨sub, hsub, hzero⟩ := Option.map_eq_some_iff.mp hsub
  obtain ⟨flight, hflight, htwo⟩ := Option.map_eq_some_iff.mp hflight
  have hone := hclaim s ⟨schedule, hexec⟩ 0 _ (by rw [hdeliveries]; exact List.mem_cons_self)
    sub flight hsub (hzero ▸ hflight)
  omega

/-! ## Admission to a flight that has ended -/

/-- A `cancel` that ended the flight under `key` has not removed its entry yet. -/
def Cancelling (s : Table K T) (key : K) : Prop :=
  ∃ c f, s.call c = .cancelRemove f true ∧ s.entries key = some f

/-- The acquire falls between the two halves of a `cancel` of the same identity. -/
def FallsInCancel (s : Table K T) : Action K T → Prop
  | .acquire key => Cancelling s key
  | _ => False

/-- Everybody joined a running flight, and nobody's poll panicked. -/
structure Prompt (s : Table K T) : Prop where
  early : ∀ u sub, s.sub u = some sub → sub.early = true
  aborted : s.aborted = []

theorem Prompt.of_next (h : Prompt s) (hinv : Inv s) (hnot : ¬ FallsInCancel s a)
    (hnext : next s a = some t) : Prompt t := by
  have hm := move_of_next hnext
  have hdeliver : ∀ u sub completion flight state, s.sub u = some sub →
      Prompt (s.deliver u sub flight completion state) := by
    intro u sub completion flight state hu
    refine ⟨fun v other hv => ?_, h.aborted⟩
    by_cases hvu : v = u
    · obtain rfl : { sub with consumed := true } = other := by
        simpa [Table.deliver, hvu] using hv
      exact h.early u sub hu
    · exact h.early v other (by simpa [Table.deliver, hvu] using hv)
  cases hm with
  | @join key f flight _ hentry hflight =>
    refine ⟨fun u sub hu => ?_, h.aborted⟩
    by_cases hun : u = s.nextSub
    · obtain rfl : { flight := f, leader := false, early := !flight.state.isFinished } = sub := by
        simpa [hun] using hu
      show (!flight.state.isFinished) = true
      rw [Bool.not_eq_true']
      by_contra hended
      -- an ended flight that is still registered is being cancelled
      obtain ⟨other, hother, hkey⟩ := hinv.core.registered.entries key f hentry
      obtain rfl : flight = other := Option.some.inj (hflight.symm.trans hother)
      obtain ⟨c, hc⟩ := hinv.core.retired.ended f flight hflight (by simpa using hended)
        (hkey ▸ hentry)
      exact hnot ⟨c, f, hc, hentry⟩
    · exact h.early u sub (by simpa [hun] using hu)
  | create =>
    refine ⟨fun u sub hu => ?_, h.aborted⟩
    by_cases hun : u = s.nextSub
    · obtain rfl : { flight := s.nextFlight, leader := true, early := true } = sub := by
        simpa [hun] using hu
      rfl
    · exact h.early u sub (by simpa [hun] using hu)
  | removeEntry _ _ | cancelRemove _ _ =>
    refine ⟨fun u sub hu => h.early u sub ?_, ?_⟩
    · simpa using hu
    · simpa using h.aborted
  | deliverOwned hu | deliverShared hu | deliverPanic hu | deliverFollower hu
  | deliverCancelled hu => exact hdeliver _ _ _ _ _ hu
  | @abort u sub flight hu hflight hlive hfresh hstate =>
    exact absurd hstate
      (hinv.delivered.waiting u sub flight hu hlive (h.early u sub hu) hfresh hflight)
  | _ => exact ⟨h.early, h.aborted⟩

/-- Every acquire of the run returned a subscription to a flight that had not ended. -/
def AdmitsRunning (schedule : List (Action K T)) : Prop :=
  ∀ pre key post m n, schedule = pre ++ .acquire key :: post →
    Run.exec next init pre = some m → next m (.acquire key) = some n →
    ∃ sub flight, n.sub m.nextSub = some sub ∧ n.flight sub.flight = some flight
      ∧ flight.state.isFinished = false

/-- The subscription an acquire returns, with the flight it joins. -/
theorem acquire_sub {key : K} (h : next s (.acquire key) = some t) :
    ∃ sub flight, t.sub s.nextSub = some sub ∧ t.flight sub.flight = some flight
      ∧ sub.early = !flight.state.isFinished := by
  cases move_of_next h with
  | @join _ f flight _ _ _ =>
    exact ⟨{ flight := f, leader := false, early := !flight.state.isFinished },
      { flight with subscribers := flight.subscribers + 1 }, by simp, by simp, rfl⟩
  | create =>
    exact ⟨{ flight := s.nextFlight, leader := true, early := true },
      { key, subscribers := 1, state := .starting }, by simp, by simp, rfl⟩

theorem prompt_of_run {schedule : List (Action K T)}
    (hexec : Run.exec next init schedule = some s)
    (hnot : Run.Along next (fun s a => ¬ FallsInCancel s a) init schedule) : Inv s ∧ Prompt s := by
  refine Run.exec_invariant_along (I := fun s => Inv s ∧ Prompt s) ?_ ⟨inv_init, ?_⟩ hnot hexec
  · exact fun _ _ _ hs hP hnext => ⟨hs.1.of_next hnext, hs.2.of_next hs.1 hP hnext⟩
  · exact ⟨by simp [init], rfl⟩

/-- **Without an acquire inside a cancel nobody is admitted to a flight that has ended.** -/
theorem flights_admit_only_running {schedule : List (Action K T)}
    (hexec : Run.exec next init schedule = some s)
    (hnot : Run.Along next (fun s a => ¬ FallsInCancel s a) init schedule) :
    AdmitsRunning schedule ∧ s.aborted = []
    ∧ ∀ u completion, (u, completion) ∈ s.deliveries →
      ∃ sub flight, s.sub u = some sub ∧ sub.early = true ∧ s.flight sub.flight = some flight
        ∧ Explains flight sub completion := by
  obtain ⟨hinv, hprompt⟩ := prompt_of_run hexec hnot
  refine ⟨?_, hprompt.aborted, ?_⟩
  · rintro pre key post m n rfl hpre hnext
    obtain ⟨sub, flight, hsub, hflight, hearly⟩ := acquire_sub hnext
    refine ⟨sub, flight, hsub, hflight, ?_⟩
    -- the run up to this acquire is itself such a run
    have hupto : Run.exec next init (pre ++ [.acquire key]) = some n := by
      rw [Run.exec_append_eq_some]
      exact ⟨m, hpre, by rw [Run.exec_cons, hnext]; rfl⟩
    have halong : Run.Along next (fun s a => ¬ FallsInCancel s a) init (pre ++ [.acquire key]) := by
      apply @Run.Along.left _ _ _ _ _ _ post
      rwa [List.append_assoc, List.singleton_append]
    have hjoined := (prompt_of_run hupto halong).2.early m.nextSub sub hsub
    rw [hearly] at hjoined
    simpa using hjoined
  · intro u completion hmem
    obtain ⟨sub, flight, hsub, -, hflight, hexplains⟩ := hinv.delivered.deliveries u completion hmem
    exact ⟨sub, flight, hsub, hprompt.early u sub hsub, hflight, hexplains⟩

private def cancelThenDrop : List (Action Nat Nat) :=
  [.acquire 5, .cancel 0 0 .cacheShutdown, .step 0, .step 0, .drop 1 0]

/-- An acquire after the cancel removed its entry starts a flight of its own. -/
theorem flights_admit_only_running_run : ∃ s : Table Nat Nat,
    Run.exec next init (cancelThenDrop ++ [.step 0, .acquire 5, .tryComplete 1]) = some s
    ∧ AdmitsRunning (cancelThenDrop ++ [.step 0, .acquire 5, .tryComplete 1] : List (Action Nat Nat))
    ∧ s.aborted = [] := by
  let schedule := cancelThenDrop ++ [.step 0, .acquire 5, .tryComplete 1]
  obtain ⟨s, hexec⟩ : ∃ s, Run.exec next init schedule = some s := ⟨_, rfl⟩
  have hnot : Run.Along next (fun s a => ¬ FallsInCancel s a) init schedule := by
    refine Run.along_cons ?_ rfl (Run.along_cons id rfl (Run.along_cons id rfl ?_))
    · rintro ⟨c, f, -, hentry⟩
      cases hentry
    refine Run.along_cons id rfl (Run.along_cons id rfl (Run.along_cons id rfl ?_))
    refine Run.along_cons ?_ rfl (Run.along_cons id rfl trivial)
    rintro ⟨c, f, -, hentry⟩
    cases hentry
  have hsafe := flights_admit_only_running hexec hnot
  exact ⟨s, hexec, hsafe.1, hsafe.2.1⟩

/-- **The dead flight.** `cancel` has published and not yet removed the entry; the last
subscriber leaves, the next caller joins the `Finished` flight and its first poll panics. -/
theorem acquire_inside_cancel_joins_finished :
    ∃ (schedule : List (Action Nat Nat)) (s : Table Nat Nat),
      Run.exec next init schedule = some s ∧ ¬ AdmitsRunning schedule ∧ s.aborted = [1] := by
  obtain ⟨m, n, t, hpre, hacquire, hpoll, hsub, hstate, haborted⟩ : ∃ m n t : Table Nat Nat,
      Run.exec next init cancelThenDrop = some m ∧ next m (.acquire 5) = some n
      ∧ next n (.tryComplete 1) = some t ∧ (n.sub m.nextSub).map Subscription.flight = some 0
      ∧ (n.flight 0).map (fun flight => flight.state.isFinished) = some true
      ∧ t.aborted = [1] := ⟨_, _, _, rfl, rfl, rfl, rfl, rfl, rfl⟩
  refine ⟨cancelThenDrop ++ [.acquire 5, .tryComplete 1], t, ?_, ?_, haborted⟩
  · rw [Run.exec_append_eq_some]
    refine ⟨m, hpre, ?_⟩
    rw [Run.exec_cons, hacquire]
    show (next n (.tryComplete 1)).bind _ = _
    rw [hpoll]
    rfl
  · intro hadmits
    obtain ⟨sub, flight, hu, hf, hopen⟩ := hadmits _ 5 _ m n rfl hpre hacquire
    have hzero : sub.flight = 0 := by simpa [hu] using hsub
    rw [hzero] at hf
    simp [hf, hopen] at hstate

end Runs

end Flights

end Amalgam
