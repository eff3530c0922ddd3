import Amalgam.Flight.Registry

/-!
# Amalgam — subscriptions and what they receive

* **`Subscribed`** — the count in a flight's cell is the number of its live subscriptions,
  and a flight has one leader.
* **`Delivered`** — what a subscription received is what its flight published, once; a value
  waiting to be taken has one taker; who joined in time finds the result.
-/

namespace Amalgam

namespace Flights

section Updates

variable {K T : Type} {s t : Table K T} {f g : FlightId} {u v : SubId} {sub sub' : Subscription}
  {flight flight' other : Flight K T}

/-! ## The live subscriptions of a flight -/

/-- The live subscriptions to a flight. -/
def Table.subscribersOf (s : Table K T) (f : FlightId) : Finset SubId :=
  s.live.filter fun u => (s.sub u).map Subscription.flight = some f

theorem mem_subscribersOf :
    u ∈ s.subscribersOf f ↔ u ∈ s.live ∧ ∃ sub, s.sub u = some sub ∧ sub.flight = f := by
  unfold Table.subscribersOf
  rw [Finset.mem_filter, Option.map_eq_some_iff]

structure Subscribed (s : Table K T) : Prop where
  known : ∀ u sub, s.sub u = some sub →
    u < s.nextSub ∧ ∃ flight, s.flight sub.flight = some flight
  live : ∀ u ∈ s.live, ∃ sub, s.sub u = some sub
  count : ∀ f flight, s.flight f = some flight → flight.subscribers = (s.subscribersOf f).card
  leader : ∀ u v sub sub', s.sub u = some sub → s.sub v = some sub' → sub.leader = true →
    sub'.leader = true → sub.flight = sub'.flight → u = v

theorem Subscribed.nextSub_notMem (h : Subscribed s) : s.nextSub ∉ s.live := by
  intro hmem
  obtain ⟨sub, hsub⟩ := h.live _ hmem
  exact Nat.lt_irrefl _ (h.known _ sub hsub).1

theorem Subscribed.congr (h : Subscribed s) (hflight : t.flight = s.flight) (hsub : t.sub = s.sub)
    (hlive : t.live = s.live) (hnext : t.nextSub = s.nextSub) : Subscribed t where
  known u sub hu := by
    rw [hnext, hflight]
    exact h.known u sub (hsub ▸ hu)
  live u hu := hsub ▸ h.live u (hlive ▸ hu)
  count f flight hf := by
    unfold Table.subscribersOf
    rw [hlive, hsub]
    exact h.count f flight (hflight ▸ hf)
  leader u v sub sub' hu hv := h.leader u v sub sub' (hsub ▸ hu) (hsub ▸ hv)

theorem Subscribed.setFlight (h : Subscribed s) (hf : s.flight f = some flight)
    (hcount : flight'.subscribers = flight.subscribers) : Subscribed (s.setFlight f flight') where
  known u sub hu := by
    obtain ⟨hlt, old, hold⟩ := h.known u sub hu
    refine ⟨hlt, ?_⟩
    by_cases hsf : sub.flight = f
    · exact ⟨flight', by rw [hsf, Table.setFlight_self]⟩
    · exact ⟨old, by rwa [Table.setFlight_of_ne hsf]⟩
  live := h.live
  count g other hg := by
    by_cases hgf : g = f
    · subst hgf
      obtain rfl : flight' = other := Option.some.inj (Table.setFlight_self.symm.trans hg)
      rw [hcount]
      exact h.count g flight hf
    · exact h.count g other (by rwa [Table.setFlight_of_ne hgf] at hg)
  leader := h.leader

/-- `try_complete` changes nothing but the consumed flag. -/
theorem Subscribed.consume (h : Subscribed s) (hu : s.sub u = some sub) :
    Subscribed (s.setSub u { sub with consumed := true }) := by
  have hback : ∀ v other, (s.setSub u { sub with consumed := true }).sub v = some other →
      ∃ old, s.sub v = some old ∧ other.flight = old.flight ∧ other.leader = old.leader := by
    intro v other hv
    by_cases hvu : v = u
    · subst hvu
      obtain rfl : { sub with consumed := true } = other := by simpa using hv
      exact ⟨sub, hu, rfl, rfl⟩
    · exact ⟨other, by simpa [hvu] using hv, rfl, rfl⟩
  have hflights : ∀ v, ((s.setSub u { sub with consumed := true }).sub v).map Subscription.flight
      = (s.sub v).map Subscription.flight := by
    intro v
    by_cases hvu : v = u
    · subst hvu
      simp [hu]
    · simp [hvu]
  refine ⟨fun v other hv => ?_, fun v hv => ?_, fun g other hg => ?_,
    fun v w o o' hv hw hl hl' heq => ?_⟩
  · obtain ⟨old, hold, hfl, -⟩ := hback v other hv
    exact hfl ▸ h.known v old hold
  · obtain ⟨old, hold⟩ := h.live v hv
    by_cases hvu : v = u
    · exact ⟨{ sub with consumed := true }, by simp [hvu]⟩
    · exact ⟨old, by simpa [hvu] using hold⟩
  · unfold Table.subscribersOf
    simp only [hflights]
    exact h.count g other hg
  · obtain ⟨old, hold, hfl, hld⟩ := hback v o hv
    obtain ⟨old', hold', hfl', hld'⟩ := hback w o' hw
    exact h.leader v w old old' hold hold' (hld ▸ hl) (hld' ▸ hl') (hfl ▸ hfl' ▸ heq)

/-- A new subscription, counted in its flight. -/
theorem Subscribed.subscribe (h : Subscribed s) (hf : s.flight sub.flight = some flight)
    (hcount : flight'.subscribers = flight.subscribers + 1)
    (hleader : sub.leader = true → ∀ v other, s.sub v = some other → other.flight ≠ sub.flight) :
    Subscribed ((s.setFlight sub.flight flight').subscribe sub) := by
  have hfresh := h.nextSub_notMem
  have hset : ∀ g, ((s.setFlight sub.flight flight').subscribe sub).subscribersOf g
      = if sub.flight = g then insert s.nextSub (s.subscribersOf g) else s.subscribersOf g := by
    intro g
    ext v
    by_cases hv : v = s.nextSub
    · subst hv
      by_cases hsg : sub.flight = g <;> simp [Table.subscribersOf, hsg, hfresh]
    · by_cases hsg : sub.flight = g <;> simp [Table.subscribersOf, hv, hsg]
  refine ⟨fun v other hv => ?_, fun v hv => ?_, fun g other hg => ?_,
    fun v w o o' hv hw hl hl' heq => ?_⟩
  · by_cases hvn : v = s.nextSub
    · subst hvn
      obtain rfl : sub = other := by simpa using hv
      exact ⟨Nat.lt_succ_self _, flight', Table.setFlight_self⟩
    · obtain ⟨hlt, old, hold⟩ := h.known v other (by simpa [hvn] using hv)
      refine ⟨Nat.lt_succ_of_lt hlt, ?_⟩
      by_cases hsf : other.flight = sub.flight
      · exact ⟨flight', by rw [hsf]; exact Table.setFlight_self⟩
      · exact ⟨old, by simpa [hsf] using hold⟩
  · by_cases hvn : v = s.nextSub
    · exact ⟨sub, by simp [hvn]⟩
    · obtain ⟨old, hold⟩ := h.live v (by simpa [hvn] using hv)
      exact ⟨old, by simpa [hvn] using hold⟩
  · rw [hset]
    by_cases hgf : g = sub.flight
    · subst hgf
      obtain rfl : flight' = other := by simpa using hg
      have hnot : s.nextSub ∉ s.subscribersOf sub.flight :=
        fun hmem => hfresh (mem_subscribersOf.mp hmem).1
      rw [if_pos rfl, Finset.card_insert_of_notMem hnot, hcount, h.count _ flight hf]
    · rw [if_neg (fun heq => hgf heq.symm)]
      exact h.count g other (by simpa [hgf] using hg)
  · by_cases hvn : v = s.nextSub
    · by_cases hwn : w = s.nextSub
      · rw [hvn, hwn]
      · obtain rfl : sub = o := by simpa [hvn] using hv
        exact absurd heq.symm (hleader hl w o' (by simpa [hwn] using hw))
    · by_cases hwn : w = s.nextSub
      · obtain rfl : sub = o' := by simpa [hwn] using hw
        exact absurd heq (hleader hl' v o (by simpa [hvn] using hv))
      · exact h.leader v w o o' (by simpa [hvn] using hv) (by simpa [hwn] using hw) hl hl' heq

/-- A subscription goes away. -/
theorem Subscribed.drop (h : Subscribed s) (hu : s.sub u = some sub) (hlive : u ∈ s.live)
    (hf : s.flight sub.flight = some flight)
    (hcount : flight'.subscribers = flight.subscribers - 1) :
    Subscribed ({ s with live := s.live.erase u }.setFlight sub.flight flight') := by
  have hset : ∀ g, ({ s with live := s.live.erase u }.setFlight sub.flight flight').subscribersOf g
      = (s.subscribersOf g).erase u := by
    intro g
    ext v
    simp [Table.subscribersOf, and_assoc]
  have hmem : u ∈ s.subscribersOf sub.flight := mem_subscribersOf.mpr ⟨hlive, sub, hu, rfl⟩
  refine ⟨fun v other hv => ?_, fun v hv => h.live v (Finset.mem_of_mem_erase hv),
    fun g other hg => ?_, h.leader⟩
  · obtain ⟨hlt, old, hold⟩ := h.known v other hv
    refine ⟨hlt, ?_⟩
    by_cases hsf : other.flight = sub.flight
    · exact ⟨flight', by rw [hsf]; exact Table.setFlight_self⟩
    · exact ⟨old, by simpa [hsf] using hold⟩
  · rw [hset]
    by_cases hgf : g = sub.flight
    · subst hgf
      obtain rfl : flight' = other := Option.some.inj (Table.setFlight_self.symm.trans hg)
      rw [hcount, h.count _ flight hf, Finset.card_erase_of_mem hmem]
    · have hnot : u ∉ s.subscribersOf g := by
        intro hmem'
        obtain ⟨-, sub', hsub', hfl⟩ := mem_subscribersOf.mp hmem'
        obtain rfl : sub = sub' := Option.some.inj (hu.symm.trans hsub')
        exact hgf hfl.symm
      rw [Finset.erase_eq_of_notMem hnot]
      exact h.count g other (by simpa [hgf] using hg)

/-! ## What is delivered -/

/-- The completion a subscription received is what its flight published: by value to the one
subscriber there was, shared to several, the panic to the leader. -/
def Explains (flight : Flight K T) (sub : Subscription) : Completion T → Prop
  | .owned result =>
    (flight.outcome = some (.owned result) ∧ flight.audience = 1)
      ∨ ∃ reason, flight.outcome = some (.cancelled reason)
        ∧ result = .error (.operationCancelled reason)
  | .shared result => flight.outcome = some (.shared result)
  | .panicked payload => flight.outcome = some (.panicked (some payload)) ∧ sub.leader = true
  | .followerPanicked => ∃ payload, flight.outcome = some (.panicked payload)

structure Delivered (s : Table K T) : Prop where
  /-- What was published stays, and the flight with it has ended. -/
  outcome : ∀ f flight, s.flight f = some flight → flight.outcome.isSome = true →
    flight.state.isFinished = true
  completed : ∀ f flight terminal, s.flight f = some flight → flight.state = .completed terminal →
    flight.outcome = some terminal
      ∨ terminal = .panicked none ∧ ∃ payload, flight.outcome = some (.panicked payload)
  /-- A value to be taken has one subscriber, and nobody can join. -/
  sole : ∀ f flight result, s.flight f = some flight →
    flight.state = .completed (.owned result) →
    flight.subscribers = 1 ∧ flight.audience = 1 ∧ s.entries flight.key ≠ some f
  consumed : ∀ u sub flight, s.sub u = some sub → sub.consumed = true →
    s.flight sub.flight = some flight → flight.state.isFinished = true
  /-- Who joined in time and still waits does not find the flight `Finished`. -/
  waiting : ∀ u sub flight, s.sub u = some sub → u ∈ s.live → sub.early = true →
    sub.consumed = false → s.flight sub.flight = some flight → flight.state ≠ .finished
  deliveries : ∀ u completion, (u, completion) ∈ s.deliveries →
    ∃ sub flight, s.sub u = some sub ∧ sub.consumed = true
      ∧ s.flight sub.flight = some flight ∧ Explains flight sub completion
  once : (s.deliveries.map Prod.fst).Nodup
  aborted : ∀ u ∈ s.aborted, ∃ sub, s.sub u = some sub ∧ sub.early = false

theorem Explains.outcome_isSome {completion : Completion T}
    (h : Explains flight sub completion) : flight.outcome.isSome = true := by
  cases completion with
  | owned result =>
    rcases h with ⟨heq, -⟩ | ⟨reason, heq, -⟩ <;> simp [heq]
  | shared result =>
    have heq : flight.outcome = _ := h
    simp [heq]
  | panicked payload => simp [h.1]
  | followerPanicked =>
    obtain ⟨payload, heq⟩ := h
    simp [heq]

theorem Explains.congr {completion : Completion T} (h : Explains flight sub completion)
    (houtcome : flight'.outcome = flight.outcome) (haudience : flight'.audience = flight.audience)
    (hleader : sub'.leader = sub.leader) : Explains flight' sub' completion := by
  cases completion <;> simp only [Explains, houtcome, haudience, hleader] at h ⊢ <;> exact h

theorem Delivered.congr (h : Delivered s) (hflight : t.flight = s.flight) (hsub : t.sub = s.sub)
    (hlive : t.live ⊆ s.live) (hentries : ∀ k g, t.entries k = some g → s.entries k = some g)
    (hdeliveries : t.deliveries = s.deliveries) (haborted : t.aborted = s.aborted) :
    Delivered t where
  outcome f flight hf := h.outcome f flight (hflight ▸ hf)
  completed f flight terminal hf := h.completed f flight terminal (hflight ▸ hf)
  sole f flight result hf hs := by
    obtain ⟨hcount, haudience, hentry⟩ := h.sole f flight result (hflight ▸ hf) hs
    exact ⟨hcount, haudience, fun he => hentry (hentries _ _ he)⟩
  consumed u sub flight hu hc hf := h.consumed u sub flight (hsub ▸ hu) hc (hflight ▸ hf)
  waiting u sub flight hu hl he hc hf :=
    h.waiting u sub flight (hsub ▸ hu) (hlive hl) he hc (hflight ▸ hf)
  deliveries u completion hmem := by
    rw [hsub, hflight]
    exact h.deliveries u completion (hdeliveries ▸ hmem)
  once := hdeliveries ▸ h.once
  aborted u hu := hsub ▸ h.aborted u (haborted ▸ hu)

variable (flight') in
/-- A flight changes; what it has published stays. -/
theorem Delivered.setFlight (h : Delivered s) (hf : s.flight f = some flight)
    (hkey : flight'.key = flight.key)
    (houtcome : flight.outcome.isSome = true →
      flight'.outcome = flight.outcome ∧ flight'.audience = flight.audience)
    (hended : flight'.outcome.isSome = true → flight'.state.isFinished = true)
    (hcompleted : ∀ terminal, flight'.state = .completed terminal →
      flight'.outcome = some terminal
        ∨ terminal = .panicked none ∧ ∃ payload, flight'.outcome = some (.panicked payload))
    (hsole : ∀ result, flight'.state = .completed (.owned result) →
      flight'.subscribers = 1 ∧ flight'.audience = 1 ∧ s.entries flight.key ≠ some f)
    (hmono : flight.state.isFinished = true → flight'.state.isFinished = true)
    (hwaiting : flight'.state = .finished → ∀ u sub, s.sub u = some sub → u ∈ s.live →
      sub.early = true → sub.consumed = false → sub.flight ≠ f) :
    Delivered (s.setFlight f flight') := by
  have hback : ∀ g other, (s.setFlight f flight').flight g = some other →
      g = f ∧ other = flight' ∨ g ≠ f ∧ s.flight g = some other := by
    intro g other hg
    by_cases hgf : g = f
    · subst hgf
      exact Or.inl ⟨rfl, (Option.some.inj (Table.setFlight_self.symm.trans hg)).symm⟩
    · exact Or.inr ⟨hgf, by rwa [Table.setFlight_of_ne hgf] at hg⟩
  refine ⟨fun g other hg ho => ?_, fun g other terminal hg hs => ?_,
    fun g other result hg hs => ?_, fun u sub other hu hc hg => ?_,
    fun u sub other hu hl he hc hg => ?_, fun u completion hmem => ?_, h.once, h.aborted⟩
  · rcases hback g other hg with ⟨rfl, rfl⟩ | ⟨-, hg⟩
    · exact hended ho
    · exact h.outcome g other hg ho
  · rcases hback g other hg with ⟨rfl, rfl⟩ | ⟨-, hg⟩
    · exact hcompleted terminal hs
    · exact h.completed g other terminal hg hs
  · rcases hback g other hg with ⟨rfl, rfl⟩ | ⟨-, hg⟩
    · rw [hkey]
      exact hsole result hs
    · exact h.sole g other result hg hs
  · rcases hback _ other hg with ⟨heq, rfl⟩ | ⟨-, hg⟩
    · exact hmono (h.consumed u sub flight hu hc (heq ▸ hf))
    · exact h.consumed u sub other hu hc hg
  · rcases hback _ other hg with ⟨heq, rfl⟩ | ⟨-, hg⟩
    · exact fun hs => hwaiting hs u sub hu hl he hc heq
    · exact h.waiting u sub other hu hl he hc hg
  · obtain ⟨sub, old, hu, hc, hold, hexplains⟩ := h.deliveries u completion hmem
    by_cases hsf : sub.flight = f
    · obtain rfl : flight = old := Option.some.inj (hf.symm.trans (hsf ▸ hold))
      obtain ⟨hout, haud⟩ := houtcome hexplains.outcome_isSome
      exact ⟨sub, flight', hu, hc, by rw [hsf, Table.setFlight_self], hexplains.congr hout haud rfl⟩
    · exact ⟨sub, old, hu, hc, by rwa [Table.setFlight_of_ne hsf], hexplains⟩

theorem Delivered.outcome_of_not_finished (h : Delivered s) (hf : s.flight f = some flight)
    (hs : flight.state.isFinished = false) : flight.outcome = none := by
  rw [← Option.not_isSome_iff_eq_none]
  intro hsome
  rw [h.outcome f flight hf hsome] at hs
  cases hs

/-- Nothing is published and no end is passed. -/
theorem Delivered.keep (h : Delivered s) (hf : s.flight f = some flight)
    (hkey : flight'.key = flight.key) (houtcome : flight'.outcome = flight.outcome)
    (haudience : flight'.audience = flight.audience)
    (hcount : flight'.subscribers = flight.subscribers)
    (hstate : flight'.state = flight.state
      ∨ flight.state.isFinished = false ∧ flight'.state.isFinished = false) :
    Delivered (s.setFlight f flight') := by
  have hfinished : flight'.state.isFinished = flight.state.isFinished := by
    rcases hstate with heq | ⟨hold, hnew⟩
    · rw [heq]
    · rw [hold, hnew]
  have hsame : flight'.state.isFinished = true → flight'.state = flight.state := by
    intro hs
    rcases hstate with heq | ⟨-, hnew⟩
    · exact heq
    · rw [hnew] at hs
      cases hs
  refine h.setFlight _ hf hkey (fun _ => ⟨houtcome, haudience⟩) ?_ ?_ ?_ ?_ ?_
  · rw [houtcome, hfinished]
    exact h.outcome f flight hf
  · intro terminal hs
    rw [houtcome]
    exact h.completed f flight terminal hf (hsame (by rw [hs]; rfl) ▸ hs)
  · intro result hs
    rw [hcount, haudience]
    exact h.sole f flight result hf (hsame (by rw [hs]; rfl) ▸ hs)
  · rw [hfinished]
    exact id
  · intro hs u sub hu hl he hc heq
    exact h.waiting u sub flight hu hl he hc (heq ▸ hf) (hsame (by rw [hs]; rfl) ▸ hs)

/-- The three ways in which a flight that has not ended ends. -/
theorem Delivered.publish (h : Delivered s) (hf : s.flight f = some flight)
    (hopen : flight.state.isFinished = false) (hkey : flight'.key = flight.key)
    (hended : flight'.state.isFinished = true)
    (hcompleted : ∀ terminal, flight'.state = .completed terminal →
      flight'.outcome = some terminal)
    (hsole : ∀ result, flight'.state = .completed (.owned result) →
      flight'.subscribers = 1 ∧ flight'.audience = 1 ∧ s.entries flight.key ≠ some f)
    (hnobody : flight'.state = .finished → ∀ u sub, s.sub u = some sub → u ∈ s.live →
      sub.flight ≠ f) : Delivered (s.setFlight f flight') := by
  have hnone := h.outcome_of_not_finished hf hopen
  refine h.setFlight _ hf hkey (by simp [hnone]) (fun _ => hended)
    (fun terminal hs => .inl (hcompleted terminal hs)) hsole (fun _ => hended) ?_
  exact fun hs u sub hu hl _ _ => hnobody hs u sub hu hl

theorem Delivered.subscribe (h : Delivered s)
    (hknown : ∀ u sub, s.sub u = some sub → u < s.nextSub) (hconsumed : sub.consumed = false)
    (hearly : sub.early = true → ∀ flight, s.flight sub.flight = some flight →
      flight.state ≠ .finished) : Delivered (s.subscribe sub) := by
  have hne : ∀ v other, s.sub v = some other → v ≠ s.nextSub :=
    fun v other hv => Nat.ne_of_lt (hknown v other hv)
  have hkeep : ∀ v other, s.sub v = some other → (s.subscribe sub).sub v = some other := by
    intro v other hv
    simpa [hne v other hv] using hv
  refine ⟨h.outcome, h.completed, h.sole, fun v other flight hv hc hf => ?_,
    fun v other flight hv hl he hc hf => ?_, fun v completion hmem => ?_, h.once, fun v hv => ?_⟩
  · by_cases hvn : v = s.nextSub
    · obtain rfl : sub = other := by simpa [hvn] using hv
      rw [hconsumed] at hc
      cases hc
    · exact h.consumed v other flight (by simpa [hvn] using hv) hc hf
  · by_cases hvn : v = s.nextSub
    · obtain rfl : sub = other := by simpa [hvn] using hv
      exact hearly he flight hf
    · exact h.waiting v other flight (by simpa [hvn] using hv) (by simpa [hvn] using hl) he hc hf
  · obtain ⟨other, flight, hv, hrest⟩ := h.deliveries v completion hmem
    exact ⟨other, flight, hkeep v other hv, hrest⟩
  · obtain ⟨other, hother, hlate⟩ := h.aborted v hv
    exact ⟨other, hkeep v other hother, hlate⟩

/-- A completion is handed to a subscription that had none. -/
theorem Delivered.deliver (h : Delivered s) (completion : Completion T) (hu : s.sub u = some sub)
    (hfresh : sub.consumed = false) (hf : s.flight sub.flight = some flight)
    (hfinished : flight.state.isFinished = true) (hexplains : Explains flight sub completion) :
    Delivered { s.setSub u { sub with consumed := true } with
      deliveries := s.deliveries ++ [(u, completion)] } := by
  have hback : ∀ v other, (s.setSub u { sub with consumed := true }).sub v = some other →
      v = u ∧ other = { sub with consumed := true } ∨ v ≠ u ∧ s.sub v = some other := by
    intro v other hv
    by_cases hvu : v = u
    · subst hvu
      exact Or.inl ⟨rfl, by simpa [eq_comm] using hv⟩
    · exact Or.inr ⟨hvu, by simpa [hvu] using hv⟩
  refine ⟨h.outcome, h.completed, h.sole, fun v other flight' hv hc hf' => ?_,
    fun v other flight' hv hl he hc hf' => ?_, fun v c hmem => ?_, ?_, fun v hv => ?_⟩
  · rcases hback v other hv with ⟨rfl, rfl⟩ | ⟨-, hv⟩
    · obtain rfl : flight = flight' := Option.some.inj (hf.symm.trans hf')
      exact hfinished
    · exact h.consumed v other flight' hv hc hf'
  · rcases hback v other hv with ⟨rfl, rfl⟩ | ⟨-, hv⟩
    · cases hc
    · exact h.waiting v other flight' hv hl he hc hf'
  · rcases List.mem_append.mp hmem with hmem | hmem
    · obtain ⟨other, flight', hv, hc, hf', hex⟩ := h.deliveries v c hmem
      have hvu : v ≠ u := by
        rintro rfl
        obtain rfl : sub = other := Option.some.inj (hu.symm.trans hv)
        rw [hfresh] at hc
        cases hc
      exact ⟨other, flight', by simpa [hvu] using hv, hc, hf', hex⟩
    · obtain ⟨rfl, rfl⟩ := Prod.mk.inj (List.mem_singleton.mp hmem)
      exact ⟨{ sub with consumed := true }, flight, by simp, rfl, hf, hexplains.congr rfl rfl rfl⟩
  · show (List.map Prod.fst (s.deliveries ++ [(u, completion)])).Nodup
    rw [List.map_append, List.nodup_append]
    refine ⟨h.once, by simp, ?_⟩
    intro v hv w hw heq
    obtain ⟨⟨v', c⟩, hmem, rfl⟩ := List.mem_map.mp hv
    obtain rfl : v' = u := by simpa [← heq] using hw
    obtain ⟨other, -, hother, hc, -⟩ := h.deliveries v' c hmem
    obtain rfl : sub = other := Option.some.inj (hu.symm.trans hother)
    rw [hfresh] at hc
    cases hc
  · obtain ⟨other, hother, hlate⟩ := h.aborted v hv
    by_cases hvu : v = u
    · subst hvu
      obtain rfl : sub = other := Option.some.inj (hu.symm.trans hother)
      exact ⟨{ sub with consumed := true }, by simp, hlate⟩
    · exact ⟨other, by simpa [hvu] using hother, hlate⟩

/-- The one live subscription of a flight. -/
theorem Subscribed.eq_of_sole (h : Subscribed s) (hf : s.flight f = some flight)
    (hcount : flight.subscribers = 1) (hu : u ∈ s.subscribersOf f) (hv : v ∈ s.subscribersOf f) :
    u = v := by
  rw [h.count f flight hf] at hcount
  exact Finset.card_le_one.mp hcount.le u hu v hv

theorem Subscribed.none_of_nobody (h : Subscribed s) (hf : s.flight f = some flight)
    (hcount : flight.subscribers = 0) (hu : s.sub u = some sub) (hlive : u ∈ s.live) :
    sub.flight ≠ f := by
  intro heq
  rw [h.count f flight hf, Finset.card_eq_zero] at hcount
  have hmem : u ∈ s.subscribersOf f := mem_subscribersOf.mpr ⟨hlive, sub, hu, heq⟩
  rw [hcount] at hmem
  exact absurd hmem (Finset.notMem_empty u)

end Updates

section Moves

variable {K T : Type} [DecidableEq K] {s t : Table K T} {a : Action K T}

/-- A new flight starts without subscriptions. -/
theorem Subscribed.register {key : K} {flight : Flight K T} (h : Subscribed s)
    (hreg : Registered s) (hcount : flight.subscribers = 0) :
    Subscribed (s.register key flight) := by
  have hold : ∀ u sub, s.sub u = some sub → sub.flight ≠ s.nextFlight := by
    intro u sub hu
    obtain ⟨-, old, hold⟩ := h.known u sub hu
    exact Nat.ne_of_lt (hreg.flights _ old hold)
  refine ⟨fun u sub hu => ?_, h.live, fun g other hg => ?_, h.leader⟩
  · obtain ⟨hlt, old, hfl⟩ := h.known u sub hu
    exact ⟨hlt, old, by rwa [register_of_ne (hold u sub hu)]⟩
  · rcases register_cases hg with ⟨rfl, rfl⟩ | ⟨-, hg⟩
    · rw [hcount, eq_comm, Finset.card_eq_zero, Finset.eq_empty_iff_forall_notMem]
      intro u hu
      obtain ⟨-, sub, hsub, hfl⟩ := mem_subscribersOf.mp hu
      exact hold u sub hsub hfl
    · exact h.count g other hg

theorem Subscribed.move (h : Subscribed s) (hreg : Registered s) (hm : Move s a t) :
    Subscribed t := by
  cases hm with
  | @join key f flight _ _ hflight =>
    exact @Subscribed.subscribe _ _ _
      { flight := f, leader := false, early := !flight.state.isFinished } _ _ h hflight rfl
      (by simp)
  | @create key _ hentry =>
    let new : Flight K T := { key, subscribers := 0, state := .starting }
    have hnew : Subscribed (s.register key new) := h.register hreg rfl
    have hsubscribe := @Subscribed.subscribe _ _ _
      { flight := s.nextFlight, leader := true, early := true } new { new with subscribers := 1 }
      hnew (by simp) rfl ?_
    · refine hsubscribe.congr ?_ rfl rfl rfl
      simp [Table.register, Table.subscribe, Table.setFlight, new]
    · intro _ v other hv
      obtain ⟨-, old, hold⟩ := h.known v other hv
      exact Nat.ne_of_lt (hreg.flights _ old hold)
  | removeEntry _ _ | cancelRemove _ _ =>
    exact h.congr removeEntry_flight removeEntry_sub removeEntry_live removeEntry_nextSub
  | install hflight | wake hflight | take _ hflight | restore _ hflight
  | publishNobody _ hflight | publish _ hflight | finishScope _ hflight | request hflight
  | cancelRequest _ hflight | cancelTake _ hflight | abandon _ hflight =>
    exact (h.setFlight hflight (by rfl)).congr rfl rfl rfl rfl
  | deliverOwned hsub hflight | deliverShared hsub hflight | deliverPanic hsub hflight
  | deliverFollower hsub hflight | deliverCancelled hsub hflight =>
    exact ((h.setFlight hflight (by rfl)).consume hsub).congr rfl rfl rfl rfl
  | dropAbandon _ hsub hflight hlive =>
    exact (h.drop hsub hlive hflight (by rfl)).congr rfl rfl rfl rfl
  | dropRetire hsub hflight hlive | drop hsub hflight hlive =>
    exact h.drop hsub hlive hflight rfl
  | _ => exact h.congr rfl rfl rfl rfl

theorem Delivered.register {key : K} {flight : Flight K T} (h : Delivered s)
    (hreg : Registered s) (hsubs : Subscribed s) (hstate : flight.state = .starting)
    (houtcome : flight.outcome = none) : Delivered (s.register key flight) := by
  have hold : ∀ u sub, s.sub u = some sub → sub.flight ≠ s.nextFlight := by
    intro u sub hu
    obtain ⟨-, old, hold⟩ := hsubs.known u sub hu
    exact Nat.ne_of_lt (hreg.flights _ old hold)
  refine ⟨fun g other hg ho => ?_, fun g other terminal hg hs => ?_,
    fun g other result hg hs => ?_, fun u sub other hu hc hg => ?_,
    fun u sub other hu hl he hc hg => ?_, fun u completion hmem => ?_, h.once, h.aborted⟩
  · rcases register_cases hg with ⟨-, rfl⟩ | ⟨-, hg⟩
    · rw [houtcome] at ho
      cases ho
    · exact h.outcome g other hg ho
  · rcases register_cases hg with ⟨-, rfl⟩ | ⟨-, hg⟩
    · rw [hstate] at hs
      cases hs
    · exact h.completed g other terminal hg hs
  · rcases register_cases hg with ⟨-, rfl⟩ | ⟨hne, hg⟩
    · rw [hstate] at hs
      cases hs
    · obtain ⟨hcount, haudience, hentry⟩ := h.sole g other result hg hs
      refine ⟨hcount, haudience, ?_⟩
      by_cases hk : other.key = key
      · simpa [hk] using hne.symm
      · simpa [hk] using hentry
  · exact h.consumed u sub other hu hc (by rwa [register_of_ne (hold u sub hu)] at hg)
  · exact h.waiting u sub other hu hl he hc (by rwa [register_of_ne (hold u sub hu)] at hg)
  · obtain ⟨sub, old, hu, hc, hfl, hex⟩ := h.deliveries u completion hmem
    exact ⟨sub, old, hu, hc, by rwa [register_of_ne (hold u sub hu)], hex⟩

theorem Delivered.move (h : Delivered s) (hsubs : Subscribed s) (hcore : Core s)
    (hm : Move s a t) : Delivered t := by
  cases hm with
  | @join key f flight _ hentry hflight =>
    obtain ⟨other, hother, hkey⟩ := hcore.registered.entries key f hentry
    obtain rfl : flight = other := Option.some.inj (hflight.symm.trans hother)
    have hset : Delivered (s.setFlight f { flight with subscribers := flight.subscribers + 1 }) := by
      refine h.setFlight _ hflight rfl (fun _ => ⟨rfl, rfl⟩) (h.outcome f flight hflight)
        (fun terminal hs => h.completed f flight terminal hflight hs) ?_ id ?_
      · -- a flight with a value to be taken is not registered
        intro result hs
        exact absurd (hkey ▸ hentry) (h.sole f flight result hflight hs).2.2
      · intro hs u sub hu hl he hc heq
        exact h.waiting u sub flight hu hl he hc (heq ▸ hflight) hs
    refine hset.subscribe (fun u sub hu => (hsubs.known u sub hu).1) rfl ?_
    intro hearly other hg hs
    obtain rfl := Option.some.inj (Table.setFlight_self.symm.trans hg)
    have hstate : flight.state = .finished := hs
    simp [hstate, FlightState.isFinished] at hearly
  | @create key _ hentry =>
    let new : Flight K T := { key, subscribers := 1, state := .starting }
    have hnew : Delivered (s.register key new) := h.register hcore.registered hsubs rfl rfl
    refine hnew.subscribe (fun u sub hu => (hsubs.known u sub hu).1) rfl ?_
    intro _ other hg hs
    rcases register_cases hg with ⟨-, rfl⟩ | ⟨hne, -⟩
    · cases hs
    · exact hne rfl
  | install hflight hstate =>
    refine (h.keep hflight (by rfl) (by rfl) (by rfl) (by rfl) (.inr ⟨?_, by rfl⟩)).congr rfl rfl
      (by exact fun _ hu => hu) (fun _ _ he => he) rfl rfl
    rw [hstate]
    rfl
  | wake hflight | request hflight => exact h.keep hflight rfl rfl rfl rfl (.inl rfl)
  | take _ hflight hstate =>
    refine (h.keep hflight (by rfl) (by rfl) (by rfl) (by rfl) (.inr ⟨?_, by rfl⟩)).congr rfl rfl
      (by exact fun _ hu => hu) (fun _ _ he => he) rfl rfl
    rw [hstate]
    rfl
  | @restore c f work flight hcall hflight =>
    obtain ⟨other, hother, hpolling⟩ := hcore.polled.polling c f (by rw [hcall]; rfl)
    obtain rfl : flight = other := Option.some.inj (hflight.symm.trans hother)
    refine (h.keep hflight (by rfl) (by rfl) (by rfl) (by rfl) (.inr ⟨?_, by rfl⟩)).congr rfl rfl
      (by exact fun _ hu => hu) (fun _ _ he => he) rfl rfl
    rw [hpolling]
    rfl
  | finishScope _ hflight | cancelRequest _ hflight =>
    exact (h.keep hflight (by rfl) (by rfl) (by rfl) (by rfl) (.inl (by rfl))).congr rfl rfl
      (by exact fun _ hu => hu) (fun _ _ he => he) rfl rfl
  | removeEntry _ _ | cancelRemove _ _ =>
    exact h.congr removeEntry_flight removeEntry_sub (by simp)
      (fun _ _ he => (removeEntry_eq_some.mp he).1) removeEntry_deliveries removeEntry_aborted
  | @publishNobody c f terminal flight hcall hflight hcount =>
    obtain ⟨other, hother, hpolling⟩ := hcore.polled.polling c f (by rw [hcall]; rfl)
    obtain rfl : flight = other := Option.some.inj (hflight.symm.trans hother)
    refine (h.publish hflight (by rw [hpolling]; rfl) (by rfl) (by rfl) (by simp) (by simp)
      ?_).congr rfl rfl (by exact fun _ hu => hu) (fun _ _ he => he) rfl rfl
    exact fun _ u sub hu hl => hsubs.none_of_nobody hflight hcount hu hl
  | @publish c f terminal flight hcall hflight hcount =>
    obtain ⟨other, hother, hpolling⟩ := hcore.polled.polling c f (by rw [hcall]; rfl)
    obtain rfl : flight = other := Option.some.inj (hflight.symm.trans hother)
    have hentry := hcore.retired.removed c f flight (by rw [hcall]; rfl) hflight
    refine (h.publish hflight (by rw [hpolling]; rfl) (by rfl) (by rfl) ?_ ?_ (by simp)).congr
      rfl rfl (by exact fun _ hu => hu) (fun _ _ he => he) rfl rfl
    · intro terminal' hs
      simpa using hs
    · intro result hs
      have hone : flight.subscribers = 1 := by
        have hshare := FlightState.completed.inj hs
        unfold shareResult at hshare
        split at hshare
        · split at hshare
          · cases hshare
          · omega
        · rename_i hnot
          exact absurd hshare (hnot result)
      exact ⟨hone, hone, hentry⟩
  | @cancelTake c f reason flight _ hflight hstate =>
    have hopen : flight.state.isFinished = false := by
      rcases hstate with hs | ⟨work, hs⟩ <;> rw [hs] <;> rfl
    refine (h.publish hflight hopen (by rfl) (by rfl) ?_ (by simp) (by simp)).congr rfl rfl
      (by exact fun _ hu => hu) (fun _ _ he => he) rfl rfl
    intro terminal hs
    simpa using hs
  | @abandon c f flight reason _ hflight _ hcount hstate =>
    have hset : Delivered (s.setFlight f { flight with state := .finished, reason }) := by
      refine h.publish hflight (by rw [hstate]; rfl) rfl rfl (by simp) (by simp) ?_
      exact fun _ u sub hu hl => hsubs.none_of_nobody hflight hcount hu hl
    refine hset.congr rfl rfl (fun _ hu => hu) ?_ rfl rfl
    intro k g he
    by_cases hk : k = flight.key
    · simp [hk] at he
    · simpa [hk] using he
  | @deliverOwned u sub flight result hsub hflight hlive hfresh hstate =>
    obtain ⟨hone, haudience, hentry⟩ := h.sole _ flight result hflight hstate
    have houtcome : flight.outcome = some (.owned result) := by
      simpa using h.completed _ flight _ hflight hstate
    have hdeliver := h.deliver (.owned result) hsub hfresh hflight
      (by rw [hstate]; rfl) (.inl ⟨houtcome, haudience⟩)
    have hset := hdeliver.setFlight { flight with state := .finished } hflight rfl
      (fun _ => ⟨rfl, rfl⟩) (fun _ => rfl) (by simp) (by simp) (fun _ => rfl) ?_
    · exact hset.congr rfl rfl (fun _ hu => hu) (fun _ _ he => he) rfl rfl
    · -- the one subscriber there is has just been served
      intro _ v other hv hl he hc heq
      have hvu : v ≠ u := by
        rintro rfl
        obtain rfl : { sub with consumed := true } = other := by simpa using hv
        cases hc
      have hmem : u ∈ s.subscribersOf sub.flight := mem_subscribersOf.mpr ⟨hlive, sub, hsub, rfl⟩
      have hmem' : v ∈ s.subscribersOf sub.flight :=
        mem_subscribersOf.mpr ⟨hl, other, by simpa [hvu] using hv, heq⟩
      exact hvu (hsubs.eq_of_sole hflight hone hmem' hmem)
  | @deliverShared u sub flight result hsub hflight hlive hfresh hstate =>
    have houtcome : flight.outcome = some (.shared result) := by
      simpa using h.completed _ flight _ hflight hstate
    have hdeliver := h.deliver (.shared result) hsub hfresh hflight
      (by rw [hstate]; rfl) houtcome
    exact (hdeliver.keep hflight (by rfl) (by rfl) (by rfl) (by rfl) (.inl (by rfl))).congr rfl rfl
      (by exact fun _ hu => hu) (fun _ _ he => he) rfl rfl
  | @deliverPanic u sub flight payload hsub hflight hlive hfresh hleader hstate =>
    have houtcome : flight.outcome = some (.panicked (some payload)) := by
      simpa using h.completed _ flight _ hflight hstate
    have hdeliver := h.deliver (.panicked payload) hsub hfresh hflight
      (by rw [hstate]; rfl) ⟨houtcome, hleader⟩
    refine (hdeliver.setFlight { flight with state := .completed (.panicked none) } hflight rfl
      (fun _ => ⟨rfl, rfl⟩) (fun _ => rfl) ?_ (by simp) (fun _ => rfl)
      (by simp)).congr rfl rfl (fun _ hu => hu) (fun _ _ he => he) rfl rfl
    intro terminal hs
    exact Or.inr ⟨(FlightState.completed.inj hs).symm, some payload, houtcome⟩
  | @deliverFollower u sub flight payload hsub hflight hlive hfresh hstate =>
    have houtcome : ∃ payload, flight.outcome = some (.panicked payload) := by
      rcases h.completed _ flight _ hflight hstate with heq | ⟨-, hpayload⟩
      · exact ⟨payload, heq⟩
      · exact hpayload
    have hdeliver := h.deliver .followerPanicked hsub hfresh hflight
      (by rw [hstate]; rfl) houtcome
    exact (hdeliver.keep hflight (by rfl) (by rfl) (by rfl) (by rfl) (.inl (by rfl))).congr rfl rfl
      (by exact fun _ hu => hu) (fun _ _ he => he) rfl rfl
  | @deliverCancelled u sub flight reason hsub hflight hlive hfresh hstate =>
    have houtcome : flight.outcome = some (.cancelled reason) := by
      simpa using h.completed _ flight _ hflight hstate
    have hdeliver := h.deliver (.owned (.error (.operationCancelled reason))) hsub
      hfresh hflight (by rw [hstate]; rfl) (.inr ⟨reason, houtcome, rfl⟩)
    exact (hdeliver.keep hflight (by rfl) (by rfl) (by rfl) (by rfl) (.inl (by rfl))).congr rfl rfl
      (by exact fun _ hu => hu) (fun _ _ he => he) rfl rfl
  | @abort u sub flight hsub hflight hlive hfresh hstate =>
    refine ⟨h.outcome, h.completed, h.sole, h.consumed, h.waiting, h.deliveries, h.once, ?_⟩
    intro v hv
    rcases List.mem_append.mp hv with hv | hv
    · exact h.aborted v hv
    · obtain rfl : v = u := List.mem_singleton.mp hv
      refine ⟨sub, hsub, ?_⟩
      by_contra hearly
      exact h.waiting v sub flight hsub hlive (by simpa using hearly) hfresh hflight hstate
  | @dropAbandon c u sub flight _ hsub hflight hlive hlast hstate =>
    refine (h.setFlight { flight with subscribers := flight.subscribers - 1 } hflight rfl
      (fun _ => ⟨rfl, rfl⟩) (h.outcome _ flight hflight) (by simp [hstate]) (by simp [hstate])
      id (by simp [hstate])).congr rfl rfl ?_ (fun _ _ he => he) rfl rfl
    exact Finset.erase_subset u s.live
  | @dropRetire c u sub flight terminal hsub hflight hlive hlast hstate =>
    have hone : flight.subscribers = 1 := by
      have hpos : 0 < flight.subscribers := by
        rw [hsubs.count _ flight hflight]
        exact Finset.card_pos.mpr ⟨u, mem_subscribersOf.mpr ⟨hlive, sub, hsub, rfl⟩⟩
      omega
    have herase : Delivered { s with live := s.live.erase u } :=
      h.congr rfl rfl (Finset.erase_subset u s.live) (fun _ _ he => he) rfl rfl
    refine herase.setFlight _ hflight rfl (fun _ => ⟨rfl, rfl⟩) (fun _ => rfl) (by simp) (by simp)
      (fun _ => rfl) ?_
    intro _ v other hv hl he hc heq
    obtain ⟨hvu, hl⟩ := Finset.mem_erase.mp hl
    have hmem : u ∈ s.subscribersOf sub.flight := mem_subscribersOf.mpr ⟨hlive, sub, hsub, rfl⟩
    have hmem' : v ∈ s.subscribersOf sub.flight := mem_subscribersOf.mpr ⟨hl, other, hv, heq⟩
    exact hvu (hsubs.eq_of_sole hflight hone hmem' hmem)
  | @drop c u sub flight hsub hflight hlive hrest =>
    have herase : Delivered { s with live := s.live.erase u } :=
      h.congr rfl rfl (Finset.erase_subset u s.live) (fun _ _ he => he) rfl rfl
    refine herase.setFlight _ hflight rfl (fun _ => ⟨rfl, rfl⟩) (h.outcome _ flight hflight)
      (fun terminal hs => h.completed _ flight terminal hflight hs) ?_ id ?_
    · -- the last subscriber of a value to be taken retires the flight instead
      intro result hs
      obtain ⟨hone, -, -⟩ := h.sole _ flight result hflight hs
      rcases hrest with hrest | hrest | hrest
      · omega
      · rw [hs] at hrest
        cases hrest
      · rw [hs] at hrest
        cases hrest
    · intro hs v other hv hl he hc heq
      exact h.waiting v other flight hv (Finset.mem_of_mem_erase hl) he hc (heq ▸ hflight) hs
  | close => exact h.congr rfl rfl (fun _ hu => hu) (by simp) rfl rfl
  | _ => exact h.congr rfl rfl (fun _ hu => hu) (fun _ _ he => he) rfl rfl

end Moves

end Flights

end Amalgam
