import Amalgam.Flight.Move

/-!
# Amalgam — flights, their table entries and the calls that work on them

Which flight is registered under an identity, who polls its work, and who may still remove
its entry. Each group of facts comes with one lemma for each kind of update, so that a step
lemma only says which updates a move is made of.

* **`Registered`** — an entry leads to a flight of its identity; a flight that has not
  started has its entry.
* **`Polled`** — one call at a time is between the taking and the giving back of the work.
* **`Retired`** — what `complete` publishes is not registered any more; an ended flight that
  still is has a `cancel` on its way to the entry.
* **`Worked`** — installed work is held in one place and never again once it ended.
-/

namespace Amalgam

namespace Flights

section Updates

variable {K T : Type} {s t : Table K T} {f g : FlightId} {c d : CallId} {pc : Pc T}
  {flight flight' other : Flight K T}

theorem Table.setFlight_self : (s.setFlight f flight).flight f = some flight := by simp

theorem Table.setFlight_of_ne (h : g ≠ f) : (s.setFlight f flight).flight g = s.flight g := by
  simp [h]

/-! ## Registered flights -/

structure Registered (s : Table K T) : Prop where
  flights : ∀ f flight, s.flight f = some flight → f < s.nextFlight
  entries : ∀ key f, s.entries key = some f → ∃ flight, s.flight f = some flight ∧ flight.key = key
  starting : s.alive = true → ∀ f flight, s.flight f = some flight → flight.state = .starting →
    s.entries flight.key = some f

theorem Registered.congr (h : Registered s) (hflight : t.flight = s.flight)
    (hentries : t.entries = s.entries) (hnext : t.nextFlight = s.nextFlight)
    (halive : t.alive = s.alive) : Registered t where
  flights f flight hf := hnext ▸ h.flights f flight (hflight ▸ hf)
  entries key f hf := hflight ▸ h.entries key f (hentries ▸ hf)
  starting ha f flight hf hs := hentries ▸ h.starting (halive ▸ ha) f flight (hflight ▸ hf) hs

theorem Registered.setFlight (h : Registered s) (hf : s.flight f = some flight)
    (hkey : flight'.key = flight.key)
    (hstate : flight'.state = .starting → flight.state = .starting) :
    Registered (s.setFlight f flight') where
  flights g other hg := by
    by_cases hgf : g = f
    · exact hgf ▸ h.flights f flight hf
    · exact h.flights g other (by rwa [Table.setFlight_of_ne hgf] at hg)
  entries key g hg := by
    obtain ⟨other, hother, hok⟩ := h.entries key g hg
    by_cases hgf : g = f
    · subst hgf
      obtain rfl : flight = other := Option.some.inj (hf.symm.trans hother)
      exact ⟨flight', Table.setFlight_self, hkey.trans hok⟩
    · exact ⟨other, by rwa [Table.setFlight_of_ne hgf], hok⟩
  starting ha g other hg hs := by
    by_cases hgf : g = f
    · subst hgf
      obtain rfl : flight' = other := Option.some.inj (Table.setFlight_self.symm.trans hg)
      rw [hkey]
      exact h.starting ha g flight hf (hstate hs)
    · exact h.starting ha g other (by rwa [Table.setFlight_of_ne hgf] at hg) hs

/-! ## The poller -/

/-- The call is between taking the work of `f` and giving it back or publishing. -/
def Pc.Holds (f : FlightId) : Pc T → Prop
  | .polling g _ | .returned g _ | .restore g _ | .removeEntry g _ | .readReason g _
  | .publish g _ => g = f
  | _ => False

structure Polled (s : Table K T) : Prop where
  polling : ∀ c f, (s.call c).Holds f → ∃ flight, s.flight f = some flight ∧ flight.state = .polling
  single : ∀ c d f, (s.call c).Holds f → (s.call d).Holds f → c = d

theorem Polled.congr (h : Polled s) (hflight : t.flight = s.flight) (hcall : t.call = s.call) :
    Polled t where
  polling c f hc := hflight ▸ h.polling c f (hcall ▸ hc)
  single c d f hc hd := h.single c d f (hcall ▸ hc) (hcall ▸ hd)

theorem Polled.setFlight (h : Polled s) (hf : s.flight f = some flight)
    (hstate : flight.state = .polling → flight'.state = .polling) :
    Polled (s.setFlight f flight') where
  polling c g hc := by
    obtain ⟨other, hg, hpolling⟩ := h.polling c g hc
    by_cases hgf : g = f
    · subst hgf
      obtain rfl : flight = other := Option.some.inj (hf.symm.trans hg)
      exact ⟨flight', Table.setFlight_self, hstate hpolling⟩
    · exact ⟨other, by rwa [Table.setFlight_of_ne hgf], hpolling⟩
  single := h.single

theorem Table.setCall_of_ne (h : d ≠ c) : (s.setCall c pc).call d = s.call d := by
  simp [h]

theorem Table.setCall_self : (s.setCall c pc).call c = pc := by simp

theorem Polled.setCall (h : Polled s) (hholds : ∀ f, pc.Holds f → (s.call c).Holds f) :
    Polled (s.setCall c pc) := by
  have hback : ∀ d f, ((s.setCall c pc).call d).Holds f → (s.call d).Holds f := by
    intro d f hd
    by_cases hdc : d = c
    · subst hdc
      rw [Table.setCall_self] at hd
      exact hholds f hd
    · rwa [Table.setCall_of_ne hdc] at hd
  exact ⟨fun d f hd => h.polling d f (hback d f hd),
    fun d e f hd he => h.single d e f (hback d f hd) (hback e f he)⟩

/-- The first critical section of `poll_work`. -/
theorem Polled.enter {work : WorkId} (h : Polled s) (hf : s.flight f = some flight)
    (hpending : flight.state = .pending work) (hstate : flight'.state = .polling) :
    Polled ((s.setFlight f flight').setCall c (.polling f work)) := by
  have hnobody : ∀ d, ¬ (s.call d).Holds f := by
    intro d hd
    obtain ⟨other, hother, hpolling⟩ := h.polling d f hd
    obtain rfl : flight = other := Option.some.inj (hf.symm.trans hother)
    rw [hpending] at hpolling
    cases hpolling
  have hset : Polled (s.setFlight f flight') := h.setFlight hf (by simp [hpending])
  have hback : ∀ d g, (((s.setFlight f flight').setCall c (.polling f work)).call d).Holds g →
      d = c ∧ g = f ∨ g ≠ f ∧ (s.call d).Holds g := by
    intro d g hd
    by_cases hdc : d = c
    · subst hdc
      rw [Table.setCall_self] at hd
      exact Or.inl ⟨rfl, Eq.symm hd⟩
    · rw [Table.setCall_of_ne hdc] at hd
      exact Or.inr ⟨fun hgf => hnobody d (hgf ▸ hd), hd⟩
  refine ⟨fun d g hd => ?_, fun d e g hd he => ?_⟩
  · rcases hback d g hd with ⟨-, rfl⟩ | ⟨-, hold⟩
    · exact ⟨flight', Table.setFlight_self, hstate⟩
    · exact hset.polling d g hold
  · rcases hback d g hd with ⟨rfl, rfl⟩ | ⟨hne, hold⟩
    · rcases hback e _ he with ⟨rfl, -⟩ | ⟨hne, -⟩
      · rfl
      · exact absurd rfl hne
    · rcases hback e g he with ⟨-, rfl⟩ | ⟨-, hold'⟩
      · exact absurd rfl hne
      · exact h.single d e g hold hold'

/-- The holder gives the flight up, whatever state it leaves. -/
theorem Polled.leave (h : Polled s) (hc : (s.call c).Holds f) (hpc : ∀ g, ¬ pc.Holds g) :
    Polled ((s.setFlight f flight').setCall c pc) := by
  have hback : ∀ d g, (((s.setFlight f flight').setCall c pc).call d).Holds g →
      g ≠ f ∧ (s.call d).Holds g := by
    intro d g hd
    by_cases hdc : d = c
    · subst hdc
      rw [Table.setCall_self] at hd
      exact absurd hd (hpc g)
    · rw [Table.setCall_of_ne hdc] at hd
      exact ⟨fun hgf => hdc (h.single d c f (hgf ▸ hd) hc), hd⟩
  refine ⟨fun d g hd => ?_, fun d e g hd he => ?_⟩
  · obtain ⟨hgf, hold⟩ := hback d g hd
    obtain ⟨other, hg, hpolling⟩ := h.polling d g hold
    exact ⟨other, by simpa [hgf] using hg, hpolling⟩
  · exact h.single d e g (hback d g hd).2 (hback e g he).2

/-! ## Retired flights -/

/-- `complete` has removed the entry and has not published yet. -/
def Pc.Removed (f : FlightId) : Pc T → Prop
  | .readReason g _ | .publish g _ => g = f
  | _ => False

theorem Pc.Removed.holds (h : pc.Removed f) : pc.Holds f := by
  cases pc <;> first | exact h | exact h.elim

structure Retired (s : Table K T) : Prop where
  removed : ∀ c f flight, (s.call c).Removed f → s.flight f = some flight →
    s.entries flight.key ≠ some f
  cancelled : ∀ c f took, s.call c = .cancelRemove f took →
    ∃ flight, s.flight f = some flight ∧ flight.state ≠ .starting
  ended : ∀ f flight, s.flight f = some flight → flight.state.isFinished = true →
    s.entries flight.key = some f → ∃ c, s.call c = .cancelRemove f true

theorem Retired.congr (h : Retired s) (hflight : t.flight = s.flight)
    (hentries : t.entries = s.entries) (hcall : t.call = s.call) : Retired t where
  removed c f flight hc hf := hentries ▸ h.removed c f flight (hcall ▸ hc) (hflight ▸ hf)
  cancelled c f took hc := hflight ▸ h.cancelled c f took (hcall ▸ hc)
  ended f flight hf hs he := hcall ▸ h.ended f flight (hflight ▸ hf) hs (hentries ▸ he)

theorem Retired.setFlight (h : Retired s) (hf : s.flight f = some flight)
    (hkey : flight'.key = flight.key)
    (hstarting : flight'.state = .starting → flight.state = .starting)
    (hended : flight'.state.isFinished = true → flight.state.isFinished = true
      ∨ s.entries flight.key ≠ some f ∨ ∃ c, s.call c = .cancelRemove f true) :
    Retired (s.setFlight f flight') where
  removed c g other hc hg := by
    by_cases hgf : g = f
    · subst hgf
      obtain rfl : flight' = other := Option.some.inj (Table.setFlight_self.symm.trans hg)
      rw [hkey]
      exact h.removed c g flight hc hf
    · exact h.removed c g other hc (by rwa [Table.setFlight_of_ne hgf] at hg)
  cancelled c g took hc := by
    obtain ⟨other, hg, hs⟩ := h.cancelled c g took hc
    by_cases hgf : g = f
    · subst hgf
      obtain rfl : flight = other := Option.some.inj (hf.symm.trans hg)
      exact ⟨flight', Table.setFlight_self, fun hs' => hs (hstarting hs')⟩
    · exact ⟨other, by rwa [Table.setFlight_of_ne hgf], hs⟩
  ended g other hg hs he := by
    by_cases hgf : g = f
    · subst hgf
      obtain rfl : flight' = other := Option.some.inj (Table.setFlight_self.symm.trans hg)
      rcases hended hs with hs | hnot | hcancel
      · exact h.ended g flight hf hs (hkey ▸ he)
      · exact absurd (hkey ▸ he) hnot
      · exact hcancel
    · exact h.ended g other (by rwa [Table.setFlight_of_ne hgf] at hg) hs he

theorem Retired.setCall (h : Retired s) (hremoved : ∀ f, pc.Removed f → (s.call c).Removed f)
    (hold : ∀ f, s.call c ≠ .cancelRemove f true)
    (hnew : ∀ f took, pc = .cancelRemove f took →
      ∃ flight, s.flight f = some flight ∧ flight.state ≠ .starting) :
    Retired (s.setCall c pc) where
  removed d f flight hd hf := by
    by_cases hdc : d = c
    · subst hdc
      rw [Table.setCall_self] at hd
      exact h.removed d f flight (hremoved f hd) hf
    · exact h.removed d f flight (by rwa [Table.setCall_of_ne hdc] at hd) hf
  cancelled d f took hd := by
    by_cases hdc : d = c
    · subst hdc
      rw [Table.setCall_self] at hd
      exact hnew f took hd
    · exact h.cancelled d f took (by rwa [Table.setCall_of_ne hdc] at hd)
  ended f flight hf hs he := by
    obtain ⟨d, hd⟩ := h.ended f flight hf hs he
    have hdc : d ≠ c := fun heq => hold f (heq ▸ hd)
    exact ⟨d, by rwa [Table.setCall_of_ne hdc]⟩

/-- A call that stands nowhere near an entry. -/
def Pc.Plain (pc : Pc T) : Prop :=
  (∀ f, ¬ pc.Removed f) ∧ ∀ f took, pc ≠ .cancelRemove f took

theorem Retired.setPlain (h : Retired s) (hpc : pc.Plain)
    (hold : ∀ f, s.call c ≠ .cancelRemove f true) : Retired (s.setCall c pc) :=
  h.setCall (fun f hf => absurd hf (hpc.1 f)) hold fun f took heq => absurd heq (hpc.2 f took)

/-- `cancel` ends a flight whose work nobody holds, and still has its entry to remove. -/
theorem Retired.cancelTake {reason : Reason} (h : Retired s) (hf : s.flight f = some flight)
    (hcall : s.call c = .cancelCell f reason) (hkey : flight'.key = flight.key)
    (hstate : flight'.state ≠ .starting) :
    Retired ((s.setFlight f flight').setCall c (.cancelRemove f true)) := by
  have hback : ∀ d took g, ((s.setFlight f flight').setCall c (.cancelRemove f true)).call d
      = .cancelRemove g took → d = c ∧ g = f ∨ s.call d = .cancelRemove g took := by
    intro d took g hd
    by_cases hdc : d = c
    · subst hdc
      rw [Table.setCall_self] at hd
      exact Or.inl ⟨rfl, (Pc.cancelRemove.inj hd).1.symm⟩
    · exact Or.inr (by rwa [Table.setCall_of_ne hdc] at hd)
  have hflights : ∀ g other, ((s.setFlight f flight').setCall c (.cancelRemove f true)).flight g
      = some other → g = f ∧ other = flight' ∨ g ≠ f ∧ s.flight g = some other := by
    intro g other hg
    by_cases hgf : g = f
    · subst hgf
      exact Or.inl ⟨rfl, (Option.some.inj (Table.setFlight_self.symm.trans hg)).symm⟩
    · exact Or.inr ⟨hgf, (Table.setFlight_of_ne hgf).symm.trans hg⟩
  refine ⟨fun d g other hd hg => ?_, fun d g took hd => ?_, fun g other hg hs he => ?_⟩
  · have hd' : (s.call d).Removed g := by
      by_cases hdc : d = c
      · subst hdc
        rw [Table.setCall_self] at hd
        exact hd.elim
      · rwa [Table.setCall_of_ne hdc] at hd
    rcases hflights g other hg with ⟨rfl, rfl⟩ | ⟨-, hold⟩
    · rw [hkey]
      exact h.removed d g flight hd' hf
    · exact h.removed d g other hd' hold
  · by_cases hgf : g = f
    · subst hgf
      exact ⟨flight', Table.setFlight_self, hstate⟩
    · rcases hback d took g hd with ⟨-, rfl⟩ | hold
      · exact absurd rfl hgf
      · obtain ⟨other, hg, hs⟩ := h.cancelled d g took hold
        exact ⟨other, (Table.setFlight_of_ne hgf).trans hg, hs⟩
  · rcases hflights g other hg with ⟨rfl, -⟩ | ⟨-, hold⟩
    · exact ⟨c, Table.setCall_self⟩
    · obtain ⟨d, hd⟩ := h.ended g other hold hs he
      have hdc : d ≠ c := by
        rintro rfl
        rw [hcall] at hd
        cases hd
      exact ⟨d, by rwa [Table.setCall_of_ne hdc]⟩

/-! ## Work -/

/-- The work a call holds, with its flight. -/
def Pc.work : Pc T → Option (FlightId × WorkId)
  | .polling f work | .returned f work | .restore f work => some (f, work)
  | _ => none

structure Worked (s : Table K T) : Prop where
  held : ∀ c f work, (s.call c).work = some (f, work) →
    ∃ flight, s.flight f = some flight ∧ flight.installed = some work ∧ work ∉ s.ended
  pending : ∀ f flight work, s.flight f = some flight → flight.state = .pending work →
    flight.installed = some work ∧ work ∉ s.ended
  fresh : ∀ f flight, s.flight f = some flight → flight.state = .starting →
    flight.installed = none
  bound : ∀ f flight work, s.flight f = some flight → flight.installed = some work →
    work < s.nextWork
  ended_bound : ∀ work ∈ s.ended, work < s.nextWork
  injective : ∀ f g flight other work, s.flight f = some flight → s.flight g = some other →
    flight.installed = some work → other.installed = some work → f = g

theorem Worked.congr (h : Worked s) (hflight : t.flight = s.flight) (hcall : t.call = s.call)
    (hended : t.ended = s.ended) (hnext : s.nextWork ≤ t.nextWork) : Worked t where
  held c f work hc := by
    rw [hflight, hended]
    exact h.held c f work (hcall ▸ hc)
  pending f flight work hf hs := hended ▸ h.pending f flight work (hflight ▸ hf) hs
  fresh f flight hf := h.fresh f flight (hflight ▸ hf)
  bound f flight work hf hw := lt_of_lt_of_le (h.bound f flight work (hflight ▸ hf) hw) hnext
  ended_bound work hw := lt_of_lt_of_le (h.ended_bound work (hended ▸ hw)) hnext
  injective f g flight other work hf hg :=
    h.injective f g flight other work (hflight ▸ hf) (hflight ▸ hg)

theorem Worked.setFlight (h : Worked s) (hf : s.flight f = some flight)
    (hinstalled : flight'.installed = flight.installed)
    (hpending : ∀ work, flight'.state = .pending work → flight.state = .pending work
      ∨ flight.installed = some work ∧ work ∉ s.ended)
    (hstarting : flight'.state = .starting → flight.state = .starting) :
    Worked (s.setFlight f flight') := by
  have hback : ∀ g other, (s.setFlight f flight').flight g = some other →
      ∃ old, s.flight g = some old ∧ other.installed = old.installed
        ∧ (g ≠ f → other = old) := by
    intro g other hg
    by_cases hgf : g = f
    · subst hgf
      obtain rfl : flight' = other := Option.some.inj (Table.setFlight_self.symm.trans hg)
      exact ⟨flight, hf, hinstalled, fun hne => absurd rfl hne⟩
    · exact ⟨other, by rwa [Table.setFlight_of_ne hgf] at hg, rfl, fun _ => rfl⟩
  refine ⟨fun c g work hc => ?_, fun g other work hg hs => ?_, fun g other hg hs => ?_,
    fun g other work hg hw => ?_, h.ended_bound, fun g k other third work hg hk hw hw' => ?_⟩
  · obtain ⟨old, hold, hw, hended⟩ := h.held c g work hc
    by_cases hgf : g = f
    · subst hgf
      obtain rfl : flight = old := Option.some.inj (hf.symm.trans hold)
      exact ⟨flight', Table.setFlight_self, hinstalled.trans hw, hended⟩
    · exact ⟨old, by rwa [Table.setFlight_of_ne hgf], hw, hended⟩
  · by_cases hgf : g = f
    · subst hgf
      obtain rfl : flight' = other := Option.some.inj (Table.setFlight_self.symm.trans hg)
      rcases hpending work hs with hs | hw
      · exact hinstalled ▸ h.pending g flight work hf hs
      · exact hinstalled ▸ hw
    · exact h.pending g other work (by rwa [Table.setFlight_of_ne hgf] at hg) hs
  · by_cases hgf : g = f
    · subst hgf
      obtain rfl : flight' = other := Option.some.inj (Table.setFlight_self.symm.trans hg)
      exact hinstalled ▸ h.fresh g flight hf (hstarting hs)
    · exact h.fresh g other (by rwa [Table.setFlight_of_ne hgf] at hg) hs
  · obtain ⟨old, hold, heq, -⟩ := hback g other hg
    exact h.bound g old work hold (heq ▸ hw)
  · obtain ⟨old, hold, heq, -⟩ := hback g other hg
    obtain ⟨old', hold', heq', -⟩ := hback k third hk
    exact h.injective g k old old' work hold hold' (heq ▸ hw) (heq' ▸ hw')

theorem Worked.setCall (h : Worked s)
    (hwork : ∀ f work, pc.work = some (f, work) → (s.call c).work = some (f, work)
      ∨ ∃ flight, s.flight f = some flight ∧ flight.installed = some work ∧ work ∉ s.ended) :
    Worked (s.setCall c pc) where
  held d f work hd := by
    by_cases hdc : d = c
    · subst hdc
      rw [Table.setCall_self] at hd
      rcases hwork f work hd with hold | hnew
      · exact h.held d f work hold
      · exact hnew
    · exact h.held d f work (by rwa [Table.setCall_of_ne hdc] at hd)
  pending := h.pending
  fresh := h.fresh
  bound := h.bound
  ended_bound := h.ended_bound
  injective := h.injective

/-! ## Work that ends, work that is installed -/

theorem Worked.finish {work : WorkId} (h : Worked s) (hpolled : Polled s)
    (hcall : s.call c = .polling f work) (hpc : pc.work = none) :
    Worked ({ s with ended := insert work s.ended }.setCall c pc) := by
  obtain ⟨flight, hf, hinstalled, -⟩ := h.held c f work (by rw [hcall]; rfl)
  have hholds : (s.call c).Holds f := by rw [hcall]; rfl
  obtain ⟨flight₂, hf₂, hpolling⟩ := hpolled.polling c f hholds
  obtain rfl : flight = flight₂ := Option.some.inj (hf.symm.trans hf₂)
  refine ⟨fun d g w hd => ?_, fun g other w hg hs => ?_, h.fresh, h.bound, fun w hw => ?_,
    h.injective⟩
  · by_cases hdc : d = c
    · subst hdc
      rw [Table.setCall_self, hpc] at hd
      cases hd
    · rw [Table.setCall_of_ne hdc] at hd
      obtain ⟨other, hg, hw, hended⟩ := h.held d g w hd
      refine ⟨other, hg, hw, ?_⟩
      -- another holder of this work would be a second poller of the flight
      show w ∉ insert work s.ended
      rw [Finset.mem_insert, not_or]
      refine ⟨?_, hended⟩
      rintro rfl
      obtain rfl := h.injective g f other flight w hg hf hw hinstalled
      have hholds' : (s.call d).Holds g := by
        revert hd
        cases s.call d <;> simp [Pc.work, Pc.Holds] <;> tauto
      exact hdc (hpolled.single d c g hholds' hholds)
  · obtain ⟨hw, hended⟩ := h.pending g other w hg hs
    refine ⟨hw, ?_⟩
    show w ∉ insert work s.ended
    rw [Finset.mem_insert, not_or]
    refine ⟨?_, hended⟩
    rintro rfl
    obtain rfl := h.injective g f other flight w hg hf hw hinstalled
    obtain rfl : flight = other := Option.some.inj (hf.symm.trans hg)
    rw [hpolling] at hs
    cases hs
  · rcases Finset.mem_insert.mp hw with rfl | hw
    · exact h.bound f flight _ hf hinstalled
    · exact h.ended_bound w hw

theorem Worked.install (h : Worked s) (hf : s.flight f = some flight)
    (hstate : flight.state = .starting) :
    Worked ({ s with nextWork := s.nextWork + 1 }.setFlight f
      { flight with state := .pending s.nextWork, installed := some s.nextWork }) := by
  have hnew : s.nextWork ∉ s.ended := fun hmem => Nat.lt_irrefl _ (h.ended_bound _ hmem)
  have hback : ∀ g other work,
      ({ s with nextWork := s.nextWork + 1 }.setFlight f
        { flight with state := .pending s.nextWork, installed := some s.nextWork }).flight g
          = some other → other.installed = some work →
      g = f ∧ work = s.nextWork ∨ g ≠ f ∧ s.flight g = some other ∧ work < s.nextWork := by
    intro g other work hg hw
    by_cases hgf : g = f
    · subst hgf
      have heq := Option.some.inj (Table.setFlight_self.symm.trans hg)
      subst heq
      exact Or.inl ⟨rfl, (Option.some.inj hw).symm⟩
    · rw [Table.setFlight_of_ne hgf] at hg
      exact Or.inr ⟨hgf, hg, h.bound g other work hg hw⟩
  refine ⟨fun c g work hc => ?_, fun g other work hg hs => ?_, fun g other hg hs => ?_,
    fun g other work hg hw => ?_, fun work hw => Nat.lt_succ_of_lt (h.ended_bound work hw),
    fun g k other third work hg hk hw hw' => ?_⟩
  · obtain ⟨other, hg, hw, hended⟩ := h.held c g work hc
    have hgf : g ≠ f := by
      rintro rfl
      obtain rfl : flight = other := Option.some.inj (hf.symm.trans hg)
      rw [h.fresh g flight hf hstate] at hw
      cases hw
    exact ⟨other, by rwa [Table.setFlight_of_ne hgf], hw, hended⟩
  · by_cases hgf : g = f
    · subst hgf
      have heq := Option.some.inj (Table.setFlight_self.symm.trans hg)
      subst heq
      cases hs
      exact ⟨rfl, hnew⟩
    · exact h.pending g other work (by rwa [Table.setFlight_of_ne hgf] at hg) hs
  · by_cases hgf : g = f
    · subst hgf
      have heq := Option.some.inj (Table.setFlight_self.symm.trans hg)
      subst heq
      cases hs
    · exact h.fresh g other (by rwa [Table.setFlight_of_ne hgf] at hg) hs
  · rcases hback g other work hg hw with ⟨-, rfl⟩ | ⟨-, -, hlt⟩
    · exact Nat.lt_succ_self _
    · exact Nat.lt_succ_of_lt hlt
  · rcases hback g other work hg hw with ⟨rfl, rfl⟩ | ⟨-, hg', hlt⟩
    · rcases hback k third _ hk hw' with ⟨rfl, -⟩ | ⟨-, -, hlt⟩
      · rfl
      · exact absurd hlt (Nat.lt_irrefl _)
    · rcases hback k third work hk hw' with ⟨-, rfl⟩ | ⟨-, hk', -⟩
      · exact absurd hlt (Nat.lt_irrefl _)
      · exact h.injective g k other third work hg' hk' hw hw'

/-! ## All of it -/

/-- What holds of the flights, the entries and the calls of every reachable table. -/
structure Core (s : Table K T) : Prop where
  registered : Registered s
  polled : Polled s
  retired : Retired s
  worked : Worked s

theorem Core.congr (h : Core s) (hflight : t.flight = s.flight) (hentries : t.entries = s.entries)
    (hnext : t.nextFlight = s.nextFlight) (halive : t.alive = s.alive) (hcall : t.call = s.call)
    (hended : t.ended = s.ended) (hwork : s.nextWork ≤ t.nextWork) : Core t where
  registered := h.registered.congr hflight hentries hnext halive
  polled := h.polled.congr hflight hcall
  retired := h.retired.congr hflight hentries hcall
  worked := h.worked.congr hflight hcall hended hwork

/-- A flight changes without leaving or entering `Starting`, `Pending` or `Polling`. -/
theorem Core.setFlight (h : Core s) (hf : s.flight f = some flight)
    (hkey : flight'.key = flight.key) (hinstalled : flight'.installed = flight.installed)
    (hstate : flight'.state = flight.state ∨
      flight.state.isFinished = true ∧ flight'.state.isFinished = true) :
    Core (s.setFlight f flight') := by
  have hstarting : flight'.state = .starting → flight.state = .starting := by
    rcases hstate with heq | ⟨-, hfin⟩
    · rw [heq]; exact id
    · intro hs; rw [hs] at hfin; cases hfin
  have hended : flight'.state.isFinished = true → flight.state.isFinished = true := by
    rcases hstate with heq | ⟨hfin, -⟩
    · rw [heq]; exact id
    · exact fun _ => hfin
  have hpolling : flight.state = .polling → flight'.state = .polling := by
    rcases hstate with heq | ⟨hfin, -⟩
    · rw [heq]; exact id
    · intro hs; rw [hs] at hfin; cases hfin
  have hpending : ∀ work, flight'.state = .pending work → flight.state = .pending work := by
    intro work
    rcases hstate with heq | ⟨-, hfin⟩
    · rw [heq]; exact id
    · intro hs; rw [hs] at hfin; cases hfin
  exact ⟨h.registered.setFlight hf hkey hstarting, h.polled.setFlight hf hpolling,
    h.retired.setFlight hf hkey hstarting (fun hs => .inl (hended hs)),
    h.worked.setFlight hf hinstalled (fun work hs => .inl (hpending work hs)) hstarting⟩

/-- A call goes on without taking or giving back work or an entry. -/
theorem Core.setCall (h : Core s) (hholds : ∀ f, pc.Holds f → (s.call c).Holds f)
    (hremoved : ∀ f, pc.Removed f → (s.call c).Removed f)
    (hold : ∀ f took, s.call c ≠ .cancelRemove f took) (hnew : ∀ f took, pc ≠ .cancelRemove f took)
    (hwork : ∀ x, pc.work = some x → (s.call c).work = some x) : Core (s.setCall c pc) where
  registered := h.registered.congr rfl rfl rfl rfl
  polled := h.polled.setCall hholds
  retired := h.retired.setCall hremoved (fun f => hold f true)
    fun f took heq => absurd heq (hnew f took)
  worked := h.worked.setCall fun f work hw => .inl (hwork (f, work) hw)

/-- The work of a poll has ended; the call goes on to `complete`. -/
theorem Core.finish {work : WorkId} {terminal : Terminal T} (h : Core s)
    (hcall : s.call c = .polling f work) :
    Core ({ s with ended := insert work s.ended }.setCall c (.removeEntry f terminal)) := by
  have hpolled : Polled (s.setCall c (.removeEntry f terminal)) :=
    h.polled.setCall (by simp [hcall, Pc.Holds])
  have hretired : Retired (s.setCall c (.removeEntry f terminal)) :=
    h.retired.setPlain ⟨fun _ hg => hg, by simp⟩ (by simp [hcall])
  exact ⟨h.registered.congr rfl rfl rfl rfl, hpolled.congr rfl rfl, hretired.congr rfl rfl rfl,
    h.worked.finish h.polled hcall rfl⟩

/-! ## A new flight -/

/-- The table with a new flight under `key`, before its leader subscribes. -/
@[simps]
def Table.register [DecidableEq K] (s : Table K T) (key : K) (flight : Flight K T) : Table K T :=
  { s.setFlight s.nextFlight flight with
    entries := Function.update s.entries key (some s.nextFlight)
    nextFlight := s.nextFlight + 1 }

end Updates

section Moves

variable {K T : Type} [DecidableEq K] {s t : Table K T} {a : Action K T} {f g : FlightId}
  {c d : CallId} {pc : Pc T} {key : K} {flight flight' other : Flight K T}

/-- A flight of the table after a registration is the new one or an old one. -/
theorem register_cases (h : (s.register key flight).flight g = some other) :
    g = s.nextFlight ∧ other = flight ∨ g ≠ s.nextFlight ∧ s.flight g = some other := by
  by_cases hg : g = s.nextFlight
  · left
    subst hg
    simpa [eq_comm] using h
  · exact Or.inr ⟨hg, by simpa [hg] using h⟩

theorem register_of_ne (h : g ≠ s.nextFlight) :
    (s.register key flight).flight g = s.flight g := by
  simp [h]

theorem Registered.register (h : Registered s) (hentry : s.entries key = none)
    (hkey : flight.key = key) : Registered (s.register key flight) where
  flights g other hg := by
    rcases register_cases hg with ⟨rfl, -⟩ | ⟨-, hold⟩
    · exact Nat.lt_succ_self _
    · exact Nat.lt_succ_of_lt (h.flights g other hold)
  entries k g hg := by
    by_cases hk : k = key
    · subst hk
      obtain rfl : s.nextFlight = g := by simpa using hg
      exact ⟨flight, by simp, hkey⟩
    · obtain ⟨other, hother, hok⟩ := h.entries k g (by simpa [hk] using hg)
      have hne : g ≠ s.nextFlight := Nat.ne_of_lt (h.flights g other hother)
      exact ⟨other, by rwa [register_of_ne hne], hok⟩
  starting ha g other hg hs := by
    rcases register_cases hg with ⟨rfl, rfl⟩ | ⟨-, hold⟩
    · simp [hkey]
    · have hold' := h.starting ha g other hold hs
      have hne : other.key ≠ key := by
        rintro rfl
        rw [hentry] at hold'
        cases hold'
      simpa [hne] using hold'

theorem Polled.register (h : Polled s) (hreg : Registered s) : Polled (s.register key flight) where
  polling c g hc := by
    obtain ⟨other, hg, hpolling⟩ := h.polling c g hc
    have hne : g ≠ s.nextFlight := Nat.ne_of_lt (hreg.flights g other hg)
    exact ⟨other, by rwa [register_of_ne hne], hpolling⟩
  single := h.single

theorem Retired.register (h : Retired s) (hreg : Registered s) (hpolled : Polled s)
    (hstate : flight.state = .starting) : Retired (s.register key flight) where
  removed c g other hc hg := by
    rcases register_cases hg with ⟨rfl, rfl⟩ | ⟨hne, hold⟩
    · obtain ⟨old, hold, -⟩ := hpolled.polling c _ hc.holds
      exact absurd (hreg.flights _ old hold) (Nat.lt_irrefl _)
    · have hnot := h.removed c g other hc hold
      by_cases hk : other.key = key
      · simpa [hk] using hne.symm
      · simpa [hk] using hnot
  cancelled c g took hc := by
    obtain ⟨other, hg, hs⟩ := h.cancelled c g took hc
    have hne : g ≠ s.nextFlight := Nat.ne_of_lt (hreg.flights g other hg)
    exact ⟨other, by rwa [register_of_ne hne], hs⟩
  ended g other hg hs he := by
    rcases register_cases hg with ⟨rfl, rfl⟩ | ⟨hne, hold⟩
    · rw [hstate] at hs
      cases hs
    · by_cases hk : other.key = key
      · have heq : s.nextFlight = g := by simpa [hk] using he
        exact absurd heq.symm hne
      · exact h.ended g other hold hs (by simpa [hk] using he)

theorem Worked.register (h : Worked s) (hreg : Registered s) (hstate : flight.state = .starting)
    (hinstalled : flight.installed = none) : Worked (s.register key flight) where
  held c g work hc := by
    obtain ⟨other, hg, hrest⟩ := h.held c g work hc
    have hne : g ≠ s.nextFlight := Nat.ne_of_lt (hreg.flights g other hg)
    exact ⟨other, by rwa [register_of_ne hne], hrest⟩
  pending g other work hg hs := by
    rcases register_cases hg with ⟨-, rfl⟩ | ⟨-, hold⟩
    · rw [hstate] at hs
      cases hs
    · exact h.pending g other work hold hs
  fresh g other hg hs := by
    rcases register_cases hg with ⟨-, rfl⟩ | ⟨-, hold⟩
    · exact hinstalled
    · exact h.fresh g other hold hs
  bound g other work hg hw := by
    rcases register_cases hg with ⟨-, rfl⟩ | ⟨-, hold⟩
    · rw [hinstalled] at hw
      cases hw
    · exact h.bound g other work hold hw
  ended_bound := h.ended_bound
  injective g k other third work hg hk hw hw' := by
    rcases register_cases hg with ⟨-, rfl⟩ | ⟨-, hold⟩
    · rw [hinstalled] at hw
      cases hw
    · rcases register_cases hk with ⟨-, rfl⟩ | ⟨-, hold'⟩
      · rw [hinstalled] at hw'
        cases hw'
      · exact h.injective g k other third work hold hold' hw hw'

/-! ## Removing an entry -/

@[simp] theorem removeEntry_flight : (removeEntry s f key).flight = s.flight := by
  unfold removeEntry
  split <;> rfl

@[simp] theorem removeEntry_call : (removeEntry s f key).call = s.call := by
  unfold removeEntry
  split <;> rfl

@[simp] theorem removeEntry_alive : (removeEntry s f key).alive = s.alive := by
  unfold removeEntry
  split <;> rfl

@[simp] theorem removeEntry_nextFlight : (removeEntry s f key).nextFlight = s.nextFlight := by
  unfold removeEntry
  split <;> rfl

@[simp] theorem removeEntry_ended : (removeEntry s f key).ended = s.ended := by
  unfold removeEntry
  split <;> rfl

@[simp] theorem removeEntry_nextWork : (removeEntry s f key).nextWork = s.nextWork := by
  unfold removeEntry
  split <;> rfl

@[simp] theorem removeEntry_sub : (removeEntry s f key).sub = s.sub := by
  unfold removeEntry
  split <;> rfl

@[simp] theorem removeEntry_live : (removeEntry s f key).live = s.live := by
  unfold removeEntry
  split <;> rfl

@[simp] theorem removeEntry_nextSub : (removeEntry s f key).nextSub = s.nextSub := by
  unfold removeEntry
  split <;> rfl

@[simp] theorem removeEntry_deliveries : (removeEntry s f key).deliveries = s.deliveries := by
  unfold removeEntry
  split <;> rfl

@[simp] theorem removeEntry_aborted : (removeEntry s f key).aborted = s.aborted := by
  unfold removeEntry
  split <;> rfl

/-- Only the entry of this flight goes. -/
theorem removeEntry_eq_some {k : K} :
    (removeEntry s f key).entries k = some g ↔ s.entries k = some g ∧ ¬ (k = key ∧ g = f) := by
  unfold removeEntry
  split
  · rename_i hentry
    by_cases hk : k = key
    · subst hk
      simp only [Function.update_self, reduceCtorEq, true_and, false_iff, not_and, not_not]
      intro hg
      exact Option.some.inj (hg.symm.trans hentry)
    · simp [hk]
  · rename_i hentry
    refine ⟨fun hk => ⟨hk, ?_⟩, fun hk => hk.1⟩
    rintro ⟨rfl, rfl⟩
    exact hentry hk

theorem Registered.removeEntry (h : Registered s) (hf : s.flight f = some flight)
    (hstate : flight.state ≠ .starting) : Registered (Flights.removeEntry s f key) where
  flights g other hg := by simpa using h.flights g other (by simpa using hg)
  entries k g hg := by simpa using h.entries k g (removeEntry_eq_some.mp hg).1
  starting ha g other hg hs := by
    rw [removeEntry_alive] at ha
    rw [removeEntry_flight] at hg
    refine removeEntry_eq_some.mpr ⟨h.starting ha g other hg hs, ?_⟩
    -- the entry taken away is that of `f`, which has started
    rintro ⟨-, rfl⟩
    obtain rfl : flight = other := Option.some.inj (hf.symm.trans hg)
    exact hstate hs

theorem Retired.removeEntry (h : Retired s) : Retired (Flights.removeEntry s f key) where
  removed c g other hc hg he := by
    rw [removeEntry_call] at hc
    rw [removeEntry_flight] at hg
    exact h.removed c g other hc hg (removeEntry_eq_some.mp he).1
  cancelled c g took hc := by
    rw [removeEntry_call] at hc
    simpa using h.cancelled c g took hc
  ended g other hg hs he := by
    rw [removeEntry_flight] at hg
    simpa using h.ended g other hg hs (removeEntry_eq_some.mp he).1

/-- `complete` takes the entry away and goes on. -/
theorem Retired.complete {terminal : Terminal T} (h : Retired s) (hf : s.flight f = some flight)
    (hcall : s.call c = .removeEntry f terminal) :
    Retired ((Flights.removeEntry s f flight.key).setCall c (.readReason f terminal)) := by
  have hremove : Retired (Flights.removeEntry s f flight.key) := h.removeEntry
  refine ⟨fun d g other hd hg he => ?_, fun d g took hd => ?_, fun g other hg hs he => ?_⟩
  · by_cases hdc : d = c
    · subst hdc
      rw [Table.setCall_self] at hd
      obtain rfl : f = g := hd
      obtain rfl : flight = other :=
        Option.some.inj (hf.symm.trans (by simpa using hg))
      exact (removeEntry_eq_some.mp he).2 ⟨rfl, rfl⟩
    · exact hremove.removed d g other (by rwa [Table.setCall_of_ne hdc] at hd) hg he
  · by_cases hdc : d = c
    · subst hdc
      rw [Table.setCall_self] at hd
      cases hd
    · exact hremove.cancelled d g took (by rwa [Table.setCall_of_ne hdc] at hd)
  · obtain ⟨d, hd⟩ := hremove.ended g other hg hs he
    have hdc : d ≠ c := by
      rintro rfl
      rw [removeEntry_call, hcall] at hd
      cases hd
    exact ⟨d, by rwa [Table.setCall_of_ne hdc]⟩

/-- `cancel` takes the entry away and ends: no entry of this flight is left to wait for. -/
theorem Retired.cancelRemove {took : Bool} (h : Retired s) (hf : s.flight f = some flight)
    (hcall : s.call c = .cancelRemove f took) :
    Retired ((Flights.removeEntry s f flight.key).setCall c .idle) := by
  have hremove : Retired (Flights.removeEntry s f flight.key) := h.removeEntry
  refine ⟨fun d g other hd hg he => ?_, fun d g took hd => ?_, fun g other hg hs he => ?_⟩
  · by_cases hdc : d = c
    · subst hdc
      rw [Table.setCall_self] at hd
      exact hd.elim
    · exact hremove.removed d g other (by rwa [Table.setCall_of_ne hdc] at hd) hg he
  · by_cases hdc : d = c
    · subst hdc
      rw [Table.setCall_self] at hd
      cases hd
    · exact hremove.cancelled d g took (by rwa [Table.setCall_of_ne hdc] at hd)
  · obtain ⟨d, hd⟩ := hremove.ended g other hg hs he
    have hdc : d ≠ c := by
      rintro rfl
      rw [removeEntry_call, hcall] at hd
      obtain ⟨rfl, -⟩ := Pc.cancelRemove.inj hd
      obtain rfl : flight = other := Option.some.inj (hf.symm.trans (by simpa using hg))
      exact (removeEntry_eq_some.mp he).2 ⟨rfl, rfl⟩
    exact ⟨d, by rwa [Table.setCall_of_ne hdc]⟩

/-! ## Flights that end with their entry -/

/-- `abandon_start` ends the flight and removes its entry in one critical section. -/
theorem Retired.abandon (h : Retired s) (hf : s.flight f = some flight)
    (hkey : flight'.key = flight.key) (hstate : flight'.state ≠ .starting) :
    Retired ({ s with entries := Function.update s.entries flight.key none }.setFlight f flight')
    := by
  have hentries : ∀ k g, Function.update s.entries flight.key none k = some g →
      k ≠ flight.key ∧ s.entries k = some g := by
    intro k g hg
    by_cases hk : k = flight.key
    · subst hk
      simp at hg
    · exact ⟨hk, by simpa [hk] using hg⟩
  refine ⟨fun d g other hd hg he => ?_, fun d g took hd => ?_, fun g other hg hs he => ?_⟩
  · obtain ⟨hk, he⟩ := hentries _ _ he
    by_cases hgf : g = f
    · subst hgf
      obtain rfl : flight' = other := Option.some.inj (Table.setFlight_self.symm.trans hg)
      exact hk hkey
    · exact h.removed d g other hd (by rwa [Table.setFlight_of_ne hgf] at hg) he
  · obtain ⟨other, hg, hs⟩ := h.cancelled d g took hd
    by_cases hgf : g = f
    · subst hgf
      exact ⟨flight', Table.setFlight_self, hstate⟩
    · exact ⟨other, by rwa [Table.setFlight_of_ne hgf], hs⟩
  · obtain ⟨hk, he⟩ := hentries _ _ he
    by_cases hgf : g = f
    · subst hgf
      obtain rfl : flight' = other := Option.some.inj (Table.setFlight_self.symm.trans hg)
      exact absurd hkey hk
    · exact h.ended g other (by rwa [Table.setFlight_of_ne hgf] at hg) hs he

theorem Registered.abandon (h : Registered s) (halive : s.alive = true)
    (hf : s.flight f = some flight) (hstate : flight.state = .starting)
    (hkey : flight'.key = flight.key) (hstate' : flight'.state ≠ .starting) :
    Registered
      ({ s with entries := Function.update s.entries flight.key none }.setFlight f flight') := by
  have hset : Registered (s.setFlight f flight') :=
    h.setFlight hf hkey fun hs => absurd hs hstate'
  have hentry := h.starting halive f flight hf hstate
  have hremove : Registered (Flights.removeEntry (s.setFlight f flight') f flight.key) :=
    hset.removeEntry Table.setFlight_self hstate'
  unfold Flights.removeEntry at hremove
  rw [if_pos (show (s.setFlight f flight').entries flight.key = some f from hentry)] at hremove
  exact hremove.congr rfl rfl rfl rfl

/-- **The step lemma** for flights, entries and calls. -/
theorem Core.move (h : Core s) (hm : Move s a t) : Core t := by
  cases hm with
  | join _ _ hflight =>
    exact (h.setFlight hflight (by rfl) (by rfl) (.inl (by rfl))).congr rfl rfl rfl rfl rfl rfl
      (by exact le_refl _)
  | @create key _ hentry =>
    let new : Flight K T := { key, subscribers := 1, state := .starting }
    have hcore : Core (s.register key new) :=
      ⟨h.registered.register hentry rfl, h.polled.register h.registered,
        h.retired.register h.registered h.polled rfl, h.worked.register h.registered rfl rfl⟩
    exact hcore.congr rfl rfl rfl rfl rfl rfl (le_refl _)
  | install hflight hstate =>
    exact ⟨(h.registered.setFlight hflight (by rfl) (by simp)).congr rfl rfl rfl rfl,
      (h.polled.setFlight hflight (by simp [hstate])).congr rfl rfl,
      (h.retired.setFlight hflight (by rfl) (by simp) (by simp [FlightState.isFinished])).congr
        rfl rfl rfl,
      h.worked.install hflight hstate⟩
  | installUnused => exact h.congr rfl rfl rfl rfl rfl rfl (Nat.le_succ _)
  | wake hflight | request hflight => exact h.setFlight hflight rfl rfl (.inl rfl)
  | @take c f flight work hcall hflight hstate =>
    refine ⟨(h.registered.setFlight hflight (by rfl) (by simp)).congr rfl rfl rfl rfl,
      h.polled.enter hflight hstate rfl, ?_, ?_⟩
    · refine (h.retired.setFlight hflight (by rfl) (by simp)
        (by simp [FlightState.isFinished])).setPlain ?_ ?_
      · exact ⟨fun _ hf => hf, by simp⟩
      · simp [hcall]
    · obtain ⟨hinstalled, hended⟩ := h.worked.pending f flight work hflight hstate
      refine (h.worked.setFlight hflight (by rfl) (by simp) (by simp)).setCall ?_
      intro g w hw
      obtain ⟨rfl, rfl⟩ : f = g ∧ work = w := by simpa [Pc.work] using hw
      exact Or.inr ⟨_, Table.setFlight_self, hinstalled, hended⟩
  | pollSkip | notYet => exact h
  | ready hcall | panic hcall => exact h.finish hcall
  | pending hcall =>
    refine h.setCall ?_ ?_ ?_ ?_ ?_ <;> simp [hcall, Pc.Holds, Pc.Removed, Pc.work]
  | returnedCancelled hcall | returned hcall | recheckCancelled hcall | recheck hcall =>
    refine h.setCall ?_ ?_ ?_ ?_ ?_ <;> simp [hcall, Pc.Holds, Pc.Removed, Pc.work]
  | readReason hcall | cancel hcall | abandonKept hcall =>
    refine h.setCall ?_ ?_ ?_ ?_ ?_ <;> simp [hcall, Pc.Holds, Pc.Removed, Pc.work]
  | @restore c f work flight hcall hflight =>
    obtain ⟨other, hother, hinstalled, hended⟩ := h.worked.held c f work (by rw [hcall]; rfl)
    obtain rfl : flight = other := Option.some.inj (hflight.symm.trans hother)
    have hholds : (s.call c).Holds f := by rw [hcall]; rfl
    refine ⟨(h.registered.setFlight hflight (by rfl) (by simp)).congr rfl rfl rfl rfl,
      h.polled.leave hholds (by simp [Pc.Holds]), ?_, ?_⟩
    · refine (h.retired.setFlight hflight (by rfl) (by simp)
        (by simp [FlightState.isFinished])).setPlain ⟨fun _ hf => hf, by simp⟩ ?_
      simp [hcall]
    · refine (h.worked.setFlight hflight (by rfl) ?_ (by simp)).setCall (by simp [Pc.work])
      intro w hw
      obtain rfl : work = w := by simpa using hw
      exact Or.inr ⟨hinstalled, hended⟩
  | @removeEntry c f terminal flight hcall hflight =>
    obtain ⟨other, hother, hpolling⟩ := h.polled.polling c f (by rw [hcall]; rfl)
    obtain rfl : flight = other := Option.some.inj (hflight.symm.trans hother)
    refine ⟨(h.registered.removeEntry hflight (by simp [hpolling])).congr rfl rfl rfl rfl, ?_,
      h.retired.complete hflight hcall, ?_⟩
    · refine (h.polled.congr removeEntry_flight removeEntry_call).setCall ?_
      simp [hcall, Pc.Holds]
    · refine (h.worked.congr removeEntry_flight removeEntry_call removeEntry_ended
        (by simp)).setCall ?_
      simp [Pc.work]
  | @publishNobody c f terminal flight hcall hflight _
  | @publish c f terminal flight hcall hflight _ =>
    have hremoved := h.retired.removed c f flight (by rw [hcall]; rfl) hflight
    refine ⟨(h.registered.setFlight hflight (by rfl) (by simp)).congr rfl rfl rfl rfl,
      h.polled.leave (by rw [hcall]; rfl) (by simp [Pc.Holds]), ?_, ?_⟩
    · refine (h.retired.setFlight hflight (by rfl) (by simp)
        (fun _ => .inr (.inl hremoved))).setPlain ⟨fun _ hf => hf, by simp⟩ ?_
      simp [hcall]
    · exact (h.worked.setFlight hflight (by rfl) (by simp) (by simp)).setCall (by simp [Pc.work])
  | finishScope hcall hflight | cancelRequest hcall hflight =>
    refine (h.setFlight hflight (by rfl) (by rfl) (.inl (by rfl))).setCall ?_ ?_ ?_ ?_ ?_ <;>
      simp [hcall, Pc.Holds, Pc.Removed, Pc.work]
  | @cancelTake c f reason flight hcall hflight hstate =>
    have hnot : flight.state ≠ .polling := by
      rcases hstate with hs | ⟨work, hs⟩ <;> simp [hs]
    refine ⟨(h.registered.setFlight hflight (by rfl) (by simp)).congr rfl rfl rfl rfl, ?_,
      h.retired.cancelTake hflight hcall rfl (by simp), ?_⟩
    · exact (h.polled.setFlight hflight fun hs => absurd hs hnot).setCall (by simp [Pc.Holds])
    · exact (h.worked.setFlight hflight (by rfl) (by simp) (by simp)).setCall (by simp [Pc.work])
  | @cancelSee c f reason flight hcall hflight hstate =>
    have hnot : flight.state ≠ .starting := by
      rcases hstate with hs | hs
      · simp [hs]
      · intro heq
        rw [heq] at hs
        cases hs
    refine ⟨h.registered.congr rfl rfl rfl rfl, h.polled.setCall (by simp [Pc.Holds]), ?_,
      h.worked.setCall (by simp [Pc.work])⟩
    refine h.retired.setCall (fun _ hg => hg.elim) (by simp [hcall]) ?_
    intro g took heq
    obtain ⟨rfl, -⟩ := Pc.cancelRemove.inj heq
    exact ⟨flight, hflight, hnot⟩
  | @cancelRemove c f took flight hcall hflight =>
    obtain ⟨other, hother, hnot⟩ := h.retired.cancelled c f took hcall
    obtain rfl : flight = other := Option.some.inj (hflight.symm.trans hother)
    refine ⟨(h.registered.removeEntry hflight hnot).congr rfl rfl rfl rfl, ?_,
      h.retired.cancelRemove hflight hcall, ?_⟩
    · exact (h.polled.congr removeEntry_flight removeEntry_call).setCall (by simp [Pc.Holds])
    · exact (h.worked.congr removeEntry_flight removeEntry_call removeEntry_ended
        (by simp)).setCall (by simp [Pc.work])
  | @abandon c f flight reason hcall hflight halive _ hstate =>
    have hidle : Core (s.setCall c .idle) := by
      refine h.setCall ?_ ?_ ?_ ?_ ?_ <;> simp [hcall, Pc.Holds, Pc.Removed, Pc.work]
    refine ⟨hidle.registered.abandon halive hflight hstate rfl (by simp), ?_,
      hidle.retired.abandon hflight rfl (by simp), ?_⟩
    · exact (hidle.polled.setFlight hflight (by simp [hstate])).congr rfl rfl
    · exact (hidle.worked.setFlight hflight (by rfl) (by simp) (by simp)).congr rfl rfl rfl
        (le_refl _)
  | deliverOwned _ hflight _ _ hstate | deliverPanic _ hflight _ _ _ hstate =>
    refine (h.setFlight hflight (by rfl) (by rfl) (.inr ⟨?_, by rfl⟩)).congr rfl rfl rfl rfl rfl
      rfl (by exact le_refl _)
    rw [hstate]
    rfl
  | deliverShared _ hflight | deliverFollower _ hflight | deliverCancelled _ hflight =>
    exact (h.setFlight hflight (by rfl) (by rfl) (.inl (by rfl))).congr rfl rfl rfl rfl rfl rfl
      (by exact le_refl _)
  | abort => exact h.congr rfl rfl rfl rfl rfl rfl (le_refl _)
  | @dropAbandon c u sub flight hcall _ hflight =>
    have hfewer : Core (s.setFlight sub.flight
        { flight with subscribers := flight.subscribers - 1 }) :=
      h.setFlight hflight rfl rfl (.inl rfl)
    have hset := hfewer.congr (t := { s with live := s.live.erase u }.setFlight sub.flight
        { flight with subscribers := flight.subscribers - 1 }) rfl rfl rfl rfl rfl rfl (le_refl _)
    refine hset.setCall ?_ ?_ ?_ ?_ ?_ <;> simp [hcall, Pc.Holds, Pc.Removed, Pc.work]
  | dropRetire _ hflight _ _ hstate =>
    refine (h.setFlight hflight (by rfl) (by rfl) (.inr ⟨?_, by rfl⟩)).congr rfl rfl rfl rfl rfl
      rfl (by exact le_refl _)
    rw [hstate]
    rfl
  | drop _ hflight =>
    exact (h.setFlight hflight (by rfl) (by rfl) (.inl (by rfl))).congr rfl rfl rfl rfl rfl rfl
      (by exact le_refl _)
  | close =>
    exact ⟨⟨h.registered.flights, fun key f hf => by simp at hf, fun ha => by simp at ha⟩,
      h.polled.congr rfl rfl,
      ⟨fun _ _ _ _ _ => by simp, h.retired.cancelled, fun _ _ _ _ he => by simp at he⟩,
      h.worked.congr rfl rfl rfl (le_refl _)⟩

end Moves

end Flights

end Amalgam
