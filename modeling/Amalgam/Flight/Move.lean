import Amalgam.Flight.Table

/-!
# Amalgam — what one step of the single-flight table can do

`next` read by cases, once: each constructor of `Move` is one branch of one access, with the
guards of the branch and the table it leaves.
-/

namespace Amalgam

namespace Flights

variable {K T : Type} [DecidableEq K]

/-- The table after a delivery. -/
@[simps]
def Table.deliver (s : Table K T) (u : SubId) (sub : Subscription) (flight : Flight K T)
    (completion : Completion T) (state : FlightState T) : Table K T :=
  { (s.setFlight sub.flight { flight with state }).setSub u { sub with consumed := true } with
    deliveries := s.deliveries ++ [(u, completion)] }

inductive Move (s : Table K T) : Action K T → Table K T → Prop
  | join {key f flight} (halive : s.alive = true) (hentry : s.entries key = some f)
      (hflight : s.flight f = some flight) :
    Move s (.acquire key)
      ((s.setFlight f { flight with subscribers := flight.subscribers + 1 }).subscribe
        { flight := f, leader := false, early := !flight.state.isFinished })
  | create {key} (halive : s.alive = true) (hentry : s.entries key = none) :
    Move s (.acquire key)
      ({ s.setFlight s.nextFlight { key, subscribers := 1, state := .starting } with
          entries := Function.update s.entries key (some s.nextFlight)
          nextFlight := s.nextFlight + 1 }.subscribe
        { flight := s.nextFlight, leader := true, early := true })
  | install {f flight} (hflight : s.flight f = some flight) (hstate : flight.state = .starting) :
    Move s (.install f)
      ({ s with nextWork := s.nextWork + 1 }.setFlight f
        { flight with state := .pending s.nextWork, installed := some s.nextWork })
  | installUnused {f} : Move s (.install f) { s with nextWork := s.nextWork + 1 }
  | wake {f flight} (hflight : s.flight f = some flight) :
    Move s (.wake f) (s.setFlight f { flight with runnable := true })
  | take {c f flight work} (hcall : s.call c = .idle) (hflight : s.flight f = some flight)
      (hstate : flight.state = .pending work) :
    Move s (.pollWork c f)
      ((s.setFlight f { flight with state := .polling, runnable := false }).setCall c
        (.polling f work))
  | pollSkip {c f} : Move s (.pollWork c f) s
  | ready {c f work result} (hcall : s.call c = .polling f work) :
    Move s (.ready c result)
      ({ s with ended := insert work s.ended }.setCall c (.removeEntry f (.owned result)))
  | pending {c f work} (hcall : s.call c = .polling f work) :
    Move s (.pending c) (s.setCall c (.returned f work))
  | panic {c f work payload} (hcall : s.call c = .polling f work) :
    Move s (.panic c payload)
      ({ s with ended := insert work s.ended }.setCall c (.removeEntry f (.panicked payload)))
  | returnedCancelled {c f work reason} (hcall : s.call c = .returned f work) :
    Move s (.step c) (s.setCall c (.removeEntry f (.cancelled reason)))
  | returned {c f work} (hcall : s.call c = .returned f work) :
    Move s (.step c) (s.setCall c (.restore f work))
  | restore {c f work flight} (hcall : s.call c = .restore f work)
      (hflight : s.flight f = some flight) :
    Move s (.step c)
      ((s.setFlight f { flight with state := .pending work }).setCall c (.recheck f))
  | recheckCancelled {c f reason} (hcall : s.call c = .recheck f) :
    Move s (.step c) (s.setCall c (.cancelRequest f reason))
  | recheck {c f} (hcall : s.call c = .recheck f) : Move s (.step c) (s.setCall c .idle)
  | removeEntry {c f terminal flight} (hcall : s.call c = .removeEntry f terminal)
      (hflight : s.flight f = some flight) :
    Move s (.step c) ((removeEntry s f flight.key).setCall c (.readReason f terminal))
  | readReason {c f terminal flight} (hcall : s.call c = .readReason f terminal)
      (hflight : s.flight f = some flight) :
    Move s (.step c) (s.setCall c (.publish f (mergeReason flight.reason terminal)))
  | publishNobody {c f terminal flight} (hcall : s.call c = .publish f terminal)
      (hflight : s.flight f = some flight) (hnobody : flight.subscribers = 0) :
    Move s (.step c)
      ((s.setFlight f
        { flight with
          state := .finished
          outcome := some (shareResult flight.subscribers terminal)
          audience := flight.subscribers }).setCall c (.finishScope f))
  | publish {c f terminal flight} (hcall : s.call c = .publish f terminal)
      (hflight : s.flight f = some flight) (hsome : flight.subscribers ≠ 0) :
    Move s (.step c)
      ((s.setFlight f
        { flight with
          state := .completed (shareResult flight.subscribers terminal)
          outcome := some (shareResult flight.subscribers terminal)
          audience := flight.subscribers }).setCall c (.finishScope f))
  | finishScope {c f flight} (hcall : s.call c = .finishScope f)
      (hflight : s.flight f = some flight) :
    Move s (.step c)
      ((s.setFlight f { flight with reason := cancelWith flight.reason .scopeFinished }).setCall c
        .idle)
  | cancel {c f reason flight} (hcall : s.call c = .idle) (hflight : s.flight f = some flight) :
    Move s (.cancel c f reason) (s.setCall c (.cancelRequest f reason))
  | request {f reason flight} (hflight : s.flight f = some flight) :
    Move s (.request f reason)
      (s.setFlight f { flight with reason := cancelWith flight.reason reason })
  | cancelRequest {c f reason flight} (hcall : s.call c = .cancelRequest f reason)
      (hflight : s.flight f = some flight) :
    Move s (.step c)
      ((s.setFlight f { flight with reason := cancelWith flight.reason reason }).setCall c
        (.cancelCell f reason))
  | cancelTake {c f reason flight} (hcall : s.call c = .cancelCell f reason)
      (hflight : s.flight f = some flight)
      (hstate : flight.state = .starting ∨ ∃ work, flight.state = .pending work) :
    Move s (.step c)
      ((s.setFlight f
        { flight with
          state := .completed (.cancelled reason)
          outcome := some (.cancelled reason)
          audience := flight.subscribers }).setCall c (.cancelRemove f true))
  | cancelSee {c f reason flight} (hcall : s.call c = .cancelCell f reason)
      (hflight : s.flight f = some flight)
      (hstate : flight.state = .polling ∨ flight.state.isFinished = true) :
    Move s (.step c) (s.setCall c (.cancelRemove f false))
  | cancelRemove {c f took flight} (hcall : s.call c = .cancelRemove f took)
      (hflight : s.flight f = some flight) :
    Move s (.step c) ((removeEntry s f flight.key).setCall c .idle)
  | abandon {c f flight reason} (hcall : s.call c = .abandonStart f)
      (hflight : s.flight f = some flight) (halive : s.alive = true)
      (hnobody : flight.subscribers = 0) (hstate : flight.state = .starting) :
    Move s (.step c)
      ({ s.setCall c .idle with entries := Function.update s.entries flight.key none }.setFlight f
        { flight with state := .finished, reason })
  | abandonKept {c f} (hcall : s.call c = .abandonStart f) : Move s (.step c) (s.setCall c .idle)
  | deliverOwned {u sub flight result} (hsub : s.sub u = some sub)
      (hflight : s.flight sub.flight = some flight) (hlive : u ∈ s.live)
      (hfresh : sub.consumed = false) (hstate : flight.state = .completed (.owned result)) :
    Move s (.tryComplete u) (s.deliver u sub flight (.owned result) .finished)
  | deliverShared {u sub flight result} (hsub : s.sub u = some sub)
      (hflight : s.flight sub.flight = some flight) (hlive : u ∈ s.live)
      (hfresh : sub.consumed = false) (hstate : flight.state = .completed (.shared result)) :
    Move s (.tryComplete u) (s.deliver u sub flight (.shared result) flight.state)
  | deliverPanic {u sub flight payload} (hsub : s.sub u = some sub)
      (hflight : s.flight sub.flight = some flight) (hlive : u ∈ s.live)
      (hfresh : sub.consumed = false) (hleader : sub.leader = true)
      (hstate : flight.state = .completed (.panicked (some payload))) :
    Move s (.tryComplete u)
      (s.deliver u sub flight (.panicked payload) (.completed (.panicked none)))
  | deliverFollower {u sub flight payload} (hsub : s.sub u = some sub)
      (hflight : s.flight sub.flight = some flight) (hlive : u ∈ s.live)
      (hfresh : sub.consumed = false) (hstate : flight.state = .completed (.panicked payload)) :
    Move s (.tryComplete u) (s.deliver u sub flight .followerPanicked flight.state)
  | deliverCancelled {u sub flight reason} (hsub : s.sub u = some sub)
      (hflight : s.flight sub.flight = some flight) (hlive : u ∈ s.live)
      (hfresh : sub.consumed = false) (hstate : flight.state = .completed (.cancelled reason)) :
    Move s (.tryComplete u)
      (s.deliver u sub flight (.owned (.error (.operationCancelled reason))) flight.state)
  | notYet {u} : Move s (.tryComplete u) s
  | abort {u sub flight} (hsub : s.sub u = some sub)
      (hflight : s.flight sub.flight = some flight) (hlive : u ∈ s.live)
      (hfresh : sub.consumed = false) (hstate : flight.state = .finished) :
    Move s (.tryComplete u) { s with aborted := s.aborted ++ [u] }
  | dropAbandon {c u sub flight} (hcall : s.call c = .idle) (hsub : s.sub u = some sub)
      (hflight : s.flight sub.flight = some flight) (hlive : u ∈ s.live)
      (hlast : flight.subscribers - 1 = 0) (hstate : flight.state = .starting) :
    Move s (.drop c u)
      (({ s with live := s.live.erase u }.setFlight sub.flight
        { flight with subscribers := flight.subscribers - 1 }).setCall c (.abandonStart sub.flight))
  | dropRetire {c u sub flight terminal} (hsub : s.sub u = some sub)
      (hflight : s.flight sub.flight = some flight) (hlive : u ∈ s.live)
      (hlast : flight.subscribers - 1 = 0) (hstate : flight.state = .completed terminal) :
    Move s (.drop c u)
      ({ s with live := s.live.erase u }.setFlight sub.flight
        { flight with subscribers := flight.subscribers - 1, state := .finished })
  | drop {c u sub flight} (hsub : s.sub u = some sub)
      (hflight : s.flight sub.flight = some flight) (hlive : u ∈ s.live)
      (hrest : flight.subscribers - 1 ≠ 0 ∨ flight.state.isFinished = false
        ∨ flight.state = .finished) :
    Move s (.drop c u)
      ({ s with live := s.live.erase u }.setFlight sub.flight
        { flight with subscribers := flight.subscribers - 1 })
  | close : Move s .close { s with alive := false, entries := fun _ => none }

section Cases

variable {s t : Table K T}

theorem move_of_acquire {key : K} (h : acquire s key = some t) : Move s (.acquire key) t := by
  unfold acquire at h
  split at h
  · rename_i halive
    split at h
    · rename_i f hentry
      obtain ⟨flight, hflight, h⟩ := Option.bind_eq_some_iff.mp h
      cases h
      exact .join halive hentry hflight
    · rename_i hentry
      cases h
      exact .create halive hentry
  · cases h

theorem move_of_install {f : FlightId} (h : install s f = some t) : Move s (.install f) t := by
  obtain ⟨flight, hflight, h⟩ := Option.bind_eq_some_iff.mp h
  dsimp only at h
  split at h
  · rename_i hstate
    cases h
    exact .install hflight hstate
  · cases h
    exact .installUnused

theorem move_of_pollWork {c : CallId} {f : FlightId} (hcall : s.call c = .idle)
    (h : pollWork s c f = some t) : Move s (.pollWork c f) t := by
  obtain ⟨flight, hflight, h⟩ := Option.bind_eq_some_iff.mp h
  split at h
  · rename_i work hstate
    split at h
    · cases h
      exact .take hcall hflight hstate
    · cases h
      exact .pollSkip
  · cases h
    exact .pollSkip

theorem move_of_step {c : CallId} (h : step s c = some t) : Move s (.step c) t := by
  unfold step at h
  split at h
  · rename_i f work hcall
    obtain ⟨flight, hflight, h⟩ := Option.bind_eq_some_iff.mp h
    split at h
    · cases h
      exact .returnedCancelled hcall
    · cases h
      exact .returned hcall
  · rename_i f work hcall
    obtain ⟨flight, hflight, h⟩ := Option.bind_eq_some_iff.mp h
    cases h
    exact .restore hcall hflight
  · rename_i f hcall
    obtain ⟨flight, hflight, h⟩ := Option.bind_eq_some_iff.mp h
    split at h
    · cases h
      exact .recheckCancelled hcall
    · cases h
      exact .recheck hcall
  · rename_i f terminal hcall
    obtain ⟨flight, hflight, h⟩ := Option.bind_eq_some_iff.mp h
    cases h
    exact .removeEntry hcall hflight
  · rename_i f terminal hcall
    obtain ⟨flight, hflight, h⟩ := Option.bind_eq_some_iff.mp h
    cases h
    exact .readReason hcall hflight
  · rename_i f terminal hcall
    obtain ⟨flight, hflight, h⟩ := Option.bind_eq_some_iff.mp h
    by_cases hnobody : flight.subscribers = 0
    · simp only [hnobody, if_true] at h
      cases h
      have hmove := Move.publishNobody hcall hflight hnobody
      simpa only [hnobody] using hmove
    · simp only [hnobody, if_false] at h
      cases h
      exact .publish hcall hflight hnobody
  · rename_i f hcall
    obtain ⟨flight, hflight, h⟩ := Option.bind_eq_some_iff.mp h
    cases h
    exact .finishScope hcall hflight
  · rename_i f reason hcall
    obtain ⟨flight, hflight, h⟩ := Option.bind_eq_some_iff.mp h
    cases h
    exact .cancelRequest hcall hflight
  · rename_i f reason hcall
    obtain ⟨flight, hflight, h⟩ := Option.bind_eq_some_iff.mp h
    cases hstate : flight.state with
    | starting => simp only [hstate] at h; cases h; exact .cancelTake hcall hflight (.inl hstate)
    | pending work =>
      simp only [hstate] at h; cases h; exact .cancelTake hcall hflight (.inr ⟨work, hstate⟩)
    | polling => simp only [hstate] at h; cases h; exact .cancelSee hcall hflight (.inl hstate)
    | completed terminal =>
      simp only [hstate] at h; cases h
      exact .cancelSee hcall hflight (.inr (by rw [hstate]; rfl))
    | finished =>
      simp only [hstate] at h; cases h
      exact .cancelSee hcall hflight (.inr (by rw [hstate]; rfl))
  · rename_i f took hcall
    obtain ⟨flight, hflight, h⟩ := Option.bind_eq_some_iff.mp h
    cases h
    exact .cancelRemove hcall hflight
  · rename_i f hcall
    obtain ⟨flight, hflight, h⟩ := Option.bind_eq_some_iff.mp h
    dsimp only at h
    split at h
    · rename_i halive hnobody hstate
      cases h
      exact .abandon hcall hflight halive hnobody hstate
    · cases h
      exact .abandonKept hcall
  · cases h
  · cases h

theorem move_of_tryComplete {u : SubId} (h : tryComplete s u = some t) :
    Move s (.tryComplete u) t := by
  obtain ⟨sub, hsub, h⟩ := Option.bind_eq_some_iff.mp h
  obtain ⟨flight, hflight, h⟩ := Option.bind_eq_some_iff.mp h
  split at h
  · rename_i hguard
    obtain ⟨hlive, hfresh⟩ := hguard
    dsimp only at h
    split at h
    · rename_i result hstate
      cases h
      exact .deliverOwned hsub hflight hlive hfresh hstate
    · rename_i result hstate
      cases h
      exact .deliverShared hsub hflight hlive hfresh hstate
    · rename_i payload hstate
      split at h
      · rename_i hleader
        cases h
        exact .deliverPanic hsub hflight hlive hfresh hleader hstate
      · cases h
        exact .deliverFollower hsub hflight hlive hfresh hstate
    · rename_i reason hstate
      cases h
      exact .deliverCancelled hsub hflight hlive hfresh hstate
    · cases h
      exact .notYet
    · cases h
      exact .notYet
    · cases h
      exact .notYet
    · rename_i hstate
      cases h
      exact .abort hsub hflight hlive hfresh hstate
  · cases h

theorem move_of_dropSub {c : CallId} {u : SubId} (hcall : s.call c = .idle)
    (h : dropSub s c u = some t) : Move s (.drop c u) t := by
  obtain ⟨sub, hsub, h⟩ := Option.bind_eq_some_iff.mp h
  obtain ⟨flight, hflight, h⟩ := Option.bind_eq_some_iff.mp h
  split at h
  · rename_i hlive
    dsimp only at h
    split at h
    · rename_i hlast hstate
      cases h
      have hmove := Move.dropAbandon hcall hsub hflight hlive hlast hstate
      exact hmove
    · rename_i hlast hstate
      cases h
      exact .dropRetire hsub hflight hlive hlast hstate
    · rename_i hnotStarting hnotCompleted
      cases h
      refine .drop hsub hflight hlive ?_
      by_cases hlast : flight.subscribers - 1 = 0
      · right
        cases hstate : flight.state with
        | completed terminal => exact absurd hstate (hnotCompleted terminal hlast)
        | finished => exact Or.inr rfl
        | _ => exact Or.inl rfl
      · exact Or.inl hlast
  · cases h

/-- **One step of the table is one of these moves.** -/
theorem move_of_next {a : Action K T} (h : next s a = some t) : Move s a t := by
  cases a with
  | acquire key => exact move_of_acquire h
  | install f => exact move_of_install h
  | wake f =>
    obtain ⟨flight, hflight, h⟩ := Option.bind_eq_some_iff.mp h
    cases h
    exact .wake hflight
  | pollWork c f =>
    simp only [next] at h
    split at h
    · exact move_of_pollWork (by assumption) h
    · cases h
  | ready c result =>
    simp only [next] at h
    split at h
    · cases h; exact .ready (by assumption)
    · cases h
  | pending c =>
    simp only [next] at h
    split at h
    · cases h; exact .pending (by assumption)
    · cases h
  | panic c payload =>
    simp only [next] at h
    split at h
    · cases h; exact .panic (by assumption)
    · cases h
  | cancel c f reason =>
    simp only [next] at h
    split at h
    · cases h; exact .cancel (by assumption) (by assumption)
    · cases h
  | request f reason =>
    obtain ⟨flight, hflight, h⟩ := Option.bind_eq_some_iff.mp h
    cases h
    exact .request hflight
  | tryComplete u => exact move_of_tryComplete h
  | drop c u =>
    simp only [next] at h
    split at h
    · exact move_of_dropSub (by assumption) h
    · cases h
  | step c => exact move_of_step h
  | close => cases h; exact .close

end Cases

end Flights

end Amalgam
