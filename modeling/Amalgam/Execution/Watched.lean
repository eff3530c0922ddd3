import Amalgam.Execution.Tracking

/-!
# Amalgam — the shutdown reaches registered work

A registered work that nobody has cancelled waits for the shutdown token, and once the token is
cancelled somebody who is still counted is about to cancel the work: its own `register_work`, or a
`close` that has it in the wake-ups of the token, in the queue or in its hands.

* **`Covered`** — the invariant.
* **`Reasoned`** — where the reasons come from that scopes are cancelled for.
-/

namespace Amalgam

namespace Shutdown

open Flights (Reason)
open Owned (ScopeState)

variable {s t : State} {id : Nat} {c d : Call} {w x y : Nat} {a b : Work} {choice : Choice}

/-- The call waits for a nested cancel of the work that has not been under the lock yet. -/
def Awaits (s : State) (w : Nat) (c : Call) : Prop :=
  ∃ k e r, c.pc = .await k ∧ s.calls k = some e ∧ e.job = .cancel w r ∧ e.pc.before = true

/-- A `close` that looks at the queue again. -/
def Pc.collects : Pc → Bool
  | .wake _ | .pop | .await _ => true
  | _ => false

/-- A `close` that is about to wake the registration of the work, has seen it in the queue, or is
about to cancel it. -/
def Collects (s : State) (w : Nat) (c : Call) : Prop :=
  Awaits s w c ∨ w ∈ s.cancelled ∧ c.pc.collects = true ∨
    ∃ k waiters a, c.pc = .wake waiters ∧ (k, w) ∈ waiters ∧ s.works w = some a ∧ a.tracking = some k

/-- A call that is still counted and will cancel the work for the shutdown. -/
def Cancels (s : State) (w id : Nat) : Prop :=
  ∃ c, s.calls id = some c ∧ c.at_ ≠ none ∧
    (c.job = .register w ∧ (c.pc = .check true ∨ Awaits s w c) ∨ c.job = .close ∧ Collects s w c)

structure Covered (s : State) : Prop where
  watched : ∀ w a, s.works w = some a → a.registered = true → a.state.verdict = none →
    (∃ k, a.tracking = some k ∧ (k, w) ∈ s.waiters) ∨ ∃ id, Cancels s w id
  closing : s.closing = true → s.shutdown = true ∨
    ∃ id c, s.calls id = some c ∧ c.job = .close ∧ c.pc = .shutdown ∧ c.at_ ≠ none
  shut : s.shutdown = true → s.closing = true ∧ s.waiters = []
  closes : ∀ id c, s.calls id = some c → c.pc = .shutdown → s.closing = true

/-- Calls keep what they had, but for one of them. -/
theorem Awaits.kept {e : Call} (h : Awaits s x e)
    (hcalls : ∀ k f r, s.calls k = some f → f.job = .cancel x r → f.pc.before = true →
      ∃ g r, t.calls k = some g ∧ g.job = .cancel x r ∧ g.pc.before = true) : Awaits t x e := by
  obtain ⟨k, f, r, hpc, hf, hjob, hbefore⟩ := h
  obtain ⟨g, r', hg, hkept, hstill⟩ := hcalls k f r hf hjob hbefore
  exact ⟨k, g, r', hpc, hg, hkept, hstill⟩

/-- A scope that nobody has ended or marked is not over. -/
theorem open_of_verdict {state : ScopeState} (h : state.verdict = none) :
    state.isTerminal = false := by
  cases state with
  | pending | polling _ => rfl
  | cancelled r | completed => cases h

theorem Cancels.kept (h : Cancels s x y) (hy : y ≠ id)
    (hcalls : ∀ k, k ≠ id → ∀ f, s.calls k = some f → t.calls k = some f)
    (hself : ∀ f r, s.calls id = some f → f.job = .cancel x r → f.pc.before = true →
      ∃ g r, t.calls id = some g ∧ g.job = .cancel x r ∧ g.pc.before = true)
    (hcancelled : x ∈ s.cancelled → x ∈ t.cancelled)
    (hworks : ∀ a k, s.works x = some a → a.tracking = some k →
      ∃ a, t.works x = some a ∧ a.tracking = some k) : Cancels t x y := by
  have hchild : ∀ {e}, Awaits s x e → Awaits t x e := fun hawaits =>
    hawaits.kept fun k f r hf hjob hbefore => by
      by_cases hk : k = id
      · subst hk
        exact hself f r hf hjob hbefore
      · exact ⟨f, r, hcalls k hk f hf, hjob, hbefore⟩
  obtain ⟨e, he, hat, hregister | ⟨hjob, hcollects⟩⟩ := h
  · exact ⟨e, hcalls y hy e he, hat, .inl ⟨hregister.1, hregister.2.imp_right hchild⟩⟩
  · refine ⟨e, hcalls y hy e he, hat, .inr ⟨hjob, ?_⟩⟩
    rcases hcollects with hawaits | ⟨hqueued, hpc⟩ | ⟨k, waiters, f, hpc, hin, hf, htracking⟩
    · exact .inl (hchild hawaits)
    · exact .inr (.inl ⟨hcancelled hqueued, hpc⟩)
    · obtain ⟨g, hg, hkept⟩ := hworks f k hf htracking
      exact .inr (.inr ⟨k, waiters, g, hpc, hin, hg, hkept⟩)

/-- A call that neither checks, waits nor collects cancels nothing for the shutdown. -/
theorem Cancels.ne (h : Cancels s x y) (hc : s.calls id = some c)
    (hnot : c.pc.watches = false) : y ≠ id := by
  rintro rfl
  obtain ⟨e, he, -, ⟨-, hpc | ⟨k, -, -, hpc, -⟩⟩ | ⟨-, hcollects⟩⟩ := h
  all_goals obtain rfl := Option.some.inj (he.symm.trans hc)
  · rw [hpc] at hnot
    cases hnot
  · rw [hpc] at hnot
    cases hnot
  · rcases hcollects with ⟨k, -, -, hpc, -⟩ | ⟨-, hpc⟩ | ⟨-, waiters, -, hpc, -⟩
    · rw [hpc] at hnot
      cases hnot
    · revert hpc hnot
      cases e.pc <;> simp [Pc.collects, Pc.watches]
    · rw [hpc] at hnot
      cases hnot

/-! ## The steps -/

theorem Covered.apart (h : Covered s) (hc : s.calls id = some c) (hapart : Apart s t id c d) :
    Covered t := by
  have hother : ∀ k, k ≠ id → ∀ f, s.calls k = some f → t.calls k = some f := fun k hk f hf => by
    rw [hapart.calls, Function.update_of_ne hk]
    exact hf
  refine ⟨fun x e he hregistered hverdict => ?_, fun hclosing => ?_, fun hshut => ?_,
    fun x e he hpc => ?_⟩
  · rw [hapart.works] at he
    rcases h.watched x e he hregistered hverdict with ⟨k, hk, hin⟩ | ⟨y, hcancels⟩
    · exact .inl ⟨k, hk, hapart.waiters ▸ hin⟩
    · refine .inr ⟨y, hcancels.kept (hcancels.ne hc hapart.watches) hother
        (fun f r hf hjob hbefore => ?_) (fun hin => hapart.cancelled ▸ hin)
        fun f k hf hk => ⟨f, hapart.works ▸ hf, hk⟩⟩
      obtain rfl := Option.some.inj (hf.symm.trans hc)
      exact ⟨d, r, by rw [hapart.calls, Function.update_self], hapart.job.trans hjob,
        hapart.before x r hjob hbefore⟩
  · rw [hapart.shutdown]
    refine (h.closing (hapart.closing ▸ hclosing)).imp_right fun ⟨y, e, he, hjob, hpc, hat⟩ => ?_
    refine ⟨y, e, hother y ?_ e he, hjob, hpc, hat⟩
    rintro rfl
    obtain rfl := Option.some.inj (he.symm.trans hc)
    have hwatches := hapart.watches
    rw [hpc] at hwatches
    cases hwatches
  · obtain ⟨hclosing, hnone⟩ := h.shut (hapart.shutdown ▸ hshut)
    exact ⟨hapart.closing.trans hclosing, hapart.waiters.trans hnone⟩
  · rw [hapart.closing]
    rcases calls_cases hapart.calls he with ⟨rfl, rfl⟩ | ⟨-, hold⟩
    · exact absurd hpc hapart.shuts
    · exact h.closes x e hold hpc

theorem Covered.begin_ (h : Covered s) (hfree : s.calls id = none) (hshuts : c.pc ≠ .shutdown) :
    Covered (s.put id c) := by
  have hkept : ∀ {k f}, s.calls k = some f → k ≠ id := fun hf heq => by
    rw [heq, hfree] at hf
    cases hf
  refine ⟨fun x e he hregistered hverdict => ?_, fun hclosing => ?_, h.shut, fun x e he hpc => ?_⟩
  · refine (h.watched x e he hregistered hverdict).imp_right fun ⟨y, hcancels⟩ => ⟨y, ?_⟩
    refine hcancels.kept (hkept hcancels.choose_spec.1)
      (fun k hk f hf => (State.put_of_ne hk).trans hf) (fun f r hf => ?_) (fun hin => hin)
      fun f k hf hk => ⟨f, hf, hk⟩
    rw [hfree] at hf
    cases hf
  · refine (h.closing hclosing).imp_right fun ⟨y, e, he, hrest⟩ => ?_
    exact ⟨y, e, (State.put_of_ne (hkept he)).trans he, hrest⟩
  · rcases calls_cases rfl he with ⟨rfl, rfl⟩ | ⟨-, hold⟩
    · exact absurd hpc hshuts
    · exact h.closes x e hold hpc

theorem Covered.turn (h : Covered s) (htracked : Tracked s) (hc : s.calls id = some c)
    (hat : c.at_ ≠ none) (ha : s.works w = some a) (hturn : Turn s t id c d w a b)
    (hself : Cancels s w id → d.job = .register w ∧ Awaits t w d) : Covered t := by
  have hother : ∀ k, k ≠ id → ∀ f, s.calls k = some f → t.calls k = some f := fun k hk f hf => by
    rw [hturn.calls, Function.update_of_ne hk]
    exact hf
  have hid : t.calls id = some d := by rw [hturn.calls, Function.update_self]
  -- The tracking of a scope that nobody has ended stays where it is.
  have htracking : ∀ k, b.registered = true → b.state.verdict = none → a.tracking = some k →
      b.tracking = some k := by
    intro k hregistered hverdict hk
    have hopen := open_of_verdict hverdict
    rcases hturn.tracking with hsame | hnone | ⟨⟨-, -, hfree⟩, -⟩
    · exact hsame.trans hk
    · obtain ⟨-, hstill, hgone | htakes⟩ := hturn.registered hregistered hopen hnone
      · rw [hk] at hgone
        cases hgone
      · obtain ⟨f, hf, hterminal⟩ := htracked.taking id c w hc hturn.work htakes
        obtain rfl := Option.some.inj (hf.symm.trans ha)
        rw [hstill] at hterminal
        cases hterminal
    · rw [hk] at hfree
      cases hfree
  -- Whoever cancels a work goes on to cancel it.
  have hcancels : ∀ x e, t.works x = some e → e.registered = true → e.state.verdict = none →
      ∀ y, Cancels s x y → Cancels t x y := by
    intro x e he hregistered hverdict y hy
    by_cases hyid : y = id
    · subst hyid
      have hcaller := hy
      obtain ⟨f, hf, -, hwho⟩ := hcaller
      obtain rfl := Option.some.inj (hf.symm.trans hc)
      have hwork := hturn.work
      rcases hwho with ⟨hjob, -⟩ | ⟨hjob, -⟩
      · rw [hjob] at hwork
        obtain rfl := Option.some.inj hwork
        obtain ⟨hdjob, hawaits⟩ := hself hy
        exact ⟨d, hid, hturn.at_ ▸ hat, .inl ⟨hdjob, .inr hawaits⟩⟩
      · rw [hjob] at hwork
        cases hwork
    · refine hy.kept hyid hother (fun f r hf hjob hbefore => ?_) (fun hin => hturn.cancelled ▸ hin)
        fun f k hf hk => ?_
      · obtain rfl := Option.some.inj (hf.symm.trans hc)
        have hwork := hturn.work
        rw [hjob] at hwork
        obtain rfl := Option.some.inj hwork
        rcases hturn.before hbefore with hstill | hdoomed
        · exact ⟨d, r, hid, hturn.job.trans hjob, hstill⟩
        · rw [hturn.works, Function.update_self] at he
          rw [Option.some.inj he, hverdict] at hdoomed
          cases hdoomed
      · rcases works_cases hturn.works he with ⟨rfl, rfl⟩ | ⟨hne, -⟩
        · obtain rfl := Option.some.inj (hf.symm.trans ha)
          exact ⟨e, he, htracking k hregistered hverdict hk⟩
        · exact ⟨f, by rw [hturn.works, Function.update_of_ne hne]; exact hf, hk⟩
  refine ⟨fun x e he hregistered hverdict => ?_, fun hclosing => ?_, fun hshut => ?_,
    fun x e he hpc => ?_⟩
  · have hbefore : ∀ f, s.works x = some f → f.registered = true → f.state.verdict = none →
        (∀ k, f.tracking = some k → e.tracking = some k) →
        (∃ k, e.tracking = some k ∧ (k, x) ∈ t.waiters) ∨ ∃ y, Cancels t x y := by
      intro f hf hwas hnone hsame
      rcases h.watched x f hf hwas hnone with ⟨k, hk, hin⟩ | ⟨y, hy⟩
      · exact .inl ⟨k, hsame k hk, hturn.waiters _ hin⟩
      · exact .inr ⟨y, hcancels x e he hregistered hverdict y hy⟩
    rcases works_cases hturn.works he with ⟨rfl, rfl⟩ | ⟨-, hold⟩
    · rcases hturn.watched hregistered hverdict with ⟨hwas, hnone, -⟩ | ⟨hjob, hpc, hwaits⟩
      · exact hbefore a ha hwas hnone fun k => htracking k hregistered hverdict
      · cases hshut : s.shutdown with
        | false => exact .inl ⟨id, hwaits hshut⟩
        | true =>
          rw [hshut] at hpc
          exact .inr ⟨id, d, hid, hturn.at_ ▸ hat, .inl ⟨hturn.job.trans hjob, .inl hpc⟩⟩
    · exact hbefore e hold hregistered hverdict fun k hk => hk
  · rw [hturn.shutdown]
    refine (h.closing (hturn.closing ▸ hclosing)).imp_right fun ⟨y, e, he, hjob, hrest⟩ => ?_
    refine ⟨y, e, hother y ?_ e he, hjob, hrest⟩
    rintro rfl
    obtain rfl := Option.some.inj (he.symm.trans hc)
    have hwork := hturn.work
    rw [hjob] at hwork
    cases hwork
  · obtain ⟨hclosing, hnone⟩ := h.shut (hturn.shutdown ▸ hshut)
    exact ⟨hturn.closing.trans hclosing, (hturn.closed (hturn.shutdown ▸ hshut)).trans hnone⟩
  · rw [hturn.closing]
    rcases calls_cases hturn.calls he with ⟨rfl, rfl⟩ | ⟨-, hold⟩
    · exact absurd hpc hturn.shuts
    · exact h.closes x e hold hpc

theorem Covered.turns (h : Covered s) (htracked : Tracked s) (hc : s.calls id = some c)
    (hat : c.at_ ≠ none) (ha : s.works w = some a) (hturns : Turns s t id c d w a b) :
    Covered t := by
  cases hturns with
  | alone hturn hcheck hawait =>
    refine h.turn htracked hc hat ha hturn fun hcancels => ?_
    -- The nested cancel was done before the call went on.
    obtain ⟨e, he, -, ⟨-, hpc | ⟨k, f, r, hpc, hf, -, hbefore⟩⟩ | ⟨hjob, -⟩⟩ := hcancels
    all_goals obtain rfl := Option.some.inj (he.symm.trans hc)
    · exact absurd hpc hcheck
    · rw [hawait k f hpc hf] at hbefore
      cases hbefore
    · have hwork := hturn.work
      rw [hjob] at hwork
      cases hwork
  | nested k hfree hjob hd hb hturn =>
    have hne : id ≠ k := fun heq => by
      rw [heq, hfree] at hc
      cases hc
    refine (h.begin_ hfree (by simp [nested])).turn (htracked.begin_ (.nested hfree)) ((State.put_of_ne hne).trans hc) hat
      ha hturn fun _ => ⟨hturn.job.trans hjob, k, nested c w, .cacheShutdown, hd, ?_, rfl, rfl⟩
    rw [hturn.calls, Function.update_of_ne hne.symm, State.put_self]

/-- A step of a `close`. What it has collected for the work, if anything, it goes on to collect. -/
theorem Covered.goes (h : Covered s) (hc : s.calls id = some c) (hjob : c.job = .close)
    (hat : c.at_ ≠ none) (hcalls : t.calls = Function.update s.calls id (some d))
    (hworks : t.works = s.works) (hd : d.job = .close) (hslot : d.at_ = c.at_)
    (hcancelled : ∀ x, x ∈ s.cancelled → x ∈ t.cancelled ∨ Collects t x d)
    (hself : ∀ x, Collects s x c → Collects t x d)
    (hwaiters : ∀ x k a, s.works x = some a → a.tracking = some k → (k, x) ∈ s.waiters →
      (k, x) ∈ t.waiters ∨ Collects t x d)
    (hclosing : t.closing = true → t.shutdown = true ∨ d.pc = .shutdown ∨
      s.closing = true ∧ s.shutdown = false ∧ c.pc ≠ .shutdown)
    (hshut : t.shutdown = true → t.closing = true ∧ t.waiters = [])
    (hkept : s.closing = true ∨ d.pc = .shutdown → t.closing = true) : Covered t := by
  have hother : ∀ k, k ≠ id → ∀ f, s.calls k = some f → t.calls k = some f := fun k hk f hf => by
    rw [hcalls, Function.update_of_ne hk]
    exact hf
  have hid : t.calls id = some d := by rw [hcalls, Function.update_self]
  have hcollects : ∀ x, Collects t x d → Cancels t x id := fun x hx =>
    ⟨d, hid, hslot ▸ hat, .inr ⟨hd, hx⟩⟩
  refine ⟨fun x e he hregistered hverdict => ?_, fun hclosed => ?_, hshut, fun x e he hpc => ?_⟩
  · rw [hworks] at he
    rcases h.watched x e he hregistered hverdict with ⟨k, hk, hin⟩ | ⟨y, hcancels⟩
    · rcases hwaiters x k e he hk hin with hstill | hx
      · exact .inl ⟨k, hk, hstill⟩
      · exact .inr ⟨id, hcollects x hx⟩
    · by_cases hy : y = id
      · subst hy
        obtain ⟨f, hf, -, ⟨hregister, -⟩ | ⟨-, hx⟩⟩ := hcancels
        all_goals obtain rfl := Option.some.inj (hf.symm.trans hc)
        · rw [hjob] at hregister
          cases hregister
        · exact .inr ⟨y, hcollects x (hself x hx)⟩
      · by_cases hx : Collects t x d
        · exact .inr ⟨id, hcollects x hx⟩
        · refine .inr ⟨y, hcancels.kept hy hother (fun f r hf hcancel => ?_)
            (fun hin => (hcancelled x hin).resolve_right hx) fun f k hf hk => ⟨f, hworks ▸ hf, hk⟩⟩
          obtain rfl := Option.some.inj (hf.symm.trans hc)
          rw [hjob] at hcancel
          cases hcancel
  · rcases hclosing hclosed with hdone | hpc | ⟨hwas, hnot, hne⟩
    · exact .inl hdone
    · exact .inr ⟨id, d, hid, hd, hpc, hslot ▸ hat⟩
    · rcases h.closing hwas with hyes | ⟨y, e, he, hejob, hpc, heat⟩
      · rw [hnot] at hyes
        cases hyes
      · refine .inr ⟨y, e, hother y ?_ e he, hejob, hpc, heat⟩
        rintro rfl
        obtain rfl := Option.some.inj (he.symm.trans hc)
        exact hne hpc
  · rcases calls_cases hcalls he with ⟨rfl, rfl⟩ | ⟨-, hold⟩
    · exact hkept (.inr hpc)
    · exact hkept (.inl (h.closes x e hold hpc))

/-- The flags are as they were. -/
theorem flags_kept (hpc : c.pc ≠ .shutdown) (hclosing : t.closing = s.closing)
    (hshutdown : t.shutdown = s.shutdown) : t.closing = true → t.shutdown = true ∨
      d.pc = .shutdown ∨ s.closing = true ∧ s.shutdown = false ∧ c.pc ≠ .shutdown := by
  rw [hclosing, hshutdown]
  intro hclosed
  cases hshut : s.shutdown with
  | true => exact .inl rfl
  | false => exact .inr (.inr ⟨hclosed, rfl, hpc⟩)

theorem Covered.close (h : Covered s) (htracked : Tracked s) (hc : s.calls id = some c)
    (hjob : c.job = .close) (hat : c.at_ ≠ none) (hstep : stepClose s id c choice = some t) :
    Covered t := by
  unfold stepClose at hstep
  split at hstep
  case h_1 hpc =>
    obtain rfl := Option.some.inj hstep
    refine h.goes hc hjob hat rfl rfl hjob rfl (fun _ hin => .inl hin) (fun x hx => ?_)
      (fun _ _ _ _ _ hin => .inl hin) (fun _ => .inr (.inl rfl)) (fun hshut => ⟨rfl, (h.shut hshut).2⟩)
      fun _ => rfl
    rcases hx with ⟨k, -, -, hk, -⟩ | ⟨-, hcollects⟩ | ⟨-, waiters, -, hw, -⟩
    · rw [hpc] at hk
      cases hk
    · rw [hpc] at hcollects
      cases hcollects
    · rw [hpc] at hw
      cases hw
  case h_2 hpc =>
    obtain rfl := Option.some.inj hstep
    have hclosed := h.closes id c hc hpc
    refine h.goes hc hjob hat rfl rfl hjob rfl (fun _ hin => .inl hin) (fun x hx => ?_)
      (fun x k a ha hk hin => .inr (.inr (.inr ⟨k, s.waiters, a, rfl, hin, ha, hk⟩)))
      (fun _ => .inl rfl) (fun _ => ⟨hclosed, rfl⟩) fun _ => hclosed
    · rcases hx with ⟨k, -, -, hk, -⟩ | ⟨-, hcollects⟩ | ⟨-, waiters, -, hw, -⟩
      · rw [hpc] at hk
        cases hk
      · rw [hpc] at hcollects
        cases hcollects
      · rw [hpc] at hw
        cases hw
  case h_3 hpc =>
    obtain rfl := Option.some.inj hstep
    refine h.goes hc hjob hat rfl rfl hjob rfl (fun _ hin => .inl hin) (fun x hx => ?_)
      (fun _ _ _ _ _ hin => .inl hin) (flags_kept (by rw [hpc]; exact nofun) rfl rfl) h.shut
      fun hwas => hwas.resolve_right nofun
    rcases hx with ⟨k, -, -, hk, -⟩ | ⟨hqueued, -⟩ | ⟨k, waiters, -, hw, hin, -⟩
    · rw [hpc] at hk
      cases hk
    · exact .inr (.inl ⟨hqueued, rfl⟩)
    · obtain rfl := Pc.wake.inj (hpc.symm.trans hw)
      cases hin
  case h_4 k v rest hpc =>
    obtain rfl := Option.some.inj hstep
    have hqueue : ∀ x, x ∈ s.cancelled → x ∈ if k ∈ s.tasks then s.cancelled ++ [v] else s.cancelled := by
      intro x hin
      split
      · exact List.mem_append_left _ hin
      · exact hin
    refine h.goes hc hjob hat rfl rfl hjob rfl (fun x hin => .inl (hqueue x hin)) (fun x hx => ?_)
      (fun _ _ _ _ _ hin => .inl hin) (flags_kept (by rw [hpc]; exact nofun) rfl rfl) h.shut
      fun hwas => hwas.resolve_right nofun
    rcases hx with ⟨k', -, -, hk, -⟩ | ⟨hqueued, -⟩ | ⟨k', waiters, f, hw, hin, hf, htracking⟩
    · rw [hpc] at hk
      cases hk
    · exact .inr (.inl ⟨hqueue x hqueued, rfl⟩)
    · obtain rfl := Pc.wake.inj (hpc.symm.trans hw)
      rcases List.mem_cons.mp hin with heq | hrest
      · -- The registration still stands, so that the work is queued.
        obtain ⟨rfl, rfl⟩ := Prod.mk.inj heq
        refine .inr (.inl ⟨?_, rfl⟩)
        show x ∈ if k' ∈ s.tasks then s.cancelled ++ [x] else s.cancelled
        rw [if_pos (htracked.counted x f k' hf htracking).1]
        exact List.mem_append_right _ List.mem_cons_self
      · exact .inr (.inr ⟨k', rest, f, rfl, hrest, hf, htracking⟩)
  case h_5 hpc =>
    split at hstep
    case h_1 hnone =>
      obtain rfl := Option.some.inj hstep
      refine h.goes hc hjob hat rfl rfl hjob rfl (fun _ hin => .inl hin) (fun x hx => ?_)
        (fun _ _ _ _ _ hin => .inl hin) (flags_kept (by rw [hpc]; exact nofun) rfl rfl) h.shut
        fun hwas => hwas.resolve_right nofun
      rcases hx with ⟨k, -, -, hk, -⟩ | ⟨hqueued, -⟩ | ⟨-, waiters, -, hw, -⟩
      · rw [hpc] at hk
        cases hk
      · rw [hnone] at hqueued
        cases hqueued
      · rw [hpc] at hw
        cases hw
    case h_2 v rest hqueue =>
      split at hstep
      case h_1 k =>
        split at hstep
        case isTrue hfree =>
          obtain rfl := Option.some.inj hstep
          have hne : id ≠ k := fun heq => by
            rw [heq, hfree] at hc
            cases hc
          have hchild : Awaits (spawn { s with cancelled := rest } id c k v) v
              { c with pc := .await k } := by
            refine ⟨k, nested c v, .cacheShutdown, rfl, ?_, rfl, rfl⟩
            show Function.update _ id _ k = _
            rw [Function.update_of_ne hne.symm, State.put_self]
            rfl
          refine (h.begin_ hfree (by simp)).goes ((State.put_of_ne hne).trans hc) hjob hat rfl rfl hjob rfl
            (fun x hin => ?_) (fun x hx => ?_) (fun _ _ _ _ _ hin => .inl hin)
            (flags_kept (by rw [hpc]; exact nofun) rfl rfl) h.shut fun hwas => hwas.resolve_right nofun
          · rcases List.mem_cons.mp (hqueue ▸ hin) with rfl | hrest
            · exact .inr (.inl hchild)
            · exact .inl hrest
          · rcases hx with ⟨k', -, -, hk, -⟩ | ⟨hqueued, -⟩ | ⟨-, waiters, -, hw, -⟩
            · rw [hpc] at hk
              cases hk
            · rcases List.mem_cons.mp (hqueue ▸ hqueued) with rfl | hrest
              · exact .inl hchild
              · exact .inr (.inl ⟨hrest, rfl⟩)
            · rw [hpc] at hw
              cases hw
        case isFalse => cases hstep
      case h_2 => cases hstep
  case h_6 k hpc =>
    split at hstep
    case h_1 e he =>
      split at hstep
      case isTrue hdone =>
        obtain rfl := Option.some.inj hstep
        refine h.goes hc hjob hat rfl rfl hjob rfl (fun _ hin => .inl hin) (fun x hx => ?_)
          (fun _ _ _ _ _ hin => .inl hin) (flags_kept (by rw [hpc]; exact nofun) rfl rfl) h.shut
          fun hwas => hwas.resolve_right nofun
        rcases hx with ⟨k', f, -, hk, hf, -, hbefore⟩ | ⟨hqueued, -⟩ | ⟨-, waiters, -, hw, -⟩
        · obtain rfl := Pc.await.inj (hpc.symm.trans hk)
          obtain rfl := Option.some.inj (he.symm.trans hf)
          rw [hdone] at hbefore
          cases hbefore
        · exact .inr (.inl ⟨hqueued, rfl⟩)
        · rw [hpc] at hw
          cases hw
      case isFalse => cases hstep
    case h_2 => cases hstep
  case h_7 => cases hstep

theorem Covered.noted (h : Covered s) (hnoted : Noted s w b) : Covered (s.setWork w b) := by
  refine ⟨fun x e he hregistered hverdict => ?_, h.closing, h.shut, h.closes⟩
  have hcancels : ∀ y, Cancels s x y → Cancels (s.setWork w b) x y := by
    rintro y ⟨f, hf, hat, hregister | ⟨hjob, hawaits | hqueued | ⟨k, ws, g, hpc, hin, hg, hk⟩⟩⟩
    · exact ⟨f, hf, hat, .inl hregister⟩
    · exact ⟨f, hf, hat, .inr ⟨hjob, .inl hawaits⟩⟩
    · exact ⟨f, hf, hat, .inr ⟨hjob, .inr (.inl hqueued)⟩⟩
    · have hstill : ∃ g, (s.setWork w b).works x = some g ∧ g.tracking = some k := by
        by_cases hx : x = w
        · subst hx
          exact ⟨b, State.setWork_self, (hnoted.kept g hg).trans hk⟩
        · exact ⟨g, (State.setWork_of_ne hx).trans hg, hk⟩
      obtain ⟨g', hg', hk'⟩ := hstill
      exact ⟨f, hf, hat, .inr ⟨hjob, .inr (.inr ⟨k, ws, g', hpc, hin, hg', hk'⟩)⟩⟩
  have hbefore : ∃ a, s.works x = some a ∧ a.registered = true ∧ a.state.verdict = none ∧
      e.tracking = a.tracking := by
    rcases works_cases rfl he with ⟨rfl, rfl⟩ | ⟨-, hold⟩
    · obtain ⟨a, ha, hwas, htracking⟩ := hnoted.registered hregistered
      exact ⟨a, ha, hwas, (hnoted.state.1 a ha).1 ▸ hverdict, htracking⟩
    · exact ⟨e, hold, hregistered, hverdict, rfl⟩
  obtain ⟨a, ha, hwas, hnone, htracking⟩ := hbefore
  rw [htracking]
  exact (h.watched x a ha hwas hnone).imp_right fun ⟨y, hy⟩ => ⟨y, hcancels y hy⟩

theorem first_ne_shutdown {thread : Nat} {job : Job} :
    ({ thread, job, pc := if job = .owned then .add else .owner } : Call).pc ≠ .shutdown := by
  dsimp only
  split <;> exact nofun

theorem Covered.start (h : Covered s) (hfree : s.calls id = none) {thread : Nat} {job : Job}
    (hstep : start s id thread job = some t) : Covered t := by
  unfold Shutdown.start at hstep
  cases job with
  | inline | owned | close =>
    obtain rfl := Option.some.inj hstep
    exact h.begin_ hfree first_ne_shutdown
  | register w | poll w =>
    obtain ⟨a, -, rfl⟩ := Option.map_eq_some_iff.mp hstep
    exact h.begin_ hfree first_ne_shutdown
  | cancel w reason =>
    obtain ⟨a, ha, rfl⟩ := Option.map_eq_some_iff.mp hstep
    have hnoted : Noted s w { a with asked := reason :: a.asked } := .ask ha _ rfl rfl rfl rfl
    exact (h.noted hnoted).begin_ hfree first_ne_shutdown

theorem Covered.drain (h : Covered s) (hstep : stepDrain s = some t) : Covered t := by
  unfold stepDrain at hstep
  repeat' split at hstep
  all_goals
    cases hstep
    try exact ⟨h.watched, h.closing, h.shut, h.closes⟩

theorem Covered.next (h : Covered s) (htracked : Tracked s) {action : Action}
    (hstep : next s action = some t) : Covered t := by
  cases action with
  | start id thread job =>
    unfold Shutdown.next at hstep
    dsimp only at hstep
    split at hstep
    case isTrue hfree => exact h.start hfree hstep
    case isFalse => cases hstep
  | step id choice =>
    obtain ⟨c, hc, hcall⟩ := Option.bind_eq_some_iff.mp hstep
    rcases stepCall_cases hcall with ⟨-, hreserve⟩ | ⟨slot, hslot, hleave | hbody⟩
    · obtain ⟨d, hapart⟩ := stepReserve_apart hreserve
      exact h.apart hc hapart
    · obtain ⟨d, hapart⟩ := stepLeave_apart hleave
      exact h.apart hc hapart
    · have hat : c.at_ ≠ none := by
        rw [hslot]
        exact nofun
      cases stepBody_cases htracked hc hbody with
      | permit d _ hapart => exact h.apart hc hapart
      | turns d w a b ha hturns => exact h.turns htracked hc hat ha hturns
      | close hjob hclose => exact h.close htracked hc hjob hat hclose
  | drain => exact h.drain hstep
  | create w =>
    unfold Shutdown.next at hstep
    dsimp only at hstep
    split at hstep
    case isTrue hfree =>
      obtain rfl := Option.some.inj hstep
      exact h.noted (.new hfree)
    case isFalse => cases hstep
  | request w reason =>
    obtain ⟨a, ha, rfl⟩ := Option.map_eq_some_iff.mp hstep
    exact h.noted (.ask ha _ rfl rfl rfl rfl)

theorem Covered.init : Covered init where
  watched _ _ ha := nomatch ha
  closing hclosing := nomatch hclosing
  shut hshut := nomatch hshut
  closes _ _ hc := nomatch hc

theorem Covered.run {actions : List Action}
    (hrun : Run.exec Shutdown.next Shutdown.init actions = some s) : Covered s :=
  (Run.exec_invariant (I := fun s => Tracked s ∧ Covered s)
    (fun _ _ _ h hstep => ⟨h.1.next hstep, h.2.next h.1 hstep⟩) ⟨Tracked.init, Covered.init⟩ hrun).2

/-! ## The reasons -/

/-- The reason is that of the shutdown, or was given to the work by somebody else. -/
def Work.Knows (a : Work) (r : Reason) : Prop := r = .cacheShutdown ∨ r ∈ a.asked

/-- Where the reasons of a work come from. -/
structure Reasoned (s : State) : Prop where
  state : ∀ w a r, s.works w = some a → given a.state = some r → a.Knows r
  source : ∀ w a r, s.works w = some a → a.state.isTerminal = false → a.source = some r → a.Knows r
  job : ∀ id c w a r, s.calls id = some c → s.works w = some a → c.job = .cancel w r → a.Knows r
  upcoming : ∀ id c w a r, s.calls id = some c → s.works w = some a → c.job.work = some w →
    c.pc.upcoming = some r → a.state.isTerminal = true ∨ a.Knows r
  recorded : ∀ id c w a r, s.calls id = some c → s.works w = some a → c.job.work = some w →
    c.pc.recorded = some r → a.state.isTerminal = true ∨ a.Knows r
  exists_ : ∀ id c w, s.calls id = some c → c.job.work = some w → s.works w ≠ none ∨
    (∀ r, c.job = .cancel w r → r = .cacheShutdown) ∧ c.pc.upcoming = none ∧ c.pc.recorded = none

theorem Reasoned.turn (h : Reasoned s) (hc : s.calls id = some c) (ha : s.works w = some a)
    (hturn : Turn s t id c d w a b) : Reasoned t := by
  have hknows : ∀ {r}, a.Knows r → b.Knows r := fun hr => hr.imp_right (hturn.asked _)
  -- What another call has of the work is as good as before.
  have hsame : ∀ x e, t.works x = some e → ∃ f, s.works x = some f ∧
      (f.state.isTerminal = true → e.state.isTerminal = true) ∧ ∀ r, f.Knows r → e.Knows r := by
    intro x e he
    rcases works_cases hturn.works he with ⟨rfl, rfl⟩ | ⟨-, hold⟩
    · exact ⟨a, ha, hturn.terminal, fun _ hr => hknows hr⟩
    · exact ⟨e, hold, fun hr => hr, fun _ hr => hr⟩
  have hgiven : ∀ r, given b.state = some r → b.Knows r := fun r hr => by
    rcases hturn.given r hr with hwas | hshut | hasked | ⟨hopen, hcoming⟩
    · exact hknows (h.state w a r ha hwas)
    · exact .inl hshut
    · exact .inr hasked
    · refine hknows ((h.upcoming id c w a r hc ha hturn.work hcoming).resolve_left fun hover => ?_)
      rw [hopen] at hover
      cases hover
  refine ⟨fun x e r he hr => ?_, fun x e r he hopen hr => ?_, fun x e y f r he hf hjob => ?_,
    fun x e y f r he hf hwork hr => ?_, fun x e y f r he hf hwork hr => ?_, fun x e y he hwork => ?_⟩
  · rcases works_cases hturn.works he with ⟨rfl, rfl⟩ | ⟨-, hold⟩
    · exact hgiven r hr
    · exact h.state x e r hold hr
  · rcases works_cases hturn.works he with ⟨rfl, rfl⟩ | ⟨-, hold⟩
    · have hwas : a.state.isTerminal = false := by
        cases hterminal : a.state.isTerminal with
        | false => rfl
        | true =>
          rw [hturn.terminal hterminal] at hopen
          cases hopen
      rcases hturn.source r hr with hsource | hrecorded
      · exact hknows (h.source x a r ha hwas hsource)
      · refine hknows ((h.recorded id c x a r hc ha hturn.work hrecorded).resolve_left fun hover => ?_)
        rw [hwas] at hover
        cases hover
    · exact h.source x e r hold hopen hr
  · obtain ⟨g, hg, -, hkeeps⟩ := hsame y f hf
    rcases calls_cases hturn.calls he with ⟨rfl, rfl⟩ | ⟨-, hold⟩
    · exact hkeeps r (h.job x c y g r hc hg (hturn.job.symm.trans hjob))
    · exact hkeeps r (h.job x e y g r hold hg hjob)
  · obtain ⟨g, hg, hover, hkeeps⟩ := hsame y f hf
    rcases calls_cases hturn.calls he with ⟨rfl, rfl⟩ | ⟨-, hold⟩
    · rw [hturn.job] at hwork
      obtain rfl := Option.some.inj (hturn.work.symm.trans hwork)
      obtain rfl := Option.some.inj (hg.symm.trans ha)
      rcases hturn.upcoming r hr with hsource | hjob
      · cases hterminal : g.state.isTerminal with
        | true => exact .inl (hover hterminal)
        | false => exact .inr (hkeeps r (h.source w g r ha hterminal hsource))
      · exact .inr (hkeeps r (h.job x c w g r hc ha hjob))
    · exact (h.upcoming x e y g r hold hg hwork hr).imp hover (hkeeps r)
  · obtain ⟨g, hg, hover, hkeeps⟩ := hsame y f hf
    rcases calls_cases hturn.calls he with ⟨rfl, rfl⟩ | ⟨-, hold⟩
    · rw [hturn.job] at hwork
      obtain rfl := Option.some.inj (hturn.work.symm.trans hwork)
      obtain rfl := Option.some.inj (hg.symm.trans ha)
      rw [hturn.works, Function.update_self] at hf
      obtain rfl := Option.some.inj hf
      rcases hturn.recorded r hr with hold | hstate | hterminal
      · exact (h.recorded x c w g r hc ha hturn.work hold).imp hover (hkeeps r)
      · exact .inr (hgiven r hstate)
      · exact .inl hterminal
    · exact (h.recorded x e y g r hold hg hwork hr).imp hover (hkeeps r)
  · rw [hturn.works]
    by_cases hy : y = w
    · rw [hy, Function.update_self]
      exact .inl nofun
    · rw [Function.update_of_ne hy]
      rcases calls_cases hturn.calls he with ⟨rfl, rfl⟩ | ⟨-, hold⟩
      · rw [hturn.job] at hwork
        exact absurd (Option.some.inj (hwork.symm.trans hturn.work)) hy
      · exact h.exists_ x e y hold hwork

theorem Reasoned.aside (h : Reasoned s) (hc : s.calls id = some c) (haside : Aside s t id c d) :
    Reasoned t := by
  refine ⟨fun x e r he => h.state x e r (haside.works ▸ he),
    fun x e r he => h.source x e r (haside.works ▸ he), fun x e y f r he hf hjob => ?_,
    fun x e y f r he hf hwork hr => ?_, fun x e y f r he hf hwork hr => ?_, fun x e y he hwork => ?_⟩
  · rw [haside.works] at hf
    rcases calls_cases haside.calls he with ⟨rfl, rfl⟩ | ⟨-, hold⟩
    · exact h.job x c y f r hc hf (haside.job.symm.trans hjob)
    · exact h.job x e y f r hold hf hjob
  · rw [haside.works] at hf
    rcases calls_cases haside.calls he with ⟨rfl, rfl⟩ | ⟨-, hold⟩
    · rw [haside.upcoming] at hr
      cases hr
    · exact h.upcoming x e y f r hold hf hwork hr
  · rw [haside.works] at hf
    rcases calls_cases haside.calls he with ⟨rfl, rfl⟩ | ⟨-, hold⟩
    · rw [haside.recorded] at hr
      cases hr
    · exact h.recorded x e y f r hold hf hwork hr
  · rw [haside.works]
    rcases calls_cases haside.calls he with ⟨rfl, rfl⟩ | ⟨-, hold⟩
    · rw [haside.job] at hwork ⊢
      exact (h.exists_ x c y hc hwork).imp_right fun hnone =>
        ⟨hnone.1, haside.upcoming, haside.recorded⟩
    · exact h.exists_ x e y hold hwork

theorem Reasoned.begin_ (h : Reasoned s) (hbegun : Begun s id c)
    (hjob : ∀ w a r, s.works w = some a → c.job = .cancel w r → a.Knows r)
    (hexists : ∀ w, c.job.work = some w → s.works w ≠ none ∨
      ∀ r, c.job = .cancel w r → r = .cacheShutdown) : Reasoned (s.put id c) := by
  refine ⟨h.state, h.source, fun x e y f r he hf hcancel => ?_, fun x e y f r he hf hwork hr => ?_,
    fun x e y f r he hf hwork hr => ?_, fun x e y he hwork => ?_⟩
  · rcases calls_cases rfl he with ⟨rfl, rfl⟩ | ⟨-, hold⟩
    · exact hjob y f r hf hcancel
    · exact h.job x e y f r hold hf hcancel
  · rcases calls_cases rfl he with ⟨rfl, rfl⟩ | ⟨-, hold⟩
    · rw [hbegun.upcoming] at hr
      cases hr
    · exact h.upcoming x e y f r hold hf hwork hr
  · rcases calls_cases rfl he with ⟨rfl, rfl⟩ | ⟨-, hold⟩
    · rw [hbegun.recorded] at hr
      cases hr
    · exact h.recorded x e y f r hold hf hwork hr
  · rcases calls_cases rfl he with ⟨rfl, rfl⟩ | ⟨-, hold⟩
    · exact (hexists y hwork).imp_right fun hnone => ⟨hnone, hbegun.upcoming, hbegun.recorded⟩
    · exact h.exists_ x e y hold hwork

theorem Reasoned.nested {k : Nat} (h : Reasoned s) (hfree : s.calls k = none) :
    Reasoned (s.put k (nested c w)) := by
  refine h.begin_ (.nested hfree) (fun x e r _ hjob => ?_) fun x _ => .inr fun r hjob => ?_
  · exact .inl (Job.cancel.inj hjob).2.symm
  · exact (Job.cancel.inj hjob).2.symm

theorem Reasoned.noted (h : Reasoned s) (hnoted : Noted s w b)
    (hasked : ∀ a, s.works w = some a → ∀ r ∈ a.asked, r ∈ b.asked)
    (hsource : ∀ r, b.source = some r → r ∈ b.asked ∨ ∃ a, s.works w = some a ∧ a.source = some r) :
    Reasoned (s.setWork w b) := by
  have hsame : ∀ {y f}, (s.setWork w b).works y = some f → s.works y ≠ none →
      ∃ g, s.works y = some g ∧ g.state = f.state ∧ ∀ r, g.Knows r → f.Knows r := by
    intro y f hf hexists
    rcases works_cases rfl hf with ⟨rfl, rfl⟩ | ⟨-, hold⟩
    · obtain ⟨g, hg⟩ := Option.ne_none_iff_exists'.mp hexists
      exact ⟨g, hg, (hnoted.state.1 g hg).1.symm, fun r hr => hr.imp_right (hasked g hg r)⟩
    · exact ⟨f, hold, rfl, fun _ hr => hr⟩
  have hnew : ∀ {y f}, (s.setWork w b).works y = some f → s.works y = none → f.state = .pending := by
    intro y f hf hnone
    rcases works_cases rfl hf with ⟨rfl, rfl⟩ | ⟨-, hold⟩
    · exact hnoted.state.2 hnone
    · rw [hnone] at hold
      cases hold
  refine ⟨fun x e r he hr => ?_, fun x e r he hopen hr => ?_, fun x e y f r he hf hjob => ?_,
    fun x e y f r he hf hwork hr => ?_, fun x e y f r he hf hwork hr => ?_, fun x e y he hwork => ?_⟩
  · by_cases hexists : s.works x = none
    · rw [hnew he hexists] at hr
      cases hr
    · obtain ⟨g, hg, hstate, hkeeps⟩ := hsame he hexists
      exact hkeeps r (h.state x g r hg (hstate ▸ hr))
  · rcases works_cases rfl he with ⟨rfl, rfl⟩ | ⟨-, hold⟩
    · rcases hsource r hr with hin | ⟨g, hg, hwas⟩
      · exact .inr hin
      · refine (h.source x g r hg ?_ hwas).imp_right (hasked g hg r)
        rw [← (hnoted.state.1 g hg).1]
        exact hopen
    · exact h.source x e r hold hopen hr
  · by_cases hexists : s.works y = none
    · rcases h.exists_ x e y he (by rw [hjob]; rfl) with hne | ⟨hshut, -⟩
      · exact absurd hexists hne
      · exact .inl (hshut r hjob)
    · obtain ⟨g, hg, -, hkeeps⟩ := hsame hf hexists
      exact hkeeps r (h.job x e y g r he hg hjob)
  · by_cases hexists : s.works y = none
    · rcases h.exists_ x e y he hwork with hne | ⟨-, hnone, -⟩
      · exact absurd hexists hne
      · rw [hnone] at hr
        cases hr
    · obtain ⟨g, hg, hstate, hkeeps⟩ := hsame hf hexists
      exact (h.upcoming x e y g r he hg hwork hr).imp (fun hover => hstate ▸ hover) (hkeeps r)
  · by_cases hexists : s.works y = none
    · rcases h.exists_ x e y he hwork with hne | ⟨-, -, hnone⟩
      · exact absurd hexists hne
      · rw [hnone] at hr
        cases hr
    · obtain ⟨g, hg, hstate, hkeeps⟩ := hsame hf hexists
      exact (h.recorded x e y g r he hg hwork hr).imp (fun hover => hstate ▸ hover) (hkeeps r)
  · by_cases hy : y = w
    · rw [hy, State.setWork_self]
      exact .inl nofun
    · rw [State.setWork_of_ne hy]
      exact h.exists_ x e y he hwork

theorem Reasoned.start (h : Reasoned s) (hfree : s.calls id = none) {thread : Nat} {job : Job}
    (hstep : start s id thread job = some t) : Reasoned t := by
  unfold Shutdown.start at hstep
  cases job with
  | inline | owned | close =>
    obtain rfl := Option.some.inj hstep
    exact h.begin_ (.first hfree) (fun _ _ _ _ hjob => by cases hjob) fun _ hwork => by cases hwork
  | register w | poll w =>
    obtain ⟨a, ha, rfl⟩ := Option.map_eq_some_iff.mp hstep
    refine h.begin_ (.first hfree) (fun _ _ _ _ hjob => by cases hjob) fun x hwork => .inl ?_
    rw [← Option.some.inj hwork, ha]
    exact nofun
  | cancel w reason =>
    obtain ⟨a, ha, rfl⟩ := Option.map_eq_some_iff.mp hstep
    have hnoted : Noted s w { a with asked := reason :: a.asked } := .ask ha _ rfl rfl rfl rfl
    have hs := h.noted hnoted (fun e he r hr => ?_) fun r hr => .inr ⟨a, ha, hr⟩
    · refine hs.begin_ (.first hfree) (fun x e r he hjob => ?_) fun x hwork => .inl ?_
      · obtain ⟨rfl, rfl⟩ := Job.cancel.inj hjob
        obtain rfl := Option.some.inj (State.setWork_self.symm.trans he)
        exact .inr List.mem_cons_self
      · obtain rfl := Option.some.inj hwork
        rw [State.setWork_self]
        exact nofun
    · obtain rfl := Option.some.inj (he.symm.trans ha)
      exact List.mem_cons_of_mem _ hr

theorem Reasoned.did (h : Reasoned s) (hc : s.calls id = some c) (hdid : Did s t id c d) :
    Reasoned t := by
  have hstays : ∀ {k w}, s.calls k = none → (s.put k (Shutdown.nested c w)).calls id = some c :=
    fun {k w} hfree => by
      rw [State.put_of_ne fun heq => by rw [heq, hfree] at hc; cases hc]
      exact hc
  cases hdid with
  | aside haside => exact h.aside hc haside
  | nested k w hfree haside => exact (h.nested hfree).aside (hstays hfree) haside
  | turns w a b ha hat hturns =>
    cases hturns with
    | alone hturn => exact h.turn hc ha hturn
    | nested k hfree hjob hd hb hturn => exact (h.nested hfree).turn (hstays hfree) ha hturn

theorem Reasoned.drain (h : Reasoned s) (hstep : stepDrain s = some t) : Reasoned t := by
  unfold stepDrain at hstep
  repeat' split at hstep
  all_goals
    cases hstep
    try exact ⟨h.state, h.source, h.job, h.upcoming, h.recorded, h.exists_⟩

theorem Reasoned.next (h : Reasoned s) (htracked : Tracked s) {action : Action}
    (hstep : next s action = some t) : Reasoned t := by
  cases action with
  | start id thread job =>
    unfold Shutdown.next at hstep
    dsimp only at hstep
    split at hstep
    case isTrue hfree => exact h.start hfree hstep
    case isFalse => cases hstep
  | step id choice =>
    obtain ⟨c, hc, hcall⟩ := Option.bind_eq_some_iff.mp hstep
    obtain ⟨d, hdid⟩ := stepCall_did htracked hc hcall
    exact h.did hc hdid
  | drain => exact h.drain hstep
  | create w =>
    unfold Shutdown.next at hstep
    dsimp only at hstep
    split at hstep
    case isTrue hfree =>
      obtain rfl := Option.some.inj hstep
      exact h.noted (.new hfree) (fun e he => absurd (hfree.symm.trans he) nofun) nofun
    case isFalse => cases hstep
  | request w reason =>
    obtain ⟨a, ha, rfl⟩ := Option.map_eq_some_iff.mp hstep
    refine h.noted (.ask ha _ rfl rfl rfl rfl) (fun e he r hr => ?_) fun r hr => ?_
    · obtain rfl := Option.some.inj (he.symm.trans ha)
      exact List.mem_cons_of_mem _ hr
    · rcases Option.or_eq_some_iff.mp hr with hsource | ⟨-, hreason⟩
      · exact .inr ⟨a, ha, hsource⟩
      · obtain rfl := Option.some.inj hreason
        exact .inl List.mem_cons_self

theorem Reasoned.init : Reasoned init where
  state _ _ _ ha := nomatch ha
  source _ _ _ ha := nomatch ha
  job _ _ _ _ _ hc := nomatch hc
  upcoming _ _ _ _ _ hc := nomatch hc
  recorded _ _ _ _ _ hc := nomatch hc
  exists_ _ _ _ hc := nomatch hc

theorem Reasoned.run {actions : List Action}
    (hrun : Run.exec Shutdown.next Shutdown.init actions = some s) : Reasoned s :=
  (Run.exec_invariant (I := fun s => Tracked s ∧ Reasoned s)
    (fun _ _ _ h hstep => ⟨h.1.next hstep, h.2.next h.1 hstep⟩) ⟨Tracked.init, Reasoned.init⟩ hrun).2

end Shutdown

end Amalgam
