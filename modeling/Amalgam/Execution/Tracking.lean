import Amalgam.Execution.Counting

/-!
# Amalgam — who has a work

What the calls have in hand: the tokens of the task tracker, the futures that were taken out of
their scopes, and the reasons on their way to a source. `Turn` says what one step of a call does to
its work, and each invariant is derived from that.

* **`Tracked`** — a work that is not over is in its tracking slot once it was registered, and a
  future that is not destroyed is in its scope or in the hands of a call that is still counted.
* **`Reasoned`** — a work is cancelled for the shutdown, or for a reason that was given before.
-/

namespace Amalgam

namespace Shutdown

open Flights (Reason)
open Owned (ScopeState)

variable {s t : State} {id : Nat} {c d : Call} {w : Nat} {a b : Work} {choice : Choice}

/-- No registration of this call is made yet. -/
def Pc.early : Pc → Bool
  | .owner | .exchange | .load | .store _ | .add | .slot => true
  | _ => false

/-- A cancel that has not been under the lock of its scope yet. -/
def Pc.before : Pc → Bool
  | .owner | .exchange | .load | .store _ | .add | .reason | .section_ _ => true
  | _ => false

/-- The token that the call has taken out of a tracking slot. -/
def Pc.token : Pc → Option Nat
  | .publish _ _ token _ | .retire _ _ token => token
  | _ => none

/-- The call has taken the future out of an ended scope. -/
def Pc.holds : Pc → Bool
  | .take _ work _ _ | .publish _ work _ _ | .retire _ work _ => work
  | _ => false

/-- The call has seen its scope ended and takes the tracking. -/
def Pc.takes : Pc → Bool
  | .take _ _ terminal _ => terminal
  | _ => false

/-- The reason on its way to the source. -/
def Pc.recorded : Pc → Option Reason
  | .take _ _ _ recorded | .publish _ _ _ recorded => recorded
  | _ => none

/-- The reason that the scope will be cancelled for. -/
def Pc.upcoming : Pc → Option Reason
  | .section_ r => some r
  | _ => none

/-- The reason that a scope is or will be cancelled for. -/
def given : ScopeState → Option Reason
  | .cancelled reason => some reason
  | .polling cancellation => cancellation
  | .pending | .completed => none

/-- One step of a call and its work. -/
structure Turn (s t : State) (id : Nat) (c d : Call) (w : Nat) (a b : Work) : Prop where
  calls : t.calls = Function.update s.calls id (some d) := by rfl
  works : t.works = Function.update s.works w (some b) := by rfl
  closing : t.closing = s.closing := by rfl
  shutdown : t.shutdown = s.shutdown := by rfl
  cancelled : t.cancelled = s.cancelled := by rfl
  waiters : ∀ x ∈ s.waiters, x ∈ t.waiters := by exact fun _ h => h
  closed : s.shutdown = true → t.waiters = s.waiters := by exact fun _ => rfl
  job : d.job = c.job := by rfl
  at_ : d.at_ = c.at_ := by rfl
  work : c.job.work = some w := by simp [Job.work, *]
  early : c.pc.early = false → d.pc.early = false := by simp [Pc.early, *]
  tasks : ∀ k ∈ s.tasks, k ∈ t.tasks ∨ c.pc.token = some k := by exact fun _ h => .inl h
  tracking : b.tracking = a.tracking ∨ b.tracking = none ∨
    (b.tracking = some id ∧ id ∈ t.tasks ∧ a.tracking = none) ∧
      c.job = .register w ∧ c.pc = .slot ∧ d.pc.early = false := by exact .inl rfl
  token : ∀ k, d.pc.token = some k →
    c.pc.token = some k ∨ a.tracking = some k ∧ b.tracking = none := by
      intro k hk
      simp_all [Pc.token]
  takes : d.pc.takes = true → b.state.isTerminal = true := by
    simp [Pc.takes, ScopeState.isTerminal, *]
  terminal : a.state.isTerminal = true → b.state.isTerminal = true := by
    simp [ScopeState.isTerminal, *]
  registered : b.registered = true → b.state.isTerminal = false → b.tracking = none →
    a.registered = true ∧ a.state.isTerminal = false ∧ (a.tracking = none ∨ c.pc.takes = true) := by
      intro hregistered hstate htracking
      simp_all [ScopeState.isTerminal, Pc.takes]
  holds : c.pc.holds = true → d.pc.holds = true ∨ b.destroyed = true := by
    intro hholds
    simp_all [Pc.holds]
  ended : b.state.isTerminal = true → b.destroyed = false →
    a.state.isTerminal = true ∧ a.destroyed = false ∨ d.pc.holds = true := by
      intro hstate hdestroyed
      simp_all [ScopeState.isTerminal, Pc.holds]
  destroyed : a.destroyed = true → b.destroyed = true := by simp
  -- A scope that is to be cancelled stays so.
  verdict : a.state.verdict.isSome = true → b.state.verdict.isSome = true := by
    intro hverdict
    simp_all [ScopeState.verdict]
  watched : b.registered = true → b.state.verdict = none →
    a.registered = true ∧ a.state.verdict = none ∧ (b.tracking = a.tracking ∨ c.pc.takes = true) ∨
      c.job = .register w ∧ d.pc = .check s.shutdown ∧
        (s.shutdown = false → b.tracking = some id ∧ (id, w) ∈ t.waiters) := by
          intro hregistered hverdict
          simp_all [ScopeState.verdict, Pc.takes]
  before : c.pc.before = true → d.pc.before = true ∨ b.state.verdict.isSome = true := by
    intro hbefore
    simp_all [Pc.before, ScopeState.verdict]
  -- Where reasons come from.
  asked : ∀ r ∈ a.asked, r ∈ b.asked := by exact fun _ h => h
  given : ∀ r, given b.state = some r → given a.state = some r ∨ r = .cacheShutdown ∨ r ∈ b.asked ∨
    a.state.isTerminal = false ∧ c.pc.upcoming = some r := by
      intro r hr
      simp_all [Shutdown.given, Pc.upcoming, ScopeState.isTerminal]
  source : ∀ r, b.source = some r → a.source = some r ∨ c.pc.recorded = some r := by
    exact fun _ h => .inl h
  upcoming : ∀ r, d.pc.upcoming = some r → a.source = some r ∨ c.job = .cancel w r := by
    simp [Pc.upcoming]
  recorded : ∀ r, d.pc.recorded = some r →
    c.pc.recorded = some r ∨ Shutdown.given b.state = some r ∨ b.state.isTerminal = true := by
      intro r hr
      simp_all [Pc.recorded, Shutdown.given, ScopeState.isTerminal]
  unwound : d.pc = .unwound → b.destroyed = true := by simp
  shuts : d.pc ≠ .shutdown := by simp
  polled : b.state.isPolling = true → b.destroyed = false →
    a.state.isPolling = true ∧ a.destroyed = false ∧ c.pc ≠ .polling ∨
      c.job = .poll w ∧ d.pc = .polling := by
        intro hstate hdestroyed
        simp_all [ScopeState.isPolling]

/-- A call of `register_work` that has made its registration. -/
def Registrar (s : State) (w k : Nat) : Prop :=
  ∃ c, s.calls k = some c ∧ c.job = .register w ∧ c.pc.early = false

/-- A call that is still counted has the future of an ended scope. -/
def Holder (s : State) (w id : Nat) : Prop :=
  ∃ c, s.calls id = some c ∧ c.job.work = some w ∧ c.pc.holds = true ∧ c.at_ ≠ none

/-- A call that is still counted polls the future. -/
def Poller (s : State) (w id : Nat) : Prop :=
  ∃ c, s.calls id = some c ∧ c.job = .poll w ∧ c.pc = .polling ∧ c.at_ ≠ none

structure Tracked (s : State) : Prop where
  counted : ∀ w a k, s.works w = some a → a.tracking = some k → k ∈ s.tasks ∧ Registrar s w k
  hand : ∀ id c k, s.calls id = some c → c.pc.token = some k →
    (∃ w, Registrar s w k) ∧ ∀ w a, s.works w = some a → a.tracking ≠ some k
  taking : ∀ id c w, s.calls id = some c → c.job.work = some w → c.pc.takes = true →
    ∃ a, s.works w = some a ∧ a.state.isTerminal = true
  registered : ∀ w a, s.works w = some a → a.registered = true → a.state.isTerminal = false →
    a.tracking ≠ none
  ended : ∀ w a, s.works w = some a → a.state.isTerminal = true → a.destroyed = false →
    ∃ id, Holder s w id
  polled : ∀ w a, s.works w = some a → a.state.isPolling = true → a.destroyed = false →
    ∃ id, Poller s w id
  unwound : ∀ id c w, s.calls id = some c → c.job.work = some w → c.pc = .unwound →
    ∃ a, s.works w = some a ∧ a.destroyed = true

/-- The calls after a step of one of them. -/
theorem calls_cases (hcalls : t.calls = Function.update s.calls id (some d)) {x : Nat} {e : Call}
    (he : t.calls x = some e) : x = id ∧ e = d ∨ x ≠ id ∧ s.calls x = some e := by
  rw [hcalls] at he
  by_cases hx : x = id
  · subst hx
    rw [Function.update_self] at he
    exact .inl ⟨rfl, (Option.some.inj he).symm⟩
  · rw [Function.update_of_ne hx] at he
    exact .inr ⟨hx, he⟩

/-- The works after a step about one of them. -/
theorem works_cases (hworks : t.works = Function.update s.works w (some b)) {x : Nat} {e : Work}
    (he : t.works x = some e) : x = w ∧ e = b ∨ x ≠ w ∧ s.works x = some e := by
  rw [hworks] at he
  by_cases hx : x = w
  · subst hx
    rw [Function.update_self] at he
    exact .inl ⟨rfl, (Option.some.inj he).symm⟩
  · rw [Function.update_of_ne hx] at he
    exact .inr ⟨hx, he⟩

/-- A call that is somewhere goes on to be somewhere. -/
theorem calls_kept (hcalls : t.calls = Function.update s.calls id (some d)) {x : Nat} {e : Call}
    (hc : s.calls id = some c) (he : s.calls x = some e) :
    x = id ∧ e = c ∧ t.calls x = some d ∨ x ≠ id ∧ t.calls x = some e := by
  rw [hcalls]
  by_cases hx : x = id
  · subst hx
    exact .inl ⟨rfl, Option.some.inj (he.symm.trans hc), Function.update_self ..⟩
  · exact .inr ⟨hx, (Function.update_of_ne hx ..).trans he⟩

theorem Registrar.kept {k x : Nat} (hcalls : t.calls = Function.update s.calls id (some d))
    (hc : s.calls id = some c) (hjob : d.job = c.job)
    (hearly : c.pc.early = false → d.pc.early = false) (h : Registrar s x k) : Registrar t x k := by
  obtain ⟨e, he, hwork, hpc⟩ := h
  rcases calls_kept hcalls hc he with ⟨rfl, rfl, hd⟩ | ⟨-, hkept⟩
  · exact ⟨d, hd, hjob.trans hwork, hearly hpc⟩
  · exact ⟨e, hkept, hwork, hpc⟩

/-- What a call registers it registers once. -/
theorem Registrar.same {k x y : Nat} (h : Registrar s x k) (h' : Registrar s y k) : x = y := by
  obtain ⟨c, hc, hjob, -⟩ := h
  obtain ⟨d, hd, hjob', -⟩ := h'
  obtain rfl := Option.some.inj (hc.symm.trans hd)
  exact Job.register.inj (hjob.symm.trans hjob')

theorem Holder.kept {x y : Nat} (hcalls : t.calls = Function.update s.calls id (some d))
    (hc : s.calls id = some c) (h : Holder s x y)
    (hself : y = id → c.job.work = some x → c.pc.holds = true → c.at_ ≠ none →
      d.job.work = some x ∧ d.pc.holds = true ∧ d.at_ ≠ none) : Holder t x y := by
  obtain ⟨e, he, hwork, hholds, hat⟩ := h
  rcases calls_kept hcalls hc he with ⟨rfl, rfl, hd⟩ | ⟨-, hkept⟩
  · exact ⟨d, hd, hself rfl hwork hholds hat⟩
  · exact ⟨e, hkept, hwork, hholds, hat⟩

theorem Poller.kept {x y : Nat} (hcalls : t.calls = Function.update s.calls id (some d))
    (hc : s.calls id = some c) (h : Poller s x y)
    (hself : c.pc = .polling → y ≠ id ∨ d.job = c.job ∧ d.pc = .polling ∧ d.at_ = c.at_) :
    Poller t x y := by
  obtain ⟨e, he, hwork, hpc, hat⟩ := h
  rcases calls_kept hcalls hc he with ⟨rfl, rfl, hd⟩ | ⟨-, hkept⟩
  · obtain ⟨hjob, hpolling, hslot⟩ := (hself hpc).resolve_left fun hne => hne rfl
    exact ⟨d, hd, hjob.trans hwork, hpolling, hslot ▸ hat⟩
  · exact ⟨e, hkept, hwork, hpc, hat⟩

theorem Tracked.turn (h : Tracked s) (hc : s.calls id = some c) (hat : c.at_ ≠ none)
    (ha : s.works w = some a) (hturn : Turn s t id c d w a b) : Tracked t := by
  have hkept : ∀ {x k}, Registrar s x k → Registrar t x k := fun hreg =>
    hreg.kept hturn.calls hc hturn.job hturn.early
  -- A token that the call drops is in no tracking slot.
  have htasks : ∀ {x e k}, s.works x = some e → e.tracking = some k → k ∈ t.tasks :=
    fun he hk => (hturn.tasks _ (h.counted _ _ _ he hk).1).resolve_right fun htoken =>
      (h.hand id c _ hc htoken).2 _ _ he hk
  refine ⟨fun x e k he hk => ?_, fun x e k he hk => ?_, fun x e y he hwork htakes => ?_,
    fun x e he hregistered hstate => ?_, fun x e he hstate hdestroyed => ?_,
    fun x e he hstate hdestroyed => ?_, fun x e y he hwork hpc => ?_⟩
  · rcases works_cases hturn.works he with ⟨rfl, rfl⟩ | ⟨-, hold⟩
    · rcases hturn.tracking with hsame | hnone | ⟨⟨hid, hin, -⟩, hjob, -, hearly⟩
      · have hbefore := hsame.symm.trans hk
        exact ⟨htasks ha hbefore, hkept (h.counted x a k ha hbefore).2⟩
      · rw [hnone] at hk
        cases hk
      · rw [hid] at hk
        obtain rfl := Option.some.inj hk
        exact ⟨hin, d, hturn.calls ▸ Function.update_self .., hturn.job.trans hjob, hearly⟩
    · exact ⟨htasks hold hk, hkept (h.counted x e k hold hk).2⟩
  · have hnone : ∀ y f, t.works y = some f → (∀ g, s.works y = some g → g.tracking ≠ some k) →
        (c.pc = .slot → k ≠ id) → f.tracking ≠ some k := by
      intro y f hf hbefore hfresh htracking
      rcases works_cases hturn.works hf with ⟨rfl, rfl⟩ | ⟨-, hold⟩
      · rcases hturn.tracking with hsame | hgone | ⟨⟨hid, -, -⟩, -, hslot, -⟩
        · exact hbefore a ha (hsame.symm.trans htracking)
        · rw [hgone] at htracking
          cases htracking
        · rw [hid] at htracking
          exact hfresh hslot (Option.some.inj htracking).symm
      · exact hbefore f hold htracking
    have hfresh : (∃ y, Registrar s y k) → c.pc = .slot → k ≠ id := by
      rintro ⟨y, g, hg, -, hearly⟩ hslot rfl
      obtain rfl := Option.some.inj (hg.symm.trans hc)
      rw [hslot] at hearly
      cases hearly
    rcases calls_cases hturn.calls he with ⟨rfl, rfl⟩ | ⟨-, hold⟩
    · rcases hturn.token k hk with hhad | ⟨htook, hgone⟩
      · obtain ⟨⟨y, hreg⟩, hno⟩ := h.hand x c k hc hhad
        exact ⟨⟨y, hkept hreg⟩,
          fun z f hf => hnone z f hf (fun g hg => hno z g hg) (hfresh ⟨y, hreg⟩)⟩
      · have hreg := (h.counted w a k ha htook).2
        refine ⟨⟨w, hkept hreg⟩, fun z f hf htracking => ?_⟩
        rcases works_cases hturn.works hf with ⟨rfl, rfl⟩ | ⟨hne, hold⟩
        · rw [hgone] at htracking
          cases htracking
        · exact hne ((h.counted z f k hold htracking).2.same hreg)
    · obtain ⟨⟨y, hreg⟩, hno⟩ := h.hand x e k hold hk
      exact ⟨⟨y, hkept hreg⟩,
        fun z f hf => hnone z f hf (fun g hg => hno z g hg) (hfresh ⟨y, hreg⟩)⟩
  · have hstays : ∀ f, s.works y = some f → f.state.isTerminal = true →
        ∃ f, t.works y = some f ∧ f.state.isTerminal = true := by
      intro f hf hterminal
      rw [hturn.works]
      by_cases hy : y = w
      · subst hy
        obtain rfl := Option.some.inj (hf.symm.trans ha)
        exact ⟨b, Function.update_self .., hturn.terminal hterminal⟩
      · exact ⟨f, (Function.update_of_ne hy ..).trans hf, hterminal⟩
    rcases calls_cases hturn.calls he with ⟨rfl, rfl⟩ | ⟨-, hold⟩
    · rw [hturn.job, hturn.work] at hwork
      obtain rfl := Option.some.inj hwork
      exact ⟨b, hturn.works ▸ Function.update_self .., hturn.takes htakes⟩
    · obtain ⟨f, hf, hterminal⟩ := h.taking x e y hold hwork htakes
      exact hstays f hf hterminal
  · rcases works_cases hturn.works he with ⟨rfl, rfl⟩ | ⟨-, hold⟩
    · intro hnone
      obtain ⟨hwas, hopen, hgone | htakes⟩ := hturn.registered hregistered hstate hnone
      · exact h.registered x a ha hwas hopen hgone
      · obtain ⟨f, hf, hterminal⟩ := h.taking id c x hc hturn.work htakes
        obtain rfl := Option.some.inj (hf.symm.trans ha)
        rw [hopen] at hterminal
        cases hterminal
    · exact h.registered x e hold hregistered hstate
  · have hother : x ≠ w ∨ d.pc.holds = true ∨ (c.pc.holds = true → d.pc.holds = true) → ∀ y,
        Holder s x y → Holder t x y := by
      intro hwhy y hholder
      refine hholder.kept hturn.calls hc fun _ hwork hholds hslot => ?_
      refine ⟨by rw [hturn.job]; exact hwork, ?_, by rw [hturn.at_]; exact hslot⟩
      rcases hwhy with hne | hd | hcd
      · exact absurd (Option.some.inj (hwork.symm.trans hturn.work)) hne
      · exact hd
      · exact hcd hholds
    rcases works_cases hturn.works he with ⟨rfl, rfl⟩ | ⟨hne, hold⟩
    · rcases hturn.ended hstate hdestroyed with ⟨hwas, hwhole⟩ | hholds
      · obtain ⟨y, hholder⟩ := h.ended x a ha hwas hwhole
        refine ⟨y, hother (.inr (.inr fun hholds => ?_)) y hholder⟩
        exact (hturn.holds hholds).resolve_right fun hgone => by
          rw [hdestroyed] at hgone
          cases hgone
      · refine ⟨id, d, hturn.calls ▸ Function.update_self .., ?_, hholds, by rw [hturn.at_]; exact hat⟩
        rw [hturn.job]
        exact hturn.work
    · obtain ⟨y, hholder⟩ := h.ended x e hold hstate hdestroyed
      exact ⟨y, hother (.inl hne) y hholder⟩
  · rcases works_cases hturn.works he with ⟨rfl, rfl⟩ | ⟨hne, hold⟩
    · rcases hturn.polled hstate hdestroyed with ⟨hwas, hwhole, hidle⟩ | ⟨hjob, hpolling⟩
      · obtain ⟨y, hpoller⟩ := h.polled x a ha hwas hwhole
        exact ⟨y, hpoller.kept hturn.calls hc fun hpc => absurd hpc hidle⟩
      · exact ⟨id, d, hturn.calls ▸ Function.update_self .., hturn.job.trans hjob, hpolling,
          by rw [hturn.at_]; exact hat⟩
    · obtain ⟨y, hpoller⟩ := h.polled x e hold hstate hdestroyed
      refine ⟨y, hpoller.kept hturn.calls hc fun _ => .inl fun heq => ?_⟩
      obtain ⟨f, hf, hjob, -⟩ := hpoller
      rw [heq] at hf
      obtain rfl := Option.some.inj (hf.symm.trans hc)
      have hwork := hturn.work
      rw [hjob] at hwork
      exact hne (Option.some.inj hwork)
  · rcases calls_cases hturn.calls he with ⟨rfl, rfl⟩ | ⟨-, hold⟩
    · rw [hturn.job, hturn.work] at hwork
      obtain rfl := Option.some.inj hwork
      exact ⟨b, hturn.works ▸ Function.update_self .., hturn.unwound hpc⟩
    · obtain ⟨f, hf, hgone⟩ := h.unwound x e y hold hwork hpc
      rw [hturn.works]
      by_cases hy : y = w
      · subst hy
        obtain rfl := Option.some.inj (hf.symm.trans ha)
        exact ⟨b, Function.update_self .., hturn.destroyed hgone⟩
      · exact ⟨f, (Function.update_of_ne hy ..).trans hf, hgone⟩

/-! ## The steps of the calls -/

theorem same_works (ha : s.works w = some a) : s.works = Function.update s.works w (some a) := by
  rw [← ha, Function.update_eq_self]

/-- Between its ends a call takes a turn; it may start a nested call, and it goes on when that is
done. -/
inductive Turns (s t : State) (id : Nat) (c d : Call) (w : Nat) (a b : Work) : Prop where
  | alone (h : Turn s t id c d w a b) (hcheck : c.pc ≠ .check true)
    (hawait : ∀ k e, c.pc = .await k → s.calls k = some e → e.pc = .done)
  | nested (k : Nat) (hfree : s.calls k = none) (hjob : c.job = .register w) (hd : d.pc = .await k)
    (hb : b = a) (h : Turn (s.put k (nested c w)) t id c d w a b)

theorem stepRegister_turns (hjob : c.job = .register w) (ha : s.works w = some a)
    (h : stepRegister s id c w a choice = some t) : ∃ d b, Turns s t id c d w a b := by
  unfold stepRegister at h
  split at h
  case h_1 hpc =>
    have hnowhere : ∀ k e, c.pc = .await k → s.calls k = some e → e.pc = .done := fun k e hk => by
      rw [hpc] at hk
      cases hk
    split at h <;> obtain rfl := Option.some.inj h
    · exact ⟨_, _, .alone { works := same_works ha } (by rw [hpc]; exact nofun) hnowhere⟩
    · refine ⟨_, _, .alone {
        waiters := fun x hx => ?_
        closed := fun hshut => if_pos hshut
        tasks := fun k hk => .inl (List.mem_cons_of_mem _ hk)
        tracking := .inr (.inr ⟨⟨rfl, List.mem_cons_self, ‹_›⟩, hjob, hpc, rfl⟩)
        watched := fun _ _ => .inr ⟨hjob, rfl, fun hopen => ⟨rfl, ?_⟩⟩ }
          (by rw [hpc]; exact nofun) hnowhere⟩
      · show x ∈ if s.shutdown then s.waiters else s.waiters ++ [(id, w)]
        split
        · exact hx
        · exact List.mem_append_left _ hx
      · show (id, w) ∈ if s.shutdown then s.waiters else s.waiters ++ [(id, w)]
        rw [hopen]
        exact List.mem_append_right _ List.mem_cons_self
  case h_2 closed hpc =>
    split at h
    · split at h
      · split at h
        case isTrue hfree =>
          obtain rfl := Option.some.inj h
          exact ⟨_, _, .nested _ hfree hjob rfl rfl { works := same_works ha }⟩
        case isFalse => cases h
      · cases h
    case isFalse hopen =>
      obtain rfl := Option.some.inj h
      refine ⟨_, _, .alone { works := same_works ha } (fun hcheck => hopen ?_) ?_⟩
      · rw [Pc.check.inj (hpc.symm.trans hcheck)]
        rfl
      · intro k e hk
        rw [hpc] at hk
        cases hk
  case h_3 k hpc =>
    split at h
    case h_1 e he =>
      split at h
      case isTrue hdone =>
        obtain rfl := Option.some.inj h
        refine ⟨_, _, .alone { works := same_works ha } (by rw [hpc]; exact nofun) ?_⟩
        intro k' e' hk' he'
        obtain rfl := Pc.await.inj (hpc.symm.trans hk')
        obtain rfl := Option.some.inj (he.symm.trans he')
        exact hdone
      case isFalse => cases h
    case h_2 => cases h
  case h_4 => cases h

theorem stepCancel_turn {reason : Reason} (hjob : c.job = .cancel w reason)
    (ha : s.works w = some a) (h : stepCancel s id c w a reason = some t) :
    ∃ d b, Turn s t id c d w a b := by
  unfold stepCancel at h
  split at h
  · obtain rfl := Option.some.inj h
    refine ⟨_, _, { works := same_works ha, upcoming := fun r hr => ?_ }⟩
    obtain rfl := Option.some.inj hr
    cases hsource : a.source with
    | some r => exact .inl rfl
    | none => exact .inr hjob
  · split at h <;> obtain rfl := Option.some.inj h
    · exact ⟨_, _, {}⟩
    case h_2 reason hpc _ cancellation hstate =>
      refine ⟨_, _, { given := fun r hr => ?_ }⟩
      rw [hstate, hpc]
      obtain rfl := Option.some.inj hr
      cases cancellation with
      | some r => exact .inl rfl
      | none => exact .inr (.inr (.inr ⟨rfl, rfl⟩))
    · exact ⟨_, _, { works := same_works ha }⟩
    · exact ⟨_, _, { works := same_works ha }⟩
  · cases h

theorem stepPoll_turn (hjob : c.job = .poll w) (ha : s.works w = some a)
    (hunwound : c.pc = .unwound → a.destroyed = true)
    (h : stepPoll s id c w a choice = some t) : ∃ d b, Turn s t id c d w a b := by
  unfold stepPoll at h
  split at h
  · split at h
    · obtain rfl := Option.some.inj h
      exact ⟨_, _, {}⟩
    · obtain rfl := Option.some.inj h
      exact ⟨_, _, { works := same_works ha }⟩
    · obtain rfl := Option.some.inj h
      exact ⟨_, _, { works := same_works ha }⟩
    · cases h
  · split at h
    case h_1 cancellation hstate =>
      -- The poll ends for the reason that the scope has, or because the cache has closed.
      have hreason : ∀ reason, (cancellation.or (if s.closing then some Reason.cacheShutdown else none))
          = some reason → given a.state = some reason ∨ reason = .cacheShutdown := by
        intro reason hor
        rw [hstate]
        cases cancellation with
        | some r => exact .inl hor
        | none =>
          rw [Option.none_or] at hor
          split at hor
          · exact .inr (Option.some.inj hor).symm
          · cases hor
      dsimp only at h
      split at h
      case h_1 | h_4 | h_5 =>
        obtain rfl := Option.some.inj h
        exact ⟨_, _, {}⟩
      case h_2 | h_3 =>
        obtain rfl := Option.some.inj h
        refine ⟨_, _, { given := fun r hr => ?_ }⟩
        obtain rfl := Option.some.inj hr
        exact (hreason _ ‹_›).imp_right .inl
      case h_6 => cases h
    case h_2 => cases h
  · split at h
    case h_1 cancellation hstate =>
      obtain rfl := Option.some.inj h
      refine ⟨_, _, { asked := fun r hr => List.mem_cons_of_mem _ hr, given := fun r hr => ?_ }⟩
      rw [hstate]
      obtain rfl := Option.some.inj hr
      cases cancellation with
      | some r => exact .inl rfl
      | none => exact .inr (.inr (.inl List.mem_cons_self))
    case h_2 => cases h
  · cases h

theorem stepRetire_turn (hwork : c.job.work = some w) (ha : s.works w = some a)
    (h : stepRetire s id c w a = some t) : ∃ d b, Turn s t id c d w a b := by
  unfold stepRetire at h
  split at h
  · split at h <;> obtain rfl := Option.some.inj h
    case isTrue hterminal =>
      exact ⟨_, _, { work := hwork, works := same_works ha, takes := fun _ => hterminal }⟩
    case isFalse => exact ⟨_, _, { work := hwork, works := same_works ha }⟩
  · obtain rfl := Option.some.inj h
    exact ⟨_, _, { work := hwork, tracking := .inr (.inl rfl) }⟩
  · obtain rfl := Option.some.inj h
    exact ⟨_, _, { work := hwork, works := same_works ha }⟩
  case h_4 last work token recorded hpc =>
    obtain rfl := Option.some.inj h
    refine ⟨_, _, { work := hwork, source := fun r hr => ?_ }⟩
    rw [hpc]
    exact (Option.or_eq_some_iff.mp hr).imp_right And.right
  · obtain rfl := Option.some.inj h
    exact ⟨_, _, { work := hwork }⟩
  case h_6 last k hpc =>
    obtain rfl := Option.some.inj h
    refine ⟨_, _, { work := hwork, works := same_works ha, tasks := fun x hx => ?_ }⟩
    by_cases hxk : x = k
    · rw [hpc, hxk]
      exact .inr rfl
    · exact .inl ((List.mem_erase_of_ne hxk).mpr hx)
  case h_7 last hpc =>
    obtain rfl := Option.some.inj h
    cases last
    · exact ⟨_, _, { work := hwork, works := same_works ha }⟩
    · exact ⟨_, _, { work := hwork, works := same_works ha }⟩
  case h_8 => cases h

/-- A step of a call that has nothing in hand and leaves the works alone. -/
structure Aside (s t : State) (id : Nat) (c d : Call) : Prop where
  calls : t.calls = Function.update s.calls id (some d) := by rfl
  works : t.works = s.works := by rfl
  tasks : t.tasks = s.tasks := by rfl
  job : d.job = c.job := by rfl
  early : c.pc.early = false → d.pc.early = false := by simp [Pc.early, *]
  holds : c.pc.holds = false := by simp [Pc.holds, *]
  polls : c.pc ≠ .polling := by simp [*]
  token : d.pc.token = none := by rfl
  takes : d.pc.takes = false := by rfl
  unwound : d.pc ≠ .unwound := by simp
  upcoming : d.pc.upcoming = none := by rfl
  recorded : d.pc.recorded = none := by rfl

/-- The call is not one that others wait for or that the shutdown has set to work. -/
def Pc.watches : Pc → Bool
  | .check _ | .await _ | .shutdown | .wake _ | .pop => true
  | _ => false

/-- A step about the activity of a call only. -/
structure Apart (s t : State) (id : Nat) (c d : Call) : Prop extends Aside s t id c d where
  closing : t.closing = s.closing := by rfl
  shutdown : t.shutdown = s.shutdown := by rfl
  waiters : t.waiters = s.waiters := by rfl
  cancelled : t.cancelled = s.cancelled := by rfl
  watches : c.pc.watches = false := by simp [Pc.watches, *]
  before : ∀ x r, c.job = .cancel x r → c.pc.before = true → d.pc.before = true := by
    simp [Pc.before, *]
  shuts : d.pc ≠ .shutdown := by simp [*]

theorem Tracked.aside (h : Tracked s) (hc : s.calls id = some c) (haside : Aside s t id c d) :
    Tracked t := by
  have hkept : ∀ {x k}, Registrar s x k → Registrar t x k := fun hreg =>
    hreg.kept haside.calls hc haside.job haside.early
  refine ⟨fun x e k he hk => ?_, fun x e k he hk => ?_, fun x e y he hwork htakes => ?_,
    fun x e he => h.registered x e (haside.works ▸ he), fun x e he hstate hdestroyed => ?_,
    fun x e he hstate hdestroyed => ?_, fun x e y he hwork hpc => ?_⟩
  · rw [haside.works] at he
    obtain ⟨hin, hreg⟩ := h.counted x e k he hk
    exact ⟨haside.tasks ▸ hin, hkept hreg⟩
  · rcases calls_cases haside.calls he with ⟨rfl, rfl⟩ | ⟨-, hold⟩
    · rw [haside.token] at hk
      cases hk
    · obtain ⟨⟨y, hreg⟩, hno⟩ := h.hand x e k hold hk
      exact ⟨⟨y, hkept hreg⟩, fun z f hf => hno z f (haside.works ▸ hf)⟩
  · rw [haside.works]
    rcases calls_cases haside.calls he with ⟨rfl, rfl⟩ | ⟨-, hold⟩
    · rw [haside.takes] at htakes
      cases htakes
    · exact h.taking x e y hold hwork htakes
  · rw [haside.works] at he
    obtain ⟨y, hholder⟩ := h.ended x e he hstate hdestroyed
    refine ⟨y, hholder.kept haside.calls hc fun _ _ hholds => ?_⟩
    rw [haside.holds] at hholds
    cases hholds
  · rw [haside.works] at he
    obtain ⟨y, hpoller⟩ := h.polled x e he hstate hdestroyed
    exact ⟨y, hpoller.kept haside.calls hc fun hpc => absurd hpc haside.polls⟩
  · rw [haside.works]
    rcases calls_cases haside.calls he with ⟨rfl, rfl⟩ | ⟨-, hold⟩
    · exact absurd hpc haside.unwound
    · exact h.unwound x e y hold hwork hpc

/-- A call begins. -/
structure Begun (s : State) (id : Nat) (c : Call) : Prop where
  free : s.calls id = none
  token : c.pc.token = none := by rfl
  takes : c.pc.takes = false := by rfl
  unwound : c.pc ≠ .unwound := by simp
  upcoming : c.pc.upcoming = none := by rfl
  recorded : c.pc.recorded = none := by rfl

theorem Tracked.begin_ (h : Tracked s) (hbegun : Begun s id c) : Tracked (s.put id c) := by
  have hkept : ∀ {x e}, s.calls x = some e → (s.put id c).calls x = some e := fun {x e} he => by
    rw [State.put_of_ne fun hx => by rw [hx, hbegun.free] at he; cases he]
    exact he
  refine ⟨fun x e k he hk => ?_, fun x e k he hk => ?_, fun x e y he hwork htakes => ?_,
    h.registered, fun x e he hstate hdestroyed => ?_, fun x e he hstate hdestroyed => ?_,
    fun x e y he hwork hpc => ?_⟩
  · obtain ⟨hin, f, hf, hreg⟩ := h.counted x e k he hk
    exact ⟨hin, f, hkept hf, hreg⟩
  · rcases calls_cases rfl he with ⟨rfl, rfl⟩ | ⟨-, hold⟩
    · rw [hbegun.token] at hk
      cases hk
    · obtain ⟨⟨y, f, hf, hreg⟩, hno⟩ := h.hand x e k hold hk
      exact ⟨⟨y, f, hkept hf, hreg⟩, hno⟩
  · rcases calls_cases rfl he with ⟨rfl, rfl⟩ | ⟨-, hold⟩
    · rw [hbegun.takes] at htakes
      cases htakes
    · exact h.taking x e y hold hwork htakes
  · obtain ⟨y, f, hf, hholder⟩ := h.ended x e he hstate hdestroyed
    exact ⟨y, f, hkept hf, hholder⟩
  · obtain ⟨y, f, hf, hpoller⟩ := h.polled x e he hstate hdestroyed
    exact ⟨y, f, hkept hf, hpoller⟩
  · rcases calls_cases rfl he with ⟨rfl, rfl⟩ | ⟨-, hold⟩
    · exact absurd hpc hbegun.unwound
    · exact h.unwound x e y hold hwork hpc

/-- A work is created, or something is noted about it. -/
structure Noted (s : State) (w : Nat) (b : Work) : Prop where
  tracking : ∀ k, b.tracking = some k → ∃ a, s.works w = some a ∧ a.tracking = some k
  state : (∀ a, s.works w = some a → b.state = a.state ∧ b.destroyed = a.destroyed) ∧
    (s.works w = none → b.state = .pending)
  registered : b.registered = true → ∃ a, s.works w = some a ∧ a.registered = true ∧
    b.tracking = a.tracking
  kept : ∀ a, s.works w = some a → b.tracking = a.tracking

theorem Tracked.noted (h : Tracked s) (hnoted : Noted s w b) : Tracked (s.setWork w b) := by
  -- What is seen of a work was there before, or the work is new and pending.
  have hstate : ∀ x e, (s.setWork w b).works x = some e →
      (∃ a, s.works x = some a ∧ e.state = a.state ∧ e.destroyed = a.destroyed) ∨
        e.state = .pending := by
    intro x e he
    rcases works_cases rfl he with ⟨rfl, rfl⟩ | ⟨-, hold⟩
    · cases hbefore : s.works x with
      | none => exact .inr (hnoted.state.2 hbefore)
      | some a => exact .inl ⟨a, rfl, hnoted.state.1 a hbefore⟩
    · exact .inl ⟨e, hold, rfl, rfl⟩
  have hsame : ∀ y f, s.works y = some f → ∃ g, (s.setWork w b).works y = some g ∧
      g.state = f.state ∧ g.destroyed = f.destroyed := by
    intro y f hf
    by_cases hy : y = w
    · subst hy
      exact ⟨b, State.setWork_self, hnoted.state.1 f hf⟩
    · exact ⟨f, (State.setWork_of_ne hy).trans hf, rfl, rfl⟩
  refine ⟨fun x e k he hk => ?_, fun x e k he hk => ?_, fun x e y he hwork htakes => ?_,
    fun x e he hregistered hopen => ?_, fun x e he hterminal hdestroyed => ?_,
    fun x e he hpolling hdestroyed => ?_, fun x e y he hwork hpc => ?_⟩
  · rcases works_cases rfl he with ⟨rfl, rfl⟩ | ⟨-, hold⟩
    · obtain ⟨a, ha, hbefore⟩ := hnoted.tracking k hk
      exact h.counted x a k ha hbefore
    · exact h.counted x e k hold hk
  · obtain ⟨hreg, hno⟩ := h.hand x e k he hk
    refine ⟨hreg, fun z f hf htracking => ?_⟩
    rcases works_cases rfl hf with ⟨rfl, rfl⟩ | ⟨-, hold⟩
    · obtain ⟨a, ha, hbefore⟩ := hnoted.tracking k htracking
      exact hno z a ha hbefore
    · exact hno z f hold htracking
  · obtain ⟨f, hf, hterminal⟩ := h.taking x e y he hwork htakes
    obtain ⟨g, hg, hkept, -⟩ := hsame y f hf
    exact ⟨g, hg, hkept ▸ hterminal⟩
  · rcases works_cases rfl he with ⟨rfl, rfl⟩ | ⟨-, hold⟩
    · obtain ⟨a, ha, hbefore, htracking⟩ := hnoted.registered hregistered
      rw [htracking]
      refine h.registered x a ha hbefore ?_
      rw [← (hnoted.state.1 a ha).1]
      exact hopen
    · exact h.registered x e hold hregistered hopen
  · rcases hstate x e he with ⟨a, ha, hkept, hgone⟩ | hpending
    · exact h.ended x a ha (hkept ▸ hterminal) (hgone ▸ hdestroyed)
    · rw [hpending] at hterminal
      cases hterminal
  · rcases hstate x e he with ⟨a, ha, hkept, hgone⟩ | hpending
    · exact h.polled x a ha (hkept ▸ hpolling) (hgone ▸ hdestroyed)
    · rw [hpending] at hpolling
      cases hpolling
  · obtain ⟨f, hf, hgone⟩ := h.unwound x e y he hwork hpc
    obtain ⟨g, hg, -, hkept⟩ := hsame y f hf
    exact ⟨g, hg, hkept ▸ hgone⟩

theorem stepReserve_apart (h : stepReserve s id c = some t) : ∃ d, Apart s t id c d := by
  unfold stepReserve at h
  dsimp only at h
  split at h
  · split at h
    · obtain rfl := Option.some.inj h
      exact ⟨_, {}⟩
    · split at h <;> obtain rfl := Option.some.inj h <;> exact ⟨_, {}⟩
  · split at h <;> obtain rfl := Option.some.inj h <;> exact ⟨_, {}⟩
  · split at h
    · obtain rfl := Option.some.inj h
      exact ⟨_, {}⟩
    · cases h
  case h_4 | h_5 =>
    obtain rfl := Option.some.inj h
    refine ⟨{ c with pc := c.job.entry, at_ := _ }, {
      token := ?_
      takes := ?_
      unwound := ?_
      upcoming := ?_
      recorded := ?_
      shuts := ?_
      before := fun x r hjob _ => by rw [hjob]; rfl }⟩ <;>
    dsimp only <;> cases c.job <;> first | rfl | exact nofun
  case h_6 => cases h

theorem stepLeave_apart {slot : Slot} (h : stepLeave s id c slot = some t) :
    ∃ d, Apart s t id c d := by
  unfold stepLeave at h
  split at h
  · split at h
    · obtain rfl := Option.some.inj h
      exact ⟨_, {}⟩
    · split at h
      · obtain rfl := Option.some.inj h
        exact ⟨_, {}⟩
      · cases h
  · obtain rfl := Option.some.inj h
    exact ⟨_, {}⟩
  · cases h

theorem Turn.turns (h : Turn s t id c d w a b) (hcheck : ∀ closed, c.pc ≠ .check closed)
    (hawait : ∀ k, c.pc ≠ .await k) : Turns s t id c d w a b :=
  .alone h (hcheck true) fun k _ hk => absurd hk (hawait k)

/-- What a call does between its ends. -/
inductive Body (s t : State) (id : Nat) (c : Call) (choice : Choice) : Prop where
  | permit (d : Call) (hjob : c.job ≠ .close) (h : Apart s t id c d)
  | turns (d : Call) (w : Nat) (a b : Work) (ha : s.works w = some a) (h : Turns s t id c d w a b)
  | close (hjob : c.job = .close) (h : stepClose s id c choice = some t)

theorem stepBody_cases (h : Tracked s) (hc : s.calls id = some c)
    (hstep : stepBody s id c choice = some t) : Body s t id c choice := by
  have hretire : ∀ {w a}, c.job.work = some w → s.works w = some a → c.pc.retiring = true →
      stepRetire s id c w a = some t → Body s t id c choice := by
    intro w a hwork ha hretiring hr
    obtain ⟨d, b, hturn⟩ := stepRetire_turn hwork ha hr
    refine .turns d w a b ha (hturn.turns ?_ ?_) <;>
    · intro _ hpc
      rw [hpc] at hretiring
      cases hretiring
  unfold stepBody at hstep
  split at hstep
  case h_1 hjob | h_2 hjob =>
    have hclose : c.job ≠ .close := by
      rw [hjob]
      exact nofun
    split at hstep
    case isTrue hpc =>
      split at hstep <;> obtain rfl := Option.some.inj hstep
      · exact .permit _ hclose {
          token := by rw [hpc]; rfl
          takes := by rw [hpc]; rfl
          unwound := by rw [hpc]; exact nofun
          upcoming := by rw [hpc]; rfl
          recorded := by rw [hpc]; rfl }
      · exact .permit _ hclose {}
    case isFalse => cases hstep
  case h_3 w hjob =>
    obtain ⟨a, ha, hstep⟩ := Option.bind_eq_some_iff.mp hstep
    split at hstep
    case isTrue hretiring => exact hretire (by rw [hjob]; rfl) ha hretiring hstep
    case isFalse =>
      obtain ⟨d, b, hturns⟩ := stepRegister_turns hjob ha hstep
      exact .turns d w a b ha hturns
  case h_4 w reason hjob =>
    obtain ⟨a, ha, hstep⟩ := Option.bind_eq_some_iff.mp hstep
    split at hstep
    case isTrue hretiring => exact hretire (by rw [hjob]; rfl) ha hretiring hstep
    case isFalse =>
      obtain ⟨d, b, hturn⟩ := stepCancel_turn hjob ha hstep
      refine .turns d w a b ha (hturn.turns ?_ ?_) <;>
      · intro _ hpc
        unfold stepCancel at hstep
        rw [hpc] at hstep
        cases hstep
  case h_5 w hjob =>
    obtain ⟨a, ha, hstep⟩ := Option.bind_eq_some_iff.mp hstep
    split at hstep
    case isTrue hretiring => exact hretire (by rw [hjob]; rfl) ha hretiring hstep
    case isFalse =>
      have hunwound : c.pc = .unwound → a.destroyed = true := fun hpc => by
        obtain ⟨f, hf, hgone⟩ := h.unwound id c w hc (by rw [hjob]; rfl) hpc
        obtain rfl := Option.some.inj (hf.symm.trans ha)
        exact hgone
      obtain ⟨d, b, hturn⟩ := stepPoll_turn hjob ha hunwound hstep
      refine .turns d w a b ha (hturn.turns ?_ ?_) <;>
      · intro _ hpc
        unfold stepPoll at hstep
        rw [hpc] at hstep
        cases hstep
  case h_6 hjob => exact .close hjob hstep

/-- What a step of a call does to the works. -/
inductive Did (s t : State) (id : Nat) (c d : Call) : Prop where
  | aside (h : Aside s t id c d)
  | nested (k w : Nat) (hfree : s.calls k = none) (h : Aside (s.put k (nested c w)) t id c d)
  | turns (w : Nat) (a b : Work) (ha : s.works w = some a) (hat : c.at_ ≠ none)
    (h : Turns s t id c d w a b)

theorem stepClose_did (h : stepClose s id c choice = some t) : ∃ d, Did s t id c d := by
  unfold stepClose at h
  split at h
  · obtain rfl := Option.some.inj h
    exact ⟨_, .aside {}⟩
  · obtain rfl := Option.some.inj h
    exact ⟨_, .aside {}⟩
  · obtain rfl := Option.some.inj h
    exact ⟨_, .aside {}⟩
  · obtain rfl := Option.some.inj h
    exact ⟨_, .aside {}⟩
  · split at h
    · obtain rfl := Option.some.inj h
      exact ⟨_, .aside {}⟩
    · split at h
      · split at h
        case isTrue hfree =>
          obtain rfl := Option.some.inj h
          exact ⟨_, .nested _ _ hfree {}⟩
        case isFalse => cases h
      · cases h
  · split at h
    · split at h
      · obtain rfl := Option.some.inj h
        exact ⟨_, .aside {}⟩
      · cases h
    · cases h
  · cases h

theorem stepCall_did (h : Tracked s) (hc : s.calls id = some c)
    (hstep : stepCall s id c choice = some t) : ∃ d, Did s t id c d := by
  rcases stepCall_cases hstep with ⟨-, hreserve⟩ | ⟨slot, hat, hleave | hbody⟩
  · obtain ⟨d, hapart⟩ := stepReserve_apart hreserve
    exact ⟨d, .aside hapart.toAside⟩
  · obtain ⟨d, hapart⟩ := stepLeave_apart hleave
    exact ⟨d, .aside hapart.toAside⟩
  · cases stepBody_cases h hc hbody with
    | permit d hjob hapart => exact ⟨d, .aside hapart.toAside⟩
    | turns d w a b ha hturns => exact ⟨d, .turns w a b ha (by rw [hat]; exact nofun) hturns⟩
    | close hjob hclose => exact stepClose_did hclose

theorem Begun.nested (hfree : s.calls id = none) : Begun s id (nested c w) where
  free := hfree
  unwound := nofun

theorem Tracked.did (h : Tracked s) (hc : s.calls id = some c) (hdid : Did s t id c d) :
    Tracked t := by
  have hstays : ∀ {k w}, s.calls k = none → (s.put k (nested c w)).calls id = some c :=
    fun {k w} hfree => by
      rw [State.put_of_ne fun heq => by rw [heq, hfree] at hc; cases hc]
      exact hc
  cases hdid with
  | aside haside => exact h.aside hc haside
  | nested k w hfree haside => exact (h.begin_ (Begun.nested hfree)).aside (hstays hfree) haside
  | turns w a b ha hat hturns =>
    cases hturns with
    | alone hturn => exact h.turn hc hat ha hturn
    | nested k hfree hjob hd hb hturn =>
      exact (h.begin_ (Begun.nested hfree)).turn (hstays hfree) hat ha hturn

/-- Neither a call nor a work is touched. -/
theorem Tracked.elsewhere (h : Tracked s) (hcalls : t.calls = s.calls) (hworks : t.works = s.works)
    (htasks : t.tasks = s.tasks) : Tracked t := by
  have hregistrar : ∀ {x k}, Registrar s x k → Registrar t x k := fun ⟨e, he, hreg⟩ =>
    ⟨e, hcalls ▸ he, hreg⟩
  refine ⟨fun x e k he hk => ?_, fun x e k he hk => ?_, fun x e y he hwork htakes => ?_,
    fun x e he => h.registered x e (hworks ▸ he), fun x e he hstate hdestroyed => ?_,
    fun x e he hstate hdestroyed => ?_, fun x e y he hwork hpc => ?_⟩
  · obtain ⟨hin, hreg⟩ := h.counted x e k (hworks ▸ he) hk
    exact ⟨htasks ▸ hin, hregistrar hreg⟩
  · obtain ⟨⟨y, hreg⟩, hno⟩ := h.hand x e k (hcalls ▸ he) hk
    exact ⟨⟨y, hregistrar hreg⟩, fun z f hf => hno z f (hworks ▸ hf)⟩
  · rw [hworks]
    exact h.taking x e y (hcalls ▸ he) hwork htakes
  · obtain ⟨y, f, hf, hholder⟩ := h.ended x e (hworks ▸ he) hstate hdestroyed
    exact ⟨y, f, hcalls ▸ hf, hholder⟩
  · obtain ⟨y, f, hf, hpoller⟩ := h.polled x e (hworks ▸ he) hstate hdestroyed
    exact ⟨y, f, hcalls ▸ hf, hpoller⟩
  · rw [hworks]
    exact h.unwound x e y (hcalls ▸ he) hwork hpc

/-- A call that begins is about to reserve its activity. -/
theorem Begun.first {thread : Nat} {job : Job} (hfree : s.calls id = none) :
    Begun s id { thread, job, pc := if job = .owned then .add else .owner } where
  free := hfree
  token := by dsimp only; split <;> rfl
  takes := by dsimp only; split <;> rfl
  unwound := by dsimp only; split <;> exact nofun
  upcoming := by dsimp only; split <;> rfl
  recorded := by dsimp only; split <;> rfl

theorem Noted.ask (ha : s.works w = some a) (b : Work) (hstate : b.state = a.state)
    (hdestroyed : b.destroyed = a.destroyed) (htracking : b.tracking = a.tracking)
    (hregistered : b.registered = a.registered) : Noted s w b where
  tracking := fun k hk => ⟨a, ha, htracking ▸ hk⟩
  state := ⟨fun e he => by
    obtain rfl := Option.some.inj (he.symm.trans ha)
    exact ⟨hstate, hdestroyed⟩, fun hnone => absurd (hnone.symm.trans ha) nofun⟩
  registered := fun hb => ⟨a, ha, hregistered ▸ hb, htracking⟩
  kept := fun e he => by
    obtain rfl := Option.some.inj (he.symm.trans ha)
    exact htracking

theorem Noted.new (hfree : s.works w = none) : Noted s w {} where
  tracking := nofun
  state := ⟨fun _ he => absurd (hfree.symm.trans he) nofun, fun _ => rfl⟩
  registered := nofun
  kept := fun _ he => absurd (hfree.symm.trans he) nofun

theorem Tracked.start (h : Tracked s) (hfree : s.calls id = none) {thread : Nat} {job : Job}
    (hstep : start s id thread job = some t) : Tracked t := by
  unfold Shutdown.start at hstep
  cases job with
  | inline | owned | close =>
    obtain rfl := Option.some.inj hstep
    exact h.begin_ (.first hfree)
  | register w | poll w =>
    obtain ⟨a, -, rfl⟩ := Option.map_eq_some_iff.mp hstep
    exact h.begin_ (.first hfree)
  | cancel w reason =>
    obtain ⟨a, ha, rfl⟩ := Option.map_eq_some_iff.mp hstep
    exact (h.noted (.ask ha { a with asked := reason :: a.asked } rfl rfl rfl rfl)).begin_ (.first hfree)

theorem stepDrain_same (h : stepDrain s = some t) : t.calls = s.calls ∧ t.works = s.works ∧
    t.tasks = s.tasks ∧ t.waiters = s.waiters ∧ t.cancelled = s.cancelled ∧ t.closing = s.closing ∧
    t.shutdown = s.shutdown := by
  unfold stepDrain at h
  repeat' split at h
  all_goals
    cases h
    try exact ⟨rfl, rfl, rfl, rfl, rfl, rfl, rfl⟩

theorem Tracked.next (h : Tracked s) {action : Action} (hstep : next s action = some t) :
    Tracked t := by
  cases action with
  | start id thread job =>
    unfold Shutdown.next at hstep
    dsimp only at hstep
    split at hstep
    case isTrue hfree => exact h.start hfree hstep
    case isFalse => cases hstep
  | step id choice =>
    obtain ⟨c, hc, hcall⟩ := Option.bind_eq_some_iff.mp hstep
    obtain ⟨d, hdid⟩ := stepCall_did h hc hcall
    exact h.did hc hdid
  | drain =>
    obtain ⟨hcalls, hworks, htasks, -⟩ := stepDrain_same hstep
    exact h.elsewhere hcalls hworks htasks
  | create w =>
    unfold Shutdown.next at hstep
    dsimp only at hstep
    split at hstep
    case isTrue hfree =>
      obtain rfl := Option.some.inj hstep
      exact h.noted (.new hfree)
    case isFalse => cases hstep
  | request w reason =>
    obtain ⟨a, ha, rfl⟩ := Option.map_eq_some_iff.mp hstep
    exact h.noted (.ask ha _ rfl rfl rfl rfl)

theorem Tracked.init : Tracked init where
  counted _ _ _ ha := nomatch ha
  hand _ _ _ hc := nomatch hc
  taking _ _ _ hc := nomatch hc
  registered _ _ ha := nomatch ha
  ended _ _ ha := nomatch ha
  polled _ _ ha := nomatch ha
  unwound _ _ _ hc := nomatch hc

theorem Tracked.run {actions : List Action}
    (hrun : Run.exec Shutdown.next Shutdown.init actions = some s) : Tracked s :=
  Run.exec_invariant (fun _ _ _ h hstep => h.next hstep) Tracked.init hrun

end Shutdown

end Amalgam
