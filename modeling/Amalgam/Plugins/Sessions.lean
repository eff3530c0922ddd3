import Amalgam.Plugins.Host

/-!
# Amalgam — leases and stops of a plugin session

The counter of a session is the number of its leases that are not dropped, its stop hook runs when
the stop was requested and no lease is left, and nobody gets a lease after that.

* **`Leased`** — the invariant.
* **`Leased.next`** — every step keeps it.
* **`next_grants`** — no step grants a lease of a session whose stop was requested.
-/

namespace Amalgam

namespace Plugins

variable {s t : State} {id k : Nat} {c d : Call} {a b : Session} {cont : Cont} {choice : Choice}

/-- The leases of a session that are not dropped. -/
def State.leased (s : State) (k : Nat) : Nat := s.leases.countP (·.2 = k)

def Cont.leases : Cont → List Nat
  | .drops leases => leases
  | _ => []

/-- The leases that a call has. -/
def Pc.leases : Pc → List Nat
  | .lease _ leases | .notify leases | .drops leases => leases
  | .prune cont | .scan _ cont | .observers cont | .listeners cont | .unlock cont | .stop _ cont
  | .hook _ cont | .settle _ _ cont => cont.leases
  | _ => []

/-- The session whose stop hook the call runs, and how often it ran then. -/
def Pc.stands : Pc → Option (Nat × Nat)
  | .hook k _ => some (k, 0)
  | .settle k _ _ => some (k, 1)
  | _ => none

def Pc.fails : Pc → Bool
  | .underflow | .unreachable => true
  | _ => false

theorem Cont.pc_leases (cont : Cont) : cont.pc.leases = cont.leases := by
  cases cont with
  | stops closing slots => cases slots <;> cases closing <;> rfl
  | waits slots => cases slots <;> rfl
  | _ => rfl

theorem Cont.pc_stands (cont : Cont) : cont.pc.stands = none := by
  cases cont with
  | stops closing slots => cases slots <;> cases closing <;> rfl
  | waits slots => cases slots <;> rfl
  | _ => rfl

theorem Cont.pc_fails (cont : Cont) : cont.pc.fails = false := by
  cases cont with
  | stops closing slots => cases slots <;> cases closing <;> rfl
  | waits slots => cases slots <;> rfl
  | _ => rfl

/-- What a session knows of its leases and of its stop. -/
def Session.Sound (a : Session) (leased : Nat) : Prop :=
  match a.state with
  | .running n => a.asked = false ∧ a.stops = 0 ∧ n = leased
  | .draining n => a.asked = true ∧ a.stops = 0 ∧ n = leased ∧ 0 < n
  | .stopping => a.asked = true ∧ leased = 0
  | .stopped _ => a.asked = true ∧ a.stops = 1 ∧ leased = 0

structure Leased (s : State) : Prop where
  sound : ∀ k a, s.sessions k = some a → a.Sound (s.leased k)
  known : ∀ p ∈ s.leases, s.sessions p.2 ≠ none
  held : ∀ x k, s.leases.count (x, k) = (s.calls x).elim 0 fun c => c.pc.leases.count k
  stands : ∀ x c k n, s.calls x = some c → c.pc.stands = some (k, n) →
    ∃ a, s.sessions k = some a ∧ a.state = .stopping ∧ a.stops = n
  unique : ∀ x y c d k n m, s.calls x = some c → s.calls y = some d →
    c.pc.stands = some (k, n) → d.pc.stands = some (k, m) → x = y
  stopping : ∀ k a, s.sessions k = some a → a.state = .stopping →
    ∃ x c n, s.calls x = some c ∧ c.pc.stands = some (k, n)
  fine : ∀ x c, s.calls x = some c → c.pc.fails = false

theorem calls_cases {calls : Nat → Option Call} {x : Nat} {e : Call}
    (he : Function.update calls id (some d) x = some e) :
    x = id ∧ e = d ∨ x ≠ id ∧ calls x = some e := by
  by_cases hx : x = id
  · subst hx
    rw [Function.update_self] at he
    exact .inl ⟨rfl, (Option.some.inj he).symm⟩
  · rw [Function.update_of_ne hx] at he
    exact .inr ⟨hx, he⟩

/-- A step that touches no session and no lease. -/
structure Aside (s t : State) (id : Nat) (c d : Call) : Prop where
  calls : t.calls = Function.update s.calls id (some d)
  sessions : t.sessions = s.sessions
  leases : t.leases = s.leases
  held : d.pc.leases = c.pc.leases
  before : c.pc.stands = none
  after : d.pc.stands = none
  fine : d.pc.fails = false

theorem Leased.aside (h : Leased s) (hc : s.calls id = some c) (hstep : Aside s t id c d) :
    Leased t := by
  have hleased : ∀ k, t.leased k = s.leased k := fun k => by
    unfold State.leased
    rw [hstep.leases]
  refine ⟨fun k a ha => ?_, fun p hp => ?_, fun x k => ?_, fun x e k n he hstands => ?_,
    fun x y e f k n m he hf hn hm => ?_, fun k a ha hstopping => ?_, fun x e he => ?_⟩
  · rw [hleased]
    exact h.sound k a (hstep.sessions ▸ ha)
  · rw [hstep.sessions]
    exact h.known p (hstep.leases ▸ hp)
  · rw [hstep.leases, h.held, hstep.calls]
    by_cases hx : x = id
    · rw [hx, hc, Function.update_self]
      exact congrArg (List.count k) hstep.held.symm
    · rw [Function.update_of_ne hx]
  · rw [hstep.calls] at he
    rw [hstep.sessions]
    rcases calls_cases he with ⟨-, rfl⟩ | ⟨-, hbefore⟩
    · exact absurd (hstep.after.symm.trans hstands) nofun
    · exact h.stands x e k n hbefore hstands
  · rw [hstep.calls] at he hf
    rcases calls_cases he with ⟨-, rfl⟩ | ⟨-, hbefore⟩
    · exact absurd (hstep.after.symm.trans hn) nofun
    · rcases calls_cases hf with ⟨-, rfl⟩ | ⟨-, hbefore'⟩
      · exact absurd (hstep.after.symm.trans hm) nofun
      · exact h.unique x y e f k n m hbefore hbefore' hn hm
  · obtain ⟨x, e, n, he, hstands⟩ := h.stopping k a (hstep.sessions ▸ ha) hstopping
    refine ⟨x, e, n, ?_, hstands⟩
    rw [hstep.calls, Function.update_of_ne ?_, he]
    rintro rfl
    obtain rfl := Option.some.inj (he.symm.trans hc)
    exact absurd (hstep.before.symm.trans hstands) nofun
  · rw [hstep.calls] at he
    rcases calls_cases he with ⟨-, rfl⟩ | ⟨-, hbefore⟩
    · exact hstep.fine
    · exact h.fine x e hbefore

/-- A step that touches one session. -/
structure Turn (s t : State) (id : Nat) (c d : Call) (k : Nat) (a b : Session) : Prop where
  calls : t.calls = Function.update s.calls id (some d)
  sessions : t.sessions = Function.update s.sessions k (some b)
  leases : ∀ x j, t.leases.count (x, j) =
    if x = id then d.pc.leases.count j else s.leases.count (x, j)
  others : ∀ j, j ≠ k → t.leased j = s.leased j
  sound : b.Sound (t.leased k)
  /-- A stop that somebody else is about is not touched. -/
  before : a.state = .stopping → c.pc.stands = none → b.state = .stopping ∧ b.stops = a.stops
  mine : ∀ j n, c.pc.stands = some (j, n) → j = k ∧
    (b.state = .stopping → ∃ m, d.pc.stands = some (k, m))
  after : ∀ j n, d.pc.stands = some (j, n) → j = k ∧ b.state = .stopping ∧ b.stops = n ∧
    (a.state ≠ .stopping ∨ c.pc.stands ≠ none)
  stopping : b.state = .stopping → (∃ n, d.pc.stands = some (k, n)) ∨ a.state = .stopping
  fine : d.pc.fails = false

theorem Leased.turn (h : Leased s) (hc : s.calls id = some c) (ha : s.sessions k = some a)
    (hstep : Turn s t id c d k a b) : Leased t := by
  -- Nobody else stands for the session when the call does, before or after.
  have halone : ∀ {x e n}, x ≠ id → s.calls x = some e → e.pc.stands = some (k, n) →
      c.pc.stands = none ∧ a.state = .stopping ∧ a.stops = n := by
    intro x e n hx he hstands
    obtain ⟨a', ha', hstopping, hstops⟩ := h.stands x e k n he hstands
    obtain rfl := Option.some.inj (ha'.symm.trans ha)
    refine ⟨?_, hstopping, hstops⟩
    cases hmine : c.pc.stands with
    | none => rfl
    | some p =>
      obtain ⟨rfl, -⟩ := hstep.mine p.1 p.2 hmine
      exact absurd (h.unique x id e c p.1 n p.2 he hc hstands hmine) hx
  have hquiet : ∀ {x e n m}, x ≠ id → s.calls x = some e → e.pc.stands = some (k, n) →
      d.pc.stands ≠ some (k, m) := by
    intro x e n m hx he hstands hmine
    obtain ⟨hnone, hstopping, -⟩ := halone hx he hstands
    rcases (hstep.after k m hmine).2.2.2 with hnot | hnot
    · exact hnot hstopping
    · exact hnot hnone
  refine ⟨fun j e he => ?_, fun p hp => ?_, fun x j => ?_, fun x e j n he hstands => ?_,
    fun x y e f j n m he hf hn hm => ?_, fun j e he hstopping => ?_, fun x e he => ?_⟩
  · rw [hstep.sessions] at he
    by_cases hj : j = k
    · rw [hj, Function.update_self] at he
      obtain rfl := Option.some.inj he
      rw [hj]
      exact hstep.sound
    · rw [Function.update_of_ne hj] at he
      rw [hstep.others j hj]
      exact h.sound j e he
  · rw [hstep.sessions]
    by_cases hj : p.2 = k
    · rw [hj, Function.update_self]
      exact nofun
    · rw [Function.update_of_ne hj]
      have hpos : 0 < s.leased p.2 := by
        rw [← hstep.others p.2 hj]
        exact List.countP_pos_iff.mpr ⟨p, hp, decide_eq_true rfl⟩
      obtain ⟨q, hq, hsame⟩ := List.countP_pos_iff.mp hpos
      exact of_decide_eq_true hsame ▸ h.known q hq
  · rw [hstep.leases, hstep.calls]
    by_cases hx : x = id
    · rw [if_pos hx, hx, Function.update_self]
      rfl
    · rw [if_neg hx, Function.update_of_ne hx]
      exact h.held x j
  · rw [hstep.calls] at he
    rw [hstep.sessions]
    rcases calls_cases he with ⟨-, rfl⟩ | ⟨hx, hbefore⟩
    · obtain ⟨rfl, hstopping, hstops, -⟩ := hstep.after j n hstands
      exact ⟨b, Function.update_self .., hstopping, hstops⟩
    · by_cases hj : j = k
      · subst hj
        obtain ⟨hnone, hstopping, rfl⟩ := halone hx hbefore hstands
        exact ⟨b, Function.update_self .., hstep.before hstopping hnone⟩
      · rw [Function.update_of_ne hj]
        exact h.stands x e j n hbefore hstands
  · rw [hstep.calls] at he hf
    rcases calls_cases he with ⟨rfl, rfl⟩ | ⟨hx, hbefore⟩ <;>
    rcases calls_cases hf with ⟨rfl, rfl⟩ | ⟨hy, hbefore'⟩
    · rfl
    · obtain ⟨rfl, -⟩ := hstep.after j n hn
      exact absurd hn (hquiet hy hbefore' hm)
    · obtain ⟨rfl, -⟩ := hstep.after j m hm
      exact absurd hm (hquiet hx hbefore hn)
    · exact h.unique x y e f j n m hbefore hbefore' hn hm
  · rw [hstep.sessions] at he
    have hkept : ∀ {x e n}, x ≠ id → s.calls x = some e → e.pc.stands = some (j, n) →
        ∃ x c n, t.calls x = some c ∧ c.pc.stands = some (j, n) := fun hx he hn =>
      ⟨_, _, _, by rw [hstep.calls, Function.update_of_ne hx, he], hn⟩
    by_cases hj : j = k
    · subst hj
      rw [Function.update_self] at he
      obtain rfl := Option.some.inj he
      have hself : ∀ {n}, d.pc.stands = some (j, n) →
          ∃ x c n, t.calls x = some c ∧ c.pc.stands = some (j, n) := fun hn =>
        ⟨id, d, _, by rw [hstep.calls, Function.update_self], hn⟩
      rcases hstep.stopping hstopping with ⟨n, hn⟩ | hwas
      · exact hself hn
      · obtain ⟨x, e, n, he, hn⟩ := h.stopping j a ha hwas
        by_cases hx : x = id
        · subst hx
          obtain rfl := Option.some.inj (he.symm.trans hc)
          obtain ⟨m, hm⟩ := (hstep.mine j n hn).2 hstopping
          exact hself hm
        · exact hkept hx he hn
    · rw [Function.update_of_ne hj] at he
      obtain ⟨x, f, n, hf, hn⟩ := h.stopping j e he hstopping
      refine hkept ?_ hf hn
      rintro rfl
      obtain rfl := Option.some.inj (hf.symm.trans hc)
      exact hj (hstep.mine j n hn).1
  · rw [hstep.calls] at he
    rcases calls_cases he with ⟨-, rfl⟩ | ⟨-, hbefore⟩
    · exact hstep.fine
    · exact h.fine x e hbefore

/-! ## The steps -/

/-- Which of the functions a step of a call is. -/
theorem stepCall_cases (h : stepCall s id c choice = some t) :
    stepAttach s id c choice = some t ∨ stepHost s id c = some t ∨ stepCapture s id c = some t ∨
      stepStop s id c choice = some t ∨ stepClose s id c choice = some t := by
  unfold stepCall at h
  split at h
  case h_9 | h_10 | h_11 | h_12 | h_13 => exact .inr (.inl h)
  case h_14 | h_15 | h_16 | h_17 | h_18 | h_19 => exact .inr (.inr (.inl h))
  case h_20 | h_21 | h_22 => exact .inr (.inr (.inr (.inl h)))
  case h_23 | h_24 | h_25 | h_26 | h_27 => exact .inr (.inr (.inr (.inr h)))
  case h_28 | h_29 | h_30 => cases h
  all_goals exact .inl h

theorem stepEnter_cases {job : Shutdown.Job} {pc : Pc}
    (h : stepEnter s id c job pc choice = some t) :
    ∃ k attachments, Shutdown.next s.attachments (.start k c.thread job) = some attachments ∧
      t = { s with attachments }.put id { c with pc, permit := some k } := by
  unfold stepEnter at h
  split at h
  · obtain ⟨attachments, hnext, rfl⟩ := Option.map_eq_some_iff.mp h
    exact ⟨_, attachments, hnext, rfl⟩
  · cases h

theorem stepPermit_cases {choice : Shutdown.Choice} {pc : Pc}
    (h : stepPermit s id c choice pc = some t) :
    ∃ k e attachments, c.permit = some k ∧ s.attachments.calls k = some e ∧ e.pc = .running ∧
      Shutdown.next s.attachments (.step k choice) = some attachments ∧
      t = { s with attachments }.goto id c pc := by
  unfold stepPermit at h
  split at h
  · rename_i hpc
    obtain ⟨k, hk, h⟩ := Option.bind_eq_some_iff.mp h
    obtain ⟨attachments, hnext, rfl⟩ := Option.map_eq_some_iff.mp h
    obtain ⟨j, hj, hpc⟩ := Option.bind_eq_some_iff.mp hpc
    obtain rfl := Option.some.inj (hj.symm.trans hk)
    obtain ⟨e, he, hrunning⟩ := Option.map_eq_some_iff.mp hpc
    exact ⟨j, e, attachments, hk, he, hrunning, hnext, rfl⟩
  · cases h

/-- The call goes on, and nothing of a session is touched. -/
theorem Leased.goes (h : Leased s) (hc : s.calls id = some c) (d : Call)
    (hcalls : t.calls = Function.update s.calls id (some d)) (hsessions : t.sessions = s.sessions)
    (hleases : t.leases = s.leases) (hheld : c.pc.leases = d.pc.leases)
    (hbefore : c.pc.stands = none) (hafter : d.pc.stands = none) (hfine : d.pc.fails = false) :
    Leased t :=
  h.aside hc ⟨hcalls, hsessions, hleases, hheld.symm, hbefore, hafter, hfine⟩

/-- The leases stay, and one session is touched. -/
theorem Leased.touch (h : Leased s) (hc : s.calls id = some c) (ha : s.sessions k = some a)
    (d : Call) (b : Session) (hcalls : t.calls = Function.update s.calls id (some d))
    (hsessions : t.sessions = Function.update s.sessions k (some b)) (hleases : t.leases = s.leases)
    (hheld : c.pc.leases = d.pc.leases) (hsound : b.Sound (s.leased k))
    (hbefore : a.state = .stopping → c.pc.stands = none → b.state = .stopping ∧ b.stops = a.stops)
    (hmine : ∀ j n, c.pc.stands = some (j, n) →
      j = k ∧ (b.state = .stopping → ∃ m, d.pc.stands = some (k, m)))
    (hafter : ∀ j n, d.pc.stands = some (j, n) → j = k ∧ b.state = .stopping ∧ b.stops = n ∧
      (a.state ≠ .stopping ∨ c.pc.stands ≠ none))
    (hstopping : b.state = .stopping → (∃ n, d.pc.stands = some (k, n)) ∨ a.state = .stopping)
    (hfine : d.pc.fails = false) : Leased t := by
  have hleased : ∀ j, t.leased j = s.leased j := fun j => by
    unfold State.leased
    rw [hleases]
  refine h.turn hc ha (d := d) (b := b) ⟨hcalls, hsessions, fun x j => ?_, fun j _ => hleased j, ?_,
    hbefore, hmine, hafter, hstopping, hfine⟩
  · rw [hleases]
    split
    case isTrue hx => rw [hx, h.held, hc, ← hheld]; rfl
    case isFalse => rfl
  · rw [hleased]
    exact hsound

/-- A session is touched that the call does not stop, and neither its state nor its stop changes. -/
theorem Leased.note (h : Leased s) (hc : s.calls id = some c) (ha : s.sessions k = some a)
    (d : Call) (b : Session) (hcalls : t.calls = Function.update s.calls id (some d))
    (hsessions : t.sessions = Function.update s.sessions k (some b)) (hleases : t.leases = s.leases)
    (hheld : c.pc.leases = d.pc.leases) (hstate : b.state = a.state) (hasked : b.asked = a.asked)
    (hstops : b.stops = a.stops) (hquiet : c.pc.stands = none) (hafter : d.pc.stands = none)
    (hfine : d.pc.fails = false) : Leased t := by
  refine h.touch hc ha d b hcalls hsessions hleases hheld ?_
    (fun hstopping _ => ⟨hstate.trans hstopping, hstops⟩)
    (fun j n hn => absurd (hquiet.symm.trans hn) nofun)
    (fun j n hn => absurd (hafter.symm.trans hn) nofun)
    (fun hstopping => .inr (hstate.symm.trans hstopping)) hfine
  have hsound := h.sound k a ha
  unfold Session.Sound at hsound ⊢
  rw [hstate, hasked, hstops]
  exact hsound

/-- A session that is new has no lease. -/
theorem Leased.fresh (h : Leased s) (hc : s.calls id = some c) (hfree : s.sessions k = none)
    (d : Call) (observing : Bool) (hheld : c.pc.leases = d.pc.leases) (hquiet : c.pc.stands = none)
    (hafter : d.pc.stands = none) (hfine : d.pc.fails = false) :
    Leased ((s.setSession k { observing }).put id d) := by
  have hzero : s.leased k = 0 := by
    refine List.countP_eq_zero.mpr fun p hp hsame => ?_
    exact h.known p hp (of_decide_eq_true hsame ▸ hfree)
  have hne : ∀ {j e}, s.sessions j = some e → j ≠ k := by
    rintro j e he rfl
    exact absurd (hfree.symm.trans he) nofun
  have hset : Leased (s.setSession k { observing }) := by
    refine ⟨fun j e he => ?_, fun p hp => ?_, h.held, fun x e j n he hn => ?_, h.unique,
      fun j e he hstopping => ?_, h.fine⟩
    · change Function.update s.sessions k (some { observing }) j = some e at he
      by_cases hj : j = k
      · subst hj
        rw [Function.update_self] at he
        obtain rfl := Option.some.inj he
        exact ⟨rfl, rfl, hzero.symm⟩
      · rw [Function.update_of_ne hj] at he
        exact h.sound j e he
    · show Function.update s.sessions k (some { observing }) p.2 ≠ none
      by_cases hj : p.2 = k
      · rw [hj, Function.update_self]
        exact nofun
      · rw [Function.update_of_ne hj]
        exact h.known p hp
    · obtain ⟨f, hf, hrest⟩ := h.stands x e j n he hn
      exact ⟨f, (Function.update_of_ne (hne hf) _ _).trans hf, hrest⟩
    · change Function.update s.sessions k (some { observing }) j = some e at he
      by_cases hj : j = k
      · subst hj
        rw [Function.update_self] at he
        obtain rfl := Option.some.inj he
        cases hstopping
      · rw [Function.update_of_ne hj] at he
        exact h.stopping j e he hstopping
  exact hset.goes hc d rfl rfl rfl hheld hquiet hafter hfine

theorem Purpose.pc_leases (purpose : Purpose) : purpose.pc.leases = [] := by cases purpose <;> rfl

theorem Purpose.pc_stands (purpose : Purpose) : purpose.pc.stands = none := by cases purpose <;> rfl

theorem Purpose.pc_fails (purpose : Purpose) : purpose.pc.fails = false := by cases purpose <;> rfl

theorem Leased.stepAttach (h : Leased s) (hc : s.calls id = some c)
    (hstep : stepAttach s id c choice = some t) : Leased t := by
  unfold Plugins.stepAttach at hstep
  split at hstep
  case h_1 purpose hpc =>
    obtain ⟨k, attachments, -, rfl⟩ := stepEnter_cases hstep
    exact h.goes hc _ rfl rfl rfl (by rw [hpc]; rfl) (by rw [hpc]; rfl) rfl rfl
  case h_2 purpose hpc =>
    obtain ⟨k, e, attachments, -, -, -, -, rfl⟩ := stepPermit_cases hstep
    refine h.goes hc _ rfl rfl rfl ?_ (by rw [hpc]; rfl) ?_ ?_
    · rw [hpc]
      split
      · rfl
      · exact purpose.pc_leases.symm
    · split
      · rfl
      · exact purpose.pc_stands
    · split
      · rfl
      · exact purpose.pc_fails
  case h_3 hpc =>
    split at hstep
    · split at hstep <;> obtain rfl := Option.some.inj hstep <;>
      exact h.goes hc _ rfl rfl rfl (by rw [hpc]; rfl) (by rw [hpc]; rfl) rfl rfl
    · cases hstep
  case h_4 hpc =>
    split at hstep
    · obtain rfl := Option.some.inj hstep
      exact h.goes hc _ rfl rfl rfl (by rw [hpc]; rfl) (by rw [hpc]; rfl) rfl rfl
    · split at hstep
      · rename_i hfree
        obtain rfl := Option.some.inj hstep
        exact h.fresh hc (Option.isNone_iff_eq_none.mp hfree) _ _ (by rw [hpc]; rfl)
          (by rw [hpc]; rfl)
          rfl rfl
      · cases hstep
    · cases hstep
  case h_5 k hpc =>
    split at hstep
    · obtain ⟨a, ha, rfl⟩ := Option.map_eq_some_iff.mp hstep
      refine h.note hc ha _ _ rfl rfl rfl ?_ rfl rfl rfl (by rw [hpc]; rfl) ?_ ?_ <;>
      cases s.host <;> first | rfl | rw [hpc]; rfl
    · cases hstep
  case h_6 k hpc =>
    split at hstep
    · obtain rfl := Option.some.inj hstep
      exact h.goes hc _ rfl rfl rfl (by rw [hpc]; rfl) (by rw [hpc]; rfl) rfl rfl
    · obtain ⟨a, ha, rfl⟩ := Option.map_eq_some_iff.mp hstep
      exact h.note hc ha _ _ rfl rfl rfl (by rw [hpc]; rfl) rfl rfl rfl (by rw [hpc]; rfl) rfl rfl
  case h_7 hpc =>
    obtain ⟨k, e, attachments, -, -, -, -, rfl⟩ := stepPermit_cases hstep
    exact h.goes hc _ rfl rfl rfl (by rw [hpc]; rfl) (by rw [hpc]; rfl) rfl rfl
  case h_8 hpc =>
    split at hstep
    · obtain rfl := Option.some.inj hstep
      exact h.goes hc _ rfl rfl rfl (by rw [hpc]; rfl) (by rw [hpc]; rfl) rfl rfl
    · cases hstep
  case h_9 => cases hstep

theorem Leased.stepHost (h : Leased s) (hc : s.calls id = some c)
    (hstep : stepHost s id c = some t) : Leased t := by
  unfold Plugins.stepHost at hstep
  split at hstep
  case h_1 cont hpc =>
    split at hstep
    · obtain rfl := Option.some.inj hstep
      exact h.goes hc _ rfl rfl rfl (by rw [hpc]; rfl) (by rw [hpc]; rfl) rfl rfl
    · cases hstep
  case h_2 index cont hpc =>
    split at hstep
    · split at hstep
      · have hheld : c.pc.leases = cont.leases := by rw [hpc]; rfl
        split at hstep <;> obtain rfl := Option.some.inj hstep <;>
        exact h.goes hc _ rfl rfl rfl hheld (by rw [hpc]; rfl) rfl rfl
      · obtain rfl := Option.some.inj hstep
        exact h.goes hc _ rfl rfl rfl (by rw [hpc]; rfl) (by rw [hpc]; rfl) rfl rfl
    · obtain rfl := Option.some.inj hstep
      exact h.goes hc _ rfl rfl rfl (by rw [hpc]; rfl) (by rw [hpc]; rfl) rfl rfl
  case h_3 cont hpc | h_4 cont hpc =>
    obtain rfl := Option.some.inj hstep
    exact h.goes hc _ rfl rfl rfl (by rw [hpc]; rfl) (by rw [hpc]; rfl) rfl rfl
  case h_5 cont hpc =>
    obtain rfl := Option.some.inj hstep
    exact h.goes hc _ rfl rfl rfl (by rw [hpc]; exact cont.pc_leases.symm) (by rw [hpc]; rfl)
      cont.pc_stands cont.pc_fails
  case h_6 => cases hstep

theorem Closing.cont_leases (closing : Closing) (slots : List Nat) :
    (closing.cont slots).leases = [] := by cases closing <;> rfl

theorem Leased.stepClose (h : Leased s) (hc : s.calls id = some c)
    (hstep : stepClose s id c choice = some t) : Leased t := by
  unfold Plugins.stepClose at hstep
  split at hstep
  case h_1 closing hpc =>
    obtain ⟨k, attachments, -, rfl⟩ := stepEnter_cases hstep
    exact h.goes hc _ rfl rfl rfl (by rw [hpc]; rfl) (by rw [hpc]; rfl) rfl rfl
  case h_2 closing hpc =>
    split at hstep
    · obtain rfl := Option.some.inj hstep
      exact h.goes hc _ rfl rfl rfl (by rw [hpc]; rfl) (by rw [hpc]; rfl) rfl rfl
    · cases hstep
  case h_3 closing hpc =>
    split at hstep
    · split at hstep <;> rename_i slots _ <;> obtain rfl := Option.some.inj hstep
      · exact h.goes hc _ rfl rfl rfl (by rw [hpc]; exact (closing.cont_leases slots).symm)
          (by rw [hpc]; rfl) rfl rfl
      · refine h.goes hc _ rfl rfl rfl ?_ (by rw [hpc]; rfl) (closing.cont slots).pc_stands
          (closing.cont slots).pc_fails
        rw [hpc]
        exact ((closing.cont slots).pc_leases.trans (closing.cont_leases slots)).symm
    · cases hstep
  case h_4 hpc =>
    split at hstep
    · obtain rfl := Option.some.inj hstep
      exact h.goes hc _ rfl rfl rfl (by rw [hpc]; rfl) (by rw [hpc]; rfl) rfl rfl
    · cases hstep
  case h_5 k slots hpc =>
    split at hstep
    · obtain rfl := Option.some.inj hstep
      exact h.goes hc _ rfl rfl rfl (by rw [hpc]; exact (Cont.pc_leases (.waits slots)).symm)
        (by rw [hpc]; rfl) (Cont.pc_stands _) (Cont.pc_fails _)
    · cases hstep
  case h_6 => cases hstep

theorem Leased.stepStop (h : Leased s) (hc : s.calls id = some c)
    (hstep : stepStop s id c choice = some t) : Leased t := by
  unfold Plugins.stepStop at hstep
  split at hstep
  case h_1 k cont hpc =>
    obtain ⟨a, ha, rfl⟩ := Option.map_eq_some_iff.mp hstep
    have hsound := h.sound k a ha
    have hquiet : c.pc.stands = none := by rw [hpc]; rfl
    have hheld : c.pc.leases = cont.pc.leases := by
      rw [hpc]
      exact cont.pc_leases.symm
    unfold Session.Sound at hsound
    split
    · -- No callback runs: the caller stops the session itself.
      rename_i hstate
      rw [hstate] at hsound
      refine h.touch hc ha _ { a with state := .stopping, asked := true } rfl rfl rfl ?_
        ⟨rfl, hsound.2.2.symm⟩ (fun _ _ => ?_) (fun j n hn => absurd (hquiet.symm.trans hn) nofun)
        (fun j n hn => ?_) (fun _ => .inl ⟨0, rfl⟩) rfl
      · rw [hpc]
        rfl
      · rename_i hstopping _
        exact absurd (hstate.symm.trans hstopping) nofun
      · obtain ⟨rfl, rfl⟩ := Prod.mk.inj (Option.some.inj hn)
        refine ⟨rfl, rfl, hsound.2.1, .inl ?_⟩
        rw [hstate]
        exact nofun
    · rename_i n hstate
      rw [hstate] at hsound
      refine h.touch hc ha _ { a with state := .draining (n + 1), asked := true } rfl rfl rfl hheld
        ⟨rfl, hsound.2.1, hsound.2.2, Nat.succ_pos n⟩ (fun hstopping _ => ?_)
        (fun j m hm => absurd (hquiet.symm.trans hm) nofun)
        (fun j m hm => absurd (cont.pc_stands.symm.trans hm) nofun) nofun cont.pc_fails
      exact absurd (hstate.symm.trans hstopping) nofun
    · exact h.goes hc _ rfl rfl rfl hheld hquiet cont.pc_stands cont.pc_fails
    · exact h.goes hc _ rfl rfl rfl hheld hquiet cont.pc_stands cont.pc_fails
    · exact h.goes hc _ rfl rfl rfl hheld hquiet cont.pc_stands cont.pc_fails
  case h_2 k cont hpc =>
    split at hstep
    · obtain ⟨a, ha, rfl⟩ := Option.map_eq_some_iff.mp hstep
      have hmine : c.pc.stands = some (k, 0) := by rw [hpc]; rfl
      obtain ⟨a', ha', hstate, hstops⟩ := h.stands id c k 0 hc hmine
      obtain rfl := Option.some.inj (ha'.symm.trans ha)
      have hsound := h.sound k a' ha
      refine h.touch hc ha _ { a' with stops := a'.stops + 1 } rfl rfl rfl ?_ ?_
        (fun _ hnone => absurd (hmine.symm.trans hnone) nofun) (fun j n hn => ?_) (fun j n hn => ?_)
        (fun _ => .inl ⟨1, rfl⟩) rfl
      · rw [hpc]
        rfl
      · unfold Session.Sound at hsound ⊢
        dsimp only
        rw [hstate] at hsound ⊢
        exact hsound
      · obtain ⟨rfl, -⟩ := Prod.mk.inj (Option.some.inj (hmine.symm.trans hn))
        exact ⟨rfl, fun _ => ⟨1, rfl⟩⟩
      · obtain ⟨rfl, rfl⟩ := Prod.mk.inj (Option.some.inj hn)
        refine ⟨rfl, hstate, congrArg (· + 1) hstops, .inr ?_⟩
        rw [hmine]
        exact nofun
    · cases hstep
  case h_3 k ok cont hpc =>
    obtain ⟨a, ha, rfl⟩ := Option.map_eq_some_iff.mp hstep
    have hmine : c.pc.stands = some (k, 1) := by rw [hpc]; rfl
    obtain ⟨a', ha', hstate, hstops⟩ := h.stands id c k 1 hc hmine
    obtain rfl := Option.some.inj (ha'.symm.trans ha)
    have hsound := h.sound k a' ha
    unfold Session.Sound at hsound
    rw [hstate] at hsound
    refine h.touch hc ha _ { a' with state := .stopped ok } rfl rfl rfl ?_
      ⟨hsound.1, hstops, hsound.2⟩ (fun _ hnone => absurd (hmine.symm.trans hnone) nofun)
      (fun j n hn => ?_) (fun j n hn => absurd (cont.pc_stands.symm.trans hn) nofun) nofun
      cont.pc_fails
    · rw [hpc]
      exact cont.pc_leases.symm
    · obtain ⟨rfl, -⟩ := Prod.mk.inj (Option.some.inj (hmine.symm.trans hn))
      exact ⟨rfl, nofun⟩
  case h_4 => cases hstep

/-- A lease is granted. -/
theorem Leased.grant (h : Leased s) (hc : s.calls id = some c) {rest leases : List Nat}
    (hpc : c.pc = .lease (k :: rest) leases) (ha : s.sessions k = some a) {n : Nat}
    (hstate : a.state = .running n) :
    Leased (({ s with leases := (id, k) :: s.leases }.setSession k
      { a with state := .running (n + 1) }).goto id c (.lease rest (leases ++ [k]))) := by
  have hquiet : c.pc.stands = none := by rw [hpc]; rfl
  have hsound := h.sound k a ha
  unfold Session.Sound at hsound
  rw [hstate] at hsound
  refine h.turn hc ha (b := { a with state := .running (n + 1) }) ⟨rfl, rfl, fun x j => ?_,
    fun j hj => ?_, ⟨hsound.1, hsound.2.1, ?_⟩, fun hstopping _ => ?_,
    fun j m hm => absurd (hquiet.symm.trans hm) nofun, fun _ _ => nofun, nofun, rfl⟩
  · have hheld := h.held x j
    show ((id, k) :: s.leases).count (x, j) = if x = id then (leases ++ [k]).count j else _
    rw [List.count_cons]
    by_cases hx : x = id
    · subst hx
      rw [if_pos rfl, List.count_append, List.count_singleton, hheld, hc]
      show c.pc.leases.count j + _ = _
      rw [hpc]
      show leases.count j + _ = _
      by_cases hj : k = j
      · simp [hj]
      · simp [hj]
    · rw [if_neg hx, if_neg fun heq => hx (congrArg Prod.fst (eq_of_beq heq)).symm]
      rfl
  · show List.countP _ ((id, k) :: s.leases) = s.leased j
    rw [List.countP_cons_of_neg]
    · rfl
    · simpa using Ne.symm hj
  · show n + 1 = List.countP _ ((id, k) :: s.leases)
    rw [List.countP_cons_of_pos (by simp)]
    exact congrArg (· + 1) hsound.2.2
  · exact absurd (hstate.symm.trans hstopping) nofun

/-- A lease that is dropped is one of those that count. -/
theorem Leased.mem (h : Leased s) (hc : s.calls id = some c) (hk : k ∈ c.pc.leases) :
    (id, k) ∈ s.leases := by
  rw [← List.count_pos_iff, h.held, hc]
  exact List.count_pos_iff.mpr hk

theorem leased_erase (hmem : (id, k) ∈ s.leases) :
    s.leased k = List.countP (·.2 = k) (s.leases.erase (id, k)) + 1 := by
  unfold State.leased
  rw [(List.perm_cons_erase hmem).countP_eq, List.countP_cons_of_pos (by simp)]

theorem Leased.stepDrop (h : Leased s) (hc : s.calls id = some c) {rest : List Nat}
    (hpc : c.pc = .drops (k :: rest)) (hstep : finishCallback s id c k rest = some t) :
    Leased t := by
  obtain ⟨a, ha, rfl⟩ := Option.map_eq_some_iff.mp hstep
  have hmem : (id, k) ∈ s.leases := h.mem hc (by rw [hpc]; exact List.mem_cons_self)
  have hquiet : c.pc.stands = none := by rw [hpc]; rfl
  have hcount := leased_erase hmem
  have hsound := h.sound k a ha
  -- Whatever becomes of the session, the lease is gone.
  have hgone : ∀ (b : Session) (pc : Pc), pc.leases = rest → pc.fails = false →
      b.Sound (List.countP (·.2 = k) (s.leases.erase (id, k))) → a.state ≠ .stopping →
      (∀ j n, pc.stands = some (j, n) → j = k ∧ b.state = .stopping ∧ b.stops = n) →
      (b.state = .stopping → ∃ n, pc.stands = some (k, n)) →
      Leased (({ s with leases := s.leases.erase (id, k) }.setSession k b).goto id c pc) := by
    intro b pc hheld hfine hb hnot hafter hstopping
    refine h.turn hc ha (b := b) ⟨rfl, rfl, fun x j => ?_, fun j hj => ?_, hb,
      fun hwas => absurd hwas hnot, fun j n hn => absurd (hquiet.symm.trans hn) nofun,
      fun j n hn => ?_, fun hb => .inl (hstopping hb), hfine⟩
    · have hbefore := h.held x j
      show (s.leases.erase (id, k)).count (x, j) = if x = id then pc.leases.count j else _
      rw [hheld]
      by_cases hx : x = id
      · subst hx
        rw [hc] at hbefore
        change _ = c.pc.leases.count j at hbefore
        rw [hpc] at hbefore
        change _ = (k :: rest).count j at hbefore
        rw [if_pos rfl, List.count_erase, hbefore, List.count_cons]
        by_cases hj : k = j
        · simp [hj]
        · simp [hj]
      · rw [if_neg hx, List.count_erase_of_ne]
        exact fun heq => hx (congrArg Prod.fst heq)
    · show List.countP _ (s.leases.erase (id, k)) = s.leased j
      unfold State.leased
      rw [(List.perm_cons_erase hmem).countP_eq, List.countP_cons_of_neg]
      simpa using Ne.symm hj
    · obtain ⟨hj, hboth⟩ := hafter j n hn
      exact ⟨hj, hboth.1, hboth.2, .inl hnot⟩
  unfold Session.Sound at hsound
  dsimp only
  split <;> rename_i hstate <;> rw [hstate] at hsound
  · have hzero := hsound.2.2
    omega
  · have hzero := hsound.2.2.1
    omega
  · rename_i n
    have hn := hsound.2.2
    refine hgone { a with state := .running n } (.drops rest) rfl rfl ⟨hsound.1, hsound.2.1, ?_⟩ ?_
      (fun _ _ => nofun) nofun
    · omega
    · rw [hstate]
      exact nofun
  · rename_i n
    have hn := hsound.2.2.1
    have hnot : a.state ≠ .stopping := by
      rw [hstate]
      exact nofun
    split
    · -- The last callback of a session that drains stops it.
      refine hgone { a with state := .stopping } (.hook k (.drops rest)) rfl rfl ⟨hsound.1, ?_⟩ hnot
        (fun j m hm => ?_) fun _ => ⟨0, rfl⟩
      · omega
      · obtain ⟨rfl, rfl⟩ := Prod.mk.inj (Option.some.inj hm)
        exact ⟨rfl, rfl, hsound.2.1⟩
    · refine hgone { a with state := .draining n } (.drops rest) rfl rfl
        ⟨hsound.1, hsound.2.1, ?_, ?_⟩ hnot (fun _ _ => nofun) nofun <;> omega
  · have hzero := hsound.2
    omega
  · have hzero := hsound.2.2
    omega

theorem Leased.stepCapture (h : Leased s) (hc : s.calls id = some c)
    (hstep : stepCapture s id c = some t) : Leased t := by
  unfold Plugins.stepCapture at hstep
  split at hstep
  case h_1 selection hpc =>
    obtain rfl := Option.some.inj hstep
    exact h.goes hc _ rfl rfl rfl (by rw [hpc]; rfl) (by rw [hpc]; rfl) rfl rfl
  case h_2 selection listeners hpc =>
    split at hstep <;> obtain rfl := Option.some.inj hstep <;>
    exact h.goes hc _ rfl rfl rfl (by rw [hpc]; rfl) (by rw [hpc]; rfl) rfl rfl
  case h_3 selection hpc =>
    split at hstep
    · split at hstep <;> obtain rfl := Option.some.inj hstep <;>
      exact h.goes hc _ rfl rfl rfl (by rw [hpc]; rfl) (by rw [hpc]; rfl) rfl rfl
    · cases hstep
  case h_4 k rest leases hpc =>
    obtain ⟨a, ha, rfl⟩ := Option.map_eq_some_iff.mp hstep
    split
    · rename_i n hstate
      exact h.grant hc hpc ha hstate
    · exact h.goes hc _ rfl rfl rfl (by rw [hpc]; rfl) (by rw [hpc]; rfl) rfl rfl
    · exact h.goes hc _ rfl rfl rfl (by rw [hpc]; rfl) (by rw [hpc]; rfl) rfl rfl
    · exact h.goes hc _ rfl rfl rfl (by rw [hpc]; rfl) (by rw [hpc]; rfl) rfl rfl
  case h_5 leases hpc =>
    obtain rfl := Option.some.inj hstep
    refine h.goes hc _ rfl rfl rfl ?_ (by rw [hpc]; rfl) ?_ ?_ <;> dsimp only <;> split
    · rename_i hnone
      rw [hpc, hnone]
      rfl
    · rw [hpc]
      rfl
    all_goals rfl
  case h_6 leases hpc =>
    obtain rfl := Option.some.inj hstep
    exact h.goes hc _ rfl rfl rfl (by rw [hpc]; rfl) (by rw [hpc]; rfl) rfl rfl
  case h_7 k rest hpc => exact h.stepDrop hc hpc hstep
  case h_8 hpc =>
    obtain rfl := Option.some.inj hstep
    exact h.goes hc _ rfl rfl rfl (by rw [hpc]; rfl) (by rw [hpc]; rfl) rfl rfl
  case h_9 => cases hstep

theorem Leased.step (h : Leased s) (hc : s.calls id = some c)
    (hstep : stepCall s id c choice = some t) : Leased t := by
  obtain hattach | hhost | hcapture | hstop | hclose := stepCall_cases hstep
  · exact h.stepAttach hc hattach
  · exact h.stepHost hc hhost
  · exact h.stepCapture hc hcapture
  · exact h.stepStop hc hstop
  · exact h.stepClose hc hclose

/-- The sessions and the calls are what they were. -/
theorem Leased.elsewhere (h : Leased s) (attachments : Shutdown.State) :
    Leased { s with attachments } :=
  ⟨h.sound, h.known, h.held, h.stands, h.unique, h.stopping, h.fine⟩

theorem Job.entry_quiet (job : Job) :
    job.entry.leases = [] ∧ job.entry.stands = none ∧ job.entry.fails = false := by
  cases job <;> exact ⟨rfl, rfl, rfl⟩

theorem Leased.start (h : Leased s) (hfree : s.calls id = none) (thread : Nat) (job : Job) :
    Leased (s.put id { thread, job, pc := job.entry }) := by
  obtain ⟨hleases, hstands, hfine⟩ := job.entry_quiet
  refine ⟨h.sound, h.known, fun x k => ?_, fun x e k n he hn => ?_,
    fun x y e f k n m he hf hn hm => ?_,
    fun k a ha hstopping => ?_, fun x e he => ?_⟩
  · refine (h.held x k).trans ?_
    show _ = (Function.update s.calls id _ x).elim 0 _
    by_cases hx : x = id
    · rw [hx, hfree, Function.update_self]
      show 0 = job.entry.leases.count k
      rw [hleases]
      rfl
    · rw [Function.update_of_ne hx]
  · rcases calls_cases he with ⟨-, rfl⟩ | ⟨-, hbefore⟩
    · exact absurd (hstands.symm.trans hn) nofun
    · exact h.stands x e k n hbefore hn
  · rcases calls_cases he with ⟨-, rfl⟩ | ⟨-, hbefore⟩
    · exact absurd (hstands.symm.trans hn) nofun
    · rcases calls_cases hf with ⟨-, rfl⟩ | ⟨-, hbefore'⟩
      · exact absurd (hstands.symm.trans hm) nofun
      · exact h.unique x y e f k n m hbefore hbefore' hn hm
  · obtain ⟨x, e, n, he, hn⟩ := h.stopping k a ha hstopping
    refine ⟨x, e, n, (Function.update_of_ne ?_ _ _).trans he, hn⟩
    rintro rfl
    exact absurd (hfree.symm.trans he) nofun
  · rcases calls_cases he with ⟨-, rfl⟩ | ⟨-, hbefore⟩
    · exact hfine
    · exact h.fine x e hbefore

theorem Leased.next (h : Leased s) {action : Action} (hstep : next s action = some t) :
    Leased t := by
  cases action with
  | start id thread job =>
    unfold Plugins.next at hstep
    dsimp only at hstep
    split at hstep
    · rename_i hpossible
      obtain rfl := Option.some.inj hstep
      exact h.start (Option.isNone_iff_eq_none.mp hpossible.1) thread job
    · cases hstep
  | step id choice =>
    obtain ⟨c, hc, hcall⟩ := Option.bind_eq_some_iff.mp hstep
    exact h.step hc hcall
  | scope k choice =>
    unfold Plugins.next at hstep
    dsimp only at hstep
    split at hstep
    · cases hstep
    · obtain ⟨attachments, -, rfl⟩ := Option.map_eq_some_iff.mp hstep
      exact h.elsewhere attachments
  | drain =>
    obtain ⟨attachments, -, rfl⟩ := Option.map_eq_some_iff.mp hstep
    exact h.elsewhere attachments

theorem Leased.init : Leased init where
  sound _ _ ha := nomatch ha
  known _ hp := nomatch hp
  held _ _ := rfl
  stands _ _ _ _ hc := nomatch hc
  unique _ _ _ _ _ _ _ hc := nomatch hc
  stopping _ _ ha := nomatch ha
  fine _ _ hc := nomatch hc

/-! ## What a step does to the sessions -/

/-- What every step leaves of a session. -/
structure Kept (a b : Session) : Prop where
  observing : b.observing = a.observing
  asked : a.asked = true → b.asked = true
  stops : b.stops = a.stops ∨ b.state = a.state ∧ b.stops = a.stops + 1
  entered : a.entered = true → b.entered = true
  handed : a.handed = true → b.handed = true
  stopped : (∃ ok, a.state = .stopped ok) → ∃ ok, b.state = .stopped ok

theorem Kept.refl (a : Session) : Kept a a :=
  ⟨rfl, fun h => h, .inl rfl, fun h => h, fun h => h, fun h => h⟩

inductive Did (s t : State) : Prop where
  | nothing (sessions : t.sessions = s.sessions) (leases : t.leases = s.leases)
  | fresh (k : Nat) (observing : Bool) (hfree : s.sessions k = none)
    (sessions : t.sessions = Function.update s.sessions k (some { observing }))
    (leases : t.leases = s.leases)
  | kept (k : Nat) (a b : Session) (ha : s.sessions k = some a)
    (sessions : t.sessions = Function.update s.sessions k (some b)) (kept : Kept a b)
    (leases : ∀ x j, t.leases.count (x, j) ≤ s.leases.count (x, j) ∨
      j = k ∧ ∃ n, a.state = .running n)

/-- A session is touched and no lease. -/
theorem Did.touched {k : Nat} {a b : Session} (ha : s.sessions k = some a)
    (hsessions : t.sessions = Function.update s.sessions k (some b)) (hkept : Kept a b)
    (hleases : t.leases = s.leases) : Did s t :=
  .kept k a b ha hsessions hkept fun x j => .inl (Nat.le_of_eq (by rw [hleases]))

theorem stepAttach_did (h : stepAttach s id c choice = some t) : Did s t := by
  unfold stepAttach at h
  split at h
  case h_1 =>
    obtain ⟨k, attachments, -, rfl⟩ := stepEnter_cases h
    exact .nothing rfl rfl
  case h_2 | h_7 =>
    obtain ⟨k, e, attachments, -, -, -, -, rfl⟩ := stepPermit_cases h
    exact .nothing rfl rfl
  case h_3 =>
    split at h
    · split at h <;> obtain rfl := Option.some.inj h <;> exact .nothing rfl rfl
    · cases h
  case h_4 =>
    split at h
    · obtain rfl := Option.some.inj h
      exact .nothing rfl rfl
    · split at h
      · rename_i hfree
        obtain rfl := Option.some.inj h
        exact .fresh _ _ (Option.isNone_iff_eq_none.mp hfree) rfl rfl
      · cases h
    · cases h
  case h_5 k _ =>
    split at h
    · obtain ⟨a, ha, rfl⟩ := Option.map_eq_some_iff.mp h
      exact .touched ha rfl ⟨rfl, fun h => h, .inl rfl, fun _ => rfl, fun h => h, fun h => h⟩ rfl
    · cases h
  case h_6 k _ =>
    split at h
    · obtain rfl := Option.some.inj h
      exact .nothing rfl rfl
    · obtain ⟨a, ha, rfl⟩ := Option.map_eq_some_iff.mp h
      exact .touched ha rfl ⟨rfl, fun h => h, .inl rfl, fun h => h, fun _ => rfl, fun h => h⟩ rfl
  case h_8 =>
    split at h
    · obtain rfl := Option.some.inj h
      exact .nothing rfl rfl
    · cases h
  case h_9 => cases h

theorem stepHost_same (h : stepHost s id c = some t) :
    t.sessions = s.sessions ∧ t.leases = s.leases ∧ t.attachments = s.attachments := by
  unfold stepHost at h
  split at h
  case h_1 =>
    split at h
    · obtain rfl := Option.some.inj h
      exact ⟨rfl, rfl, rfl⟩
    · cases h
  case h_2 =>
    split at h
    · split at h
      · split at h <;> obtain rfl := Option.some.inj h <;> exact ⟨rfl, rfl, rfl⟩
      · obtain rfl := Option.some.inj h
        exact ⟨rfl, rfl, rfl⟩
    · obtain rfl := Option.some.inj h
      exact ⟨rfl, rfl, rfl⟩
  case h_3 | h_4 | h_5 =>
    obtain rfl := Option.some.inj h
    exact ⟨rfl, rfl, rfl⟩
  case h_6 => cases h

theorem finishCallback_did {rest : List Nat} (h : finishCallback s id c k rest = some t) :
    Did s t := by
  obtain ⟨a, ha, rfl⟩ := Option.map_eq_some_iff.mp h
  have hsame : s.sessions = Function.update s.sessions k (some a) := by
    rw [← ha, Function.update_eq_self]
  have hfewer : ∀ x j, (s.leases.erase (id, k)).count (x, j) ≤ s.leases.count (x, j) ∨
      j = k ∧ ∃ n, a.state = .running n := fun x j =>
    .inl ((List.erase_sublist).count_le _)
  have hopen : ∀ {state : SessionState}, a.state = state → (∀ ok, state ≠ .stopped ok) →
      ∀ {b : SessionState}, (∃ ok, a.state = .stopped ok) → ∃ ok, b = .stopped ok := by
    rintro _ rfl hnot b ⟨ok, hstopped⟩
    exact absurd hstopped (hnot ok)
  dsimp only
  split <;> rename_i hstate
  · exact .kept k a a ha hsame (.refl a) hfewer
  · exact .kept k a a ha hsame (.refl a) hfewer
  · refine .kept k a _ ha rfl ?_ hfewer
    exact ⟨rfl, fun h => h, .inl rfl, fun h => h, fun h => h, hopen hstate nofun⟩
  · split <;>
    refine .kept k a _ ha rfl ?_ hfewer <;>
    exact ⟨rfl, fun h => h, .inl rfl, fun h => h, fun h => h, hopen hstate nofun⟩
  · exact .kept k a a ha hsame (.refl a) hfewer
  · exact .kept k a a ha hsame (.refl a) hfewer

theorem stepCapture_did (h : stepCapture s id c = some t) : Did s t := by
  unfold stepCapture at h
  split at h
  case h_1 | h_5 | h_6 | h_8 =>
    obtain rfl := Option.some.inj h
    exact .nothing rfl rfl
  case h_2 => split at h <;> obtain rfl := Option.some.inj h <;> exact .nothing rfl rfl
  case h_3 =>
    split at h
    · split at h <;> obtain rfl := Option.some.inj h <;> exact .nothing rfl rfl
    · cases h
  case h_4 k rest leases _ =>
    obtain ⟨a, ha, rfl⟩ := Option.map_eq_some_iff.mp h
    split
    · rename_i n hstate
      refine .kept k a { a with state := .running (n + 1) } ha rfl
        ⟨rfl, fun h => h, .inl rfl, fun h => h, fun h => h, ?_⟩ fun x j => ?_
      · rintro ⟨ok, hstopped⟩
        exact absurd (hstate.symm.trans hstopped) nofun
      · by_cases hj : j = k
        · exact .inr ⟨hj, n, hstate⟩
        · refine .inl (Nat.le_of_eq (List.count_cons_of_ne ?_))
          exact fun heq => hj (congrArg Prod.snd heq).symm
    all_goals exact .nothing rfl rfl
  case h_7 => exact finishCallback_did h
  case h_9 => cases h

theorem stepStop_did (h : stepStop s id c choice = some t) : Did s t := by
  unfold stepStop at h
  split at h
  case h_1 k cont _ =>
    obtain ⟨a, ha, rfl⟩ := Option.map_eq_some_iff.mp h
    have hopen : ∀ {n : Nat} {b : SessionState}, a.state = .running n →
        (∃ ok, a.state = .stopped ok) → ∃ ok, b = .stopped ok := by
      rintro n b hstate ⟨ok, hstopped⟩
      exact absurd (hstate.symm.trans hstopped) nofun
    split
    · rename_i hstate
      refine .touched ha rfl ?_ rfl
      exact ⟨rfl, fun _ => rfl, .inl rfl, fun h => h, fun h => h, hopen hstate⟩
    · rename_i n hstate
      refine .touched ha rfl ?_ rfl
      exact ⟨rfl, fun _ => rfl, .inl rfl, fun h => h, fun h => h, hopen hstate⟩
    all_goals exact .nothing rfl rfl
  case h_2 k cont _ =>
    split at h
    · obtain ⟨a, ha, rfl⟩ := Option.map_eq_some_iff.mp h
      exact .touched ha rfl ⟨rfl, fun h => h, .inr ⟨rfl, rfl⟩, fun h => h, fun h => h, fun h => h⟩ rfl
    · cases h
  case h_3 k ok cont _ =>
    obtain ⟨a, ha, rfl⟩ := Option.map_eq_some_iff.mp h
    refine .touched ha rfl ?_ rfl
    exact ⟨rfl, fun h => h, .inl rfl, fun h => h, fun h => h, fun _ => ⟨ok, rfl⟩⟩
  case h_4 => cases h

theorem stepClose_same (h : stepClose s id c choice = some t) :
    t.sessions = s.sessions ∧ t.leases = s.leases := by
  unfold stepClose at h
  split at h
  case h_1 =>
    obtain ⟨k, attachments, -, rfl⟩ := stepEnter_cases h
    exact ⟨rfl, rfl⟩
  case h_2 | h_4 | h_5 =>
    split at h
    · obtain rfl := Option.some.inj h
      exact ⟨rfl, rfl⟩
    · cases h
  case h_3 =>
    split at h
    · split at h <;> obtain rfl := Option.some.inj h <;> exact ⟨rfl, rfl⟩
    · cases h
  case h_6 => cases h

theorem next_did {action : Action} (h : next s action = some t) : Did s t := by
  cases action with
  | start id thread job =>
    unfold next at h
    dsimp only at h
    split at h
    · obtain rfl := Option.some.inj h
      exact .nothing rfl rfl
    · cases h
  | step id choice =>
    obtain ⟨c, hc, hcall⟩ := Option.bind_eq_some_iff.mp h
    obtain hattach | hhost | hcapture | hstop | hclose := stepCall_cases hcall
    · exact stepAttach_did hattach
    · exact .nothing (stepHost_same hhost).1 (stepHost_same hhost).2.1
    · exact stepCapture_did hcapture
    · exact stepStop_did hstop
    · exact .nothing (stepClose_same hclose).1 (stepClose_same hclose).2
  | scope k choice =>
    unfold next at h
    dsimp only at h
    split at h
    · cases h
    · obtain ⟨attachments, -, rfl⟩ := Option.map_eq_some_iff.mp h
      exact .nothing rfl rfl
  | drain =>
    obtain ⟨attachments, -, rfl⟩ := Option.map_eq_some_iff.mp h
    exact .nothing rfl rfl

theorem Did.session (h : Did s t) (ha : s.sessions k = some a) :
    ∃ b, t.sessions k = some b ∧ Kept a b := by
  cases h with
  | nothing hsessions => exact ⟨a, hsessions ▸ ha, .refl a⟩
  | fresh j observing hfree hsessions =>
    refine ⟨a, ?_, .refl a⟩
    rw [hsessions, Function.update_of_ne ?_, ha]
    rintro rfl
    exact absurd (hfree.symm.trans ha) nofun
  | kept j a' b ha' hsessions hkept =>
    by_cases hj : k = j
    · subst hj
      obtain rfl := Option.some.inj (ha'.symm.trans ha)
      exact ⟨b, by rw [hsessions, Function.update_self], hkept⟩
    · exact ⟨a, by rw [hsessions, Function.update_of_ne hj, ha], .refl a⟩

/-- No lease of a session is granted once its stop was requested. -/
theorem next_grants (h : Leased s) {action : Action} (hstep : next s action = some t)
    (ha : s.sessions k = some a) (hasked : a.asked = true) (x : Nat) :
    t.leases.count (x, k) ≤ s.leases.count (x, k) := by
  cases next_did hstep with
  | nothing _ hleases | fresh _ _ _ _ hleases => exact Nat.le_of_eq (by rw [hleases])
  | kept j a' b ha' hsessions hkept hleases =>
    refine (hleases x k).resolve_right ?_
    rintro ⟨rfl, n, hrunning⟩
    obtain rfl := Option.some.inj (ha'.symm.trans ha)
    have hsound := h.sound k a' ha
    unfold Session.Sound at hsound
    rw [hrunning] at hsound
    exact absurd (hasked.symm.trans hsound.1) nofun

end Plugins

end Amalgam
