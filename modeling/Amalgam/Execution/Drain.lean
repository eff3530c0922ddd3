import Amalgam.Execution.Watched

/-!
# Amalgam — the drain of a shutdown

What `drained` knows when it returns. Of the two scans only what happened behind the back of the
second one may still be counted; the look at the task tracker between them settles the work that was
registered by then.

* **`shutdown_drains`** — when `drained` returns every admitted operation is over and every work
  that was registered before its look at the task tracker is destroyed; whatever else is registered
  is in the hands of a call that the last scan came too early for.
* **`returned_with_work`** — there may be such a work, and such a call.
-/

namespace Amalgam

namespace Shutdown

open Flights (Reason)
open Buffered (activeStripes position)

variable {s t : State} {id : Nat} {c d : Call} {w : Nat} {a b : Work} {slot : Slot} {choice : Choice}

/-- The task tracker was empty, and the stripes are scanned again or were. -/
def Drain.second : Drain → Bool
  | .scan second _ => second
  | .returned => true
  | .idle | .tasks => false

/-- A `close` has cancelled the shutdown token. -/
def Pc.past : Pc → Bool
  | .wake _ | .pop | .await _ | .leave | .unstore _ | .done => true
  | _ => false

structure Draining (s : State) : Prop where
  closing : s.drain ≠ .idle → s.closing = true
  passed : ∀ id c slot, s.calls id = some c → c.at_ = some slot → s.drain.passed slot = true →
    id ∈ s.late
  admitted : s.drain.second = true → ∀ id c, s.calls id = some c → c.admitted = true →
    c.at_ ≠ none → id ∉ s.late
  closer : s.drain.second = true → s.shutdown = false →
    ∃ id c, s.calls id = some c ∧ c.job = .close ∧ c.pc = .shutdown ∧ c.at_ ≠ none ∧ id ∉ s.late
  old : s.drain.second = true → ∀ w, s.old w = true → ∃ a, s.works w = some a ∧
    (a.destroyed = true ∨ ∃ id, Holder s w id ∧ id ∉ s.late)
  finished : ∀ id c, s.calls id = some c → c.at_ = none → c.admitted = true → c.pc = .done
  past : ∀ id c, s.calls id = some c → c.job = .close → c.pc.past = true → s.shutdown = true

/-- What a step of a call does to the activities. -/
structure Reaches (s t : State) (id : Nat) (c d : Call) : Prop where
  self : t.calls id = some d
  others : ∀ x e, x ≠ id → s.calls x = some e → t.calls x = some e
  calls : ∀ x e, x ≠ id → t.calls x = some e →
    s.calls x = some e ∨ e.at_ = none ∧ e.admitted = false ∧ e.pc.past = false
  drain : t.drain = s.drain
  old : t.old = s.old
  late : ∀ x ∈ s.late, x ∈ t.late
  behind : ∀ x ∈ t.late, x ∈ s.late ∨ x = id ∧ c.at_ = none
  at_ : ∀ slot, d.at_ = some slot → c.at_ = some slot ∨ (s.drain.passed slot = true → id ∈ t.late)
  admitted : d.admitted = true → c.admitted = true ∨ s.closing = false
  entered : c.at_ = none → d.at_ ≠ none → c.pc ≠ .done
  finished : d.at_ = none → d.admitted = true → d.pc = .done ∨
    c.at_ = none ∧ c.admitted = true ∧ c.pc ≠ .done

/-- What a step of a call does to the shutdown and to the works. -/
structure Shuts (s t : State) (id : Nat) (c d : Call) : Prop where
  self : t.calls id = some d
  closing : s.closing = true → t.closing = true
  shutdown : s.shutdown = true → t.shutdown = true
  closer : c.job = .close → c.pc = .shutdown → t.shutdown = true
  past : d.job = .close → d.pc.past = true → t.shutdown = true ∨ c.job = .close ∧ c.pc.past = true
  works : ∀ w a, s.works w = some a → ∃ b, t.works w = some b ∧
    (a.destroyed = true → b.destroyed = true) ∧
      (Holder s w id → Holder t w id ∨ b.destroyed = true)

theorem Draining.moved (h : Draining s) (hc : s.calls id = some c) (hstep : Reaches s t id c d)
    (hshuts : Shuts s t id c d) : Draining t := by
  -- A call that is counted already does not get behind the scan.
  have hcounted : ∀ x e, s.calls x = some e → e.at_ ≠ none → x ∉ s.late → x ∉ t.late := by
    intro x e he hat hnot hin
    rcases hstep.behind x hin with hwas | ⟨rfl, hnone⟩
    · exact hnot hwas
    · obtain rfl := Option.some.inj (he.symm.trans hc)
      exact hat hnone
  refine ⟨fun hidle => hshuts.closing (h.closing (hstep.drain ▸ hidle)), fun x e slot he hat hpassed => ?_,
    fun hsecond x e he hadmitted hat hin => ?_, fun hsecond hopen => ?_, fun hsecond x hold => ?_,
    fun x e he hnone hadmitted => ?_, fun x e he hjob hpast => ?_⟩
  · rw [hstep.drain] at hpassed
    by_cases hx : x = id
    · subst hx
      obtain rfl := Option.some.inj (hstep.self.symm.trans he)
      rcases hstep.at_ slot hat with hwas | hnew
      · exact hstep.late x (h.passed x c slot hc hwas hpassed)
      · exact hnew hpassed
    · rcases hstep.calls x e hx he with hbefore | ⟨hnone, -⟩
      · exact hstep.late x (h.passed x e slot hbefore hat hpassed)
      · rw [hnone] at hat
        cases hat
  · rw [hstep.drain] at hsecond
    by_cases hx : x = id
    · subst hx
      obtain rfl := Option.some.inj (hstep.self.symm.trans he)
      have hclosed : s.closing = true := h.closing fun hidle => by
        rw [hidle] at hsecond
        cases hsecond
      have hwas : c.admitted = true := (hstep.admitted hadmitted).resolve_right fun hopen => by
        rw [hclosed] at hopen
        cases hopen
      have hcat : c.at_ ≠ none := fun hnone =>
        hstep.entered hnone hat (h.finished x c hc hnone hwas)
      exact hcounted x c hc hcat (h.admitted hsecond x c hc hwas hcat) hin
    · rcases hstep.calls x e hx he with hbefore | ⟨hnone, -⟩
      · exact hcounted x e hbefore hat (h.admitted hsecond x e hbefore hadmitted hat) hin
      · exact hat hnone
  · rw [hstep.drain] at hsecond
    have hwas : s.shutdown = false := by
      cases hshut : s.shutdown with
      | false => rfl
      | true =>
        rw [hshuts.shutdown hshut] at hopen
        cases hopen
    obtain ⟨x, e, he, hjob, hpc, hat, hnot⟩ := h.closer hsecond hwas
    refine ⟨x, e, hstep.others x e ?_ he, hjob, hpc, hat, hcounted x e he hat hnot⟩
    rintro rfl
    obtain rfl := Option.some.inj (he.symm.trans hc)
    rw [hshuts.closer hjob hpc] at hopen
    cases hopen
  · rw [hstep.drain] at hsecond
    rw [hstep.old] at hold
    obtain ⟨a, ha, hwhole⟩ := h.old hsecond x hold
    obtain ⟨b, hb, hgone, hkept⟩ := hshuts.works x a ha
    refine ⟨b, hb, ?_⟩
    rcases hwhole with hdestroyed | ⟨y, hholder, hnot⟩
    · exact .inl (hgone hdestroyed)
    · have hbehind : y ∉ t.late := by
        obtain ⟨e, he, -, -, hat⟩ := hholder
        exact hcounted y e he hat hnot
      by_cases hy : y = id
      · subst hy
        exact (hkept hholder).symm.imp_right fun hstill => ⟨y, hstill, hbehind⟩
      · obtain ⟨e, he, hrest⟩ := hholder
        exact .inr ⟨y, ⟨e, hstep.others y e hy he, hrest⟩, hbehind⟩
  · by_cases hx : x = id
    · subst hx
      obtain rfl := Option.some.inj (hstep.self.symm.trans he)
      rcases hstep.finished hnone hadmitted with hdone | ⟨hat, hwas, hnot⟩
      · exact hdone
      · exact absurd (h.finished x c hc hat hwas) hnot
    · rcases hstep.calls x e hx he with hbefore | ⟨-, hnot, -⟩
      · exact h.finished x e hbefore hnone hadmitted
      · rw [hnot] at hadmitted
        cases hadmitted
  · by_cases hx : x = id
    · subst hx
      obtain rfl := Option.some.inj (hstep.self.symm.trans he)
      rcases hshuts.past hjob hpast with hshut | ⟨hcjob, hwas⟩
      · exact hshut
      · exact hshuts.shutdown (h.past x c hc hcjob hwas)
    · rcases hstep.calls x e hx he with hbefore | ⟨-, -, hnot⟩
      · exact hshuts.shutdown (h.past x e hbefore hjob hpast)
      · rw [hnot] at hpast
        cases hpast

/-! ## The steps -/

/-- Only the call itself is put back. -/
theorem Reaches.of_update (hcalls : t.calls = Function.update s.calls id (some d))
    (hdrain : t.drain = s.drain) (hold : t.old = s.old) (hlate : ∀ x ∈ s.late, x ∈ t.late)
    (hbehind : ∀ x ∈ t.late, x ∈ s.late ∨ x = id ∧ c.at_ = none)
    (hat : ∀ slot, d.at_ = some slot →
      c.at_ = some slot ∨ (s.drain.passed slot = true → id ∈ t.late))
    (hadmitted : d.admitted = true → c.admitted = true ∨ s.closing = false)
    (hentered : c.at_ = none → d.at_ ≠ none → c.pc ≠ .done)
    (hover : d.at_ = none → d.admitted = true → d.pc = .done ∨
      c.at_ = none ∧ c.admitted = true ∧ c.pc ≠ .done) : Reaches s t id c d where
  self := by rw [hcalls, Function.update_self]
  others := fun x e hx he => by rw [hcalls, Function.update_of_ne hx, he]
  calls := fun x e hx he => by
    rw [hcalls, Function.update_of_ne hx] at he
    exact .inl he
  drain := hdrain
  old := hold
  late := hlate
  behind := hbehind
  at_ := hat
  admitted := hadmitted
  entered := hentered
  finished := hover

theorem stepReserve_reaches (h : stepReserve s id c = some t) (hat : c.at_ = none) :
    ∃ d, Reaches s t id c d := by
  -- The activity is counted, maybe behind the back of the scan.
  have hlate : ∀ slot x, x ∈ (if s.drain.passed slot then insert id s.late else s.late) →
      x ∈ s.late ∨ x = id ∧ c.at_ = none := by
    intro slot x hx
    split at hx
    · rcases Finset.mem_insert.mp hx with rfl | hwas
      · exact .inr ⟨rfl, hat⟩
      · exact .inl hwas
    · exact .inl hx
  have hkept : ∀ slot x, x ∈ s.late → x ∈ if s.drain.passed slot then insert id s.late else s.late := by
    intro slot x hx
    split
    · exact Finset.mem_insert_of_mem hx
    · exact hx
  have hcounted : ∀ slot, s.drain.passed slot = true →
      id ∈ if s.drain.passed slot then insert id s.late else s.late := fun slot hpassed => by
    rw [if_pos hpassed]
    exact Finset.mem_insert_self ..
  have hmoves : ∀ (pc : Pc), c.pc ≠ .done → t.calls = Function.update s.calls id (some { c with pc }) →
      t.drain = s.drain → t.old = s.old → t.late = s.late → Reaches s t id c { c with pc } := by
    intro pc hpc hcalls hdrain hold hlate
    exact .of_update hcalls hdrain hold (fun x hx => hlate ▸ hx) (fun x hx => .inl (hlate ▸ hx))
      (fun slot hslot => .inl hslot) .inl (fun hnone hsome => absurd hnone hsome)
      fun hnone hwas => .inr ⟨hnone, hwas, hpc⟩
  unfold stepReserve at h
  dsimp only at h
  split at h
  case h_1 hpc =>
    have hdone : c.pc ≠ .done := by rw [hpc]; exact nofun
    split at h
    · obtain rfl := Option.some.inj h
      exact ⟨_, hmoves .load hdone rfl rfl rfl rfl⟩
    · split at h <;> obtain rfl := Option.some.inj h
      · exact ⟨_, hmoves .exchange hdone rfl rfl rfl rfl⟩
      · exact ⟨_, hmoves .add hdone rfl rfl rfl rfl⟩
  case h_2 hpc =>
    have hdone : c.pc ≠ .done := by rw [hpc]; exact nofun
    split at h <;> obtain rfl := Option.some.inj h
    · exact ⟨_, hmoves .load hdone rfl rfl rfl rfl⟩
    · exact ⟨_, hmoves .add hdone rfl rfl rfl rfl⟩
  case h_3 hpc =>
    have hdone : c.pc ≠ .done := by rw [hpc]; exact nofun
    split at h
    · obtain rfl := Option.some.inj h
      exact ⟨_, hmoves (.store _) hdone rfl rfl rfl rfl⟩
    · cases h
  case h_4 hpc | h_5 hpc =>
    obtain rfl := Option.some.inj h
    refine ⟨_, .of_update rfl rfl rfl (hkept _) (hlate _) (fun slot hslot => .inr fun hpassed => ?_)
      .inl (fun _ _ => ?_) nofun⟩
    · obtain rfl := Option.some.inj hslot
      exact hcounted _ hpassed
    · rw [hpc]
      exact nofun
  case h_6 => cases h

theorem stepLeave_reaches (h : stepLeave s id c slot = some t) (hat : c.at_ = some slot) :
    ∃ d, Reaches s t id c d := by
  have hentered : ∀ d : Call, c.at_ = none → d.at_ ≠ none → c.pc ≠ .done := fun d hnone => by
    rw [hat] at hnone
    cases hnone
  unfold stepLeave at h
  split at h
  case h_1 =>
    split at h
    · obtain rfl := Option.some.inj h
      exact ⟨_, .of_update rfl rfl rfl (fun _ hx => hx) (fun _ hx => .inl hx) nofun .inl
        (hentered _) fun _ _ => .inl rfl⟩
    · split at h
      · obtain rfl := Option.some.inj h
        refine ⟨_, .of_update rfl rfl rfl (fun _ hx => hx) (fun _ hx => .inl hx)
          (fun _ hslot => .inl hslot) .inl (hentered _) fun hnone _ => ?_⟩
        rw [hat] at hnone
        cases hnone
      · cases h
  case h_2 =>
    obtain rfl := Option.some.inj h
    exact ⟨_, .of_update rfl rfl rfl (fun _ hx => hx) (fun _ hx => .inl hx) nofun .inl
      (hentered _) fun _ _ => .inl rfl⟩
  case h_3 => cases h

theorem Between.reaches (hc : s.calls id = some c) (hat : c.at_ ≠ none)
    (h : Between s t id c d) : Reaches s t id c d := by
  have hover : d.at_ = c.at_ → d.at_ = none → d.admitted = true → d.pc = .done ∨
      c.at_ = none ∧ c.admitted = true ∧ c.pc ≠ .done := fun hsame hnone =>
    absurd (hsame.symm.trans hnone) hat
  cases h with
  | alone h =>
    exact .of_update h.calls h.drain h.old (fun x hx => h.late ▸ hx) (fun x hx => .inl (h.late ▸ hx))
      (fun slot hslot => .inl (h.at_ ▸ hslot)) h.admitted (fun hnone => absurd hnone hat)
      (hover h.at_)
  | nested k w hfree h =>
    have hne : id ≠ k := fun heq => by
      rw [heq, hfree] at hc
      cases hc
    have hlate : t.late = s.late := h.late
    exact {
      self := by rw [h.calls, Function.update_self]
      others := fun x e hx he => by
        rw [h.calls, Function.update_of_ne hx]
        refine (State.put_of_ne fun hxk => ?_).trans he
        rw [hxk, hfree] at he
        cases he
      calls := fun x e hx he => by
        rw [h.calls, Function.update_of_ne hx] at he
        rcases calls_cases rfl he with ⟨-, rfl⟩ | ⟨-, hbefore⟩
        · exact .inr ⟨rfl, rfl, rfl⟩
        · exact .inl hbefore
      drain := h.drain
      old := h.old
      late := fun x hx => hlate ▸ hx
      behind := fun x hx => .inl (hlate ▸ hx)
      at_ := fun slot hslot => .inl (h.at_ ▸ hslot)
      admitted := h.admitted
      entered := fun hnone => absurd hnone hat
      finished := hover h.at_ }

/-- A call that has no future in hand gives none up. -/
theorem not_holder (hc : s.calls id = some c) (hholds : c.pc.holds = false ∨ c.job.work = none)
    (h : Holder s w id) : False := by
  obtain ⟨e, he, hwork, hyes, -⟩ := h
  obtain rfl := Option.some.inj (he.symm.trans hc)
  rcases hholds with hnot | hnone
  · rw [hnot] at hyes
    cases hyes
  · rw [hnone] at hwork
    cases hwork

theorem Apart.shutting (hc : s.calls id = some c) (h : Apart s t id c d)
    (hpast : d.job = .close → d.pc.past = true → c.pc.past = true) : Shuts s t id c d where
  self := by rw [h.calls, Function.update_self]
  closing := fun hwas => h.closing.trans hwas
  shutdown := fun hwas => h.shutdown.trans hwas
  closer := fun _ hpc => by
    have hwatches := h.watches
    rw [hpc] at hwatches
    cases hwatches
  past := fun hjob hyes => .inr ⟨h.job.symm.trans hjob, hpast hjob hyes⟩
  works := fun w a ha => ⟨a, by rw [h.works]; exact ha, fun hgone => hgone, fun hholder =>
    absurd hholder (not_holder hc (.inl h.holds))⟩

theorem Turn.shutting (hc : s.calls id = some c) (ha : s.works w = some a)
    (h : Turn s t id c d w a b) : Shuts s t id c d := by
  have hjob : c.job ≠ .close := fun hclose => by
    have hwork := h.work
    rw [hclose] at hwork
    cases hwork
  refine {
    self := by rw [h.calls, Function.update_self]
    closing := fun hwas => h.closing.trans hwas
    shutdown := fun hwas => h.shutdown.trans hwas
    closer := fun hclose => absurd hclose hjob
    past := fun hclose => absurd (h.job.symm.trans hclose) hjob
    works := fun x e he => ?_ }
  by_cases hx : x = w
  · subst hx
    obtain rfl := Option.some.inj (he.symm.trans ha)
    refine ⟨b, by rw [h.works, Function.update_self], h.destroyed, fun hholder => ?_⟩
    obtain ⟨f, hf, hwork, hholds, hat⟩ := hholder
    obtain rfl := Option.some.inj (hf.symm.trans hc)
    refine (h.holds hholds).imp_left fun hstill => ?_
    exact ⟨d, by rw [h.calls, Function.update_self], by rw [h.job]; exact hwork, hstill,
      by rw [h.at_]; exact hat⟩
  · refine ⟨e, by rw [h.works, Function.update_of_ne hx]; exact he, fun hgone => hgone, ?_⟩
    rintro ⟨f, hf, hwork, -, -⟩
    obtain rfl := Option.some.inj (hf.symm.trans hc)
    exact absurd (Option.some.inj (hwork.symm.trans h.work)) hx

theorem stepClose_shuts (hc : s.calls id = some c) (hjob : c.job = .close)
    (h : stepClose s id c choice = some t) : ∃ d, Shuts s t id c d := by
  have hworks : ∀ u : State, u.works = s.works → ∀ w a, s.works w = some a → ∃ b,
      u.works w = some b ∧ (a.destroyed = true → b.destroyed = true) ∧
        (Holder s w id → Holder u w id ∨ b.destroyed = true) := fun u hsame w a ha =>
    ⟨a, by rw [hsame]; exact ha, fun hgone => hgone, fun hholder =>
      absurd hholder (not_holder hc (.inr (by rw [hjob]; rfl)))⟩
  -- A `close` that is past the token stays past it.
  have hstays : ∀ (u : State) (e : Call), u.works = s.works → u.closing = s.closing →
      u.shutdown = s.shutdown → c.pc.past = true → u.calls id = some e → Shuts s u id c e :=
    fun u e hsame hclosing hshut hpast hself =>
    { self := hself
      closing := fun hwas => hclosing.trans hwas
      shutdown := fun hwas => hshut.trans hwas
      closer := fun _ hpc => by
        rw [hpc] at hpast
        cases hpast
      past := fun _ _ => .inr ⟨hjob, hpast⟩
      works := hworks u hsame }
  unfold stepClose at h
  split at h
  case h_1 hpc =>
    obtain rfl := Option.some.inj h
    exact ⟨_, {
      self := State.put_self
      closing := fun _ => rfl
      shutdown := fun hwas => hwas
      closer := fun _ hshut => by
        rw [hpc] at hshut
        cases hshut
      past := fun _ hyes => by cases hyes
      works := hworks _ rfl }⟩
  case h_2 =>
    obtain rfl := Option.some.inj h
    exact ⟨_, {
      self := State.put_self
      closing := fun hwas => hwas
      shutdown := fun _ => rfl
      closer := fun _ _ => rfl
      past := fun _ _ => .inl rfl
      works := hworks _ rfl }⟩
  case h_3 hpc | h_4 hpc =>
    obtain rfl := Option.some.inj h
    exact ⟨_, hstays _ _ rfl rfl rfl (by rw [hpc]; rfl) State.put_self⟩
  case h_5 hpc =>
    split at h
    · obtain rfl := Option.some.inj h
      exact ⟨_, hstays _ _ rfl rfl rfl (by rw [hpc]; rfl) State.put_self⟩
    · split at h
      · split at h
        · obtain rfl := Option.some.inj h
          exact ⟨_, hstays _ _ rfl rfl rfl (by rw [hpc]; rfl) State.put_self⟩
        · cases h
      · cases h
  case h_6 hpc =>
    split at h
    · split at h
      · obtain rfl := Option.some.inj h
        exact ⟨_, hstays _ _ rfl rfl rfl (by rw [hpc]; rfl) State.put_self⟩
      · cases h
    · cases h
  case h_7 => cases h

theorem stepBody_shuts (htracked : Tracked s) (hc : s.calls id = some c)
    (h : stepBody s id c choice = some t) : ∃ d, Shuts s t id c d := by
  cases stepBody_cases htracked hc h with
  | permit d hjob hapart =>
    exact ⟨d, hapart.shutting hc fun hclose => absurd (hapart.job.symm.trans hclose) hjob⟩
  | turns d w a b ha hturns =>
    refine ⟨d, ?_⟩
    cases hturns with
    | alone hturn => exact hturn.shutting hc ha
    | nested k hfree hjob hd hb hturn =>
      have hne : id ≠ k := fun heq => by
        rw [heq, hfree] at hc
        cases hc
      have hshuts := hturn.shutting ((State.put_of_ne hne).trans hc) ha
      refine { hshuts with works := fun x e he => ?_ }
      obtain ⟨f, hf, hgone, hkept⟩ := hshuts.works x e he
      refine ⟨f, hf, hgone, fun ⟨g, hg, hrest⟩ => hkept ⟨g, ?_, hrest⟩⟩
      exact (State.put_of_ne hne).trans hg
  | close hjob hclose => exact stepClose_shuts hc hjob hclose

theorem entry_not_past (job : Job) : job.entry.past = false := by cases job <;> rfl

/-- A call that has just begun its business is not past anything. -/
theorem stepReserve_not_past (h : stepReserve s id c = some t) :
    ∃ d, t.calls id = some d ∧ d.pc.past = false := by
  unfold stepReserve at h
  dsimp only at h
  split at h
  case h_1 =>
    split at h
    · obtain rfl := Option.some.inj h
      exact ⟨_, State.put_self, rfl⟩
    · split at h <;> obtain rfl := Option.some.inj h <;> exact ⟨_, State.put_self, rfl⟩
  case h_2 => split at h <;> obtain rfl := Option.some.inj h <;> exact ⟨_, State.put_self, rfl⟩
  case h_3 =>
    split at h
    · obtain rfl := Option.some.inj h
      exact ⟨_, State.put_self, rfl⟩
    · cases h
  case h_4 | h_5 =>
    obtain rfl := Option.some.inj h
    exact ⟨_, State.put_self, entry_not_past c.job⟩
  case h_6 => cases h

theorem stepCall_reaches (hc : s.calls id = some c) (hstep : stepCall s id c choice = some t) :
    ∃ d, Reaches s t id c d := by
  rcases stepCall_cases hstep with ⟨hat, hreserve⟩ | ⟨slot, hat, hleave | hbody⟩
  · exact stepReserve_reaches hreserve hat
  · exact stepLeave_reaches hleave hat
  · obtain ⟨d, hbetween⟩ := stepBody_between hbody
    refine ⟨d, hbetween.reaches hc ?_⟩
    rw [hat]
    exact nofun

theorem stepCall_shuts (htracked : Tracked s) (hc : s.calls id = some c)
    (hstep : stepCall s id c choice = some t) : ∃ d, Shuts s t id c d := by
  rcases stepCall_cases hstep with ⟨-, hreserve⟩ | ⟨slot, -, hleave | hbody⟩
  · obtain ⟨d, hapart⟩ := stepReserve_apart hreserve
    obtain ⟨e, he, hnot⟩ := stepReserve_not_past hreserve
    refine ⟨d, hapart.shutting hc fun _ hpast => ?_⟩
    have hself : t.calls id = some d := by rw [hapart.calls, Function.update_self]
    obtain rfl := Option.some.inj (hself.symm.trans he)
    rw [hnot] at hpast
    cases hpast
  · obtain ⟨d, hapart⟩ := stepLeave_apart hleave
    refine ⟨d, hapart.shutting hc fun _ _ => ?_⟩
    unfold stepLeave at hleave
    split at hleave
    case h_1 hpc | h_2 hpc =>
      rw [hpc]
      rfl
    case h_3 => cases hleave
  · exact stepBody_shuts htracked hc hbody

theorem Draining.call (h : Draining s) (htracked : Tracked s) (hc : s.calls id = some c)
    (hstep : stepCall s id c choice = some t) : Draining t := by
  obtain ⟨d, hreaches⟩ := stepCall_reaches hc hstep
  obtain ⟨e, hshuts⟩ := stepCall_shuts htracked hc hstep
  -- What the two say they say about the same call.
  obtain rfl := Option.some.inj (hreaches.self.symm.trans hshuts.self)
  exact h.moved hc hreaches hshuts

/-! ## The drain -/

/-- A step of the second scan gets past the counter that it reads and no other. -/
theorem passed_next {next x : Slot} (hnext : slot.next = some next)
    (hx : (Drain.scan true next).passed x = true) :
    x = slot ∨ (Drain.scan true slot).passed x = true := by
  obtain ⟨shared, stripe⟩ := slot
  obtain ⟨shared', stripe'⟩ := x
  cases shared with
  | false =>
    obtain rfl := Option.some.inj hnext
    cases shared' <;> simp_all [Drain.passed]
    omega
  | true =>
    unfold Slot.next at hnext
    rw [if_pos rfl] at hnext
    split at hnext
    · obtain rfl := Option.some.inj hnext
      cases shared' <;> simp_all [Drain.passed] <;> omega
    · cases hnext

theorem passed_last {x : Slot} (hnext : slot.next = none) (hx : x.stripe < activeStripes) :
    x = slot ∨ (Drain.scan true slot).passed x = true := by
  obtain ⟨shared, stripe⟩ := slot
  obtain ⟨shared', stripe'⟩ := x
  cases shared with
  | false => cases hnext
  | true =>
    unfold Slot.next at hnext
    rw [if_pos rfl] at hnext
    split at hnext
    · cases hnext
    · rename_i hlast
      cases shared' <;> simp_all [Drain.passed] <;> omega

theorem Draining.drain (h : Draining s) (hcounted : Counted s) (htracked : Tracked s)
    (hcovered : Covered s) (hstep : stepDrain s = some t) : Draining t := by
  obtain ⟨hcalls, hworks, -, -, -, hclosing, hshutdown⟩ := stepDrain_same hstep
  have hover : ∀ id c, t.calls id = some c → c.at_ = none → c.admitted = true → c.pc = .done :=
    fun id c hc => h.finished id c (hcalls ▸ hc)
  have hpast : ∀ id c, t.calls id = some c → c.job = .close → c.pc.past = true →
      t.shutdown = true := fun id c hc hjob hyes =>
    hshutdown.trans (h.past id c (hcalls ▸ hc) hjob hyes)
  -- Nobody is counted where the count is zero.
  have hempty : ∀ {slot id c}, s.count slot = 0 → s.calls id = some c → c.at_ ≠ some slot := by
    intro slot id c hzero hc hat
    have hin : id ∈ s.held slot := (hcounted.held id slot).mpr (by rw [hc]; exact hat)
    rw [hcounted.card, Finset.card_eq_zero] at hzero
    rw [hzero] at hin
    exact Finset.notMem_empty id hin
  unfold stepDrain at hstep
  split at hstep
  case h_1 | h_2 =>
    split at hstep
    · rename_i hclosed
      obtain rfl := Option.some.inj hstep
      exact ⟨fun _ => hclosed, fun _ _ _ _ _ => nofun, nofun, nofun, nofun, hover, hpast⟩
    · cases hstep
  case h_3 second slot hscan =>
    have hclosed : s.closing = true := h.closing (by rw [hscan]; exact nofun)
    have hpassed : ∀ {x id c}, second = true → (Drain.scan true slot).passed x = true →
        s.calls id = some c → c.at_ = some x → id ∈ s.late := by
      intro x id c hsecond hyes hc hat
      exact h.passed id c x hc hat (by rw [hscan, hsecond]; exact hyes)
    have hsecond : ∀ drain : Drain, (second = false → drain.second = false) →
        drain.second = true → s.drain.second = true := by
      intro drain hfirst hyes
      rw [hscan]
      cases second with
      | true => rfl
      | false =>
        rw [hfirst rfl] at hyes
        cases hyes
    split at hstep
    · obtain rfl := Option.some.inj hstep
      exact ⟨fun hne => absurd rfl hne, fun _ _ _ _ _ => nofun, nofun, nofun, nofun, hover, hpast⟩
    · rename_i hcount
      have hzero : s.count slot = 0 := not_not.mp hcount
      split at hstep
      · rename_i next hnext
        obtain rfl := Option.some.inj hstep
        have hwas := hsecond (.scan second next) fun hfirst => hfirst
        refine ⟨fun _ => hclosed, fun id c x hc hat hyes => ?_, fun hyes => h.admitted (hwas hyes),
          fun hyes => h.closer (hwas hyes), fun hyes => h.old (hwas hyes), hover, hpast⟩
        cases second with
        | false => cases hyes
        | true =>
          rcases passed_next hnext hyes with rfl | hbefore
          · exact absurd hat (hempty hzero hc)
          · exact hpassed rfl hbefore hc hat
      · rename_i hnext
        obtain rfl := Option.some.inj hstep
        have hwas := hsecond (if second then .returned else .tasks) fun hfirst => by
          rw [hfirst]
          rfl
        refine ⟨fun _ => hclosed, fun id c x hc hat hyes => ?_, fun hyes => h.admitted (hwas hyes),
          fun hyes => h.closer (hwas hyes), fun hyes => h.old (hwas hyes), hover, hpast⟩
        cases second with
        | false => cases hyes
        | true =>
          have hstripe : x.stripe < activeStripes := by
            rw [hcounted.stripe id c x hc hat]
            exact Nat.mod_lt _ (by decide)
          rcases passed_last hnext hstripe with rfl | hbefore
          · exact absurd hat (hempty hzero hc)
          · exact hpassed rfl hbefore hc hat
  case h_4 htasks =>
    have hclosed : s.closing = true := h.closing (by rw [htasks]; exact nofun)
    split at hstep
    · rename_i hnone
      obtain rfl := Option.some.inj hstep
      refine ⟨fun _ => hclosed, fun _ _ x _ _ hyes => ?_, fun _ _ _ _ _ _ => Finset.notMem_empty _,
        fun _ hopen => ?_, fun _ w hold => ?_, hover, hpast⟩
      · simp [Drain.passed] at hyes
      · obtain hshut | ⟨id, c, hc, hjob, hpc, hat⟩ := hcovered.closing hclosed
        · exact absurd (hopen.symm.trans hshut) nofun
        · exact ⟨id, c, hc, hjob, hpc, hat, Finset.notMem_empty _⟩
      · -- The tracker counts nothing, and every work that was registered has been ended.
        obtain ⟨a, ha, hregistered⟩ := (Option.any_eq_true _ _).mp hold
        refine ⟨a, ha, ?_⟩
        have htracking : a.tracking = none := by
          cases hk : a.tracking with
          | none => rfl
          | some k =>
            have hin := (htracked.counted w a k ha hk).1
            rw [hnone] at hin
            cases hin
        cases hdestroyed : a.destroyed with
        | true => exact .inl rfl
        | false =>
          cases hterminal : a.state.isTerminal with
          | false => exact absurd htracking (htracked.registered w a ha hregistered hterminal)
          | true =>
            obtain ⟨id, hholder⟩ := htracked.ended w a ha hterminal hdestroyed
            exact .inr ⟨id, hholder, Finset.notMem_empty _⟩
    · obtain rfl := Option.some.inj hstep
      exact ⟨fun hne => absurd rfl hne, fun _ _ _ _ _ => nofun, nofun, nofun, nofun, hover, hpast⟩

/-! ## Every run -/

theorem Draining.begin_ (h : Draining s) (hfree : s.calls id = none) (hat : c.at_ = none)
    (hadmitted : c.admitted = false) (hnot : c.pc.past = false) : Draining (s.put id c) := by
  have hne : ∀ {x e}, s.calls x = some e → x ≠ id := fun he heq => by
    rw [heq, hfree] at he
    cases he
  have hkept : ∀ {x e}, s.calls x = some e → (s.put id c).calls x = some e := fun he =>
    (State.put_of_ne (hne he)).trans he
  refine ⟨h.closing, fun x e slot he hslot => ?_, fun hsecond x e he hyes hsome => ?_,
    fun hsecond hopen => ?_, fun hsecond w hold => ?_, fun x e he hnone hyes => ?_,
    fun x e he hjob hpast => ?_⟩
  · rcases calls_cases rfl he with ⟨-, rfl⟩ | ⟨-, hbefore⟩
    · rw [hat] at hslot
      cases hslot
    · exact h.passed x e slot hbefore hslot
  · rcases calls_cases rfl he with ⟨-, rfl⟩ | ⟨-, hbefore⟩
    · exact absurd hat hsome
    · exact h.admitted hsecond x e hbefore hyes hsome
  · obtain ⟨x, e, he, hrest⟩ := h.closer hsecond hopen
    exact ⟨x, e, hkept he, hrest⟩
  · obtain ⟨a, ha, hwhole⟩ := h.old hsecond w hold
    exact ⟨a, ha, hwhole.imp_right fun ⟨x, ⟨e, he, hrest⟩, hbehind⟩ => ⟨x, ⟨e, hkept he, hrest⟩, hbehind⟩⟩
  · rcases calls_cases rfl he with ⟨-, rfl⟩ | ⟨-, hbefore⟩
    · rw [hadmitted] at hyes
      cases hyes
    · exact h.finished x e hbefore hnone hyes
  · rcases calls_cases rfl he with ⟨-, rfl⟩ | ⟨-, hbefore⟩
    · rw [hnot] at hpast
      cases hpast
    · exact h.past x e hbefore hjob hpast

/-- A work is created, or its request is cancelled. -/
theorem Draining.noted (h : Draining s) (hkept : ∀ a, s.works w = some a → b.destroyed = a.destroyed) :
    Draining (s.setWork w b) := by
  refine ⟨h.closing, h.passed, h.admitted, h.closer, fun hsecond x hold => ?_, h.finished, h.past⟩
  obtain ⟨a, ha, hwhole⟩ := h.old hsecond x hold
  by_cases hx : x = w
  · subst hx
    exact ⟨b, Function.update_self .., hwhole.imp_left fun hgone => (hkept a ha).trans hgone⟩
  · exact ⟨a, (Function.update_of_ne hx _ _).trans ha, hwhole⟩

theorem Draining.start (h : Draining s) (hfree : s.calls id = none) {thread : Nat} {job : Job}
    (hstep : start s id thread job = some t) : Draining t := by
  have hfirst : (if job = .owned then Pc.add else .owner).past = false := by split <;> rfl
  unfold Shutdown.start at hstep
  cases job with
  | inline | owned | close =>
    obtain rfl := Option.some.inj hstep
    exact h.begin_ hfree rfl rfl hfirst
  | register w | poll w =>
    obtain ⟨a, -, rfl⟩ := Option.map_eq_some_iff.mp hstep
    exact h.begin_ hfree rfl rfl hfirst
  | cancel w reason =>
    obtain ⟨a, ha, rfl⟩ := Option.map_eq_some_iff.mp hstep
    refine Draining.begin_ (h.noted fun e he => ?_) hfree rfl rfl hfirst
    obtain rfl := Option.some.inj (ha.symm.trans he)
    rfl

theorem Draining.next (h : Draining s) (hcounted : Counted s) (htracked : Tracked s)
    (hcovered : Covered s) {action : Action} (hstep : next s action = some t) : Draining t := by
  cases action with
  | start id thread job =>
    unfold Shutdown.next at hstep
    dsimp only at hstep
    split at hstep
    case isTrue hfree => exact h.start hfree hstep
    case isFalse => cases hstep
  | step id choice =>
    obtain ⟨c, hc, hcall⟩ := Option.bind_eq_some_iff.mp hstep
    exact h.call htracked hc hcall
  | drain => exact h.drain hcounted htracked hcovered hstep
  | create w =>
    unfold Shutdown.next at hstep
    dsimp only at hstep
    split at hstep
    case isTrue hfree =>
      obtain rfl := Option.some.inj hstep
      exact h.noted fun a ha => absurd (hfree.symm.trans ha) nofun
    case isFalse => cases hstep
  | request w reason =>
    obtain ⟨a, ha, rfl⟩ := Option.map_eq_some_iff.mp hstep
    refine h.noted fun e he => ?_
    obtain rfl := Option.some.inj (ha.symm.trans he)
    rfl

theorem Draining.init : Draining init where
  closing hne := absurd rfl hne
  passed _ _ _ hc := nomatch hc
  admitted hsecond := nomatch hsecond
  closer hsecond := nomatch hsecond
  old hsecond := nomatch hsecond
  finished _ _ hc := nomatch hc
  past _ _ hc := nomatch hc

/-- What holds of the activities, the works, the shutdown and the drain in every run. -/
structure Sound (s : State) : Prop where
  counted : Counted s
  tracked : Tracked s
  covered : Covered s
  reasoned : Reasoned s
  draining : Draining s

theorem Sound.next (h : Sound s) {action : Action} (hstep : next s action = some t) : Sound t where
  counted := h.counted.next hstep
  tracked := h.tracked.next hstep
  covered := h.covered.next h.tracked hstep
  reasoned := h.reasoned.next h.tracked hstep
  draining := h.draining.next h.counted h.tracked h.covered hstep

theorem Sound.run {actions : List Action} (hrun : Run.exec Shutdown.next Shutdown.init actions = some s) :
    Sound s :=
  Run.exec_invariant (fun _ _ _ h hstep => h.next hstep)
    ⟨.init, .init, .init, .init, .init⟩ hrun

/-! ## What the others see -/

theorem next_start {thread : Nat} {job : Job} (h : next s (.start id thread job) = some t) :
    s.calls id = none ∧ t.calls = Function.update s.calls id
      (some { thread, job, pc := if job = .owned then .add else .owner }) ∧ t.closing = s.closing := by
  unfold next at h
  dsimp only at h
  split at h
  case isFalse => cases h
  case isTrue hfree =>
    refine ⟨hfree, ?_⟩
    unfold start at h
    cases job with
    | inline | owned | close =>
      obtain rfl := Option.some.inj h
      exact ⟨rfl, rfl⟩
    | register w | poll w | cancel w reason =>
      obtain ⟨a, -, rfl⟩ := Option.map_eq_some_iff.mp h
      exact ⟨rfl, rfl⟩

theorem next_step_others (h : next s (.step id choice) = some t) {x : Nat} (hx : x ≠ id)
    (hd : s.calls x = some d) : t.calls x = some d := by
  obtain ⟨c, hc, hcall⟩ := Option.bind_eq_some_iff.mp h
  obtain ⟨e, hreaches⟩ := stepCall_reaches hc hcall
  exact hreaches.others x d hx hd

theorem next_step_self (h : next s (.step id choice) = some t) : t.calls id ≠ none := by
  obtain ⟨c, hc, hcall⟩ := Option.bind_eq_some_iff.mp h
  obtain ⟨e, hreaches⟩ := stepCall_reaches hc hcall
  rw [hreaches.self]
  exact nofun

/-- A permit that asks is admitted while the cache is open. -/
theorem next_admission (h : next s (.step id .admission) = some t) (hc : s.calls id = some c)
    (hpc : c.pc = .running) :
    t.calls = Function.update s.calls id (some { c with admitted := c.admitted || !s.closing }) := by
  obtain ⟨d, hd, hcall⟩ := Option.bind_eq_some_iff.mp h
  obtain rfl := Option.some.inj (hd.symm.trans hc)
  unfold stepCall at hcall
  split at hcall
  case h_1 =>
    unfold stepReserve at hcall
    rw [hpc] at hcall
    cases hcall
  case h_2 hleave =>
    rw [hpc] at hleave
    cases hleave
  case h_3 hleave =>
    rw [hpc] at hleave
    cases hleave
  case h_4 =>
    unfold stepBody at hcall
    split at hcall
    case h_1 | h_2 =>
      rw [if_pos hpc, if_pos rfl] at hcall
      obtain rfl := Option.some.inj hcall
      rfl
    case h_3 | h_4 | h_5 =>
      obtain ⟨a, -, hcall⟩ := Option.bind_eq_some_iff.mp hcall
      rw [hpc] at hcall
      simp only [Pc.retiring, stepRegister, stepCancel, stepPoll, hpc] at hcall
      cases hcall
    case h_6 =>
      unfold stepClose at hcall
      rw [hpc] at hcall
      cases hcall

theorem next_closing (htracked : Tracked s) {action : Action} (h : next s action = some t)
    (hclosing : s.closing = true) : t.closing = true := by
  cases action with
  | start id thread job => exact (next_start h).2.2.trans hclosing
  | step id choice =>
    obtain ⟨c, hc, hcall⟩ := Option.bind_eq_some_iff.mp h
    obtain ⟨d, hshuts⟩ := stepCall_shuts htracked hc hcall
    exact hshuts.closing hclosing
  | drain => exact (stepDrain_same h).2.2.2.2.2.1.trans hclosing
  | create w =>
    unfold next at h
    dsimp only at h
    split at h
    case isTrue =>
      obtain rfl := Option.some.inj h
      exact hclosing
    case isFalse => cases h
  | request w reason =>
    obtain ⟨a, -, rfl⟩ := Option.map_eq_some_iff.mp h
    exact hclosing

/-- A call that is still counted is about to end the work, or to destroy it. -/
def InHand (s : State) (w id : Nat) : Prop := Holder s w id ∨ Poller s w id ∨ Cancels s w id

theorem InHand.counted (h : InHand s w id) : ∃ c, s.calls id = some c ∧ c.at_ ≠ none := by
  obtain ⟨c, hc, -, -, hat⟩ | ⟨c, hc, -, -, hat⟩ | ⟨c, hc, hat, -⟩ := h <;> exact ⟨c, hc, hat⟩

/-- Once the shutdown token is cancelled a registered work is over, or somebody sees to it. -/
theorem Sound.in_hand (h : Sound s) (hshutdown : s.shutdown = true) (ha : s.works w = some a)
    (hregistered : a.registered = true) (hdestroyed : a.destroyed = false) :
    ∃ id, InHand s w id := by
  cases hterminal : a.state.isTerminal with
  | true =>
    obtain ⟨id, hholder⟩ := h.tracked.ended w a ha hterminal hdestroyed
    exact ⟨id, .inl hholder⟩
  | false =>
    cases hpolling : a.state.isPolling with
    | true =>
      obtain ⟨id, hpoller⟩ := h.tracked.polled w a ha hpolling hdestroyed
      exact ⟨id, .inr (.inl hpoller)⟩
    | false =>
      have hopen : a.state.verdict = none := by
        cases hstate : a.state with
        | pending => rfl
        | polling _ =>
          rw [hstate] at hpolling
          cases hpolling
        | cancelled _ | completed =>
          rw [hstate] at hterminal
          cases hterminal
      obtain ⟨k, -, hwaits⟩ | ⟨id, hcancels⟩ := h.covered.watched w a ha hregistered hopen
      · rw [(h.covered.shut hshutdown).2] at hwaits
        cases hwaits
      · exact ⟨id, .inr (.inr hcancels)⟩

/-- When the drain has returned, whoever is still counted came behind the back of its last scan. -/
theorem Draining.late (h : Draining s) (hreturned : s.drain = .returned)
    (hc : s.calls id = some c) (hat : c.at_ ≠ none) : id ∈ s.late := by
  obtain ⟨slot, hslot⟩ := Option.ne_none_iff_exists'.mp hat
  exact h.passed id c slot hc hslot (by rw [hreturned]; rfl)

theorem Draining.ended (h : Draining s) (hreturned : s.drain = .returned)
    (hc : s.calls id = some c) (hadmitted : c.admitted = true) : c.pc = .done := by
  by_cases hat : c.at_ = none
  · exact h.finished id c hc hat hadmitted
  · have hsecond : s.drain.second = true := by rw [hreturned]; rfl
    exact absurd (h.late hreturned hc hat) (h.admitted hsecond id c hc hadmitted hat)

theorem Sound.undestroyed (h : Sound s) (hreturned : s.drain = .returned)
    (ha : s.works w = some a) (hregistered : a.registered = true) (hdestroyed : a.destroyed = false) :
    s.old w = false ∧ ∃ id ∈ s.late, InHand s w id := by
  have hsecond : s.drain.second = true := by rw [hreturned]; rfl
  refine ⟨?_, ?_⟩
  · cases hold : s.old w with
    | false => rfl
    | true =>
      obtain ⟨b, hb, hgone | ⟨id, ⟨c, hc, -, -, hat⟩, hbehind⟩⟩ := h.draining.old hsecond w hold
      · obtain rfl := Option.some.inj (hb.symm.trans ha)
        exact absurd (hdestroyed.symm.trans hgone) nofun
      · exact absurd (h.draining.late hreturned hc hat) hbehind
  · have hshutdown : s.shutdown = true := by
      cases hopen : s.shutdown with
      | true => rfl
      | false =>
        obtain ⟨id, c, hc, -, -, hat, hbehind⟩ := h.draining.closer hsecond hopen
        exact absurd (h.draining.late hreturned hc hat) hbehind
    obtain ⟨id, hhand⟩ := h.in_hand hshutdown ha hregistered hdestroyed
    obtain ⟨c, hc, hat⟩ := hhand.counted
    exact ⟨id, h.draining.late hreturned hc hat, hhand⟩

/-- Nobody is admitted once the cache is closing. -/
theorem next_admitted {action : Action} (hclosing : s.closing = true)
    (hstep : next s action = some t) (hd : t.calls id = some d) (hadmitted : d.admitted = true) :
    ∃ c, s.calls id = some c ∧ c.admitted = true := by
  have hbegins : ∀ {u : State} {k : Nat} {e : Call}, u.calls = s.calls → e.admitted = false →
      t = u.put k e → ∃ c, s.calls id = some c ∧ c.admitted = true := by
    rintro u k e hsame hnot rfl
    rcases calls_cases rfl hd with ⟨-, rfl⟩ | ⟨-, hbefore⟩
    · rw [hnot] at hadmitted
      cases hadmitted
    · exact ⟨d, hsame ▸ hbefore, hadmitted⟩
  cases action with
  | start k thread job =>
    unfold Shutdown.next at hstep
    dsimp only at hstep
    split at hstep
    case isFalse => cases hstep
    case isTrue =>
      unfold Shutdown.start at hstep
      cases job with
      | inline | owned | close =>
        obtain rfl := Option.some.inj hstep
        exact hbegins rfl rfl rfl
      | register w | poll w =>
        obtain ⟨a, -, rfl⟩ := Option.map_eq_some_iff.mp hstep
        exact hbegins rfl rfl rfl
      | cancel w reason =>
        obtain ⟨a, -, rfl⟩ := Option.map_eq_some_iff.mp hstep
        exact hbegins (u := ask s w a reason) rfl rfl rfl
  | step k choice =>
    obtain ⟨c, hc, hcall⟩ := Option.bind_eq_some_iff.mp hstep
    obtain ⟨e, hreaches⟩ := stepCall_reaches hc hcall
    by_cases hid : id = k
    · subst hid
      obtain rfl := Option.some.inj (hreaches.self.symm.trans hd)
      refine ⟨c, hc, (hreaches.admitted hadmitted).resolve_right fun hopen => ?_⟩
      rw [hclosing] at hopen
      cases hopen
    · rcases hreaches.calls id d hid hd with hbefore | ⟨-, hnot, -⟩
      · exact ⟨d, hbefore, hadmitted⟩
      · rw [hnot] at hadmitted
        cases hadmitted
  | drain => exact ⟨d, (stepDrain_same hstep).1 ▸ hd, hadmitted⟩
  | create w =>
    unfold Shutdown.next at hstep
    dsimp only at hstep
    split at hstep
    case isTrue =>
      obtain rfl := Option.some.inj hstep
      exact ⟨d, hd, hadmitted⟩
    case isFalse => cases hstep
  | request w reason =>
    obtain ⟨a, -, rfl⟩ := Option.map_eq_some_iff.mp hstep
    exact ⟨d, hd, hadmitted⟩

/-- In every interleaving: when the drain has returned every admitted call is over and every work
that was registered when it looked at the task tracker is destroyed, and what else is registered and
not destroyed is in the hands of a call that was counted behind the back of the last scan; nobody is
admitted once the cache is closing; no counter underflows; once a `close` has returned, somebody who
is still counted is about to cancel every registered work that has no verdict; and the reason of a
verdict is the shutdown or was given to the work before. -/
theorem shutdown_drains {actions : List Action} (hrun : Run.exec next init actions = some s) :
    (s.drain = .returned →
      (∀ id c, s.calls id = some c → c.admitted = true → c.pc = .done) ∧
      ∀ w a, s.works w = some a → a.registered = true → a.destroyed = false →
        s.old w = false ∧ ∃ id ∈ s.late, InHand s w id) ∧
    (s.closing = true → ∀ action t, next s action = some t → ∀ id d, t.calls id = some d →
      d.admitted = true → ∃ c, s.calls id = some c ∧ c.admitted = true) ∧
    (∀ id c slot, s.calls id = some c → c.at_ = some slot →
      0 < s.count slot ∧ ∀ n, c.pc = .unstore n → n = s.count slot) ∧
    (∀ k c, s.calls k = some c → c.job = .close → c.pc = .done →
      ∀ w a, s.works w = some a → a.registered = true → a.state.verdict = none →
        ∃ id, Cancels s w id) ∧
    ∀ w a r, s.works w = some a → given a.state = some r → a.Knows r := by
  have h := Sound.run hrun
  refine ⟨fun hreturned => ⟨fun id c hc => h.draining.ended hreturned hc,
      fun w a ha => h.undestroyed hreturned ha⟩,
    fun hclosing action t hstep id d => next_admitted hclosing hstep,
    fun id c slot => no_underflow hrun, fun k c hc hjob hpc w a ha hregistered hopen => ?_,
    h.reasoned.state⟩
  have hshutdown := h.draining.past k c hc hjob (by rw [hpc]; rfl)
  obtain ⟨j, -, hwaits⟩ | hcancels := h.covered.watched w a ha hregistered hopen
  · rw [(h.covered.shut hshutdown).2] at hwaits
    cases hwaits
  · exact hcancels

/-- A `close` without anything to cancel. -/
def closeRun : List Action := .start 0 0 .close :: List.replicate 10 (.step 0 .go)

/-- Work is registered behind the back of the second scan. -/
def lateRun : List Action :=
  closeRun ++ List.replicate 140 .drain ++ [.create 0, .start 1 1 (.register 0)] ++
    List.replicate 5 (.step 1 .go) ++ List.replicate 118 .drain

/-- Work is registered while a `close` is between the shutdown token and its end. -/
def closingRun : List Action :=
  .start 0 0 .close :: List.replicate 7 (.step 0 .go) ++ [.create 0, .start 1 1 (.register 0)] ++
    List.replicate 5 (.step 1 .go) ++ List.replicate 3 (.step 0 .go)

theorem shutdown_drains_late : ∃ s, Run.exec next init lateRun = some s ∧ s.drain = .returned ∧
    (∀ id c, s.calls id = some c → c.admitted = true → c.pc = .done) ∧
    s.old 0 = false ∧ ∃ id ∈ s.late, InHand s 0 id := by
  have hlate : (Run.exec next init lateRun).map
      (fun s => (s.drain, (s.works 0).map fun a => (a.registered, a.destroyed))) =
        some (.returned, some (true, false)) := by decide +kernel
  obtain ⟨s, hrun, hs⟩ := Option.map_eq_some_iff.mp hlate
  obtain ⟨hreturned, hwork⟩ := Prod.mk.inj hs
  obtain ⟨a, ha, hboth⟩ := Option.map_eq_some_iff.mp hwork
  obtain ⟨hregistered, hdestroyed⟩ := Prod.mk.inj hboth
  obtain ⟨hended, hundestroyed⟩ := (shutdown_drains hrun).1 hreturned
  exact ⟨s, hrun, hreturned, hended, hundestroyed 0 a ha hregistered hdestroyed⟩

/-- The drain may return with a work that is registered and not destroyed, and so may a `close`
leave a registered work pending. -/
theorem returned_with_work :
    (Run.exec next init lateRun).map
      (fun s => (s.drain, (s.works 0).map fun a => (a.registered, a.destroyed))) =
        some (.returned, some (true, false)) ∧
    (Run.exec next init closingRun).map
      (fun s => ((s.calls 0).map fun c => (c.job, c.pc), (s.works 0).map fun a =>
        (a.registered, a.state))) =
        some (some (.close, .done), some (true, .pending)) := by
  exact ⟨by decide +kernel, by decide +kernel⟩

end Shutdown

end Amalgam
