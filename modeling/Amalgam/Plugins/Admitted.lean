import Amalgam.Plugins.Published

/-!
# Amalgam — attachments under a permit

A call that attaches a session has an admitted permit of the registry until the session is in the
host. Once a `shutdown` has seen the registry drained nobody attaches any more.

* **`Admitted`** — the invariant.
* **`Admitted.next`** — every step keeps it.
-/

namespace Amalgam

namespace Plugins

variable {s t : State} {id k : Nat} {c d : Call} {a b : Session} {cont : Cont} {choice : Choice}

def Cont.attaching : Cont → Bool
  | .check => true
  | _ => false

/-- An attachment is admitted, and its session is not in the host yet. -/
def Pc.attaching : Pc → Bool
  | .prune cont | .scan _ cont | .observers cont | .listeners cont | .unlock cont
  | .stop _ cont | .hook _ cont | .settle _ _ cont => cont.attaching
  | .check | .user | .push _ => true
  | _ => false

/-- The call has an admitted permit. -/
def HasPermit (attachments : Shutdown.State) (c : Call) : Prop :=
  ∃ k e, c.permit = some k ∧ attachments.calls k = some e ∧ e.pc = .running ∧ e.admitted = true

structure Admitted (s : State) : Prop where
  sound : Shutdown.Sound s.attachments
  permits : ∀ x c, s.calls x = some c → c.pc.attaching = true → HasPermit s.attachments c
  fresh : ∀ x c k, s.calls x = some c → c.permit = some k → s.attachments.calls k ≠ none
  own : ∀ x y c d k, s.calls x = some c → s.calls y = some d → c.permit = some k →
    d.permit = some k → x = y
  drained : s.drained = true → s.attachments.closing = true ∧
    ∀ x c, s.calls x = some c → c.pc.attaching = false

theorem Cont.pc_attaching (cont : Cont) : cont.pc.attaching = cont.attaching := by
  cases cont with
  | stops closing slots => cases slots <;> cases closing <;> rfl
  | waits slots => cases slots <;> rfl
  | _ => rfl

/-- The call goes on with its permit, and does not begin to attach. -/
theorem Admitted.goes (h : Admitted s) (hc : s.calls id = some c)
    (hcalls : t.calls = Function.update s.calls id (some d))
    (hattachments : t.attachments = s.attachments) (hpermit : d.permit = c.permit)
    (hdrained : t.drained = s.drained)
    (hattaching : d.pc.attaching = true → c.pc.attaching = true) : Admitted t := by
  have hbefore : ∀ {x e}, t.calls x = some e → ∃ f, s.calls x = some f ∧ e.permit = f.permit ∧
      (e.pc.attaching = true → f.pc.attaching = true) := by
    intro x e he
    rw [hcalls] at he
    rcases calls_cases he with ⟨rfl, rfl⟩ | ⟨-, hwas⟩
    · exact ⟨c, hc, hpermit, hattaching⟩
    · exact ⟨e, hwas, rfl, fun h => h⟩
  refine ⟨hattachments ▸ h.sound, fun x e he hyes => ?_, fun x e k he hk => ?_,
    fun x y e f k he hf hk hk' => ?_, fun hyes => ?_⟩
  · obtain ⟨f, hf, hsame, hmore⟩ := hbefore he
    obtain ⟨k, g, hk, hrest⟩ := h.permits x f hf (hmore hyes)
    rw [hattachments]
    exact ⟨k, g, hsame.trans hk, hrest⟩
  · obtain ⟨f, hf, hsame, -⟩ := hbefore he
    rw [hattachments]
    exact h.fresh x f k hf (hsame.symm.trans hk)
  · obtain ⟨e', he', hsame, -⟩ := hbefore he
    obtain ⟨f', hf', hsame', -⟩ := hbefore hf
    exact h.own x y e' f' k he' hf' (hsame.symm.trans hk) (hsame'.symm.trans hk')
  · rw [hattachments]
    obtain ⟨hclosing, hnone⟩ := h.drained (hdrained ▸ hyes)
    refine ⟨hclosing, fun x e he => ?_⟩
    obtain ⟨f, hf, -, hmore⟩ := hbefore he
    cases hattaching : e.pc.attaching with
    | false => rfl
    | true => exact absurd ((hnone x f hf).symm.trans (hmore hattaching)) nofun

/-- The registry takes a step that is not of a permit in use. -/
theorem Admitted.registry (h : Admitted s) {attachments : Shutdown.State}
    (hsound : Shutdown.Sound attachments)
    (hclosing : s.attachments.closing = true → attachments.closing = true)
    (hothers : ∀ x e, s.attachments.calls x = some e → e.pc = .running →
      attachments.calls x = some e)
    (hkept : ∀ x, s.attachments.calls x ≠ none → attachments.calls x ≠ none) :
    Admitted { s with attachments } := by
  refine ⟨hsound, fun x c hc hyes => ?_, fun x c k hc hk => hkept k (h.fresh x c k hc hk), h.own,
    fun hyes => ⟨hclosing (h.drained hyes).1, (h.drained hyes).2⟩⟩
  obtain ⟨k, e, hk, he, hpc, hadmitted⟩ := h.permits x c hc hyes
  exact ⟨k, e, hk, hothers k e he hpc, hpc, hadmitted⟩

/-- The call makes a call of the registry. -/
theorem Admitted.enter (h : Admitted s) (hc : s.calls id = some c) {job : Shutdown.Job} {pc : Pc}
    (hstep : stepEnter s id c job pc choice = some t) (hattaching : pc.attaching = false) :
    Admitted t := by
  obtain ⟨k, attachments, hnext, rfl⟩ := stepEnter_cases hstep
  obtain ⟨hfree, hcalls, hclosing⟩ := Shutdown.next_start hnext
  have hne : ∀ {x e}, s.attachments.calls x = some e → x ≠ k := by
    rintro x e he rfl
    exact absurd (hfree.symm.trans he) nofun
  have hothers : ∀ {x e}, s.attachments.calls x = some e → attachments.calls x = some e :=
    fun he => by rw [hcalls, Function.update_of_ne (hne he), he]
  have hregistry : Admitted { s with attachments } :=
    h.registry (h.sound.next hnext) hclosing.trans (fun x e he _ => hothers he) fun x hx => by
      obtain ⟨e, he⟩ := Option.ne_none_iff_exists'.mp hx
      rw [hothers he]
      exact nofun
  -- The name is new, so that nobody else has it.
  have hnew : ∀ {x e}, s.calls x = some e → e.permit ≠ some k := fun he hk =>
    h.fresh _ _ k he hk hfree
  refine ⟨hregistry.sound, fun x e he hyes => ?_, fun x e j he hj => ?_,
    fun x y e f j he hf hj hj' => ?_, fun hyes => ⟨(hregistry.drained hyes).1, fun x e he => ?_⟩⟩
  · rcases calls_cases he with ⟨-, rfl⟩ | ⟨-, hwas⟩
    · exact absurd (hattaching.symm.trans hyes) nofun
    · exact hregistry.permits x e hwas hyes
  · rcases calls_cases he with ⟨-, rfl⟩ | ⟨-, hwas⟩
    · obtain rfl := Option.some.inj hj
      show attachments.calls k ≠ none
      rw [hcalls, Function.update_self]
      exact nofun
    · exact hregistry.fresh x e j hwas hj
  · rcases calls_cases he with ⟨rfl, rfl⟩ | ⟨-, hwas⟩ <;>
    rcases calls_cases hf with ⟨rfl, rfl⟩ | ⟨-, hwas'⟩
    · rfl
    · obtain rfl := Option.some.inj hj
      exact absurd hj' (hnew hwas')
    · obtain rfl := Option.some.inj hj'
      exact absurd hj (hnew hwas)
    · exact h.own x y e f j hwas hwas' hj hj'
  · rcases calls_cases he with ⟨-, rfl⟩ | ⟨-, hwas⟩
    · exact hattaching
    · exact (h.drained hyes).2 x e hwas

/-- The call's permit takes a step. -/
theorem Admitted.permit (h : Admitted s) (hc : s.calls id = some c)
    {permitChoice : Shutdown.Choice} {attachments : Shutdown.State} {pc : Pc}
    (hk : c.permit = some k)
    (hnext : Shutdown.next s.attachments (.step k permitChoice) = some attachments)
    (hattaching : pc.attaching = true → s.attachments.closing = false ∧
      HasPermit attachments { c with pc }) :
    Admitted ({ s with attachments }.goto id c pc) := by
  have hothers : ∀ {x e}, x ≠ k → s.attachments.calls x = some e → attachments.calls x = some e :=
    fun hx he => Shutdown.next_step_others hnext hx he
  have hkept : ∀ x, s.attachments.calls x ≠ none → attachments.calls x ≠ none := fun x hx => by
    by_cases hxk : x = k
    · rw [hxk]
      exact Shutdown.next_step_self hnext
    · obtain ⟨e, he⟩ := Option.ne_none_iff_exists'.mp hx
      rw [hothers hxk he]
      exact nofun
  have hclosing := Shutdown.next_closing h.sound.tracked hnext
  refine ⟨h.sound.next hnext, fun x e he hyes => ?_, fun x e j he hj => ?_,
    fun x y e f j he hf hj hj' => ?_, fun hyes => ⟨hclosing (h.drained hyes).1, fun x e he => ?_⟩⟩
  · rcases calls_cases he with ⟨-, rfl⟩ | ⟨hx, hwas⟩
    · exact (hattaching hyes).2
    · obtain ⟨j, f, hj, hf, hrest⟩ := h.permits x e hwas hyes
      refine ⟨j, f, hj, hothers ?_ hf, hrest⟩
      rintro rfl
      exact hx (h.own x id e c j hwas hc hj hk)
  · rcases calls_cases he with ⟨-, rfl⟩ | ⟨-, hwas⟩
    · exact hkept j (h.fresh id c j hc hj)
    · exact hkept j (h.fresh x e j hwas hj)
  · rcases calls_cases he with ⟨rfl, rfl⟩ | ⟨-, hwas⟩ <;>
    rcases calls_cases hf with ⟨rfl, rfl⟩ | ⟨-, hwas'⟩
    · rfl
    · exact h.own x y c f j hc hwas' hj hj'
    · exact h.own x y e c j hwas hc hj hj'
    · exact h.own x y e f j hwas hwas' hj hj'
  · rcases calls_cases he with ⟨-, rfl⟩ | ⟨-, hwas⟩
    · cases hyet : pc.attaching with
      | false => rfl
      | true => exact absurd ((hattaching hyet).1.symm.trans (h.drained hyes).1) nofun
    · exact (h.drained hyes).2 x e hwas

/-! ## The steps -/

theorem Admitted.stepAttach (h : Admitted s) (hc : s.calls id = some c)
    (hstep : stepAttach s id c choice = some t) : Admitted t := by
  unfold Plugins.stepAttach at hstep
  split at hstep
  case h_1 purpose hpc => exact h.enter hc hstep rfl
  case h_2 purpose hpc =>
    obtain ⟨k, e, attachments, hk, he, hrunning, hnext, rfl⟩ := stepPermit_cases hstep
    refine h.permit hc hk hnext fun hyes => ?_
    split at hyes
    · cases hyes
    · rename_i hopen
      have hopen := Bool.eq_false_iff.mpr hopen
      refine ⟨hopen, k, { e with admitted := e.admitted || !s.attachments.closing }, hk, ?_,
        hrunning, ?_⟩
      · rw [Shutdown.next_admission hnext he hrunning, Function.update_self]
      · rw [hopen]
        exact Bool.or_true _
  case h_3 hpc =>
    split at hstep
    · split at hstep <;> obtain rfl := Option.some.inj hstep
      · exact h.goes hc rfl rfl rfl rfl fun _ => by rw [hpc]; rfl
      · exact h.goes hc rfl rfl rfl rfl nofun
    · cases hstep
  case h_4 hpc =>
    split at hstep
    · obtain rfl := Option.some.inj hstep
      exact h.goes hc rfl rfl rfl rfl nofun
    · split at hstep
      · obtain rfl := Option.some.inj hstep
        exact h.goes hc rfl rfl rfl rfl fun _ => by rw [hpc]; rfl
      · cases hstep
    · cases hstep
  case h_5 k hpc =>
    split at hstep
    · obtain ⟨a, ha, rfl⟩ := Option.map_eq_some_iff.mp hstep
      exact h.goes hc rfl rfl rfl rfl fun _ => by rw [hpc]; rfl
    · cases hstep
  case h_6 k hpc =>
    split at hstep
    · obtain rfl := Option.some.inj hstep
      exact h.goes hc rfl rfl rfl rfl nofun
    · obtain ⟨a, ha, rfl⟩ := Option.map_eq_some_iff.mp hstep
      exact h.goes hc rfl rfl rfl rfl nofun
  case h_7 hpc =>
    obtain ⟨k, e, attachments, hk, -, -, hnext, rfl⟩ := stepPermit_cases hstep
    exact h.permit hc hk hnext nofun
  case h_8 hpc =>
    split at hstep
    · obtain rfl := Option.some.inj hstep
      exact h.goes hc rfl rfl rfl rfl nofun
    · cases hstep
  case h_9 => cases hstep

theorem Admitted.stepHost (h : Admitted s) (hc : s.calls id = some c)
    (hstep : stepHost s id c = some t) : Admitted t := by
  unfold Plugins.stepHost at hstep
  split at hstep
  case h_1 cont hpc =>
    split at hstep
    · obtain rfl := Option.some.inj hstep
      exact h.goes hc rfl rfl rfl rfl fun hyes => by rw [hpc]; exact hyes
    · cases hstep
  case h_2 index cont hpc =>
    have hstays : ∀ {pc : Pc}, pc.attaching = cont.attaching → pc.attaching = true →
        c.pc.attaching = true := fun hsame hyes => by
      rw [hpc]
      exact hsame.symm.trans hyes
    split at hstep
    · split at hstep
      · split at hstep <;> obtain rfl := Option.some.inj hstep <;>
        exact h.goes hc rfl rfl rfl rfl (hstays rfl)
      · obtain rfl := Option.some.inj hstep
        exact h.goes hc rfl rfl rfl rfl (hstays rfl)
    · obtain rfl := Option.some.inj hstep
      exact h.goes hc rfl rfl rfl rfl (hstays rfl)
  case h_3 cont hpc | h_4 cont hpc =>
    obtain rfl := Option.some.inj hstep
    exact h.goes hc rfl rfl rfl rfl fun hyes => by rw [hpc]; exact hyes
  case h_5 cont hpc =>
    obtain rfl := Option.some.inj hstep
    exact h.goes hc rfl rfl rfl rfl fun hyes => by
      rw [hpc]
      exact cont.pc_attaching.symm.trans hyes
  case h_6 => cases hstep

theorem Admitted.stepClose (h : Admitted s) (hc : s.calls id = some c)
    (hstep : stepClose s id c choice = some t) : Admitted t := by
  have hcont : ∀ {closing : Closing} {slots : List Nat}, (closing.cont slots).attaching = false :=
    fun {closing _} => by cases closing <;> rfl
  unfold Plugins.stepClose at hstep
  split at hstep
  case h_1 closing hpc => exact h.enter hc hstep rfl
  case h_2 closing hpc =>
    split at hstep
    · obtain rfl := Option.some.inj hstep
      exact h.goes hc rfl rfl rfl rfl nofun
    · cases hstep
  case h_3 closing hpc =>
    split at hstep
    · split at hstep <;> obtain rfl := Option.some.inj hstep
      · exact h.goes hc rfl rfl rfl rfl fun hyes => absurd (hcont.symm.trans hyes) nofun
      · refine h.goes hc rfl rfl rfl rfl fun hyes => ?_
        exact absurd ((Cont.pc_attaching _).trans hcont |>.symm.trans hyes) nofun
    · cases hstep
  case h_4 hpc =>
    split at hstep
    · -- Whoever attaches would still have an admitted permit.
      rename_i hreturned
      obtain rfl := Option.some.inj hstep
      have hclosing : s.attachments.closing = true :=
        h.sound.draining.closing (by rw [hreturned]; exact nofun)
      have hnone : ∀ x e, s.calls x = some e → e.pc.attaching = false := by
        intro x e he
        cases hyes : e.pc.attaching with
        | false => rfl
        | true =>
          obtain ⟨k, f, -, hf, hrunning, hadmitted⟩ := h.permits x e he hyes
          exact absurd (hrunning.symm.trans (h.sound.draining.ended hreturned hf hadmitted)) nofun
      have hgoes : Admitted (s.goto id c (.close .second)) := h.goes hc rfl rfl rfl rfl nofun
      refine ⟨hgoes.sound, hgoes.permits, hgoes.fresh, hgoes.own,
        fun _ => ⟨hclosing, fun x e he => ?_⟩⟩
      rcases calls_cases he with ⟨-, rfl⟩ | ⟨-, hwas⟩
      · rfl
      · exact hnone x e hwas
    · cases hstep
  case h_5 k slots hpc =>
    split at hstep
    · obtain rfl := Option.some.inj hstep
      refine h.goes hc rfl rfl rfl rfl fun hyes => ?_
      exact absurd ((Cont.pc_attaching _).symm.trans hyes) nofun
    · cases hstep
  case h_6 => cases hstep

theorem Admitted.stepStop (h : Admitted s) (hc : s.calls id = some c)
    (hstep : stepStop s id c choice = some t) : Admitted t := by
  unfold Plugins.stepStop at hstep
  split at hstep
  case h_1 k cont hpc =>
    have hstays : cont.attaching = true → c.pc.attaching = true := fun hyes => by
      rw [hpc]
      exact hyes
    have hback : cont.pc.attaching = true → c.pc.attaching = true := fun hyes =>
      hstays (cont.pc_attaching.symm.trans hyes)
    obtain ⟨a, -, hresult⟩ := Option.map_eq_some_iff.mp hstep
    split at hresult <;> subst hresult
    · exact h.goes hc rfl rfl rfl rfl hstays
    · exact h.goes hc rfl rfl rfl rfl hback
    · exact h.goes hc rfl rfl rfl rfl hback
    · exact h.goes hc rfl rfl rfl rfl hback
    · exact h.goes hc rfl rfl rfl rfl hback
  case h_2 k cont hpc =>
    split at hstep
    · obtain ⟨a, -, rfl⟩ := Option.map_eq_some_iff.mp hstep
      exact h.goes hc rfl rfl rfl rfl fun hyes => by rw [hpc]; exact hyes
    · cases hstep
  case h_3 k ok cont hpc =>
    obtain ⟨a, -, rfl⟩ := Option.map_eq_some_iff.mp hstep
    exact h.goes hc rfl rfl rfl rfl fun hyes => by
      rw [hpc]
      exact cont.pc_attaching.symm.trans hyes
  case h_4 => cases hstep

theorem Admitted.stepCapture (h : Admitted s) (hc : s.calls id = some c)
    (hstep : stepCapture s id c = some t) : Admitted t := by
  unfold Plugins.stepCapture at hstep
  split at hstep
  case h_1 selection hpc =>
    obtain rfl := Option.some.inj hstep
    exact h.goes hc rfl rfl rfl rfl nofun
  case h_2 selection listeners hpc =>
    split at hstep <;> obtain rfl := Option.some.inj hstep <;>
    exact h.goes hc rfl rfl rfl rfl nofun
  case h_3 selection hpc =>
    split at hstep
    · split at hstep <;> obtain rfl := Option.some.inj hstep <;>
      exact h.goes hc rfl rfl rfl rfl nofun
    · cases hstep
  case h_4 k rest leases hpc =>
    obtain ⟨a, -, hresult⟩ := Option.map_eq_some_iff.mp hstep
    split at hresult <;> subst hresult <;> exact h.goes hc rfl rfl rfl rfl nofun
  case h_5 leases hpc =>
    obtain rfl := Option.some.inj hstep
    refine h.goes hc rfl rfl rfl rfl ?_
    split <;> exact nofun
  case h_6 leases hpc =>
    obtain rfl := Option.some.inj hstep
    exact h.goes hc rfl rfl rfl rfl nofun
  case h_7 k rest hpc =>
    obtain ⟨a, -, rfl⟩ := Option.map_eq_some_iff.mp hstep
    split
    · exact h.goes hc rfl rfl rfl rfl nofun
    · exact h.goes hc rfl rfl rfl rfl nofun
    · exact h.goes hc rfl rfl rfl rfl nofun
    · split <;> exact h.goes hc rfl rfl rfl rfl nofun
    · exact h.goes hc rfl rfl rfl rfl nofun
    · exact h.goes hc rfl rfl rfl rfl nofun
  case h_8 hpc =>
    obtain rfl := Option.some.inj hstep
    exact h.goes hc rfl rfl rfl rfl nofun
  case h_9 => cases hstep

theorem Admitted.stepCall (h : Admitted s) (hc : s.calls id = some c)
    (hstep : stepCall s id c choice = some t) : Admitted t := by
  rcases stepCall_cases hstep with hstep | hstep | hstep | hstep | hstep
  · exact h.stepAttach hc hstep
  · exact h.stepHost hc hstep
  · exact h.stepCapture hc hstep
  · exact h.stepStop hc hstep
  · exact h.stepClose hc hstep

theorem Job.entry_attaching (job : Job) : job.entry.attaching = false := by
  cases job <;> rfl

theorem Admitted.start (h : Admitted s) (hfree : s.calls id = none) {thread : Nat} {job : Job} :
    Admitted (s.put id { thread, job, pc := job.entry }) := by
  refine ⟨h.sound, fun x e he hyes => ?_, fun x e k he hk => ?_,
    fun x y e f k he hf hk hk' => ?_, fun hyes => ⟨(h.drained hyes).1, fun x e he => ?_⟩⟩
  · rcases calls_cases he with ⟨-, rfl⟩ | ⟨-, hwas⟩
    · exact absurd (job.entry_attaching.symm.trans hyes) nofun
    · exact h.permits x e hwas hyes
  · rcases calls_cases he with ⟨-, rfl⟩ | ⟨-, hwas⟩
    · cases hk
    · exact h.fresh x e k hwas hk
  · rcases calls_cases he with ⟨rfl, rfl⟩ | ⟨-, hwas⟩
    · cases hk
    · rcases calls_cases hf with ⟨rfl, rfl⟩ | ⟨-, hwas'⟩
      · cases hk'
      · exact h.own x y e f k hwas hwas' hk hk'
  · rcases calls_cases he with ⟨-, rfl⟩ | ⟨-, hwas⟩
    · exact job.entry_attaching
    · exact (h.drained hyes).2 x e hwas

theorem Admitted.next {action : Action} (h : Admitted s) (hstep : next s action = some t) :
    Admitted t := by
  cases action with
  | start id thread job =>
    unfold Plugins.next at hstep
    dsimp only at hstep
    split at hstep
    · rename_i hguard
      obtain rfl := Option.some.inj hstep
      exact h.start (Option.isNone_iff_eq_none.mp hguard.1)
    · cases hstep
  | step id choice =>
    obtain ⟨c, hc, hstep⟩ := Option.bind_eq_some_iff.mp hstep
    exact h.stepCall hc hstep
  | scope k choice =>
    unfold Plugins.next at hstep
    dsimp only at hstep
    split at hstep
    · cases hstep
    · rename_i hidle
      obtain ⟨attachments, hnext, rfl⟩ := Option.map_eq_some_iff.mp hstep
      refine h.registry (h.sound.next hnext) (Shutdown.next_closing h.sound.tracked hnext)
        (fun x e he hrunning => Shutdown.next_step_others hnext ?_ he) fun x hx => ?_
      · -- A permit in use is not the registry's to move.
        rintro rfl
        rw [he] at hidle
        exact hidle (by simp [hrunning])
      · by_cases hxk : x = k
        · rw [hxk]
          exact Shutdown.next_step_self hnext
        · obtain ⟨e, he⟩ := Option.ne_none_iff_exists'.mp hx
          rw [Shutdown.next_step_others hnext hxk he]
          exact nofun
  | drain =>
    obtain ⟨attachments, hnext, rfl⟩ := Option.map_eq_some_iff.mp hstep
    have hsame : attachments.calls = s.attachments.calls := (Shutdown.stepDrain_same hnext).1
    refine h.registry (h.sound.next hnext) (Shutdown.next_closing h.sound.tracked hnext)
      (fun x e he _ => hsame ▸ he) fun x hx => hsame ▸ hx

theorem Admitted.init : Admitted init where
  sound := ⟨.init, .init, .init, .init, .init⟩
  permits _ _ hc := nomatch hc
  fresh _ _ _ hc := nomatch hc
  own _ _ _ _ _ hc := nomatch hc
  drained hyes := nomatch hyes

end Plugins

end Amalgam
