import Amalgam.Plugins.Sessions

/-!
# Amalgam — the published counts of a plugin host

Whoever changes the slots has their lock and publishes the counts before it is free again.

* **`Published`** — the invariant.
* **`Published.next`** — every step keeps it.
-/

namespace Amalgam

namespace Plugins

variable {s t : State} {id k : Nat} {c d : Call} {a b : Session} {cont : Cont} {choice : Choice}

/-- The call has the lock of the slots. -/
def Pc.locked : Pc → Bool
  | .scan .. | .observers _ | .listeners _ | .unlock _ => true
  | _ => false

/-- What the call has published already. -/
def Pc.Told (s : State) : Pc → Prop
  | .listeners _ => s.observers = s.observing
  | .unlock _ => s.observers = s.observing ∧ s.listeners = s.listening
  | _ => True

structure Published (s : State) : Prop where
  writer : ∀ x, s.writer = some x ↔ ∃ c, s.calls x = some c ∧ c.pc.locked = true
  known : ∀ k ∈ s.host.slots, s.sessions k ≠ none
  free : s.writer = none → s.observers = s.observing ∧ s.listeners = s.listening
  told : ∀ x c, s.calls x = some c → c.pc.Told s

theorem Cont.pc_locked (cont : Cont) : cont.pc.locked = false := by
  cases cont with
  | stops closing slots => cases slots <;> cases closing <;> rfl
  | waits slots => cases slots <;> rfl
  | _ => rfl

theorem Purpose.pc_locked (purpose : Purpose) : purpose.pc.locked = false := by
  cases purpose <;> rfl

theorem Job.entry_locked (job : Job) : job.entry.locked = false := by cases job <;> rfl

theorem told_of_unlocked {pc : Pc} (h : pc.locked = false) : pc.Told s := by
  cases pc with
  | listeners _ | unlock _ => cases h
  | _ => trivial

/-- The counts are those of the slots that are there. -/
theorem told_congr {pc : Pc} (hhost : t.host = s.host)
    (hsame : ∀ k ∈ s.host.slots, t.isObserving k = s.isObserving k)
    (hobservers : t.observers = s.observers) (hlisteners : t.listeners = s.listeners)
    (h : pc.Told s) : pc.Told t := by
  have hlistening : t.listening = s.listening := by
    unfold State.listening
    rw [hhost]
  have hobserving : t.observing = s.observing := by
    unfold State.observing
    rw [hhost]
    cases hstate : s.host with
    | running slots =>
      refine congrArg List.length (List.filter_congr fun k hk => hsame k ?_)
      rw [hstate]
      exact hk
    | stopped slots => rfl
  cases pc with
  | listeners _ => exact hobservers.trans (Eq.trans h hobserving.symm)
  | unlock _ =>
    exact ⟨hobservers.trans (h.1.trans hobserving.symm),
      hlisteners.trans (h.2.trans hlistening.symm)⟩
  | _ => trivial

theorem Did.observing (h : Did s t) (hk : s.sessions k ≠ none) :
    t.isObserving k = s.isObserving k := by
  obtain ⟨a, ha⟩ := Option.ne_none_iff_exists'.mp hk
  obtain ⟨b, hb, hkept⟩ := h.session ha
  unfold State.isObserving
  rw [ha, hb]
  exact hkept.observing

theorem Did.known (h : Did s t) (hk : s.sessions k ≠ none) : t.sessions k ≠ none := by
  obtain ⟨a, ha⟩ := Option.ne_none_iff_exists'.mp hk
  obtain ⟨b, hb, -⟩ := h.session ha
  rw [hb]
  exact nofun

/-- A step without the lock. -/
theorem Published.aside (h : Published s) (hc : s.calls id = some c) (hdid : Did s t)
    (hcalls : t.calls = Function.update s.calls id (some d)) (hhost : t.host = s.host)
    (hwriter : t.writer = s.writer) (hobservers : t.observers = s.observers)
    (hlisteners : t.listeners = s.listeners) (hbefore : c.pc.locked = false)
    (hafter : d.pc.locked = false) : Published t := by
  have hkept : ∀ pc : Pc, pc.Told s → pc.Told t := fun _ htold =>
    told_congr hhost (fun k hk => hdid.observing (h.known k hk)) hobservers hlisteners htold
  refine ⟨fun x => ?_, fun k hk => ?_, fun hfree => ?_, fun x e he => ?_⟩
  · rw [hwriter, h.writer, hcalls]
    by_cases hx : x = id
    · subst hx
      rw [hc, Function.update_self]
      constructor <;> rintro ⟨e, he, hlocked⟩ <;> obtain rfl := Option.some.inj he
      · rw [hbefore] at hlocked
        cases hlocked
      · rw [hafter] at hlocked
        cases hlocked
    · rw [Function.update_of_ne hx]
  · rw [hhost] at hk
    exact hdid.known (h.known k hk)
  · exact hkept (.unlock .check) (h.free (hwriter ▸ hfree))
  · rw [hcalls] at he
    rcases calls_cases he with ⟨-, rfl⟩ | ⟨-, hwas⟩
    · exact told_of_unlocked hafter
    · exact hkept e.pc (h.told x e hwas)

/-- A step with the lock, or one that takes it. -/
theorem Published.holding (h : Published s)
    (hlock : s.writer = none ∨ s.writer = some id)
    (hcalls : t.calls = Function.update s.calls id (some d))
    (hwriter : t.writer = if d.pc.locked then some id else none)
    (hknown : ∀ k ∈ t.host.slots, t.sessions k ≠ none) (htold : d.pc.Told t)
    (hfree : d.pc.locked = false → t.observers = t.observing ∧ t.listeners = t.listening) :
    Published t := by
  -- Nobody else has the lock.
  have hothers : ∀ {x e}, x ≠ id → s.calls x = some e → e.pc.locked = false := by
    intro x e hx he
    cases hlocked : e.pc.locked with
    | false => rfl
    | true =>
      have hwho := (h.writer x).mpr ⟨e, he, hlocked⟩
      rcases hlock with hnone | hmine
      · exact absurd (hnone.symm.trans hwho) nofun
      · exact absurd (Option.some.inj (hmine.symm.trans hwho)).symm hx
  refine ⟨fun x => ?_, hknown, fun hnone => hfree ?_, fun x e he => ?_⟩
  · rw [hwriter, hcalls]
    by_cases hx : x = id
    · subst hx
      rw [Function.update_self]
      constructor
      · intro hsome
        split at hsome
        · rename_i hlocked
          exact ⟨d, rfl, hlocked⟩
        · cases hsome
      · rintro ⟨e, he, hlocked⟩
        obtain rfl := Option.some.inj he
        rw [if_pos hlocked]
    · rw [Function.update_of_ne hx]
      constructor
      · intro hsome
        split at hsome
        · exact absurd (Option.some.inj hsome).symm hx
        · cases hsome
      · rintro ⟨e, he, hlocked⟩
        rw [hothers hx he] at hlocked
        cases hlocked
  · rw [hwriter] at hnone
    cases hlocked : d.pc.locked with
    | false => rfl
    | true =>
      rw [if_pos hlocked] at hnone
      cases hnone
  · rw [hcalls] at he
    rcases calls_cases he with ⟨-, rfl⟩ | ⟨hx, hwas⟩
    · exact htold
    · exact told_of_unlocked (hothers hx hwas)

theorem Published.mine (h : Published s) (hc : s.calls id = some c) (hlocked : c.pc.locked = true) :
    s.writer = none ∨ s.writer = some id := .inr ((h.writer id).mpr ⟨c, hc, hlocked⟩)

theorem mem_swapRemove {slots : List Nat} {index : Nat} (h : k ∈ swapRemove slots index) :
    k ∈ slots := by
  unfold swapRemove at h
  rcases List.mem_or_eq_of_mem_set (List.mem_of_mem_dropLast h) with hmem | rfl
  · exact hmem
  · cases slots with
    | nil => cases h
    | cons first rest =>
      rw [List.getLastD_cons]
      exact List.getLastD_mem_cons ..

theorem push_slots (k : Nat) (host : HostState) : (host.push k).slots = host.slots ++ [k] := by
  cases host <;> rfl

/-! ## The steps -/

theorem Published.stepAttach (h : Published s) (hc : s.calls id = some c)
    (hstep : stepAttach s id c choice = some t) : Published t := by
  have hdid := stepAttach_did hstep
  unfold Plugins.stepAttach at hstep
  split at hstep
  case h_1 purpose hpc =>
    obtain ⟨k, attachments, -, rfl⟩ := stepEnter_cases hstep
    exact h.aside hc hdid rfl rfl rfl rfl rfl (by rw [hpc]; rfl) rfl
  case h_2 purpose hpc =>
    obtain ⟨k, e, attachments, -, -, -, -, rfl⟩ := stepPermit_cases hstep
    refine h.aside hc hdid rfl rfl rfl rfl rfl (by rw [hpc]; rfl) ?_
    dsimp only
    split
    · rfl
    · exact purpose.pc_locked
  case h_3 hpc =>
    split at hstep
    · split at hstep <;> obtain rfl := Option.some.inj hstep <;>
      exact h.aside hc hdid rfl rfl rfl rfl rfl (by rw [hpc]; rfl) rfl
    · cases hstep
  case h_4 hpc =>
    split at hstep
    · obtain rfl := Option.some.inj hstep
      exact h.aside hc hdid rfl rfl rfl rfl rfl (by rw [hpc]; rfl) rfl
    · split at hstep
      · obtain rfl := Option.some.inj hstep
        exact h.aside hc hdid rfl rfl rfl rfl rfl (by rw [hpc]; rfl) rfl
      · cases hstep
    · cases hstep
  case h_5 k hpc =>
    split at hstep
    · rename_i hfree
      obtain ⟨a, ha, rfl⟩ := Option.map_eq_some_iff.mp hstep
      refine h.holding (.inl hfree) rfl rfl (fun j hj => hdid.known ?_) trivial nofun
      change j ∈ (s.host.push k).slots at hj
      rw [push_slots] at hj
      rcases List.mem_append.mp hj with hwas | hnew
      · exact h.known j hwas
      · rw [List.mem_singleton.mp hnew, ha]
        exact nofun
    · cases hstep
  case h_6 k hpc =>
    split at hstep
    · obtain rfl := Option.some.inj hstep
      exact h.aside hc hdid rfl rfl rfl rfl rfl (by rw [hpc]; rfl) rfl
    · obtain ⟨a, ha, rfl⟩ := Option.map_eq_some_iff.mp hstep
      exact h.aside hc hdid rfl rfl rfl rfl rfl (by rw [hpc]; rfl) rfl
  case h_7 hpc =>
    obtain ⟨k, e, attachments, -, -, -, -, rfl⟩ := stepPermit_cases hstep
    exact h.aside hc hdid rfl rfl rfl rfl rfl (by rw [hpc]; rfl) rfl
  case h_8 hpc =>
    split at hstep
    · obtain rfl := Option.some.inj hstep
      exact h.aside hc hdid rfl rfl rfl rfl rfl (by rw [hpc]; rfl) rfl
    · cases hstep
  case h_9 => cases hstep

theorem Published.stepHost (h : Published s) (hc : s.calls id = some c)
    (hstep : stepHost s id c = some t) : Published t := by
  unfold Plugins.stepHost at hstep
  split at hstep
  case h_1 cont hpc =>
    split at hstep
    · rename_i hfree
      obtain rfl := Option.some.inj hstep
      exact h.holding (.inl hfree) rfl rfl h.known trivial nofun
    · cases hstep
  case h_2 index cont hpc =>
    have hmine := h.mine hc (by rw [hpc]; rfl)
    have hwriter : s.writer = some id := (h.writer id).mpr ⟨c, hc, by rw [hpc]; rfl⟩
    split at hstep
    · rename_i slots hhost
      split at hstep
      · split at hstep <;> obtain rfl := Option.some.inj hstep
        · refine h.holding hmine rfl hwriter (fun k hk => h.known k ?_) trivial nofun
          rw [hhost]
          exact mem_swapRemove hk
        · exact h.holding hmine rfl hwriter h.known trivial nofun
      · obtain rfl := Option.some.inj hstep
        exact h.holding hmine rfl hwriter h.known trivial nofun
    · obtain rfl := Option.some.inj hstep
      exact h.holding hmine rfl hwriter h.known trivial nofun
  case h_3 cont hpc =>
    have hwriter : s.writer = some id := (h.writer id).mpr ⟨c, hc, by rw [hpc]; rfl⟩
    obtain rfl := Option.some.inj hstep
    exact h.holding (.inr hwriter) rfl hwriter h.known rfl nofun
  case h_4 cont hpc =>
    have hwriter : s.writer = some id := (h.writer id).mpr ⟨c, hc, by rw [hpc]; rfl⟩
    have htold : s.observers = s.observing := by
      have htold := h.told id c hc
      rw [hpc] at htold
      exact htold
    obtain rfl := Option.some.inj hstep
    exact h.holding (.inr hwriter) rfl hwriter h.known ⟨htold, rfl⟩ nofun
  case h_5 cont hpc =>
    have hwriter : s.writer = some id := (h.writer id).mpr ⟨c, hc, by rw [hpc]; rfl⟩
    have htold := h.told id c hc
    rw [hpc] at htold
    obtain rfl := Option.some.inj hstep
    refine h.holding (.inr hwriter) rfl ?_ h.known (told_of_unlocked cont.pc_locked) fun _ => htold
    show none = if cont.pc.locked then some id else none
    rw [cont.pc_locked]
    rfl
  case h_6 => cases hstep

theorem Published.stepCapture (h : Published s) (hc : s.calls id = some c)
    (hstep : stepCapture s id c = some t) : Published t := by
  have hdid := stepCapture_did hstep
  unfold Plugins.stepCapture at hstep
  split at hstep
  case h_1 | h_6 | h_8 =>
    rename_i hpc
    obtain rfl := Option.some.inj hstep
    exact h.aside hc hdid rfl rfl rfl rfl rfl (by rw [hpc]; rfl) rfl
  case h_2 selection listeners hpc =>
    split at hstep <;> obtain rfl := Option.some.inj hstep <;>
    exact h.aside hc hdid rfl rfl rfl rfl rfl (by rw [hpc]; rfl) rfl
  case h_3 selection hpc =>
    split at hstep
    · split at hstep <;> obtain rfl := Option.some.inj hstep <;>
      exact h.aside hc hdid rfl rfl rfl rfl rfl (by rw [hpc]; rfl) rfl
    · cases hstep
  case h_4 k rest leases hpc =>
    obtain ⟨a, -, hresult⟩ := Option.map_eq_some_iff.mp hstep
    split at hresult <;> subst hresult <;>
    exact h.aside hc hdid rfl rfl rfl rfl rfl (by rw [hpc]; rfl) rfl
  case h_5 leases hpc =>
    obtain rfl := Option.some.inj hstep
    refine h.aside hc hdid rfl rfl rfl rfl rfl (by rw [hpc]; rfl) ?_
    dsimp only
    split <;> rfl
  case h_7 k rest hpc =>
    obtain ⟨a, -, hresult⟩ := Option.map_eq_some_iff.mp hstep
    dsimp only at hresult
    split at hresult
    case h_4 =>
      split at hresult <;> subst hresult <;>
      exact h.aside hc hdid rfl rfl rfl rfl rfl (by rw [hpc]; rfl) rfl
    all_goals
      subst hresult
      exact h.aside hc hdid rfl rfl rfl rfl rfl (by rw [hpc]; rfl) rfl
  case h_9 => cases hstep

theorem Published.stepStop (h : Published s) (hc : s.calls id = some c)
    (hstep : stepStop s id c choice = some t) : Published t := by
  have hdid := stepStop_did hstep
  unfold Plugins.stepStop at hstep
  split at hstep
  case h_1 k cont hpc =>
    have hbefore : c.pc.locked = false := by rw [hpc]; rfl
    obtain ⟨a, -, hresult⟩ := Option.map_eq_some_iff.mp hstep
    split at hresult <;> subst hresult
    case h_1 => exact h.aside hc hdid rfl rfl rfl rfl rfl hbefore rfl
    all_goals exact h.aside hc hdid rfl rfl rfl rfl rfl hbefore cont.pc_locked
  case h_2 k cont hpc =>
    split at hstep
    · obtain ⟨a, -, rfl⟩ := Option.map_eq_some_iff.mp hstep
      exact h.aside hc hdid rfl rfl rfl rfl rfl (by rw [hpc]; rfl) rfl
    · cases hstep
  case h_3 k ok cont hpc =>
    obtain ⟨a, -, rfl⟩ := Option.map_eq_some_iff.mp hstep
    exact h.aside hc hdid rfl rfl rfl rfl rfl (by rw [hpc]; rfl) cont.pc_locked
  case h_4 => cases hstep

theorem Published.stepClose (h : Published s) (hc : s.calls id = some c)
    (hstep : stepClose s id c choice = some t) : Published t := by
  obtain ⟨hsessions, hleases⟩ := stepClose_same hstep
  have hdid : Did s t := .nothing hsessions hleases
  unfold Plugins.stepClose at hstep
  split at hstep
  case h_1 closing hpc =>
    obtain ⟨k, attachments, -, rfl⟩ := stepEnter_cases hstep
    exact h.aside hc hdid rfl rfl rfl rfl rfl (by rw [hpc]; rfl) rfl
  case h_2 closing hpc | h_4 hpc =>
    split at hstep
    · obtain rfl := Option.some.inj hstep
      exact h.aside hc hdid rfl rfl rfl rfl rfl (by rw [hpc]; rfl) rfl
    · cases hstep
  case h_3 closing hpc =>
    split at hstep
    · rename_i hfree
      split at hstep <;> rename_i slots hhost <;> obtain rfl := Option.some.inj hstep
      · refine h.holding (.inl hfree) rfl rfl (fun k hk => h.known k ?_) trivial nofun
        rw [hhost]
        exact hk
      · exact h.aside hc hdid rfl rfl rfl rfl rfl (by rw [hpc]; rfl) (closing.cont slots).pc_locked
    · cases hstep
  case h_5 k slots hpc =>
    split at hstep
    · obtain rfl := Option.some.inj hstep
      exact h.aside hc hdid rfl rfl rfl rfl rfl (by rw [hpc]; rfl) (Cont.pc_locked _)
    · cases hstep
  case h_6 => cases hstep

theorem Published.elsewhere (h : Published s) (attachments : Shutdown.State) :
    Published { s with attachments } := by
  refine ⟨h.writer, h.known, h.free, fun x c hc => ?_⟩
  exact told_congr (s := s) rfl (fun _ _ => rfl) rfl rfl (h.told x c hc)

theorem Published.start (h : Published s) (hfree : s.calls id = none) (thread : Nat) (job : Job) :
    Published (s.put id { thread, job, pc := job.entry }) := by
  refine ⟨fun x => ?_, h.known, h.free, fun x e he => ?_⟩
  · refine (h.writer x).trans ?_
    show _ ↔ ∃ c, Function.update s.calls id _ x = some c ∧ _
    by_cases hx : x = id
    · rw [hx, hfree, Function.update_self]
      constructor <;> rintro ⟨e, he, hlocked⟩
      · cases he
      · obtain rfl := Option.some.inj he
        exact absurd (job.entry_locked.symm.trans hlocked) nofun
    · rw [Function.update_of_ne hx]
  · rcases calls_cases he with ⟨-, rfl⟩ | ⟨-, hwas⟩
    · exact told_of_unlocked job.entry_locked
    · exact told_congr (s := s) rfl (fun _ _ => rfl) rfl rfl (h.told x e hwas)

theorem Published.next (h : Published s) {action : Action} (hstep : next s action = some t) :
    Published t := by
  cases action with
  | start id thread job =>
    unfold Plugins.next at hstep
    dsimp only at hstep
    split at hstep
    · rename_i hpossible
      obtain rfl := Option.some.inj hstep
      exact h.start (Option.isNone_iff_eq_none.mp hpossible.1) thread job
    · cases hstep
  | step id choice =>
    obtain ⟨c, hc, hcall⟩ := Option.bind_eq_some_iff.mp hstep
    obtain hattach | hhost | hcapture | hstop | hclose := stepCall_cases hcall
    · exact h.stepAttach hc hattach
    · exact h.stepHost hc hhost
    · exact h.stepCapture hc hcapture
    · exact h.stepStop hc hstop
    · exact h.stepClose hc hclose
  | scope k choice =>
    unfold Plugins.next at hstep
    dsimp only at hstep
    split at hstep
    · cases hstep
    · obtain ⟨attachments, -, rfl⟩ := Option.map_eq_some_iff.mp hstep
      exact h.elsewhere attachments
  | drain =>
    obtain ⟨attachments, -, rfl⟩ := Option.map_eq_some_iff.mp hstep
    exact h.elsewhere attachments

theorem Published.init : Published init where
  writer _ := ⟨nofun, fun ⟨_, hc, _⟩ => nomatch hc⟩
  known _ hk := nomatch hk
  free _ := ⟨rfl, rfl⟩
  told _ _ hc := nomatch hc

end Plugins

end Amalgam
