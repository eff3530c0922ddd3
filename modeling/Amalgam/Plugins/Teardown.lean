import Amalgam.Plugins.Admitted

/-!
# Amalgam — the end of plugin sessions

Somebody sees to it that every session is stopped: the caller of `attach` who has it, the call that
attaches it, or whoever stopped the host. A `shutdown` makes its second snapshot when nobody attaches
any more, and awaits every session in it.

* **`Moved`** — what one step of a call does to the sessions it is responsible for.
* **`Owed`** and **`Torn`** — the invariants.
* **`plugin_session_lifecycle`** — what follows from them and from those of the other modules.
-/

namespace Amalgam

namespace Plugins

variable {s t : State} {id k : Nat} {c d : Call} {a b : Session} {cont : Cont} {choice : Choice}

/-! ## Who is responsible for a session -/

def Cont.carried : Cont → List Nat
  | .status k => [k]
  | _ => []

/-- The session that the call attaches, and has not given away. -/
def Pc.carried : Pc → List Nat
  | .push k | .status k => [k]
  | .prune cont | .scan _ cont | .observers cont | .listeners cont | .unlock cont | .stop _ cont
  | .hook _ cont | .settle _ _ cont => cont.carried
  | _ => []

def Cont.owed : Cont → List Nat
  | .refuse k => [k]
  | .stops _ slots | .waits slots | .wait _ slots => slots
  | _ => []

/-- The sessions whose stop the call is going to request. -/
def Pc.owed : Pc → List Nat
  | .stop k cont => k :: cont.owed
  | .prune cont | .scan _ cont | .observers cont | .listeners cont | .unlock cont
  | .hook _ cont | .settle _ _ cont => cont.owed
  | .wait _ rest => rest
  | _ => []

/-- How far a `shutdown` is. -/
inductive Stage where
  /-- The attachments may not be drained. -/
  | early
  | late
  /-- The second snapshot is made, and these sessions of it may not be stopped. -/
  | awaiting (slots : List Nat)

def Cont.stage : Cont → Option Stage
  | .stops .first _ => some .early
  | .waits slots => some (.awaiting slots)
  | .wait k slots => some (.awaiting (k :: slots))
  | _ => none

def Pc.stage : Pc → Option Stage
  | .close .first | .closing .first | .seal .first | .drained => some .early
  | .close .second | .closing .second | .seal .second => some .late
  | .observers cont | .listeners cont | .unlock cont | .stop _ cont | .hook _ cont
  | .settle _ _ cont => cont.stage
  | .wait k rest => some (.awaiting (k :: rest))
  | .done => some (.awaiting [])
  | _ => none

/-- The sessions of a host that was stopped. -/
def HostState.gone : HostState → List Nat
  | .running _ => []
  | .stopped slots => slots

namespace State

def Asked (s : State) (k : Nat) : Prop := ∃ a, s.sessions k = some a ∧ a.asked = true

def Handed (s : State) (k : Nat) : Prop := ∃ a, s.sessions k = some a ∧ a.handed = true

def Entered (s : State) (k : Nat) : Prop := ∃ a, s.sessions k = some a ∧ a.entered = true

end State

theorem Cont.pc_carried (cont : Cont) : cont.pc.carried = cont.carried := by
  cases cont with
  | stops closing slots => cases slots <;> cases closing <;> rfl
  | waits slots => cases slots <;> rfl
  | _ => rfl

theorem Cont.pc_owed (cont : Cont) : cont.pc.owed = cont.owed := by
  cases cont with
  | stops closing slots => cases slots <;> cases closing <;> rfl
  | waits slots => cases slots <;> rfl
  | _ => rfl

theorem Cont.pc_stage {stage : Stage} (h : cont.stage = some stage) : cont.pc.stage = some stage := by
  cases cont with
  | stops closing slots =>
    cases closing with
    | first =>
      obtain rfl := Option.some.inj h
      cases slots <;> rfl
    | all | second => cases h
  | waits slots =>
    obtain rfl := Option.some.inj h
    cases slots <;> rfl
  | wait k slots => exact h
  | _ => cases h

theorem Did.asked (h : Did s t) (hk : s.Asked k) : t.Asked k := by
  obtain ⟨a, ha, hasked⟩ := hk
  obtain ⟨b, hb, hkept⟩ := h.session ha
  exact ⟨b, hb, hkept.asked hasked⟩

theorem Did.handed (h : Did s t) (hk : s.Handed k) : t.Handed k := by
  obtain ⟨a, ha, hhanded⟩ := hk
  obtain ⟨b, hb, hkept⟩ := h.session ha
  exact ⟨b, hb, hkept.handed hhanded⟩

theorem isStopped_iff : s.isStopped k = true ↔
    ∃ a ok, s.sessions k = some a ∧ a.state = .stopped ok := by
  unfold State.isStopped
  constructor
  · intro h
    split at h
    · rename_i hk
      exact ⟨_, _, hk, rfl⟩
    · cases h
  · rintro ⟨a, ok, ha, hstate⟩
    obtain ⟨observing, state, asked, stops, entered, handed⟩ := a
    subst hstate
    rw [ha]

theorem Did.stopped (h : Did s t) (hk : s.isStopped k = true) : t.isStopped k = true := by
  obtain ⟨a, ok, ha, hstate⟩ := isStopped_iff.mp hk
  obtain ⟨b, hb, hkept⟩ := h.session ha
  obtain ⟨ok', hstate'⟩ := hkept.stopped ⟨ok, hstate⟩
  exact isStopped_iff.mpr ⟨b, ok', hb, hstate'⟩

/-! ## One step of a call -/

/-- How a step takes a `shutdown` to its next stage. -/
inductive Stage.Goes (s t : State) : Stage → Stage → Prop
  | stays (stage : Stage) : Goes s t stage stage
  | drained (hdrained : t.drained = true) : Goes s t .early .late
  | sealed : Goes s t .late (.awaiting t.host.slots)
  | stopped {k : Nat} {slots : List Nat} (hstopped : s.isStopped k = true) :
    Goes s t (.awaiting (k :: slots)) (.awaiting slots)

structure Moved (s t : State) (c d : Call) : Prop where
  job : d.job = c.job
  carried : ∀ k ∈ c.pc.carried, k ∈ d.pc.carried ∨ k ∈ d.pc.owed ∨ t.Handed k
  owed : ∀ k ∈ c.pc.owed, k ∈ d.pc.owed ∨ t.Asked k
  fresh : ∀ k, t.sessions k ≠ none → s.sessions k ≠ none ∨ k ∈ d.pc.carried
  gone : ∀ k ∈ t.host.gone, k ∈ s.host.gone ∨ k ∈ d.pc.owed
  entered : ∀ k, t.Entered k → s.Entered k ∨ c.pc.attaching = true ∧ k ∈ t.host.slots
  slots : ∀ k ∈ s.host.slots, k ∈ t.host.slots ∨ s.isStopped k = true
  drained : s.drained = true → t.drained = true
  stage : ∀ stage, c.pc.stage = some stage →
    ∃ stage', d.pc.stage = some stage' ∧ Stage.Goes s t stage stage'

/-- The host stays as it is, and no session is new or enters it. -/
theorem Moved.of (hjob : d.job = c.job)
    (hfresh : ∀ k, t.sessions k ≠ none → s.sessions k ≠ none)
    (hentered : ∀ k, t.Entered k → s.Entered k) (hhost : t.host = s.host)
    (hdrained : t.drained = s.drained)
    (hcarried : ∀ k ∈ c.pc.carried, k ∈ d.pc.carried ∨ k ∈ d.pc.owed ∨ t.Handed k)
    (howed : ∀ k ∈ c.pc.owed, k ∈ d.pc.owed ∨ t.Asked k)
    (hstage : ∀ stage, c.pc.stage = some stage →
      ∃ stage', d.pc.stage = some stage' ∧ Stage.Goes s t stage stage') : Moved s t c d where
  job := hjob
  carried := hcarried
  owed := howed
  fresh := fun k hk => .inl (hfresh k hk)
  gone := fun _ hk => .inl (hhost ▸ hk)
  entered := fun k hk => .inl (hentered k hk)
  slots := fun _ hk => .inl (hhost ▸ hk)
  drained := fun h => hdrained.trans h
  stage := hstage

/-- Nothing of a session or of the host is touched. -/
theorem Moved.aside (hjob : d.job = c.job) (hsessions : t.sessions = s.sessions)
    (hhost : t.host = s.host) (hdrained : t.drained = s.drained)
    (hcarried : d.pc.carried = c.pc.carried) (howed : d.pc.owed = c.pc.owed)
    (hstage : ∀ stage, c.pc.stage = some stage → d.pc.stage = some stage) : Moved s t c d := by
  have hentered : ∀ k, t.Entered k → s.Entered k := by
    rintro k ⟨a, ha, hyes⟩
    exact ⟨a, hsessions ▸ ha, hyes⟩
  exact .of hjob (fun _ hk => hsessions ▸ hk) hentered hhost hdrained
    (fun _ hk => .inl (hcarried ▸ hk)) (fun _ hk => .inl (howed ▸ hk))
    fun stage hsome => ⟨stage, hstage stage hsome, .stays stage⟩

theorem known_update (ha : s.sessions k = some a)
    (hsessions : t.sessions = Function.update s.sessions k (some b)) (j : Nat)
    (hj : t.sessions j ≠ none) : s.sessions j ≠ none := by
  by_cases heq : j = k
  · rw [heq, ha]
    exact nofun
  · rw [hsessions, Function.update_of_ne heq] at hj
    exact hj

theorem entered_update (ha : s.sessions k = some a)
    (hsessions : t.sessions = Function.update s.sessions k (some b))
    (hsame : b.entered = a.entered) (j : Nat) (hj : t.Entered j) : s.Entered j := by
  obtain ⟨e, he, hyes⟩ := hj
  rw [hsessions] at he
  by_cases heq : j = k
  · subst heq
    rw [Function.update_self] at he
    obtain rfl := Option.some.inj he
    exact ⟨a, ha, hsame.symm.trans hyes⟩
  · rw [Function.update_of_ne heq] at he
    exact ⟨e, he, hyes⟩

theorem stepAttach_moved (hstep : stepAttach s id c choice = some t) :
    ∃ d, t.calls = Function.update s.calls id (some d) ∧ Moved s t c d := by
  unfold stepAttach at hstep
  split at hstep
  case h_1 purpose hpc =>
    obtain ⟨k, attachments, -, rfl⟩ := stepEnter_cases hstep
    exact ⟨_, rfl, .aside rfl rfl rfl rfl (by rw [hpc]; rfl) (by rw [hpc]; rfl)
      fun stage h => by rw [hpc] at h; cases h⟩
  case h_2 purpose hpc =>
    obtain ⟨k, e, attachments, -, -, -, -, rfl⟩ := stepPermit_cases hstep
    refine ⟨_, rfl, .aside rfl rfl rfl rfl ?_ ?_ fun stage h => by rw [hpc] at h; cases h⟩
    · rw [hpc]
      split
      · rfl
      · cases purpose <;> rfl
    · rw [hpc]
      split
      · rfl
      · cases purpose <;> rfl
  case h_3 hpc =>
    split at hstep
    · split at hstep <;> obtain rfl := Option.some.inj hstep <;>
      exact ⟨_, rfl, .aside rfl rfl rfl rfl (by rw [hpc]; rfl) (by rw [hpc]; rfl)
        fun stage h => by rw [hpc] at h; cases h⟩
    · cases hstep
  case h_4 hpc =>
    split at hstep
    · obtain rfl := Option.some.inj hstep
      exact ⟨_, rfl, .aside rfl rfl rfl rfl (by rw [hpc]; rfl) (by rw [hpc]; rfl)
        fun stage h => by rw [hpc] at h; cases h⟩
    · rename_i k observing
      split at hstep
      · rename_i hfree
        have hfree := Option.isNone_iff_eq_none.mp hfree
        obtain rfl := Option.some.inj hstep
        refine ⟨_, rfl, rfl, fun j hj => ?_, fun j hj => ?_, fun j hj => ?_, fun j hj => .inl hj,
          ?_, fun j hj => .inl hj, fun h => h, fun stage h => ?_⟩
        · rw [hpc] at hj
          cases hj
        · rw [hpc] at hj
          cases hj
        · by_cases heq : j = k
          · exact .inr (heq ▸ List.mem_singleton_self k)
          · left
            change Function.update s.sessions k (some { observing }) j ≠ none at hj
            rwa [Function.update_of_ne heq] at hj
        · rintro j ⟨e, he, hyes⟩
          change Function.update s.sessions k (some { observing }) j = some e at he
          by_cases heq : j = k
          · rw [heq, Function.update_self] at he
            obtain rfl := Option.some.inj he
            cases hyes
          · rw [Function.update_of_ne heq] at he
            exact .inl ⟨e, he, hyes⟩
        · rw [hpc] at h
          cases h
      · cases hstep
    · cases hstep
  case h_5 k hpc =>
    split at hstep
    · obtain ⟨a, ha, rfl⟩ := Option.map_eq_some_iff.mp hstep
      have hslots : (s.host.push k).slots = s.host.slots ++ [k] := push_slots k s.host
      refine ⟨_, rfl, rfl, fun j hj => ?_, fun j hj => ?_, fun j hj => .inl ?_, fun j hj => ?_, ?_,
        fun j hj => .inl ?_, fun h => h, fun stage h => ?_⟩
      · rw [hpc] at hj
        -- A host that was stopped refuses the session.
        cases s.host with
        | running slots => exact .inl hj
        | stopped slots => exact .inr (.inl hj)
      · rw [hpc] at hj
        cases hj
      · exact known_update (s := s) ha rfl j hj
      · cases hhost : s.host with
        | running slots =>
          change j ∈ (s.host.push k).gone at hj
          rw [hhost] at hj
          cases hj
        | stopped slots =>
          change j ∈ (s.host.push k).gone at hj
          rw [hhost] at hj
          rcases List.mem_append.mp hj with hwas | hnew
          · exact .inl hwas
          · exact .inr hnew
      · rintro j ⟨e, he, hyes⟩
        change Function.update s.sessions k (some { a with entered := true }) j = some e at he
        by_cases heq : j = k
        · refine .inr ⟨by rw [hpc]; rfl, ?_⟩
          show j ∈ (s.host.push k).slots
          rw [hslots, heq]
          exact List.mem_append_right _ (List.mem_singleton_self k)
        · rw [Function.update_of_ne heq] at he
          exact .inl ⟨e, he, hyes⟩
      · show j ∈ (s.host.push k).slots
        rw [hslots]
        exact List.mem_append_left _ hj
      · rw [hpc] at h
        cases h
    · cases hstep
  case h_6 k hpc =>
    split at hstep
    · obtain rfl := Option.some.inj hstep
      refine ⟨_, rfl, .of rfl (fun _ h => h) (fun _ h => h) rfl rfl (fun j hj => .inr (.inl ?_))
        (fun j hj => ?_) fun stage h => ?_⟩
      · rw [hpc] at hj
        exact hj
      · rw [hpc] at hj
        cases hj
      · rw [hpc] at h
        cases h
    · obtain ⟨a, ha, rfl⟩ := Option.map_eq_some_iff.mp hstep
      refine ⟨_, rfl, .of rfl (known_update ha rfl) (entered_update ha rfl rfl) rfl rfl
        (fun j hj => .inr (.inr ?_)) (fun j hj => ?_) fun stage h => ?_⟩
      · rw [hpc] at hj
        rw [List.mem_singleton.mp hj]
        exact ⟨_, Function.update_self .., rfl⟩
      · rw [hpc] at hj
        cases hj
      · rw [hpc] at h
        cases h
  case h_7 hpc =>
    obtain ⟨k, e, attachments, -, -, -, -, rfl⟩ := stepPermit_cases hstep
    exact ⟨_, rfl, .aside rfl rfl rfl rfl (by rw [hpc]; rfl) (by rw [hpc]; rfl)
      fun stage h => by rw [hpc] at h; cases h⟩
  case h_8 hpc =>
    split at hstep
    · obtain rfl := Option.some.inj hstep
      exact ⟨_, rfl, .aside rfl rfl rfl rfl (by rw [hpc]; rfl) (by rw [hpc]; rfl)
        fun stage h => by rw [hpc] at h; cases h⟩
    · cases hstep
  case h_9 => cases hstep

theorem mem_set_or {slots : List Nat} {index a : Nat} (h : k ∈ slots) :
    k ∈ slots.set index a ∨ slots[index]? = some k := by
  obtain ⟨i, hi, rfl⟩ := List.mem_iff_getElem.mp h
  by_cases heq : index = i
  · exact .inr (heq ▸ List.getElem?_eq_getElem hi)
  · left
    rw [← List.getElem_set_ne heq (a := a) (by rwa [List.length_set])]
    exact List.getElem_mem _

/-- Only the slot at the index goes. -/
theorem mem_swapRemove_or {slots : List Nat} {index gone : Nat} (hgone : slots[index]? = some gone)
    (h : k ∈ slots) : k ∈ swapRemove slots index ∨ gone = k := by
  unfold swapRemove
  rcases List.eq_nil_or_concat slots with rfl | ⟨front, last, rfl⟩
  · cases h
  rw [List.concat_eq_append] at h hgone ⊢
  rw [List.getLastD_concat]
  rcases Nat.lt_or_ge index front.length with hlt | hge
  · rw [List.set_append_left _ _ hlt, List.dropLast_concat]
    rw [List.getElem?_append_left hlt] at hgone
    rcases List.mem_append.mp h with hfront | hlast
    · exact (mem_set_or hfront).imp_right fun hk => Option.some.inj (hgone.symm.trans hk)
    · exact .inl (List.mem_singleton.mp hlast ▸ List.mem_set hlt last)
  · have hlt := (List.getElem?_eq_some_iff.mp hgone).1
    rw [List.length_append, List.length_singleton] at hlt
    obtain rfl : index = front.length := Nat.le_antisymm (Nat.le_of_lt_succ hlt) hge
    rw [List.getElem?_concat_length] at hgone
    rcases List.mem_append.mp h with hfront | hlast
    · left
      rwa [List.set_append_right _ _ hge, Nat.sub_self, List.set_cons_zero, List.dropLast_concat]
    · exact .inr ((Option.some.inj hgone).symm.trans (List.mem_singleton.mp hlast).symm)

theorem stepHost_moved (hstep : stepHost s id c = some t) :
    ∃ d, t.calls = Function.update s.calls id (some d) ∧ Moved s t c d := by
  unfold stepHost at hstep
  split at hstep
  case h_1 cont hpc =>
    split at hstep
    · obtain rfl := Option.some.inj hstep
      exact ⟨_, rfl, .aside rfl rfl rfl rfl (by rw [hpc]; rfl) (by rw [hpc]; rfl)
        fun stage h => by rw [hpc] at h; cases h⟩
    · cases hstep
  case h_2 index cont hpc =>
    split at hstep
    · rename_i slots hhost
      split at hstep
      · rename_i k hk
        split at hstep <;> obtain rfl := Option.some.inj hstep
        · rename_i hstopped
          refine ⟨_, rfl, rfl, fun j hj => .inl ?_, fun j hj => .inl ?_, fun j hj => .inl hj,
            fun j hj => (nomatch hj), fun j hj => .inl hj, fun j hj => ?_, fun h => h,
            fun stage h => ?_⟩
          · rw [hpc] at hj
            exact hj
          · rw [hpc] at hj
            exact hj
          · rw [hhost] at hj
            rcases mem_swapRemove_or hk hj with hkept | rfl
            · exact .inl hkept
            · exact .inr hstopped
          · rw [hpc] at h
            cases h
        · exact ⟨_, rfl, .aside rfl rfl rfl rfl (by rw [hpc]; rfl) (by rw [hpc]; rfl)
            fun stage h => by rw [hpc] at h; cases h⟩
      · obtain rfl := Option.some.inj hstep
        exact ⟨_, rfl, .aside rfl rfl rfl rfl (by rw [hpc]; rfl) (by rw [hpc]; rfl)
          fun stage h => by rw [hpc] at h; cases h⟩
    · obtain rfl := Option.some.inj hstep
      exact ⟨_, rfl, .aside rfl rfl rfl rfl (by rw [hpc]; rfl) (by rw [hpc]; rfl)
        fun stage h => by rw [hpc] at h; cases h⟩
  case h_3 cont hpc | h_4 cont hpc =>
    obtain rfl := Option.some.inj hstep
    exact ⟨_, rfl, .aside rfl rfl rfl rfl (by rw [hpc]; rfl) (by rw [hpc]; rfl)
      fun stage h => by rw [hpc] at h; exact h⟩
  case h_5 cont hpc =>
    obtain rfl := Option.some.inj hstep
    refine ⟨_, rfl, .aside rfl rfl rfl rfl ?_ ?_ fun stage h => ?_⟩
    · rw [hpc]
      exact cont.pc_carried
    · rw [hpc]
      exact cont.pc_owed
    · rw [hpc] at h
      exact Cont.pc_stage h
  case h_6 => cases hstep

theorem finishCallback_moved {rest : List Nat} (hpc : c.pc = .drops (k :: rest))
    (hstep : finishCallback s id c k rest = some t) :
    ∃ d, t.calls = Function.update s.calls id (some d) ∧ Moved s t c d := by
  obtain ⟨a, ha, hresult⟩ := Option.map_eq_some_iff.mp hstep
  have htouch : ∀ {t d b}, t.sessions = Function.update s.sessions k (some b) →
      b.entered = a.entered → t.host = s.host → t.drained = s.drained → d.job = c.job →
      Moved s t c d := fun hsessions hsame hhost hdrained hjob =>
    .of hjob (known_update ha hsessions) (entered_update ha hsessions hsame) hhost hdrained
      (fun j hj => by rw [hpc] at hj; cases hj) (fun j hj => by rw [hpc] at hj; cases hj)
      fun stage h => by rw [hpc] at h; cases h
  have haside : ∀ {t d}, t.sessions = s.sessions → t.host = s.host → t.drained = s.drained →
      d.job = c.job → Moved s t c d := fun hsessions =>
    htouch (b := a) (by rw [hsessions, Function.update_eq_self_iff.mpr ha.symm]) rfl
  dsimp only at hresult
  split at hresult
  case h_1 | h_2 | h_5 | h_6 =>
    subst hresult
    exact ⟨_, rfl, haside rfl rfl rfl rfl⟩
  case h_3 =>
    subst hresult
    exact ⟨_, rfl, htouch rfl rfl rfl rfl rfl⟩
  case h_4 =>
    split at hresult <;> subst hresult <;> exact ⟨_, rfl, htouch rfl rfl rfl rfl rfl⟩

theorem stepCapture_moved (hstep : stepCapture s id c = some t) :
    ∃ d, t.calls = Function.update s.calls id (some d) ∧ Moved s t c d := by
  unfold stepCapture at hstep
  split at hstep
  case h_1 | h_6 | h_8 =>
    rename_i hpc
    obtain rfl := Option.some.inj hstep
    exact ⟨_, rfl, .aside rfl rfl rfl rfl (by rw [hpc]; rfl) (by rw [hpc]; rfl)
      fun stage h => by rw [hpc] at h; cases h⟩
  case h_2 selection listeners hpc =>
    split at hstep <;> obtain rfl := Option.some.inj hstep <;>
    exact ⟨_, rfl, .aside rfl rfl rfl rfl (by rw [hpc]; rfl) (by rw [hpc]; rfl)
      fun stage h => by rw [hpc] at h; cases h⟩
  case h_3 selection hpc =>
    split at hstep
    · split at hstep <;> obtain rfl := Option.some.inj hstep <;>
      exact ⟨_, rfl, .aside rfl rfl rfl rfl (by rw [hpc]; rfl) (by rw [hpc]; rfl)
        fun stage h => by rw [hpc] at h; cases h⟩
    · cases hstep
  case h_4 k rest leases hpc =>
    obtain ⟨a, ha, hresult⟩ := Option.map_eq_some_iff.mp hstep
    split at hresult <;> subst hresult
    case h_1 =>
      exact ⟨_, rfl, .of rfl (known_update ha rfl) (entered_update ha rfl rfl) rfl rfl
        (fun j hj => by rw [hpc] at hj; cases hj) (fun j hj => by rw [hpc] at hj; cases hj)
        fun stage h => by rw [hpc] at h; cases h⟩
    all_goals
      exact ⟨_, rfl, .aside rfl rfl rfl rfl (by rw [hpc]; rfl) (by rw [hpc]; rfl)
        fun stage h => by rw [hpc] at h; cases h⟩
  case h_5 leases hpc =>
    obtain rfl := Option.some.inj hstep
    refine ⟨_, rfl, .aside rfl rfl rfl rfl ?_ ?_ fun stage h => by rw [hpc] at h; cases h⟩
    · rw [hpc]
      split <;> rfl
    · rw [hpc]
      split <;> rfl
  case h_7 k rest hpc => exact finishCallback_moved hpc hstep
  case h_9 => cases hstep

/-- A request leaves no session whose stop was not requested. -/
theorem stepStop_moved (h : Leased s) (hstep : stepStop s id c choice = some t) :
    ∃ d, t.calls = Function.update s.calls id (some d) ∧ Moved s t c d := by
  unfold stepStop at hstep
  split at hstep
  case h_1 k cont hpc =>
    obtain ⟨a, ha, hresult⟩ := Option.map_eq_some_iff.mp hstep
    have hsound := h.sound k a ha
    have hmoved : ∀ {t d b}, t.sessions = Function.update s.sessions k (some b) →
        b.entered = a.entered → b.asked = true → t.host = s.host → t.drained = s.drained →
        d.job = c.job → d.pc.carried = cont.carried → d.pc.owed = cont.owed →
        (∀ stage, cont.stage = some stage → d.pc.stage = some stage) → Moved s t c d := by
      intro t d b hsessions hsame hasked hhost hdrained hjob hcarried howed hstage
      refine .of hjob (known_update ha hsessions) (entered_update ha hsessions hsame) hhost hdrained
        (fun j hj => .inl ?_) (fun j hj => ?_) fun stage hsome => ⟨stage, hstage stage ?_, .stays _⟩
      · rw [hpc] at hj
        exact hcarried ▸ hj
      · rw [hpc] at hj
        rcases List.mem_cons.mp hj with rfl | hrest
        · exact .inr ⟨b, by rw [hsessions, Function.update_self], hasked⟩
        · exact .inl (howed ▸ hrest)
      · rw [hpc] at hsome
        exact hsome
    have hself : Function.update s.sessions k (some a) = s.sessions :=
      Function.update_eq_self_iff.mpr ha.symm
    unfold Session.Sound at hsound
    split at hresult <;> rename_i hstate <;> rw [hstate] at hsound <;> subst hresult
    · exact ⟨_, rfl, hmoved rfl rfl rfl rfl rfl rfl rfl rfl fun _ h => h⟩
    · exact ⟨_, rfl, hmoved rfl rfl rfl rfl rfl rfl cont.pc_carried cont.pc_owed
        fun _ => Cont.pc_stage⟩
    all_goals
      exact ⟨_, rfl, hmoved hself.symm rfl hsound.1 rfl rfl rfl cont.pc_carried cont.pc_owed
        fun _ => Cont.pc_stage⟩
  case h_2 k cont hpc =>
    split at hstep
    · obtain ⟨a, ha, rfl⟩ := Option.map_eq_some_iff.mp hstep
      refine ⟨_, rfl, .of rfl (known_update ha rfl) (entered_update ha rfl rfl) rfl rfl
        (fun j hj => .inl ?_) (fun j hj => .inl ?_) fun stage h => ⟨stage, ?_, .stays _⟩⟩
      · rw [hpc] at hj
        exact hj
      · rw [hpc] at hj
        exact hj
      · rw [hpc] at h
        exact h
    · cases hstep
  case h_3 k ok cont hpc =>
    obtain ⟨a, ha, rfl⟩ := Option.map_eq_some_iff.mp hstep
    refine ⟨_, rfl, .of rfl (known_update ha rfl) (entered_update ha rfl rfl) rfl rfl
      (fun j hj => .inl ?_) (fun j hj => .inl ?_) fun stage h => ⟨stage, ?_, .stays _⟩⟩
    · rw [hpc] at hj
      exact cont.pc_carried ▸ hj
    · rw [hpc] at hj
      exact cont.pc_owed ▸ hj
    · rw [hpc] at h
      exact Cont.pc_stage h
  case h_4 => cases hstep

theorem stepClose_moved (hstep : stepClose s id c choice = some t) :
    ∃ d, t.calls = Function.update s.calls id (some d) ∧ Moved s t c d := by
  unfold stepClose at hstep
  split at hstep
  case h_1 closing hpc =>
    obtain ⟨k, attachments, -, rfl⟩ := stepEnter_cases hstep
    refine ⟨_, rfl, .aside rfl rfl rfl rfl (by rw [hpc]; rfl) (by rw [hpc]; rfl) fun stage h => ?_⟩
    rw [hpc] at h
    cases closing <;> exact h
  case h_2 closing hpc =>
    split at hstep
    · obtain rfl := Option.some.inj hstep
      refine ⟨_, rfl, .aside rfl rfl rfl rfl (by rw [hpc]; rfl) (by rw [hpc]; rfl)
        fun stage h => ?_⟩
      rw [hpc] at h
      cases closing <;> exact h
    · cases hstep
  case h_3 closing hpc =>
    have howed : ∀ slots, (closing.cont slots).owed = slots := fun slots => by cases closing <;> rfl
    have hstage : ∀ {t : State} {slots}, t.host.slots = slots → ∀ stage, c.pc.stage = some stage →
        ∃ stage', (closing.cont slots).stage = some stage' ∧ Stage.Goes s t stage stage' := by
      rintro t slots rfl stage h
      rw [hpc] at h
      cases closing with
      | all => cases h
      | first =>
        obtain rfl := Option.some.inj h
        exact ⟨_, rfl, .stays _⟩
      | second =>
        obtain rfl := Option.some.inj h
        exact ⟨_, rfl, .sealed⟩
    split at hstep
    · split at hstep <;> rename_i slots hhost <;> obtain rfl := Option.some.inj hstep
      · refine ⟨_, rfl, rfl, fun j hj => ?_, fun j hj => ?_, fun j hj => .inl hj,
          fun j hj => .inr ?_, fun j hj => .inl hj, fun j hj => .inl ?_, fun h => h,
          hstage rfl⟩
        · rw [hpc] at hj
          cases hj
        · rw [hpc] at hj
          cases hj
        · show j ∈ (closing.cont slots).owed
          rw [howed]
          exact hj
        · rw [hhost] at hj
          exact hj
      · refine ⟨_, rfl, .of rfl (fun _ h => h) (fun _ h => h) rfl rfl (fun j hj => ?_)
          (fun j hj => ?_) fun stage h => ?_⟩
        · rw [hpc] at hj
          cases hj
        · rw [hpc] at hj
          cases hj
        · obtain ⟨stage', hstage', hgoes⟩ := hstage (t := s.goto id c (closing.cont slots).pc)
            (congrArg HostState.slots hhost) stage h
          exact ⟨stage', Cont.pc_stage hstage', hgoes⟩
    · cases hstep
  case h_4 hpc =>
    split at hstep
    · obtain rfl := Option.some.inj hstep
      refine ⟨_, rfl, rfl, fun j hj => ?_, fun j hj => ?_, fun j hj => .inl hj, fun j hj => .inl hj,
        fun j hj => .inl hj, fun j hj => .inl hj, fun _ => rfl, fun stage h => ?_⟩
      · rw [hpc] at hj
        cases hj
      · rw [hpc] at hj
        cases hj
      · rw [hpc] at h
        obtain rfl := Option.some.inj h
        exact ⟨.late, rfl, .drained rfl⟩
    · cases hstep
  case h_5 k slots hpc =>
    split at hstep
    · rename_i hstopped
      obtain rfl := Option.some.inj hstep
      refine ⟨_, rfl, .of rfl (fun _ h => h) (fun _ h => h) rfl rfl (fun j hj => ?_)
        (fun j hj => .inl ?_) fun stage h => ⟨.awaiting slots, Cont.pc_stage rfl, ?_⟩⟩
      · rw [hpc] at hj
        cases hj
      · rw [hpc] at hj
        exact (Cont.waits slots).pc_owed ▸ hj
      · rw [hpc] at h
        obtain rfl := Option.some.inj h
        exact .stopped hstopped
    · cases hstep
  case h_6 => cases hstep

theorem stepCall_moved (h : Leased s) (hstep : stepCall s id c choice = some t) :
    ∃ d, t.calls = Function.update s.calls id (some d) ∧ Moved s t c d := by
  rcases stepCall_cases hstep with hstep | hstep | hstep | hstep | hstep
  · exact stepAttach_moved hstep
  · exact stepHost_moved hstep
  · exact stepCapture_moved hstep
  · exact stepStop_moved h hstep
  · exact stepClose_moved hstep

/-! ## Somebody requests every stop -/

structure Owed (s : State) : Prop where
  kept : ∀ k, s.sessions k ≠ none → s.Handed k ∨ s.Asked k ∨
    ∃ x c, s.calls x = some c ∧ (k ∈ c.pc.carried ∨ k ∈ c.pc.owed)
  gone : ∀ k ∈ s.host.gone, s.Asked k ∨ ∃ x c, s.calls x = some c ∧ k ∈ c.pc.owed
  registered : ∀ x c k, s.calls x = some c → c.job = .stop k → s.Asked k ∨ k ∈ c.pc.owed

theorem Owed.moved (h : Owed s) (hdid : Did s t) (hc : s.calls id = some c)
    (hcalls : t.calls = Function.update s.calls id (some d)) (hmoved : Moved s t c d) : Owed t := by
  have hmine : t.calls id = some d := by rw [hcalls, Function.update_self]
  have hothers : ∀ {x e}, x ≠ id → s.calls x = some e → t.calls x = some e := fun hx he => by
    rw [hcalls, Function.update_of_ne hx, he]
  have howes : ∀ {k x e}, s.calls x = some e → k ∈ e.pc.owed →
      t.Asked k ∨ ∃ x e, t.calls x = some e ∧ k ∈ e.pc.owed := by
    intro k x e he hk
    by_cases hx : x = id
    · subst hx
      obtain rfl := Option.some.inj (he.symm.trans hc)
      rcases hmoved.owed k hk with hstill | hasked
      · exact .inr ⟨x, d, hmine, hstill⟩
      · exact .inl hasked
    · exact .inr ⟨x, e, hothers hx he, hk⟩
  have hcarries : ∀ {k x e}, s.calls x = some e → k ∈ e.pc.carried →
      t.Handed k ∨ ∃ x e, t.calls x = some e ∧ (k ∈ e.pc.carried ∨ k ∈ e.pc.owed) := by
    intro k x e he hk
    by_cases hx : x = id
    · subst hx
      obtain rfl := Option.some.inj (he.symm.trans hc)
      rcases hmoved.carried k hk with hstill | howed | hhanded
      · exact .inr ⟨x, d, hmine, .inl hstill⟩
      · exact .inr ⟨x, d, hmine, .inr howed⟩
      · exact .inl hhanded
    · exact .inr ⟨x, e, hothers hx he, .inl hk⟩
  refine ⟨fun k hk => ?_, fun k hk => ?_, fun x e k he hjob => ?_⟩
  · rcases hmoved.fresh k hk with hwas | hnew
    · rcases h.kept k hwas with hhanded | hasked | ⟨x, e, he, hcarried | howed⟩
      · exact .inl (hdid.handed hhanded)
      · exact .inr (.inl (hdid.asked hasked))
      · exact (hcarries he hcarried).imp_right .inr
      · refine .inr ((howes he howed).imp_right ?_)
        rintro ⟨y, f, hf, hk⟩
        exact ⟨y, f, hf, .inr hk⟩
    · exact .inr (.inr ⟨id, d, hmine, .inl hnew⟩)
  · rcases hmoved.gone k hk with hwas | hnew
    · rcases h.gone k hwas with hasked | ⟨x, e, he, howed⟩
      · exact .inl (hdid.asked hasked)
      · exact howes he howed
    · exact .inr ⟨id, d, hmine, hnew⟩
  · rw [hcalls] at he
    rcases calls_cases he with ⟨-, rfl⟩ | ⟨-, hwas⟩
    · rcases h.registered id c k hc (hmoved.job.symm.trans hjob) with hasked | howed
      · exact .inl (hdid.asked hasked)
      · exact (hmoved.owed k howed).symm
    · exact (h.registered x e k hwas hjob).imp_left hdid.asked

theorem Owed.start (h : Owed s) (hfree : s.calls id = none) (thread : Nat) (job : Job) :
    Owed (s.put id { thread, job, pc := job.entry }) := by
  have hstays : ∀ {x e}, s.calls x = some e →
      (s.put id { thread, job, pc := job.entry }).calls x = some e := by
    intro x e he
    refine (Function.update_of_ne ?_ _ _).trans he
    rintro rfl
    exact absurd (hfree.symm.trans he) nofun
  refine ⟨fun k hk => ?_, fun k hk => ?_, fun x e k he hjob => ?_⟩
  · rcases h.kept k hk with hhanded | hasked | ⟨x, e, he, hmine⟩
    · exact .inl hhanded
    · exact .inr (.inl hasked)
    · exact .inr (.inr ⟨x, e, hstays he, hmine⟩)
  · rcases h.gone k hk with hasked | ⟨x, e, he, hmine⟩
    · exact .inl hasked
    · exact .inr ⟨x, e, hstays he, hmine⟩
  · rcases calls_cases he with ⟨-, rfl⟩ | ⟨-, hwas⟩
    · right
      dsimp only at hjob ⊢
      rw [hjob]
      exact List.mem_singleton_self k
    · exact h.registered x e k hwas hjob

theorem Owed.next (h : Owed s) (hleased : Leased s) {action : Action}
    (hstep : next s action = some t) : Owed t := by
  have hdid := next_did hstep
  cases action with
  | start id thread job =>
    unfold Plugins.next at hstep
    dsimp only at hstep
    split at hstep
    · rename_i hguard
      obtain rfl := Option.some.inj hstep
      exact h.start (Option.isNone_iff_eq_none.mp hguard.1) thread job
    · cases hstep
  | step id choice =>
    obtain ⟨c, hc, hcall⟩ := Option.bind_eq_some_iff.mp hstep
    obtain ⟨d, hcalls, hmoved⟩ := stepCall_moved hleased hcall
    exact h.moved hdid hc hcalls hmoved
  | scope k choice =>
    unfold Plugins.next at hstep
    dsimp only at hstep
    split at hstep
    · cases hstep
    · obtain ⟨attachments, -, rfl⟩ := Option.map_eq_some_iff.mp hstep
      exact ⟨h.kept, h.gone, h.registered⟩
  | drain =>
    obtain ⟨attachments, -, rfl⟩ := Option.map_eq_some_iff.mp hstep
    exact ⟨h.kept, h.gone, h.registered⟩

theorem Owed.init : Owed init where
  kept _ hk := absurd rfl hk
  gone _ hk := nomatch hk
  registered _ _ _ hc := nomatch hc

/-! ## What a shutdown has seen -/

def Stage.Holds (s : State) : Stage → Prop
  | .early => True
  | .late => s.drained = true
  | .awaiting slots => s.drained = true ∧ ∀ k, s.Entered k → k ∈ slots ∨ s.isStopped k = true

structure Torn (s : State) : Prop where
  entered : ∀ k, s.Entered k → k ∈ s.host.slots ∨ s.isStopped k = true
  stages : ∀ x c, s.calls x = some c → c.job = .shutdown →
    ∃ stage, c.pc.stage = some stage ∧ stage.Holds s

theorem Torn.moved (h : Torn s) (hdid : Did s t) (hadmitted : Admitted s) (hc : s.calls id = some c)
    (hcalls : t.calls = Function.update s.calls id (some d)) (hmoved : Moved s t c d) : Torn t := by
  have hentered : ∀ k, t.Entered k → k ∈ t.host.slots ∨ t.isStopped k = true := by
    intro k hk
    rcases hmoved.entered k hk with hwas | ⟨-, hnew⟩
    · rcases h.entered k hwas with hslot | hstopped
      · exact (hmoved.slots k hslot).imp_right hdid.stopped
      · exact .inr (hdid.stopped hstopped)
    · exact .inl hnew
  -- Nobody enters the host once a shutdown has seen it drained.
  have hnobody : s.drained = true → ∀ k, t.Entered k → s.Entered k := fun hdrained k hk => by
    rcases hmoved.entered k hk with hwas | ⟨hattaching, -⟩
    · exact hwas
    · exact absurd (((hadmitted.drained hdrained).2 id c hc).symm.trans hattaching) nofun
  have hholds : ∀ stage : Stage, stage.Holds s → stage.Holds t := by
    intro stage hstage
    cases stage with
    | early => trivial
    | late => exact hmoved.drained hstage
    | awaiting slots =>
      exact ⟨hmoved.drained hstage.1, fun k hk =>
        (hstage.2 k (hnobody hstage.1 k hk)).imp_right hdid.stopped⟩
  refine ⟨hentered, fun x e he hjob => ?_⟩
  rw [hcalls] at he
  rcases calls_cases he with ⟨-, rfl⟩ | ⟨-, hwas⟩
  · obtain ⟨stage, hsome, hstage⟩ := h.stages id c hc (hmoved.job.symm.trans hjob)
    obtain ⟨stage', hsome', hgoes⟩ := hmoved.stage stage hsome
    refine ⟨stage', hsome', ?_⟩
    cases hgoes with
    | stays => exact hholds stage hstage
    | drained hyes => exact hyes
    | sealed => exact ⟨hmoved.drained hstage, hentered⟩
    | stopped hstopped =>
      refine ⟨hmoved.drained hstage.1, fun j hj => ?_⟩
      rcases hstage.2 j (hnobody hstage.1 j hj) with hmem | hyet
      · rcases List.mem_cons.mp hmem with rfl | hrest
        · exact .inr (hdid.stopped hstopped)
        · exact .inl hrest
      · exact .inr (hdid.stopped hyet)
  · obtain ⟨stage, hsome, hstage⟩ := h.stages x e hwas hjob
    exact ⟨stage, hsome, hholds stage hstage⟩

theorem Torn.next (h : Torn s) (hleased : Leased s) (hadmitted : Admitted s) {action : Action}
    (hstep : next s action = some t) : Torn t := by
  have hdid := next_did hstep
  cases action with
  | start id thread job =>
    unfold Plugins.next at hstep
    dsimp only at hstep
    split at hstep
    · obtain rfl := Option.some.inj hstep
      refine ⟨h.entered, fun x e he hjob => ?_⟩
      rcases calls_cases he with ⟨-, rfl⟩ | ⟨-, hwas⟩
      · dsimp only at hjob ⊢
        rw [hjob]
        exact ⟨.early, rfl, trivial⟩
      · exact h.stages x e hwas hjob
    · cases hstep
  | step id choice =>
    obtain ⟨c, hc, hcall⟩ := Option.bind_eq_some_iff.mp hstep
    obtain ⟨d, hcalls, hmoved⟩ := stepCall_moved hleased hcall
    exact h.moved hdid hadmitted hc hcalls hmoved
  | scope k choice =>
    unfold Plugins.next at hstep
    dsimp only at hstep
    split at hstep
    · cases hstep
    · obtain ⟨attachments, -, rfl⟩ := Option.map_eq_some_iff.mp hstep
      exact ⟨h.entered, h.stages⟩
  | drain =>
    obtain ⟨attachments, -, rfl⟩ := Option.map_eq_some_iff.mp hstep
    exact ⟨h.entered, h.stages⟩

theorem Torn.init : Torn init where
  entered _ hk := nomatch hk
  stages _ _ hc := nomatch hc

/-! ## The lifecycle -/

structure Sound (s : State) : Prop where
  leased : Leased s
  published : Published s
  admitted : Admitted s
  owed : Owed s
  torn : Torn s

theorem Sound.next (h : Sound s) {action : Action} (hstep : next s action = some t) : Sound t :=
  ⟨h.leased.next hstep, h.published.next hstep, h.admitted.next hstep, h.owed.next h.leased hstep,
    h.torn.next h.leased h.admitted hstep⟩

theorem Sound.init : Sound init := ⟨.init, .init, .init, .init, .init⟩

/-- No call is under way. -/
def State.Idle (s : State) : Prop := ∀ x c, s.calls x = some c → c.pc = .done

theorem Leased.stops_le (h : Leased s) (ha : s.sessions k = some a) : a.stops ≤ 1 := by
  have hsound := h.sound k a ha
  unfold Session.Sound at hsound
  cases hstate : a.state with
  | running n | draining n =>
    rw [hstate] at hsound
    rw [hsound.2.1]
    exact Nat.zero_le 1
  | stopping =>
    obtain ⟨x, c, n, hc, hn⟩ := h.stopping k a ha hstate
    obtain ⟨b, hb, -, hstops⟩ := h.stands x c k n hc hn
    obtain rfl := Option.some.inj (hb.symm.trans ha)
    rw [hstops]
    cases hpc : c.pc with
    | hook j cont =>
      rw [hpc] at hn
      obtain ⟨-, rfl⟩ := Prod.mk.inj (Option.some.inj hn)
      exact Nat.zero_le 1
    | settle j ok cont =>
      rw [hpc] at hn
      obtain ⟨-, rfl⟩ := Prod.mk.inj (Option.some.inj hn)
      exact Nat.le_refl 1
    | _ =>
      rw [hpc] at hn
      cases hn
  | stopped ok =>
    rw [hstate] at hsound
    rw [hsound.2.1]

/-- A stop that was requested is done, or waits for a lease, or for the call that is at the hook. -/
theorem Leased.asked_cases (h : Leased s) (ha : s.sessions k = some a) (hasked : a.asked = true) :
    a.stops = 1 ∨ 0 < s.leased k ∨ ∃ x c cont, s.calls x = some c ∧ c.pc = .hook k cont := by
  have hsound := h.sound k a ha
  unfold Session.Sound at hsound
  cases hstate : a.state with
  | running n =>
    rw [hstate] at hsound
    exact absurd (hasked.symm.trans hsound.1) nofun
  | draining n =>
    rw [hstate] at hsound
    obtain ⟨-, -, rfl, hpos⟩ := hsound
    exact .inr (.inl hpos)
  | stopping =>
    obtain ⟨x, c, n, hc, hn⟩ := h.stopping k a ha hstate
    obtain ⟨b, hb, -, hstops⟩ := h.stands x c k n hc hn
    obtain rfl := Option.some.inj (hb.symm.trans ha)
    cases hpc : c.pc with
    | hook j cont =>
      rw [hpc] at hn
      obtain ⟨rfl, -⟩ := Prod.mk.inj (Option.some.inj hn)
      exact .inr (.inr ⟨x, c, cont, hc, hpc⟩)
    | settle j ok cont =>
      rw [hpc] at hn
      obtain ⟨-, rfl⟩ := Prod.mk.inj (Option.some.inj hn)
      exact .inl hstops
    | _ =>
      rw [hpc] at hn
      cases hn
  | stopped ok =>
    rw [hstate] at hsound
    exact .inl hsound.2.1

theorem Leased.leased_idle (h : Leased s) (hidle : s.Idle) (k : Nat) : s.leased k = 0 := by
  refine List.countP_eq_zero.mpr fun p hp _ => ?_
  have hpos : 0 < s.leases.count (p.1, p.2) := List.count_pos_iff.mpr hp
  rw [h.held] at hpos
  cases hc : s.calls p.1 with
  | none =>
    rw [hc] at hpos
    cases hpos
  | some c =>
    rw [hc, Option.elim_some, hidle p.1 c hc] at hpos
    cases hpos

theorem Leased.stops_idle (h : Leased s) (hidle : s.Idle) (hk : s.Asked k) :
    ∃ a, s.sessions k = some a ∧ a.stops = 1 := by
  obtain ⟨a, ha, hasked⟩ := hk
  refine ⟨a, ha, ?_⟩
  rcases h.asked_cases ha hasked with hstops | hpos | ⟨x, c, cont, hc, hpc⟩
  · exact hstops
  · rw [h.leased_idle hidle] at hpos
    cases hpos
  · rw [hidle x c hc] at hpc
    cases hpc

/-- The stop hook runs when no lease is left. -/
theorem Leased.stops_lt (h : Leased s) {action : Action}
    (hstep : Plugins.next s action = some t)
    (ha : s.sessions k = some a) (hb : t.sessions k = some b) (hlt : a.stops < b.stops) :
    a.stops = 0 ∧ b.stops = 1 ∧ a.asked = true ∧ s.leased k = 0 ∧ t.leased k = 0 := by
  obtain ⟨b', hb', hkept⟩ := (next_did hstep).session ha
  obtain rfl := Option.some.inj (hb'.symm.trans hb)
  have hnext := h.next hstep
  have hle := hnext.stops_le hb
  obtain ⟨hstate, hstops⟩ := hkept.stops.resolve_left hlt.ne'
  have hbefore := h.sound k a ha
  have hafter := hnext.sound k b' hb
  unfold Session.Sound at hbefore hafter
  rw [hstate] at hafter
  cases hwas : a.state with
  | running n | draining n =>
    rw [hwas] at hafter
    rw [hafter.2.1] at hlt
    cases hlt
  | stopping =>
    rw [hwas] at hbefore hafter
    exact ⟨by omega, by omega, hbefore.1, hbefore.2, hafter.2⟩
  | stopped ok =>
    rw [hwas] at hbefore
    omega

/-- **Plugin sessions.** In every reachable state:

* the stop hook of a session runs at most once, when its stop was requested and no callback lease of
  it is left; a requested stop waits for a lease or for the call that runs the hook, and when no
  call is under way the hook has run exactly once for each session whose stop was requested, that
  no caller of `attach` has, that a registration gave up, or that was in the host when it stopped;
* no step grants a lease of a session whose stop was requested;
* the counter of the callbacks is the number of leases, and no call takes it below zero or finds it
  drained;
* when `shutdown` has returned every session that has been in the host is stopped;
* the published counts are those of the slots when nobody has their lock. -/
theorem plugin_session_lifecycle (h : Run.Reachable next init s) :
    (∀ k a, s.sessions k = some a → a.stops ≤ 1 ∧
      (a.asked = true → a.stops = 1 ∨ 0 < s.leased k ∨
        ∃ x c cont, s.calls x = some c ∧ c.pc = .hook k cont) ∧
      ∀ n, a.state = .running n ∨ a.state = .draining n → n = s.leased k) ∧
    (∀ action t k a, next s action = some t → s.sessions k = some a →
      ∃ b, t.sessions k = some b ∧ (a.asked = true → b.asked = true) ∧ a.stops ≤ b.stops ∧
        (a.asked = true → ∀ x, t.leases.count (x, k) ≤ s.leases.count (x, k)) ∧
        (a.stops < b.stops → a.stops = 0 ∧ b.stops = 1 ∧ a.asked = true ∧ s.leased k = 0 ∧
          t.leased k = 0)) ∧
    (s.Idle → ∀ k a, s.sessions k = some a → (a.asked = true ↔ a.stops = 1) ∧
      (a.handed = false ∨ k ∈ s.host.gone ∨ (∃ x c, s.calls x = some c ∧ c.job = .stop k) →
        a.stops = 1)) ∧
    (∀ x c, s.calls x = some c → c.pc ≠ .underflow ∧ c.pc ≠ .unreachable) ∧
    (∀ x c, s.calls x = some c → c.job = .shutdown → c.pc = .done →
      ∀ k a, s.sessions k = some a → a.entered = true → ∃ ok, a.state = .stopped ok) ∧
    (s.writer = none → s.listeners = s.listening ∧ s.observers = s.observing) := by
  have hsound : Sound s := h.invariant .init fun _ _ _ hs hn => hs.next hn
  have hleased := hsound.leased
  refine ⟨fun k a ha => ⟨hleased.stops_le ha, hleased.asked_cases ha, fun n hn => ?_⟩,
    fun action t k a hstep ha => ?_, fun hidle k a ha => ?_, fun x c hc => ?_,
    fun x c hc hjob hpc k a ha hentered => ?_, fun hfree => (hsound.published.free hfree).symm⟩
  · have hcount := hleased.sound k a ha
    unfold Session.Sound at hcount
    rcases hn with hn | hn <;> rw [hn] at hcount
    · exact hcount.2.2
    · exact hcount.2.2.1
  · obtain ⟨b, hb, hkept⟩ := (next_did hstep).session ha
    refine ⟨b, hb, hkept.asked, ?_, fun hasked => next_grants hleased hstep ha hasked,
      hleased.stops_lt hstep ha hb⟩
    rcases hkept.stops with hsame | ⟨-, hmore⟩
    · exact hsame.ge
    · exact hmore ▸ Nat.le_succ _
  · have hstops : s.Asked k → a.stops = 1 := fun hk => by
      obtain ⟨b, hb, hstops⟩ := hleased.stops_idle hidle hk
      obtain rfl := Option.some.inj (hb.symm.trans ha)
      exact hstops
    refine ⟨⟨fun hasked => hstops ⟨a, ha, hasked⟩, fun hone => ?_⟩, ?_⟩
    · have hcount := hleased.sound k a ha
      unfold Session.Sound at hcount
      cases hstate : a.state with
      | running n | draining n =>
        rw [hstate] at hcount
        exact absurd (hone.symm.trans hcount.2.1) nofun
      | stopping | stopped ok =>
        rw [hstate] at hcount
        exact hcount.1
    · have hnobody : ∀ {x c}, s.calls x = some c → c.pc.carried = [] ∧ c.pc.owed = [] :=
        fun hc => by
          rw [hidle _ _ hc]
          exact ⟨rfl, rfl⟩
      rintro (hhanded | hgone | ⟨x, c, hc, hjob⟩)
      · rcases hsound.owed.kept k (by rw [ha]; exact nofun) with ⟨b, hb, hyes⟩ | hasked |
          ⟨x, c, hc, hmine | hmine⟩
        · obtain rfl := Option.some.inj (hb.symm.trans ha)
          exact absurd (hhanded.symm.trans hyes) nofun
        · exact hstops hasked
        · rw [(hnobody hc).1] at hmine
          cases hmine
        · rw [(hnobody hc).2] at hmine
          cases hmine
      · rcases hsound.owed.gone k hgone with hasked | ⟨x, c, hc, hmine⟩
        · exact hstops hasked
        · rw [(hnobody hc).2] at hmine
          cases hmine
      · rcases hsound.owed.registered x c k hc hjob with hasked | hmine
        · exact hstops hasked
        · rw [(hnobody hc).2] at hmine
          cases hmine
  · have hfine := hleased.fine x c hc
    constructor <;> intro hpc <;> rw [hpc] at hfine <;> cases hfine
  · obtain ⟨stage, hsome, hstage⟩ := hsound.torn.stages x c hc hjob
    rw [hpc] at hsome
    obtain rfl := Option.some.inj hsome
    rcases hstage.2 k ⟨a, ha, hentered⟩ with hmem | hstopped
    · cases hmem
    · obtain ⟨b, ok, hb, hstate⟩ := isStopped_iff.mp hstopped
      obtain rfl := Option.some.inj (hb.symm.trans ha)
      exact ⟨ok, hstate⟩

/-- A session is attached, and the stop of its registration comes to the hook. -/
def attachedAndStopped : List Action :=
  [.start 0 7 .attach, .step 0 (.scope 0), .scope 0 .go, .scope 0 .go, .scope 0 .go, .scope 0 .go,
    .step 0 .go, .step 0 .go, .step 0 .go, .step 0 .go, .step 0 .go, .step 0 .go, .step 0 .go,
    .step 0 (.attached 5 true), .step 0 .go, .step 0 .go, .step 0 .go, .step 0 .go, .step 0 .go,
    .start 1 7 (.stop 5), .step 1 .go]

theorem plugin_session_lifecycle_hook :
    ∃ s t a b, Run.exec next init attachedAndStopped = some s ∧
      next s (.step 1 (.stopped true)) = some t ∧ s.sessions 5 = some a ∧ t.sessions 5 = some b ∧
      a.stops < b.stops ∧ s.leased 5 = 0 := by
  have hrun : ((Run.exec next init attachedAndStopped).bind fun s =>
      (next s (.step 1 (.stopped true))).bind fun t => (s.sessions 5).bind fun a =>
        (t.sessions 5).map fun b => decide (a.stops < b.stops)) = some true := by decide +kernel
  obtain ⟨s, hs, hrun⟩ := Option.bind_eq_some_iff.mp hrun
  obtain ⟨t, ht, hrun⟩ := Option.bind_eq_some_iff.mp hrun
  obtain ⟨a, ha, hrun⟩ := Option.bind_eq_some_iff.mp hrun
  obtain ⟨b, hb, hlt⟩ := Option.map_eq_some_iff.mp hrun
  have hlt := of_decide_eq_true hlt
  obtain ⟨b', hb', -, -, -, hhook⟩ :=
    (plugin_session_lifecycle ⟨attachedAndStopped, hs⟩).2.1 _ t 5 a ht ha
  obtain rfl := Option.some.inj (hb'.symm.trans hb)
  exact ⟨s, t, a, b', hs, ht, ha, hb, hlt, (hhook hlt).2.2.2.1⟩

end Plugins

end Amalgam
