import Amalgam.Cache.GetOrSet
import Amalgam.Lib.LockLog

/-!
# Amalgam — the invariant of `get_or_set`

Every lock and every lease is in the hand of a call, or of the origin that the call has handed it
to. The history records who had which lock when, and each event in it was lawful when it happened:
an origin that has the lock of its key ran only after its own call had looked into L1 with the lock
in hand and found nothing fresh there. What a call carries from one point to the next comes from
what it has seen.
-/

set_option linter.unusedSectionVars false

namespace Amalgam

namespace GetOrSet

open LockLog (holder Touches Disciplined)

section

variable {K V : Type} [LinearOrder K]

/-! ## Histories -/

/-- What an event does to the lock of a key. -/
def Event.use : Event K V → Option (LockLog.Use K CallId)
  | .locked c key => some (.acquire key c)
  | .released c key => some (.release key c)
  | _ => none

theorem use_locked (c : CallId) (key : K) :
    (.locked c key : Event K V).use = some (.acquire key c) := rfl

theorem use_released (c : CallId) (key : K) :
    (.released c key : Event K V).use = some (.release key c) := rfl

/-- The call has looked into L1 with the lock in hand, and found nothing fresh there. -/
def Confirmed (c : CallId) (key : K) (history : List (Event K V)) : Prop :=
  ∃ between found before, history = between ++ .looked c key found :: before ∧
    found.isFresh = false ∧ holder Event.use key before = some c ∧
    ∀ e ∈ between, ¬ Touches Event.use key e

/-- What an event asks of the history before it. -/
def Lawful (e : Event K V) (history : List (Event K V)) : Prop :=
  match e with
  | .invoked c key participation reads =>
    (∀ k p r, .invoked c k p r ∉ history) ∧ (participation = .held →
      holder Event.use key history = some c ∧ (reads = true → Confirmed c key history))
  | .stored c key participation _ =>
    participation = .held → holder Event.use key history = some c
  | _ => True

def Legal : List (Event K V) → Prop
  | [] => True
  | e :: history => Legal history ∧ Lawful e history

theorem Confirmed.cons {c : CallId} {key : K} {history : List (Event K V)} {e : Event K V}
    (h : Confirmed c key history) (he : ¬ Touches Event.use key e) :
    Confirmed c key (e :: history) := by
  obtain ⟨between, found, before, rfl, hfound, hholder, hbetween⟩ := h
  refine ⟨e :: between, found, before, rfl, hfound, hholder, fun x hx => ?_⟩
  rcases List.mem_cons.mp hx with rfl | hx
  · exact he
  · exact hbetween x hx

theorem not_touches {key : K} {e : Event K V} (h : e.use = none) : ¬ Touches Event.use key e := by
  rintro ⟨p, hp | hp⟩ <;> rw [h] at hp <;> cases hp

/-! ## Who has what -/

def Flight.holding (flight : Flight V) : Option Guard :=
  match flight.pc with
  | .ended _ => none
  | _ => some flight.guard

namespace Work

/-- The guard of a call, or of its origin. -/
def guard (w : Work K V) : Option Guard := w.call.guard.or (w.flight.bind Flight.holding)

def Holds (w : Work K V) : Prop := ∃ lease, w.guard = some ⟨.held, lease⟩

def Leases (w : Work K V) (lease : LeaseId) : Prop :=
  ∃ participation, w.guard = some ⟨participation, some lease⟩

end Work

/-- The call has not come to its origin. -/
def CallPc.early : CallPc V → Bool
  | .waiting .. | .fallback .. | .done _ | .dropped => false
  | _ => true

/-- The origin has not been invoked. -/
def Work.uninvoked (w : Work K V) : Bool :=
  match w.flight with
  | none => true
  | some flight =>
    match flight.pc with
    | .lease _ | .fetch _ | .hydrate _ | .begun => true
    | _ => false

/-- The second look is behind the call. -/
def CallPc.looked : CallPc V → Bool
  | .fetch .. | .hydrate .. | .compute .. => true
  | _ => false

/-- The second look is behind the call, and its origin has not been invoked. -/
def Work.confirmed (w : Work K V) : Bool :=
  w.call.looked ||
    match w.flight with
    | some ⟨.begun, _⟩ => true
    | _ => false

/-! ## Where the values come from -/

/-- A stale entry that the call found in L1 or in L2. -/
def FromCache (c : CallId) (key : K) (history : List (Event K V)) (e : Entry V) : Prop :=
  .looked c key (.stale e) ∈ history ∨ ∃ fresh, .fetched c e fresh ∈ history

/-- What a call may answer. -/
def Permitted (cfg : Config V) (c : CallId) (w : Work K V) (history : List (Event K V)) :
    Reply V → Prop
  | .hit value => ∃ e, .looked c w.key (.fresh e) ∈ history ∧ cfg.copy e.value = some value
  | .distributed value => ∃ e, .fetched c e true ∈ history ∧ cfg.copy e.value = some value
  | .stale value => w.opts.isFailSafeEnabled = true ∧ .unlocked c ∈ history ∧
      ∃ e, .looked c w.key (.stale e) ∈ history ∧ cfg.copy e.value = some value
  | .fallback value => w.opts.isFailSafeEnabled = true ∧
      (.failed c ∈ history ∨ .timedOut c ∈ history) ∧
      ((∃ e, FromCache c w.key history e ∧ cfg.copy e.value = some value) ∨
        ∃ default copied, w.default = some default ∧ cfg.copy default = some copied ∧
          cfg.copy copied = some value)
  | .product value => .produced c value ∈ history
  | .error .factory => .failed c ∈ history
  | .error .factoryTimeout => .timedOut c ∈ history
  | .error _ => True

def Cause.event (c : CallId) : Cause → Event K V
  | .failed => .failed c
  | .timedOut => .timedOut c

/-- What the history has behind the point that a call has reached. -/
def CallPc.Backed (cfg : Config V) (c : CallId) (w : Work K V) (history : List (Event K V)) :
    CallPc V → Prop
  | .lock stale | .lease _ stale | .secondGet _ stale | .secondJudge _ stale _ _
  | .fetch _ stale => ∀ e, stale = some e → .looked c w.key (.stale e) ∈ history
  | .hydrate _ stale found fresh =>
    (∀ e, stale = some e → .looked c w.key (.stale e) ∈ history) ∧
      .fetched c found fresh ∈ history
  | .compute _ stale | .waiting stale _ => ∀ e, stale = some e → FromCache c w.key history e
  | .fallback stale cause =>
    (∀ e, stale = some e → FromCache c w.key history e) ∧ cause.event c ∈ history
  | .refresh e => .looked c w.key (.fresh e) ∈ history
  | .done reply => Permitted cfg c w history reply
  | .firstGet _ | .firstJudge .. | .dropped => True

def Flight.Backed (c : CallId) (history : List (Event K V)) (flight : Flight V) : Prop :=
  match flight.pc with
  | .lease _ => flight.guard.lease = none
  | .committing value _ _ | .ended (.value value) => .produced c value ∈ history
  | .ended .factoryError => .failed c ∈ history
  | _ => True

/-! ## What holds of each call -/

structure Sound (cfg : Config V) (history : List (Event K V)) (c : CallId) (w : Work K V) :
    Prop where
  early : w.call.early = true → w.flight = none
  confirmed : w.confirmed = true → w.opts.skipMemoryRead = false → w.Holds →
    Confirmed c w.key history
  uninvoked : w.uninvoked = true → ∀ k p r, .invoked c k p r ∉ history
  call : w.call.Backed cfg c w history
  flight : ∀ flight, w.flight = some flight → flight.Backed c history

section

variable {cfg : Config V} {c : CallId} {w : Work K V} {history history' : List (Event K V)}

theorem FromCache.mono {key : K} {e : Entry V} (h : FromCache c key history e)
    (hsub : ∀ x ∈ history, x ∈ history') : FromCache c key history' e :=
  h.imp (hsub _) fun ⟨fresh, hf⟩ => ⟨fresh, hsub _ hf⟩

theorem Permitted.mono {reply : Reply V} (h : Permitted cfg c w history reply)
    (hsub : ∀ x ∈ history, x ∈ history') : Permitted cfg c w history' reply := by
  cases reply with
  | hit value | distributed value =>
    obtain ⟨e, he, hcopy⟩ := h
    exact ⟨e, hsub _ he, hcopy⟩
  | stale value =>
    obtain ⟨hsafe, hunlocked, e, he, hcopy⟩ := h
    exact ⟨hsafe, hsub _ hunlocked, e, hsub _ he, hcopy⟩
  | fallback value =>
    obtain ⟨hsafe, hcause, hvalue⟩ := h
    refine ⟨hsafe, hcause.imp (hsub _) (hsub _), ?_⟩
    exact hvalue.imp_left fun ⟨e, he, hcopy⟩ => ⟨e, he.mono hsub, hcopy⟩
  | product value => exact hsub _ h
  | error error =>
    cases error with
    | factory | factoryTimeout => exact hsub _ h
    | lockTimeout | other => trivial

theorem CallPc.Backed.mono {pc : CallPc V} (h : pc.Backed cfg c w history)
    (hsub : ∀ x ∈ history, x ∈ history') : pc.Backed cfg c w history' := by
  cases pc with
  | lock stale | lease participation stale | secondGet guard stale
  | secondJudge guard stale got epoch | fetch guard stale => exact fun e he => hsub _ (h e he)
  | hydrate guard stale found fresh => exact ⟨fun e he => hsub _ (h.1 e he), hsub _ h.2⟩
  | compute guard stale | waiting stale timeout => exact fun e he => (h e he).mono hsub
  | fallback stale cause => exact ⟨fun e he => (h.1 e he).mono hsub, hsub _ h.2⟩
  | refresh e => exact hsub _ h
  | done reply => exact Permitted.mono h hsub
  | firstGet lock | firstJudge lock got epoch | dropped => trivial

theorem Flight.Backed.mono {flight : Flight V} (h : flight.Backed c history)
    (hsub : ∀ x ∈ history, x ∈ history') : flight.Backed c history' := by
  obtain ⟨pc, guard⟩ := flight
  cases pc with
  | committing value pending background => exact hsub _ h
  | ended result =>
    cases result with
    | value value | factoryError => exact hsub _ h
    | distributed value | error | cancelled => trivial
  | lease current => exact h
  | fetch current | hydrate found | begun | running | storing value => trivial

/-- An event of somebody else, or one that is no invocation. -/
theorem Sound.cons (h : Sound cfg history c w) {x : Event K V}
    (htouch : w.Holds → ¬ Touches Event.use w.key x) (hx : ∀ k p r, x ≠ .invoked c k p r) :
    Sound cfg (x :: history) c w where
  early := h.early
  confirmed := fun hc hreads hholds => (h.confirmed hc hreads hholds).cons (htouch hholds)
  uninvoked := fun hu k p r hmem =>
    h.uninvoked hu k p r ((List.mem_cons.mp hmem).resolve_left (hx k p r).symm)
  call := h.call.mono fun _ => List.mem_cons_of_mem x
  flight := fun flight hflight =>
    (h.flight flight hflight).mono fun _ => List.mem_cons_of_mem x

/-- Of a call without an origin, at its next point. -/
theorem Sound.early_at (h : Sound cfg history c w) (hearly : w.call.early = true)
    (hnew : ∀ k p r, .invoked c k p r ∈ history' → .invoked c k p r ∈ history) {pc : CallPc V}
    (hcall : pc.Backed cfg c w history')
    (hlooked : pc.looked = true → w.opts.skipMemoryRead = false → (w.at_ pc).Holds →
      Confirmed c w.key history') : Sound cfg history' c (w.at_ pc) := by
  have hnone := h.early hearly
  refine ⟨fun _ => hnone, fun hconfirmed => ?_, fun _ k p r hmem => ?_, hcall,
    fun flight hflight => ?_⟩
  · rw [Work.confirmed, Work.at_, hnone, Bool.or_false] at hconfirmed
    exact hlooked hconfirmed
  · refine h.uninvoked ?_ k p r (hnew k p r hmem)
    rw [Work.uninvoked, hnone]
  · cases hnone.symm.trans hflight

/-- Of a call that has an origin, or is over. -/
theorem Sound.late_at (h : Sound cfg history c w) (hlate : w.call.looked = false) {pc : CallPc V}
    (hearly : pc.early = false) (hlooked : pc.looked = false)
    (hguard : (w.at_ pc).guard = w.guard) (hcall : pc.Backed cfg c w history) :
    Sound cfg history c (w.at_ pc) := by
  refine ⟨fun hpc => ?_, fun hconfirmed hreads hholds => ?_, h.uninvoked, hcall, h.flight⟩
  · cases hearly.symm.trans hpc
  · refine h.confirmed ?_ hreads ?_
    · rw [Work.confirmed, Work.at_, hlooked] at hconfirmed
      rw [Work.confirmed, hlate]
      exact hconfirmed
    · obtain ⟨lease, hl⟩ := hholds
      exact ⟨lease, hguard.symm.trans hl⟩

end

/-! ## The invariant -/

structure Inv (cfg : Config V) (s : State K V) : Prop where
  locks : ∀ key c, s.shared.locks.lookup key = some c ↔
    ∃ w, s.work.lookup c = some w ∧ w.key = key ∧ w.Holds
  leases : ∀ lease c, s.shared.leases.lookup lease = some c ↔
    ∃ w, s.work.lookup c = some w ∧ w.Leases lease
  holder : ∀ key, holder Event.use key s.shared.history = s.shared.locks.lookup key
  disciplined : Disciplined Event.use s.shared.history
  legal : Legal s.shared.history
  sound : ∀ c w, s.work.lookup c = some w → Sound cfg s.shared.history c w
  fresh : ∀ c, c ∉ s.work → ∀ k p r, .invoked c k p r ∉ s.shared.history

variable {cfg : Config V} {sh : Shared K V} {work : AList fun _ : CallId => Work K V} {c : CallId}
  {w w' : Work K V}

namespace Inv

theorem holds (h : Inv cfg ⟨sh, work⟩) (hw : work.lookup c = some w) (hholds : w.Holds) :
    LockLog.holder Event.use w.key sh.history = some c :=
  (h.holder w.key).trans ((h.locks w.key c).mpr ⟨w, hw, rfl, hholds⟩)

theorem memory (h : Inv cfg ⟨sh, work⟩) (memory : Memory.State K V) :
    Inv cfg ⟨{ sh with memory }, work⟩ :=
  ⟨h.locks, h.leases, h.holder, h.disciplined, h.legal, h.sound, h.fresh⟩

/-- An event that touches no lock and invokes no origin. -/
theorem record (h : Inv cfg ⟨sh, work⟩) {e : Event K V} (huse : e.use = none)
    (hlawful : Lawful e sh.history) (hnot : ∀ c k p r, e ≠ .invoked c k p r) :
    Inv cfg ⟨sh.record e, work⟩ := by
  refine ⟨h.locks, h.leases, fun key => ?_, ⟨h.disciplined, ?_⟩, ⟨h.legal, hlawful⟩,
    fun c w hw => (h.sound c w hw).cons (fun _ => not_touches huse) (hnot c),
    fun c hc k p r hmem => ?_⟩
  · exact (LockLog.holder_cons_of_none huse key _).trans (h.holder key)
  · rw [huse]
    trivial
  · exact h.fresh c hc k p r ((List.mem_cons.mp hmem).resolve_left (hnot c k p r).symm)

theorem locks_put (h : Inv cfg ⟨sh, work⟩)
    (hholds : ∀ key, (w'.key = key ∧ w'.Holds) ↔
      ∃ w, work.lookup c = some w ∧ w.key = key ∧ w.Holds) (key : K) (d : CallId) :
    sh.locks.lookup key = some d ↔
      ∃ x, (work.insert c w').lookup d = some x ∧ x.key = key ∧ x.Holds := by
  refine (h.locks key d).trans (.trans ?_
    (AList.exists_lookup_insert fun w : Work K V => w.key = key ∧ w.Holds).symm)
  rw [hholds key]
  by_cases hdc : d = c
  · subst hdc
    exact ⟨fun hw => .inl ⟨rfl, hw⟩, fun hw => hw.elim (·.2) fun hw => absurd rfl hw.1⟩
  · exact ⟨fun hw => .inr ⟨hdc, hw⟩, fun hw => hw.elim (fun hw => absurd hw.1 hdc) (·.2)⟩

theorem leases_put (h : Inv cfg ⟨sh, work⟩)
    (hleases : ∀ lease, w'.Leases lease ↔ ∃ w, work.lookup c = some w ∧ w.Leases lease)
    (lease : LeaseId) (d : CallId) : sh.leases.lookup lease = some d ↔
      ∃ x, (work.insert c w').lookup d = some x ∧ x.Leases lease := by
  refine (h.leases lease d).trans (.trans ?_
    (AList.exists_lookup_insert fun w : Work K V => w.Leases lease).symm)
  rw [hleases lease]
  by_cases hdc : d = c
  · subst hdc
    exact ⟨fun hw => .inl ⟨rfl, hw⟩, fun hw => hw.elim (·.2) fun hw => absurd rfl hw.1⟩
  · exact ⟨fun hw => .inr ⟨hdc, hw⟩, fun hw => hw.elim (fun hw => absurd hw.1 hdc) (·.2)⟩

/-- A call whose hold on a lock and on a lease stays what it is. -/
theorem put (h : Inv cfg ⟨sh, work⟩)
    (hholds : ∀ key, (w'.key = key ∧ w'.Holds) ↔
      ∃ w, work.lookup c = some w ∧ w.key = key ∧ w.Holds)
    (hleases : ∀ lease, w'.Leases lease ↔ ∃ w, work.lookup c = some w ∧ w.Leases lease)
    (hsound : Sound cfg sh.history c w') : Inv cfg ⟨sh, work.insert c w'⟩ := by
  refine ⟨h.locks_put hholds, h.leases_put hleases, h.holder, h.disciplined, h.legal,
    fun d w hw => ?_, fun d hd => h.fresh d fun hmem => hd ((AList.mem_insert _).mpr (.inr hmem))⟩
  rcases AList.lookup_insert_cases hw with ⟨rfl, rfl⟩ | ⟨-, hw⟩
  · exact hsound
  · exact h.sound d w hw

theorem holds_kept (hw : work.lookup c = some w) (hkey : w'.key = w.key)
    (hguard : w'.guard = w.guard) (key : K) : (w'.key = key ∧ w'.Holds) ↔
      ∃ w, work.lookup c = some w ∧ w.key = key ∧ w.Holds := by
  constructor
  · rintro ⟨rfl, lease, hl⟩
    exact ⟨w, hw, hkey.symm, lease, hguard.symm.trans hl⟩
  · rintro ⟨x, hx, rfl, lease, hl⟩
    obtain rfl := Option.some.inj (hw.symm.trans hx)
    exact ⟨hkey, lease, hguard.trans hl⟩

theorem leases_kept (hw : work.lookup c = some w) (hguard : w'.guard = w.guard)
    (lease : LeaseId) :
    w'.Leases lease ↔ ∃ w, work.lookup c = some w ∧ w.Leases lease := by
  constructor
  · rintro ⟨participation, hp⟩
    exact ⟨w, hw, participation, hguard.symm.trans hp⟩
  · rintro ⟨x, hx, participation, hp⟩
    obtain rfl := Option.some.inj (hw.symm.trans hx)
    exact ⟨participation, hguard.trans hp⟩

/-- A call goes on with its guard. -/
theorem keep (h : Inv cfg ⟨sh, work⟩) (hw : work.lookup c = some w) (hkey : w'.key = w.key)
    (hguard : w'.guard = w.guard) (hsound : Sound cfg sh.history c w') :
    Inv cfg ⟨sh, work.insert c w'⟩ :=
  h.put (holds_kept hw hkey hguard) (leases_kept hw hguard) hsound

/-- A free lock is taken. -/
theorem take (h : Inv cfg ⟨sh, work⟩) (hnone : ∀ w, work.lookup c = some w → w.guard = none)
    {key : K} (hkey : w'.key = key) (hfree : sh.locks.lookup key = none)
    (hguard : w'.guard = some ⟨.held, none⟩)
    (hsound : Sound cfg (.locked c key :: sh.history) c w') :
    Inv cfg ⟨{ sh with locks := sh.locks.insert key c, history := .locked c key :: sh.history },
      work.insert c w'⟩ := by
  subst hkey
  have hholds : w'.Holds := ⟨none, hguard⟩
  refine ⟨fun key d => ?_, fun lease d => ?_, fun key => ?_, ⟨h.disciplined, ?_⟩,
    ⟨h.legal, trivial⟩, fun d x hx => ?_, fun d hd k p r hmem => ?_⟩
  · refine .trans ?_ (AList.exists_lookup_insert fun w : Work K V => w.key = key ∧ w.Holds).symm
    dsimp only
    by_cases hkey : key = w'.key
    · subst hkey
      rw [AList.lookup_insert]
      constructor
      · intro hcd
        exact .inl ⟨(Option.some.inj hcd).symm, rfl, hholds⟩
      · rintro (⟨rfl, -⟩ | ⟨-, hother⟩)
        · rfl
        · cases hfree.symm.trans ((h.locks _ d).mpr hother)
    · rw [AList.lookup_insert_ne hkey]
      refine (h.locks key d).trans ⟨?_, ?_⟩
      · rintro ⟨x, hx, hxkey, hxholds⟩
        refine .inr ⟨?_, x, hx, hxkey, hxholds⟩
        rintro rfl
        obtain ⟨lease, hl⟩ := hxholds
        cases (hnone x hx).symm.trans hl
      · rintro (⟨-, hxkey, -⟩ | ⟨-, hother⟩)
        · exact absurd hxkey.symm hkey
        · exact hother
  · refine .trans ((h.leases lease d).trans ⟨?_, ?_⟩)
      (AList.exists_lookup_insert fun w : Work K V => w.Leases lease).symm
    · rintro ⟨x, hx, participation, hp⟩
      refine .inr ⟨?_, x, hx, participation, hp⟩
      rintro rfl
      cases (hnone x hx).symm.trans hp
    · rintro (⟨-, participation, hp⟩ | ⟨-, hother⟩)
      · cases hguard.symm.trans hp
      · exact hother
  · dsimp only
    by_cases hkey : key = w'.key
    · subst hkey
      rw [AList.lookup_insert]
      exact LockLog.holder_acquire (use_locked c w'.key) _
    · rw [AList.lookup_insert_ne hkey]
      exact (LockLog.holder_acquire_ne (use_locked c w'.key) (Ne.symm hkey) _).trans (h.holder key)
  · exact (h.holder w'.key).trans hfree
  · rcases AList.lookup_insert_cases hx with ⟨rfl, rfl⟩ | ⟨-, hx⟩
    · exact hsound
    · refine (h.sound d x hx).cons (fun hxholds => ?_) fun k p r heq => by cases heq
      -- The lock of somebody who has one is not free.
      rintro ⟨p, htouch | htouch⟩
      · obtain ⟨hkey, -⟩ := LockLog.Use.acquire.inj (Option.some.inj htouch)
        cases hfree.symm.trans ((h.locks _ d).mpr ⟨x, hx, hkey.symm, hxholds⟩)
      · cases htouch
  · exact h.fresh d (fun hmem => hd ((AList.mem_insert _).mpr (.inr hmem))) k p r
      ((List.mem_cons.mp hmem).resolve_left fun heq => by cases heq)

/-- A lease is granted. -/
theorem lease (h : Inv cfg ⟨sh, work⟩) (hw : work.lookup c = some w)
    {participation : LocalParticipation} {lease : LeaseId}
    (hguard : w.guard = some ⟨participation, none⟩)
    (hguard' : w'.guard = some ⟨participation, some lease⟩) (hkey : w'.key = w.key)
    (hfree : sh.leases.lookup lease = none) (hsound : Sound cfg sh.history c w') :
    Inv cfg ⟨{ sh with leases := sh.leases.insert lease c }, work.insert c w'⟩ := by
  refine ⟨fun key d => ?_, fun other d => ?_, h.holder, h.disciplined, h.legal, fun d x hx => ?_,
    fun d hd => h.fresh d fun hmem => hd ((AList.mem_insert _).mpr (.inr hmem))⟩
  · refine .trans ((h.locks key d).trans ⟨?_, ?_⟩)
      (AList.exists_lookup_insert fun w : Work K V => w.key = key ∧ w.Holds).symm
    · rintro ⟨x, hx, hxkey, own, hown⟩
      by_cases hdc : d = c
      · subst hdc
        obtain rfl := Option.some.inj (hw.symm.trans hx)
        cases hguard.symm.trans hown
        exact .inl ⟨rfl, hkey.trans hxkey, some lease, hguard'⟩
      · exact .inr ⟨hdc, x, hx, hxkey, own, hown⟩
    · rintro (⟨rfl, hxkey, own, hown⟩ | ⟨-, hother⟩)
      · cases hguard'.symm.trans hown
        exact ⟨w, hw, hkey.symm.trans hxkey, none, hguard⟩
      · exact hother
  · refine .trans ?_ (AList.exists_lookup_insert fun w : Work K V => w.Leases other).symm
    dsimp only
    by_cases hlease : other = lease
    · subst hlease
      rw [AList.lookup_insert]
      constructor
      · intro hcd
        exact .inl ⟨(Option.some.inj hcd).symm, participation, hguard'⟩
      · rintro (⟨rfl, -⟩ | ⟨-, hother⟩)
        · rfl
        · cases hfree.symm.trans ((h.leases other d).mpr hother)
    · rw [AList.lookup_insert_ne hlease]
      refine (h.leases other d).trans ⟨?_, ?_⟩
      · rintro ⟨x, hx, p, hp⟩
        refine .inr ⟨?_, x, hx, p, hp⟩
        rintro rfl
        obtain rfl := Option.some.inj (hw.symm.trans hx)
        cases hguard.symm.trans hp
      · rintro (⟨-, p, hp⟩ | ⟨-, hother⟩)
        · cases hguard'.symm.trans hp
          exact absurd rfl hlease
        · exact hother
  · rcases AList.lookup_insert_cases hx with ⟨rfl, rfl⟩ | ⟨-, hx⟩
    · exact hsound
    · exact h.sound d x hx

/-- The leases after the drop of a guard. -/
theorem leases_released (h : Inv cfg ⟨sh, work⟩) (hw : work.lookup c = some w) {guard : Guard}
    (hguard : w.guard = some guard) (hnone : w'.guard = none) (lease : LeaseId) (d : CallId) :
    (sh.release c w.key guard).leases.lookup lease = some d ↔
      ∃ x, (work.insert c w').lookup d = some x ∧ x.Leases lease := by
  obtain ⟨participation, own⟩ := guard
  have hleases : (sh.release c w.key ⟨participation, own⟩).leases =
      own.elim sh.leases sh.leases.erase := by
    cases participation <;> cases own <;> rfl
  -- Whoever else has a lease keeps it, and the call has none but its own.
  have hown (hlease : w.Leases lease) : own = some lease := by
    obtain ⟨p, hp⟩ := hlease
    cases hguard.symm.trans hp
    rfl
  refine .trans ?_ (AList.exists_lookup_insert fun w : Work K V => w.Leases lease).symm
  rw [hleases]
  constructor
  · intro hlookup
    refine .inr ?_
    have hbefore : sh.leases.lookup lease = some d ∧ own ≠ some lease := by
      cases own with
      | none => exact ⟨hlookup, (Option.some_ne_none lease).symm⟩
      | some l =>
        by_cases hl : lease = l
        · subst hl
          cases (AList.lookup_erase _ _).symm.trans hlookup
        · exact ⟨(AList.lookup_erase_ne hl).symm.trans hlookup,
            fun heq => hl (Option.some.inj heq).symm⟩
    obtain ⟨x, hx, hxlease⟩ := (h.leases lease d).mp hbefore.1
    refine ⟨?_, x, hx, hxlease⟩
    rintro rfl
    obtain rfl := Option.some.inj (hw.symm.trans hx)
    exact hbefore.2 (hown hxlease)
  · rintro (⟨-, p, hp⟩ | ⟨hdc, x, hx, hxlease⟩)
    · cases hnone.symm.trans hp
    · have hlookup := (h.leases lease d).mpr ⟨x, hx, hxlease⟩
      cases own with
      | none => exact hlookup
      | some l =>
        refine (AList.lookup_erase_ne ?_).trans hlookup
        rintro rfl
        have hmine := (h.leases lease c).mpr ⟨w, hw, participation, hguard⟩
        exact hdc (Option.some.inj (hlookup.symm.trans hmine))

/-- A guard is dropped. -/
theorem give (h : Inv cfg ⟨sh, work⟩) (hw : work.lookup c = some w) {guard : Guard}
    (hguard : w.guard = some guard) (hnone : w'.guard = none)
    (hsound : Sound cfg (sh.release c w.key guard).history c w') :
    Inv cfg ⟨sh.release c w.key guard, work.insert c w'⟩ := by
  have hleases := h.leases_released hw hguard hnone
  obtain ⟨participation, own⟩ := guard
  have hfresh (d : CallId) (hd : d ∉ work.insert c w') (k : K) (p : LocalParticipation) (r : Bool) :
      .invoked d k p r ∉ sh.history :=
    h.fresh d (fun hmem => hd ((AList.mem_insert _).mpr (.inr hmem))) k p r
  cases participation with
  | unlockedAfterTimeout =>
    refine ⟨fun key d => ?_, hleases, h.holder, h.disciplined, h.legal, fun d x hx => ?_, hfresh⟩
    · refine .trans ((h.locks key d).trans ⟨?_, ?_⟩)
        (AList.exists_lookup_insert fun w : Work K V => w.key = key ∧ w.Holds).symm
      · rintro ⟨x, hx, hxkey, lease, hl⟩
        refine .inr ⟨?_, x, hx, hxkey, lease, hl⟩
        rintro rfl
        obtain rfl := Option.some.inj (hw.symm.trans hx)
        cases hguard.symm.trans hl
      · rintro (⟨-, -, lease, hl⟩ | ⟨-, hother⟩)
        · cases hnone.symm.trans hl
        · exact hother
    · rcases AList.lookup_insert_cases hx with ⟨rfl, rfl⟩ | ⟨-, hx⟩
      · exact hsound
      · exact h.sound d x hx
  | held =>
    have hmine := h.holds hw ⟨own, hguard⟩
    refine ⟨fun key d => ?_, hleases, fun key => ?_, ⟨h.disciplined, hmine⟩, ⟨h.legal, trivial⟩,
      fun d x hx => ?_, fun d hd k p r hmem => ?_⟩
    · refine .trans ?_ (AList.exists_lookup_insert fun w : Work K V => w.key = key ∧ w.Holds).symm
      show (sh.locks.erase w.key).lookup key = some d ↔ _
      constructor
      · intro hlookup
        have hkey : key ≠ w.key := by
          rintro rfl
          cases (AList.lookup_erase _ _).symm.trans hlookup
        obtain ⟨x, hx, hxkey, hxholds⟩ :=
          (h.locks key d).mp ((AList.lookup_erase_ne hkey).symm.trans hlookup)
        refine .inr ⟨?_, x, hx, hxkey, hxholds⟩
        rintro rfl
        obtain rfl := Option.some.inj (hw.symm.trans hx)
        exact hkey hxkey.symm
      · rintro (⟨-, -, lease, hl⟩ | ⟨hdc, hother⟩)
        · cases hnone.symm.trans hl
        · have hlookup := (h.locks key d).mpr hother
          refine (AList.lookup_erase_ne ?_).trans hlookup
          rintro rfl
          exact hdc (Option.some.inj
            (hlookup.symm.trans ((h.locks w.key c).mpr ⟨w, hw, rfl, own, hguard⟩)))
    · show LockLog.holder Event.use key (.released c w.key :: sh.history) =
        (sh.locks.erase w.key).lookup key
      by_cases hkey : key = w.key
      · subst hkey
        rw [AList.lookup_erase]
        exact LockLog.holder_release (use_released c w.key) _
      · rw [AList.lookup_erase_ne hkey]
        exact (LockLog.holder_release_ne (use_released c w.key) (Ne.symm hkey) _).trans
          (h.holder key)
    · rcases AList.lookup_insert_cases hx with ⟨rfl, rfl⟩ | ⟨hdc, hx⟩
      · exact hsound
      · refine (h.sound d x hx).cons (fun hxholds => ?_) fun k p r heq => by cases heq
        rintro ⟨p, htouch | htouch⟩
        · cases htouch
        · obtain ⟨hkey, -⟩ := LockLog.Use.release.inj (Option.some.inj htouch)
          exact hdc (Option.some.inj ((h.holds hx hxholds).symm.trans (hkey ▸ hmine)))
    · exact hfresh d hd k p r ((List.mem_cons.mp hmem).resolve_left fun heq => by cases heq)

/-- An origin is invoked. -/
theorem invoke (h : Inv cfg ⟨sh, work⟩) (hw : work.lookup c = some w)
    (hguard : w'.guard = w.guard) (hkey : w'.key = w.key)
    {participation : LocalParticipation} {reads : Bool}
    (hlawful : Lawful (.invoked c w.key participation reads) sh.history)
    (hsound : Sound cfg (.invoked c w.key participation reads :: sh.history) c w') :
    Inv cfg ⟨sh.record (.invoked c w.key participation reads), work.insert c w'⟩ := by
  have hnone : (.invoked c w.key participation reads : Event K V).use = none := rfl
  refine ⟨h.locks_put (holds_kept hw hkey hguard), h.leases_put (leases_kept hw hguard),
    fun key => ?_, ⟨h.disciplined, trivial⟩, ⟨h.legal, hlawful⟩, fun d x hx => ?_,
    fun d hd k p r hmem => ?_⟩
  · exact (LockLog.holder_cons_of_none hnone key _).trans (h.holder key)
  · rcases AList.lookup_insert_cases hx with ⟨rfl, rfl⟩ | ⟨hdc, hx⟩
    · exact hsound
    · refine (h.sound d x hx).cons (fun _ => not_touches hnone) fun k p r heq => ?_
      cases heq
      exact hdc rfl
  · have hdc : d ≠ c := fun hdc => hd ((AList.mem_insert _).mpr (.inl hdc))
    refine h.fresh d (fun hmem => hd ((AList.mem_insert _).mpr (.inr hmem))) k p r
      ((List.mem_cons.mp hmem).resolve_left fun heq => ?_)
    cases heq
    exact hdc rfl

end Inv

/-! ## The steps of a call -/

theorem guard_eq (hnone : w.flight = none) : w.guard = w.call.guard := by
  rw [Work.guard, hnone]
  exact Option.or_none

theorem guard_at (hnone : w.flight = none) (pc : CallPc V) : (w.at_ pc).guard = pc.guard :=
  guard_eq (w := w.at_ pc) hnone

theorem mem_release {key : K} {guard : Guard} {e : Event K V} (he : e ∈ sh.history) :
    e ∈ (sh.release c key guard).history := by
  obtain ⟨participation, lease⟩ := guard
  cases participation with
  | held => exact List.mem_cons_of_mem _ he
  | unlockedAfterTimeout => exact he

theorem invoked_of_release {key k : K} {guard : Guard} {d : CallId} {p : LocalParticipation}
    {r : Bool} (h : .invoked d k p r ∈ (sh.release c key guard).history) :
    .invoked d k p r ∈ sh.history := by
  obtain ⟨participation, lease⟩ := guard
  cases participation with
  | held => exact (List.mem_cons.mp h).resolve_left fun heq => by cases heq
  | unlockedAfterTimeout => exact h

namespace Inv

/-- A call without an origin goes on. -/
theorem go (h : Inv cfg ⟨sh, work⟩) (hw : work.lookup c = some w)
    (hearly : w.call.early = true) {pc : CallPc V} (hguard : pc.guard = w.call.guard)
    (hcall : pc.Backed cfg c w sh.history)
    (hlooked : pc.looked = true → w.opts.skipMemoryRead = false →
      LockLog.holder Event.use w.key sh.history = some c → Confirmed c w.key sh.history) :
    Inv cfg ⟨sh, work.insert c (w.at_ pc)⟩ := by
  have hsound := h.sound c w hw
  have hnone := hsound.early hearly
  have hsame : (w.at_ pc).guard = w.guard := by rw [guard_at hnone, guard_eq hnone, hguard]
  refine h.keep hw rfl hsame
    (hsound.early_at hearly (fun _ _ _ hmem => hmem) hcall fun hpc hreads hholds => ?_)
  obtain ⟨lease, hl⟩ := hholds
  exact hlooked hpc hreads (h.holds hw ⟨lease, hsame.symm.trans hl⟩)

/-- A call without an origin drops the lock, if it has it. -/
theorem leave (h : Inv cfg ⟨sh, work⟩) (hw : work.lookup c = some w)
    (hearly : w.call.early = true) {lock : Option Guard} (hown : w.call.guard = lock)
    {pc : CallPc V} (hguard : pc.guard = none) (hlooked : pc.looked = false)
    (hcall : pc.Backed cfg c w sh.history) :
    Inv cfg ⟨sh.releaseLock c w.key lock, work.insert c (w.at_ pc)⟩ := by
  have hsound := h.sound c w hw
  have hnone := hsound.early hearly
  have hnot (hpc : pc.looked = true) : False := by
    rw [hlooked] at hpc
    cases hpc
  cases lock with
  | none => exact h.go hw hearly (hguard.trans hown.symm) hcall fun hpc => (hnot hpc).elim
  | some guard =>
    have hmem (e : Event K V) : e ∈ sh.history → e ∈ (sh.release c w.key guard).history :=
      mem_release
    exact h.give hw ((guard_eq hnone).trans hown) ((guard_at hnone pc).trans hguard)
      (hsound.early_at hearly (fun _ _ _ => invoked_of_release) (hcall.mono hmem)
        fun hpc => (hnot hpc).elim)

/-- A call that has an origin goes on, or one that is over. -/
theorem late (h : Inv cfg ⟨sh, work⟩) (hw : work.lookup c = some w)
    (hguard : w.call.guard = none) (hlate : w.call.looked = false) {pc : CallPc V}
    (hearly : pc.early = false) (hlooked : pc.looked = false) (hpc : pc.guard = none)
    (hcall : pc.Backed cfg c w sh.history) : Inv cfg ⟨sh, work.insert c (w.at_ pc)⟩ := by
  have hsame : (w.at_ pc).guard = w.guard := by
    rw [Work.guard, Work.guard, hguard]
    exact congrArg (Option.or · _) hpc
  exact h.keep hw rfl hsame ((h.sound c w hw).late_at hlate hearly hlooked hsame hcall)

theorem looked (h : Inv cfg ⟨sh, work⟩) (key : K) (found : L1Read V) :
    Inv cfg ⟨sh.record (.looked c key found), work⟩ :=
  h.record rfl trivial fun _ _ _ _ heq => by cases heq

theorem judged (h : Inv cfg ⟨sh, work⟩) (key : K) (got : Entry V) (read : L1Read V × Bool) :
    Inv cfg ⟨sh.judged c key got read, work⟩ := (h.memory _).looked key read.1

end Inv

/-- Nothing fresh, with the lock in hand. -/
theorem confirmed_of_looked {found : L1Read V} {history : List (Event K V)}
    (hfound : found.isFresh = false)
    (hholder : LockLog.holder Event.use w.key (.looked c w.key found :: history) = some c) :
    Confirmed c w.key (.looked c w.key found :: history) :=
  ⟨[], found, history, rfl, hfound,
    (LockLog.holder_cons_of_none rfl w.key _).symm.trans hholder,
    fun _ he => absurd he List.not_mem_nil⟩

theorem served_backed {history : List (Event K V)} {reply : V → Reply V} {value : V}
    (h : ∀ copied, cfg.copy value = some copied → Permitted cfg c w history (reply copied)) :
    (served cfg reply value).Backed cfg c w history := by
  unfold served
  split
  · trivial
  · rename_i copied hcopy
    exact h copied hcopy

theorem served_quiet (cfg : Config V) (reply : V → Reply V) (value : V) :
    (served cfg reply value).guard = none ∧ (served cfg reply value).looked = false ∧
      (served cfg reply value).early = false := by
  unfold served
  split <;> exact ⟨rfl, rfl, rfl⟩

theorem afterLock_guard (w : Work K V) (guard : Guard) (stale : Option (Entry V)) :
    (afterLock w guard stale).guard = some guard := by
  unfold afterLock
  split <;> rfl

theorem afterLock_backed {history : List (Event K V)} {guard : Guard} {stale : Option (Entry V)}
    (h : ∀ e, stale = some e → .looked c w.key (.stale e) ∈ history) :
    (afterLock w guard stale).Backed cfg c w history := by
  unfold afterLock
  split <;> exact h

theorem afterLock_looked {guard : Guard} {stale : Option (Entry V)}
    (h : (afterLock w guard stale).looked = true) : w.opts.skipMemoryRead = true := by
  unfold afterLock at h
  split at h
  · assumption
  · cases h

theorem afterFirst_guard (w : Work K V) (lock : Option Guard) (stale : Option (Entry V)) :
    (afterFirst w lock stale).guard = lock := by
  cases lock with
  | none => rfl
  | some guard => exact afterLock_guard w guard stale

theorem afterFirst_backed {history : List (Event K V)} {lock : Option Guard}
    {stale : Option (Entry V)} (h : ∀ e, stale = some e → .looked c w.key (.stale e) ∈ history) :
    (afterFirst w lock stale).Backed cfg c w history := by
  cases lock with
  | none => exact h
  | some guard => exact afterLock_backed h

theorem afterFirst_looked {lock : Option Guard} {stale : Option (Entry V)}
    (h : (afterFirst w lock stale).looked = true) : w.opts.skipMemoryRead = true := by
  cases lock with
  | none => cases h
  | some guard => exact afterLock_looked h

theorem withLocal_guard (cfg : Config V) (w : Work K V) (participation : LocalParticipation)
    (stale : Option (Entry V)) :
    (withLocal cfg w participation stale).guard = some ⟨participation, none⟩ := by
  unfold withLocal
  split
  · exact afterLock_guard w _ stale
  · rfl

theorem withLocal_backed {history : List (Event K V)} {participation : LocalParticipation}
    {stale : Option (Entry V)} (h : ∀ e, stale = some e → .looked c w.key (.stale e) ∈ history) :
    (withLocal cfg w participation stale).Backed cfg c w history := by
  unfold withLocal
  split
  · exact afterLock_backed h
  · exact h

theorem withLocal_looked {participation : LocalParticipation} {stale : Option (Entry V)}
    (h : (withLocal cfg w participation stale).looked = true) : w.opts.skipMemoryRead = true := by
  unfold withLocal at h
  split at h
  · exact afterLock_looked h
  · cases h

namespace Inv

/-- After the first look. -/
theorem first (h : Inv cfg ⟨sh, work⟩) (hw : work.lookup c = some w)
    (hearly : w.call.early = true) {lock : Option Guard} (hguard : w.call.guard = lock)
    {stale : Option (Entry V)}
    (hstale : ∀ e, stale = some e → .looked c w.key (.stale e) ∈ sh.history) :
    Inv cfg ⟨sh, work.insert c (w.at_ (afterFirst w lock stale))⟩ := by
  refine h.go hw hearly ((afterFirst_guard w lock stale).trans hguard.symm)
    (afterFirst_backed hstale) fun hpc hreads => ?_
  cases (afterFirst_looked hpc).symm.trans hreads

/-- After `acquire_lock`. -/
theorem locked (h : Inv cfg ⟨sh, work⟩) (hw : work.lookup c = some w)
    (hearly : w.call.early = true) {guard : Guard} (hguard : w.call.guard = some guard)
    {stale : Option (Entry V)}
    (hstale : ∀ e, stale = some e → .looked c w.key (.stale e) ∈ sh.history) :
    Inv cfg ⟨sh, work.insert c (w.at_ (afterLock w guard stale))⟩ := by
  refine h.go hw hearly ((afterLock_guard w guard stale).trans hguard.symm)
    (afterLock_backed hstale) fun hpc hreads => ?_
  cases (afterLock_looked hpc).symm.trans hreads

/-- A call without a lock goes on to wait for a lease, or to look again. -/
theorem unlocked (h : Inv cfg ⟨sh, work⟩) (hw : work.lookup c = some w)
    (hearly : w.call.early = true) (hguard : w.call.guard = none) {stale : Option (Entry V)}
    (hstale : ∀ e, stale = some e → .looked c w.key (.stale e) ∈ sh.history) :
    Inv cfg ⟨sh, work.insert c (w.at_ (withLocal cfg w .unlockedAfterTimeout stale))⟩ := by
  have hsound := h.sound c w hw
  have hnone := hsound.early hearly
  have hbefore := (guard_eq hnone).trans hguard
  have hafter := (guard_at hnone _).trans (withLocal_guard cfg w .unlockedAfterTimeout stale)
  refine h.put (fun key => ⟨?_, ?_⟩) (fun lease => ⟨?_, ?_⟩)
    (hsound.early_at hearly (fun _ _ _ hmem => hmem) (withLocal_backed hstale) fun hpc hreads => ?_)
  · rintro ⟨-, lease, hl⟩
    cases hafter.symm.trans hl
  · rintro ⟨x, hx, -, lease, hl⟩
    obtain rfl := Option.some.inj (hw.symm.trans hx)
    cases hbefore.symm.trans hl
  · rintro ⟨participation, hp⟩
    cases hafter.symm.trans hp
  · rintro ⟨x, hx, participation, hp⟩
    obtain rfl := Option.some.inj (hw.symm.trans hx)
    cases hbefore.symm.trans hp
  · cases (withLocal_looked hpc).symm.trans hreads

/-- The lock is free, and the call takes it. -/
theorem acquire (h : Inv cfg ⟨sh, work⟩) (hw : work.lookup c = some w)
    (hearly : w.call.early = true) (hguard : w.call.guard = none)
    (hfree : sh.locks.lookup w.key = none) {stale : Option (Entry V)}
    (hstale : ∀ e, stale = some e → .looked c w.key (.stale e) ∈ sh.history) :
    Inv cfg ⟨{ sh with
      locks := sh.locks.insert w.key c, history := .locked c w.key :: sh.history },
      work.insert c (w.at_ (withLocal cfg w .held stale))⟩ := by
  have hsound := h.sound c w hw
  have hnone := hsound.early hearly
  have hbefore (x : Work K V) (hx : work.lookup c = some x) : x.guard = none := by
    obtain rfl := Option.some.inj (hw.symm.trans hx)
    exact (guard_eq hnone).trans hguard
  have hafter := (guard_at hnone _).trans (withLocal_guard cfg w .held stale)
  refine h.take hbefore rfl hfree hafter (hsound.early_at hearly (fun k p r hmem => ?_)
    (withLocal_backed fun e he => List.mem_cons_of_mem _ (hstale e he)) fun hpc hreads => ?_)
  · exact (List.mem_cons.mp hmem).resolve_left fun heq => by cases heq
  · cases (withLocal_looked hpc).symm.trans hreads

/-- An eager refresh takes the lock for its origin. -/
theorem eager (h : Inv cfg ⟨sh, work⟩) (hw : work.lookup c = some w)
    (hearly : w.call.early = true) (hguard : w.call.guard = none)
    (hfree : sh.locks.lookup w.key = none) {pc : CallPc V} {current : Entry V} {locker : Bool}
    (hpc : pc.guard = none ∧ pc.looked = false ∧ pc.early = false)
    (hcall : pc.Backed cfg c w (.locked c w.key :: sh.history)) :
    Inv cfg ⟨{ sh with
      locks := sh.locks.insert w.key c, history := .locked c w.key :: sh.history },
      work.insert c ((w.at_ pc).fly (if locker then .fetch current else .lease current)
        ⟨.held, none⟩)⟩ := by
  have hsound := h.sound c w hw
  have hnone := hsound.early hearly
  have hbefore (x : Work K V) (hx : work.lookup c = some x) : x.guard = none := by
    obtain rfl := Option.some.inj (hw.symm.trans hx)
    exact (guard_eq hnone).trans hguard
  refine h.take hbefore rfl hfree ?_ ⟨fun hw' => ?_, fun hw' => ?_, fun _ k p r hmem => ?_, hcall,
    fun flight hflight => ?_⟩
  · rw [Work.guard, Work.fly, Work.at_, hpc.1]
    cases locker <;> rfl
  · cases hpc.2.2.symm.trans hw'
  · rw [Work.confirmed, Work.fly, Work.at_, hpc.2.1] at hw'
    cases locker <;> cases hw'
  · refine hsound.uninvoked ?_ k p r
      ((List.mem_cons.mp hmem).resolve_left fun heq => by cases heq)
    rw [Work.uninvoked, hnone]
  · obtain rfl := Option.some.inj hflight
    cases locker
    · rfl
    · trivial

end Inv

end

end GetOrSet

end Amalgam
