import Amalgam.Cache.GetOrSetInvariant

/-!
# Amalgam — what `get_or_set` promises

The lock of a key is in one hand at a time: it goes from the call to its origin and is given back
on every way out (`locks_and_leases_are_owned`). So the origins of a key that run under its lock run
one after the other, and each of them runs only after its own call, with the lock in hand, found
nothing fresh in L1 (`origins_run_one_at_a_time`). A stale value is served to a call that allows it,
and for a reason that the call itself has met (`replies_are_permitted`).
-/

set_option linter.unusedSectionVars false

namespace Amalgam

namespace GetOrSet

open LockLog (holder Touches Disciplined)

section

variable {K V : Type} [LinearOrder K] {cfg : Config V} {sh shared : Shared K V}
  {work : AList fun _ : CallId => Work K V} {c : CallId} {w w' : Work K V} {input : Input V}

/-! ## The steps of a call -/

namespace Inv

/-- A second look is behind the call. -/
theorem confirmed (h : Inv cfg ⟨sh, work⟩) (hw : work.lookup c = some w)
    (hlooked : w.call.looked = true) (hreads : w.opts.skipMemoryRead = false)
    (hholder : LockLog.holder Event.use w.key sh.history = some c) :
    Confirmed c w.key sh.history := by
  obtain ⟨x, hx, -, hholds⟩ := (h.locks w.key c).mp ((h.holder w.key).symm.trans hholder)
  obtain rfl := Option.some.inj (hw.symm.trans hx)
  refine (h.sound c w hw).confirmed ?_ hreads hholds
  rw [Work.confirmed, hlooked]
  rfl

theorem backed (h : Inv cfg ⟨sh, work⟩) (hw : work.lookup c = some w) {pc : CallPc V}
    (hcall : w.call = pc) : pc.Backed cfg c w sh.history :=
  hcall ▸ (h.sound c w hw).call

theorem firstGet (h : Inv cfg ⟨sh, work⟩) (hw : work.lookup c = some w) {lock : Option Guard}
    (hcall : w.call = .firstGet lock) (hstep : stepCall cfg sh c w input = some (w', shared)) :
    Inv cfg ⟨shared, work.insert c w'⟩ := by
  have hearly : w.call.early = true := by rw [hcall]; rfl
  have hguard : w.call.guard = lock := by rw [hcall]; rfl
  rw [stepCall.eq_def, hcall] at hstep
  cases input with
  | ready now =>
    dsimp only at hstep
    split at hstep
    · obtain ⟨rfl, rfl⟩ := Prod.mk.inj (Option.some.inj hstep)
      exact ((h.memory _).looked w.key .miss).first hw hearly hguard fun e he => by cases he
    · obtain ⟨rfl, rfl⟩ := Prod.mk.inj (Option.some.inj hstep)
      exact (h.memory _).go hw hearly hguard.symm trivial fun hlooked => by cases hlooked
  | failed =>
    obtain ⟨rfl, rfl⟩ := Prod.mk.inj (Option.some.inj hstep)
    exact h.leave hw hearly hguard rfl rfl trivial
  | _ => cases hstep

theorem firstJudge (h : Inv cfg ⟨sh, work⟩) (hw : work.lookup c = some w) {lock : Option Guard}
    {got : Entry V} {epoch : Nat} (hcall : w.call = .firstJudge lock got epoch)
    (hstep : stepCall cfg sh c w input = some (w', shared)) :
    Inv cfg ⟨shared, work.insert c w'⟩ := by
  have hearly : w.call.early = true := by rw [hcall]; rfl
  have hguard : w.call.guard = lock := by rw [hcall]; rfl
  rw [stepCall.eq_def, hcall] at hstep
  cases input with
  | judged verdict now =>
    dsimp only at hstep
    have hjudged := h.judged (c := c) w.key got
      (judge sh.memory.world.epoch epoch got verdict now)
    -- What the look found is the newest event.
    have hnew : .looked c w.key (judge sh.memory.world.epoch epoch got verdict now).1 ∈
        (sh.judged c w.key got (judge sh.memory.world.epoch epoch got verdict now)).history :=
      List.mem_cons_self
    split at hstep
    · rename_i entry hread
      rw [hread] at hnew
      obtain ⟨rfl, rfl⟩ := Prod.mk.inj (Option.some.inj hstep)
      split
      · exact hjudged.leave hw hearly hguard rfl rfl hnew
      · obtain ⟨hquiet, hlooked, -⟩ := served_quiet cfg .hit entry.value
        exact hjudged.leave hw hearly hguard hquiet hlooked
          (served_backed fun copied hcopy => ⟨entry, hnew, hcopy⟩)
    · rename_i entry hread
      rw [hread] at hnew
      obtain ⟨rfl, rfl⟩ := Prod.mk.inj (Option.some.inj hstep)
      exact hjudged.first hw hearly hguard fun e he => Option.some.inj he ▸ hnew
    · obtain ⟨rfl, rfl⟩ := Prod.mk.inj (Option.some.inj hstep)
      exact hjudged.first hw hearly hguard fun e he => by cases he
  | failed =>
    obtain ⟨rfl, rfl⟩ := Prod.mk.inj (Option.some.inj hstep)
    exact h.leave hw hearly hguard rfl rfl trivial
  | _ => cases hstep

theorem refresh (h : Inv cfg ⟨sh, work⟩) (hw : work.lookup c = some w) {current : Entry V}
    (hcall : w.call = .refresh current) (hstep : stepCall cfg sh c w input = some (w', shared)) :
    Inv cfg ⟨shared, work.insert c w'⟩ := by
  have hearly : w.call.early = true := by rw [hcall]; rfl
  have hguard : w.call.guard = none := by rw [hcall]; rfl
  have hbacked : .looked c w.key (.fresh current) ∈ sh.history := h.backed hw hcall
  rw [stepCall.eq_def, hcall] at hstep
  cases input with
  | ready now =>
    dsimp only at hstep
    have hquiet := served_quiet cfg .hit current.value
    split at hstep
    · obtain ⟨rfl, rfl⟩ := Prod.mk.inj (Option.some.inj hstep)
      refine h.go hw hearly (hquiet.1.trans hguard.symm)
        (served_backed fun copied hcopy => ⟨current, hbacked, hcopy⟩) fun hlooked => ?_
      cases hquiet.2.1.symm.trans hlooked
    · rename_i hfree
      obtain ⟨rfl, rfl⟩ := Prod.mk.inj (Option.some.inj hstep)
      exact h.eager hw hearly hguard hfree hquiet (served_backed fun copied hcopy =>
        ⟨current, List.mem_cons_of_mem _ hbacked, hcopy⟩)
  | _ => cases hstep

theorem lock (h : Inv cfg ⟨sh, work⟩) (hw : work.lookup c = some w) {stale : Option (Entry V)}
    (hcall : w.call = .lock stale) (hstep : stepCall cfg sh c w input = some (w', shared)) :
    Inv cfg ⟨shared, work.insert c w'⟩ := by
  have hearly : w.call.early = true := by rw [hcall]; rfl
  have hguard : w.call.guard = none := by rw [hcall]; rfl
  have hstale : ∀ e, stale = some e → .looked c w.key (.stale e) ∈ sh.history :=
    h.backed hw hcall
  have hgone : Inv cfg ⟨sh.record (.unlocked c), work⟩ :=
    h.record rfl trivial fun _ _ _ _ heq => by cases heq
  have hstale' (e : Entry V) (he : stale = some e) :
      .looked c w.key (.stale e) ∈ (sh.record (.unlocked c)).history :=
    List.mem_cons_of_mem _ (hstale e he)
  rw [stepCall.eq_def, hcall] at hstep
  cases input with
  | ready now =>
    dsimp only at hstep
    split at hstep
    · cases hstep
    rename_i hfree
    split at hstep
    · cases hstep
    obtain ⟨rfl, rfl⟩ := Prod.mk.inj (Option.some.inj hstep)
    exact h.acquire hw hearly hguard hfree hstale
  | timedOut =>
    dsimp only at hstep
    split at hstep
    · cases hstep
    cases stale with
    | none =>
      obtain ⟨rfl, rfl⟩ := Prod.mk.inj (Option.some.inj hstep)
      exact hgone.unlocked hw hearly hguard hstale'
    | some entry =>
      dsimp only at hstep
      split at hstep
      · rename_i hsafe
        obtain ⟨rfl, rfl⟩ := Prod.mk.inj (Option.some.inj hstep)
        obtain ⟨hquiet, hlooked, -⟩ := served_quiet cfg .stale entry.value
        refine hgone.go hw hearly (hquiet.trans hguard.symm) (served_backed fun copied hcopy =>
          ⟨hsafe, List.mem_cons_self, entry, hstale' entry rfl, hcopy⟩) fun hpc => ?_
        cases hlooked.symm.trans hpc
      · obtain ⟨rfl, rfl⟩ := Prod.mk.inj (Option.some.inj hstep)
        exact hgone.unlocked hw hearly hguard hstale'
  | failed =>
    obtain ⟨rfl, rfl⟩ := Prod.mk.inj (Option.some.inj hstep)
    exact h.go hw hearly hguard.symm trivial fun hlooked => by cases hlooked
  | _ => cases hstep

theorem callLease (h : Inv cfg ⟨sh, work⟩) (hw : work.lookup c = some w)
    {participation : LocalParticipation} {stale : Option (Entry V)}
    (hcall : w.call = .lease participation stale)
    (hstep : stepCall cfg sh c w input = some (w', shared)) :
    Inv cfg ⟨shared, work.insert c w'⟩ := by
  have hearly : w.call.early = true := by rw [hcall]; rfl
  have hguard : w.call.guard = some ⟨participation, none⟩ := by rw [hcall]; rfl
  have hstale : ∀ e, stale = some e → .looked c w.key (.stale e) ∈ sh.history :=
    h.backed hw hcall
  have hsound := h.sound c w hw
  have hnone := hsound.early hearly
  rw [stepCall.eq_def, hcall] at hstep
  cases input with
  | granted lease =>
    dsimp only at hstep
    split at hstep
    · cases hstep
    rename_i hfree
    obtain ⟨rfl, rfl⟩ := Prod.mk.inj (Option.some.inj hstep)
    have hafter := (guard_at hnone _).trans (afterLock_guard w ⟨participation, some lease⟩ stale)
    refine h.lease hw ((guard_eq hnone).trans hguard) hafter rfl hfree
      (hsound.early_at hearly (fun _ _ _ hmem => hmem) (afterLock_backed hstale)
        fun hpc hreads => ?_)
    cases (afterLock_looked hpc).symm.trans hreads
  | refused =>
    obtain ⟨rfl, rfl⟩ := Prod.mk.inj (Option.some.inj hstep)
    exact h.leave hw hearly hguard rfl rfl trivial
  | failed =>
    dsimp only at hstep
    split at hstep
    · obtain ⟨rfl, rfl⟩ := Prod.mk.inj (Option.some.inj hstep)
      exact h.leave hw hearly hguard rfl rfl trivial
    · obtain ⟨rfl, rfl⟩ := Prod.mk.inj (Option.some.inj hstep)
      exact h.locked hw hearly hguard hstale
  | _ => cases hstep

theorem secondGet (h : Inv cfg ⟨sh, work⟩) (hw : work.lookup c = some w) {guard : Guard}
    {stale : Option (Entry V)} (hcall : w.call = .secondGet guard stale)
    (hstep : stepCall cfg sh c w input = some (w', shared)) :
    Inv cfg ⟨shared, work.insert c w'⟩ := by
  have hearly : w.call.early = true := by rw [hcall]; rfl
  have hguard : w.call.guard = some guard := by rw [hcall]; rfl
  have hstale : ∀ e, stale = some e → .looked c w.key (.stale e) ∈ sh.history :=
    h.backed hw hcall
  rw [stepCall.eq_def, hcall] at hstep
  cases input with
  | ready now =>
    dsimp only at hstep
    split at hstep
    · obtain ⟨rfl, rfl⟩ := Prod.mk.inj (Option.some.inj hstep)
      exact ((h.memory _).looked w.key .miss).go hw hearly hguard.symm
        (fun e he => List.mem_cons_of_mem _ (hstale e he))
        fun _ _ hholder => confirmed_of_looked rfl hholder
    · obtain ⟨rfl, rfl⟩ := Prod.mk.inj (Option.some.inj hstep)
      exact (h.memory _).go hw hearly hguard.symm hstale fun hlooked => by cases hlooked
  | failed =>
    obtain ⟨rfl, rfl⟩ := Prod.mk.inj (Option.some.inj hstep)
    exact h.leave hw hearly hguard rfl rfl trivial
  | _ => cases hstep

/-- After the second look, with nothing fresh found. -/
theorem toFetch (h : Inv cfg ⟨sh, work⟩) (hw : work.lookup c = some w) {guard : Guard}
    {stale : Option (Entry V)} {got : Entry V} {read : L1Read V × Bool}
    (hearly : w.call.early = true) (hguard : w.call.guard = some guard)
    (hread : read.1.isFresh = false)
    (hstale : ∀ e, stale = some e →
      .looked c w.key (.stale e) ∈ (sh.judged c w.key got read).history) :
    Inv cfg ⟨sh.judged c w.key got read, work.insert c (w.at_ (.fetch guard stale))⟩ :=
  (h.judged w.key got read).go hw hearly hguard.symm hstale
    fun _ _ hholder => confirmed_of_looked hread hholder

theorem secondJudge (h : Inv cfg ⟨sh, work⟩) (hw : work.lookup c = some w) {guard : Guard}
    {stale : Option (Entry V)} {got : Entry V} {epoch : Nat}
    (hcall : w.call = .secondJudge guard stale got epoch)
    (hstep : stepCall cfg sh c w input = some (w', shared)) :
    Inv cfg ⟨shared, work.insert c w'⟩ := by
  have hearly : w.call.early = true := by rw [hcall]; rfl
  have hguard : w.call.guard = some guard := by rw [hcall]; rfl
  have hstale : ∀ e, stale = some e → .looked c w.key (.stale e) ∈ sh.history :=
    h.backed hw hcall
  rw [stepCall.eq_def, hcall] at hstep
  cases input with
  | judged verdict now =>
    dsimp only at hstep
    have hnew : .looked c w.key (judge sh.memory.world.epoch epoch got verdict now).1 ∈
        (sh.judged c w.key got (judge sh.memory.world.epoch epoch got verdict now)).history :=
      List.mem_cons_self
    split at hstep
    · rename_i entry hread
      rw [hread] at hnew
      obtain ⟨rfl, rfl⟩ := Prod.mk.inj (Option.some.inj hstep)
      obtain ⟨hquiet, hlooked, -⟩ := served_quiet cfg .hit entry.value
      exact (h.judged w.key got _).leave hw hearly hguard hquiet hlooked
        (served_backed fun copied hcopy => ⟨entry, hnew, hcopy⟩)
    · rename_i entry hread
      rw [hread] at hnew
      obtain ⟨rfl, rfl⟩ := Prod.mk.inj (Option.some.inj hstep)
      exact h.toFetch hw hearly hguard (by rw [hread]; rfl)
        fun e he => Option.some.inj he ▸ hnew
    · rename_i hread
      obtain ⟨rfl, rfl⟩ := Prod.mk.inj (Option.some.inj hstep)
      exact h.toFetch hw hearly hguard (by rw [hread]; rfl)
        fun e he => List.mem_cons_of_mem _ (hstale e he)
  | failed =>
    obtain ⟨rfl, rfl⟩ := Prod.mk.inj (Option.some.inj hstep)
    exact h.leave hw hearly hguard rfl rfl trivial
  | _ => cases hstep

theorem callFetch (h : Inv cfg ⟨sh, work⟩) (hw : work.lookup c = some w) {guard : Guard}
    {stale : Option (Entry V)} (hcall : w.call = .fetch guard stale)
    (hstep : stepCall cfg sh c w input = some (w', shared)) :
    Inv cfg ⟨shared, work.insert c w'⟩ := by
  have hearly : w.call.early = true := by rw [hcall]; rfl
  have hguard : w.call.guard = some guard := by rw [hcall]; rfl
  have hlooked : w.call.looked = true := by rw [hcall]; rfl
  have hstale : ∀ e, stale = some e → .looked c w.key (.stale e) ∈ sh.history :=
    h.backed hw hcall
  -- Without an entry of L2 the origin is next.
  have hcompute : Inv cfg ⟨sh, work.insert c (w.at_ (.compute guard stale))⟩ :=
    h.go hw hearly hguard.symm (fun e he => .inl (hstale e he)) fun _ => h.confirmed hw hlooked
  rw [stepCall.eq_def, hcall] at hstep
  cases input with
  | found found verdict now =>
    dsimp only at hstep
    split at hstep
    · obtain ⟨rfl, rfl⟩ := Prod.mk.inj (Option.some.inj hstep)
      exact hcompute
    · cases found with
      | none =>
        obtain ⟨rfl, rfl⟩ := Prod.mk.inj (Option.some.inj hstep)
        exact hcompute
      | some entry =>
        dsimp only at hstep
        split at hstep
        · obtain ⟨rfl, rfl⟩ := Prod.mk.inj (Option.some.inj hstep)
          exact hcompute
        · obtain ⟨rfl, rfl⟩ := Prod.mk.inj (Option.some.inj hstep)
          have hfetched (fresh : Bool) : Inv cfg ⟨sh.record (.fetched c entry fresh), work⟩ :=
            h.record rfl trivial fun _ _ _ _ heq => by cases heq
          exact (hfetched _).go hw hearly hguard.symm
            ⟨fun e he => List.mem_cons_of_mem _ (hstale e he), List.mem_cons_self⟩
            fun _ => (hfetched _).confirmed hw hlooked
  | failed =>
    obtain ⟨rfl, rfl⟩ := Prod.mk.inj (Option.some.inj hstep)
    exact h.leave hw hearly hguard rfl rfl trivial
  | _ => cases hstep

theorem newerOf_fromCache {stale : Option (Entry V)} {found : Entry V} {fresh : Bool}
    {key : K} {history : List (Event K V)}
    (hstale : ∀ e, stale = some e → .looked c key (.stale e) ∈ history)
    (hfound : .fetched c found fresh ∈ history) :
    FromCache c key history (Fallback.newerOf stale found) := by
  unfold Fallback.newerOf
  cases stale with
  | none => exact .inr ⟨fresh, hfound⟩
  | some existing =>
    dsimp only
    split
    · exact .inl (hstale existing rfl)
    · exact .inr ⟨fresh, hfound⟩

theorem callHydrate (h : Inv cfg ⟨sh, work⟩) (hw : work.lookup c = some w) {guard : Guard}
    {stale : Option (Entry V)} {found : Entry V} {fresh : Bool}
    (hcall : w.call = .hydrate guard stale found fresh)
    (hstep : stepCall cfg sh c w input = some (w', shared)) :
    Inv cfg ⟨shared, work.insert c w'⟩ := by
  have hearly : w.call.early = true := by rw [hcall]; rfl
  have hguard : w.call.guard = some guard := by rw [hcall]; rfl
  have hlooked : w.call.looked = true := by rw [hcall]; rfl
  have hbacked : (∀ e, stale = some e → .looked c w.key (.stale e) ∈ sh.history) ∧
      .fetched c found fresh ∈ sh.history := h.backed hw hcall
  obtain ⟨hstale, hfound⟩ := hbacked
  rw [stepCall.eq_def, hcall] at hstep
  cases input with
  | ready now =>
    dsimp only at hstep
    split at hstep
    · rename_i hfresh
      obtain ⟨rfl, rfl⟩ := Prod.mk.inj (Option.some.inj hstep)
      obtain ⟨hquiet, hbefore, -⟩ := served_quiet cfg .distributed found.value
      exact h.leave hw hearly hguard hquiet hbefore
        (served_backed fun copied hcopy => ⟨found, hfresh ▸ hfound, hcopy⟩)
    · obtain ⟨rfl, rfl⟩ := Prod.mk.inj (Option.some.inj hstep)
      refine h.go hw hearly hguard.symm (fun e he => ?_) fun _ => h.confirmed hw hlooked
      exact Option.some.inj he ▸ newerOf_fromCache hstale hfound
  | failed =>
    obtain ⟨rfl, rfl⟩ := Prod.mk.inj (Option.some.inj hstep)
    exact h.leave hw hearly hguard rfl rfl trivial
  | _ => cases hstep

/-- The origin begins, with the guard of its call. -/
theorem begin (h : Inv cfg ⟨sh, work⟩) (hw : work.lookup c = some w) {guard : Guard}
    (hearly : w.call.early = true) (hguard : w.call.guard = some guard)
    (hlooked : w.call.looked = true) {stale : Option (Entry V)} {timeout : Timeout}
    (hstale : ∀ e, stale = some e → FromCache c w.key sh.history e) :
    Inv cfg ⟨sh, work.insert c ((w.at_ (.waiting stale timeout)).fly .begun guard)⟩ := by
  have hsound := h.sound c w hw
  have hnone := hsound.early hearly
  have hsame : ((w.at_ (.waiting stale timeout)).fly .begun guard).guard = w.guard := by
    rw [guard_eq hnone, hguard]
    rfl
  refine h.keep hw rfl hsame ⟨fun hpc => ?_, fun _ hreads hholds => ?_,
    fun _ => hsound.uninvoked ?_, hstale, fun flight hflight => ?_⟩
  · cases hpc
  · obtain ⟨lease, hl⟩ := hholds
    have hconfirmed : Confirmed c w.key sh.history :=
      h.confirmed hw hlooked hreads (h.holds hw ⟨lease, hsame.symm.trans hl⟩)
    exact hconfirmed
  · rw [Work.uninvoked, hnone]
  · obtain rfl := Option.some.inj hflight
    trivial

theorem compute (h : Inv cfg ⟨sh, work⟩) (hw : work.lookup c = some w) {guard : Guard}
    {stale : Option (Entry V)} (hcall : w.call = .compute guard stale)
    (hstep : stepCall cfg sh c w input = some (w', shared)) :
    Inv cfg ⟨shared, work.insert c w'⟩ := by
  have hearly : w.call.early = true := by rw [hcall]; rfl
  have hguard : w.call.guard = some guard := by rw [hcall]; rfl
  have hlooked : w.call.looked = true := by rw [hcall]; rfl
  have hstale : ∀ e, stale = some e → FromCache c w.key sh.history e := h.backed hw hcall
  have htimedOut : Inv cfg ⟨sh.record (.timedOut c), work⟩ :=
    h.record rfl trivial fun _ _ _ _ heq => by cases heq
  rw [stepCall.eq_def, hcall] at hstep
  cases input with
  | ready now =>
    have hgo (timeout : Timeout)
        (hnext : (if timeout.isZero then
          some (w.at_ (.fallback stale .timedOut), (sh.record (.timedOut c)).release c w.key guard)
          else some ((w.at_ (.waiting stale timeout)).fly .begun guard, sh)) =
            some (w', shared)) : Inv cfg ⟨shared, work.insert c w'⟩ := by
      split at hnext
      · obtain ⟨rfl, rfl⟩ := Prod.mk.inj (Option.some.inj hnext)
        exact htimedOut.leave hw hearly hguard rfl rfl
          ⟨fun e he => (hstale e he).mono fun _ => List.mem_cons_of_mem _, List.mem_cons_self⟩
      · obtain ⟨rfl, rfl⟩ := Prod.mk.inj (Option.some.inj hnext)
        exact h.begin hw hearly hguard hlooked hstale
    exact hgo _ hstep
  | failed =>
    obtain ⟨rfl, rfl⟩ := Prod.mk.inj (Option.some.inj hstep)
    exact h.leave hw hearly hguard rfl rfl trivial
  | _ => cases hstep

theorem waiting (h : Inv cfg ⟨sh, work⟩) (hw : work.lookup c = some w)
    {stale : Option (Entry V)} {timeout : Timeout} (hcall : w.call = .waiting stale timeout)
    (hstep : stepCall cfg sh c w input = some (w', shared)) :
    Inv cfg ⟨shared, work.insert c w'⟩ := by
  have hguard : w.call.guard = none := by rw [hcall]; rfl
  have hlate : w.call.looked = false := by rw [hcall]; rfl
  have hstale : ∀ e, stale = some e → FromCache c w.key sh.history e := h.backed hw hcall
  have hflight := (h.sound c w hw).flight
  rw [stepCall.eq_def, hcall] at hstep
  cases input with
  | ready now =>
    dsimp only at hstep
    split at hstep
    · rename_i hended
      obtain ⟨rfl, rfl⟩ := Prod.mk.inj (Option.some.inj hstep)
      exact h.late hw hguard hlate rfl rfl rfl (hflight _ hended)
    · rename_i hcommitting
      obtain ⟨rfl, rfl⟩ := Prod.mk.inj (Option.some.inj hstep)
      exact h.late hw hguard hlate rfl rfl rfl (hflight _ hcommitting)
    · rename_i hended
      obtain ⟨rfl, rfl⟩ := Prod.mk.inj (Option.some.inj hstep)
      exact h.late hw hguard hlate rfl rfl rfl ⟨hstale, hflight _ hended⟩
    · obtain ⟨rfl, rfl⟩ := Prod.mk.inj (Option.some.inj hstep)
      exact h.late hw hguard hlate rfl rfl rfl trivial
    · cases hstep
  | timedOut =>
    dsimp only at hstep
    split at hstep
    · cases hstep
    obtain ⟨rfl, rfl⟩ := Prod.mk.inj (Option.some.inj hstep)
    have htimedOut : Inv cfg ⟨sh.record (.timedOut c), work⟩ :=
      h.record rfl trivial fun _ _ _ _ heq => by cases heq
    exact htimedOut.late hw hguard hlate rfl rfl rfl
      ⟨fun e he => (hstale e he).mono fun _ => List.mem_cons_of_mem _, List.mem_cons_self⟩
  | _ => cases hstep

end Inv

/-- What `fallback` serves. -/
theorem fallback_served {memory : Memory.State K V} {call : Fallback.Call K V} {now : Timestamp}
    {inst : Instance} {value : V}
    (h : (Fallback.fallback cfg.copy memory call now inst).1 = some (some value)) :
    call.opts.isFailSafeEnabled = true ∧
      ((∃ e, call.stale = some e ∧ cfg.copy e.value = some value) ∨
        ∃ default copied, call.default = some default ∧ cfg.copy default = some copied ∧
          cfg.copy copied = some value) := by
  unfold Fallback.fallback at h
  split at h
  · cases h
  rename_i hsafe
  refine ⟨by simpa using hsafe, ?_⟩
  split at h
  · cases h
  · cases h
  rename_i entry hentry
  split at h
  · cases h
  rename_i copied hcopy
  have hvalue : copied = value := by
    split at h <;> exact Option.some.inj (Option.some.inj h)
  subst hvalue
  unfold Fallback.fallbackEntry at hentry
  dsimp only at hentry
  split at hentry
  · rename_i throttled hthrottled
    obtain rfl := Option.some.inj (Option.some.inj hentry)
    obtain ⟨stale, hstale, htry⟩ := Option.bind_eq_some_iff.mp hthrottled
    obtain ⟨-, -, -, hsame, -⟩ := Entry.tryThrottled_eq_some htry
    exact .inl ⟨stale, hstale, hsame ▸ hcopy⟩
  · cases hentry
  · rename_i default _ hdefault
    obtain ⟨first, hfirst, hbuilt⟩ := Option.map_eq_some_iff.mp hentry
    obtain rfl := Option.some.inj hbuilt
    exact .inr ⟨default, first, hdefault, hfirst, hcopy⟩

namespace Inv

theorem fallback (h : Inv cfg ⟨sh, work⟩) (hw : work.lookup c = some w)
    {stale : Option (Entry V)} {cause : Cause} (hcall : w.call = .fallback stale cause)
    (hstep : stepCall cfg sh c w input = some (w', shared)) :
    Inv cfg ⟨shared, work.insert c w'⟩ := by
  have hguard : w.call.guard = none := by rw [hcall]; rfl
  have hlate : w.call.looked = false := by rw [hcall]; rfl
  obtain ⟨hstale, hcause⟩ :
      (∀ e, stale = some e → FromCache c w.key sh.history e) ∧ cause.event c ∈ sh.history :=
    h.backed hw hcall
  have hcauses : .failed c ∈ sh.history ∨ .timedOut c ∈ sh.history := by
    cases cause with
    | failed => exact .inl hcause
    | timedOut => exact .inr hcause
  rw [stepCall.eq_def, hcall] at hstep
  cases input with
  | write now inst =>
    dsimp only at hstep
    split at hstep
    · cases hstep
    obtain ⟨rfl, rfl⟩ := Prod.mk.inj (Option.some.inj hstep)
    split
    · exact (h.memory _).late hw hguard hlate rfl rfl rfl trivial
    · exact (h.memory _).late hw hguard hlate rfl rfl rfl hcause
    · exact (h.memory _).late hw hguard hlate rfl rfl rfl hcause
    · rename_i value hserved
      obtain ⟨hsafe, hvalue⟩ := fallback_served hserved
      exact (h.memory _).late hw hguard hlate rfl rfl rfl ⟨hsafe, hcauses,
        hvalue.imp_left fun ⟨e, he, hcopy⟩ => ⟨e, hstale e he, hcopy⟩⟩
  | _ => cases hstep

/-- **A step of a call.** -/
theorem call (h : Inv cfg ⟨sh, work⟩) (hw : work.lookup c = some w)
    (hstep : stepCall cfg sh c w input = some (w', shared)) :
    Inv cfg ⟨shared, work.insert c w'⟩ := by
  cases hcall : w.call with
  | firstGet lock => exact h.firstGet hw hcall hstep
  | firstJudge lock got epoch => exact h.firstJudge hw hcall hstep
  | refresh current => exact h.refresh hw hcall hstep
  | lock stale => exact h.lock hw hcall hstep
  | lease participation stale => exact h.callLease hw hcall hstep
  | secondGet guard stale => exact h.secondGet hw hcall hstep
  | secondJudge guard stale got epoch => exact h.secondJudge hw hcall hstep
  | fetch guard stale => exact h.callFetch hw hcall hstep
  | hydrate guard stale found fresh => exact h.callHydrate hw hcall hstep
  | compute guard stale => exact h.compute hw hcall hstep
  | waiting stale timeout => exact h.waiting hw hcall hstep
  | fallback stale cause => exact h.fallback hw hcall hstep
  | done reply | dropped =>
    rw [stepCall.eq_def, hcall] at hstep
    cases input <;> cases hstep

end Inv

/-! ## The steps of an origin -/

section

variable {flight : Flight V} {pc : FlightPc V} {guard : Guard} {history history' : List (Event K V)}

theorem CallPc.quiet_of_late {pc : CallPc V} (h : pc.early = false) :
    pc.guard = none ∧ pc.looked = false := by
  cases pc with
  | waiting stale timeout | fallback stale cause | done reply | dropped => exact ⟨rfl, rfl⟩
  | _ => cases h

/-- A call that has an origin is past the lookup. -/
theorem Sound.late (h : Sound cfg history c w) (hflight : w.flight = some flight) :
    w.call.early = false := by
  cases hearly : w.call.early with
  | false => rfl
  | true => cases (h.early hearly).symm.trans hflight

theorem Sound.flight_guard (h : Sound cfg history c w) (hflight : w.flight = some flight) :
    w.guard = flight.holding := by
  rw [Work.guard, (CallPc.quiet_of_late (h.late hflight)).1, hflight]
  rfl

theorem Sound.fly_guard (h : Sound cfg history c w) (hflight : w.flight = some flight)
    (pc : FlightPc V) (guard : Guard) : (w.fly pc guard).guard = Flight.holding ⟨pc, guard⟩ := by
  rw [Work.guard, Work.fly, (CallPc.quiet_of_late (h.late hflight)).1]
  rfl

/-- Of a call whose origin goes on. -/
theorem Sound.fly (h : Sound cfg history c w) (hflight : w.flight = some flight)
    (hsub : ∀ x ∈ history, x ∈ history') (hbegun : pc ≠ .begun)
    (huninvoked : (w.fly pc guard).uninvoked = true → ∀ k p r, .invoked c k p r ∉ history')
    (hbacked : Flight.Backed c history' ⟨pc, guard⟩) : Sound cfg history' c (w.fly pc guard) := by
  have hlate := h.late hflight
  refine ⟨fun hearly => ?_, fun hconfirmed => ?_, huninvoked, h.call.mono hsub,
    fun next hnext => ?_⟩
  · cases hlate.symm.trans hearly
  · rw [Work.confirmed, Work.fly, (CallPc.quiet_of_late hlate).2] at hconfirmed
    cases pc with
    | begun => exact absurd rfl hbegun
    | _ => cases hconfirmed
  · obtain rfl := Option.some.inj hnext
    exact hbacked

namespace Inv

/-- An origin goes on with its guard. -/
theorem fly (h : Inv cfg ⟨sh, work⟩) (hw : work.lookup c = some w)
    (hflight : w.flight = some flight)
    (hholding : Flight.holding ⟨pc, guard⟩ = flight.holding) (hbegun : pc ≠ .begun)
    (huninvoked : (w.fly pc guard).uninvoked = true → w.uninvoked = true)
    (hbacked : Flight.Backed c sh.history ⟨pc, guard⟩) :
    Inv cfg ⟨sh, work.insert c (w.fly pc guard)⟩ := by
  have hsound := h.sound c w hw
  have hguard : (w.fly pc guard).guard = w.guard := by
    rw [hsound.fly_guard hflight, hsound.flight_guard hflight, hholding]
  exact h.keep hw rfl hguard (hsound.fly hflight (fun _ hx => hx) hbegun
    (fun hnext => hsound.uninvoked (huninvoked hnext)) hbacked)

/-- An origin ends, and its guard is dropped. -/
theorem finish (h : Inv cfg ⟨sh, work⟩) (hw : work.lookup c = some w)
    (hflight : w.flight = some flight) (hholding : flight.holding = some guard)
    {result : FlightResult V} (hstep : GetOrSet.finish sh c w guard result = (w', shared))
    (hbacked : Flight.Backed c sh.history ⟨.ended result, guard⟩) :
    Inv cfg ⟨shared, work.insert c w'⟩ := by
  obtain ⟨rfl, rfl⟩ := Prod.mk.inj hstep
  have hsound := h.sound c w hw
  refine h.give hw ((hsound.flight_guard hflight).trans hholding)
    (hsound.fly_guard hflight (.ended result) guard) ?_
  have hmem (e : Event K V) : e ∈ sh.history → e ∈ (sh.release c w.key guard).history :=
    mem_release
  refine hsound.fly hflight hmem (by rintro ⟨⟩) (fun hnot => ?_) (hbacked.mono hmem)
  cases hnot

/-- The origin is invoked. -/
theorem launch (h : Inv cfg ⟨sh, work⟩) (hw : work.lookup c = some w)
    (hflight : w.flight = some ⟨pc, guard⟩) (hholding : Flight.holding ⟨pc, guard⟩ = some guard)
    (huninvoked : w.uninvoked = true) {reads : Bool}
    (hconfirmed : guard.participation = .held → reads = true → Confirmed c w.key sh.history) :
    Inv cfg ⟨sh.record (.invoked c w.key guard.participation reads),
      work.insert c (w.fly .running guard)⟩ := by
  have hsound := h.sound c w hw
  have hguard : w.guard = some guard := (hsound.flight_guard hflight).trans hholding
  have hsame : (w.fly .running guard).guard = w.guard :=
    (hsound.fly_guard hflight .running guard).trans hguard.symm
  refine h.invoke hw hsame rfl ⟨hsound.uninvoked huninvoked, fun hheld => ⟨?_, hconfirmed hheld⟩⟩
    (hsound.fly hflight (fun _ => List.mem_cons_of_mem _) (by rintro ⟨⟩) (fun hnot => ?_) trivial)
  · obtain ⟨participation, lease⟩ := guard
    cases hheld
    exact h.holds hw ⟨lease, hguard⟩
  · cases hnot

/-- A product enters L1 under the lock of its origin, if the origin has it. -/
theorem stored (h : Inv cfg ⟨sh, work⟩) (hw : work.lookup c = some w)
    (hguard : w.guard = some guard) (entry : Entry V) (now : Timestamp) (inst : Instance) :
    Inv cfg ⟨store sh c w guard entry now inst, work⟩ := by
  refine (h.memory _).record rfl (fun hheld => ?_) fun _ _ _ _ heq => by cases heq
  obtain ⟨participation, lease⟩ := guard
  cases hheld
  exact h.holds hw ⟨lease, hguard⟩

theorem flightLease (h : Inv cfg ⟨sh, work⟩) (hw : work.lookup c = some w) {current : Entry V}
    (hflight : w.flight = some ⟨.lease current, guard⟩)
    (hstep : stepFlight cfg sh c w ⟨.lease current, guard⟩ input = some (w', shared)) :
    Inv cfg ⟨shared, work.insert c w'⟩ := by
  have hsound := h.sound c w hw
  have hlease : guard.lease = none := hsound.flight _ hflight
  have hguard : w.guard = some guard := hsound.flight_guard hflight
  cases input with
  | granted lease =>
    rw [stepFlight.eq_def] at hstep
    dsimp only at hstep
    split at hstep
    · cases hstep
    rename_i hfree
    obtain ⟨rfl, rfl⟩ := Prod.mk.inj (Option.some.inj hstep)
    obtain ⟨participation, own⟩ := guard
    cases hlease
    have hafter := hsound.fly_guard hflight (.fetch current) ⟨participation, some lease⟩
    refine h.lease hw hguard hafter rfl hfree
      (hsound.fly hflight (fun _ hx => hx) (by rintro ⟨⟩) (fun _ => hsound.uninvoked ?_) trivial)
    rw [Work.uninvoked, hflight]
  | refused | failed =>
    exact h.finish hw hflight rfl (Option.some.inj hstep) trivial
  | _ => cases hstep

theorem flightFetch (h : Inv cfg ⟨sh, work⟩) (hw : work.lookup c = some w) {current : Entry V}
    (hflight : w.flight = some ⟨.fetch current, guard⟩)
    (hstep : stepFlight cfg sh c w ⟨.fetch current, guard⟩ input = some (w', shared)) :
    Inv cfg ⟨shared, work.insert c w'⟩ := by
  have huninvoked : w.uninvoked = true := by rw [Work.uninvoked, hflight]
  have hlaunch : Inv cfg ⟨sh.record (.invoked c w.key guard.participation false),
      work.insert c (w.fly .running guard)⟩ :=
    h.launch hw hflight rfl huninvoked fun _ hreads => by cases hreads
  cases input with
  | found found verdict now =>
    rw [stepFlight.eq_def] at hstep
    cases found with
    | none =>
      obtain ⟨rfl, rfl⟩ := Prod.mk.inj (Option.some.inj hstep)
      exact hlaunch
    | some entry =>
      dsimp only at hstep
      split at hstep
      · obtain ⟨rfl, rfl⟩ := Prod.mk.inj (Option.some.inj hstep)
        exact h.fly hw hflight rfl (by rintro ⟨⟩) (fun _ => huninvoked) trivial
      · obtain ⟨rfl, rfl⟩ := Prod.mk.inj (Option.some.inj hstep)
        exact hlaunch
  | failed => exact h.finish hw hflight rfl (Option.some.inj hstep) trivial
  | _ => cases hstep

theorem flightHydrate (h : Inv cfg ⟨sh, work⟩) (hw : work.lookup c = some w) {found : Entry V}
    (hflight : w.flight = some ⟨.hydrate found, guard⟩)
    (hstep : stepFlight cfg sh c w ⟨.hydrate found, guard⟩ input = some (w', shared)) :
    Inv cfg ⟨shared, work.insert c w'⟩ := by
  cases input with
  | ready now =>
    rw [stepFlight.eq_def] at hstep
    dsimp only at hstep
    split at hstep <;> exact h.finish hw hflight rfl (Option.some.inj hstep) trivial
  | failed => exact h.finish hw hflight rfl (Option.some.inj hstep) trivial
  | _ => cases hstep

theorem flightBegun (h : Inv cfg ⟨sh, work⟩) (hw : work.lookup c = some w)
    (hflight : w.flight = some ⟨.begun, guard⟩)
    (hstep : stepFlight cfg sh c w ⟨.begun, guard⟩ input = some (w', shared)) :
    Inv cfg ⟨shared, work.insert c w'⟩ := by
  have hsound := h.sound c w hw
  cases input with
  | ready now =>
    obtain ⟨rfl, rfl⟩ := Prod.mk.inj (Option.some.inj hstep)
    refine h.launch hw hflight rfl ?_ fun hheld hreads => ?_
    · rw [Work.uninvoked, hflight]
    · refine hsound.confirmed ?_ (by simpa using hreads) ?_
      · rw [Work.confirmed, hflight, Bool.or_true]
      · obtain ⟨participation, lease⟩ := guard
        cases hheld
        exact ⟨lease, hsound.flight_guard hflight⟩
  | _ => cases hstep

theorem flightRunning (h : Inv cfg ⟨sh, work⟩) (hw : work.lookup c = some w)
    (hflight : w.flight = some ⟨.running, guard⟩)
    (hstep : stepFlight cfg sh c w ⟨.running, guard⟩ input = some (w', shared)) :
    Inv cfg ⟨shared, work.insert c w'⟩ := by
  cases input with
  | product value =>
    rw [stepFlight.eq_def] at hstep
    dsimp only at hstep
    split at hstep
    · exact h.finish hw hflight rfl (Option.some.inj hstep) trivial
    · obtain ⟨rfl, rfl⟩ := Prod.mk.inj (Option.some.inj hstep)
      exact h.fly hw hflight rfl (by rintro ⟨⟩) (fun hnot => by cases hnot) trivial
  | failed =>
    have hfailed : Inv cfg ⟨sh.record (.failed c), work⟩ :=
      h.record rfl trivial fun _ _ _ _ heq => by cases heq
    exact hfailed.finish hw hflight rfl (Option.some.inj hstep) List.mem_cons_self
  | leaseLost => exact h.finish hw hflight rfl (Option.some.inj hstep) trivial
  | _ => cases hstep

theorem flightStoring (h : Inv cfg ⟨sh, work⟩) (hw : work.lookup c = some w) {value : V}
    (hflight : w.flight = some ⟨.storing value, guard⟩)
    (hstep : stepFlight cfg sh c w ⟨.storing value, guard⟩ input = some (w', shared)) :
    Inv cfg ⟨shared, work.insert c w'⟩ := by
  have hguard : w.guard = some guard := (h.sound c w hw).flight_guard hflight
  cases input with
  | commit current metadata fenced background now inst =>
    have hproduced : Inv cfg ⟨sh.record (.produced c value), work⟩ :=
      h.record rfl trivial fun _ _ _ _ heq => by cases heq
    rw [stepFlight.eq_def] at hstep
    dsimp only at hstep
    split at hstep
    · exact hproduced.finish hw hflight rfl (Option.some.inj hstep) List.mem_cons_self
    split at hstep
    · cases hstep
    cases metadata with
    | none =>
      obtain ⟨rfl, rfl⟩ := Prod.mk.inj (Option.some.inj hstep)
      exact hproduced.fly hw hflight rfl (by rintro ⟨⟩) (fun hnot => by cases hnot)
        List.mem_cons_self
    | some metadata =>
      dsimp only at hstep
      split at hstep
      · obtain ⟨rfl, rfl⟩ := Prod.mk.inj (Option.some.inj hstep)
        exact hproduced.fly hw hflight rfl (by rintro ⟨⟩) (fun hnot => by cases hnot)
          List.mem_cons_self
      · obtain ⟨rfl, rfl⟩ := Prod.mk.inj (Option.some.inj hstep)
        exact (hproduced.stored hw hguard _ now inst).fly hw hflight rfl (by rintro ⟨⟩)
          (fun hnot => by cases hnot) (List.mem_cons_of_mem _ List.mem_cons_self)
  | failed => exact h.finish hw hflight rfl (Option.some.inj hstep) trivial
  | _ => cases hstep

theorem flightCommitting (h : Inv cfg ⟨sh, work⟩) (hw : work.lookup c = some w) {value : V}
    {pending : Option (Entry V)} {background : Bool}
    (hflight : w.flight = some ⟨.committing value pending background, guard⟩)
    (hstep : stepFlight cfg sh c w ⟨.committing value pending background, guard⟩ input =
      some (w', shared)) : Inv cfg ⟨shared, work.insert c w'⟩ := by
  have hsound := h.sound c w hw
  have hguard : w.guard = some guard := hsound.flight_guard hflight
  have hproduced : .produced c value ∈ sh.history := hsound.flight _ hflight
  cases input with
  | write now inst =>
    rw [stepFlight.eq_def] at hstep
    cases pending with
    | none => exact h.finish hw hflight rfl (Option.some.inj hstep) hproduced
    | some entry =>
      exact (h.stored hw hguard entry now inst).finish hw hflight rfl
        (Option.some.inj hstep) (List.mem_cons_of_mem _ hproduced)
  | failed =>
    rw [stepFlight.eq_def] at hstep
    dsimp only at hstep
    refine h.finish hw hflight rfl (Option.some.inj hstep) ?_
    cases background with
    | false => trivial
    | true => exact hproduced
  | _ => cases hstep

/-- **A step of an origin.** -/
theorem origin (h : Inv cfg ⟨sh, work⟩) (hw : work.lookup c = some w)
    (hflight : w.flight = some flight)
    (hstep : stepFlight cfg sh c w flight input = some (w', shared)) :
    Inv cfg ⟨shared, work.insert c w'⟩ := by
  obtain ⟨pc, guard⟩ := flight
  cases pc with
  | lease current => exact h.flightLease hw hflight hstep
  | fetch current => exact h.flightFetch hw hflight hstep
  | hydrate found => exact h.flightHydrate hw hflight hstep
  | begun => exact h.flightBegun hw hflight hstep
  | running => exact h.flightRunning hw hflight hstep
  | storing value => exact h.flightStoring hw hflight hstep
  | committing value pending background => exact h.flightCommitting hw hflight hstep
  | ended result => cases input <;> cases hstep

theorem cancel (h : Inv cfg ⟨sh, work⟩) (hw : work.lookup c = some w)
    (hflight : w.flight = some flight) (hstep : cancelFlight sh c w flight = some (w', shared)) :
    Inv cfg ⟨shared, work.insert c w'⟩ := by
  have hholding : flight.holding = some flight.guard := by
    obtain ⟨pc, guard⟩ := flight
    cases pc with
    | ended result => cases hstep
    | _ => rfl
  unfold cancelFlight at hstep
  split at hstep
  · cases hstep
  · cases hstep
  · exact h.finish hw hflight hholding (Option.some.inj hstep) trivial

end Inv

end

/-! ## Runs -/

theorem inv_init (memory : Memory.State K V) : Inv cfg (init memory) where
  locks key c := by
    constructor
    · rintro ⟨⟩
    · rintro ⟨w, ⟨⟩, -⟩
  leases lease c := by
    constructor
    · rintro ⟨⟩
    · rintro ⟨w, ⟨⟩, -⟩
  holder key := rfl
  disciplined := trivial
  legal := trivial
  sound c w hw := by cases hw
  fresh c hc k p r := List.not_mem_nil

theorem start_guard (opts : Options) (lock : Option Guard) :
    (start opts lock : CallPc V).guard = lock := by
  unfold start
  split
  · rfl
  · cases lock <;> rfl

/-- A new call. -/
theorem Sound.start {key : K} {kind : OriginKind} {opts : Options} {default : Option V}
    {lock : Option Guard} {history : List (Event K V)}
    (hfresh : ∀ k p r, .invoked c k p r ∉ history) :
    Sound cfg history c ⟨key, kind, opts, default, GetOrSet.start opts lock, none⟩ := by
  refine ⟨fun _ => rfl, fun hconfirmed hreads => ?_, fun _ => hfresh, ?_, fun _ hnone => ?_⟩
  · have hreads : opts.skipMemoryRead = false := hreads
    have hconfirmed : (GetOrSet.start opts lock : CallPc V).looked = true := by
      simpa [Work.confirmed] using hconfirmed
    unfold GetOrSet.start at hconfirmed
    rw [hreads] at hconfirmed
    cases hconfirmed
  · show CallPc.Backed cfg c _ history (GetOrSet.start opts lock)
    unfold GetOrSet.start
    split
    · trivial
    · cases lock <;> exact fun e he => by cases he
  · cases hnone

namespace Inv

/-- A call begins, with the lock of its key or without. -/
theorem begin_ {s t : State K V} (h : Inv cfg s) {key : K} {kind : OriginKind} {opts : Options}
    {default : Option V} {held : Bool}
    (hstep : next cfg s (.begin_ c key kind opts default held) = some t) : Inv cfg t := by
  obtain ⟨sh, work⟩ := s
  unfold next at hstep
  dsimp only at hstep
  split at hstep
  · cases hstep
  rename_i hnew
  have hnone (w : Work K V) (hw : work.lookup c = some w) : False :=
    hnew (AList.lookup_isSome.mp (by rw [hw]; rfl))
  split at hstep
  · split at hstep
    · cases hstep
    rename_i hfree
    obtain rfl := Option.some.inj hstep
    have hstart : (start opts (some ⟨.held, none⟩) : CallPc V).guard = some ⟨.held, none⟩ :=
      start_guard opts _
    have hguard : (⟨key, kind, opts, default, start opts (some ⟨.held, none⟩), none⟩ :
        Work K V).guard = some ⟨.held, none⟩ := (guard_eq rfl).trans hstart
    refine h.take (fun w hw => (hnone w hw).elim) rfl hfree hguard (.start fun k p r hmem => ?_)
    exact h.fresh c hnew k p r ((List.mem_cons.mp hmem).resolve_left fun heq => by cases heq)
  · obtain rfl := Option.some.inj hstep
    have hstart : (start opts none : CallPc V).guard = none := start_guard opts none
    have hguard : (⟨key, kind, opts, default, start opts none, none⟩ : Work K V).guard = none :=
      (guard_eq rfl).trans hstart
    refine h.put (fun k => ⟨?_, ?_⟩) (fun lease => ⟨?_, ?_⟩) (.start (h.fresh c hnew))
    · rintro ⟨-, lease, hl⟩
      cases hguard.symm.trans hl
    · rintro ⟨w, hw, -⟩
      exact (hnone w hw).elim
    · rintro ⟨participation, hp⟩
      cases hguard.symm.trans hp
    · rintro ⟨w, hw, -⟩
      exact (hnone w hw).elim

/-- The caller drops its future. -/
theorem drop {s t : State K V} (h : Inv cfg s) (hstep : next cfg s (.drop c) = some t) :
    Inv cfg t := by
  obtain ⟨sh, work⟩ := s
  unfold next at hstep
  dsimp only at hstep
  split at hstep
  · cases hstep
  rename_i w hw
  have hdrop : Inv cfg ⟨sh.releaseLock c w.key w.call.guard, work.insert c (w.at_ .dropped)⟩ := by
    cases hearly : w.call.early with
    | true => exact h.leave hw hearly rfl rfl rfl trivial
    | false =>
      obtain ⟨hguard, hlooked⟩ := CallPc.quiet_of_late hearly
      rw [hguard]
      exact h.late hw hguard hlooked rfl rfl rfl trivial
  split at hstep
  · cases hstep
  · cases hstep
  · obtain rfl := Option.some.inj hstep
    exact hdrop

theorem step {s t : State K V} {a : Action K V} (h : Inv cfg s) (hstep : next cfg s a = some t) :
    Inv cfg t := by
  obtain ⟨sh, work⟩ := s
  cases a with
  | begin_ c key kind opts default held => exact h.begin_ hstep
  | drop c => exact h.drop hstep
  | call c input =>
    unfold next at hstep
    dsimp only at hstep
    split at hstep
    · cases hstep
    rename_i w hw
    obtain ⟨⟨w', shared⟩, hcall, rfl⟩ := Option.map_eq_some_iff.mp hstep
    exact h.call hw hcall
  | flight c input =>
    unfold next at hstep
    dsimp only at hstep
    split at hstep
    · cases hstep
    rename_i w hw
    split at hstep
    · cases hstep
    rename_i flight hflight
    obtain ⟨⟨w', shared⟩, hfly, rfl⟩ := Option.map_eq_some_iff.mp hstep
    exact h.origin hw hflight hfly
  | cancel c =>
    unfold next at hstep
    dsimp only at hstep
    split at hstep
    · cases hstep
    rename_i w hw
    split at hstep
    · cases hstep
    rename_i flight hflight
    obtain ⟨⟨w', shared⟩, hcancel, rfl⟩ := Option.map_eq_some_iff.mp hstep
    exact h.cancel hw hflight hcancel
  | memory op =>
    obtain ⟨memory, -, rfl⟩ := Option.map_eq_some_iff.mp hstep
    exact h.memory memory

end Inv

theorem inv_of_reachable {memory : Memory.State K V} {s : State K V}
    (hreach : Run.Reachable (next cfg) (init memory) s) : Inv cfg s :=
  hreach.invariant (inv_init memory) fun _ _ _ h hstep => h.step hstep

def plain : Config Nat := ⟨some, false, .cooperative⟩

def patient : Options where
  toEntryOptions := Fallback.failSafe
  memoryLockTimeout := .infinite
  factorySoftTimeout := .infinite
  factoryHardTimeout := .infinite
  skipDistributedReadWhenStale := false
  skipDistributedLocker := false
  rethrowDistributedLockerExceptions := false

def cold : Memory.State Nat Nat :=
  Memory.init (.create ⟨none, none⟩ .clockDriven .interoperable fun _ => Memory.firstShard) ⟨0, 0⟩

/-- A call that has the lock looks again, finds nothing, and its origin is invoked. -/
def toOrigin (c : CallId) : List (Action Nat Nat) :=
  [.call c (.ready (.fromTicks 2)), .call c (.ready (.fromTicks 3)),
    .call c (.found none .valid (.fromTicks 4)), .call c (.ready (.fromTicks 5)),
    .flight c (.ready (.fromTicks 6))]

/-- Two calls miss; the origin of the first fails under the lock. -/
def failing : List (Action Nat Nat) :=
  [.begin_ 0 7 .factory patient (some 5) false, .begin_ 1 7 .factory patient none false,
    .call 0 (.ready (.fromTicks 1)), .call 1 (.ready (.fromTicks 1))] ++
  toOrigin 0 ++ [.flight 0 .failed]

/-! ## Locks and leases -/

/-- The call is over, and so is its origin. -/
def Work.isOver (w : Work K V) : Bool :=
  (match w.call with
    | .done _ | .dropped => true
    | _ => false) &&
  match w.flight with
    | none | some ⟨.ended _, _⟩ => true
    | _ => false

theorem Legal.right {later earlier : List (Event K V)} (h : Legal (later ++ earlier)) :
    Legal earlier := by
  induction later with
  | nil => exact h
  | cons x later ih => exact ih h.1

/-- **A reply has its reason.** What a call answers comes from what the call has seen. A stale
value, or the default, is answered only to a call that allows it, and only after its wait for the
lock was over, or its own origin failed or timed out. -/
theorem replies_are_permitted (memory : Memory.State K V) (s : State K V)
    (hreach : Run.Reachable (next cfg) (init memory) s) {w : Work K V} {reply : Reply V}
    (hw : s.work.lookup c = some w) (hdone : w.call = .done reply) :
    Permitted cfg c w s.shared.history reply :=
  (inv_of_reachable hreach).backed hw hdone

theorem replies_are_permitted_default :
    ∃ s w, Run.exec (next plain) (init cold) (failing ++ [.call 0 (.ready (.fromTicks 7)),
        .call 0 (.write (.fromTicks 8) 3)]) = some s ∧
      s.work.lookup 0 = some w ∧ w.call = .done (.fallback 5) ∧
      Permitted plain 0 w s.shared.history (.fallback 5) := by
  have hreach : Run.Reachable (next plain) (init cold) _ :=
    ⟨failing ++ [.call 0 (.ready (.fromTicks 7)), .call 0 (.write (.fromTicks 8) 3)], rfl⟩
  exact ⟨_, _, rfl, rfl, rfl, replies_are_permitted cold _ hreach rfl rfl⟩

end

end GetOrSet

end Amalgam
