import Mathlib.Data.String.Basic
import Amalgam.Memory.Registry

/-!
# Amalgam — an origin commits only what nothing overtook

`Overtaken` says that the counter or the clear generation moved past a capture. Nothing
takes this back, and every conflicting operation brings it about for all live origins of
its key, so an origin that still matches was captured after the last conflict.

* **`invalidated_of_conflicts`** — what a conflicting operation does to the revisions.
* **`origin_commits_only_unconflicted`** — the property of whole runs.
-/

namespace Amalgam

namespace Memory

variable {K V : Type} [LinearOrder K] {s t : State K V}

/-! ## Overtaken origins -/

/-- The counter or the clear generation moved past the capture. -/
def Overtaken (s : State K V) (o : MemoryOrigin K) : Prop :=
  o.snapshot.captured < s.cells o.snapshot.revision ∨ o.snapshot.generation < s.generation

/-- Whoever holds the handle `id`, if it is still live, holds an overtaken origin. -/
structure HandleOvertaken (s : State K V) (id : OriginId) : Prop where
  known : id < s.nextOrigin
  overtaken : ∀ o, s.live.lookup id = some o → Overtaken s o

/-- The handle `id`, if it is still live, is an origin of `key`. -/
structure HandleOf (s : State K V) (id : OriginId) (key : K) : Prop where
  known : id < s.nextOrigin
  key_eq : ∀ o, s.live.lookup id = some o → o.key = key

omit [LinearOrder K] in
theorem Overtaken.not_matches {o : MemoryOrigin K} (h : Overtaken s o) :
    o.snapshot.matches s.cells s.generation = false := by
  apply Bool.eq_false_of_not_eq_true
  intro hmatch
  obtain ⟨-, hgeneration, hcells⟩ := RevisionSnapshot.matches_iff.mp hmatch
  rcases h with h | h
  · omega
  · omega

/-- What an operation can do to a handle that exists already. -/
theorem Effect.old_handle (heffect : Effect s t) {id : OriginId} (hid : id < s.nextOrigin) :
    id < t.nextOrigin ∧ ∀ o, t.live.lookup id = some o → s.live.lookup id = some o := by
  cases heffect with
  | quiet frame cells =>
    rw [frame.nextOrigin, frame.live]
    exact ⟨hid, fun o ho => ho⟩
  | advanced key frame cells =>
    rw [frame.nextOrigin, frame.live]
    exact ⟨hid, fun o ho => ho⟩
  | cleared ht =>
    subst ht
    exact ⟨hid, fun o ho => ho⟩
  | captured key provided hprovided hgeneration origins cells revision captured hcapture ht =>
    subst ht
    refine ⟨Nat.lt_succ_of_lt hid, fun o ho => ?_⟩
    rwa [AList.lookup_insert_ne (Nat.ne_of_lt hid)] at ho
  | forgot i origin hlive ht =>
    subst ht
    refine ⟨hid, fun o ho => ?_⟩
    by_cases hi : id = i
    · rw [hi, AList.lookup_erase] at ho
      cases ho
    · rwa [AList.lookup_erase_ne hi] at ho
  | lent ht =>
    subst ht
    exact ⟨hid, fun o ho => ho⟩
  | released r ht =>
    subst ht
    exact ⟨hid, fun o ho => ho⟩

/-- Counters of live origins and the generation never go back. -/
theorem Effect.grows (h : Inv s) (heffect : Effect s t) :
    s.generation ≤ t.generation ∧ ∀ id o, s.live.lookup id = some o →
      s.cells o.snapshot.revision ≤ t.cells o.snapshot.revision := by
  cases heffect with
  | quiet frame cells =>
    rw [frame.generation, cells]
    exact ⟨le_refl _, fun _ _ _ => le_refl _⟩
  | advanced key frame cells =>
    rw [frame.generation, cells]
    exact ⟨le_refl _, fun _ _ _ => Origins.le_advance h.current.cells_le _⟩
  | cleared ht =>
    subst ht
    refine ⟨?_, fun _ _ _ => le_refl _⟩
    show s.generation ≤ s.backend.invalidateAll.generation
    rw [Backend.invalidateAll_generation]
    exact le_saturatingSucc h.current.generation_le
  | captured key provided hprovided hgeneration origins cells revision captured hcapture ht =>
    subst ht
    refine ⟨?_, fun id o ho => ?_⟩
    · show s.generation ≤ (s.backend.withOrigins origins).generation
      rw [Backend.withOrigins_generation]
      exact le_refl _
    · obtain ⟨-, -, -, -, ⟨hcells, -⟩ | ⟨hcells, -, -⟩⟩ :=
        Origins.captureFrom_eq_some (fun a ha => h.registered_owned ha) hcapture
      · exact le_of_eq (congrFun hcells _).symm
      · show s.cells _ ≤ cells _
        rw [hcells, h.update_fresh ho]
  | forgot i origin hlive ht =>
    subst ht
    refine ⟨?_, fun _ _ _ => le_refl _⟩
    show s.generation ≤ (s.backend.withOrigins _).generation
    rw [Backend.withOrigins_generation]
    exact le_refl _
  | lent ht =>
    subst ht
    exact ⟨le_refl _, fun id o ho => le_of_eq (h.update_fresh ho).symm⟩
  | released r ht =>
    subst ht
    exact ⟨le_refl _, fun _ _ _ => le_refl _⟩

theorem HandleOf.step {id : OriginId} {key : K} (h : HandleOf s id key)
    (heffect : Effect s t) : HandleOf t id key := by
  obtain ⟨hknown, hold⟩ := heffect.old_handle h.known
  exact ⟨hknown, fun o ho => h.key_eq o (hold o ho)⟩

theorem HandleOvertaken.step {id : OriginId} (hinv : Inv s) (h : HandleOvertaken s id)
    (heffect : Effect s t) : HandleOvertaken t id := by
  obtain ⟨hknown, hold⟩ := heffect.old_handle h.known
  obtain ⟨hgeneration, hcells⟩ := heffect.grows hinv
  refine ⟨hknown, fun o ho => ?_⟩
  rcases h.overtaken o (hold o ho) with hlt | hlt
  · exact .inl (lt_of_lt_of_le hlt (hcells id o (hold o ho)))
  · exact .inr (lt_of_lt_of_le hlt hgeneration)

/-! ## Conflicts -/

/-- The write passed the comparison with what it expected. -/
def Compared (s : State K V) (op : Op K V) : Prop :=
  ∃ a, output s op = some (.admission a) ∧ a.compared = true

/-- The operation takes `key` away from every factory that captured it before: an explicit
insert, removal or skip whatever comes of it, an expiration or an origin's commit that was
not turned away by its comparison, a clear. -/
def Conflicts (key : K) (s : State K V) : Op K V → Prop
  | .applyInsert write => write.key = key
  | .insertValueBorrowed write => write.key = key
  | .insertPlainBorrowed k _ _ _ _ => k = key
  | .applyExpire write expected => write.key = key ∧ Compared s (.applyExpire write expected)
  | .detachRemove k => k = key
  | .invalidateOrigin k => k = key
  | .skipOrigin k id => k = key ∧ output s (.skipOrigin k id) = some (.skipped true)
  | .applyOrigin write id => write.key = key ∧ Compared s (.applyOrigin write id)
  | .invalidateAll => True
  | _ => False

/-- How a conflict shows: the revision of the key moved, the store was cleared, or its
generation was exhausted before. -/
inductive Invalidated (key : K) (s t : State K V) : Prop
  | advanced (frame : Frame s t) (cells : t.cells = s.origins.advance s.owners s.cells key)
  | cleared (ht : t = { s with backend := s.backend.invalidateAll })
  | exhausted (frame : Frame s t) (hmax : s.generation = u64Max)

theorem Invalidated.overtaken (hinv : Inv s) {key : K} (h : Invalidated key s t)
    {id : OriginId} {o : MemoryOrigin K} (ho : s.live.lookup id = some o) (hkey : o.key = key) :
    Overtaken t o := by
  have hcaptured := hinv.current.captured_lt id o ho
  cases h with
  | advanced frame cells =>
    obtain ⟨n, hactive⟩ := hinv.counted.active id o ho
    rw [hkey] at hactive
    refine .inl ?_
    rw [cells]
    exact Origins.lt_advance hactive (mem_owners_of_live ho) hcaptured
      (hinv.current.captured_le id o ho)
  | cleared ht =>
    subst ht
    refine .inr ?_
    show o.snapshot.generation < s.backend.invalidateAll.generation
    rw [Backend.invalidateAll_generation]
    exact lt_saturatingSucc (hinv.current.cleared_lt id o ho) (hinv.current.cleared_le id o ho)
  | exhausted frame hmax =>
    refine .inr ?_
    rw [frame.generation, hmax]
    exact hinv.current.cleared_lt id o ho

theorem Verdict.invalidated_of_mutation {key : K}
    {result : RetentionCommit K V × Backend K V × Cells} (hkeeps : s.backend.Keeps result.2.1)
    (hverdict : Verdict s.backend s.owners s.cells key .mutation result.1.admission result.2.2) :
    Invalidated key s (committed s result).2 := by
  have hframe : Frame s (committed s result).2 := Frame.of_keeps result.2.2 hkeeps
  have hcases : s.backend.generation = u64Max ∨
      result.2.2 = s.backend.origins.advance s.owners s.cells key := by
    generalize result.1.admission = a at hverdict
    generalize result.2.2 = cells at hverdict
    cases hverdict with
    | exhausted hmax => exact .inl hmax
    | changed current hmatch => cases hmatch
    | expired => exact .inr rfl
    | passed => exact .inr rfl
  rcases hcases with hmax | hcells
  · exact .exhausted hframe hmax
  · exact .advanced hframe hcells

theorem Verdict.invalidated_of_compared {key : K} {expected : Expected V}
    (hexpected : expected.changesOrigin = true)
    {result : RetentionCommit K V × Backend K V × Cells} (hkeeps : s.backend.Keeps result.2.1)
    (hverdict : Verdict s.backend s.owners s.cells key expected result.1.admission result.2.2)
    (hcompared : result.1.admission.compared = true) :
    Invalidated key s (committed s result).2 := by
  have hframe : Frame s (committed s result).2 := Frame.of_keeps result.2.2 hkeeps
  have hcells : result.2.2 = s.backend.origins.advance s.owners s.cells key := by
    generalize result.1.admission = a at hverdict hcompared
    generalize result.2.2 = cells at hverdict
    cases hverdict with
    | exhausted => cases hcompared
    | changed => cases hcompared
    | expired => cases hcompared
    | passed => exact if_pos hexpected
  exact .advanced hframe hcells

theorem applyWrite_invalidated_of_compared {write : PreparedWrite K V} {expected : Expected V}
    (hexpected : expected.changesOrigin = true) {a : MemoryAdmission}
    (ha : (applyWrite s write expected).1 = .admission a) (hcompared : a.compared = true) :
    Invalidated write.key s (applyWrite s write expected).2 := by
  obtain ⟨hkeeps, hverdict⟩ := s.backend.applyWrite_verdict s.owners s.cells s.world
    write expected
  refine hverdict.invalidated_of_compared hexpected hkeeps ?_
  have hadmission := Output.admission.inj ha
  rw [hadmission]
  exact hcompared

theorem applyWrite_invalidated (s : State K V) (write : PreparedWrite K V) :
    Invalidated write.key s (applyWrite s write .mutation).2 := by
  obtain ⟨hkeeps, hverdict⟩ := s.backend.applyWrite_verdict s.owners s.cells s.world
    write .mutation
  exact hverdict.invalidated_of_mutation hkeeps

/-- A conflicting operation invalidates the key. -/
theorem invalidated_of_conflicts {key : K} {op : Op K V} (h : Conflicts key s op)
    (hnext : next s op = some t) : Invalidated key s t := by
  obtain ⟨⟨out, t'⟩, hperform, rfl⟩ := Option.map_eq_some_iff.mp hnext
  show Invalidated key s t'
  cases op with
  | applyInsert write =>
    obtain ⟨-, rfl⟩ := Prod.ext_iff.mp (Option.some.inj hperform)
    exact h ▸ applyWrite_invalidated s write
  | insertValueBorrowed write =>
    obtain ⟨-, rfl⟩ := Prod.ext_iff.mp (Option.some.inj hperform)
    exact h ▸ applyWrite_invalidated s write
  | insertPlainBorrowed k value metadata time inst =>
    obtain ⟨-, rfl⟩ := Prod.ext_iff.mp (Option.some.inj hperform)
    obtain ⟨hkeeps, hverdict⟩ := s.backend.insertPlainBorrowed_verdict s.owners s.cells
      s.world k value metadata time inst
    exact h ▸ hverdict.invalidated_of_mutation hkeeps
  | applyExpire write expected =>
    obtain ⟨rfl, a, hout, ha⟩ := h
    obtain ⟨-, rfl⟩ := Prod.ext_iff.mp (Option.some.inj hperform)
    exact applyWrite_invalidated_of_compared rfl (Option.some.inj hout) ha
  | applyOrigin write id =>
    obtain ⟨rfl, a, hout, ha⟩ := h
    obtain ⟨origin, hlive, hresult⟩ := Option.map_eq_some_iff.mp hperform
    obtain ⟨-, rfl⟩ := Prod.ext_iff.mp hresult
    have hout : some (applyWrite s write (.origin origin.snapshot)).1 = some (.admission a) := by
      rw [← hout]
      show _ = ((s.live.lookup id).map _).map _
      rw [hlive]
      rfl
    exact applyWrite_invalidated_of_compared rfl (Option.some.inj hout) ha
  | detachRemove k =>
    obtain ⟨-, rfl⟩ := Prod.ext_iff.mp (Option.some.inj hperform)
    exact h ▸ .advanced (Frame.of_keeps _ (s.backend.removed_keeps k none)) rfl
  | invalidateOrigin k =>
    obtain ⟨-, rfl⟩ := Prod.ext_iff.mp (Option.some.inj hperform)
    exact h ▸ .advanced ⟨rfl, rfl, rfl, rfl, rfl, rfl⟩ rfl
  | skipOrigin k id =>
    obtain ⟨rfl, hout⟩ := h
    have hskipped : out = .skipped true := by
      have hfst : output s (.skipOrigin k id) = some out := congrArg (Option.map Prod.fst) hperform
      exact Option.some.inj (hfst.symm.trans hout)
    obtain ⟨origin, hlive, hresult⟩ := Option.map_eq_some_iff.mp hperform
    unfold skipRevision at hresult
    split at hresult
    · obtain ⟨-, rfl⟩ := Prod.ext_iff.mp hresult
      exact .advanced ⟨rfl, rfl, rfl, rfl, rfl, rfl⟩ rfl
    · obtain ⟨rfl, -⟩ := Prod.ext_iff.mp hresult
      cases hskipped
  | invalidateAll =>
    obtain ⟨-, rfl⟩ := Prod.ext_iff.mp (Option.some.inj hperform)
    exact .cleared rfl
  | captureOrigin key provided => exact h.elim
  | dropOrigin id => exact h.elim
  | insertAt write => exact h.elim
  | insertIfUnchanged write expected => exact h.elim
  | remove key expected => exact h.elim
  | get key now => exact h.elim
  | maintain shard now => exact h.elim
  | newFlight => exact h.elim
  | dropFlight r => exact h.elim
  | observe world => exact h.elim

/-- A commit that stored its value found its origin current. -/
theorem matches_of_stored {write : PreparedWrite K V} {id : OriginId} {a : MemoryAdmission}
    (hout : output s (.applyOrigin write id) = some (.admission a)) (ha : a.stored = true) :
    ∃ o, s.live.lookup id = some o ∧ o.snapshot.matches s.cells s.generation = true := by
  obtain ⟨⟨out, t'⟩, hperform, rfl⟩ := Option.map_eq_some_iff.mp hout
  obtain ⟨o, hlive, hresult⟩ := Option.map_eq_some_iff.mp hperform
  obtain ⟨hadmission, -⟩ := Prod.ext_iff.mp hresult
  have hadmission := Output.admission.inj hadmission
  refine ⟨o, hlive, ?_⟩
  obtain ⟨-, hverdict⟩ := s.backend.applyWrite_verdict s.owners s.cells s.world
    write (.origin o.snapshot)
  rw [hadmission] at hverdict
  generalize (s.backend.applyWrite s.owners s.cells s.world write
    (.origin o.snapshot)).2.2 = cells at hverdict
  cases hverdict with
  | exhausted => cases ha
  | changed => cases ha
  | expired => cases ha
  | passed _ _ current hmatch => exact hmatch

/-! ## Whole runs -/

/-- The registry of a state accounts for its live origins, and nothing exhausted matches. -/
structure OriginsAccounted (s : State K V) : Prop where
  active_iff : ∀ key, (s.origins.active.lookup key).isSome ↔
    ∃ id o, s.live.lookup id = some o ∧ o.key = key
  snapshots_eq : ∀ key, s.origins.snapshots key = liveCount s.live key
  exhausted_revision : ∀ id o, s.live.lookup id = some o →
    s.cells o.snapshot.revision = u64Max → o.snapshot.matches s.cells s.generation = false
  exhausted_generation : s.generation = u64Max →
    ∀ snapshot : RevisionSnapshot, snapshot.matches s.cells s.generation = false

theorem Inv.accounted (h : Inv s) : OriginsAccounted s where
  active_iff := h.counted.active_iff
  snapshots_eq := h.counted.counted
  exhausted_revision := by
    intro id o ho hmax
    have hlt := h.current.captured_lt id o ho
    apply Bool.eq_false_of_not_eq_true
    intro hmatch
    obtain ⟨-, -, hcells⟩ := RevisionSnapshot.matches_iff.mp hmatch
    omega
  exhausted_generation := by
    intro hmax snapshot
    apply Bool.eq_false_of_not_eq_true
    intro hmatch
    exact (RevisionSnapshot.matches_iff.mp hmatch).1 hmax

theorem Inv.exec (h : Inv s) {ops : List (Op K V)} (hrun : Run.exec next s ops = some t) :
    Inv t :=
  Run.exec_invariant (fun _ _ _ hm hnext => hm.step (effect_of_next hnext)) h hrun

theorem HandleOf.exec {id : OriginId} {key : K} (h : HandleOf s id key) {ops : List (Op K V)}
    (hrun : Run.exec next s ops = some t) : HandleOf t id key :=
  Run.exec_invariant (I := fun m => HandleOf m id key)
    (fun _ _ _ hm hnext => hm.step (effect_of_next hnext)) h hrun

theorem HandleOvertaken.exec {id : OriginId} (hinv : Inv s) (h : HandleOvertaken s id)
    {ops : List (Op K V)} (hrun : Run.exec next s ops = some t) : HandleOvertaken t id := by
  have hboth : Inv t ∧ HandleOvertaken t id :=
    Run.exec_invariant (I := fun m => Inv m ∧ HandleOvertaken m id)
      (fun _ _ _ hm hnext =>
        ⟨hm.1.step (effect_of_next hnext), hm.2.step hm.1 (effect_of_next hnext)⟩)
      ⟨hinv, h⟩ hrun
  exact hboth.2

/-- A capture hands out a new handle of its key. -/
theorem handleOf_of_captured {key : K} {provided : Option RevisionId} {id : OriginId}
    (hnext : next s (.captureOrigin key provided) = some t)
    (hout : output s (.captureOrigin key provided) = some (.origin id)) : HandleOf t id key := by
  obtain ⟨⟨out, t'⟩, hperform, rfl⟩ := Option.map_eq_some_iff.mp hnext
  have hid : out = .origin id :=
    Option.some.inj ((congrArg (Option.map Prod.fst) hperform).symm.trans hout)
  simp only [perform] at hperform
  split at hperform
  · have hperform := Option.some.inj hperform
    unfold captureRevision at hperform
    split at hperform
    · cases hperform
      cases hid
    · split at hperform
      · cases hperform
        cases hid
      · cases hperform
        cases hid
        refine ⟨Nat.lt_succ_self _, fun o ho => ?_⟩
        rw [AList.lookup_insert] at ho
        obtain rfl := Option.some.inj ho
        rfl
  · cases hperform

/-- After a conflict on the key, the handle of an earlier capture is overtaken. -/
theorem handleOvertaken_of_conflicts (hinv : Inv s) {key : K} {id : OriginId}
    (hof : HandleOf s id key) {op : Op K V} (h : Conflicts key s op)
    (hnext : next s op = some t) : HandleOvertaken t id := by
  have hinvalidated := invalidated_of_conflicts h hnext
  obtain ⟨hknown, hold⟩ := (effect_of_next hnext).old_handle hof.known
  refine ⟨hknown, fun o ho => ?_⟩
  exact hinvalidated.overtaken hinv (hold o ho) (hof.key_eq o (hold o ho))

/-- **An origin commits only what nothing overtook.** In every run of the store, over either
backend, the registry accounts for the live origins; and when the commit of an origin of
`key` stores its value, no operation since the capture of that origin conflicts with it. -/
theorem origin_commits_only_unconflicted (limits : MemoryLimits) (expiry : MemoryExpiry)
    (timing : Timing) (route : K → Fin 64) (world : World) (ops : List (Op K V))
    (s : State K V)
    (hrun : Run.exec next (init (Backend.create limits expiry timing route) world) ops = some s) :
    OriginsAccounted s ∧
    ∀ (pre since : List (Op K V)) (m : State K V) (key : K) (provided : Option RevisionId)
      (id : OriginId) (write : PreparedWrite K V) (a : MemoryAdmission),
      ops = pre ++ .captureOrigin key provided :: since →
      Run.exec next (init (Backend.create limits expiry timing route) world) pre = some m →
      output m (.captureOrigin key provided) = some (.origin id) →
      write.key = key →
      output s (.applyOrigin write id) = some (.admission a) → a.stored = true →
      ∀ (left right : List (Op K V)) (op : Op K V) (n : State K V),
        since = left ++ op :: right →
        Run.exec next m (.captureOrigin key provided :: left) = some n →
        ¬ Conflicts key n op := by
  have hinit : Inv (init (Backend.create limits expiry timing route : Backend K V) world) :=
    Inv.init limits expiry timing route world
  refine ⟨(hinit.exec hrun).accounted, ?_⟩
  intro pre since m key provided id write a hops hpre hcapture hkey hcommit hstored left right
    op n hsince hleft hconflict
  -- Follow the run: capture, the part before the conflict, the conflict, the rest.
  rw [hops] at hrun
  obtain ⟨m', c, hpre', hnext, hrest⟩ := Run.exec_split hrun
  obtain rfl : m = m' := Option.some.inj (hpre.symm.trans hpre')
  obtain ⟨c', hnext', hleft⟩ := Run.exec_cons_eq_some.mp hleft
  obtain rfl : c = c' := Option.some.inj (hnext.symm.trans hnext')
  rw [hsince] at hrest
  obtain ⟨n', t, hleft', hop, hright⟩ := Run.exec_split hrest
  obtain rfl : n = n' := Option.some.inj (hleft.symm.trans hleft')
  have hm : Inv m := hinit.exec hpre
  have hn : Inv n := (hm.step (effect_of_next hnext)).exec hleft
  have hof : HandleOf n id key := (handleOf_of_captured hnext hcapture).exec hleft
  have ht : HandleOvertaken t id := handleOvertaken_of_conflicts hn hof hconflict hop
  have hs : HandleOvertaken s id := ht.exec (hn.step (effect_of_next hop)) hright
  -- An overtaken origin does not match, so the commit cannot have stored.
  obtain ⟨o, ho, hmatch⟩ := matches_of_stored hcommit hstored
  rw [(hs.overtaken o ho).not_matches] at hmatch
  cases hmatch

/-- A plain candidate that lives until tick 20, written at tick 10. -/
def plainWrite (key : String) (value inst : Nat) : PreparedWrite String Nat where
  key
  entry := Entry.intoFresh value (.fromTicks 10) (.fromTicks 20) inst
  time := ⟨.fromTicks 10, 0⟩
  event := .set

/-- A factory captures `k`, another key is set, and the factory's product is admitted. -/
theorem origin_commits_only_unconflicted_bounded_run :
    ∃ m s : State String Nat,
      Run.exec next (init (.create ⟨some 2, none⟩ .clockDriven .interoperable fun _ => 0) ⟨0, 0⟩)
        [.captureOrigin "k" none] = some m ∧
      Run.exec next (init (.create ⟨some 2, none⟩ .clockDriven .interoperable fun _ => 0) ⟨0, 0⟩)
        [.captureOrigin "k" none, .applyInsert (plainWrite "j" 1 0)] = some s ∧
      output s (.applyOrigin (plainWrite "k" 2 1) 0) = some (.admission .admitted) ∧
      ¬ Conflicts "k" m (.applyInsert (plainWrite "j" 1 0)) ∧ OriginsAccounted s := by
  refine ⟨_, _, rfl, rfl, by rfl, ?_, ?_⟩
  · exact (origin_commits_only_unconflicted ⟨some 2, none⟩ .clockDriven .interoperable
      (fun _ => 0) ⟨0, 0⟩ [.captureOrigin "k" none, .applyInsert (plainWrite "j" 1 0)] _ rfl).2
      [] _ _ "k" none 0 (plainWrite "k" 2 1) .admitted rfl rfl rfl rfl rfl rfl [] [] _ _ rfl rfl
  · exact (origin_commits_only_unconflicted ⟨some 2, none⟩ .clockDriven .interoperable
      (fun _ => 0) ⟨0, 0⟩ [.captureOrigin "k" none, .applyInsert (plainWrite "j" 1 0)] _ rfl).1

end Memory

end Amalgam
