import Amalgam.Memory.Effect

/-!
# Amalgam — the registry accounts for the live origins

Revisions exist only while origins of their key are live, so a counter is safe to compare
with only if it was not dropped and allocated anew in between. `Inv` says why it was not:
the registered revision of a key is the one all its live origins captured, it is registered
exactly while there are such origins, and its counter was never reset below a capture.
-/

namespace Amalgam

namespace Memory

variable {K V : Type} [LinearOrder K]

/-- The number of live origins of a key. -/
def liveCount (live : AList fun _ : OriginId => MemoryOrigin K) (key : K) : Nat :=
  live.values.countP fun origin => origin.key = key

/-- The registry accounts for the live origins. -/
structure Counted (origins : Origins K) (live : AList fun _ : OriginId => MemoryOrigin K) :
    Prop where
  active : ∀ id o, live.lookup id = some o →
    ∃ n, origins.active.lookup o.key = some ⟨o.snapshot.revision, n⟩
  counted : ∀ key, origins.snapshots key = liveCount live key
  positive : ∀ key a, origins.active.lookup key = some a → 0 < a.snapshots

/-- Identities are handed out once. -/
structure Allocated (s : State K V) : Prop where
  ids : ∀ id, s.nextOrigin ≤ id → s.live.lookup id = none
  owned : ∀ r ∈ s.owners, r < s.nextRevision

/-- No counter is below a live capture, and no live capture is terminal. -/
structure Current (cells : Cells) (generation : Nat)
    (live : AList fun _ : OriginId => MemoryOrigin K) : Prop where
  cells_le : ∀ r, cells r ≤ u64Max
  generation_le : generation ≤ u64Max
  captured_lt : ∀ id o, live.lookup id = some o → o.snapshot.captured < u64Max
  captured_le : ∀ id o, live.lookup id = some o →
    o.snapshot.captured ≤ cells o.snapshot.revision
  cleared_lt : ∀ id o, live.lookup id = some o → o.snapshot.generation < u64Max
  cleared_le : ∀ id o, live.lookup id = some o → o.snapshot.generation ≤ generation

structure Inv (s : State K V) : Prop where
  counted : Counted s.origins s.live
  allocated : Allocated s
  current : Current s.cells s.generation s.live

variable {s t : State K V}

omit [LinearOrder K] in
theorem mem_owners {r : RevisionId} :
    r ∈ s.owners ↔
      r ∈ s.flights ∨ ∃ id o, s.live.lookup id = some o ∧ o.snapshot.revision = r := by
  unfold State.owners
  rw [List.mem_append, List.mem_map]
  simp only [AList.mem_values]
  constructor
  · rintro (h | ⟨o, ⟨id, ho⟩, hr⟩)
    · exact .inl h
    · exact .inr ⟨id, o, ho, hr⟩
  · rintro (h | ⟨id, o, ho, hr⟩)
    · exact .inl h
    · exact .inr ⟨o, ⟨id, ho⟩, hr⟩

omit [LinearOrder K] in
theorem mem_owners_of_live {id : OriginId} {o : MemoryOrigin K}
    (h : s.live.lookup id = some o) : o.snapshot.revision ∈ s.owners :=
  mem_owners.mpr (.inr ⟨id, o, h, rfl⟩)

/-! ## Counting -/

namespace Counted

variable {origins : Origins K} {live : AList fun _ : OriginId => MemoryOrigin K}

theorem empty : Counted (⟨∅⟩ : Origins K) (∅ : AList fun _ : OriginId => MemoryOrigin K) where
  active := nofun
  counted := fun _ => rfl
  positive := nofun

/-- Whatever is registered has a live origin that captured it. -/
theorem exists_live (h : Counted origins live) {key : K} {a : ActiveRevision}
    (ha : origins.active.lookup key = some a) :
    ∃ id o, live.lookup id = some o ∧ o.key = key ∧ o.snapshot.revision = a.revision := by
  have hpos : 0 < liveCount live key := by
    rw [← h.counted key]
    unfold Origins.snapshots
    rw [ha]
    exact h.positive key a ha
  obtain ⟨o, hmem, hkey⟩ := List.countP_pos_iff.mp hpos
  have hkey : o.key = key := of_decide_eq_true hkey
  obtain ⟨id, hid⟩ := AList.mem_values.mp hmem
  obtain ⟨n, hactive⟩ := h.active id o hid
  rw [hkey, ha] at hactive
  obtain rfl := Option.some.inj hactive
  exact ⟨id, o, hid, hkey, rfl⟩

/-- A revision is registered exactly while its key has live origins. -/
theorem active_iff (h : Counted origins live) (key : K) :
    (origins.active.lookup key).isSome ↔ ∃ id o, live.lookup id = some o ∧ o.key = key := by
  constructor
  · intro hsome
    obtain ⟨a, ha⟩ := Option.isSome_iff_exists.mp hsome
    obtain ⟨id, o, hid, hkey, -⟩ := h.exists_live ha
    exact ⟨id, o, hid, hkey⟩
  · rintro ⟨id, o, hid, rfl⟩
    obtain ⟨n, hactive⟩ := h.active id o hid
    rw [hactive]
    rfl

/-- Capturing counts one origin more. -/
theorem capture (h : Counted origins live) {id : OriginId} (hid : live.lookup id = none)
    {key : K} (snapshot : RevisionSnapshot) {origins' : Origins K}
    (hactive : origins'.active
      = origins.active.insert key ⟨snapshot.revision, origins.snapshots key + 1⟩)
    (hsame : ∀ a, origins.active.lookup key = some a → snapshot.revision = a.revision) :
    Counted origins' (live.insert id ⟨key, snapshot⟩) := by
  have hnotMem : id ∉ live := AList.lookup_eq_none.mp hid
  refine ⟨fun i o hi => ?_, fun k => ?_, fun k a ha => ?_⟩
  · rw [hactive]
    by_cases hkey : o.key = key
    · -- All origins of one key share the registered revision.
      rw [hkey, AList.lookup_insert]
      refine ⟨origins.snapshots key + 1, ?_⟩
      by_cases hii : i = id
      · rw [hii, AList.lookup_insert] at hi
        obtain rfl := Option.some.inj hi
        rfl
      · rw [AList.lookup_insert_ne hii] at hi
        obtain ⟨n, hn⟩ := h.active i o hi
        rw [hkey] at hn
        rw [hsame _ hn]
    · rw [AList.lookup_insert_ne hkey]
      by_cases hii : i = id
      · rw [hii, AList.lookup_insert] at hi
        obtain rfl := Option.some.inj hi
        exact absurd rfl hkey
      · rw [AList.lookup_insert_ne hii] at hi
        exact h.active i o hi
  · have hcount : liveCount (live.insert id ⟨key, snapshot⟩) k
        = liveCount live k + if key = k then 1 else 0 := by
      unfold liveCount
      rw [AList.values_insert_of_notMem _ hnotMem, List.countP_cons]
      simp
    rw [hcount, ← h.counted k]
    unfold Origins.snapshots
    rw [hactive]
    by_cases hk : k = key
    · subst hk
      rw [AList.lookup_insert, if_pos rfl]
      rfl
    · rw [AList.lookup_insert_ne hk, if_neg (Ne.symm hk), Nat.add_zero]
  · rw [hactive] at ha
    by_cases hk : k = key
    · rw [hk, AList.lookup_insert] at ha
      obtain rfl := Option.some.inj ha
      exact Nat.succ_pos _
    · rw [AList.lookup_insert_ne hk] at ha
      exact h.positive k a ha

/-- Dropping an origin counts one less. -/
theorem forget (h : Counted origins live) {id : OriginId} {o : MemoryOrigin K}
    (hid : live.lookup id = some o) :
    Counted (origins.forget o.key o.snapshot.revision) (live.erase id) := by
  obtain ⟨n, hactive⟩ := h.active id o hid
  have hforget := Origins.forget_lookup hactive
  have hn : n = liveCount live o.key := by
    rw [← h.counted o.key]
    unfold Origins.snapshots
    rw [hactive]
    rfl
  have hcount : ∀ k, liveCount live k
      = liveCount (live.erase id) k + if o.key = k then 1 else 0 := by
    intro k
    unfold liveCount
    rw [(AList.values_erase_perm hid).countP_eq, List.countP_cons]
    simp
  refine ⟨fun i p hi => ?_, fun k => ?_, fun k a ha => ?_⟩
  · have hii : i ≠ id := by
      rintro rfl
      rw [AList.lookup_erase] at hi
      cases hi
    rw [AList.lookup_erase_ne hii] at hi
    rw [hforget]
    by_cases hkey : p.key = o.key
    · obtain ⟨m, hm⟩ := h.active i p hi
      rw [hkey, hactive] at hm
      obtain ⟨hrevision, -⟩ : o.snapshot.revision = p.snapshot.revision ∧ n = m := by
        simpa using hm
      -- Another live origin of the key keeps the count above zero.
      have hlive : 0 < liveCount (live.erase id) o.key := by
        apply List.countP_pos_iff.mpr
        refine ⟨p, AList.mem_values.mpr ⟨i, ?_⟩, by simpa using hkey⟩
        rw [AList.lookup_erase_ne hii]
        exact hi
      have hmore := hcount o.key
      rw [if_pos rfl] at hmore
      rw [if_pos hkey, if_neg (by omega), hrevision]
      exact ⟨n - 1, rfl⟩
    · rw [if_neg hkey]
      exact h.active i p hi
  · have hk := hcount k
    unfold Origins.snapshots
    rw [hforget]
    by_cases hkey : k = o.key
    · subst hkey
      rw [if_pos rfl] at hk ⊢
      split
      · simp only [Option.elim_none]
        omega
      · simp only [Option.elim_some]
        omega
    · rw [if_neg (Ne.symm hkey)] at hk
      rw [if_neg hkey]
      have hbefore := h.counted k
      unfold Origins.snapshots at hbefore
      omega
  · rw [hforget] at ha
    split at ha
    · split at ha
      · cases ha
      · obtain rfl := Option.some.inj ha
        show 0 < n - 1
        omega
    · exact h.positive k a ha

end Counted

/-! ## Counters -/

namespace Current

variable {cells cells' : Cells} {generation generation' : Nat}
  {live : AList fun _ : OriginId => MemoryOrigin K}

omit [LinearOrder K] in
/-- Counters that only grow stay above the captures. -/
theorem mono (h : Current cells generation live) (hcells : ∀ r, cells' r ≤ u64Max)
    (hgrow : ∀ id o, live.lookup id = some o →
      cells o.snapshot.revision ≤ cells' o.snapshot.revision)
    (hgeneration : generation ≤ generation') (hle : generation' ≤ u64Max) :
    Current cells' generation' live where
  cells_le := hcells
  generation_le := hle
  captured_lt := h.captured_lt
  captured_le := fun id o ho => le_trans (h.captured_le id o ho) (hgrow id o ho)
  cleared_lt := h.cleared_lt
  cleared_le := fun id o ho => le_trans (h.cleared_le id o ho) hgeneration

omit [LinearOrder K] in
theorem capture (h : Current cells generation live) {id : OriginId} {key : K}
    (snapshot : RevisionSnapshot) (hcaptured : snapshot.captured = cells snapshot.revision)
    (hmax : snapshot.captured ≠ u64Max) (hgeneration : snapshot.generation = generation)
    (hexhausted : generation ≠ u64Max) :
    Current cells generation (live.insert id ⟨key, snapshot⟩) := by
  have hcases : ∀ i o, (live.insert id ⟨key, snapshot⟩).lookup i = some o →
      o = ⟨key, snapshot⟩ ∨ live.lookup i = some o := by
    intro i o ho
    by_cases hi : i = id
    · rw [hi, AList.lookup_insert] at ho
      exact .inl (Option.some.inj ho).symm
    · rw [AList.lookup_insert_ne hi] at ho
      exact .inr ho
  refine ⟨h.cells_le, h.generation_le, fun i o ho => ?_, fun i o ho => ?_, fun i o ho => ?_,
    fun i o ho => ?_⟩
  · rcases hcases i o ho with rfl | hold
    · exact lt_of_le_of_ne (hcaptured ▸ h.cells_le _) hmax
    · exact h.captured_lt i o hold
  · rcases hcases i o ho with rfl | hold
    · exact le_of_eq hcaptured
    · exact h.captured_le i o hold
  · rcases hcases i o ho with rfl | hold
    · show snapshot.generation < u64Max
      rw [hgeneration]
      exact lt_of_le_of_ne h.generation_le hexhausted
    · exact h.cleared_lt i o hold
  · rcases hcases i o ho with rfl | hold
    · exact le_of_eq hgeneration
    · exact h.cleared_le i o hold

omit [LinearOrder K] in
theorem erase (h : Current cells generation live) (id : OriginId) :
    Current cells generation (live.erase id) := by
  have hsub : ∀ i o, (live.erase id).lookup i = some o → live.lookup i = some o := by
    intro i o ho
    by_cases hi : i = id
    · rw [hi, AList.lookup_erase] at ho
      cases ho
    · rwa [AList.lookup_erase_ne hi] at ho
  exact ⟨h.cells_le, h.generation_le, fun i o ho => h.captured_lt i o (hsub i o ho),
    fun i o ho => h.captured_le i o (hsub i o ho),
    fun i o ho => h.cleared_lt i o (hsub i o ho),
    fun i o ho => h.cleared_le i o (hsub i o ho)⟩

end Current

/-! ## One operation -/

namespace Inv

theorem init (limits : MemoryLimits) (expiry : MemoryExpiry) (timing : Timing)
    (route : K → Fin 64) (world : World) :
    Inv (init (Backend.create limits expiry timing route : Backend K V) world) := by
  have hbackend : (Backend.create limits expiry timing route : Backend K V).origins = ⟨∅⟩ ∧
      (Backend.create limits expiry timing route : Backend K V).generation = 1 := by
    unfold Backend.create
    split <;> exact ⟨rfl, rfl⟩
  refine ⟨?_, ⟨fun _ _ => rfl, nofun⟩, ?_⟩
  · show Counted (Backend.create limits expiry timing route : Backend K V).origins _
    rw [hbackend.1]
    exact Counted.empty
  · show Current _ (Backend.create limits expiry timing route : Backend K V).generation _
    rw [hbackend.2]
    exact ⟨fun _ => Nat.zero_le _, by decide, nofun, nofun, nofun, nofun⟩

/-- Every registered revision is owned, so an upgrade of it succeeds. -/
theorem registered_owned (h : Inv s) {key : K} {a : ActiveRevision}
    (ha : s.origins.active.lookup key = some a) : a.revision ∈ s.owners := by
  obtain ⟨id, o, hid, -, hrevision⟩ := h.counted.exists_live ha
  exact hrevision ▸ mem_owners_of_live hid

theorem of_frame (h : Inv s) (frame : Frame s t) (hcells : ∀ r, t.cells r ≤ u64Max)
    (hgrow : ∀ r, s.cells r ≤ t.cells r) : Inv t := by
  refine ⟨?_, ⟨?_, ?_⟩, ?_⟩
  · rw [frame.origins, frame.live]
    exact h.counted
  · rw [frame.nextOrigin, frame.live]
    exact h.allocated.ids
  · have howners : t.owners = s.owners := by
      unfold State.owners
      rw [frame.flights, frame.live]
    rw [howners, frame.nextRevision]
    exact h.allocated.owned
  · rw [frame.live, frame.generation]
    exact h.current.mono hcells (fun _ _ _ => hgrow _) (le_refl _) h.current.generation_le

/-- A counter that is newly allocated belongs to no live origin. -/
theorem update_fresh (h : Inv s) {id : OriginId} {o : MemoryOrigin K}
    (ho : s.live.lookup id = some o) :
    Function.update s.cells s.nextRevision 1 o.snapshot.revision
      = s.cells o.snapshot.revision := by
  have hlt := h.allocated.owned _ (mem_owners_of_live ho)
  exact Function.update_of_ne (Nat.ne_of_lt hlt) _ _

omit [LinearOrder K] in
theorem update_le {cells : Cells} (h : ∀ r, cells r ≤ u64Max) (fresh r : RevisionId) :
    Function.update cells fresh 1 r ≤ u64Max := by
  by_cases hr : r = fresh
  · rw [hr, Function.update_self]
    decide
  · rw [Function.update_of_ne hr]
    exact h r

theorem captured (h : Inv s) {key : K} {provided : Option RevisionId}
    (hprovided : ∀ r, provided = some r → r ∈ s.flights) (hgeneration : s.generation ≠ u64Max)
    {origins : Origins K} {cells : Cells} {revision : RevisionId} {captured : Nat}
    (hcapture : s.origins.captureFrom s.owners s.cells s.nextRevision key provided
      = some (origins, cells, revision, captured)) :
    Inv { s with
      backend := s.backend.withOrigins origins
      cells
      nextRevision := s.nextRevision + 1
      live := s.live.insert s.nextOrigin ⟨key, revision, captured, s.generation⟩
      nextOrigin := s.nextOrigin + 1 } := by
  obtain ⟨hactive, hcaptured, hmax, hsame, hcells⟩ :=
    Origins.captureFrom_eq_some (fun a ha => h.registered_owned ha) hcapture
  have hfresh : s.live.lookup s.nextOrigin = none := h.allocated.ids _ (le_refl _)
  have hbefore : Current cells s.generation s.live := by
    rcases hcells with ⟨rfl, -⟩ | ⟨rfl, -, -⟩
    · exact h.current
    · exact h.current.mono (update_le h.current.cells_le _)
        (fun id o ho => le_of_eq (h.update_fresh ho).symm) (le_refl _)
        h.current.generation_le
  refine ⟨?_, ⟨fun id hid => ?_, fun r hr => ?_⟩, ?_⟩
  · show Counted (s.backend.withOrigins origins).origins _
    rw [Backend.withOrigins_origins]
    exact h.counted.capture hfresh ⟨revision, captured, s.generation⟩ hactive hsame
  · have hne : id ≠ s.nextOrigin := Nat.ne_of_gt hid
    show (s.live.insert s.nextOrigin _).lookup id = none
    rw [AList.lookup_insert_ne hne]
    exact h.allocated.ids id (Nat.le_of_succ_le hid)
  · -- The captured revision was owned before, or is the new one.
    show r < s.nextRevision + 1
    have hrevision : revision < s.nextRevision + 1 := by
      rcases hcells with ⟨-, howned | hlent⟩ | ⟨-, rfl, -⟩
      · exact Nat.lt_succ_of_lt (h.allocated.owned _ howned)
      · exact Nat.lt_succ_of_lt
          (h.allocated.owned _ (mem_owners.mpr (.inl (hprovided _ hlent))))
      · exact Nat.lt_succ_self _
    rcases mem_owners.mp hr with hflight | ⟨id, o, ho, rfl⟩
    · exact Nat.lt_succ_of_lt (h.allocated.owned r (mem_owners.mpr (.inl hflight)))
    · by_cases hid : id = s.nextOrigin
      · rw [hid, AList.lookup_insert] at ho
        obtain rfl := Option.some.inj ho
        exact hrevision
      · rw [AList.lookup_insert_ne hid] at ho
        exact Nat.lt_succ_of_lt (h.allocated.owned _ (mem_owners_of_live ho))
  · show Current cells (s.backend.withOrigins origins).generation _
    rw [Backend.withOrigins_generation]
    exact hbefore.capture ⟨revision, captured, s.generation⟩ hcaptured hmax rfl
      hgeneration

theorem forgot (h : Inv s) {id : OriginId} {o : MemoryOrigin K}
    (ho : s.live.lookup id = some o) :
    Inv { s with
      backend := s.backend.withOrigins (s.origins.forget o.key o.snapshot.revision)
      live := s.live.erase id } := by
  have hsub : ∀ i p, (s.live.erase id).lookup i = some p → s.live.lookup i = some p := by
    intro i p hp
    by_cases hi : i = id
    · rw [hi, AList.lookup_erase] at hp
      cases hp
    · rwa [AList.lookup_erase_ne hi] at hp
  refine ⟨?_, ⟨fun i hi => ?_, fun r hr => ?_⟩, ?_⟩
  · show Counted (s.backend.withOrigins _).origins _
    rw [Backend.withOrigins_origins]
    exact h.counted.forget ho
  · show (s.live.erase id).lookup i = none
    cases hp : (s.live.erase id).lookup i with
    | none => rfl
    | some p =>
      have hnone := h.allocated.ids i hi
      rw [hsub i p hp] at hnone
      cases hnone
  · rcases mem_owners.mp hr with hflight | ⟨i, p, hp, rfl⟩
    · exact h.allocated.owned r (mem_owners.mpr (.inl hflight))
    · exact h.allocated.owned _ (mem_owners_of_live (hsub i p hp))
  · show Current s.cells (s.backend.withOrigins _).generation _
    rw [Backend.withOrigins_generation]
    exact h.current.erase id

/-- **Every operation keeps the invariant.** -/
theorem step (h : Inv s) (heffect : Effect s t) : Inv t := by
  cases heffect with
  | quiet frame cells =>
    refine h.of_frame frame ?_ ?_
    · rw [cells]
      exact h.current.cells_le
    · rw [cells]
      exact fun r => le_refl _
  | advanced key frame cells =>
    refine h.of_frame frame ?_ ?_
    · rw [cells]
      exact Origins.advance_le h.current.cells_le
    · rw [cells]
      exact Origins.le_advance h.current.cells_le
  | cleared ht =>
    subst ht
    refine ⟨?_, ⟨h.allocated.ids, h.allocated.owned⟩, ?_⟩
    · show Counted s.backend.invalidateAll.origins _
      rw [Backend.invalidateAll_origins]
      exact h.counted
    · show Current _ s.backend.invalidateAll.generation _
      rw [Backend.invalidateAll_generation]
      exact h.current.mono h.current.cells_le (fun _ _ _ => le_refl _)
        (le_saturatingSucc h.current.generation_le) (saturatingSucc_le _)
  | captured key provided hprovided hgeneration origins cells revision captured hcapture ht =>
    subst ht
    exact h.captured hprovided hgeneration hcapture
  | forgot id origin hlive ht =>
    subst ht
    exact h.forgot hlive
  | lent ht =>
    subst ht
    refine ⟨h.counted, ⟨h.allocated.ids, fun r hr => ?_⟩, ?_⟩
    · show r < s.nextRevision + 1
      rcases mem_owners.mp hr with hflight | ⟨id, o, ho, rfl⟩
      · rcases List.mem_cons.mp hflight with rfl | hold
        · exact Nat.lt_succ_self _
        · exact Nat.lt_succ_of_lt (h.allocated.owned r (mem_owners.mpr (.inl hold)))
      · exact Nat.lt_succ_of_lt (h.allocated.owned _ (mem_owners_of_live ho))
    · exact h.current.mono (update_le h.current.cells_le _)
        (fun id o ho => le_of_eq (h.update_fresh ho).symm) (le_refl _)
        h.current.generation_le
  | released r ht =>
    subst ht
    refine ⟨h.counted, ⟨h.allocated.ids, fun q hq => ?_⟩, h.current⟩
    rcases mem_owners.mp hq with hflight | ⟨id, o, ho, rfl⟩
    · exact h.allocated.owned q (mem_owners.mpr (.inl (List.mem_of_mem_erase hflight)))
    · exact h.allocated.owned _ (mem_owners_of_live ho)

end Inv

end Memory

end Amalgam
