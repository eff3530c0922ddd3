import Amalgam.Memory.Store

/-!
# Amalgam — the limits of bounded storage

The total weight in `Retention` is kept incrementally: every removal subtracts, every store
adds, and a write plans its victims on a projection of both counts before it evicts any.
Here each subtraction of the source is made checked, and whole runs are shown never to fail
one.

* **`retention_bounded`** — after any run of operations the recorded weight is the sum of
  the weights stored, both limits hold, and no subtraction of the run underflowed.
* **`next_retained`** — every operation of the memory store on a bounded backend is such a run.
-/

namespace Amalgam

namespace Memory

/-- Subtraction of unsigned integers that fails when it would underflow. -/
def checkedSub (a b : Nat) : Option Nat := if b ≤ a then some (a - b) else none

theorem checkedSub_eq_some {a b : Nat} (h : b ≤ a) : checkedSub a b = some (a - b) := if_pos h

def Stored.weight {V : Type} (stored : Stored V) : Nat := stored.entry.metadata.weight

namespace Retention

variable {K V : Type} [LinearOrder K]

/-! ## The operations with checked subtraction -/

def checkedRemove (r : Retention K V) (key : K) : Option (Option (Stored V) × Retention K V) :=
  match r.entries.lookup key with
  | none => some (none, r)
  | some stored =>
    (checkedSub r.weight stored.weight).map fun weight =>
      (some stored, { r with entries := r.entries.erase key, weight })

def checkedGet (r : Retention K V) (world : World) (key : K) (now : Option Timestamp) :
    Option (Retention K V) :=
  let retire := (r.entries.lookup key).bind fun stored => stored.retirementReason world now
  if retire.isSome then (r.checkedRemove key).map Prod.snd else some (r.get world key now).2

def checkedRemoveExpired (r : Retention K V) (world : World) (now : Option Timestamp) :
    Option (Retention K V) :=
  (r.removeExpired world now).1.foldlM
    (fun r retirement => (r.checkedRemove retirement.key).map Prod.snd) r

def checkedProjection (r : Retention K V) (key : K) (weight : Nat) : Option ProjectedCapacity :=
  let current := r.entries.lookup key
  (checkedSub r.weight (current.elim 0 (·.weight))).map fun rest =>
    { entries := r.entries.size + (if current.isNone then 1 else 0)
      weight := rest + weight }

def checkedExpireUnderPressure (r : Retention K V) (world : World) (key : K) (weight : Nat)
    (now : Timestamp) : Option (Retention K V) := do
  let projected ← r.checkedProjection key weight
  if projected.fits r.limits then some r else r.checkedRemoveExpired world (some now)

def checkedTakeVictims (limits : MemoryLimits) :
    ProjectedCapacity → List (EvictionCandidate K) → Option (Option (List K))
  | _, [] => some none
  | projected, victim :: rest => do
    let entries ← checkedSub projected.entries 1
    let weight ← checkedSub projected.weight victim.weight
    let projected : ProjectedCapacity := ⟨entries, weight⟩
    if projected.fits limits then some (some [victim.key])
    else
      let planned ← checkedTakeVictims limits projected rest
      some (planned.map (victim.key :: ·))

def checkedPlan (r : Retention K V) (key : K) (weight : Nat) (priority : Priority) :
    Option (Option (List K)) := do
  let projected ← r.checkedProjection key weight
  if projected.fits r.limits then some (some [])
  else checkedTakeVictims r.limits projected (r.eligibleVictims key priority)

def checkedCommit (r : Retention K V) (world : World) (write : PreparedWrite K V)
    (victims : List K) : Option (Retention K V) := do
  let r ← victims.foldlM (fun r victim => (r.checkedRemove victim).map Prod.snd) r
  let removed ← r.checkedRemove write.key
  some (removed.2.store world write.key write.entry)

def checkedInsert (r : Retention K V) (cells : Cells) (world : World) (write : PreparedWrite K V)
    (expected : Expected V) : Option (Retention K V) :=
  let current := (r.entries.lookup write.key).map (·.entry)
  let weight := write.entry.metadata.weight
  if !expected.matchesGeneration cells current r.generation then some r
  else if !r.limits.fits 1 weight then some r
  else do
    let r ← r.checkedExpireUnderPressure world write.key weight write.time.now
    let planned ← r.checkedPlan write.key weight write.entry.metadata.priority
    match planned with
    | none => some r
    | some victims => r.checkedCommit world write victims

/-! ## What one call may do -/

/-- `with_ready` on bounded storage: a hit takes an access ticket, nothing is removed. -/
def withReady (r : Retention K V) (world : World) (key : K) (now : Timestamp) :
    Option (Entry V × Freshness) × Retention K V :=
  match r.entries.lookup key with
  | none => (none, r)
  | some stored =>
    if (stored.retirementReason world (some now)).isSome then (none, r)
    else
      let access := r.ticket.1
      (some (stored.entry, stored.entry.freshness now),
        { r.ticket.2 with entries := r.entries.insert key { stored with access } })

inductive Call (K V : Type) where
  | insert (owners : List RevisionId) (cells : Cells) (world : World) (write : PreparedWrite K V)
      (expected : Expected V)
  | get (world : World) (key : K) (now : Option Timestamp)
  | withReady (world : World) (key : K) (now : Timestamp)
  /-- `removed` and `detach_remove`. -/
  | remove (key : K) (expected : Option (Entry V))
  | removeExpired (world : World) (now : Option Timestamp)
  | invalidateAll
  /-- The registry of origins shares the lock and is updated on its own. -/
  | setOrigins (origins : Origins K)

def perform (r : Retention K V) : Call K V → Retention K V
  | .insert owners cells world write expected => (r.insert owners cells world write expected).2.1
  | .get world key now => (r.get world key now).2
  | .withReady world key now => (r.withReady world key now).2
  | .remove key expected =>
    if expected.any fun expected =>
        !(r.entries.lookup key).any fun stored => stored.entry.isSameInstance expected then
      r
    else (r.remove key).2
  | .removeExpired world now => (r.removeExpired world now).2
  | .invalidateAll => r.invalidateAll.2
  | .setOrigins origins => { r with origins }

/-- `perform` that fails when a subtraction would underflow. -/
def checkedPerform (r : Retention K V) : Call K V → Option (Retention K V)
  | .insert _ cells world write expected => r.checkedInsert cells world write expected
  | .get world key now => r.checkedGet world key now
  | .withReady world key now => some (r.withReady world key now).2
  | .remove key expected =>
    if expected.any fun expected =>
        !(r.entries.lookup key).any fun stored => stored.entry.isSameInstance expected then
      some r
    else (r.checkedRemove key).map Prod.snd
  | .removeExpired world now => r.checkedRemoveExpired world now
  | .invalidateAll => some r.invalidateAll.2
  | .setOrigins origins => some { r with origins }

/-! ## The invariant -/

/-- The recorded weight is the sum of what is stored, and both limits hold. -/
structure Bounded (limits : MemoryLimits) (r : Retention K V) : Prop where
  limits_eq : r.limits = limits
  weight_eq : r.weight = r.entries.total Stored.weight
  fits : r.limits.fits r.entries.size r.weight = true

end Retention

theorem MemoryLimits.fits_iff {limits : MemoryLimits} {entries weight : Nat} :
    limits.fits entries weight = true ↔
      (∀ limit ∈ limits.entries, entries ≤ limit) ∧ ∀ limit ∈ limits.weight, weight ≤ limit := by
  unfold MemoryLimits.fits
  simp only [Bool.and_eq_true, Option.all_eq_true, decide_eq_true_eq, Option.mem_def]

theorem MemoryLimits.fits_mono {limits : MemoryLimits} {m n v w : Nat} (hn : n ≤ m) (hw : w ≤ v)
    (h : limits.fits m v = true) : limits.fits n w = true := by
  rw [fits_iff] at h ⊢
  exact ⟨fun limit hlimit => le_trans hn (h.1 limit hlimit),
    fun limit hlimit => le_trans hw (h.2 limit hlimit)⟩

namespace Retention

variable {K V : Type} [LinearOrder K] {limits : MemoryLimits} {r : Retention K V}

/-- What a removal leaves, whether or not the key was there. -/
theorem remove_entries (r : Retention K V) (key : K) :
    (r.remove key).2.entries = r.entries.erase key ∧
      (r.remove key).2.weight = r.weight - (r.entries.lookup key).elim 0 (·.weight) ∧
      (r.remove key).2.limits = r.limits := by
  unfold remove
  cases hlookup : r.entries.lookup key with
  | none =>
    dsimp only
    rw [AList.erase_of_lookup_none hlookup]
    exact ⟨rfl, rfl, rfl⟩
  | some stored => exact ⟨rfl, rfl, rfl⟩

namespace Bounded

theorem weight_le (h : Bounded limits r) {key : K} {stored : Stored V}
    (hlookup : r.entries.lookup key = some stored) : stored.weight ≤ r.weight := by
  rw [h.weight_eq]
  exact AList.le_total Stored.weight hlookup

theorem checkedRemove (h : Bounded limits r) (key : K) : r.checkedRemove key = some (r.remove key) := by
  unfold Retention.checkedRemove remove
  cases hlookup : r.entries.lookup key with
  | none => rfl
  | some stored =>
    dsimp only
    rw [checkedSub_eq_some (h.weight_le hlookup), Option.map_some]
    rfl

theorem remove (h : Bounded limits r) (key : K) : Bounded limits (r.remove key).2 := by
  have hremove := remove_entries r key
  cases hlookup : r.entries.lookup key with
  | none =>
    have hsame : (r.remove key).2 = r := by
      unfold Retention.remove
      rw [hlookup]
    rw [hsame]
    exact h
  | some stored =>
    have hweight : (r.remove key).2.weight = r.weight - stored.weight := by
      rw [hremove.2.1, hlookup]
      rfl
    have hsum := AList.total_erase Stored.weight hlookup
    have hsize := AList.size_erase hlookup
    have heq := h.weight_eq
    refine ⟨hremove.2.2.trans h.limits_eq, ?_, ?_⟩
    · rw [hweight, hremove.1]
      omega
    · rw [hweight, hremove.1, hremove.2.2]
      exact MemoryLimits.fits_mono (by omega) (by omega) h.fits

/-- Removing one key after another, in the checked and in the plain way. -/
theorem removeAll {ι : Type} (f : ι → K) (keys : List ι) (h : Bounded limits r) :
    keys.foldlM (fun r i => (r.checkedRemove (f i)).map Prod.snd) r
        = some (keys.foldl (fun r i => (r.remove (f i)).2) r) ∧
      Bounded limits (keys.foldl (fun r i => (r.remove (f i)).2) r) := by
  induction keys generalizing r with
  | nil => exact ⟨rfl, h⟩
  | cons i rest ih =>
    have hrest := ih (h.remove (f i))
    refine ⟨?_, hrest.2⟩
    rw [List.foldlM_cons, h.checkedRemove, Option.map_some]
    exact hrest.1

theorem checkedProjection (h : Bounded limits r) (key : K) (weight : Nat) :
    r.checkedProjection key weight = some (r.projection key weight) := by
  have hle : (r.entries.lookup key).elim 0 (·.weight) ≤ r.weight := by
    cases hlookup : r.entries.lookup key with
    | none => exact Nat.zero_le _
    | some stored => exact h.weight_le hlookup
  unfold Retention.checkedProjection projection
  dsimp only
  rw [checkedSub_eq_some hle, Option.map_some]
  rfl

theorem removeExpired (h : Bounded limits r) (world : World) (now : Option Timestamp) :
    r.checkedRemoveExpired world now = some (r.removeExpired world now).2 ∧
      Bounded limits (r.removeExpired world now).2 :=
  h.removeAll Retirement.key (r.removeExpired world now).1

theorem expireUnderPressure (h : Bounded limits r) (world : World) (key : K) (weight : Nat)
    (now : Timestamp) :
    r.checkedExpireUnderPressure world key weight now
        = some (r.expireUnderPressure world key weight now).2 ∧
      Bounded limits (r.expireUnderPressure world key weight now).2 := by
  unfold checkedExpireUnderPressure Retention.expireUnderPressure
  rw [h.checkedProjection, Option.bind_eq_bind, Option.bind_some]
  split
  · exact ⟨rfl, h⟩
  · exact h.removeExpired world (some now)

end Bounded

/-! ## Victims -/

/-- Distinct keys of stored entries other than the one written, each with its weight. -/
structure Victims (r : Retention K V) (key : K) (victims : List (EvictionCandidate K)) : Prop where
  nodup : (victims.map (·.key)).Nodup
  stored : ∀ victim ∈ victims, victim.key ≠ key ∧
    ∃ stored, r.entries.lookup victim.key = some stored ∧ victim.weight = stored.weight

theorem eligibleVictims_spec (r : Retention K V) (key : K) (priority : Priority) :
    r.Victims key (r.eligibleVictims key priority) := by
  unfold eligibleVictims
  constructor
  · rw [((List.mergeSort_perm _ _).map _).nodup_iff]
    apply AList.nodup_select
    intro binding c hc
    dsimp only at hc
    split at hc
    · rw [← Option.some.inj hc]
    · cases hc
  · intro victim hmem
    rw [List.mem_mergeSort, List.mem_filterMap] at hmem
    obtain ⟨⟨existing, stored⟩, hbinding, hselect⟩ := hmem
    dsimp only at hselect
    split at hselect
    · rename_i heligible
      rw [← Option.some.inj hselect]
      have hlookup : r.entries.lookup existing = some stored :=
        (List.mem_dlookup_iff r.entries.nodupKeys).mpr hbinding
      exact ⟨heligible.1, stored, hlookup, rfl⟩
    · cases hselect

/-- The keys of the victims left after the first one is evicted. -/
theorem Victims.rest {key : K} {victim : EvictionCandidate K} {rest : List (EvictionCandidate K)}
    (h : r.Victims key (victim :: rest)) : (r.remove victim.key).2.Victims key rest := by
  have hnodup := h.nodup
  rw [List.map_cons, List.nodup_cons] at hnodup
  refine ⟨hnodup.2, fun other hother => ?_⟩
  obtain ⟨hne, stored, hlookup, hweight⟩ := h.stored other (List.mem_cons_of_mem _ hother)
  have hdistinct : other.key ≠ victim.key := by
    intro heq
    exact hnodup.1 (heq ▸ List.mem_map_of_mem hother)
  refine ⟨hne, stored, ?_, hweight⟩
  rw [(remove_entries r victim.key).1, AList.lookup_erase_ne hdistinct]
  exact hlookup

/-- The projection after an eviction is what the plan computed from the one before. -/
theorem projection_remove (h : Bounded limits r) {key victim : K} {stored : Stored V} (weight : Nat)
    (hne : victim ≠ key) (hlookup : r.entries.lookup victim = some stored) :
    (r.remove victim).2.projection key weight =
        ⟨(r.projection key weight).entries - 1,
          (r.projection key weight).weight - stored.weight⟩ ∧
      1 ≤ (r.projection key weight).entries ∧
      stored.weight ≤ (r.projection key weight).weight := by
  obtain ⟨hentries, hweight, -⟩ := remove_entries r victim
  rw [hlookup, Option.elim_some] at hweight
  have hkept : (r.entries.erase victim).lookup key = r.entries.lookup key :=
    AList.lookup_erase_ne hne.symm
  have hsize := AList.size_erase hlookup
  have hsum := AList.total_erase Stored.weight hlookup
  have heq := h.weight_eq
  have hcurrent : (r.entries.lookup key).elim 0 (·.weight)
      ≤ (r.entries.erase victim).total Stored.weight := by
    cases hlook : r.entries.lookup key with
    | none => exact Nat.zero_le _
    | some other => exact AList.le_total Stored.weight (hkept.trans hlook)
  have hprojected : (r.projection key weight).weight
      = r.weight - (r.entries.lookup key).elim 0 (·.weight) + weight := rfl
  have hcount : (r.projection key weight).entries
      = r.entries.size + (if (r.entries.lookup key).isNone then 1 else 0) := rfl
  have hafter : (r.remove victim).2.projection key weight
      = ⟨(r.entries.erase victim).size + (if (r.entries.lookup key).isNone then 1 else 0),
        r.weight - stored.weight - (r.entries.lookup key).elim 0 (·.weight) + weight⟩ := by
    unfold projection
    rw [hentries, hweight, hkept]
    rfl
  refine ⟨?_, ?_, ?_⟩
  · rw [hafter, hprojected, hcount, ProjectedCapacity.mk.injEq]
    omega
  · omega
  · omega

/-- What the loop of `plan` selects, the store can evict, and then the write fits. -/
theorem takeVictims_spec (h : Bounded limits r) {key : K} (weight : Nat)
    {victims : List (EvictionCandidate K)} (hvictims : r.Victims key victims) :
    checkedTakeVictims r.limits (r.projection key weight) victims
        = some (takeVictims r.limits (r.projection key weight) victims) ∧
      ∀ keys ∈ takeVictims r.limits (r.projection key weight) victims,
        ((keys.foldl (fun r key => (r.remove key).2) r).projection key weight).fits
          r.limits = true := by
  induction victims generalizing r with
  | nil => exact ⟨rfl, fun keys hkeys => by cases hkeys⟩
  | cons victim rest ih =>
    obtain ⟨hne, stored, hlookup, hweight⟩ := hvictims.stored victim List.mem_cons_self
    obtain ⟨hprojection, hentries, hle⟩ := projection_remove h weight hne hlookup
    obtain ⟨hchecked, hfits⟩ := ih (h.remove victim.key) hvictims.rest
    rw [(remove_entries r victim.key).2.2, hprojection, ← hweight] at hchecked hfits
    unfold checkedTakeVictims takeVictims
    rw [checkedSub_eq_some hentries, checkedSub_eq_some (hweight ▸ hle)]
    simp only [Option.bind_eq_bind, Option.bind_some]
    split
    · rename_i hnow
      refine ⟨rfl, fun keys hkeys => ?_⟩
      obtain rfl := Option.some.inj hkeys
      rw [List.foldl_cons, List.foldl_nil, hprojection, ← hweight]
      exact hnow
    · rw [hchecked, Option.bind_some]
      refine ⟨rfl, fun keys hkeys => ?_⟩
      obtain ⟨others, hothers, rfl⟩ := Option.map_eq_some_iff.mp hkeys
      exact hfits others hothers

theorem plan_spec (h : Bounded limits r) (key : K) (weight : Nat) (priority : Priority) :
    r.checkedPlan key weight priority = some (r.plan key weight priority) ∧
      ∀ keys ∈ r.plan key weight priority,
        ((keys.foldl (fun r key => (r.remove key).2) r).projection key weight).fits
          r.limits = true := by
  unfold checkedPlan plan
  dsimp only
  rw [h.checkedProjection, Option.bind_eq_bind, Option.bind_some]
  split
  · rename_i hfits
    refine ⟨rfl, fun keys hkeys => ?_⟩
    obtain rfl := Option.some.inj hkeys
    exact hfits
  · exact takeVictims_spec h weight (eligibleVictims_spec r key priority)

/-! ## Writes -/

theorem evict_eq (r : Retention K V) (victims : List K) :
    (r.evict victims).2 = victims.foldl (fun r victim => (r.remove victim).2) r := by
  induction victims generalizing r with
  | nil => rfl
  | cons victim rest ih => exact ih (r.remove victim).2

/-- A write that its projection fits keeps the limits. -/
theorem Bounded.write (h : Bounded limits r) (world : World) (key : K) (entry : Entry V)
    (hfits : (r.projection key entry.metadata.weight).fits r.limits = true) :
    Bounded limits ((r.remove key).2.store world key entry) := by
  obtain ⟨hentries, hweight, hlimits⟩ := remove_entries r key
  have hremoved := (h.remove key).weight_eq
  obtain ⟨stored, hstored, hweighs⟩ : ∃ stored : Stored V,
      ((r.remove key).2.store world key entry).entries = (r.remove key).2.entries.insert key stored ∧
        stored.weight = entry.metadata.weight := ⟨_, rfl, rfl⟩
  have hsum := AList.total_insert Stored.weight (r.remove key).2.entries key stored
  have hsize := AList.size_insert (r.remove key).2.entries key stored
  have hgone : (r.remove key).2.entries.erase key = (r.remove key).2.entries := by
    apply AList.erase_of_lookup_none
    rw [hentries, AList.lookup_erase]
  rw [hgone] at hsum hsize
  have hcount : (r.projection key entry.metadata.weight).entries
      = (r.remove key).2.entries.size + 1 := by
    rw [hentries]
    unfold projection
    cases hlookup : r.entries.lookup key with
    | none =>
      rw [AList.erase_of_lookup_none hlookup]
      rfl
    | some stored => exact AList.size_erase hlookup
  have hprojected : (r.projection key entry.metadata.weight).weight
      = (r.remove key).2.weight + entry.metadata.weight := by
    rw [hweight]
    rfl
  refine ⟨hlimits.trans h.limits_eq, ?_, ?_⟩
  · show (r.remove key).2.weight + entry.metadata.weight = _
    rw [hremoved, hstored, hsum, hweighs, Nat.add_comm]
  · show (r.remove key).2.limits.fits _ ((r.remove key).2.weight + entry.metadata.weight) = true
    unfold ProjectedCapacity.fits at hfits
    rw [hcount, hprojected] at hfits
    rw [hlimits, hstored, hsize]
    exact hfits

theorem commit_spec (h : Bounded limits r) (world : World) (write : PreparedWrite K V) (victims : List K)
    (retired : List (Retirement K V))
    (hfits : ((victims.foldl (fun r key => (r.remove key).2) r).projection write.key
      write.entry.metadata.weight).fits r.limits = true) :
    r.checkedCommit world write victims = some (r.commit world write victims retired).2 ∧
      Bounded limits (r.commit world write victims retired).2 := by
  obtain ⟨hchecked, hevicted⟩ := h.removeAll id victims
  have hcommit : (r.commit world write victims retired).2
      = ((victims.foldl (fun r key => (r.remove key).2) r).remove write.key).2.store world
        write.key write.entry := by
    unfold commit
    dsimp only
    rw [evict_eq]
  have hlimits : (victims.foldl (fun r key => (r.remove key).2) r).limits = r.limits :=
    hevicted.limits_eq.trans h.limits_eq.symm
  rw [hcommit]
  refine ⟨?_, hevicted.write world write.key write.entry (hlimits ▸ hfits)⟩
  unfold checkedCommit
  rw [show (victims.foldlM (fun r victim => (r.checkedRemove victim).map Prod.snd) r) = _
    from hchecked, Option.bind_eq_bind, Option.bind_some, hevicted.checkedRemove]
  rfl

theorem insert_spec (h : Bounded limits r) (owners : List RevisionId) (cells : Cells) (world : World)
    (write : PreparedWrite K V) (expected : Expected V) :
    r.checkedInsert cells world write expected
        = some (r.insert owners cells world write expected).2.1 ∧
      Bounded limits (r.insert owners cells world write expected).2.1 := by
  unfold checkedInsert insert
  dsimp only
  split
  · exact ⟨rfl, h⟩
  · split
    · exact ⟨rfl, h⟩
    · obtain ⟨hchecked, hbounded⟩ := h.expireUnderPressure world write.key
        write.entry.metadata.weight write.time.now
      obtain ⟨hplan, hfits⟩ := plan_spec hbounded write.key write.entry.metadata.weight
        write.entry.metadata.priority
      rw [hchecked, Option.bind_eq_bind, Option.bind_some, hplan, Option.bind_eq_bind,
        Option.bind_some]
      cases hvictims : (r.expireUnderPressure world write.key write.entry.metadata.weight
          write.time.now).2.plan write.key write.entry.metadata.weight
          write.entry.metadata.priority with
      | none => exact ⟨rfl, hbounded⟩
      | some victims =>
        exact commit_spec hbounded world write victims
          (r.expireUnderPressure world write.key write.entry.metadata.weight write.time.now).1
          (hfits victims hvictims)

/-! ## Reads -/

/-- A hit renews the access number of what is there, and no weight. -/
theorem Bounded.touch (h : Bounded limits r) {key : K} {stored : Stored V} (access nextAccess : Nat)
    (hlookup : r.entries.lookup key = some stored) :
    Bounded limits
      { r with nextAccess, entries := r.entries.insert key { stored with access } } := by
  have hsum := AList.total_insert Stored.weight r.entries key { stored with access }
  have hold := AList.total_erase Stored.weight hlookup
  have hsize := AList.size_insert r.entries key { stored with access }
  have hcount := AList.size_erase hlookup
  refine ⟨h.limits_eq, ?_, ?_⟩
  · show r.weight = _
    rw [h.weight_eq, hold, hsum]
    rfl
  · show r.limits.fits (r.entries.insert key { stored with access }).size r.weight = true
    rw [hsize, ← hcount]
    exact h.fits

theorem get_spec (h : Bounded limits r) (world : World) (key : K) (now : Option Timestamp) :
    r.checkedGet world key now = some (r.get world key now).2 ∧
      Bounded limits (r.get world key now).2 := by
  unfold checkedGet
  cases hlookup : r.entries.lookup key with
  | none =>
    refine ⟨rfl, ?_⟩
    have hget : (r.get world key now).2 = r.ticket.2 := by
      simp only [get, ticket, hlookup, Option.bind_none]
    rw [hget]
    exact ⟨h.limits_eq, h.weight_eq, h.fits⟩
  | some stored =>
    cases hretire : stored.retirementReason world now with
    | none =>
      have hget : (r.get world key now).2 = { r.ticket.2 with
          entries := r.entries.insert key { stored with access := r.ticket.1 } } := by
        simp only [get, ticket, hlookup, Option.bind_some, hretire, Option.map_none]
      rw [Option.bind_some, hretire]
      refine ⟨rfl, ?_⟩
      rw [hget]
      exact h.touch r.ticket.1 r.ticket.2.nextAccess hlookup
    | some reason =>
      have hget : (r.get world key now).2 = (r.remove key).2 := by
        unfold get
        rw [hlookup, Option.bind_some, hretire]
        rfl
      rw [Option.bind_some, hretire, hget, h.checkedRemove]
      exact ⟨rfl, h.remove key⟩

theorem withReady_spec (h : Bounded limits r) (world : World) (key : K) (now : Timestamp) :
    Bounded limits (r.withReady world key now).2 := by
  unfold withReady
  cases hlookup : r.entries.lookup key with
  | none => exact h
  | some stored =>
    dsimp only
    split
    · exact h
    · exact h.touch r.ticket.1 r.ticket.2.nextAccess hlookup

/-! ## Whole runs -/

omit [LinearOrder K] in
theorem Bounded.new (limits : MemoryLimits) (expiry : MemoryExpiry) :
    Bounded limits (Retention.new limits expiry : Retention K V) := by
  refine ⟨rfl, rfl, ?_⟩
  show limits.fits 0 0 = true
  rw [MemoryLimits.fits_iff]
  exact ⟨fun limit _ => Nat.zero_le limit, fun limit _ => Nat.zero_le limit⟩

theorem perform_spec (h : Bounded limits r) (call : Call K V) :
    r.checkedPerform call = some (r.perform call) ∧ Bounded limits (r.perform call) := by
  cases call with
  | insert owners cells world write expected =>
    exact insert_spec h owners cells world write expected
  | get world key now => exact get_spec h world key now
  | withReady world key now => exact ⟨rfl, withReady_spec h world key now⟩
  | remove key expected =>
    unfold checkedPerform perform
    dsimp only
    split
    · exact ⟨rfl, h⟩
    · rw [h.checkedRemove]
      exact ⟨rfl, h.remove key⟩
  | removeExpired world now => exact h.removeExpired world now
  | invalidateAll =>
    refine ⟨rfl, h.limits_eq, rfl, ?_⟩
    exact MemoryLimits.fits_mono (Nat.zero_le _) (Nat.zero_le _) h.fits
  | setOrigins origins => exact ⟨rfl, h.limits_eq, h.weight_eq, h.fits⟩

theorem run_spec (h : Bounded limits r) (calls : List (Call K V)) :
    Run.exec checkedPerform r calls = some (calls.foldl perform r) ∧
      Bounded limits (calls.foldl perform r) := by
  induction calls generalizing r with
  | nil => exact ⟨rfl, h⟩
  | cons call rest ih =>
    obtain ⟨hchecked, hbounded⟩ := perform_spec h call
    rw [Run.exec_cons, hchecked, Option.bind_some, List.foldl_cons]
    exact ih hbounded

/-- **The bounded store never loses count.** Whatever operations run on it, none of their
subtractions underflows, the recorded weight is the sum of the weights stored, and neither
limit is exceeded. -/
theorem retention_bounded (limits : MemoryLimits) (expiry : MemoryExpiry)
    (calls : List (Call K V)) :
    let r : Retention K V := calls.foldl perform (Retention.new limits expiry)
    Run.exec checkedPerform (Retention.new limits expiry) calls = some r ∧
      r.weight = (r.entries.values.map fun stored => stored.entry.metadata.weight).sum ∧
      (∀ limit ∈ limits.entries, r.entries.size ≤ limit) ∧
      (∀ limit ∈ limits.weight, r.weight ≤ limit) := by
  obtain ⟨hchecked, hbounded⟩ := run_spec (Bounded.new limits expiry) calls
  have hfits := MemoryLimits.fits_iff.mp hbounded.fits
  rw [hbounded.limits_eq] at hfits
  exact ⟨hchecked, hbounded.weight_eq, hfits.1, hfits.2⟩

end Retention

/-! ## The memory store on bounded storage -/

variable {K V : Type} [LinearOrder K]

/-- Some calls of bounded storage lead from `r` to the backend. -/
def Backend.CalledFrom (r : Retention K V) (b : Backend K V) : Prop :=
  ∃ calls : List (Retention.Call K V), b = .retained (calls.foldl Retention.perform r)

namespace Backend.CalledFrom

variable {r : Retention K V}

theorem refl (r : Retention K V) : CalledFrom r (.retained r) := ⟨[], rfl⟩

theorem call (r : Retention K V) (call : Retention.Call K V) :
    CalledFrom r (.retained (r.perform call)) := ⟨[call], rfl⟩

theorem applyWrite (r : Retention K V) (owners : List RevisionId) (cells : Cells) (world : World)
    (write : PreparedWrite K V) (expected : Expected V) :
    CalledFrom r ((Backend.retained r).applyWrite owners cells world write expected).2.1 := by
  unfold Backend.applyWrite
  split
  · exact refl r
  · exact call r (.insert owners cells world write expected)

theorem removed (r : Retention K V) (key : K) (expected : Option (Entry V)) :
    CalledFrom r ((Backend.retained r).removed key expected).2 := by
  have hcall := call r (.remove key expected)
  unfold Retention.perform at hcall
  unfold Backend.removed
  dsimp only at hcall ⊢
  split at hcall
  · rename_i hother
    rw [if_pos hother]
    exact hcall
  · rename_i hsame
    rw [if_neg hsame]
    exact hcall

end Backend.CalledFrom

/-- **An operation of the memory store on bounded storage is at most one call of it.** -/
theorem next_retained {s t : State K V} {op : Op K V} {r : Retention K V}
    (hs : s.backend = .retained r) (h : next s op = some t) : t.backend.CalledFrom r := by
  obtain ⟨⟨out, t'⟩, hperform, rfl⟩ := Option.map_eq_some_iff.mp h
  show t'.backend.CalledFrom r
  obtain ⟨backend, cells, nextRevision, flights, live, nextOrigin, world⟩ := s
  obtain rfl : backend = .retained r := hs
  cases op with
  | captureOrigin key provided =>
    simp only [perform] at hperform
    split at hperform
    · obtain ⟨-, rfl⟩ := Prod.ext_iff.mp (Option.some.inj hperform)
      unfold captureRevision
      split
      · exact .refl r
      · split
        · exact .refl r
        · exact .call r (.setOrigins _)
    · cases hperform
  | dropOrigin id =>
    obtain ⟨origin, -, hout⟩ := Option.map_eq_some_iff.mp hperform
    obtain ⟨-, rfl⟩ := Prod.ext_iff.mp hout
    exact .call r (.setOrigins _)
  | applyOrigin write id =>
    obtain ⟨origin, -, hout⟩ := Option.map_eq_some_iff.mp hperform
    obtain ⟨-, rfl⟩ := Prod.ext_iff.mp hout
    exact .applyWrite r _ cells world write _
  | skipOrigin key id =>
    obtain ⟨origin, -, hout⟩ := Option.map_eq_some_iff.mp hperform
    obtain ⟨-, rfl⟩ := Prod.ext_iff.mp hout
    unfold skipRevision
    split <;> exact .refl r
  | applyInsert write =>
    obtain ⟨-, rfl⟩ := Prod.ext_iff.mp (Option.some.inj hperform)
    exact .applyWrite r _ cells world write _
  | insertValueBorrowed write =>
    obtain ⟨-, rfl⟩ := Prod.ext_iff.mp (Option.some.inj hperform)
    exact .applyWrite r _ cells world write .mutation
  | insertPlainBorrowed key value metadata time inst =>
    obtain ⟨-, rfl⟩ := Prod.ext_iff.mp (Option.some.inj hperform)
    exact .applyWrite r _ cells world ⟨key, _, time, .set⟩ .mutation
  | applyExpire write expected =>
    obtain ⟨-, rfl⟩ := Prod.ext_iff.mp (Option.some.inj hperform)
    exact .applyWrite r _ cells world write _
  | detachRemove key =>
    obtain ⟨-, rfl⟩ := Prod.ext_iff.mp (Option.some.inj hperform)
    exact .removed r key none
  | invalidateOrigin key =>
    obtain ⟨-, rfl⟩ := Prod.ext_iff.mp (Option.some.inj hperform)
    exact .refl r
  | invalidateAll =>
    obtain ⟨-, rfl⟩ := Prod.ext_iff.mp (Option.some.inj hperform)
    exact .call r .invalidateAll
  | insertAt write =>
    obtain ⟨-, rfl⟩ := Prod.ext_iff.mp (Option.some.inj hperform)
    exact .applyWrite r _ cells world write _
  | insertIfUnchanged write expected =>
    obtain ⟨-, rfl⟩ := Prod.ext_iff.mp (Option.some.inj hperform)
    exact .applyWrite r _ cells world write _
  | remove key expected =>
    obtain ⟨-, rfl⟩ := Prod.ext_iff.mp (Option.some.inj hperform)
    exact .removed r key expected
  | get key now =>
    obtain ⟨-, rfl⟩ := Prod.ext_iff.mp (Option.some.inj hperform)
    exact .call r (.get world key now)
  | maintain shard now =>
    obtain ⟨-, rfl⟩ := Prod.ext_iff.mp (Option.some.inj hperform)
    exact .call r (.removeExpired world now)
  | newFlight =>
    obtain ⟨-, rfl⟩ := Prod.ext_iff.mp (Option.some.inj hperform)
    exact .refl r
  | dropFlight revision =>
    simp only [perform] at hperform
    split at hperform
    · obtain ⟨-, rfl⟩ := Prod.ext_iff.mp (Option.some.inj hperform)
      exact .refl r
    · cases hperform
  | observe world =>
    obtain ⟨-, rfl⟩ := Prod.ext_iff.mp (Option.some.inj hperform)
    exact .refl r

/-- Every run of the memory store keeps its bounded backend within the limits. -/
theorem store_bounded {limits : MemoryLimits} {expiry : MemoryExpiry} {world : World}
    {ops : List (Op K V)} {s : State K V}
    (h : Run.exec next (init (.retained (.new limits expiry)) world) ops = some s) :
    ∃ r, s.backend = .retained r ∧ Retention.Bounded limits r := by
  refine Run.exec_invariant (I := fun s : State K V =>
    ∃ r, s.backend = .retained r ∧ Retention.Bounded limits r) ?_ ⟨_, rfl, .new limits expiry⟩ h
  rintro s op t ⟨r, hs, hbounded⟩ hstep
  obtain ⟨calls, ht⟩ := next_retained hs hstep
  exact ⟨_, ht, (Retention.run_spec hbounded calls).2⟩

end Memory

end Amalgam
