import Amalgam.Memory.Accounting
import Mathlib.Data.Prod.Lex

/-!
# Amalgam — the eviction plan of bounded storage

`src/memory.rs`, `Retention::insert`: which entries have to go so that a candidate fits both limits.
The loop of `plan` works on a projection of the two counts; here it is compared with the entries that
would be left.

* **`eviction_plan`** — an admissible candidate evicts the shortest prefix of the eligible entries
  that makes room for it, and is rejected exactly when all of them would not.
-/

namespace Amalgam

namespace Memory

variable {K V : Type} [LinearOrder K]

/-! ## What a plan is for -/

/-- The place of a candidate for eviction: its rank, then its access ticket, then its key. -/
def EvictionCandidate.order (c : EvictionCandidate K) : Nat ×ₗ Nat ×ₗ K :=
  toLex (c.priority.evictionRank, toLex (c.access, c.key))

namespace Retention

variable {limits : MemoryLimits} {r : Retention K V}

/-- What both limits are compared with once the candidate is stored and the victims are gone. -/
def after (r : Retention K V) (key : K) (weight : Nat) (victims : List K) : ProjectedCapacity :=
  let rest := r.entries.without (key :: victims)
  { entries := rest.size + 1, weight := rest.total Stored.weight + weight }

/-- The candidate fits without the victims. -/
def makesRoom (r : Retention K V) (key : K) (weight : Nat) (victims : List K) : Bool :=
  (r.after key weight victims).fits r.limits

/-- An entry that a candidate of this priority may evict. -/
structure MayEvict (r : Retention K V) (key : K) (priority : Priority) (victim : EvictionCandidate K) :
    Prop where
  stored : ∃ stored, r.entries.lookup victim.key = some stored ∧
    victim.priority = stored.entry.metadata.priority ∧ victim.access = stored.access ∧
      victim.weight = stored.weight
  other : victim.key ≠ key
  removable : victim.priority ≠ .neverRemove
  rank_le : victim.priority.evictionRank ≤ priority.evictionRank

/-! ## The order of the victims -/

theorem precedes_iff (a b : EvictionCandidate K) : precedes a b = true ↔ a.order ≤ b.order := by
  unfold precedes EvictionCandidate.order
  rw [Prod.Lex.toLex_le_toLex, Prod.Lex.toLex_le_toLex]
  by_cases hrank : a.priority.evictionRank = b.priority.evictionRank
  · by_cases haccess : a.access = b.access
    · simp [hrank, haccess]
    · simp [hrank, haccess]
  · simp [hrank]

theorem mem_eligibleVictims {key : K} {priority : Priority} {victim : EvictionCandidate K} :
    victim ∈ r.eligibleVictims key priority ↔ r.MayEvict key priority victim := by
  unfold eligibleVictims
  rw [List.mem_mergeSort, List.mem_filterMap]
  constructor
  · rintro ⟨⟨existing, stored⟩, hbinding, hselect⟩
    dsimp only at hselect
    split at hselect
    · rename_i heligible
      obtain rfl := Option.some.inj hselect
      have hlookup : r.entries.lookup existing = some stored :=
        (List.mem_dlookup_iff r.entries.nodupKeys).mpr hbinding
      exact ⟨⟨stored, hlookup, rfl, rfl, rfl⟩, heligible.1, heligible.2.1, heligible.2.2⟩
    · cases hselect
  · rintro ⟨⟨stored, hlookup, hpriority, haccess, hweight⟩, hother, hremovable, hrank⟩
    obtain ⟨existing, priority', access, weight⟩ := victim
    dsimp only at hlookup hpriority haccess hweight hother hremovable hrank
    subst hpriority haccess hweight
    refine ⟨⟨existing, stored⟩, (List.mem_dlookup_iff r.entries.nodupKeys).mp hlookup, ?_⟩
    dsimp only
    rw [if_pos ⟨hother, hremovable, hrank⟩]
    rfl

theorem eligibleVictims_sorted (r : Retention K V) (key : K) (priority : Priority) :
    (r.eligibleVictims key priority).Pairwise fun a b => a.order < b.order := by
  have hnodup := (eligibleVictims_spec r key priority).nodup
  have hsorted : (r.eligibleVictims key priority).Pairwise fun a b => precedes a b = true := by
    unfold eligibleVictims
    apply List.pairwise_mergeSort
    · intro a b c hab hbc
      rw [precedes_iff] at hab hbc ⊢
      exact hab.trans hbc
    · intro a b
      rw [Bool.or_eq_true, precedes_iff, precedes_iff]
      exact le_total a.order b.order
  rw [List.Nodup, List.pairwise_map] at hnodup
  refine (hsorted.and hnodup).imp fun {a b} h => lt_of_le_of_ne ((precedes_iff a b).mp h.1) ?_
  intro heq
  exact h.2 (congrArg (fun place => (ofLex (ofLex place).2).2) heq)

/-! ## The loop -/

theorem projection_eq (h : Bounded limits r) (key : K) (weight : Nat) :
    r.projection key weight = r.after key weight [] := by
  unfold projection after
  rw [AList.without_cons]
  cases hlookup : r.entries.lookup key with
  | none =>
    rw [AList.erase_of_lookup_none hlookup, h.weight_eq]
    rfl
  | some stored =>
    have hsize := AList.size_erase hlookup
    have htotal := AList.total_erase Stored.weight hlookup
    have hweight := h.weight_eq
    have hrest : r.weight - stored.weight = (r.entries.erase key).total Stored.weight := by
      omega
    rw [hsize]
    exact congrArg (fun rest => ProjectedCapacity.mk _ (rest + weight)) hrest

/-- One more victim makes the difference that the loop computes. -/
theorem after_append {key : K} {weight : Nat} {victims : List K} {victim : EvictionCandidate K}
    {priority : Priority} (hvictim : r.MayEvict key priority victim) (hnew : victim.key ∉ victims) :
    r.after key weight (victims ++ [victim.key]) =
      ⟨(r.after key weight victims).entries - 1, (r.after key weight victims).weight - victim.weight⟩ := by
  obtain ⟨stored, hlookup, -, -, hweight⟩ := hvictim.stored
  have hthere : (r.entries.without (key :: victims)).lookup victim.key = some stored := by
    rw [AList.lookup_without, if_neg, hlookup]
    rw [List.mem_cons, not_or]
    exact ⟨hvictim.other, hnew⟩
  have hsize := AList.size_erase hthere
  have htotal := AList.total_erase Stored.weight hthere
  have herase : r.entries.without (key :: (victims ++ [victim.key])) =
      (r.entries.without (key :: victims)).erase victim.key := by
    rw [← List.cons_append, AList.without_append]
    rfl
  unfold after
  dsimp only
  rw [herase, hweight, ProjectedCapacity.mk.injEq]
  omega

/-- More victims, more room. -/
theorem makesRoom_append {key : K} {weight : Nat} {victims : List K} (others : List K)
    (h : r.makesRoom key weight victims = true) :
    r.makesRoom key weight (victims ++ others) = true := by
  have hle := AList.without_append_le Stored.weight r.entries (key :: victims) others
  unfold makesRoom after at h ⊢
  refine MemoryLimits.fits_mono ?_ ?_ h
  · exact Nat.add_le_add_right hle.1 1
  · exact Nat.add_le_add_right hle.2 weight

/-- The loop from the victims it has taken: it stops at the first prefix that makes room. -/
theorem takeVictims_shortest {key : K} {weight : Nat} {priority : Priority}
    {taken : List K} {victims : List (EvictionCandidate K)}
    (hvictims : ∀ victim ∈ victims, r.MayEvict key priority victim)
    (hnodup : (taken ++ victims.map (·.key)).Nodup) :
    match takeVictims r.limits (r.after key weight taken) victims with
    | none => ∀ n, 0 < n → n ≤ victims.length →
        r.makesRoom key weight (taken ++ (victims.take n).map (·.key)) = false
    | some keys => ∃ n, 0 < n ∧ n ≤ victims.length ∧ keys = (victims.take n).map (·.key) ∧
        r.makesRoom key weight (taken ++ keys) = true ∧
        ∀ m, 0 < m → m < n →
          r.makesRoom key weight (taken ++ (victims.take m).map (·.key)) = false := by
  induction victims generalizing taken with
  | nil =>
    intro n hpos hle
    rw [List.length_nil] at hle
    omega
  | cons victim rest ih =>
    have hvictim := hvictims victim List.mem_cons_self
    have hnew : victim.key ∉ taken := fun hmem =>
      (List.nodup_append.mp hnodup).2.2 victim.key hmem victim.key List.mem_cons_self rfl
    have hshift : ∀ n, taken ++ ((victim :: rest).take (n + 1)).map (·.key) =
        (taken ++ [victim.key]) ++ (rest.take n).map (·.key) := by
      intro n
      rw [List.take_succ_cons, List.map_cons, List.append_cons]
    have hrest := @ih (taken ++ [victim.key])
      (fun other hother => hvictims other (List.mem_cons_of_mem _ hother))
      (by rw [List.append_assoc]; exact hnodup)
    have hloop : takeVictims r.limits (r.after key weight taken) (victim :: rest) =
        if r.makesRoom key weight (taken ++ [victim.key]) then some [victim.key]
        else (takeVictims r.limits (r.after key weight (taken ++ [victim.key])) rest).map
          (victim.key :: ·) := by
      unfold makesRoom
      rw [after_append hvictim hnew]
      rfl
    rw [hloop]
    cases hfirst : r.makesRoom key weight (taken ++ [victim.key]) with
    | true =>
      refine ⟨1, Nat.one_pos, Nat.succ_le_succ (Nat.zero_le _), rfl, hfirst, fun m hpos hlt => ?_⟩
      omega
    | false =>
      cases hothers : takeVictims r.limits (r.after key weight (taken ++ [victim.key])) rest with
      | none =>
        rw [hothers] at hrest
        intro n hpos hle
        obtain ⟨n, rfl⟩ := Nat.exists_eq_succ_of_ne_zero hpos.ne'
        rw [hshift]
        rcases Nat.eq_zero_or_pos n with rfl | hmore
        · rw [List.take_zero, List.map_nil, List.append_nil]
          exact hfirst
        · exact hrest n hmore (Nat.le_of_succ_le_succ hle)
      | some keys =>
        rw [hothers] at hrest
        obtain ⟨n, hpos, hle, hkeys, hroom, hleast⟩ := hrest
        refine ⟨n + 1, Nat.succ_pos n, Nat.succ_le_succ hle, ?_, ?_, fun m hpos hlt => ?_⟩
        · rw [List.take_succ_cons, List.map_cons, hkeys]
        · rw [List.append_cons]
          exact hroom
        · obtain ⟨m, rfl⟩ := Nat.exists_eq_succ_of_ne_zero hpos.ne'
          rw [hshift]
          rcases Nat.eq_zero_or_pos m with rfl | hmore
          · rw [List.take_zero, List.map_nil, List.append_nil]
            exact hfirst
          · exact hleast m hmore (Nat.lt_of_succ_lt_succ hlt)

/-- The keys of the entries that may be evicted, in their order. -/
def eligible (r : Retention K V) (key : K) (priority : Priority) : List K :=
  (r.eligibleVictims key priority).map (·.key)

/-- The plan is the shortest prefix that makes room, and there is none exactly when all of the
eligible entries are not enough. -/
theorem plan_shortest (h : Bounded limits r) (key : K) (weight : Nat) (priority : Priority) :
    (r.plan key weight priority = none ↔
      r.makesRoom key weight (r.eligible key priority) = false) ∧
    ∀ victims, r.plan key weight priority = some victims →
      r.makesRoom key weight victims = true ∧
      ∃ n, n ≤ (r.eligible key priority).length ∧ victims = (r.eligible key priority).take n ∧
        ∀ m, m < n → r.makesRoom key weight ((r.eligible key priority).take m) = false := by
  have hloop := @takeVictims_shortest K V _ r key weight priority []
    (r.eligibleVictims key priority) (fun victim hmem => mem_eligibleVictims.mp hmem)
    (eligibleVictims_spec r key priority).nodup
  have hplan : r.plan key weight priority =
      if r.makesRoom key weight [] then some []
      else takeVictims r.limits (r.after key weight []) (r.eligibleVictims key priority) := by
    unfold plan makesRoom
    rw [projection_eq h]
  simp only [List.nil_append] at hloop
  have htake : ∀ n, (r.eligible key priority).take n =
      ((r.eligibleVictims key priority).take n).map (·.key) := fun n => List.map_take.symm
  have hlength : (r.eligible key priority).length = (r.eligibleVictims key priority).length :=
    List.length_map _
  rw [hplan]
  cases hempty : r.makesRoom key weight [] with
  | true =>
    have hall : r.makesRoom key weight (r.eligible key priority) = true := makesRoom_append _ hempty
    refine ⟨iff_of_false nofun ?_, fun victims hvictims => ?_⟩
    · rw [hall]
      exact nofun
    · obtain rfl := Option.some.inj hvictims
      exact ⟨hempty, 0, Nat.zero_le _, rfl, fun m hm => absurd hm (Nat.not_lt_zero m)⟩
  | false =>
    rw [if_neg Bool.false_ne_true]
    cases htaken : takeVictims r.limits (r.after key weight []) (r.eligibleVictims key priority) with
    | none =>
      rw [htaken] at hloop
      refine ⟨iff_of_true rfl ?_, nofun⟩
      rcases Nat.eq_zero_or_pos (r.eligibleVictims key priority).length with hnone | hsome
      · have hnil : r.eligible key priority = [] := List.eq_nil_of_length_eq_zero (hlength.trans hnone)
        rw [hnil]
        exact hempty
      · have hlast := hloop _ hsome (le_refl _)
        rw [List.take_length] at hlast
        exact hlast
    | some keys =>
      rw [htaken] at hloop
      obtain ⟨n, hpos, hle, hkeys, hroom, hleast⟩ := hloop
      have hshortest : keys = (r.eligible key priority).take n := hkeys.trans (htake n).symm
      refine ⟨iff_of_false nofun ?_, fun victims hvictims => ?_⟩
      · have hall := makesRoom_append ((r.eligible key priority).drop n) hroom
        rw [hshortest, List.take_append_drop] at hall
        rw [hall]
        exact nofun
      · obtain rfl := Option.some.inj hvictims
        refine ⟨hroom, n, hlength ▸ hle, hshortest, fun m hm => ?_⟩
        rcases Nat.eq_zero_or_pos m with rfl | hmore
        · exact hempty
        · rw [htake]
          exact hleast m hmore hm

/-! ## Purging and evicting -/

theorem removeAll_entries {ι : Type} (f : ι → K) (keys : List ι) (r : Retention K V) :
    (keys.foldl (fun r i => (r.remove (f i)).2) r).entries = r.entries.without (keys.map f) := by
  induction keys generalizing r with
  | nil => rfl
  | cons i rest ih =>
    rw [List.foldl_cons, ih, (remove_entries r (f i)).1]
    rfl

/-- A purge leaves what may still be read. -/
theorem removeExpired_lookup (r : Retention K V) (world : World) (now : Option Timestamp) (key : K) :
    (r.removeExpired world now).2.entries.lookup key =
      (r.entries.lookup key).filter fun stored => (stored.retirementReason world now).isNone := by
  have hentries : (r.removeExpired world now).2.entries =
      r.entries.without ((r.removeExpired world now).1.map (·.key)) :=
    removeAll_entries Retirement.key (r.removeExpired world now).1 r
  rw [hentries, AList.lookup_without]
  have hmem : key ∈ (r.removeExpired world now).1.map (·.key) ↔
      ∃ stored, r.entries.lookup key = some stored ∧
        (stored.retirementReason world now).isSome = true := by
    unfold removeExpired
    rw [List.mem_map]
    constructor
    · rintro ⟨retirement, hretired, rfl⟩
      obtain ⟨⟨existing, stored⟩, hbinding, hselect⟩ := List.mem_filterMap.mp hretired
      obtain ⟨reason, hreason, rfl⟩ := Option.map_eq_some_iff.mp hselect
      exact ⟨stored, (List.mem_dlookup_iff r.entries.nodupKeys).mpr hbinding, by rw [hreason]; rfl⟩
    · rintro ⟨stored, hlookup, hsome⟩
      obtain ⟨reason, hreason⟩ := Option.isSome_iff_exists.mp hsome
      refine ⟨⟨key, stored.entry, reason⟩, List.mem_filterMap.mpr ⟨⟨key, stored⟩, ?_, ?_⟩, rfl⟩
      · exact (List.mem_dlookup_iff r.entries.nodupKeys).mp hlookup
      · dsimp only
        rw [hreason]
        rfl
  cases hlookup : r.entries.lookup key with
  | none => exact ite_self _
  | some stored =>
    rw [hlookup] at hmem
    cases hreason : stored.retirementReason world now with
    | none =>
      rw [if_neg, Option.filter_some_pos (by rw [hreason]; rfl)]
      rw [hmem]
      rintro ⟨other, hother, hsome⟩
      obtain rfl := Option.some.inj hother
      rw [hreason] at hsome
      cases hsome
    | some reason =>
      rw [if_pos (hmem.mpr ⟨stored, rfl, by rw [hreason]; rfl⟩), Option.filter_some_neg]
      rw [hreason]
      rfl

/-- Only under pressure does an insertion purge. -/
theorem expireUnderPressure_lookup (r : Retention K V) (world : World) (key : K) (weight : Nat)
    (now : Timestamp) (existing : K) :
    (r.expireUnderPressure world key weight now).2.entries.lookup existing =
      (r.entries.lookup existing).filter fun stored =>
        (r.projection key weight).fits r.limits ||
          (stored.retirementReason world (some now)).isNone := by
  unfold expireUnderPressure
  cases hfits : (r.projection key weight).fits r.limits with
  | true =>
    show r.entries.lookup existing = _
    cases r.entries.lookup existing <;> rfl
  | false => exact removeExpired_lookup r world (some now) existing

/-- The evicted entries are the planned ones, in their order. -/
theorem evict_retired (r : Retention K V) {victims : List K} (hnodup : victims.Nodup)
    (hstored : ∀ victim ∈ victims, (r.entries.lookup victim).isSome = true) :
    (r.evict victims).1.map (·.key) = victims ∧
      ∀ retirement ∈ (r.evict victims).1, retirement.reason = .capacity := by
  induction victims generalizing r with
  | nil => exact ⟨rfl, fun retirement hmem => by cases hmem⟩
  | cons victim rest ih =>
    rw [List.nodup_cons] at hnodup
    obtain ⟨stored, hlookup⟩ := Option.isSome_iff_exists.mp (hstored victim List.mem_cons_self)
    have hremoved : (r.remove victim).1 = some stored := by
      unfold remove
      rw [hlookup]
    have hrest := ih (r.remove victim).2 hnodup.2 fun other hother => by
      have hne : other ≠ victim := by
        rintro rfl
        exact hnodup.1 hother
      rw [(remove_entries r victim).1, AList.lookup_erase_ne hne]
      exact hstored other (List.mem_cons_of_mem _ hother)
    have hevict : (r.evict (victim :: rest)).1 =
        ⟨victim, stored.entry, .capacity⟩ :: ((r.remove victim).2.evict rest).1 := by
      have happend : (r.evict (victim :: rest)).1 =
          (r.remove victim).1.toList.map (fun stored => ⟨victim, stored.entry, .capacity⟩) ++
            ((r.remove victim).2.evict rest).1 := rfl
      rw [happend, hremoved]
      rfl
    rw [hevict]
    refine ⟨?_, fun retirement hmem => ?_⟩
    · rw [List.map_cons, hrest.1]
    · rcases List.mem_cons.mp hmem with rfl | hother
      · rfl
      · exact hrest.2 retirement hother

theorem removeExpired_reason (r : Retention K V) (world : World) (now : Option Timestamp) :
    ∀ retirement ∈ (r.removeExpired world now).1, retirement.reason ≠ .capacity := by
  intro retirement hmem
  obtain ⟨⟨existing, stored⟩, -, hselect⟩ := List.mem_filterMap.mp hmem
  obtain ⟨reason, hreason, rfl⟩ := Option.map_eq_some_iff.mp hselect
  unfold Stored.retirementReason at hreason
  split at hreason
  · obtain rfl := Option.some.inj hreason
    exact nofun
  · split at hreason
    · obtain rfl := Option.some.inj hreason
      exact nofun
    · cases hreason

/-- What a commit does to the store and what it reports as evicted. -/
theorem commit_effect (r : Retention K V) (world : World) (write : PreparedWrite K V)
    {victims : List K} {retired : List (Retirement K V)} (hnodup : victims.Nodup)
    (hstored : ∀ victim ∈ victims, (r.entries.lookup victim).isSome = true)
    (hretired : ∀ retirement ∈ retired, retirement.reason ≠ .capacity) :
    (r.commit world write victims retired).1.admission.stored = true ∧
    (((r.commit world write victims retired).1.retired.filter (·.reason = .capacity)).map (·.key)) =
      victims ∧
    (((r.commit world write victims retired).2.entries.lookup write.key).map (·.entry)) =
      some write.entry ∧
    ∀ key, key ≠ write.key → (r.commit world write victims retired).2.entries.lookup key =
      if key ∈ victims then none else r.entries.lookup key := by
  obtain ⟨hkeys, hreasons⟩ := evict_retired r hnodup hstored
  have hentries : (r.evict victims).2.entries = r.entries.without victims := by
    rw [evict_eq]
    exact (removeAll_entries id victims r).trans (by rw [List.map_id])
  have hpurged : retired.filter (fun retirement => decide (retirement.reason = .capacity)) = [] := by
    rw [List.filter_eq_nil_iff]
    intro retirement hmem
    rw [decide_eq_true_eq]
    exact hretired retirement hmem
  have hevicted : (r.evict victims).1.filter (fun retirement =>
      decide (retirement.reason = .capacity)) = (r.evict victims).1 := by
    rw [List.filter_eq_self]
    intro retirement hmem
    exact decide_eq_true (hreasons retirement hmem)
  unfold commit
  dsimp only
  refine ⟨by split <;> rfl, ?_, ?_, fun key hne => ?_⟩
  · rw [List.filter_append, List.filter_append, hpurged, hevicted, List.nil_append, List.map_append,
      hkeys]
    cases write.event <;> cases ((r.evict victims).2.remove write.key).1 <;>
      exact List.append_nil _
  · unfold store
    dsimp only
    rw [AList.lookup_insert]
    rfl
  · unfold store ticket
    dsimp only
    rw [AList.lookup_insert_ne hne, (remove_entries _ _).1, AList.lookup_erase_ne hne, hentries,
      AList.lookup_without]

/-! ## The insertion -/

/-- The store that the candidate is planned into. -/
def purged (r : Retention K V) (world : World) (write : PreparedWrite K V) : Retention K V :=
  (r.expireUnderPressure world write.key write.entry.metadata.weight write.time.now).2

/-- What the insertion of an admissible candidate evicts, or why it is rejected. -/
structure Planned (r : Retention K V) (world : World) (write : PreparedWrite K V)
    (commit : RetentionCommit K V) (r' : Retention K V) : Prop where
  /-- Dead entries go first, under pressure only. -/
  purge : ∀ key, (r.purged world write).entries.lookup key =
    (r.entries.lookup key).filter fun stored =>
      r.makesRoom write.key write.entry.metadata.weight [] ||
        (stored.retirementReason world (some write.time.now)).isNone
  eligible : ∀ victim,
    victim ∈ (r.purged world write).eligibleVictims write.key write.entry.metadata.priority ↔
      (r.purged world write).MayEvict write.key write.entry.metadata.priority victim
  sorted : ((r.purged world write).eligibleVictims write.key write.entry.metadata.priority).Pairwise
    fun a b => a.order < b.order
  rejected_iff : commit.admission = .rejected .protectedCapacity ↔
    (r.purged world write).makesRoom write.key write.entry.metadata.weight
      ((r.purged world write).eligible write.key write.entry.metadata.priority) = false
  rejected : ∀ reason, commit.admission = .rejected reason → r' = r.purged world write
  evicted : commit.admission.stored = true → ∃ n victims,
    victims = ((r.purged world write).eligible write.key write.entry.metadata.priority).take n ∧
    (commit.retired.filter (·.reason = .capacity)).map (·.key) = victims ∧
    (r.purged world write).makesRoom write.key write.entry.metadata.weight victims = true ∧
    (∀ m, m < n → (r.purged world write).makesRoom write.key write.entry.metadata.weight
      (((r.purged world write).eligible write.key write.entry.metadata.priority).take m) = false) ∧
    (r'.entries.lookup write.key).map (·.entry) = some write.entry ∧
    ∀ key, key ≠ write.key → r'.entries.lookup key =
      if key ∈ victims then none else (r.purged world write).entries.lookup key

/-- The candidate is compared and could be stored alone. -/
def Admissible (r : Retention K V) (cells : Cells) (write : PreparedWrite K V) (expected : Expected V) :
    Prop :=
  expected.matchesGeneration cells ((r.entries.lookup write.key).map (·.entry)) r.generation = true ∧
    r.limits.fits 1 write.entry.metadata.weight = true

/-- An insertion that is not admissible stops before it purges. -/
theorem insert_of_not_admissible {owners : List RevisionId} {cells : Cells} {world : World}
    {write : PreparedWrite K V} {expected : Expected V} (h : ¬ r.Admissible cells write expected) :
    (r.insert owners cells world write expected).2.1 = r ∧
      (r.insert owners cells world write expected).1.admission.stored = false := by
  unfold insert
  dsimp only
  split
  · exact ⟨rfl, rfl⟩
  · rename_i hmatches
    split
    · exact ⟨rfl, rfl⟩
    · rename_i hfits
      exact absurd ⟨by simpa using hmatches, by simpa using hfits⟩ h

theorem insert_of_admissible (owners : List RevisionId) {cells : Cells} (world : World)
    {write : PreparedWrite K V} {expected : Expected V} (h : r.Admissible cells write expected) :
    match (r.purged world write).plan write.key write.entry.metadata.weight
        write.entry.metadata.priority with
    | none => (r.insert owners cells world write expected).1.admission = .rejected .protectedCapacity ∧
        (r.insert owners cells world write expected).2.1 = r.purged world write
    | some victims => ∃ retired, (∀ retirement ∈ retired, retirement.reason ≠ .capacity) ∧
        (r.insert owners cells world write expected).1 =
          ((r.purged world write).commit world write victims retired).1 ∧
        (r.insert owners cells world write expected).2.1 =
          ((r.purged world write).commit world write victims retired).2 := by
  obtain ⟨hmatches, hfits⟩ := h
  have hpurged : ∀ retirement ∈ (r.expireUnderPressure world write.key write.entry.metadata.weight
      write.time.now).1, retirement.reason ≠ .capacity := by
    unfold expireUnderPressure
    split
    · exact fun retirement hmem => by cases hmem
    · exact removeExpired_reason r world _
  unfold insert
  dsimp only
  rw [hmatches, hfits]
  unfold purged at *
  cases hplan : (r.expireUnderPressure world write.key write.entry.metadata.weight
      write.time.now).2.plan write.key write.entry.metadata.weight write.entry.metadata.priority with
  | none => exact ⟨rfl, rfl⟩
  | some victims => exact ⟨_, hpurged, rfl, rfl⟩

theorem Bounded.planned (h : Bounded limits r) (owners : List RevisionId) {cells : Cells}
    (world : World) {write : PreparedWrite K V} {expected : Expected V}
    (hadmissible : r.Admissible cells write expected) :
    r.Planned world write (r.insert owners cells world write expected).1
      (r.insert owners cells world write expected).2.1 := by
  have hbounded : Bounded limits (r.purged world write) :=
    (h.expireUnderPressure world write.key write.entry.metadata.weight write.time.now).2
  have hinsert := insert_of_admissible owners world hadmissible
  obtain ⟨hnone, hsome⟩ := plan_shortest hbounded write.key write.entry.metadata.weight
    write.entry.metadata.priority
  have hpurge : ∀ key, (r.purged world write).entries.lookup key =
      (r.entries.lookup key).filter fun stored =>
        r.makesRoom write.key write.entry.metadata.weight [] ||
          (stored.retirementReason world (some write.time.now)).isNone := fun key => by
    unfold purged makesRoom
    rw [expireUnderPressure_lookup, projection_eq h]
  have heligible : ∀ victim ∈ (r.purged world write).eligible write.key write.entry.metadata.priority,
      ((r.purged world write).entries.lookup victim).isSome = true := by
    intro victim hmem
    obtain ⟨candidate, hcandidate, rfl⟩ := List.mem_map.mp hmem
    obtain ⟨stored, hlookup, -⟩ := (mem_eligibleVictims.mp hcandidate).stored
    rw [hlookup]
    rfl
  have hnodup : ((r.purged world write).eligible write.key write.entry.metadata.priority).Nodup :=
    (eligibleVictims_spec _ write.key write.entry.metadata.priority).nodup
  cases hplan : (r.purged world write).plan write.key write.entry.metadata.weight
      write.entry.metadata.priority with
  | none =>
    rw [hplan] at hinsert
    obtain ⟨hadmission, hstore⟩ := hinsert
    refine ⟨hpurge, fun _ => mem_eligibleVictims, eligibleVictims_sorted .., ?_, fun _ _ => hstore, ?_⟩
    · exact iff_of_true hadmission (hnone.mp hplan)
    · intro hstored
      rw [hadmission] at hstored
      cases hstored
  | some victims =>
    rw [hplan] at hinsert
    obtain ⟨retired, hretired, hcommit, hstore⟩ := hinsert
    obtain ⟨hroom, n, hle, hshortest, hleast⟩ := hsome victims hplan
    obtain ⟨hadmitted, hevicted, hnew, hothers⟩ := commit_effect (r.purged world write) world write
      (hshortest ▸ hnodup.sublist (List.take_sublist n _))
      (fun victim hmem => heligible victim (List.mem_of_mem_take (hshortest ▸ hmem))) hretired
    rw [← hcommit] at hadmitted hevicted
    rw [← hstore] at hnew hothers
    have hno : ∀ reason, (r.insert owners cells world write expected).1.admission ≠
        .rejected reason := fun reason hrejected => by
      rw [hrejected] at hadmitted
      cases hadmitted
    refine ⟨hpurge, fun _ => mem_eligibleVictims, eligibleVictims_sorted .., ?_,
      fun reason hrejected => absurd hrejected (hno reason),
      fun _ => ⟨n, victims, hshortest, hevicted, hroom, hleast, hnew, hothers⟩⟩
    refine iff_of_false (hno _) fun hfull => ?_
    rw [← hnone, hplan] at hfull
    cases hfull

/-- **Evictions are planned and minimal.** In every state that the bounded store can reach, the
insertion of an admissible candidate follows the plan; and a rejected insertion, admissible or not,
removes only what it purged under pressure. -/
theorem eviction_plan (limits : MemoryLimits) (expiry : MemoryExpiry) (calls : List (Call K V))
    (r : Retention K V) (owners : List RevisionId) (cells : Cells) (world : World)
    (write : PreparedWrite K V) (expected : Expected V)
    (hr : r = calls.foldl perform (Retention.new limits expiry)) :
    (r.Admissible cells write expected →
      r.Planned world write (r.insert owners cells world write expected).1
        (r.insert owners cells world write expected).2.1) ∧
    ∀ reason, (r.insert owners cells world write expected).1.admission = .rejected reason →
      ∀ key stored, r.entries.lookup key = some stored →
        (r.insert owners cells world write expected).2.1.entries.lookup key = some stored ∨
        r.makesRoom write.key write.entry.metadata.weight [] = false ∧
          (stored.retirementReason world (some write.time.now)).isSome = true := by
  have hbounded : Bounded limits r := hr ▸ (run_spec (Bounded.new limits expiry) calls).2
  refine ⟨hbounded.planned owners world, fun reason hrejected key stored hlookup => ?_⟩
  by_cases hadmissible : r.Admissible cells write expected
  · have hplanned := hbounded.planned owners world hadmissible
    rw [hplanned.rejected reason hrejected, hplanned.purge key, hlookup]
    cases hroom : r.makesRoom write.key write.entry.metadata.weight [] with
    | true => exact .inl rfl
    | false =>
      cases hreason : stored.retirementReason world (some write.time.now) with
      | none => exact .inl (Option.filter_some_pos (by rw [hreason]; rfl))
      | some _ => exact .inr ⟨rfl, rfl⟩
  · rw [(insert_of_not_admissible hadmissible).1]
    exact .inl hlookup

/-- A write of the unit value under a numbered key, alive for ten ticks. -/
def tenTicks (key : Nat) : PreparedWrite Nat Unit where
  key
  entry := .intoFresh () (.fromTicks 0) (.fromTicks 10) key
  time := ⟨.fromTicks 0, 0⟩
  event := .set

/-- Room for one entry, and one is there. -/
def crowded : Retention Nat Unit :=
  [Call.insert [] (fun _ => 0) ⟨0, 0⟩ (tenTicks 0) .any].foldl perform
    (Retention.new ⟨some 1, none⟩ .clockDriven)

theorem eviction_plan_crowded :
    crowded.Planned ⟨0, 0⟩ (tenTicks 1)
      (crowded.insert [] (fun _ => 0) ⟨0, 0⟩ (tenTicks 1) .any).1
      (crowded.insert [] (fun _ => 0) ⟨0, 0⟩ (tenTicks 1) .any).2.1 :=
  (eviction_plan ⟨some 1, none⟩ .clockDriven
    [.insert [] (fun _ => 0) ⟨0, 0⟩ (tenTicks 0) .any] crowded [] (fun _ => 0) ⟨0, 0⟩ (tenTicks 1) .any
    rfl).1 ⟨rfl, rfl⟩

end Retention

end Memory

end Amalgam
