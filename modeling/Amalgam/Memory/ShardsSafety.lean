import Mathlib.Data.String.Basic
import Amalgam.Lib.History
import Amalgam.Memory.Accounting
import Amalgam.Memory.Shards

/-!
# Amalgam — the sharded store is a plain map with clear

Every write of the sharded store is in force from the moment it loads the generation inside
its shard: a clear that falls before its change of the map makes the change one of an old
generation. With the writers in the shards thought finished (`settled`), the entries of the
present generation are the contents of a plain map.

* **`reads_plain_map`** — a read answers the value of the latest write of its key that no
  removal and no clear follows, unless it is found unavailable, and nothing otherwise.
* **`Inv.weight`** — every shard records the sum of the weights it stores.
-/

namespace Amalgam

namespace Memory

namespace Shards

variable {K V : Type} [LinearOrder K]

/-! ## One shard -/

/-- The recorded weight is the sum of what is stored. -/
def Shard.Weighed (shard : Shard K V) : Prop :=
  shard.weight = shard.entries.total fun stored => stored.entry.metadata.weight

/-- What an admitted write leaves. -/
def Shard.put (shard : Shard K V) (key : K) (stored : Sharded.Stored V) : Shard K V where
  entries := shard.entries.insert key stored
  weight := shard.weight - (shard.entries.lookup key).elim 0 (·.entry.metadata.weight)
    + stored.entry.metadata.weight

theorem Shard.Weighed.put {shard : Shard K V} (h : shard.Weighed) (key : K)
    (stored : Sharded.Stored V) : (shard.put key stored).Weighed := by
  have hinsert := AList.total_insert (fun stored : Sharded.Stored V =>
    stored.entry.metadata.weight) shard.entries key stored
  unfold Weighed at h ⊢
  show shard.weight - (shard.entries.lookup key).elim 0 (·.entry.metadata.weight)
    + stored.entry.metadata.weight = (shard.entries.insert key stored).total _
  rw [hinsert, h]
  cases hlookup : shard.entries.lookup key with
  | none =>
    rw [AList.erase_of_lookup_none hlookup, Option.elim_none]
    omega
  | some old =>
    have herase := AList.total_erase (fun stored : Sharded.Stored V =>
      stored.entry.metadata.weight) hlookup
    rw [Option.elim_some]
    omega

theorem Shard.Weighed.removeSame {shard : Shard K V} (h : shard.Weighed) (key : K)
    (expected : Option (Entry V)) : (shard.removeSame key expected).2.Weighed := by
  unfold Shard.removeSame
  cases hlookup : shard.entries.lookup key with
  | none => exact h
  | some stored =>
    dsimp only
    split
    · have herase := AList.total_erase (fun stored : Sharded.Stored V =>
        stored.entry.metadata.weight) hlookup
      unfold Weighed at h ⊢
      show shard.weight - stored.entry.metadata.weight = (shard.entries.erase key).total _
      omega
    · exact h

/-- A removal takes the key out, or finds another representation than it expected. -/
theorem Shard.removeSame_cases (shard : Shard K V) (key : K) (expected : Option (Entry V)) :
    (∃ stored, shard.entries.lookup key = some stored ∧
      (∀ entry ∈ expected, stored.entry.inst = entry.inst) ∧
      (shard.removeSame key expected).1 = some stored ∧
      (shard.removeSame key expected).2.entries = shard.entries.erase key) ∨
    (∀ stored, shard.entries.lookup key = some stored →
        ∃ entry ∈ expected, stored.entry.inst ≠ entry.inst) ∧
      (shard.removeSame key expected) = (none, shard) := by
  unfold Shard.removeSame
  cases hlookup : shard.entries.lookup key with
  | none => exact .inr ⟨fun stored h => (by cases h), rfl⟩
  | some stored =>
    dsimp only
    split
    · rename_i hall
      refine .inl ⟨stored, rfl, fun entry hentry => ?_, rfl, rfl⟩
      obtain rfl := Option.mem_def.mp hentry
      exact of_decide_eq_true hall
    · rename_i hother
      refine .inr ⟨fun stored' h => ?_, rfl⟩
      obtain rfl := Option.some.inj h
      cases expected with
      | none => exact absurd rfl hother
      | some entry => exact ⟨entry, rfl, fun heq => hother (decide_eq_true heq)⟩

theorem retirementReason_eq_none {stored : Sharded.Stored V} {world : World}
    {now : Option Timestamp} {generation : Nat} :
    stored.retirementReason world now generation = none ↔
      stored.generation = generation ∧ (binding stored).unavailable world now = false := by
  unfold Sharded.Stored.retirementReason Binding.unavailable binding
  by_cases hgen : stored.generation = generation
  · rw [if_neg (not_not.mpr hgen)]
    cases heligible : stored.entry.isReadEligible world.epoch <;>
      cases hexpired : stored.deadlines.physicallyExpired stored.entry.metadata now
        world.instant <;> simp [hgen]
  · rw [if_pos hgen]
    simp [hgen]

theorem retirementReason_eq_continuity {stored : Sharded.Stored V} {world : World}
    {now : Option Timestamp} {generation : Nat} :
    stored.retirementReason world now generation = some .continuity ↔
      stored.generation ≠ generation := by
  unfold Sharded.Stored.retirementReason
  by_cases hgen : stored.generation = generation
  · rw [if_neg (not_not.mpr hgen)]
    refine ⟨fun h => ?_, fun h => absurd hgen h⟩
    split at h
    · cases h
    · split at h <;> cases h
  · rw [if_pos hgen]
    exact ⟨fun _ => hgen, fun _ => rfl⟩

/-! ## Expiry -/

theorem Shard.removeAll_lookup (keys : List K) (shard : Shard K V) (key : K) :
    (keys.foldl (fun shard key => (shard.removeSame key none).2) shard).entries.lookup key
      = if key ∈ keys then none else shard.entries.lookup key := by
  induction keys generalizing shard with
  | nil => rw [if_neg List.not_mem_nil]; rfl
  | cons k rest ih =>
    have hentries : (shard.removeSame k none).2.entries = shard.entries.erase k := by
      rcases shard.removeSame_cases k none with ⟨_, _, _, _, herase⟩ | ⟨hnone, hsame⟩
      · exact herase
      · have hlookup : shard.entries.lookup k = none := by
          cases hk : shard.entries.lookup k with
          | none => rfl
          | some stored =>
            obtain ⟨entry, hentry, -⟩ := hnone stored hk
            cases hentry
        rw [hsame, AList.erase_of_lookup_none hlookup]
    rw [List.foldl_cons, ih, hentries]
    by_cases hk : key = k
    · rw [hk, AList.lookup_erase, if_pos List.mem_cons_self]
      exact ite_self none
    · rw [AList.lookup_erase_ne hk]
      simp only [List.mem_cons, hk, false_or]

/-- What `expire_locked` takes out, and why. -/
theorem Shard.mem_expireLocked {shard : Shard K V} {generation : Nat} {world : World}
    {now : Option Timestamp} {retirement : Retirement K V} :
    retirement ∈ (shard.expireLocked generation world now).1 ↔
      ∃ stored, shard.entries.lookup retirement.key = some stored ∧
        stored.entry = retirement.entry ∧
        stored.retirementReason world now generation = some retirement.reason := by
  unfold Shard.expireLocked
  simp only [List.mem_filterMap, Sigma.exists, Option.map_eq_some_iff]
  constructor
  · rintro ⟨key, stored, hmem, reason, hreason, rfl⟩
    exact ⟨stored, (List.mem_dlookup_iff shard.entries.nodupKeys).mpr hmem, rfl, hreason⟩
  · rintro ⟨stored, hlookup, hentry, hreason⟩
    refine ⟨retirement.key, stored, (List.mem_dlookup_iff shard.entries.nodupKeys).mp hlookup,
      retirement.reason, hreason, ?_⟩
    rw [hentry]

/-- `expire_locked` keeps exactly what is of the generation it loaded and available. -/
theorem Shard.expireLocked_lookup (shard : Shard K V) (generation : Nat) (world : World)
    (now : Option Timestamp) (key : K) :
    (shard.expireLocked generation world now).2.entries.lookup key
        = (shard.entries.lookup key).filter fun stored =>
          (stored.retirementReason world now generation).isNone := by
  have hfold : (shard.expireLocked generation world now).2
      = ((shard.expireLocked generation world now).1.map (·.key)).foldl
        (fun shard key => (shard.removeSame key none).2) shard := by
    rw [List.foldl_map]
    rfl
  rw [hfold, removeAll_lookup]
  cases hlookup : shard.entries.lookup key with
  | none => rw [Option.filter_none, ite_self]
  | some stored =>
    cases hreason : stored.retirementReason world now generation with
    | none =>
      have hkept : key ∉ (shard.expireLocked generation world now).1.map (·.key) := by
        intro hmem
        obtain ⟨retirement, hdead, rfl⟩ := List.mem_map.mp hmem
        obtain ⟨other, hother, -, hretired⟩ := mem_expireLocked.mp hdead
        obtain rfl := Option.some.inj (hlookup.symm.trans hother)
        cases hreason.symm.trans hretired
      rw [if_neg hkept, Option.filter_some_pos (by rw [hreason]; rfl)]
    | some reason =>
      have hgone : key ∈ (shard.expireLocked generation world now).1.map (·.key) :=
        List.mem_map.mpr ⟨⟨key, stored.entry, reason⟩,
          mem_expireLocked.mpr ⟨stored, hlookup, rfl, hreason⟩, rfl⟩
      rw [if_pos hgone, Option.filter_some_neg (by rw [hreason]; rfl)]

/-- The retired keys of the generation are bound in it and unavailable. -/
theorem Shard.mem_retiredNow {shard : Shard K V} {generation : Nat} {world : World}
    {now : Option Timestamp} {key : K} :
    key ∈ State.retiredNow (shard.expireLocked generation world now).1 ↔
      ∃ stored, shard.entries.lookup key = some stored ∧ stored.generation = generation ∧
        (binding stored).unavailable world now = true := by
  unfold State.retiredNow
  simp only [List.mem_map, List.mem_filter, mem_expireLocked, decide_eq_true_eq]
  constructor
  · rintro ⟨retirement, ⟨⟨stored, hlookup, -, hreason⟩, hnow⟩, rfl⟩
    have hgen : stored.generation = generation := by
      by_contra hother
      exact hnow (Option.some.inj (hreason.symm.trans
        (retirementReason_eq_continuity.mpr hother)))
    refine ⟨stored, hlookup, hgen, ?_⟩
    cases hun : (binding stored).unavailable world now with
    | true => rfl
    | false => cases hreason.symm.trans (retirementReason_eq_none.mpr ⟨hgen, hun⟩)
  · rintro ⟨stored, hlookup, hgen, hun⟩
    cases hreason : stored.retirementReason world now generation with
    | none => rw [(retirementReason_eq_none.mp hreason).2] at hun; cases hun
    | some reason =>
      refine ⟨⟨key, stored.entry, reason⟩, ⟨⟨stored, hlookup, rfl, hreason⟩, ?_⟩, rfl⟩
      rintro rfl
      exact retirementReason_eq_continuity.mp hreason hgen

theorem Shard.nodup_retiredNow (shard : Shard K V) (generation : Nat) (world : World)
    (now : Option Timestamp) :
    (State.retiredNow (shard.expireLocked generation world now).1).Nodup := by
  have hkeys : ((shard.expireLocked generation world now).1.map (·.key)).Nodup := by
    apply AList.nodup_select
    intro binding retirement h
    obtain ⟨reason, -, rfl⟩ := Option.map_eq_some_iff.mp h
    rfl
  exact (List.filter_sublist.map _).nodup hkeys

theorem Shard.Weighed.expireLocked {shard : Shard K V} (h : shard.Weighed) (generation : Nat)
    (world : World) (now : Option Timestamp) :
    (shard.expireLocked generation world now).2.Weighed := by
  unfold Shard.expireLocked
  dsimp only
  generalize shard.entries.entries.filterMap _ = dead
  induction dead generalizing shard with
  | nil => exact h
  | cons retirement rest ih => exact ih (h.removeSame retirement.key none)

/-! ## Insertions -/

theorem Shard.insertPrepared_cases (shard : Shard K V) (cells : Cells) (generation : Nat)
    (deadlines : Deadlines) (write : PreparedWrite K V) (expected : Expected V) :
    let done := shard.insertPrepared cells generation deadlines write expected
    (done.1.admission.stored = true ∧ generation ≠ u64Max ∧
        done.2 = shard.put write.key ⟨write.entry, generation, deadlines⟩) ∨
      (done.1.admission.stored = false ∧ done.2 = shard) := by
  intro done
  unfold done Shard.insertPrepared
  split
  · exact .inr ⟨rfl, rfl⟩
  · rename_i hmax
    dsimp only
    split
    · exact .inr ⟨rfl, rfl⟩
    · refine .inl ⟨?_, hmax, rfl⟩
      dsimp only
      split <;> rfl

theorem Shard.insertPlain_cases (shard : Shard K V) (generation : Nat) (deadlines : Deadlines)
    (key : K) (value : V) (metadata : Sharded.PlainMetadata) (inst : Instance) :
    let done := shard.insertPlain generation deadlines key value metadata inst
    (done.1.admission.stored = true ∧ generation ≠ u64Max ∧
        done.2 = shard.put key
          ⟨Entry.intoFresh value metadata.created metadata.expires inst, generation, deadlines⟩) ∨
      (done.1.admission.stored = false ∧ done.2 = shard) := by
  intro done
  unfold done Shard.insertPlain
  split
  · exact .inr ⟨rfl, rfl⟩
  · rename_i hmax
    refine .inl ⟨?_, hmax, rfl⟩
    dsimp only
    split <;> rfl

/-- The generation a writer loaded. -/
def Held.generation : Held K V → Nat
  | .insertPrepared _ generation .. => generation
  | .insertPlain generation .. => generation
  | .expire generation .. => generation

/-- The shard as it will be when the insertion in it is finished. -/
def Held.settle (shard : Shard K V) : Option (Held K V) → Shard K V
  | some (.insertPrepared cells generation deadlines write expected) =>
    (shard.insertPrepared cells generation deadlines write expected).2
  | some (.insertPlain generation deadlines key value metadata inst) =>
    (shard.insertPlain generation deadlines key value metadata inst).2
  | some (.expire ..) | none => shard

/-- An admitted insertion puts its binding under the generation it loaded. -/
theorem Held.settle_of_admits {shard : Shard K V} {held : Held K V} {key : K} {b : Binding V}
    (h : held.admits shard = some (key, b)) :
    held.generation ≠ u64Max ∧
      Held.settle shard (some held) = shard.put key ⟨b.entry, held.generation, b.deadlines⟩ := by
  cases held with
  | insertPrepared cells generation deadlines write expected =>
    simp only [Held.admits] at h
    rcases shard.insertPrepared_cases cells generation deadlines write expected with
      ⟨hstored, hmax, hput⟩ | ⟨hrejected, -⟩
    · rw [if_pos hstored] at h
      obtain ⟨rfl, rfl⟩ := Prod.ext_iff.mp (Option.some.inj h)
      exact ⟨hmax, hput⟩
    · rw [hrejected] at h
      cases h
  | insertPlain generation deadlines key' value metadata inst =>
    simp only [Held.admits] at h
    rcases shard.insertPlain_cases generation deadlines key' value metadata inst with
      ⟨hstored, hmax, hput⟩ | ⟨hrejected, -⟩
    · rw [if_pos hstored] at h
      obtain ⟨rfl, rfl⟩ := Prod.ext_iff.mp (Option.some.inj h)
      exact ⟨hmax, hput⟩
    · rw [hrejected] at h
      cases h
  | expire generation world now => cases h

/-- A writer that is admitted nothing changes nothing that counts. -/
theorem Held.settle_of_not_admits {shard : Shard K V} {held : Held K V}
    (h : held.admits shard = none) : Held.settle shard (some held) = shard := by
  cases held with
  | insertPrepared cells generation deadlines write expected =>
    simp only [Held.admits] at h
    rcases shard.insertPrepared_cases cells generation deadlines write expected with
      ⟨hstored, -, -⟩ | ⟨-, hsame⟩
    · rw [if_pos hstored] at h
      cases h
    · exact hsame
  | insertPlain generation deadlines key' value metadata inst =>
    simp only [Held.admits] at h
    rcases shard.insertPlain_cases generation deadlines key' value metadata inst with
      ⟨hstored, -, -⟩ | ⟨-, hsame⟩
    · rw [if_pos hstored] at h
      cases h
    · exact hsame
  | expire generation world now => rfl

/-! ## The store -/

namespace State

/-- The shards with the insertions in them thought finished. -/
def settled (s : State K V) (i : Fin 64) : Shard K V := Held.settle (s.shards i) (s.held i)

/-- What the settled shards store under a key. -/
def stored (s : State K V) (layout : Layout K) (key : K) : Option (Sharded.Stored V) :=
  (s.settled (layout.route key)).entries.lookup key

/-- The entries of the present generation. -/
def visible (s : State K V) (layout : Layout K) (key : K) : Option (Binding V) :=
  (s.stored layout key).bind fun stored =>
    if stored.generation = s.generation then some (binding stored) else none

end State

/-- Every removal for being unavailable found its binding so. -/
def Justified (log : List (Event K V)) : Prop :=
  ∀ later earlier key world now, log = later ++ .drop key (.retired world now) :: earlier →
    ∃ b, PlainMap.contents earlier key = some b ∧ b.unavailable world now = true

structure Inv (layout : Layout K) (s : State K V) : Prop where
  generation_le : s.generation ≤ u64Max
  stored_le : ∀ key stored, s.stored layout key = some stored →
    stored.generation ≤ s.generation ∧ stored.generation ≠ u64Max
  /-- Nothing newer than the generation a maintenance loaded comes into its shard. -/
  expire_le : ∀ i generation world now, s.held i = some (.expire generation world now) →
    generation ≤ s.generation ∧
      ∀ key stored, (s.shards i).entries.lookup key = some stored → stored.generation ≤ generation
  routed : ∀ i key stored, (s.settled i).entries.lookup key = some stored → layout.route key = i
  contents : ∀ key, PlainMap.contents s.log key = s.visible layout key
  /-- A candidate that is still stored is of an older generation, or was found unavailable. -/
  candidate : ∀ task c, s.candidates.lookup task = some c → ∀ stored,
    s.stored layout c.key = some stored → stored.entry.inst = c.entry.inst →
    stored.generation < s.generation ∨ (binding stored).unavailable c.world c.now = true
  justified : Justified s.log

namespace Inv

variable {layout : Layout K} {s : State K V}

theorem init (layout : Layout K) : Inv layout (Shards.init : State K V) where
  generation_le := show 1 ≤ u64Max by decide
  stored_le := fun _ _ h => by cases h
  expire_le := fun _ _ _ _ h => by cases h
  routed := fun _ _ _ h => by cases h
  contents := fun _ => rfl
  candidate := fun _ _ h => by cases h
  justified := fun later earlier key world now h => by
    cases later <;> cases h

/-- With nobody in the shard, what is stored is what will be stored. -/
theorem stored_of_free {key : K} (h : s.held (layout.route key) = none) :
    s.stored layout key = (s.shards (layout.route key)).entries.lookup key := by
  unfold State.stored State.settled
  rw [h]
  rfl

theorem settled_of_ne {t : State K V} {i j : Fin 64} (h : j ≠ i)
    (hshards : t.shards = Function.update s.shards i (t.shards i))
    (hheld : t.held = Function.update s.held i (t.held i)) : t.settled j = s.settled j := by
  unfold State.settled
  rw [hshards, hheld, Function.update_of_ne h, Function.update_of_ne h]

/-- A step that only takes entries and candidates away. -/
theorem of_shrinks (h : Inv layout s) {t : State K V} (hgeneration : t.generation = s.generation)
    (hshrinks : ∀ i key stored, (t.settled i).entries.lookup key = some stored →
      (s.settled i).entries.lookup key = some stored)
    (hcandidates : ∀ task c, t.candidates.lookup task = some c →
      s.candidates.lookup task = some c)
    (hcontents : ∀ key, PlainMap.contents t.log key = t.visible layout key)
    (hexpire : ∀ i generation world now, t.held i = some (.expire generation world now) →
      generation ≤ s.generation ∧ ∀ key stored,
        (t.shards i).entries.lookup key = some stored → stored.generation ≤ generation)
    (hjustified : Justified t.log) : Inv layout t where
  generation_le := by
    rw [hgeneration]
    exact h.generation_le
  stored_le := by
    intro key stored hkey
    rw [hgeneration]
    exact h.stored_le key stored (hshrinks _ key stored hkey)
  expire_le := by
    rw [hgeneration]
    exact hexpire
  routed := fun i key stored hkey => h.routed i key stored (hshrinks i key stored hkey)
  contents := hcontents
  candidate := by
    intro task c hc stored hkey hinst
    rw [hgeneration]
    exact h.candidate task c (hcandidates task c hc) stored (hshrinks _ c.key stored hkey) hinst
  justified := hjustified

/-- A step that changes what counts nowhere. -/
theorem of_settled (h : Inv layout s) {t : State K V} (hgeneration : t.generation = s.generation)
    (hsettled : ∀ i, t.settled i = s.settled i) (hlog : t.log = s.log)
    (hcandidates : t.candidates = s.candidates)
    (hexpire : ∀ i generation world now, t.held i = some (.expire generation world now) →
      generation ≤ s.generation ∧ ∀ key stored,
        (t.shards i).entries.lookup key = some stored → stored.generation ≤ generation) :
    Inv layout t := by
  refine h.of_shrinks hgeneration ?_ ?_ ?_ hexpire ?_
  · intro i key stored hkey
    rw [hsettled] at hkey
    exact hkey
  · intro task c hc
    rw [hcandidates] at hc
    exact hc
  · intro key
    rw [hlog, h.contents]
    unfold State.visible State.stored
    rw [hsettled, hgeneration]
  · rw [hlog]
    exact h.justified

/-- A writer that is admitted nothing takes its shard. -/
theorem acquire_idle (h : Inv layout s) {t : State K V} {i : Fin 64} {held : Held K V}
    (hadmits : held.admits (s.shards i) = none)
    (hgeneration : held.generation = s.generation) (hstep : s.acquire i held = some t) :
    Inv layout t := by
  unfold State.acquire at hstep
  split at hstep
  · cases hstep
  · rename_i hfree
    have hnone : s.held i = none := Option.not_isSome_iff_eq_none.mp hfree
    obtain rfl := Option.some.inj hstep
    have hsame : Held.settle (s.shards i) (some held) = s.settled i := by
      rw [Held.settle_of_not_admits hadmits]
      unfold State.settled
      rw [hnone]
      rfl
    refine h.of_settled rfl ?_ ?_ rfl ?_
    · intro j
      by_cases hj : j = i
      · subst hj
        show Held.settle (s.shards j) (Function.update s.held j (some held) j) = s.settled j
        rw [Function.update_self]
        exact hsame
      · exact settled_of_ne hj (Function.update_eq_self i s.shards).symm
          (by dsimp only; rw [Function.update_self])
    · show (held.admits (s.shards i)).toList.map _ ++ s.log = s.log
      rw [hadmits]
      rfl
    · intro j generation world now hj
      by_cases hij : j = i
      · subst hij
        dsimp only at hj
        rw [Function.update_self] at hj
        obtain rfl := Option.some.inj hj
        obtain rfl : generation = s.generation := hgeneration
        refine ⟨le_refl _, fun key stored hkey => ?_⟩
        have hsettled : (s.settled j).entries.lookup key = some stored := by
          unfold State.settled
          rw [hnone]
          exact hkey
        have hroute := h.routed j key stored hsettled
        exact (h.stored_le key stored (by unfold State.stored; rw [hroute]; exact hsettled)).1
      · dsimp only at hj
        rw [Function.update_of_ne hij] at hj
        exact h.expire_le j generation world now hj

/-- What is stored after one shard got other settled contents. -/
theorem stored_update {t : State K V} {i : Fin 64}
    (hother : ∀ j, j ≠ i → t.settled j = s.settled j) (key : K) :
    t.stored layout key =
      if layout.route key = i then (t.settled i).entries.lookup key else s.stored layout key := by
  unfold State.stored
  by_cases hroute : layout.route key = i
  · rw [if_pos hroute, hroute]
  · rw [if_neg hroute, hother _ hroute]

/-- An admitted insertion takes its shard and is in force. -/
theorem acquire_put (h : Inv layout s) {t : State K V} {i : Fin 64} {held : Held K V} {key : K}
    {b : Binding V} (hroute : layout.route key = i)
    (hadmits : held.admits (s.shards i) = some (key, b))
    (hgeneration : held.generation = s.generation)
    (hnew : ∀ task c, s.candidates.lookup task = some c → c.key = key →
      b.entry.inst ≠ c.entry.inst)
    (hstep : s.acquire i held = some t) : Inv layout t := by
  unfold State.acquire at hstep
  split at hstep
  · cases hstep
  · rename_i hfree
    have hnone : s.held i = none := Option.not_isSome_iff_eq_none.mp hfree
    obtain rfl := Option.some.inj hstep
    obtain ⟨hmax, hput⟩ := Held.settle_of_admits hadmits
    rw [hgeneration] at hmax hput
    obtain ⟨t, ht⟩ : ∃ t : State K V, t = { s with
        held := Function.update s.held i (some held)
        log := (held.admits (s.shards i)).toList.map (fun b => .put b.1 b.2) ++ s.log } :=
      ⟨_, rfl⟩
    rw [← ht]
    have hlog : t.log = .put key b :: s.log := by
      rw [ht, hadmits]
      rfl
    have hself : t.settled i
        = (s.settled i).put key ⟨b.entry, s.generation, b.deadlines⟩ := by
      have hsettled : s.settled i = s.shards i := by
        unfold State.settled
        rw [hnone]
        rfl
      rw [hsettled, ← hput, ht]
      show Held.settle (s.shards i) (Function.update s.held i (some held) i) = _
      rw [Function.update_self]
    have hother : ∀ j, j ≠ i → t.settled j = s.settled j := by
      intro j hj
      rw [ht]
      exact settled_of_ne hj (Function.update_eq_self i s.shards).symm
        (by dsimp only; rw [Function.update_self])
    have hstored : ∀ k, t.stored layout k =
        if k = key then some ⟨b.entry, s.generation, b.deadlines⟩ else s.stored layout k := by
      intro k
      rw [stored_update hother]
      by_cases hk : k = key
      · rw [hk, if_pos hroute, if_pos rfl, hself]
        exact AList.lookup_insert _
      · rw [if_neg hk]
        split
        · rename_i hi
          rw [hself]
          show ((s.settled i).entries.insert key _).lookup k = _
          rw [AList.lookup_insert_ne hk]
          unfold State.stored
          rw [hi]
        · rfl
    have hgen : t.generation = s.generation := by rw [ht]
    have hcandidates : t.candidates = s.candidates := by rw [ht]
    constructor
    · rw [hgen]
      exact h.generation_le
    · intro k stored hk
      rw [hstored] at hk
      rw [hgen]
      split at hk
      · obtain rfl := Option.some.inj hk
        exact ⟨le_refl _, hmax⟩
      · exact h.stored_le k stored hk
    · intro j generation world now hj
      rw [ht] at hj ⊢
      by_cases hij : j = i
      · subst hij
        dsimp only at hj
        rw [Function.update_self] at hj
        obtain rfl := Option.some.inj hj
        cases hadmits
      · dsimp only at hj
        rw [Function.update_of_ne hij] at hj
        exact h.expire_le j generation world now hj
    · intro j k stored hk
      by_cases hj : j = i
      · rw [hj, hself] at hk
        by_cases hkey : k = key
        · rw [hkey, hj]
          exact hroute
        · rw [hj]
          refine h.routed i k stored ?_
          rw [← hk]
          exact (AList.lookup_insert_ne hkey).symm
      · rw [hother j hj] at hk
        exact h.routed j k stored hk
    · intro k
      rw [hlog]
      unfold State.visible
      rw [hstored, hgen]
      by_cases hk : k = key
      · rw [hk, PlainMap.contents_put_self, if_pos rfl, Option.bind_some, if_pos rfl]
        rfl
      · rw [PlainMap.contents_put_of_ne _ _ hk, if_neg hk]
        exact h.contents k
    · intro task c hc stored hk hinst
      rw [hcandidates] at hc
      rw [hstored] at hk
      rw [hgen]
      split at hk
      · rename_i hkey
        obtain rfl := Option.some.inj hk
        exact absurd hinst (hnew task c hc hkey)
      · exact h.candidate task c hc stored hk hinst
    · rw [hlog]
      intro later earlier k world now hsplit
      rcases History.split_cons hsplit with ⟨-, hhead, -⟩ | ⟨rest, -, hrest⟩
      · cases hhead
      · exact h.justified rest earlier k world now hrest

/-! ### Leaving a shard -/

variable {i : Fin 64} {shard : Shard K V} {events : List (Event K V)}

theorem release_settled_self (s : State K V) (i : Fin 64) (shard : Shard K V)
    (events : List (Event K V)) : (s.release i shard events).settled i = shard := by
  show Held.settle (Function.update s.shards i shard i) (Function.update s.held i none i) = shard
  rw [Function.update_self, Function.update_self]
  rfl

theorem release_settled_of_ne {j : Fin 64} (hj : j ≠ i) :
    (s.release i shard events).settled j = s.settled j := by
  show Held.settle (Function.update s.shards i shard j) (Function.update s.held i none j) = _
  rw [Function.update_of_ne hj, Function.update_of_ne hj]
  rfl

theorem release_expire (h : Inv layout s) (j : Fin 64) (generation : Nat) (world : World)
    (now : Option Timestamp)
    (hj : (s.release i shard events).held j = some (.expire generation world now)) :
    generation ≤ s.generation ∧ ∀ key stored,
      ((s.release i shard events).shards j).entries.lookup key = some stored →
        stored.generation ≤ generation := by
  have hheld : Function.update s.held i none j = some (.expire generation world now) := hj
  by_cases hij : j = i
  · rw [hij, Function.update_self] at hheld
    cases hheld
  · rw [Function.update_of_ne hij] at hheld
    show _ ∧ ∀ key stored,
      (Function.update s.shards i shard j).entries.lookup key = some stored → _
    rw [Function.update_of_ne hij]
    exact h.expire_le j generation world now hheld

/-- An insertion that was in force since it took its shard changes nothing when it leaves. -/
theorem finish_insert (h : Inv layout s) (hshard : shard = s.settled i) :
    Inv layout (s.release i shard []) := by
  refine h.of_settled rfl ?_ rfl rfl h.release_expire
  intro j
  by_cases hj : j = i
  · rw [hj, release_settled_self]
    exact hshard
  · exact release_settled_of_ne hj

/-- Dropping keys whose bindings were found unavailable. -/
theorem justified_drops {log : List (Event K V)} (hlog : Justified log) {keys : List K}
    (hkeys : keys.Nodup) {world : World} {now : Option Timestamp}
    (hfound : ∀ key ∈ keys, ∃ b, PlainMap.contents log key = some b ∧
      b.unavailable world now = true) :
    Justified (keys.map (PlainMap.Event.drop · (.retired world now)) ++ log) := by
  induction keys with
  | nil => exact hlog
  | cons k keys ih =>
    rw [List.nodup_cons] at hkeys
    have hrest := ih hkeys.2 fun key hkey => hfound key (List.mem_cons_of_mem k hkey)
    intro later earlier key world' now' hsplit
    rw [List.map_cons, List.cons_append] at hsplit
    rcases History.split_cons hsplit with ⟨-, hhead, rfl⟩ | ⟨rest, -, hin⟩
    · obtain ⟨rfl, hwhy⟩ := PlainMap.Event.drop.inj hhead
      obtain ⟨rfl, rfl⟩ := Ended.retired.inj hwhy
      rw [PlainMap.contents_drops, if_neg hkeys.1]
      exact hfound k List.mem_cons_self
    · exact hrest rest earlier key world' now' hin

theorem finish_expire (h : Inv layout s) {generation : Nat} {world : World}
    {now : Option Timestamp} (hheld : s.held i = some (.expire generation world now)) :
    Inv layout (s.release i ((s.shards i).expireLocked generation world now).2
      (if generation = s.generation then
        (State.retiredNow ((s.shards i).expireLocked generation world now).1).map
          (PlainMap.Event.drop · (.retired world now))
      else [])) := by
  have hsettled : s.settled i = s.shards i := by
    unfold State.settled
    rw [hheld]
    rfl
  have hroute : ∀ key stored, (s.shards i).entries.lookup key = some stored →
      layout.route key = i := by
    intro key stored hkey
    rw [← hsettled] at hkey
    exact h.routed i key stored hkey
  have hvisible : ∀ key stored, (s.shards i).entries.lookup key = some stored →
      stored.generation = s.generation →
      PlainMap.contents s.log key = some (binding stored) := by
    intro key stored hkey hgen
    rw [h.contents]
    unfold State.visible State.stored
    rw [hroute key stored hkey, hsettled, hkey, Option.bind_some, if_pos hgen]
  refine h.of_shrinks rfl ?_ (fun _ _ hc => hc) ?_ h.release_expire ?_
  · intro j key stored hkey
    by_cases hj : j = i
    · rw [hj, release_settled_self, Shard.expireLocked_lookup] at hkey
      rw [hj, hsettled]
      exact (Option.filter_eq_some_iff.mp hkey).1
    · rw [release_settled_of_ne hj] at hkey
      exact hkey
  · intro key
    have hafter : PlainMap.contents ((if generation = s.generation then
          (State.retiredNow ((s.shards i).expireLocked generation world now).1).map
            (PlainMap.Event.drop · (.retired world now))
        else []) ++ s.log) key
        = if generation = s.generation ∧
            key ∈ State.retiredNow ((s.shards i).expireLocked generation world now).1 then none
          else PlainMap.contents s.log key := by
      by_cases hgen : generation = s.generation
      · rw [if_pos hgen, PlainMap.contents_drops]
        simp only [hgen, true_and]
      · rw [if_neg hgen, if_neg (fun hand => hgen hand.1)]
        rfl
    refine hafter.trans ?_
    unfold State.visible State.stored
    by_cases hkey : layout.route key = i
    · rw [hkey, release_settled_self, Shard.expireLocked_lookup, h.contents]
      unfold State.visible State.stored
      rw [hkey, hsettled]
      cases hlookup : (s.shards i).entries.lookup key with
      | none => rw [Option.bind_none, ite_self]; rfl
      | some stored =>
        rw [Option.bind_some]
        by_cases hnow : stored.generation = s.generation
        · -- The maintenance loaded the generation the entry is of, so it judges it rightly.
          obtain ⟨hle, hstored⟩ := h.expire_le i generation world now hheld
          have hgen : generation = s.generation := by
            have hentry := hstored key stored hlookup
            omega
          cases hun : (binding stored).unavailable world now with
          | true =>
            have hdropped : key ∈ State.retiredNow
                ((s.shards i).expireLocked generation world now).1 :=
              Shard.mem_retiredNow.mpr ⟨stored, hlookup, hnow.trans hgen.symm, hun⟩
            have hreason : (stored.retirementReason world now generation).isNone = false := by
              cases hr : stored.retirementReason world now generation with
              | none =>
                cases hun.symm.trans (retirementReason_eq_none.mp hr).2
              | some reason => rfl
            have hfilter : ((some stored).filter fun stored =>
                (stored.retirementReason world now generation).isNone) = none :=
              Option.filter_some_neg hreason
            rw [if_pos ⟨hgen, hdropped⟩, hfilter]
            rfl
          | false =>
            have hkept : key ∉ State.retiredNow
                ((s.shards i).expireLocked generation world now).1 := by
              intro hmem
              obtain ⟨other, hother, -, hdead⟩ := Shard.mem_retiredNow.mp hmem
              obtain rfl := Option.some.inj (hlookup.symm.trans hother)
              cases hun.symm.trans hdead
            have hreason : stored.retirementReason world now generation = none :=
              retirementReason_eq_none.mpr ⟨hnow.trans hgen.symm, hun⟩
            have hfilter : ((some stored).filter fun stored =>
                (stored.retirementReason world now generation).isNone) = some stored :=
              Option.filter_some_pos (by rw [hreason]; rfl)
            rw [if_neg (fun hand => hkept hand.2), hfilter]
            rfl
        · rw [if_neg hnow, ite_self]
          symm
          rw [Option.bind_eq_none_iff]
          intro other hother
          obtain ⟨hsame, -⟩ := Option.filter_eq_some_iff.mp hother
          obtain rfl := Option.some.inj hsame
          exact if_neg hnow
    · have hother : key ∉ State.retiredNow
          ((s.shards i).expireLocked generation world now).1 := by
        intro hmem
        obtain ⟨stored, hlookup, -, -⟩ := Shard.mem_retiredNow.mp hmem
        exact hkey (hroute key stored hlookup)
      rw [release_settled_of_ne hkey, if_neg (fun hand => hother hand.2)]
      exact h.contents key
  · show Justified (_ ++ s.log)
    split
    · rename_i hgen
      refine justified_drops h.justified (Shard.nodup_retiredNow _ _ _ _) ?_
      intro key hkey
      obtain ⟨stored, hlookup, hstored, hun⟩ := Shard.mem_retiredNow.mp hkey
      exact ⟨binding stored, hvisible key stored hlookup (hstored.trans hgen), hun⟩
    · exact h.justified

/-! ### Removals -/

omit [LinearOrder K] in
/-- An operation in one critical section takes the shard and leaves it. -/
theorem atomically_eq_some {t : State K V} (hstep : atomically s i shard events = some t) :
    s.held i = none ∧ t = s.release i shard events := by
  unfold atomically at hstep
  split at hstep
  · cases hstep
  · rename_i hfree
    have hnone : s.held i = none := Option.not_isSome_iff_eq_none.mp hfree
    obtain rfl := Option.some.inj hstep
    refine ⟨hnone, ?_⟩
    unfold State.release
    rw [← hnone, Function.update_eq_self]

theorem settled_of_free (hfree : s.held i = none) : s.settled i = s.shards i := by
  unfold State.settled
  rw [hfree]
  rfl

/-- Nothing happened in the shard. -/
theorem of_untouched (h : Inv layout s) (hfree : s.held i = none) :
    Inv layout (s.release i (s.shards i) []) :=
  h.finish_insert (settled_of_free hfree).symm

/-- A key leaves its shard. What was visible of it is dropped from the plain map. -/
theorem of_erase (h : Inv layout s) {key : K} (hfree : s.held (layout.route key) = none)
    (hentries : shard.entries = (s.shards (layout.route key)).entries.erase key)
    (hevents : (∃ why, events = [.drop key why] ∧ Justified (.drop key why :: s.log)) ∨
      events = [] ∧ s.visible layout key = none) :
    Inv layout (s.release (layout.route key) shard events) := by
  have hsettled := settled_of_free hfree
  have hstored : ∀ k, (s.release (layout.route key) shard events).stored layout k =
      if k = key then none else s.stored layout k := by
    intro k
    rw [stored_update fun j hj => release_settled_of_ne hj, release_settled_self, hentries]
    by_cases hk : k = key
    · rw [hk, if_pos rfl, AList.lookup_erase, if_pos rfl]
    · rw [if_neg hk, AList.lookup_erase_ne hk]
      split
      · rename_i hroute
        unfold State.stored
        rw [hroute, hsettled]
      · rfl
  refine h.of_shrinks rfl ?_ (fun _ _ hc => hc) ?_ h.release_expire ?_
  · intro j k stored hk
    by_cases hj : j = layout.route key
    · rw [hj, release_settled_self, hentries] at hk
      rw [hj, hsettled]
      by_cases hkey : k = key
      · rw [hkey, AList.lookup_erase] at hk
        cases hk
      · rw [AList.lookup_erase_ne hkey] at hk
        exact hk
    · rw [release_settled_of_ne hj] at hk
      exact hk
  · intro k
    have hvisible : (s.release (layout.route key) shard events).visible layout k =
        if k = key then none else s.visible layout k := by
      unfold State.visible
      rw [hstored]
      split <;> rfl
    rw [hvisible]
    show PlainMap.contents (events ++ s.log) k = _
    rcases hevents with ⟨why, rfl, -⟩ | ⟨rfl, hgone⟩
    · by_cases hk : k = key
      · rw [hk, if_pos rfl]
        exact PlainMap.contents_drop_self s.log key why
      · rw [if_neg hk, ← h.contents]
        exact PlainMap.contents_drop_of_ne s.log why hk
    · by_cases hk : k = key
      · rw [hk, if_pos rfl, List.nil_append, h.contents]
        exact hgone
      · rw [if_neg hk, List.nil_append]
        exact h.contents k
  · show Justified (events ++ s.log)
    rcases hevents with ⟨why, rfl, hjustified⟩ | ⟨rfl, -⟩
    · exact hjustified
    · exact h.justified

theorem justified_cons {log : List (Event K V)} (hlog : Justified log) {event : Event K V}
    (hevent : ∀ key world now, event ≠ .drop key (.retired world now)) :
    Justified (event :: log) := by
  intro later earlier key world now hsplit
  rcases History.split_cons hsplit with ⟨-, hhead, -⟩ | ⟨rest, -, hrest⟩
  · exact absurd hhead (hevent key world now)
  · exact hlog rest earlier key world now hrest

theorem remove (h : Inv layout s) {t : State K V} {key : K} {expected : Option (Entry V)}
    (hstep : next layout s (.remove key expected) = some t) : Inv layout t := by
  obtain ⟨hfree, rfl⟩ := atomically_eq_some hstep
  have hjustified : Justified (.drop key .removed :: s.log) :=
    justified_cons h.justified fun key' world now heq => by cases heq
  rcases (s.shards (layout.route key)).removeSame_cases key expected with
    ⟨stored, hlookup, hsame, hremoved, hentries⟩ | ⟨hother, hsame⟩
  · refine h.of_erase hfree hentries (.inl ⟨.removed, ?_, hjustified⟩)
    rw [hremoved, Option.isSome_some, Bool.or_true]
    rfl
  · rw [hsame]
    cases expected with
    | none =>
      have habsent : (s.shards (layout.route key)).entries.lookup key = none := by
        cases hlookup : (s.shards (layout.route key)).entries.lookup key with
        | none => rfl
        | some stored =>
          obtain ⟨entry, hentry, -⟩ := hother stored hlookup
          cases hentry
      exact h.of_erase hfree (AList.erase_of_lookup_none habsent).symm
        (.inl ⟨.removed, rfl, hjustified⟩)
    | some entry => exact h.of_untouched hfree

theorem settle (h : Inv layout s) {t : State K V} {task : TaskId}
    (hstep : next layout s (.settle task) = some t) : Inv layout t := by
  obtain ⟨candidate, hcandidate, hrest⟩ := Option.bind_eq_some_iff.mp hstep
  obtain ⟨hfree, rfl⟩ := atomically_eq_some hrest
  have herased : Inv layout { s with candidates := s.candidates.erase task } := by
    refine h.of_shrinks rfl (fun _ _ _ hk => hk) ?_ h.contents h.expire_le h.justified
    intro other c hc
    by_cases hother : other = task
    · rw [hother] at hc
      cases (AList.lookup_erase task s.candidates).symm.trans hc
    · exact (AList.lookup_erase_ne hother).symm.trans hc
  rcases (s.shards (layout.route candidate.key)).removeSame_cases candidate.key
    (some candidate.entry) with ⟨stored, hlookup, hsame, hremoved, hentries⟩ | ⟨-, hsame⟩
  · have hstored : s.stored layout candidate.key = some stored :=
      (stored_of_free hfree).trans hlookup
    refine herased.of_erase hfree hentries ?_
    rw [hremoved, Option.any_some]
    by_cases hgen : stored.generation = s.generation
    · refine .inl ⟨.retired candidate.world candidate.now, ?_, ?_⟩
      · rw [if_pos (decide_eq_true hgen)]
      · -- The entry is of the present generation, so the read had found it unavailable.
        have hfound := h.candidate task candidate hcandidate stored hstored
          (hsame candidate.entry rfl)
        have hun : (binding stored).unavailable candidate.world candidate.now = true :=
          hfound.resolve_left (by omega)
        have hvisible : PlainMap.contents s.log candidate.key = some (binding stored) := by
          rw [h.contents]
          unfold State.visible
          rw [hstored, Option.bind_some, if_pos hgen]
        have hdrops := justified_drops h.justified (List.nodup_singleton candidate.key)
          fun key hkey => ⟨binding stored, by rw [List.mem_singleton.mp hkey, hvisible], hun⟩
        exact hdrops
    · refine .inr ⟨by rw [if_neg (by rw [decide_eq_false hgen]; decide)], ?_⟩
      show (s.stored layout candidate.key).bind _ = none
      rw [hstored, Option.bind_some, if_neg hgen]
  · rw [hsame]
    exact herased.of_untouched hfree

/-! ### Reads and clears -/

theorem get (h : Inv layout s) {t : State K V} {task : TaskId} {world : World} {key : K}
    {now : Option Timestamp} (hstep : next layout s (.get task world key now) = some t) :
    Inv layout t := by
  unfold next at hstep
  dsimp only at hstep
  split at hstep
  · cases hstep
  · rename_i hfree
    obtain ⟨hheld, -⟩ : s.held (layout.route key) = none ∧ s.candidates.lookup task = none := by
      simpa using hfree
    split at hstep
    · rename_i stored reason hpeek
      obtain rfl := Option.some.inj hstep
      obtain ⟨found, hlookup, hfound⟩ := Option.map_eq_some_iff.mp hpeek
      obtain ⟨rfl, hreason⟩ := Prod.ext_iff.mp hfound
      dsimp only at hreason
      refine { h with candidate := ?_ }
      intro other c hc stored hkey hinst
      by_cases hother : other = task
      · -- The candidate is what is stored now.
        rw [hother] at hc
        obtain rfl := Option.some.inj ((AList.lookup_insert s.candidates).symm.trans hc)
        have hnow : s.stored layout key = some found := (stored_of_free hheld).trans hlookup
        obtain rfl := Option.some.inj (hnow.symm.trans hkey)
        have hle := (h.stored_le key found hnow).1
        by_cases hgen : found.generation = s.generation
        · refine .inr ?_
          cases hun : (binding found).unavailable world now with
          | true => rfl
          | false => cases hreason.symm.trans (retirementReason_eq_none.mpr ⟨hgen, hun⟩)
        · exact .inl (show found.generation < s.generation by omega)
      · exact h.candidate other c ((AList.lookup_insert_ne hother).symm.trans hc) stored hkey hinst
    · obtain rfl := Option.some.inj hstep
      exact h
    · obtain rfl := Option.some.inj hstep
      exact h

theorem beginClear (h : Inv layout s) {t : State K V}
    (hstep : next layout s .beginClear = some t) : Inv layout t := by
  obtain rfl := Option.some.inj hstep
  have hle := le_saturatingSucc h.generation_le
  have hlt : ∀ key stored, s.stored layout key = some stored →
      stored.generation < saturatingSucc s.generation := by
    intro key stored hkey
    obtain ⟨hstored, hmax⟩ := h.stored_le key stored hkey
    have hgeneration := h.generation_le
    exact lt_saturatingSucc (by omega) hstored
  refine ⟨saturatingSucc_le s.generation, ?_, ?_, h.routed, ?_, ?_, ?_⟩
  · intro key stored hkey
    exact ⟨(hlt key stored hkey).le, (h.stored_le key stored hkey).2⟩
  · intro j generation world now hj
    obtain ⟨hgen, hentries⟩ := h.expire_le j generation world now hj
    exact ⟨le_trans hgen hle, hentries⟩
  · intro key
    rw [PlainMap.contents_clear]
    symm
    refine Option.bind_eq_none_iff.mpr fun stored hkey => ?_
    have hold := hlt key stored hkey
    exact if_neg (by dsimp only; omega)
  · intro task c hc stored hkey _
    exact .inl (hlt c.key stored hkey)
  · exact justified_cons h.justified fun key world now heq => by cases heq

end Inv

/-! ## Whole runs -/

/-- An insertion is given a representation that a `get` of its key has found retired and not
yet removed. -/
def Restores (s : State K V) : Action K V → Prop
  | .insertPrepared _ write _ => ∃ task c, s.candidates.lookup task = some c ∧
      c.key = write.key ∧ c.entry.inst = write.entry.inst
  | _ => False

namespace Inv

variable {layout : Layout K} {s t : State K V}

theorem acquire_insert (h : Inv layout s) {held : Held K V} {key : K} (b : Binding V)
    (hgeneration : held.generation = s.generation)
    (hadmits : ∀ put, held.admits (s.shards (layout.route key)) = some put → put = (key, b))
    (hnew : ∀ task c, s.candidates.lookup task = some c → c.key = key →
      b.entry.inst ≠ c.entry.inst)
    (hstep : s.acquire (layout.route key) held = some t) : Inv layout t := by
  cases hput : held.admits (s.shards (layout.route key)) with
  | none => exact h.acquire_idle hput hgeneration hstep
  | some put =>
    obtain rfl := hadmits put hput
    exact h.acquire_put rfl hput hgeneration hnew hstep

theorem step (h : Inv layout s) {a : Action K V} (hstep : next layout s a = some t)
    (hfresh : ¬ Restores s a) : Inv layout t := by
  cases a with
  | insertPrepared cells write expected =>
    refine h.acquire_insert ⟨write.entry, layout.timing.prepareBoundaries
      write.entry.metadata.logicalExpiration write.entry.metadata.physicalExpiration write.time
      layout.expiry⟩ rfl ?_ ?_ hstep
    · intro put hput
      simp only [Held.admits] at hput
      split at hput
      · exact (Option.some.inj hput).symm
      · cases hput
    · intro task c hc hkey hinst
      exact hfresh ⟨task, c, hc, hkey, hinst.symm⟩
  | insertPlain key value metadata time inst =>
    unfold next at hstep
    dsimp only at hstep
    split at hstep
    · cases hstep
    · rename_i hnew
      refine h.acquire_insert
        ⟨Entry.intoFresh value metadata.created metadata.expires inst,
          layout.timing.prepareBoundaries metadata.expires metadata.expires time layout.expiry⟩
        rfl ?_ ?_ hstep
      · intro put hput
        simp only [Held.admits] at hput
        split at hput
        · exact (Option.some.inj hput).symm
        · cases hput
      · intro task c hc _ hinst
        refine hnew (List.any_eq_true.mpr ⟨c, AList.mem_values.mpr ⟨task, hc⟩, ?_⟩)
        exact decide_eq_true hinst.symm
  | expire i world now => exact h.acquire_idle rfl rfl hstep
  | finish i =>
    obtain ⟨held, hheld, hdone⟩ := Option.map_eq_some_iff.mp hstep
    have hsettled : s.settled i = Held.settle (s.shards i) (some held) := by
      unfold State.settled
      rw [hheld]
    cases held with
    | insertPrepared cells generation deadlines write expected =>
      obtain rfl := hdone
      exact h.finish_insert hsettled.symm
    | insertPlain generation deadlines key value metadata inst =>
      obtain rfl := hdone
      exact h.finish_insert hsettled.symm
    | expire generation world now =>
      obtain rfl := hdone
      exact h.finish_expire hheld
  | remove key expected => exact h.remove hstep
  | get task world key now => exact h.get hstep
  | settle task => exact h.settle hstep
  | beginClear => exact h.beginClear hstep

/-- A read answers what the plain map holds, if it is available. -/
theorem read_iff (h : Inv layout s) {world : World} {key : K} {now : Option Timestamp}
    (hfree : s.held (layout.route key) = none) (entry : Entry V) :
    s.read layout world key now = some entry ↔ ∃ deadlines,
      PlainMap.contents s.log key = some ⟨entry, deadlines⟩ ∧
        Binding.unavailable ⟨entry, deadlines⟩ world now = false := by
  rw [h.contents]
  unfold State.read State.peek State.visible
  rw [stored_of_free hfree]
  cases hlookup : (s.shards (layout.route key)).entries.lookup key with
  | none =>
    constructor
    · intro hread
      cases hread
    · rintro ⟨deadlines, hnone, -⟩
      cases hnone
  | some stored =>
    rw [Option.map_some, Option.bind_some, Option.bind_some]
    dsimp only
    constructor
    · intro hread
      split at hread
      · rename_i hreason
        obtain rfl := Option.some.inj hread
        obtain ⟨hgen, hun⟩ :=
          retirementReason_eq_none.mp (Option.isNone_iff_eq_none.mp hreason)
        exact ⟨stored.deadlines, by rw [if_pos hgen]; rfl, hun⟩
      · cases hread
    · rintro ⟨deadlines, hvisible, hun⟩
      split at hvisible
      · rename_i hgen
        have hbinding : binding stored = ⟨entry, deadlines⟩ := Option.some.inj hvisible
        rw [← hbinding] at hun
        rw [retirementReason_eq_none.mpr ⟨hgen, hun⟩]
        exact congrArg (fun b => some b.entry) hbinding
      · cases hvisible

end Inv

/-- Whatever step is taken, every shard goes on recording the weight it stores. -/
theorem weighed_step {layout : Layout K} {s t : State K V} {a : Action K V}
    (h : ∀ i, (s.shards i).Weighed) (hstep : next layout s a = some t) :
    ∀ i, (t.shards i).Weighed := by
  have hupdate : ∀ i (shard : Shard K V), shard.Weighed →
      ∀ j, (Function.update s.shards i shard j).Weighed := by
    intro i shard hshard j
    by_cases hj : j = i
    · rw [hj, Function.update_self]
      exact hshard
    · rw [Function.update_of_ne hj]
      exact h j
  have hacquire : ∀ i held, s.acquire i held = some t → ∀ j, (t.shards j).Weighed := by
    intro i held hheld
    unfold State.acquire at hheld
    split at hheld
    · cases hheld
    · obtain rfl := Option.some.inj hheld
      exact h
  cases a with
  | insertPrepared cells write expected => exact hacquire _ _ hstep
  | insertPlain key value metadata time inst =>
    unfold next at hstep
    dsimp only at hstep
    split at hstep
    · cases hstep
    · exact hacquire _ _ hstep
  | expire i world now => exact hacquire _ _ hstep
  | finish i =>
    obtain ⟨held, -, hdone⟩ := Option.map_eq_some_iff.mp hstep
    cases held with
    | insertPrepared cells generation deadlines write expected =>
      obtain rfl := hdone
      apply hupdate
      rcases (s.shards i).insertPrepared_cases cells generation deadlines write expected with
        ⟨-, -, hput⟩ | ⟨-, hsame⟩
      · rw [hput]
        exact (h i).put _ _
      · rw [hsame]
        exact h i
    | insertPlain generation deadlines key value metadata inst =>
      obtain rfl := hdone
      apply hupdate
      rcases (s.shards i).insertPlain_cases generation deadlines key value metadata inst with
        ⟨-, -, hput⟩ | ⟨-, hsame⟩
      · rw [hput]
        exact (h i).put _ _
      · rw [hsame]
        exact h i
    | expire generation world now =>
      obtain rfl := hdone
      exact hupdate i _ ((h i).expireLocked generation world now)
  | remove key expected =>
    obtain ⟨-, rfl⟩ := Inv.atomically_eq_some hstep
    exact hupdate _ _ ((h _).removeSame key expected)
  | get task world key now =>
    unfold next at hstep
    dsimp only at hstep
    split at hstep
    · cases hstep
    · split at hstep <;>
      · obtain rfl := Option.some.inj hstep
        exact h
  | settle task =>
    obtain ⟨candidate, -, hrest⟩ := Option.bind_eq_some_iff.mp hstep
    obtain ⟨-, rfl⟩ := Inv.atomically_eq_some hrest
    exact hupdate _ _ ((h _).removeSame candidate.key (some candidate.entry))
  | beginClear =>
    obtain rfl := Option.some.inj hstep
    exact h

omit [LinearOrder K] in
/-- What is written before an event that ends it is not what a later event left. -/
theorem mem_later_of_clear {log later earlier later' earlier' : List (Event K V)} {key : K}
    {b : Binding V} (hclear : log = later ++ .clear :: earlier)
    (hput : log = later' ++ .put key b :: earlier') (hends : ∀ e ∈ later', ¬ e.ends key) :
    PlainMap.Event.put key b ∈ later := by
  induction later generalizing log later' with
  | nil =>
    rw [hclear] at hput
    cases later' with
    | nil => cases hput
    | cons e rest =>
      obtain ⟨rfl, -⟩ := List.cons.inj hput
      exact absurd trivial (hends _ List.mem_cons_self)
  | cons e later ih =>
    rw [hclear] at hput
    cases later' with
    | nil =>
      obtain ⟨rfl, -⟩ := List.cons.inj hput
      exact List.mem_cons_self
    | cons e' rest =>
      obtain ⟨rfl, hrest⟩ := List.cons.inj hput
      exact List.mem_cons_of_mem e
        (ih rfl hrest fun x hx => hends x (List.mem_cons_of_mem e hx))

/-- **The sharded store refines a plain map with clear.** In every run the shards record the
weights they store. When no insertion brings back a representation that a `get` is about to
remove, a read answers what the latest write of the key bound, if nothing ended it since and
it is available; nothing written before a clear is read after it; and what was removed for
being unavailable was. -/
theorem sharded_refines_plain_map (layout : Layout K) {actions : List (Action K V)}
    {s : State K V} (hrun : Run.exec (next layout) init actions = some s) :
    (∀ i, (s.shards i).weight
      = ((s.shards i).entries.values.map fun stored => stored.entry.metadata.weight).sum) ∧
    (Run.Along (next layout) (fun s a => ¬ Restores s a) init actions →
      Justified s.log ∧
      ∀ world key now, s.held (layout.route key) = none → ∀ entry,
        (s.read layout world key now = some entry ↔ ∃ deadlines later earlier,
          s.log = later ++ .put key ⟨entry, deadlines⟩ :: earlier ∧
          (∀ event ∈ later, ¬ event.ends key) ∧
          Binding.unavailable ⟨entry, deadlines⟩ world now = false) ∧
        (∀ later earlier, s.log = later ++ .clear :: earlier →
          s.read layout world key now = some entry →
          ∃ deadlines, PlainMap.Event.put key ⟨entry, deadlines⟩ ∈ later)) := by
  refine ⟨?_, fun hfresh => ?_⟩
  · exact Run.exec_invariant (I := fun s : State K V => ∀ i, (s.shards i).Weighed)
      (fun _ _ _ h hstep => weighed_step h hstep)
      (show ∀ i, ((init : State K V).shards i).Weighed from fun _ => rfl) hrun
  · have hinv : Inv layout s := Run.exec_invariant_along
      (fun _ _ _ h hok hstep => h.step hstep hok) (Inv.init layout) hfresh hrun
    refine ⟨hinv.justified, fun world key now hfree entry => ⟨?_, ?_⟩⟩
    · rw [hinv.read_iff hfree]
      constructor
      · rintro ⟨deadlines, hcontents, havailable⟩
        obtain ⟨later, earlier, hlog, hlater⟩ := PlainMap.contents_eq_some_iff.mp hcontents
        exact ⟨deadlines, later, earlier, hlog, hlater, havailable⟩
      · rintro ⟨deadlines, later, earlier, hlog, hlater, havailable⟩
        exact ⟨deadlines, PlainMap.contents_eq_some_iff.mpr ⟨later, earlier, hlog, hlater⟩,
          havailable⟩
    · intro later earlier hclear hread
      obtain ⟨deadlines, hcontents, -⟩ := (hinv.read_iff hfree entry).mp hread
      obtain ⟨later', earlier', hput, hends⟩ := PlainMap.contents_eq_some_iff.mp hcontents
      exact ⟨deadlines, mem_later_of_clear hclear hput hends⟩

/-! ## Closed runs -/

/-- One shard is used, and supplied clocks decide expiry. -/
def oneShard : Layout String := ⟨fun _ => firstShard, .clockDriven, .interoperable⟩

/-- A candidate for `k` that lives until tick 20, written at tick 10. -/
def written (value inst : Nat) (eligibility : Eligibility) : PreparedWrite String Nat where
  key := "k"
  entry := { Entry.intoFresh value (.fromTicks 10) (.fromTicks 20) inst with eligibility }
  time := ⟨.fromTicks 10, 0⟩
  event := .set

/-- A value written before a clear is gone, and the one written after it is read. -/
theorem sharded_refines_plain_map_cleared_run :
    ∃ s : State String Nat,
      Run.exec (next oneShard) init
        [.insertPrepared (fun _ => 0) (written 1 1 .ofLocal) .any, .finish 0, .beginClear,
          .insertPrepared (fun _ => 0) (written 2 2 .ofLocal) .any, .finish 0] = some s ∧
      s.read oneShard ⟨0, 0⟩ "k" none = some (written 2 2 .ofLocal).entry ∧
      s.read oneShard ⟨0, 0⟩ "k" none ≠ some (written 1 1 .ofLocal).entry := by
  refine ⟨_, rfl, rfl, fun hread => ?_⟩
  have hfresh : Run.Along (next oneShard) (fun s a => ¬ Restores s a) init
      [.insertPrepared (fun _ => 0) (written 1 1 .ofLocal) .any, .finish 0, .beginClear,
        .insertPrepared (fun _ => 0) (written 2 2 .ofLocal) .any, .finish 0] := by
    refine Run.along_cons ?_ rfl (Run.along_cons id rfl (Run.along_cons id rfl
      (Run.along_cons ?_ rfl (Run.along_cons id rfl (Run.along_nil _ _)))))
    · rintro ⟨task, c, hc, -⟩
      cases hc
    · rintro ⟨task, c, hc, -⟩
      cases hc
  obtain ⟨deadlines, hmem⟩ :=
    (((sharded_refines_plain_map oneShard rfl).2 hfresh).2 ⟨0, 0⟩ "k" none rfl _).2
      [.put "k" ⟨(written 2 2 .ofLocal).entry, .interoperable none⟩]
      [.put "k" ⟨(written 1 1 .ofLocal).entry, .interoperable none⟩] rfl hread
  have hput := List.mem_singleton.mp hmem
  have hentry := congrArg (fun e : Event String Nat => match e with
    | .put _ b => b.entry.inst
    | .drop .. | .clear => 0) hput
  cases hentry

/-- A copy hydrated under an older continuity epoch was inserted last and is alive, and a read
still answers nothing. -/
theorem hydrated_copy_not_read :
    ∃ s : State String Nat,
      Run.exec (next oneShard) init
        [.insertPrepared (fun _ => 0) (written 1 1 (.hydrated 1)) .any, .finish 0] = some s ∧
      s.log = [.put "k" ⟨(written 1 1 (.hydrated 1)).entry, .interoperable none⟩] ∧
      (Deadlines.interoperable none).physicallyExpired (written 1 1 (.hydrated 1)).entry.metadata
        (some (.fromTicks 15)) 0 = false ∧
      s.held 0 = none ∧ s.read oneShard ⟨2, 0⟩ "k" (some (.fromTicks 15)) = none :=
  ⟨_, rfl, rfl, by decide, rfl, rfl⟩

/-- Why insertions of what a `get` is about to remove are set apart: a `get` finds the entry
cleared, another caller inserts the same representation again, and the `get` removes that. -/
theorem restored_entry_removed :
    ∃ s : State String Nat,
      Run.exec (next oneShard) init
        [.insertPrepared (fun _ => 0) (written 1 1 .ofLocal) .any, .finish 0, .beginClear,
          .get 0 ⟨0, 0⟩ "k" none,
          .insertPrepared (fun _ => 0) (written 1 1 .ofLocal) .any, .finish 0,
          .settle 0] = some s ∧
      (∃ why earlier, s.log = .drop "k" why ::
        .put "k" ⟨(written 1 1 .ofLocal).entry, .interoperable none⟩ :: earlier ∧
        why = .retired ⟨0, 0⟩ none) ∧
      s.read oneShard ⟨0, 0⟩ "k" none = none :=
  ⟨_, rfl, ⟨_, _, rfl, rfl⟩, rfl⟩

end Shards

end Memory

end Amalgam
