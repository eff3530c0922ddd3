import Amalgam.Memory.Effect

/-!
# Amalgam — what the memory store holds

`Backend.lookup` is what L1 holds under a key, leaving aside whether it is expired. A write
that storage refuses only takes entries away; one that it does not refuse is what L1 holds
afterwards.
-/

namespace Amalgam

namespace Memory

variable {K V : Type} [LinearOrder K]

namespace Backend

/-- The representation held under a key; an entry of an earlier clear generation is not. -/
def lookup (b : Backend K V) (key : K) : Option (Entry V) :=
  match b with
  | .unbounded store =>
    ((store.entries.lookup key).filter fun stored => stored.generation = store.generation).map
      (·.entry)
  | .retained store => (store.entries.lookup key).map (·.entry)

/-- The allocations of all stored representations. -/
def instances : Backend K V → List Instance
  | .unbounded store => store.entries.values.map (·.entry.inst)
  | .retained store => store.entries.values.map (·.entry.inst)

/-- Whether storage declines an unconditional write that is physically alive. -/
def refuses (b : Backend K V) (world : World) (write : PreparedWrite K V) : Bool :=
  match b with
  | .unbounded store => store.generation = u64Max
  | .retained store =>
    let weight := write.entry.metadata.weight
    !store.limits.fits 1 weight ||
      ((store.expireUnderPressure world write.key weight write.time.now).2.plan write.key weight
        write.entry.metadata.priority).isNone

/-- Nothing is held that was not held before. -/
def Shrinks (b b' : Backend K V) : Prop :=
  ∀ key entry, b'.lookup key = some entry → b.lookup key = some entry

theorem Shrinks.refl (b : Backend K V) : b.Shrinks b := fun _ _ h => h

theorem Shrinks.trans {a b c : Backend K V} (hab : a.Shrinks b) (hbc : b.Shrinks c) :
    a.Shrinks c :=
  fun key entry h => hab key entry (hbc key entry h)

/-- The representation physically stored under a key. -/
def stored (b : Backend K V) (key : K) : Option (Entry V) :=
  match b with
  | .unbounded store => (store.entries.lookup key).map (·.entry)
  | .retained store => (store.entries.lookup key).map (·.entry)

theorem stored_inst_mem {b : Backend K V} {key : K} {entry : Entry V}
    (h : b.stored key = some entry) : entry.inst ∈ b.instances := by
  cases b <;>
  · obtain ⟨stored, hstored, rfl⟩ := Option.map_eq_some_iff.mp h
    exact List.mem_map.mpr ⟨stored, AList.mem_values.mpr ⟨key, hstored⟩, rfl⟩

theorem stored_of_lookup {b : Backend K V} {key : K} {entry : Entry V}
    (h : b.lookup key = some entry) : b.stored key = some entry := by
  cases b with
  | unbounded store =>
    obtain ⟨stored, hfilter, rfl⟩ := Option.map_eq_some_iff.mp h
    obtain ⟨hstored, -⟩ := Option.filter_eq_some_iff.mp hfilter
    exact Option.map_eq_some_iff.mpr ⟨stored, hstored, rfl⟩
  | retained store => exact h

/-- The allocation of a held representation is among the allocations in use. -/
theorem inst_mem_instances {b : Backend K V} {key : K} {entry : Entry V}
    (h : b.lookup key = some entry) : entry.inst ∈ b.instances :=
  stored_inst_mem (stored_of_lookup h)

end Backend

namespace Retention

theorem remove_shrinks (r : Retention K V) (key : K) :
    (Backend.retained r).Shrinks (.retained (r.remove key).2) := by
  intro k entry h
  unfold remove at h
  split at h
  · exact h
  · obtain ⟨stored, hstored, hentry⟩ := Option.map_eq_some_iff.mp h
    by_cases hk : k = key
    · rw [hk, AList.lookup_erase] at hstored
      cases hstored
    · rw [AList.lookup_erase_ne hk] at hstored
      exact Option.map_eq_some_iff.mpr ⟨stored, hstored, hentry⟩

theorem removeAll_shrinks {ι : Type} (f : ι → K) (keys : List ι) (r : Retention K V) :
    (Backend.retained r).Shrinks
      (.retained (keys.foldl (fun r i => (r.remove (f i)).2) r)) := by
  induction keys generalizing r with
  | nil => exact .refl _
  | cons i rest ih => exact (remove_shrinks r (f i)).trans (ih _)

theorem expireUnderPressure_shrinks (r : Retention K V) (world : World) (key : K) (weight : Nat)
    (now : Timestamp) :
    (Backend.retained r).Shrinks (.retained (r.expireUnderPressure world key weight now).2) := by
  unfold expireUnderPressure
  split
  · exact .refl _
  · exact removeAll_shrinks _ _ r

theorem store_lookup (r : Retention K V) (world : World) (key : K) (entry : Entry V) :
    (Backend.retained (r.store world key entry)).lookup key = some entry := by
  unfold store
  simp only [Backend.lookup, AList.lookup_insert, Option.map_some]

/-- A read takes out what it judges expired, and otherwise renews an access number. -/
theorem get_shrinks (r : Retention K V) (world : World) (key : K) (now : Option Timestamp) :
    (Backend.retained r).Shrinks (.retained (r.get world key now).2) := by
  unfold get
  dsimp only
  split
  · exact remove_shrinks r key
  split
  · exact .refl _
  · rename_i stored hstored
    intro k entry h
    by_cases hk : k = key
    · subst hk
      simp only [Backend.lookup, AList.lookup_insert, Option.map_some] at h
      cases h
      exact Option.map_eq_some_iff.mpr ⟨stored, hstored, rfl⟩
    · simp only [Backend.lookup, AList.lookup_insert_ne hk] at h
      exact h

theorem evict_shrinks (r : Retention K V) (victims : List K) :
    (Backend.retained r).Shrinks (.retained (r.evict victims).2) := by
  induction victims generalizing r with
  | nil => exact .refl _
  | cons victim rest ih => exact (remove_shrinks r victim).trans (ih _)

/-- After an admission the key holds the candidate, and no other key holds anything new. -/
theorem commit_lookup {r : Retention K V} {world : World} {write : PreparedWrite K V}
    {victims : List K} (retired : List (Retirement K V)) {key : K} {entry : Entry V}
    (h : (Backend.retained (r.commit world write victims retired).2).lookup key = some entry) :
    (key = write.key ∧ entry = write.entry) ∨ (Backend.retained r).lookup key = some entry := by
  by_cases hk : key = write.key
  · subst hk
    have hstore := store_lookup ((r.evict victims).2.remove write.key).2 world write.key write.entry
    exact Or.inl ⟨rfl, Option.some.inj (h.symm.trans hstore)⟩
  · unfold commit store at h
    simp only [Backend.lookup, AList.lookup_insert_ne hk] at h
    exact Or.inr (((evict_shrinks r victims).trans
      (remove_shrinks (r.evict victims).2 write.key)) key entry h)

end Retention

namespace Sharded

theorem removeSame_shrinks (s : Sharded K V) (key : K) (expected : Option (Entry V)) :
    (Backend.unbounded s).Shrinks (.unbounded (s.removeSame key expected).2) := by
  unfold removeSame
  split
  · exact .refl _
  split
  · intro k entry h
    by_cases hk : k = key
    · subst hk
      simp only [Backend.lookup, AList.lookup_erase, Option.filter_none, Option.map_none] at h
      cases h
    · simp only [Backend.lookup, AList.lookup_erase_ne hk] at h
      exact h
  · exact .refl _

theorem removeAll_shrinks {ι : Type} (f : ι → K) (keys : List ι) (s : Sharded K V) :
    (Backend.unbounded s).Shrinks
      (.unbounded (keys.foldl (fun s i => (s.removeSame (f i) none).2) s)) := by
  induction keys generalizing s with
  | nil => exact .refl _
  | cons i rest ih => exact (removeSame_shrinks s (f i) none).trans (ih _)

theorem get_shrinks (s : Sharded K V) (world : World) (key : K) (now : Option Timestamp) :
    (Backend.unbounded s).Shrinks (.unbounded (s.get world key now).2) := by
  unfold get
  split
  · exact .refl _
  split
  · exact .refl _
  · exact removeSame_shrinks s key _

end Sharded

namespace Backend

variable {owners : List RevisionId} {cells : Cells} {world : World}

variable (owners cells) in
/-- A refused write only takes entries away. -/
theorem insertPrepared_shrinks (b : Backend K V) (write : PreparedWrite K V)
    (h : b.refuses world write = true) :
    b.Shrinks (b.insertPrepared owners cells world write .any).2.1 := by
  cases b with
  | unbounded store =>
    have hmax : store.generation = u64Max := of_decide_eq_true h
    unfold insertPrepared Sharded.insertPrepared
    dsimp only
    rw [if_pos hmax]
    exact .refl _
  | retained store =>
    have hor : store.limits.fits 1 write.entry.metadata.weight = false ∨
        (store.expireUnderPressure world write.key write.entry.metadata.weight
          write.time.now).2.plan write.key write.entry.metadata.weight
          write.entry.metadata.priority = none := by
      simpa [refuses] using h
    have hpressure := store.expireUnderPressure_shrinks world write.key
      write.entry.metadata.weight write.time.now
    unfold insertPrepared Retention.insert Expected.matchesGeneration
    dsimp only
    rw [if_neg (by decide)]
    by_cases hfits : store.limits.fits 1 write.entry.metadata.weight = true
    · rw [if_neg (by rw [hfits]; decide)]
      have hplan := hor.resolve_left (by rw [hfits]; decide)
      rw [hplan]
      exact hpressure
    · rw [if_pos (by simpa using hfits)]
      exact .refl _

variable (owners cells) in
/-- A write that is not refused is what the store holds afterwards. -/
theorem insertPrepared_lookup (b : Backend K V) (write : PreparedWrite K V)
    (h : b.refuses world write = false) :
    (b.insertPrepared owners cells world write .any).2.1.lookup write.key = some write.entry := by
  cases b with
  | unbounded store =>
    have hmax : store.generation ≠ u64Max := of_decide_eq_false h
    unfold insertPrepared Sharded.insertPrepared Expected.matchesGeneration
    dsimp only
    rw [if_neg hmax, if_neg (by decide)]
    simp only [lookup, AList.lookup_insert, Option.filter_some, decide_true, if_true,
      Option.map_some]
  | retained store =>
    obtain ⟨hfits, hplan⟩ : store.limits.fits 1 write.entry.metadata.weight = true ∧
        ((store.expireUnderPressure world write.key write.entry.metadata.weight
          write.time.now).2.plan write.key write.entry.metadata.weight
          write.entry.metadata.priority).isSome = true := by
      simpa [refuses] using h
    obtain ⟨victims, hvictims⟩ := Option.isSome_iff_exists.mp hplan
    unfold insertPrepared Retention.insert Expected.matchesGeneration
    dsimp only
    rw [if_neg (by decide), if_neg (by rw [hfits]; decide), hvictims]
    exact Retention.store_lookup _ world write.key write.entry

end Backend

namespace Backend

theorem read_shrinks (b : Backend K V) (world : World) (key : K) (now : Option Timestamp) :
    b.Shrinks (b.read world key now).2 := by
  cases b with
  | unbounded store => exact store.get_shrinks world key now
  | retained store => exact store.get_shrinks world key now

theorem maintain_shrinks (b : Backend K V) (world : World) (shard : Fin 64)
    (now : Option Timestamp) : b.Shrinks (b.maintain world shard now) := by
  cases b with
  | unbounded store => exact Sharded.removeAll_shrinks _ _ store
  | retained store => exact Retention.removeAll_shrinks _ _ store

/-- What an insertion compares the held representation with. -/
def Unchanged (held : Option (Entry V)) : Option (Entry V) → Prop
  | none => held = none
  | some expected => ∃ entry, held = some entry ∧ entry.inst = expected.inst

theorem unchanged_of_matches {cells : Cells} {held expected : Option (Entry V)} {generation : Nat}
    (h : Expected.matchesGeneration cells held generation (expected.elim .absent .same) = true) :
    Unchanged held expected := by
  cases expected with
  | none => exact Option.isNone_iff_eq_none.mp h
  | some expected =>
    cases held with
    | none => cases h
    | some entry => exact ⟨entry, rfl, of_decide_eq_true h⟩

/-- A clear hides what was held, and brings nothing in where something was held. -/
theorem invalidateAll_lookup {b : Backend K V} {key : K} {entry : Entry V}
    (h : b.invalidateAll.lookup key = some entry) :
    b.lookup key = some entry ∨ b.lookup key = none := by
  cases b with
  | retained store => cases h
  | unbounded store =>
    obtain ⟨stored, hfilter, rfl⟩ := Option.map_eq_some_iff.mp h
    obtain ⟨hstored, -⟩ := Option.filter_eq_some_iff.mp hfilter
    have hlookup : store.entries.lookup key = some stored := hstored
    by_cases hgeneration : stored.generation = store.generation
    · exact .inl (by rw [lookup, hlookup, Option.filter_some, if_pos (by simpa using hgeneration),
        Option.map_some])
    · exact .inr (by rw [lookup, hlookup, Option.filter_some, if_neg (by simpa using hgeneration),
        Option.map_none])

/-- **Compare and set.** After `insert_if_unchanged` a key holds what it held, or the candidate
took the place of the expected representation. -/
theorem insertIfUnchanged_lookup {b : Backend K V} {owners : List RevisionId} {cells : Cells}
    {world : World} {write : PreparedWrite K V} {expected : Option (Entry V)} {key : K}
    {entry : Entry V}
    (h : (b.applyWrite owners cells world write (expected.elim .absent .same)).2.1.lookup key
      = some entry) :
    b.lookup key = some entry ∨
      (key = write.key ∧ entry = write.entry ∧ Unchanged (b.lookup key) expected) := by
  unfold applyWrite at h
  split at h
  · exact Or.inl h
  cases b with
  | unbounded store =>
    unfold insertPrepared Sharded.insertPrepared at h
    dsimp only at h
    split at h
    · exact Or.inl h
    split at h
    · exact Or.inl h
    rename_i hmatches
    have hheld : Expected.matchesGeneration cells ((unbounded store).lookup write.key)
        store.generation (expected.elim .absent .same) = true := by
      simpa [lookup] using hmatches
    by_cases hk : key = write.key
    · subst hk
      simp only [lookup, AList.lookup_insert, Option.filter_some, decide_true, if_true,
        Option.map_some] at h
      exact Or.inr ⟨rfl, (Option.some.inj h).symm, unchanged_of_matches hheld⟩
    · simp only [lookup, AList.lookup_insert_ne hk] at h
      exact Or.inl h
  | retained store =>
    unfold insertPrepared Retention.insert at h
    dsimp only at h
    split at h
    · exact Or.inl h
    rename_i hmatches
    have hheld : Expected.matchesGeneration cells ((retained store).lookup write.key)
        store.generation (expected.elim .absent .same) = true := by
      simpa [lookup] using hmatches
    split at h
    · exact Or.inl h
    have hpressure := store.expireUnderPressure_shrinks world write.key write.entry.metadata.weight
      write.time.now
    split at h
    · exact Or.inl (hpressure key entry h)
    · rcases Retention.commit_lookup (store.expireUnderPressure world write.key
        write.entry.metadata.weight write.time.now).1 h with ⟨rfl, rfl⟩ | hold
      · exact Or.inr ⟨rfl, rfl, unchanged_of_matches hheld⟩
      · exact Or.inl (hpressure key entry hold)

end Backend

/-! ## Where stored representations come from -/

namespace Backend

/-- What is stored under a key, with the clear generation it was stored under. A bounded store
drops everything with a clear, so it keeps no such number. -/
def slot (b : Backend K V) (key : K) : Option (Entry V × Nat) :=
  match b with
  | .unbounded store => (store.entries.lookup key).map fun stored => (stored.entry, stored.generation)
  | .retained store => (store.entries.lookup key).map fun stored => (stored.entry, 0)

/-- The generation under which a representation is stored now. -/
def stamps (b : Backend K V) (generation : Nat) : Prop :=
  match b with
  | .unbounded store => generation = store.generation ∧ store.generation ≠ u64Max
  | .retained _ => generation = 0

theorem stored_eq_slot (b : Backend K V) (key : K) : b.stored key = (b.slot key).map (·.1) := by
  cases b <;>
  · unfold stored slot
    rw [Option.map_map]
    rfl

def isBounded : Backend K V → Bool
  | .unbounded _ => false
  | .retained _ => true

/-- Whatever is stored was stored before, or is the written representation, stored now. -/
structure Fills (b b' : Backend K V) (written : Option (Entry V)) : Prop where
  kind : b'.isBounded = b.isBounded
  slots : ∀ key entry generation, b'.slot key = some (entry, generation) →
    b.slot key = some (entry, generation) ∨ (written = some entry ∧ b.stamps generation)

/-- Whatever is stored was stored before, or is the written representation. -/
def Gains (b b' : Backend K V) (written : Option (Entry V)) : Prop :=
  ∀ key entry, b'.stored key = some entry → b.stored key = some entry ∨ written = some entry

variable {written : Option (Entry V)}

theorem Gains.refl (b : Backend K V) : b.Gains b written := fun _ _ h => .inl h

theorem Gains.trans {a b c : Backend K V} (hab : a.Gains b written) (hbc : b.Gains c written) :
    a.Gains c written := by
  intro key entry h
  rcases hbc key entry h with hb | hw
  · exact hab key entry hb
  · exact .inr hw

theorem Fills.refl (b : Backend K V) : b.Fills b written := ⟨rfl, fun _ _ _ h => .inl h⟩

theorem Fills.trans {a b c : Backend K V} (hab : a.Fills b written) (hbc : b.Fills c written)
    (hstamps : ∀ generation, b.stamps generation → a.stamps generation) : a.Fills c written := by
  refine ⟨hbc.kind.trans hab.kind, fun key entry generation h => ?_⟩
  rcases hbc.slots key entry generation h with hb | ⟨hw, hstamp⟩
  · exact hab.slots key entry generation hb
  · exact .inr ⟨hw, hstamps generation hstamp⟩

theorem Fills.gains {b b' : Backend K V} (h : b.Fills b' written) : b.Gains b' written := by
  intro key entry hstored
  rw [stored_eq_slot] at hstored
  obtain ⟨⟨entry', generation⟩, hslot, rfl⟩ := Option.map_eq_some_iff.mp hstored
  rcases h.slots key entry' generation hslot with hold | ⟨hw, -⟩
  · exact .inl (by rw [stored_eq_slot, hold]; rfl)
  · exact .inr hw

/-- A bounded store stamps nothing. -/
theorem Fills.of_gains {r r' : Retention K V}
    (h : (Backend.retained r).Gains (.retained r') written) :
    (Backend.retained r).Fills (.retained r') written := by
  refine ⟨rfl, fun key entry generation hslot => ?_⟩
  obtain ⟨stored, hstored, heq⟩ := Option.map_eq_some_iff.mp hslot
  obtain ⟨rfl, rfl⟩ := Prod.mk.inj heq
  rcases h key stored.entry (Option.map_eq_some_iff.mpr ⟨stored, hstored, rfl⟩) with hold | hw
  · obtain ⟨old, hlookup, hentry⟩ := Option.map_eq_some_iff.mp hold
    exact .inl (Option.map_eq_some_iff.mpr ⟨old, hlookup, by rw [hentry]⟩)
  · exact .inr ⟨hw, rfl⟩

end Backend

namespace Retention

variable {written : Option (Entry V)}

theorem remove_gains (r : Retention K V) (key : K) :
    (Backend.retained r).Gains (.retained (r.remove key).2) written :=
  fun k entry h => .inl (remove_shrinks r key k entry h)

theorem removeAll_gains {ι : Type} (f : ι → K) (keys : List ι) (r : Retention K V) :
    (Backend.retained r).Gains
      (.retained (keys.foldl (fun r i => (r.remove (f i)).2) r)) written :=
  fun k entry h => .inl (removeAll_shrinks f keys r k entry h)

theorem evict_gains (r : Retention K V) (victims : List K) :
    (Backend.retained r).Gains (.retained (r.evict victims).2) written := by
  induction victims generalizing r with
  | nil => exact .refl _
  | cons victim rest ih => exact (remove_gains r victim).trans (ih _)

theorem get_gains (r : Retention K V) (world : World) (key : K) (now : Option Timestamp) :
    (Backend.retained r).Gains (.retained (r.get world key now).2) written := by
  unfold get
  dsimp only
  split
  · exact remove_gains r key
  · split
    · exact .refl _
    · rename_i stored hstored
      -- A hit only renews the access number of what is there.
      intro k entry h
      refine .inl ?_
      by_cases hk : k = key
      · subst hk
        simp only [Backend.stored, AList.lookup_insert, Option.map_some] at h
        obtain rfl := Option.some.inj h
        exact Option.map_eq_some_iff.mpr ⟨stored, hstored, rfl⟩
      · simp only [Backend.stored, AList.lookup_insert_ne hk] at h
        exact h

theorem get_stored (r : Retention K V) {world : World} {key : K} {now : Option Timestamp}
    {entry : Entry V} (h : (r.get world key now).1.entry = some entry) :
    (Backend.retained r).stored key = some entry := by
  unfold get at h
  dsimp only at h
  split at h
  · cases h
  · split at h
    · cases h
    · rename_i stored hstored
      exact Option.map_eq_some_iff.mpr ⟨stored, hstored, Option.some.inj h⟩

theorem commit_gains (r : Retention K V) (world : World) (write : PreparedWrite K V)
    (victims : List K) (retired : List (Retirement K V)) :
    (Backend.retained r).Gains (.retained (r.commit world write victims retired).2)
      (some write.entry) := by
  have hevict : (Backend.retained r).Gains (.retained (r.evict victims).2) (some write.entry) :=
    evict_gains r victims
  have hremove : (Backend.retained (r.evict victims).2).Gains
      (.retained ((r.evict victims).2.remove write.key).2) (some write.entry) :=
    remove_gains _ write.key
  refine (hevict.trans hremove).trans ?_
  intro k entry h
  by_cases hk : k = write.key
  · subst hk
    have hstore := store_lookup ((r.evict victims).2.remove write.key).2 world write.key
      write.entry
    exact .inr (hstore.symm.trans h)
  · refine .inl ?_
    unfold commit store at h
    simp only [Backend.stored, AList.lookup_insert_ne hk] at h
    exact h

theorem insert_gains (r : Retention K V) (owners : List RevisionId) (cells : Cells)
    (world : World) (write : PreparedWrite K V) (expected : Expected V) :
    (Backend.retained r).Gains (.retained (r.insert owners cells world write expected).2.1)
      (some write.entry) := by
  have hpressure : (Backend.retained r).Gains (.retained (r.expireUnderPressure world write.key
      write.entry.metadata.weight write.time.now).2) (some write.entry) :=
    fun k entry h => .inl (r.expireUnderPressure_shrinks world _ _ _ k entry h)
  unfold insert
  dsimp only
  split
  · exact .refl _
  · split
    · exact .refl _
    · split
      · exact hpressure
      · rename_i victims _
        exact hpressure.trans (commit_gains _ world write victims
          (r.expireUnderPressure world write.key write.entry.metadata.weight write.time.now).1)

end Retention

namespace Sharded

variable {written : Option (Entry V)}

theorem removeSame_fills (s : Sharded K V) (key : K) (expected : Option (Entry V)) :
    (Backend.unbounded s).Fills (.unbounded (s.removeSame key expected).2) written := by
  unfold removeSame
  split
  · exact .refl _
  · split
    · refine ⟨rfl, fun k entry generation h => .inl ?_⟩
      by_cases hk : k = key
      · subst hk
        simp only [Backend.slot, AList.lookup_erase, Option.map_none] at h
        cases h
      · simp only [Backend.slot, AList.lookup_erase_ne hk] at h
        exact h
    · exact .refl _

theorem removeSame_generation (s : Sharded K V) (key : K) (expected : Option (Entry V)) :
    (s.removeSame key expected).2.generation = s.generation := by
  unfold removeSame
  split
  · rfl
  · split <;> rfl

theorem removeAll_fills {ι : Type} (f : ι → K) (keys : List ι) (s : Sharded K V) :
    (Backend.unbounded s).Fills
      (.unbounded (keys.foldl (fun s i => (s.removeSame (f i) none).2) s)) written := by
  induction keys generalizing s with
  | nil => exact .refl _
  | cons i rest ih =>
    refine (removeSame_fills s (f i) none).trans (ih _) fun generation h => ?_
    have hsame := removeSame_generation s (f i) none
    rw [Backend.stamps, hsame] at h
    exact h

theorem get_fills (s : Sharded K V) (world : World) (key : K) (now : Option Timestamp) :
    (Backend.unbounded s).Fills (.unbounded (s.get world key now).2) written := by
  unfold get
  split
  · exact .refl _
  · split
    · exact .refl _
    · exact removeSame_fills s key _

theorem get_stored (s : Sharded K V) {world : World} {key : K} {now : Option Timestamp}
    {entry : Entry V} (h : (s.get world key now).1.entry = some entry) :
    (Backend.unbounded s).stored key = some entry := by
  unfold get at h
  split at h
  · cases h
  · rename_i stored hstored
    split at h
    · exact Option.map_eq_some_iff.mpr ⟨stored, hstored, Option.some.inj h⟩
    · cases h

/-- Putting one representation under a key fills only its slot. -/
theorem put_fills {s s' : Sharded K V} (key : K) (entry : Entry V) (deadlines : Deadlines)
    (hmax : s.generation ≠ u64Max)
    (h : s'.entries = s.entries.insert key ⟨entry, s.generation, deadlines⟩) :
    (Backend.unbounded s).Fills (.unbounded s') (some entry) := by
  refine ⟨rfl, fun k other generation hk => ?_⟩
  simp only [Backend.slot, h] at hk
  by_cases hkey : k = key
  · subst hkey
    rw [AList.lookup_insert, Option.map_some] at hk
    obtain ⟨rfl, rfl⟩ := Prod.mk.inj (Option.some.inj hk)
    exact .inr ⟨rfl, rfl, hmax⟩
  · rw [AList.lookup_insert_ne hkey] at hk
    exact .inl hk

theorem insertPrepared_fills (s : Sharded K V) (owners : List RevisionId) (cells : Cells)
    (write : PreparedWrite K V) (expected : Expected V) :
    (Backend.unbounded s).Fills (.unbounded (s.insertPrepared owners cells write expected).2.1)
      (some write.entry) := by
  unfold insertPrepared
  dsimp only
  split
  · exact .refl _
  · rename_i hmax
    split
    · exact .refl _
    · exact put_fills write.key write.entry _ hmax rfl

theorem insertPlain_fills (s : Sharded K V) (owners : List RevisionId) (cells : Cells) (key : K)
    (value : V) (metadata : PlainMetadata) (time : WriteTime) (inst : Instance) :
    (Backend.unbounded s).Fills
      (.unbounded (s.insertPlain owners cells key value metadata time inst).2.1)
      (some (Entry.intoFresh value metadata.created metadata.expires inst)) := by
  unfold insertPlain
  dsimp only
  split
  · exact .refl _
  · rename_i hmax
    exact put_fills key (Entry.intoFresh value metadata.created metadata.expires inst) _ hmax rfl

end Sharded

namespace Backend

variable {written : Option (Entry V)}

theorem insertPrepared_fills (b : Backend K V) (owners : List RevisionId) (cells : Cells)
    (world : World) (write : PreparedWrite K V) (expected : Expected V) :
    b.Fills (b.insertPrepared owners cells world write expected).2.1 (some write.entry) := by
  cases b with
  | unbounded store => exact store.insertPrepared_fills owners cells write expected
  | retained store => exact .of_gains (store.insert_gains owners cells world write expected)

theorem applyWrite_fills (b : Backend K V) (owners : List RevisionId) (cells : Cells)
    (world : World) (write : PreparedWrite K V) (expected : Expected V) :
    b.Fills (b.applyWrite owners cells world write expected).2.1 (some write.entry) := by
  unfold applyWrite
  split
  · exact .refl _
  · exact b.insertPrepared_fills owners cells world write expected

theorem applyWrite_gains (b : Backend K V) (owners : List RevisionId) (cells : Cells)
    (world : World) (write : PreparedWrite K V) (expected : Expected V) :
    b.Gains (b.applyWrite owners cells world write expected).2.1 (some write.entry) :=
  (b.applyWrite_fills owners cells world write expected).gains

theorem insertPlainBorrowed_fills (b : Backend K V) (owners : List RevisionId) (cells : Cells)
    (world : World) (key : K) (value : V) (metadata : Sharded.PlainMetadata) (time : WriteTime)
    (inst : Instance) :
    b.Fills (b.insertPlainBorrowed owners cells world key value metadata time inst).2.1
      (some (Entry.intoFresh value metadata.created metadata.expires inst)) := by
  cases b with
  | retained store =>
    let entry := Entry.intoFresh value metadata.created metadata.expires inst
    exact (Backend.retained store).applyWrite_fills owners cells world ⟨key, entry, time, .set⟩
      .mutation
  | unbounded store =>
    unfold insertPlainBorrowed
    dsimp only
    split
    · exact .refl _
    · exact store.insertPlain_fills owners cells key value metadata time inst

theorem removed_fills (b : Backend K V) (key : K) (expected : Option (Entry V)) :
    b.Fills (b.removed key expected).2 written := by
  cases b with
  | unbounded store => exact store.removeSame_fills key expected
  | retained store =>
    unfold removed
    dsimp only
    split
    · exact .refl _
    · exact .of_gains (store.remove_gains key)

theorem read_fills (b : Backend K V) (world : World) (key : K) (now : Option Timestamp) :
    b.Fills (b.read world key now).2 written := by
  cases b with
  | unbounded store => exact store.get_fills world key now
  | retained store => exact .of_gains (store.get_gains world key now)

variable (written) in
theorem read_gains (b : Backend K V) (world : World) (key : K) (now : Option Timestamp) :
    b.Gains (b.read world key now).2 written :=
  (b.read_fills world key now).gains

theorem maintain_fills (b : Backend K V) (world : World) (shard : Fin 64)
    (now : Option Timestamp) : b.Fills (b.maintain world shard now) written := by
  cases b with
  | unbounded store => exact Sharded.removeAll_fills _ _ store
  | retained store => exact .of_gains (Retention.removeAll_gains _ _ store)

theorem maintain_gains (b : Backend K V) (world : World) (shard : Fin 64)
    (now : Option Timestamp) : b.Gains (b.maintain world shard now) written :=
  (b.maintain_fills world shard now).gains

theorem invalidateAll_fills (b : Backend K V) : b.Fills b.invalidateAll written := by
  cases b with
  | unbounded store => exact ⟨rfl, fun _ _ _ h => .inl h⟩
  | retained store =>
    refine ⟨rfl, fun key entry generation h => ?_⟩
    simp only [invalidateAll, Retention.invalidateAll, slot, AList.lookup_empty,
      Option.map_none] at h
    cases h

theorem invalidateAll_gains (b : Backend K V) : b.Gains b.invalidateAll written :=
  b.invalidateAll_fills.gains

/-- A read returns something that is stored. -/
theorem read_stored {b : Backend K V} {world : World} {key : K} {now : Option Timestamp}
    {entry : Entry V} (h : (b.read world key now).1 = some entry) : b.stored key = some entry := by
  cases b with
  | unbounded store => exact store.get_stored h
  | retained store => exact store.get_stored h

/-- A read returns something that is held. -/
theorem read_lookup {b : Backend K V} {world : World} {key : K} {now : Option Timestamp}
    {entry : Entry V} (h : (b.read world key now).1 = some entry) : b.lookup key = some entry := by
  cases b with
  | unbounded store =>
    have hget : (store.get world key now).1.entry = some entry := h
    unfold Sharded.get at hget
    split at hget
    · cases hget
    · rename_i stored hstored
      split at hget
      · rename_i hretired
        have hgeneration : stored.generation = store.generation := by
          by_contra hne
          rw [Sharded.Stored.retirementReason, if_pos hne] at hretired
          cases hretired
        refine Option.map_eq_some_iff.mpr ⟨stored, ?_, Option.some.inj hget⟩
        exact Option.filter_eq_some_iff.mpr ⟨hstored, decide_eq_true hgeneration⟩
      · cases hget
  | retained store => exact store.get_stored h

/-- A read returns something that may be read. -/
theorem read_eligible {b : Backend K V} {world : World} {key : K} {now : Option Timestamp}
    {entry : Entry V} (h : (b.read world key now).1 = some entry) :
    entry.isReadEligible world.epoch = true := by
  cases b with
  | unbounded store =>
    have hget : (store.get world key now).1.entry = some entry := h
    unfold Sharded.get at hget
    split at hget
    · cases hget
    · rename_i stored _
      split at hget
      · rename_i hretired
        obtain rfl : stored.entry = entry := Option.some.inj hget
        by_contra hineligible
        rw [Bool.not_eq_true] at hineligible
        unfold Sharded.Stored.retirementReason at hretired
        rw [hineligible] at hretired
        split at hretired <;> cases hretired
      · cases hget
  | retained store =>
    have hget : (store.get world key now).1.entry = some entry := h
    unfold Retention.get at hget
    dsimp only at hget
    split at hget
    · cases hget
    · rename_i hkept
      split at hget
      · cases hget
      · rename_i stored hstored
        obtain rfl : stored.entry = entry := Option.some.inj hget
        have hlookup : store.entries.lookup key = some stored := hstored
        rw [hlookup, Option.bind_some, Option.map_eq_none_iff] at hkept
        by_contra hineligible
        rw [Bool.not_eq_true] at hineligible
        unfold Stored.retirementReason at hkept
        rw [hineligible] at hkept
        cases hkept

end Backend

/-- The representation an operation brings into storage, if it is admitted. -/
def Op.written : Op K V → Option (Entry V)
  | .applyOrigin write _ | .applyInsert write | .insertValueBorrowed write
  | .applyExpire write _ | .insertAt write | .insertIfUnchanged write _ => some write.entry
  | .insertPlainBorrowed _ value metadata _ inst =>
    some (Entry.intoFresh value metadata.created metadata.expires inst)
  | .captureOrigin .. | .dropOrigin _ | .skipOrigin .. | .detachRemove _ | .invalidateOrigin _
  | .invalidateAll | .remove .. | .get .. | .maintain .. | .newFlight | .dropFlight _
  | .observe _ => none

theorem withOrigins_fills (b : Backend K V) (o : Origins K) (written : Option (Entry V)) :
    b.Fills (b.withOrigins o) written := by
  cases b <;> exact ⟨rfl, fun _ _ _ h => .inl h⟩

/-- **Nothing is stored that no operation wrote.** -/
theorem fills_of_next {s t : State K V} {op : Op K V} (h : next s op = some t) :
    s.backend.Fills t.backend op.written := by
  obtain ⟨⟨out, t'⟩, hperform, rfl⟩ := Option.map_eq_some_iff.mp h
  show s.backend.Fills t'.backend op.written
  cases op with
  | captureOrigin key provided =>
    simp only [perform] at hperform
    split at hperform
    · obtain ⟨-, rfl⟩ := Prod.ext_iff.mp (Option.some.inj hperform)
      unfold captureRevision
      split
      · exact .refl _
      · split
        · exact .refl _
        · exact withOrigins_fills _ _ _
    · cases hperform
  | dropOrigin id =>
    obtain ⟨origin, -, hout⟩ := Option.map_eq_some_iff.mp hperform
    obtain ⟨-, rfl⟩ := Prod.ext_iff.mp hout
    exact withOrigins_fills _ _ _
  | applyOrigin write id =>
    obtain ⟨origin, -, hout⟩ := Option.map_eq_some_iff.mp hperform
    obtain ⟨-, rfl⟩ := Prod.ext_iff.mp hout
    exact s.backend.applyWrite_fills _ _ _ write _
  | skipOrigin key id =>
    obtain ⟨origin, -, hout⟩ := Option.map_eq_some_iff.mp hperform
    obtain ⟨-, rfl⟩ := Prod.ext_iff.mp hout
    unfold skipRevision
    split <;> exact .refl _
  | applyInsert write =>
    obtain ⟨-, rfl⟩ := Prod.ext_iff.mp (Option.some.inj hperform)
    exact s.backend.applyWrite_fills _ _ _ write _
  | insertValueBorrowed write =>
    obtain ⟨-, rfl⟩ := Prod.ext_iff.mp (Option.some.inj hperform)
    exact s.backend.applyWrite_fills _ _ _ write .mutation
  | insertPlainBorrowed key value metadata time inst =>
    obtain ⟨-, rfl⟩ := Prod.ext_iff.mp (Option.some.inj hperform)
    exact s.backend.insertPlainBorrowed_fills _ _ _ key value metadata time inst
  | applyExpire write expected =>
    obtain ⟨-, rfl⟩ := Prod.ext_iff.mp (Option.some.inj hperform)
    exact s.backend.applyWrite_fills _ _ _ write _
  | detachRemove key =>
    obtain ⟨-, rfl⟩ := Prod.ext_iff.mp (Option.some.inj hperform)
    exact s.backend.removed_fills key none
  | invalidateOrigin key =>
    obtain ⟨-, rfl⟩ := Prod.ext_iff.mp (Option.some.inj hperform)
    exact .refl _
  | invalidateAll =>
    obtain ⟨-, rfl⟩ := Prod.ext_iff.mp (Option.some.inj hperform)
    exact s.backend.invalidateAll_fills
  | insertAt write =>
    obtain ⟨-, rfl⟩ := Prod.ext_iff.mp (Option.some.inj hperform)
    exact s.backend.applyWrite_fills _ _ _ write _
  | insertIfUnchanged write expected =>
    obtain ⟨-, rfl⟩ := Prod.ext_iff.mp (Option.some.inj hperform)
    exact s.backend.applyWrite_fills _ _ _ write _
  | remove key expected =>
    obtain ⟨-, rfl⟩ := Prod.ext_iff.mp (Option.some.inj hperform)
    exact s.backend.removed_fills key expected
  | get key now =>
    obtain ⟨-, rfl⟩ := Prod.ext_iff.mp (Option.some.inj hperform)
    exact s.backend.read_fills s.world key now
  | maintain shard now =>
    obtain ⟨-, rfl⟩ := Prod.ext_iff.mp (Option.some.inj hperform)
    exact s.backend.maintain_fills s.world shard now
  | newFlight =>
    obtain ⟨-, rfl⟩ := Prod.ext_iff.mp (Option.some.inj hperform)
    exact .refl _
  | dropFlight r =>
    simp only [perform] at hperform
    split at hperform
    · obtain ⟨-, rfl⟩ := Prod.ext_iff.mp (Option.some.inj hperform)
      exact .refl _
    · cases hperform
  | observe world =>
    obtain ⟨-, rfl⟩ := Prod.ext_iff.mp (Option.some.inj hperform)
    exact .refl _

/-! ## What is visible -/

namespace Backend

/-- Nothing is stored under a generation that is still to come, or under the last one. -/
def Dated (b : Backend K V) : Prop :=
  ∀ key entry generation, b.slot key = some (entry, generation) →
    generation ≤ b.generation ∧ generation < u64Max

/-- A representation that is stored under this generation is held. -/
def shows (b : Backend K V) (generation : Nat) : Prop :=
  b.isBounded = true ∨ generation = b.generation

theorem lookup_eq_some_iff {b : Backend K V} {key : K} {entry : Entry V} :
    b.lookup key = some entry ↔
      ∃ generation, b.slot key = some (entry, generation) ∧ b.shows generation := by
  cases b with
  | unbounded store =>
    constructor
    · intro h
      obtain ⟨stored, hfilter, rfl⟩ := Option.map_eq_some_iff.mp h
      obtain ⟨hstored, hgeneration⟩ := Option.filter_eq_some_iff.mp hfilter
      exact ⟨stored.generation, Option.map_eq_some_iff.mpr ⟨stored, hstored, rfl⟩,
        .inr (of_decide_eq_true hgeneration)⟩
    · rintro ⟨generation, hslot, hshows⟩
      obtain ⟨stored, hstored, heq⟩ := Option.map_eq_some_iff.mp hslot
      obtain ⟨rfl, rfl⟩ := Prod.mk.inj heq
      refine Option.map_eq_some_iff.mpr ⟨stored, Option.filter_eq_some_iff.mpr ⟨hstored, ?_⟩, rfl⟩
      rcases hshows with hbounded | hgeneration
      · cases hbounded
      · exact decide_eq_true hgeneration
  | retained store =>
    constructor
    · intro h
      obtain ⟨stored, hstored, rfl⟩ := Option.map_eq_some_iff.mp h
      exact ⟨0, Option.map_eq_some_iff.mpr ⟨stored, hstored, rfl⟩, .inl rfl⟩
    · rintro ⟨generation, hslot, -⟩
      obtain ⟨stored, hstored, heq⟩ := Option.map_eq_some_iff.mp hslot
      obtain ⟨rfl, -⟩ := Prod.mk.inj heq
      exact Option.map_eq_some_iff.mpr ⟨stored, hstored, rfl⟩

omit [LinearOrder K] in
theorem stamps_lt {b : Backend K V} {generation : Nat} (h : b.stamps generation)
    (hmax : b.generation ≤ u64Max) : generation ≤ b.generation ∧ generation < u64Max := by
  cases b with
  | unbounded store =>
    obtain ⟨rfl, hne⟩ := h
    exact ⟨Nat.le_refl _, Nat.lt_of_le_of_ne hmax hne⟩
  | retained store =>
    obtain rfl : generation = 0 := h
    exact ⟨Nat.zero_le _, by decide⟩

/-- **A clear leaves nothing to be seen.** -/
theorem invalidateAll_lookup_none {b : Backend K V} (h : b.Dated) (key : K) :
    b.invalidateAll.lookup key = none := by
  cases hlookup : b.invalidateAll.lookup key with
  | none => rfl
  | some entry =>
    obtain ⟨generation, hslot, hshows⟩ := lookup_eq_some_iff.mp hlookup
    cases b with
    | unbounded store =>
      obtain ⟨hle, hlt⟩ := h key entry generation hslot
      rcases hshows with hbounded | hgeneration
      · cases hbounded
      · have hnext := lt_saturatingSucc hlt hle
        have hclear : generation = saturatingSucc store.generation := hgeneration
        exact absurd hnext (by show ¬ generation < saturatingSucc store.generation; omega)
    | retained store =>
      simp only [invalidateAll, Retention.invalidateAll, slot, AList.lookup_empty,
        Option.map_none] at hslot
      cases hslot

end Backend

theorem generation_of_next {s t : State K V} {op : Op K V} (h : next s op = some t) :
    t.backend.generation = s.backend.generation ∨
      t.backend = s.backend.invalidateAll := by
  cases effect_of_next h with
  | quiet frame _ => exact .inl frame.generation
  | advanced _ frame _ => exact .inl frame.generation
  | cleared ht => exact .inr (by rw [ht])
  | captured _ _ _ _ origins _ _ _ _ ht =>
    exact .inl (by rw [ht]; exact s.backend.withOrigins_generation origins)
  | forgot _ _ _ ht =>
    exact .inl (by rw [ht]; exact s.backend.withOrigins_generation _)
  | lent ht => exact .inl (by rw [ht])
  | released _ ht => exact .inl (by rw [ht])

/-- The clear generation fits its counter, and everything stored is dated. -/
structure Generations (b : Backend K V) : Prop where
  le : b.generation ≤ u64Max
  dated : b.Dated

theorem Generations.next {s t : State K V} {op : Op K V} (hs : Generations s.backend)
    (h : next s op = some t) : Generations t.backend := by
  have hfills := fills_of_next h
  have hle : s.backend.generation ≤ t.backend.generation ∧ t.backend.generation ≤ u64Max := by
    rcases generation_of_next h with hsame | hclear
    · rw [hsame]
      exact ⟨Nat.le_refl _, hs.le⟩
    · rw [hclear, Backend.invalidateAll_generation]
      exact ⟨le_saturatingSucc hs.le, saturatingSucc_le _⟩
  refine ⟨hle.2, fun key entry generation hslot => ?_⟩
  rcases hfills.slots key entry generation hslot with hold | ⟨-, hstamp⟩
  · have hdated := hs.dated key entry generation hold
    omega
  · have hdated := Backend.stamps_lt hstamp hs.le
    omega

/-- What is held after an operation was held before it, or was written by it. -/
theorem lookup_of_next {s t : State K V} {op : Op K V} (hs : Generations s.backend)
    (h : next s op = some t) {key : K} {entry : Entry V}
    (hlookup : t.backend.lookup key = some entry) :
    s.backend.lookup key = some entry ∨ op.written = some entry := by
  have hfills := fills_of_next h
  obtain ⟨generation, hslot, hshows⟩ := Backend.lookup_eq_some_iff.mp hlookup
  rcases hfills.slots key entry generation hslot with hold | ⟨hwritten, -⟩
  · rcases generation_of_next h with hsame | hclear
    · refine .inl (Backend.lookup_eq_some_iff.mpr ⟨generation, hold, ?_⟩)
      unfold Backend.shows at hshows ⊢
      rw [hfills.kind, hsame] at hshows
      exact hshows
    · rw [hclear, Backend.invalidateAll_lookup_none hs.dated] at hlookup
      cases hlookup
  · exact .inr hwritten

theorem gains_of_next {s t : State K V} {op : Op K V} (h : next s op = some t) :
    s.backend.Gains t.backend op.written :=
  (fills_of_next h).gains

end Memory

end Amalgam
