import Amalgam.Memory.Store

/-!
# Amalgam — what store operations do to revisions

Storage changes in many ways, the revisions in few. `Verdict` reads off `apply_write` once:
how a candidate was judged and which counter moved. `Effect` does the same for every
operation of the store, so that later proofs about origins never open the store again.
-/

namespace Amalgam

namespace Memory

variable {K V : Type}

/-- The candidate passed the comparison with the expected representation; it may still have
been refused for capacity. -/
def MemoryAdmission.compared : MemoryAdmission → Bool
  | .rejected .versionChanged => false
  | .rejected .physicallyExpired => false
  | .rejected .generationExhausted => false
  | _ => true

theorem MemoryAdmission.compared_of_stored {a : MemoryAdmission} (h : a.stored = true) :
    a.compared = true := by
  cases a with
  | admitted => rfl
  | replaced => rfl
  | rejected reason => cases h

/-! ## Storage work leaves the registry alone -/

/-- Same registry, same clear generation. -/
structure Backend.Keeps (b b' : Backend K V) : Prop where
  origins : b'.origins = b.origins
  generation : b'.generation = b.generation

theorem Backend.Keeps.refl (b : Backend K V) : b.Keeps b := ⟨rfl, rfl⟩

theorem Backend.Keeps.trans {a b c : Backend K V} (hab : a.Keeps b) (hbc : b.Keeps c) :
    a.Keeps c :=
  ⟨hbc.origins.trans hab.origins, hbc.generation.trans hab.generation⟩

variable [LinearOrder K]

namespace Retention

theorem remove_keeps (r : Retention K V) (key : K) :
    (Backend.retained r).Keeps (.retained (r.remove key).2) := by
  unfold remove
  split
  · exact .refl _
  · exact ⟨rfl, rfl⟩

theorem removeAll_keeps {ι : Type} (f : ι → K) (keys : List ι) (r : Retention K V) :
    (Backend.retained r).Keeps
      (.retained (keys.foldl (fun r i => (r.remove (f i)).2) r)) := by
  induction keys generalizing r with
  | nil => exact .refl _
  | cons i rest ih => exact (remove_keeps r (f i)).trans (ih _)

theorem removeExpired_keeps (r : Retention K V) (world : World) (now : Option Timestamp) :
    (Backend.retained r).Keeps (.retained (r.removeExpired world now).2) :=
  removeAll_keeps _ _ r

theorem get_keeps (r : Retention K V) (world : World) (key : K) (now : Option Timestamp) :
    (Backend.retained r).Keeps (.retained (r.get world key now).2) := by
  unfold get
  dsimp only
  split
  · exact remove_keeps r key
  · split
    · exact ⟨rfl, rfl⟩
    · exact ⟨rfl, rfl⟩

theorem expireUnderPressure_keeps (r : Retention K V) (world : World) (key : K) (weight : Nat)
    (now : Timestamp) :
    (Backend.retained r).Keeps (.retained (r.expireUnderPressure world key weight now).2) := by
  unfold expireUnderPressure
  split
  · exact .refl _
  · exact removeExpired_keeps r world (some now)

theorem evict_keeps (r : Retention K V) (victims : List K) :
    (Backend.retained r).Keeps (.retained (r.evict victims).2) := by
  induction victims generalizing r with
  | nil => exact .refl _
  | cons victim rest ih => exact (remove_keeps r victim).trans (ih _)

theorem commit_keeps (r : Retention K V) (world : World) (write : PreparedWrite K V)
    (victims : List K) (retired : List (Retirement K V)) :
    (Backend.retained r).Keeps (.retained (r.commit world write victims retired).2) := by
  have hevict := evict_keeps r victims
  have hremove := remove_keeps (r.evict victims).2 write.key
  exact (hevict.trans hremove).trans ⟨rfl, rfl⟩

end Retention

namespace Sharded

theorem removeSame_keeps (s : Sharded K V) (key : K) (expected : Option (Entry V)) :
    (Backend.unbounded s).Keeps (.unbounded (s.removeSame key expected).2) := by
  unfold removeSame
  split
  · exact .refl _
  · split
    · exact ⟨rfl, rfl⟩
    · exact .refl _

theorem get_keeps (s : Sharded K V) (world : World) (key : K) (now : Option Timestamp) :
    (Backend.unbounded s).Keeps (.unbounded (s.get world key now).2) := by
  unfold get
  split
  · exact .refl _
  · split
    · exact .refl _
    · exact removeSame_keeps s key _

theorem removeAll_keeps {ι : Type} (f : ι → K) (keys : List ι) (s : Sharded K V) :
    (Backend.unbounded s).Keeps
      (.unbounded (keys.foldl (fun s i => (s.removeSame (f i) none).2) s)) := by
  induction keys generalizing s with
  | nil => exact .refl _
  | cons i rest ih => exact (removeSame_keeps s (f i) none).trans (ih _)

theorem expire_keeps (s : Sharded K V) (world : World) (shard : Fin 64)
    (now : Option Timestamp) :
    (Backend.unbounded s).Keeps (.unbounded (s.expire world shard now).2) :=
  removeAll_keeps _ _ s

end Sharded

namespace Backend

theorem removed_keeps (b : Backend K V) (key : K) (expected : Option (Entry V)) :
    b.Keeps (b.removed key expected).2 := by
  cases b with
  | unbounded store => exact store.removeSame_keeps key expected
  | retained store =>
    unfold removed
    dsimp only
    split
    · exact .refl _
    · exact store.remove_keeps key

theorem read_keeps (b : Backend K V) (world : World) (key : K) (now : Option Timestamp) :
    b.Keeps (b.read world key now).2 := by
  cases b with
  | unbounded store => exact store.get_keeps world key now
  | retained store => exact store.get_keeps world key now

theorem maintain_keeps (b : Backend K V) (world : World) (shard : Fin 64)
    (now : Option Timestamp) : b.Keeps (b.maintain world shard now) := by
  cases b with
  | unbounded store => exact store.expire_keeps world shard now
  | retained store => exact store.removeExpired_keeps world now

end Backend

/-! ## How a candidate is judged -/

/-- The judgement of a write of `key` under `expected`, and the counters after it. -/
inductive Verdict (b : Backend K V) (owners : List RevisionId) (cells : Cells) (key : K)
    (expected : Expected V) : MemoryAdmission → Cells → Prop
  | exhausted (hmax : b.generation = u64Max) :
      Verdict b owners cells key expected (.rejected .generationExhausted) cells
  | changed (current : Option (Entry V))
      (hmatch : expected.matchesGeneration cells current b.generation = false) :
      Verdict b owners cells key expected (.rejected .versionChanged) cells
  | expired :
      Verdict b owners cells key expected (.rejected .physicallyExpired)
        (if Backend.isMutation expected then b.origins.advance owners cells key else cells)
  | passed (a : MemoryAdmission) (ha : a.compared = true) (current : Option (Entry V))
      (hmatch : expected.matchesGeneration cells current b.generation = true) :
      Verdict b owners cells key expected a
        (if expected.changesOrigin then b.origins.advance owners cells key else cells)

/-- A judged write leaves the counters alone or advances its own key. -/
theorem Verdict.cells_eq {b : Backend K V} {owners : List RevisionId} {cells cells' : Cells}
    {key : K} {expected : Expected V} {a : MemoryAdmission}
    (h : Verdict b owners cells key expected a cells') :
    cells' = cells ∨ cells' = b.origins.advance owners cells key := by
  cases h with
  | exhausted => exact .inl rfl
  | changed => exact .inl rfl
  | expired => split <;> simp
  | passed => split <;> simp

section

variable {owners : List RevisionId} {cells : Cells} {world : World}

theorem Retention.insert_verdict (r : Retention K V) (write : PreparedWrite K V)
    (expected : Expected V) :
    (Backend.retained r).Keeps (.retained (r.insert owners cells world write expected).2.1) ∧
      Verdict (.retained r) owners cells write.key expected
        (r.insert owners cells world write expected).1.admission
        (r.insert owners cells world write expected).2.2 := by
  unfold insert
  dsimp only
  split
  · rename_i hmatch
    have hmatch := by simpa using hmatch
    exact ⟨.refl _, .changed _ hmatch⟩
  · rename_i hmatch
    have hmatch := by simpa using hmatch
    split
    · exact ⟨.refl _, .passed _ rfl _ hmatch⟩
    · have hkeep := r.expireUnderPressure_keeps world write.key write.entry.metadata.weight
        write.time.now
      -- The capacity decisions below come after the comparison and the advance.
      split
      · exact ⟨hkeep, .passed _ rfl _ hmatch⟩
      · rename_i victims _
        have hcommit := commit_keeps
          (r.expireUnderPressure world write.key write.entry.metadata.weight write.time.now).2
          world write victims
          (r.expireUnderPressure world write.key write.entry.metadata.weight write.time.now).1
        refine ⟨hkeep.trans hcommit, .passed _ ?_ _ hmatch⟩
        unfold commit
        dsimp only
        split <;> rfl

theorem Sharded.insertPrepared_verdict (s : Sharded K V) (write : PreparedWrite K V)
    (expected : Expected V) :
    (Backend.unbounded s).Keeps
        (.unbounded (s.insertPrepared owners cells write expected).2.1) ∧
      Verdict (.unbounded s) owners cells write.key expected
        (s.insertPrepared owners cells write expected).1.admission
        (s.insertPrepared owners cells write expected).2.2 := by
  unfold insertPrepared
  dsimp only
  split
  · rename_i hmax
    exact ⟨.refl _, .exhausted hmax⟩
  · split
    · rename_i hmatch
      have hmatch := by simpa using hmatch
      exact ⟨.refl _, .changed _ hmatch⟩
    · rename_i hmatch
      have hmatch := by simpa using hmatch
      refine ⟨⟨rfl, rfl⟩, .passed _ ?_ _ hmatch⟩
      split <;> rfl

namespace Backend

theorem insertPrepared_verdict (b : Backend K V) (write : PreparedWrite K V)
    (expected : Expected V) :
    b.Keeps (b.insertPrepared owners cells world write expected).2.1 ∧
      Verdict b owners cells write.key expected
        (b.insertPrepared owners cells world write expected).1.admission
        (b.insertPrepared owners cells world write expected).2.2 := by
  cases b with
  | unbounded store => exact store.insertPrepared_verdict write expected
  | retained store => exact store.insert_verdict write expected

variable (owners cells world) in
theorem applyWrite_verdict (b : Backend K V) (write : PreparedWrite K V)
    (expected : Expected V) :
    b.Keeps (b.applyWrite owners cells world write expected).2.1 ∧
      Verdict b owners cells write.key expected
        (b.applyWrite owners cells world write expected).1.admission
        (b.applyWrite owners cells world write expected).2.2 := by
  unfold applyWrite
  split
  · exact ⟨.refl _, .expired⟩
  · exact b.insertPrepared_verdict write expected

theorem insertValueBorrowed_eq (b : Backend K V) (write : PreparedWrite K V) :
    b.insertValueBorrowed owners cells world write
      = b.applyWrite owners cells world write .mutation := rfl

variable (owners cells world) in
theorem insertPlainBorrowed_verdict (b : Backend K V) (key : K) (value : V)
    (metadata : Sharded.PlainMetadata) (time : WriteTime) (inst : Instance) :
    b.Keeps (b.insertPlainBorrowed owners cells world key value metadata time inst).2.1 ∧
      Verdict b owners cells key .mutation
        (b.insertPlainBorrowed owners cells world key value metadata time inst).1.admission
        (b.insertPlainBorrowed owners cells world key value metadata time inst).2.2 := by
  cases b with
  | retained store =>
    let entry := Entry.intoFresh value metadata.created metadata.expires inst
    exact (Backend.retained store).applyWrite_verdict _ _ _ ⟨key, entry, time, .set⟩ .mutation
  | unbounded store =>
    unfold insertPlainBorrowed
    dsimp only
    split
    · exact ⟨.refl _, .expired⟩
    · unfold Sharded.insertPlain
      dsimp only
      split
      · rename_i hmax
        exact ⟨.refl _, .exhausted hmax⟩
      · refine ⟨⟨rfl, rfl⟩, .passed _ ?_ none rfl⟩
        split <;> rfl

omit [LinearOrder K] in
theorem invalidateAll_origins (b : Backend K V) : b.invalidateAll.origins = b.origins := by
  cases b <;> rfl

omit [LinearOrder K] in
theorem invalidateAll_generation (b : Backend K V) :
    b.invalidateAll.generation = saturatingSucc b.generation := by
  cases b <;> rfl

end Backend

end

/-! ## What an operation changes outside of storage -/

/-- Nothing but storage and the counters differs. -/
structure Frame (s t : State K V) : Prop where
  origins : t.origins = s.origins
  generation : t.generation = s.generation
  live : t.live = s.live
  nextOrigin : t.nextOrigin = s.nextOrigin
  nextRevision : t.nextRevision = s.nextRevision
  flights : t.flights = s.flights

inductive Effect (s t : State K V) : Prop
  | quiet (frame : Frame s t) (cells : t.cells = s.cells)
  | advanced (key : K) (frame : Frame s t)
      (cells : t.cells = s.origins.advance s.owners s.cells key)
  | cleared (ht : t = { s with backend := s.backend.invalidateAll })
  | captured (key : K) (provided : Option RevisionId)
      (hprovided : ∀ r, provided = some r → r ∈ s.flights)
      (hgeneration : s.generation ≠ u64Max)
      (origins : Origins K) (cells : Cells) (revision : RevisionId) (captured : Nat)
      (hcapture : s.origins.captureFrom s.owners s.cells s.nextRevision key provided
        = some (origins, cells, revision, captured))
      (ht : t = { s with
        backend := s.backend.withOrigins origins
        cells
        nextRevision := s.nextRevision + 1
        live := s.live.insert s.nextOrigin ⟨key, revision, captured, s.generation⟩
        nextOrigin := s.nextOrigin + 1 })
  | forgot (id : OriginId) (origin : MemoryOrigin K) (hlive : s.live.lookup id = some origin)
      (ht : t = { s with
        backend := s.backend.withOrigins (s.origins.forget origin.key origin.snapshot.revision)
        live := s.live.erase id })
  | lent (ht : t = { s with
        cells := Function.update s.cells s.nextRevision 1
        nextRevision := s.nextRevision + 1
        flights := s.nextRevision :: s.flights })
  | released (r : RevisionId) (ht : t = { s with flights := s.flights.erase r })

variable {s t : State K V}

omit [LinearOrder K] in
theorem Frame.of_keeps {backend : Backend K V} (cells : Cells) (h : s.backend.Keeps backend) :
    Frame s { s with backend, cells } :=
  ⟨h.origins, h.generation, rfl, rfl, rfl, rfl⟩

theorem Effect.of_verdict {key : K} {expected : Expected V}
    {result : RetentionCommit K V × Backend K V × Cells} (hkeeps : s.backend.Keeps result.2.1)
    (hverdict : Verdict s.backend s.owners s.cells key expected result.1.admission result.2.2) :
    Effect s (committed s result).2 := by
  have hframe : Frame s (committed s result).2 := Frame.of_keeps result.2.2 hkeeps
  rcases hverdict.cells_eq with h | h
  · exact .quiet hframe h
  · exact .advanced key hframe h

theorem applyWrite_effect (s : State K V) (write : PreparedWrite K V) (expected : Expected V) :
    Effect s (applyWrite s write expected).2 := by
  obtain ⟨hkeeps, hverdict⟩ := s.backend.applyWrite_verdict s.owners s.cells s.world
    write expected
  exact .of_verdict hkeeps hverdict

theorem advanceOrigin_effect (s : State K V) (key : K) : Effect s (advanceOrigin s key) :=
  .advanced key ⟨rfl, rfl, rfl, rfl, rfl, rfl⟩ rfl

theorem captureRevision_effect {key : K} {provided : Option RevisionId}
    (hprovided : ∀ r, provided = some r → r ∈ s.flights) :
    Effect s (captureRevision s key provided).2 := by
  unfold captureRevision
  split
  · exact .quiet ⟨rfl, rfl, rfl, rfl, rfl, rfl⟩ rfl
  · rename_i hgeneration
    split
    · exact .quiet ⟨rfl, rfl, rfl, rfl, rfl, rfl⟩ rfl
    · rename_i origins cells revision captured hcapture
      exact .captured key provided hprovided hgeneration origins cells revision captured
        hcapture rfl

/-- Every operation has one of the effects. -/
theorem effect_of_next {op : Op K V} (h : next s op = some t) : Effect s t := by
  obtain ⟨⟨out, t'⟩, hperform, rfl⟩ := Option.map_eq_some_iff.mp h
  show Effect s t'
  cases op with
  | captureOrigin key provided =>
    simp only [perform] at hperform
    split at hperform
    · rename_i hprovided
      obtain ⟨-, rfl⟩ := Prod.ext_iff.mp (Option.some.inj hperform)
      apply captureRevision_effect
      rintro r rfl
      simpa using hprovided
    · cases hperform
  | dropOrigin id =>
    obtain ⟨origin, hlive, hout⟩ := Option.map_eq_some_iff.mp hperform
    obtain ⟨-, rfl⟩ := Prod.ext_iff.mp hout
    exact .forgot id origin hlive rfl
  | applyOrigin write id =>
    obtain ⟨origin, -, hout⟩ := Option.map_eq_some_iff.mp hperform
    obtain ⟨-, rfl⟩ := Prod.ext_iff.mp hout
    exact applyWrite_effect s write _
  | skipOrigin key id =>
    obtain ⟨origin, -, hout⟩ := Option.map_eq_some_iff.mp hperform
    obtain ⟨-, rfl⟩ := Prod.ext_iff.mp hout
    unfold skipRevision
    split
    · exact advanceOrigin_effect s key
    · exact .quiet ⟨rfl, rfl, rfl, rfl, rfl, rfl⟩ rfl
  | applyInsert write =>
    obtain ⟨-, rfl⟩ := Prod.ext_iff.mp (Option.some.inj hperform)
    exact applyWrite_effect s write _
  | insertValueBorrowed write =>
    obtain ⟨-, rfl⟩ := Prod.ext_iff.mp (Option.some.inj hperform)
    exact applyWrite_effect s write .mutation
  | insertPlainBorrowed key value metadata time inst =>
    obtain ⟨-, rfl⟩ := Prod.ext_iff.mp (Option.some.inj hperform)
    obtain ⟨hkeeps, hverdict⟩ := s.backend.insertPlainBorrowed_verdict s.owners s.cells
      s.world key value metadata time inst
    exact .of_verdict hkeeps hverdict
  | applyExpire write expected =>
    obtain ⟨-, rfl⟩ := Prod.ext_iff.mp (Option.some.inj hperform)
    exact applyWrite_effect s write _
  | detachRemove key =>
    obtain ⟨-, rfl⟩ := Prod.ext_iff.mp (Option.some.inj hperform)
    exact .advanced key (Frame.of_keeps _ (s.backend.removed_keeps key none)) rfl
  | invalidateOrigin key =>
    obtain ⟨-, rfl⟩ := Prod.ext_iff.mp (Option.some.inj hperform)
    exact advanceOrigin_effect s key
  | invalidateAll =>
    obtain ⟨-, rfl⟩ := Prod.ext_iff.mp (Option.some.inj hperform)
    exact .cleared rfl
  | insertAt write =>
    obtain ⟨-, rfl⟩ := Prod.ext_iff.mp (Option.some.inj hperform)
    exact applyWrite_effect s write _
  | insertIfUnchanged write expected =>
    obtain ⟨-, rfl⟩ := Prod.ext_iff.mp (Option.some.inj hperform)
    exact applyWrite_effect s write _
  | remove key expected =>
    obtain ⟨-, rfl⟩ := Prod.ext_iff.mp (Option.some.inj hperform)
    exact .quiet (Frame.of_keeps _ (s.backend.removed_keeps key expected)) rfl
  | get key now =>
    obtain ⟨-, rfl⟩ := Prod.ext_iff.mp (Option.some.inj hperform)
    exact .quiet (Frame.of_keeps _ (s.backend.read_keeps s.world key now)) rfl
  | maintain shard now =>
    obtain ⟨-, rfl⟩ := Prod.ext_iff.mp (Option.some.inj hperform)
    exact .quiet (Frame.of_keeps _ (s.backend.maintain_keeps s.world shard now)) rfl
  | newFlight =>
    obtain ⟨-, rfl⟩ := Prod.ext_iff.mp (Option.some.inj hperform)
    exact .lent rfl
  | dropFlight r =>
    simp only [perform] at hperform
    split at hperform
    · obtain ⟨-, rfl⟩ := Prod.ext_iff.mp (Option.some.inj hperform)
      exact .released r rfl
    · cases hperform
  | observe world =>
    obtain ⟨-, rfl⟩ := Prod.ext_iff.mp (Option.some.inj hperform)
    exact .quiet ⟨rfl, rfl, rfl, rfl, rfl, rfl⟩ rfl

end Memory

end Amalgam
