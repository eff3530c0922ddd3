import Amalgam.EntryLifetimes
import Amalgam.Memory.Store

/-!
# Amalgam — plain writes into unbounded storage

`src/memory/sharded.rs`, `src/memory/sharded/plain.rs` and the two borrowed insertions of
`src/memory.rs`, with what `Sharded` leaves out: whether an eviction is captured, and the reuse of an
allocation that only the store holds.

A default write goes through code of its own. It is compared here with the general insertion.

* **`plain_write_agrees`** — `insert_plain` is `insert_prepared` under `Expected::Mutation`, and
  `insert_plain_borrowed` is the general borrowed insertion of the same entry.
* **`expired_plan_admitted`** — behind the check that both of these make, `insert_prepared` alone
  would admit a plan of no length.
* **`insertPlain_forget`** — without captures and reuse this is the plain insertion of `Sharded`.
-/

namespace Amalgam

namespace Memory

inductive CaptureAdmission where
  | armed
  | unarmed
deriving DecidableEq

inductive EvictionCapture where
  | atInsertion
  | atRetirement
deriving DecidableEq

structure CapturePolicy where
  admission : CaptureAdmission
  timing : EvictionCapture

def CapturePolicy.permitsPayloadOnly (policy : CapturePolicy) (original : CaptureAdmission) : Bool :=
  policy.timing = .atInsertion && original = .unarmed

/-- `FreshValue`: an entry that is not allocated yet. -/
structure FreshValue (V : Type) where
  value : V
  metadata : Metadata
  eligibility : Eligibility

def FreshValue.intoEntry {V : Type} (fresh : FreshValue V) (inst : Instance) : Entry V :=
  ⟨inst, fresh.value, fresh.metadata, fresh.eligibility⟩

/-- `into_fresh`. -/
def freshPlain {V : Type} (plain : PlainMetadata) (value : V) (tags : List Tag) : FreshValue V where
  value
  metadata :=
    { created := plain.created
      insertedAt := plain.created
      logicalExpiration := plain.expires
      physicalExpiration := plain.expires
      backendTtl := plain.expires.saturatingDurationSince plain.created
      origin := .fresh none
      etag := none
      lastModified := none
      tags
      retention := .unspecified }
  eligibility := .ofLocal

namespace Slots

variable {K V : Type}

/-- `replace_unique_payload`; `shared` is the answer of `Arc::get_mut`. -/
def replaceUniquePayload (shared : Bool) (stored : Entry V) (fresh : FreshValue V) :
    Option (V × Entry V) :=
  if shared then none else some (stored.value, fresh.intoEntry stored.inst)

inductive PlainReplacement (V : Type) where
  | replaced (retired : V) (entry : Entry V)
  | shared (incoming : V)

def replacePlain (shared : Bool) (stored : Entry V) (incoming : V) (plain : PlainMetadata) :
    PlainReplacement V :=
  if shared then .shared incoming
  else .replaced stored.value (stored.replacePlain incoming plain)

/-- `PreparedEntry`, before it is taken for storage. -/
inductive PreparedEntry (V : Type) where
  | candidate (entry : Entry V)
  | fresh (value : FreshValue V)

namespace PreparedEntry

def metadata : PreparedEntry V → Metadata
  | .candidate entry => entry.metadata
  | .fresh value => value.metadata

/-- `try_reuse_payload`. -/
def tryReusePayload (shared : Bool) (stored : Entry V) : PreparedEntry V → Option (V × Entry V)
  | .candidate _ => none
  | .fresh value => replaceUniquePayload shared stored value

def takeForStorage (inst : Instance) : PreparedEntry V → Entry V
  | .candidate entry => entry
  | .fresh value => value.intoEntry inst

end PreparedEntry

structure Stored (V : Type) where
  entry : Entry V
  generation : Nat
  deadlines : Deadlines
  capture : CaptureAdmission

structure Retirement (K V : Type) where
  key : K
  entry : Entry V
  reason : RetirementReason
  capture : CaptureAdmission

inductive Retirements (K V : Type) where
  | none
  | one (retirement : Retirement K V)
  | reused (value : V) (reason : RetirementReason)

def Retirements.reason : Retirements K V → Option RetirementReason
  | .none => .none
  | .one retirement => some retirement.reason
  | .reused _ reason => some reason

structure Commit (K V : Type) where
  admission : MemoryAdmission
  retired : Retirements K V

def Commit.rejected (reason : CapacityRejection) : Commit K V := ⟨.rejected reason, .none⟩

end Slots

/-- The unbounded store with the capture admission of every entry. -/
structure Slots (K V : Type) where
  origins : Origins K
  generation : Nat
  entries : AList fun _ : K => Slots.Stored V
  weight : Nat
  expiry : MemoryExpiry
  timing : Timing

namespace Slots

variable {K V : Type} [LinearOrder K]

/-- What a write does to an occupied slot: the new entry, and how the old one is retired. -/
def occupy (shared : Instance → Bool) (key : K) (old : Stored V) (entry : PreparedEntry V)
    (policy : CapturePolicy) (reason : RetirementReason) (inst : Instance) :
    Retirements K V × Entry V :=
  let reused := if policy.permitsPayloadOnly old.capture then
    entry.tryReusePayload (shared old.entry.inst) old.entry else none
  match reused with
  | some (previous, stored) => (.reused previous reason, stored)
  | none => (.one ⟨key, old.entry, reason, old.capture⟩, entry.takeForStorage inst)

/-- `insert_prepared`. The allocations in `shared` have a handle outside of the store. -/
def insertPrepared (s : Slots K V) (shared : Instance → Bool) (owners : List RevisionId)
    (cells : Cells) (key : K) (entry : PreparedEntry V) (time : WriteTime) (expected : Expected V)
    (policy : CapturePolicy) (event : MemoryWriteEvent) (inst : Instance) :
    Commit K V × Slots K V × Cells :=
  let deadlines := s.timing.prepareBoundaries entry.metadata.logicalExpiration
    entry.metadata.physicalExpiration time s.expiry
  if s.generation = u64Max then (.rejected .generationExhausted, s, cells)
  else
    let current := s.entries.lookup key
    let visible := current.filter fun stored => stored.generation = s.generation
    if !expected.matchesGeneration cells (visible.map (·.entry)) s.generation then
      (.rejected .versionChanged, s, cells)
    else
      let capture := match current, event with
        | some old, .expire => old.capture
        | _, _ => policy.admission
      let oldWeight := current.elim 0 (·.entry.metadata.weight)
      let cells := if expected.changesOrigin then s.origins.advance owners cells key else cells
      let (retired, stored) := match current with
        | none => (.none, entry.takeForStorage inst)
        | some old =>
          let reason := match event with
            | .set => if old.generation = s.generation then .replaced else .continuity
            | .expire => .metadata
          occupy shared key old entry policy reason inst
      (⟨if visible.isSome then .replaced else .admitted, retired⟩,
        { s with
          entries := s.entries.insert key ⟨stored, s.generation, deadlines, capture⟩
          weight := s.weight - oldWeight + entry.metadata.weight },
        cells)

/-- `commit_slot`: the retirement, the weight that is gone, whether a visible entry was replaced, and
what the slot holds now. -/
def commitSlot (shared : Instance → Bool) (slot : Option (Stored V)) (key : K) (value : V)
    (plain : PlainMetadata) (generation : Nat) (deadlines : Deadlines) (policy : CapturePolicy)
    (inst : Instance) : Retirements K V × Nat × Bool × Stored V :=
  let store (entry : Entry V) : Stored V := ⟨entry, generation, deadlines, policy.admission⟩
  match slot with
  | none => (.none, 0, false, store ((freshPlain plain value []).intoEntry inst))
  | some previous =>
    let weight := previous.entry.metadata.weight
    let replacing := decide (previous.generation = generation)
    let reason := if replacing then .replaced else .continuity
    let old : Retirement K V := ⟨key, previous.entry, reason, previous.capture⟩
    if policy.permitsPayloadOnly previous.capture then
      match replacePlain (shared previous.entry.inst) previous.entry value plain with
      | .replaced retired entry => (.reused retired reason, weight, replacing, store entry)
      | .shared incoming =>
        (.one old, weight, replacing, store ((freshPlain plain incoming []).intoEntry inst))
    else (.one old, weight, replacing, store ((freshPlain plain value []).intoEntry inst))

/-- `insert_plain`. -/
def insertPlain (s : Slots K V) (shared : Instance → Bool) (owners : List RevisionId) (cells : Cells)
    (key : K) (value : V) (plain : PlainMetadata) (time : WriteTime) (policy : CapturePolicy)
    (inst : Instance) : Commit K V × Slots K V × Cells :=
  let deadlines := s.timing.prepareBoundaries plain.expires plain.expires time s.expiry
  if s.generation = u64Max then (.rejected .generationExhausted, s, cells)
  else
    let cells := s.origins.advance owners cells key
    let (retired, oldWeight, replacing, stored) := commitSlot shared (s.entries.lookup key) key value
      plain s.generation deadlines policy inst
    (⟨if replacing then .replaced else .admitted, retired⟩,
      { s with
        entries := s.entries.insert key stored
        weight := s.weight - oldWeight + 1 },
      cells)

/-! ## The insertions of the memory store -/

/-- `apply_write`. -/
def applyWrite (s : Slots K V) (shared : Instance → Bool) (owners : List RevisionId) (cells : Cells)
    (key : K) (entry : PreparedEntry V) (time : WriteTime) (expected : Expected V)
    (policy : CapturePolicy) (event : MemoryWriteEvent) (inst : Instance) :
    Commit K V × Slots K V × Cells :=
  if !time.now.isBefore entry.metadata.physicalExpiration then
    (.rejected .physicallyExpired, s,
      if Backend.isMutation expected then s.origins.advance owners cells key else cells)
  else s.insertPrepared shared owners cells key entry time expected policy event inst

/-- `prepare_value_borrowed`: with deferred reclamation the entry is allocated ahead, and its physical
lifetime starts when it is stored, at `instant`. -/
def prepareValueBorrowed (deferred : Bool) (value : FreshValue V) (time : WriteTime)
    (instant : Instant) (inst : Instance) : PreparedEntry V × WriteTime :=
  if deferred then
    (.candidate ((value.intoEntry inst).atInsertion time.now inst), ⟨time.now, instant⟩)
  else (.fresh value, time)

/-- `insert_value_borrowed`. -/
def insertValueBorrowed (s : Slots K V) (deferred : Bool) (shared : Instance → Bool)
    (owners : List RevisionId) (cells : Cells) (key : K) (value : FreshValue V) (time : WriteTime)
    (instant : Instant) (policy : CapturePolicy) (inst : Instance) :
    Commit K V × Slots K V × Cells :=
  if deferred then
    let (entry, time) := prepareValueBorrowed deferred value time instant inst
    s.applyWrite shared owners cells key entry time .mutation policy .set inst
  else if !time.now.isBefore value.metadata.physicalExpiration then
    (.rejected .physicallyExpired, s, s.origins.advance owners cells key)
  else s.insertPrepared shared owners cells key (.fresh value) time .mutation policy .set inst

/-- `insert_plain_borrowed` on the unbounded backend. -/
def insertPlainBorrowed (s : Slots K V) (deferred : Bool) (shared : Instance → Bool)
    (owners : List RevisionId) (cells : Cells) (key : K) (value : V) (plain : PlainMetadata)
    (time : WriteTime) (instant : Instant) (policy : CapturePolicy) (inst : Instance) :
    Commit K V × Slots K V × Cells :=
  if deferred then
    s.insertValueBorrowed deferred shared owners cells key (freshPlain plain value []) time instant
      policy inst
  else if !time.now.isBefore plain.expires then
    (.rejected .physicallyExpired, s, s.origins.advance owners cells key)
  else s.insertPlain shared owners cells key value plain time policy inst

/-! ## The two ways are one -/

/-- The plain reuse of a payload stores what the general one stores. -/
theorem replacePlain_eq (stored : Entry V) (incoming : V) (plain : PlainMetadata) :
    stored.replacePlain incoming plain = (freshPlain plain incoming []).intoEntry stored.inst := rfl

variable (s : Slots K V) (shared : Instance → Bool) (owners : List RevisionId) (cells : Cells)
  (key : K) (value : V) (plain : PlainMetadata) (time : WriteTime) (policy : CapturePolicy)
  (inst : Instance)

omit [LinearOrder K] in
/-- On an occupied slot the plain write retires and stores what the general one does. -/
theorem commitSlot_occupied (previous : Stored V) (generation : Nat) (deadlines : Deadlines) :
    commitSlot shared (some previous) key value plain generation deadlines policy inst =
      let replacing := decide (previous.generation = generation)
      let occupied := occupy shared key previous (.fresh (freshPlain plain value [])) policy
        (if replacing then .replaced else .continuity) inst
      (occupied.1, previous.entry.metadata.weight, replacing,
        ⟨occupied.2, generation, deadlines, policy.admission⟩) := by
  unfold commitSlot occupy PreparedEntry.tryReusePayload replacePlain replaceUniquePayload
  dsimp only
  cases policy.permitsPayloadOnly previous.capture with
  | false => rfl
  | true =>
    cases shared previous.entry.inst with
    | false => rfl
    | true => rfl

theorem insertPlain_eq :
    s.insertPlain shared owners cells key value plain time policy inst =
      s.insertPrepared shared owners cells key (.fresh (freshPlain plain value [])) time .mutation
        policy .set inst := by
  unfold insertPlain insertPrepared
  dsimp only
  split
  · rfl
  · cases s.entries.lookup key with
    | none => rfl
    | some previous =>
      rw [commitSlot_occupied]
      by_cases hsame : previous.generation = s.generation
      · simp [hsame]
        rfl
      · simp [hsame]
        rfl

theorem insertPlainBorrowed_eq (deferred : Bool) (instant : Instant) :
    s.insertPlainBorrowed deferred shared owners cells key value plain time instant policy inst =
      s.insertValueBorrowed deferred shared owners cells key (freshPlain plain value []) time instant
        policy inst := by
  unfold insertPlainBorrowed
  cases deferred with
  | true => rfl
  | false =>
    unfold insertValueBorrowed
    rw [insertPlain_eq]
    rfl

/-! ## Entries that were allocated before -/

/-- All of a stored entry but the allocation it lives in. -/
def Stored.facts (stored : Stored V) :
    V × Metadata × Eligibility × Nat × Deadlines × CaptureAdmission :=
  (stored.entry.value, stored.entry.metadata, stored.entry.eligibility, stored.generation,
    stored.deadlines, stored.capture)

/-- The same store up to the allocations of its entries. -/
structure Alike (s t : Slots K V) : Prop where
  origins : s.origins = t.origins
  generation : s.generation = t.generation
  weight : s.weight = t.weight
  expiry : s.expiry = t.expiry
  timing : s.timing = t.timing
  entries : ∀ key, (s.entries.lookup key).map Stored.facts = (t.entries.lookup key).map Stored.facts

theorem Alike.refl (s : Slots K V) : s.Alike s := ⟨rfl, rfl, rfl, rfl, rfl, fun _ => rfl⟩

/-- Binding a key to the same facts. -/
theorem Alike.insert {stored other : Stored V} (weight : Nat) (h : stored.facts = other.facts) :
    Alike { s with entries := s.entries.insert key stored, weight }
      { s with entries := s.entries.insert key other, weight } := by
  refine ⟨rfl, rfl, rfl, rfl, rfl, fun existing => ?_⟩
  dsimp only
  by_cases hkey : existing = key
  · subst hkey
    rw [AList.lookup_insert, AList.lookup_insert]
    exact congrArg some h
  · rw [AList.lookup_insert_ne hkey, AList.lookup_insert_ne hkey]

/-- What a write is compared by: the admission, the reason of the retirement, the revisions, and the
store up to allocations. -/
structure SameEffect (x y : Commit K V × Slots K V × Cells) : Prop where
  admission : x.1.admission = y.1.admission
  reason : x.1.retired.reason = y.1.retired.reason
  cells : x.2.2 = y.2.2
  store : x.2.1.Alike y.2.1

theorem SameEffect.refl (x : Commit K V × Slots K V × Cells) : SameEffect x x :=
  ⟨rfl, rfl, rfl, .refl _⟩

omit [LinearOrder K] in
/-- Whether an occupied slot is reused shows only in the allocation. -/
theorem occupy_candidate (fresh : FreshValue V) (old : Stored V) (reason : RetirementReason) :
    (occupy shared key old (.fresh fresh) policy reason inst).1.reason = some reason ∧
      (occupy shared key old (.candidate (fresh.intoEntry inst)) policy reason inst).1.reason
        = some reason ∧
      (occupy shared key old (.candidate (fresh.intoEntry inst)) policy reason inst).2
        = fresh.intoEntry inst ∧
      ∃ other, (occupy shared key old (.fresh fresh) policy reason inst).2 = fresh.intoEntry other := by
  unfold occupy PreparedEntry.tryReusePayload replaceUniquePayload
  dsimp only
  cases policy.permitsPayloadOnly old.capture with
  | false => exact ⟨rfl, rfl, rfl, inst, rfl⟩
  | true =>
    cases shared old.entry.inst with
    | false => exact ⟨rfl, rfl, rfl, old.entry.inst, rfl⟩
    | true => exact ⟨rfl, rfl, rfl, inst, rfl⟩

/-- An entry that was allocated ahead is inserted with the same effect. -/
theorem insertPrepared_candidate (fresh : FreshValue V) :
    SameEffect
      (s.insertPrepared shared owners cells key (.fresh fresh) time .mutation policy .set inst)
      (s.insertPrepared shared owners cells key (.candidate (fresh.intoEntry inst)) time .mutation
        policy .set inst) := by
  unfold insertPrepared
  dsimp only [PreparedEntry.metadata]
  split
  · exact .refl _
  · simp only [Expected.matchesGeneration, Bool.not_true, Bool.false_eq_true, if_false]
    cases s.entries.lookup key with
    | none => exact .refl _
    | some old =>
      obtain ⟨hfresh, hcandidate, hentry, other, hother⟩ := occupy_candidate shared key policy inst fresh
        old (if old.generation = s.generation then .replaced else .continuity)
      refine ⟨rfl, hfresh.trans hcandidate.symm, rfl, Alike.insert s key _ ?_⟩
      unfold Stored.facts
      rw [hother, hentry]
      rfl

/-- **A default write takes a way of its own to the same place.** -/
theorem plain_write_agrees (deferred : Bool) (instant : Instant) :
    (s.insertPlain shared owners cells key value plain time policy inst =
      s.insertPrepared shared owners cells key (.fresh (freshPlain plain value [])) time .mutation
        policy .set inst) ∧
    SameEffect (s.insertPlain shared owners cells key value plain time policy inst)
      (s.insertPrepared shared owners cells key
        (.candidate ((freshPlain plain value []).intoEntry inst)) time .mutation policy .set inst) ∧
    (s.insertPlainBorrowed deferred shared owners cells key value plain time instant policy inst =
      s.insertValueBorrowed deferred shared owners cells key (freshPlain plain value []) time instant
        policy inst) ∧
    (s.insertPlainBorrowed deferred shared owners cells key value plain time instant policy inst =
      if !time.now.isBefore plain.expires then
        (.rejected .physicallyExpired, s, s.origins.advance owners cells key)
      else
        let (entry, time) := prepareValueBorrowed deferred (freshPlain plain value []) time instant inst
        s.insertPrepared shared owners cells key entry time .mutation policy .set inst) := by
  refine ⟨s.insertPlain_eq .., ?_, s.insertPlainBorrowed_eq .., ?_⟩
  · rw [insertPlain_eq]
    exact s.insertPrepared_candidate ..
  · rw [insertPlainBorrowed_eq]
    unfold insertValueBorrowed prepareValueBorrowed
    cases deferred with
    | true =>
      have hphysical : (((freshPlain plain value []).intoEntry inst).atInsertion time.now inst
          ).metadata.physicalExpiration = plain.expires := by
        unfold Entry.atInsertion
        split <;> rfl
      unfold applyWrite
      rw [← hphysical]
      rfl
    | false => rfl

/-- A store without entries. -/
def vacant : Slots Nat Unit := ⟨⟨∅⟩, 1, ∅, 0, .clockDriven, .interoperable⟩

/-- A plan of no length, at the beginning of time. -/
def noTime : PlainMetadata :=
  PlainPlan.metadata ⟨.new (.fromSecs 0)⟩ (.fromTicks 0)

/-- A plan of no length is refused on both borrowed ways, and admitted behind their check. -/
theorem expired_plan_admitted :
    (vacant.insertPlainBorrowed false (fun _ => false) [] (fun _ => 0) 0 () noTime ⟨.fromTicks 0, 0⟩ 0
        ⟨.unarmed, .atInsertion⟩ 0).1.admission = .rejected .physicallyExpired ∧
      (vacant.insertValueBorrowed false (fun _ => false) [] (fun _ => 0) 0 (freshPlain noTime () [])
        ⟨.fromTicks 0, 0⟩ 0 ⟨.unarmed, .atInsertion⟩ 0).1.admission = .rejected .physicallyExpired ∧
      (vacant.insertPrepared (fun _ => false) [] (fun _ => 0) 0 (.fresh (freshPlain noTime () []))
        ⟨.fromTicks 0, 0⟩ .mutation ⟨.unarmed, .atInsertion⟩ .set 0).1.admission = .admitted := by
  decide

/-! ## Without captures and reuse -/

/-- The store that `Sharded` keeps of this one. -/
structure Represents (s : Slots K V) (t : Sharded K V) : Prop where
  origins : s.origins = t.origins
  generation : s.generation = t.generation
  weight : s.weight = t.weight
  expiry : s.expiry = t.expiry
  timing : s.timing = t.timing
  entries : ∀ key, t.entries.lookup key =
    (s.entries.lookup key).map fun stored => ⟨stored.entry, stored.generation, stored.deadlines⟩

theorem Represents.insert {t : Sharded K V} (h : s.Represents t) (stored : Stored V) (weight : Nat) :
    Represents { s with entries := s.entries.insert key stored, weight }
      { t with
        origins := s.origins
        generation := s.generation
        entries := t.entries.insert key ⟨stored.entry, stored.generation, stored.deadlines⟩
        weight
        expiry := s.expiry
        timing := s.timing } := by
  refine ⟨rfl, rfl, rfl, rfl, rfl, fun existing => ?_⟩
  dsimp only
  by_cases hkey : existing = key
  · subst hkey
    rw [AList.lookup_insert, AList.lookup_insert]
    rfl
  · rw [AList.lookup_insert_ne hkey, AList.lookup_insert_ne hkey]
    exact h.entries existing

omit [LinearOrder K] in
/-- An occupied slot that is not reused by chance holds the entry in some allocation. -/
theorem occupy_fresh (old : Stored V) (reason : RetirementReason) : ∃ other,
    (occupy shared key old (.fresh (freshPlain plain value [])) policy reason inst).1.reason =
        some reason ∧
      (occupy shared key old (.fresh (freshPlain plain value [])) policy reason inst).2 =
        Entry.intoFresh value plain.created plain.expires other := by
  obtain ⟨hreason, -, -, other, hother⟩ :=
    occupy_candidate shared key policy inst (freshPlain plain value []) old reason
  exact ⟨other, hreason, hother⟩

/-- In the allocation that it ends up in, a plain write is the plain insertion of `Sharded`. -/
theorem insertPlain_forget {t : Sharded K V} (h : s.Represents t) : ∃ other,
    (s.insertPlain shared owners cells key value plain time policy inst).1.admission =
      (t.insertPlain owners cells key value ⟨plain.created, plain.expires⟩ time other).1.admission ∧
    (s.insertPlain shared owners cells key value plain time policy inst).1.retired.reason.toList =
      (t.insertPlain owners cells key value ⟨plain.created, plain.expires⟩ time other).1.retired.map
        (·.reason) ∧
    (s.insertPlain shared owners cells key value plain time policy inst).2.1.Represents
      (t.insertPlain owners cells key value ⟨plain.created, plain.expires⟩ time other).2.1 ∧
    (s.insertPlain shared owners cells key value plain time policy inst).2.2 =
      (t.insertPlain owners cells key value ⟨plain.created, plain.expires⟩ time other).2.2 := by
  have hlookup := h.entries key
  unfold insertPlain Sharded.insertPlain
  dsimp only
  rw [← h.generation, ← h.origins, ← h.weight, ← h.expiry, ← h.timing]
  split
  · exact ⟨inst, rfl, rfl, h, rfl⟩
  · cases hslot : s.entries.lookup key with
    | none =>
      rw [hslot] at hlookup
      rw [hlookup]
      exact ⟨inst, rfl, rfl, Represents.insert s key h _ _, rfl⟩
    | some previous =>
      rw [hslot] at hlookup
      obtain ⟨other, hreason, hentry⟩ := occupy_fresh shared key value plain policy inst previous
        (if decide (previous.generation = s.generation) then .replaced else .continuity)
      rw [hlookup, commitSlot_occupied]
      dsimp only
      refine ⟨other, rfl, ?_, ?_, rfl⟩
      · rw [hreason]
        rfl
      · rw [← hentry]
        exact Represents.insert s key h _ _

end Slots

end Memory

end Amalgam
