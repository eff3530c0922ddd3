import Amalgam.Commit.Lane
import Amalgam.EntryBoundaries
import Amalgam.Markers.State
import Amalgam.Memory.Contents
import Amalgam.Recovery.Queue

/-!
# Amalgam — a peer's set and the passive refresh

The `Set` branch of `apply_backplane` and the background task `passive` it starts
(`src/cache/runtime.rs`). The accepted message only fences the lane; the local representation
stays until the refresh has read L2 and taken the lane again. Between its three moments (the
acceptance, the decision under the lane guard and the one operation on L1) L1 may run any
operations of its other users.

* **`peer_set_retires_iff`** — at the end of a refresh whose fence is still current L1 serves the
  overwritten representation unless one of the exits that replace or remove it was taken.
* **`peer_set_keeps_serving`** — under options that skip memory writes the refresh reads the new
  value and leaves the overwritten one in place.
-/

namespace Amalgam

/-! ## The operations on L1 -/

namespace Memory

variable {K V : Type} [LinearOrder K]

namespace Backend

theorem removed_shrinks (b : Backend K V) (key : K) (expected : Option (Entry V)) :
    b.Shrinks (b.removed key expected).2 := by
  cases b with
  | unbounded store => exact store.removeSame_shrinks key expected
  | retained store =>
    unfold removed
    dsimp only
    split
    · exact .refl _
    · exact store.remove_shrinks key

theorem removed_lookup_ne (b : Backend K V) (key : K) (e : Entry V) :
    (b.removed key (some e)).2.lookup key ≠ some e := by
  intro h
  cases b with
  | unbounded store =>
    have hkept : (Backend.unbounded (store.removeSame key (some e)).2).lookup key = some e := h
    have hheld := store.removeSame_shrinks key (some e) key e hkept
    obtain ⟨stored, hfilter, rfl⟩ := Option.map_eq_some_iff.mp hheld
    obtain ⟨hstored, -⟩ := Option.filter_eq_some_iff.mp hfilter
    have hlookup : store.entries.lookup key = some stored := hstored
    unfold Sharded.removeSame at hkept
    rw [hlookup] at hkept
    dsimp only at hkept
    rw [if_pos (by simp [Entry.isSameInstance])] at hkept
    simp [lookup] at hkept
  | retained store =>
    unfold removed at h
    dsimp only at h
    split at h
    · rename_i hother
      obtain ⟨stored, hstored, rfl⟩ := Option.map_eq_some_iff.mp h
      have hlookup : store.entries.lookup key = some stored := hstored
      rw [hlookup] at hother
      simp [Entry.isSameInstance] at hother
    · have hkept : (Backend.retained (store.remove key).2).lookup key = some e := h
      unfold Retention.remove at hkept
      split at hkept
      · rename_i hnone
        rw [lookup, hnone] at hkept
        cases hkept
      · simp [lookup] at hkept

/-- A candidate that is alive when it takes the place of the expected representation is what L1
holds, unless its limits decline it. -/
theorem applyWrite_same_lookup {b : Backend K V} (hb : Generations b) (owners : List RevisionId)
    (cells : Cells) (world : World) {write : PreparedWrite K V} {e : Entry V}
    (hheld : b.lookup write.key = some e)
    (halive : write.time.now.isBefore write.entry.metadata.physicalExpiration = true)
    (hoversized : (b.applyWrite owners cells world write (.same e)).1.admission ≠
      .rejected .oversized)
    (hprotected : (b.applyWrite owners cells world write (.same e)).1.admission ≠
      .rejected .protectedCapacity) :
    (b.applyWrite owners cells world write (.same e)).2.1.lookup write.key = some write.entry := by
  unfold applyWrite at *
  rw [if_neg (by rw [halive]; decide)] at *
  cases b with
  | unbounded store =>
    have hgeneration : store.generation ≠ u64Max := by
      obtain ⟨generation, hslot, hshows⟩ := lookup_eq_some_iff.mp hheld
      have hdated := (hb.dated write.key e generation hslot).2
      rcases hshows with hbounded | hcurrent
      · cases hbounded
      · have hsame : generation = store.generation := hcurrent
        rw [← hsame]
        exact Nat.ne_of_lt hdated
    have hmatches : Expected.matchesGeneration cells ((Backend.unbounded store).lookup write.key)
        store.generation (.same e) = true := by
      rw [hheld]
      exact decide_eq_true rfl
    unfold insertPrepared Sharded.insertPrepared
    dsimp only
    rw [if_neg hgeneration, if_neg (by unfold lookup at hmatches; rw [hmatches]; decide)]
    simp only [lookup, AList.lookup_insert, Option.filter_some, decide_true, if_true,
      Option.map_some]
  | retained store =>
    have hmatches : Expected.matchesGeneration cells ((Backend.retained store).lookup write.key)
        store.generation (.same e) = true := by
      rw [hheld]
      exact decide_eq_true rfl
    unfold insertPrepared Retention.insert at *
    dsimp only at *
    rw [if_neg (by unfold lookup at hmatches; rw [hmatches]; decide)] at *
    split at hoversized
    · exact absurd rfl hoversized
    · rename_i hfits
      rw [if_neg hfits] at hprotected ⊢
      split at hprotected
      · exact absurd rfl hprotected
      · exact Retention.store_lookup _ world write.key write.entry

end Backend

theorem Generations.create (limits : MemoryLimits) (expiry : MemoryExpiry) (timing : Timing)
    (route : K → Fin 64) :
    Generations (Backend.create limits expiry timing route : Backend K V) := by
  have hfirst : (1 : Nat) ≤ u64Max := by decide
  unfold Backend.create
  split <;> exact ⟨hfirst, fun key entry generation hslot => by cases hslot⟩

theorem Generations.run {s t : State K V} {ops : List (Op K V)} (hs : Generations s.backend)
    (h : Run.exec Memory.next s ops = some t) : Generations t.backend :=
  Run.exec_invariant (I := fun m => Generations m.backend)
    (fun _ _ _ hm hstep => Generations.next hm hstep) hs h

end Memory

namespace Entry

variable {V : Type}

theorem atInsertion_physicalExpiration (e : Entry V) (insertedAt : Timestamp) (inst : Instance) :
    (e.atInsertion insertedAt inst).metadata.physicalExpiration =
      e.metadata.physicalExpiration := by
  unfold atInsertion
  split <;> rfl

theorem atInsertion_inst_ne {e : Entry V} {insertedAt : Timestamp} {inst other : Instance}
    (h : e.inst ≠ other) (hinst : inst ≠ other) : (e.atInsertion insertedAt inst).inst ≠ other := by
  unfold atInsertion
  split
  · exact h
  · exact hinst

end Entry

theorem EntryOptions.weight_of_validate {options : EntryOptions} (h : options.validate = .ok ()) :
    ∃ size, options.weight = .ok size := by
  cases hsize : options.weight with
  | error error =>
    unfold validate at h
    rw [hsize] at h
    cases h
  | ok size => exact ⟨size, rfl⟩

namespace PassiveRefresh

open Commit Recovery

variable {K V : Type}

/-! ## Options and copies -/

/-- The options the refresh reads. -/
structure RefreshOptions where
  lifetime : EntryOptions
  skipMemoryWrite : Bool
  enableAutoClone : Bool

inductive RefreshError where
  | config (error : ConfigError)
  | autoCloneWithoutCloner
  /-- `CloneError`. -/
  | clone
  /-- `Error::OperationCancelled` and `Error::FactoryCancelled`. -/
  | cancelled
deriving DecidableEq

/-- What the cache was built with: its default options and the strategy that copies values. -/
structure Config (V : Type) where
  defaultOptions : RefreshOptions
  cloner : Option (V → Option V)

namespace Config

/-- `validate_with_cloner`. -/
def validate (cfg : Config V) (options : RefreshOptions) : Except RefreshError Unit :=
  match options.lifetime.validate with
  | .error error => .error (.config error)
  | .ok () =>
    if options.enableAutoClone && cfg.cloner.isNone then .error .autoCloneWithoutCloner else .ok ()

/-- `resolve_options(raw, None)`; `provided` is what the default options provider answers. -/
def resolve (cfg : Config V) (provided : Option RefreshOptions) :
    Except RefreshError RefreshOptions :=
  let options := provided.getD cfg.defaultOptions
  match cfg.validate options with
  | .error error => .error error
  | .ok () => .ok options

/-- `copy_value`. -/
def copy (cfg : Config V) (options : RefreshOptions) (value : V) : Except RefreshError V :=
  match options.lifetime.validate with
  | .error error => .error (.config error)
  | .ok () =>
    if options.enableAutoClone then
      match cfg.cloner with
      | some cloner => (cloner value).elim (.error .clone) .ok
      | none => .error .autoCloneWithoutCloner
    else .ok value

/-- The value strategy the options select accepts the value. -/
def copies (cfg : Config V) (options : RefreshOptions) (value : V) : Bool :=
  !options.enableAutoClone || cfg.cloner.any fun cloner => (cloner value).isSome

theorem resolve_eq_ok {cfg : Config V} {provided : Option RefreshOptions}
    {options : RefreshOptions} (h : cfg.resolve provided = .ok options) :
    options.lifetime.validate = .ok () := by
  unfold resolve validate at h
  dsimp only at h
  cases hvalid : (provided.getD cfg.defaultOptions).lifetime.validate with
  | error error =>
    rw [hvalid] at h
    cases h
  | ok =>
    split at h
    · cases h
    · obtain rfl := Except.ok.inj h
      exact hvalid

/-- Under valid options a copy fails only where the strategy does. -/
theorem copy_isOk {cfg : Config V} {options : RefreshOptions}
    (h : options.lifetime.validate = .ok ()) (value : V) :
    (∃ copied, cfg.copy options value = .ok copied) ↔ cfg.copies options value = true := by
  unfold copy copies
  rw [h]
  dsimp only
  cases options.enableAutoClone with
  | false => exact iff_of_true ⟨value, rfl⟩ rfl
  | true =>
    rw [if_pos rfl]
    cases cfg.cloner with
    | none => exact iff_of_false (by rintro ⟨_, h⟩; cases h) Bool.false_ne_true
    | some cloner =>
      dsimp only
      rw [Bool.not_true, Bool.false_or, Option.any_some]
      cases cloner value with
      | none => exact iff_of_false (by rintro ⟨_, h⟩; cases h) Bool.false_ne_true
      | some copied => exact iff_of_true ⟨copied, rfl⟩ rfl

end Config

/-! ## The message -/

structure Shared (K V : Type) where
  /-- L1; its world carries the continuity epoch. -/
  memory : Memory.State K V
  lanes : Lanes K

namespace Shared

def epoch (s : Shared K V) : Nat := s.memory.world.epoch

variable [LinearOrder K]

/-- L1 answers a read at this time with this representation. -/
def Serves (s : Shared K V) (key : K) (now : Timestamp) (e : Entry V) : Prop :=
  (s.memory.backend.read s.memory.world key (some now)).1 = some e

end Shared

variable [LinearOrder K]

/-- The `Set` branch of `apply_backplane` under the guard of the lane: the representation to be
refreshed and the fence of the refresh. `none` where no refresh starts: the message is older than
the lane or than L1, the lane is exhausted, or L1 has nothing. -/
def acceptSet (s : Shared K V) (lane : LaneId) (message : Message K) (now : Timestamp) :
    Option (Entry V × Fence × Shared K V) :=
  if (s.lanes.lane lane).timestamp.any fun revision => message.timestamp < revision then none
  else
    let read := s.memory.backend.read s.memory.world message.key (some now)
    if read.1.any fun entry => message.timestamp < entry.metadata.created then none
    else
      match (s.lanes.lane lane).advance message.timestamp, read.1 with
      | some advanced, some existing =>
        some (existing, ⟨⟨lane, advanced.generation, 0⟩, s.epoch, 0⟩,
          { memory := { s.memory with backend := read.2 }
            lanes := s.lanes.modify lane advanced })
      | _, _ => none

/-! ## The refresh -/

/-- What `read_l2` comes to. -/
inductive L2Read (V : Type) where
  | absent
  | found (entry : Entry V)
  | cancelled
  /-- Any other error. -/
  | failed

/-- What the refresh is given from outside. -/
structure Input (V : Type) where
  provided : Option RefreshOptions
  read : L2Read V
  /-- `tags` of the entry that was read. -/
  verdict : TagVerdict
  /-- The clock at `prepare_memory_hydration`. -/
  preparedAt : Timestamp
  /-- The clock at the operation on L1. -/
  insertedAt : Timestamp
  /-- The allocation of the copy, and of the copy rebuilt for another instant. -/
  inst : Instance
  rebuilt : Instance

/-- What the refresh does with L1, decided under the lane guard. -/
inductive Decision (V : Type) where
  | failed (error : RefreshError)
  | superseded
  | nothing
  | replace (copy : Entry V)
  | remove

/-- `passive` up to its operation on L1. -/
def judge (cfg : Config V) (s : Shared K V) (fence : Fence) (input : Input V) : Decision V :=
  match cfg.resolve input.provided with
  | .error error => .failed error
  | .ok options =>
    if !s.lanes.passiveIsCurrent s.epoch fence then .superseded
    else
      match input.read with
      | .absent | .failed => .remove
      | .cancelled => .failed .cancelled
      | .found source =>
        if input.verdict = .remove then .remove
        else if options.skipMemoryWrite then .nothing
        else
          match source.prepareMemoryHydration s.epoch options.lifetime input.preparedAt with
          | .error error => .failed (.config error)
          | .ok none => .nothing
          | .ok (some metadata) =>
            match cfg.copy options source.value with
            | .error error => .failed error
            | .ok value =>
              .replace ({ source with metadata }.withHydratedValue value fence.capturedEpoch
                input.inst)

inductive Outcome where
  | failed (error : RefreshError)
  | superseded
  | untouched
  | inserted (admission : Memory.MemoryAdmission)
  | removed
deriving DecidableEq

/-- The end of `passive`: the fence is checked again before an insertion. -/
def conclude (s : Shared K V) (key : K) (expected : Entry V) (fence : Fence) (input : Input V) :
    Decision V → Outcome × Shared K V
  | .failed error => (.failed error, s)
  | .superseded => (.superseded, s)
  | .nothing => (.untouched, s)
  | .replace copy =>
    if !s.lanes.passiveIsCurrent s.epoch fence then (.superseded, s)
    else
      -- `insert_if_unchanged`
      let write := Memory.prepareWrite key copy ⟨input.insertedAt, s.memory.world.instant⟩ .set
        input.rebuilt
      let commit := s.memory.backend.applyWrite s.memory.owners s.memory.cells s.memory.world write
        (.same expected)
      (.inserted commit.1.admission,
        { s with memory := (Memory.committed s.memory commit).2 })
  | .remove =>
    -- `remove_if_same`
    (.removed,
      { s with
        memory := { s.memory with
          backend := (s.memory.backend.removed key (some expected)).2 } })

/-- The write was declined because of the limits of L1. -/
def Outcome.refusedForCapacity : Outcome → Bool
  | .inserted (.rejected .oversized) | .inserted (.rejected .protectedCapacity) => true
  | _ => false

/-! ## Which refreshes retire the old representation -/

/-- The physical boundary of the copy that is made of an L2 entry at `now`. -/
def hydratedUntil (source : Entry V) (options : EntryOptions) (now : Timestamp) : Timestamp :=
  max (min source.metadata.physicalExpiration (now.saturatingAdd options.physicalTtl))
    (min source.metadata.logicalExpiration (now.saturatingAdd options.resolvedMemoryDuration))

/-- The refresh replaces or removes what it was started for: the options resolve, and L2 has
nothing, the read fails, the tags remove the entry, or memory writes are enabled and the entry is
alive when it is prepared, copies, and its copy is still alive when it is inserted. -/
def Retires (cfg : Config V) (epoch : Nat) (input : Input V) : Prop :=
  ∃ options, cfg.resolve input.provided = .ok options ∧
    match input.read with
    | .absent | .failed => True
    | .cancelled => False
    | .found source =>
      input.verdict = .remove ∨
        options.skipMemoryWrite = false ∧
        source.isReadEligible epoch = true ∧
        source.isPhysicallyExpired input.preparedAt = false ∧
        cfg.copies options source.value = true ∧
        input.insertedAt.isBefore
          (hydratedUntil source options.lifetime input.preparedAt) = true

/-- What a decision leads to, at the clock of its operation on L1. -/
def Decision.retires (insertedAt : Timestamp) : Decision V → Bool
  | .remove => true
  | .replace copy => insertedAt.isBefore copy.metadata.physicalExpiration
  | .failed _ | .superseded | .nothing => false

omit [LinearOrder K] in
theorem judge_retires_iff {cfg : Config V} {s : Shared K V} {fence : Fence} {input : Input V}
    (hcurrent : s.lanes.passiveIsCurrent s.epoch fence = true) :
    (judge cfg s fence input).retires input.insertedAt = true ↔ Retires cfg s.epoch input := by
  unfold judge Retires
  cases hresolve : cfg.resolve input.provided with
  | error error => exact iff_of_false Bool.false_ne_true (by rintro ⟨_, h, -⟩; cases h)
  | ok options =>
    have hvalid := Config.resolve_eq_ok hresolve
    dsimp only
    rw [if_neg (by rw [hcurrent]; decide)]
    have hone : ∀ P : RefreshOptions → Prop,
        (∃ o, (Except.ok options : Except RefreshError _) = .ok o ∧ P o) ↔ P options := fun P =>
      ⟨by rintro ⟨_, h, hP⟩; exact Except.ok.inj h ▸ hP, fun hP => ⟨_, rfl, hP⟩⟩
    rw [hone]
    cases input.read with
    | absent => exact iff_of_true rfl trivial
    | failed => exact iff_of_true rfl trivial
    | cancelled => exact iff_of_false Bool.false_ne_true id
    | found source =>
      dsimp only
      split
      · rename_i hremove
        exact iff_of_true rfl (.inl hremove)
      rename_i hkept
      split
      · rename_i hskip
        refine iff_of_false Bool.false_ne_true ?_
        rintro (hremove | ⟨hwrites, -⟩)
        · exact hkept hremove
        · rw [hskip] at hwrites
          cases hwrites
      rename_i hwrites
      obtain ⟨size, hsize⟩ := EntryOptions.weight_of_validate hvalid
      rcases Entry.prepareMemoryHydration_cases s.epoch source input.preparedAt hsize with
        ⟨hnone, hdead⟩ | ⟨metadata, hsome, halive, hlogical, hphysical⟩
      · rw [hnone]
        refine iff_of_false Bool.false_ne_true ?_
        rintro (hremove | ⟨-, heligible, hunexpired, -⟩)
        · exact hkept hremove
        · rw [heligible, hunexpired] at hdead
          simp at hdead
      · rw [hsome]
        rw [not_or, Bool.not_eq_false, Bool.not_eq_true] at halive
        have hcopies : (∃ copied, cfg.copy options source.value = .ok copied) ↔ _ :=
          Config.copy_isOk hvalid source.value
        have huntil : metadata.physicalExpiration =
            hydratedUntil source options.lifetime input.preparedAt := by
          rw [hphysical, hlogical]
          rfl
        cases hcopy : cfg.copy options source.value with
        | error error =>
          refine iff_of_false Bool.false_ne_true ?_
          rintro (hremove | ⟨-, -, -, hcopied, -⟩)
          · exact hkept hremove
          · obtain ⟨copied, hok⟩ := hcopies.mpr hcopied
            rw [hcopy] at hok
            cases hok
        | ok value =>
          show input.insertedAt.isBefore metadata.physicalExpiration = true ↔ _
          rw [huntil]
          refine ⟨fun hlive => .inr ⟨by simpa using hwrites, halive.1, halive.2,
            hcopies.mp ⟨value, hcopy⟩, hlive⟩, ?_⟩
          rintro (hremove | ⟨-, -, -, -, hlive⟩)
          · exact absurd hremove hkept
          · exact hlive

omit [LinearOrder K] in
/-- The copy a refresh inserts is a new representation. -/
theorem judge_replace_inst {cfg : Config V} {s : Shared K V} {fence : Fence} {input : Input V}
    {copy : Entry V} (h : judge cfg s fence input = .replace copy) : copy.inst = input.inst := by
  unfold judge at h
  repeat' split at h
  all_goals cases h
  rfl

section

variable {s : Shared K V} {key : K} {e : Entry V} {fence : Fence} {input : Input V}
  {decision : Decision V}

/-- What the refresh inserts for a decided copy. -/
theorem conclude_replace (hcurrent : s.lanes.passiveIsCurrent s.epoch fence = true)
    (copy : Entry V) :
    conclude s key e fence input (.replace copy) =
      let commit := s.memory.backend.applyWrite s.memory.owners s.memory.cells s.memory.world
        ⟨key, copy.atInsertion input.insertedAt input.rebuilt,
          ⟨input.insertedAt, s.memory.world.instant⟩, .set⟩ (.same e)
      (.inserted commit.1.admission, { s with memory := (Memory.committed s.memory commit).2 }) :=
  if_neg (by rw [hcurrent]; decide)

/-- **The replacement.** A refresh that retires what L1 still holds leaves nothing, or the
representation hydrated from L2. -/
theorem conclude_lookup (hs : Memory.Generations s.memory.backend)
    (hcurrent : s.lanes.passiveIsCurrent s.epoch fence = true)
    (hcapacity : (conclude s key e fence input decision).1.refusedForCapacity = false)
    (hheld : s.memory.backend.lookup key = some e)
    (hretires : decision.retires input.insertedAt = true) :
    (conclude s key e fence input decision).2.memory.backend.lookup key = none ∨
      ∃ copy, decision = .replace copy ∧
        (conclude s key e fence input decision).2.memory.backend.lookup key =
          some (copy.atInsertion input.insertedAt input.rebuilt) := by
  cases decision with
  | failed error => cases hretires
  | superseded => cases hretires
  | nothing => cases hretires
  | remove =>
    refine .inl (Option.eq_none_iff_forall_ne_some.mpr fun other hother => ?_)
    have hsame := s.memory.backend.removed_shrinks key (some e) key other hother
    obtain rfl : e = other := Option.some.inj (hheld.symm.trans hsame)
    exact s.memory.backend.removed_lookup_ne key e hother
  | replace copy =>
    refine .inr ⟨copy, rfl, ?_⟩
    rw [conclude_replace hcurrent] at hcapacity ⊢
    dsimp only at hcapacity
    refine Memory.Backend.applyWrite_same_lookup hs s.memory.owners s.memory.cells s.memory.world
      hheld ?_ (fun h => ?_) fun h => ?_
    · rw [Entry.atInsertion_physicalExpiration]
      exact hretires
    · rw [h] at hcapacity
      cases hcapacity
    · rw [h] at hcapacity
      cases hcapacity

/-- What the refresh was started for is served on exactly where the decision keeps it. -/
theorem conclude_serves_iff (hs : Memory.Generations s.memory.backend)
    (hcurrent : s.lanes.passiveIsCurrent s.epoch fence = true)
    (hinst : ∀ copy, decision = .replace copy → copy.inst ≠ e.inst)
    (hrebuilt : input.rebuilt ≠ e.inst)
    (hcapacity : (conclude s key e fence input decision).1.refusedForCapacity = false) :
    (conclude s key e fence input decision).2.Serves key input.insertedAt e ↔
      s.Serves key input.insertedAt e ∧ decision.retires input.insertedAt = false := by
  cases hretires : decision.retires input.insertedAt with
  | false =>
    rw [and_iff_left rfl]
    cases decision with
    | failed error => exact Iff.rfl
    | superseded => exact Iff.rfl
    | nothing => exact Iff.rfl
    | remove => cases hretires
    | replace copy =>
      -- A copy that is dead by now is declined.
      rw [conclude_replace hcurrent]
      unfold Memory.Backend.applyWrite
      rw [if_pos (by
        rw [Entry.atInsertion_physicalExpiration]
        exact (congrArg (!·) hretires : _))]
      exact Iff.rfl
  | true =>
    refine iff_of_false (fun hserves => ?_) (fun h => Bool.noConfusion h.2)
    have hkept := Memory.Backend.read_lookup hserves
    have hheld : s.memory.backend.lookup key = some e := by
      cases decision with
      | failed error => cases hretires
      | superseded => cases hretires
      | nothing => cases hretires
      | remove => exact s.memory.backend.removed_shrinks key (some e) key e hkept
      | replace copy =>
        rw [conclude_replace hcurrent] at hkept
        have hinserted := Memory.Backend.insertIfUnchanged_lookup
          (show (s.memory.backend.applyWrite _ _ _ _ ((some e).elim .absent .same)).2.1.lookup key =
            some e from hkept)
        rcases hinserted with hheld | ⟨-, hcopy, -⟩
        · exact hheld
        · exact absurd (congrArg Entry.inst hcopy).symm
            (Entry.atInsertion_inst_ne (hinst copy rfl) hrebuilt)
    rcases conclude_lookup hs hcurrent hcapacity hheld hretires with hnone | ⟨copy, rfl, hcopy⟩
    · rw [hnone] at hkept
      cases hkept
    · have hsame := Option.some.inj (hkept.symm.trans hcopy)
      exact absurd (congrArg Entry.inst hsame).symm
        (Entry.atInsertion_inst_ne (hinst copy rfl) hrebuilt)

end

/-- L1 when the message comes in, when the refresh decides and when it operates on L1: in between
the other users of L1 run. -/
theorem generations_of_refresh {limits : Memory.MemoryLimits} {expiry : Memory.MemoryExpiry}
    {timing : Memory.Timing} {route : K → Fin 64} {world : Memory.World}
    {before between : List (Memory.Op K V)} {s accepted ending : Shared K V} {lane : LaneId}
    {message : Message K} {now : Timestamp} {e : Entry V} {fence : Fence}
    (hbefore : Run.exec Memory.next (Memory.init (.create limits expiry timing route) world) before =
      some s.memory)
    (haccept : acceptSet s lane message now = some (e, fence, accepted))
    (hbetween : Run.exec Memory.next accepted.memory between = some ending.memory) :
    Memory.Generations ending.memory.backend := by
  have hs : Memory.Generations s.memory.backend :=
    (Memory.Generations.create limits expiry timing route).run hbefore
  refine Memory.Generations.run ?_ hbetween
  unfold acceptSet at haccept
  dsimp only at haccept
  split at haccept
  · cases haccept
  split at haccept
  · cases haccept
  split at haccept
  · obtain ⟨-, -, rfl⟩ : _ ∧ _ ∧ _ := by simpa using haccept
    have hstep : Memory.next s.memory (.get message.key (some now)) = some { s.memory with
        backend := (s.memory.backend.read s.memory.world message.key (some now)).2 } := rfl
    exact hs.next hstep
  · cases haccept

/-- **What a peer's set leaves in L1.** A refresh that ends with its fence current and without a
refusal for capacity leaves the overwritten representation unserved exactly where L1 does not
serve it by then anyway, or the refresh replaces or removes it; what L1 still held it then trades
for nothing or for the representation hydrated from L2. -/
theorem peer_set_retires_iff (cfg : Config V) (limits : Memory.MemoryLimits)
    (expiry : Memory.MemoryExpiry) (timing : Memory.Timing) (route : K → Fin 64)
    (world : Memory.World) (before between during : List (Memory.Op K V))
    (s accepted judged ending : Shared K V) (lane : LaneId) (message : Message K)
    (now : Timestamp) (e : Entry V) (fence : Fence) (input : Input V)
    (hbefore : Run.exec Memory.next (Memory.init (.create limits expiry timing route) world) before =
      some s.memory)
    (haccept : acceptSet s lane message now = some (e, fence, accepted))
    (hbetween : Run.exec Memory.next accepted.memory between = some judged.memory)
    (hjudged : judged.lanes.passiveIsCurrent judged.epoch fence = true)
    (hduring : Run.exec Memory.next judged.memory during = some ending.memory)
    (hending : ending.lanes.passiveIsCurrent ending.epoch fence = true)
    (hinst : input.inst ≠ e.inst) (hrebuilt : input.rebuilt ≠ e.inst)
    (hcapacity : (conclude ending message.key e fence input
      (judge cfg judged fence input)).1.refusedForCapacity = false) :
    (¬ (conclude ending message.key e fence input (judge cfg judged fence input)).2.Serves
        message.key input.insertedAt e ↔
      ¬ ending.Serves message.key input.insertedAt e ∨ Retires cfg judged.epoch input) ∧
    (ending.memory.backend.lookup message.key = some e → Retires cfg judged.epoch input →
      (conclude ending message.key e fence input
          (judge cfg judged fence input)).2.memory.backend.lookup message.key = none ∨
        ∃ copy, judge cfg judged fence input = .replace copy ∧
          (conclude ending message.key e fence input
              (judge cfg judged fence input)).2.memory.backend.lookup message.key =
            some (copy.atInsertion input.insertedAt input.rebuilt)) := by
  have hmemory : Run.exec Memory.next accepted.memory (between ++ during) = some ending.memory :=
    Run.exec_append_eq_some.mpr ⟨judged.memory, hbetween, hduring⟩
  have hgenerations : Memory.Generations ending.memory.backend :=
    generations_of_refresh hbefore haccept hmemory
  have hretires : (judge cfg judged fence input).retires input.insertedAt = true ↔ _ :=
    judge_retires_iff hjudged
  have hserves := conclude_serves_iff hgenerations hending
    (fun copy hcopy => judge_replace_inst hcopy ▸ hinst) hrebuilt hcapacity
  constructor
  · rw [hserves, ← hretires, not_and_or, Bool.not_eq_false]
  · exact fun hheld h =>
      conclude_lookup hgenerations hending hcapacity hheld (hretires.mpr h)

/-! ## A refresh that keeps the old value -/

/-- L1 with a value written at 10 and alive until 1000. -/
def populated : Shared Nat Nat where
  memory := (Memory.applyWrite
    (Memory.init (.create ⟨none, none⟩ .clockDriven .interoperable fun _ => Memory.firstShard) ⟨0, 0⟩)
    ⟨0, .intoFresh 1 (.fromTicks 10) (.fromTicks 1000) 0, ⟨.fromTicks 10, 0⟩, .set⟩ .any).2
  lanes := .empty

def peerSet : Message Nat := ⟨.fromTicks 20, .set, 0⟩

/-- A cache whose default options do, or do not, write to memory. -/
def defaults (skipMemoryWrite : Bool) : Config Nat where
  defaultOptions := ⟨subTickOptions, skipMemoryWrite, false⟩
  cloner := none

/-- The refresh finds what the peer wrote. -/
def peerValue : Input Nat where
  provided := none
  read := .found (.intoFresh 2 (.fromTicks 20) (.fromTicks 1000) 1)
  verdict := .valid
  preparedAt := .fromTicks 20
  insertedAt := .fromTicks 20
  inst := 2
  rebuilt := 3

theorem peer_set_keeps_serving : ∃ e fence accepted,
    acceptSet populated 0 peerSet (.fromTicks 20) = some (e, fence, accepted) ∧
    accepted.lanes.passiveIsCurrent accepted.epoch fence = true ∧
    (conclude accepted 0 e fence peerValue
      (judge (defaults true) accepted fence peerValue)).1 = .untouched ∧
    (conclude accepted 0 e fence peerValue
      (judge (defaults true) accepted fence peerValue)).2.Serves 0 (.fromTicks 20) e :=
  ⟨_, _, _, rfl, rfl, rfl, rfl⟩

theorem peer_set_retires_iff_default : ∃ e fence accepted,
    acceptSet populated 0 peerSet (.fromTicks 20) = some (e, fence, accepted) ∧
    (¬ (conclude accepted 0 e fence peerValue
        (judge (defaults false) accepted fence peerValue)).2.Serves 0 (.fromTicks 20) e ↔
      ¬ accepted.Serves 0 (.fromTicks 20) e ∨ Retires (defaults false) accepted.epoch peerValue) :=
  ⟨_, _, _, rfl, (peer_set_retires_iff (defaults false) ⟨none, none⟩ .clockDriven .interoperable
    (fun _ => 0) ⟨0, 0⟩
    [.insertAt ⟨0, .intoFresh 1 (.fromTicks 10) (.fromTicks 1000) 0, ⟨.fromTicks 10, 0⟩, .set⟩]
    [] [] populated _ _ _ 0 peerSet (.fromTicks 20) _ _ peerValue rfl rfl rfl rfl rfl rfl
    (by decide) (by decide) rfl).1⟩

end PassiveRefresh

end Amalgam
