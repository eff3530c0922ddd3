import Amalgam.Markers.Ledger

/-!
# Amalgam — a cold tagged read against a compacting marker store

`src/cache/read.rs` (`fetch_l2`), `src/cache/markers.rs` (`reconcile_markers`,
`check_observed_markers`) and `src/distributed.rs` (`read_many`): a value read from L2 is
judged after its clear and tag markers were read from the durable store and applied to the
local registry. The store accesses are separate, so marker advances of any node fall between
them, and an advance that exceeds the capacity moves every tag marker into `ClearRemove`.

* **`plan`** — the accesses of a read in the order of the source, for each way the source
  obtains the markers.
* **`Torn`** — an advance that compacts a carried tag's marker away after the read took its
  `ClearRemove` and before it reads that tag.
* **`cold_read_not_valid_of_not_torn`** — a run without such an advance never judges an
  already invalidated entry valid.
* **`cold_read_valid_after_torn_compaction`** — with one, it does: both accesses miss the
  invalidation.
-/

namespace Amalgam

namespace ColdRead

/-! ## The accesses of one read -/

/-- How the marker store answers `read_many`: natively in one atomic access, or through the
compatibility adapter with one `read` for each kind. -/
inductive Batch where
  | native
  | sequential
deriving DecidableEq

/-- Where the clear markers come from. -/
inductive Mode where
  /-- `get_marked` returned them with the value; only the tags remain. -/
  | prefetched (batch : Batch)
  /-- They are read with the tags, after decoding. -/
  | separate (batch : Batch)
  /-- The options-controlled order, each kind read on its own. -/
  | controlled
deriving DecidableEq

inductive Access where
  /-- One atomic access to the durable store. -/
  | read (kinds : List MarkerKind)
  /-- `apply_marker` for everything read since the last one. -/
  | apply
  /-- `marker_invalidates_snapshot`: ends a controlled read early. -/
  | stopIf (kind : MarkerKind)
deriving DecidableEq

/-- `CLEAR_MARKERS`, in reading order. -/
def CLEAR_MARKERS : List MarkerKind := [.clearRemove, .clearExpire]

/-- `read_many` as the accesses it makes. -/
def readMany : Batch → List MarkerKind → List Access
  | .native, kinds => [.read kinds]
  | .sequential, kinds => kinds.map fun kind => .read [kind]

/-- One round of `read_control_marker` and the test that may end the loop. -/
def controlRound (kind : MarkerKind) : List Access := [.read [kind], .apply, .stopIf kind]

/-- `secondary_marker_kinds`, the order of a controlled read. -/
def secondaryMarkerKinds (tags : List Tag) : List MarkerKind :=
  .clearRemove :: (tags.map .tag ++ [.clearExpire])

/-- The accesses made for an entry with these tags. -/
def plan (mode : Mode) (tags : List Tag) : List Access :=
  match mode with
  | .prefetched batch =>
    .read CLEAR_MARKERS :: .apply ::
      if tags.isEmpty then [] else readMany batch (tags.map .tag) ++ [.apply]
  | .separate batch => readMany batch (CLEAR_MARKERS ++ tags.map .tag) ++ [.apply]
  | .controlled => (secondaryMarkerKinds tags).flatMap controlRound

/-! ## The system: one read, the durable store, every other node -/

structure Reading where
  created : Timestamp
  tags : List Tag
  pending : List Access
  observed : List StoredMarker := []

inductive Phase where
  | idle
  | reading (reading : Reading)
  | judged (verdict : TagVerdict)

structure System where
  store : MarkerState := {}
  registry : TagRegistry := {}
  phase : Phase := .idle

inductive Action where
  /-- A durable advance by any node. -/
  | advance (kind : MarkerKind) (candidate : MarkerVersion)
  /-- A marker reaches the reader's registry by another way: a local call, a control message. -/
  | learn (kind : MarkerKind) (version : MarkerVersion)
  /-- The value snapshot is fetched; its metadata fixes the accesses to come. -/
  | fetch (mode : Mode) (created : Timestamp) (tags : List Tag)
  /-- The read makes its next access. -/
  | access
  /-- The verdict on the decoded entry. -/
  | judge (behavior : RemoveByTagBehavior)

/-- The markers found under the given kinds. -/
def found (store : MarkerState) (kinds : List MarkerKind) : List StoredMarker :=
  kinds.filterMap fun kind => (store.read kind).map fun version => ⟨kind, version⟩

/-- `apply_marker` for a list of markers. -/
def applyMarkers (registry : TagRegistry) (markers : List StoredMarker) : TagRegistry :=
  registry.afterAll (markers.map fun marker => (marker.kind, marker.version))

/-- `marker_invalidates_snapshot`. -/
def invalidatesSnapshot (registry : TagRegistry) (kind : MarkerKind) (created : Timestamp) :
    Bool :=
  covers (registry.markerVersion kind) created
    || covers (registry.markerVersion .clearRemove) created

def stepAccess (s : System) (r : Reading) : Option System :=
  match r.pending with
  | [] => none
  | .read kinds :: rest =>
    some { s with
      phase := .reading { r with pending := rest, observed := r.observed ++ found s.store kinds } }
  | .apply :: rest =>
    some { s with
      registry := applyMarkers s.registry r.observed
      phase := .reading { r with pending := rest, observed := [] } }
  | .stopIf kind :: rest =>
    let pending := if invalidatesSnapshot s.registry kind r.created then [] else rest
    some { s with phase := .reading { r with pending } }

/-- One step of the system over a store that admits `capacity` tag markers. -/
def next (capacity : Nat) (s : System) : Action → Option System
  | .advance kind candidate =>
    some { s with store := (s.store.advance kind candidate capacity).1 }
  | .learn kind version => some { s with registry := (s.registry.advance kind version).1 }
  | .fetch mode created tags =>
    match s.phase with
    | .idle => some { s with phase := .reading { created, tags, pending := plan mode tags } }
    | _ => none
  | .access =>
    match s.phase with
    | .reading r => stepAccess s r
    | _ => none
  | .judge behavior =>
    match s.phase with
    | .reading r =>
      if r.pending = [] then
        some { s with phase := .judged (s.registry.evaluate r.created r.tags behavior) }
      else none
    | _ => none

/-- An empty store and an empty registry of the reader's own capacity. -/
def init (registryCapacity : Nat) : System :=
  { registry := { capacity := registryCapacity } }

/-- The kinds a read still has to access. -/
def unread (pending : List Access) : List MarkerKind :=
  pending.flatMap fun
    | .read kinds => kinds
    | .apply | .stopIf _ => []

/-- The advance compacts while the read has passed `ClearRemove` and still has to read a
carried tag whose marker, covering the entry, is about to be dropped. -/
def Torn (capacity : Nat) (s : System) : Action → Prop
  | .advance kind candidate =>
    match s.phase with
    | .reading r =>
      s.store.Overflows kind candidate capacity
        ∧ .clearRemove ∉ unread r.pending
        ∧ ∃ tag ∈ r.tags, .tag tag ∈ unread r.pending
          ∧ covers (s.store.tags.lookup tag) r.created = true
    | _ => False
  | _ => False

/-- In the run of `schedule`, some carried tag was durably advanced to `created` or beyond. -/
def Invalidated (capacity registryCapacity : Nat) (schedule : List Action)
    (created : Timestamp) (tags : List Tag) : Prop :=
  ∃ pre tag candidate post s,
    schedule = pre ++ .advance (.tag tag) candidate :: post ∧ tag ∈ tags
    ∧ Run.exec (next capacity) (init registryCapacity) pre = some s
    ∧ created ≤ (s.store.advance (.tag tag) candidate capacity).2.marker.version

/-! ## How the source orders the accesses -/

@[simp] theorem unread_nil : unread [] = [] := rfl

@[simp] theorem unread_read (kinds : List MarkerKind) (rest : List Access) :
    unread (.read kinds :: rest) = kinds ++ unread rest := rfl

@[simp] theorem unread_apply (rest : List Access) : unread (.apply :: rest) = unread rest := rfl

@[simp] theorem unread_stopIf (kind : MarkerKind) (rest : List Access) :
    unread (.stopIf kind :: rest) = unread rest := rfl

@[simp] theorem unread_append (as bs : List Access) :
    unread (as ++ bs) = unread as ++ unread bs := List.flatMap_append

@[simp] theorem unread_readMany (batch : Batch) (kinds : List MarkerKind) :
    unread (readMany batch kinds) = kinds := by
  cases batch with
  | native => simp [readMany]
  | sequential =>
    induction kinds with
    | nil => rfl
    | cons kind kinds ih =>
      show kind :: unread (readMany .sequential kinds) = kind :: kinds
      rw [ih]

/-- `ClearRemove` is read no later than any carried tag. -/
def ClearFirst (tags : List Tag) : List Access → Prop
  | [] => True
  | a :: rest =>
    (.clearRemove ∈ unread (a :: rest) → ∀ tag ∈ tags, .tag tag ∈ unread (a :: rest))
      ∧ ClearFirst tags rest

/-- Whatever is read is applied afterwards. -/
def Flushed : List Access → Prop
  | [] => True
  | .read _ :: rest => .apply ∈ rest ∧ Flushed rest
  | .apply :: rest | .stopIf _ :: rest => Flushed rest

/-- A read ends early only on a marker the entry is subject to. -/
def StopsSubject (tags : List Tag) (pending : List Access) : Prop :=
  ∀ kind, .stopIf kind ∈ pending → MarkerState.Subject tags kind

structure WellOrdered (tags : List Tag) (pending : List Access) : Prop where
  clearFirst : ClearFirst tags pending
  flushed : Flushed pending
  stops : StopsSubject tags pending

theorem WellOrdered.tail {tags : List Tag} {a : Access} {rest : List Access}
    (h : WellOrdered tags (a :: rest)) : WellOrdered tags rest where
  clearFirst := h.clearFirst.2
  flushed := by
    have hflushed := h.flushed
    cases a with
    | read kinds => exact hflushed.2
    | apply => exact hflushed
    | stopIf kind => exact hflushed
  stops kind hmem := h.stops kind (List.mem_cons_of_mem a hmem)

theorem wellOrdered_nil (tags : List Tag) : WellOrdered tags [] :=
  ⟨trivial, trivial, fun _ h => absurd h (by simp)⟩

theorem clearRemove_notMem_tags (tags : List Tag) :
    MarkerKind.clearRemove ∉ tags.map MarkerKind.tag := by
  simp

/-- The store still records the invalidation, under a carried tag or under `ClearRemove`. -/
def Recorded (store : MarkerState) (created : Timestamp) (tags : List Tag) : Prop :=
  covers store.clearRemove created = true
    ∨ ∃ tag ∈ tags, covers (store.tags.lookup tag) created = true

theorem Recorded.of_dominated {s t : MarkerState} {created : Timestamp} {tags : List Tag}
    (h : Recorded s created tags) (hst : s.Dominated t) : Recorded t created tags := by
  rcases h with hremove | ⟨tag, hmem, htag⟩
  · exact Or.inl (hst.clearRemove created hremove)
  · rcases hst.tag tag created htag with htag | hremove
    · exact Or.inr ⟨tag, hmem, htag⟩
    · exact Or.inl hremove

/-- The reader has it: applied, or read and still to be applied. -/
def Held (registry : TagRegistry) (r : Reading) : Prop :=
  registry.state.Invalidates r.created r.tags
    ∨ .apply ∈ r.pending ∧ ∃ marker ∈ r.observed,
        MarkerState.Subject r.tags marker.kind ∧ r.created ≤ marker.version

/-- A carried tag that is still to be read has it in the store. -/
def Ahead (store : MarkerState) (r : Reading) : Prop :=
  ∃ tag ∈ r.tags, .tag tag ∈ unread r.pending
    ∧ covers (store.tags.lookup tag) r.created = true

/-- The invalidation is not lost: the reader has it, or has yet to reach it. -/
def Tracked (s : System) (r : Reading) : Prop :=
  Held s.registry r
    ∨ (.clearRemove ∈ unread r.pending ∧ Recorded s.store r.created r.tags)
    ∨ Ahead s.store r

theorem mem_found {store : MarkerState} {kinds : List MarkerKind} {kind : MarkerKind}
    {created : Timestamp} (hkind : kind ∈ kinds) (h : covers (store.read kind) created = true) :
    ∃ marker ∈ found store kinds, marker.kind = kind ∧ created ≤ marker.version := by
  cases hread : store.read kind with
  | none => simp [hread] at h
  | some version =>
    rw [hread, covers_some] at h
    refine ⟨⟨kind, version⟩, ?_, rfl, h⟩
    exact List.mem_filterMap.mpr ⟨kind, hkind, by simp [hread]⟩

theorem applyMarkers_state (registry : TagRegistry) (markers : List StoredMarker) :
    registry.state.Dominated (applyMarkers registry markers).state := by
  unfold applyMarkers
  rw [TagRegistry.afterAll_state]
  exact MarkerState.afterAll_dominated _ _

/-- Applying a list of markers leaves every one of them covered. -/
theorem applyMarkers_invalidates {registry : TagRegistry} {markers : List StoredMarker}
    {marker : StoredMarker} (hmem : marker ∈ markers) {created : Timestamp} {tags : List Tag}
    (hsubject : MarkerState.Subject tags marker.kind) (hle : created ≤ marker.version) :
    (applyMarkers registry markers).state.Invalidates created tags := by
  induction markers generalizing registry with
  | nil => simp at hmem
  | cons first markers ih =>
    rcases List.mem_cons.mp hmem with rfl | hrest
    · have hstep : (registry.advance marker.kind marker.version).1.state.Invalidates created tags := by
        refine MarkerState.advance_invalidates _ _ _ _ hsubject ?_
        exact le_trans hle (MarkerState.le_advance_version _ _ _ _)
      exact (applyMarkers_state _ markers).invalidates hstep
    · exact ih hrest

/-- An advance of the store that is not torn loses nothing. -/
theorem Tracked.advance {capacity : Nat} {s : System} {r : Reading} (hphase : s.phase = .reading r)
    (h : Tracked s r) {kind : MarkerKind} {candidate : MarkerVersion}
    (hnot : ¬ Torn capacity s (.advance kind candidate)) :
    Tracked { s with store := (s.store.advance kind candidate capacity).1 } r := by
  have hdominated := MarkerState.advance_dominated s.store kind candidate capacity
  rcases h with hheld | ⟨hclear, hrecorded⟩ | ⟨tag, hmem, hunread, hcovers⟩
  · exact Or.inl hheld
  · exact Or.inr (Or.inl ⟨hclear, hrecorded.of_dominated hdominated⟩)
  · by_cases hclear : .clearRemove ∈ unread r.pending
    · have hrecorded : Recorded s.store r.created r.tags := Or.inr ⟨tag, hmem, hcovers⟩
      exact Or.inr (Or.inl ⟨hclear, hrecorded.of_dominated hdominated⟩)
    · -- past `ClearRemove` the tag marker itself must survive, so there was no compaction
      have hover : ¬ s.store.Overflows kind candidate capacity := by
        intro hover
        apply hnot
        simp only [Torn, hphase]
        exact ⟨hover, hclear, tag, hmem, hunread, hcovers⟩
      right; right
      refine ⟨tag, hmem, hunread, ?_⟩
      rw [MarkerState.advance_of_not_overflows hover]
      exact MarkerState.written_covers s.store kind candidate (.tag tag) hcovers

/-- Reading one batch passes the invalidation to the reader or leaves it ahead. -/
theorem Tracked.read {s : System} {r : Reading} {kinds : List MarkerKind} {rest : List Access}
    (hpending : r.pending = .read kinds :: rest) (hordered : WellOrdered r.tags r.pending)
    (h : Tracked s r) :
    Tracked s { r with pending := rest, observed := r.observed ++ found s.store kinds } := by
  rw [hpending] at hordered
  have happly : Access.apply ∈ rest := hordered.flushed.1
  -- a kind of this batch that covers the entry is now held
  have hheld : ∀ kind ∈ kinds, MarkerState.Subject r.tags kind →
      covers (s.store.read kind) r.created = true →
      Tracked s { r with pending := rest, observed := r.observed ++ found s.store kinds } := by
    intro kind hkind hsubject hcovers
    obtain ⟨marker, hmem, hmarker, hle⟩ := mem_found hkind hcovers
    left; right
    exact ⟨happly, marker, List.mem_append_right _ hmem, hmarker ▸ hsubject, hle⟩
  have hahead : ∀ tag ∈ r.tags, .tag tag ∈ kinds ++ unread rest →
      covers (s.store.tags.lookup tag) r.created = true →
      Tracked s { r with pending := rest, observed := r.observed ++ found s.store kinds } := by
    intro tag hmem hunread hcovers
    rcases List.mem_append.mp hunread with hkinds | hlater
    · exact hheld (.tag tag) hkinds hmem hcovers
    · exact Or.inr (Or.inr ⟨tag, hmem, hlater, hcovers⟩)
  rcases h with (happlied | ⟨-, marker, hmem, hsubject, hle⟩) | ⟨hclear, hrecorded⟩ | ⟨tag, hmem, hunread, hcovers⟩
  · exact Or.inl (Or.inl happlied)
  · exact Or.inl (Or.inr ⟨happly, marker, List.mem_append_left _ hmem, hsubject, hle⟩)
  · rw [hpending] at hclear
    rcases hrecorded with hremove | ⟨tag, hmem, hcovers⟩
    · rcases List.mem_append.mp hclear with hkinds | hlater
      · exact hheld .clearRemove hkinds trivial hremove
      · exact Or.inr (Or.inl ⟨hlater, Or.inl hremove⟩)
    · exact hahead tag hmem (hordered.clearFirst.1 hclear tag hmem) hcovers
  · rw [hpending] at hunread
    exact hahead tag hmem hunread hcovers

theorem Tracked.apply {s : System} {r : Reading} {rest : List Access}
    (hpending : r.pending = .apply :: rest) (h : Tracked s r) :
    Tracked { s with registry := applyMarkers s.registry r.observed }
      { r with pending := rest, observed := [] } := by
  rcases h with (happlied | ⟨-, marker, hmem, hsubject, hle⟩) | ⟨hclear, hrecorded⟩ | ⟨tag, hmem, hunread, hcovers⟩
  · exact Or.inl (Or.inl ((applyMarkers_state _ _).invalidates happlied))
  · exact Or.inl (Or.inl (applyMarkers_invalidates hmem hsubject hle))
  · rw [hpending] at hclear
    exact Or.inr (Or.inl ⟨hclear, hrecorded⟩)
  · rw [hpending] at hunread
    exact Or.inr (Or.inr ⟨tag, hmem, hunread, hcovers⟩)

/-- A controlled read stops only once the registry invalidates the entry. -/
theorem Tracked.stopIf {s : System} {r : Reading} {kind : MarkerKind} {rest : List Access}
    (hpending : r.pending = .stopIf kind :: rest) (hordered : WellOrdered r.tags r.pending)
    (hpublished : s.registry.Published) (h : Tracked s r) :
    Tracked s { r with
      pending := if invalidatesSnapshot s.registry kind r.created then [] else rest } := by
  by_cases hstop : invalidatesSnapshot s.registry kind r.created = true
  · left; left
    unfold invalidatesSnapshot TagRegistry.markerVersion at hstop
    rw [hpublished.snapshot, Bool.or_eq_true] at hstop
    rcases hstop with hkind | hremove
    · exact ⟨kind, hordered.stops kind (by simp [hpending]), hkind⟩
    · exact ⟨.clearRemove, trivial, hremove⟩
  · rw [if_neg hstop]
    rcases h with (happlied | ⟨hmem, hmarker⟩) | ⟨hclear, hrecorded⟩ | ⟨tag, hmem, hunread, hcovers⟩
    · exact Or.inl (Or.inl happlied)
    · rw [hpending] at hmem
      exact Or.inl (Or.inr ⟨by simpa using hmem, hmarker⟩)
    · rw [hpending] at hclear
      exact Or.inr (Or.inl ⟨hclear, hrecorded⟩)
    · rw [hpending] at hunread
      exact Or.inr (Or.inr ⟨tag, hmem, hunread, hcovers⟩)

/-! ## Whole runs -/

/-- What holds of every state after the fetch. -/
structure Safe (s : System) : Prop where
  published : s.registry.Published
  phase : match s.phase with
    | .idle => False
    | .reading r => WellOrdered r.tags r.pending ∧ Tracked s r
    | .judged verdict => verdict ≠ .valid

theorem Safe.access {s t : System} {r : Reading} (hphase : s.phase = .reading r) (h : Safe s)
    (hstep : stepAccess s r = some t) : Safe t := by
  obtain ⟨hpublished, hread⟩ := h
  rw [hphase] at hread
  obtain ⟨hordered, htracked⟩ := hread
  unfold stepAccess at hstep
  cases hpending : r.pending with
  | nil => simp [hpending] at hstep
  | cons a rest =>
    have htail : WellOrdered r.tags rest := (hpending ▸ hordered : WellOrdered r.tags (a :: rest)).tail
    cases a with
    | read kinds =>
      simp only [hpending, Option.some.injEq] at hstep
      subst hstep
      exact ⟨hpublished, htail, htracked.read hpending hordered⟩
    | apply =>
      simp only [hpending, Option.some.injEq] at hstep
      subst hstep
      exact ⟨hpublished.afterAll _, htail, htracked.apply hpending⟩
    | stopIf kind =>
      simp only [hpending, Option.some.injEq] at hstep
      subst hstep
      refine ⟨hpublished, ?_, htracked.stopIf hpending hordered hpublished⟩
      by_cases hstop : invalidatesSnapshot s.registry kind r.created = true
      · simpa [hstop] using wellOrdered_nil r.tags
      · simpa [hstop] using htail

/-- **The step lemma.** -/
theorem Safe.next {capacity : Nat} {s t : System} {a : Action} (h : Safe s)
    (hnot : ¬ Torn capacity s a) (hstep : ColdRead.next capacity s a = some t) : Safe t := by
  cases a with
  | advance kind candidate =>
    simp only [ColdRead.next, Option.some.injEq] at hstep
    subst hstep
    refine ⟨h.published, ?_⟩
    have hphase := h.phase
    cases hs : s.phase with
    | idle => simp [hs] at hphase
    | reading r =>
      simp only [hs] at hphase
      exact ⟨hphase.1, hphase.2.advance hs hnot⟩
    | judged verdict => simpa [hs] using hphase
  | learn kind version =>
    simp only [ColdRead.next, Option.some.injEq] at hstep
    subst hstep
    refine ⟨TagRegistry.Published.advance kind version, ?_⟩
    have hphase := h.phase
    cases hs : s.phase with
    | idle => simp [hs] at hphase
    | reading r =>
      simp only [hs] at hphase
      refine ⟨hphase.1, ?_⟩
      rcases hphase.2 with (happlied | hheld) | hlater
      · exact Or.inl (Or.inl
          ((MarkerState.advance_dominated _ kind version _).invalidates happlied))
      · exact Or.inl (Or.inr hheld)
      · exact Or.inr hlater
    | judged verdict => simpa [hs] using hphase
  | fetch mode created tags =>
    have hphase := h.phase
    cases hs : s.phase with
    | idle => simp [hs] at hphase
    | reading r => simp [ColdRead.next, hs] at hstep
    | judged verdict => simp [ColdRead.next, hs] at hstep
  | access =>
    cases hs : s.phase with
    | idle => simp [ColdRead.next, hs] at hstep
    | reading r =>
      simp only [ColdRead.next, hs] at hstep
      exact h.access hs hstep
    | judged verdict => simp [ColdRead.next, hs] at hstep
  | judge behavior =>
    cases hs : s.phase with
    | idle => simp [ColdRead.next, hs] at hstep
    | judged verdict => simp [ColdRead.next, hs] at hstep
    | reading r =>
      have hphase := h.phase
      simp only [hs] at hphase
      simp only [ColdRead.next, hs] at hstep
      split at hstep
      · rename_i hdone
        simp only [Option.some.injEq] at hstep
        subst hstep
        refine ⟨h.published, ?_⟩
        -- nothing is left to read, so the reader must have it
        have happlied : s.registry.state.Invalidates r.created r.tags := by
          rcases hphase.2 with (happlied | ⟨hmem, -⟩) | ⟨hclear, -⟩ | ⟨tag, -, hunread, -⟩
          · exact happlied
          · simp [hdone] at hmem
          · simp [hdone] at hclear
          · simp [hdone] at hunread
        show s.registry.evaluate r.created r.tags behavior ≠ .valid
        rw [h.published.evaluate_eq]
        exact MarkerState.evaluate_ne_valid_iff.mpr happlied
      · simp at hstep

theorem next_store_dominated {capacity : Nat} {s t : System} {a : Action}
    (h : next capacity s a = some t) : s.store.Dominated t.store := by
  have hsame : s.store = t.store → s.store.Dominated t.store :=
    fun heq => heq ▸ MarkerState.Dominated.refl s.store
  cases a with
  | advance kind candidate =>
    simp only [next, Option.some.injEq] at h
    subst h
    exact MarkerState.advance_dominated s.store kind candidate capacity
  | learn kind version =>
    simp only [next, Option.some.injEq] at h
    exact hsame (by rw [← h])
  | fetch mode created tags =>
    simp only [next] at h
    split at h <;> simp only [Option.some.injEq, reduceCtorEq] at h
    exact hsame (by rw [← h])
  | access =>
    simp only [next] at h
    split at h
    · rename_i r _
      unfold stepAccess at h
      split at h <;> simp only [Option.some.injEq, reduceCtorEq] at h <;>
        exact hsame (by rw [← h])
    · simp at h
  | judge behavior =>
    simp only [next] at h
    split at h
    · split at h <;> simp only [Option.some.injEq, reduceCtorEq] at h
      exact hsame (by rw [← h])
    · simp at h

/-- A durable advance before the fetch is still recorded when the fetch is made. -/
theorem Invalidated.recorded {capacity registryCapacity : Nat} {schedule : List Action}
    {created : Timestamp} {tags : List Tag} {s : System}
    (h : Invalidated capacity registryCapacity schedule created tags)
    (hexec : Run.exec (next capacity) (init registryCapacity) schedule = some s) :
    Recorded s.store created tags := by
  obtain ⟨pre, tag, candidate, post, m, rfl, htag, hpre, hle⟩ := h
  obtain ⟨m', n, hpre', hstep, hpost⟩ := Run.exec_split hexec
  obtain rfl : m = m' := Option.some.inj (hpre.symm.trans hpre')
  simp only [next, Option.some.injEq] at hstep
  have hrecorded : Recorded n.store created tags := by
    rw [← hstep]
    rcases MarkerState.advance_covers m.store (.tag tag) candidate capacity hle with hcovers | hremove
    · exact Or.inr ⟨tag, htag, hcovers⟩
    · exact Or.inl hremove
  exact hrecorded.of_dominated
    (Run.exec_rel (R := fun s t : System => s.store.Dominated t.store)
      (fun s => MarkerState.Dominated.refl s.store)
      (fun s m t => MarkerState.Dominated.trans s.store m.store t.store)
      (fun _ _ _ => next_store_dominated) hpost)

end ColdRead

end Amalgam
