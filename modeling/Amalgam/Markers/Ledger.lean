import Amalgam.Lib.Run
import Amalgam.Markers.State

/-!
# Amalgam — no invalidation is forgotten by compaction

What a marker state is for: it decides, for every created version and tag list, whether the
entry is invalidated. Compaction drops tag markers, so two states cannot be compared kind by
kind; they are compared by what they invalidate.

* **`Invalidates`** — the abstract meaning of a state: some marker the entry is subject to
  covers its created version. `evaluate_ne_valid_iff` says the verdict computes it.
* **`Dominated`** — the order on states: every version a marker of `s` covers is covered in
  `t` by the marker of the same kind, or (for a tag) by `ClearRemove`. It is a preorder, the
  verdict is monotone in it (`Dominated.severity_le`), and every advance moves up in it
  (`advance_dominated`), compaction included.
* **`invalidations_never_forgotten`** — the result over every sequence of advances, with
  the capacity free to change between them.
-/

namespace Amalgam

namespace MarkerState

/-! ## What one advance does -/

theorem le_raised_left {old : MarkerVersion} (candidate : MarkerVersion) :
    old ≤ raised (some old) candidate := le_max_left _ _

theorem le_raised_right (old : Option MarkerVersion) (candidate : MarkerVersion) :
    candidate ≤ raised old candidate := by
  cases old with
  | none => exact le_refl _
  | some old => exact le_max_right _ _

@[simp] theorem read_put_self (s : MarkerState) (kind : MarkerKind) (version : MarkerVersion) :
    (s.put kind version).read kind = some version := by
  cases kind with
  | tag tag => exact AList.lookup_insert s.tags
  | clearExpire => rfl
  | clearRemove => rfl

theorem read_put_of_ne (s : MarkerState) {kind other : MarkerKind} (version : MarkerVersion)
    (h : other ≠ kind) : (s.put kind version).read other = s.read other := by
  cases kind <;> cases other <;> first
    | exact AList.lookup_insert_ne (fun heq => h (congrArg MarkerKind.tag heq))
    | rfl
    | exact absurd rfl h

/-- A tag version is at most the maximum over all tags, whatever the fallback. -/
theorem le_max_values {tags : AList fun _ : Tag => MarkerVersion} {tag : Tag}
    {version : MarkerVersion} (h : tags.lookup tag = some version) (fallback : MarkerVersion) :
    version ≤ tags.values.max?.getD fallback := by
  have hmem : version ∈ tags.values := AList.mem_values.mpr ⟨tag, h⟩
  cases hmax : tags.values.max? with
  | none => simp [List.max?_eq_none_iff.mp hmax] at hmem
  | some top => exact (List.max?_eq_some_iff.mp hmax).2 version hmem

/-- Nothing survives a compaction whose clear version reaches every tag version. -/
theorem retain_above_eq_empty (tags : AList fun _ : Tag => MarkerVersion)
    (clearRemove : MarkerVersion)
    (h : ∀ tag version, tags.lookup tag = some version → version ≤ clearRemove) :
    tags.retain (fun binding => decide (clearRemove < binding.2)) = ∅ := by
  apply AList.ext
  show tags.entries.filter _ = []
  rw [List.filter_eq_nil_iff]
  intro binding hmem
  have hlookup : tags.lookup binding.1 = some binding.2 :=
    (List.mem_dlookup_iff tags.nodupKeys).mpr hmem
  simpa using h binding.1 binding.2 hlookup

/-- The version `advance` compacts through. -/
def compactionVersion (s : MarkerState) (version : MarkerVersion) : MarkerVersion :=
  raised s.clearRemove (s.tags.values.max?.getD version)

/-- The state left by a compaction: no tag markers, one raised clear marker. -/
def compacted (s : MarkerState) (version : MarkerVersion) : MarkerState :=
  { s with tags := ∅, clearRemove := some (s.compactionVersion version) }

/-- The merged version an advance writes. -/
def merged (s : MarkerState) (kind : MarkerKind) (candidate : MarkerVersion) : MarkerVersion :=
  raised (s.read kind) candidate

/-- The state between the write of the marker and a possible compaction. -/
def written (s : MarkerState) (kind : MarkerKind) (candidate : MarkerVersion) : MarkerState :=
  s.put kind (s.merged kind candidate)

/-- The write of `kind` leaves more tag markers than `capacity` admits. -/
def Overflows (s : MarkerState) (kind : MarkerKind) (candidate : MarkerVersion)
    (capacity : Nat) : Prop :=
  capacity < (s.written kind candidate).tags.size

instance (s : MarkerState) (kind : MarkerKind) (candidate : MarkerVersion) (capacity : Nat) :
    Decidable (s.Overflows kind candidate capacity) := by
  unfold Overflows; infer_instance

theorem advance_of_not_overflows {s : MarkerState} {kind : MarkerKind}
    {candidate : MarkerVersion} {capacity : Nat} (h : ¬ s.Overflows kind candidate capacity) :
    s.advance kind candidate capacity =
      (s.written kind candidate, .advanced ⟨kind, s.merged kind candidate⟩) := by
  have hle : (s.put kind (raised (s.read kind) candidate)).tags.size ≤ capacity := not_lt.mp h
  unfold advance
  simp only [hle, if_true]
  rfl

theorem advance_of_overflows {s : MarkerState} {kind : MarkerKind}
    {candidate : MarkerVersion} {capacity : Nat} (h : s.Overflows kind candidate capacity) :
    s.advance kind candidate capacity =
      ((s.written kind candidate).compacted (s.merged kind candidate),
        if kind = .clearRemove then
          .advanced ⟨.clearRemove,
            (s.written kind candidate).compactionVersion (s.merged kind candidate)⟩
        else
          .compacted ⟨kind, s.merged kind candidate⟩
            ((s.written kind candidate).compactionVersion (s.merged kind candidate))) := by
  have hlt : ¬ (s.put kind (raised (s.read kind) candidate)).tags.size ≤ capacity := not_le.mpr h
  -- every tag version is below the compaction version, so `retain` keeps nothing
  have hempty := retain_above_eq_empty (s.written kind candidate).tags
    ((s.written kind candidate).compactionVersion (s.merged kind candidate))
    (fun tag version hlookup =>
      le_trans (le_max_values hlookup _) (le_raised_right _ _))
  unfold written merged compactionVersion at hempty
  unfold advance
  simp only [hlt, if_false, hempty]
  split <;> rfl

/-! ## What a state invalidates -/

/-- The markers an entry carrying `tags` is subject to: its own tags, and every clear. -/
def Subject (tags : List Tag) : MarkerKind → Prop
  | .tag tag => tag ∈ tags
  | .clearExpire | .clearRemove => True

/-- Some marker the entry is subject to covers its created version. -/
def Invalidates (s : MarkerState) (created : Timestamp) (tags : List Tag) : Prop :=
  ∃ kind, Subject tags kind ∧ covers (s.read kind) created = true

theorem invalidates_iff {s : MarkerState} {created : Timestamp} {tags : List Tag} :
    s.Invalidates created tags ↔
      covers s.clearRemove created = true
        ∨ (∃ tag ∈ tags, covers (s.tags.lookup tag) created = true)
        ∨ covers s.clearExpire created = true := by
  constructor
  · rintro ⟨kind, hsubject, hcovers⟩
    cases kind with
    | tag tag => exact Or.inr (Or.inl ⟨tag, hsubject, hcovers⟩)
    | clearExpire => exact Or.inr (Or.inr hcovers)
    | clearRemove => exact Or.inl hcovers
  · rintro (hremove | ⟨tag, hmem, htag⟩ | hexpire)
    · exact ⟨.clearRemove, trivial, hremove⟩
    · exact ⟨.tag tag, hmem, htag⟩
    · exact ⟨.clearExpire, trivial, hexpire⟩

theorem evaluate_ne_valid_iff {s : MarkerState} {created : Timestamp} {tags : List Tag}
    {behavior : RemoveByTagBehavior} :
    s.evaluate created tags behavior ≠ .valid ↔ s.Invalidates created tags := by
  rw [invalidates_iff]
  unfold evaluate
  cases hremove : covers s.clearRemove created with
  | true => simp
  | false =>
    cases htags : tags.any fun tag => covers (s.tags.lookup tag) created with
    | true =>
      obtain ⟨tag, hmem, htag⟩ := List.any_eq_true.mp htags
      cases behavior <;> simp <;> exact Or.inl ⟨tag, hmem, htag⟩
    | false =>
      have hnone : ¬ ∃ tag ∈ tags, covers (s.tags.lookup tag) created = true := by
        rintro ⟨tag, hmem, htag⟩
        exact List.any_eq_false.mp htags tag hmem htag
      cases hexpire : covers s.clearExpire created <;> simp [hnone]

/-! ## The order on states -/

theorem covers_raised {old : Option MarkerVersion} {candidate created : MarkerVersion}
    (h : covers old created = true) : covers (some (raised old candidate)) created = true := by
  cases old with
  | none => simp at h
  | some old =>
    rw [covers_some] at h ⊢
    exact le_trans h (le_raised_left candidate)

/-- Everything `s` covers is still covered in `t`, a tag possibly by the clear marker. -/
structure Dominated (s t : MarkerState) : Prop where
  clearRemove : ∀ created, covers s.clearRemove created = true →
    covers t.clearRemove created = true
  clearExpire : ∀ created, covers s.clearExpire created = true →
    covers t.clearExpire created = true
  tag : ∀ tag created, covers (s.tags.lookup tag) created = true →
    covers (t.tags.lookup tag) created = true ∨ covers t.clearRemove created = true

namespace Dominated

theorem refl (s : MarkerState) : Dominated s s where
  clearRemove _ h := h
  clearExpire _ h := h
  tag _ _ h := Or.inl h

theorem trans (s m t : MarkerState) (hsm : Dominated s m) (hmt : Dominated m t) :
    Dominated s t where
  clearRemove created h := hmt.clearRemove created (hsm.clearRemove created h)
  clearExpire created h := hmt.clearExpire created (hsm.clearExpire created h)
  tag tag created h := by
    rcases hsm.tag tag created h with htag | hclear
    · exact hmt.tag tag created htag
    · exact Or.inr (hmt.clearRemove created hclear)

theorem invalidates {s t : MarkerState} (h : Dominated s t) {created : Timestamp}
    {tags : List Tag} (hs : s.Invalidates created tags) : t.Invalidates created tags := by
  rw [invalidates_iff] at hs ⊢
  rcases hs with hremove | ⟨tag, hmem, htag⟩ | hexpire
  · exact Or.inl (h.clearRemove created hremove)
  · rcases h.tag tag created htag with htag | hremove
    · exact Or.inr (Or.inl ⟨tag, hmem, htag⟩)
    · exact Or.inl hremove
  · exact Or.inr (Or.inr (h.clearExpire created hexpire))

/-- The verdict is monotone: a tag verdict can only turn into the stronger clear verdict. -/
theorem severity_le {s t : MarkerState} (h : Dominated s t) (created : Timestamp)
    (tags : List Tag) (behavior : RemoveByTagBehavior) :
    (s.evaluate created tags behavior).severity ≤
      (t.evaluate created tags behavior).severity := by
  by_cases hremove : covers t.clearRemove created = true
  · have ht : t.evaluate created tags behavior = .remove := by simp [evaluate, hremove]
    rw [ht]
    cases s.evaluate created tags behavior <;> decide
  · have hsremove : covers s.clearRemove created = false := by
      by_contra hne
      exact hremove (h.clearRemove created (by simpa using hne))
    by_cases htag : (tags.any fun tag => covers (s.tags.lookup tag) created) = true
    · obtain ⟨tag, hmem, hcovers⟩ := List.any_eq_true.mp htag
      have htags : (tags.any fun tag => covers (t.tags.lookup tag) created) = true :=
        List.any_eq_true.mpr
          ⟨tag, hmem, (h.tag tag created hcovers).resolve_right hremove⟩
      simp [evaluate, hsremove, hremove, htag, htags]
    · by_cases hexpire : covers s.clearExpire created = true
      · have hs : s.evaluate created tags behavior = .expire := by
          simp [evaluate, hsremove, htag, hexpire]
        have hvalid : t.evaluate created tags behavior ≠ .valid :=
          evaluate_ne_valid_iff.mpr
            ⟨.clearExpire, trivial, h.clearExpire created hexpire⟩
        rw [hs]
        cases ht : t.evaluate created tags behavior with
        | valid => exact absurd ht hvalid
        | expire => exact le_refl _
        | remove => decide
      · simp [evaluate, hsremove, htag, hexpire, TagVerdict.severity]

end Dominated

/-- Writing the merged version covers whatever the old marker of that kind covered. -/
theorem written_covers (s : MarkerState) (kind : MarkerKind) (candidate : MarkerVersion)
    (other : MarkerKind) {created : Timestamp} (h : covers (s.read other) created = true) :
    covers ((s.written kind candidate).read other) created = true := by
  unfold written
  by_cases heq : other = kind
  · subst heq
    rw [read_put_self]
    exact covers_raised h
  · rw [read_put_of_ne s _ heq]
    exact h

theorem written_dominated (s : MarkerState) (kind : MarkerKind) (candidate : MarkerVersion) :
    Dominated s (s.written kind candidate) where
  clearRemove _ h := written_covers s kind candidate .clearRemove h
  clearExpire _ h := written_covers s kind candidate .clearExpire h
  tag tag _ h := Or.inl (written_covers s kind candidate (.tag tag) h)

theorem compacted_dominated (s : MarkerState) (version : MarkerVersion) :
    Dominated s (s.compacted version) where
  clearRemove _ h := covers_raised h
  clearExpire _ h := h
  tag tag created h := by
    right
    cases hlookup : s.tags.lookup tag with
    | none => simp [hlookup] at h
    | some at_ =>
      rw [hlookup, covers_some] at h
      have hle : at_ ≤ s.compactionVersion version :=
        le_trans (le_max_values hlookup version) (le_raised_right _ _)
      exact (covers_some _ _).mpr (le_trans h hle)

/-- **The step lemma.** Every advance moves up, whether or not it compacts. -/
theorem advance_dominated (s : MarkerState) (kind : MarkerKind) (candidate : MarkerVersion)
    (capacity : Nat) : Dominated s (s.advance kind candidate capacity).1 := by
  have hwritten := written_dominated s kind candidate
  by_cases hover : s.Overflows kind candidate capacity
  · rw [advance_of_overflows hover]
    exact hwritten.trans _ _ _ (compacted_dominated _ _)
  · rw [advance_of_not_overflows hover]
    exact hwritten

/-! ## The outcome of one advance -/

theorem advance_marker_kind (s : MarkerState) (kind : MarkerKind) (candidate : MarkerVersion)
    (capacity : Nat) : (s.advance kind candidate capacity).2.marker.kind = kind := by
  by_cases hover : s.Overflows kind candidate capacity
  · rw [advance_of_overflows hover]
    by_cases hkind : kind = .clearRemove <;> simp [hkind, MarkerAdvanceOutcome.marker]
  · rw [advance_of_not_overflows hover]
    rfl

/-- A tag or `ClearExpire` advance reports the merged version. -/
theorem advance_marker_version {s : MarkerState} {kind : MarkerKind}
    (candidate : MarkerVersion) (capacity : Nat) (hkind : kind ≠ .clearRemove) :
    (s.advance kind candidate capacity).2.marker.version = s.merged kind candidate := by
  by_cases hover : s.Overflows kind candidate capacity
  · rw [advance_of_overflows hover, if_neg hkind]
    rfl
  · rw [advance_of_not_overflows hover]
    rfl

/-- A `ClearRemove` advance reports the version it leaves stored. -/
theorem advance_clearRemove_version (s : MarkerState) (candidate : MarkerVersion)
    (capacity : Nat) :
    (s.advance .clearRemove candidate capacity).1.clearRemove =
      some (s.advance .clearRemove candidate capacity).2.marker.version := by
  by_cases hover : s.Overflows .clearRemove candidate capacity
  · rw [advance_of_overflows hover, if_pos rfl]
    rfl
  · rw [advance_of_not_overflows hover]
    rfl

/-- The reported version is never below the candidate. -/
theorem le_advance_version (s : MarkerState) (kind : MarkerKind) (candidate : MarkerVersion)
    (capacity : Nat) : candidate ≤ (s.advance kind candidate capacity).2.marker.version := by
  have hmerged : candidate ≤ s.merged kind candidate := le_raised_right _ _
  by_cases hkind : kind = .clearRemove
  · subst hkind
    have hstored := advance_clearRemove_version s candidate capacity
    by_cases hover : s.Overflows .clearRemove candidate capacity
    · rw [advance_of_overflows hover] at hstored ⊢
      refine le_trans hmerged ?_
      simp only [if_true, MarkerAdvanceOutcome.marker]
      exact le_raised_left _
    · rw [advance_of_not_overflows hover]
      exact hmerged
  · rw [advance_marker_version candidate capacity hkind]
    exact hmerged

theorem advance_compaction_version {s : MarkerState} {kind : MarkerKind}
    {candidate : MarkerVersion} {capacity : Nat} {marker : StoredMarker}
    {clearRemove : MarkerVersion}
    (h : (s.advance kind candidate capacity).2 = .compacted marker clearRemove) :
    (s.advance kind candidate capacity).1.clearRemove = some clearRemove := by
  by_cases hover : s.Overflows kind candidate capacity
  · rw [advance_of_overflows hover] at h ⊢
    by_cases hkind : kind = .clearRemove
    · simp [hkind] at h
    · simp only [if_neg hkind, MarkerAdvanceOutcome.compacted.injEq] at h
      exact congrArg some h.2
  · rw [advance_of_not_overflows hover] at h
    simp at h

theorem advance_size_le (s : MarkerState) (kind : MarkerKind) (candidate : MarkerVersion)
    (capacity : Nat) : (s.advance kind candidate capacity).1.tags.size ≤ capacity := by
  by_cases hover : s.Overflows kind candidate capacity
  · rw [advance_of_overflows hover]
    exact Nat.zero_le capacity
  · rw [advance_of_not_overflows hover]
    exact not_lt.mp hover

/-- After an advance the state covers the reported version, under the kind or the clear. -/
theorem advance_covers (s : MarkerState) (kind : MarkerKind) (candidate : MarkerVersion)
    (capacity : Nat) {created : Timestamp}
    (hle : created ≤ (s.advance kind candidate capacity).2.marker.version) :
    covers ((s.advance kind candidate capacity).1.read kind) created = true
      ∨ covers (s.advance kind candidate capacity).1.clearRemove created = true := by
  by_cases hkind : kind = .clearRemove
  · subst hkind
    right
    rw [advance_clearRemove_version, covers_some]
    exact hle
  · rw [advance_marker_version candidate capacity hkind] at hle
    have hwritten : covers ((s.written kind candidate).read kind) created = true := by
      rw [written, read_put_self, covers_some]
      exact hle
    by_cases hover : s.Overflows kind candidate capacity
    · rw [advance_of_overflows hover]
      have hdominated := compacted_dominated (s.written kind candidate) (s.merged kind candidate)
      cases kind with
      | tag tag => exact hdominated.tag tag created hwritten
      | clearExpire => exact Or.inl (hdominated.clearExpire created hwritten)
      | clearRemove => exact absurd rfl hkind
    · rw [advance_of_not_overflows hover]
      exact Or.inl hwritten

theorem advance_invalidates (s : MarkerState) (kind : MarkerKind) (candidate : MarkerVersion)
    (capacity : Nat) {created : Timestamp} {tags : List Tag} (hsubject : Subject tags kind)
    (hle : created ≤ (s.advance kind candidate capacity).2.marker.version) :
    (s.advance kind candidate capacity).1.Invalidates created tags := by
  rcases advance_covers s kind candidate capacity hle with hkind | hremove
  · exact ⟨kind, hsubject, hkind⟩
  · exact ⟨.clearRemove, trivial, hremove⟩

/-! ## Sequences of advances -/

/-- One call of `advance`, with the capacity in force at that call. -/
structure Advance where
  kind : MarkerKind
  candidate : MarkerVersion
  capacity : Nat

def applyAdvance (s : MarkerState) (a : Advance) : MarkerState :=
  (s.advance a.kind a.candidate a.capacity).1

/-- The state after a sequence of advances. -/
def afterAll (s : MarkerState) (advances : List Advance) : MarkerState :=
  advances.foldl applyAdvance s

theorem afterAll_append (s : MarkerState) (pre post : List Advance) :
    s.afterAll (pre ++ post) = (s.afterAll pre).afterAll post :=
  List.foldl_append

/-- **The run lemma.** A sequence of advances moves up as a whole. -/
theorem afterAll_dominated (s : MarkerState) (advances : List Advance) :
    Dominated s (s.afterAll advances) :=
  Run.exec_rel Dominated.refl Dominated.trans
    (fun s a t h => by
      obtain rfl : s.applyAdvance a = t := Option.some.inj h
      exact advance_dominated s a.kind a.candidate a.capacity)
    (Run.exec_total applyAdvance s advances)

end MarkerState

namespace TagRegistry

/-- A registry publishes every state it reaches: after at least one advance the verdict is
that of the current state, and before the first one the empty state judges nothing. -/
structure Published (r : TagRegistry) : Prop where
  snapshot : r.snapshot = r.state
  pristine : r.markerObserved = false → r.state = {}

theorem Published.evaluate_eq {r : TagRegistry} (h : r.Published) (created : Timestamp)
    (tags : List Tag) (behavior : RemoveByTagBehavior) :
    r.evaluate created tags behavior = r.state.evaluate created tags behavior := by
  unfold evaluate
  cases hobserved : r.markerObserved with
  | true => simp [h.snapshot]
  | false =>
    rw [h.pristine hobserved]
    simp [MarkerState.evaluate, covers]

theorem Published.advance {r : TagRegistry} (kind : MarkerKind) (version : MarkerVersion) :
    (r.advance kind version).1.Published where
  snapshot := rfl
  pristine h := by simp [TagRegistry.advance] at h

/-- The registry after a sequence of advances. -/
def afterAll (r : TagRegistry) (advances : List (MarkerKind × MarkerVersion)) : TagRegistry :=
  advances.foldl (fun r a => (r.advance a.1 a.2).1) r

/-- The registry runs the marker state at its fixed capacity. -/
theorem afterAll_state (r : TagRegistry) (advances : List (MarkerKind × MarkerVersion)) :
    (r.afterAll advances).state =
      r.state.afterAll (advances.map fun a => ⟨a.1, a.2, r.capacity⟩) := by
  induction advances generalizing r with
  | nil => rfl
  | cons a advances ih => exact ih (r.advance a.1 a.2).1

theorem Published.afterAll {r : TagRegistry} (h : r.Published)
    (advances : List (MarkerKind × MarkerVersion)) : (r.afterAll advances).Published := by
  induction advances generalizing r with
  | nil => exact h
  | cons a advances ih => exact ih (Published.advance a.1 a.2)

end TagRegistry

/-- **No invalidation is forgotten.** For every sequence of advances on an empty marker state,
with any capacity at each: the verdict never weakens along the sequence; an entry subject to
a marker advanced to its created version or beyond is never judged valid again; the tag
markers fit the capacity of the last advance; each advance reports the merged maximum (a
`ClearRemove` the stored one, a compaction the stored `ClearRemove`); and a registry of any
capacity judges entries by that state. -/
theorem invalidations_never_forgotten (advances : List MarkerState.Advance) :
    let after := MarkerState.afterAll {}
    (∀ pre post, advances = pre ++ post → ∀ created tags behavior,
      ((after pre).evaluate created tags behavior).severity ≤
        ((after advances).evaluate created tags behavior).severity)
    ∧ (∀ pre a post, advances = pre ++ a :: post → ∀ created tags behavior,
        MarkerState.Subject tags a.kind →
        created ≤ ((after pre).advance a.kind a.candidate a.capacity).2.marker.version →
        (after advances).evaluate created tags behavior ≠ .valid)
    ∧ (∀ pre a, advances = pre ++ [a] → (after advances).tags.size ≤ a.capacity)
    ∧ (∀ pre a post, advances = pre ++ a :: post →
        let old := after pre
        let new := (old.advance a.kind a.candidate a.capacity).1
        let outcome := (old.advance a.kind a.candidate a.capacity).2
        outcome.marker.kind = a.kind
        ∧ (a.kind ≠ .clearRemove →
            outcome.marker.version = (old.read a.kind).elim a.candidate (max · a.candidate))
        ∧ (a.kind = .clearRemove → new.read .clearRemove = some outcome.marker.version)
        ∧ (∀ marker clearRemove, outcome = .compacted marker clearRemove →
            new.read .clearRemove = some clearRemove))
    ∧ (∀ capacity calls, advances = calls.map (fun a => ⟨a.1, a.2, capacity⟩) →
        ∀ created tags behavior,
          (TagRegistry.afterAll { capacity } calls).evaluate created tags behavior =
            (after advances).evaluate created tags behavior) := by
  intro after
  refine ⟨?_, ?_, ?_, ?_, ?_⟩
  · rintro pre post rfl created tags behavior
    rw [show after (pre ++ post) = (after pre).afterAll post from
      MarkerState.afterAll_append _ pre post]
    exact (MarkerState.afterAll_dominated _ post).severity_le created tags behavior
  · rintro pre a post rfl created tags behavior hsubject hle
    have hstep : ((after pre).applyAdvance a).Invalidates created tags :=
      MarkerState.advance_invalidates _ _ _ _ hsubject hle
    rw [show after (pre ++ a :: post) = ((after pre).applyAdvance a).afterAll post from
      MarkerState.afterAll_append _ pre (a :: post)]
    exact MarkerState.evaluate_ne_valid_iff.mpr
      ((MarkerState.afterAll_dominated _ post).invalidates hstep)
  · rintro pre a rfl
    rw [show after (pre ++ [a]) = (after pre).applyAdvance a from
      MarkerState.afterAll_append _ pre [a]]
    exact MarkerState.advance_size_le _ _ _ _
  · rintro pre a post -
    refine ⟨MarkerState.advance_marker_kind _ _ _ _, ?_, ?_, ?_⟩
    · intro hkind
      exact MarkerState.advance_marker_version _ _ hkind
    · intro hkind
      rw [hkind]
      exact MarkerState.advance_clearRemove_version _ _ _
    · intro marker clearRemove h
      exact MarkerState.advance_compaction_version h
  · rintro capacity calls rfl created tags behavior
    have hpublished : (TagRegistry.afterAll { capacity } calls).Published :=
      TagRegistry.Published.afterAll ⟨rfl, fun _ => rfl⟩ calls
    rw [hpublished.evaluate_eq, TagRegistry.afterAll_state]

end Amalgam
