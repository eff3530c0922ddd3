import Amalgam.Time
import Amalgam.Lib.FiniteMap

/-!
# Amalgam — the bounded marker registry

`src/tags.rs`: validated tags, the three marker kinds, the bounded `MarkerState` with its
compaction, and the local `TagRegistry` that judges entries.

An entry is judged by its created version and its tags. The comparison is inclusive: an
entry whose created version equals a marker is invalidated. When more tags are marked than
the capacity admits, `advance` raises `ClearRemove` to the largest tag version and drops the
tag markers it covers.
-/

namespace Amalgam

/-! ## Tags -/

/-- Unicode `White_Space`, the characters removed by `str::trim`. -/
def isWhiteSpace (c : Char) : Bool :=
  let n := c.toNat
  (9 ≤ n && n ≤ 13) || n == 0x20 || n == 0x85 || n == 0xA0 || n == 0x1680
    || (0x2000 ≤ n && n ≤ 0x200A) || n == 0x2028 || n == 0x2029 || n == 0x202F
    || n == 0x205F || n == 0x3000

/-- `tag.trim().is_empty()`. -/
def isBlank (raw : String) : Bool := raw.toList.all isWhiteSpace

inductive TagError where
  | blank
deriving DecidableEq

/-- A nonblank cache tag. -/
structure Tag where
  asStr : String
  nonblank : isBlank asStr = false
deriving DecidableEq

/-- `Tag::new`: validates a raw tag without changing its spelling. -/
def Tag.new (raw : String) : Except TagError Tag :=
  if h : isBlank raw = false then .ok ⟨raw, h⟩ else .error .blank

/-! ## Markers -/

/-- `MarkerVersion(Timestamp)`. -/
abbrev MarkerVersion := Timestamp

inductive MarkerKind where
  | tag (tag : Tag)
  | clearExpire
  | clearRemove
deriving DecidableEq

structure StoredMarker where
  kind : MarkerKind
  version : MarkerVersion
deriving DecidableEq

inductive MarkerAdvanceOutcome where
  | advanced (marker : StoredMarker)
  | compacted (marker : StoredMarker) (clearRemove : MarkerVersion)
deriving DecidableEq

/-- The effective maximum for the requested operation. -/
def MarkerAdvanceOutcome.marker : MarkerAdvanceOutcome → StoredMarker
  | .advanced marker => marker
  | .compacted marker _ => marker

inductive RemoveByTagBehavior where
  | expire
  | remove
deriving DecidableEq

/-- The strongest invalidation applying to an entry. -/
inductive TagVerdict where
  | valid
  | expire
  | remove
deriving DecidableEq

/-- `Valid < Expire < Remove`. -/
def TagVerdict.severity : TagVerdict → Nat
  | .valid => 0
  | .expire => 1
  | .remove => 2

/-- `is_some_and(|at| created <= at)`: the marker, if there is one, covers `created`. -/
def covers (marker : Option MarkerVersion) (created : Timestamp) : Bool :=
  marker.any fun version => decide (created ≤ version)

@[simp] theorem covers_none (created : Timestamp) : covers none created = false := rfl

@[simp] theorem covers_some (version created : Timestamp) :
    covers (some version) created = true ↔ created ≤ version := by
  simp [covers]

structure MarkerState where
  tags : AList fun _ : Tag => MarkerVersion := ∅
  clearExpire : Option MarkerVersion := none
  clearRemove : Option MarkerVersion := none

namespace MarkerState

def read (s : MarkerState) : MarkerKind → Option MarkerVersion
  | .tag tag => s.tags.lookup tag
  | .clearExpire => s.clearExpire
  | .clearRemove => s.clearRemove

/-- `map_or(candidate, |old| old.max(candidate))`. -/
def raised (old : Option MarkerVersion) (candidate : MarkerVersion) : MarkerVersion :=
  old.elim candidate fun old => max old candidate

/-- Stores the merged version under its kind. -/
def put (s : MarkerState) (kind : MarkerKind) (version : MarkerVersion) : MarkerState :=
  match kind with
  | .tag tag => { s with tags := s.tags.insert tag version }
  | .clearExpire => { s with clearExpire := some version }
  | .clearRemove => { s with clearRemove := some version }

/-- `MarkerState::advance`. -/
def advance (s : MarkerState) (kind : MarkerKind) (candidate : MarkerVersion)
    (capacity : Nat) : MarkerState × MarkerAdvanceOutcome :=
  let version := raised (s.read kind) candidate
  let s := s.put kind version
  let marker : StoredMarker := ⟨kind, version⟩
  if s.tags.size ≤ capacity then
    (s, .advanced marker)
  else
    -- a durable global tombstone replaces tag tombstones before they disappear
    let through := s.tags.values.max?.getD version
    let clearRemove := raised s.clearRemove through
    let s : MarkerState :=
      { s with
        clearRemove := some clearRemove
        tags := s.tags.retain fun binding => decide (clearRemove < binding.2) }
    if marker.kind = .clearRemove then
      (s, .advanced ⟨.clearRemove, clearRemove⟩)
    else
      (s, .compacted marker clearRemove)

/-- The body of `TagRegistry::evaluate` once a marker was observed. -/
def evaluate (s : MarkerState) (created : Timestamp) (tags : List Tag)
    (behavior : RemoveByTagBehavior) : TagVerdict :=
  if covers s.clearRemove created then .remove
  else if tags.any fun tag => covers (s.tags.lookup tag) created then
    match behavior with
    | .expire => .expire
    | .remove => .remove
  else if covers s.clearExpire created then .expire
  else .valid

end MarkerState

/-! ## The local registry -/

structure TagRegistry where
  state : MarkerState := {}
  snapshot : MarkerState := {}
  markerObserved : Bool := false
  capacity : Nat := 4096

namespace TagRegistry

/-- `TagRegistry::with_capacity`. -/
def withCapacity (capacity : Nat) : Option TagRegistry :=
  if capacity = 0 then none else some { capacity }

/-- `TagRegistry::advance`: the snapshot is published with the new state. -/
def advance (r : TagRegistry) (kind : MarkerKind) (at_ : MarkerVersion) :
    TagRegistry × MarkerAdvanceOutcome :=
  let (state, outcome) := r.state.advance kind at_ r.capacity
  ({ r with state, snapshot := state, markerObserved := true }, outcome)

/-- `TagRegistry::marker_version`. -/
def markerVersion (r : TagRegistry) (kind : MarkerKind) : Option MarkerVersion :=
  r.snapshot.read kind

/-- `TagRegistry::evaluate`. -/
def evaluate (r : TagRegistry) (created : Timestamp) (tags : List Tag)
    (behavior : RemoveByTagBehavior) : TagVerdict :=
  if r.markerObserved then r.snapshot.evaluate created tags behavior else .valid

end TagRegistry

end Amalgam
