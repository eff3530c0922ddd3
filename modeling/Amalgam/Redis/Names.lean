import Amalgam.Markers.Observations
import Amalgam.Redis.Snapshots

/-!
# Amalgam — every name in Redis is the name of one thing

`src/redis_backend.rs` keeps values, leases, journals and marker snapshots in one flat keyspace.
What belongs to amalgam itself stands behind `PRIVATE_AREA`, each family behind a word of its own;
an application key that begins with the private area is moved to the family of the values.

* **`redisKey_eq_iff`** — two names are written alike exactly when they name the same thing.
* **`names_never_collide`** — and the locks of markers are apart from those of values.
-/

namespace Amalgam

open Keys Text Redis Wire RedisInvalidationStore RedisDistributedLocker RedisDistributedCache

/-! ## The keyspace -/

/-- The families behind the private area. -/
inductive Family where
  | data
  | lease
  | markers
  | markerSnapshots
  | markerScopes
  | unusedLease
deriving DecidableEq

/-- The word after the private area. -/
def Family.text : Family → String
  | .data => "data/"
  | .lease => "lease/"
  | .markers => "markers/"
  | .markerSnapshots => "marker-snapshots/"
  | .markerScopes => "marker-scopes"
  | .unusedLease => "unused-lease"

theorem Family.eq_of_isPrefix {a b : Family} (h : a.text.toList <+: b.text.toList) : a = b := by
  cases a <;> cases b <;> revert h <;> decide

/-- No word begins another one, so what stands behind the private area has one family. -/
theorem Family.eq_of_append {a b : Family} {x y : String} (h : a.text ++ x = b.text ++ y) :
    a = b := by
  have hlist : a.text.toList ++ x.toList = b.text.toList ++ y.toList := by
    rw [← String.toList_append, ← String.toList_append, h]
  have ha : a.text.toList <+: b.text.toList ++ y.toList := ⟨x.toList, hlist⟩
  have hb : b.text.toList <+: b.text.toList ++ y.toList := List.prefix_append ..
  rcases List.prefix_or_prefix_of_prefix ha hb with h | h
  · exact eq_of_isPrefix h
  · exact (eq_of_isPrefix h).symm

/-- What a key of the server is the key of. -/
inductive RedisName where
  | value (key : String)
  | lease (key : String)
  | markers (scope : CacheScope)
  | markerSnapshot (scope : CacheScope) (kind : MarkerKind)
  | markerScopes
  | unusedLease

namespace RedisName

/-- What is written for the name. -/
def redisKey : RedisName → String
  | .value key => valueKey key
  | .lease key => leaseKey key
  | .markers scope => markerKey scope.identity
  | .markerSnapshot scope kind => markerSnapshotKey scope.identity kind
  | .markerScopes => RedisInvalidationStore.markerScopes
  | .unusedLease => PRIVATE_AREA ++ "unused-lease"

/-- The same thing is named; scopes are told apart by their equality. -/
def Same : RedisName → RedisName → Prop
  | .value key, .value other => key = other
  | .lease key, .lease other => key = other
  | .markers scope, .markers other => scope == other
  | .markerSnapshot scope kind, .markerSnapshot other kind' => scope == other ∧ kind = kind'
  | .markerScopes, .markerScopes => True
  | .unusedLease, .unusedLease => True
  | _, _ => False

theorem same_refl (name : RedisName) : name.Same name := by
  cases name with
  | value key => rfl
  | lease key => rfl
  | markers scope => exact CacheScope.beq_iff_identity.mpr rfl
  | markerSnapshot scope kind => exact ⟨CacheScope.beq_iff_identity.mpr rfl, rfl⟩
  | markerScopes => trivial
  | unusedLease => trivial

def family : RedisName → Family
  | .value _ => .data
  | .lease _ => .lease
  | .markers _ => .markers
  | .markerSnapshot _ _ => .markerSnapshots
  | .markerScopes => .markerScopes
  | .unusedLease => .unusedLease

/-- Whether the name is written behind the private area: only a plain value's is not. -/
def isPrivate : RedisName → Bool
  | .value key => (stripLead PRIVATE_AREA key).isSome
  | _ => true

theorem redisKey_private {name : RedisName} (h : name.isPrivate = true) :
    ∃ rest, name.redisKey = PRIVATE_AREA ++ (name.family.text ++ rest) := by
  cases name with
  | value key => exact ⟨encodeHex (utf8 key), if_pos h⟩
  | lease key => exact ⟨encodeHex (utf8 key), rfl⟩
  | markers scope => exact ⟨encodeHex (utf8 (storageId scope.identity)), rfl⟩
  | markerSnapshot scope kind =>
    exact ⟨encodeHex (utf8 (storageId scope.identity)) ++ ("/" ++ markerFieldName kind), rfl⟩
  | markerScopes => exact ⟨"", rfl⟩
  | unusedLease => exact ⟨"", rfl⟩

theorem redisKey_plain {name : RedisName} (h : name.isPrivate = false) (rest : String) :
    name.redisKey ≠ PRIVATE_AREA ++ rest := by
  cases name with
  | value key =>
    have hplain : ¬ (stripLead PRIVATE_AREA key).isSome = true := by
      rw [show (stripLead PRIVATE_AREA key).isSome = false from h]
      decide
    have hkey : valueKey key = key := if_neg hplain
    intro heq
    -- A key that stays as it is does not begin with the private area.
    apply hplain
    rw [← hkey, show valueKey key = PRIVATE_AREA ++ rest from heq]
    exact isSome_stripLead_private rest
  | lease key | markers scope | markerSnapshot scope kind | markerScopes | unusedLease => cases h

theorem family_plain {name : RedisName} (h : name.isPrivate = false) : name.family = .data := by
  cases name with
  | value key => rfl
  | lease key | markers scope | markerSnapshot scope kind | markerScopes | unusedLease => cases h

/-- Two names of one family are the same thing if they are written alike. -/
theorem same_of_redisKey {name other : RedisName} (hfamily : name.family = other.family)
    (h : name.redisKey = other.redisKey) : name.Same other := by
  cases name with
  | value key =>
    cases other with
    | value other => exact valueKey_injective h
    | lease _ | markers _ | markerSnapshot _ _ | markerScopes | unusedLease => cases hfamily
  | lease key =>
    cases other with
    | lease other => exact leaseKey_injective h
    | value _ | markers _ | markerSnapshot _ _ | markerScopes | unusedLease => cases hfamily
  | markers scope =>
    cases other with
    | markers other => exact CacheScope.beq_iff_identity.mpr (markerKey_injective h)
    | value _ | lease _ | markerSnapshot _ _ | markerScopes | unusedLease => cases hfamily
  | markerSnapshot scope kind =>
    cases other with
    | markerSnapshot other kind' =>
      have hparts := markerSnapshotKey_inj h
      exact ⟨CacheScope.beq_iff_identity.mpr hparts.1, hparts.2⟩
    | value _ | lease _ | markers _ | markerScopes | unusedLease => cases hfamily
  | markerScopes =>
    cases other with
    | markerScopes => trivial
    | value _ | lease _ | markers _ | markerSnapshot _ _ | unusedLease => cases hfamily
  | unusedLease =>
    cases other with
    | unusedLease => trivial
    | value _ | lease _ | markers _ | markerSnapshot _ _ | markerScopes => cases hfamily

theorem redisKey_congr {name other : RedisName} (h : name.Same other) :
    name.redisKey = other.redisKey := by
  cases name with
  | value key =>
    cases other with
    | value other => exact congrArg valueKey h
    | lease _ | markers _ | markerSnapshot _ _ | markerScopes | unusedLease => cases h
  | lease key =>
    cases other with
    | lease other => exact congrArg leaseKey h
    | value _ | markers _ | markerSnapshot _ _ | markerScopes | unusedLease => cases h
  | markers scope =>
    cases other with
    | markers other => exact congrArg markerKey (CacheScope.beq_iff_identity.mp h)
    | value _ | lease _ | markerSnapshot _ _ | markerScopes | unusedLease => cases h
  | markerSnapshot scope kind =>
    cases other with
    | markerSnapshot other kind' =>
      show markerSnapshotKey scope.identity kind = markerSnapshotKey other.identity kind'
      rw [CacheScope.beq_iff_identity.mp h.1, h.2]
    | value _ | lease _ | markers _ | markerScopes | unusedLease => cases h
  | markerScopes =>
    cases other with
    | markerScopes => rfl
    | value _ | lease _ | markers _ | markerSnapshot _ _ | unusedLease => cases h
  | unusedLease =>
    cases other with
    | unusedLease => rfl
    | value _ | lease _ | markers _ | markerSnapshot _ _ | markerScopes => cases h

theorem redisKey_eq_iff {name other : RedisName} :
    name.redisKey = other.redisKey ↔ name.Same other := by
  constructor
  · intro h
    cases hname : name.isPrivate with
    | true =>
      obtain ⟨rest, hrest⟩ := redisKey_private hname
      cases hother : other.isPrivate with
      | true =>
        obtain ⟨rest', hrest'⟩ := redisKey_private hother
        have htexts := (String.append_right_inj _).mp (hrest.symm.trans (h.trans hrest'))
        exact same_of_redisKey (Family.eq_of_append htexts) h
      | false => exact absurd (h.symm.trans hrest) (redisKey_plain hother _)
    | false =>
      cases hother : other.isPrivate with
      | true =>
        obtain ⟨rest', hrest'⟩ := redisKey_private hother
        exact absurd (h.trans hrest') (redisKey_plain hname _)
      | false =>
        -- Only values are written as they are.
        exact same_of_redisKey ((family_plain hname).trans (family_plain hother).symm) h
  · exact redisKey_congr

end RedisName

/-! ## Locks -/

/-- `MarkerLeaseKey::new`, `src/marker_leases.rs`. -/
def MarkerLeaseKey.new (scope : CacheScope) (kind : MarkerKind) : String :=
  "\u001famalgam/v2/marker-locks/" ++ (encodeHex (utf8 scope.storageId) ++ ("/" ++
    encodeHex (utf8 kind.observationKey)))

/-- The lock under which the value of a physical key is made. -/
def lockKey (physical : String) : String := "amalgam:lock:" ++ physical

theorem MarkerLeaseKey.new_eq_iff {scope scope' : CacheScope} {kind kind' : MarkerKind} :
    new scope kind = new scope' kind' ↔ scope == scope' ∧ kind = kind' := by
  constructor
  · intro h
    have hparts := encodeHex_slash_inj ((String.append_right_inj _).mp h)
    have hkind : utf8 kind.observationKey = utf8 kind'.observationKey :=
      encodeHex_injective hparts.2
    exact ⟨CacheScope.storageId_eq_iff.mp (utf8_injective hparts.1),
      MarkerKind.observationKey_injective (utf8_injective hkind)⟩
  · intro h
    unfold new
    rw [CacheScope.storageId_congr h.1, h.2]

/-- A control lease cannot alias the lock of an ordinary value: the first characters tell them
apart. -/
theorem MarkerLeaseKey.new_ne_lockKey (scope : CacheScope) (kind : MarkerKind)
    (physical : String) : new scope kind ≠ lockKey physical := by
  intro h
  unfold new lockKey at h
  generalize encodeHex (utf8 scope.storageId) ++ _ = rest at h
  have hhead := congrArg (fun name : String => name.toList.take 1) h
  simp only [String.toList_append] at hhead
  rw [List.take_append_of_le_length (by decide), List.take_append_of_le_length (by decide)] at hhead
  exact absurd hhead (by decide)

theorem names_never_collide :
    (∀ name other : RedisName, name.redisKey = other.redisKey ↔ name.Same other) ∧
    (∀ kind kind' : MarkerKind, markerFieldName kind = markerFieldName kind' ↔ kind = kind') ∧
    (∀ (scope scope' : CacheScope) (kind kind' : MarkerKind),
      MarkerLeaseKey.new scope kind = MarkerLeaseKey.new scope' kind' ↔
        scope == scope' ∧ kind = kind') ∧
    (∀ (scope : CacheScope) (kind : MarkerKind) (physical : String),
      MarkerLeaseKey.new scope kind ≠ lockKey physical) :=
  ⟨fun _ _ => RedisName.redisKey_eq_iff,
    fun _ _ => ⟨fun h => markerField_injective (congrArg utf8 h), congrArg markerFieldName⟩,
    fun _ _ _ _ => MarkerLeaseKey.new_eq_iff,
    MarkerLeaseKey.new_ne_lockKey⟩

end Amalgam
