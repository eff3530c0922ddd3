import Amalgam.EntryLifetimes
import Amalgam.Keys.Scope
import Amalgam.Lib.Run
import Amalgam.TimeArithmetic
import Mathlib.Data.Prod.Lex

/-!
# Amalgam — expiring control snapshots in memory

`src/marker_snapshots.rs` and `InMemoryInvalidationStore` of `src/distributed.rs`: a durable journal
of marker maxima and, beside it, a bounded map of expiring snapshots. Every operation takes the
journal's lock before the snapshots' and is one step here.

* **`snapshots_safe`** — along every run a snapshot only moves up in (version, created) until it
  expires or is evicted, what is returned covers the journal, the map stays within its bound, and
  renewals leave the journal alone.
-/

namespace Amalgam

open Keys

/-! ## Snapshots -/

/-- A validated observation of an invalidation revision: `created ≤ logical ≤ physical`. -/
structure MarkerSnapshot where
  version : MarkerVersion
  created : Timestamp
  logical : Timestamp
  physical : Timestamp
  created_le : created ≤ logical
  logical_le : logical ≤ physical
deriving DecidableEq

inductive MarkerSnapshotValidationError where
  | invalidDeadlines
  | zeroCapacity
deriving DecidableEq

/-- Time is added in order. -/
theorem Timestamp.le_saturatingAdd (t : Timestamp) (d : Duration) : t ≤ t.saturatingAdd d := by
  have hnonneg := durationTicksWide_nonneg d
  have hupper := t.upper
  rw [Timestamp.le_iff_ticks, saturatingAdd]
  split
  · dsimp only
    omega
  · exact hupper

namespace MarkerSnapshot

def new (version : MarkerVersion) (created logical physical : Timestamp) :
    Except MarkerSnapshotValidationError MarkerSnapshot :=
  if h : created ≤ logical ∧ logical ≤ physical then
    .ok ⟨version, created, logical, physical, h.1, h.2⟩
  else .error .invalidDeadlines

theorem new_self (s : MarkerSnapshot) :
    new s.version s.created s.logical s.physical = .ok s :=
  dif_pos ⟨s.created_le, s.logical_le⟩

theorem resolved_le_physicalTtl (options : EntryOptions) :
    options.resolvedDistributedDuration ≤ options.distributedPhysicalTtl := by
  rw [EntryOptions.distributedPhysicalTtl]
  split
  · exact le_max_left _ _
  · exact le_refl _

def fresh (version : MarkerVersion) (options : EntryOptions) (now : Timestamp) :
    MarkerSnapshot where
  version
  created := now
  logical := now.saturatingAdd options.resolvedDistributedDuration
  physical := now.saturatingAdd options.distributedPhysicalTtl
  created_le := now.le_saturatingAdd _
  logical_le := Timestamp.saturatingAdd_mono (le_refl now) (resolved_le_physicalTtl options)

def isFresh (s : MarkerSnapshot) (now : Timestamp) : Bool := now < s.logical && now < s.physical

def isPhysicallyExpired (s : MarkerSnapshot) (now : Timestamp) : Bool := s.physical ≤ now

def remainingTtl (s : MarkerSnapshot) (now : Timestamp) : Duration :=
  s.physical.saturatingDurationSince now

def withMaximum (s : MarkerSnapshot) (maximum : Option MarkerVersion) : MarkerSnapshot :=
  { s with version := maximum.elim s.version fun v => max v s.version }

/-- `(version, created)`, compared lexicographically. -/
def rank (s : MarkerSnapshot) : MarkerVersion ×ₗ Timestamp := toLex (s.version, s.created)

def supersedes (s other : MarkerSnapshot) : Bool := other.rank < s.rank

@[simp] theorem withMaximum_physical (s : MarkerSnapshot) (maximum : Option MarkerVersion) :
    (s.withMaximum maximum).physical = s.physical := rfl

theorem le_withMaximum (s : MarkerSnapshot) {maximum : Option MarkerVersion} {m : MarkerVersion}
    (h : maximum = some m) : m ≤ (s.withMaximum maximum).version := by
  subst h
  exact le_max_left _ _

theorem rank_le_withMaximum (s : MarkerSnapshot) (maximum : Option MarkerVersion) :
    s.rank ≤ (s.withMaximum maximum).rank := by
  cases maximum with
  | none => exact le_refl _
  | some m =>
    rw [rank, rank, Prod.Lex.toLex_le_toLex]
    rcases (le_max_right m s.version).lt_or_eq with hlt | heq
    · exact Or.inl hlt
    · exact Or.inr ⟨heq, le_refl _⟩

end MarkerSnapshot

/-- A positive bound. -/
structure MarkerSnapshotLimits where
  maxEntries : Nat
  positive : 0 < maxEntries

/-- Positive bounds. -/
structure MarkerStoreLimits where
  maxTags : Nat
  maxScopes : Nat
  tags_pos : 0 < maxTags
  scopes_pos : 0 < maxScopes

inductive MarkerSnapshotRenewal where
  | stored (snapshot : MarkerSnapshot)
  | keptNewer (snapshot : MarkerSnapshot)
  | expired
deriving DecidableEq

inductive MarkerSnapshotRead where
  | snapshot (snapshot : MarkerSnapshot)
  | missing (maximum : Option MarkerVersion)
deriving DecidableEq

inductive MarkerSnapshotCacheError where
  | provider (error : MarkerError)
  | leaseLost
  | cancelled
deriving DecidableEq

/-! ## The store -/

abbrev ScopeId := String × String

abbrev SnapshotKey := ScopeId × MarkerKind

structure InvalidationStore where
  scopes : AList fun _ : ScopeId => MarkerState
  snapshots : AList fun _ : SnapshotKey => MarkerSnapshot
  limits : MarkerStoreLimits
  snapshotLimits : MarkerSnapshotLimits

/-- Whether the operation's cancellation is seen at its first and at its last check. -/
structure CancellationSeen where
  before : Bool
  after : Bool

namespace InvalidationStore

def new (limits : MarkerStoreLimits) (snapshotLimits : MarkerSnapshotLimits) :
    InvalidationStore where
  scopes := ∅
  snapshots := ∅
  limits
  snapshotLimits

/-- The durable maximum of a marker. -/
def read (s : InvalidationStore) (scope : ScopeId) (kind : MarkerKind) : Option MarkerVersion :=
  (s.scopes.lookup scope).bind fun state => state.read kind

def advance (s : InvalidationStore) (scope : ScopeId) (kind : MarkerKind)
    (candidate : MarkerVersion) : Except MarkerError MarkerAdvanceOutcome × InvalidationStore :=
  if (s.scopes.lookup scope).isNone ∧ s.limits.maxScopes ≤ s.scopes.size then
    (.error (.scopeCapacity s.limits.maxScopes), s)
  else
    let advanced := ((s.scopes.lookup scope).getD {}).advance kind candidate s.limits.maxTags
    (.ok advanced.2, { s with scopes := s.scopes.insert scope advanced.1 })

/-- The outcome of an operation whose cancellation may be seen around its atomic part. -/
def guarded {α : Type} (seen : CancellationSeen)
    (body : Except MarkerSnapshotCacheError α × InvalidationStore) (s : InvalidationStore) :
    Except MarkerSnapshotCacheError α × InvalidationStore :=
  if seen.before then (.error .cancelled, s)
  else if seen.after then (body.1.bind fun _ => .error .cancelled, body.2)
  else body

def readSnapshotNow (s : InvalidationStore) (scope : ScopeId) (kind : MarkerKind)
    (now : Timestamp) : MarkerSnapshotRead × InvalidationStore :=
  let maximum := s.read scope kind
  match s.snapshots.lookup (scope, kind) with
  | some snapshot =>
    if snapshot.isPhysicallyExpired now then
      (.missing maximum, { s with snapshots := s.snapshots.erase (scope, kind) })
    else (.snapshot (snapshot.withMaximum maximum), s)
  | none => (.missing maximum, s)

def readSnapshot (s : InvalidationStore) (scope : ScopeId) (kind : MarkerKind) (now : Timestamp)
    (seen : CancellationSeen) :
    Except MarkerSnapshotCacheError MarkerSnapshotRead × InvalidationStore :=
  let body := s.readSnapshotNow scope kind now
  guarded seen (.ok body.1, body.2) s

/-- The keys whose snapshot was created first. -/
def oldest (snapshots : AList fun _ : SnapshotKey => MarkerSnapshot) : List SnapshotKey :=
  snapshots.entries.filterMap fun binding =>
    if snapshots.values.all fun other => decide (binding.2.created ≤ other.created) then
      some binding.1
    else none

/-- `snapshots.retain(..)` -/
def unexpired (s : InvalidationStore) (now : Timestamp) :
    AList fun _ : SnapshotKey => MarkerSnapshot :=
  s.snapshots.retain fun binding => !binding.2.isPhysicallyExpired now

/-- Which of the oldest snapshots the map's own order puts first is left to `order`. -/
def victim (snapshots : AList fun _ : SnapshotKey => MarkerSnapshot) (order : Nat) :
    Option SnapshotKey :=
  (oldest snapshots)[order % (oldest snapshots).length]?

/-- The eviction before a snapshot of a new key is stored. -/
def makeRoom (limit : MarkerSnapshotLimits) (key : SnapshotKey)
    (snapshots : AList fun _ : SnapshotKey => MarkerSnapshot) (order : Nat) :
    AList fun _ : SnapshotKey => MarkerSnapshot :=
  if (snapshots.lookup key).isNone ∧ limit.maxEntries ≤ snapshots.size then
    match victim snapshots order with
    | some oldest => snapshots.erase oldest
    | none => snapshots
  else snapshots

def renewSnapshotAtomic (s : InvalidationStore) (scope : ScopeId) (kind : MarkerKind)
    (snapshot : MarkerSnapshot) (now : Timestamp) (order : Nat) :
    MarkerSnapshotRenewal × InvalidationStore :=
  if snapshot.isPhysicallyExpired now then (.expired, s)
  else
    let maximum := s.read scope kind
    let live := s.unexpired now
    match (live.lookup (scope, kind)).filter fun current => current.supersedes snapshot with
    | some current => (.keptNewer (current.withMaximum maximum), { s with snapshots := live })
    | none =>
      let room := makeRoom s.snapshotLimits (scope, kind) live order
      let snapshot := snapshot.withMaximum maximum
      (.stored snapshot, { s with snapshots := room.insert (scope, kind) snapshot })

def renewSnapshot (s : InvalidationStore) (scope : ScopeId) (kind : MarkerKind)
    (snapshot : MarkerSnapshot) (now : Timestamp) (order : Nat) (seen : CancellationSeen) :
    Except MarkerSnapshotCacheError MarkerSnapshotRenewal × InvalidationStore :=
  if seen.before then (.error .cancelled, s)
  else if snapshot.isPhysicallyExpired now then (.ok .expired, s)
  else
    let body := s.renewSnapshotAtomic scope kind snapshot now order
    guarded seen (.ok body.1, body.2) s

/-- `held`: the proof's token owns the lease when the authority is asked. -/
def renewSnapshotWithLease (s : InvalidationStore) (scope : ScopeId) (kind : MarkerKind)
    (snapshot : MarkerSnapshot) (now : Timestamp) (held : Bool) (order : Nat)
    (seen : CancellationSeen) :
    Except MarkerSnapshotCacheError MarkerSnapshotRenewal × InvalidationStore :=
  if held then
    let body := s.renewSnapshotAtomic scope kind snapshot now order
    guarded seen (.ok body.1, body.2) s
  else guarded seen (.error .leaseLost, s) s

/-! ## Operations -/

inductive Op where
  | advance (scope : ScopeId) (kind : MarkerKind) (candidate : MarkerVersion)
  | read (scope : ScopeId) (kind : MarkerKind) (now : Timestamp) (seen : CancellationSeen)
  | renew (scope : ScopeId) (kind : MarkerKind) (snapshot : MarkerSnapshot) (now : Timestamp)
      (order : Nat) (seen : CancellationSeen)
  | renewWithLease (scope : ScopeId) (kind : MarkerKind) (snapshot : MarkerSnapshot)
      (now : Timestamp) (held : Bool) (order : Nat) (seen : CancellationSeen)

inductive Output where
  | advanced (result : Except MarkerError MarkerAdvanceOutcome)
  | snapshot (result : Except MarkerSnapshotCacheError MarkerSnapshotRead)
  | renewal (result : Except MarkerSnapshotCacheError MarkerSnapshotRenewal)

def perform (s : InvalidationStore) : Op → Output × InvalidationStore
  | .advance scope kind candidate =>
    (.advanced (s.advance scope kind candidate).1, (s.advance scope kind candidate).2)
  | .read scope kind now seen =>
    (.snapshot (s.readSnapshot scope kind now seen).1, (s.readSnapshot scope kind now seen).2)
  | .renew scope kind snapshot now order seen =>
    (.renewal (s.renewSnapshot scope kind snapshot now order seen).1,
      (s.renewSnapshot scope kind snapshot now order seen).2)
  | .renewWithLease scope kind snapshot now held order seen =>
    (.renewal (s.renewSnapshotWithLease scope kind snapshot now held order seen).1,
      (s.renewSnapshotWithLease scope kind snapshot now held order seen).2)

def next (s : InvalidationStore) (op : Op) : Option InvalidationStore := some (s.perform op).2

/-! ## One renewal -/

theorem exists_oldest (bindings : List (Sigma fun _ : SnapshotKey => MarkerSnapshot))
    (h : bindings ≠ []) :
    ∃ b ∈ bindings, ∀ c ∈ bindings, b.2.created ≤ c.2.created := by
  induction bindings with
  | nil => exact absurd rfl h
  | cons b rest ih =>
    by_cases hrest : rest = []
    · subst hrest
      exact ⟨b, List.mem_cons_self, by simp⟩
    · obtain ⟨m, hm, hmin⟩ := ih hrest
      -- the head is older than everything behind it, or the oldest of those is oldest of all
      rcases le_total b.2.created m.2.created with hle | hle
      · refine ⟨b, List.mem_cons_self, List.forall_mem_cons.mpr ⟨le_refl _, ?_⟩⟩
        intro c hc
        exact le_trans hle (hmin c hc)
      · exact ⟨m, List.mem_cons_of_mem b hm, List.forall_mem_cons.mpr ⟨hle, hmin⟩⟩

theorem mem_of_victim {snapshots : AList fun _ : SnapshotKey => MarkerSnapshot} {order : Nat}
    {key : SnapshotKey} (h : victim snapshots order = some key) :
    (snapshots.lookup key).isSome := by
  have hmem : key ∈ oldest snapshots := List.mem_of_getElem? h
  obtain ⟨⟨k, e⟩, hbinding, hkey⟩ := List.mem_filterMap.mp hmem
  split at hkey
  · obtain rfl := Option.some.inj hkey
    have hlookup : snapshots.lookup k = some e :=
      (List.mem_dlookup_iff snapshots.nodupKeys).mpr hbinding
    rw [hlookup]
    rfl
  · cases hkey

/-- A map that holds anything has an oldest snapshot to evict. -/
theorem victim_isSome (snapshots : AList fun _ : SnapshotKey => MarkerSnapshot)
    (h : 0 < snapshots.size) (order : Nat) : (victim snapshots order).isSome := by
  have hne : snapshots.entries ≠ [] := List.ne_nil_of_length_pos h
  obtain ⟨b, hb, hmin⟩ := exists_oldest snapshots.entries hne
  have hall : (snapshots.values.all fun other => decide (b.2.created ≤ other.created)) = true := by
    rw [List.all_eq_true]
    intro other hother
    obtain ⟨c, hc, rfl⟩ := List.mem_map.mp hother
    exact decide_eq_true (hmin c hc)
  have hmem : b.1 ∈ oldest snapshots := List.mem_filterMap.mpr ⟨b, hb, by rw [if_pos hall]⟩
  have hpos : 0 < (oldest snapshots).length := List.length_pos_of_mem hmem
  rw [victim, List.getElem?_eq_getElem (Nat.mod_lt order hpos)]
  rfl

theorem makeRoom_lookup_isNone {limit : MarkerSnapshotLimits} {key : SnapshotKey}
    {snapshots : AList fun _ : SnapshotKey => MarkerSnapshot} {order : Nat}
    (h : snapshots.lookup key = none) :
    (makeRoom limit key snapshots order).lookup key = none := by
  rw [makeRoom]
  split
  · split
    · rename_i oldest _
      by_cases hkey : key = oldest
      · subst hkey
        exact AList.lookup_erase _ _
      · rw [AList.lookup_erase_ne hkey, h]
    · exact h
  · exact h

theorem size_makeRoom_insert {limit : MarkerSnapshotLimits} {key : SnapshotKey}
    {snapshots : AList fun _ : SnapshotKey => MarkerSnapshot} {order : Nat}
    (h : snapshots.size ≤ limit.maxEntries) (snapshot : MarkerSnapshot) :
    ((makeRoom limit key snapshots order).insert key snapshot).size ≤ limit.maxEntries := by
  have hpos := limit.positive
  rw [AList.size_insert]
  cases hkey : snapshots.lookup key with
  | some current =>
    -- the key has its place already
    have hroom : makeRoom limit key snapshots order = snapshots := by
      rw [makeRoom, if_neg (by simp [hkey])]
    have hsize := AList.size_erase hkey
    rw [hroom]
    omega
  | none =>
    rw [AList.erase_of_lookup_none (makeRoom_lookup_isNone hkey), makeRoom]
    split
    · rename_i hfull
      have hsome := victim_isSome snapshots (by omega) order
      obtain ⟨oldest, holdest⟩ := Option.isSome_iff_exists.mp hsome
      obtain ⟨e, he⟩ := Option.isSome_iff_exists.mp (mem_of_victim holdest)
      have hsize := AList.size_erase he
      simp only [holdest]
      omega
    · rename_i hfits
      have hroom : ¬ limit.maxEntries ≤ snapshots.size := fun hle =>
        hfits ⟨by simp [hkey], hle⟩
      omega

theorem size_retain_le (snapshots : AList fun _ : SnapshotKey => MarkerSnapshot)
    (p : (Sigma fun _ : SnapshotKey => MarkerSnapshot) → Bool) :
    (snapshots.retain p).size ≤ snapshots.size :=
  List.length_filter_le p snapshots.entries

theorem lookup_unexpired {s : InvalidationStore} {now : Timestamp} {key : SnapshotKey}
    {current : MarkerSnapshot} (h : s.snapshots.lookup key = some current)
    (halive : current.isPhysicallyExpired now = false) :
    (s.unexpired now).lookup key = some current := by
  rw [unexpired, AList.lookup_retain, h]
  simp [halive]

/-- The renewal takes the snapshot of `key` out to make room. -/
def Evicts (s : InvalidationStore) (target : SnapshotKey) (now : Timestamp) (order : Nat)
    (key : SnapshotKey) : Prop :=
  (s.unexpired now).lookup target = none ∧
    s.snapshotLimits.maxEntries ≤ (s.unexpired now).size ∧
    victim (s.unexpired now) order = some key

/-- The three ways a renewal goes. -/
theorem renewSnapshotAtomic_cases (s : InvalidationStore) (scope : ScopeId) (kind : MarkerKind)
    (snapshot : MarkerSnapshot) (now : Timestamp) (order : Nat) :
    (snapshot.isPhysicallyExpired now = true ∧
      s.renewSnapshotAtomic scope kind snapshot now order = (.expired, s)) ∨
    (∃ current, (s.unexpired now).lookup (scope, kind) = some current ∧
      current.supersedes snapshot = true ∧
      s.renewSnapshotAtomic scope kind snapshot now order =
        (.keptNewer (current.withMaximum (s.read scope kind)),
          { s with snapshots := s.unexpired now })) ∨
    (snapshot.isPhysicallyExpired now = false ∧
      (∀ current, (s.unexpired now).lookup (scope, kind) = some current →
        current.supersedes snapshot = false) ∧
      s.renewSnapshotAtomic scope kind snapshot now order =
        (.stored (snapshot.withMaximum (s.read scope kind)),
          { s with
            snapshots := (makeRoom s.snapshotLimits (scope, kind) (s.unexpired now) order).insert
              (scope, kind) (snapshot.withMaximum (s.read scope kind)) })) := by
  unfold renewSnapshotAtomic
  dsimp only
  split
  · rename_i hexpired
    exact Or.inl ⟨hexpired, rfl⟩
  rename_i halive
  split
  · rename_i current hfilter
    obtain ⟨hcurrent, hnewer⟩ := Option.filter_eq_some_iff.mp hfilter
    exact Or.inr (Or.inl ⟨current, hcurrent, hnewer, rfl⟩)
  · rename_i hfilter
    refine Or.inr (Or.inr ⟨by simpa using halive, ?_, rfl⟩)
    intro current hcurrent
    rw [hcurrent] at hfilter
    simpa using hfilter

theorem makeRoom_lookup {limit : MarkerSnapshotLimits} {target key : SnapshotKey}
    {snapshots : AList fun _ : SnapshotKey => MarkerSnapshot} {order : Nat}
    (h : ¬ (snapshots.lookup target = none ∧ limit.maxEntries ≤ snapshots.size ∧
      victim snapshots order = some key)) :
    (makeRoom limit target snapshots order).lookup key = snapshots.lookup key := by
  rw [makeRoom]
  split
  · rename_i hfull
    split
    · rename_i oldest holdest
      have hne : key ≠ oldest := by
        rintro rfl
        exact h ⟨by simpa using hfull.1, hfull.2, holdest⟩
      exact AList.lookup_erase_ne hne
    · rfl
  · rfl

theorem renewSnapshotAtomic_lookup {s : InvalidationStore} {scope : ScopeId} {kind : MarkerKind}
    {snapshot current : MarkerSnapshot} {now : Timestamp} {order : Nat} {key : SnapshotKey}
    (h : s.snapshots.lookup key = some current)
    (halive : current.isPhysicallyExpired now = false)
    (hkept : ¬ s.Evicts (scope, kind) now order key) :
    ∃ new, (s.renewSnapshotAtomic scope kind snapshot now order).2.snapshots.lookup key = some new ∧
      current.rank ≤ new.rank := by
  have hlive := lookup_unexpired h halive
  rcases s.renewSnapshotAtomic_cases scope kind snapshot now order with ⟨-, heq⟩
    | ⟨newer, -, -, heq⟩ | ⟨-, hnot, heq⟩
  · rw [heq]
    exact ⟨current, h, le_refl _⟩
  · rw [heq]
    exact ⟨current, hlive, le_refl _⟩
  · rw [heq]
    by_cases hkey : key = (scope, kind)
    · subst hkey
      have hle : current.rank ≤ snapshot.rank := not_lt.mp (of_decide_eq_false (hnot current hlive))
      exact ⟨_, AList.lookup_insert _, le_trans hle (snapshot.rank_le_withMaximum _)⟩
    · refine ⟨current, ?_, le_refl _⟩
      rw [AList.lookup_insert_ne hkey, makeRoom_lookup hkept]
      exact hlive

theorem renewSnapshotAtomic_size {s : InvalidationStore} {scope : ScopeId} {kind : MarkerKind}
    {snapshot : MarkerSnapshot} {now : Timestamp} {order : Nat}
    (h : s.snapshots.size ≤ s.snapshotLimits.maxEntries) :
    (s.renewSnapshotAtomic scope kind snapshot now order).2.snapshots.size
      ≤ s.snapshotLimits.maxEntries := by
  have hlive : (s.unexpired now).size ≤ s.snapshotLimits.maxEntries :=
    le_trans (size_retain_le _ _) h
  rcases s.renewSnapshotAtomic_cases scope kind snapshot now order with ⟨-, heq⟩
    | ⟨newer, -, -, heq⟩ | ⟨-, -, heq⟩
  · rw [heq]
    exact h
  · rw [heq]
    exact hlive
  · rw [heq]
    exact size_makeRoom_insert hlive _

/-- A renewal never touches the journal or the limits. -/
theorem renewSnapshotAtomic_frame (s : InvalidationStore) (scope : ScopeId) (kind : MarkerKind)
    (snapshot : MarkerSnapshot) (now : Timestamp) (order : Nat) :
    (s.renewSnapshotAtomic scope kind snapshot now order).2.scopes = s.scopes ∧
      (s.renewSnapshotAtomic scope kind snapshot now order).2.snapshotLimits
        = s.snapshotLimits := by
  rcases s.renewSnapshotAtomic_cases scope kind snapshot now order with ⟨-, heq⟩
    | ⟨newer, -, -, heq⟩ | ⟨-, -, heq⟩
  all_goals
    rw [heq]
    exact ⟨rfl, rfl⟩

theorem renewSnapshotAtomic_expired {s : InvalidationStore} {scope : ScopeId} {kind : MarkerKind}
    {snapshot : MarkerSnapshot} {now : Timestamp} {order : Nat}
    (h : snapshot.isPhysicallyExpired now = true) :
    s.renewSnapshotAtomic scope kind snapshot now order = (.expired, s) := by
  rw [renewSnapshotAtomic, if_pos h]

/-! ## Steps -/

/-- A result is no weaker than the durable maximum. -/
def Output.Covers (durable : Option MarkerVersion) : Output → Prop
  | .snapshot (.ok (.snapshot found)) => ∀ m, durable = some m → m ≤ found.version
  | .snapshot (.ok (.missing maximum)) => maximum = durable
  | .renewal (.ok (.stored found)) => ∀ m, durable = some m → m ≤ found.version
  | .renewal (.ok (.keptNewer found)) => ∀ m, durable = some m → m ≤ found.version
  | _ => True

def Op.target : Op → SnapshotKey
  | .advance scope kind _ | .read scope kind _ _ | .renew scope kind _ _ _ _
  | .renewWithLease scope kind _ _ _ _ _ => (scope, kind)

/-- The snapshot of `key` is gone, or was replaced by a proposal that it no longer stood against,
because it had expired or room was made. -/
def Removes (s : InvalidationStore) (op : Op) (key : SnapshotKey) : Prop :=
  match op with
  | .advance _ _ _ => False
  | .read _ _ now _ =>
    ∃ current, s.snapshots.lookup key = some current ∧ current.isPhysicallyExpired now = true
  | .renew scope kind _ now order _ | .renewWithLease scope kind _ now _ order _ =>
    (∃ current, s.snapshots.lookup key = some current ∧
      current.isPhysicallyExpired now = true) ∨ s.Evicts (scope, kind) now order key

theorem guarded_state {α : Type} (seen : CancellationSeen)
    (body : Except MarkerSnapshotCacheError α × InvalidationStore) (s : InvalidationStore) :
    (guarded seen body s).2 = s ∨ (guarded seen body s).2 = body.2 := by
  rw [guarded]
  split
  · exact Or.inl rfl
  split
  · exact Or.inr rfl
  · exact Or.inr rfl

/-- The two renewals change the store only through their atomic part. -/
theorem renewals_state (s : InvalidationStore) (scope : ScopeId) (kind : MarkerKind)
    (snapshot : MarkerSnapshot) (now : Timestamp) (held : Bool) (order : Nat)
    (seen : CancellationSeen) :
    ((s.renewSnapshot scope kind snapshot now order seen).2 = s ∨
      (s.renewSnapshot scope kind snapshot now order seen).2
        = (s.renewSnapshotAtomic scope kind snapshot now order).2) ∧
    ((s.renewSnapshotWithLease scope kind snapshot now held order seen).2 = s ∨
      (s.renewSnapshotWithLease scope kind snapshot now held order seen).2
        = (s.renewSnapshotAtomic scope kind snapshot now order).2) := by
  constructor
  · rw [renewSnapshot]
    split
    · exact Or.inl rfl
    split
    · exact Or.inl rfl
    · exact guarded_state seen _ s
  · rw [renewSnapshotWithLease]
    split
    · exact guarded_state seen _ s
    · exact Or.inl ((guarded_state seen (Except.error .leaseLost, s) s).elim id id)

theorem readSnapshot_state (s : InvalidationStore) (scope : ScopeId) (kind : MarkerKind)
    (now : Timestamp) (seen : CancellationSeen) :
    (s.readSnapshot scope kind now seen).2 = s ∨
      (s.readSnapshot scope kind now seen).2 = (s.readSnapshotNow scope kind now).2 :=
  guarded_state seen _ s

/-- A read takes a snapshot out only when it has expired. -/
theorem readSnapshotNow_state (s : InvalidationStore) (scope : ScopeId) (kind : MarkerKind)
    (now : Timestamp) : (s.readSnapshotNow scope kind now).2 = s ∨
      ∃ current, s.snapshots.lookup (scope, kind) = some current ∧
        current.isPhysicallyExpired now = true ∧
        (s.readSnapshotNow scope kind now).2
          = { s with snapshots := s.snapshots.erase (scope, kind) } := by
  unfold readSnapshotNow
  dsimp only
  split
  · rename_i current hcurrent
    split
    · rename_i hexpired
      exact Or.inr ⟨current, hcurrent, hexpired, rfl⟩
    · exact Or.inl rfl
  · exact Or.inl rfl

/-- What every step does to the store, whatever it answers. -/
theorem perform_state (s : InvalidationStore) (op : Op) :
    (s.perform op).2 = s ∨
    (∃ scope kind candidate, op = .advance scope kind candidate ∧
      (s.perform op).2 = (s.advance scope kind candidate).2) ∨
    (∃ scope kind now seen current, op = .read scope kind now seen ∧
      s.snapshots.lookup (scope, kind) = some current ∧ current.isPhysicallyExpired now = true ∧
      (s.perform op).2 = { s with snapshots := s.snapshots.erase (scope, kind) }) ∨
    (∃ scope kind snapshot now order,
      ((∃ seen, op = .renew scope kind snapshot now order seen) ∨
        ∃ held seen, op = .renewWithLease scope kind snapshot now held order seen) ∧
      (s.perform op).2 = (s.renewSnapshotAtomic scope kind snapshot now order).2) := by
  cases op with
  | advance scope kind candidate => exact Or.inr (Or.inl ⟨scope, kind, candidate, rfl, rfl⟩)
  | read scope kind now seen =>
    rcases s.readSnapshot_state scope kind now seen with hsame | hread
    · exact Or.inl hsame
    rcases s.readSnapshotNow_state scope kind now with hsame | ⟨current, hcurrent, hexpired, herase⟩
    · exact Or.inl (hread.trans hsame)
    · exact Or.inr (Or.inr (Or.inl
        ⟨scope, kind, now, seen, current, rfl, hcurrent, hexpired, hread.trans herase⟩))
  | renew scope kind snapshot now order seen =>
    rcases (s.renewals_state scope kind snapshot now false order seen).1 with hsame | hatomic
    · exact Or.inl hsame
    · exact Or.inr (Or.inr (Or.inr
        ⟨scope, kind, snapshot, now, order, Or.inl ⟨seen, rfl⟩, hatomic⟩))
  | renewWithLease scope kind snapshot now held order seen =>
    rcases (s.renewals_state scope kind snapshot now held order seen).2 with hsame | hatomic
    · exact Or.inl hsame
    · exact Or.inr (Or.inr (Or.inr
        ⟨scope, kind, snapshot, now, order, Or.inr ⟨held, seen, rfl⟩, hatomic⟩))

theorem advance_snapshots (s : InvalidationStore) (scope : ScopeId) (kind : MarkerKind)
    (candidate : MarkerVersion) :
    (s.advance scope kind candidate).2.snapshots = s.snapshots ∧
      (s.advance scope kind candidate).2.snapshotLimits = s.snapshotLimits := by
  rw [advance]
  split
  · exact ⟨rfl, rfl⟩
  · exact ⟨rfl, rfl⟩

/-- A snapshot that a step does not remove moves up. -/
theorem perform_lookup {s : InvalidationStore} {op : Op} {key : SnapshotKey}
    {current : MarkerSnapshot} (h : s.snapshots.lookup key = some current)
    (hkept : ¬ s.Removes op key) :
    ∃ new, (s.perform op).2.snapshots.lookup key = some new ∧ current.rank ≤ new.rank := by
  rcases s.perform_state op with hsame | ⟨scope, kind, candidate, -, hstate⟩
    | ⟨scope, kind, now, seen, expired, rfl, hexpired, hdead, hstate⟩
    | ⟨scope, kind, snapshot, now, order, hop, hstate⟩
  · rw [hsame]
    exact ⟨current, h, le_refl _⟩
  · rw [hstate, (s.advance_snapshots scope kind candidate).1]
    exact ⟨current, h, le_refl _⟩
  · rw [hstate]
    have hne : key ≠ (scope, kind) := by
      rintro rfl
      rw [h] at hexpired
      cases hexpired
      exact hkept ⟨current, h, hdead⟩
    exact ⟨current, by rw [AList.lookup_erase_ne hne]; exact h, le_refl _⟩
  · rw [hstate]
    have hboth : ¬ ((∃ current, s.snapshots.lookup key = some current ∧
        current.isPhysicallyExpired now = true) ∨ s.Evicts (scope, kind) now order key) := by
      rcases hop with ⟨seen, rfl⟩ | ⟨held, seen, rfl⟩
      · exact hkept
      · exact hkept
    have halive : current.isPhysicallyExpired now = false := by
      rw [← Bool.not_eq_true]
      exact fun hdead => hboth (Or.inl ⟨current, h, hdead⟩)
    exact renewSnapshotAtomic_lookup h halive fun hevicts => hboth (Or.inr hevicts)

theorem perform_bounded {s : InvalidationStore} (op : Op)
    (h : s.snapshots.size ≤ s.snapshotLimits.maxEntries) :
    (s.perform op).2.snapshots.size ≤ (s.perform op).2.snapshotLimits.maxEntries := by
  rcases s.perform_state op with hsame | ⟨scope, kind, candidate, -, hstate⟩
    | ⟨scope, kind, now, seen, expired, rfl, hexpired, hdead, hstate⟩
    | ⟨scope, kind, snapshot, now, order, hop, hstate⟩
  · rw [hsame]
    exact h
  · rw [hstate, (s.advance_snapshots scope kind candidate).1,
      (s.advance_snapshots scope kind candidate).2]
    exact h
  · rw [hstate]
    have hsize := AList.size_erase hexpired
    show (s.snapshots.erase (scope, kind)).size ≤ s.snapshotLimits.maxEntries
    omega
  · rw [hstate, (s.renewSnapshotAtomic_frame scope kind snapshot now order).2]
    exact renewSnapshotAtomic_size h

/-- Only an advance changes the journal. -/
theorem perform_scopes {s : InvalidationStore} {op : Op}
    (h : ∀ scope kind candidate, op ≠ .advance scope kind candidate) :
    (s.perform op).2.scopes = s.scopes := by
  rcases s.perform_state op with hsame | ⟨scope, kind, candidate, hop, -⟩
    | ⟨scope, kind, now, seen, expired, rfl, hexpired, hdead, hstate⟩
    | ⟨scope, kind, snapshot, now, order, hop, hstate⟩
  · rw [hsame]
  · exact absurd hop (h scope kind candidate)
  · rw [hstate]
  · rw [hstate, (s.renewSnapshotAtomic_frame scope kind snapshot now order).1]

theorem readSnapshotNow_covers (s : InvalidationStore) (scope : ScopeId) (kind : MarkerKind)
    (now : Timestamp) : (Output.snapshot (.ok (s.readSnapshotNow scope kind now).1)).Covers
      (s.read scope kind) := by
  unfold readSnapshotNow
  dsimp only
  split
  · rename_i current _
    split
    · rfl
    · exact fun m hm => current.le_withMaximum hm
  · rfl

theorem renewSnapshotAtomic_covers (s : InvalidationStore) (scope : ScopeId) (kind : MarkerKind)
    (snapshot : MarkerSnapshot) (now : Timestamp) (order : Nat) :
    (Output.renewal (.ok (s.renewSnapshotAtomic scope kind snapshot now order).1)).Covers
      (s.read scope kind) := by
  rcases s.renewSnapshotAtomic_cases scope kind snapshot now order with ⟨-, heq⟩
    | ⟨current, -, -, heq⟩ | ⟨-, -, heq⟩
  · rw [heq]
    trivial
  · rw [heq]
    exact fun m hm => current.le_withMaximum hm
  · rw [heq]
    exact fun m hm => snapshot.le_withMaximum hm

theorem guarded_cases {α : Type} (seen : CancellationSeen) (a : α) (s t : InvalidationStore) :
    (guarded seen (.ok a, t) s).1 = .error .cancelled ∨ (guarded seen (.ok a, t) s).1 = .ok a := by
  rw [guarded]
  split
  · exact Or.inl rfl
  split
  · exact Or.inl rfl
  · exact Or.inr rfl

theorem perform_covers (s : InvalidationStore) (op : Op) :
    (s.perform op).1.Covers (s.read op.target.1 op.target.2) := by
  cases op with
  | advance scope kind candidate => trivial
  | read scope kind now seen =>
    show (Output.snapshot (guarded seen (.ok (s.readSnapshotNow scope kind now).1,
      (s.readSnapshotNow scope kind now).2) s).1).Covers _
    rcases guarded_cases seen (s.readSnapshotNow scope kind now).1 s
      (s.readSnapshotNow scope kind now).2 with h | h
    · rw [h]
      trivial
    · rw [h]
      exact s.readSnapshotNow_covers scope kind now
  | renew scope kind snapshot now order seen =>
    show (Output.renewal (s.renewSnapshot scope kind snapshot now order seen).1).Covers _
    rw [renewSnapshot]
    split
    · trivial
    split
    · trivial
    rcases guarded_cases seen (s.renewSnapshotAtomic scope kind snapshot now order).1 s
      (s.renewSnapshotAtomic scope kind snapshot now order).2 with h | h
    · rw [h]
      trivial
    · rw [h]
      exact s.renewSnapshotAtomic_covers scope kind snapshot now order
  | renewWithLease scope kind snapshot now held order seen =>
    show (Output.renewal (s.renewSnapshotWithLease scope kind snapshot now held order seen).1).Covers
      _
    rw [renewSnapshotWithLease]
    split
    · rcases guarded_cases seen (s.renewSnapshotAtomic scope kind snapshot now order).1 s
        (s.renewSnapshotAtomic scope kind snapshot now order).2 with h | h
      · rw [h]
        trivial
      · rw [h]
        exact s.renewSnapshotAtomic_covers scope kind snapshot now order
    · rw [guarded]
      split
      · trivial
      split
      · trivial
      · trivial

/-- An expired proposal stores nothing, with or without a lease. -/
theorem perform_expired {s : InvalidationStore} {scope : ScopeId} {kind : MarkerKind}
    {snapshot : MarkerSnapshot} {now : Timestamp} (held : Bool) (order : Nat)
    (seen : CancellationSeen) (h : snapshot.isPhysicallyExpired now = true) :
    (s.perform (.renew scope kind snapshot now order seen)).2 = s ∧
      (s.perform (.renewWithLease scope kind snapshot now held order seen)).2 = s := by
  have hstates := s.renewals_state scope kind snapshot now held order seen
  rw [renewSnapshotAtomic_expired h] at hstates
  exact ⟨hstates.1.elim id id, hstates.2.elim id id⟩

/-! ## Runs -/

/-- A snapshot that no step of a run removes only moves up. -/
theorem rank_le_of_exec {s t : InvalidationStore} {ops : List Op} {key : SnapshotKey}
    {current : MarkerSnapshot} (h : s.snapshots.lookup key = some current)
    (hkept : Run.Along next (fun s op => ¬ s.Removes op key) s ops)
    (hexec : Run.exec next s ops = some t) :
    ∃ new, t.snapshots.lookup key = some new ∧ current.rank ≤ new.rank := by
  refine Run.exec_invariant_along (I := fun s => ∃ new, s.snapshots.lookup key = some new ∧
    current.rank ≤ new.rank) ?_ ⟨current, h, le_refl _⟩ hkept hexec
  rintro s op t ⟨new, hnew, hle⟩ hstay hstep
  obtain rfl := Option.some.inj hstep
  obtain ⟨next, hnext, hmore⟩ := perform_lookup hnew hstay
  exact ⟨next, hnext, le_trans hle hmore⟩

theorem bounded_of_reachable {limits : MarkerStoreLimits} {snapshotLimits : MarkerSnapshotLimits}
    {s : InvalidationStore} (h : Run.Reachable next (new limits snapshotLimits) s) :
    s.snapshots.size ≤ s.snapshotLimits.maxEntries := by
  refine Run.Reachable.invariant (I := fun s : InvalidationStore =>
    s.snapshots.size ≤ s.snapshotLimits.maxEntries) h (Nat.zero_le _) ?_
  intro s op t hs hstep
  obtain rfl := Option.some.inj hstep
  exact perform_bounded op hs

end InvalidationStore

open InvalidationStore in
/-- Snapshots move up until they are removed, answers cover the journal, the map is bounded, and
only an advance writes the journal. -/
theorem snapshots_safe (limits : MarkerStoreLimits) (snapshotLimits : MarkerSnapshotLimits)
    (s : InvalidationStore) (hs : Run.Reachable next (InvalidationStore.new limits snapshotLimits) s) :
    (∀ key current ops t, s.snapshots.lookup key = some current →
      Run.Along next (fun s op => ¬ s.Removes op key) s ops → Run.exec next s ops = some t →
      ∃ new, t.snapshots.lookup key = some new ∧ current.rank ≤ new.rank) ∧
    (∀ op, (s.perform op).1.Covers (s.read op.target.1 op.target.2)) ∧
    s.snapshots.size ≤ s.snapshotLimits.maxEntries ∧
    (∀ op, (∀ scope kind candidate, op ≠ .advance scope kind candidate) →
      (s.perform op).2.scopes = s.scopes) ∧
    (∀ scope kind snapshot now held order seen, snapshot.isPhysicallyExpired now = true →
      (s.perform (.renew scope kind snapshot now order seen)).2 = s ∧
        (s.perform (.renewWithLease scope kind snapshot now held order seen)).2 = s) :=
  ⟨fun _ _ _ _ hcurrent hkept hexec => rank_le_of_exec hcurrent hkept hexec, s.perform_covers,
    bounded_of_reachable hs, fun _ hop => perform_scopes hop,
    fun _ _ _ _ held order seen hdead => perform_expired held order seen hdead⟩

/-- The clear markers of one scope, renewed one after the other. -/
def renewBoth : List InvalidationStore.Op :=
  let snapshot : MarkerSnapshot :=
    ⟨epochStart, epochStart, epochStart, Timestamp.MAX, le_refl _, by decide⟩
  [.renew ("", "") .clearExpire snapshot epochStart 0 ⟨false, false⟩,
    .renew ("", "") .clearRemove snapshot epochStart 0 ⟨false, false⟩]

theorem snapshots_safe_evicting_run :
    ∃ s, Run.exec InvalidationStore.next
        (.new ⟨1, 1, by decide, by decide⟩ ⟨1, by decide⟩) renewBoth = some s ∧
      s.snapshots.size ≤ s.snapshotLimits.maxEntries :=
  ⟨_, rfl, (snapshots_safe ⟨1, 1, by decide, by decide⟩ ⟨1, by decide⟩ _ ⟨renewBoth, rfl⟩).2.2.1⟩

end Amalgam
