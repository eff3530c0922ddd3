import Amalgam.Redis.Leases

/-!
# Amalgam — marker snapshots in Redis

`src/redis_backend.rs`: a snapshot is a frame of 64 hexadecimal digits, its version and its three
times, under a key that expires; reading and renewing are scripts that slice the frame by position
and look at the journal's hash in the same step.

* **`decode_encode`** — every snapshot is read back from its frame.
* **`snapshots_refine`** — on a keyspace that agrees with the in-memory store, the scripts answer
  what the store answers and leave the same unexpired snapshots.
-/

namespace Amalgam.RedisInvalidationStore

open Keys Text Wire Redis

/-! ## Frames -/

/-- `marker_snapshot_key`. -/
def markerSnapshotKey (id : ScopeId) (kind : MarkerKind) : String :=
  PRIVATE_AREA ++ ("marker-snapshots/" ++ (encodeHex (utf8 (storageId id)) ++ ("/" ++
    markerFieldName kind)))

/-- `append_ordered_timestamp`. -/
def appendOrderedTimestamp (frame : Bytes) (timestamp : Timestamp) : Bytes :=
  let biased := (Keys.MarkerVersion.biased timestamp).toNat
  (List.range 16).reverse.foldl
    (fun frame digit => frame ++ [Hex.digit (biased >>> (digit * 4) &&& 15)]) frame

def orderedTimestamp (timestamp : Timestamp) : Bytes := appendOrderedTimestamp [] timestamp

def encodeMarkerSnapshot (snapshot : MarkerSnapshot) : Bytes :=
  [snapshot.version, snapshot.created, snapshot.logical, snapshot.physical].foldl
    appendOrderedTimestamp []

def decodeSnapshotTimestamp (encoded : Bytes) : Except MarkerError Timestamp :=
  match Hex.toNat encoded with
  | none => .error (.protocolWithSource .parseInt)
  | some n => .ok (Keys.MarkerVersion.unbiased (BitVec.ofNat 64 n))

def decodeMarkerSnapshot (encoded : Bytes) : Except MarkerError MarkerSnapshot :=
  if encoded.length ≠ 64 ∨ !encoded.all (fun b => (Hex.digitValue b).isSome) then
    .error (.protocol "invalid marker snapshot frame")
  else do
    let version ← Keys.MarkerVersion.fromOrderedHex (encoded.take 16)
    let created ← decodeSnapshotTimestamp ((encoded.drop 16).take 16)
    let logical ← decodeSnapshotTimestamp ((encoded.drop 32).take 16)
    let physical ← decodeSnapshotTimestamp ((encoded.drop 48).take 16)
    match MarkerSnapshot.new version created logical physical with
    | .ok snapshot => .ok snapshot
    | .error _ => .error (.protocolWithSource .invalidDeadlines)

/-! ## The scripts -/

/-- `string.len(text) == width and string.match(text, '^[0-9a-f]+$')`. -/
def wellFormed (width : Nat) (text : Bytes) : Bool := text.length = width && isLowerHex text

/-- The frame with the durable maximum in front, where that is greater. -/
def raiseFrame (maximum : Option Bytes) (frame : Bytes) : Bytes :=
  match maximum with
  | some maximum => if lt (sub frame 1 16) maximum then maximum ++ subFrom frame 17 else frame
  | none => frame

/-- `READ_MARKER_SNAPSHOT_SCRIPT`. -/
def readMarkerSnapshotScript (clock : Nat) (db : Keyspace) (snapshot markers : String)
    (field now : Bytes) : Option (List Bytes) := do
  let hash ← db.hash clock markers
  let maximum := hash.lookup field
  if maximum.any fun maximum => !wellFormed 16 maximum then return [utf8 "!protocol"]
  else
    match ← db.get clock snapshot with
    | none => return [utf8 "m", maximum.getD []]
    | some snapshot =>
      if !wellFormed 64 snapshot then return [utf8 "!protocol"]
      else if !lt now (sub snapshot 49 64) then return [utf8 "m", maximum.getD []]
      else return [utf8 "s", raiseFrame maximum snapshot]

/-- The end of the renewal: the candidate, raised, replaces what is there. -/
def storeCandidate (clock : Nat) (db : Keyspace) (snapshot markers : String)
    (field candidate ttl : Bytes) : Option (Bytes × Keyspace) := do
  let hash ← db.hash clock markers
  let maximum := hash.lookup field
  if maximum.any fun maximum => !wellFormed 16 maximum then return (utf8 "!protocol", db)
  else
    let candidate := raiseFrame maximum candidate
    let px ← tonumber ttl
    return (utf8 "s:" ++ candidate, db.set clock snapshot candidate (some px))

/-- Whether the renewal keeps what is there: unexpired, and ahead in version or creation. -/
def keepsCurrent (current candidate now : Bytes) : Bool :=
  lt now (sub current 49 64) &&
    (lt (sub candidate 1 16) (sub current 1 16) ||
      (sub current 1 16 = sub candidate 1 16 && lt (sub candidate 17 32) (sub current 17 32)))

/-- `ARGV[5] ~= '' and redis.call('get', KEYS[3]) ~= ARGV[5]`. -/
def leaseLost (clock : Nat) (db : Keyspace) (lease : String) (token : Bytes) : Option Bool :=
  if token = [] then some false else (db.get clock lease).map fun held => decide (held ≠ some token)

/-- `RENEW_MARKER_SNAPSHOT_SCRIPT`. -/
def renewMarkerSnapshotScript (clock : Nat) (db : Keyspace) (snapshot markers lease : String)
    (field candidate ttl now token : Bytes) : Option (Bytes × Keyspace) := do
  if ← leaseLost clock db lease token then return (utf8 "!lease", db)
  else
    match ← db.get clock snapshot with
    | none => storeCandidate clock db snapshot markers field candidate ttl
    | some current =>
      if !wellFormed 64 current then return (utf8 "!protocol", db)
      else if keepsCurrent current candidate now then do
        let hash ← db.hash clock markers
        let maximum := hash.lookup field
        if maximum.any fun maximum => !wellFormed 16 maximum then return (utf8 "!protocol", db)
        else return (utf8 "k:" ++ raiseFrame maximum current, db)
      else storeCandidate clock db snapshot markers field candidate ttl

/-! ## The client -/

/-- The reply of the read, as the client takes it. -/
def decodeRead (response : List Bytes) : Except MarkerSnapshotCacheError MarkerSnapshotRead :=
  match response with
  | [action, payload] =>
    if action = utf8 "s" then
      match decodeMarkerSnapshot payload with
      | .ok snapshot => .ok (.snapshot snapshot)
      | .error error => .error (.provider error)
    else if action = utf8 "m" then
      if payload = [] then .ok (.missing none)
      else
        match Keys.MarkerVersion.fromOrderedHex payload with
        | .ok version => .ok (.missing (some version))
        | .error error => .error (.provider error)
    else .error (.provider (.protocol "invalid atomic marker snapshot read"))
  | _ => .error (.provider (.protocol "invalid atomic marker snapshot read"))

/-- `read_snapshot`; `none` is a failed command, here and below. -/
def readSnapshot (clock : Nat) (db : Keyspace) (scope : CacheScope) (kind : MarkerKind)
    (now : Timestamp) (seen : CancellationSeen) :
    Option (Except MarkerSnapshotCacheError MarkerSnapshotRead) :=
  if seen.before then some (.error .cancelled)
  else
    (readMarkerSnapshotScript clock db (markerSnapshotKey scope.identity kind)
      (markerKey scope.identity) (markerField kind) (orderedTimestamp now)).map fun response =>
        if seen.after then .error .cancelled else decodeRead response

/-- The reply of the renewal, as the client takes it. -/
def decodeRenewal (response : Bytes) : Except MarkerSnapshotCacheError MarkerSnapshotRenewal :=
  if response = utf8 "!lease" then .error .leaseLost
  else if response = utf8 "!protocol" then
    .error (.provider (.protocol "invalid current marker snapshot"))
  else if response.take 2 = utf8 "s:" then
    match decodeMarkerSnapshot (response.drop 2) with
    | .ok snapshot => .ok (.stored snapshot)
    | .error error => .error (.provider error)
  else if response.take 2 = utf8 "k:" then
    match decodeMarkerSnapshot (response.drop 2) with
    | .ok snapshot => .ok (.keptNewer snapshot)
    | .error error => .error (.provider error)
  else .error (.provider (.protocol "invalid marker renewal reply"))

/-- The snapshot's remaining lifetime in milliseconds, for `PX`. -/
def renewalTtl (snapshot : MarkerSnapshot) (now : Timestamp) : Nat :=
  min (max ((snapshot.remainingTtl now).asNanos / 1000000) 1) i64Max.toNat

/-- `renew_marker_snapshot`. -/
def renewMarkerSnapshot (clock : Nat) (db : Keyspace) (scope : CacheScope) (kind : MarkerKind)
    (snapshot : MarkerSnapshot) (now : Timestamp) (proof : Option LeaseProof)
    (seen : CancellationSeen) :
    Option (Except MarkerSnapshotCacheError MarkerSnapshotRenewal × Keyspace) :=
  if seen.before then some (.error .cancelled, db)
  else if snapshot.isPhysicallyExpired now then some (.ok .expired, db)
  else
    (renewMarkerSnapshotScript clock db (markerSnapshotKey scope.identity kind)
      (markerKey scope.identity)
      (proof.elim (PRIVATE_AREA ++ "unused-lease")
        fun proof => RedisDistributedLocker.leaseKey proof.key)
      (markerField kind) (encodeMarkerSnapshot snapshot) (decimal (renewalTtl snapshot now))
      (orderedTimestamp now) (proof.elim [] fun proof => utf8 proof.token.asStr)).map
        fun (response, db) =>
          (if seen.after then .error .cancelled else decodeRenewal response, db)

/-! ## Keys -/

/-- Hexadecimal digits end where the slash is. -/
theorem encodeHex_slash_inj {a b : Bytes} {r r' : String}
    (h : encodeHex a ++ ("/" ++ r) = encodeHex b ++ ("/" ++ r')) : a = b ∧ r = r' := by
  have hbytes := congrArg utf8 h
  rw [utf8_append, utf8_append, utf8_append, utf8_append, utf8_encodeHex, utf8_encodeHex] at hbytes
  have hdigits : ∀ text, ∀ d ∈ Hex.encode text, decide (d ≠ 47) = true := by
    intro text d hd
    apply decide_eq_true
    rintro rfl
    have hall := ((Hex.decode_isSome_iff (Hex.encode text)).mp (by rw [Hex.decode_encode]; rfl)).2
    exact absurd (hall 47 hd) (by decide)
  have hparts := run_append_cons_inj (p := fun d : UInt8 => decide (d ≠ 47)) (hdigits _) (hdigits _)
    (by decide) hbytes
  have hread := congrArg Hex.decode hparts.1
  rw [Hex.decode_encode, Hex.decode_encode] at hread
  exact ⟨Option.some.inj hread, utf8_injective hparts.2⟩

theorem markerSnapshotKey_inj {id id' : ScopeId} {kind kind' : MarkerKind}
    (h : markerSnapshotKey id kind = markerSnapshotKey id' kind') : id = id' ∧ kind = kind' := by
  have hparts := encodeHex_slash_inj ((String.append_right_inj _).mp
    ((String.append_right_inj _).mp h))
  exact ⟨storageId_injective (utf8_injective hparts.1),
    markerField_injective (congrArg utf8 hparts.2)⟩

/-- Names that differ in their first characters differ. -/
theorem private_ne {a b x y : String} (n : Nat) (ha : n ≤ a.toList.length)
    (hb : n ≤ b.toList.length) (h : a.toList.take n ≠ b.toList.take n) :
    PRIVATE_AREA ++ (a ++ x) ≠ PRIVATE_AREA ++ (b ++ y) := by
  intro heq
  have hnames := congrArg (fun name : String => name.toList.take n)
    ((String.append_right_inj _).mp heq)
  rw [String.toList_append, String.toList_append, List.take_append_of_le_length ha,
    List.take_append_of_le_length hb] at hnames
  exact h hnames

theorem markerKey_ne_markerSnapshotKey (id id' : ScopeId) (kind : MarkerKind) :
    markerKey id ≠ markerSnapshotKey id' kind :=
  private_ne 7 (by decide) (by decide) (by decide)

theorem markerScopes_ne_markerSnapshotKey (id : ScopeId) (kind : MarkerKind) :
    markerScopes ≠ markerSnapshotKey id kind := by
  have hscopes : markerScopes = PRIVATE_AREA ++ ("marker-scopes" ++ "") := rfl
  rw [hscopes]
  exact private_ne 9 (by decide) (by decide) (by decide)

theorem leaseKey_ne_markerSnapshotKey (key : String) (id : ScopeId) (kind : MarkerKind) :
    RedisDistributedLocker.leaseKey key ≠ markerSnapshotKey id kind :=
  private_ne 1 (by decide) (by decide) (by decide)

/-! ## Slices of a frame -/

theorem appendOrderedTimestamp_eq (frame : Bytes) (timestamp : Timestamp) :
    appendOrderedTimestamp frame timestamp = frame ++ Keys.MarkerVersion.orderedHex timestamp := by
  unfold appendOrderedTimestamp
  dsimp only
  rw [List.foldl_append_eq_append, Keys.MarkerVersion.orderedHex, Hex.ofNat_eq_map,
    ← List.flatMap_def, ← List.map_eq_flatMap]

theorem orderedTimestamp_eq (timestamp : Timestamp) :
    orderedTimestamp timestamp = Keys.MarkerVersion.orderedHex timestamp := by
  rw [orderedTimestamp, appendOrderedTimestamp_eq, List.nil_append]

theorem encode_eq (snapshot : MarkerSnapshot) :
    encodeMarkerSnapshot snapshot = Keys.MarkerVersion.orderedHex snapshot.version ++
      (Keys.MarkerVersion.orderedHex snapshot.created ++
        (Keys.MarkerVersion.orderedHex snapshot.logical ++
          Keys.MarkerVersion.orderedHex snapshot.physical)) := by
  unfold encodeMarkerSnapshot
  simp only [List.foldl_cons, List.foldl_nil, appendOrderedTimestamp_eq, List.nil_append,
    List.append_assoc]

theorem wellFormed_orderedHex (version : Timestamp) :
    wellFormed 16 (Keys.MarkerVersion.orderedHex version) = true := by
  rw [wellFormed, length_orderedHex, isLowerHex, Bool.and_eq_true, Bool.and_eq_true,
    decide_eq_true_eq, decide_eq_true_eq, List.all_eq_true]
  refine ⟨rfl, orderedHex_ne_nil version, fun d hd => ?_⟩
  obtain ⟨m, hm, rfl⟩ := Hex.mem_ofNat hd
  exact digit_isLowerHex m hm

theorem length_encode (snapshot : MarkerSnapshot) : (encodeMarkerSnapshot snapshot).length = 64 := by
  rw [encode_eq, List.length_append, List.length_append, List.length_append, length_orderedHex,
    length_orderedHex, length_orderedHex, length_orderedHex]

/-- Every byte of a frame belongs to one of its four times. -/
theorem mem_encode {snapshot : MarkerSnapshot} {d : UInt8} (h : d ∈ encodeMarkerSnapshot snapshot) :
    ∃ time, d ∈ Keys.MarkerVersion.orderedHex time := by
  rw [encode_eq, List.mem_append, List.mem_append, List.mem_append] at h
  rcases h with h | h | h | h
  · exact ⟨_, h⟩
  · exact ⟨_, h⟩
  · exact ⟨_, h⟩
  · exact ⟨_, h⟩

theorem wellFormed_encode (snapshot : MarkerSnapshot) :
    wellFormed 64 (encodeMarkerSnapshot snapshot) = true := by
  rw [wellFormed, length_encode, isLowerHex, Bool.and_eq_true, Bool.and_eq_true,
    decide_eq_true_eq, decide_eq_true_eq, List.all_eq_true]
  refine ⟨rfl, fun hnil => ?_, fun d hd => ?_⟩
  · have hlength := length_encode snapshot
    rw [hnil] at hlength
    cases hlength
  · obtain ⟨time, hd⟩ := mem_encode hd
    obtain ⟨m, hm, rfl⟩ := Hex.mem_ofNat hd
    exact digit_isLowerHex m hm

theorem sub_version (snapshot : MarkerSnapshot) : sub (encodeMarkerSnapshot snapshot) 1 16
    = Keys.MarkerVersion.orderedHex snapshot.version := by
  rw [encode_eq, sub, List.drop_zero, List.take_left' (length_orderedHex _)]

theorem drop_version (snapshot : MarkerSnapshot) : (encodeMarkerSnapshot snapshot).drop 16
    = Keys.MarkerVersion.orderedHex snapshot.created ++
      (Keys.MarkerVersion.orderedHex snapshot.logical ++
        Keys.MarkerVersion.orderedHex snapshot.physical) := by
  rw [encode_eq, List.drop_left' (length_orderedHex _)]

theorem sub_created (snapshot : MarkerSnapshot) : sub (encodeMarkerSnapshot snapshot) 17 32
    = Keys.MarkerVersion.orderedHex snapshot.created := by
  rw [sub, drop_version, List.take_left' (length_orderedHex _)]

theorem drop_created (snapshot : MarkerSnapshot) : (encodeMarkerSnapshot snapshot).drop 32
    = Keys.MarkerVersion.orderedHex snapshot.logical ++
      Keys.MarkerVersion.orderedHex snapshot.physical := by
  have hsplit : (encodeMarkerSnapshot snapshot).drop 32
      = ((encodeMarkerSnapshot snapshot).drop 16).drop 16 := by rw [List.drop_drop]
  rw [hsplit, drop_version, List.drop_left' (length_orderedHex _)]

theorem drop_logical (snapshot : MarkerSnapshot) : (encodeMarkerSnapshot snapshot).drop 48
    = Keys.MarkerVersion.orderedHex snapshot.physical := by
  have hsplit : (encodeMarkerSnapshot snapshot).drop 48
      = ((encodeMarkerSnapshot snapshot).drop 32).drop 16 := by rw [List.drop_drop]
  rw [hsplit, drop_created, List.drop_left' (length_orderedHex _)]

theorem sub_physical (snapshot : MarkerSnapshot) : sub (encodeMarkerSnapshot snapshot) 49 64
    = Keys.MarkerVersion.orderedHex snapshot.physical := by
  rw [sub, drop_logical, List.take_of_length_le (by rw [length_orderedHex])]

theorem decodeSnapshotTimestamp_orderedHex (timestamp : Timestamp) :
    decodeSnapshotTimestamp (Keys.MarkerVersion.orderedHex timestamp) = .ok timestamp := by
  have hread : Hex.toNat (Keys.MarkerVersion.orderedHex timestamp)
      = some (Keys.MarkerVersion.biased timestamp).toNat :=
    Hex.toNat_ofNat (Keys.MarkerVersion.biased timestamp).isLt
  rw [decodeSnapshotTimestamp, hread]
  dsimp only
  rw [BitVec.ofNat_toNat, BitVec.setWidth_eq, Keys.MarkerVersion.unbiased_biased]

/-- **Every snapshot is read back from its frame.** -/
theorem decode_encode (snapshot : MarkerSnapshot) :
    decodeMarkerSnapshot (encodeMarkerSnapshot snapshot) = .ok snapshot := by
  have hdigits : (encodeMarkerSnapshot snapshot).all (fun b => (Hex.digitValue b).isSome) = true := by
    rw [List.all_eq_true]
    intro d hd
    obtain ⟨time, hd⟩ := mem_encode hd
    obtain ⟨m, hm, rfl⟩ := Hex.mem_ofNat hd
    rw [Hex.digitValue_digit m hm]
    rfl
  have hvalid : ¬ ((encodeMarkerSnapshot snapshot).length ≠ 64 ∨
      !(encodeMarkerSnapshot snapshot).all (fun b => (Hex.digitValue b).isSome)) := by
    rw [hdigits, length_encode]
    decide
  have hversion : (encodeMarkerSnapshot snapshot).take 16
      = Keys.MarkerVersion.orderedHex snapshot.version := sub_version snapshot
  have hcreated : ((encodeMarkerSnapshot snapshot).drop 16).take 16
      = Keys.MarkerVersion.orderedHex snapshot.created := sub_created snapshot
  have hlogical : ((encodeMarkerSnapshot snapshot).drop 32).take 16
      = Keys.MarkerVersion.orderedHex snapshot.logical := by
    rw [drop_created, List.take_left' (length_orderedHex _)]
  have hphysical : ((encodeMarkerSnapshot snapshot).drop 48).take 16
      = Keys.MarkerVersion.orderedHex snapshot.physical := sub_physical snapshot
  rw [decodeMarkerSnapshot, if_neg hvalid, hversion, hcreated, hlogical, hphysical,
    Keys.MarkerVersion.fromOrderedHex_orderedHex, decodeSnapshotTimestamp_orderedHex,
    decodeSnapshotTimestamp_orderedHex, decodeSnapshotTimestamp_orderedHex]
  dsimp only [bind, Except.bind]
  rw [MarkerSnapshot.new_self]

/-- A frame that the durable maximum is put in front of is the raised snapshot's. -/
theorem raiseFrame_encode (snapshot : MarkerSnapshot) (maximum : Option MarkerVersion) :
    raiseFrame (maximum.map Keys.MarkerVersion.orderedHex) (encodeMarkerSnapshot snapshot)
      = encodeMarkerSnapshot (snapshot.withMaximum maximum) := by
  cases maximum with
  | none => rfl
  | some maximum =>
    rw [Option.map_some, raiseFrame, sub_version, lt_orderedHex]
    by_cases hlt : snapshot.version < maximum
    · rw [if_pos (decide_eq_true hlt), encode_eq (snapshot.withMaximum (some maximum))]
      show Keys.MarkerVersion.orderedHex maximum ++ (encodeMarkerSnapshot snapshot).drop 16
        = Keys.MarkerVersion.orderedHex (max maximum snapshot.version) ++ _
      rw [drop_version, max_eq_left hlt.le]
      rfl
    · have hsame : snapshot.withMaximum (some maximum) = snapshot := by
        show { snapshot with version := max maximum snapshot.version } = snapshot
        rw [max_eq_right (not_lt.mp hlt)]
      rw [if_neg (by simpa using hlt), hsame]

/-- What the frames are compared by. -/
theorem keepsCurrent_encode (current snapshot : MarkerSnapshot) (now : Timestamp) :
    keepsCurrent (encodeMarkerSnapshot current) (encodeMarkerSnapshot snapshot)
        (orderedTimestamp now)
      = (!current.isPhysicallyExpired now && current.supersedes snapshot) := by
  have halive : decide (now < current.physical) = !current.isPhysicallyExpired now := by
    rw [MarkerSnapshot.isPhysicallyExpired, ← decide_not, decide_eq_decide]
    exact not_le.symm
  rw [keepsCurrent, orderedTimestamp_eq, sub_physical, sub_version, sub_version, sub_created,
    sub_created, lt_orderedHex, lt_orderedHex, lt_orderedHex, halive, MarkerSnapshot.supersedes]
  refine congrArg (fun ahead => !current.isPhysicallyExpired now && ahead) (Bool.eq_iff_iff.mpr ?_)
  rw [Bool.or_eq_true, Bool.and_eq_true, decide_eq_true_eq, decide_eq_true_eq, decide_eq_true_eq,
    decide_eq_true_eq, orderedHex_injective.eq_iff, MarkerSnapshot.rank, MarkerSnapshot.rank,
    Prod.Lex.toLex_lt_toLex]
  exact or_congr_right (and_congr_left' eq_comm)

/-! ## Agreement -/

/-- Snapshots that are physically expired at `now` do not count. -/
def unexpiredAt (now : Timestamp) (stored : Option MarkerSnapshot) : Option MarkerSnapshot :=
  stored.filter fun snapshot => !snapshot.isPhysicallyExpired now

/-- The keyspace holds the journal and, as frames, the snapshots that are unexpired at `now`; a
frame that is expired then may be there or not. -/
structure Agrees (s : InvalidationStore) (clock : Nat) (now : Timestamp) (db : Keyspace) : Prop where
  journal : EncodesJournal s clock db
  snapshots : ∀ id kind, ∃ stored : Option MarkerSnapshot,
    db.get clock (markerSnapshotKey id kind) = some (stored.map encodeMarkerSnapshot) ∧
      unexpiredAt now stored = unexpiredAt now (s.snapshots.lookup (id, kind))

section Refines

variable {s : InvalidationStore} {clock : Nat} {now : Timestamp} {db : Keyspace}

/-- The journal's field of a marker. -/
theorem EncodesJournal.field (h : EncodesJournal s clock db) (id : ScopeId) (kind : MarkerKind) :
    ∃ hash, db.hash clock (markerKey id) = some hash ∧
      hash.lookup (markerField kind) = (s.read id kind).map Keys.MarkerVersion.orderedHex := by
  obtain ⟨hash, hhash, hstate⟩ := h.hashes id
  refine ⟨hash, hhash, ?_⟩
  rw [hstate.lookup, InvalidationStore.read]
  cases s.scopes.lookup id with
  | none => cases kind <;> rfl
  | some state => rfl

theorem all_wellFormed (maximum : Option MarkerVersion) :
    ((maximum.map Keys.MarkerVersion.orderedHex).any fun maximum => !wellFormed 16 maximum)
      = false := by
  cases maximum with
  | none => rfl
  | some version => rw [Option.map_some, Option.any_some, wellFormed_orderedHex]; rfl

/-- The expiry test of the scripts. -/
theorem lt_sub_physical (snapshot : MarkerSnapshot) (now : Timestamp) :
    lt (orderedTimestamp now) (sub (encodeMarkerSnapshot snapshot) 49 64)
      = !snapshot.isPhysicallyExpired now := by
  rw [orderedTimestamp_eq, sub_physical, lt_orderedHex, MarkerSnapshot.isPhysicallyExpired,
    ← decide_not, decide_eq_decide]
  exact not_le.symm

theorem decodeRead_missing (maximum : Option MarkerVersion) :
    decodeRead [utf8 "m", (maximum.map Keys.MarkerVersion.orderedHex).getD []]
      = .ok (.missing maximum) := by
  unfold decodeRead
  dsimp only
  rw [if_neg (by decide), if_pos rfl]
  cases maximum with
  | none => rfl
  | some version =>
    rw [Option.map_some, Option.getD_some, if_neg (orderedHex_ne_nil version),
      Keys.MarkerVersion.fromOrderedHex_orderedHex]

theorem decodeRead_snapshot (snapshot : MarkerSnapshot) :
    decodeRead [utf8 "s", encodeMarkerSnapshot snapshot] = .ok (.snapshot snapshot) := by
  unfold decodeRead
  dsimp only
  rw [if_pos rfl, decode_encode]

/-- The reply of the read, by what is there and unexpired. -/
theorem readScript_eq {id : ScopeId} {kind : MarkerKind} {stored : Option MarkerSnapshot}
    (h : EncodesJournal s clock db)
    (hstored : db.get clock (markerSnapshotKey id kind)
      = some (stored.map encodeMarkerSnapshot)) :
    readMarkerSnapshotScript clock db (markerSnapshotKey id kind) (markerKey id)
        (markerField kind) (orderedTimestamp now)
      = some ((unexpiredAt now stored).elim
        [utf8 "m", ((s.read id kind).map Keys.MarkerVersion.orderedHex).getD []]
        fun snapshot => [utf8 "s", encodeMarkerSnapshot (snapshot.withMaximum (s.read id kind))]) := by
  obtain ⟨hash, hhash, hfield⟩ := h.field id kind
  unfold readMarkerSnapshotScript
  rw [hhash, hstored, Option.bind_eq_bind, Option.bind_some]
  dsimp only
  rw [hfield, all_wellFormed, if_neg Bool.false_ne_true, Option.bind_eq_bind, Option.bind_some]
  cases stored with
  | none => rfl
  | some snapshot =>
    rw [Option.map_some]
    dsimp only
    rw [wellFormed_encode, if_neg (by decide), lt_sub_physical, raiseFrame_encode, unexpiredAt,
      Option.filter_some]
    cases snapshot.isPhysicallyExpired now with
    | true => rfl
    | false => rfl

/-- The store's read, by what is there and unexpired. -/
theorem readSnapshotNow_fst (s : InvalidationStore) (id : ScopeId) (kind : MarkerKind)
    (now : Timestamp) : (s.readSnapshotNow id kind now).1
      = (unexpiredAt now (s.snapshots.lookup (id, kind))).elim (.missing (s.read id kind))
        fun snapshot => .snapshot (snapshot.withMaximum (s.read id kind)) := by
  unfold InvalidationStore.readSnapshotNow unexpiredAt
  cases s.snapshots.lookup (id, kind) with
  | none => rfl
  | some snapshot =>
    dsimp only
    rw [Option.filter_some]
    cases snapshot.isPhysicallyExpired now with
    | true => rfl
    | false => rfl

/-- Only unexpired snapshots count. -/
theorem Agrees.congr (h : Agrees s clock now db)
    {snapshots : AList fun _ : SnapshotKey => MarkerSnapshot}
    (hsame : ∀ key, unexpiredAt now (snapshots.lookup key) = unexpiredAt now (s.snapshots.lookup key)) :
    Agrees { s with snapshots } clock now db where
  journal := ⟨h.journal.scopes, h.journal.hashes⟩
  snapshots id kind := by
    obtain ⟨stored, hstored, hunexpired⟩ := h.snapshots id kind
    exact ⟨stored, hstored, hunexpired.trans (hsame (id, kind)).symm⟩

theorem agrees_readSnapshotNow (h : Agrees s clock now db) (id : ScopeId) (kind : MarkerKind) :
    Agrees (s.readSnapshotNow id kind now).2 clock now db := by
  unfold InvalidationStore.readSnapshotNow
  cases hstored : s.snapshots.lookup (id, kind) with
  | none => exact h
  | some snapshot =>
    dsimp only
    split
    · rename_i hexpired
      refine h.congr fun key => ?_
      by_cases hkey : key = (id, kind)
      · subst hkey
        rw [AList.lookup_erase, hstored, unexpiredAt, unexpiredAt, Option.filter_some, hexpired]
        rfl
      · rw [AList.lookup_erase_ne hkey]
    · exact h

theorem decodeRead_refines (h : Agrees s clock now db) (id : ScopeId) (kind : MarkerKind) :
    ∃ response, readMarkerSnapshotScript clock db (markerSnapshotKey id kind) (markerKey id)
        (markerField kind) (orderedTimestamp now) = some response ∧
      decodeRead response = .ok (s.readSnapshotNow id kind now).1 := by
  obtain ⟨stored, hstored, hunexpired⟩ := h.snapshots id kind
  refine ⟨_, readScript_eq h.journal hstored, ?_⟩
  rw [readSnapshotNow_fst, hunexpired]
  cases unexpiredAt now (s.snapshots.lookup (id, kind)) with
  | none => exact decodeRead_missing (s.read id kind)
  | some snapshot => exact decodeRead_snapshot (snapshot.withMaximum (s.read id kind))

/-- **Reading refines.** -/
theorem readSnapshot_refines (h : Agrees s clock now db) (scope : CacheScope) (kind : MarkerKind)
    (seen : CancellationSeen) :
    readSnapshot clock db scope kind now seen
        = some (s.readSnapshot scope.identity kind now seen).1 ∧
      Agrees (s.readSnapshot scope.identity kind now seen).2 clock now db := by
  obtain ⟨response, hscript, hdecode⟩ := decodeRead_refines h scope.identity kind
  have hafter := agrees_readSnapshotNow h scope.identity kind
  unfold readSnapshot InvalidationStore.readSnapshot InvalidationStore.guarded
  dsimp only
  rw [hscript, Option.map_some, hdecode]
  cases seen.before with
  | true => exact ⟨rfl, h⟩
  | false =>
    cases seen.after with
    | true => exact ⟨rfl, hafter⟩
    | false => exact ⟨rfl, hafter⟩

/-! ## Renewals -/

theorem unexpiredAt_unexpiredAt (now : Timestamp) (stored : Option MarkerSnapshot) :
    unexpiredAt now (unexpiredAt now stored) = unexpiredAt now stored := by
  unfold unexpiredAt
  cases stored with
  | none => rfl
  | some snapshot =>
    rw [Option.filter_some]
    split
    · rename_i halive
      rw [Option.filter_some, if_pos halive]
    · rfl

theorem lookup_unexpired (s : InvalidationStore) (now : Timestamp) (key : SnapshotKey) :
    (s.unexpired now).lookup key = unexpiredAt now (s.snapshots.lookup key) :=
  AList.lookup_retain _ _ _

/-- A frame set under a snapshot's key is that snapshot, and nothing else changes. -/
theorem agrees_set (h : Agrees s clock now db) (id : ScopeId) (kind : MarkerKind)
    (snapshot : MarkerSnapshot) (px : Option Nat) :
    Agrees { s with snapshots := (s.unexpired now).insert (id, kind) snapshot } clock now
      (db.set clock (markerSnapshotKey id kind) (encodeMarkerSnapshot snapshot) px) where
  journal := by
    refine ⟨?_, fun other => ?_⟩
    · exact (Keyspace.members_of_ne (markerScopes_ne_markerSnapshotKey id kind)).trans
        h.journal.scopes
    · obtain ⟨hash, hhash, hstate⟩ := h.journal.hashes other
      exact ⟨hash, (Keyspace.hash_of_ne (markerKey_ne_markerSnapshotKey other id kind)).trans hhash,
        hstate⟩
  snapshots other otherKind := by
    by_cases hkey : other = id ∧ otherKind = kind
    · obtain ⟨rfl, rfl⟩ := hkey
      refine ⟨some snapshot, Keyspace.get_set _ _, ?_⟩
      dsimp only
      rw [AList.lookup_insert]
    · have hname : markerSnapshotKey other otherKind ≠ markerSnapshotKey id kind := fun heq =>
        hkey (markerSnapshotKey_inj heq)
      have hpair : (other, otherKind) ≠ (id, kind) := fun heq => hkey (Prod.mk.inj heq)
      obtain ⟨stored, hstored, hunexpired⟩ := h.snapshots other otherKind
      refine ⟨stored, (Keyspace.get_of_ne hname).trans hstored, ?_⟩
      dsimp only
      rw [AList.lookup_insert_ne hpair, lookup_unexpired, unexpiredAt_unexpiredAt]
      exact hunexpired

theorem storeCandidate_eq (h : EncodesJournal s clock db) (id : ScopeId) (kind : MarkerKind)
    (snapshot : MarkerSnapshot) (px : Nat) :
    storeCandidate clock db (markerSnapshotKey id kind) (markerKey id) (markerField kind)
        (encodeMarkerSnapshot snapshot) (decimal px)
      = some (utf8 "s:" ++ encodeMarkerSnapshot (snapshot.withMaximum (s.read id kind)),
        db.set clock (markerSnapshotKey id kind)
          (encodeMarkerSnapshot (snapshot.withMaximum (s.read id kind))) (some px)) := by
  obtain ⟨hash, hhash, hfield⟩ := h.field id kind
  unfold storeCandidate
  rw [hhash, Option.bind_eq_bind, Option.bind_some]
  dsimp only
  rw [hfield, all_wellFormed, if_neg Bool.false_ne_true, raiseFrame_encode, tonumber_decimal]
  rfl

/-- The renewal's reply and effect, when its lease stands or it has none. -/
theorem renewScript_eq (h : EncodesJournal s clock db) {id : ScopeId} {kind : MarkerKind}
    {stored : Option MarkerSnapshot} (snapshot : MarkerSnapshot) (px : Nat) {lease : String}
    {token : Bytes}
    (hstored : db.get clock (markerSnapshotKey id kind) = some (stored.map encodeMarkerSnapshot))
    (hlease : token = [] ∨ db.get clock lease = some (some token)) :
    renewMarkerSnapshotScript clock db (markerSnapshotKey id kind) (markerKey id) lease
        (markerField kind) (encodeMarkerSnapshot snapshot) (decimal px) (orderedTimestamp now) token
      = some (((unexpiredAt now stored).filter fun current => current.supersedes snapshot).elim
        (utf8 "s:" ++ encodeMarkerSnapshot (snapshot.withMaximum (s.read id kind)),
          db.set clock (markerSnapshotKey id kind)
            (encodeMarkerSnapshot (snapshot.withMaximum (s.read id kind))) (some px))
        fun current =>
          (utf8 "k:" ++ encodeMarkerSnapshot (current.withMaximum (s.read id kind)), db)) := by
  have hheld : leaseLost clock db lease token = some false := by
    unfold leaseLost
    split
    · rfl
    · rename_i htoken
      rw [hlease.resolve_left htoken, Option.map_some]
      exact congrArg some (decide_eq_false (not_not.mpr rfl))
  unfold renewMarkerSnapshotScript
  rw [hheld, Option.bind_eq_bind, Option.bind_some, if_neg Bool.false_ne_true, hstored,
    Option.bind_eq_bind, Option.bind_some]
  cases stored with
  | none => exact storeCandidate_eq h id kind snapshot px
  | some current =>
    rw [Option.map_some]
    dsimp only
    rw [wellFormed_encode, if_neg (by decide), keepsCurrent_encode, unexpiredAt, Option.filter_some]
    cases hexpired : current.isPhysicallyExpired now with
    | true => exact storeCandidate_eq h id kind snapshot px
    | false =>
      rw [Bool.not_false, Bool.true_and, if_pos rfl, Option.filter_some]
      cases current.supersedes snapshot with
      | true =>
        obtain ⟨hash, hhash, hfield⟩ := h.field id kind
        rw [if_pos rfl, if_pos rfl, hhash, Option.bind_eq_bind, Option.bind_some, hfield,
          all_wellFormed, if_neg Bool.false_ne_true, raiseFrame_encode]
        rfl
      | false => exact storeCandidate_eq h id kind snapshot px

theorem decodeRenewal_stored (snapshot : MarkerSnapshot) :
    decodeRenewal (utf8 "s:" ++ encodeMarkerSnapshot snapshot) = .ok (.stored snapshot) := by
  have htake : (utf8 "s:" ++ encodeMarkerSnapshot snapshot).take 2 = utf8 "s:" :=
    List.take_left' rfl
  have hdrop : (utf8 "s:" ++ encodeMarkerSnapshot snapshot).drop 2 = encodeMarkerSnapshot snapshot :=
    List.drop_left' rfl
  rw [decodeRenewal, if_neg, if_neg, if_pos htake, hdrop, decode_encode]
  · intro heq
    rw [heq] at htake
    exact absurd htake (by decide)
  · intro heq
    rw [heq] at htake
    exact absurd htake (by decide)

theorem decodeRenewal_keptNewer (snapshot : MarkerSnapshot) :
    decodeRenewal (utf8 "k:" ++ encodeMarkerSnapshot snapshot) = .ok (.keptNewer snapshot) := by
  have htake : (utf8 "k:" ++ encodeMarkerSnapshot snapshot).take 2 = utf8 "k:" :=
    List.take_left' rfl
  have hdrop : (utf8 "k:" ++ encodeMarkerSnapshot snapshot).drop 2 = encodeMarkerSnapshot snapshot :=
    List.drop_left' rfl
  rw [decodeRenewal, if_neg, if_neg, if_neg (by rw [htake]; decide), if_pos htake, hdrop,
    decode_encode]
  · intro heq
    rw [heq] at htake
    exact absurd htake (by decide)
  · intro heq
    rw [heq] at htake
    exact absurd htake (by decide)

/-- The store's renewal below its capacity, by what is there and unexpired. -/
theorem renewSnapshotAtomic_eq {id : ScopeId} {kind : MarkerKind} {snapshot : MarkerSnapshot}
    (halive : snapshot.isPhysicallyExpired now = false)
    (hroom : (s.unexpired now).size < s.snapshotLimits.maxEntries) (order : Nat) :
    s.renewSnapshotAtomic id kind snapshot now order
      = ((unexpiredAt now (s.snapshots.lookup (id, kind))).filter fun current =>
          current.supersedes snapshot).elim
        (.stored (snapshot.withMaximum (s.read id kind)),
          { s with
            snapshots := (s.unexpired now).insert (id, kind) (snapshot.withMaximum (s.read id kind)) })
        fun current => (.keptNewer (current.withMaximum (s.read id kind)),
          { s with snapshots := s.unexpired now }) := by
  have hkept : InvalidationStore.makeRoom s.snapshotLimits (id, kind) (s.unexpired now) order
      = s.unexpired now := by
    rw [InvalidationStore.makeRoom, if_neg]
    rintro ⟨-, hfull⟩
    omega
  unfold InvalidationStore.renewSnapshotAtomic
  dsimp only
  rw [halive, if_neg Bool.false_ne_true, lookup_unexpired, hkept]
  cases (unexpiredAt now (s.snapshots.lookup (id, kind))).filter fun current =>
      current.supersedes snapshot with
  | none => rfl
  | some current => rfl

/-- **A renewal without a lease, or under one that is held, refines.** -/
theorem renewal_refines (h : Agrees s clock now db) (id : ScopeId) (kind : MarkerKind)
    {snapshot : MarkerSnapshot} (halive : snapshot.isPhysicallyExpired now = false)
    (hroom : (s.unexpired now).size < s.snapshotLimits.maxEntries) (order px : Nat) (lease : String)
    {token : Bytes} (hlease : token = [] ∨ db.get clock lease = some (some token)) :
    ∃ response db', renewMarkerSnapshotScript clock db (markerSnapshotKey id kind) (markerKey id)
        lease (markerField kind) (encodeMarkerSnapshot snapshot) (decimal px) (orderedTimestamp now)
        token = some (response, db') ∧
      decodeRenewal response = .ok (s.renewSnapshotAtomic id kind snapshot now order).1 ∧
      Agrees (s.renewSnapshotAtomic id kind snapshot now order).2 clock now db' := by
  obtain ⟨stored, hstored, hunexpired⟩ := h.snapshots id kind
  refine ⟨_, _, renewScript_eq h.journal snapshot px hstored hlease, ?_⟩
  rw [renewSnapshotAtomic_eq halive hroom, hunexpired]
  cases (unexpiredAt now (s.snapshots.lookup (id, kind))).filter fun current =>
      current.supersedes snapshot with
  | none => exact ⟨decodeRenewal_stored _, agrees_set h id kind _ _⟩
  | some current =>
    refine ⟨decodeRenewal_keptNewer _, h.congr fun key => ?_⟩
    rw [lookup_unexpired, unexpiredAt_unexpiredAt]

/-- The script of a renewal whose lease is lost does nothing. -/
theorem renewScript_lost {lease : String} {token : Bytes} {holder : Option Bytes}
    (snapshotKey markers : String) (field candidate ttl nowText : Bytes) (htoken : token ≠ [])
    (hlease : db.get clock lease = some holder) (hlost : holder ≠ some token) :
    renewMarkerSnapshotScript clock db snapshotKey markers lease field candidate ttl nowText token
      = some (utf8 "!lease", db) := by
  unfold renewMarkerSnapshotScript leaseLost
  rw [if_neg htoken, hlease, Option.map_some, decide_eq_true hlost]
  rfl

theorem utf8_token_ne_nil (token : LeaseToken) : utf8 token.asStr ≠ [] := by
  intro h
  have hblank : token.asStr = "" := utf8_injective h
  have hnonblank := token.nonblank
  rw [hblank] at hnonblank
  exact absurd hnonblank (by decide)

/-- **Renewing refines.** -/
theorem renewSnapshot_refines (h : Agrees s clock now db) (scope : CacheScope) (kind : MarkerKind)
    {snapshot : MarkerSnapshot} (halive : snapshot.isPhysicallyExpired now = false)
    (hroom : (s.unexpired now).size < s.snapshotLimits.maxEntries) (order : Nat)
    (seen : CancellationSeen) :
    ∃ db', renewMarkerSnapshot clock db scope kind snapshot now none seen
        = some ((s.renewSnapshot scope.identity kind snapshot now order seen).1, db') ∧
      Agrees (s.renewSnapshot scope.identity kind snapshot now order seen).2 clock now db' := by
  obtain ⟨response, db', hscript, hdecode, hafter⟩ := renewal_refines h scope.identity kind halive
    hroom order (renewalTtl snapshot now) (PRIVATE_AREA ++ "unused-lease") (.inl rfl)
  unfold renewMarkerSnapshot InvalidationStore.renewSnapshot InvalidationStore.guarded
  dsimp only [Option.elim_none]
  rw [hscript, halive, Option.map_some]
  cases seen.before with
  | true => exact ⟨db, rfl, h⟩
  | false =>
    cases seen.after with
    | true => exact ⟨db', rfl, hafter⟩
    | false =>
      refine ⟨db', ?_, hafter⟩
      rw [← hdecode]
      rfl

/-- **Renewing under a held lease refines.** -/
theorem renewSnapshotWithLease_refines (h : Agrees s clock now db) (scope : CacheScope)
    (kind : MarkerKind) {snapshot : MarkerSnapshot}
    (halive : snapshot.isPhysicallyExpired now = false)
    (hroom : (s.unexpired now).size < s.snapshotLimits.maxEntries) (order : Nat)
    {proof : LeaseProof} (hheld : db.get clock (RedisDistributedLocker.leaseKey proof.key)
      = some (some (utf8 proof.token.asStr)))
    (seen : CancellationSeen) :
    ∃ db', renewMarkerSnapshot clock db scope kind snapshot now (some proof) seen
        = some ((s.renewSnapshotWithLease scope.identity kind snapshot now true order seen).1,
          db') ∧
      Agrees (s.renewSnapshotWithLease scope.identity kind snapshot now true order seen).2
        clock now db' := by
  obtain ⟨response, db', hscript, hdecode, hafter⟩ := renewal_refines h scope.identity kind halive
    hroom order (renewalTtl snapshot now) _ (.inr hheld)
  unfold renewMarkerSnapshot InvalidationStore.renewSnapshotWithLease InvalidationStore.guarded
  dsimp only [Option.elim_some]
  rw [hscript, halive, Option.map_some]
  cases seen.before with
  | true => exact ⟨db, rfl, h⟩
  | false =>
    cases seen.after with
    | true => exact ⟨db', rfl, hafter⟩
    | false =>
      refine ⟨db', ?_, hafter⟩
      rw [← hdecode]
      rfl

/-- **A renewal under a lost lease changes nothing.** The store reports the lost lease also where
the server's client sees the cancellation first. -/
theorem renewSnapshotWithLease_lost (s : InvalidationStore) (scope : CacheScope) (kind : MarkerKind)
    {snapshot : MarkerSnapshot} (halive : snapshot.isPhysicallyExpired now = false) (order : Nat)
    {proof : LeaseProof} {holder : Option Bytes}
    (hlease : db.get clock (RedisDistributedLocker.leaseKey proof.key) = some holder)
    (hlost : holder ≠ some (utf8 proof.token.asStr)) (seen : CancellationSeen) :
    renewMarkerSnapshot clock db scope kind snapshot now (some proof) seen
        = some (if seen.before || seen.after then .error .cancelled else .error .leaseLost, db) ∧
      s.renewSnapshotWithLease scope.identity kind snapshot now false order seen
        = (if seen.before then .error .cancelled else .error .leaseLost, s) := by
  unfold renewMarkerSnapshot InvalidationStore.renewSnapshotWithLease InvalidationStore.guarded
  dsimp only [Option.elim_some]
  rw [halive, renewScript_lost _ _ _ _ _ _ (utf8_token_ne_nil proof.token) hlease hlost]
  cases seen.before with
  | true => exact ⟨rfl, rfl⟩
  | false =>
    cases seen.after with
    | true => exact ⟨rfl, rfl⟩
    | false => exact ⟨rfl, rfl⟩

/-- Agreement lasts while time passes: `PX` ends no frame before its physical deadline. -/
theorem Agrees.later (h : Agrees s clock now db) {clock' : Nat} {now' : Timestamp}
    (hnow : now ≤ now') (hmembers : db.members clock' markerScopes = db.members clock markerScopes)
    (hhashes : ∀ id, db.hash clock' (markerKey id) = db.hash clock (markerKey id))
    (hpx : ∀ id kind stored,
      db.get clock (markerSnapshotKey id kind) = some (stored.map encodeMarkerSnapshot) →
      db.get clock' (markerSnapshotKey id kind) = some (stored.map encodeMarkerSnapshot) ∨
        db.get clock' (markerSnapshotKey id kind) = some none ∧ unexpiredAt now' stored = none) :
    Agrees s clock' now' db where
  journal := by
    refine ⟨hmembers.trans h.journal.scopes, fun id => ?_⟩
    obtain ⟨hash, hhash, hstate⟩ := h.journal.hashes id
    exact ⟨hash, (hhashes id).trans hhash, hstate⟩
  snapshots id kind := by
    have hlater : ∀ stored : Option MarkerSnapshot,
        unexpiredAt now' (unexpiredAt now stored) = unexpiredAt now' stored := by
      intro stored
      unfold unexpiredAt
      cases stored with
      | none => rfl
      | some snapshot =>
        rw [Option.filter_some]
        split
        · rfl
        · rename_i hexpired
          have hphysical : snapshot.physical ≤ now := by
            simpa [MarkerSnapshot.isPhysicallyExpired] using hexpired
          have hgone : snapshot.isPhysicallyExpired now' = true :=
            decide_eq_true (le_trans hphysical hnow)
          rw [Option.filter_some, hgone]
          rfl
    obtain ⟨stored, hstored, hunexpired⟩ := h.snapshots id kind
    have hsame : unexpiredAt now' stored = unexpiredAt now' (s.snapshots.lookup (id, kind)) := by
      rw [← hlater stored, hunexpired, hlater]
    rcases hpx id kind stored hstored with hthere | ⟨hgone, hexpired⟩
    · exact ⟨stored, hthere, hsame⟩
    · exact ⟨none, hgone, hexpired.symm.trans hsame⟩

end Refines

/-- The scripts answer what the in-memory store answers and leave the same unexpired snapshots, and
every snapshot is read back from its frame. -/
theorem snapshots_refine (s : InvalidationStore) (clock : Nat) (now : Timestamp) (db : Keyspace)
    (h : Agrees s clock now db) (scope : CacheScope) (kind : MarkerKind) :
    (∀ seen, readSnapshot clock db scope kind now seen
        = some (s.readSnapshot scope.identity kind now seen).1 ∧
      Agrees (s.readSnapshot scope.identity kind now seen).2 clock now db) ∧
    (∀ snapshot order seen, snapshot.isPhysicallyExpired now = false →
      (s.unexpired now).size < s.snapshotLimits.maxEntries →
      ∃ db', renewMarkerSnapshot clock db scope kind snapshot now none seen
          = some ((s.renewSnapshot scope.identity kind snapshot now order seen).1, db') ∧
        Agrees (s.renewSnapshot scope.identity kind snapshot now order seen).2 clock now db') ∧
    (∀ snapshot order seen proof, snapshot.isPhysicallyExpired now = false →
      (s.unexpired now).size < s.snapshotLimits.maxEntries →
      db.get clock (RedisDistributedLocker.leaseKey proof.key)
        = some (some (utf8 proof.token.asStr)) →
      ∃ db', renewMarkerSnapshot clock db scope kind snapshot now (some proof) seen
          = some ((s.renewSnapshotWithLease scope.identity kind snapshot now true order seen).1,
            db') ∧
        Agrees (s.renewSnapshotWithLease scope.identity kind snapshot now true order seen).2
          clock now db') ∧
    (∀ snapshot order seen proof holder, snapshot.isPhysicallyExpired now = false →
      db.get clock (RedisDistributedLocker.leaseKey proof.key) = some holder →
      holder ≠ some (utf8 proof.token.asStr) →
      renewMarkerSnapshot clock db scope kind snapshot now (some proof) seen
          = some (if seen.before || seen.after then .error .cancelled else .error .leaseLost, db) ∧
        s.renewSnapshotWithLease scope.identity kind snapshot now false order seen
          = (if seen.before then .error .cancelled else .error .leaseLost, s)) ∧
    (∀ snapshot, decodeMarkerSnapshot (encodeMarkerSnapshot snapshot) = .ok snapshot) :=
  ⟨readSnapshot_refines h scope kind,
    fun _ order seen halive hroom => renewSnapshot_refines h scope kind halive hroom order seen,
    fun _ order seen _ halive hroom hheld =>
      renewSnapshotWithLease_refines h scope kind halive hroom order hheld seen,
    fun _ order seen _ _ halive hlease hlost =>
      renewSnapshotWithLease_lost s scope kind halive order hlease hlost seen,
    decode_encode⟩

/-- An empty server agrees with a new store. -/
theorem agrees_new (limits : MarkerStoreLimits) (snapshotLimits : MarkerSnapshotLimits) (clock : Nat)
    (now : Timestamp) : Agrees (.new limits snapshotLimits) clock now fun _ => none where
  journal := encodes_new limits snapshotLimits clock
  snapshots _ _ := ⟨none, rfl, rfl⟩

theorem snapshots_refine_first_renewal :
    ∃ db', renewMarkerSnapshot 0 (fun _ => none) Keys.amalgamPrefixed.scope .clearRemove
        ⟨epochStart, epochStart, epochStart, Timestamp.MAX, le_refl _, by decide⟩ epochStart none
        ⟨false, false⟩
      = some (.ok (.stored
          ⟨epochStart, epochStart, epochStart, Timestamp.MAX, le_refl _, by decide⟩), db') := by
  obtain ⟨db', h, -⟩ := (snapshots_refine (.new ⟨1, 1, by decide, by decide⟩ ⟨1, by decide⟩) 0
    epochStart (fun _ => none) (agrees_new _ _ 0 epochStart) Keys.amalgamPrefixed.scope
    .clearRemove).2.1
      ⟨epochStart, epochStart, epochStart, Timestamp.MAX, le_refl _, by decide⟩ 0 ⟨false, false⟩
      (by decide) (by decide)
  exact ⟨db', h⟩

end Amalgam.RedisInvalidationStore
