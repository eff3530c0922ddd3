import Amalgam.Keys.ByteMarkers
import Amalgam.Lib.Redis
import Amalgam.Markers.Snapshots
import Amalgam.Wire.Backplane

/-!
# Amalgam — the marker journal in Redis

`src/redis_backend.rs`: a scope's markers are the fields of a hash, its admission is membership in a
set, and an advance is one script.

* **`journal_refines`** — on a keyspace that encodes the in-memory journal, the script answers what
  `InMemoryInvalidationStore::advance` answers and leaves the encoding of what it leaves.

The script is translated statement by statement. `clock` is the server's, and `listing` the order in
which it lists the fields of a hash.
-/

namespace Amalgam.RedisInvalidationStore

open Keys Text Wire Redis

/-! ## Names -/

def PRIVATE_AREA : String := "\u001famalgam/v2/"

/-- The storage id of whoever has these two texts around its keys. -/
def storageId (id : ScopeId) : String := frame id.1 ++ frame id.2

theorem storageId_identity (scope : CacheScope) : storageId scope.identity = scope.storageId := rfl

/-- `marker_key`. -/
def markerKey (id : ScopeId) : String := PRIVATE_AREA ++ ("markers/" ++ encodeHex (utf8 (storageId id)))

def markerScopes : String := PRIVATE_AREA ++ "marker-scopes"

/-- `marker_field`. -/
def markerFieldName : MarkerKind → String
  | .tag named => "t:" ++ encodeHex (utf8 named.asStr)
  | .clearExpire => "e"
  | .clearRemove => "r"

/-- The field as the scripts get it. -/
def markerField (kind : MarkerKind) : Bytes := utf8 (markerFieldName kind)

/-- `string.sub(field, 1, 2) == 't:'`. -/
def isTagField (field : Bytes) : Bool := sub field 1 2 = utf8 "t:"

/-! ## The script -/

/-- `ADVANCE_MARKER_SCRIPT` on the scope's hash: the reply, and what is left. -/
def advanceFields (listing : Hash → List (Bytes × Bytes)) (hash : Hash) (field candidate : Bytes)
    (tagLimit : Nat) : List Bytes × Hash :=
  let revision := match hash.lookup field with
    | some previous => if lt candidate previous then previous else candidate
    | none => candidate
  let hash := hash.insert field revision
  let tags := (listing hash).filter fun pair => isTagField pair.1
  if tags.length ≤ tagLimit then ([revision, []], hash)
  else
    let through := match hash.lookup (utf8 "r") with
      | some clear => if lt (greatest tags) clear then clear else greatest tags
      | none => greatest tags
    let hash := hash.insert (utf8 "r") through
    let hash := eraseAll (fun pair => !lt through pair.2) tags hash
    -- A requested hard clear already is the promoted fence.
    (if field = utf8 "r" then [through, []] else [revision, through], hash)

/-- `ADVANCE_MARKER_SCRIPT`. -/
def advanceMarkerScript (listing : Hash → List (Bytes × Bytes)) (clock : Nat) (db : Keyspace)
    (markers scopes : String) (id field candidate maxTags maxScopes : Bytes) :
    Option (List Bytes × Keyspace) := do
  let admitted ← db.members clock scopes
  let scopeLimit ← tonumber maxScopes
  let tagLimit ← tonumber maxTags
  if id ∉ admitted ∧ admitted.card ≥ scopeLimit then
    return ([utf8 "!capacity", maxScopes], db)
  else
    let db := if id ∈ admitted then db else db.store clock scopes (.set (insert id admitted))
    let hash ← db.hash clock markers
    let (reply, hash) := advanceFields listing hash field candidate tagLimit
    return (reply, db.store clock markers (.hash hash))

/-- The reply of the script, as the caller reads it. -/
def decodeAdvance (limits : MarkerStoreLimits) (kind : MarkerKind) (response : List Bytes) :
    Except MarkerError MarkerAdvanceOutcome :=
  if response.head? = some (utf8 "!capacity") then .error (.scopeCapacity limits.maxScopes)
  else
    match response with
    | [marker, clear] => do
      let version ← Keys.MarkerVersion.fromOrderedHex marker
      if clear = [] then return .advanced ⟨kind, version⟩
      else
        let clearRemove ← Keys.MarkerVersion.fromOrderedHex clear
        return .compacted ⟨kind, version⟩ clearRemove
    | _ => .error (.protocol "invalid marker advance response")

/-- `RedisInvalidationStore::advance`; `none` is a failed command. -/
def advance (listing : Hash → List (Bytes × Bytes)) (limits : MarkerStoreLimits) (clock : Nat)
    (db : Keyspace) (scope : CacheScope) (kind : MarkerKind) (candidate : MarkerVersion) :
    Option (Except MarkerError MarkerAdvanceOutcome × Keyspace) := do
  let (response, db) ← advanceMarkerScript listing clock db (markerKey scope.identity) markerScopes
    (utf8 scope.storageId) (markerField kind) (Keys.MarkerVersion.orderedHex candidate)
    (decimal limits.maxTags) (decimal limits.maxScopes)
  return (decodeAdvance limits kind response, db)

/-! ## Versions as texts -/

theorem xor_signBit {n : Nat} (h : n < 2 ^ 64) :
    n ^^^ 2 ^ 63 = if n < 2 ^ 63 then n + 2 ^ 63 else n - 2 ^ 63 := by
  have hlow : (n ^^^ 2 ^ 63) % 2 ^ 63 = n % 2 ^ 63 := by
    rw [Nat.xor_mod_two_pow, Nat.mod_self, Nat.xor_zero]
  have hhigh : (n ^^^ 2 ^ 63) / 2 ^ 63 = (n / 2 ^ 63) ^^^ 1 := by
    rw [Nat.xor_div_two_pow, Nat.div_self (by decide)]
  have hbit : n / 2 ^ 63 = 0 ∨ n / 2 ^ 63 = 1 := by omega
  rcases hbit with hzero | hone
  · rw [hzero, Nat.zero_xor] at hhigh
    split
    · omega
    · omega
  · rw [hone, Nat.xor_self] at hhigh
    split
    · omega
    · omega

theorem biased_toNat (version : Timestamp) :
    ((Keys.MarkerVersion.biased version).toNat : Int) = version.ticks + 2 ^ 63 := by
  have hlower := version.lower
  have hupper := version.upper
  unfold i64Min at hlower
  unfold i64Max at hupper
  have hbits : (BitVec.ofInt 64 version.ticks).toNat = (version.ticks % 2 ^ 64).toNat :=
    BitVec.toNat_ofInt version.ticks
  have hsign : (1#64 <<< 63 : BitVec 64).toNat = 2 ^ 63 := by decide
  rw [Keys.MarkerVersion.biased, BitVec.toNat_xor, hsign,
    xor_signBit (BitVec.ofInt 64 version.ticks).isLt, hbits]
  split
  · omega
  · omega

/-- **The texts of versions compare as the versions do.** -/
theorem lt_orderedHex (a b : Timestamp) :
    lt (Keys.MarkerVersion.orderedHex a) (Keys.MarkerVersion.orderedHex b) = decide (a < b) := by
  have hbound : ∀ version : Timestamp, (Keys.MarkerVersion.biased version).toNat < 16 ^ 16 :=
    fun version => (Keys.MarkerVersion.biased version).isLt
  have ha := biased_toNat a
  have hb := biased_toNat b
  have hticks : a < b ↔ a.ticks < b.ticks := Iff.rfl
  rw [Keys.MarkerVersion.orderedHex, Keys.MarkerVersion.orderedHex, lt_ofNat (hbound a) (hbound b),
    decide_eq_decide, hticks]
  omega

theorem orderedHex_injective : Function.Injective Keys.MarkerVersion.orderedHex := by
  intro a b h
  have hread := congrArg Keys.MarkerVersion.fromOrderedHex h
  rw [Keys.MarkerVersion.fromOrderedHex_orderedHex, Keys.MarkerVersion.fromOrderedHex_orderedHex]
    at hread
  exact Except.ok.inj hread

theorem length_orderedHex (version : Timestamp) :
    (Keys.MarkerVersion.orderedHex version).length = 16 := by
  rw [Keys.MarkerVersion.orderedHex, Hex.length_ofNat]

theorem orderedHex_ne_nil (version : Timestamp) : Keys.MarkerVersion.orderedHex version ≠ [] := by
  intro h
  have hlength := length_orderedHex version
  rw [h] at hlength
  cases hlength

/-! ## Names -/

theorem utf8_encodeHex (bytes : Bytes) : utf8 (encodeHex bytes) = Hex.encode bytes :=
  utf8_ofAscii (Hex.encode_ascii bytes)

theorem encodeHex_injective {a b : Bytes} (h : encodeHex a = encodeHex b) : a = b := by
  have hread := congrArg decodeHex h
  rw [decodeHex_encodeHex, decodeHex_encodeHex] at hread
  exact Except.ok.inj hread

theorem markerField_tag (named : Tag) :
    markerField (.tag named) = 116 :: 58 :: Hex.encode (utf8 named.asStr) := by
  rw [markerField, markerFieldName, utf8_append, utf8_encodeHex]
  rfl

theorem isTagField_tag (named : Tag) : isTagField (markerField (.tag named)) = true := by
  rw [markerField_tag]
  rfl

theorem isTagField_clear :
    isTagField (markerField .clearExpire) = false ∧
      isTagField (markerField .clearRemove) = false := by
  decide

theorem markerField_injective : Function.Injective markerField := by
  have hclear : ∀ named : Tag, markerField (.tag named) ≠ markerField .clearExpire ∧
      markerField (.tag named) ≠ markerField .clearRemove := by
    intro named
    refine ⟨fun h => ?_, fun h => ?_⟩
    · exact absurd (isTagField_tag named) (by rw [h, isTagField_clear.1]; decide)
    · exact absurd (isTagField_tag named) (by rw [h, isTagField_clear.2]; decide)
  intro kind kind' h
  cases kind with
  | tag named =>
    cases kind' with
    | tag named' =>
      rw [markerField_tag, markerField_tag, List.cons.injEq, List.cons.injEq] at h
      have hbytes : utf8 named.asStr = utf8 named'.asStr := by
        have hread := congrArg Hex.decode h.2.2
        rw [Hex.decode_encode, Hex.decode_encode] at hread
        exact Option.some.inj hread
      have htext := utf8_injective hbytes
      cases named
      cases named'
      cases htext
      rfl
    | clearExpire => exact absurd h (hclear named).1
    | clearRemove => exact absurd h (hclear named).2
  | clearExpire =>
    cases kind' with
    | tag named => exact absurd h.symm (hclear named).1
    | clearExpire => rfl
    | clearRemove => exact absurd h (by decide)
  | clearRemove =>
    cases kind' with
    | tag named => exact absurd h.symm (hclear named).2
    | clearExpire => exact absurd h (by decide)
    | clearRemove => rfl

theorem markerField_eq_r (kind : MarkerKind) : markerField kind = utf8 "r" ↔ kind = .clearRemove :=
  ⟨fun h => markerField_injective h, fun h => congrArg markerField h⟩

theorem storageId_injective : Function.Injective storageId := by
  intro id id' h
  have hlead := frame_append_inj h
  exact Prod.ext hlead.1 (frame_injective hlead.2)

theorem markerKey_injective : Function.Injective markerKey := by
  intro id id' h
  have hhex := (String.append_right_inj _).mp ((String.append_right_inj _).mp h)
  exact storageId_injective (utf8_injective (encodeHex_injective hhex))

/-- The hashes of scopes and the set of scopes are apart. -/
theorem markerKey_ne_markerScopes (id : ScopeId) : markerKey id ≠ markerScopes := by
  intro h
  have hnames := congrArg (fun name : String => name.toList.take 7) ((String.append_right_inj _).mp h)
  rw [String.toList_append, List.take_append_of_le_length (by decide)] at hnames
  exact absurd hnames (by decide)

/-! ## One scope -/

/-- The hash holds exactly the markers of the state. -/
structure EncodesState (state : MarkerState) (hash : Hash) : Prop where
  lookup : ∀ kind,
    hash.lookup (markerField kind) = (state.read kind).map Keys.MarkerVersion.orderedHex
  fields : ∀ field ∈ hash, ∃ kind, field = markerField kind

theorem read_put (state : MarkerState) (kind other : MarkerKind) (version : MarkerVersion) :
    (state.put kind version).read other = if other = kind then some version else state.read other := by
  cases kind with
  | tag named =>
    cases other with
    | tag named' =>
      show (state.tags.insert named version).lookup named' = _
      by_cases hname : named' = named
      · subst hname
        rw [AList.lookup_insert, if_pos rfl]
      · rw [AList.lookup_insert_ne hname, if_neg (by simpa using hname)]
        rfl
    | clearExpire => rfl
    | clearRemove => rfl
  | clearExpire => cases other <;> rfl
  | clearRemove => cases other <;> rfl

theorem EncodesState.insert {state state' : MarkerState} {hash : Hash} {kind : MarkerKind}
    {version : MarkerVersion} (h : EncodesState state hash)
    (hread : ∀ other, state'.read other = if other = kind then some version else state.read other) :
    EncodesState state'
      (hash.insert (markerField kind) (Keys.MarkerVersion.orderedHex version)) where
  lookup other := by
    rw [hread]
    by_cases hother : other = kind
    · subst hother
      rw [AList.lookup_insert, if_pos rfl]
      rfl
    · rw [AList.lookup_insert_ne (fun heq => hother (markerField_injective heq)), if_neg hother]
      exact h.lookup other
  fields field hfield := by
    rcases (AList.mem_insert hash).mp hfield with heq | hold
    · exact ⟨kind, heq⟩
    · exact h.fields field hold

section Tags

variable {listing : Hash → List (Bytes × Bytes)} {state : MarkerState} {hash : Hash}

/-- The tag fields of an encoded state are its tags, each with the text of its version. -/
theorem mem_tagFields (hlisting : Lists listing) (h : EncodesState state hash)
    {pair : Bytes × Bytes} :
    pair ∈ (listing hash).filter (fun pair => isTagField pair.1) ↔
      ∃ named version, state.tags.lookup named = some version ∧
        pair = (markerField (.tag named), Keys.MarkerVersion.orderedHex version) := by
  rw [List.mem_filter]
  constructor
  · rintro ⟨hmem, htag⟩
    have hlookup := (hlisting.mem_iff hash pair.1 pair.2).mp hmem
    have hfield : pair.1 ∈ hash := AList.lookup_isSome.mp (by rw [hlookup]; rfl)
    obtain ⟨kind, hkind⟩ := h.fields pair.1 hfield
    rw [hkind] at htag hlookup
    cases kind with
    | tag named =>
      obtain ⟨version, hversion, hvalue⟩ :=
        Option.map_eq_some_iff.mp ((h.lookup (.tag named)).symm.trans hlookup)
      exact ⟨named, version, hversion, Prod.ext hkind hvalue.symm⟩
    | clearExpire => exact absurd htag (by rw [isTagField_clear.1]; decide)
    | clearRemove => exact absurd htag (by rw [isTagField_clear.2]; decide)
  · rintro ⟨named, version, hversion, rfl⟩
    refine ⟨(hlisting.mem_iff hash _ _).mpr ?_, isTagField_tag named⟩
    rw [h.lookup]
    show (state.tags.lookup named).map _ = _
    rw [hversion]
    rfl

/-- There are as many tag fields as tags. -/
theorem length_tagFields (hlisting : Lists listing) (h : EncodesState state hash) :
    ((listing hash).filter fun pair => isTagField pair.1).length = state.tags.size := by
  have hfields : (((listing hash).filter fun pair => isTagField pair.1).map Prod.fst).Nodup :=
    (hlisting.nodup hash).sublist (List.filter_sublist.map Prod.fst)
  have htags : (state.tags.entries.keys.map fun named => markerField (.tag named)).Nodup := by
    refine state.tags.nodupKeys.map fun named named' heq => ?_
    exact MarkerKind.tag.inj (markerField_injective heq)
  have hperm := (List.perm_ext_iff_of_nodup hfields htags).mpr fun field => by
    rw [List.mem_map, List.mem_map]
    constructor
    · rintro ⟨pair, hpair, rfl⟩
      obtain ⟨named, version, hversion, rfl⟩ := (mem_tagFields hlisting h).mp hpair
      exact ⟨named, AList.mem_keys.mp (AList.lookup_isSome.mp (by rw [hversion]; rfl)), rfl⟩
    · rintro ⟨named, hnamed, rfl⟩
      obtain ⟨version, hversion⟩ :=
        Option.isSome_iff_exists.mp (AList.lookup_isSome.mpr (AList.mem_keys.mpr hnamed))
      exact ⟨_, (mem_tagFields hlisting h).mpr ⟨named, version, hversion, rfl⟩, rfl⟩
  have hlength := hperm.length_eq
  rw [List.length_map, List.length_map] at hlength
  rw [hlength]
  exact List.length_map _

/-- The greatest tag text is that of the greatest tag version. -/
theorem greatest_tagFields (hlisting : Lists listing) (h : EncodesState state hash) :
    greatest ((listing hash).filter fun pair => isTagField pair.1)
      = state.tags.values.max?.elim [] Keys.MarkerVersion.orderedHex := by
  obtain ⟨versions, hversions⟩ : ∃ versions, List.map Keys.MarkerVersion.orderedHex versions
      = ((listing hash).filter fun pair => isTagField pair.1).map Prod.snd := by
    have hrange := Set.range_list_map Keys.MarkerVersion.orderedHex
    refine (Set.ext_iff.mp hrange _).mpr fun text htext => ?_
    obtain ⟨pair, hpair, rfl⟩ := List.mem_map.mp htext
    obtain ⟨named, version, -, rfl⟩ := (mem_tagFields hlisting h).mp hpair
    exact ⟨version, rfl⟩
  have hmem : ∀ version, version ∈ versions ↔ version ∈ state.tags.values := by
    intro version
    rw [← List.mem_map_of_injective orderedHex_injective, hversions, List.mem_map, AList.mem_values]
    constructor
    · rintro ⟨pair, hpair, hvalue⟩
      obtain ⟨named, found, hfound, rfl⟩ := (mem_tagFields hlisting h).mp hpair
      exact ⟨named, orderedHex_injective hvalue ▸ hfound⟩
    · rintro ⟨named, hnamed⟩
      exact ⟨_, (mem_tagFields hlisting h).mpr ⟨named, version, hnamed, rfl⟩, rfl⟩
  have hmax : versions.max? = state.tags.values.max? := by
    ext version
    rw [List.max?_eq_some_iff, List.max?_eq_some_iff, hmem]
    simp only [hmem]
  rw [greatest_eq lt_orderedHex orderedHex_ne_nil hversions.symm, hmax]

/-- The text of the later of two versions. -/
theorem raised_text (old : Option MarkerVersion) (candidate : MarkerVersion) :
    (match old.map Keys.MarkerVersion.orderedHex with
      | some previous =>
        if lt (Keys.MarkerVersion.orderedHex candidate) previous then previous
        else Keys.MarkerVersion.orderedHex candidate
      | none => Keys.MarkerVersion.orderedHex candidate)
      = Keys.MarkerVersion.orderedHex (MarkerState.raised old candidate) := by
  cases old with
  | none => rfl
  | some old =>
    show (if lt _ (Keys.MarkerVersion.orderedHex old) then _ else _)
      = Keys.MarkerVersion.orderedHex (max old candidate)
    rw [lt_orderedHex]
    by_cases hlt : candidate < old
    · rw [if_pos (decide_eq_true hlt), max_eq_left hlt.le]
    · rw [if_neg (by simpa using hlt), max_eq_right (not_lt.mp hlt)]

/-- The tags that a promoted fence leaves. -/
theorem EncodesState.eraseAll (hlisting : Lists listing) (h : EncodesState state hash)
    {fenced : Hash} {clearRemove : MarkerVersion}
    (hfenced : EncodesState { state with clearRemove := some clearRemove } fenced) :
    EncodesState
      { state with
        clearRemove := some clearRemove
        tags := state.tags.retain fun binding => decide (clearRemove < binding.2) }
      (eraseAll (fun pair => !lt (Keys.MarkerVersion.orderedHex clearRemove) pair.2)
        ((listing hash).filter fun pair => isTagField pair.1) fenced) where
  lookup kind := by
    rw [lookup_eraseAll, hfenced.lookup]
    have hkeep : ∀ other, (∀ named, other ≠ MarkerKind.tag named) →
        ((listing hash).filter fun pair => isTagField pair.1).any (fun pair =>
          pair.1 = markerField other &&
            !lt (Keys.MarkerVersion.orderedHex clearRemove) pair.2) = false := by
      intro other hother
      rw [List.any_eq_false]
      intro pair hpair hfound
      obtain ⟨named, version, -, rfl⟩ := (mem_tagFields hlisting h).mp hpair
      rw [Bool.and_eq_true, decide_eq_true_eq] at hfound
      exact hother named (markerField_injective hfound.1).symm
    cases kind with
    | clearExpire =>
      rw [if_neg (by rw [hkeep _ fun _ heq => MarkerKind.noConfusion heq]; decide)]
      rfl
    | clearRemove =>
      rw [if_neg (by rw [hkeep _ fun _ heq => MarkerKind.noConfusion heq]; decide)]
      rfl
    | tag named =>
      show _ = ((state.tags.retain fun binding => decide (clearRemove < binding.2)).lookup
        named).map _
      rw [AList.lookup_retain]
      show (if _ then none else (state.tags.lookup named).map _) = _
      cases hversion : state.tags.lookup named with
      | none =>
        split
        · rfl
        · rfl
      | some version =>
        have hany : ((listing hash).filter fun pair => isTagField pair.1).any (fun pair =>
            pair.1 = markerField (.tag named) &&
              !lt (Keys.MarkerVersion.orderedHex clearRemove) pair.2) = true ↔
            ¬ clearRemove < version := by
          rw [List.any_eq_true]
          constructor
          · rintro ⟨pair, hpair, hfound⟩ hlt
            obtain ⟨named', version', hversion', rfl⟩ := (mem_tagFields hlisting h).mp hpair
            rw [Bool.and_eq_true, decide_eq_true_eq] at hfound
            obtain rfl := MarkerKind.tag.inj (markerField_injective hfound.1)
            obtain rfl : version = version' := Option.some.inj (hversion.symm.trans hversion')
            have hle := hfound.2
            rw [lt_orderedHex, decide_eq_true hlt] at hle
            cases hle
          · intro hle
            refine ⟨_, (mem_tagFields hlisting h).mpr ⟨named, version, hversion, rfl⟩, ?_⟩
            rw [lt_orderedHex, decide_eq_false hle, decide_eq_true rfl]
            rfl
        rw [Option.filter_some]
        by_cases hlt : clearRemove < version
        · rw [if_neg (fun hfound => (hany.mp hfound) hlt), if_pos (decide_eq_true hlt)]
        · rw [if_pos (hany.mpr hlt), if_neg (by simpa using hlt)]
          rfl
  fields field hfield := by
    refine hfenced.fields field (AList.lookup_isSome.mp ?_)
    have hlookup := AList.lookup_isSome.mpr hfield
    rw [lookup_eraseAll] at hlookup
    split at hlookup
    · cases hlookup
    · exact hlookup

/-- What the script replies for an outcome. -/
def replyOf : MarkerAdvanceOutcome → List Bytes
  | .advanced marker => [Keys.MarkerVersion.orderedHex marker.version, []]
  | .compacted marker clearRemove =>
    [Keys.MarkerVersion.orderedHex marker.version, Keys.MarkerVersion.orderedHex clearRemove]

/-- **The script advances an encoded state as `MarkerState::advance` does.** -/
theorem advanceFields_refines (hlisting : Lists listing) (h : EncodesState state hash)
    (kind : MarkerKind) (candidate : MarkerVersion) (capacity : Nat) :
    (advanceFields listing hash (markerField kind) (Keys.MarkerVersion.orderedHex candidate)
        capacity).1 = replyOf (state.advance kind candidate capacity).2 ∧
      EncodesState (state.advance kind candidate capacity).1
        (advanceFields listing hash (markerField kind) (Keys.MarkerVersion.orderedHex candidate)
          capacity).2 ∧
      (state.advance kind candidate capacity).2.marker.kind = kind := by
  obtain ⟨version, hversion⟩ : ∃ version, MarkerState.raised (state.read kind) candidate = version :=
    ⟨_, rfl⟩
  have hput : EncodesState (state.put kind version)
      (hash.insert (markerField kind) (Keys.MarkerVersion.orderedHex version)) :=
    h.insert fun other => read_put state kind other version
  unfold advanceFields MarkerState.advance
  dsimp only
  rw [h.lookup, raised_text, hversion]
  generalize hash.insert (markerField kind) (Keys.MarkerVersion.orderedHex version) = hash' at hput ⊢
  generalize state.put kind version = state' at hput ⊢
  rw [length_tagFields hlisting hput]
  by_cases hfits : state'.tags.size ≤ capacity
  · rw [if_pos hfits, if_pos hfits]
    exact ⟨rfl, hput, rfl⟩
  · rw [if_neg hfits, if_neg hfits]
    -- The promoted fence is the greatest tag version, and there is one.
    obtain ⟨through, hthrough⟩ : ∃ through, state'.tags.values.max? = some through := by
      refine Option.isSome_iff_exists.mp (List.isSome_max?_of_ne_nil fun hnil => hfits ?_)
      have hempty : state'.tags.size = 0 :=
        (List.length_map _).symm.trans (congrArg List.length hnil)
      omega
    have hclear : hash'.lookup (utf8 "r") = state'.clearRemove.map Keys.MarkerVersion.orderedHex :=
      hput.lookup .clearRemove
    rw [hclear, greatest_tagFields hlisting hput, hthrough, Option.elim_some, raised_text,
      Option.getD_some]
    have hfenced : EncodesState
        { state' with clearRemove := some (MarkerState.raised state'.clearRemove through) }
        (hash'.insert (utf8 "r")
          (Keys.MarkerVersion.orderedHex (MarkerState.raised state'.clearRemove through))) :=
      hput.insert fun other => read_put state' .clearRemove other _
    have hleft := EncodesState.eraseAll hlisting hput hfenced
    by_cases hkind : kind = .clearRemove
    · rw [if_pos ((markerField_eq_r kind).mpr hkind), if_pos hkind]
      exact ⟨rfl, hleft, hkind.symm⟩
    · rw [if_neg (fun hfield => hkind ((markerField_eq_r kind).mp hfield)), if_neg hkind]
      exact ⟨rfl, hleft, rfl⟩

end Tags

/-! ## The journal -/

/-- The storage ids of the admitted scopes. -/
def admitted (s : InvalidationStore) : Finset Bytes :=
  (s.scopes.entries.keys.map fun id => utf8 (storageId id)).toFinset

/-- The keyspace holds the journal: its scopes in the set, and each scope's markers in a hash. -/
structure EncodesJournal (s : InvalidationStore) (clock : Nat) (db : Keyspace) : Prop where
  scopes : db.members clock markerScopes = some (admitted s)
  hashes : ∀ id, ∃ hash, db.hash clock (markerKey id) = some hash ∧
    EncodesState ((s.scopes.lookup id).getD {}) hash

theorem mem_admitted (s : InvalidationStore) (id : ScopeId) :
    utf8 (storageId id) ∈ admitted s ↔ (s.scopes.lookup id).isSome := by
  have hinjective : Function.Injective fun id => utf8 (storageId id) :=
    fun _ _ h => storageId_injective (utf8_injective h)
  rw [admitted, List.mem_toFinset, List.mem_map_of_injective hinjective]
  exact AList.lookup_isSome.symm

theorem card_admitted (s : InvalidationStore) : (admitted s).card = s.scopes.size := by
  have hnodup : (s.scopes.entries.keys.map fun id => utf8 (storageId id)).Nodup :=
    s.scopes.nodupKeys.map fun _ _ h => storageId_injective (utf8_injective h)
  rw [admitted, List.toFinset_card_of_nodup hnodup, List.length_map]
  exact List.length_map _

theorem admitted_insert (s : InvalidationStore) (id : ScopeId) (state : MarkerState) :
    admitted { s with scopes := s.scopes.insert id state }
      = insert (utf8 (storageId id)) (admitted s) := by
  ext member
  rw [admitted, admitted, Finset.mem_insert, List.mem_toFinset, List.mem_toFinset, List.mem_map,
    List.mem_map]
  constructor
  · rintro ⟨other, hother, rfl⟩
    rcases (AList.mem_insert s.scopes).mp hother with rfl | hold
    · exact .inl rfl
    · exact .inr ⟨other, hold, rfl⟩
  · rintro (rfl | ⟨other, hother, rfl⟩)
    · exact ⟨id, (AList.mem_insert s.scopes).mpr (.inl rfl), rfl⟩
    · exact ⟨other, (AList.mem_insert s.scopes).mpr (.inr hother), rfl⟩

theorem decodeAdvance_replyOf (limits : MarkerStoreLimits) (outcome : MarkerAdvanceOutcome) :
    decodeAdvance limits outcome.marker.kind (replyOf outcome) = .ok outcome := by
  have hfirst : ∀ version : MarkerVersion,
      some (Keys.MarkerVersion.orderedHex version) ≠ some (utf8 "!capacity") := by
    intro version h
    have hlength := length_orderedHex version
    rw [Option.some.inj h] at hlength
    exact absurd hlength (by decide)
  have hhead : (replyOf outcome).head? ≠ some (utf8 "!capacity") := by
    cases outcome with
    | advanced marker => exact hfirst marker.version
    | compacted marker clearRemove => exact hfirst marker.version
  unfold decodeAdvance
  rw [if_neg hhead]
  cases outcome with
  | advanced marker =>
    dsimp only [replyOf, MarkerAdvanceOutcome.marker]
    rw [Keys.MarkerVersion.fromOrderedHex_orderedHex]
    rfl
  | compacted marker clearRemove =>
    dsimp only [replyOf, MarkerAdvanceOutcome.marker]
    rw [Keys.MarkerVersion.fromOrderedHex_orderedHex, Keys.MarkerVersion.fromOrderedHex_orderedHex]
    dsimp only [bind, Except.bind]
    rw [if_neg (orderedHex_ne_nil clearRemove)]
    rfl

/-- **The Redis journal refines the in-memory one.** An advance answers the same and leaves the
encoding of the state after it; without room for the scope it leaves everything. -/
theorem journal_refines (listing : Hash → List (Bytes × Bytes)) (hlisting : Lists listing)
    (s : InvalidationStore) (clock : Nat) (db : Keyspace) (h : EncodesJournal s clock db)
    (scope : CacheScope) (kind : MarkerKind) (candidate : MarkerVersion) :
    ∃ db', advance listing s.limits clock db scope kind candidate
        = some ((s.advance scope.identity kind candidate).1, db') ∧
      EncodesJournal (s.advance scope.identity kind candidate).2 clock db' ∧
      ((s.advance scope.identity kind candidate).1 = .error (.scopeCapacity s.limits.maxScopes) →
        db' = db ∧ (s.advance scope.identity kind candidate).2 = s) := by
  have hmem := mem_admitted s scope.identity
  have hcard := card_admitted s
  rw [storageId_identity] at hmem
  unfold advance advanceMarkerScript InvalidationStore.advance
  rw [h.scopes]
  simp only [tonumber_decimal, Option.bind_eq_bind, Option.bind_some, hmem, hcard]
  by_cases hfull : (s.scopes.lookup scope.identity).isNone ∧ s.limits.maxScopes ≤ s.scopes.size
  · have hscript : ¬ (s.scopes.lookup scope.identity).isSome = true ∧
        s.scopes.size ≥ s.limits.maxScopes :=
      ⟨by rw [Option.isNone_iff_eq_none.mp hfull.1]; decide, hfull.2⟩
    rw [if_pos hfull, if_pos hscript]
    exact ⟨db, rfl, h, fun _ => ⟨rfl, rfl⟩⟩
  · have hscript : ¬ (¬ (s.scopes.lookup scope.identity).isSome = true ∧
        s.scopes.size ≥ s.limits.maxScopes) := by
      rintro ⟨hmissing, hover⟩
      exact hfull ⟨by simpa using hmissing, hover⟩
    rw [if_neg hfull, if_neg hscript]
    obtain ⟨hash, hhash, hstate⟩ := h.hashes scope.identity
    obtain ⟨hreply, hleft, hkind⟩ :=
      advanceFields_refines hlisting hstate kind candidate s.limits.maxTags
    -- The set holds the scope before the hash is touched.
    obtain ⟨db', hdb'⟩ : ∃ db', db' = if (s.scopes.lookup scope.identity).isSome = true then db
        else db.store clock markerScopes (.set (insert (utf8 scope.storageId) (admitted s))) :=
      ⟨_, rfl⟩
    have hmembers : db'.members clock markerScopes
        = some (insert (utf8 scope.storageId) (admitted s)) := by
      rw [hdb']
      split
      · rename_i hthere
        rw [h.scopes, Finset.insert_eq_of_mem (hmem.mpr hthere)]
      · exact Keyspace.members_store _
    have hhashes : ∀ id, db'.hash clock (markerKey id) = db.hash clock (markerKey id) := by
      intro id
      rw [hdb']
      split
      · rfl
      · exact Keyspace.hash_of_ne (markerKey_ne_markerScopes id)
    rw [← hdb', hhashes, hhash]
    dsimp only [Option.bind_some]
    generalize advanceFields listing hash (markerField kind)
      (Keys.MarkerVersion.orderedHex candidate) s.limits.maxTags = script at hreply hleft ⊢
    generalize ((s.scopes.lookup scope.identity).getD {}).advance kind candidate s.limits.maxTags
      = advanced at hreply hleft hkind ⊢
    refine ⟨db'.store clock (markerKey scope.identity) (.hash script.2), ?_, ⟨?_, fun id => ?_⟩,
      nofun⟩
    · rw [hreply]
      show some (decodeAdvance s.limits kind (replyOf advanced.2), _) = _
      rw [← hkind, decodeAdvance_replyOf]
    · rw [admitted_insert]
      exact (Keyspace.members_of_ne (markerKey_ne_markerScopes _).symm).trans hmembers
    · by_cases hid : id = scope.identity
      · subst hid
        refine ⟨script.2, Keyspace.hash_store _, ?_⟩
        rw [AList.lookup_insert, Option.getD_some]
        exact hleft
      · obtain ⟨other, hother, hencodes⟩ := h.hashes id
        refine ⟨other, ?_, ?_⟩
        · have hkey : markerKey id ≠ markerKey scope.identity := fun heq =>
            hid (markerKey_injective heq)
          exact (Keyspace.hash_of_ne hkey).trans ((hhashes id).trans hother)
        · rw [AList.lookup_insert_ne hid]
          exact hencodes

/-- An empty server encodes a new journal. -/
theorem encodes_new (limits : MarkerStoreLimits) (snapshotLimits : MarkerSnapshotLimits)
    (clock : Nat) : EncodesJournal (.new limits snapshotLimits) clock fun _ => none where
  scopes := rfl
  hashes _ := ⟨∅, rfl, fun kind => by cases kind <;> rfl, fun _ h => absurd h (AList.notMem_empty _)⟩

theorem journal_refines_first_advance :
    ∃ db', advance inOrder ⟨1, 1, by decide, by decide⟩ 0 (fun _ => none) Keys.amalgamPrefixed.scope
        .clearRemove epochStart = some (.ok (.advanced ⟨.clearRemove, epochStart⟩), db') := by
  obtain ⟨db', h, -⟩ := journal_refines inOrder lists_inOrder
    (.new ⟨1, 1, by decide, by decide⟩ ⟨1, by decide⟩) 0 (fun _ => none) (encodes_new _ _ 0)
    Keys.amalgamPrefixed.scope .clearRemove epochStart
  exact ⟨db', h⟩

end Amalgam.RedisInvalidationStore
