import Amalgam.Cache.Invalidation
import Mathlib.Data.String.Basic

/-!
# Amalgam — an invalidated product is never judged valid

Two facts meet in a verdict. Wherever a product of a factory is, in whatever representation,
it carries the start of the factory as created version and the tags of the product
(`Known`): every representation of a state is one of the state before, a copy of one, or
newly committed (`source_of_next`). And the registry covers, for every completed
invalidation, everything up to its timestamp that is subject to one of its markers
(`Marked`), because advances only move up.

* **`factory_value_not_valid_after_invalidation`** — the property of whole runs.
-/

namespace Amalgam

namespace Invalidations

variable {K V : Type} [LinearOrder K] {s t : State K V} {cfg : Config}

/-! ## Representations -/

/-- The state holds the representation somewhere. -/
inductive Present (s : State K V) (e : Entry (Produced V)) : Prop
  | memory (key : K) (h : s.memory.backend.stored key = some e)
  | distributed (key : K) (h : s.distributed.lookup key = some e)
  | write (key : K) (h : (key, e) ∈ s.writes)
  | read (r : ReadId) (reading : Reading V) (h : s.reads.lookup r = some reading)
      (he : reading.entry = some e)
  | judged (j : Judgement V) (h : j ∈ s.judged) (he : j.entry = e)

/-- Same value, same version, same tags. -/
structure SameVersion (e e' : Entry (Produced V)) : Prop where
  value : e'.value = e.value
  created : e'.metadata.created = e.metadata.created
  tags : e'.metadata.tags = e.metadata.tags

/-- Where a representation of the next state comes from. -/
inductive Source (s : State K V) (e : Entry (Produced V)) : Prop
  | kept (h : Present s e)
  | copied (original : Entry (Produced V)) (h : Present s original) (hsame : SameVersion original e)
  | foreign (h : e.value.producer = none)
  | committed (f : FactoryId) (factory : Factory K V) (product : Product V)
      (hfactory : s.factories.lookup f = some factory) (hproduct : factory.product = some product)
      (hproducer : e.value.producer = some f) (hcreated : e.metadata.created = factory.started)
      (htags : e.metadata.tags = product.tags)

omit [LinearOrder K] in
theorem derivation_sameVersion {d : Derivation} {epoch : Nat} {now : Timestamp}
    {inst : Instance} {e copy : Entry (Produced V)} (h : d.apply epoch now inst e = some copy) :
    SameVersion e copy := by
  cases d with
  | throttled duration =>
    simp only [Derivation.apply, Entry.tryThrottled] at h
    split at h
    · cases h
    · obtain rfl := Option.some.inj h
      exact ⟨rfl, rfl, rfl⟩
  | expired =>
    obtain rfl := Option.some.inj h
    exact ⟨rfl, rfl, rfl⟩
  | inserted =>
    obtain rfl := Option.some.inj h
    unfold Entry.atInsertion
    split <;> exact ⟨rfl, rfl, rfl⟩
  | hydrated =>
    obtain rfl := Option.some.inj h
    exact ⟨rfl, rfl, rfl⟩
  | withoutEagerRefresh =>
    obtain rfl := Option.some.inj h
    exact ⟨rfl, rfl, rfl⟩

/-- A store operation adds to the representations only what it writes. -/
theorem onMemory_present {op : Memory.Op K (Produced V)} (h : s.onMemory op = some t)
    {e : Entry (Produced V)} (he : Present t e) : Present s e ∨ op.written = some e := by
  obtain ⟨memory, hnext, rfl⟩ := Option.map_eq_some_iff.mp h
  cases he with
  | memory key hkey =>
    rcases Memory.gains_of_next hnext key e hkey with hold | hwritten
    · exact .inl (.memory key hold)
    · exact .inr hwritten
  | distributed key hkey => exact .inl (.distributed key hkey)
  | write key hkey => exact .inl (.write key hkey)
  | read r reading hr hentry => exact .inl (.read r reading hr hentry)
  | judged j hj hentry => exact .inl (.judged j hj hentry)

omit [LinearOrder K] in
theorem rewrite_op_written {rewrite : Rewrite (Produced V)}
    (write : Memory.PreparedWrite K (Produced V)) : (rewrite.op write).written = some write.entry := by
  cases rewrite <;> rfl

/-- Setting the entry of one read adds at most that entry. -/
theorem present_of_read {r : ReadId} {reading : Reading V} {e : Entry (Produced V)}
    (he : Present { s with reads := s.reads.insert r reading } e) :
    Present s e ∨ reading.entry = some e := by
  cases he with
  | memory key hkey => exact .inl (.memory key hkey)
  | distributed key hkey => exact .inl (.distributed key hkey)
  | write key hkey => exact .inl (.write key hkey)
  | read r' reading' hr hentry =>
    by_cases hrr : r' = r
    · subst hrr
      rw [AList.lookup_insert] at hr
      obtain rfl := Option.some.inj hr
      exact .inr hentry
    · rw [AList.lookup_insert_ne hrr] at hr
      exact .inl (.read r' reading' hr hentry)
  | judged j hj hentry => exact .inl (.judged j hj hentry)

/-- Storing in L2 adds at most the stored entry. -/
theorem present_of_distributed {key : K} {entry e : Entry (Produced V)}
    (he : Present { s with distributed := s.distributed.insert key entry } e) :
    Present s e ∨ entry = e := by
  cases he with
  | memory k hk => exact .inl (.memory k hk)
  | distributed k hk =>
    by_cases hkey : k = key
    · subst hkey
      rw [AList.lookup_insert] at hk
      exact .inr (Option.some.inj hk)
    · rw [AList.lookup_insert_ne hkey] at hk
      exact .inl (.distributed k hk)
  | write k hk => exact .inl (.write k hk)
  | read r reading hr hentry => exact .inl (.read r reading hr hentry)
  | judged j hj hentry => exact .inl (.judged j hj hentry)

/-- Preparing a write adds at most its entry. -/
theorem present_of_write {key : K} {entry e : Entry (Produced V)}
    (he : Present { s with writes := (key, entry) :: s.writes } e) :
    Present s e ∨ entry = e := by
  cases he with
  | memory k hk => exact .inl (.memory k hk)
  | distributed k hk => exact .inl (.distributed k hk)
  | write k hk =>
    rcases List.mem_cons.mp hk with hnew | hold
    · exact .inr (Prod.ext_iff.mp hnew).2.symm
    · exact .inl (.write k hold)
  | read r reading hr hentry => exact .inl (.read r reading hr hentry)
  | judged j hj hentry => exact .inl (.judged j hj hentry)

/-- A state that differs only outside of the places of representations has the same ones. -/
theorem Present.congr {e : Entry (Produced V)} (he : Present t e)
    (hmemory : t.memory.backend = s.memory.backend) (hdistributed : t.distributed = s.distributed)
    (hwrites : t.writes = s.writes) (hreads : t.reads = s.reads) (hjudged : t.judged = s.judged) :
    Present s e := by
  cases he with
  | memory key hkey => exact .memory key (hmemory ▸ hkey)
  | distributed key hkey => exact .distributed key (hdistributed ▸ hkey)
  | write key hkey => exact .write key (hwrites ▸ hkey)
  | read r reading hr hentry => exact .read r reading (hreads ▸ hr) hentry
  | judged j hj hentry => exact .judged j (hjudged ▸ hj) hentry

theorem workInvalidation_present {c : CallId} (h : workInvalidation s c = some t)
    {e : Entry (Produced V)} (he : Present t e) : Present s e := by
  unfold workInvalidation at h
  split at h
  · simp only [Option.some.injEq] at h
    subst h
    exact he.congr rfl rfl rfl rfl rfl
  · rcases onMemory_present h he with hold | hwritten
    · exact hold.congr rfl rfl rfl rfl rfl
    · cases hwritten
  · cases h

/-- **Every representation of a step comes from somewhere.** -/
theorem source_of_next {a : Action K V} (h : next cfg s a = some t) {e : Entry (Produced V)}
    (he : Present t e) : Source s e := by
  cases a with
  | tick now =>
    simp only [next] at h
    split at h
    · obtain rfl := Option.some.inj h
      exact .kept (he.congr rfl rfl rfl rfl rfl)
    · cases h
  | startFactory f key provided =>
    simp only [next] at h
    split at h
    · cases h
    · split at h
      · obtain rfl := Option.some.inj h
        exact .kept (he.congr rfl rfl rfl rfl rfl)
      · split at h
        · rename_i id memory hperform
          obtain rfl := Option.some.inj h
          have hmemory : Memory.next s.memory (.captureOrigin key provided) = some memory :=
            congrArg (Option.map Prod.snd) hperform
          have honMemory : s.onMemory (.captureOrigin key provided) = some { s with memory } :=
            Option.map_eq_some_iff.mpr ⟨memory, hmemory, rfl⟩
          have he' : Present { s with memory } e := he.congr rfl rfl rfl rfl rfl
          rcases onMemory_present honMemory he' with hold | hwritten
          · exact .kept hold
          · cases hwritten
        · cases h
  | returnProduct f product =>
    simp only [next] at h
    split at h
    · obtain rfl := Option.some.inj h
      exact .kept (he.congr rfl rfl rfl rfl rfl)
    · cases h
  | commit f shape =>
    simp only [next] at h
    split at h
    · rename_i key started version product hfactory
      -- The committed entry carries the start of the factory and the tags of its product.
      have hsource : ∀ entry, entry = freshEntry ⟨product.value, some f⟩ started s.clock
          product.tags shape → Source s entry := by
        rintro entry rfl
        exact .committed f _ product hfactory rfl rfl rfl rfl
      split at h
      · rcases onMemory_present h he with hold | hwritten
        · exact .kept hold
        · exact hsource e (Option.some.inj hwritten).symm
      · obtain rfl := Option.some.inj h
        rcases present_of_write he with hold | hnew
        · exact .kept hold
        · exact hsource e hnew.symm
    · cases h
  | set key value tags shape =>
    simp only [next] at h
    split at h
    · obtain rfl := Option.some.inj h
      rcases present_of_write he with hold | rfl
      · exact .kept hold
      · exact .foreign rfl
    · rcases onMemory_present h he with hold | hwritten
      · exact .kept hold
      · obtain rfl := Option.some.inj hwritten
        exact .foreign rfl
  | remote key value created tags shape =>
    simp only [next] at h
    split at h
    · obtain rfl := Option.some.inj h
      rcases present_of_distributed he with hold | rfl
      · exact .kept hold
      · exact .foreign rfl
    · cases h
  | storeLocal write inst =>
    simp only [next] at h
    split at h
    · cases h
    · rename_i key entry hwrite
      rcases onMemory_present h he with hold | hwritten
      · exact .kept hold
      · have hsame : SameVersion entry e := by
          exact @derivation_sameVersion _ .inserted s.memory.world.epoch s.clock inst entry e
            hwritten
        exact .copied entry (.write key (List.mem_of_getElem? hwrite)) hsame
  | storeDistributed write =>
    simp only [next] at h
    split at h
    · cases h
    · rename_i key entry hwrite
      obtain rfl := Option.some.inj h
      rcases present_of_distributed he with hold | rfl
      · exact .kept hold
      · exact .kept (.write key (List.mem_of_getElem? hwrite))
  | removeDistributed key =>
    obtain rfl := Option.some.inj h
    cases he with
    | memory k hk => exact .kept (.memory k hk)
    | distributed k hk =>
      by_cases hkey : k = key
      · rw [hkey, AList.lookup_erase] at hk
        cases hk
      · rw [AList.lookup_erase_ne hkey] at hk
        exact .kept (.distributed k hk)
    | write k hk => exact .kept (.write k hk)
    | read r reading hr hentry => exact .kept (.read r reading hr hentry)
    | judged j hj hentry => exact .kept (.judged j hj hentry)
  | memoryOp op =>
    simp only [next] at h
    split at h
    · rename_i hnone
      rcases onMemory_present h he with hold | hwritten
      · exact .kept hold
      · rw [hwritten] at hnone
        cases hnone
    · cases h
  | beginInvalidation c kinds =>
    simp only [next] at h
    split at h
    · cases h
    · obtain rfl := Option.some.inj h
      exact .kept (he.congr rfl rfl rfl rfl rfl)
  | workInvalidation c => exact .kept (workInvalidation_present h he)
  | completeInvalidation c =>
    simp only [next] at h
    split at h
    · obtain rfl := Option.some.inj h
      exact .kept (he.congr rfl rfl rfl rfl rfl)
    · cases h
  | observeMarker kind version =>
    obtain rfl := Option.some.inj h
    exact .kept (he.congr rfl rfl rfl rfl rfl)
  | beginRead r =>
    simp only [next] at h
    split at h
    · cases h
    · obtain rfl := Option.some.inj h
      rcases present_of_read he with hold | hnone
      · exact .kept hold
      · cases hnone
  | fetchMemory r key =>
    simp only [next] at h
    split at h
    · cases h
    · obtain rfl := Option.some.inj h
      let read := s.memory.backend.read s.memory.world key (some s.clock)
      rcases present_of_read (s := { s with memory := { s.memory with backend := read.2 } }) he
        with hold | hread
      · cases hold with
        | memory k hk =>
          rcases s.memory.backend.read_gains none s.memory.world key
            (some s.clock) k e hk with hstored | hwritten
          · exact .kept (.memory k hstored)
          · cases hwritten
        | distributed k hk => exact .kept (.distributed k hk)
        | write k hk => exact .kept (.write k hk)
        | read r' reading' hr hentry => exact .kept (.read r' reading' hr hentry)
        | judged j hj hentry => exact .kept (.judged j hj hentry)
      · exact .kept (.memory key (Memory.Backend.read_stored hread))
  | fetchDistributed r key inst =>
    simp only [next] at h
    split at h
    · rename_i reading entry hreading hentry
      obtain rfl := Option.some.inj h
      rcases present_of_read he with hold | hread
      · exact .kept hold
      · obtain rfl := Option.some.inj hread
        exact .copied entry (.distributed key hentry) ⟨rfl, rfl, rfl⟩
    · cases h
  | rewrite r key derivation inst mode =>
    simp only [next] at h
    split at h
    · cases h
    · rename_i entry hentry
      split at h
      · cases h
      · rename_i copy hcopy
        rcases onMemory_present h he with hold | hwritten
        · exact .kept hold
        · rw [rewrite_op_written] at hwritten
          obtain rfl := Option.some.inj hwritten
          obtain ⟨reading, hreading, hsome⟩ := Option.bind_eq_some_iff.mp hentry
          exact .copied entry (.read r reading hreading hsome) (derivation_sameVersion hcopy)
  | judge r =>
    simp only [next] at h
    split at h
    · rename_i after entry hreading
      obtain rfl := Option.some.inj h
      cases he with
      | memory k hk => exact .kept (.memory k hk)
      | distributed k hk => exact .kept (.distributed k hk)
      | write k hk => exact .kept (.write k hk)
      | read r' reading' hr hentry => exact .kept (.read r' reading' hr hentry)
      | judged j hj hentry =>
        rcases List.mem_cons.mp hj with rfl | hold
        · obtain rfl := hentry
          exact .kept (.read r _ hreading rfl)
        · exact .kept (.judged j hold hentry)
    · cases h

/-! ## Bookkeeping -/

/-- The parts of a state that are not representations. -/
structure Ledger (K V : Type) where
  clock : Timestamp
  registry : TagRegistry
  factories : AList fun _ : FactoryId => Factory K V
  calls : AList fun _ : CallId => Call
  completed : List Invalidation
  reads : AList fun _ : ReadId => Reading V
  judged : List (Judgement V)

def State.ledger (s : State K V) : Ledger K V :=
  ⟨s.clock, s.registry, s.factories, s.calls, s.completed, s.reads, s.judged⟩

/-- What an action does to the bookkeeping. -/
inductive Progress (cfg : Config) (l : Ledger K V) : Ledger K V → Prop
  | idle : Progress cfg l l
  | tick (now : Timestamp) (hle : l.clock ≤ now) : Progress cfg l { l with clock := now }
  | started (f : FactoryId) (key : K) (version : Option Memory.OriginId) (hf : f ∉ l.factories) :
      Progress cfg l
        { l with factories := l.factories.insert f ⟨key, l.clock, version, none⟩ }
  | returned (f : FactoryId) (key : K) (started : Timestamp) (version : Option Memory.OriginId)
      (product : Product V) (hf : l.factories.lookup f = some ⟨key, started, version, none⟩) :
      Progress cfg l
        { l with factories := l.factories.insert f ⟨key, started, version, some product⟩ }
  | began (c : CallId) (kinds : List MarkerKind) (htagging : cfg.disableTagging = false) :
      Progress cfg l
        { l with
          calls := l.calls.insert c ⟨⟨l.clock, kinds, l.factories.keys⟩, kinds.map .advance⟩ }
  | advanced (c : CallId) (record : Invalidation) (kind : MarkerKind) (rest : List Work)
      (hc : l.calls.lookup c = some ⟨record, .advance kind :: rest⟩) :
      Progress cfg l
        { l with
          registry := (l.registry.advance kind record.now).1
          calls := l.calls.insert c
            ⟨record, clearsAfter kind (l.registry.advance kind record.now).2 ++ rest⟩ }
  | cleared (c : CallId) (record : Invalidation) (rest : List Work)
      (hc : l.calls.lookup c = some ⟨record, .invalidateAll :: rest⟩) :
      Progress cfg l { l with calls := l.calls.insert c ⟨record, rest⟩ }
  | completed (c : CallId) (record : Invalidation)
      (hc : l.calls.lookup c = some ⟨record, []⟩) :
      Progress cfg l { l with calls := l.calls.erase c, completed := record :: l.completed }
  | observed (kind : MarkerKind) (version : MarkerVersion) :
      Progress cfg l { l with registry := (l.registry.advance kind version).1 }
  | reading (r : ReadId) : Progress cfg l { l with reads := l.reads.insert r ⟨l.completed, none⟩ }
  | fetched (r : ReadId) (reading : Reading V) (entry : Option (Entry (Produced V)))
      (hr : l.reads.lookup r = some reading) :
      Progress cfg l { l with reads := l.reads.insert r { reading with entry } }
  | judged (r : ReadId) (after : List Invalidation) (entry : Entry (Produced V))
      (hr : l.reads.lookup r = some ⟨after, some entry⟩) (verdict : TagVerdict)
      (hverdict : cfg.disableTagging = false → verdict =
        l.registry.evaluate entry.metadata.created entry.metadata.tags cfg.behavior) :
      Progress cfg l { l with judged := ⟨after, entry, verdict⟩ :: l.judged }

theorem onMemory_ledger {op : Memory.Op K (Produced V)} (h : s.onMemory op = some t) :
    t.ledger = s.ledger := by
  obtain ⟨memory, -, rfl⟩ := Option.map_eq_some_iff.mp h
  rfl

theorem progress_of_onMemory {op : Memory.Op K (Produced V)} (h : s.onMemory op = some t) :
    Progress cfg s.ledger t.ledger := by
  rw [onMemory_ledger h]
  exact .idle

theorem progress_of_next {a : Action K V} (h : next cfg s a = some t) :
    Progress cfg s.ledger t.ledger := by
  cases a with
  | tick now =>
    simp only [next] at h
    split at h
    · rename_i hle
      obtain rfl := Option.some.inj h
      exact .tick now hle
    · cases h
  | startFactory f key provided =>
    simp only [next] at h
    split at h
    · cases h
    · rename_i hf
      split at h
      · obtain rfl := Option.some.inj h
        exact .started f key none hf
      · split at h
        · rename_i id memory _
          obtain rfl := Option.some.inj h
          exact .started f key (some id) hf
        · cases h
  | returnProduct f product =>
    simp only [next] at h
    split at h
    · rename_i key started version hf
      obtain rfl := Option.some.inj h
      exact .returned f key started version product hf
    · cases h
  | commit f shape =>
    simp only [next] at h
    split at h
    · split at h
      · exact progress_of_onMemory h
      · obtain rfl := Option.some.inj h
        exact .idle
    · cases h
  | set key value tags shape =>
    simp only [next] at h
    split at h
    · obtain rfl := Option.some.inj h
      exact .idle
    · exact progress_of_onMemory h
  | remote key value created tags shape =>
    simp only [next] at h
    split at h
    · obtain rfl := Option.some.inj h
      exact .idle
    · cases h
  | storeLocal write inst =>
    simp only [next] at h
    split at h
    · cases h
    · exact progress_of_onMemory h
  | storeDistributed write =>
    simp only [next] at h
    split at h
    · cases h
    · obtain rfl := Option.some.inj h
      exact .idle
  | removeDistributed key =>
    obtain rfl := Option.some.inj h
    exact .idle
  | memoryOp op =>
    simp only [next] at h
    split at h
    · exact progress_of_onMemory h
    · cases h
  | beginInvalidation c kinds =>
    simp only [next] at h
    split at h
    · cases h
    · rename_i hguard
      obtain rfl := Option.some.inj h
      have htagging : cfg.disableTagging = false := by
        simpa using fun hdisabled => hguard (.inl hdisabled)
      exact .began c kinds htagging
  | workInvalidation c =>
    simp only [next, workInvalidation] at h
    split at h
    · rename_i record kind rest hc
      simp only [Option.some.injEq] at h
      subst h
      exact .advanced c record kind rest hc
    · rename_i record rest hc
      rw [onMemory_ledger h]
      exact .cleared c record rest hc
    · cases h
  | completeInvalidation c =>
    simp only [next] at h
    split at h
    · rename_i record hc
      obtain rfl := Option.some.inj h
      exact .completed c record hc
    · cases h
  | observeMarker kind version =>
    simp only [next, Option.some.injEq] at h
    subst h
    exact .observed kind version
  | beginRead r =>
    simp only [next] at h
    split at h
    · cases h
    · obtain rfl := Option.some.inj h
      exact .reading r
  | fetchMemory r key =>
    simp only [next] at h
    split at h
    · cases h
    · rename_i reading hr
      obtain rfl := Option.some.inj h
      exact .fetched r reading _ hr
  | fetchDistributed r key inst =>
    simp only [next] at h
    split at h
    · rename_i reading entry hr _
      obtain rfl := Option.some.inj h
      exact .fetched r reading _ hr
    · cases h
  | rewrite r key derivation inst mode =>
    simp only [next] at h
    split at h
    · cases h
    · split at h
      · cases h
      · exact progress_of_onMemory h
  | judge r =>
    simp only [next] at h
    split at h
    · rename_i after entry hr
      obtain rfl := Option.some.inj h
      refine .judged r after entry hr _ fun htagging => ?_
      unfold State.verdict
      rw [htagging]
      rfl
    · cases h

/-! ## Invariants of the bookkeeping -/

/-- The registry covers everything up to `i.now` that is subject to `kind`. -/
def Marked (registry : TagRegistry) (i : Invalidation) (kind : MarkerKind) : Prop :=
  ∀ created tags, MarkerState.Subject tags kind → created ≤ i.now →
    registry.state.Invalidates created tags

/-- The factories counted as started before `i` did start no later than it. -/
def StartedBefore (factories : AList fun _ : FactoryId => Factory K V) (i : Invalidation) :
    Prop :=
  ∀ f ∈ i.startedBefore, ∃ factory, factories.lookup f = some factory ∧ factory.started ≤ i.now

/-- A verdict is not valid for what an earlier invalidation covers. -/
def Sound (j : Judgement V) : Prop :=
  ∀ i ∈ j.after, ∀ kind ∈ i.kinds, MarkerState.Subject j.entry.metadata.tags kind →
    j.entry.metadata.created ≤ i.now → j.verdict ≠ .valid

structure LedgerInv (cfg : Config) (l : Ledger K V) : Prop where
  published : l.registry.Published
  clocked : ∀ f factory, l.factories.lookup f = some factory → factory.started ≤ l.clock
  /-- A marker of a call is still to be advanced or covered. -/
  calls_marked : ∀ c call, l.calls.lookup c = some call → ∀ kind ∈ call.record.kinds,
    Work.advance kind ∈ call.todo ∨ Marked l.registry call.record kind
  calls_started : ∀ c call, l.calls.lookup c = some call → StartedBefore l.factories call.record
  calls_tagging : ∀ c call, l.calls.lookup c = some call → cfg.disableTagging = false
  completed_marked : ∀ i ∈ l.completed, ∀ kind ∈ i.kinds, Marked l.registry i kind
  completed_started : ∀ i ∈ l.completed, StartedBefore l.factories i
  completed_tagging : ∀ i ∈ l.completed, cfg.disableTagging = false
  reads_completed : ∀ r reading, l.reads.lookup r = some reading →
    ∀ i ∈ reading.after, i ∈ l.completed
  judged_completed : ∀ j ∈ l.judged, ∀ i ∈ j.after, i ∈ l.completed
  judged_sound : ∀ j ∈ l.judged, Sound j

theorem Marked.mono {registry registry' : TagRegistry} {i : Invalidation} {kind : MarkerKind}
    (h : Marked registry i kind) (hle : registry.state.Dominated registry'.state) :
    Marked registry' i kind :=
  fun created tags hsubject hcreated => hle.invalidates (h created tags hsubject hcreated)

theorem advance_state_dominated (registry : TagRegistry) (kind : MarkerKind)
    (version : MarkerVersion) :
    registry.state.Dominated (registry.advance kind version).1.state :=
  MarkerState.advance_dominated registry.state kind version registry.capacity

/-- An advance to the timestamp of an invalidation marks it. -/
theorem marked_advance (registry : TagRegistry) (kind : MarkerKind) (i : Invalidation) :
    Marked (registry.advance kind i.now).1 i kind := by
  intro created tags hsubject hcreated
  refine MarkerState.advance_invalidates registry.state kind i.now registry.capacity hsubject ?_
  exact le_trans hcreated (MarkerState.le_advance_version registry.state kind i.now _)

namespace LedgerInv

variable {l l' : Ledger K V}

omit [LinearOrder K] in
/-- Setting the record of one factory, at its old start or at the present moment. -/
theorem factory (h : LedgerInv cfg l) {f : FactoryId} {factory : Factory K V}
    (hstarted : factory.started ≤ l.clock)
    (hold : ∀ old, l.factories.lookup f = some old → factory.started = old.started) :
    LedgerInv cfg { l with factories := l.factories.insert f factory } := by
  have hkeeps : ∀ i, StartedBefore l.factories i →
      StartedBefore (l.factories.insert f factory) i := by
    intro i hi g hg
    obtain ⟨old, hlookup, hle⟩ := hi g hg
    by_cases hgf : g = f
    · subst hgf
      exact ⟨factory, AList.lookup_insert _, hold old hlookup ▸ hle⟩
    · exact ⟨old, (AList.lookup_insert_ne hgf).trans hlookup, hle⟩
  refine { h with
    clocked := fun g old hg => ?_
    calls_started := fun c call hc => hkeeps _ (h.calls_started c call hc)
    completed_started := fun i hi => hkeeps i (h.completed_started i hi) }
  by_cases hgf : g = f
  · rw [hgf, AList.lookup_insert] at hg
    exact Option.some.inj hg ▸ hstarted
  · rw [AList.lookup_insert_ne hgf] at hg
    exact h.clocked g old hg

omit [LinearOrder K] in
/-- Advancing the registry. -/
theorem registry (h : LedgerInv cfg l) (kind : MarkerKind) (version : MarkerVersion) :
    LedgerInv cfg { l with registry := (l.registry.advance kind version).1 } := by
  have hup := advance_state_dominated l.registry kind version
  refine { h with
    published := TagRegistry.Published.advance kind version
    calls_marked := fun c call hc k hk => ?_
    completed_marked := fun i hi k hk => (h.completed_marked i hi k hk).mono hup }
  exact (h.calls_marked c call hc k hk).imp_right fun hmarked => hmarked.mono hup

omit [LinearOrder K] in
/-- Setting the record of one call. -/
theorem call (h : LedgerInv cfg l) {c : CallId} {call : Call}
    (hmarked : ∀ kind ∈ call.record.kinds,
      Work.advance kind ∈ call.todo ∨ Marked l.registry call.record kind)
    (hstarted : StartedBefore l.factories call.record) (htagging : cfg.disableTagging = false) :
    LedgerInv cfg { l with calls := l.calls.insert c call } := by
  have hcases : ∀ d other, (l.calls.insert c call).lookup d = some other →
      other = call ∨ l.calls.lookup d = some other := by
    intro d other hd
    by_cases hdc : d = c
    · rw [hdc, AList.lookup_insert] at hd
      exact .inl (Option.some.inj hd).symm
    · rw [AList.lookup_insert_ne hdc] at hd
      exact .inr hd
  refine { h with
    calls_marked := fun d other hd => ?_
    calls_started := fun d other hd => ?_
    calls_tagging := fun _ _ _ => htagging }
  · rcases hcases d other hd with rfl | hold
    · exact hmarked
    · exact h.calls_marked d other hold
  · rcases hcases d other hd with rfl | hold
    · exact hstarted
    · exact h.calls_started d other hold

omit [LinearOrder K] in
/-- Setting the record of one read. -/
theorem reading (h : LedgerInv cfg l) {r : ReadId} {reading : Reading V}
    (hafter : ∀ i ∈ reading.after, i ∈ l.completed) :
    LedgerInv cfg { l with reads := l.reads.insert r reading } := by
  refine { h with reads_completed := fun q other hq => ?_ }
  by_cases hqr : q = r
  · rw [hqr, AList.lookup_insert] at hq
    exact Option.some.inj hq ▸ hafter
  · rw [AList.lookup_insert_ne hqr] at hq
    exact h.reads_completed q other hq

omit [LinearOrder K] in
/-- The markers left to a call after it advanced one of them. -/
theorem marked_after_advance (h : LedgerInv cfg l) {c : CallId} {record : Invalidation}
    {kind : MarkerKind} {rest : List Work}
    (hc : l.calls.lookup c = some ⟨record, .advance kind :: rest⟩) (clears : List Work) :
    ∀ k ∈ record.kinds, Work.advance k ∈ clears ++ rest ∨
      Marked (l.registry.advance kind record.now).1 record k := by
  intro k hk
  rcases h.calls_marked c _ hc k hk with htodo | hmarked
  · rcases List.mem_cons.mp htodo with hhead | hrest
    · obtain rfl : k = kind := Work.advance.inj hhead
      exact .inr (marked_advance l.registry k record)
    · exact .inl (List.mem_append_right _ hrest)
  · exact .inr (hmarked.mono (advance_state_dominated l.registry kind record.now))

omit [LinearOrder K] in
theorem complete (h : LedgerInv cfg l) {c : CallId} {record : Invalidation}
    (hc : l.calls.lookup c = some ⟨record, []⟩) :
    LedgerInv cfg { l with calls := l.calls.erase c, completed := record :: l.completed } := by
  have hcall : ∀ d call, (l.calls.erase c).lookup d = some call → l.calls.lookup d = some call := by
    intro d call hd
    by_cases hdc : d = c
    · rw [hdc, AList.lookup_erase] at hd
      cases hd
    · rwa [AList.lookup_erase_ne hdc] at hd
  refine { h with
    calls_marked := fun d call hd => h.calls_marked d call (hcall d call hd)
    calls_started := fun d call hd => h.calls_started d call (hcall d call hd)
    calls_tagging := fun d call hd => h.calls_tagging d call (hcall d call hd)
    completed_marked := fun i hi kind hk => ?_
    completed_started := fun i hi => ?_
    completed_tagging := fun i hi => h.calls_tagging c _ hc
    reads_completed := fun r reading hr i hi =>
      List.mem_cons_of_mem _ (h.reads_completed r reading hr i hi)
    judged_completed := fun j hj i hi => List.mem_cons_of_mem _ (h.judged_completed j hj i hi) }
  · rcases List.mem_cons.mp hi with rfl | hold
    · -- Nothing is left to do, so every marker is covered.
      exact (h.calls_marked c _ hc kind hk).resolve_left (List.not_mem_nil)
    · exact h.completed_marked i hold kind hk
  · rcases List.mem_cons.mp hi with rfl | hold
    · exact h.calls_started c _ hc
    · exact h.completed_started i hold

omit [LinearOrder K] in
/-- A verdict taken now is sound: the registry covers all completed invalidations. -/
theorem judge (h : LedgerInv cfg l) {r : ReadId} {after : List Invalidation}
    {entry : Entry (Produced V)} (hr : l.reads.lookup r = some ⟨after, some entry⟩)
    {verdict : TagVerdict} (hverdict : cfg.disableTagging = false → verdict =
      l.registry.evaluate entry.metadata.created entry.metadata.tags cfg.behavior) :
    LedgerInv cfg { l with judged := ⟨after, entry, verdict⟩ :: l.judged } := by
  have hcompleted := h.reads_completed r _ hr
  refine { h with
    judged_completed := fun j hj => ?_
    judged_sound := fun j hj => ?_ }
  · rcases List.mem_cons.mp hj with rfl | hold
    · exact hcompleted
    · exact h.judged_completed j hold
  · rcases List.mem_cons.mp hj with rfl | hold
    · intro i hi kind hkind hsubject hcreated
      have hdone := hcompleted i hi
      have hcovered := h.completed_marked i hdone kind hkind _ _ hsubject hcreated
      show verdict ≠ .valid
      rw [hverdict (h.completed_tagging i hdone), h.published.evaluate_eq]
      exact MarkerState.evaluate_ne_valid_iff.mpr hcovered
    · exact h.judged_sound j hold

omit [LinearOrder K] in
/-- **Every action keeps the bookkeeping.** -/
theorem step (h : LedgerInv cfg l) (hprogress : Progress cfg l l') : LedgerInv cfg l' := by
  cases hprogress with
  | idle => exact h
  | tick now hle =>
    exact { h with clocked := fun f factory hf => le_trans (h.clocked f factory hf) hle }
  | started f key version hf =>
    refine h.factory (le_refl _) fun old hold => ?_
    exact absurd (AList.lookup_isSome.mp (hold ▸ rfl)) hf
  | returned f key started version product hf =>
    have hstarted : started ≤ l.clock := h.clocked f _ hf
    refine h.factory hstarted fun old hold => ?_
    rw [hf] at hold
    obtain rfl := Option.some.inj hold
    rfl
  | began c kinds htagging =>
    refine h.call (fun kind hk => .inl (List.mem_map_of_mem hk)) (fun f hf => ?_) htagging
    obtain ⟨factory, hlookup⟩ := Option.isSome_iff_exists.mp (AList.lookup_isSome.mpr hf)
    exact ⟨factory, hlookup, h.clocked f factory hlookup⟩
  | advanced c record kind rest hc =>
    have hstarted : StartedBefore l.factories record := h.calls_started c _ hc
    exact (h.registry kind record.now).call (h.marked_after_advance hc _) hstarted
      (h.calls_tagging c _ hc)
  | cleared c record rest hc =>
    have hstarted : StartedBefore l.factories record := h.calls_started c _ hc
    refine h.call (fun kind hk => ?_) hstarted (h.calls_tagging c _ hc)
    refine (h.calls_marked c _ hc kind hk).imp_left fun htodo => ?_
    rcases List.mem_cons.mp htodo with hhead | hrest
    · cases hhead
    · exact hrest
  | completed c record hc => exact h.complete hc
  | observed kind version => exact h.registry kind version
  | reading r => exact h.reading fun i hi => hi
  | fetched r reading entry hr => exact h.reading (h.reads_completed r reading hr)
  | judged r after entry hr verdict hverdict => exact h.judge hr hverdict

end LedgerInv

/-! ## Products carry the start of their factory -/

/-- The product of a factory is versioned by the start of the factory. -/
def Known (factories : AList fun _ : FactoryId => Factory K V) (e : Entry (Produced V)) : Prop :=
  ∀ f, e.value.producer = some f → ∃ factory product, factories.lookup f = some factory ∧
    factory.product = some product ∧ e.metadata.created = factory.started ∧
    e.metadata.tags = product.tags

omit [LinearOrder K] in
/-- A step forgets neither the start nor the product of a factory. -/
theorem Progress.known {l l' : Ledger K V} (hprogress : Progress cfg l l')
    {e : Entry (Produced V)} (h : Known l.factories e) : Known l'.factories e := by
  cases hprogress with
  | started f key version hf =>
    intro g hg
    obtain ⟨factory, product, hlookup, hrest⟩ := h g hg
    have hgf : g ≠ f := by
      rintro rfl
      exact hf (AList.lookup_isSome.mp (by rw [hlookup]; rfl))
    exact ⟨factory, product, (AList.lookup_insert_ne hgf).trans hlookup, hrest⟩
  | returned f key started version product hf =>
    intro g hg
    obtain ⟨factory, known, hlookup, hproduct, hrest⟩ := h g hg
    have hgf : g ≠ f := by
      rintro rfl
      rw [hf] at hlookup
      obtain rfl := Option.some.inj hlookup
      cases hproduct
    exact ⟨factory, known, (AList.lookup_insert_ne hgf).trans hlookup, hproduct, hrest⟩
  | idle => exact h
  | tick => exact h
  | began => exact h
  | advanced => exact h
  | cleared => exact h
  | completed => exact h
  | observed => exact h
  | reading => exact h
  | fetched => exact h
  | judged => exact h

/-- Whatever a representation comes from, it is known. -/
theorem known_of_source (h : ∀ e, Present s e → Known s.factories e) {e : Entry (Produced V)}
    (hsource : Source s e) : Known s.factories e := by
  cases hsource with
  | kept hpresent => exact h e hpresent
  | copied original hpresent hsame =>
    intro f hf
    rw [hsame.value] at hf
    obtain ⟨factory, product, hlookup, hproduct, hcreated, htags⟩ := h original hpresent f hf
    exact ⟨factory, product, hlookup, hproduct, hsame.created.trans hcreated,
      hsame.tags.trans htags⟩
  | foreign hnone =>
    intro f hf
    rw [hnone] at hf
    cases hf
  | committed g factory product hfactory hproduct hproducer hcreated htags =>
    intro f hf
    obtain rfl : g = f := Option.some.inj (hproducer.symm.trans hf)
    exact ⟨factory, product, hfactory, hproduct, hcreated, htags⟩

structure Inv (cfg : Config) (s : State K V) : Prop where
  ledger : LedgerInv cfg s.ledger
  known : ∀ e, Present s e → Known s.factories e

theorem Inv.step (h : Inv cfg s) {a : Action K V} (hnext : next cfg s a = some t) :
    Inv cfg t where
  ledger := h.ledger.step (progress_of_next hnext)
  known := fun _ he =>
    (progress_of_next hnext).known (known_of_source h.known (source_of_next hnext he))

theorem Inv.init (capacity : Nat) (limits : Memory.MemoryLimits) (expiry : Memory.MemoryExpiry)
    (timing : Memory.Timing) (route : K → Fin 64) (world : Memory.World) (clock : Timestamp) :
    Inv cfg (init capacity (.create limits expiry timing route) world clock : State K V) := by
  have hempty : ∀ key, (Memory.Backend.create limits expiry timing route :
      Memory.Backend K (Produced V)).stored key = none := by
    intro key
    unfold Memory.Backend.create
    split <;> rfl
  refine ⟨?_, fun e he => ?_⟩
  · exact {
      published := ⟨rfl, fun _ => rfl⟩
      clocked := fun _ _ h => by cases h
      calls_marked := fun _ _ h => by cases h
      calls_started := fun _ _ h => by cases h
      calls_tagging := fun _ _ h => by cases h
      completed_marked := fun _ h => by cases h
      completed_started := fun _ h => by cases h
      completed_tagging := fun _ h => by cases h
      reads_completed := fun _ _ h => by cases h
      judged_completed := fun _ h => by cases h
      judged_sound := fun _ h => by cases h }
  cases he with
  | memory key h =>
    have h := (hempty key).symm.trans h
    cases h
  | distributed key h => cases h
  | write key h => cases h
  | read r reading h => cases h
  | judged j h => cases h

/-- **An invalidated product is never judged valid.** In every run of a memory-only or hybrid
cache with a clock that does not go back: when a read began after an invalidation `i`
completed and judges a value that factory `f` produced, and `f` started no later than `i`
(by their timestamps, or because it was running when `i` took its timestamp), and a marker
of `i` is a clear or one of the tags of the product, then the verdict is not `Valid`. -/
theorem factory_value_not_valid_after_invalidation (cfg : Config) (capacity : Nat)
    (limits : Memory.MemoryLimits) (expiry : Memory.MemoryExpiry) (timing : Memory.Timing)
    (route : K → Fin 64) (world : Memory.World) (clock : Timestamp)
    (schedule : List (Action K V)) (s : State K V)
    (hrun : Run.exec (next cfg) (init capacity (.create limits expiry timing route) world clock)
      schedule = some s)
    (j : Judgement V) (hj : j ∈ s.judged) (i : Invalidation) (hi : i ∈ j.after)
    (f : FactoryId) (hproducer : j.entry.value.producer = some f) :
    ∃ factory product, s.factories.lookup f = some factory ∧ factory.product = some product ∧
      ((factory.started ≤ i.now ∨ f ∈ i.startedBefore) →
        (∃ kind ∈ i.kinds, MarkerState.Subject product.tags kind) → j.verdict ≠ .valid) := by
  have hinv : Inv cfg s :=
    Run.exec_invariant (fun _ _ _ hm hnext => hm.step hnext)
      (Inv.init capacity limits expiry timing route world clock) hrun
  obtain ⟨factory, product, hlookup, hproduct, hcreated, htags⟩ :=
    hinv.known j.entry (.judged j hj rfl) f hproducer
  refine ⟨factory, product, hlookup, hproduct, ?_⟩
  rintro hbefore ⟨kind, hkind, hsubject⟩
  have hle : factory.started ≤ i.now := by
    rcases hbefore with hle | hmem
    · exact hle
    · -- It was running: the clock had passed its start when the invalidation took its own.
      have hdone := hinv.ledger.judged_completed j hj i hi
      obtain ⟨other, hother, hle⟩ := hinv.ledger.completed_started i hdone f hmem
      obtain rfl : factory = other := Option.some.inj (hlookup.symm.trans hother)
      exact hle
  exact hinv.ledger.judged_sound j hj i hi kind hkind (htags ▸ hsubject) (hcreated ▸ hle)

private def feed : Tag := ⟨"feed", by decide⟩

/-- A factory of `k` starts at tick 10, its tag is removed at tick 10, and its product is
committed at tick 12 and read. -/
def lateCommit : List (Action String Nat) :=
  [.startFactory 0 "k" none, .returnProduct 0 ⟨7, [feed]⟩, .beginInvalidation 0 [.tag feed],
    .workInvalidation 0, .completeInvalidation 0, .tick (.fromTicks 12),
    .commit 0 ⟨0, .fromTicks 20, .fromTicks 20, none, none, none, .unspecified⟩,
    .beginRead 0, .fetchMemory 0 "k", .judge 0]

theorem factory_value_not_valid_after_invalidation_late_commit :
    ∃ s : State String Nat,
      Run.exec (next ⟨false, false, .expire⟩)
        (init 4 (.create ⟨some 2, none⟩ .clockDriven .interoperable fun _ => 0) ⟨0, 0⟩
          (.fromTicks 10)) lateCommit = some s ∧
      s.judged.map (·.entry.value.value) = [7] ∧ ∀ j ∈ s.judged, j.verdict ≠ .valid := by
  obtain ⟨s, hrun⟩ : ∃ s : State String Nat, Run.exec (next ⟨false, false, .expire⟩)
      (init 4 (.create ⟨some 2, none⟩ .clockDriven .interoperable fun _ => 0) ⟨0, 0⟩
        (.fromTicks 10)) lateCommit = some s := ⟨_, rfl⟩
  -- Evaluate the run once for everything that is read off its last state.
  have hseen : some ((s.factories.lookup 0).bind (·.product), s.judged.map fun j =>
      (j.entry.value, j.after)) =
      some (some ⟨7, [feed]⟩, [(⟨7, some 0⟩, [⟨.fromTicks 10, [.tag feed], [0]⟩])]) := by
    refine (congrArg (Option.map fun s : State String Nat =>
      ((s.factories.lookup 0).bind (·.product), s.judged.map fun j => (j.entry.value, j.after)))
      hrun).symm.trans ?_
    rfl
  obtain ⟨hproduct, hjudged⟩ := Prod.mk.inj (Option.some.inj hseen)
  refine ⟨s, hrun, ?_, fun j hj => ?_⟩
  · simpa using congrArg (List.map (·.1.value)) hjudged
  have hpair := List.mem_map_of_mem (f := fun j : Judgement Nat => (j.entry.value, j.after)) hj
  rw [hjudged, List.mem_singleton] at hpair
  obtain ⟨hvalue, hafter⟩ := Prod.mk.inj hpair
  obtain ⟨factory, product, hfactory, hreturned, hverdict⟩ :=
    factory_value_not_valid_after_invalidation ⟨false, false, .expire⟩ 4 ⟨some 2, none⟩
      .clockDriven .interoperable (fun _ => 0) ⟨0, 0⟩ (.fromTicks 10) lateCommit s hrun j hj
      ⟨.fromTicks 10, [.tag feed], [0]⟩ (by rw [hafter]; exact List.mem_singleton_self _)
      0 (by rw [hvalue])
  obtain rfl : product = ⟨7, [feed]⟩ := by simpa [hfactory, hreturned] using hproduct
  exact hverdict (.inr (List.mem_singleton_self _))
    ⟨.tag feed, List.mem_singleton_self _, List.mem_singleton_self _⟩

end Invalidations

end Amalgam
