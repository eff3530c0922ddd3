import Amalgam.Lib.Text
import Amalgam.Markers.State

/-!
# Cache scopes

A scope is the marker namespace of a cache: what stands before and after every key that the cache
stores in L2. Two caches share their invalidations exactly when these two texts agree.
-/

namespace Amalgam.Keys

open Text

@[simp] theorem tag_new_asStr (tag : Tag) : Tag.new tag.asStr = .ok tag := by
  rw [Tag.new, dif_pos tag.nonblank]

/-! ## Scopes -/

inductive KeyModifierMode where
  | Prefix
  | Suffix
  | None
deriving Repr, DecidableEq

/-- What a rejected control record carries: the decoder's own error, or what its validation says. -/
inductive ProtocolSource where
  | json
  | utf8
  | parseInt
  | tag (error : TagError)
  | invalidDeadlines
deriving DecidableEq

inductive MarkerError where
  | blankWireVersion
  | scopeCapacity (limit : Nat)
  | protocol (detail : String)
  | protocolWithSource (source : ProtocolSource)
deriving DecidableEq

def physicalLead (keyPrefix version : String) : KeyModifierMode → String
  | .Prefix => s!"{version}:{keyPrefix}"
  | .Suffix => keyPrefix
  | .None => keyPrefix

def physicalTrail (version : String) : KeyModifierMode → String
  | .Prefix => ""
  | .Suffix => s!":{version}"
  | .None => ""

structure CacheScope where
  keyPrefix : String
  version : String
  modifier : KeyModifierMode
  physicalPrefix : String
  physicalSuffix : String
  versioned : isBlank version = false
  lead_eq : physicalPrefix = physicalLead keyPrefix version modifier
  trail_eq : physicalSuffix = physicalTrail version modifier

namespace CacheScope

def new (keyPrefix version : String) (modifier : KeyModifierMode) :
    Except MarkerError CacheScope :=
  if h : isBlank version then .error .blankWireVersion
  else .ok
    { keyPrefix, version, modifier
      physicalPrefix := physicalLead keyPrefix version modifier
      physicalSuffix := physicalTrail version modifier
      versioned := by simpa using h
      lead_eq := rfl
      trail_eq := rfl }

/-- Scopes are compared by the two texts around a key, not by how they were configured. -/
instance : BEq CacheScope where
  beq s t := s.physicalPrefix == t.physicalPrefix && s.physicalSuffix == t.physicalSuffix

theorem beq_iff {s t : CacheScope} :
    s == t ↔ s.physicalPrefix = t.physicalPrefix ∧ s.physicalSuffix = t.physicalSuffix := by
  show (s.physicalPrefix == t.physicalPrefix && s.physicalSuffix == t.physicalSuffix) = true ↔ _
  rw [Bool.and_eq_true, beq_iff_eq, beq_iff_eq]

/-- What scopes are compared by. -/
def identity (s : CacheScope) : String × String := (s.physicalPrefix, s.physicalSuffix)

theorem beq_iff_identity {s t : CacheScope} : s == t ↔ s.identity = t.identity := by
  rw [beq_iff, identity, identity, Prod.mk.injEq]

/-- A scope is what its own configuration builds. -/
@[simp] theorem new_self (s : CacheScope) : new s.keyPrefix s.version s.modifier = .ok s := by
  cases s with
  | mk keyPrefix version modifier lead trail versioned lead_eq trail_eq =>
    subst lead_eq trail_eq
    rw [new, dif_neg (by simp [versioned])]

/-- The configured namespace reaches the scope unchanged. -/
theorem new_fields {keyPrefix version : String} {modifier : KeyModifierMode} {s : CacheScope}
    (h : new keyPrefix version modifier = .ok s) :
    s.keyPrefix = keyPrefix ∧ s.version = version ∧ s.modifier = modifier := by
  unfold new at h
  split at h
  · cases h
  · obtain rfl := Except.ok.inj h
    exact ⟨rfl, rfl, rfl⟩

/-- Two length-delimited texts; separators inside either of them are safe. -/
def storageId (s : CacheScope) : String := frame s.physicalPrefix ++ frame s.physicalSuffix

/-- What follows a storage id is determined with it. -/
theorem storageId_append_inj {s t : CacheScope} {r r' : String}
    (h : s.storageId ++ r = t.storageId ++ r') : s == t ∧ r = r' := by
  rw [storageId, storageId, String.append_assoc, String.append_assoc] at h
  have hlead := frame_append_inj h
  have htrail := frame_append_inj hlead.2
  exact ⟨beq_iff.mpr ⟨hlead.1, htrail.1⟩, htrail.2⟩

theorem storageId_congr {s t : CacheScope} (h : s == t) : s.storageId = t.storageId := by
  have hparts := beq_iff.mp h
  rw [storageId, storageId, hparts.1, hparts.2]

theorem storageId_eq_iff {s t : CacheScope} : s.storageId = t.storageId ↔ s == t := by
  constructor
  · intro h
    have happend : s.storageId ++ "" = t.storageId ++ "" := by rw [h]
    exact (storageId_append_inj happend).1
  · exact storageId_congr

end CacheScope

end Amalgam.Keys
