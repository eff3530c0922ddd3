import Amalgam.Keys.Scope

/-!
# Physical keys

A caller key joined with the cache's key prefix, and that with the wire version. Short keys are
joined in a fixed buffer and read back as UTF-8; longer ones are joined on the heap.

* **`deref_joined`** — both branches give exactly the concatenation.
* **`logical_physical`** — the caller's key is recovered from every physical key.
* **`valueKey_eq`** — the L2 key of a value is the scope's prefix, the raw key, its suffix.
-/

namespace Amalgam.Keys

open Text

/-! ## Joining -/

def inlineKey : Nat := 64

/-- The bytes of an inline key: a buffer of one fixed size. -/
abbrev InlineBuffer := { bytes : Bytes // bytes.length = inlineKey }

namespace InlineBuffer

def zero : InlineBuffer := ⟨List.replicate inlineKey 0, List.length_replicate⟩

/-- `buffer[start..start + source.len()].copy_from_slice(source)` -/
def copyFromSlice (buffer : InlineBuffer) (start : Nat) (source : Bytes)
    (h : start + source.length ≤ inlineKey) : InlineBuffer :=
  ⟨buffer.val.take start ++ source ++ buffer.val.drop (start + source.length), by
    have hsize := buffer.property
    simp only [List.length_append, List.length_take, List.length_drop]
    omega⟩

end InlineBuffer

inductive PhysicalKey where
  | Borrowed (key : String)
  | Inline (length : Nat) (bytes : InlineBuffer)
  | Owned (key : String)

namespace PhysicalKey

def joined (first second : String) : PhysicalKey :=
  let length := first.utf8ByteSize + second.utf8ByteSize
  if h : length > inlineKey then .Owned (first ++ second)
  else
    have hfirst : 0 + (utf8 first).length ≤ inlineKey := by rw [length_utf8]; omega
    have hsecond : first.utf8ByteSize + (utf8 second).length ≤ inlineKey := by
      rw [length_utf8]; omega
    .Inline length
      ((InlineBuffer.zero.copyFromSlice 0 (utf8 first) hfirst).copyFromSlice
        first.utf8ByteSize (utf8 second) hsecond)

/-- The key's text. An inline key whose bytes are no UTF-8 is unreachable in the source. -/
def deref : PhysicalKey → Option String
  | .Borrowed key => some key
  | .Inline length bytes => fromUtf8 (bytes.val.take length)
  | .Owned key => some key

/-- The owned text. -/
def intoOwned : PhysicalKey → Option String
  | .Owned key => some key
  | key => key.deref

theorem intoOwned_eq (key : PhysicalKey) : key.intoOwned = key.deref := by
  cases key <;> rfl

/-- Joining in the buffer and joining on the heap give the same text. -/
theorem deref_joined (first second : String) :
    (joined first second).deref = some (first ++ second) := by
  unfold joined
  dsimp only
  split
  · rfl
  · rename_i h
    show fromUtf8 _ = _
    rw [fromUtf8_eq_some_iff, utf8_append]
    have hlength : first.utf8ByteSize + second.utf8ByteSize
        = (utf8 first ++ utf8 second).length := by
      rw [List.length_append, length_utf8, length_utf8]
    have hfirst : (List.take first.utf8ByteSize
        (utf8 first ++ List.drop (utf8 first).length (List.replicate inlineKey 0)))
          = utf8 first := List.take_left' rfl
    simp only [InlineBuffer.copyFromSlice, InlineBuffer.zero, List.take_zero, List.nil_append,
      Nat.zero_add]
    rw [hfirst, hlength]
    exact List.take_left

end PhysicalKey

/-! ## The cache's key prefix -/

structure KeyParts where
  lead : Option String
  raw : String

namespace KeyParts

/-- An empty prefix is no prefix. -/
def new (keyPrefix : Option String) (raw : String) : KeyParts :=
  { lead := keyPrefix.filter fun text => !text.isEmpty, raw }

def physical (parts : KeyParts) : PhysicalKey :=
  match parts.lead with
  | none => .Borrowed parts.raw
  | some lead => PhysicalKey.joined lead parts.raw

theorem deref_physical (keyPrefix : Option String) (raw : String) :
    (new keyPrefix raw).physical.deref = some (keyPrefix.getD "" ++ raw) := by
  cases keyPrefix with
  | none => simp [new, physical, PhysicalKey.deref]
  | some text =>
    by_cases hempty : text = ""
    · subst hempty
      have hfilter : (some "").filter (fun text : String => !text.isEmpty) = none := by decide
      have hlead : (new (some "") raw).lead = none := hfilter
      rw [physical, hlead]
      simp [new, PhysicalKey.deref]
    · have hlead : (new (some text) raw).lead = some text := by simp [new, hempty]
      rw [physical, hlead]
      exact PhysicalKey.deref_joined text raw

end KeyParts

/-! ## The wire version -/

inductive DistributedKey where
  | Prefix (text : String)
  | Suffix (text : String)
  | Unmodified

namespace DistributedKey

def new (version : String) : KeyModifierMode → DistributedKey
  | .Prefix => .Prefix s!"{version}:"
  | .Suffix => .Suffix s!":{version}"
  | .None => .Unmodified

def physical (modifier : DistributedKey) (key : String) : PhysicalKey :=
  match modifier with
  | .Prefix lead => PhysicalKey.joined lead key
  | .Suffix trail => PhysicalKey.joined key trail
  | .Unmodified => .Borrowed key

def logical (modifier : DistributedKey) (physical : String) : Option String :=
  match modifier with
  | .Prefix lead => stripLead lead physical
  | .Suffix trail => stripTrail trail physical
  | .Unmodified => some physical

/-- The texts that the modifier puts around every key. -/
def around : DistributedKey → String × String
  | .Prefix lead => (lead, "")
  | .Suffix trail => ("", trail)
  | .Unmodified => ("", "")

theorem deref_physical (modifier : DistributedKey) (key : String) :
    (modifier.physical key).deref = some (modifier.around.1 ++ key ++ modifier.around.2) := by
  cases modifier with
  | Prefix lead => simp [physical, around, PhysicalKey.deref_joined]
  | Suffix trail => simp [physical, around, PhysicalKey.deref_joined]
  | Unmodified => simp [physical, around, PhysicalKey.deref]

theorem logical_eq_some_iff (modifier : DistributedKey) (physical key : String) :
    modifier.logical physical = some key ↔
      physical = modifier.around.1 ++ key ++ modifier.around.2 := by
  cases modifier with
  | Prefix lead => simp [logical, around, stripLead_eq_some_iff]
  | Suffix trail => simp [logical, around, stripTrail_eq_some_iff]
  | Unmodified => simp [logical, around]

/-- The logical key of a physical key is the key it was made from. -/
theorem logical_physical (modifier : DistributedKey) (key : String) :
    (modifier.physical key).deref.bind modifier.logical = some key := by
  rw [deref_physical, Option.bind_some, logical_eq_some_iff]

end DistributedKey

/-! ## The L2 key of a value -/

/-- The part of a cache's configuration that names its keys; the builder rejects a blank version. -/
structure Configuration where
  keyPrefix : Option String
  wireVersion : String
  modifier : KeyModifierMode
  versioned : isBlank wireVersion = false

namespace Configuration

/-- The scope that the builder makes of the configuration. -/
def scope (config : Configuration) : CacheScope where
  keyPrefix := config.keyPrefix.getD ""
  version := config.wireVersion
  modifier := config.modifier
  physicalPrefix := physicalLead (config.keyPrefix.getD "") config.wireVersion config.modifier
  physicalSuffix := physicalTrail config.wireVersion config.modifier
  versioned := config.versioned
  lead_eq := rfl
  trail_eq := rfl

theorem new_scope (config : Configuration) :
    CacheScope.new (config.keyPrefix.getD "") config.wireVersion config.modifier
      = .ok config.scope := CacheScope.new_self config.scope

/-- Where a value is stored in L2: the raw key with the key prefix, then with the wire version. -/
def valueKey (config : Configuration) (raw : String) : Option String := do
  let full ← (KeyParts.new config.keyPrefix raw).physical.deref
  ((DistributedKey.new config.wireVersion config.modifier).physical full).deref

theorem valueKey_eq (config : Configuration) (raw : String) :
    config.valueKey raw
      = some (config.scope.physicalPrefix ++ raw ++ config.scope.physicalSuffix) := by
  have hvalue : config.valueKey raw = ((DistributedKey.new config.wireVersion
      config.modifier).physical (config.keyPrefix.getD "" ++ raw)).deref := by
    rw [valueKey, KeyParts.deref_physical]
    rfl
  rw [hvalue, DistributedKey.deref_physical]
  show _ = some (physicalLead _ _ config.modifier ++ raw ++ physicalTrail _ config.modifier)
  cases config.modifier with
  | Prefix =>
    simp [DistributedKey.new, DistributedKey.around, physicalLead, physicalTrail, toString,
      String.append_assoc]
  | Suffix =>
    simp [DistributedKey.new, DistributedKey.around, physicalLead, physicalTrail, toString,
      String.append_assoc]
  | None =>
    simp [DistributedKey.new, DistributedKey.around, physicalLead, physicalTrail]

end Configuration

/-- Two configurations name every value alike exactly when their scopes are equal. -/
theorem scope_beq_iff_valueKey (config other : Configuration) :
    config.scope == other.scope ↔ ∀ raw, config.valueKey raw = other.valueKey raw := by
  rw [CacheScope.beq_iff]
  constructor
  · rintro ⟨hlead, htrail⟩ raw
    rw [Configuration.valueKey_eq, Configuration.valueKey_eq, hlead, htrail]
  · intro h
    apply surround_inj
    intro raw
    have hraw := h raw
    rw [Configuration.valueKey_eq, Configuration.valueKey_eq] at hraw
    exact Option.some.inj hraw

end Amalgam.Keys
